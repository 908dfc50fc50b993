-- Drafts: transactions, headers and stored records as they are read
-- from their fields, before lengths and codes are checked. A string that
-- is no sequence of fields is malformed; a draft that does not check is
-- reported with the field that is at fault.
import BlockLedger.Store.Record
import BlockLedger.Wire.Message

namespace BlockLedger

open Wire

/-! ## Checks of single fields -/

/-- A hash of `n` bytes. -/
def checkHash (n : Nat) (field : String) (s : Bytes) : Except CodecError (Fixed n) :=
  match Fixed.ofBytes? n s with
  | some h => .ok h
  | none => .error (.invalidLength field n s.length)

/-- A number of one byte. -/
def checkByte (field : String) (n : UInt32) : Except CodecError UInt8 :=
  if n.toNat < 256 then .ok n.toUInt8 else .error (.invalidValue field n.toNat)

/-- Reads a draft from the bytes of a value. -/
def readDraft {α : Type} [Message α] (s : Bytes) : Except CodecError α :=
  match read? s with
  | some draft => .ok draft
  | none => .error .malformed

/-! ## Transactions -/

structure SignerDraft where
  account : Bytes
  scopes : UInt32

instance : Message SignerDraft where
  empty := ⟨[], 0⟩
  add _ d
    | ⟨1, .bytes b⟩ => some { d with account := b }
    | ⟨2, .number n⟩ => some { d with scopes := n.toUInt32 }
    | field => ignore 2 d field

def SignerDraft.check (d : SignerDraft) : Except CodecError Signer := do
  let account ← checkHash 20 "signer.account" d.account
  let scopes ← checkByte "signer.scopes" d.scopes
  return ⟨account, scopes⟩

structure OracleDraft where
  id : UInt64
  code : UInt32
  result : Bytes

instance : Message OracleDraft where
  empty := ⟨0, 0, []⟩
  add _ d
    | ⟨1, .number n⟩ => some { d with id := n }
    | ⟨2, .number n⟩ => some { d with code := n.toUInt32 }
    | ⟨3, .bytes b⟩ => some { d with result := b }
    | field => ignore 3 d field

/-- A nested value without fields. -/
structure EmptyDraft where

instance : Message EmptyDraft where
  empty := ⟨⟩
  add _ d field := ignore 0 d field

/-- A nested value with one height. -/
structure HeightDraft where
  height : UInt32

instance : Message HeightDraft where
  empty := ⟨0⟩
  add _ d
    | ⟨1, .number n⟩ => some { d with height := n.toUInt32 }
    | field => ignore 1 d field

/-- A nested value with one hash. -/
structure HashDraft where
  hash : Bytes

instance : Message HashDraft where
  empty := ⟨[]⟩
  add _ d
    | ⟨1, .bytes b⟩ => some { d with hash := b }
    | field => ignore 1 d field

inductive AttributeDraft where
  | unset
  | highPriority (value : EmptyDraft)
  | oracleResponse (value : OracleDraft)
  | notValidBefore (value : HeightDraft)
  | conflicts (value : HashDraft)

/-- The kind that stands last counts; two values of that kind in a row
are read as one. -/
instance : Message AttributeDraft where
  empty := .unset
  add room d
    | ⟨1, .bytes b⟩ =>
      let value := match d with | .highPriority v => v | _ => Message.empty
      (readNested room value b).map .highPriority
    | ⟨2, .bytes b⟩ =>
      let value := match d with | .oracleResponse v => v | _ => Message.empty
      (readNested room value b).map .oracleResponse
    | ⟨3, .bytes b⟩ =>
      let value := match d with | .notValidBefore v => v | _ => Message.empty
      (readNested room value b).map .notValidBefore
    | ⟨4, .bytes b⟩ =>
      let value := match d with | .conflicts v => v | _ => Message.empty
      (readNested room value b).map .conflicts
    | field => ignore 4 d field

def AttributeDraft.check : AttributeDraft → Except CodecError Attribute
  | unset => .error (.missingField "attribute.kind")
  | highPriority _ => .ok .highPriority
  | oracleResponse d => do
    let code ← checkByte "oracle_response.code" d.code
    return .oracleResponse d.id code d.result
  | notValidBefore d => .ok (.notValidBefore d.height)
  | conflicts d => do
    let hash ← checkHash 32 "conflicts.hash" d.hash
    return .conflicts hash

structure TransactionDraft where
  version : UInt32
  nonce : UInt32
  systemFee : UInt64
  networkFee : UInt64
  validUntil : UInt32
  signers : List SignerDraft
  attributes : List AttributeDraft
  script : Bytes

instance : Message TransactionDraft where
  empty := ⟨0, 0, 0, 0, 0, [], [], []⟩
  add room d
    | ⟨1, .number n⟩ => some { d with version := n.toUInt32 }
    | ⟨2, .number n⟩ => some { d with nonce := n.toUInt32 }
    | ⟨3, .number n⟩ => some { d with systemFee := n }
    | ⟨4, .number n⟩ => some { d with networkFee := n }
    | ⟨5, .number n⟩ => some { d with validUntil := n.toUInt32 }
    | ⟨6, .bytes b⟩ =>
      (readNested room Message.empty b).map fun s => { d with signers := d.signers ++ [s] }
    | ⟨7, .bytes b⟩ =>
      (readNested room Message.empty b).map fun a => { d with attributes := d.attributes ++ [a] }
    | ⟨8, .bytes b⟩ => some { d with script := b }
    | field => ignore 8 d field

/-- Signers are checked before attributes, then the version, and last that
the bytes can be counted. -/
def TransactionDraft.check (d : TransactionDraft) : Except CodecError Transaction := do
  let signers ← d.signers.mapM SignerDraft.check
  let attributes ← d.attributes.mapM AttributeDraft.check
  let version ← checkByte "transaction.version" d.version
  match Transaction.ofContent? ⟨version, d.nonce, d.systemFee, d.networkFee, d.validUntil, signers,
    attributes, d.script⟩ with
  | some t => return t
  | none => .error .malformed

def Transaction.decode (s : Bytes) : Except CodecError Transaction := do
  let draft : TransactionDraft ← readDraft s
  draft.check

/-! ## Headers and trimmed blocks -/

structure HeaderDraft where
  version : UInt32
  parent : Bytes
  merkleRoot : Bytes
  timestamp : UInt64
  nonce : UInt64
  index : UInt32
  primary : UInt32
  nextConsensus : Bytes

instance : Message HeaderDraft where
  empty := ⟨0, [], [], 0, 0, 0, 0, []⟩
  add _ d
    | ⟨1, .number n⟩ => some { d with version := n.toUInt32 }
    | ⟨2, .bytes b⟩ => some { d with parent := b }
    | ⟨3, .bytes b⟩ => some { d with merkleRoot := b }
    | ⟨4, .number n⟩ => some { d with timestamp := n }
    | ⟨5, .number n⟩ => some { d with nonce := n }
    | ⟨6, .number n⟩ => some { d with index := n.toUInt32 }
    | ⟨7, .number n⟩ => some { d with primary := n.toUInt32 }
    | ⟨8, .bytes b⟩ => some { d with nextConsensus := b }
    | field => ignore 8 d field

def HeaderDraft.check (d : HeaderDraft) : Except CodecError Header := do
  let parent ← checkHash 32 "header.prev_hash" d.parent
  let merkleRoot ← checkHash 32 "header.merkle_root" d.merkleRoot
  let primary ← checkByte "header.primary_index" d.primary
  let nextConsensus ← checkHash 20 "header.next_consensus" d.nextConsensus
  return ⟨d.version, parent, merkleRoot, d.timestamp, d.nonce, d.index, primary, nextConsensus⟩

def Header.decode (s : Bytes) : Except CodecError Header := do
  let draft : HeaderDraft ← readDraft s
  draft.check

structure TrimmedDraft where
  header : Option HeaderDraft
  hashes : List Bytes

instance : Message TrimmedDraft where
  empty := ⟨none, []⟩
  add room d
    | ⟨1, .bytes b⟩ =>
      (readNested room (d.header.getD Message.empty) b).map fun h => { d with header := some h }
    | ⟨2, .bytes b⟩ => some { d with hashes := d.hashes ++ [b] }
    | field => ignore 2 d field

def TrimmedBlock.decode (s : Bytes) : Except CodecError TrimmedBlock := do
  let draft : TrimmedDraft ← readDraft s
  match draft.header with
  | none => .error (.missingField "trimmed_block.header")
  | some header =>
    let header ← header.check
    let hashes ← draft.hashes.mapM (checkHash 32 "trimmed_block.hashes")
    return ⟨header, hashes⟩

/-! ## Records -/

structure RecordDraft where
  blockIndex : UInt32
  transaction : Option TransactionDraft
  vmState : UInt32

instance : Message RecordDraft where
  empty := ⟨0, none, 0⟩
  add room d
    | ⟨1, .number n⟩ => some { d with blockIndex := n.toUInt32 }
    | ⟨2, .bytes b⟩ =>
      (readNested room (d.transaction.getD Message.empty) b).map fun t =>
        { d with transaction := some t }
    | ⟨3, .number n⟩ => some { d with vmState := n.toUInt32 }
    | field => ignore 3 d field

/-- The state is checked before the transaction. -/
def TransactionRecord.decode (s : Bytes) : Except CodecError TransactionRecord := do
  let draft : RecordDraft ← readDraft s
  match VmState.ofCode? draft.vmState.toNat with
  | none => .error (.invalidValue "transaction_state.vm_state" draft.vmState.toNat)
  | some vmState =>
    match draft.transaction with
    | none => return ⟨draft.blockIndex, none, vmState⟩
    | some transaction =>
      let transaction ← transaction.check
      return ⟨draft.blockIndex, some transaction, vmState⟩

structure PointerDraft where
  hash : Bytes
  index : UInt32

instance : Message PointerDraft where
  empty := ⟨[], 0⟩
  add _ d
    | ⟨1, .bytes b⟩ => some { d with hash := b }
    | ⟨2, .number n⟩ => some { d with index := n.toUInt32 }
    | field => ignore 2 d field

def BlockPointer.decode (s : Bytes) : Except CodecError BlockPointer := do
  let draft : PointerDraft ← readDraft s
  let hash ← checkHash 32 "hash_index.hash" draft.hash
  return ⟨hash, draft.index⟩

structure AccountDraft where
  balance : Bytes

instance : Message AccountDraft where
  empty := ⟨[]⟩
  add _ d
    | ⟨1, .bytes b⟩ => some { d with balance := b }
    | field => ignore 1 d field

def Account.decode (s : Bytes) : Except CodecError Account := do
  let draft : AccountDraft ← readDraft s
  match Account.ofBytes? draft.balance with
  | some account => return account
  | none => .error (.invalidLength "account.balance" 32 draft.balance.length)

structure CommitteeDraft where
  members : List Bytes

instance : Message CommitteeDraft where
  empty := ⟨[]⟩
  add _ d
    | ⟨1, .bytes b⟩ => some { d with members := d.members ++ [b] }
    | field => ignore 1 d field

def checkMember (s : Bytes) : Except CodecError PublicKey :=
  match publicKey? s with
  | some key => .ok key
  | none => .error (.invalidLength "committee.members" 33 s.length)

def decodeCommittee (s : Bytes) : Except CodecError (List PublicKey) := do
  let draft : CommitteeDraft ← readDraft s
  draft.members.mapM checkMember

end BlockLedger
