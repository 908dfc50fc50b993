-- Blocks. The header names the parent and carries the root of a hash
-- tree over the transactions; a block is named by the hash of its header.
import BlockLedger.Transaction

namespace BlockLedger

/-! ## The hash tree -/

/-- One level of the tree from the level below: neighbours are hashed
together, and one without a neighbour is hashed with itself. -/
def merkleLevel : List Hash256 → List Hash256
  | [] => []
  | [a] => [sha256 (a.bytes ++ a.bytes)]
  | a :: b :: rest => sha256 (a.bytes ++ b.bytes) :: merkleLevel rest

theorem length_merkleLevel (l : List Hash256) : (merkleLevel l).length = (l.length + 1) / 2 := by
  induction l using merkleLevel.induct with
  | case1 => rfl
  | case2 => simp [merkleLevel]
  | case3 a b rest ih => simp only [merkleLevel, List.length_cons, ih]; omega

/-- The root over a level, at most `rounds` levels up. -/
def merkleRootIn : (rounds : Nat) → List Hash256 → Hash256
  | _, [] => .zero 32
  | _, [root] => root
  | 0, _ => .zero 32
  | rounds + 1, level => merkleRootIn rounds (merkleLevel level)

/-- The root of the tree over a list of hashes; zero over no hashes. -/
def merkleRoot (hashes : List Hash256) : Hash256 := merkleRootIn hashes.length hashes

/-! ## Headers and blocks -/

structure Header where
  version : UInt32
  parent : Hash256
  merkleRoot : Hash256
  timestamp : UInt64
  nonce : UInt64
  index : UInt32
  /-- The place of the proposer among the validators. -/
  primary : UInt8
  nextConsensus : Hash160
deriving DecidableEq

namespace Header

open Wire in
def fields (h : Header) : List Field :=
  numberField 1 h.version.toUInt64 ++ bytesField 2 h.parent.bytes ++
    bytesField 3 h.merkleRoot.bytes ++ numberField 4 h.timestamp ++ numberField 5 h.nonce ++
    numberField 6 h.index.toUInt64 ++ numberField 7 h.primary.toUInt64 ++
    bytesField 8 h.nextConsensus.bytes

/-- The canonical bytes of a header. -/
def bytes (h : Header) : Bytes := Wire.write h.fields

def hash (h : Header) : Hash256 := sha256 h.bytes

/-- A header as scripts see it, with the number of transactions. -/
def toItem (h : Header) (hash : Hash256) (count : Nat) : StackItem :=
  .array
    [.ofHash hash, .integer h.version.toNat, .ofHash h.parent, .ofHash h.merkleRoot,
     .integer h.timestamp.toNat, .integer h.nonce.toNat, .integer h.index.toNat,
     .integer h.primary.toNat, .ofHash h.nextConsensus, .integer count]

end Header

/-- A block as the store keeps it: the header and the names of the
transactions in order. -/
structure TrimmedBlock where
  header : Header
  hashes : List Hash256
deriving DecidableEq

namespace TrimmedBlock

def hash (b : TrimmedBlock) : Hash256 := b.header.hash

open Wire in
def bytes (b : TrimmedBlock) : Bytes :=
  write (listedField 1 b.header.bytes :: b.hashes.map fun h => listedField 2 h.bytes)

def toItem (b : TrimmedBlock) : StackItem := b.header.toItem b.hash b.hashes.length

end TrimmedBlock

structure Block where
  header : Header
  transactions : List Transaction
deriving DecidableEq

namespace Block

def hash (b : Block) : Hash256 := b.header.hash

def index (b : Block) : UInt32 := b.header.index

/-- The network fees of all transactions together. -/
def networkFee (b : Block) : Amount :=
  (b.transactions.map fun t => t.networkFee.toNat).foldr (· + ·) 0

/-- The system fees of all transactions together. -/
def systemFee (b : Block) : Amount :=
  (b.transactions.map fun t => t.systemFee.toNat).foldr (· + ·) 0

def trim (b : Block) : TrimmedBlock := ⟨b.header, b.transactions.map (·.hash)⟩

end Block

/-- The hash and the index of a block. -/
structure BlockPointer where
  hash : Hash256
  index : UInt32
deriving DecidableEq

/-! ## Which block may follow the tip -/

namespace Block

/-- The block is the first one, or the one after the tip. -/
def checkLink (b : Block) : Option BlockPointer → Except BlockFault Unit
  | none => if b.index = 0 then .ok () else .error (.notFirst b.index)
  | some tip =>
    if b.index.toNat ≠ tip.index.toNat + 1 then .error (.wrongIndex tip.index b.index)
    else if b.header.parent ≠ tip.hash then .error (.wrongParent b.index b.header.parent tip.hash)
    else .ok ()

/-- The header carries the root over the block's transactions. -/
def checkMerkleRoot (b : Block) : Except BlockFault Unit :=
  let actual := BlockLedger.merkleRoot (b.transactions.map (·.hash))
  if b.header.merkleRoot = actual then .ok ()
  else .error (.wrongMerkleRoot b.index b.header.merkleRoot actual)

/-- No transaction was seen before in the block, and each is signed. -/
def checkEach (index : UInt32) : (seen : List Hash256) → List Transaction → Except BlockFault Unit
  | _, [] => .ok ()
  | seen, t :: rest =>
    let hash := t.hash
    if hash ∈ seen then .error (.repeatedTransaction index hash)
    else if t.signers = [] then .error (.unsignedTransaction index hash)
    else checkEach index (hash :: seen) rest

def checkTransactions (b : Block) : Except BlockFault Unit := checkEach b.index [] b.transactions

/-- The proposer is one of the validators. -/
def checkPrimary (b : Block) (validators : Nat) : Except BlockFault Unit :=
  if b.header.primary.toNat < validators then .ok ()
  else .error (.primaryOutOfRange b.header.primary validators)

/-- Every check in turn; the first that fails is reported. -/
def check (b : Block) (tip : Option BlockPointer) (validators : Nat) : Except BlockFault Unit := do
  b.checkLink tip
  b.checkMerkleRoot
  b.checkTransactions
  b.checkPrimary validators

end Block

/-- A failed check where the block should have been checked before. -/
def mustPass (checked : Except BlockFault Unit) : Outcome Unit :=
  match checked with
  | .ok () => .ok ()
  | .error f => raise (.block f)

end BlockLedger
