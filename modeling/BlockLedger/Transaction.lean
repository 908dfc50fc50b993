-- Transactions. A transaction is named by the hash of its bytes, and
-- its first signer, the sender, pays its fees.
import BlockLedger.Amount
import BlockLedger.Sha256
import BlockLedger.Wire.Field

namespace BlockLedger

/-- How the execution of a script ended. -/
inductive VmState where
  | none
  | halt
  | fault
  | break
deriving DecidableEq

namespace VmState

def code : VmState → UInt8
  | none => 0
  | halt => 1
  | fault => 2
  | .break => 4

def ofCode? (n : Nat) : Option VmState :=
  if n = 0 then some none
  else if n = 1 then some halt
  else if n = 2 then some fault
  else if n = 4 then some .break
  else Option.none

end VmState

/-- An account that signed a transaction, and what its signature is for. -/
structure Signer where
  account : Hash160
  scopes : UInt8
deriving DecidableEq

namespace Signer

open Wire in
def fields (s : Signer) : List Field :=
  bytesField 1 s.account.bytes ++ numberField 2 s.scopes.toUInt64

def toItem (s : Signer) : StackItem := .array [.ofHash s.account, .integer s.scopes.toNat]

end Signer

inductive Attribute where
  | highPriority
  /-- The answer to a request to the outside; a request is answered once. -/
  | oracleResponse (id : UInt64) (code : UInt8) (result : Bytes)
  | notValidBefore (height : UInt32)
  /-- The transaction with this hash must not be accepted as well. -/
  | conflicts (hash : Hash256)
deriving DecidableEq

open Wire in
/-- An attribute is one nested value, whose number is its kind. -/
def Attribute.fields : Attribute → List Field
  | highPriority => [listedField 1 (write [])]
  | oracleResponse id code result =>
    [listedField 2 (write (numberField 1 id ++ numberField 2 code.toUInt64 ++ bytesField 3 result))]
  | notValidBefore height => [listedField 3 (write (numberField 1 height.toUInt64))]
  | conflicts hash => [listedField 4 (write (bytesField 1 hash.bytes))]

/-- What a transaction says. -/
structure Transaction.Content where
  version : UInt8
  nonce : UInt32
  systemFee : UInt64
  networkFee : UInt64
  /-- The last block that may hold the transaction. -/
  validUntil : UInt32
  signers : List Signer
  attributes : List Attribute
  script : Bytes
deriving DecidableEq

namespace Transaction.Content

open Wire in
def fields (c : Content) : List Field :=
  numberField 1 c.version.toUInt64 ++ numberField 2 c.nonce.toUInt64 ++
    numberField 3 c.systemFee ++ numberField 4 c.networkFee ++
    numberField 5 c.validUntil.toUInt64 ++
    c.signers.map (fun s => listedField 6 (write s.fields)) ++
    c.attributes.map (fun a => listedField 7 (write a.fields)) ++ bytesField 8 c.script

/-- The canonical bytes of a transaction. -/
def bytes (c : Content) : Bytes := Wire.write c.fields

end Transaction.Content

/-- A transaction. Its bytes are few enough to be counted, so that they
can be nested in a stored value. -/
structure Transaction extends Transaction.Content where
  fits : toContent.bytes.length < 2 ^ 64
deriving DecidableEq

instance : Inhabited Transaction := ⟨⟨0, 0, 0, 0, 0, [], [], []⟩, by decide⟩

namespace Transaction

/-- The transaction that says what is given, if its bytes can be counted. -/
def ofContent? (c : Content) : Option Transaction :=
  if h : c.bytes.length < 2 ^ 64 then some ⟨c, h⟩ else none

theorem ofContent?_toContent (t : Transaction) : ofContent? t.toContent = some t := dif_pos t.fits

/-- The name of a transaction. -/
def hash (t : Transaction) : Hash256 := sha256 t.bytes

/-- The size that the fee per byte is charged for. -/
def size (t : Transaction) : Nat := t.bytes.length

/-- The accounts that signed, in order. -/
def accounts (t : Transaction) : List Hash160 := t.signers.map (·.account)

/-- The first signer, if anyone signed. -/
def sender? (t : Transaction) : Option Hash160 := t.accounts.head?

/-- The first signer; a transaction without one should not have come here. -/
def sender (t : Transaction) : Outcome Hash160 :=
  match t.sender? with
  | some account => .ok account
  | none => raise .noSigners

/-- What the sender pays. -/
def fee (t : Transaction) : Amount := .ofFees t.systemFee t.networkFee

/-- The request that the first oracle response of the transaction answers. -/
def oracleId? (t : Transaction) : Option UInt64 :=
  t.attributes.findSome? fun
    | .oracleResponse id _ _ => some id
    | _ => none

/-- The hashes that the transaction declares a conflict with. -/
def declared (t : Transaction) : List Hash256 :=
  t.attributes.filterMap fun
    | .conflicts hash => some hash
    | _ => none

def isHighPriority (t : Transaction) : Bool :=
  t.attributes.any fun
    | .highPriority => true
    | _ => false

/-- A transaction as scripts see it. -/
def toItem (t : Transaction) : Outcome StackItem := do
  let sender ← t.sender
  return .array
    [.ofHash t.hash, .integer t.version.toNat, .integer t.nonce.toNat, .ofHash sender,
     .integer t.systemFee.toNat, .integer t.networkFee.toNat, .integer t.validUntil.toNat,
     .byteString t.script]

end Transaction
end BlockLedger
