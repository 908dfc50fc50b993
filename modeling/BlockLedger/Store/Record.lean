-- The values that the built-in contracts store. Each shape of value has a
-- name, and a stored item holds its bytes or one value of one shape.
import BlockLedger.Address
import BlockLedger.Block

namespace BlockLedger

/-! ## Shapes -/

/-- What the ledger keeps under a transaction hash: the transaction with
its block, or only a block that declared a conflict with the hash. -/
structure TransactionRecord where
  blockIndex : UInt32
  transaction : Option Transaction
  vmState : VmState
deriving DecidableEq

namespace TransactionRecord

/-- The mark of a declared conflict. -/
def stub (blockIndex : UInt32) : TransactionRecord := ⟨blockIndex, none, .none⟩

def isStub (r : TransactionRecord) : Bool := r.transaction.isNone

open Wire in
def bytes (r : TransactionRecord) : Bytes :=
  write (numberField 1 r.blockIndex.toUInt64 ++
    (r.transaction.toList.map fun t => listedField 2 t.bytes) ++
    numberField 3 r.vmState.code.toUInt64)

end TransactionRecord

open Wire in
def BlockPointer.bytes (p : BlockPointer) : Bytes :=
  write (bytesField 1 p.hash.bytes ++ numberField 2 p.index.toUInt64)

/-- The pointer before the first block. -/
def BlockPointer.zero : BlockPointer := ⟨.zero 32, 0⟩

/-- What an account holds, which always fits a stored amount. -/
structure Account where
  balance : Amount
  fits : balance < Amount.limit
deriving DecidableEq

namespace Account

/-- An account that holds nothing. -/
def zero : Account := ⟨0, by decide⟩

/-- The account with more. -/
def credit (a : Account) (amount : Amount) : Outcome Account :=
  if h : a.balance + amount < Amount.limit then .ok ⟨a.balance + amount, h⟩
  else raise (.amountOverflow a.balance amount)

/-- The account with less; it should hold that much. -/
def debit (a : Account) (amount : Amount) : Account :=
  ⟨a.balance - amount, Nat.lt_of_le_of_lt (Nat.sub_le _ _) a.fits⟩

/-- The account with a balance of at most 32 bytes. -/
def ofBytes? (s : Bytes) : Option Account :=
  if h : s.length ≤ 32 then
    some ⟨leValue s, Nat.lt_of_lt_of_le (leValue_lt s) (Nat.pow_le_pow_right (by decide) h)⟩
  else none

open Wire in
def bytes (a : Account) : Bytes := write (bytesField 1 a.balance.bytes)

end Account

open Wire in
/-- The bytes of a list of committee members. -/
def committeeBytes (members : List PublicKey) : Bytes :=
  write (members.map fun k => listedField 1 k.bytes)

/-! ## Items -/

/-- A stored item: bytes as the store has them, or a value read from
such bytes or made anew. -/
inductive Item where
  | raw (bytes : Bytes)
  | pointer (value : BlockPointer)
  | transaction (value : TransactionRecord)
  | account (value : Account)
deriving DecidableEq

/-- The bytes that are stored for an item. -/
def Item.bytes : Item → Bytes
  | raw b => b
  | pointer v => v.bytes
  | transaction v => v.bytes
  | account v => v.bytes

end BlockLedger
