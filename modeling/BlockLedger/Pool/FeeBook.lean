-- The fee book of the pool: what each sender would pay for its pooled
-- transactions together, and which pooled transaction answers which
-- request. A sender may not commit more than it holds.
import BlockLedger.Contract.Gas

namespace BlockLedger

structure FeeBook where
  /-- The fees of each sender; a sender without any is not listed. -/
  totals : SortedMap Hash160 Amount
  /-- The owner of each answered request. -/
  oracles : SortedMap UInt64 Hash256

/-- Whether the fees of a transaction can be booked. -/
inductive Clearance where
  | granted
  /-- What is available is the balance and the fees that are set free. -/
  | insufficientFunds (sender : Hash160) (available required : Amount)
  | duplicateOracle (id : UInt64)

/-- Why a transaction cannot be booked. -/
inductive BookingError where
  | duplicateOracle (id : UInt64) (owner : Hash256)
  | failure (failure : Failure)

def BookingError.message : BookingError → String
  | duplicateOracle id owner =>
    "oracle response " ++ toString id.toNat ++ " is already pooled by " ++ owner.toText
  | failure f => f.message

namespace FeeBook

def empty : FeeBook := ⟨.empty, .empty⟩

/-- The pooled fees of a sender. -/
def total (b : FeeBook) (sender : Hash160) : Amount := (b.totals.get? sender).getD 0

/-- The fees that a sender gets back from transactions. -/
def freed (sender : Hash160) : Amount → List Transaction → Outcome Amount
  | sum, [] => .ok sum
  | sum, t :: rest => do
    if (← t.sender) = sender then freed sender (← Amount.add sum t.fee) rest
    else freed sender sum rest

/-- Whether another transaction answers the request of this one. -/
def oracleTaken? (b : FeeBook) (t : Transaction) : Option UInt64 := do
  let id ← t.oracleId?
  let owner ← b.oracles.get? id
  if owner = t.hash then none else some id

/-- Whether a transaction may join, once the `evicted` ones have left. -/
def check (b : FeeBook) (t : Transaction) (evicted : List Transaction) (c : Cache) :
    Outcome Clearance :=
  match b.oracleTaken? t with
  | some id => .ok (.duplicateOracle id)
  | none => do
    let sender ← t.sender
    let balance ← Gas.balance c sender
    let freed ← freed sender 0 evicted
    let required ← Amount.add t.fee (b.total sender)
    let available ← Amount.add balance freed
    return if available < required then .insufficientFunds sender available required
      else .granted

/-- Books the request that a transaction answers. -/
def addOracle (b : FeeBook) (t : Transaction) : Except BookingError FeeBook :=
  match t.oracleId? with
  | none => .ok b
  | some id =>
    match b.oracles.get? id with
    | some owner => .error (.duplicateOracle id owner)
    | none => .ok { b with oracles := b.oracles.insert id t.hash }

/-- Books the fees of a transaction. -/
def addFee (b : FeeBook) (t : Transaction) : Outcome FeeBook := do
  let sender ← t.sender
  if t.fee = 0 then return b
  else return { b with totals := b.totals.insert sender (← Amount.add (b.total sender) t.fee) }

/-- Books a transaction: first the request that it answers, then its
fees. -/
def add (b : FeeBook) (t : Transaction) : Except BookingError Unit × FeeBook :=
  match b.addOracle t with
  | .error e => (.error e, b)
  | .ok b =>
    match b.addFee t with
    | .error f => (.error (.failure f), b)
    | .ok b => (.ok (), b)

/-- Takes the fees of a transaction out of the book. -/
def removeFee (b : FeeBook) (t : Transaction) : Outcome FeeBook := do
  let sender ← t.sender
  match b.totals.get? sender with
  | some total =>
    let total ← Amount.sub total t.fee
    if total = 0 then return { b with totals := b.totals.erase sender }
    else return { b with totals := b.totals.insert sender total }
  | none => if t.fee = 0 then return b else raise (.unknownSender t.hash sender)

/-- Gives up the request that a transaction answers, if it owns it. -/
def removeOracle (b : FeeBook) (t : Transaction) : FeeBook :=
  match t.oracleId? with
  | none => b
  | some id =>
    if b.oracles.get? id = some t.hash then { b with oracles := b.oracles.erase id } else b

/-- Takes a transaction out of the book. -/
def remove (b : FeeBook) (t : Transaction) : Outcome FeeBook :=
  (b.removeFee t).map fun b => b.removeOracle t

end FeeBook
end BlockLedger
