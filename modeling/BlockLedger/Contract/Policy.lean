-- The policy contract: the network fee per byte and the blocked accounts.
-- Only the committee changes them.
import BlockLedger.Contract.Committee

namespace BlockLedger.Policy

/-- The fee per byte. -/
def feeKey : Key := ⟨Contract.policy.id, 10, []⟩

/-- The mark of a blocked account. -/
def blockedKey (account : Hash160) : Key := ⟨Contract.policy.id, 15, account.bytes⟩

def defaultFee : Nat := 1000

def maxFee : Nat := 100000000

/-- The amount in a byte string, if it is below 2^64. -/
def feeOfBytes? (s : Bytes) : Option UInt64 :=
  match Amount.ofBytes? s with
  | some a => if a < 2 ^ 64 then some a.toUInt64 else none
  | none => none

def feePerByte (c : Cache) : Outcome UInt64 :=
  match c.get? feeKey with
  | none => .ok defaultFee.toUInt64
  | some item =>
    match feeOfBytes? item.bytes with
    | some fee => .ok fee
    | none => corrupted feeKey (.invalidLength "fee_per_byte" 8 item.bytes.length)

def isBlocked (c : Cache) (account : Hash160) : Bool := c.contains (blockedKey account)

/-- The committee must have signed. -/
def requireCommittee : Run Unit := do
  let signed ← Run.ofOutcome (Committee.hasWitness (← get))
  if !signed then throw (.call .unauthorized)

def setFee (fee : Int) : Run Unit := do
  if fee < 0 ∨ (maxFee : Int) < fee then
    throw (.call (.invalidArgument (.feeOutOfRange fee maxFee)))
  requireCommittee
  Run.put feeKey (.raw (Amount.bytes fee.toNat))

/-- Blocks an account; tells whether it was not blocked before. -/
def blockAccount (account : Hash160) : Run Bool := do
  requireCommittee
  if Contract.isAddress account then throw (.call (.invalidArgument (.contractAccount account)))
  if isBlocked (← get).cache account then return false
  Run.add (blockedKey account) (.raw [])
  return true

/-- Lifts the block of an account; tells whether it was blocked. -/
def unblockAccount (account : Hash160) : Run Bool := do
  requireCommittee
  if !isBlocked (← get).cache account then return false
  Run.delete (blockedKey account)
  return true

/-- Stores the default fee when the chain is founded. -/
def found : Run Unit := Run.add feeKey (.raw (Amount.bytes defaultFee))

/-- The only argument is an account. -/
def accountArgument (args : List StackItem) : Run Hash160 := do
  Run.ofOutcome (expectCount args 1)
  Run.ofOutcome (hashArgument 20 args 0 "account")

def invoke (method : String) (args : List StackItem) : Run StackItem :=
  match method with
  | "getFeePerByte" => do
    Run.ofOutcome (expectCount args 0)
    let fee ← Run.query feePerByte
    return .integer fee.toNat
  | "setFeePerByte" => do
    Run.ofOutcome (expectCount args 1)
    let fee ← Run.ofOutcome (integerArgument args 0 "value")
    setFee fee
    return .null
  | "isBlocked" => do
    let account ← accountArgument args
    return .boolean (isBlocked (← get).cache account)
  | "blockAccount" => do
    let account ← accountArgument args
    return .boolean (← blockAccount account)
  | "unblockAccount" => do
    let account ← accountArgument args
    return .boolean (← unblockAccount account)
  | method => throw (.call (.methodNotFound Contract.policy.name method))

end BlockLedger.Policy
