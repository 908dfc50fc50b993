-- Verdicts on a transaction that asks to join the pool, and the checks
-- that look only at the transaction or at the chain.
import BlockLedger.Contract.Ledger
import BlockLedger.Contract.Policy

namespace BlockLedger

/-- Why a transaction is no good by itself, or not yet. -/
inductive TransactionFault where
  | noSigners
  | duplicateSigner
  | selfConflict
  | manyOracles
  | notYetValid
deriving DecidableEq

def TransactionFault.message : TransactionFault → String
  | noSigners => "transaction has no signers"
  | duplicateSigner => "duplicate signer"
  | selfConflict => "transaction conflicts with itself"
  | manyOracles => "more than one oracle response"
  | notYetValid => "not valid before a later block"

inductive Verdict where
  | succeed
  | alreadyInPool
  /-- The transaction is on the chain. -/
  | alreadyExists
  /-- It conflicts with a transaction that it cannot replace. -/
  | hasConflicts
  | expired
  | invalid (fault : TransactionFault)
  /-- A signer is blocked. -/
  | policyFail
  | insufficientFunds
  | duplicateOracle (id : UInt64)
  /-- The pool is full of transactions that rank higher. -/
  | outOfMemory
deriving DecidableEq

/-! ## Checks of the transaction alone -/

def Attribute.isOracle : Attribute → Bool
  | .oracleResponse _ _ _ => true
  | _ => false

/-- Somebody signed, nobody twice, the transaction declares no conflict
with itself, and it answers at most one request. -/
def checkAlone (t : Transaction) : Verdict :=
  if t.signers = [] then .invalid .noSigners
  else if ¬ t.accounts.Nodup then .invalid .duplicateSigner
  else if t.hash ∈ t.declared then .invalid .selfConflict
  else if 1 < t.attributes.countP Attribute.isOracle then .invalid .manyOracles
  else .succeed

/-! ## Checks against the chain -/

/-- Whether any of the hashes is on the chain. -/
def anyOnChain (c : Cache) : List Hash256 → Outcome Bool
  | [] => .ok false
  | hash :: rest => do
    if ← Ledger.containsTransaction c hash then return true else anyOnChain c rest

/-- Whether the height is past the last block of the transaction, or the
last block is too far off. -/
def isExpired (t : Transaction) (height increment : UInt32) : Bool :=
  t.validUntil ≤ height || height.toNat + increment.toNat < t.validUntil.toNat

/-- Whether the transaction waits for a later block. -/
def isEarly (t : Transaction) (height : UInt32) : Bool :=
  t.attributes.any fun
    | .notValidBefore start => height < start
    | _ => false

/-- The network fee that the size of a transaction asks for, at most the
largest fee that can be written. -/
def sizeFee (t : Transaction) (feePerByte : UInt64) : Nat :=
  min (t.size * feePerByte.toNat) (2 ^ 64 - 1)

/-- The transaction is new to the chain and free of conflicts with it,
its time has come and not passed, no signer is blocked, and it pays for
its size. -/
def checkOnChain (t : Transaction) (c : Cache) (settings : Settings) : Outcome Verdict := do
  if ← Ledger.containsTransaction c t.hash then return .alreadyExists
  if ← Ledger.hasConflict c t.hash t.accounts settings.maxTraceableBlocks then return .hasConflicts
  if ← anyOnChain c t.declared then return .hasConflicts
  let height ← Ledger.currentIndex c
  if isExpired t height settings.maxValidUntilBlockIncrement then return .expired
  if isEarly t height then return .invalid .notYetValid
  if t.accounts.any (Policy.isBlocked c) then return .policyFail
  if t.networkFee.toNat < sizeFee t (← Policy.feePerByte c) then return .insufficientFunds
  return .succeed

end BlockLedger
