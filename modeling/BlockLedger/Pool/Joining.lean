-- Joining the pool. A transaction may replace pooled ones that it is in
-- conflict with, or the lowest one of a full pool; it joins only if
-- every check passes, and otherwise the pool stays as it is.
import BlockLedger.Pool.Basic

namespace BlockLedger.Pool

/-- The pooled transactions in conflict with a transaction: those that it
declares, and those that declare it. -/
def conflicting (p : Pool) (t : Transaction) : SortedSet Hash256 :=
  (t.declared.filter p.contains ++ p.declarers t.hash).foldl (fun s h => s.insert h ()) .empty

/-- The network fees of transactions together, at most the largest fee
that can be written. -/
def sumFees (ts : List Transaction) : Nat :=
  ts.foldl (fun sum t => min (sum + t.networkFee.toNat) (2 ^ 64 - 1)) 0

/-- Whether a transaction may replace others: their senders signed it,
and it pays more network fee than all of them together. -/
def mayReplace (t : Transaction) (others : List Transaction) : Bool :=
  (others.all fun o => o.sender?.any (t.accounts.contains ·)) && sumFees others < t.networkFee.toNat

/-- The conflicting transactions, if there are none that cannot be
replaced. -/
def replaced (p : Pool) (t : Transaction) : Option (SortedSet Hash256) :=
  let found := p.conflicting t
  if found.isEmpty then some found
  else if mayReplace t (found.keys.filterMap p.get?) then some found
  else none

/-- The transactions that leave for a new one: those that it replaces,
and one more if the pool is full, which must rank lower. -/
def makeRoom (p : Pool) (t : Transaction) (replaced : SortedSet Hash256) :
    Option (SortedSet Hash256) :=
  if p.size - replaced.size < p.capacity then some replaced
  else
    match p.sorted.keys.find? fun priority => !replaced.contains priority.hash with
    | none => none
    | some lowest =>
      if compare lowest (Priority.of t t.hash) = .lt then some (replaced.insert lowest.hash ())
      else none

/-- What is to be done with a transaction. -/
inductive Plan where
  | reject (verdict : Verdict)
  | accept (evicted : SortedSet Hash256)

/-- The part of the plan after the checks of the transaction and of the
chain. -/
def planInPool (p : Pool) (t : Transaction) (c : Cache) : Outcome Plan :=
  match p.replaced t with
  | none => .ok (.reject .hasConflicts)
  | some replaced =>
    match p.makeRoom t replaced with
    | none => .ok (.reject .outOfMemory)
    | some evicted =>
      (p.book.check t (evicted.keys.filterMap p.get?) c).map fun
        | .granted => .accept evicted
        | .insufficientFunds _ _ _ => .reject .insufficientFunds
        | .duplicateOracle id => .reject (.duplicateOracle id)

/-- Every check in turn. -/
def plan (p : Pool) (t : Transaction) (c : Cache) (settings : Settings) : Outcome Plan := do
  if p.contains t.hash then return .reject .alreadyInPool
  match checkAlone t with
  | .succeed =>
    match ← checkOnChain t c settings with
    | .succeed => p.planInPool t c
    | verdict => return .reject verdict
  | verdict => return .reject verdict

/-- Offers a transaction to the pool. -/
def offer (p : Pool) (t : Transaction) (c : Cache) (settings : Settings) :
    Outcome Verdict × Pool :=
  match p.plan t c settings with
  | .error f => (.error f, p)
  | .ok (.reject verdict) => (.ok verdict, p)
  | .ok (.accept evicted) =>
    match p.book.add t with
    | (.error (.duplicateOracle id _), _) => (.ok (.duplicateOracle id), p)
    | (.error (.failure f), book) => (.error f, { p with book := book })
    | (.ok (), book) =>
      match { p with book := book }.removeAll evicted.keys with
      | (.error f, p) => (.error f, p)
      | (.ok _, p) => (.ok .succeed, p.insert t)

end BlockLedger.Pool
