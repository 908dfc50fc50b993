-- The comparison of two stores key by key.
import BlockLedger.Contract.Ledger

namespace BlockLedger

/-- What the second of two stores has differently. -/
structure Comparison where
  countA : Nat
  countB : Nat
  heightA : UInt32
  heightB : UInt32
  /-- For each owner of keys, how many keys it has more; an owner with as
  many keys as before is left out. -/
  ownerDeltas : SortedMap ContractId Int
  /-- The texts of the keys, in key order. -/
  added : List String
  removed : List String
  changed : List String

namespace Comparison

/-- How many keys the second store has more. -/
def countDelta (r : Comparison) : Int := r.countB - r.countA

/-- No key differs. -/
def isIdentical (r : Comparison) : Bool := r.added.isEmpty && r.removed.isEmpty && r.changed.isEmpty

/-- The keys of a store that another one does not have. -/
def keysMissing (s other : Store) : List Bytes := s.keys.filter fun k => !other.contains k

/-- The keys of both stores that have different values. -/
def keysChanged (a b : Store) : List Bytes :=
  (b.toList.filter fun e => (a.get? e.1).any (· ≠ e.2)).map (·.1)

/-- Counts a key for its owner. -/
def tally (step : Int) (deltas : SortedMap ContractId Int) (key : Bytes) :
    SortedMap ContractId Int :=
  deltas.insert (ownerOf key) ((deltas.get? (ownerOf key)).getD 0 + step)

/-- The entries that are not zero. -/
def nonzero (deltas : SortedMap ContractId Int) : SortedMap ContractId Int :=
  ⟨deltas.toList.filter fun e => e.2 ≠ 0, deltas.sorted.filter _⟩

/-- Compares two stores, the first as it was and the second as it is. -/
def ofStores (a b : Store) : Outcome Comparison := do
  let added := keysMissing b a
  let removed := keysMissing a b
  let deltas := removed.foldl (tally (-1)) (added.foldl (tally 1) .empty)
  let heightA ← Ledger.currentIndex (.ofStore a)
  let heightB ← Ledger.currentIndex (.ofStore b)
  return {
    countA := a.size
    countB := b.size
    heightA := heightA
    heightB := heightB
    ownerDeltas := nonzero deltas
    added := added.map keyText
    removed := removed.map keyText
    changed := (keysChanged a b).map keyText }

end Comparison
end BlockLedger
