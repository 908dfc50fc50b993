-- The order of pooled transactions: those marked as urgent first, then
-- the higher fee per byte, the higher fee, and the lower hash.
import BlockLedger.Transaction

namespace BlockLedger

structure Priority where
  urgent : Bool
  feePerByte : UInt64
  fee : UInt64
  hash : Hash256
deriving DecidableEq

namespace Priority

/-- The lower hash is the higher priority. -/
def compareHash (a b : Priority) : Ordering := compare b.hash a.hash

instance : Ord Priority :=
  ⟨compareLex (compareOn Priority.urgent)
    (compareLex (compareOn Priority.feePerByte)
      (compareLex (compareOn Priority.fee) compareHash))⟩

instance : Std.TransCmp compareHash where
  eq_swap := fun {a b} => (Std.OrientedOrd.eq_swap : compare b.hash a.hash = _)
  isLE_trans := fun h h' => Std.TransOrd.isLE_trans h' h

instance : Std.TransOrd Priority :=
  inferInstanceAs (Std.TransCmp (compareLex (compareOn Priority.urgent)
    (compareLex (compareOn Priority.feePerByte)
      (compareLex (compareOn Priority.fee) compareHash))))

/-- Priorities that compare as equal are equal. -/
instance : Std.LawfulEqOrd Priority where
  eq_of_compare := fun {a b} h => by
    have h : compareOn Priority.urgent a b = .eq ∧ compareOn Priority.feePerByte a b = .eq ∧
        compareOn Priority.fee a b = .eq ∧ compareHash a b = .eq := by
      simpa only [compare, compareLex_eq_eq] using h
    obtain ⟨h1, h2, h3, h4⟩ := h
    have h1 : a.urgent = b.urgent := Std.LawfulEqOrd.eq_of_compare h1
    have h2 : a.feePerByte = b.feePerByte := Std.LawfulEqOrd.eq_of_compare h2
    have h3 : a.fee = b.fee := Std.LawfulEqOrd.eq_of_compare h3
    have h4 : b.hash = a.hash := Std.LawfulEqOrd.eq_of_compare h4
    cases a; cases b
    simp_all

/-- The priority of a transaction with its hash. -/
def of (t : Transaction) (hash : Hash256) : Priority :=
  ⟨t.isHighPriority, t.networkFee / (max t.size 1).toUInt64, t.networkFee, hash⟩

end Priority
end BlockLedger
