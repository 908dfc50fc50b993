-- The store: a map from keys to values in key order, and the change
-- sets that turn one store into the next.
import BlockLedger.Address
import BlockLedger.SortedMap

namespace BlockLedger

/-! ## Keys with one start -/

/-- A key between the start and a key that has the start has it as well. -/
theorem isPrefixOf_of_between {lead k k' : Bytes} (hk : (compare k lead).isLT = false)
    (hkk' : compare k k' = .lt) (hk' : lead.isPrefixOf k' = true) : lead.isPrefixOf k = true := by
  induction lead generalizing k k' with
  | nil => rfl
  | cons a lead ih =>
    rcases k' with _ | ⟨c, k'⟩
    · cases hk'
    rcases k with _ | ⟨b, k⟩
    · cases hk
    simp only [List.isPrefixOf, Bool.and_eq_true, beq_iff_eq] at hk' ⊢
    obtain ⟨rfl, hk'⟩ := hk'
    simp only [List.compare_cons_cons] at hk hkk'
    -- the first byte cannot differ: it is neither below nor above
    have hb : compare b a = .eq := by
      cases h : compare b a with
      | lt => simp [h] at hk
      | eq => rfl
      | gt => simp [h] at hkk'
    simp only [hb, Ordering.eq_then] at hk hkk'
    exact ⟨(Std.LawfulEqOrd.eq_of_compare hb).symm, ih hk hkk' hk'⟩

theorem not_lt_of_isPrefixOf {lead k : Bytes} (h : lead.isPrefixOf k = true) :
    (compare k lead).isLT = false := by
  induction lead generalizing k with
  | nil => cases k <;> rfl
  | cons a lead ih =>
    rcases k with _ | ⟨b, k⟩
    · cases h
    simp only [List.isPrefixOf, Bool.and_eq_true, beq_iff_eq] at h
    obtain ⟨rfl, h⟩ := h
    simpa only [List.compare_cons_cons, Std.ReflOrd.compare_self, Ordering.eq_then] using ih h

namespace SortedMap

variable {ν : Type}

/-- The entries from the key `lead` on, up to the first whose key does not
start with it. -/
def startingWith (m : SortedMap Bytes ν) (lead : Bytes) : SortedMap Bytes ν :=
  ⟨(m.toList.dropWhile fun e => (compare e.1 lead).isLT).takeWhile fun e => lead.isPrefixOf e.1,
    m.sorted.sublist ((List.takeWhile_sublist _).trans (List.dropWhile_sublist _))⟩

/-- From a key on, the keys with the start come first. -/
theorem takeWhile_eq_filter {lead : Bytes} {l : List (Bytes × ν)}
    (hs : l.Pairwise fun a b => compare a.1 b.1 = .lt)
    (hl : ∀ e ∈ l, (compare e.1 lead).isLT = false) :
    (l.takeWhile fun e => lead.isPrefixOf e.1) = l.filter fun e => lead.isPrefixOf e.1 := by
  induction l with
  | nil => rfl
  | cons e rest ih =>
    have hp := List.pairwise_cons.1 hs
    cases he : lead.isPrefixOf e.1 with
    | true =>
      simp only [List.takeWhile_cons, List.filter_cons, he, if_true]
      rw [ih hp.2 fun e' he' => hl e' (List.mem_cons_of_mem _ he')]
    | false =>
      have hrest : ∀ e' ∈ rest, ¬ lead.isPrefixOf e'.1 = true := fun e' he' h => by
        rw [isPrefixOf_of_between (hl e List.mem_cons_self) (hp.1 e' he') h] at he
        cases he
      simp only [List.takeWhile_cons, List.filter_cons, he, Bool.false_eq_true, if_false]
      exact (List.filter_eq_nil_iff.2 hrest).symm

/-- The entries that stand together are all that have the start. -/
theorem startingWith_eq_filterKeys (m : SortedMap Bytes ν) (lead : Bytes) :
    m.startingWith lead = m.filterKeys lead.isPrefixOf := by
  apply ext_toList
  obtain ⟨l, hs⟩ := m
  simp only [startingWith, filterKeys]
  induction l with
  | nil => rfl
  | cons e rest ih =>
    have hp := List.pairwise_cons.1 hs
    cases he : (compare e.1 lead).isLT with
    | true =>
      have hne : ¬ lead.isPrefixOf e.1 = true := fun h => by
        rw [not_lt_of_isPrefixOf h] at he
        cases he
      rw [List.filter_cons, if_neg hne, List.dropWhile_cons, if_pos he]
      exact ih hp.2
    | false =>
      rw [List.dropWhile_cons, if_neg (by rw [he]; exact Bool.false_ne_true)]
      refine takeWhile_eq_filter hs fun e' he' => ?_
      rcases List.mem_cons.1 he' with rfl | he'
      · exact he
      · cases h : (compare e'.1 lead).isLT with
        | false => rfl
        | true =>
          have hlt : compare e.1 lead = .lt :=
            Std.TransCmp.lt_trans (hp.1 e' he') (Ordering.isLT_iff_eq_lt.1 h)
          rw [hlt] at he
          cases he

theorem get?_startingWith (m : SortedMap Bytes ν) (lead k : Bytes) :
    (m.startingWith lead).get? k = if lead.isPrefixOf k then m.get? k else none := by
  rw [startingWith_eq_filterKeys, get?_filterKeys]

end SortedMap

/-! ## Stores -/

/-- The content of a store. A snapshot is the content at one moment. -/
abbrev Store := SortedMap Bytes Bytes

/-- What one block writes: a new value for a key, or none to delete it. -/
abbrev ChangeSet := SortedMap Bytes (Option Bytes)

namespace Store

/-- Writes or deletes one key. -/
def write (s : Store) (key : Bytes) : Option Bytes → Store
  | some value => s.insert key value
  | none => s.erase key

/-- Applies every write of a change set. No key is written twice, so the order does
not matter; from the largest key down, each write stands before those made already. -/
def commit (s : Store) (changes : ChangeSet) : Store :=
  changes.toList.foldr (fun e s => s.write e.1 e.2) s

theorem get?_write (s : Store) (key : Bytes) (value : Option Bytes) (k : Bytes) :
    (s.write key value).get? k = if k = key then value else s.get? k := by
  cases value with
  | none => exact SortedMap.get?_erase s key k
  | some v => exact SortedMap.get?_insert s key k v

/-- After a commit a key has the value that was written, or else the one
that it had. -/
theorem get?_commit (s : Store) (changes : ChangeSet) (k : Bytes) :
    (s.commit changes).get? k = (changes.get? k).getD (s.get? k) := by
  have hstep (s : Store) (e : Bytes × Option Bytes) (k : Bytes) :
      (s.write e.1 e.2).get? k = if k = e.1 then id e.2 else s.get? k := get?_write s e.1 e.2 k
  rw [commit, SortedMap.get?_foldr hstep k changes.sorted, Option.map_id]
  rfl

/-- The entries whose key starts with `lead`. -/
def scan (s : Store) (lead : Bytes) : Store := s.startingWith lead

/-- The hash of all pairs of the store. -/
def hash (s : Store) : String := stateHash s.toList

end Store
end BlockLedger
