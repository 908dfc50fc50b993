-- Sums over the entries of a sorted map. A put or a drop changes the sum
-- by one entry, so a total that is kept beside a map can be followed
-- through every change of the map.
import BlockLedger.SortedMap
import Mathlib.Algebra.Group.Basic
import Mathlib.Algebra.GroupWithZero.Nat

namespace BlockLedger.SortedMap

variable {κ ν : Type} [Ord κ]

/-- The sum of a weight over all entries. -/
def total (weight : κ → ν → Nat) (m : SortedMap κ ν) : Nat :=
  (m.toList.map fun e => weight e.1 e.2).sum

theorem sum_put {M : Type} [AddCommMonoid M] [Std.LawfulEqOrd κ] (weight : κ → ν → M) (k : κ)
    (v : ν) (l : List (κ × ν)) :
    ((put k v l).map fun e => weight e.1 e.2).sum + (find k l).elim 0 (weight k) =
      (l.map fun e => weight e.1 e.2).sum + weight k v := by
  induction l with
  | nil => simp [put, find]
  | cons e rest ih =>
    obtain ⟨k', v'⟩ := e
    unfold put find
    cases hc : compare k k' with
    | lt => simp [add_comm]
    | eq =>
      have hk := Std.LawfulEqOrd.eq_of_compare hc
      subst hk
      simp [add_comm, add_left_comm]
    | gt => simp only [List.map_cons, List.sum_cons, add_assoc, ih]

theorem sum_drop [Std.LawfulEqOrd κ] (weight : κ → ν → Nat) (k : κ) (l : List (κ × ν)) :
    ((drop k l).map fun e => weight e.1 e.2).sum + (find k l).elim 0 (weight k) =
      (l.map fun e => weight e.1 e.2).sum := by
  induction l with
  | nil => simp [drop, find]
  | cons e rest ih =>
    obtain ⟨k', v'⟩ := e
    unfold drop find
    cases hc : compare k k' with
    | lt => simp
    | eq =>
      have hk := Std.LawfulEqOrd.eq_of_compare hc
      subst hk
      simp
      omega
    | gt =>
      simp only [List.map_cons, List.sum_cons]
      omega

variable (weight : κ → ν → Nat) (m : SortedMap κ ν) (k : κ)

/-- A put adds the new entry to the total and takes the old one off. -/
theorem total_insert [Std.TransOrd κ] [Std.LawfulEqOrd κ] (v : ν) :
    (m.insert k v).total weight + (m.get? k).elim 0 (weight k) = m.total weight + weight k v :=
  sum_put weight k v m.toList

/-- A drop takes the entry off the total. -/
theorem total_erase [Std.LawfulEqOrd κ] :
    (m.erase k).total weight + (m.get? k).elim 0 (weight k) = m.total weight :=
  sum_drop weight k m.toList

theorem size_eq_total : m.size = m.total fun _ _ => 1 := by
  simp only [size, total]
  induction m.toList with
  | nil => rfl
  | cons e rest ih => rw [List.length_cons, ih, List.map_cons, List.sum_cons, Nat.add_comm]

variable {weight m k}

theorem total_congr {weight' : κ → ν → Nat}
    (h : ∀ e ∈ m.toList, weight e.1 e.2 = weight' e.1 e.2) :
    m.total weight = m.total weight' := by
  unfold total
  rw [List.map_congr_left h]

theorem total_mapValues {μ : Type} (weight : κ → μ → Nat) (m : SortedMap κ ν) (f : ν → μ) :
    (m.mapValues f).total weight = m.total fun k v => weight k (f v) := by
  simp [total, mapValues, Function.comp_def]

/-! ## Keys -/

theorem contains_iff : m.contains k = true ↔ ∃ v, m.get? k = some v := by
  unfold contains
  rw [Option.isSome_iff_exists]

theorem nodup_keys [Std.LawfulEqOrd κ] (m : SortedMap κ ν) : m.keys.Nodup := by
  refine List.pairwise_map.2 (m.sorted.imp fun {a b} h he => ?_)
  rw [he, Std.ReflOrd.compare_self] at h
  cases h

/-- The keys ascend. -/
theorem pairwise_keys (m : SortedMap κ ν) : m.keys.Pairwise fun a b => compare a b = .lt :=
  List.pairwise_map.2 m.sorted

variable [Std.TransOrd κ] [Std.LawfulEqOrd κ]

theorem mem_keys_iff : k ∈ m.keys ↔ m.contains k = true := by
  rw [contains_iff]
  simp only [keys, List.mem_map, get?_eq_some_iff]
  constructor
  · rintro ⟨⟨k', v⟩, h, rfl⟩
    exact ⟨v, h⟩
  · rintro ⟨v, h⟩
    exact ⟨(k, v), h, rfl⟩

theorem isEmpty_iff : m.isEmpty = true ↔ ∀ k, m.get? k = none := by
  constructor
  · intro h k
    have hnil : m.toList = [] := List.isEmpty_iff.1 h
    simp [get?, hnil, find]
  · intro h
    have hm : m = empty := ext fun k => by rw [h k, get?_empty]
    rw [hm]
    rfl

/-- Two sets with the same members are equal. -/
theorem ext_contains {s s' : SortedSet κ}
    (h : ∀ k, s.contains k = true ↔ s'.contains k = true) : s = s' := by
  apply ext
  intro k
  have hk := h k
  unfold contains at hk
  cases hs : s.get? k <;> cases hs' : s'.get? k <;> simp_all

/-! ## Two changes of a map -/

section Changes

variable [DecidableEq κ]

theorem insert_insert (m : SortedMap κ ν) (k : κ) (v w : ν) :
    (m.insert k v).insert k w = m.insert k w := by
  apply ext
  intro k'
  simp only [get?_insert]
  by_cases h : k' = k <;> simp [h]

theorem erase_of_get?_eq_none (h : m.get? k = none) : m.erase k = m := by
  apply ext
  intro k'
  rw [get?_erase]
  by_cases hk : k' = k <;> simp [hk, h]

/-- An erasure passes an insertion under another key. -/
theorem erase_insert_of_ne {k k' : κ} (h : k' ≠ k) (m : SortedMap κ ν) (v : ν) :
    (m.insert k v).erase k' = (m.erase k').insert k v := by
  apply ext
  intro x
  simp only [get?_insert, get?_erase]
  by_cases hx : x = k
  · simp [hx, h.symm]
  · simp [hx]

theorem mapValues_insert {μ : Type} (m : SortedMap κ ν) (k : κ) (v : ν) (f : ν → μ) :
    (m.insert k v).mapValues f = (m.mapValues f).insert k (f v) := by
  apply ext
  intro x
  simp only [get?_insert, get?_mapValues]
  by_cases hx : x = k <;> simp [hx]

theorem mapValues_erase {μ : Type} (m : SortedMap κ ν) (k : κ) (f : ν → μ) :
    (m.erase k).mapValues f = (m.mapValues f).erase k := by
  apply ext
  intro x
  simp only [get?_erase, get?_mapValues]
  by_cases hx : x = k <;> simp [hx]

theorem contains_insert_iff {k k' : κ} {v : ν} :
    (m.insert k v).contains k' = true ↔ k' = k ∨ m.contains k' = true := by
  unfold contains
  rw [get?_insert]
  by_cases h : k' = k <;> simp [h]

theorem contains_erase_iff {k k' : κ} :
    (m.erase k).contains k' = true ↔ k' ≠ k ∧ m.contains k' = true := by
  unfold contains
  rw [get?_erase]
  by_cases h : k' = k <;> simp [h]

end Changes

/-- Erasing some keys of a map leaves the others. -/
theorem get?_foldl_erase [DecidableEq κ] (m : SortedMap κ ν) (ks : List κ) (k : κ) :
    (ks.foldl (fun m k => m.erase k) m).get? k = if k ∈ ks then none else m.get? k := by
  induction ks generalizing m with
  | nil => simp
  | cons k' rest ih =>
    rw [List.foldl_cons, ih, get?_erase]
    by_cases hk : k = k' <;> simp [hk]

/-! ## Sizes -/

theorem size_insert_of_new {v : ν} (h : m.get? k = none) : (m.insert k v).size = m.size + 1 := by
  have hinsert := total_insert (fun _ _ => 1) m k v
  rw [h, ← size_eq_total, ← size_eq_total] at hinsert
  exact hinsert

omit [Std.TransOrd κ] in
theorem size_erase_of_mem {v : ν} (h : m.get? k = some v) : (m.erase k).size + 1 = m.size := by
  have herase := total_erase (fun _ _ => 1) m k
  rw [h, ← size_eq_total, ← size_eq_total] at herase
  exact herase

omit [Std.TransOrd κ] in
theorem size_erase_le (m : SortedMap κ ν) (k : κ) : (m.erase k).size ≤ m.size := by
  have herase := total_erase (fun _ _ => 1) m k
  rw [← size_eq_total, ← size_eq_total] at herase
  omega

omit [Std.TransOrd κ] in
theorem size_foldl_erase_le (m : SortedMap κ ν) (ks : List κ) :
    (ks.foldl (fun m k => m.erase k) m).size ≤ m.size := by
  induction ks generalizing m with
  | nil => exact Nat.le_refl _
  | cons k rest ih => exact Nat.le_trans (ih (m.erase k)) (size_erase_le m k)

/-- Erasing some keys of a map takes as many entries out. -/
theorem size_foldl_erase [DecidableEq κ] {ks : List κ} (hd : ks.Nodup)
    (hin : ∀ k ∈ ks, m.contains k = true) :
    (ks.foldl (fun m k => m.erase k) m).size + ks.length = m.size := by
  induction ks generalizing m with
  | nil => rfl
  | cons k rest ih =>
    obtain ⟨hnot, hd⟩ := List.nodup_cons.1 hd
    obtain ⟨v, hv⟩ := contains_iff.1 (hin k List.mem_cons_self)
    have hrest : ∀ k' ∈ rest, (m.erase k).contains k' = true := by
      intro k' hk'
      rw [contains_erase_iff]
      refine ⟨?_, hin k' (List.mem_cons_of_mem k hk')⟩
      rintro rfl
      exact hnot hk'
    have hsize := ih hd hrest
    have herase := size_erase_of_mem hv
    rw [List.foldl_cons, List.length_cons]
    omega

end BlockLedger.SortedMap
