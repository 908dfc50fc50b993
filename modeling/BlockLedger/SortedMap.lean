-- Finite maps kept as lists of pairs in strictly ascending key order.
-- The order makes a map equal to every map with the same entries, and
-- it is the order in which the entries are listed.

namespace BlockLedger

/-- A finite map, listed in strictly ascending key order. -/
structure SortedMap (κ ν : Type) [Ord κ] where
  toList : List (κ × ν)
  sorted : toList.Pairwise fun a b => compare a.1 b.1 = .lt

namespace SortedMap

variable {κ ν μ : Type} [Ord κ]

/-! ## Operations on sorted lists -/

/-- The value under a key; the search ends at the first larger key. -/
def find (k : κ) : List (κ × ν) → Option ν
  | [] => none
  | (k', v) :: rest =>
    match compare k k' with
    | .lt => none
    | .eq => some v
    | .gt => find k rest

/-- Puts a value under a key, in place of the old one if there is one. -/
def put (k : κ) (v : ν) : List (κ × ν) → List (κ × ν)
  | [] => [(k, v)]
  | (k', v') :: rest =>
    match compare k k' with
    | .lt => (k, v) :: (k', v') :: rest
    | .eq => (k, v) :: rest
    | .gt => (k', v') :: put k v rest

/-- Takes a key out. -/
def drop (k : κ) : List (κ × ν) → List (κ × ν)
  | [] => []
  | (k', v') :: rest =>
    match compare k k' with
    | .lt => (k', v') :: rest
    | .eq => rest
    | .gt => (k', v') :: drop k rest

theorem mem_put {k : κ} {v : ν} {l : List (κ × ν)} {p : κ × ν} (h : p ∈ put k v l) :
    p = (k, v) ∨ p ∈ l := by
  induction l with
  | nil => simpa [put] using h
  | cons q rest ih =>
    obtain ⟨k', v'⟩ := q
    unfold put at h
    split at h
    · simpa using h
    · rcases List.mem_cons.1 h with h | h
      · exact .inl h
      · exact .inr (List.mem_cons_of_mem _ h)
    · rcases List.mem_cons.1 h with h | h
      · exact .inr (h ▸ List.mem_cons_self)
      · rcases ih h with h | h
        · exact .inl h
        · exact .inr (List.mem_cons_of_mem _ h)

theorem mem_of_mem_drop {k : κ} {l : List (κ × ν)} {p : κ × ν} (h : p ∈ drop k l) : p ∈ l := by
  induction l with
  | nil => simp [drop] at h
  | cons q rest ih =>
    obtain ⟨k', v'⟩ := q
    unfold drop at h
    split at h
    · exact h
    · exact List.mem_cons_of_mem _ h
    · rcases List.mem_cons.1 h with h | h
      · exact h ▸ List.mem_cons_self
      · exact List.mem_cons_of_mem _ (ih h)

theorem sorted_put [Std.TransOrd κ] [Std.LawfulEqOrd κ] (k : κ) (v : ν) {l : List (κ × ν)}
    (h : l.Pairwise fun a b => compare a.1 b.1 = .lt) :
    (put k v l).Pairwise fun a b => compare a.1 b.1 = .lt := by
  induction l with
  | nil => simp [put]
  | cons q rest ih =>
    obtain ⟨k', v'⟩ := q
    have hq := List.pairwise_cons.1 h
    unfold put
    split
    · rename_i hlt
      refine List.pairwise_cons.2 ⟨fun p hp => ?_, h⟩
      rcases List.mem_cons.1 hp with rfl | hp
      · exact hlt
      · exact Std.TransCmp.lt_trans hlt (hq.1 p hp)
    · rename_i heq
      have := Std.LawfulEqOrd.eq_of_compare heq
      subst this
      exact List.pairwise_cons.2 ⟨hq.1, hq.2⟩
    · rename_i hgt
      refine List.pairwise_cons.2 ⟨fun p hp => ?_, ih hq.2⟩
      rcases mem_put hp with rfl | hp
      · exact Std.OrientedCmp.gt_iff_lt.1 hgt
      · exact hq.1 p hp

theorem sorted_drop (k : κ) {l : List (κ × ν)}
    (h : l.Pairwise fun a b => compare a.1 b.1 = .lt) :
    (drop k l).Pairwise fun a b => compare a.1 b.1 = .lt := by
  induction l with
  | nil => simp [drop]
  | cons q rest ih =>
    obtain ⟨k', v'⟩ := q
    have hq := List.pairwise_cons.1 h
    unfold drop
    split
    · exact h
    · exact hq.2
    · exact List.pairwise_cons.2 ⟨fun p hp => hq.1 p (mem_of_mem_drop hp), ih hq.2⟩

/-! ## Maps -/

def empty : SortedMap κ ν := ⟨[], .nil⟩

instance : EmptyCollection (SortedMap κ ν) := ⟨empty⟩
instance : Inhabited (SortedMap κ ν) := ⟨empty⟩

/-- The value under a key. -/
def get? (m : SortedMap κ ν) (k : κ) : Option ν := find k m.toList

/-- Whether the map has the key. -/
def contains (m : SortedMap κ ν) (k : κ) : Bool := (m.get? k).isSome

/-- The number of keys. -/
def size (m : SortedMap κ ν) : Nat := m.toList.length

def isEmpty (m : SortedMap κ ν) : Bool := m.toList.isEmpty

/-- The keys in ascending order. -/
def keys (m : SortedMap κ ν) : List κ := m.toList.map (·.1)

/-- The values in the order of their keys. -/
def values (m : SortedMap κ ν) : List ν := m.toList.map (·.2)

def insert [Std.TransOrd κ] [Std.LawfulEqOrd κ] (m : SortedMap κ ν) (k : κ) (v : ν) :
    SortedMap κ ν :=
  ⟨put k v m.toList, sorted_put k v m.sorted⟩

def erase (m : SortedMap κ ν) (k : κ) : SortedMap κ ν := ⟨drop k m.toList, sorted_drop k m.sorted⟩

/-- The entries whose key passes a test. -/
def filterKeys (m : SortedMap κ ν) (p : κ → Bool) : SortedMap κ ν :=
  ⟨m.toList.filter fun e => p e.1, m.sorted.filter _⟩

/-- The same keys with their values changed. -/
def mapValues (m : SortedMap κ ν) (f : ν → μ) : SortedMap κ μ :=
  ⟨m.toList.map fun e => (e.1, f e.2), m.sorted.map _ fun _ _ h => h⟩

/-- The map of a list of pairs; of two with the same key the later one counts. -/
def ofList [Std.TransOrd κ] [Std.LawfulEqOrd κ] (l : List (κ × ν)) : SortedMap κ ν :=
  l.foldl (fun m e => m.insert e.1 e.2) empty

/-! ## What each operation does to look-ups -/

theorem ext_toList {m m' : SortedMap κ ν} (h : m.toList = m'.toList) : m = m' := by
  cases m; cases m'; cases h; rfl

theorem get?_empty (k : κ) : (empty : SortedMap κ ν).get? k = none := rfl

theorem find_eq_none_of_lt {k : κ} {l : List (κ × ν)} (h : ∀ p ∈ l, compare k p.1 = .lt) :
    find k l = none := by
  cases l with
  | nil => rfl
  | cons q rest => obtain ⟨k', v'⟩ := q; simp [find, h (k', v') List.mem_cons_self]

variable [Std.TransOrd κ] [Std.LawfulEqOrd κ]

theorem find_put [DecidableEq κ] (k k' : κ) (v : ν) (l : List (κ × ν)) :
    find k' (put k v l) = if k' = k then some v else find k' l := by
  induction l with
  | nil =>
    by_cases h : k' = k
    · subst h; simp [put, find]
    · have hne : compare k' k ≠ .eq := fun hc => h (Std.LawfulEqOrd.eq_of_compare hc)
      simp only [put, find, h, if_false]
      cases hc : compare k' k with
      | lt => rfl
      | eq => exact absurd hc hne
      | gt => rfl
  | cons q rest ih =>
    obtain ⟨c, w⟩ := q
    by_cases h : k' = k
    · subst h
      unfold put
      cases hc : compare k' c with
      | lt => simp [find]
      | eq => simp [find]
      | gt => simp [find, hc, ih]
    · have hne : compare k' k ≠ .eq := fun hc => h (Std.LawfulEqOrd.eq_of_compare hc)
      simp only [h, if_false] at ih ⊢
      unfold put
      cases hc : compare k c with
      | lt =>
        simp only [find]
        cases hk : compare k' k with
        | lt => rw [Std.TransCmp.lt_trans hk hc]
        | eq => exact absurd hk hne
        | gt => rfl
      | eq =>
        have := Std.LawfulEqOrd.eq_of_compare hc
        subst this
        simp only [find]
        cases hk : compare k' k with
        | lt => rfl
        | eq => exact absurd hk hne
        | gt => rfl
      | gt => simp only [find, ih]

theorem get?_insert [DecidableEq κ] (m : SortedMap κ ν) (k k' : κ) (v : ν) :
    (m.insert k v).get? k' = if k' = k then some v else m.get? k' :=
  find_put k k' v m.toList

theorem find_drop [DecidableEq κ] (k k' : κ) {l : List (κ × ν)}
    (hs : l.Pairwise fun a b => compare a.1 b.1 = .lt) :
    find k' (drop k l) = if k' = k then none else find k' l := by
  induction l with
  | nil => simp [drop, find]
  | cons q rest ih =>
    obtain ⟨c, w⟩ := q
    have hq := List.pairwise_cons.1 hs
    unfold drop
    cases hc : compare k c with
    | lt =>
      by_cases h : k' = k
      · subst h; simp [find, hc]
      · simp [h]
    | eq =>
      have := Std.LawfulEqOrd.eq_of_compare hc
      subst this
      by_cases h : k' = k
      · subst h
        simp only [if_true]
        exact find_eq_none_of_lt hq.1
      · have hne : compare k' k ≠ .eq := fun he => h (Std.LawfulEqOrd.eq_of_compare he)
        simp only [h, if_false, find]
        cases hk : compare k' k with
        | lt => exact find_eq_none_of_lt fun p hp => Std.TransCmp.lt_trans hk (hq.1 p hp)
        | eq => exact absurd hk hne
        | gt => rfl
    | gt =>
      simp only [find, ih hq.2]
      by_cases h : k' = k
      · subst h; simp [hc]
      · simp [h]

theorem get?_erase [DecidableEq κ] (m : SortedMap κ ν) (k k' : κ) :
    (m.erase k).get? k' = if k' = k then none else m.get? k' :=
  find_drop k k' m.sorted

/-- Where every step changes what is under one key, and the keys ascend, a
key shows what its own step left, or else what it showed before. -/
theorem get?_foldl [DecidableEq κ] {step : SortedMap κ ν → κ × μ → SortedMap κ ν}
    {left : μ → Option ν}
    (hstep : ∀ m e k, (step m e).get? k = if k = e.1 then left e.2 else m.get? k) (k : κ)
    {l : List (κ × μ)} (h : l.Pairwise fun a b => compare a.1 b.1 = .lt) (m : SortedMap κ ν) :
    (l.foldl step m).get? k = ((find k l).map left).getD (m.get? k) := by
  induction l generalizing m with
  | nil => rfl
  | cons e rest ih =>
    obtain ⟨key, w⟩ := e
    have hp := List.pairwise_cons.1 h
    simp only [List.foldl_cons, find, ih hp.2, hstep]
    cases hc : compare k key with
    | lt =>
      rw [find_eq_none_of_lt fun p hm => Std.TransCmp.lt_trans hc (hp.1 p hm)]
      have hne : k ≠ key := fun hk => by simp [hk] at hc
      simp [hne]
    | eq =>
      have hk := Std.LawfulEqOrd.eq_of_compare hc
      subst hk
      rw [find_eq_none_of_lt hp.1]
      simp
    | gt =>
      have hne : k ≠ key := fun hk => by simp [hk] at hc
      simp [hne]

/-- The same where the steps are taken from the largest key down. -/
theorem get?_foldr [DecidableEq κ] {step : SortedMap κ ν → κ × μ → SortedMap κ ν}
    {left : μ → Option ν}
    (hstep : ∀ m e k, (step m e).get? k = if k = e.1 then left e.2 else m.get? k) (k : κ)
    {l : List (κ × μ)} (h : l.Pairwise fun a b => compare a.1 b.1 = .lt) (m : SortedMap κ ν) :
    (l.foldr (fun e m => step m e) m).get? k = ((find k l).map left).getD (m.get? k) := by
  induction l with
  | nil => rfl
  | cons e rest ih =>
    obtain ⟨key, w⟩ := e
    have hp := List.pairwise_cons.1 h
    simp only [List.foldr_cons, find, hstep, ih hp.2]
    cases hc : compare k key with
    | lt =>
      rw [find_eq_none_of_lt fun p hm => Std.TransCmp.lt_trans hc (hp.1 p hm)]
      have hne : k ≠ key := fun hk => by simp [hk] at hc
      simp [hne]
    | eq => simp [Std.LawfulEqOrd.eq_of_compare hc]
    | gt =>
      have hne : k ≠ key := fun hk => by simp [hk] at hc
      simp [hne]

theorem find_eq_some_iff {k : κ} {v : ν} {l : List (κ × ν)}
    (hs : l.Pairwise fun a b => compare a.1 b.1 = .lt) : find k l = some v ↔ (k, v) ∈ l := by
  induction l with
  | nil => simp [find]
  | cons q rest ih =>
    obtain ⟨c, w⟩ := q
    have hq := List.pairwise_cons.1 hs
    simp only [find, List.mem_cons, Prod.mk.injEq]
    cases hc : compare k c with
    | lt =>
      simp only [reduceCtorEq, false_iff, not_or]
      refine ⟨?_, fun hm => ?_⟩
      · rintro ⟨rfl, _⟩; simp at hc
      · have := Std.TransCmp.lt_trans hc (hq.1 _ hm)
        simp at this
    | eq =>
      have := Std.LawfulEqOrd.eq_of_compare hc
      subst this
      constructor
      · intro h; cases h; exact .inl ⟨rfl, rfl⟩
      · rintro (⟨_, rfl⟩ | hm)
        · rfl
        · have := hq.1 _ hm; simp at this
    | gt =>
      refine (ih hq.2).trans ⟨.inr, ?_⟩
      rintro (⟨rfl, _⟩ | hm)
      · simp at hc
      · exact hm

/-- A key has a value exactly when the pair is listed. -/
theorem get?_eq_some_iff {m : SortedMap κ ν} {k : κ} {v : ν} :
    m.get? k = some v ↔ (k, v) ∈ m.toList :=
  find_eq_some_iff m.sorted

/-- Two ascending lists that find the same values are equal. -/
theorem eq_of_find_eq {l l' : List (κ × ν)}
    (hs : l.Pairwise fun a b => compare a.1 b.1 = .lt)
    (hs' : l'.Pairwise fun a b => compare a.1 b.1 = .lt)
    (h : ∀ k, find k l = find k l') : l = l' := by
  induction l generalizing l' with
  | nil =>
    cases l' with
    | nil => rfl
    | cons q rest => have := h q.1; simp [find] at this
  | cons q rest ih =>
    cases l' with
    | nil => have := h q.1; simp [find] at this
    | cons q' rest' =>
      obtain ⟨c, w⟩ := q
      obtain ⟨c', w'⟩ := q'
      have hq := List.pairwise_cons.1 hs
      have hq' := List.pairwise_cons.1 hs'
      cases hc : compare c c' with
      | lt => have := h c; simp [find, hc] at this
      | gt =>
        have := h c'
        simp [find, Std.OrientedCmp.gt_iff_lt.1 hc] at this
      | eq =>
        have := Std.LawfulEqOrd.eq_of_compare hc
        subst this
        have hw := h c
        simp only [find, Std.ReflOrd.compare_self, Option.some.injEq] at hw
        subst hw
        rw [ih hq.2 hq'.2 fun k => ?_]
        have hk := h k
        simp only [find] at hk
        cases hkc : compare k c with
        | lt =>
          rw [find_eq_none_of_lt fun p hp => Std.TransCmp.lt_trans hkc (hq.1 p hp),
            find_eq_none_of_lt fun p hp => Std.TransCmp.lt_trans hkc (hq'.1 p hp)]
        | eq =>
          have := Std.LawfulEqOrd.eq_of_compare hkc
          subst this
          rw [find_eq_none_of_lt hq.1, find_eq_none_of_lt hq'.1]
        | gt => simpa [hkc] using hk

/-- Two maps with the same look-ups are equal. -/
theorem ext {m m' : SortedMap κ ν} (h : ∀ k, m.get? k = m'.get? k) : m = m' :=
  ext_toList (eq_of_find_eq m.sorted m'.sorted h)

theorem get?_filterKeys (m : SortedMap κ ν) (p : κ → Bool) (k : κ) :
    (m.filterKeys p).get? k = if p k then m.get? k else none := by
  ext v
  rw [get?_eq_some_iff, filterKeys, List.mem_filter, ← get?_eq_some_iff]
  split <;> simp_all

theorem get?_mapValues (m : SortedMap κ ν) (f : ν → μ) (k : κ) :
    (m.mapValues f).get? k = (m.get? k).map f := by
  ext v
  rw [get?_eq_some_iff, mapValues, List.mem_map, Option.map_eq_some_iff]
  constructor
  · rintro ⟨⟨k', w⟩, hm, h⟩
    cases h
    exact ⟨w, get?_eq_some_iff.2 hm, rfl⟩
  · rintro ⟨w, hm, rfl⟩
    exact ⟨(k, w), get?_eq_some_iff.1 hm, rfl⟩

/-- A map is the map of its own pairs. -/
theorem ofList_toList [DecidableEq κ] (m : SortedMap κ ν) : ofList m.toList = m := by
  apply ext
  intro k
  have hstep (m : SortedMap κ ν) (e : κ × ν) (k : κ) :
      (m.insert e.1 e.2).get? k = if k = e.1 then some e.2 else m.get? k :=
    get?_insert m e.1 k e.2
  rw [ofList, get?_foldl hstep k m.sorted, get?_empty]
  change ((m.get? k).map some).getD none = m.get? k
  cases m.get? k <;> rfl

end SortedMap

/-- A finite set, listed in ascending order. -/
abbrev SortedSet (κ : Type) [Ord κ] := SortedMap κ Unit

end BlockLedger
