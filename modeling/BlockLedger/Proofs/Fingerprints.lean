-- What the hash of a store says about its content. The keys and the values are
-- hashed one after the other, each with its length in front. Neither the number
-- of the pairs nor the length of the whole is hashed, and the bytes still tell
-- the pairs: stores with one hash are equal, or the hash function gives two
-- different byte strings the same hash.
import BlockLedger.Store.Basic

namespace BlockLedger

/-! ## Collisions -/

/-- Two different byte strings that have the same hash. -/
def Collide {n : Nat} (hash : Bytes → Fixed n) (s s' : Bytes) : Prop :=
  s ≠ s' ∧ hash s = hash s'

theorem hash_eq_iff {n : Nat} (hash : Bytes → Fixed n) (s s' : Bytes) :
    hash s = hash s' ↔ s = s' ∨ Collide hash s s' := by
  by_cases h : s = s' <;> simp [Collide, h]

/-! ## Byte strings with their length in front -/

/-- A byte string whose length fits into the four bytes in front of it. -/
def Countable (s : Bytes) : Prop := s.length < 2 ^ 32

instance (s : Bytes) : Decidable (Countable s) := inferInstanceAs (Decidable (_ < _))

/-- The length in front tells where a byte string ends. -/
theorem counted_append_inj {s s' rest rest' : Bytes} (hs : Countable s) (hs' : Countable s')
    (h : counted s ++ rest = counted s' ++ rest') : s = s' ∧ rest = rest' := by
  simp only [counted, List.append_assoc] at h
  obtain ⟨hfront, h⟩ := List.append_inj h (by simp [length_leBytes])
  have hlength := congrArg leValue hfront
  rw [leValue_leBytes, leValue_leBytes] at hlength
  unfold Countable at hs hs'
  exact List.append_inj h (by omega)

/-! ## Lists of pairs -/

/-- Pairs whose keys and values can all be counted. -/
def CountablePairs (pairs : List (Bytes × Bytes)) : Prop :=
  ∀ p ∈ pairs, Countable p.1 ∧ Countable p.2

instance (pairs : List (Bytes × Bytes)) : Decidable (CountablePairs pairs) :=
  inferInstanceAs (Decidable (∀ p ∈ pairs, _))

theorem stateStream_cons (p : Bytes × Bytes) (rest : List (Bytes × Bytes)) :
    stateStream (p :: rest) = counted p.1 ++ (counted p.2 ++ stateStream rest) := by
  simp [stateStream]

/-- A pair takes eight bytes at least, so the end of the list shows. -/
theorem stateStream_cons_ne_nil (p : Bytes × Bytes) (rest : List (Bytes × Bytes)) :
    stateStream (p :: rest) ≠ [] := by
  intro h
  have hlength := congrArg List.length h
  simp [stateStream_cons, counted, length_leBytes] at hlength

/-- The bytes that are hashed tell the pairs and their order. -/
theorem stateStream_inj {l l' : List (Bytes × Bytes)} (h : CountablePairs l)
    (h' : CountablePairs l') (heq : stateStream l = stateStream l') : l = l' := by
  induction l generalizing l' with
  | nil =>
    cases l' with
    | nil => rfl
    | cons p' rest' => exact absurd heq.symm (stateStream_cons_ne_nil p' rest')
  | cons p rest ih =>
    cases l' with
    | nil => exact absurd heq (stateStream_cons_ne_nil p rest)
    | cons p' rest' =>
      obtain ⟨⟨hkey, hvalue⟩, hrest⟩ := List.forall_mem_cons.1 h
      obtain ⟨⟨hkey', hvalue'⟩, hrest'⟩ := List.forall_mem_cons.1 h'
      rw [stateStream_cons, stateStream_cons] at heq
      obtain ⟨hkeys, heq⟩ := counted_append_inj hkey hkey' heq
      obtain ⟨hvalues, heq⟩ := counted_append_inj hvalue hvalue' heq
      rw [Prod.ext hkeys hvalues, ih hrest hrest' heq]

theorem stateStream_eq_iff {l l' : List (Bytes × Bytes)} (h : CountablePairs l)
    (h' : CountablePairs l') : stateStream l = stateStream l' ↔ l = l' :=
  ⟨stateStream_inj h h', fun heq => heq ▸ rfl⟩

theorem stateHash_eq_iff {l l' : List (Bytes × Bytes)} (h : CountablePairs l)
    (h' : CountablePairs l') :
    stateHash l = stateHash l' ↔ l = l' ∨ Collide sha256 (stateStream l) (stateStream l') := by
  have hdigest : stateHash l = stateHash l' ↔ sha256 (stateStream l) = sha256 (stateStream l') := by
    rw [stateHash, stateHash, hex_inj]
    exact ⟨Fixed.ext, fun heq => heq ▸ rfl⟩
  rw [hdigest, hash_eq_iff, stateStream_eq_iff h h']

/-! ## What a hash tells -/

/-- Two lists of pairs are hashed from the same bytes only if they are equal, so
they share a hash only if they are equal or their bytes collide. Two stores
share a hash exactly if they hold the same pairs or their bytes collide. -/
theorem a_hash_tells_what_is_stored :
    (∀ l l' : List (Bytes × Bytes), CountablePairs l → CountablePairs l' →
      (stateStream l = stateStream l' → l = l') ∧
      (l ≠ l' → stateHash l = stateHash l' → Collide sha256 (stateStream l) (stateStream l'))) ∧
    ∀ a b : Store, CountablePairs a.toList → CountablePairs b.toList →
      (a.hash = b.hash ↔ (∀ key, a.get? key = b.get? key) ∨
        Collide sha256 (stateStream a.toList) (stateStream b.toList)) := by
  constructor
  · intro l l' h h'
    refine ⟨stateStream_inj h h', fun hne heq => ?_⟩
    exact ((stateHash_eq_iff h h').1 heq).resolve_left hne
  · intro a b ha hb
    have hsame : a.toList = b.toList ↔ ∀ key, a.get? key = b.get? key := by
      constructor
      · intro heq key
        rw [SortedMap.ext_toList heq]
      · intro heq
        rw [SortedMap.ext heq]
    unfold Store.hash
    rw [stateHash_eq_iff ha hb, hsame]

/-- Two pairs. -/
def twoPairs : Store := .ofList [([7], [8]), ([9], [])]

/-- One pair, whose value goes on as the second of the two pairs does. -/
def onePair : Store := .ofList [([7], 8 :: stateStream [([9], [])])]

/-- The bytes of the two stores differ in one length only. -/
theorem look_alikes_are_told_apart :
    CountablePairs onePair.toList ∧ CountablePairs twoPairs.toList ∧
    stateStream onePair.toList ≠ stateStream twoPairs.toList ∧
    (onePair.hash = twoPairs.hash →
      Collide sha256 (stateStream onePair.toList) (stateStream twoPairs.toList)) := by
  have hone : CountablePairs onePair.toList := by decide
  have htwo : CountablePairs twoPairs.toList := by decide
  have hlists : onePair.toList ≠ twoPairs.toList := by decide
  have hkey : onePair.get? [9] ≠ twoPairs.get? [9] := by decide
  obtain ⟨hpairs, hstores⟩ := a_hash_tells_what_is_stored
  refine ⟨hone, htwo, fun heq => hlists ((hpairs _ _ hone htwo).1 heq), fun heq => ?_⟩
  exact ((hstores _ _ hone htwo).1 heq).resolve_left fun hall => hkey (hall [9])

end BlockLedger
