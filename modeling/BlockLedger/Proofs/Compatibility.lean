-- Pooled transactions get along with each other. A new transaction takes the
-- place of all that it declares and of all that declare it, so whatever was
-- offered, taken out or swept away, no pooled transaction has declared a
-- conflict with another one or with itself.
import BlockLedger.Proofs.Overcommitment

namespace BlockLedger.Pool

/-! ## What offers and removals keep -/

section Keeping

variable {I : Pool → Prop} {p : Pool} {capacity : Nat}

/-- What holds of the empty pool and is kept by offers and removals holds of
every pool. An update is a row of offers to an empty pool. -/
theorem Reached.keeps (hempty : I (.empty capacity))
    (hoffer : ∀ {p : Pool} (t : Transaction) (c : Cache) (settings : Settings),
      p.Kept capacity → I p → I (p.offer t c settings).2)
    (hremove : ∀ {p : Pool} (hash : Hash256), p.Kept capacity → I p → I (p.remove hash).2)
    (h : Reached capacity p) : I p := by
  induction h with
  | empty => exact hempty
  | offer t c settings hp ih => exact hoffer t c settings hp.kept ih
  | remove hash hp ih => exact hremove hash hp.kept ih
  | @update p block c settings hp ih =>
    obtain ⟨swept, s, -, -, -, -, heq⟩ := hp.kept.update_eq_reenter block c settings
    have hkeeps : ∀ item ∈ s.ranked, ∀ p : Pool, p.Kept capacity ∧ I p →
        (p.offer item.transaction c settings).2.Kept capacity ∧
          I (p.offer item.transaction c settings).2 := by
      rintro item - p ⟨hkept, hp⟩
      exact ⟨hkept.offer _ c settings, hoffer _ c settings hkept hp⟩
    rw [heq]
    exact (reenter_keeps hkeeps ⟨kept_empty capacity, hempty⟩).2

end Keeping

/-! ## Conflicts between pooled transactions -/

/-- No pooled transaction has declared the hash of a pooled transaction. -/
def Compatible (p : Pool) : Prop :=
  ∀ (hash other : Hash256) (t u : Transaction), p.get? hash = some t → p.get? other = some u →
    u.hash ∉ t.declared

variable {p p' : Pool} {capacity : Nat} {t u : Transaction} {c : Cache} {settings : Settings}
  {hash : Hash256} {evicted replaced : SortedSet Hash256}

theorem compatible_empty (capacity : Nat) : (empty capacity).Compatible := by
  intro hash other t u ht
  cases ht

/-- Fewer transactions have no more conflicts. -/
theorem Compatible.mono (h : p.Compatible)
    (hp : ∀ hash t, p'.get? hash = some t → p.get? hash = some t) : p'.Compatible :=
  fun hash other t u ht hu => h hash other t u (hp hash t ht) (hp other u hu)

/-- In conflict with a transaction are the pooled ones that it declares and
those that declare it. -/
theorem Sound.conflicting_iff (h : p.Sound none) : (p.conflicting t).contains hash = true ↔
    ∃ u, p.get? hash = some u ∧ (u.hash ∈ t.declared ∨ t.hash ∈ u.declared) := by
  unfold Pool.conflicting
  rw [contains_foldl_insert, List.mem_append, List.mem_filter, h.mem_declarers_iff]
  constructor
  · rintro ((⟨hdeclared, hin⟩ | ⟨item, hitem, hdeclares⟩) | hempty)
    · obtain ⟨item, hitem⟩ := SortedMap.contains_iff.1 hin
      refine ⟨item.transaction, Option.map_eq_some_iff.2 ⟨item, hitem, rfl⟩, .inl ?_⟩
      rwa [(h.keyed hash item hitem).1]
    · exact ⟨item.transaction, Option.map_eq_some_iff.2 ⟨item, hitem, rfl⟩, .inr hdeclares⟩
    · cases hempty
  · rintro ⟨u, hget, hdeclared⟩
    obtain ⟨hitem, rfl, -⟩ := h.get?_eq_some hget
    rcases hdeclared with hdeclared | hdeclares
    · exact .inl (.inl ⟨hdeclared, SortedMap.contains_iff.2 ⟨_, hitem⟩⟩)
    · exact .inl (.inr ⟨_, hitem, hdeclares⟩)

/-- What a new transaction replaces leaves in any case. -/
theorem contains_of_makeRoom (h : p.makeRoom t replaced = some evicted)
    (hin : replaced.contains hash = true) : evicted.contains hash = true := by
  unfold Pool.makeRoom at h
  split at h
  · cases h
    exact hin
  · split at h
    · cases h
    · split at h
      · cases h
        exact SortedMap.contains_insert_iff.2 (.inr hin)
      · cases h

theorem not_mem_declared_of_checkAlone (h : checkAlone t = .succeed) : t.hash ∉ t.declared := by
  intro hself
  unfold checkAlone at h
  rw [if_pos hself] at h
  split at h
  · cases h
  · split at h <;> cases h

/-- What stays when a transaction joins is not in conflict with it. -/
theorem not_conflicting_of_accept (hplan : p.plan t c settings = .ok (.accept evicted))
    (hp : p.Vacated t evicted p') (hstays : p'.get? hash = some u) :
    (p.conflicting t).contains hash = false := by
  obtain ⟨-, -, hroom, -⟩ := plan_accept hplan
  rw [Bool.eq_false_iff]
  intro hconflicting
  have hleaves := SortedMap.mem_keys_iff.2 (contains_of_makeRoom hroom hconflicting)
  unfold Pool.get? at hstays
  rw [hp.verified, SortedMap.get?_foldl_erase, if_pos hleaves] at hstays
  cases hstays

/-- A transaction that joins is compatible with all that stay. -/
theorem Compatible.accept (h : p.Compatible) (hsound : p.Sound none)
    (hplan : p.plan t c settings = .ok (.accept evicted)) (hp : p.Vacated t evicted p') :
    (p'.insert t).Compatible := by
  obtain ⟨-, halone, -, -⟩ := plan_accept hplan
  have hbefore : ∀ hash u, p'.get? hash = some u → p.get? hash = some u :=
    fun hash u hu => get?_of_foldl_erase hp.verified hu
  intro hash other v w hv hw
  rw [get?_insert] at hv hw
  split at hv <;> split at hw
  · -- The new transaction and itself.
    cases hv
    cases hw
    exact not_mem_declared_of_checkAlone halone
  · cases hv
    intro hdeclared
    have hin := hsound.conflicting_iff.2 ⟨w, hbefore other w hw, .inl hdeclared⟩
    rw [not_conflicting_of_accept hplan hp hw] at hin
    cases hin
  · cases hw
    intro hdeclares
    have hin := hsound.conflicting_iff.2 ⟨v, hbefore hash v hv, .inr hdeclares⟩
    rw [not_conflicting_of_accept hplan hp hv] at hin
    cases hin
  · exact h hash other v w (hbefore hash v hv) (hbefore other w hw)

theorem Compatible.offer (h : p.Compatible) (hsound : p.Sound none) (t : Transaction) (c : Cache)
    (settings : Settings) : (p.offer t c settings).2.Compatible := by
  rcases hsound.offer_cases t c settings with
    ⟨f, -, hr⟩ | ⟨verdict, -, hr⟩ | ⟨evicted, p', hplan, hp, hr⟩ <;> rw [hr]
  · exact h
  · exact h
  · exact h.accept hsound hplan hp

theorem Compatible.remove (h : p.Compatible) (hkept : p.Kept capacity) (hash : Hash256) :
    (p.remove hash).2.Compatible := by
  obtain ⟨gone, p', hrun, -, hverified⟩ := hkept.remove hash
  rw [hrun]
  exact h.mono fun _ _ => get?_of_foldl_erase (show _ = [hash].foldl _ _ from hverified)

theorem Reached.compatible (h : Reached capacity p) : p.Compatible :=
  h.keeps (compatible_empty capacity)
    (fun t c settings hkept hp => hp.offer hkept.sound t c settings)
    fun hash hkept hp => hp.remove hkept hash

/-- Whatever was offered to a pool, taken out or swept away by blocks, and
whatever came of it: no pooled transaction declares a conflict with a pooled
one, be it another or the same. -/
theorem no_pooled_transaction_declares_a_pooled_one (h : Reached capacity p) {other : Hash256}
    (ht : p.get? hash = some t) (hu : p.get? other = some u) : u.hash ∉ t.declared :=
  h.compatible hash other t u ht hu

/-- A pool where one of two transactions was replaced. -/
def settled : Pool :=
  ((((empty 2).offer (Sample.transaction 1 [.zero 32]) scarce Sample.settings).2.offer
    (Sample.transaction 2 []) scarce Sample.settings).2.offer
    replacement scarce Sample.settings).2

/-- The replacement declares the transaction whose place it took, and not the
one that stayed. -/
theorem sample_settled : Reached 2 settled ∧
    settled.get? replacement.hash = some replacement ∧
    settled.get? (Sample.transaction 2 []).hash = some (Sample.transaction 2 []) ∧
    (Sample.transaction 1 [.zero 32]).hash ∈ replacement.declared ∧
    (Sample.transaction 2 []).hash ∉ replacement.declared := by
  have hreached : Reached 2 settled := .offer _ _ _ (.offer _ _ _ (.offer _ _ _ .empty))
  have hpooled : settled.get? replacement.hash = some replacement ∧
      settled.get? (Sample.transaction 2 []).hash = some (Sample.transaction 2 []) ∧
      (Sample.transaction 1 [.zero 32]).hash ∈ replacement.declared := by decide +kernel
  obtain ⟨hfirst, hsecond, hdeclared⟩ := hpooled
  exact ⟨hreached, hfirst, hsecond, hdeclared,
    no_pooled_transaction_declares_a_pooled_one hreached hfirst hsecond⟩

end BlockLedger.Pool
