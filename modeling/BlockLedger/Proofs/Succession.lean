-- No way back for a replaced transaction. Whoever takes the place of another one
-- pays strictly more than it alone, so the two never trade places again: while
-- the replacement is pooled, no offer of the other one succeeds.
import Mathlib.Algebra.Order.BigOperators.Group.List
import Mathlib.Algebra.Order.Group.Nat
import BlockLedger.Proofs.Replacement

namespace BlockLedger.Pool

/-! ## Later pools -/

/-- The pools that offers, removals and updates lead to from a pool, with any
blocks, caches and settings and whatever each call returns. -/
inductive Leads (p : Pool) : Pool → Prop where
  | refl : Leads p p
  | offer {q : Pool} (t : Transaction) (c : Cache) (settings : Settings) :
    Leads p q → Leads p (q.offer t c settings).2
  | remove {q : Pool} (hash : Hash256) : Leads p q → Leads p (q.remove hash).2
  | update {q : Pool} (block : Block) (c : Cache) (settings : Settings) :
    Leads p q → Leads p (q.update block c settings).2

variable {p p' q q' later : Pool} {capacity capacity' : Nat} {c c' : Cache}
  {settings settings' : Settings} {t u : Transaction} {evicted evicted' : SortedSet Hash256}

theorem Leads.reached (h : p.Leads q) (hp : Reached capacity p) : Reached capacity q := by
  induction h with
  | refl => exact hp
  | offer t c settings _ ih => exact ih.offer t c settings
  | remove hash _ ih => exact ih.remove hash
  | update block c settings _ ih => exact ih.update block c settings

/-! ## Whoever replaces pays more -/

theorem InConflict.symm (h : InConflict t u) : InConflict u t := Or.symm h

/-- The sum of what is replaced is not less than each part of it. -/
theorem Kept.networkFee_lt (h : p.Kept capacity)
    (hplan : p.plan t c settings = .ok (.accept evicted)) (hu : p.get? u.hash = some u)
    (hconflict : InConflict t u) : u.networkFee.toNat < t.networkFee.toNat := by
  have hgive := h.giveWay hplan
  have hleaves := hgive.conflicting u.hash u hu hconflict
  have hcounted : u.networkFee.toNat ∈ ((evicted.keys.filterMap p.get?).filter
      fun u => InConflict t u).map (·.networkFee.toNat) :=
    List.mem_map_of_mem (List.mem_filter.2 ⟨hleaves, decide_eq_true hconflict⟩)
  exact (List.le_sum_of_mem hcounted).trans_lt (hgive.cheaper u hleaves hconflict)

/-- Of two transactions in conflict only one can be let in where the other one is
pooled, whatever the two pools, snapshots and settings are. -/
theorem Kept.not_accept (hp : p.Kept capacity) (hq : q.Kept capacity')
    (hplan : p.plan t c settings = .ok (.accept evicted)) (hu : p.get? u.hash = some u)
    (hconflict : InConflict t u) (ht : q.get? t.hash = some t) :
    q.plan u c' settings' ≠ .ok (.accept evicted') :=
  fun hback => Nat.lt_asymm (hp.networkFee_lt hplan hu hconflict)
    (hq.networkFee_lt hback ht hconflict.symm)

/-- An offer that succeeds has gone by a plan to accept. -/
theorem Sound.of_offer_succeed (h : p.Sound none)
    (hr : p.offer t c settings = (.ok .succeed, p')) :
    ∃ evicted s, p.plan t c settings = .ok (.accept evicted) ∧ p.Vacated t evicted s ∧
      p' = s.insert t := by
  rcases h.offer_cases t c settings with
    ⟨f, -, hrun⟩ | ⟨verdict, hplan, hrun⟩ | ⟨evicted, s, hplan, hs, hrun⟩ <;> rw [hr] at hrun
  · cases hrun
  · cases hrun
    exact absurd rfl (verdict_ne_succeed_of_reject hplan)
  · exact ⟨evicted, s, hplan, hs, congrArg Prod.snd hrun⟩

/-- An offer that is not accepted does not succeed and leaves the pool as it is. -/
theorem Sound.offer_of_not_accept (h : p.Sound none)
    (hplan : ∀ evicted, p.plan t c settings ≠ .ok (.accept evicted)) :
    (p.offer t c settings).1 ≠ .ok .succeed ∧ (p.offer t c settings).2 = p := by
  rcases h.offer_cases t c settings with
    ⟨f, -, hrun⟩ | ⟨verdict, hreject, hrun⟩ | ⟨evicted, s, haccept, -, -⟩
  · rw [hrun]
    exact ⟨nofun, rfl⟩
  · rw [hrun]
    exact ⟨fun hok => verdict_ne_succeed_of_reject hreject (Except.ok.inj hok), rfl⟩
  · exact absurd haccept (hplan evicted)

/-- What is in conflict with an accepted transaction is gone afterwards. -/
theorem Kept.get?_of_replaced (h : p.Kept capacity)
    (hplan : p.plan t c settings = .ok (.accept evicted)) (hs : p.Vacated t evicted q)
    (hu : p.get? u.hash = some u) (hconflict : InConflict t u) :
    (q.insert t).get? u.hash = none := by
  have hnew : p.get? t.hash = none := Option.map_eq_none_iff.2 (plan_accept hplan).1
  have hother : u.hash ≠ t.hash := by
    intro hsame
    rw [hsame, hnew] at hu
    cases hu
  have hleaves := (h.giveWay hplan).conflicting u.hash u hu hconflict
  rw [get?_insert, if_neg hother, hs.get? h.sound, if_pos (List.mem_map_of_mem hleaves)]

/-- A transaction that replaced another one in conflict with it keeps that one
out: wherever the pool got to since, if the replacement is pooled, the other one
is not, and an offer of it does not succeed and changes nothing. -/
theorem a_replaced_transaction_stays_out (h : Reached capacity p)
    (hr : p.offer t c settings = (.ok .succeed, p')) (hu : p.get? u.hash = some u)
    (hconflict : InConflict t u) (hlater : p'.Leads later) (ht : later.get? t.hash = some t)
    (c' : Cache) (settings' : Settings) :
    p'.get? u.hash = none ∧ later.get? u.hash ≠ some u ∧
      (later.offer u c' settings').1 ≠ .ok .succeed ∧
      (later.offer u c' settings').2 = later := by
  obtain ⟨evicted, s, hplan, hs, rfl⟩ := h.kept.sound.of_offer_succeed hr
  have hreached : Reached capacity later := by
    have hafter := h.offer t c settings
    rw [hr] at hafter
    exact hlater.reached hafter
  refine ⟨h.kept.get?_of_replaced hplan hs hu hconflict, fun hin => ?_, ?_⟩
  · -- No pooled transaction declares a pooled one, on either side.
    rcases hconflict with hdeclared | hdeclares
    · exact hreached.compatible _ _ t u ht hin hdeclared
    · exact hreached.compatible _ _ u t hin ht hdeclares
  · exact hreached.kept.sound.offer_of_not_accept fun _ =>
      h.kept.not_accept hreached.kept hplan hu hconflict ht

/-- The pool some time after one of its two transactions was replaced: the other
one was taken out and left its room to one that ranks higher. -/
def relieved : Pool :=
  (((full.offer replacement scarce Sample.settings).2.remove
    (Sample.transaction 2 [.zero 32]).hash).2.offer better ample Sample.settings).2

/-- The sender could pay for more now, and still the replaced transaction is not
let in. -/
theorem sample_succession : Reached 2 full ∧ ∃ p',
    full.offer replacement scarce Sample.settings = (.ok .succeed, p') ∧
    full.get? (Sample.transaction 1 [.zero 32]).hash = some (Sample.transaction 1 [.zero 32]) ∧
    InConflict replacement (Sample.transaction 1 [.zero 32]) ∧ p'.Leads relieved ∧
    relieved.get? replacement.hash = some replacement ∧ relieved.contains better.hash = true ∧
    p'.get? (Sample.transaction 1 [.zero 32]).hash = none ∧
    relieved.get? (Sample.transaction 1 [.zero 32]).hash ≠ some (Sample.transaction 1 [.zero 32]) ∧
    (relieved.offer (Sample.transaction 1 [.zero 32]) ample Sample.settings).1 ≠ .ok .succeed ∧
    (relieved.offer (Sample.transaction 1 [.zero 32]) ample Sample.settings).2 = relieved := by
  have hreached : Reached 2 full := .offer _ _ _ (.offer _ _ _ .empty)
  have hrun : (full.offer replacement scarce Sample.settings).1.toOption = some .succeed ∧
      full.get? (Sample.transaction 1 [.zero 32]).hash = some (Sample.transaction 1 [.zero 32]) ∧
      InConflict replacement (Sample.transaction 1 [.zero 32]) ∧
      relieved.get? replacement.hash = some replacement ∧
      relieved.contains better.hash = true := by decide +kernel
  obtain ⟨hok, hpooled, hconflict, hstays, hbetter⟩ := hrun
  have hlater : (full.offer replacement scarce Sample.settings).2.Leads relieved :=
    .offer _ _ _ (.remove _ .refl)
  rcases hr : full.offer replacement scarce Sample.settings with ⟨f | verdict, p'⟩ <;>
    rw [hr] at hok hlater <;> cases hok
  exact ⟨hreached, p', rfl, hpooled, hconflict, hlater, hstays, hbetter,
    a_replaced_transaction_stays_out hreached hr hpooled hconflict hlater hstays ample
      Sample.settings⟩

end BlockLedger.Pool
