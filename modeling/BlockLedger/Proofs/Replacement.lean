-- What an offer changes. A refused transaction leaves no trace. An accepted
-- one takes the place of the pooled transactions that it is in conflict with,
-- which it pays for, or else that of the lowest one of a full pool.
import BlockLedger.Proofs.Readmission

namespace BlockLedger.Pool

/-! ## Who gives way to whom -/

/-- One of two transactions declares the other. -/
def InConflict (t u : Transaction) : Prop := u.hash ∈ t.declared ∨ t.hash ∈ u.declared

instance (t u : Transaction) : Decidable (InConflict t u) := inferInstanceAs (Decidable (_ ∨ _))

/-- The pooled transactions that leave when a new one joins. -/
structure GiveWay (p : Pool) (t : Transaction) (left : List Transaction) : Prop where
  pooled : ∀ u ∈ left, p.get? u.hash = some u
  once : left.Nodup
  /-- Nothing stays that is in conflict with the new one. -/
  conflicting (hash : Hash256) (u : Transaction) :
    p.get? hash = some u → InConflict t u → u ∈ left
  /-- Whoever sent one of those signed the new one. -/
  signed : ∀ u ∈ left, InConflict t u → ∃ sender ∈ t.accounts, u.sender? = some sender
  /-- If there are any, they pay less together, in a sum without a bound. -/
  cheaper : ∀ u ∈ left, InConflict t u →
    ((left.filter fun u => InConflict t u).map (·.networkFee.toNat)).sum < t.networkFee.toNat
  /-- Another one leaves only alone, so nothing is in conflict then, and the pool is
  full. It is the lowest one, and lower than the new one. -/
  further : ∀ u ∈ left, ¬ InConflict t u → left = [u] ∧ p.size = p.capacity ∧ Above t u ∧
    ∀ hash v, p.get? hash = some v → v ≠ u → Above v u

variable {p p' : Pool} {capacity : Nat} {c : Cache} {settings : Settings} {t u : Transaction}
  {evicted s : SortedSet Hash256} {ts left : List Transaction}

/-! ## Fees -/

/-- A sum that stops at a limit is the sum, or the limit if that is less. -/
theorem foldl_min_eq {α : Type} (f : α → Nat) (limit : Nat) (l : List α) (start : Nat) :
    l.foldl (fun sum a => min (sum + f a) limit) (min start limit) =
      min (start + (l.map f).sum) limit := by
  induction l generalizing start with
  | nil => rfl
  | cons a rest ih =>
    have hstep : min (min start limit + f a) limit = min (start + f a) limit := by omega
    rw [List.foldl_cons, hstep, ih, List.map_cons, List.sum_cons, Nat.add_assoc]

theorem sumFees_eq (ts : List Transaction) :
    sumFees ts = min (ts.map (·.networkFee.toNat)).sum (2 ^ 64 - 1) := by
  have hsum := foldl_min_eq (fun t : Transaction => t.networkFee.toNat) (2 ^ 64 - 1) ts 0
  rwa [Nat.zero_add, Nat.zero_min] at hsum

/-- No fee is above the limit of the sum, so what pays more than the limited sum
pays more than the sum. -/
theorem sum_lt_of_sumFees_lt (h : sumFees ts < t.networkFee.toNat) :
    (ts.map (·.networkFee.toNat)).sum < t.networkFee.toNat := by
  rw [sumFees_eq] at h
  have hfee := t.networkFee.toNat_lt
  omega

theorem of_mayReplace (h : mayReplace t ts = true) :
    (∀ u ∈ ts, ∃ sender ∈ t.accounts, u.sender? = some sender) ∧
      (ts.map (·.networkFee.toNat)).sum < t.networkFee.toNat := by
  unfold mayReplace at h
  rw [Bool.and_eq_true, List.all_eq_true, decide_eq_true_eq] at h
  obtain ⟨hsigned, hfees⟩ := h
  refine ⟨fun u hu => ?_, sum_lt_of_sumFees_lt hfees⟩
  obtain ⟨sender, hs, hin⟩ := (Option.any_eq_true _ _).1 (hsigned u hu)
  exact ⟨sender, List.contains_iff_mem.1 hin, hs⟩

/-! ## Hashes and the transactions under them -/

/-- The pooled transactions under some hashes. -/
theorem Sound.mem_filterMap_get?_iff (h : p.Sound none) (s : SortedSet Hash256) :
    u ∈ s.keys.filterMap p.get? ↔ p.get? u.hash = some u ∧ s.contains u.hash = true := by
  rw [List.mem_filterMap]
  constructor
  · rintro ⟨hash, hmem, hget⟩
    obtain ⟨-, rfl, -⟩ := h.get?_eq_some hget
    exact ⟨hget, SortedMap.mem_keys_iff.1 hmem⟩
  · rintro ⟨hget, hin⟩
    exact ⟨u.hash, SortedMap.mem_keys_iff.2 hin, hget⟩

theorem Sound.nodup_filterMap_get? (h : p.Sound none) (s : SortedSet Hash256) :
    (s.keys.filterMap p.get?).Nodup := by
  apply (SortedMap.nodup_keys s).filterMap
  intro hash other u hu hu'
  rw [← (h.get?_eq_some hu).2.1, ← (h.get?_eq_some hu').2.1]

/-- What is under a hash once the transactions under some hashes left. -/
theorem Vacated.get? (hp : p.Vacated t evicted p') (h : p.Sound none) (hash : Hash256) :
    p'.get? hash =
      if hash ∈ (evicted.keys.filterMap p.get?).map (·.hash) then none else p.get? hash := by
  have herased : p'.get? hash = if hash ∈ evicted.keys then none else p.get? hash := by
    unfold Pool.get?
    rw [hp.verified, SortedMap.get?_foldl_erase]
    split <;> rfl
  rw [herased]
  rcases hget : p.get? hash with _ | u
  · rw [ite_self, ite_self]
  · obtain ⟨-, rfl, -⟩ := h.get?_eq_some hget
    refine if_congr ?_ rfl rfl
    constructor
    · intro hmem
      have hu := (h.mem_filterMap_get?_iff evicted).2 ⟨hget, SortedMap.mem_keys_iff.1 hmem⟩
      exact List.mem_map_of_mem hu
    · intro hmem
      obtain ⟨v, hv, hsame⟩ := List.mem_map.1 hmem
      rw [← hsame]
      exact SortedMap.mem_keys_iff.2 ((h.mem_filterMap_get?_iff evicted).1 hv).2

/-! ## What an accepted transaction was measured against -/

/-- An accepted transaction was let in by the chain, and had its plan made in
the pool. -/
theorem checked_of_accept (h : p.plan t c settings = .ok (.accept evicted)) :
    checkOnChain t c settings = .ok .succeed ∧ p.planInPool t c = .ok (.accept evicted) := by
  unfold Pool.plan at h
  split at h
  · cases h
  split at h
  · obtain ⟨verdict, hchain, h⟩ := ok_of_bind h
    split at h
    · exact ⟨hchain, h⟩
    · cases h
  · cases h

theorem planInPool_ne_reject_succeed (p : Pool) (t : Transaction) (c : Cache) :
    p.planInPool t c ≠ .ok (.reject .succeed) := by
  intro h
  unfold Pool.planInPool at h
  split at h
  · cases h
  split at h
  · cases h
  rename_i room _
  rcases hcheck : p.book.check t (room.keys.filterMap p.get?) c with f | clearance <;>
    rw [hcheck] at h
  · cases h
  · cases clearance <;> cases h

/-- What rejects a transaction is not a success. -/
theorem verdict_ne_succeed_of_reject {verdict : Verdict}
    (h : p.plan t c settings = .ok (.reject verdict)) : verdict ≠ .succeed := by
  rintro rfl
  unfold Pool.plan at h
  split at h
  · cases h
  split at h
  · obtain ⟨verdict, -, h⟩ := ok_of_bind h
    split at h
    · exact planInPool_ne_reject_succeed p t c h
    · rename_i hverdict
      cases h
      exact hverdict rfl
  · rename_i halone
    exact halone (Plan.reject.inj (Except.ok.inj h))

/-- It may replace all that it is in conflict with. -/
theorem mayReplace_of_accept (h : p.plan t c settings = .ok (.accept evicted)) :
    (p.conflicting t).isEmpty = true ∨
      mayReplace t ((p.conflicting t).keys.filterMap p.get?) = true := by
  have hplan := (checked_of_accept h).2
  by_contra hnot
  rw [not_or] at hnot
  have hnone : p.replaced t = none := by
    unfold Pool.replaced
    dsimp only
    rw [if_neg hnot.1, if_neg hnot.2]
  unfold Pool.planInPool at hplan
  rw [hnone] at hplan
  cases hplan

/-- The first of the order is the lowest one of the pool. -/
theorem Sound.exists_lowest (h : p.Sound none) {lowest : Priority} {rest : List Priority}
    (hkeys : p.sorted.keys = lowest :: rest) :
    ∃ u, p.get? u.hash = some u ∧ Priority.of u u.hash = lowest ∧
      ∀ hash v, p.get? hash = some v → v ≠ u → Above v u := by
  have hascending := SortedMap.pairwise_keys p.sorted
  rw [hkeys] at hascending
  have hfirst : lowest ∈ p.sorted.keys := by
    rw [hkeys]
    exact List.mem_cons_self
  obtain ⟨u, hget, rfl⟩ := (h.mem_sorted_iff lowest).1 hfirst
  refine ⟨u, hget, rfl, fun hash v hv hne => ?_⟩
  obtain ⟨-, rfl, -⟩ := h.get?_eq_some hv
  have hmem : Priority.of v v.hash ∈ p.sorted.keys := (h.mem_sorted_iff _).2 ⟨v, hv, rfl⟩
  rw [hkeys, List.mem_cons] at hmem
  rcases hmem with hsame | hmem
  · have hsame : v.hash = u.hash := congrArg Priority.hash hsame
    rw [hsame] at hv
    exact absurd (Option.some.inj (hv.symm.trans hget)) hne
  · exact Std.OrientedCmp.gt_iff_lt.2 ((List.pairwise_cons.1 hascending).1 _ hmem)

/-- Replaced transactions leave room, so a pool without room replaces none. -/
theorem eq_empty_of_full (hsize : p.size ≤ p.capacity)
    (hin : ∀ x, s.contains x = true → p.verified.contains x = true)
    (hfull : ¬ p.size - s.size < p.capacity) : s = .empty ∧ p.size = p.capacity := by
  have hnobody : s.size = 0 := by
    by_contra hsome
    obtain ⟨⟨x, v⟩, hx⟩ := List.exists_mem_of_length_pos (Nat.pos_of_ne_zero hsome)
    have hcontains := hin x (SortedMap.contains_iff.2 ⟨v, SortedMap.get?_eq_some_iff.2 hx⟩)
    obtain ⟨item, hitem⟩ := SortedMap.contains_iff.1 hcontains
    have hpooled : 0 < p.size := List.length_pos_of_mem (SortedMap.get?_eq_some_iff.1 hitem)
    omega
  exact ⟨SortedMap.ext_toList (List.length_eq_zero_iff.1 hnobody), by omega⟩

/-- Beside the replaced transactions only the lowest one of a full pool leaves,
and then none is replaced. -/
theorem Sound.makeRoom_cases (h : p.Sound none) (hsize : p.size ≤ p.capacity)
    (hin : ∀ x, s.contains x = true → p.verified.contains x = true)
    (hroom : p.makeRoom t s = some evicted) :
    evicted = s ∨ s = .empty ∧ p.size = p.capacity ∧
      ∃ u, p.get? u.hash = some u ∧ evicted = SortedMap.empty.insert u.hash () ∧ Above t u ∧
        ∀ hash v, p.get? hash = some v → v ≠ u → Above v u := by
  unfold Pool.makeRoom at hroom
  split at hroom
  · cases hroom
    exact .inl rfl
  rename_i hfull
  obtain ⟨rfl, hcapacity⟩ := eq_empty_of_full hsize hin hfull
  rcases hkeys : p.sorted.keys with _ | ⟨lowest, rest⟩
  · rw [hkeys] at hroom
    cases hroom
  obtain ⟨u, hget, rfl, hlowest⟩ := h.exists_lowest hkeys
  -- Nothing is passed over in the search, so it ends at the first of the order.
  have hfind : p.sorted.keys.find? (fun priority =>
      !(SortedMap.empty : SortedSet Hash256).contains priority.hash) =
        some (Priority.of u u.hash) := by
    rw [hkeys]
    rfl
  simp only [hfind] at hroom
  split at hroom
  · rename_i hlower
    cases hroom
    exact .inr ⟨rfl, hcapacity, u, hget, rfl, Std.OrientedCmp.gt_iff_lt.2 hlower, hlowest⟩
  · cases hroom

/-! ## Offers -/

/-- All that is in conflict with a transaction may give way to it. -/
theorem Sound.giveWay_of_conflicting (h : p.Sound none)
    (hmay : (p.conflicting t).isEmpty = true ∨
      mayReplace t ((p.conflicting t).keys.filterMap p.get?) = true) :
    p.GiveWay t ((p.conflicting t).keys.filterMap p.get?) := by
  have hmem : ∀ u, u ∈ (p.conflicting t).keys.filterMap p.get? ↔
      p.get? u.hash = some u ∧ InConflict t u := by
    intro u
    rw [h.mem_filterMap_get?_iff, h.conflicting_iff]
    refine and_congr_right fun hget => ?_
    rw [hget]
    simp [InConflict]
  have hpays : ∀ u ∈ (p.conflicting t).keys.filterMap p.get?,
      mayReplace t ((p.conflicting t).keys.filterMap p.get?) = true := by
    intro u hu
    refine hmay.resolve_left fun hempty => ?_
    have hin := ((h.mem_filterMap_get?_iff _).1 hu).2
    unfold SortedMap.contains at hin
    rw [SortedMap.isEmpty_iff.1 hempty] at hin
    cases hin
  refine ⟨fun u hu => ((hmem u).1 hu).1, h.nodup_filterMap_get? _, fun hash u hget hu => ?_,
    fun u hu _ => (of_mayReplace (hpays u hu)).1 u hu, fun u hu _ => ?_,
    fun u hu hnot => absurd ((hmem u).1 hu).2 hnot⟩
  · obtain ⟨-, rfl, -⟩ := h.get?_eq_some hget
    exact (hmem u).2 ⟨hget, hu⟩
  · have hall : ((p.conflicting t).keys.filterMap p.get?).filter (fun u => InConflict t u) =
        (p.conflicting t).keys.filterMap p.get? :=
      List.filter_eq_self.2 fun v hv => decide_eq_true ((hmem v).1 hv).2
    rw [hall]
    exact (of_mayReplace (hpays u hu)).2

/-- What leaves for an accepted transaction gives way to it. -/
theorem Kept.giveWay (h : p.Kept capacity) (hplan : p.plan t c settings = .ok (.accept evicted)) :
    p.GiveWay t (evicted.keys.filterMap p.get?) := by
  obtain ⟨-, -, hroom, -⟩ := plan_accept hplan
  have hsize : p.size ≤ p.capacity := by
    rw [h.limit]
    exact h.size
  rcases h.sound.makeRoom_cases hsize (fun x hx => h.sound.contains_of_conflicting hx) hroom with
    rfl | ⟨hempty, hfull, u, hget, rfl, habove, hlowest⟩
  · exact h.sound.giveWay_of_conflicting (mayReplace_of_accept hplan)
  · have hnone : ∀ hash v, p.get? hash = some v → ¬ InConflict t v := by
      intro hash v hv hconflict
      have hin := h.sound.conflicting_iff.2 ⟨v, hv, hconflict⟩
      rw [hempty] at hin
      cases hin
    have honly : (SortedMap.empty.insert u.hash () : SortedSet Hash256).keys.filterMap p.get? =
        [u] := List.filterMap_cons_some hget
    rw [honly]
    refine ⟨List.forall_mem_singleton.2 hget, List.nodup_singleton u,
      fun hash v hv hconflict => absurd hconflict (hnone hash v hv), ?_, ?_, ?_⟩ <;>
        rw [List.forall_mem_singleton]
    · exact fun hconflict => absurd hconflict (hnone _ u hget)
    · exact fun hconflict => absurd hconflict (hnone _ u hget)
    · exact fun _ => ⟨rfl, hfull, habove, hlowest⟩

/-- An offer that does not succeed leaves the pool as it was. One that does puts
the transaction in and takes out those that give way to it, and no others. -/
theorem an_offer_takes_out_only_what_gives_way {r : Outcome Verdict} (h : Reached capacity p)
    (hr : p.offer t c settings = (r, p')) :
    (r ≠ .ok .succeed → p' = p) ∧
      (r = .ok .succeed → p.get? t.hash = none ∧ ∃ left, p.GiveWay t left ∧
        ∀ hash, p'.get? hash = if hash = t.hash then some t
          else if hash ∈ left.map (·.hash) then none else p.get? hash) := by
  have hkept := h.kept
  rcases hkept.sound.offer_cases t c settings with
    ⟨f, -, hrun⟩ | ⟨verdict, hplan, hrun⟩ | ⟨evicted, p₁, hplan, hp, hrun⟩ <;> rw [hr] at hrun
  · cases hrun
    exact ⟨fun _ => rfl, fun hok => by cases hok⟩
  · cases hrun
    refine ⟨fun _ => rfl, fun hok => ?_⟩
    cases hok
    exact absurd rfl (verdict_ne_succeed_of_reject hplan)
  · cases hrun
    refine ⟨fun hnot => absurd rfl hnot, fun _ => ?_⟩
    obtain ⟨hnew, -⟩ := plan_accept hplan
    refine ⟨Option.map_eq_none_iff.2 hnew, _, hkept.giveWay hplan, fun hash => ?_⟩
    rw [get?_insert, hp.get? hkept.sound]

/-- A transaction takes the place of the one that it declares, and the other one
of the full pool stays. -/
theorem sample_takeover : Reached 2 full ∧ ∃ p' left,
    full.offer replacement scarce Sample.settings = (.ok .succeed, p') ∧
    full.get? replacement.hash = none ∧ full.GiveWay replacement left ∧
    (∀ hash, p'.get? hash = if hash = replacement.hash then some replacement
      else if hash ∈ left.map (·.hash) then none else full.get? hash) ∧
    p'.get? (Sample.transaction 1 [.zero 32]).hash = none ∧
    p'.get? (Sample.transaction 2 [.zero 32]).hash = some (Sample.transaction 2 [.zero 32]) := by
  have hreached : Reached 2 full := .offer _ _ _ (.offer _ _ _ .empty)
  have hrun : full.get? (Sample.transaction 1 [.zero 32]).hash ≠ none ∧
      (full.offer replacement scarce Sample.settings).2.get?
        (Sample.transaction 1 [.zero 32]).hash = none ∧
      (full.offer replacement scarce Sample.settings).2.get?
        (Sample.transaction 2 [.zero 32]).hash = some (Sample.transaction 2 [.zero 32]) := by
    decide +kernel
  rcases hr : full.offer replacement scarce Sample.settings with ⟨r, p'⟩
  rw [hr] at hrun
  dsimp only at hrun
  obtain ⟨hbefore, hgone, hstays⟩ := hrun
  obtain ⟨hsame, hchanged⟩ := an_offer_takes_out_only_what_gives_way hreached hr
  -- Something left, so the offer succeeded.
  obtain rfl : r = .ok .succeed := by
    by_contra hnot
    rw [hsame hnot] at hgone
    exact hbefore hgone
  obtain ⟨hnew, left, hleft, hafter⟩ := hchanged rfl
  exact ⟨hreached, p', left, rfl, hnew, hleft, hafter, hgone, hstays⟩

end BlockLedger.Pool
