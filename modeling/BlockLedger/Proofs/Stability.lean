-- Pools that a block leaves alone. In a pool that was brought in line with a
-- block nothing is swept away any more, and its transactions queue in the same
-- order behind the same ones as when they were let in. So all are let in again,
-- and a pool with the same transactions has the same books.
import BlockLedger.Proofs.Interruption

namespace BlockLedger.Pool

variable {p p' q s : Pool} {capacity : Nat} {c : Cache} {settings : Settings} {t : Transaction}
  {block : Block} {kept done waiting rest ts : List Transaction} {gone : List Hash256}

/-! ## Pools with the same transactions -/

/-- The order and the books are those of the transactions, so there is only one
such pool with them. -/
theorem Sound.ext (h : p.Sound none) (h' : q.Sound none) (hcapacity : p.capacity = q.capacity)
    (hget : ∀ hash, p.get? hash = q.get? hash) : p = q := by
  have hverified : p.verified = q.verified := by
    apply SortedMap.ext
    intro hash
    rw [h.verified_get?, h'.verified_get?, hget]
  have hsorted : p.sorted = q.sorted := by
    apply SortedMap.ext_contains
    intro priority
    rw [h.sorted_iff, h'.sorted_iff]
    simp only [hget]
  have hconflicts : p.conflicts = q.conflicts := by
    apply h.declarers.unique
    simpa only [hget] using h'.declarers
  have htotals : p.book.totals = q.book.totals := by
    have hfees : p.feesOf = q.feesOf := by
      funext sender
      unfold feesOf
      rw [hverified]
    apply h.listsSums.unique
    rw [hfees]
    exact h'.listsSums
  have horacles : p.book.oracles = q.book.oracles := by
    have hpairs := h'.oracles_iff
    simp only [← hget] at hpairs
    exact ListsPairs.unique h.oracles_iff hpairs
  obtain ⟨_, _, _, _, _, _⟩ := p
  obtain ⟨_, _, _, _, _, _⟩ := q
  subst hcapacity hverified hsorted hconflicts htotals horacles
  rfl

theorem Kept.eq_of_lists (h : p.Kept capacity) (h' : q.Kept capacity) (hp : p.Lists ts)
    (hq : q.Lists ts) : p = q := by
  apply h.sound.ext h'.sound (h.limit.trans h'.limit.symm)
  intro hash
  ext t
  exact (hp.get?_eq_some_iff hash t).trans (hq.get?_eq_some_iff hash t).symm

/-- Nothing leaves a pool that stays the same. -/
theorem Drops.eq_nil (h : p.Drops gone p) : gone = [] := by
  apply List.eq_nil_iff_forall_not_mem.2
  intro hash hmem
  obtain ⟨hin, hout⟩ := (h.mem_iff hash).1 hmem
  rw [hin] at hout
  cases hout

/-! ## Queues that are kept whole -/

/-- What a queue adds to the kept transactions is added again if it queues alone. -/
theorem exists_foldl_afterTurn (c : Cache) (settings : Settings) (queue kept : List Transaction) :
    ∃ added, queue.foldl (afterTurn c settings) kept = kept ++ added ∧
      added.foldl (afterTurn c settings) kept = kept ++ added := by
  induction queue generalizing kept with
  | nil => exact ⟨[], by simp⟩
  | cons t rest ih =>
    by_cases hadmits : admits c settings kept t = true
    · obtain ⟨added, hqueue, hagain⟩ := ih (kept ++ [t])
      have hturn : afterTurn c settings kept t = kept ++ [t] := if_pos hadmits
      refine ⟨t :: added, ?_, ?_⟩
      · rw [List.foldl_cons, hturn, hqueue, List.append_assoc, List.singleton_append]
      · rw [List.foldl_cons, hturn, hagain, List.append_assoc, List.singleton_append]
    · obtain ⟨added, hqueue, hagain⟩ := ih kept
      have hturn : afterTurn c settings kept t = kept := if_neg hadmits
      refine ⟨added, ?_, hagain⟩
      rw [List.foldl_cons, hturn, hqueue]

theorem readmitted_readmitted (queue : List Transaction) :
    readmitted c settings (readmitted c settings queue) = readmitted c settings queue := by
  obtain ⟨added, hqueue, hagain⟩ := exists_foldl_afterTurn c settings queue []
  unfold readmitted
  rw [hqueue, List.nil_append, hagain, List.nil_append]

/-- In a queue that is kept whole everybody is admitted. -/
theorem admits_of_readmitted_eq
    (h : readmitted c settings (done ++ t :: waiting) = done ++ t :: waiting) :
    admits c settings (readmitted c settings done) t = true := by
  by_contra hnot
  have hturn : afterTurn c settings (readmitted c settings done) t = readmitted c settings done :=
    if_neg hnot
  -- Without this one too few are kept.
  have hfew : (readmitted c settings (done ++ t :: waiting)).Sublist (done ++ waiting) := by
    have hdone : (readmitted c settings done).Sublist done := foldl_afterTurn_sublist done []
    rw [readmitted, List.foldl_append, List.foldl_cons, ← readmitted, hturn]
    exact (foldl_afterTurn_sublist waiting _).trans (hdone.append_right waiting)
  have hlength := hfew.length_le
  rw [h] at hlength
  simp only [List.length_append, List.length_cons] at hlength
  omega

namespace Refills

/-- Whoever is admitted is let in. -/
theorem offer_of_admits (h : s.Refills capacity p kept (t :: rest))
    (hadmits : admits c settings kept t = true) :
    ∃ p', p.offer t c settings = (.ok .succeed, p') := by
  rcases h.sound.offer_cases t c settings with
    ⟨f, hplan, -⟩ | ⟨verdict, hplan, -⟩ | ⟨evicted, p', -, -, hrun⟩
  · rw [h.plan_of_admits hadmits] at hplan
    cases hplan
  · rw [h.plan_of_admits hadmits] at hplan
    cases hplan
  · exact ⟨_, hrun⟩

/-- A queue that is kept whole comes to its end, and nobody is refused. -/
theorem reenter_of_readmitted_eq (h : s.Refills capacity (.empty capacity) [] s.transactions)
    (hwhole : readmitted c settings s.transactions = s.transactions) :
    (Pool.empty capacity).reenter c settings (s.transactions.map Pooled.of) = (.ok [], s) := by
  rcases hm : (Pool.empty capacity).reenter c settings (s.transactions.map Pooled.of)
    with ⟨f | refused, p'⟩
  · obtain ⟨done, t, waiting, hsplit, hfilled, hfails⟩ := h.reenter_error hm
    rw [hsplit] at hwhole
    obtain ⟨p'', hoffer⟩ := hfilled.offer_of_admits (admits_of_readmitted_eq hwhole)
    rw [hfails] at hoffer
    cases hoffer
  · obtain ⟨hfilled, hsub, htold⟩ := h.reenter hm
    have hlists : p'.Lists s.transactions := by
      have hlists := hfilled.lists
      rwa [← readmitted, hwhole] at hlists
    have hsame := hfilled.toKept.eq_of_lists h.source hlists h.source.sound.lists
    have hdrops := hfilled.drops hsub htold
    rw [hsame] at hdrops
    rw [hsame, hdrops.eq_nil]

end Refills

/-! ## Updates that change nothing -/

/-- A block sweeps nothing out of a pool, and in their order all its transactions
are let in again. -/
structure Settled (p : Pool) (block : Block) (c : Cache) (settings : Settings) : Prop where
  survives : p.survivors block = p.transactions
  stays : readmitted c settings p.transactions = p.transactions

/-- An update leaves a settled pool as it is. -/
theorem Reached.update_of_settled (h : Reached capacity p) (hs : p.Settled block c settings) :
    p.update block c settings = (.ok [], p) := by
  obtain ⟨s, swept, -, hswept, hqueue, hstart, heq⟩ := h.refills block c settings
  have hsame : s = p := by
    apply hstart.source.eq_of_lists h.kept hstart.source.sound.lists
    rw [hqueue, hs.survives]
    exact h.kept.sound.lists
  subst hsame
  rw [heq _ _ (hstart.reenter_of_readmitted_eq hs.stays), hswept.eq_nil]
  rfl

/-- After an update a pool is settled. -/
theorem Reached.settled_of_update (h : Reached capacity p)
    (hr : p.update block c settings = (.ok gone, p')) : p'.Settled block c settings := by
  have hlists := h.lists_of_update hr
  have htransactions := (h.of_update hr).kept.sound.lists.unique hlists
  refine ⟨List.filter_eq_self.2 fun t ht => decide_eq_true ?_, ?_⟩
  · rw [htransactions] at ht
    have hsurvives := (foldl_afterTurn_sublist _ _).subset ht
    exact (h.kept.sound.mem_survivors_iff.1 hsurvives).2
  · rw [htransactions, readmitted_readmitted]

/-- A block leaves exactly the settled pools as they are. -/
theorem Reached.update_eq_self_iff (h : Reached capacity p) :
    p.update block c settings = (.ok [], p) ↔ p.Settled block c settings :=
  ⟨h.settled_of_update, h.update_of_settled⟩

/-- A second update with the same block, snapshot and settings succeeds, tells of
nothing that left, and leaves the whole pool as it is. -/
theorem a_second_update_changes_nothing (h : Reached capacity p)
    (hr : p.update block c settings = (.ok gone, p')) :
    p'.update block c settings = (.ok [], p') :=
  (h.of_update hr).update_eq_self_iff.2 (h.settled_of_update hr)

/-- The funds suffice for two of three transactions. The one that was passed over
is gone, and the two stay where they are. -/
theorem sample_second_update : Reached 5 brimming ∧ ∃ gone p',
    brimming.update sweeping scarce Sample.settings = (.ok gone, p') ∧
    p'.transactions = [Sample.transaction 3 [], Sample.transaction 5 []] ∧
    p'.update sweeping scarce Sample.settings = (.ok [], p') := by
  have hreached : Reached 5 brimming := Reached.empty.offered ample Sample.settings crowd
  have hok : ((empty 5).reenter scarce Sample.settings
      ((brimming.survivors sweeping).map Pooled.of)).1.isOk = true := by decide +kernel
  have hrule : readmitted scarce Sample.settings (brimming.survivors sweeping) =
      [Sample.transaction 3 [], Sample.transaction 5 []] := by decide +kernel
  obtain ⟨s, swept, -, -, hqueue, -, heq⟩ := hreached.refills sweeping scarce Sample.settings
  rw [← hqueue] at hok
  rcases hm : (empty 5).reenter scarce Sample.settings (s.transactions.map Pooled.of)
    with ⟨f | refused, p'⟩
  · rw [hm] at hok
    cases hok
  · have hr := heq _ _ hm
    have hlists := hreached.lists_of_update hr
    rw [hrule] at hlists
    exact ⟨hreached, _, p', hr, (hreached.of_update hr).kept.sound.lists.unique hlists,
      a_second_update_changes_nothing hreached hr⟩

end BlockLedger.Pool
