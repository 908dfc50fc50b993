-- Updates that fail. A check that fails ends the loop that fills the pool
-- anew, so the transactions that had their turn are pooled again, and the
-- one that was checked and all that were waiting behind it are lost.
import BlockLedger.Proofs.Readmission

namespace BlockLedger.Pool

/-! ## What a block leaves of a pool -/

/-- The pooled transactions that no transaction of a block sweeps away, the
highest priority first. -/
def survivors (p : Pool) (block : Block) : List Transaction :=
  p.transactions.filter fun t => ∀ u ∈ block.transactions, ¬ Sweeps u t

variable {p p' s : Pool} {capacity : Nat} {c : Cache} {settings : Settings} {t u : Transaction}
  {kept rest : List Transaction} {block : Block} {f : Failure}

theorem Sound.mem_survivors_iff (h : p.Sound none) :
    t ∈ p.survivors block ↔
      p.get? t.hash = some t ∧ ∀ u ∈ block.transactions, ¬ Sweeps u t := by
  rw [survivors, List.mem_filter, decide_eq_true_eq, h.lists.get?_eq_some_iff]
  simp

/-- A block takes all but the survivors out of the pool, and they are the queue
that fills it anew. -/
theorem Reached.refills (h : Reached capacity p) (block : Block) (c : Cache)
    (settings : Settings) :
    ∃ s swept, p.removeIncluded block.transactions = (.ok swept, s) ∧ p.Drops swept s ∧
      s.transactions = p.survivors block ∧
      s.Refills capacity (.empty capacity) [] s.transactions ∧
      ∀ r p', (Pool.empty capacity).reenter c settings (s.transactions.map Pooled.of) = (r, p') →
        p.update block c settings = (r.map (swept ++ ·), p') := by
  obtain ⟨s, swept, hrun, hs, hswept, hstays, heq⟩ := h.kept.update_eq block c settings
  have hqueue : p.survivors block = s.transactions := by
    apply Lists.unique (p := s) _ hs.sound.lists
    refine ⟨h.kept.sound.descending.filter _, fun hash t => ?_⟩
    rw [hstays, h.kept.sound.lists.get?_eq_some_iff, survivors, List.mem_filter, decide_eq_true_eq]
    exact and_right_comm
  have hcompatible : s.Compatible := h.compatible.mono fun hash t hget => ((hstays hash t).1 hget).1
  exact ⟨s, swept, hrun, hswept, hqueue.symm, .start hs hcompatible, heq⟩

/-! ## Where the queue stops -/

namespace Refills

/-- What is waiting is not pooled. -/
theorem get?_waiting (h : s.Refills capacity p kept rest) (hu : u ∈ rest) :
    p.get? u.hash = none := by
  rcases hget : p.get? u.hash with _ | v
  · rfl
  · obtain ⟨hv, hsame⟩ := h.mem_kept hget
    have heq := h.eq_of_hash_eq (List.mem_append_left _ hv) (List.mem_append_right _ hu) hsame
    have hnodup := (nodup_of_above h.source.sound.descending).sublist h.queue
    exact absurd heq ((List.nodup_append.1 hnodup).2.2 v hv u hu)

/-- A queue that stops went by the rule up to the transaction whose check
failed. -/
theorem reenter_error (h : s.Refills capacity p kept rest)
    (hr : p.reenter c settings (rest.map Pooled.of) = (.error f, p')) :
    ∃ done t waiting, rest = done ++ t :: waiting ∧
      s.Refills capacity p' (done.foldl (afterTurn c settings) kept) (t :: waiting) ∧
      p'.offer t c settings = (.error f, p') := by
  induction rest generalizing p kept with
  | nil => cases hr
  | cons t rest ih =>
    rw [List.map_cons, Pool.reenter] at hr
    rcases hoffer : p.offer (Pooled.of t).transaction c settings with ⟨f' | verdict, p₁⟩ <;>
      rw [hoffer] at hr
    · cases hr
      -- The failed offer left the pool as it was.
      rcases h.sound.offer_cases t c settings with
        ⟨f', -, hrun⟩ | ⟨verdict, -, hrun⟩ | ⟨evicted, p₂, -, -, hrun⟩ <;>
          rw [show p.offer t c settings = _ from hoffer] at hrun <;> cases hrun
      exact ⟨[], t, rest, rfl, h, hoffer⟩
    · dsimp only at hr
      rcases hmore : p₁.reenter c settings (rest.map Pooled.of) with ⟨f' | more, p₂⟩ <;>
        rw [hmore] at hr <;> cases hr
      obtain ⟨done, t', waiting, rfl, hfilled, hfails⟩ := ih (h.offer hoffer).1 hmore
      exact ⟨t :: done, t', waiting, rfl, hfilled, hfails⟩

end Refills

/-- An update that succeeds keeps what the rule readmits of the survivors. -/
theorem Reached.lists_of_update {gone : List Hash256} (h : Reached capacity p)
    (hr : p.update block c settings = (.ok gone, p')) :
    p'.Lists (readmitted c settings (p.survivors block)) := by
  obtain ⟨s, swept, -, -, hqueue, hstart, heq⟩ := h.refills block c settings
  rcases hm : (Pool.empty capacity).reenter c settings (s.transactions.map Pooled.of)
    with ⟨f | refused, p''⟩ <;> rw [heq _ _ hm] at hr <;> cases hr
  rw [← hqueue]
  exact (hstart.reenter hm).1.lists

/-! ## Updates that fail -/

/-- A failed update keeps what the rule readmits of the survivors before the one
whose check failed. That one and all behind it were pooled, and are lost. -/
theorem a_failed_update_loses_all_that_wait (h : Reached capacity p)
    (hr : p.update block c settings = (.error f, p')) :
    ∃ done t waiting, p.survivors block = done ++ t :: waiting ∧
      p'.Lists (readmitted c settings done) ∧ p'.offer t c settings = (.error f, p') ∧
      ∀ u ∈ t :: waiting, p.get? u.hash = some u ∧ p'.get? u.hash = none := by
  obtain ⟨s, swept, -, -, hqueue, hstart, heq⟩ := h.refills block c settings
  rw [← hqueue]
  rcases hm : (empty capacity).reenter c settings (s.transactions.map Pooled.of)
    with ⟨f' | refused, p''⟩ <;> rw [heq _ _ hm] at hr <;> cases hr
  obtain ⟨done, t, waiting, hsplit, hfilled, hfails⟩ := hstart.reenter_error hm
  refine ⟨done, t, waiting, hsplit, hfilled.lists, hfails, fun u hu => ⟨?_, ?_⟩⟩
  · have hmem : u ∈ p.survivors block := by
      rw [← hqueue, hsplit]
      exact List.mem_append_right done hu
    exact (h.kept.sound.mem_survivors_iff.1 hmem).1
  · exact hfilled.get?_waiting hu

/-! ## An account that cannot be read -/

/-- A transaction of somebody else, without fees. -/
def bystander : Transaction :=
  (Transaction.ofContent? ⟨0, 6, 0, 0, 10, [⟨.zero 20, 1⟩], [], [1]⟩).getD default

/-- A pool with a transaction of the holder, and that of the bystander below it. -/
def mixed : Pool := (empty 2).offered scarce Sample.settings [Sample.transaction 1 [], bystander]

/-- A snapshot where the account of the holder is not an account. -/
def broken : Cache := scarce.put (Gas.accountKey Sample.holder) (.raw [255])

/-- A block without transactions. -/
def idle : Block := ⟨Sample.genesis.header, []⟩

/-- The account of the holder under its key, which is none. -/
def unreadable : StorageError := .corrupted (Gas.accountKey Sample.holder) .malformed

/-- The storage error that an operation ends with, if it does. -/
def storageError? {α : Type} : Outcome α → Option StorageError
  | .error (.storage e) => some e
  | _ => none

theorem eq_of_storageError? {α : Type} {r : Outcome α} {e : StorageError}
    (h : storageError? r = some e) : r = .error (.storage e) := by
  unfold storageError? at h
  split at h <;> cases h
  rfl

/-- The holder comes first, so its check ends the update of the pool. -/
theorem update_mixed : Reached 2 mixed ∧
    mixed.survivors idle = [Sample.transaction 1 [], bystander] ∧ ∃ p',
      mixed.update idle broken Sample.settings = (.error (.storage unreadable), p') ∧
      p'.get? bystander.hash = none := by
  have hreached : Reached 2 mixed := Reached.empty.offered scarce Sample.settings _
  have hqueue : mixed.survivors idle = [Sample.transaction 1 [], bystander] := by decide +kernel
  have hfails : storageError? ((empty 2).reenter broken Sample.settings
      ((mixed.survivors idle).map Pooled.of)).1 = some unreadable := by decide +kernel
  have hlost : ((empty 2).reenter broken Sample.settings
      ((mixed.survivors idle).map Pooled.of)).2.get? bystander.hash = none := by decide +kernel
  obtain ⟨s, swept, -, -, hwaiting, -, heq⟩ := hreached.refills idle broken Sample.settings
  rw [← hwaiting] at hfails hlost
  rcases hm : (empty 2).reenter broken Sample.settings (s.transactions.map Pooled.of)
    with ⟨r, p'⟩
  rw [hm] at hfails hlost
  obtain rfl : r = .error (.storage unreadable) := eq_of_storageError? hfails
  exact ⟨hreached, hqueue, p', heq _ _ hm, hlost⟩

/-- The bystander waits behind the holder and is lost with it. -/
theorem sample_interruption : Reached 2 mixed ∧ ∃ p' done t waiting,
    mixed.update idle broken Sample.settings = (.error (.storage unreadable), p') ∧
    mixed.survivors idle = done ++ t :: waiting ∧
    p'.Lists (readmitted broken Sample.settings done) ∧
    p'.offer t broken Sample.settings = (.error (.storage unreadable), p') ∧
    ∀ u ∈ t :: waiting, mixed.get? u.hash = some u ∧ p'.get? u.hash = none := by
  obtain ⟨hreached, -, p', hr, -⟩ := update_mixed
  obtain ⟨done, t, waiting, hsplit, hlists, hfails, hlost⟩ :=
    a_failed_update_loses_all_that_wait hreached hr
  exact ⟨hreached, p', done, t, waiting, hr, hsplit, hlists, hfails, hlost⟩

/-- An update that ends with a storage error does lose transactions that the block
does not sweep away. -/
theorem a_survivor_may_be_lost : ¬ ∀ (capacity : Nat) (p p' : Pool) (block : Block) (c : Cache)
    (settings : Settings) (e : StorageError), Reached capacity p →
    p.update block c settings = (.error (.storage e), p') →
    ∀ hash t, p.get? hash = some t → (∀ u ∈ block.transactions, ¬ Sweeps u t) →
      p'.get? hash = some t := by
  intro hkeeps
  obtain ⟨hreached, hqueue, p', hr, hlost⟩ := update_mixed
  have hmem : bystander ∈ mixed.survivors idle := by
    rw [hqueue]
    exact List.mem_cons_of_mem _ List.mem_cons_self
  obtain ⟨hget, hsurvives⟩ := hreached.kept.sound.mem_survivors_iff.1 hmem
  rw [hkeeps 2 mixed p' idle broken Sample.settings unreadable hreached hr _ _ hget hsurvives] at hlost
  cases hlost

end BlockLedger.Pool
