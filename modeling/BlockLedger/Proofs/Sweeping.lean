-- Why a block may sweep the pool first. Whatever an included transaction
-- sweeps away, the chain itself turns down once it has the block: it has the
-- record of the transaction, or its mark, or the record of what it declares.
-- So the sweep only spares checks, and the pool comes out the same.
import BlockLedger.Proofs.Founding
import BlockLedger.Proofs.Interruption
import BlockLedger.Proofs.Repetition

namespace BlockLedger

/-! ## Rows of checks -/

section Rows

variable {α β : Type} {v w : α} {b : Bool} {rest : Outcome α}

theorem bind_eq_ok_iff {r : Outcome β} {g : β → Outcome α} :
    r >>= g = .ok w ↔ ∃ x, r = .ok x ∧ g x = .ok w := by
  constructor
  · exact ok_of_bind
  · rintro ⟨x, rfl, h⟩
    exact h

/-- A row comes to its last result if no check ends it with another one. -/
theorem ite_eq_ok_iff (hne : v ≠ w) :
    (if b = true then pure v else rest) = .ok w ↔ b = false ∧ rest = .ok w := by
  cases b
  · simp
  · simp [pure, Except.pure, hne]

theorem bind_ite_eq_ok_iff {r : Outcome Bool} (hne : v ≠ w) :
    (r >>= fun b => if b = true then pure v else rest) = .ok w ↔
      r = .ok false ∧ rest = .ok w := by
  rw [bind_eq_ok_iff]
  constructor
  · rintro ⟨b, hr, h⟩
    obtain ⟨rfl, h⟩ := (ite_eq_ok_iff hne).1 h
    exact ⟨hr, h⟩
  · rintro ⟨hr, h⟩
    exact ⟨false, hr, h⟩

end Rows

/-! ## The checks against a chain -/

section Checks

variable {t : Transaction} {c : Cache} {settings : Settings}

/-- What a chain has to answer for a transaction to pass its checks. -/
structure Transaction.Passes (t : Transaction) (c : Cache) (settings : Settings)
    (height : UInt32) (feePerByte : UInt64) : Prop where
  new : Ledger.containsTransaction c t.hash = .ok false
  unmarked : Ledger.hasConflict c t.hash t.accounts settings.maxTraceableBlocks = .ok false
  unopposed : ∀ hash ∈ t.declared, Ledger.containsTransaction c hash = .ok false
  tip : Ledger.currentIndex c = .ok height
  lasting : isExpired t height settings.maxValidUntilBlockIncrement = false
  due : isEarly t height = false
  allowed : t.accounts.any (Policy.isBlocked c) = false
  rate : Policy.feePerByte c = .ok feePerByte
  paid : sizeFee t feePerByte ≤ t.networkFee.toNat

theorem anyOnChain_eq_false_iff {hashes : List Hash256} :
    anyOnChain c hashes = .ok false ↔
      ∀ hash ∈ hashes, Ledger.containsTransaction c hash = .ok false := by
  induction hashes with
  | nil => simp [anyOnChain]
  | cons hash rest ih =>
    rw [List.forall_mem_cons, ← ih, anyOnChain, bind_ite_eq_ok_iff (by decide)]

theorem checkOnChain_succeed_iff :
    checkOnChain t c settings = .ok .succeed ↔
      ∃ height feePerByte, t.Passes c settings height feePerByte := by
  unfold checkOnChain
  rw [bind_ite_eq_ok_iff (by decide), bind_ite_eq_ok_iff (by decide),
    bind_ite_eq_ok_iff (by decide), anyOnChain_eq_false_iff, bind_eq_ok_iff]
  constructor
  · rintro ⟨hnew, hunmarked, hunopposed, height, hheight, h⟩
    rw [ite_eq_ok_iff (by decide), ite_eq_ok_iff (by decide), ite_eq_ok_iff (by decide),
      bind_eq_ok_iff] at h
    obtain ⟨hlasting, hdue, hallowed, feePerByte, hrate, h⟩ := h
    split at h
    · cases h
    · rename_i hpaid
      exact ⟨height, feePerByte, hnew, hunmarked, hunopposed, hheight, hlasting, hdue, hallowed,
        hrate, Nat.le_of_not_lt hpaid⟩
  · rintro ⟨height, feePerByte, h⟩
    refine ⟨h.new, h.unmarked, h.unopposed, height, h.tip, ?_⟩
    rw [h.lasting, h.due, h.allowed, h.rate, ok_bind, if_neg (Nat.not_lt.2 h.paid)]
    rfl

end Checks

/-! ## What a block makes the chain answer -/

namespace Chronicle

variable {c : Chain Store} {past : List Entry} {e : Entry} {hash : Hash256}
  {signers : List Hash160} {window : UInt32}

/-- Only transactions of the chain are on record. -/
theorem containsTransaction_eq_false_iff (h : Chronicle c past) :
    Ledger.containsTransaction c.snapshot hash = .ok false ↔
      ∀ e ∈ past, ∀ t ∈ e.block.transactions, t.hash ≠ hash := by
  unfold Ledger.containsTransaction
  rw [h.tells.record?, ok_bind, ← h.findSome?_record_eq_none]
  simp [pure, Except.pure]

/-- The chain answers with the conflicts that the blocks of the window declare,
unless the transaction is on record. -/
theorem exists_hasConflict {last : Entry} (h : Chronicle c past)
    (hlast : past.getLast? = some last) (hash : Hash256) (signers : List Hash160)
    (window : UInt32) :
    ∃ answer, Ledger.hasConflict c.snapshot hash signers window = .ok answer ∧
      (answer = true ↔ Ledger.containsTransaction c.snapshot hash = .ok false ∧
        ∃ e ∈ past, e.inWindow last.block.index window = true ∧
          e.block.DeclaresFor hash signers) := by
  have hlatest : ∀ p : Entry → Bool,
      (past.reverse.find? p).any (·.inWindow last.block.index window) = true ↔
        ∃ e ∈ past, p e = true ∧ e.inWindow last.block.index window = true := by
    intro p
    rw [find?_inWindow h.latestFirst_reverse fun e he => h.index_le hlast (List.mem_reverse.1 he)]
    simp only [List.mem_reverse]
  refine ⟨_, h.tells.hasConflict (h.tip_eq hlast).2 hash signers window, ?_⟩
  rw [Bool.and_eq_true, Bool.and_eq_true, Option.isNone_iff_eq_none, hlatest, List.any_eq_true,
    h.findSome?_record_eq_none, h.containsTransaction_eq_false_iff, and_assoc]
  refine and_congr_right fun _ => ?_
  constructor
  · rintro ⟨-, signer, hsigner, hmark⟩
    obtain ⟨e, he, hmark, hin⟩ := (hlatest _).1 hmark
    obtain ⟨t, ht, hdeclared, hsigned⟩ := (h.marks_iff he hash signer).1 hmark
    exact ⟨e, he, hin, t, ht, hdeclared, signer, hsigned, hsigner⟩
  · rintro ⟨e, he, hin, t, ht, hdeclared, signer, hsigned, hsigner⟩
    have hmark := (h.marks_iff he hash signer).2 ⟨t, ht, hdeclared, hsigned⟩
    exact ⟨⟨e, he, declares_of_marks hmark, hin⟩, signer, hsigner,
      (hlatest _).2 ⟨e, he, hmark, hin⟩⟩

/-- A conflict that the last block declared shows in any window, unless the
transaction is on record. -/
theorem hasConflict_of_tip (h : Chronicle c (past ++ [e])) (hwindow : 0 < window)
    (hnew : Ledger.containsTransaction c.snapshot hash = .ok false)
    (hdeclares : e.block.DeclaresFor hash signers) :
    Ledger.hasConflict c.snapshot hash signers window = .ok true := by
  obtain ⟨answer, hanswer, hiff⟩ := h.exists_hasConflict List.getLast?_concat hash signers window
  have hin : e.inWindow e.block.index window = true := by
    rw [Entry.inWindow_iff]
    exact ⟨UInt32.le_refl _, Nat.lt_add_of_pos_right (UInt32.lt_iff_toNat_lt.1 hwindow)⟩
  rw [hanswer, hiff.2 ⟨hnew, e, List.mem_concat_self, hin, hdeclares⟩]

variable {settings : Settings} {t u : Transaction} {height : UInt32} {feePerByte : UInt64}

/-- The last block declares no conflict for a signer of what passes. -/
theorem not_declared_of_passes (h : Chronicle c (past ++ [e]))
    (hwindow : 0 < settings.maxTraceableBlocks)
    (hpasses : t.Passes c.snapshot settings height feePerByte) :
    ¬ e.block.DeclaresFor t.hash t.accounts := by
  intro hdeclares
  have hshows := h.hasConflict_of_tip hwindow hpasses.new hdeclares
  rw [hpasses.unmarked] at hshows
  cases hshows

/-- A block sweeps nothing away that it does not include, that declares nothing
on the chain, and for whose signers it declares no conflict. -/
theorem not_sweeps (h : Chronicle c (past ++ [e]))
    (hnew : ∀ u ∈ e.block.transactions, u.hash ≠ t.hash)
    (hunopposed : ∀ hash ∈ t.declared, Ledger.containsTransaction c.snapshot hash = .ok false)
    (hno : ¬ e.block.DeclaresFor t.hash t.accounts) (hu : u ∈ e.block.transactions) :
    ¬ Pool.Sweeps u t := by
  rintro (hsame | ⟨hdeclared, sender, hsigned, hsender⟩ | hdeclares)
  · exact hnew u hu hsame.symm
  · exact hno ⟨u, hu, hdeclared, sender, hsigned, List.mem_of_mem_head? hsender⟩
  · exact h.containsTransaction_eq_false_iff.1 (hunopposed _ hdeclares) e List.mem_concat_self u hu
      rfl

/-- What passes is not swept away by the last block. -/
theorem not_sweeps_of_passes (h : Chronicle c (past ++ [e]))
    (hwindow : 0 < settings.maxTraceableBlocks)
    (hpasses : t.Passes c.snapshot settings height feePerByte) (hu : u ∈ e.block.transactions) :
    ¬ Pool.Sweeps u t := by
  have hnew := h.containsTransaction_eq_false_iff.1 hpasses.new e List.mem_concat_self
  exact h.not_sweeps hnew hpasses.unopposed (h.not_declared_of_passes hwindow hpasses) hu

end Chronicle

namespace Pool

variable {p p' : Pool} {capacity : Nat} {c : Cache} {settings : Settings} {t : Transaction}
  {verdict : Verdict} {ts : List Transaction} {refused : List Hash256}

/-! ## Transactions that are turned down -/

/-- What the chain turns down is refused by any pool, and leaves no trace. -/
theorem offer_of_rejected (h : checkOnChain t c settings = .ok verdict) (hv : verdict ≠ .succeed)
    (p : Pool) : ∃ verdict, p.offer t c settings = (.ok verdict, p) := by
  have hplan : ∃ verdict, p.plan t c settings = .ok (.reject verdict) := by
    unfold Pool.plan
    split
    · exact ⟨_, rfl⟩
    split
    · refine ⟨verdict, ?_⟩
      rw [h, ok_bind]
      split
      · exact absurd rfl hv
      · rfl
    · exact ⟨_, rfl⟩
  obtain ⟨verdict, hplan⟩ := hplan
  refine ⟨verdict, ?_⟩
  unfold Pool.offer
  rw [hplan]

/-- A queue without some that are turned down leads to the same pool. -/
theorem reenter_filter {stays : Transaction → Bool}
    (hrejected : ∀ t ∈ ts, stays t = false →
      ∃ verdict, checkOnChain t c settings = .ok verdict ∧ verdict ≠ .succeed)
    (h : p.reenter c settings ((ts.filter stays).map Pooled.of) = (.ok refused, p')) :
    ∃ refused, p.reenter c settings (ts.map Pooled.of) = (.ok refused, p') := by
  induction ts generalizing p refused with
  | nil => exact ⟨refused, h⟩
  | cons t rest ih =>
    obtain ⟨hfirst, hothers⟩ := List.forall_mem_cons.1 hrejected
    rw [List.map_cons, Pool.reenter]
    rcases hstays : stays t with _ | _
    · rw [List.filter_cons_of_neg (by simp [hstays])] at h
      obtain ⟨verdict, hchain, hv⟩ := hfirst hstays
      obtain ⟨verdict, hoffer⟩ := offer_of_rejected hchain hv p
      obtain ⟨more, hmore⟩ := ih hothers h
      rw [show p.offer (Pooled.of t).transaction c settings = _ from hoffer]
      dsimp only
      rw [hmore]
      exact ⟨_, rfl⟩
    · rw [List.filter_cons_of_pos hstays, List.map_cons, Pool.reenter] at h
      rcases hoffer : p.offer (Pooled.of t).transaction c settings with ⟨f | verdict, p₁⟩ <;>
        rw [hoffer] at h
      · cases h
      dsimp only at h ⊢
      rcases hmore : p₁.reenter c settings ((rest.filter stays).map Pooled.of)
        with ⟨f | more, p₂⟩ <;> rw [hmore] at h <;> cases h
      obtain ⟨all, hall⟩ := ih hothers hmore
      rw [hall]
      exact ⟨_, rfl⟩

/-! ## Updates without a sweep -/

section Updates

variable {σ : Type} {exec : Executor σ} {s s' : σ} {c c' : Chain Store} {past : List Entry}
  {block : Block} {applied : Persisted}

theorem Kept.mem_swept_iff {q : Pool} {swept : List Hash256} (h : p.Kept capacity)
    (hrun : p.removeIncluded block.transactions = (.ok swept, q)) (hash : Hash256) :
    hash ∈ swept ↔ ∃ t, p.get? hash = some t ∧ ∃ u ∈ block.transactions, Sweeps u t := by
  obtain ⟨swept, q, hrun', -, hswept, hstays⟩ := h.removeIncluded block.transactions
  rw [hrun] at hrun'
  cases hrun'
  have hcontains : ∀ p : Pool, p.contains hash = (p.get? hash).isSome :=
    fun p => Option.isSome_map.symm
  rw [hswept.mem_iff, hcontains, hcontains, Option.isSome_iff_exists,
    Option.isSome_eq_false_iff, Option.isNone_iff_eq_none, Option.eq_none_iff_forall_ne_some]
  constructor
  · rintro ⟨⟨t, hget⟩, hout⟩
    refine ⟨t, hget, ?_⟩
    by_contra hnot
    exact hout t ((hstays hash t).2 ⟨hget, fun u hu hsweeps => hnot ⟨u, hu, hsweeps⟩⟩)
  · rintro ⟨t, hget, u, hu, hsweeps⟩
    refine ⟨⟨t, hget⟩, fun t' hget' => ?_⟩
    obtain ⟨hbefore, hnot⟩ := (hstays hash t').1 hget'
    rw [hget] at hbefore
    cases hbefore
    exact hnot u hu hsweeps

/-- What the last block of a chain sweeps away gets another verdict than a
success from the chain. -/
theorem checkOnChain_of_sweeps {e : Entry} (hc : Grown settings c (past ++ [e]))
    (hwindow : 0 < settings.maxTraceableBlocks) {u : Transaction} (hu : u ∈ e.block.transactions)
    (hsweeps : Sweeps u t) :
    ∃ verdict, checkOnChain t c.snapshot settings = .ok verdict ∧ verdict ≠ .succeed := by
  obtain ⟨verdict, hchain⟩ := (Legible.of_grown hc).checkOnChain t settings
  refine ⟨verdict, hchain, ?_⟩
  rintro rfl
  obtain ⟨height, feePerByte, hpasses⟩ := checkOnChain_succeed_iff.1 hchain
  exact hc.chronicle.not_sweeps_of_passes hwindow hpasses hu hsweeps

/-- After a block the chain turns down all that the block sweeps out of a pool,
whatever the pool was checked against before. So an update leads to the same
pool as checking all of it anew, and tells the same hashes. Settings that are
accepted have such a window (`Settings.Checked.traceable`). -/
theorem the_sweep_only_spares_checks (h : Reached capacity p) (hc : Grown settings c past)
    (hwindow : 0 < settings.maxTraceableBlocks) (hexec : exec.OnlyCalls)
    (hp : c.persist exec s block = (.ok (applied, c'), s')) :
    ∃ swept q, p.removeIncluded block.transactions = (.ok swept, q) ∧
      (∀ hash, hash ∈ swept ↔
        ∃ t, p.get? hash = some t ∧ ∃ u ∈ block.transactions, Sweeps u t) ∧
      (∀ hash ∈ swept, ∀ t, p.get? hash = some t →
        ∃ verdict, checkOnChain t c'.snapshot settings = .ok verdict ∧ verdict ≠ .succeed) ∧
      ∃ gone refused p', p.update block c'.snapshot settings = (.ok gone, p') ∧
        (Pool.empty capacity).reenter c'.snapshot settings p.ranked = (.ok refused, p') ∧
        gone.Perm refused := by
  have hgrown := hc.persist hexec hp
  have hlegible := Legible.of_grown hgrown
  obtain ⟨q, swept, hrun, hswept, hqueue, hstart, heq⟩ := h.refills block c'.snapshot settings
  have hleft := h.kept.mem_swept_iff hrun
  refine ⟨swept, q, hrun, hleft, fun hash hmem t hget => ?_, ?_⟩
  · obtain ⟨t', hget', u, hu, hsweeps⟩ := (hleft hash).1 hmem
    rw [hget] at hget'
    cases hget'
    exact checkOnChain_of_sweeps hgrown hwindow hu hsweeps
  obtain ⟨refused, p', hfast, -⟩ := (Solvent.empty hlegible capacity).reenter hlegible settings
    (q.transactions.map Pooled.of)
  have hturned : ∀ t ∈ p.transactions,
      decide (∀ u ∈ block.transactions, ¬ Sweeps u t) = false →
      ∃ verdict, checkOnChain t c'.snapshot settings = .ok verdict ∧ verdict ≠ .succeed := by
    intro t _ hnot
    rw [decide_eq_false_iff_not, not_forall] at hnot
    obtain ⟨u, hnot⟩ := hnot
    obtain ⟨hu, hsweeps⟩ := Classical.not_imp.1 hnot
    exact checkOnChain_of_sweeps hgrown hwindow hu (not_not.1 hsweeps)
  have hfiltered := hfast
  rw [hqueue, survivors] at hfiltered
  obtain ⟨all, hslow⟩ := reenter_filter hturned hfiltered
  obtain ⟨hfilled, hsub, htold⟩ := hstart.reenter hfast
  obtain ⟨hfilled', hsub', htold'⟩ := (Refills.start h.kept h.compatible).reenter hslow
  have hdrops := hswept.trans (hfilled.drops hsub htold)
  have hdrops' := hfilled'.drops hsub' htold'
  rw [← h.kept.sound.ranked_eq] at hslow
  refine ⟨swept ++ refused, all, p', heq _ _ hfast, hslow, ?_⟩
  rw [List.perm_ext_iff_of_nodup hdrops.once hdrops'.once]
  exact fun hash => (hdrops.mem_iff hash).trans (hdrops'.mem_iff hash).symm

/-! ## A sweep of a small pool -/

/-- A transaction that declares a conflict with a pooled one. -/
def declaring : Transaction := Sample.transaction 6 [(Sample.transaction 3 []).hash]

/-- Transactions of one sender; the second declares a conflict with the one that
declares the third. -/
def doomed : List Transaction :=
  [Sample.transaction 1 [], Sample.transaction 2 [declaring.hash], Sample.transaction 3 []]

def emptying : Pool := (empty 3).offered ample Sample.settings doomed

/-- A block with the first of them and with the declaring one. -/
def decisive : Block :=
  ⟨⟨0, Sample.genesis.hash, merkleRoot [(Sample.transaction 1 []).hash, declaring.hash], 1, 0, 1,
    0, Sample.holder⟩, [Sample.transaction 1 [], declaring]⟩

theorem isOk_decisive :
    (Sample.first.persist (Executor.halting : Executor Unit) () decisive).1.isOk = true := by
  decide +kernel

/-- Three transactions are swept away, each in its own way. -/
theorem sample_sweep : Reached 3 emptying ∧
    Grown Sample.settings Sample.first [⟨Sample.genesis, []⟩] ∧
    Settings.ofOptions (Sample.written 1000) = .ok Sample.settings ∧
    0 < Sample.settings.maxTraceableBlocks ∧ ∃ applied c',
    Sample.first.persist (Executor.halting : Executor Unit) () decisive =
      (.ok (applied, c'), ()) ∧ ∃ swept q,
    emptying.removeIncluded decisive.transactions = (.ok swept, q) ∧
    (∀ t ∈ doomed, t.hash ∈ swept) ∧
    (∀ hash ∈ swept, ∀ t, emptying.get? hash = some t → ∃ verdict,
      checkOnChain t c'.snapshot Sample.settings = .ok verdict ∧ verdict ≠ .succeed) ∧
    ∃ gone refused p', emptying.update decisive c'.snapshot Sample.settings = (.ok gone, p') ∧
      (Pool.empty 3).reenter c'.snapshot Sample.settings emptying.ranked = (.ok refused, p') ∧
      gone.Perm refused := by
  have hreached : Reached 3 emptying := Reached.empty.offered ample Sample.settings doomed
  have haccepted : Settings.ofOptions (Sample.written 1000) = .ok Sample.settings :=
    Sample.ofOptions_written 1000
  have hwindow := (Settings.checked_of_ofOptions haccepted).traceable
  have hsweeps : ∀ t ∈ doomed, emptying.get? t.hash = some t ∧
      ∃ u ∈ decisive.transactions, Sweeps u t := by decide +kernel
  obtain ⟨applied, hp⟩ :=
    Sample.persist_given (⟨0, .zero 32, .empty, []⟩, Sample.first) isOk_decisive
  obtain ⟨swept, q, hrun, hswept, hrejected, hsame⟩ := the_sweep_only_spares_checks hreached
    Sample.grown_first hwindow Executor.halting_onlyCalls hp
  refine ⟨hreached, Sample.grown_first, haccepted, hwindow, applied, _, hp, swept, q, hrun, ?_,
    hrejected, hsame⟩
  intro t ht
  obtain ⟨hget, hu⟩ := hsweeps t ht
  exact (hswept t.hash).2 ⟨t, hget, hu⟩

end Updates

end Pool
end BlockLedger
