-- The notices of a block and the balances. Every movement of the asset gives
-- one notice, and what a script that does not halt moved is taken back with
-- its notices, so the notices that an applied block reports settle the
-- balances before it with the balances after it.
import BlockLedger.Proofs.Supply

namespace BlockLedger

/-! ## Stores built from blocks -/

/-- The stores that are built from the empty one by blocks that are applied
and committed, with scripts that act through calls only. -/
inductive Built (settings : Settings) : Store → Prop where
  | empty : Built settings SortedMap.empty
  | apply {σ : Type} {exec : Executor σ} {s s' : σ} {base : Store} {block : Block}
    {applied : Persisted} :
    Built settings base → exec.OnlyCalls →
    persistBlock exec s settings base block = (.ok applied, s') →
    Built settings (base.commit applied.changes)

/-- Every chain keeps such a store. -/
theorem Grown.built {settings : Settings} {c : Chain Store} {past : List Entry}
    (h : Grown settings c past) : Built settings c.content := by
  suffices hsame : c.settings = settings ∧ Built settings c.content from hsame.2
  refine h.preserve (I := fun c _ => c.settings = settings ∧ Built settings c.content)
    ⟨rfl, .empty⟩ ?_
  rintro σ exec s s' c c' past block applied ⟨rfl, hbuilt⟩ hexec hp
  obtain ⟨happlied, rfl⟩ := Chain.applied_of_persist hp
  exact ⟨rfl, hbuilt.apply hexec happlied⟩

/-- The blocks of such a store are booked. -/
theorem Built.booked {settings : Settings} {base : Store} (h : Built settings base) :
    ∃ past, Gas.Booked settings ⟨base, settings⟩ past := by
  induction h with
  | empty => exact ⟨[], .empty settings⟩
  | @apply σ exec s s' base block applied _ hexec hp ih =>
    obtain ⟨past, hbooked⟩ := ih
    obtain ⟨prepared, ended, final, hpass, hchanges⟩ :=
      Chain.Passage.of_persistBlock (c := ⟨base, settings⟩) hp
    rw [hchanges]
    exact ⟨_, hbooked.advance hexec hpass⟩

namespace Gas

/-! ## Reading notices -/

/-- The party that an item of a notice stands for. -/
def party? : StackItem → Option (Option Hash160)
  | .null => some none
  | .byteString s => if h : s.length = 20 then some (some ⟨s, h⟩) else none
  | _ => none

theorem party?_partyItem (party : Option Hash160) : party? (partyItem party) = some party := by
  rcases party with _ | account
  · rfl
  · exact dif_pos account.length_eq

/-- The movement that the notice of a transfer tells. -/
def Movement.ofNotice? (n : Notice) : Option Movement :=
  match n.event, n.state with
  | "Transfer", [source, target, .integer amount] => do
    return ⟨← party? source, ← party? target, amount.toNat⟩
  | _, _ => none

theorem Movement.ofNotice?_notice (v : Movement) : ofNotice? v.notice = some v := by
  simp [ofNotice?, notice, party?_partyItem]

/-- The movements that some notices tell. -/
def movementsOf (notices : List Notice) : List Movement := notices.filterMap Movement.ofNotice?

theorem movementsOf_map_notice (vs : List Movement) :
    movementsOf (vs.map Movement.notice) = vs := by
  have hread : Movement.ofNotice? ∘ Movement.notice = some := funext Movement.ofNotice?_notice
  unfold movementsOf
  rw [List.filterMap_map, hread, List.filterMap_some]

/-! ## The phases of a block -/

/-- Some notices tell how the balances of one cache became those of another. -/
def Explains (notices : List Notice) (c c' : Cache) : Prop :=
  ∃ vs, notices = vs.map Movement.notice ∧ Settles c vs c'

theorem Explains.append {notices notices' : List Notice} {c c' c'' : Cache}
    (h : Explains notices c c') (h' : Explains notices' c' c'') :
    Explains (notices ++ notices') c c'' := by
  obtain ⟨vs, rfl, hvs⟩ := h
  obtain ⟨vs', rfl, hvs'⟩ := h'
  exact ⟨vs ++ vs', (List.map_append ..).symm, hvs.trans hvs'⟩

/-- What a run tells that starts without notices. -/
theorem Told.explains {m m' : Machine} {vs : List Movement} (h : Told m vs m')
    (hm : m.notices = []) : Explains m'.notices m.cache m'.cache :=
  ⟨vs, by rw [h.notices, hm, List.nil_append], h.settles⟩

/-- A commit moves nothing. -/
theorem Sound.explains_stored {c : Cache} {supply : Nat} (h : Sound c supply) :
    Explains [] c c.stored := by
  refine ⟨[], rfl, fun owner => ?_, supply, supply, h.total, h.stored.total, rfl⟩
  obtain ⟨v, hv, -⟩ := h.clean.shows owner
  exact ⟨_, _, balance_of_account (account_of_shows hv),
    balance_of_account (account_of_shows hv.stored), rfl⟩

section Transactions

variable {σ : Type} {exec : Executor σ} {s s' : σ} {m m' : Machine} {supply : Nat}

/-- A script that halts tells what it moved; of any other one nothing stays. -/
theorem explains_afterExecution {container : Option Transaction} {finish : Machine}
    (h : Sound m.cache supply) (hm : m.notices = [])
    (hspends : Spends { m with container := container } finish) (vmState : VmState) :
    Explains (afterExecution m finish vmState).1 m.cache (afterExecution m finish vmState).2.cache ∧
      Sound (afterExecution m finish vmState).2.cache supply ∧
      (afterExecution m finish vmState).2.notices = [] := by
  obtain ⟨hsound, vs, htold, -⟩ := hspends.spent supply h
  unfold afterExecution
  split
  · exact ⟨htold.explains hm, hsound, rfl⟩
  · exact ⟨⟨[], rfl, h.told_refl.settles⟩, h, rfl⟩

theorem explains_runTransaction (hexec : exec.OnlyCalls) (h : Sound m.cache supply)
    (hm : m.notices = []) {t : Transaction} {executed : Executed}
    (hr : runTransaction exec t s m = (.ok executed, s', m')) :
    Explains executed.notices m.cache m'.cache ∧ Sound m'.cache supply ∧ m'.notices = [] := by
  obtain ⟨result, finish, hx, hset, hnotices⟩ := runTransaction_ok hr
  have hspends := (hexec t s { m with container := some t }).within spends_call
  rw [hx] at hspends
  obtain ⟨⟨vs, hvs, hsettles⟩, hsound, hempty⟩ :=
    explains_afterExecution h hm hspends result.vmState
  have hsilent := (Ledger.silent_setVmState t.hash result.vmState).of_run hset
  obtain ⟨hsound', hrecord⟩ := hsound.undisturbed hsilent (by decide)
  refine ⟨⟨vs ++ [], ?_, hsettles.trans hrecord.settles⟩, hsound', hsilent.notices.trans hempty⟩
  rw [hnotices, hvs, List.append_nil]

/-- The transactions of a block tell their movements one after the other. -/
theorem explains_runTransactions (hexec : exec.OnlyCalls) (h : Sound m.cache supply)
    (hm : m.notices = []) {ts : List Transaction} {executed : List Executed}
    (hr : runTransactions exec ts s m = (.ok executed, s', m')) :
    Explains (executed.flatMap Executed.notices) m.cache m'.cache ∧ Sound m'.cache supply ∧
      m'.notices = [] := by
  induction ts generalizing s m executed with
  | nil =>
    cases hr
    exact ⟨⟨[], rfl, h.told_refl.settles⟩, h, hm⟩
  | cons t rest ih =>
    obtain ⟨first, s₁, m₁, more, hx, hy, rfl⟩ := runTransactions_cons_ok hr
    obtain ⟨hfirst, hsound, hempty⟩ := explains_runTransaction hexec h hm hx
    obtain ⟨hrest, hlast⟩ := ih hsound hempty hy
    exact ⟨hfirst.append hrest, hlast⟩

end Transactions

section Phases

variable {σ : Type} {exec : Executor σ} {s : σ} {settings : Settings} {c : Chain Store}
  {past : List Entry} {block : Block} {prepared ended final : Machine}

/-- The first distribution and the burned fees are told. -/
theorem Booked.explains_prepared (h : Booked settings c past) {first : Executed}
    (hr : (prepare block.index).run (.forBlock c.settings c.content block) =
      (.ok first, prepared)) :
    Explains first.notices c.snapshot prepared.cache ∧ prepared.notices = [] := by
  obtain ⟨founded, stored, burned, hfound, hstore, hburn, hnotices, rfl⟩ := prepare_ok hr
  obtain ⟨⟨supply, hfounded, -⟩, vs, hvs⟩ := h.sound_founded hfound
  obtain ⟨hstored, htold⟩ :=
    hfounded.undisturbed (Ledger.silent_onPersist.of_run hstore) (by decide)
  obtain ⟨rest, vs', -, hvs'⟩ := balanced_onPersist.of_run hburn supply hstored
  rw [hnotices]
  exact ⟨((hvs.trans htold).trans hvs').explains rfl, rfl⟩

/-- The minted fees are told. -/
theorem Booked.explains_final (h : Booked settings c past) (hexec : exec.OnlyCalls)
    (hended : c.Ended exec s block prepared ended) (hempty : ended.notices = []) {last : Executed}
    (hr : conclude.run ended = (.ok last, final)) :
    Explains last.notices ended.cache final.cache := by
  obtain ⟨rest, hsound, hfit, -⟩ := h.sound_ended hexec hended
  obtain ⟨moved, minted, hmove, hmint, hnotices, rfl⟩ := conclude_ok hr
  have hsilent := Ledger.silent_postPersist.of_run hmove
  have hblock : moved.block = some block := hsilent.block.trans (hended.applies hexec).block
  obtain ⟨hmoved, htold⟩ := hsound.undisturbed hsilent (by decide)
  obtain ⟨-, vs, hvs⟩ := (ends_postPersist hmoved hblock hfit).of_run hmint
  rw [hnotices]
  exact (htold.trans hvs).explains hempty

end Phases

/-! ## The whole block -/

/-- All notices that an applied block reports, in order. -/
def noticesOf (applied : Persisted) : List Notice := applied.executed.flatMap Executed.notices

/-- Whatever block is applied, and whatever its scripts call, the notices that
it reports are those of movements, and these movements settle the balances and
the supply before the block with those after it. -/
theorem the_notices_settle_the_balances {σ : Type} {exec : Executor σ} {s s' : σ}
    {settings : Settings} {base : Store} {block : Block} {applied : Persisted}
    (h : Built settings base) (hexec : exec.OnlyCalls)
    (hp : persistBlock exec s settings base block = (.ok applied, s')) :
    noticesOf applied = (movementsOf (noticesOf applied)).map Movement.notice ∧
      Settles (.ofStore base) (movementsOf (noticesOf applied))
        (.ofStore (base.commit applied.changes)) := by
  obtain ⟨past, hbooked⟩ := h.booked
  obtain ⟨first, prepared, executed, ended, last, final, hfit, hprepare, hrun, hconclude, rfl⟩ :=
    Chain.persistBlock_ok hp
  have hprepared : (⟨base, settings⟩ : Chain Store).Prepared block prepared :=
    ⟨Chain.mustFit_ok hfit, first, hprepare⟩
  have hended : (⟨base, settings⟩ : Chain Store).Ended exec s block prepared ended :=
    ⟨hprepared, executed, s', hrun⟩
  have hpass : (⟨base, settings⟩ : Chain Store).Passage exec s block prepared ended final :=
    ⟨hended, last, hconclude⟩
  -- Every phase tells its movements; the commit adds none.
  obtain ⟨hfirst, hempty⟩ := hbooked.explains_prepared hprepare
  obtain ⟨rest, hsound, -⟩ := hbooked.sound_prepared hprepared
  obtain ⟨hmiddle, -, hempty'⟩ := explains_runTransactions hexec hsound hempty hrun
  have hlast := hbooked.explains_final hexec hended hempty' hconclude
  obtain ⟨supply, hfinal, -⟩ := hbooked.sound_final hexec hpass
  obtain ⟨vs, hvs, hsettles⟩ := ((hfirst.append hmiddle).append hlast).append hfinal.explains_stored
  have hnotices : noticesOf ⟨block.index, block.hash, final.cache.changes,
      first :: executed ++ [last]⟩ = vs.map Movement.notice := by
    rw [← hvs]
    simp [noticesOf]
  have hsnapshot : Cache.ofStore (base.commit final.cache.changes) = final.cache.stored :=
    hpass.snapshot_eq hexec
  rw [hnotices, movementsOf_map_notice, hsnapshot]
  exact ⟨rfl, hsettles⟩

end Gas

/-- In the small chain fees are burned and minted, one script pays, and
another one does not halt. -/
theorem Gas.sample_notices : Built Sample.settings Sample.first.content ∧
    Sample.executor.OnlyCalls ∧ ∃ applied,
      persistBlock Sample.executor () Sample.settings Sample.first.content Sample.block =
        (.ok applied, ()) ∧
      noticesOf applied = (movementsOf (noticesOf applied)).map Movement.notice ∧
      Settles (.ofStore Sample.first.content) (movementsOf (noticesOf applied))
        (.ofStore (Sample.first.content.commit applied.changes)) := by
  have hbuilt := Sample.grown_first.built
  obtain ⟨applied, hp⟩ := Sample.persist_block
  obtain ⟨happlied, -⟩ := Chain.applied_of_persist hp
  rw [(Booked.of_grown Sample.grown_first).settings_eq] at happlied
  exact ⟨hbuilt, Sample.executor_onlyCalls, applied, happlied,
    the_notices_settle_the_balances hbuilt Sample.executor_onlyCalls happlied⟩

end BlockLedger
