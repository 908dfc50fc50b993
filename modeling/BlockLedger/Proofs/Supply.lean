-- The supply of the fee asset. Four kinds of movement write to the accounts
-- and to the total supply. Each keeps them in step, so they are in step on
-- every chain, and what is left of the first distribution is what the system
-- fees have not taken.
import BlockLedger.Proofs.History
import BlockLedger.Proofs.Movements

namespace BlockLedger.Gas

variable {c : Cache} {m : Machine} {supply : Nat}

/-! ## Calls and blocks -/

/-- Whatever leaves the keys of the asset alone keeps the supply. -/
theorem preserves_of_leaves {α : Type} {x : Run α}
    (hx : x.Leaves fun key => key.owner = Contract.gas.id) :
    x.Preserves fun c => Sound c supply := .of_leaves (fun _ _ hc h => h.congr hc) hx

/-- No call changes the supply. -/
theorem preserves_call (address : Hash160) (method : String) (args : List StackItem) :
    (Contract.call address method args).Preserves fun c => Sound c supply :=
  fun m h => ((spends_call address method args m).spent supply h).1

/-- The ledger writes none of the keys of the asset. -/
theorem preserves_ledger {α : Type} {x : Run α} (hx : x.Leaves Contract.ledger.Foreign) :
    x.Preserves fun c => Sound c supply :=
  preserves_of_leaves (hx.mono fun _ => Contract.foreign (by decide))

/-- The transactions of a block keep the supply, however they end. -/
theorem lasting_sound (supply : Nat) : Machine.Lasting fun m => Sound m.cache supply where
  same h _ _ hc := by rwa [hc]
  call m address method args h := preserves_call address method args m h
  record m hash vmState h := preserves_ledger (Ledger.leaves_setVmState hash vmState) m h

/-- Why the fees of a transaction are not burned: it has no sender, or the
sender holds less. -/
def Uncovered (t : Transaction) (f : Failure) : Prop :=
  t.sender = .error f ∨ ∃ sender held, t.sender = .ok sender ∧ held < t.fee ∧
    f = .fault (.burnBeyondBalance t.fee sender held)

/-- The fees of a transaction leave the supply, if its sender covers them. -/
theorem ends_burnFee (h : Sound m.cache supply) (t : Transaction) :
    (burnFee t).Ends m
      (fun f => Uncovered t f ∧ ∀ ts sender, t.sender = .ok sender →
        ¬ Covers m.cache (t :: ts) sender)
      fun _ m' => (∃ rest, rest + t.fee = supply ∧ Sound m'.cache rest) ∧
        Paid m.cache t m'.cache := by
  unfold burnFee
  rcases hsender : t.sender? with _ | sender
  · have hnone : t.sender = .error (.fault .noSigners) := by
      rw [Transaction.sender, hsender]
      rfl
    rw [hnone]
    refine .of_error (Run.run_bind_of_error (Run.run_ofOutcome _ m)) ⟨.inl hnone, ?_⟩
    intro ts sender hs
    cases hs
  · have hsome := FeeBook.sender_of_sender? hsender
    have howes := Transaction.owes_of_sender hsender
    obtain ⟨a, ha⟩ := clean_account h.clean sender
    rw [hsome]
    refine .bind_of_ok (Run.run_ofOutcome _ m) ?_
    by_cases hlt : a.balance < t.fee
    · refine .of_error (run_burn_of_lt ha hlt) ⟨.inr ⟨sender, a.balance, hsome, hlt, rfl⟩, ?_⟩
      rintro ts _ ⟨⟩
      exact not_covers_of_lt (balance_of_account ha) (by rwa [howes, if_pos rfl])
    · apply (yields_burn h ha (Nat.le_of_not_lt hlt)).ends.imp (fun f hf => hf)
      rintro _ m' ⟨hrest, hbalance, -⟩
      refine ⟨hrest, fun other => ?_⟩
      rw [hbalance other, howes]
      by_cases hother : other = sender
      · rw [if_pos hother, if_pos hother, hother]
        exact ⟨_, balance_of_account ha, Nat.le_of_not_lt hlt, rfl⟩
      · rw [if_neg hother, if_neg hother]
        obtain ⟨b, hb⟩ := clean_account h.clean other
        exact ⟨_, balance_of_account hb, Nat.zero_le _, balance_of_account hb⟩

/-- The fees of all transactions leave the supply, if every account covers
the sum of its fees. The order of the transactions does not matter. -/
theorem ends_burnFees (h : Sound m.cache supply) (ts : List Transaction) :
    (ts.forM burnFee).Ends m
      (fun f => ∃ t ∈ ts, Uncovered t f ∧ ∀ sender, t.sender = .ok sender →
        ¬ Covers m.cache ts sender)
      fun _ m' => (∃ rest, rest + (ts.map Transaction.fee).sum = supply ∧ Sound m'.cache rest) ∧
        ∀ sender, Covers m.cache ts sender := by
  induction ts generalizing m supply with
  | nil =>
    refine .of_ok (Run.run_pure () m) ⟨⟨supply, rfl, h⟩, fun sender => ?_⟩
    obtain ⟨a, ha⟩ := clean_account h.clean sender
    exact ⟨a.balance, balance_of_account ha, Nat.zero_le _⟩
  | cons t rest ih =>
    refine .bind ((ends_burnFee h t).imp ?_ fun _ _ hQ => hQ) ?_
    · rintro f ⟨hf, hshort⟩
      exact ⟨t, List.mem_cons_self, hf, hshort rest⟩
    · rintro _ m₁ ⟨⟨left, hleft, h₁⟩, hpaid⟩
      apply (ih h₁).imp
      · rintro f ⟨u, hu, hf, hshort⟩
        refine ⟨u, List.mem_cons_of_mem t hu, hf, fun sender hs => ?_⟩
        rw [hpaid.covers_iff]
        exact hshort sender hs
      · rintro _ m₂ ⟨⟨left', hleft', h₂⟩, hcovers⟩
        refine ⟨⟨left', ?_, h₂⟩, fun sender => (hpaid.covers_iff rest sender).2 (hcovers sender)⟩
        rw [List.map_cons, List.sum_cons]
        unfold Amount at *
        omega

theorem ends_onPersist {b : Block} (h : Sound m.cache supply) (hb : m.block = some b) :
    onPersist.Ends m
      (fun f => ∃ t ∈ b.transactions, Uncovered t f ∧ ∀ sender, t.sender = .ok sender →
        ¬ Covers m.cache b.transactions sender)
      fun _ m' =>
        (∃ rest, rest + (b.transactions.map Transaction.fee).sum = supply ∧
          Sound m'.cache rest) ∧ ∀ sender, Covers m.cache b.transactions sender := by
  unfold onPersist
  exact .bind_of_ok (Run.run_block_of_some hb) (ends_burnFees h b.transactions)

/-- The network fees of a block are minted, if it has a proposer. -/
theorem ends_postPersist {b : Block} (h : Sound m.cache supply) (hb : m.block = some b)
    (hfit : supply + b.networkFee < 2 ^ 64) : postPersist.Ends m
      (fun f => proposer m.cache b m.settings.validatorsCount = .error f) fun _ m' =>
        Sound m'.cache (supply + b.networkFee) ∧ ∃ vs, Told m vs m' := by
  unfold postPersist
  refine .bind_of_ok (Run.run_block_of_some hb) (.bind_of_ok (Run.run_settings m) ?_)
  rcases hkey : proposer m.cache b m.settings.validatorsCount with f | key
  · exact .of_error (Run.run_bind_of_error (by rw [Run.run_query, hkey])) rfl
  · exact .bind_of_ok (by rw [Run.run_query, hkey]) (yields_mint h hfit _).ends

/-- The first distribution is minted. -/
theorem found_ok {m' : Machine} (h : Sound m.cache 0) (hr : found.run m = (.ok (), m')) :
    Sound m'.cache m.settings.initialGasDistribution.toNat ∧ ∃ vs, Told m vs m' := by
  unfold found at hr
  rw [Run.run_bind_of_ok (Run.run_settings m)] at hr
  obtain ⟨holder, m₁, hholder, hr⟩ := Run.run_bind_ok hr
  rw [Run.run_ofOutcome] at hholder
  obtain ⟨-, rfl⟩ := Prod.mk.inj hholder
  have hlt := m.settings.initialGasDistribution.toNat_lt
  have hmint := (yields_mint h (by rwa [Nat.zero_add]) holder).of_run hr
  rwa [Nat.zero_add] at hmint

/-- The other contracts are founded without a movement. -/
theorem foundAll_ok {m' : Machine} (h : Sound m.cache 0) (hr : foundAll.run m = (.ok (), m')) :
    Sound m'.cache m.settings.initialGasDistribution.toNat ∧ ∃ vs, Told m vs m' := by
  unfold foundAll at hr
  obtain ⟨u, m₁, hcommittee, hr⟩ := Run.run_bind_ok hr
  obtain ⟨u, m₂, hgas, hpolicy⟩ := Run.run_bind_ok hr
  have hfirst := Committee.silent_found.of_run hcommittee
  obtain ⟨h₁, htold₁⟩ := h.undisturbed hfirst (by decide)
  obtain ⟨h₂, vs, hvs⟩ := found_ok h₁ hgas
  rw [hfirst.settings] at h₂
  obtain ⟨h₃, htold₃⟩ := h₂.undisturbed (Policy.silent_found.of_run hpolicy) (by decide)
  exact ⟨h₃, [] ++ vs ++ [], (htold₁.trans hvs).trans htold₃⟩

theorem sum_fees (b : Block) :
    (b.transactions.map Transaction.fee).sum = b.systemFee + b.networkFee := by
  unfold Block.systemFee Block.networkFee
  induction b.transactions with
  | nil => rfl
  | cons t rest ih =>
    simp only [List.map_cons, List.sum_cons, List.foldr_cons, ih, Transaction.fee, Amount.ofFees]
    unfold Amount
    omega

/-! ## The supply of a chain -/

/-- The system fees of all blocks. -/
def feesOf (past : List Entry) : Nat := (past.map fun e => e.block.systemFee).sum

theorem feesOf_snoc (past : List Entry) (e : Entry) :
    feesOf (past ++ [e]) = feesOf past + e.block.systemFee := by
  simp [feesOf]

/-- The books of the asset on a chain: the supply and the system fees make
up the first distribution, once it is made. -/
structure Booked (settings : Settings) (c : Chain Store) (past : List Entry) : Prop where
  chronicle : Chronicle c past
  settings_eq : c.settings = settings
  founded : Ledger.isFounded c.snapshot = !past.isEmpty
  supply : ∃ supply, Sound c.snapshot supply ∧ supply + feesOf past =
    if past.isEmpty then 0 else settings.initialGasDistribution.toNat

theorem sound_empty : Sound (.ofStore SortedMap.empty) 0 where
  total := rfl
  held := rfl
  clean _ _ _ _ h := by cases h
  small := by decide

namespace Booked

variable {settings : Settings} {σ : Type} {exec : Executor σ} {s s' : σ} {c c' : Chain Store}
  {past : List Entry} {block : Block} {applied : Persisted} {prepared ended final : Machine}

theorem empty (settings : Settings) : Booked settings ⟨SortedMap.empty, settings⟩ [] where
  chronicle := .empty settings
  settings_eq := rfl
  founded := rfl
  supply := ⟨0, sound_empty, rfl⟩

/-- Before the first block the accounts hold nothing. -/
theorem sound_zero (h : Booked settings c past) (hpast : past.isEmpty = true) :
    Sound c.snapshot 0 ∧ feesOf past = 0 := by
  obtain ⟨supply, hsound, hsum⟩ := h.supply
  rw [hpast, if_pos rfl] at hsum
  obtain ⟨rfl, hfees⟩ : supply = 0 ∧ feesOf past = 0 := Nat.add_eq_zero_iff.1 hsum
  exact ⟨hsound, hfees⟩

/-- The first distribution is made before the first block is stored. -/
theorem sound_founded (h : Booked settings c past) {founded : Machine}
    (hr : (foundOnce c.snapshot).run (.forBlock c.settings c.content block) = (.ok (), founded)) :
    (∃ supply, Sound founded.cache supply ∧
      supply + feesOf past = settings.initialGasDistribution.toNat) ∧
    ∃ vs, Told (.forBlock c.settings c.content block) vs founded := by
  unfold foundOnce at hr
  rw [h.founded] at hr
  cases hpast : past.isEmpty with
  | true =>
    rw [hpast, if_neg (by decide)] at hr
    obtain ⟨hzero, hfees⟩ := h.sound_zero hpast
    obtain ⟨hsound, htold⟩ :=
      foundAll_ok (m := .forBlock c.settings c.content block) hzero hr
    refine ⟨⟨_, hsound, ?_⟩, htold⟩
    rw [hfees, Nat.add_zero, ← h.settings_eq]
    rfl
  | false =>
    obtain ⟨supply, hsound, hsum⟩ := h.supply
    rw [hpast, if_neg (by decide)] at hsum
    rw [hpast] at hr
    cases hr
    exact ⟨⟨supply, hsound, hsum⟩, [], hsound.told_refl⟩

/-- All fees of a block are burned before its transactions run. -/
theorem sound_prepared (h : Booked settings c past) (hpass : c.Prepared block prepared) :
    ∃ rest, Sound prepared.cache rest ∧ rest + block.networkFee < 2 ^ 64 ∧
      rest + block.networkFee + feesOf past + block.systemFee =
        settings.initialGasDistribution.toNat := by
  obtain ⟨founded, stored, burned, hfound, hstore, hburn, rfl⟩ := hpass.phases
  obtain ⟨⟨supply, hsound, hsum⟩, -⟩ := h.sound_founded hfound
  have hblock : stored.block = some block := by
    rw [(Ledger.leaves_onPersist.of_run hstore).block,
      ((leaves_foundOnce c.snapshot).of_run hfound).block]
    rfl
  have hstored : Sound stored.cache supply := by
    have hkeep := preserves_ledger Ledger.leaves_onPersist founded hsound
    rwa [Run.after_of_run hstore] at hkeep
  obtain ⟨⟨rest, hrest, hburned⟩, -⟩ := (ends_onPersist hstored hblock).of_run hburn
  have hsmall := hsound.small
  rw [sum_fees] at hrest
  refine ⟨rest, hburned, ?_, ?_⟩ <;> (unfold Amount at *; omega)

/-- When its transactions have run, the supply is what it was before. -/
theorem sound_ended (h : Booked settings c past) (hexec : exec.OnlyCalls)
    (hpass : c.Ended exec s block prepared ended) :
    ∃ rest, Sound ended.cache rest ∧ rest + block.networkFee < 2 ^ 64 ∧
      rest + block.networkFee + feesOf past + block.systemFee =
        settings.initialGasDistribution.toNat := by
  obtain ⟨rest, hprepared, hfit, hsum⟩ := h.sound_prepared hpass.toPrepared
  obtain ⟨executed, s', hrun⟩ := hpass.run
  have hended := (lasting_sound rest).runTransactions hexec block.transactions s hprepared
  rw [hrun] at hended
  exact ⟨rest, hended, hfit, hsum⟩

/-- When the tip has moved, the supply is still the same. -/
theorem sound_moved {rest : Nat} {moved : Machine} (h : Sound ended.cache rest)
    (hr : Ledger.postPersist.run ended = (.ok (), moved)) : Sound moved.cache rest := by
  have hkeep := preserves_ledger Ledger.leaves_postPersist ended h
  rwa [Run.after_of_run hr] at hkeep

/-- A block takes its system fees out of the supply. Its network fees are
burned first and minted again at the end. -/
theorem sound_final (h : Booked settings c past) (hexec : exec.OnlyCalls)
    (hpass : c.Passage exec s block prepared ended final) :
    ∃ supply, Sound final.cache supply ∧
      supply + feesOf past + block.systemFee = settings.initialGasDistribution.toNat := by
  obtain ⟨rest, hended, hfit, hsum⟩ := h.sound_ended hexec hpass.toEnded
  obtain ⟨moved, minted, hmove, hmint, rfl⟩ := hpass.phases
  have hblock : moved.block = some block := by
    rw [(Ledger.leaves_postPersist.of_run hmove).block, (hpass.toEnded.applies hexec).block]
  obtain ⟨hminted, -⟩ := (ends_postPersist (sound_moved hended hmove) hblock hfit).of_run hmint
  exact ⟨rest + block.networkFee, hminted, hsum⟩

/-- A block that is committed is booked. -/
theorem advance (h : Booked settings c past) (hexec : exec.OnlyCalls)
    (hpass : c.Passage exec s block prepared ended final) :
    Booked settings ⟨c.content.commit final.cache.changes, c.settings⟩
      (past ++ [⟨block, c.reports exec s block⟩]) := by
  have hchronicle := h.chronicle.advance hexec hpass
  obtain ⟨supply, hsound, hsum⟩ := h.sound_final hexec hpass
  have hne : (past ++ [⟨block, c.reports exec s block⟩] : List Entry) ≠ [] := by simp
  refine ⟨hchronicle, h.settings_eq, ?_, supply, ?_, ?_⟩
  · rw [hchronicle.isFounded hne]
    simp
  · rw [hpass.snapshot_eq hexec]
    exact hsound.stored
  · rw [feesOf_snoc, ← hsum]
    simp [Nat.add_assoc]

theorem persist (h : Booked settings c past) (hexec : exec.OnlyCalls)
    (hp : c.persist exec s block = (.ok (applied, c'), s')) :
    Booked settings c' (past ++ [⟨block, c.reports exec s block⟩]) := by
  obtain ⟨prepared, ended, final, hpass, rfl⟩ := Chain.persist_ok hp
  exact h.advance hexec hpass

theorem of_grown (h : Grown settings c past) : Booked settings c past :=
  h.preserve (I := Booked settings) (.empty settings) fun hc hexec hp => hc.persist hexec hp

end Booked

/-- The balance in the bytes of a stored account. -/
def storedBalance (value : Bytes) : Nat := (Item.raw value).balance

/-- On every chain, after any blocks with any scripts, the stored accounts
hold the total supply together, the supply is the first distribution without
the system fees of all transactions, and no stored account is empty. -/
theorem the_supply_is_what_the_fees_left {settings : Settings} {c : Chain Store}
    {past : List Entry} (h : Grown settings c past) :
    ∃ supply, totalSupply c.snapshot = .ok supply ∧
      (c.content.scan (Key.lead Contract.gas.id accountTag)).total
        (fun _ value => storedBalance value) = supply ∧
      supply + (past.map fun e => e.block.systemFee).sum =
        settings.initialGasDistribution.toNat ∧
      ∀ key value, (c.content.scan (Key.lead Contract.gas.id accountTag)).get? key = some value →
        ∃ a : Account, Account.decode value = .ok a ∧ a.balance ≠ 0 := by
  have hbooked := Booked.of_grown h
  obtain ⟨supply, hsound, hsum⟩ := hbooked.supply
  rw [h.isEmpty, if_neg (by decide)] at hsum
  have hscan : accounts c.snapshot =
      (c.content.scan (Key.lead Contract.gas.id accountTag)).mapValues .raw := rfl
  refine ⟨supply, hsound.total, ?_, hsum, fun key value hk => ?_⟩
  · have hheld := hsound.held
    rwa [held, hscan, SortedMap.total_mapValues] at hheld
  · have hitem : (accounts c.snapshot).get? key = some (.raw value) := by
      rw [hscan, SortedMap.get?_mapValues, hk]
      rfl
    obtain ⟨key', ho, ht, hk'⟩ := Cache.exists_key_of_find hitem
    obtain ⟨a, hs, ha⟩ := hsound.clean key' ho ht (.raw value) hk'
    exact ⟨a, hs.read, ha⟩

/-- The small chain burned two system fees. -/
theorem sample_supply :
    Grown Sample.settings Sample.chain Sample.past ∧
    ∃ supply, totalSupply Sample.chain.snapshot = .ok supply ∧
      (Sample.chain.content.scan (Key.lead Contract.gas.id accountTag)).total
        (fun _ value => storedBalance value) = supply ∧
      supply + (Sample.past.map fun e => e.block.systemFee).sum =
        Sample.settings.initialGasDistribution.toNat ∧
      ∀ key value,
        (Sample.chain.content.scan (Key.lead Contract.gas.id accountTag)).get? key = some value →
        ∃ a : Account, Account.decode value = .ok a ∧ a.balance ≠ 0 :=
  ⟨Sample.grown, the_supply_is_what_the_fees_left Sample.grown⟩

end BlockLedger.Gas
