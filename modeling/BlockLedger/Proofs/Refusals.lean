-- Why a chain does not take a block up. A block that does not fit is
-- rejected; a block that fits fails because its hash is on the chain, its
-- fees are not covered, it has no proposer or the executor failed, and for
-- no other reason.
import BlockLedger.Proofs.Council

namespace BlockLedger

/-! ## Where a block fails -/

namespace Chain

variable {σ : Type} {c : Chain Store} {exec : Executor σ} {s s' : σ} {block : Block} {f : Failure}
  {prepared ended : Machine} {past : List Entry} {settings : Settings}

/-- A block that is not taken up fails in one of the phases. -/
theorem persist_error (h : c.persist exec s block = (.error f, s')) :
    c.accept block = .error f ∨
    (c.accept block = .ok () ∧
      ((prepare block.index).run (.forBlock c.settings c.content block)).1 = .error f) ∨
    (∃ prepared, c.Prepared block prepared ∧
      (runTransactions exec block.transactions s prepared).1 = .error f) ∨
    ∃ prepared ended, c.Ended exec s block prepared ended ∧ (conclude.run ended).1 = .error f := by
  rw [persist_eq] at h
  rcases haccept : c.accept block with e | u
  · rw [haccept] at h
    cases h
    exact .inl rfl
  simp only [haccept] at h
  obtain ⟨tip, htip, hcheck⟩ := accept_ok haccept
  have hmust : mustFit c.settings c.content block = .ok () := by
    unfold mustFit
    rw [show Ledger.tip (.ofStore c.content) = .ok tip from htip, ok_bind, hcheck]
    rfl
  unfold persistBlock at h
  simp only [hmust] at h
  rcases hprepare : (prepare block.index).run (.forBlock c.settings c.content block) with
    ⟨e | first, prepared⟩
  · simp only [hprepare] at h
    cases h
    exact .inr (.inl ⟨rfl, rfl⟩)
  simp only [hprepare] at h
  have hprepared : c.Prepared block prepared := ⟨⟨tip, htip, hcheck⟩, first, hprepare⟩
  rcases hrun : runTransactions exec block.transactions s prepared with ⟨e | executed, s₁, ended⟩
  · simp only [hrun] at h
    cases h
    exact .inr (.inr (.inl ⟨prepared, hprepared, by rw [hrun]⟩))
  simp only [hrun] at h
  have hended : c.Ended exec s block prepared ended := ⟨hprepared, executed, s₁, hrun⟩
  rcases hconclude : conclude.run ended with ⟨e | last, final⟩
  · simp only [hconclude] at h
    cases h
    exact .inr (.inr (.inr ⟨prepared, ended, hended, by rw [hconclude]⟩))
  · simp only [hconclude] at h
    cases h

/-! ## Why a block fails -/

/-- The reasons for which a chain does not take a block up. -/
inductive Refusal (c : Chain Store) (past : List Entry) (exec : Executor σ) (block : Block) :
    Failure → Prop where
  /-- The block does not fit the chain. -/
  | rejected (r : Rejection) : c.accept block = .error (.rejected r) →
    Refusal c past exec block (.rejected r)
  /-- A block with the same hash is on the chain. -/
  | repeated (e : Entry) : e ∈ past → e.block.hash = block.hash →
    Refusal c past exec block (.fault (.duplicateKey (Ledger.blockKey block.hash)))
  /-- A sender holds less than the fees of a transaction. -/
  | uncovered (t : Transaction) (sender : Hash160) (held : Amount) : t ∈ block.transactions →
    t.sender = .ok sender → held < t.fee →
    Refusal c past exec block (.fault (.burnBeyondBalance t.fee sender held))
  /-- The executor failed by itself. -/
  | raised {f : Failure} : exec.Raises f → Refusal c past exec block f
  /-- The committee has no such proposer. -/
  | unproposed {f : Failure} :
    Gas.proposer c.snapshot block c.settings.validatorsCount = .error f →
    Refusal c past exec block f

/-- Nothing stands in the way of a block that fits: every account covers the
fees that it owes, and no block of the chain has the same hash. -/
structure Clears (c : Chain Store) (past : List Entry) (block : Block) : Prop where
  covered (sender : Hash160) : Gas.Covers c.snapshot block.transactions sender
  fresh (e : Entry) : e ∈ past → e.block.hash ≠ block.hash

/-- The tip of a chain can be read, so a block is taken up exactly if it has
few enough transactions and fits the tip. -/
theorem accept_eq (h : Chronicle c past) (block : Block) : c.accept block =
    if c.settings.maxTransactionsPerBlock.toNat < block.transactions.length then
      .error (.rejected (.tooManyTransactions block.index block.transactions.length
        c.settings.maxTransactionsPerBlock))
    else
      match block.check (past.getLast?.map Entry.pointer) c.settings.validatorsCount with
      | .ok () => .ok ()
      | .error f => .error (.rejected (.invalidBlock f)) := by
  have hread : Ledger.tip c.snapshot = .ok (past.getLast?.map Entry.pointer) := h.tells.tip.read?
  unfold accept
  dsimp only
  split
  · rfl
  · rw [hread]
    rfl

theorem accept_error (h : Chronicle c past) (ha : c.accept block = .error f) :
    ∃ r, f = .rejected r := by
  rw [accept_eq h] at ha
  split at ha
  · cases ha
    exact ⟨_, rfl⟩
  · split at ha <;> cases ha
    exact ⟨_, rfl⟩

/-- A signed transaction has a sender. -/
theorem uncovered_of_signed {t : Transaction} (hs : t.signers ≠ []) (h : Gas.Uncovered t f) :
    ∃ sender held, t.sender = .ok sender ∧ held < t.fee ∧
      f = .fault (.burnBeyondBalance t.fee sender held) := by
  rcases h with h | h
  · unfold Transaction.sender Transaction.sender? Transaction.accounts at h
    rcases hsigners : t.signers with _ | ⟨signer, rest⟩
    · exact absurd hsigners hs
    · rw [hsigners] at h
      cases h
  · exact h

/-- The first phase stores the block and burns its fees; it fails exactly if
something stands in the way of the block. -/
theorem ends_prepare (exec : Executor σ) (h : Gas.Booked settings c past) (hne : past ≠ [])
    (ha : c.accept block = .ok ()) :
    (prepare block.index).Ends (.forBlock c.settings c.content block)
      (fun f => Refusal c past exec block f ∧ (∃ fault, f = .fault fault) ∧
        ¬ c.Clears past block)
      fun _ _ => c.Clears past block := by
  obtain ⟨tip, htip, hcheck⟩ := accept_ok ha
  obtain ⟨hdistinct, hsigned⟩ := Block.transactions_of_check hcheck
  obtain ⟨hlink, hindex⟩ := h.chronicle.follows htip hcheck
  obtain ⟨supply, hsound, -⟩ := h.supply
  unfold Run.Ends
  rw [run_prepare]
  rw [show (Machine.forBlock c.settings c.content block).cache = c.snapshot from rfl, foundOnce,
    if_pos (h.chronicle.isFounded hne), pure_bind]
  apply Run.Ends.bind (R := fun _ m => Gas.Sound m.cache supply ∧ m.block = some block ∧
    (∀ sender, Gas.Covers m.cache block.transactions sender ↔
      Gas.Covers c.snapshot block.transactions sender) ∧ ∀ e ∈ past, e.block.hash ≠ block.hash)
  · have hstore := Ledger.ends_onPersist (m := .forBlock c.settings c.content block)
      h.chronicle.tells rfl hlink (by simpa using hindex) hdistinct
    apply hstore.with_run.imp
    · rintro f ⟨rfl, e, he, heq⟩
      have he := List.mem_reverse.1 he
      exact ⟨.repeated e he heq, ⟨_, rfl⟩, fun hclears => hclears.fresh e he heq⟩
    · rintro _ stored ⟨hr, -, hnew⟩
      have hleaves := Ledger.leaves_onPersist.of_run hr
      have hkeep := Gas.preserves_ledger Ledger.leaves_onPersist
        (.forBlock c.settings c.content block) hsound
      rw [Run.after_of_run hr] at hkeep
      refine ⟨hkeep, hleaves.block, Gas.covers_congr (fun key ho => ?_) _, ?_⟩
      · exact hleaves.get? key (Contract.foreign (by decide) ho)
      · exact fun e he => hnew e (List.mem_reverse.2 he)
  · rintro _ stored ⟨hstored, hblock, hcovers, hfresh⟩
    refine .bind ((Gas.ends_onPersist hstored hblock).imp ?_ fun _ _ hQ => hQ) ?_
    · rintro f ⟨t, ht, hf, hshort⟩
      obtain ⟨sender, held, hsender, hlt, rfl⟩ := uncovered_of_signed (hsigned t ht) hf
      refine ⟨.uncovered t sender held ht hsender hlt, ⟨_, rfl⟩, fun hclears => ?_⟩
      exact hshort sender hsender ((hcovers sender).2 (hclears.covered sender))
    · rintro _ burned ⟨-, hcovered⟩
      exact .of_ok rfl ⟨fun sender => (hcovers sender).1 (hcovered sender), hfresh⟩

/-- The last phase fails for want of a proposer only. -/
theorem ends_conclude (h : Gas.Booked settings c past) (hexec : exec.OnlyCalls)
    (hended : c.Ended exec s block prepared ended) :
    conclude.Ends ended
      (fun f => Gas.proposer ended.cache block c.settings.validatorsCount = .error f)
      fun _ _ => True := by
  obtain ⟨htells, -⟩ := h.chronicle.tells_ended hexec hended
  obtain ⟨rest, hsound, hfit, -⟩ := h.sound_ended hexec hended
  have happlies := hended.applies hexec
  have hmove := Ledger.run_postPersist htells.tip happlies.block
  have hmoved := Ledger.leaves_postPersist.of_run hmove
  rw [conclude_eq]
  refine .bind_of_ok hmove (.bind ((Gas.ends_postPersist (Gas.Booked.sound_moved hsound hmove)
    happlies.block hfit).imp ?_ fun _ _ _ => trivial) ?_)
  · intro f hf
    rw [Committee.proposer_congr (c := ended.cache)] at hf
    · rw [← hf, ← happlies.settings]
    · rw [hmoved.get? _ Committee.foreign_membersKey.1]
  · intro _ minted _
    exact .of_ok rfl trivial

/-- The transactions of a block fail only if the executor does. -/
theorem raises_of_runTransactions (h : Gas.Booked settings c past) (hexec : exec.OnlyCalls)
    (hprepared : c.Prepared block prepared)
    (hf : (runTransactions exec block.transactions s prepared).1 = .error f) : exec.Raises f := by
  obtain ⟨tip, -, hcheck⟩ := hprepared.fits
  obtain ⟨hdistinct, -⟩ := Block.transactions_of_check hcheck
  obtain ⟨htells, -⟩ := h.chronicle.tells_prepared hprepared
  have hstart : Ledger.Tells prepared.cache
      (⟨block, [] ++ block.transactions.map fun t => (t, .none)⟩ :: past.reverse)
      (past.getLast?.map Entry.pointer) := htells
  rcases Ledger.tells_runTransactions hexec s hstart (by simpa using hdistinct) with
    ⟨f', hf', hraise⟩ | ⟨executed, s₁, m₁, hrun, -⟩
  · rw [hf] at hf'
    cases hf'
    exact hraise
  · rw [hrun] at hf
    cases hf

/-- A chain refuses a block for one of the reasons, and for no other. No sum
of amounts runs over, no stored value is unreadable and no record is missing
on the way. -/
theorem persist_refused (h : Grown settings c past) (hexec : exec.OnlyCalls)
    (hp : c.persist exec s block = (.error f, s')) : Refusal c past exec block f := by
  have hbooked := Gas.Booked.of_grown h
  have hne := h.ne_nil
  rcases persist_error hp with
    ha | ⟨ha, hf⟩ | ⟨prepared, hprepared, hf⟩ | ⟨prepared, ended, hended, hf⟩
  · obtain ⟨r, rfl⟩ := accept_error hbooked.chronicle ha
    exact .rejected r ha
  · exact ((ends_prepare exec hbooked hne ha).failed hf).1
  · exact .raised (raises_of_runTransactions hbooked hexec hprepared hf)
  · have hproposer := (ends_conclude hbooked hexec hended).failed hf
    rw [Committee.proposer_congr (hended.members hexec (hbooked.chronicle.isFounded hne))]
      at hproposer
    exact .unproposed hproposer

end Chain
end BlockLedger
