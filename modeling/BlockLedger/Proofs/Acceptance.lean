-- When a block is taken up whose scripts all halt at once. Four conditions
-- decide it, whatever the order of the transactions; the first two are
-- answered with a rejection, and where the last two fail the node stops. A chain
-- that does not take a block up is the one that it was.
import BlockLedger.Proofs.Refusals

namespace BlockLedger

/-- An executor that halts every script does not fail. -/
theorem Executor.not_raises_halting {σ : Type} (f : Failure) :
    ¬ (Executor.halting : Executor σ).Raises f := by
  rintro ⟨t, s, m, h⟩
  cases h

namespace Chain

variable {σ : Type} {settings : Settings} {c : Chain Store} {past : List Entry} {block : Block}

/-! ## Blocks that fit -/

/-- A block that fits is taken up unless something stands in its way; then
the node stops. -/
theorem persist_halting (h : Grown settings c past) (ha : c.accept block = .ok ()) (s : σ) :
    (∃ taken, (c.persist .halting s block).1 = .ok taken) ∧ c.Clears past block ∨
      (∃ fault, (c.persist .halting s block).1 = .error (.fault fault)) ∧
        ¬ c.Clears past block := by
  have hbooked := Gas.Booked.of_grown h
  have hfirst := ends_prepare (.halting : Executor σ) hbooked h.ne_nil ha
  rcases hp : c.persist .halting s block with ⟨f | ⟨applied, c'⟩, s'⟩
  · right
    rcases persist_error hp with
      hf | ⟨-, hf⟩ | ⟨prepared, hprepared, hf⟩ | ⟨prepared, ended, hended, hf⟩
    · rw [ha] at hf
      cases hf
    · obtain ⟨-, ⟨fault, rfl⟩, hclears⟩ := hfirst.failed hf
      exact ⟨⟨fault, rfl⟩, hclears⟩
    · have hraise := raises_of_runTransactions hbooked Executor.halting_onlyCalls hprepared hf
      exact absurd hraise (Executor.not_raises_halting f)
    · obtain ⟨tip, -, hcheck⟩ := hended.fits
      have hmembers := hended.members Executor.halting_onlyCalls
        (hbooked.chronicle.isFounded h.ne_nil)
      have hseated := (Committee.Seated.of_grown h).congr hmembers
      rw [← hbooked.settings_eq] at hseated
      obtain ⟨key, hkey⟩ := hseated.proposer (Block.check_ok hcheck).2.2.2
      have hnone := (ends_conclude hbooked Executor.halting_onlyCalls hended).failed hf
      rw [hkey] at hnone
      cases hnone
  · left
    obtain ⟨prepared, ended, final, hpass, -⟩ := persist_ok hp
    obtain ⟨first, hprepare⟩ := hpass.prepare
    exact ⟨⟨(applied, c'), rfl⟩, hfirst.of_run hprepare⟩

/-! ## The chain after a block -/

/-- A block that is not taken up leaves the chain as it is, and no other block
changes it but by its writes. -/
theorem Session.run_eq (exec : Executor σ) (block : Block) (c : Chain Store) (s : σ) :
    (Session.persist exec block).run (c, s) = match c.persist exec s block with
      | (.error f, s) => (.error f, c, s)
      | (.ok (applied, c), s) => (.ok applied, c, s) := by
  rw [persist_eq, Session.run_persist]
  rcases c.accept block with f | u
  · rfl
  rcases persistBlock exec s c.settings c.content block with ⟨f | applied, s⟩ <;> rfl

/-! ## All blocks -/

/-- A block has few enough transactions for the chain. -/
def Few (c : Chain Store) (block : Block) : Prop :=
  block.transactions.length ≤ c.settings.maxTransactionsPerBlock.toNat

/-- What the check of a block against the last one gives. -/
def checked (c : Chain Store) (past : List Entry) (block : Block) : Except BlockFault Unit :=
  block.check (past.getLast?.map Entry.pointer) c.settings.validatorsCount

/-- A block is turned down at the first of the two checks that it does not pass. -/
theorem accept_cases (h : Grown settings c past) (block : Block) :
    (¬ c.Few block ∧ c.accept block = .error (.rejected (.tooManyTransactions block.index
      block.transactions.length c.settings.maxTransactionsPerBlock))) ∨
    (∃ f, c.Few block ∧ c.checked past block = .error f ∧
      c.accept block = .error (.rejected (.invalidBlock f))) ∨
    c.Few block ∧ c.checked past block = .ok () ∧ c.accept block = .ok () := by
  rw [accept_eq (Gas.Booked.of_grown h).chronicle]
  unfold Few checked
  by_cases hfew : block.transactions.length ≤ c.settings.maxTransactionsPerBlock.toNat
  · rw [if_neg (Nat.not_lt.2 hfew)]
    rcases block.check (past.getLast?.map Entry.pointer) c.settings.validatorsCount with f | u
    · exact .inr (.inl ⟨f, hfew, rfl, rfl⟩)
    · exact .inr (.inr ⟨hfew, rfl, rfl⟩)
  · exact .inl ⟨hfew, if_pos (Nat.lt_of_not_le hfew)⟩

/-- What the answer to a block, and the chain after it, say about the block. -/
structure Decides (c : Chain Store) (past : List Entry) (block : Block)
    (r : Outcome Persisted × Chain Store × σ) : Prop where
  /-- Four conditions together: few enough transactions, a block that fits
  the last one, fees that every sender covers, and a new hash. -/
  ok_iff : (∃ applied, r.1 = .ok applied) ↔
    c.Few block ∧ c.checked past block = .ok () ∧
    (∀ sender, ∃ held, Gas.balance c.snapshot sender = .ok held ∧
      (block.transactions.map (·.owes sender)).sum ≤ held) ∧
    ∀ e ∈ past, e.block.hash ≠ block.hash
  tooMany : ¬ c.Few block →
    r.1 = .error (.rejected (.tooManyTransactions block.index block.transactions.length
      c.settings.maxTransactionsPerBlock))
  invalid (f : BlockFault) : c.Few block → c.checked past block = .error f →
    r.1 = .error (.rejected (.invalidBlock f))
  /-- The node stops over fees that are not covered and a hash that is not
  new, and over nothing else. -/
  fault_iff : (∃ fault, r.1 = .error (.fault fault)) ↔
    c.Few block ∧ c.checked past block = .ok () ∧
    ¬ ((∀ sender, ∃ held, Gas.balance c.snapshot sender = .ok held ∧
        (block.transactions.map (·.owes sender)).sum ≤ held) ∧
      ∀ e ∈ past, e.block.hash ≠ block.hash)
  /-- Neither the store nor a contract answers with an error of its own. -/
  only (f : Failure) : r.1 = .error f →
    (∃ fault, f = .fault fault) ∨ ∃ reason, f = .rejected reason
  /-- A block that is taken up changes the store by what it wrote. -/
  committed (applied : Persisted) : r.1 = .ok applied →
    r.2.1.content = c.content.commit applied.changes
  /-- Any other block leaves the store as it was. -/
  untouched (f : Failure) : r.1 = .error f → r.2.1.content = c.content

namespace Decides

variable {f : BlockFault} {applied : Persisted} {c' : Chain Store}

theorem of_many (h : ¬ c.Few block) (s : σ) : c.Decides past block
    (.error (.rejected (.tooManyTransactions block.index block.transactions.length
      c.settings.maxTransactionsPerBlock)), c, s) where
  ok_iff := ⟨fun ⟨_, hr⟩ => (nomatch hr), fun hall => absurd hall.1 h⟩
  tooMany _ := rfl
  invalid _ hfew := absurd hfew h
  fault_iff := ⟨fun ⟨_, hr⟩ => (nomatch hr), fun hstops => absurd hstops.1 h⟩
  only _ hr := .inr ⟨_, (Except.error.inj hr).symm⟩
  committed _ hr := nomatch hr
  untouched _ _ := rfl

theorem of_invalid (h : c.Few block) (hf : c.checked past block = .error f) (s : σ) :
    c.Decides past block (.error (.rejected (.invalidBlock f)), c, s) where
  ok_iff := by
    refine ⟨fun ⟨_, hr⟩ => (nomatch hr), fun hall => ?_⟩
    rw [hf] at hall
    exact nomatch hall.2.1
  tooMany hmany := absurd h hmany
  invalid g _ hg := by
    rw [hf] at hg
    rw [Except.error.inj hg]
  fault_iff := by
    refine ⟨fun ⟨_, hr⟩ => (nomatch hr), fun hstops => ?_⟩
    rw [hf] at hstops
    exact nomatch hstops.2.1
  only _ hr := .inr ⟨_, (Except.error.inj hr).symm⟩
  committed _ hr := nomatch hr
  untouched _ _ := rfl

theorem of_stopped (h : c.Few block) (hok : c.checked past block = .ok ())
    (hclears : ¬ c.Clears past block) (fault : Fault) (s : σ) :
    c.Decides past block (.error (.fault fault), c, s) where
  ok_iff := ⟨fun ⟨_, hr⟩ => (nomatch hr),
    fun ⟨_, _, hcovered, hfresh⟩ => absurd ⟨hcovered, hfresh⟩ hclears⟩
  tooMany hmany := absurd h hmany
  invalid g _ hg := by
    rw [hok] at hg
    exact nomatch hg
  fault_iff := ⟨fun _ => ⟨h, hok, fun ⟨hcovered, hfresh⟩ => hclears ⟨hcovered, hfresh⟩⟩,
    fun _ => ⟨fault, rfl⟩⟩
  only _ hr := .inl ⟨_, (Except.error.inj hr).symm⟩
  committed _ hr := nomatch hr
  untouched _ _ := rfl

theorem of_taken (h : c.Few block) (hok : c.checked past block = .ok ())
    (hclears : c.Clears past block) (hcontent : c'.content = c.content.commit applied.changes)
    (s : σ) : c.Decides past block (.ok applied, c', s) where
  ok_iff := ⟨fun _ => ⟨h, hok, hclears.covered, hclears.fresh⟩, fun _ => ⟨applied, rfl⟩⟩
  tooMany hmany := absurd h hmany
  invalid g _ hg := by
    rw [hok] at hg
    exact nomatch hg
  fault_iff := ⟨fun ⟨_, hr⟩ => (nomatch hr),
    fun ⟨_, _, hnot⟩ => absurd ⟨hclears.covered, hclears.fresh⟩ hnot⟩
  only _ hr := nomatch hr
  committed _ hr := by
    cases hr
    exact hcontent
  untouched _ hr := nomatch hr

end Decides

/-- Four conditions decide about every block whose scripts halt at once, on
every chain. -/
theorem four_conditions_decide (h : Grown settings c past) (s : σ) (block : Block) :
    c.Decides past block ((Session.persist .halting block).run (c, s)) := by
  rcases accept_cases h block with
    ⟨hmany, hf⟩ | ⟨f, hfew, hchecked, hf⟩ | ⟨hfew, hchecked, haccept⟩
  · rw [Session.run_persist, hf]
    exact .of_many hmany s
  · rw [Session.run_persist, hf]
    exact .of_invalid hfew hchecked s
  · have hdecides := persist_halting h haccept s
    rw [Session.run_eq]
    rcases hp : c.persist .halting s block with ⟨f | ⟨applied, c'⟩, s'⟩ <;> rw [hp] at hdecides
    · rcases hdecides with ⟨⟨_, hr⟩, -⟩ | ⟨⟨fault, hr⟩, hclears⟩ <;> cases hr
      exact .of_stopped hfew hchecked hclears fault s'
    · rcases hdecides with ⟨-, hclears⟩ | ⟨⟨_, hr⟩, -⟩
      · obtain ⟨-, rfl⟩ := applied_of_persist hp
        exact .of_taken hfew hchecked hclears rfl s'
      · cases hr

end Chain

/-! ## Three blocks for a small chain -/

namespace Sample

/-- A transaction of an account that holds nothing. -/
def unfunded : Transaction :=
  (Transaction.ofContent? ⟨0, 1, 5, 3, 10, [⟨.zero 20, 1⟩], [], [1]⟩).getD default

/-- A block that nobody can pay for. -/
def unpaid : Block :=
  ⟨⟨0, genesis.hash, merkleRoot [unfunded.hash], 1, 0, 1, 0, holder⟩, [unfunded]⟩

/-- What the chain with the genesis block alone answers to a block, and the chain
after it. -/
def answered (b : Block) : Outcome Persisted × Chain Store × Unit :=
  (Chain.Session.persist .halting b).run (first, ())

theorem fits_of_isOk {b : Block} (h : (first.accept b).isOk = true) :
    first.Few b ∧ first.checked [⟨genesis, []⟩] b = .ok () := by
  rcases Chain.accept_cases grown_first b with
    ⟨-, hf⟩ | ⟨f, -, -, hf⟩ | ⟨hfew, hchecked, -⟩
  · rw [hf] at h
    cases h
  · rw [hf] at h
    cases h
  · exact ⟨hfew, hchecked⟩

theorem few_genesis : first.Few genesis := by
  unfold Chain.Few
  rw [Chain.transactions_genesis genesis_eq]
  exact Nat.zero_le _

theorem clears_block : first.Clears [⟨genesis, []⟩] block where
  covered sender := by
    have hsender : ∀ t ∈ block.transactions, t.sender? = some holder := by decide +kernel
    by_cases hs : sender = holder
    · have hholds : ((Gas.balance first.snapshot holder).toOption.any fun held =>
          (block.transactions.map (·.owes holder)).sum ≤ held) = true := by decide +kernel
      obtain ⟨held, hheld, hle⟩ := exists_ok_of_any hholds
      rw [hs]
      exact ⟨held, hheld, of_decide_eq_true hle⟩
    · obtain ⟨supply, hsound, -⟩ := (Gas.Booked.of_grown grown_first).supply
      obtain ⟨a, ha⟩ := Gas.clean_account hsound.clean sender
      have hnothing : (block.transactions.map (·.owes sender)).sum = 0 := by
        rw [List.sum_eq_zero_iff_forall_eq_nat]
        intro owed hmem
        obtain ⟨t, ht, rfl⟩ := List.mem_map.1 hmem
        rw [Transaction.owes_of_sender (hsender t ht), if_neg hs]
      refine ⟨a.balance, Gas.balance_of_account ha, ?_⟩
      rw [hnothing]
      exact Nat.zero_le _
  fresh := by decide +kernel

theorem not_clears_unpaid : ¬ first.Clears [⟨genesis, []⟩] unpaid := by
  intro h
  have hholds : ((Gas.balance first.snapshot (.zero 20)).toOption.any fun held =>
      held < unfunded.owes (.zero 20)) = true := by decide +kernel
  obtain ⟨held, hheld, hlt⟩ := exists_ok_of_any hholds
  exact Gas.not_covers_of_lt hheld (of_decide_eq_true hlt) (h.covered (.zero 20))

end Sample

namespace Chain

/-- With its genesis block alone the small chain takes its next block up, rejects
one that does not follow, and stops over one that is not paid for. -/
theorem sample_decides : Grown Sample.settings Sample.first [⟨Sample.genesis, []⟩] ∧
    (∃ applied, (Sample.answered Sample.block).1 = .ok applied ∧
      (Sample.answered Sample.block).2.1.content =
        Sample.first.content.commit applied.changes) ∧
    (Sample.answered Sample.genesis).1 = .error (.rejected (.invalidBlock (.wrongIndex 0 0))) ∧
    (Sample.answered Sample.genesis).2.1.content = Sample.first.content ∧
    (∃ fault, (Sample.answered Sample.unpaid).1 = .error (.fault fault)) ∧
    (Sample.answered Sample.unpaid).2.1.content = Sample.first.content := by
  obtain ⟨hfew, hchecked⟩ := Sample.fits_of_isOk (b := Sample.block) (by decide +kernel)
  obtain ⟨hfew', hchecked'⟩ := Sample.fits_of_isOk (b := Sample.unpaid) (by decide +kernel)
  have hgenesis : Sample.first.checked [⟨Sample.genesis, []⟩] Sample.genesis =
    .error (.wrongIndex 0 0) := rfl
  have hclears := Sample.clears_block
  have htaken : Sample.first.Decides [⟨Sample.genesis, []⟩] Sample.block
    (Sample.answered Sample.block) := four_conditions_decide Sample.grown_first () Sample.block
  have hrejects : Sample.first.Decides [⟨Sample.genesis, []⟩] Sample.genesis
    (Sample.answered Sample.genesis) := four_conditions_decide Sample.grown_first () Sample.genesis
  have hstops : Sample.first.Decides [⟨Sample.genesis, []⟩] Sample.unpaid
    (Sample.answered Sample.unpaid) := four_conditions_decide Sample.grown_first () Sample.unpaid
  obtain ⟨applied, happlied⟩ := htaken.ok_iff.2 ⟨hfew, hchecked, hclears.covered, hclears.fresh⟩
  have hrejected := hrejects.invalid _ Sample.few_genesis hgenesis
  obtain ⟨fault, hfault⟩ := hstops.fault_iff.2 ⟨hfew', hchecked',
    fun ⟨hcovered, hfresh⟩ => Sample.not_clears_unpaid ⟨hcovered, hfresh⟩⟩
  exact ⟨Sample.grown_first, ⟨applied, happlied, htaken.committed _ happlied⟩, hrejected,
    hrejects.untouched _ hrejected, ⟨fault, hfault⟩, hstops.untouched _ hfault⟩

end Chain
end BlockLedger
