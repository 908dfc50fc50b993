-- How a chain grows from an empty store. Every block passes through the
-- same phases: the chain is founded with the first block, the contracts
-- prepare the block, its transactions run, and the contracts conclude it.
import BlockLedger.Chain.Basic
import BlockLedger.Proofs.Steps

namespace BlockLedger

/-! ## The phases of a block -/

/-- What founds the chain. -/
def foundAll : Run Unit := do
  Committee.found
  Gas.found
  Policy.found

/-- What founds the chain, if it is not founded yet. -/
def foundOnce (c : Cache) : Run Unit := if Ledger.isFounded c then pure () else foundAll

/-- The ledger has nothing to be founded. -/
theorem leaves_foundOnce (c : Cache) :
    Run.Leaves (fun key => key.owner = Contract.ledger.id) (foundOnce c) := by
  unfold foundOnce foundAll
  refine .ite (.pure ()) (.bind ?_ fun _ => .bind ?_ fun _ => ?_)
  · exact (Contract.leaves_found .committee none).mono fun _ => Contract.foreign (by decide)
  · exact (Contract.leaves_found .gas none).mono fun _ => Contract.foreign (by decide)
  · exact (Contract.leaves_found .policy none).mono fun _ => Contract.foreign (by decide)

theorem found_none : forM Contract.all (fun contract => contract.found none) = foundAll := by
  simp [Contract.all, Contract.found, Contract.activeIn, foundAll]

/-- No contract waits for a hardfork. -/
theorem found_some (hardfork : Hardfork) (contract : Contract) :
    contract.found (some hardfork) = pure () := by
  simp [Contract.found, Contract.activeIn]

theorem forM_pure {β : Type} {f : β → Run Unit} (l : List β) (h : ∀ b ∈ l, f b = pure ()) :
    l.forM f = pure () := by
  induction l with
  | nil => rfl
  | cons b rest ih =>
    have hrest := ih fun b' hb => h b' (List.mem_cons_of_mem b hb)
    rw [List.forM_eq_forM] at hrest ⊢
    rw [List.forM_cons, h b List.mem_cons_self, pure_bind, hrest]

/-- The hardforks of a schedule bring nothing in. -/
theorem forM_hardforks (hardforks : List Hardfork) :
    (hardforks.map some).forM (fun hardfork => Contract.all.forM fun contract =>
      contract.found hardfork) = pure () := by
  refine forM_pure _ fun hardfork h => forM_pure _ fun contract _ => ?_
  obtain ⟨name, _, rfl⟩ := List.mem_map.1 h
  exact found_some name contract

/-- The chain is founded with its first block, whatever the hardforks. -/
theorem run_prepare (index : UInt32) (m : Machine) :
    (prepare index).run m = (do
      foundOnce m.cache
      Ledger.onPersist
      Gas.onPersist
      concludePhase .onPersist : Run Executed).run m := by
  have hphases : Contract.all.forM Contract.onPersist = (do Ledger.onPersist; Gas.onPersist) := by
    simp [Contract.all, Contract.onPersist]
  have hactive : (activations index).run m = (.ok ((if Ledger.isFounded m.cache then [] else [none])
      ++ (m.settings.hardforks.activatingAt index).map some), m) := rfl
  unfold prepare foundOnce
  rw [Run.run_bind_of_ok hactive, hphases, List.forM_eq_forM, List.forM_append,
    ← List.forM_eq_forM, forM_hardforks]
  cases Ledger.isFounded m.cache with
  | true => simp
  | false => simp [found_none]

theorem conclude_eq : conclude = (do
    Ledger.postPersist
    Gas.postPersist
    concludePhase .postPersist) := by
  simp [conclude, Contract.all, Contract.postPersist]

/-- The chain is founded if it has to be, the block is stored, and its fees
are burned. -/
theorem prepare_ok {index : UInt32} {m prepared : Machine} {first : Executed}
    (h : (prepare index).run m = (.ok first, prepared)) : ∃ founded stored burned,
      (foundOnce m.cache).run m = (.ok (), founded) ∧
      Ledger.onPersist.run founded = (.ok (), stored) ∧
      Gas.onPersist.run stored = (.ok (), burned) ∧
      first.notices = burned.notices ∧ prepared = { burned with notices := [] } := by
  rw [run_prepare] at h
  obtain ⟨_, founded, hfound, h⟩ := Run.run_bind_ok h
  obtain ⟨_, stored, hstore, h⟩ := Run.run_bind_ok h
  obtain ⟨_, burned, hburn, h⟩ := Run.run_bind_ok h
  cases h
  exact ⟨founded, stored, burned, hfound, hstore, hburn, rfl, rfl⟩

/-- The tip moves to the block, and its network fees are minted. -/
theorem conclude_ok {m final : Machine} {last : Executed}
    (h : conclude.run m = (.ok last, final)) : ∃ moved minted,
      Ledger.postPersist.run m = (.ok (), moved) ∧ Gas.postPersist.run moved = (.ok (), minted) ∧
      last.notices = minted.notices ∧ final = { minted with notices := [] } := by
  rw [conclude_eq] at h
  obtain ⟨_, moved, hmove, h⟩ := Run.run_bind_ok h
  obtain ⟨_, minted, hmint, h⟩ := Run.run_bind_ok h
  cases h
  exact ⟨moved, minted, hmove, hmint, rfl, rfl⟩

/-! ## Blocks that fit the chain -/

namespace Block

variable {b : Block} {tip : Option BlockPointer} {validators : Nat}

/-- A block that passes every check passes each of them. -/
theorem check_ok (h : b.check tip validators = .ok ()) :
    b.checkLink tip = .ok () ∧ b.checkMerkleRoot = .ok () ∧ b.checkTransactions = .ok () ∧
      b.checkPrimary validators = .ok () := by
  unfold check at h
  rcases hlink : b.checkLink tip with f | u
  · rw [hlink] at h
    cases h
  rcases hroot : b.checkMerkleRoot with f | u
  · rw [hlink, hroot] at h
    cases h
  rcases heach : b.checkTransactions with f | u
  · rw [hlink, hroot, heach] at h
    cases h
  rw [hlink, hroot, heach] at h
  exact ⟨rfl, rfl, rfl, h⟩

theorem index_of_checkLink_none (h : b.checkLink none = .ok ()) : b.index = 0 := by
  unfold checkLink at h
  dsimp only at h
  split at h
  · assumption
  · cases h

/-- The block after the tip has the next index. -/
theorem index_of_checkLink_some {p : BlockPointer} (h : b.checkLink (some p) = .ok ()) :
    b.index.toNat = p.index.toNat + 1 := by
  unfold checkLink at h
  dsimp only at h
  split at h
  · cases h
  · rename_i hindex
    exact Decidable.not_not.1 hindex

theorem checkEach_ok {index : UInt32} {seen : List Hash256} {ts : List Transaction}
    (h : checkEach index seen ts = .ok ()) :
    (ts.map (·.hash)).Nodup ∧ (∀ t ∈ ts, t.hash ∉ seen) ∧ ∀ t ∈ ts, t.signers ≠ [] := by
  induction ts generalizing seen with
  | nil => simp
  | cons t rest ih =>
    unfold checkEach at h
    dsimp only at h
    split at h
    · cases h
    · rename_i hseen
      split at h
      · cases h
      · rename_i hsigned
        obtain ⟨hnodup, hnew, hall⟩ := ih h
        refine ⟨List.nodup_cons.2 ⟨?_, hnodup⟩, ?_, ?_⟩
        · intro hmem
          obtain ⟨u, hu, heq⟩ := List.mem_map.1 hmem
          exact hnew u hu (List.mem_cons.2 (.inl heq))
        · intro u hu
          rcases List.mem_cons.1 hu with rfl | hu
          · exact hseen
          · exact fun hmem => hnew u hu (List.mem_cons_of_mem _ hmem)
        · intro u hu
          rcases List.mem_cons.1 hu with rfl | hu
          · exact hsigned
          · exact hall u hu

/-- A block holds no two transactions with the same hash, and all are signed. -/
theorem transactions_of_check (h : b.check tip validators = .ok ()) :
    (b.transactions.map (·.hash)).Nodup ∧ ∀ t ∈ b.transactions, t.signers ≠ [] := by
  obtain ⟨hnodup, -, hall⟩ := checkEach_ok (check_ok h).2.2.1
  exact ⟨hnodup, hall⟩

end Block

/-! ## Taking a block up -/

namespace Chain

variable {σ : Type}

/-- A block fits the tip of a chain and is prepared. -/
structure Prepared (c : Chain Store) (block : Block) (prepared : Machine) : Prop where
  fits : ∃ tip, Ledger.tip c.snapshot = .ok tip ∧
    block.check tip c.settings.validatorsCount = .ok ()
  prepare : ∃ first, (prepare block.index).run (.forBlock c.settings c.content block) =
    (.ok first, prepared)

/-- The transactions of the block ran. -/
structure Ended (c : Chain Store) (exec : Executor σ) (s : σ) (block : Block)
    (prepared ended : Machine) : Prop extends Prepared c block prepared where
  run : ∃ executed s',
    runTransactions exec block.transactions s prepared = (.ok executed, s', ended)

/-- What happens when a chain takes a block up. -/
structure Passage (c : Chain Store) (exec : Executor σ) (s : σ) (block : Block)
    (prepared ended final : Machine) : Prop extends Ended c exec s block prepared ended where
  conclude : ∃ last, conclude.run ended = (.ok last, final)

variable {c c' : Chain Store} {exec : Executor σ} {s s' : σ} {block : Block} {applied : Persisted}

theorem accept_ok (h : c.accept block = .ok ()) :
    ∃ tip, Ledger.tip c.snapshot = .ok tip ∧
      block.check tip c.settings.validatorsCount = .ok () := by
  unfold accept at h
  dsimp only at h
  split at h
  · cases h
  · rcases htip : Ledger.tip c.snapshot with e | tip
    · rw [htip] at h
      cases h
    · rw [htip] at h
      refine ⟨tip, rfl, ?_⟩
      rcases hcheck : block.check tip c.settings.validatorsCount with f | u
      · rw [ok_bind, hcheck] at h
        cases h
      · rfl

theorem mustFit_ok {settings : Settings} {base : Store} (h : mustFit settings base block = .ok ()) :
    ∃ tip, Ledger.tip (.ofStore base) = .ok tip ∧
      block.check tip settings.validatorsCount = .ok () := by
  unfold mustFit at h
  rcases htip : Ledger.tip (.ofStore base) with e | tip
  · rw [htip] at h
    cases h
  · rw [htip] at h
    refine ⟨tip, rfl, ?_⟩
    rcases hcheck : block.check tip settings.validatorsCount with f | u
    · rw [ok_bind, hcheck] at h
      cases h
    · rfl

/-- What is applied, step by step. -/
theorem persistBlock_ok {settings : Settings} {base : Store}
    (h : persistBlock exec s settings base block = (.ok applied, s')) :
    ∃ first prepared executed ended last final, mustFit settings base block = .ok () ∧
      (BlockLedger.prepare block.index).run (.forBlock settings base block) =
        (.ok first, prepared) ∧
      runTransactions exec block.transactions s prepared = (.ok executed, s', ended) ∧
      BlockLedger.conclude.run ended = (.ok last, final) ∧
      applied = ⟨block.index, block.hash, final.cache.changes, first :: executed ++ [last]⟩ := by
  unfold persistBlock at h
  rcases hmust : mustFit settings base block with e | u
  · rw [hmust] at h
    cases h
  simp only [hmust] at h
  rcases hprepare : (BlockLedger.prepare block.index).run (.forBlock settings base block) with
    ⟨e | first, prepared⟩
  · rw [hprepare] at h
    cases h
  simp only [hprepare] at h
  rcases hrun : runTransactions exec block.transactions s prepared with ⟨e | executed, s₁, ended⟩
  · rw [hrun] at h
    cases h
  simp only [hrun] at h
  rcases hconclude : BlockLedger.conclude.run ended with ⟨e | last, final⟩
  · rw [hconclude] at h
    cases h
  rw [hconclude] at h
  cases h
  exact ⟨first, prepared, executed, ended, last, final, rfl, rfl, hrun, hconclude, rfl⟩

/-- A block that is applied to what a chain holds goes through every phase. -/
theorem Passage.of_persistBlock
    (h : persistBlock exec s c.settings c.content block = (.ok applied, s')) :
    ∃ prepared ended final, c.Passage exec s block prepared ended final ∧
      applied.changes = final.cache.changes := by
  obtain ⟨first, prepared, executed, ended, last, final, hfit, hprepare, hrun, hconclude, rfl⟩ :=
    persistBlock_ok h
  have hprepared : c.Prepared block prepared := ⟨mustFit_ok hfit, first, hprepare⟩
  exact ⟨prepared, ended, final, ⟨⟨hprepared, executed, s', hrun⟩, last, hconclude⟩, rfl⟩

/-- A block that is taken up is applied, and the store takes in what was
written. -/
theorem applied_of_persist (h : c.persist exec s block = (.ok (applied, c'), s')) :
    persistBlock exec s c.settings c.content block = (.ok applied, s') ∧
      c' = ⟨c.content.commit applied.changes, c.settings⟩ := by
  rw [persist_eq] at h
  rcases haccept : c.accept block with e | u
  · rw [haccept] at h
    cases h
  simp only [haccept] at h
  rcases happlied : persistBlock exec s c.settings c.content block with ⟨e | a, s₁⟩
  · rw [happlied] at h
    cases h
  rw [happlied] at h
  cases h
  exact ⟨rfl, rfl⟩

/-- A block that is taken up went through every phase, and the store takes
in what was written at the end. -/
theorem persist_ok (h : c.persist exec s block = (.ok (applied, c'), s')) :
    ∃ prepared ended final, c.Passage exec s block prepared ended final ∧
      c' = ⟨c.content.commit final.cache.changes, c.settings⟩ := by
  obtain ⟨happlied, rfl⟩ := applied_of_persist h
  obtain ⟨prepared, ended, final, hpass, hchanges⟩ := Passage.of_persistBlock happlied
  exact ⟨prepared, ended, final, hpass, by rw [hchanges]⟩

variable {prepared ended final : Machine}

/-- The chain is founded, the block is stored, and its fees are burned. -/
theorem Prepared.phases (h : c.Prepared block prepared) : ∃ founded stored burned,
    (foundOnce c.snapshot).run (.forBlock c.settings c.content block) = (.ok (), founded) ∧
      Ledger.onPersist.run founded = (.ok (), stored) ∧
      Gas.onPersist.run stored = (.ok (), burned) ∧
      prepared = { burned with notices := [] } := by
  obtain ⟨first, hp⟩ := h.prepare
  obtain ⟨founded, stored, burned, hfound, hstore, hburn, -, hprepared⟩ := prepare_ok hp
  exact ⟨founded, stored, burned, hfound, hstore, hburn, hprepared⟩

theorem Prepared.applies (h : c.Prepared block prepared) :
    prepared.Applies c.settings c.content block := by
  obtain ⟨founded, stored, burned, hfound, hstore, hburn, rfl⟩ := h.phases
  have hstart : (Machine.forBlock c.settings c.content block).Applies c.settings c.content block :=
    ⟨rfl, rfl, rfl⟩
  have hfounded := hstart.agrees ((leaves_foundOnce c.snapshot).of_run hfound)
  have hstored := hfounded.agrees (Ledger.leaves_onPersist.of_run hstore)
  have hburned := hstored.agrees (Gas.leaves_onPersist.of_run hburn)
  exact ⟨hburned.settings, hburned.block, hburned.base⟩

theorem Ended.applies (h : c.Ended exec s block prepared ended) (hexec : exec.OnlyCalls) :
    ended.Applies c.settings c.content block := by
  obtain ⟨executed, s', hrun⟩ := h.run
  have hended := (Machine.Lasting.applies c.settings c.content block).runTransactions hexec
    block.transactions s h.toPrepared.applies
  rwa [hrun] at hended

/-- The tip moves to the block, and its network fees are minted. -/
theorem Passage.phases (h : c.Passage exec s block prepared ended final) :
    ∃ moved minted, Ledger.postPersist.run ended = (.ok (), moved) ∧
      Gas.postPersist.run moved = (.ok (), minted) ∧ final = { minted with notices := [] } := by
  obtain ⟨last, hc⟩ := h.conclude
  obtain ⟨moved, minted, hmove, hmint, -, hfinal⟩ := conclude_ok hc
  exact ⟨moved, minted, hmove, hmint, hfinal⟩

/-- What the chain shows after a block is what was there at its end. -/
theorem Passage.snapshot_eq (h : c.Passage exec s block prepared ended final)
    (hexec : exec.OnlyCalls) :
    (⟨c.content.commit final.cache.changes, c.settings⟩ : Chain Store).snapshot =
      final.cache.stored := by
  obtain ⟨moved, minted, hmove, hmint, rfl⟩ := h.phases
  have hmoved := (h.toEnded.applies hexec).agrees (Ledger.leaves_postPersist.of_run hmove)
  have hminted := hmoved.agrees (Gas.leaves_postPersist.of_run hmint)
  unfold Cache.stored
  rw [hminted.base]
  rfl

end Chain

/-! ## Chains that grow from an empty store -/

/-- What an executor reports for the transactions of a block, in order, up
to the first one that fails. -/
def Executor.reports {σ : Type} (exec : Executor σ) :
    List Transaction → σ → Machine → List (Transaction × VmState)
  | [], _, _ => []
  | t :: rest, s, m =>
    match exec t s { m with container := some t } with
    | (.error _, _, _) => []
    | (.ok result, _, _) =>
      match runTransaction exec t s m with
      | (_, s, m) => (t, result.vmState) :: exec.reports rest s m

/-- What an executor reports when a chain takes a block up. -/
def Chain.reports {σ : Type} (c : Chain Store) (exec : Executor σ) (s : σ) (block : Block) :
    List (Transaction × VmState) :=
  match (prepare block.index).run (.forBlock c.settings c.content block) with
  | (.ok _, m) => exec.reports block.transactions s m
  | (.error _, _) => []

theorem Chain.reports_nil {σ : Type} (c : Chain Store) (exec : Executor σ) (s : σ) {block : Block}
    (h : block.transactions = []) : c.reports exec s block = [] := by
  unfold Chain.reports
  rw [h]
  split <;> rfl

theorem Chain.Prepared.reports_eq {σ : Type} {c : Chain Store} {block : Block} {prepared : Machine}
    (h : c.Prepared block prepared) (exec : Executor σ) (s : σ) :
    c.reports exec s block = exec.reports block.transactions s prepared := by
  obtain ⟨first, hprepare⟩ := h.prepare
  unfold Chain.reports
  rw [hprepare]

theorem Chain.transactions_genesis {settings : Settings} {genesis : Block}
    (h : Chain.genesis settings = .ok genesis) : genesis.transactions = [] := by
  unfold Chain.genesis at h
  rcases hholder : settings.genesisHolder with e | holder
  · rw [hholder] at h
    cases h
  · rw [hholder] at h
    cases h
    rfl

/-- A block of a chain with the states that its executor reported. -/
structure Entry where
  block : Block
  reported : List (Transaction × VmState)

/-- The chains that start on an empty store and take up blocks whose
scripts act through calls only, with their entries from the genesis block
on. Every block may have an executor of its own. -/
inductive Grown (settings : Settings) : Chain Store → List Entry → Prop where
  | start {genesis : Block} {c : Chain Store} :
    Chain.genesis settings = .ok genesis → Chain.start SortedMap.empty settings = .ok c →
    Grown settings c [⟨genesis, []⟩]
  | persist {σ : Type} {exec : Executor σ} {s s' : σ} {c c' : Chain Store} {past : List Entry}
    {block : Block} {applied : Persisted} :
    Grown settings c past → exec.OnlyCalls → c.persist exec s block = (.ok (applied, c'), s') →
    Grown settings c' (past ++ [⟨block, c.reports exec s block⟩])

/-- An empty store is not founded, so it gets the genesis block. -/
theorem Chain.start_empty (settings : Settings) :
    Chain.start (SortedMap.empty : Store) settings = genesis settings >>= fun block =>
      (persist ⟨(SortedMap.empty : Store), settings⟩ .halting () block).1 >>= fun r => .ok r.2 :=
  rfl

/-- A chain that starts on an empty store takes its genesis block up like
any other block. -/
theorem Chain.start_ok {settings : Settings} {c : Chain Store} {genesis : Block}
    (hg : Chain.genesis settings = .ok genesis)
    (h : Chain.start (SortedMap.empty : Store) settings = .ok c) :
    ∃ applied, Chain.persist ⟨SortedMap.empty, settings⟩ (Executor.halting : Executor Unit) ()
      genesis = (.ok (applied, c), ()) := by
  rw [start_empty, hg, ok_bind] at h
  rcases hp : Chain.persist ⟨(SortedMap.empty : Store), settings⟩ Executor.halting () genesis with
    ⟨e | ⟨applied, c₁⟩, u⟩
  · rw [hp] at h
    cases h
  · rw [hp] at h
    cases h
    exact ⟨applied, rfl⟩

/-- What holds of the empty chain and is kept by every block holds of every
grown chain. The genesis block is no exception. -/
theorem Grown.preserve {settings : Settings} {I : Chain Store → List Entry → Prop}
    {c : Chain Store} {past : List Entry} (h : Grown settings c past)
    (hempty : I ⟨SortedMap.empty, settings⟩ [])
    (hstep : ∀ {σ : Type} {exec : Executor σ} {s s' : σ} {c c' : Chain Store} {past : List Entry}
      {block : Block} {applied : Persisted}, I c past → exec.OnlyCalls →
      c.persist exec s block = (.ok (applied, c'), s') →
      I c' (past ++ [⟨block, c.reports exec s block⟩])) : I c past := by
  induction h with
  | start hg h =>
    obtain ⟨applied, hp⟩ := Chain.start_ok hg h
    have hreports : Chain.reports ⟨SortedMap.empty, settings⟩ (Executor.halting : Executor Unit) ()
        _ = [] := Chain.reports_nil _ _ _ (Chain.transactions_genesis hg)
    have hI := hstep hempty Executor.halting_onlyCalls hp
    rwa [hreports] at hI
  | persist _ hexec hp ih => exact hstep ih hexec hp

/-- A grown chain holds its genesis block at least. -/
theorem Grown.isEmpty {settings : Settings} {c : Chain Store} {past : List Entry}
    (h : Grown settings c past) : past.isEmpty = false := by
  cases h <;> simp

theorem Grown.ne_nil {settings : Settings} {c : Chain Store} {past : List Entry}
    (h : Grown settings c past) : past ≠ [] := by
  cases h <;> simp

theorem Grown.exists_last {settings : Settings} {c : Chain Store} {past : List Entry}
    (h : Grown settings c past) : ∃ last, past.getLast? = some last := by
  cases h <;> simp

/-! ## A small chain -/

namespace Sample

/-- The value of an outcome that is known to be one. -/
def given {α : Type} (r : Outcome α) (fallback : α) : α :=
  match r with
  | .ok v => v
  | .error _ => fallback

theorem eq_given {α : Type} {r : Outcome α} {fallback : α} (h : r.isOk = true) :
    r = .ok (given r fallback) := by
  rcases r with e | v
  · cases h
  · rfl

theorem exists_ok_of_any {α : Type} {r : Outcome α} {p : α → Bool}
    (h : r.toOption.any p = true) : ∃ v, r = .ok v ∧ p v = true := by
  rcases r with f | v
  · cases h
  · exact ⟨v, rfl, h⟩

theorem persist_given {c : Chain Store} {exec : Executor Unit} {block : Block}
    (fallback : Persisted × Chain Store) (h : (c.persist exec () block).1.isOk = true) :
    ∃ applied, c.persist exec () block =
      (.ok (applied, (given (c.persist exec () block).1 fallback).2), ()) := by
  rcases hp : c.persist exec () block with ⟨e | ⟨applied, c'⟩, u⟩
  · rw [hp] at h
    cases h
  · exact ⟨applied, rfl⟩

/-- A network with one validator. -/
def settings : Settings where
  network := 1
  addressVersion := 53
  standbyCommittee := [⟨2 :: List.replicate 32 7, by decide⟩]
  validatorsCount := 1
  millisecondsPerBlock := 15000
  maxTransactionsPerBlock := 512
  memoryPoolMaxTransactions := 100
  maxTraceableBlocks := 100
  maxValidUntilBlockIncrement := 100
  hardforks := fun _ => none
  initialGasDistribution := 1000

def holder : Hash160 := given settings.genesisHolder (.zero 20)

/-- A transaction that declares conflicts with some hashes. -/
def transaction (nonce : UInt32) (declared : List Hash256) : Transaction :=
  (Transaction.ofContent? ⟨0, nonce, 5, 3, 10, [⟨holder, 1⟩], declared.map .conflicts, [1]⟩).getD
    default

def genesis : Block :=
  given (Chain.genesis settings) ⟨⟨0, .zero 32, .zero 32, 0, 0, 0, 0, holder⟩, []⟩

def transactions : List Transaction := [transaction 1 [], transaction 2 [.zero 32]]

/-- The block after the genesis block. -/
def block : Block :=
  ⟨⟨0, genesis.hash, merkleRoot (transactions.map (·.hash)), 1, 0, 1, 0, holder⟩, transactions⟩

/-- Every script pays something; those that declare conflicts do not halt. -/
def executor : Executor Unit := fun t s m =>
  (.ok ⟨if t.declared = [] then .halt else .fault, 0, none⟩, s,
    (Contract.call Contract.gas.address "transfer"
      [.ofHash holder, .ofHash (.zero 20 : Hash160), .integer 7]).after m)

def first : Chain Store := given (Chain.start SortedMap.empty settings) ⟨.empty, settings⟩

/-- The chain with the genesis block and one more. -/
def chain : Chain Store :=
  (given (first.persist executor () block).1 (⟨0, .zero 32, .empty, []⟩, first)).2

def past : List Entry := [⟨genesis, []⟩] ++ [⟨block, first.reports executor () block⟩]

theorem isOk_start : (Chain.start (SortedMap.empty : Store) settings).isOk = true := by
  decide +kernel

theorem isOk_persist : (first.persist executor () block).1.isOk = true := by decide +kernel

theorem executor_onlyCalls : executor.OnlyCalls := by
  intro t s m
  dsimp only [executor]
  exact .more Contract.gas.address "transfer"
    [.ofHash holder, .ofHash (.zero 20 : Hash160), .integer 7] .none

theorem genesis_eq : Chain.genesis settings = .ok genesis := eq_given (by decide +kernel)

theorem grown_first : Grown settings first [⟨genesis, []⟩] :=
  .start genesis_eq (eq_given isOk_start)

theorem persist_block : ∃ applied, first.persist executor () block = (.ok (applied, chain), ()) :=
  persist_given (⟨0, .zero 32, .empty, []⟩, first) isOk_persist

theorem grown : Grown settings chain past := by
  obtain ⟨applied, hp⟩ := persist_block
  exact grown_first.persist executor_onlyCalls hp

/-- All transactions of the small chain are in its last block. -/
theorem block_of_mem {e : Entry} {t : Transaction} (he : e ∈ past)
    (ht : t ∈ e.block.transactions) : e.block = block := by
  rcases List.mem_append.1 he with he | he <;> rw [List.mem_singleton.1 he] at ht ⊢
  rw [Chain.transactions_genesis genesis_eq] at ht
  cases ht

end Sample
end BlockLedger
