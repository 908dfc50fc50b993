-- A chain rebuilt from its own blocks. What an executor that keeps nothing
-- does is settled by the state and the transaction, so the blocks that a chain
-- gives out are all taken up again, and they build up the very same store.
import BlockLedger.Chain.Rebuild
import BlockLedger.Proofs.Fidelity

namespace BlockLedger

/-! ## Executors that keep nothing -/

section Stateless

variable {σ : Type} {exec : Executor σ}

/-- Two results of executors that differ in what the executor keeps at most. -/
def SameBut {α β : Type} (x y : α × σ × β) : Prop := x.1 = y.1 ∧ x.2.2 = y.2.2

theorem SameBut.exists_eq {α β : Type} {x y : α × σ × β} (h : SameBut x y) :
    ∃ a s s' b, x = (a, s, b) ∧ y = (a, s', b) := by
  obtain ⟨a, s, b⟩ := x
  obtain ⟨a', s', b'⟩ := y
  obtain ⟨rfl, rfl⟩ : a = a' ∧ b = b' := h
  exact ⟨a, s, s', b, rfl, rfl⟩

/-- What an executor does is settled by the transaction and the state that it
is run in; what it keeps of its own makes no difference. -/
def Executor.Stateless (exec : Executor σ) : Prop :=
  ∀ t m s s', SameBut (exec t s m) (exec t s' m)

namespace Executor.Stateless

variable (h : exec.Stateless)

include h

theorem runTransaction (t : Transaction) (m : Machine) (s s' : σ) :
    SameBut (BlockLedger.runTransaction exec t s m) (BlockLedger.runTransaction exec t s' m) := by
  obtain ⟨result, s₁, s₂, m₁, hx, hy⟩ := (h t { m with container := some t } s s').exists_eq
  unfold BlockLedger.runTransaction
  rw [hx, hy]
  cases result <;> exact ⟨rfl, rfl⟩

/-- The same holds of all transactions of a block. -/
theorem runTransactions (ts : List Transaction) (m : Machine) (s s' : σ) :
    SameBut (BlockLedger.runTransactions exec ts s m)
      (BlockLedger.runTransactions exec ts s' m) := by
  induction ts generalizing m s s' with
  | nil => exact ⟨rfl, rfl⟩
  | cons t rest ih =>
    obtain ⟨result, s₁, s₂, m₁, hx, hy⟩ := (h.runTransaction t m s s').exists_eq
    unfold BlockLedger.runTransactions
    rw [hx, hy]
    rcases result with e | executed
    · exact ⟨rfl, rfl⟩
    · obtain ⟨more, s₃, s₄, m₂, hx', hy'⟩ := (ih m₁ s₁ s₂).exists_eq
      dsimp only
      rw [hx', hy']
      cases more <;> exact ⟨rfl, rfl⟩

theorem persistBlock (settings : Settings) (base : Store) (block : Block) (s s' : σ) :
    (BlockLedger.persistBlock exec s settings base block).1 =
      (BlockLedger.persistBlock exec s' settings base block).1 := by
  unfold BlockLedger.persistBlock
  rcases mustFit settings base block with e | u
  · rfl
  rcases (prepare block.index).run (.forBlock settings base block) with ⟨e | first, m⟩
  · rfl
  obtain ⟨executed, s₁, s₂, m₁, hx, hy⟩ := (h.runTransactions block.transactions m s s').exists_eq
  dsimp only
  rw [hx, hy]
  rcases executed with e | executed
  · rfl
  · dsimp only
    rcases conclude.run m₁ with ⟨e | last, m₂⟩ <;> rfl

/-- A chain takes a block up the same way whatever the executor keeps. -/
theorem persist (c : Chain Store) (block : Block) (s s' : σ) :
    (c.persist exec s block).1 = (c.persist exec s' block).1 := by
  have happlied := h.persistBlock c.settings c.content block s s'
  rw [Chain.persist_eq, Chain.persist_eq]
  rcases c.accept block with e | u
  · rfl
  rcases hx : BlockLedger.persistBlock exec s c.settings c.content block with ⟨applied, s₁⟩
  rcases hy : BlockLedger.persistBlock exec s' c.settings c.content block with ⟨applied', s₂⟩
  rw [hx, hy] at happlied
  obtain rfl : applied = applied' := happlied
  cases applied <;> rfl

end Executor.Stateless

/-! ## Chains that grow with one executor -/

/-- The chains that start on an empty store and take up blocks whose scripts
are all run by one executor. -/
inductive GrownBy (exec : Executor σ) (settings : Settings) : Chain Store → List Entry → Prop where
  | start {genesis : Block} {c : Chain Store} :
    Chain.genesis settings = .ok genesis → Chain.start SortedMap.empty settings = .ok c →
    GrownBy exec settings c [⟨genesis, []⟩]
  | persist {s s' : σ} {c c' : Chain Store} {past : List Entry} {block : Block}
    {applied : Persisted} :
    GrownBy exec settings c past → c.persist exec s block = (.ok (applied, c'), s') →
    GrownBy exec settings c' (past ++ [⟨block, c.reports exec s block⟩])

namespace GrownBy

variable {settings : Settings} {c : Chain Store} {past : List Entry}

theorem grown (h : GrownBy exec settings c past) (hexec : exec.OnlyCalls) :
    Grown settings c past := by
  induction h with
  | start hg hstart => exact .start hg hstart
  | persist _ hp ih => exact ih.persist hexec hp

end GrownBy

namespace Chain

variable {c c' c'' : Chain Store} {applied : Persisted} {block : Block} {s s' s'' : σ}

/-- The last of some blocks is taken up after the others. -/
theorem persistAll_snoc {blocks : List Block} (h : c.persistAll exec s blocks = (.ok c', s'))
    (hlast : c'.persist exec s' block = (.ok (applied, c''), s'')) :
    c.persistAll exec s (blocks ++ [block]) = (.ok c'', s'') := by
  induction blocks generalizing c s with
  | nil =>
    cases h
    simp only [List.nil_append, persistAll, hlast]
  | cons b rest ih =>
    rw [persistAll] at h
    rcases hp : c.persist exec s b with ⟨e | ⟨first, c₁⟩, s₁⟩
    · rw [hp] at h
      cases h
    · rw [hp] at h
      rw [List.cons_append, persistAll, hp]
      exact ih h

end Chain

namespace GrownBy

variable {settings : Settings} {c : Chain Store} {past : List Entry}

/-- A chain takes all its blocks up again once it is started anew. -/
theorem persistAll (h : GrownBy exec settings c past) (hexec : exec.Stateless) (s : σ) :
    ∃ genesis first rest s', Chain.genesis settings = .ok genesis ∧
      Chain.start SortedMap.empty settings = .ok first ∧ past = ⟨genesis, []⟩ :: rest ∧
      first.persistAll exec s (rest.map Entry.block) = (.ok c, s') := by
  induction h with
  | start hg hstart => exact ⟨_, _, [], s, hg, hstart, rfl, rfl⟩
  | @persist s₁ s₂ c c' past block applied _ hp ih =>
    obtain ⟨genesis, first, rest, s', hg, hstart, rfl, hrest⟩ := ih
    have hlast : (c.persist exec s' block).1 = .ok (applied, c') := by
      rw [hexec.persist c block s' s₁, hp]
    refine ⟨genesis, first, rest ++ [⟨block, c.reports exec s₁ block⟩],
      (c.persist exec s' block).2, hg, hstart, rfl, ?_⟩
    rw [List.map_append]
    exact Chain.persistAll_snoc hrest (Prod.ext hlast rfl)

end GrownBy

end Stateless

/-! ## The blocks of a chain -/

/-- All blocks of a chain but the first are kept when it is rebuilt. -/
theorem Chronicle.afterGenesis_eq {c : Chain Store} {first : Entry} {rest : List Entry}
    (h : Chronicle c (first :: rest)) :
    Chain.afterGenesis first.block.hash ((first :: rest).map Entry.block) =
      rest.map Entry.block := by
  have hindexes := h.indexes
  rw [List.length_cons, List.range_succ_eq_map, List.map_cons, List.cons.injEq] at hindexes
  obtain ⟨hfirst, hrest⟩ := hindexes
  have hzero : first.block.index = 0 := UInt32.toNat_inj.1 hfirst
  unfold Chain.afterGenesis
  rw [List.map_cons, List.filter_cons_of_neg (by simp [hzero]), List.filter_eq_self]
  intro b hb
  obtain ⟨e, he, rfl⟩ := List.mem_map.1 hb
  have hmem := List.mem_map_of_mem (f := fun e : Entry => e.block.index.toNat) he
  rw [hrest] at hmem
  obtain ⟨n, -, hn⟩ := List.mem_map.1 hmem
  have hne : e.block.index ≠ 0 := fun h0 => by
    rw [h0] at hn
    cases hn
  simp [hne]

/-- A chain gives out its blocks, and a chain that is rebuilt from them with
the same executor has the same store, with the same hash. -/
theorem a_rebuild_gives_the_same_store {σ : Type} {exec : Executor σ} {settings : Settings}
    {c : Chain Store} {past : List Entry} (h : GrownBy exec settings c past)
    (hcalls : exec.OnlyCalls) (hexec : exec.Stateless) (hu : HashesTellApart past) (s : σ) :
    ∃ blocks, c.blocks = .ok blocks ∧
      (Chain.rebuildWith exec s settings blocks).1 = .ok (c.content, c.content.hash) := by
  have hgrown := h.grown hcalls
  obtain ⟨last, hlast⟩ := hgrown.exists_last
  refine ⟨_, hgrown.chronicle.blocks_eq hu hlast, ?_⟩
  obtain ⟨genesis, first, rest, s', hg, hstart, rfl, hrest⟩ := h.persistAll hexec s
  have htip : first.tipHash = .ok genesis.hash :=
    ((Grown.start hg hstart).chronicle.tip_eq (e := ⟨genesis, []⟩) rfl).1
  have hkept : Chain.afterGenesis genesis.hash ((⟨genesis, []⟩ :: rest).map Entry.block) =
      rest.map Entry.block := hgrown.chronicle.afterGenesis_eq
  unfold Chain.rebuildWith
  simp only [hstart, htip, hkept, hrest]

namespace Sample

theorem executor_stateless : executor.Stateless := fun _ _ _ _ => ⟨rfl, rfl⟩

theorem grownBy : GrownBy executor settings chain past := by
  have hfirst : GrownBy executor settings first [⟨genesis, []⟩] :=
    .start genesis_eq (eq_given isOk_start)
  obtain ⟨applied, hp⟩ := persist_block
  exact hfirst.persist hp

end Sample

/-- The small chain, with a script that pays and one that does not halt. -/
theorem sample_rebuild : GrownBy Sample.executor Sample.settings Sample.chain Sample.past ∧
    Sample.executor.OnlyCalls ∧ Sample.executor.Stateless ∧ HashesTellApart Sample.past ∧
    ∃ blocks, Sample.chain.blocks = .ok blocks ∧
      (Chain.rebuildWith Sample.executor () Sample.settings blocks).1 =
        .ok (Sample.chain.content, Sample.chain.content.hash) :=
  ⟨Sample.grownBy, Sample.executor_onlyCalls, Sample.executor_stateless, Sample.hashesTellApart,
    a_rebuild_gives_the_same_store Sample.grownBy Sample.executor_onlyCalls
      Sample.executor_stateless Sample.hashesTellApart ()⟩

end BlockLedger
