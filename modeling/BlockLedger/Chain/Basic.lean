-- The chain: a store that holds the blocks from the genesis block to the
-- tip. A block is checked before it is applied, and its writes are
-- committed only if all of it succeeds.
import BlockLedger.Application

namespace BlockLedger

/-! ## Where a chain is kept -/

/-- A place that keeps the content of a store. -/
class Keeper (κ : Type) where
  /-- The content as it is now. -/
  content : κ → Store
  /-- Takes every write of a change set in, or none. -/
  commit : κ → ChangeSet → Outcome κ

/-- A store in memory keeps itself. -/
instance : Keeper Store where
  content s := s
  commit s changes := .ok (s.commit changes)

structure Chain (κ : Type) where
  keeper : κ
  settings : Settings

namespace Chain

variable {κ σ : Type} [Keeper κ]

/-! ## Reading -/

/-- The committed content. -/
def content (c : Chain κ) : Store := Keeper.content c.keeper

/-- The committed content, to be read through a cache. -/
def snapshot (c : Chain κ) : Cache := .ofStore c.content

def height (c : Chain κ) : Outcome UInt32 := Ledger.currentIndex c.snapshot

def tipHash (c : Chain κ) : Outcome Hash256 := Ledger.currentHash c.snapshot

def block? (c : Chain κ) (index : UInt32) : Outcome (Option Block) :=
  Ledger.block? c.snapshot (.index index)

/-- The stored blocks at `count` indexes from `index` on. -/
def blocksFrom (c : Cache) : (count index : Nat) → Outcome (List Block)
  | 0, _ => .ok []
  | count + 1, index => do
    let block ← Ledger.block? c (.index index.toUInt32)
    let rest ← blocksFrom c count (index + 1)
    return block.toList ++ rest

/-- Every block from the genesis block to the tip. -/
def blocks (c : Chain κ) : Outcome (List Block) := do
  let height ← c.height
  blocksFrom c.snapshot (height.toNat + 1) 0

/-! ## Adding blocks -/

/-- The block that every chain with the same settings starts with. -/
def genesis (settings : Settings) : Outcome Block := do
  let holder ← settings.genesisHolder
  return ⟨⟨0, .zero 32, .zero 32, 1468595301000, 2083236893, 0, 0, holder⟩, []⟩

/-- Whether the chain takes a block up at all. -/
def accept (c : Chain κ) (block : Block) : Outcome Unit := do
  let limit := c.settings.maxTransactionsPerBlock
  if limit.toNat < block.transactions.length then
    throw (.rejected (.tooManyTransactions block.index block.transactions.length limit))
  let tip ← Ledger.tip c.snapshot
  match block.check tip c.settings.validatorsCount with
  | .ok () => return ()
  | .error f => throw (.rejected (.invalidBlock f))

/-- Commits the writes of an applied block. -/
def commit (c : Chain κ) (applied : Persisted) : Outcome (Chain κ) := do
  return { c with keeper := ← Keeper.commit c.keeper applied.changes }

/-- A step on a chain, beside the state of an executor. What was done before a
failure stays done. -/
abbrev Session (κ σ α : Type) := ExceptT Failure (StateM (Chain κ × σ)) α

namespace Session

/-- Applies a block to what the chain holds. -/
def apply (exec : Executor σ) (block : Block) : Session κ σ Persisted := do
  let (c, s) ← get
  let (applied, s) := persistBlock exec s c.settings c.content block
  set (c, s)
  applied

/-- Commits the writes of an applied block. -/
def commit (applied : Persisted) : Session κ σ Unit := do
  let (c, s) ← get
  let c ← c.commit applied
  set (c, s)

/-- Checks, applies and commits a block. -/
def persist (exec : Executor σ) (block : Block) : Session κ σ Persisted := do
  let (c, _) ← get
  c.accept block
  let applied ← apply exec block
  commit applied
  return applied

end Session

/-- Persists a block; a failure gives no chain. -/
def persist (c : Chain κ) (exec : Executor σ) (s : σ) (block : Block) :
    Outcome (Persisted × Chain κ) × σ :=
  match (Session.persist exec block).run (c, s) with
  | (.ok applied, c, s) => (.ok (applied, c), s)
  | (.error f, _, s) => (.error f, s)

/-- Persists blocks in order, up to the first failure. -/
def persistAll (c : Chain κ) (exec : Executor σ) : σ → List Block → Outcome (Chain κ) × σ
  | s, [] => (.ok c, s)
  | s, block :: rest =>
    match c.persist exec s block with
    | (.error f, s) => (.error f, s)
    | (.ok (_, c), s) => c.persistAll exec s rest

/-- Starts a chain on what a keeper holds. A founded chain is taken as it
is; any other one gets its genesis block. -/
def start (keeper : κ) (settings : Settings) : Outcome (Chain κ) :=
  let c : Chain κ := ⟨keeper, settings⟩
  if Ledger.isFounded c.snapshot then .ok c
  else do
    let block ← genesis settings
    let (_, c) ← (c.persist .halting () block).1
    return c

/-! ## What persisting a block gives -/

namespace Session

omit [Keeper κ] in
theorem run_lift {α : Type} (r : Outcome α) (state : Chain κ × σ) :
    (liftM r : Session κ σ α).run state = (r, state) := rfl

theorem run_apply (exec : Executor σ) (block : Block) (c : Chain κ) (s : σ) :
    (apply exec block).run (c, s) = match persistBlock exec s c.settings c.content block with
      | (applied, s) => (applied, c, s) := rfl

theorem run_commit (applied : Persisted) (c : Chain κ) (s : σ) :
    (commit applied).run (c, s) = match c.commit applied with
      | .error f => (.error f, c, s)
      | .ok c => (.ok (), c, s) := by
  simp only [commit, Run.run_bind, Run.run_get, run_lift]
  cases c.commit applied <;> rfl

/-- The chain is the same until the writes are committed. -/
theorem run_persist (exec : Executor σ) (block : Block) (c : Chain κ) (s : σ) :
    (persist exec block).run (c, s) = match c.accept block with
      | .error f => (.error f, c, s)
      | .ok () =>
        match persistBlock exec s c.settings c.content block with
        | (.error f, s) => (.error f, c, s)
        | (.ok applied, s) =>
          match c.commit applied with
          | .error f => (.error f, c, s)
          | .ok c => (.ok applied, c, s) := by
  simp only [persist, Run.run_bind, Run.run_get, run_lift]
  rcases c.accept block with f | u
  · rfl
  dsimp only
  rw [run_apply]
  rcases persistBlock exec s c.settings c.content block with ⟨f | applied, s⟩
  · rfl
  dsimp only
  rw [run_commit]
  cases c.commit applied <;> rfl

end Session

theorem persist_eq (c : Chain κ) (exec : Executor σ) (s : σ) (block : Block) :
    c.persist exec s block = match c.accept block with
      | .error f => (.error f, s)
      | .ok () =>
        match persistBlock exec s c.settings c.content block with
        | (.error f, s) => (.error f, s)
        | (.ok applied, s) => ((c.commit applied).map fun c => (applied, c), s) := by
  unfold persist
  rw [Session.run_persist]
  rcases c.accept block with f | u
  · rfl
  rcases persistBlock exec s c.settings c.content block with ⟨f | applied, s⟩
  · rfl
  dsimp only
  rcases c.commit applied with f | c <;> rfl

end Chain
end BlockLedger
