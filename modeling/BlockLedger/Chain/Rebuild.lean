-- A chain rebuilt from its blocks alone. The same blocks give the same
-- store, so its hash shows whether two nodes agree.
import BlockLedger.Chain.Basic

namespace BlockLedger.Chain

variable {σ : Type}

/-- The blocks without those that are the genesis block again. -/
def afterGenesis (genesis : Hash256) (blocks : List Block) : List Block :=
  blocks.filter fun b => !(b.index = 0 && b.hash = genesis)

/-- Rebuilds the store from blocks, which start with the genesis block;
gives the store with its hash. -/
def rebuildWith (exec : Executor σ) (s : σ) (settings : Settings) (blocks : List Block) :
    Outcome (Store × String) × σ :=
  match (start SortedMap.empty settings : Outcome (Chain Store)) with
  | .error f => (.error f, s)
  | .ok c =>
    match c.tipHash with
    | .error f => (.error f, s)
    | .ok genesis =>
      match c.persistAll exec s (afterGenesis genesis blocks) with
      | (.error f, s) => (.error f, s)
      | (.ok c, s) => (.ok (c.content, c.content.hash), s)

/-- Rebuilds the store with every script halting at once. -/
def rebuild (settings : Settings) (blocks : List Block) : Outcome (Store × String) :=
  (rebuildWith .halting () settings blocks).1

/-- The hash of the rebuilt store. -/
def rebuildHash (settings : Settings) (blocks : List Block) : Outcome String :=
  (rebuild settings blocks).map (·.2)

/-- Rebuilds twice; both stores must have the same hash. -/
def rebuildTwice (settings : Settings) (blocks : List Block) : Outcome String := do
  let first ← rebuildHash settings blocks
  let second ← rebuildHash settings blocks
  if first = second then return first else raise (.rebuildsDiffer first second)

end BlockLedger.Chain
