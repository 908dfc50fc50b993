-- Applying a block to a snapshot. The contracts prepare the block, its
-- transactions run one after the other, and the contracts conclude it. A
-- transaction that does not halt leaves nothing but its record.
import BlockLedger.Contract.Dispatch

namespace BlockLedger

/-! ## Executors -/

/-- How the script of a transaction ended. -/
structure Execution where
  vmState : VmState
  gas : UInt64
  exception : Option String

/-- Runs the scripts of transactions; it may keep a state of its own. -/
abbrev Executor (σ : Type) := Transaction → σ → Machine → Outcome Execution × σ × Machine

/-- Halts every script at once. -/
def Executor.halting {σ : Type} : Executor σ := fun _ s m => (.ok ⟨.halt, 0, none⟩, s, m)

/-! ## Results -/

inductive Trigger where
  | onPersist
  | application
  | postPersist
deriving DecidableEq

/-- What one phase of a block, or one of its transactions, did. -/
structure Executed where
  trigger : Trigger
  transaction : Option Hash256
  vmState : VmState
  gas : UInt64
  exception : Option String
  notices : List Notice

/-- An applied block: its writes are still to be committed. -/
structure Persisted where
  index : UInt32
  hash : Hash256
  changes : ChangeSet
  executed : List Executed

/-! ## The phases -/

/-- The end of a phase that is no transaction. -/
def concludePhase (trigger : Trigger) : Run Executed := do
  return ⟨trigger, none, .halt, 0, none, ← Run.takeNotices⟩

/-- The moments at which contracts may become active with a block: the
founding of the chain, and the hardforks of its height. -/
def activations (index : UInt32) : Run (List (Option Hardfork)) := do
  let founded := Ledger.isFounded (← get).cache
  let settings ← Run.settings
  return (if founded then [] else [none]) ++ (settings.hardforks.activatingAt index).map some

/-- Founds the contracts that become active, and prepares the block. -/
def prepare (index : UInt32) : Run Executed := do
  (← activations index).forM fun hardfork =>
    Contract.all.forM fun contract => contract.found hardfork
  Contract.all.forM Contract.onPersist
  concludePhase .onPersist

/-- Records how a transaction ended. -/
def recordExecution (hash : Hash256) (result : Execution) (notices : List Notice) :
    Run Executed := do
  Ledger.setVmState hash result.vmState
  return ⟨.application, some hash, result.vmState, result.gas, result.exception, notices⟩

/-- Takes a run back to where it started, unless the script halted. -/
def afterExecution (start finish : Machine) (vmState : VmState) : List Notice × Machine :=
  if vmState = .halt then (finish.notices, { finish with container := none, notices := [] })
  else ([], { finish with container := none, notices := [], cache := start.cache })

/-- Runs one transaction. -/
def runTransaction {σ : Type} (exec : Executor σ) (t : Transaction) (s : σ) (start : Machine) :
    Outcome Executed × σ × Machine :=
  match exec t s { start with container := some t } with
  | (.error f, s, m) => (.error f, s, m)
  | (.ok result, s, m) =>
    let (notices, m) := afterExecution start m result.vmState
    match (recordExecution t.hash result notices).run m with
    | (executed, m) => (executed, s, m)

/-- Runs the transactions in order, up to the first failure. -/
def runTransactions {σ : Type} (exec : Executor σ) :
    List Transaction → σ → Machine → Outcome (List Executed) × σ × Machine
  | [], s, m => (.ok [], s, m)
  | t :: rest, s, m =>
    match runTransaction exec t s m with
    | (.error f, s, m) => (.error f, s, m)
    | (.ok executed, s, m) =>
      match runTransactions exec rest s m with
      | (.error f, s, m) => (.error f, s, m)
      | (.ok more, s, m) => (.ok (executed :: more), s, m)

/-- Concludes the block. -/
def conclude : Run Executed := do
  Contract.all.forM Contract.postPersist
  concludePhase .postPersist

/-! ## The whole block -/

/-- The state in which a block is applied. -/
def Machine.forBlock (settings : Settings) (base : Store) (block : Block) : Machine :=
  ⟨settings, some block, none, .ofStore base, []⟩

/-- A block must fit the tip of the snapshot that it is applied to. -/
def mustFit (settings : Settings) (base : Store) (block : Block) : Outcome Unit := do
  let tip ← Ledger.tip (.ofStore base)
  mustPass (block.check tip settings.validatorsCount)

/-- Applies a block to a snapshot. -/
def persistBlock {σ : Type} (exec : Executor σ) (s : σ) (settings : Settings) (base : Store)
    (block : Block) : Outcome Persisted × σ :=
  match mustFit settings base block with
  | .error f => (.error f, s)
  | .ok () =>
    match (prepare block.index).run (.forBlock settings base block) with
    | (.error f, _) => (.error f, s)
    | (.ok first, m) =>
      match runTransactions exec block.transactions s m with
      | (.error f, s, _) => (.error f, s)
      | (.ok executed, s, m) =>
        match conclude.run m with
        | (.error f, _) => (.error f, s)
        | (.ok last, m) =>
          (.ok ⟨block.index, block.hash, m.cache.changes, first :: executed ++ [last]⟩, s)

end BlockLedger
