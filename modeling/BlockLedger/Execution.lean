-- The state in which built-in contracts run: the block that is applied, the
-- transaction whose script runs, the cache and the notices given so far.
-- What was written before a failure stays written.
import BlockLedger.Settings
import BlockLedger.Store.Cache

namespace BlockLedger

/-- A notice that a contract gives about a change. -/
structure Notice where
  contract : Hash160
  event : String
  state : List StackItem

structure Machine where
  settings : Settings
  /-- The block that is applied. -/
  block : Option Block
  /-- The transaction whose script runs. -/
  container : Option Transaction
  cache : Cache
  /-- The notices since they were last collected, in order. -/
  notices : List Notice

/-- A step of a run: it changes the state, and may fail after that. -/
abbrev Run (α : Type) := ExceptT Failure (StateM Machine) α

namespace Machine

/-- Whether an account signed the transaction that runs. -/
def hasWitness (m : Machine) (account : Hash160) : Bool :=
  match m.container with
  | some t => t.accounts.contains account
  | none => false

end Machine

namespace Run

variable {α β : Type}

/-- A step that has a result, or fails, without changing the state. -/
def ofOutcome : Outcome α → Run α
  | .ok v => pure v
  | .error f => throw f

/-- Reads from the cache. -/
def query (f : Cache → Outcome α) : Run α := do
  ofOutcome (f (← get).cache)

/-- Changes the cache. -/
def update (f : Cache → Cache) : Run Unit := modify fun m => { m with cache := f m.cache }

/-- Changes the cache, or fails and leaves it alone. -/
def tryUpdate (f : Cache → Outcome Cache) : Run Unit := do
  let c ← query f
  update fun _ => c

/-- Adds a key that must not be there yet. -/
def add (key : Key) (item : Item) : Run Unit := tryUpdate fun c => c.add key item

/-- Puts an item under a key, whether it is there or not. -/
def put (key : Key) (item : Item) : Run Unit := update fun c => c.put key item

def delete (key : Key) : Run Unit := update fun c => c.delete key

/-- Writes a key as it is and hands out its value. -/
def touchValue [Storable α] (key : Key) (make : Outcome α) : Run α := do
  let (result, c) := (← get).cache.touchValue key make
  update fun _ => c
  ofOutcome result

/-- Puts a value under a key, whether it is there or not. -/
def putValue [Storable α] (key : Key) (value : α) : Run Unit := put key (Storable.item value)

/-- The block that is applied; there always is one when a block is. -/
def block : Run Block := do
  match (← get).block with
  | some b => return b
  | none => throw (.fault .noBlock)

def settings : Run Settings := return (← get).settings

/-- Gives a notice. -/
def notify (contract : Hash160) (event : String) (state : List StackItem) : Run Unit :=
  modify fun m => { m with notices := m.notices ++ [⟨contract, event, state⟩] }

/-- Collects the notices. -/
def takeNotices : Run (List Notice) :=
  modifyGet fun m => (m.notices, { m with notices := [] })

/-! ## What each step gives when it is run -/

theorem run_pure (v : α) (m : Machine) : (pure v : Run α).run m = (.ok v, m) := rfl

theorem run_throw (f : Failure) (m : Machine) : (throw f : Run α).run m = (.error f, m) := rfl

theorem run_get {τ : Type} (m : τ) : (get : ExceptT Failure (StateM τ) τ).run m = (.ok m, m) := rfl

/-- A step that fails ends the run, whatever the state is made of. -/
theorem run_bind {τ : Type} (x : ExceptT Failure (StateM τ) α)
    (f : α → ExceptT Failure (StateM τ) β) (m : τ) :
    (x >>= f).run m = match x.run m with
      | (.ok v, m) => (f v).run m
      | (.error failure, m) => (.error failure, m) := by
  change (x.run >>= ExceptT.bindCont f) m = _
  simp only [bind, StateT.bind]
  rcases x.run m with ⟨_ | _, _⟩ <;> rfl

theorem run_ofOutcome (r : Outcome α) (m : Machine) : (ofOutcome r).run m = (r, m) := by
  cases r <;> rfl

theorem run_query (f : Cache → Outcome α) (m : Machine) : (query f).run m = (f m.cache, m) := by
  simp only [query, run_bind, run_get, run_ofOutcome]

theorem run_update (f : Cache → Cache) (m : Machine) :
    (update f).run m = (.ok (), { m with cache := f m.cache }) := rfl

theorem run_tryUpdate (f : Cache → Outcome Cache) (m : Machine) :
    (tryUpdate f).run m = match f m.cache with
      | .ok c => (.ok (), { m with cache := c })
      | .error failure => (.error failure, m) := by
  simp only [tryUpdate, run_bind, run_query, run_update]
  cases f m.cache <;> rfl

theorem run_touchValue [Storable α] (key : Key) (make : Outcome α) (m : Machine) :
    (touchValue key make).run m =
      ((m.cache.touchValue key make).1, { m with cache := (m.cache.touchValue key make).2 }) := by
  simp only [touchValue, run_bind, run_get, run_update, run_ofOutcome]

end Run
end BlockLedger
