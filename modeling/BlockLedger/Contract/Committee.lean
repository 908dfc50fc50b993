-- The committee contract: the members of the committee, of whom the first
-- few validate the next block.
import BlockLedger.Argument
import BlockLedger.Execution
import BlockLedger.Contract.Registry

namespace BlockLedger.Committee

/-- The list of members. -/
def membersKey : Key := ⟨Contract.committee.id, 14, []⟩

/-- The members in their configured order. -/
def members (c : Cache) : Outcome (List PublicKey) :=
  match c.get? membersKey with
  | none => raise .committeeMissing
  | some item =>
    match decodeCommittee item.bytes with
    | .ok keys => .ok keys
    | .error e => corrupted membersKey e

/-- The address of a majority of the members. -/
def address (c : Cache) : Outcome Hash160 := do
  committeeAddress (← members c)

/-- The first `count` members in ascending order. -/
def validators (c : Cache) (count : Nat) : Outcome (List PublicKey) := do
  return ((← members c).take count).mergeSort fun a b => (compare a b).isLE

/-- Whether the committee signed the transaction that runs. -/
def hasWitness (m : Machine) : Outcome Bool := do
  return m.hasWitness (← address m.cache)

/-- Stores the configured members when the chain is founded. -/
def found : Run Unit := do
  let settings ← Run.settings
  Run.add membersKey (.raw (committeeBytes settings.standbyCommittee))

/-- Keys as an array of byte strings. -/
def keysItem (keys : List PublicKey) : StackItem := .array (keys.map .ofHash)

/-- Answers a call; no method changes anything. -/
def answer (c : Cache) (count : Nat) (method : String) (args : List StackItem) :
    Outcome StackItem :=
  match method with
  | "getCommittee" => do
    expectCount args 0
    return keysItem (← members c)
  | "getCommitteeAddress" => do
    expectCount args 0
    return .ofHash (← address c)
  | "getNextBlockValidators" => do
    expectCount args 0
    return keysItem (← validators c count)
  | method => .error (.call (.methodNotFound Contract.committee.name method))

def invoke (method : String) (args : List StackItem) : Run StackItem := do
  let settings ← Run.settings
  Run.query fun c => answer c settings.validatorsCount method args

end BlockLedger.Committee
