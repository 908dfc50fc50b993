-- The built-in contracts and the registry that numbers them. Contracts are
-- registered one after the other, and each gets the next number down
-- from -1; its address follows from its name.
import BlockLedger.Address

namespace BlockLedger

/-- A built-in contract. -/
inductive Contract where
  | ledger
  | committee
  | gas
  | policy
deriving DecidableEq

namespace Contract

/-- The contracts in the order of their registration. -/
def all : List Contract := [ledger, committee, gas, policy]

def name : Contract → String
  | ledger => "LedgerContract"
  | committee => "CommitteeContract"
  | gas => "GasToken"
  | policy => "PolicyContract"

/-- The number of a contract, under which it stores its values. -/
def id : Contract → ContractId
  | ledger => -1
  | committee => -2
  | gas => -3
  | policy => -4

def address (contract : Contract) : Hash160 := contractAddress contract.name

/-- The contract with an address. -/
def ofAddress? (a : Hash160) : Option Contract := all.find? fun contract => contract.address = a

/-- Whether an address belongs to a contract. -/
def isAddress (a : Hash160) : Bool := (ofAddress? a).isSome

/-- The first byte of each address. -/
theorem head_address (contract : Contract) :
    contract.address.bytes.head? = some (match contract with
    | ledger => 179
    | committee => 195
    | gas => 185
    | policy => 246) := by
  cases contract <;> decide +kernel

/-- No two contracts share an address. -/
theorem eq_of_address_eq {a b : Contract} (h : a.address = b.address) : a = b := by
  have hb := head_address b
  rw [← h, head_address a] at hb
  revert hb
  cases a <;> cases b <;> decide

theorem address_eq_iff {a b : Contract} : a.address = b.address ↔ a = b :=
  ⟨eq_of_address_eq, fun h => h ▸ rfl⟩

theorem ofAddress?_address (contract : Contract) : ofAddress? contract.address = some contract := by
  unfold ofAddress? all
  cases contract <;> simp [address_eq_iff]

theorem isAddress_address (contract : Contract) : isAddress contract.address = true := by
  rw [isAddress, ofAddress?_address, Option.isSome_some]

end Contract

/-! ## The registry -/

/-- A contract with the number that it was built with. -/
structure Registered where
  kind : Contract
  id : ContractId
deriving DecidableEq

/-- The registered contracts in order. -/
structure Registry where
  contracts : List Registered

namespace Registry

def empty : Registry := ⟨[]⟩

/-- The contract with an address, if one is registered. -/
def dispatch (r : Registry) (a : Hash160) : Option Registered :=
  r.contracts.find? fun m => m.kind.address = a

def has (r : Registry) (a : Hash160) : Bool := (r.dispatch a).isSome

/-- The number that the next contract gets. -/
def nextId (r : Registry) : ContractId := Int32.ofInt (-(r.contracts.length : Int) - 1)

/-- Registers the contract that `build` makes for its number. An address is
registered once, and the contract must have the number and the address that
it is registered with. -/
def register (r : Registry) (a : Hash160) (build : ContractId → Registered) :
    Outcome (ContractId × Registry) :=
  if r.has a then raise (.addressTaken a)
  else
    let id := r.nextId
    let m := build id
    if m.id ≠ id ∨ m.kind.address ≠ a then
      raise (.contractMismatch m.kind.name m.id m.kind.address id a)
    else .ok (id, ⟨r.contracts ++ [m]⟩)

/-- The registry of every built-in contract. -/
def standard : Registry := ⟨Contract.all.map fun contract => ⟨contract, contract.id⟩⟩

/-- The contract after the first ones has the number that comes next. -/
theorem id_eq_nextId : Contract.all.map Contract.id =
    (List.range 4).map fun n => nextId ⟨standard.contracts.take n⟩ := by
  decide

theorem has_standard (contract : Contract) : standard.has contract.address = true := by
  rw [has, dispatch, List.find?_isSome]
  exact ⟨⟨contract, contract.id⟩, by cases contract <;> decide, by simp⟩

/-- The standard registry takes no further contract. -/
theorem register_standard (a : Hash160) (build : ContractId → Registered) :
    ∃ f, standard.register a build = raise f := by
  unfold register
  split
  · exact ⟨_, rfl⟩
  · rename_i hnew
    have hother : (build standard.nextId).kind.address ≠ a := fun h =>
      hnew (h ▸ has_standard (build standard.nextId).kind)
    exact ⟨_, if_pos (.inr hother)⟩

end Registry
end BlockLedger
