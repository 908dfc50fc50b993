-- What every built-in contract does: when the chain is founded, before and
-- after the transactions of a block, and when it is called.
import BlockLedger.Contract.Gas
import BlockLedger.Contract.Ledger
import BlockLedger.Contract.Policy

namespace BlockLedger.Contract

/-- The hardfork that brings a contract in; none of them waits for one. -/
def activeIn (_ : Contract) : Option Hardfork := none

/-- Founds a contract, if it becomes active now. -/
def found (contract : Contract) (hardfork : Option Hardfork) : Run Unit :=
  if hardfork ≠ contract.activeIn then pure ()
  else
    match contract with
    | ledger => pure ()
    | committee => Committee.found
    | gas => Gas.found
    | policy => Policy.found

/-- What a contract does before the transactions of a block. -/
def onPersist : Contract → Run Unit
  | ledger => Ledger.onPersist
  | committee => pure ()
  | gas => Gas.onPersist
  | policy => pure ()

/-- What a contract does after the transactions of a block. -/
def postPersist : Contract → Run Unit
  | ledger => Ledger.postPersist
  | committee => pure ()
  | gas => Gas.postPersist
  | policy => pure ()

/-- Calls a method of a contract. -/
def invoke : Contract → String → List StackItem → Run StackItem
  | ledger => Ledger.invoke
  | committee => Committee.invoke
  | gas => Gas.invoke
  | policy => Policy.invoke

/-- Calls a method of the contract with an address. -/
def call (address : Hash160) (method : String) (args : List StackItem) : Run StackItem :=
  match ofAddress? address with
  | some contract => contract.invoke method args
  | none => throw (.call (.notContract address))

end BlockLedger.Contract
