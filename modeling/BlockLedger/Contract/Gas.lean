-- The fee asset. Fees are burned from the senders when a block is
-- applied, and its network fees are minted to its proposer, so a block
-- takes the sum of its system fees out of the supply.
import BlockLedger.Contract.Committee

namespace BlockLedger.Gas

/-! ## Keys and balances -/

/-- The total supply. -/
def supplyKey : Key := ⟨Contract.gas.id, 11, []⟩

/-- The table of accounts by address. -/
def accountTag : UInt8 := 20

def accountKey (account : Hash160) : Key := ⟨Contract.gas.id, accountTag, account.bytes⟩

def totalSupply (c : Cache) : Outcome Amount :=
  match c.get? supplyKey with
  | none => .ok 0
  | some item =>
    match Amount.ofBytes? item.bytes with
    | some a => .ok a
    | none => corrupted supplyKey (.invalidLength "total_supply" 32 item.bytes.length)

/-- What is kept of an account; one that is not kept holds nothing. -/
def account (c : Cache) (owner : Hash160) : Outcome Account := do
  return (← c.read? (accountKey owner)).getD .zero

/-- What an account holds. -/
def balance (c : Cache) (owner : Hash160) : Outcome Amount := do
  return (← account c owner).balance

/-! ## Movements -/

def setSupply (supply : Amount) : Run Unit := Run.put supplyKey (.raw supply.bytes)

/-- An account in a notice; null stands for the asset itself. -/
def partyItem : Option Hash160 → StackItem
  | some account => .ofHash account
  | none => .null

/-- Gives notice of a movement. -/
def notifyTransfer (source target : Option Hash160) (amount : Amount) : Run Unit :=
  match amount.toItem with
  | .ok item =>
    Run.notify Contract.gas.address "Transfer" [partyItem source, partyItem target, item]
  | .error _ => throw (.fault (.transferTooLarge amount))

/-- Adds to the balance of an account. -/
def credit (owner : Hash160) (amount : Amount) : Run Unit := do
  let held ← Run.touchValue (accountKey owner) (.ok Account.zero)
  let held ← Run.ofOutcome (held.credit amount)
  Run.putValue (accountKey owner) held

/-- Keeps an account; one that holds nothing is not kept. -/
def settle (owner : Hash160) (held : Account) : Run Unit :=
  if held.balance = 0 then Run.delete (accountKey owner)
  else do
    let _ ← Run.touchValue (accountKey owner) (.ok Account.zero)
    Run.putValue (accountKey owner) held

/-- Makes a new amount and gives it to an account. -/
def mint (owner : Hash160) (amount : Amount) : Run Unit :=
  if amount = 0 then pure ()
  else do
    credit owner amount
    let supply ← Run.query totalSupply
    let supply ← Run.ofOutcome (Amount.add supply amount)
    setSupply supply
    notifyTransfer none (some owner) amount

/-- Takes an amount from an account and out of the supply; the account
must hold it. -/
def burn (owner : Hash160) (amount : Amount) : Run Unit :=
  if amount = 0 then pure ()
  else do
    let held ← Run.query fun c => account c owner
    if held.balance < amount then
      throw (.fault (.burnBeyondBalance amount owner held.balance))
    settle owner (held.debit amount)
    let supply ← Run.query totalSupply
    let supply ← Run.ofOutcome (Amount.sub supply amount)
    setSupply supply
    notifyTransfer (some owner) none amount

/-- Moves an amount between accounts. It is refused if the giver did not
sign or holds less. -/
def transfer (source target : Hash160) (amount : Amount) : Run Bool := do
  let signed := (← get).hasWitness source
  if !signed then return false
  let held ← Run.query fun c => account c source
  if held.balance < amount then return false
  if amount ≠ 0 ∧ source ≠ target then
    settle source (held.debit amount)
    credit target amount
  notifyTransfer (some source) (some target) amount
  return true

/-! ## Applying a block -/

/-- Mints the first distribution when the chain is founded. -/
def found : Run Unit := do
  let settings ← Run.settings
  let holder ← Run.ofOutcome settings.genesisHolder
  mint holder settings.initialGasDistribution.toNat

/-- Burns the fees of one transaction. -/
def burnFee (t : Transaction) : Run Unit := do
  let sender ← Run.ofOutcome t.sender
  burn sender t.fee

/-- Burns the fees of every transaction of the block. -/
def onPersist : Run Unit := do
  let block ← Run.block
  block.transactions.forM burnFee

/-- The validator who proposed the block. -/
def proposer (c : Cache) (block : Block) (count : Nat) : Outcome PublicKey := do
  let validators ← Committee.validators c count
  match validators[block.header.primary.toNat]? with
  | some key => return key
  | none => raise (.block (.primaryOutOfRange block.header.primary validators.length))

/-- Mints the network fees of the block to its proposer. -/
def postPersist : Run Unit := do
  let block ← Run.block
  let settings ← Run.settings
  let key ← Run.query fun c => proposer c block settings.validatorsCount
  mint (signatureAddress key) block.networkFee

/-! ## Calls -/

def invoke (method : String) (args : List StackItem) : Run StackItem :=
  match method with
  | "symbol" => do
    Run.ofOutcome (expectCount args 0)
    return .byteString (utf8 "GAS")
  | "decimals" => do
    Run.ofOutcome (expectCount args 0)
    return .integer 8
  | "totalSupply" => do
    Run.ofOutcome (expectCount args 0)
    let supply ← Run.query totalSupply
    Run.ofOutcome supply.toItem
  | "balanceOf" => do
    Run.ofOutcome (expectCount args 1)
    let owner ← Run.ofOutcome (hashArgument 20 args 0 "account")
    let held ← Run.query fun c => balance c owner
    Run.ofOutcome held.toItem
  | "transfer" => do
    Run.ofOutcome (expectCount args 3)
    let source ← Run.ofOutcome (hashArgument 20 args 0 "from")
    let target ← Run.ofOutcome (hashArgument 20 args 1 "to")
    let amount ← Run.ofOutcome (amountArgument args 2 "amount")
    let moved ← transfer source target amount
    return .boolean moved
  | method => throw (.call (.methodNotFound Contract.gas.name method))

end BlockLedger.Gas
