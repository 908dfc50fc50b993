-- The ledger contract: blocks by index and by hash, a record for every
-- transaction, a mark for every declared conflict, and the tip. Scripts
-- see only the blocks of a window that ends at the tip.
import BlockLedger.Argument
import BlockLedger.Execution
import BlockLedger.Contract.Registry

namespace BlockLedger.Ledger

/-! ## Keys -/

/-- The hash of the block at an index. The index is written most
significant byte first, so the keys are in the order of the blocks. -/
def hashKey (index : UInt32) : Key := ⟨Contract.ledger.id, 9, beBytes 4 index.toNat⟩

/-- The tip. -/
def tipKey : Key := ⟨Contract.ledger.id, 12, []⟩

/-- The table of trimmed blocks by hash. -/
def blockTag : UInt8 := 5

def blockKey (hash : Hash256) : Key := ⟨Contract.ledger.id, blockTag, hash.bytes⟩

/-- The record of a transaction, or the mark of a conflict with it. -/
def recordKey (hash : Hash256) : Key := ⟨Contract.ledger.id, 11, hash.bytes⟩

/-- The mark that a transaction of a signer declared a conflict. -/
def signerKey (hash : Hash256) (signer : Hash160) : Key :=
  ⟨Contract.ledger.id, 11, hash.bytes ++ signer.bytes⟩

/-! ## The tip -/

/-- The tip; none before the first block. -/
def tip (c : Cache) : Outcome (Option BlockPointer) := c.read? tipKey

/-- The tip, with a zero hash and index zero before the first block. -/
def tipOrZero (c : Cache) : Outcome BlockPointer := do
  return (← tip c).getD .zero

def currentHash (c : Cache) : Outcome Hash256 := do
  return (← tipOrZero c).hash

def currentIndex (c : Cache) : Outcome UInt32 := do
  return (← tipOrZero c).index

/-- Whether any block is stored. -/
def isFounded (c : Cache) : Bool := !(c.find (Key.lead Contract.ledger.id blockTag)).isEmpty

/-- A block may be seen from the tip if fewer than `window` blocks have
followed it. -/
def inWindow (index current window : UInt32) : Bool :=
  index ≤ current && current.toNat < index.toNat + window.toNat

def isTraceable (c : Cache) (index window : UInt32) : Outcome Bool := do
  return inWindow index (← currentIndex c) window

/-! ## Blocks -/

def hashAt? (c : Cache) (index : UInt32) : Outcome (Option Hash256) :=
  match c.get? (hashKey index) with
  | none => .ok none
  | some item =>
    match Fixed.ofBytes? 32 item.bytes with
    | some h => .ok (some h)
    | none => corrupted (hashKey index) (.invalidLength "block_hash" 32 item.bytes.length)

def containsBlock (c : Cache) (hash : Hash256) : Bool := c.contains (blockKey hash)

def trimmedBlock? (c : Cache) (hash : Hash256) : Outcome (Option TrimmedBlock) :=
  match c.get? (blockKey hash) with
  | none => .ok none
  | some item =>
    match TrimmedBlock.decode item.bytes with
    | .ok b => .ok (some b)
    | .error e => corrupted (blockKey hash) e

/-- The hash that a reference denotes. -/
def resolve (c : Cache) : BlockRef → Outcome (Option Hash256)
  | .index index => hashAt? c index
  | .hash hash => .ok (some hash)

/-! ## Transactions -/

/-- The record of a transaction; the mark of a conflict counts as none. -/
def record? (c : Cache) (hash : Hash256) : Outcome (Option TransactionRecord) := do
  return (← c.read? (recordKey hash)).filter fun r => !TransactionRecord.isStub r

def transaction? (c : Cache) (hash : Hash256) : Outcome (Option Transaction) := do
  return (← record? c hash).bind (·.transaction)

def containsTransaction (c : Cache) (hash : Hash256) : Outcome Bool := do
  return (← record? c hash).isSome

/-- The transactions that a block lists; each must be there. -/
def listed (c : Cache) (holder : Hash256) (hashes : List Hash256) : Outcome (List Transaction) :=
  hashes.mapM fun hash => do
    match ← transaction? c hash with
    | some t => return t
    | none => raise (.listedMissing holder hash)

/-- A block with its transactions. -/
def block? (c : Cache) (ref : BlockRef) : Outcome (Option Block) := do
  match ← resolve c ref with
  | none => return none
  | some hash =>
    match ← trimmedBlock? c hash with
    | none => return none
    | some b => return some ⟨b.header, ← listed c hash b.hashes⟩

def header? (c : Cache) (ref : BlockRef) : Outcome (Option Header) := do
  match ← resolve c ref with
  | none => return none
  | some hash => return (← trimmedBlock? c hash).map (·.header)

/-- Whether one of the signers has a mark inside the window. -/
def anyMarked (c : Cache) (hash : Hash256) (current window : UInt32) :
    List Hash160 → Outcome Bool
  | [] => .ok false
  | signer :: rest => do
    match ← (c.read? (signerKey hash signer) : Outcome (Option TransactionRecord)) with
    | some r =>
      if inWindow r.blockIndex current window then return true
      else anyMarked c hash current window rest
    | none => anyMarked c hash current window rest

/-- Whether a transaction inside the window, signed by one of the
signers, declared a conflict with a hash. -/
def hasConflict (c : Cache) (hash : Hash256) (signers : List Hash160) (window : UInt32) :
    Outcome Bool := do
  match ← (c.read? (recordKey hash) : Outcome (Option TransactionRecord)) with
  | none => return false
  | some r =>
    if r.isStub then
      let current ← currentIndex c
      if inWindow r.blockIndex current window then anyMarked c hash current window signers
      else return false
    else return false

/-! ## Applying a block -/

/-- Marks a conflict of a transaction with a hash: under the hash, unless
a record is there, and for every signer. -/
def markConflict (index : UInt32) (signers : List Hash160) (hash : Hash256) : Run Unit := do
  let old : Option TransactionRecord ← Run.query fun c => c.read? (recordKey hash)
  let mark := Item.transaction (.stub index)
  if old.all (·.isStub) then Run.put (recordKey hash) mark
  signers.forM fun signer => Run.put (signerKey hash signer) mark

/-- Stores the record of a transaction, over any mark of a conflict, and
marks the conflicts that it declares. -/
def storeTransaction (index : UInt32) (t : Transaction) : Run Unit := do
  Run.put (recordKey t.hash) (.transaction ⟨index, some t, .none⟩)
  t.declared.forM (markConflict index t.accounts)

/-- The block must be the one after the tip. -/
def checkTip (c : Cache) (index : UInt32) : Outcome Unit := do
  match ← tip c with
  | none => return ()
  | some tip =>
    if index.toNat = tip.index.toNat + 1 then return ()
    else raise (.tipOutOfStep tip.index index)

/-- Stores the block and its transactions. -/
def onPersist : Run Unit := do
  let block ← Run.block
  Run.query fun c => checkTip c block.index
  let hash := block.hash
  Run.add (hashKey block.index) (.raw hash.bytes)
  Run.add (blockKey hash) (.raw block.trim.bytes)
  block.transactions.forM (storeTransaction block.index)

/-- Moves the tip to the block. -/
def postPersist : Run Unit := do
  let block ← Run.block
  let _ ← Run.touchValue tipKey (.ok BlockPointer.zero)
  Run.putValue tipKey (⟨block.hash, block.index⟩ : BlockPointer)

/-- Records how the script of a transaction of the block ended. -/
def setVmState (hash : Hash256) (vmState : VmState) : Run Unit := do
  let r : TransactionRecord ← Run.touchValue (recordKey hash) (raise (.recordMissing hash))
  Run.putValue (recordKey hash) { r with vmState := vmState }

/-! ## Calls -/

/-- The referenced block, if scripts may see it. -/
def visibleBlock? (c : Cache) (window : UInt32) (args : List StackItem) :
    Outcome (Option TrimmedBlock) := do
  match ← resolve c (← blockArgument args 0 "indexOrHash") with
  | none => return none
  | some hash =>
    match ← trimmedBlock? c hash with
    | none => return none
    | some b => return if ← isTraceable c b.header.index window then some b else none

/-- The record of a transaction, if scripts may see it. -/
def visibleRecord? (c : Cache) (window : UInt32) (hash : Hash256) :
    Outcome (Option TransactionRecord) := do
  match ← record? c hash with
  | none => return none
  | some r => return if ← isTraceable c r.blockIndex window then some r else none

/-- The visible record of the transaction that the only argument names. -/
def recordArgument? (c : Cache) (window : UInt32) (args : List StackItem) :
    Outcome (Option TransactionRecord) := do
  expectCount args 1
  visibleRecord? c window (← hashArgument 32 args 0 "hash")

/-- The place of a transaction in a list. -/
def hashInBlock (hashes : List Hash256) (index : Int) : Outcome Hash256 :=
  match if index < 0 then none else hashes[index.toNat]? with
  | some h => .ok h
  | none => refuse (.noSuchTransaction index hashes.length)

/-- The transaction at a place in a block. -/
def transactionFromBlock (c : Cache) (window : UInt32) (args : List StackItem) :
    Outcome StackItem := do
  expectCount args 2
  let index ← integerArgument args 1 "txIndex"
  match ← visibleBlock? c window args with
  | none => return .null
  | some b =>
    match ← transaction? c (← hashInBlock b.hashes index) with
    | some t => t.toItem
    | none => return .null

/-- Answers a call; no method changes anything. -/
def answer (c : Cache) (window : UInt32) (method : String) (args : List StackItem) :
    Outcome StackItem :=
  match method with
  | "currentHash" => do
    expectCount args 0
    return .ofHash (← currentHash c)
  | "currentIndex" => do
    expectCount args 0
    return .integer (← currentIndex c).toNat
  | "getBlock" => do
    expectCount args 1
    match ← visibleBlock? c window args with
    | some b => return b.toItem
    | none => return .null
  | "getTransaction" => do
    match (← recordArgument? c window args).bind (·.transaction) with
    | some t => t.toItem
    | none => return .null
  | "getTransactionSigners" => do
    match (← recordArgument? c window args).bind (·.transaction) with
    | some t => return .array (t.signers.map Signer.toItem)
    | none => return .null
  | "getTransactionVMState" => do
    match ← recordArgument? c window args with
    | some r => return .integer r.vmState.code.toNat
    | none => return .integer 0
  | "getTransactionHeight" => do
    match ← recordArgument? c window args with
    | some r => return .integer r.blockIndex.toNat
    | none => return .integer (-1)
  | "getTransactionFromBlock" => transactionFromBlock c window args
  | method => .error (.call (.methodNotFound Contract.ledger.name method))

def invoke (method : String) (args : List StackItem) : Run StackItem := do
  let settings ← Run.settings
  Run.query fun c => answer c settings.maxTraceableBlocks method args

end BlockLedger.Ledger
