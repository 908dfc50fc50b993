-- What can go wrong. A fault is a broken invariant and stops the node;
-- every other failure is an answer to the caller. Each cause has one
-- message.
import BlockLedger.Store.Key
import BlockLedger.StackItem

namespace BlockLedger

/-! ## Stored values that cannot be read -/

inductive CodecError where
  /-- The bytes are no sequence of fields. -/
  | malformed
  | invalidLength (field : String) (expected got : Nat)
  | missingField (field : String)
  | invalidValue (field : String) (value : Nat)
  /-- The value is held in another shape than the one asked for. -/
  | unexpectedShape (shape : String)
deriving DecidableEq

def CodecError.message : CodecError → String
  | malformed => "protobuf decode error"
  | invalidLength field expected got =>
    "invalid length for " ++ field ++ ": expected " ++ toString expected ++ ", got " ++ toString got
  | missingField field => "missing field: " ++ field
  | invalidValue field value => "invalid value for " ++ field ++ ": " ++ toString value
  | unexpectedShape shape => "stored value is not a " ++ shape

inductive StorageError where
  /-- The log refused to take a change set. -/
  | backend
  | corrupted (key : Key) (source : CodecError)
deriving DecidableEq

def StorageError.message : StorageError → String
  | backend => "storage backend error"
  | corrupted key source => "corrupted value under key " ++ key.toText ++ ": " ++ source.message

/-! ## Contract calls that are refused -/

/-- Why an argument of a contract's method, or its result, is no good. -/
inductive ArgumentError where
  | missing (name : String)
  | wrongCount (expected got : Nat)
  | notBytes (name : String) (got : StackItem)
  | notInteger (name : String) (got : StackItem)
  | wrongLength (name : String) (expected : Nat)
  | negative (name : String)
  | indexTooLong
  | indexNegative
  | indexTooLarge
  | notBlockReference (name : String)
  | noSuchTransaction (index : Int) (count : Nat)
  | amountTooLarge (amount : Nat)
  | feeOutOfRange (fee : Int) (limit : Nat)
  | contractAccount (account : Hash160)

def ArgumentError.message : ArgumentError → String
  | missing name => "missing argument " ++ name
  | wrongCount expected got =>
    "expected " ++ toString expected ++ " arguments, got " ++ toString got
  | notBytes name got => name ++ " must be a byte string, got " ++ got.toText
  | notInteger name got => name ++ " must be an integer, got " ++ got.toText
  | wrongLength name expected => name ++ " must be " ++ toString expected ++ " bytes"
  | negative name => name ++ " must not be negative"
  | indexTooLong => "index must be shorter than 32 bytes"
  | indexNegative => "index must not be negative"
  | indexTooLarge => "index exceeds u32 range"
  | notBlockReference name => name ++ " must be an index or a 32-byte hash"
  | noSuchTransaction index count =>
    "txIndex " ++ toString index ++ " out of range for " ++ toString count ++ " transactions"
  | amountTooLarge amount => "amount " ++ toString amount ++ " out of range"
  | feeOutOfRange fee limit =>
    "fee per byte " ++ toString fee ++ " outside 0..=" ++ toString limit
  | contractAccount account => "native module " ++ account.toText ++ " cannot be blocked"

inductive CallError where
  | invalidArgument (error : ArgumentError)
  | methodNotFound (contract method : String)
  | notContract (address : Hash160)
  /-- The committee did not sign. -/
  | unauthorized

def CallError.message : CallError → String
  | invalidArgument error => "invalid argument: " ++ error.message
  | methodNotFound contract method => "method " ++ method ++ " not found on " ++ contract
  | notContract address => address.toText ++ " is not a native module"
  | unauthorized => "unauthorized: committee witness required"

/-! ## Blocks that do not fit the chain -/

/-- The message of a broken invariant with its name. -/
def violation (name text : String) : String :=
  "Invariant violation: [INVARIANT:" ++ name ++ "] " ++ text

/-- Why a block may not follow the tip. -/
inductive BlockFault where
  | notFirst (index : UInt32)
  | wrongIndex (tip index : UInt32)
  | wrongParent (index : UInt32) (parent tip : Hash256)
  | wrongMerkleRoot (index : UInt32) (declared actual : Hash256)
  | repeatedTransaction (index : UInt32) (transaction : Hash256)
  | unsignedTransaction (index : UInt32) (transaction : Hash256)
  | primaryOutOfRange (primary : UInt8) (validators : Nat)
deriving DecidableEq

def BlockFault.message : BlockFault → String
  | notFirst index =>
    violation "block_sequence" ("first block must have index 0, got " ++ toString index.toNat)
  | wrongIndex tip index =>
    violation "block_sequence"
      ("expected block " ++ toString (tip.toNat + 1) ++ ", got " ++ toString index.toNat)
  | wrongParent index parent tip =>
    violation "block_linkage"
      ("block " ++ toString index.toNat ++ " references " ++ parent.toText ++ " but the tip is " ++
        tip.toText)
  | wrongMerkleRoot index declared actual =>
    violation "merkle_root"
      ("block " ++ toString index.toNat ++ " declares " ++ declared.toText ++
        " but its transactions hash to " ++ actual.toText)
  | repeatedTransaction index transaction =>
    violation "duplicate_transaction"
      ("block " ++ toString index.toNat ++ " contains " ++ transaction.toText ++ " more than once")
  | unsignedTransaction index transaction =>
    violation "tx_without_signer"
      ("transaction " ++ transaction.toText ++ " in block " ++ toString index.toNat ++
        " has no signers")
  | primaryOutOfRange primary validators =>
    violation "primary_index"
      ("primary index " ++ toString primary.toNat ++ " out of range for " ++ toString validators ++
        " validators")

/-! ## Broken invariants -/

inductive Fault where
  | block (fault : BlockFault)
  | amountOverflow (a b : Nat)
  | amountUnderflow (a b : Nat)
  | thresholdOutOfRange (threshold keys : Nat)
  | validatorsMissing (count members : Nat)
  | noSigners
  | duplicateKey (key : Key)
  | recordMissing (transaction : Hash256)
  | listedMissing (holder transaction : Hash256)
  | committeeMissing
  | burnBeyondBalance (amount : Nat) (account : Hash160) (balance : Nat)
  | transferTooLarge (amount : Nat)
  | noBlock
  | tipOutOfStep (tip index : UInt32)
  | unknownSender (transaction : Hash256) (sender : Hash160)
  | addressTaken (address : Hash160)
  | contractMismatch (name : String) (built : ContractId) (own : Hash160) (given : ContractId)
      (address : Hash160)
  | rebuildsDiffer (first second : String)
deriving DecidableEq

def Fault.message : Fault → String
  | block fault => fault.message
  | amountOverflow a b => "Overflow: " ++ toString a ++ " + " ++ toString b ++ " overflows U256"
  | amountUnderflow a b =>
    violation "amount_underflow" (toString a ++ " - " ++ toString b ++ " underflows")
  | thresholdOutOfRange threshold keys =>
    violation "multisig_threshold"
      ("invalid threshold " ++ toString threshold ++ " for " ++ toString keys ++ " keys")
  | validatorsMissing count members =>
    "range end index " ++ toString count ++ " out of range for slice of length " ++
      toString members
  | noSigners => violation "tx_without_signer" "transaction has no signers"
  | duplicateKey key => violation "duplicate_key" ("key " ++ key.toText ++ " already exists")
  | recordMissing transaction =>
    violation "missing_transaction" ("no record for executed transaction " ++ transaction.toText)
  | listedMissing holder transaction =>
    violation "missing_transaction"
      ("block " ++ holder.toText ++ " lists " ++ transaction.toText ++ " but no record exists")
  | committeeMissing => violation "committee_missing" "committee read before initialization"
  | burnBeyondBalance amount account balance =>
    violation "amount_underflow"
      ("burning " ++ toString amount ++ " from " ++ account.toText ++ " with balance " ++
        toString balance)
  | transferTooLarge amount =>
    violation "amount_range"
      ("transfer amount " ++ toString amount ++ " exceeds the integer range")
  | noBlock =>
    violation "no_persisting_block" "lifecycle hook invoked outside block application"
  | tipOutOfStep tip index =>
    violation "block_sequence"
      ("ledger at " ++ toString tip.toNat ++ " cannot persist block " ++ toString index.toNat)
  | unknownSender transaction sender =>
    violation "pool_accounting"
      ("removing " ++ transaction.toText ++ " for unknown sender " ++ sender.toText)
  | addressTaken address =>
    violation "duplicate_module_address"
      ("module address " ++ address.toText ++ " is already registered")
  | contractMismatch name built own given address =>
    violation "module_identity"
      ("module " ++ name ++ " built with id " ++ toString built.toInt ++ " / " ++ own.toText ++
        " but registered as " ++ toString given.toInt ++ " / " ++ address.toText)
  | rebuildsDiffer first second =>
    "DETERMINISM FAILURE: two replays produced different hashes.\nRun 1: " ++ first ++
      "\nRun 2: " ++ second

/-! ## Failures of an operation -/

/-- Why a chain refuses a block before it applies it. -/
inductive Rejection where
  | invalidBlock (fault : BlockFault)
  | tooManyTransactions (index : UInt32) (count : Nat) (limit : UInt32)
deriving DecidableEq

def Rejection.message : Rejection → String
  | invalidBlock fault => "invalid block: " ++ fault.message
  | tooManyTransactions index count limit =>
    "block " ++ toString index.toNat ++ " carries " ++ toString count ++
      " transactions, limit is " ++ toString limit.toNat

/-- How an operation on the ledger ends without a result. -/
inductive Failure where
  | fault (fault : Fault)
  | storage (error : StorageError)
  | call (error : CallError)
  | rejected (rejection : Rejection)

def Failure.message : Failure → String
  | fault f => f.message
  | storage e => e.message
  | call e => e.message
  | rejected r => r.message

/-- The result of an operation that may fail. -/
abbrev Outcome := Except Failure

def raise {α : Type} (f : Fault) : Outcome α := .error (.fault f)

def refuse {α : Type} (e : ArgumentError) : Outcome α := .error (.call (.invalidArgument e))

def corrupted {α : Type} (key : Key) (source : CodecError) : Outcome α :=
  .error (.storage (.corrupted key source))

end BlockLedger
