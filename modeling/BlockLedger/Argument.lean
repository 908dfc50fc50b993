-- Reading the arguments of a contract's method. An argument is taken by
-- its place and named in the message when it is missing or of the wrong
-- kind.
import BlockLedger.Amount

namespace BlockLedger

/-- The argument at a place. -/
def argument (args : List StackItem) (place : Nat) (name : String) : Outcome StackItem :=
  match args[place]? with
  | some item => .ok item
  | none => refuse (.missing name)

/-- Exactly `count` arguments were given. -/
def expectCount (args : List StackItem) (count : Nat) : Outcome Unit :=
  if args.length = count then .ok () else refuse (.wrongCount count args.length)

def bytesArgument (args : List StackItem) (place : Nat) (name : String) : Outcome Bytes := do
  match ← argument args place name with
  | .byteString b => return b
  | other => refuse (.notBytes name other)

/-- A byte string of exactly `n` bytes. -/
def hashArgument (n : Nat) (args : List StackItem) (place : Nat) (name : String) :
    Outcome (Fixed n) := do
  match Fixed.ofBytes? n (← bytesArgument args place name) with
  | some h => return h
  | none => refuse (.wrongLength name n)

def integerArgument (args : List StackItem) (place : Nat) (name : String) : Outcome Int := do
  match ← argument args place name with
  | .integer v => return v
  | other => refuse (.notInteger name other)

def amountArgument (args : List StackItem) (place : Nat) (name : String) : Outcome Amount := do
  let value ← integerArgument args place name
  if value < 0 then refuse (.negative name) else return value.toNat

/-! ## References to blocks -/

inductive BlockRef where
  | index (index : UInt32)
  | hash (hash : Hash256)

/-- The index that a byte string denotes, least significant byte first;
the highest bit of the last byte is the sign. -/
def indexOfBytes (s : Bytes) : Outcome UInt32 :=
  if 32 ≤ s.length then refuse .indexTooLong
  else if s.getLast?.any (128 ≤ ·) then refuse .indexNegative
  else if 4 < (trimZeros s).length then refuse .indexTooLarge
  else .ok (leValue s).toUInt32

/-- A reference by index, in fewer than 32 bytes, or by hash. -/
def blockArgument (args : List StackItem) (place : Nat) (name : String) : Outcome BlockRef := do
  let s ← bytesArgument args place name
  if s.length < 32 then
    return .index (← indexOfBytes s)
  else
    match Fixed.ofBytes? 32 s with
    | some h => return .hash h
    | none => refuse (.notBlockReference name)

end BlockLedger
