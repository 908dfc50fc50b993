-- The wire format of every stored value: a value is a sequence of
-- numbered fields, each a whole number or a byte string. A reader skips
-- the fields that it does not know, among them nested groups of fields.
import BlockLedger.Bytes

namespace BlockLedger.Wire

/-! ## Numbers in groups of seven bits -/

/-- A number in at most `left` groups of seven bits, least significant
first; every byte but the last has its high bit set. -/
def varintIn : (left n : Nat) → Bytes
  | 0, _ => []
  | left + 1, n =>
    if n < 128 then [n.toUInt8] else (n % 128 + 128).toUInt8 :: varintIn left (n / 128)

/-- A number below 2^64 in at most ten bytes. -/
def varint (n : Nat) : Bytes := varintIn 10 n

/-- Reads a number of at most `left` bytes; of the last of them only the
lowest bit may be set. -/
def readVarintIn : (left : Nat) → Bytes → Option (Nat × Bytes)
  | 0, _ => none
  | _, [] => none
  | left + 1, b :: rest =>
    if b < 128 then
      if left = 0 ∧ 1 < b then none else some (b.toNat, rest)
    else
      (readVarintIn left rest).map fun (n, rest) => (b.toNat - 128 + 128 * n, rest)

/-- Reads a number below 2^64; it may be written with more bytes than it
needs, but with no more than ten. -/
def readVarint (s : Bytes) : Option (Nat × Bytes) := readVarintIn 10 s

/-! ## Fields -/

/-- What a field carries. Words of four or eight bytes and groups are
skipped: no value here is made of them. -/
inductive Payload where
  | number (value : UInt64)
  | bytes (content : Bytes)
  | skipped
deriving DecidableEq

structure Field where
  number : Nat
  payload : Payload
deriving DecidableEq

/-- How the content of a field is delimited. -/
inductive Form where
  | number
  | eightBytes
  | counted
  | groupStart
  | groupEnd
  | fourBytes

/-- The forms in the order of their codes. -/
def Form.ofCode? : Nat → Option Form
  | 0 => some .number
  | 1 => some .eightBytes
  | 2 => some .counted
  | 3 => some .groupStart
  | 4 => some .groupEnd
  | 5 => some .fourBytes
  | _ => none

/-- Reads the head of a field: its number, which is not zero, and its form. -/
def readHead (s : Bytes) : Option (Nat × Form × Bytes) :=
  match readVarint s with
  | none => none
  | some (head, rest) =>
    if 2 ^ 32 ≤ head ∨ head < 8 then none
    else (Form.ofCode? (head % 8)).map fun form => (head / 8, form, rest)

/-- Cuts off `n` bytes, if there are that many. -/
def cut (n : Nat) (s : Bytes) : Option (Bytes × Bytes) :=
  if n ≤ s.length then some (s.take n, s.drop n) else none

/-- Reads a count and that many bytes. -/
def readCounted (s : Bytes) : Option (Bytes × Bytes) :=
  match readVarint s with
  | none => none
  | some (n, rest) => cut n rest

/-- The bytes after the content of a field that is no group. -/
def skipContent : Form → Bytes → Option Bytes
  | .number, s => (readVarint s).map (·.2)
  | .eightBytes, s => (cut 8 s).map (·.2)
  | .counted, s => (readCounted s).map (·.2)
  | .fourBytes, s => (cut 4 s).map (·.2)
  | .groupStart, _ => none
  | .groupEnd, _ => none

/-- Skips to the end of the outermost of the open groups, whose numbers
are given from the inside out. A field may have at most `room - 1` groups
around it, and at most `left` heads are read. -/
def skipGroups (room : Nat) : (left : Nat) → (opened : List Nat) → Bytes → Option Bytes
  | _, [], s => some s
  | 0, _ :: _, _ => none
  | left + 1, number :: outer, s =>
    match readHead s with
    | none => none
    | some (n, .groupEnd, rest) => if n = number then skipGroups room left outer rest else none
    | some (n, form, rest) =>
      if room ≤ outer.length + 1 then none
      else
        match form with
        | .groupStart => skipGroups room left (n :: number :: outer) rest
        | form =>
          match skipContent form rest with
          | none => none
          | some rest => skipGroups room left (number :: outer) rest

/-- Reads one field; a group may nest at most `room` deep. -/
def readField (room : Nat) (s : Bytes) : Option (Field × Bytes) :=
  match readHead s with
  | none => none
  | some (n, .number, rest) =>
    (readVarint rest).map fun (v, rest) => (⟨n, .number v.toUInt64⟩, rest)
  | some (n, .counted, rest) => (readCounted rest).map fun (b, rest) => (⟨n, .bytes b⟩, rest)
  | some (n, .groupStart, rest) =>
    (skipGroups room rest.length [n] rest).map fun rest => (⟨n, .skipped⟩, rest)
  | some (n, form, rest) => (skipContent form rest).map fun rest => (⟨n, .skipped⟩, rest)

/-- Reads at most `left` fields up to the end of the string. -/
def readFieldsIn (room : Nat) : (left : Nat) → Bytes → Option (List Field)
  | _, [] => some []
  | 0, _ :: _ => none
  | left + 1, b :: s =>
    match readField room (b :: s) with
    | none => none
    | some (field, rest) => (readFieldsIn room left rest).map (field :: ·)

/-- Reads a string as a sequence of fields. Every field has at least one
byte, so the length of the string bounds their number. -/
def readFields (room : Nat) (s : Bytes) : Option (List Field) := readFieldsIn room s.length s

/-! ## Writing -/

/-- A field as bytes; skipped content is never written. -/
def Field.write : Field → Bytes
  | ⟨n, .number v⟩ => varint (8 * n) ++ varint v.toNat
  | ⟨n, .bytes b⟩ => varint (8 * n + 2) ++ varint b.length ++ b
  | ⟨_, .skipped⟩ => []

def write (fields : List Field) : Bytes := fields.flatMap Field.write

/-- A number is left out when it is zero. -/
def numberField (n : Nat) (value : UInt64) : List Field :=
  if value = 0 then [] else [⟨n, .number value⟩]

/-- A byte string is left out when it is empty. -/
def bytesField (n : Nat) (content : Bytes) : List Field :=
  if content = [] then [] else [⟨n, .bytes content⟩]

/-- A byte string of a list, or a nested value, is always written. -/
def listedField (n : Nat) (content : Bytes) : Field := ⟨n, .bytes content⟩

end BlockLedger.Wire
