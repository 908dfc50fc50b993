-- Reading a value from its fields. A field that is not repeated counts
-- as it stands last; a nested value that stands twice takes the fields
-- of both.
import BlockLedger.Wire.Field

namespace BlockLedger.Wire

/-- A value that is read field by field. -/
class Message (α : Type) where
  /-- The value without any field. -/
  empty : α
  /-- The value with one more field, unless the field has the wrong form.
  Groups in nested values may nest at most `room` deep. -/
  add : (room : Nat) → α → Field → Option α

variable {α : Type} [Message α]

/-- Adds the fields of a string to a value. -/
def readInto (room : Nat) (value : α) (s : Bytes) : Option α :=
  match readFields room s with
  | none => none
  | some fields => fields.foldlM (Message.add room) value

/-- Reads a value; groups may nest at most 100 deep. -/
def read? (s : Bytes) : Option α := readInto 100 Message.empty s

/-- Reads a value that is nested in another one. -/
def readNested (room : Nat) (value : α) (s : Bytes) : Option α := readInto (room - 1) value s

/-- A field that no value has is left out if its number is not `known`. -/
def ignore (known : Nat) (value : α) (field : Field) : Option α :=
  if field.number ≤ known then none else some value

end BlockLedger.Wire
