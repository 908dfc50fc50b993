-- The values that scripts and built-in contracts exchange, and how a value
-- is shown in an error message.
import BlockLedger.Bytes

namespace BlockLedger

/-- An argument or a result of a contract's method. -/
inductive StackItem where
  | null
  | boolean (value : Bool)
  | integer (value : Int)
  | byteString (value : Bytes)
  | array (items : List StackItem)
  deriving Inhabited

namespace StackItem

/-- Texts in brackets, with commas between them. -/
def bracketed (texts : List String) : String := "[" ++ ", ".intercalate texts ++ "]"

mutual

/-- The text of a value in an error message. -/
def toText : StackItem → String
  | null => "Null"
  | boolean true => "Boolean(true)"
  | boolean false => "Boolean(false)"
  | integer value => "Integer(" ++ toString value ++ ")"
  | byteString value => "ByteString(" ++ bracketed (value.map fun b => toString b.toNat) ++ ")"
  | array items => "Array(" ++ bracketed (toTexts items) ++ ")"

def toTexts : List StackItem → List String
  | [] => []
  | item :: rest => toText item :: toTexts rest

end

/-- A hash as a byte string. -/
def ofHash {n : Nat} (h : Fixed n) : StackItem := byteString h.bytes

/-- The largest integer that a script can hold. -/
def maxInteger : Nat := 2 ^ 127 - 1

end StackItem
end BlockLedger
