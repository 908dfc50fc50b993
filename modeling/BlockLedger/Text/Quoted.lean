-- Texts in messages. A text from outside is quoted, and the characters
-- that would break the line or the quotes are written as escapes.
import BlockLedger.Text.Shown

namespace BlockLedger.Text

/-- The hexadecimal digits of a number, without zeros in front. -/
def hexDigits (n : Nat) : List Char := Nat.toDigits 16 n

/-- A character by its number. -/
def byNumber (c : Char) : List Char := '\\' :: 'u' :: '{' :: hexDigits c.toNat ++ ['}']

/-- A character between quotes of the kind `quote`. -/
def escaped (quote c : Char) : List Char :=
  if c = '\x00' then ['\\', '0']
  else if c = '\t' then ['\\', 't']
  else if c = '\r' then ['\\', 'r']
  else if c = '\n' then ['\\', 'n']
  else if c = '\\' ∨ c = quote then ['\\', c]
  else if isShown c then [c]
  else byNumber c

/-- A text in double quotes. -/
def quoted (s : String) : String :=
  "\"" ++ String.ofList (s.toList.flatMap (escaped '"')) ++ "\""

/-- A character in single quotes. -/
def quotedChar (c : Char) : String := "'" ++ String.ofList (escaped '\'' c) ++ "'"

end BlockLedger.Text
