-- Public keys as texts: hexadecimal digits, which marks may precede.
import BlockLedger.Address
import BlockLedger.Text.Quoted

namespace BlockLedger

/-- Why a text is no public key. -/
inductive KeyTextError where
  | notHex (text : String) (error : HexError)
  | notKey (text : String)

def HexError.message : HexError → String
  | oddLength => "Odd number of digits"
  | badCharacter byte position =>
    "Invalid character " ++ Text.quotedChar (Char.ofNat byte.toNat) ++ " at position " ++
      toString position

def KeyTextError.message : KeyTextError → String
  | notHex text error => "invalid public key hex " ++ Text.quoted text ++ ": " ++ error.message
  | notKey text => "invalid compressed public key " ++ Text.quoted text

/-- The text without the marks in front of it. -/
def dropMarks : List Char → List Char
  | '0' :: 'x' :: s => dropMarks s
  | s => s

def readPublicKey (text : String) : Except KeyTextError PublicKey :=
  match readHex (utf8 (String.ofList (dropMarks text.toList))) with
  | .error e => .error (.notHex text e)
  | .ok s =>
    match publicKey? s with
    | some key => .ok key
    | none => .error (.notKey text)

/-- The text of a key in a report. -/
def PublicKey.toText (key : PublicKey) : String := "PublicKey(" ++ hex key.bytes ++ ")"

end BlockLedger
