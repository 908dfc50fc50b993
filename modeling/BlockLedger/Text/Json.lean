-- JSON texts. A number is kept as it is written, as far as it is a whole
-- number, and a string is kept if its escapes make up a text. Nothing
-- may stand before or after the value but blanks.

namespace BlockLedger.Text

inductive Json where
  | null
  | boolean (value : Bool)
  /-- A number without sign, fraction and exponent. -/
  | whole (value : Nat)
  /-- Every other number. -/
  | otherNumber
  /-- A string; none if it holds half of a surrogate pair. -/
  | string (value : Option String)
  | array (items : List Json)
  | object (members : List (Option String × Json))

namespace Json

/-! ## Blanks and numbers -/

def isBlank (c : Char) : Bool := c = ' ' || c = '\n' || c = '\t' || c = '\r'

def skipBlanks (s : List Char) : List Char := s.dropWhile isBlank

def isDigit (c : Char) : Bool := '0' ≤ c && c ≤ '9'

/-- The number that decimal digits spell. -/
def decimal (digits : List Char) : Nat :=
  digits.foldl (fun n c => 10 * n + (c.toNat - 48)) 0

/-- At least one digit. -/
def digits? (s : List Char) : Option (List Char × List Char) :=
  match s.takeWhile isDigit with
  | [] => none
  | ds => some (ds, s.dropWhile isDigit)

/-- A dot and digits, if there is a dot; tells whether there was one. -/
def fraction? : List Char → Option (Bool × List Char)
  | '.' :: s => (digits? s).map fun (_, s) => (true, s)
  | s => some (false, s)

/-- An exponent, if there is one; tells whether there was one. -/
def exponent? : List Char → Option (Bool × List Char)
  | c :: s =>
    if c = 'e' ∨ c = 'E' then
      let s := match s with
        | '+' :: s => s
        | '-' :: s => s
        | s => s
      (digits? s).map fun (_, s) => (true, s)
    else some (false, c :: s)
  | [] => some (false, [])

/-- A number without its sign; a zero in front stands alone. -/
def number? (s : List Char) : Option (Json × List Char) := do
  let (ds, s) ← digits? s
  match ds with
  | '0' :: _ :: _ => none
  | ds =>
    let (hasFraction, s) ← fraction? s
    let (hasExponent, s) ← exponent? s
    return (if hasFraction || hasExponent then otherNumber else whole (decimal ds), s)

/-! ## Strings -/

def hexDigit? (c : Char) : Option Nat :=
  if '0' ≤ c ∧ c ≤ '9' then some (c.toNat - 48)
  else if 'a' ≤ c ∧ c ≤ 'f' then some (c.toNat - 87)
  else if 'A' ≤ c ∧ c ≤ 'F' then some (c.toNat - 55)
  else none

/-- Four digits of an escaped code unit. -/
def unit? : List Char → Option (Nat × List Char)
  | a :: b :: c :: d :: s => do
    let a ← hexDigit? a
    let b ← hexDigit? b
    let c ← hexDigit? c
    let d ← hexDigit? d
    return (4096 * a + 256 * b + 16 * c + d, s)
  | _ => none

/-- One piece of a string: a character or an escaped code unit. -/
inductive Piece where
  | char (c : Char)
  | unit (n : Nat)

/-- The character of a short escape. -/
def escape? : Char → Option Char
  | '"' => some '"'
  | '\\' => some '\\'
  | '/' => some '/'
  | 'b' => some '\x08'
  | 'f' => some '\x0c'
  | 'n' => some '\n'
  | 'r' => some '\r'
  | 't' => some '\t'
  | _ => none

/-- The pieces up to the closing quote; at most `left` of them. -/
def pieces? : (left : Nat) → List Char → Option (List Piece × List Char)
  | 0, _ => none
  | _, [] => none
  | left + 1, c :: s =>
    if c = '"' then some ([], s)
    else if c.toNat < 32 then none
    else if c = '\\' then
      match s with
      | 'u' :: s => do
        let (n, s) ← unit? s
        let (ps, s) ← pieces? left s
        return (.unit n :: ps, s)
      | c :: s => do
        let c ← escape? c
        let (ps, s) ← pieces? left s
        return (.char c :: ps, s)
      | [] => none
    else do
      let (ps, s) ← pieces? left s
      return (.char c :: ps, s)

/-- The characters of the pieces; a high surrogate needs a low one right
behind it, and a low one a high one before it. -/
def join? : List Piece → Option (List Char)
  | [] => some []
  | .char c :: ps => (join? ps).map (c :: ·)
  | .unit n :: ps =>
    if n < 0xd800 ∨ 0xdfff < n then (join? ps).map (Char.ofNat n :: ·)
    else if 0xdc00 ≤ n then none
    else
      match ps with
      | .unit m :: ps =>
        if 0xdc00 ≤ m ∧ m ≤ 0xdfff then
          (join? ps).map (Char.ofNat (0x10000 + 1024 * (n - 0xd800) + (m - 0xdc00)) :: ·)
        else none
      | _ => none

/-- The rest of a string after its opening quote. -/
def string? (s : List Char) : Option (Option String × List Char) :=
  (pieces? (s.length + 1) s).map fun (ps, s) => ((join? ps).map String.ofList, s)

/-! ## Values -/

mutual

/-- Reads a value; `left` bounds the steps. -/
def value? : (left : Nat) → List Char → Option (Json × List Char)
  | 0, _ => none
  | left + 1, s =>
    match skipBlanks s with
    | 'n' :: 'u' :: 'l' :: 'l' :: s => some (null, s)
    | 't' :: 'r' :: 'u' :: 'e' :: s => some (boolean true, s)
    | 'f' :: 'a' :: 'l' :: 's' :: 'e' :: s => some (boolean false, s)
    | '"' :: s => (string? s).map fun (v, s) => (string v, s)
    | '-' :: s => (number? s).map fun (_, s) => (otherNumber, s)
    | '[' :: s =>
      match skipBlanks s with
      | ']' :: s => some (array [], s)
      | s => (items? left s).map fun (items, s) => (array items, s)
    | '{' :: s =>
      match skipBlanks s with
      | '}' :: s => some (object [], s)
      | s => (members? left s).map fun (members, s) => (object members, s)
    | s => number? s

/-- Reads the items of an array up to its closing bracket. -/
def items? : (left : Nat) → List Char → Option (List Json × List Char)
  | 0, _ => none
  | left + 1, s => do
    let (item, s) ← value? left s
    match skipBlanks s with
    | ']' :: s => return ([item], s)
    | ',' :: s =>
      let (items, s) ← items? left s
      return (item :: items, s)
    | _ => none

/-- Reads the members of an object up to its closing brace. -/
def members? : (left : Nat) → List Char → Option (List (Option String × Json) × List Char)
  | 0, _ => none
  | left + 1, s => do
    match skipBlanks s with
    | '"' :: s =>
      let (name, s) ← string? s
      match skipBlanks s with
      | ':' :: s =>
        let (value, s) ← value? left s
        match skipBlanks s with
        | '}' :: s => return ([(name, value)], s)
        | ',' :: s =>
          let (members, s) ← members? left s
          return ((name, value) :: members, s)
        | _ => none
      | _ => none
    | _ => none

end

/-- The value that a whole text spells. -/
def read? (text : String) : Option Json :=
  let s := text.toList
  match value? (2 * s.length + 2) s with
  | some (v, rest) => if (skipBlanks rest).isEmpty then some v else none
  | none => none

/-! ## Typed readings -/

/-- A whole number up to a limit. -/
def number (limit : Nat) : Json → Option Nat
  | whole n => if n ≤ limit then some n else none
  | _ => none

def text : Json → Option String
  | string v => v
  | _ => none

def texts : Json → Option (List String)
  | array items => items.mapM text
  | _ => none

/-- The bytes of a list of exactly `n` numbers below 256. -/
def byteList (n : Nat) : Json → Option (List UInt8)
  | array items => do
    let values ← items.mapM (number 255)
    if values.length = n then return values.map Nat.toUInt8 else none
  | _ => none

/-! ## Writing -/

/-- A character inside a quoted string. -/
def escaped (c : Char) : List Char :=
  if c = '"' then ['\\', '"']
  else if c = '\\' then ['\\', '\\']
  else if c = '\n' then ['\\', 'n']
  else if c = '\r' then ['\\', 'r']
  else if c = '\t' then ['\\', 't']
  else if c = '\x08' then ['\\', 'b']
  else if c = '\x0c' then ['\\', 'f']
  else if c.toNat < 32 then
    ['\\', 'u', '0', '0', Nat.digitChar (c.toNat / 16), Nat.digitChar (c.toNat % 16)]
  else [c]

/-- A text as a JSON string. -/
def quoted (s : String) : String := "\"" ++ String.ofList (s.toList.flatMap escaped) ++ "\""

end Json
end BlockLedger.Text
