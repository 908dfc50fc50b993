-- Byte strings: strings of a known length with their byte-wise order,
-- and whole numbers written in bytes. Reading a number's bytes gives
-- back the number, so two numbers of one width never share them.

namespace BlockLedger

-- Powers are those of the core library in every module, whatever it imports.
attribute [default_instance 20000, instance (20000)] instPowNat

/-- A byte string. -/
abbrev Bytes := List UInt8

/-! ## Strings of a known length -/

/-- A byte string of exactly `n` bytes. -/
structure Fixed (n : Nat) where
  bytes : Bytes
  length_eq : bytes.length = n
deriving DecidableEq

namespace Fixed

variable {n : Nat}

theorem ext {a b : Fixed n} (h : a.bytes = b.bytes) : a = b := by
  cases a; cases b; cases h; rfl

/-- The string as one of `n` bytes, if it has that length. -/
def ofBytes? (n : Nat) (s : Bytes) : Option (Fixed n) :=
  if h : s.length = n then some ⟨s, h⟩ else none

theorem ofBytes?_bytes (a : Fixed n) : ofBytes? n a.bytes = some a := by
  simp [ofBytes?, a.length_eq]

theorem ofBytes?_eq_some_iff {s : Bytes} {a : Fixed n} : ofBytes? n s = some a ↔ s = a.bytes := by
  constructor
  · intro h
    unfold ofBytes? at h
    split at h
    · cases h; rfl
    · cases h
  · rintro rfl
    exact ofBytes?_bytes a

/-- The string of `n` zero bytes. -/
def zero (n : Nat) : Fixed n := ⟨List.replicate n 0, List.length_replicate⟩

/-- Strings of one length are ordered byte by byte from the left. -/
instance : Ord (Fixed n) := ⟨compareOn Fixed.bytes⟩

theorem compare_def (a b : Fixed n) : compare a b = compare a.bytes b.bytes := rfl

instance : Std.TransOrd (Fixed n) :=
  inferInstanceAs (Std.TransCmp (compareOn fun a : Fixed n => a.bytes))

instance : Std.LawfulEqOrd (Fixed n) where
  compare_self := Std.ReflCmp.compare_self
  eq_of_compare h := ext (Std.LawfulEqOrd.eq_of_compare (by rwa [compare_def] at h))

end Fixed

/-- The hash of a script: the name of an account or of a built-in contract. -/
abbrev Hash160 := Fixed 20

/-- The hash of a transaction or of a block. -/
abbrev Hash256 := Fixed 32

instance : LawfulBEq Hash160 := inferInstance
instance : LawfulBEq Hash256 := inferInstance
instance : Std.TransOrd Hash256 := inferInstance
instance : Std.LawfulEqOrd Hash256 := inferInstance

/-! ## Numbers in bytes -/

/-- The low `width` bytes of a number, least significant first. -/
def leBytes : (width n : Nat) → Bytes
  | 0, _ => []
  | width + 1, n => n.toUInt8 :: leBytes width (n / 256)

/-- The low `width` bytes of a number, most significant first. -/
def beBytes (width n : Nat) : Bytes := (leBytes width n).reverse

/-- The number whose bytes are given, least significant first. -/
def leValue : Bytes → Nat
  | [] => 0
  | b :: rest => b.toNat + 256 * leValue rest

theorem length_leBytes (width n : Nat) : (leBytes width n).length = width := by
  induction width generalizing n with
  | zero => rfl
  | succ width ih => simp [leBytes, ih]

theorem leValue_leBytes (width n : Nat) : leValue (leBytes width n) = n % 256 ^ width := by
  induction width generalizing n with
  | zero => simp [leBytes, leValue, Nat.mod_one]
  | succ width ih =>
    simp only [leBytes, leValue, ih, Nat.toUInt8, UInt8.toNat_ofNat']
    have h : n % 256 ^ (width + 1) = n % 256 + 256 * (n / 256 % 256 ^ width) := by
      rw [Nat.pow_succ, Nat.mul_comm, Nat.mod_mul]
    rw [h]

theorem leValue_lt (s : Bytes) : leValue s < 256 ^ s.length := by
  induction s with
  | nil => simp [leValue]
  | cons b rest ih =>
    have hb : b.toNat < 256 := b.toNat_lt
    simp only [leValue, List.length_cons, Nat.pow_succ]
    omega

theorem leValue_append (s s' : Bytes) :
    leValue (s ++ s') = leValue s + 256 ^ s.length * leValue s' := by
  induction s with
  | nil => simp [leValue]
  | cons b rest ih =>
    rw [List.cons_append, leValue, leValue, ih, List.length_cons, Nat.pow_succ, Nat.mul_add,
      Nat.mul_comm (256 ^ rest.length) 256, Nat.mul_assoc, Nat.add_assoc]

/-- A string is the bytes of its number. -/
theorem leBytes_leValue (s : Bytes) : leBytes s.length (leValue s) = s := by
  induction s with
  | nil => rfl
  | cons b rest ih =>
    have hb : b.toNat < 256 := b.toNat_lt
    have hdiv : (b.toNat + 256 * leValue rest) / 256 = leValue rest := by omega
    have hmod : (b.toNat + 256 * leValue rest).toUInt8 = b := by
      apply UInt8.toNat_inj.1
      simp only [Nat.toUInt8, UInt8.toNat_ofNat']
      omega
    rw [leValue, List.length_cons, leBytes, hdiv, hmod, ih]

/-- A string without the zero bytes at its end. -/
def trimZeros : Bytes → Bytes
  | [] => []
  | b :: rest =>
    match trimZeros rest with
    | [] => if b = 0 then [] else [b]
    | c :: more => b :: c :: more

theorem leValue_trimZeros (s : Bytes) : leValue (trimZeros s) = leValue s := by
  induction s with
  | nil => rfl
  | cons b rest ih =>
    rw [trimZeros]
    split
    · rename_i h
      rw [h] at ih
      split <;> simp_all [leValue, ← ih]
    · rename_i h
      rw [h] at ih
      simp only [leValue] at ih ⊢
      rw [ih]

theorem length_trimZeros_le (s : Bytes) : (trimZeros s).length ≤ s.length := by
  induction s with
  | nil => simp [trimZeros]
  | cons b rest ih =>
    rw [trimZeros]
    split
    · split <;> simp
    · rename_i h
      rw [h] at ih
      simpa using ih

/-! ## Hexadecimal text -/

/-- The digit of a value below sixteen. -/
def hexDigit (n : Nat) : Char :=
  Char.ofNat (if n < 10 then 48 + n else 87 + n)

/-- Two lowercase digits for each byte. -/
def hexChars : Bytes → List Char
  | [] => []
  | b :: rest => hexDigit (b.toNat / 16) :: hexDigit (b.toNat % 16) :: hexChars rest

/-- The hexadecimal text of a byte string. -/
def hex (s : Bytes) : String := String.ofList (hexChars s)

theorem hexDigit_inj {m n : Nat} (hm : m < 16) (hn : n < 16) (h : hexDigit m = hexDigit n) :
    m = n := by
  have hall : ∀ m < 16, ∀ n < 16, hexDigit m = hexDigit n → m = n := by decide
  exact hall m hm n hn h

theorem hexChars_inj {s s' : Bytes} (h : hexChars s = hexChars s') : s = s' := by
  induction s generalizing s' with
  | nil =>
    cases s' with
    | nil => rfl
    | cons b' rest' => cases h
  | cons b rest ih =>
    cases s' with
    | nil => cases h
    | cons b' rest' =>
      simp only [hexChars, List.cons.injEq] at h
      obtain ⟨hhigh, hlow, hrest⟩ := h
      have hb : b.toNat < 256 := b.toNat_lt
      have hb' : b'.toNat < 256 := b'.toNat_lt
      have hdiv := hexDigit_inj (by omega) (by omega) hhigh
      have hmod := hexDigit_inj (by omega) (by omega) hlow
      have hbyte : b = b' := UInt8.toNat_inj.1 (by omega)
      rw [hbyte, ih hrest]

/-- Byte strings that are shown alike are equal. -/
theorem hex_inj {s s' : Bytes} : hex s = hex s' ↔ s = s' := by
  refine ⟨fun h => hexChars_inj ?_, fun h => h ▸ rfl⟩
  have hlists := congrArg String.toList h
  rwa [hex, hex, String.toList_ofList, String.toList_ofList] at hlists

/-- A hash is shown in hexadecimal after a mark. -/
def Fixed.toText {n : Nat} (h : Fixed n) : String := "0x" ++ hex h.bytes

/-- The value of a digit of either case. -/
def hexValue? (c : UInt8) : Option Nat :=
  let n := c.toNat
  if 48 ≤ n ∧ n ≤ 57 then some (n - 48)
  else if 65 ≤ n ∧ n ≤ 70 then some (n - 55)
  else if 97 ≤ n ∧ n ≤ 102 then some (n - 87)
  else none

/-- Why a text is no hexadecimal text. -/
inductive HexError where
  | oddLength
  | badCharacter (byte : UInt8) (position : Nat)

/-- Reads pairs of digits; `position` counts the bytes before the text. -/
def readHexFrom (position : Nat) : Bytes → Except HexError Bytes
  | [] => .ok []
  | [_] => .error .oddLength
  | a :: b :: rest =>
    match hexValue? a, hexValue? b with
    | none, _ => .error (.badCharacter a position)
    | some _, none => .error (.badCharacter b (position + 1))
    | some x, some y => (readHexFrom (position + 2) rest).map ((16 * x + y).toUInt8 :: ·)

/-- The byte string that a hexadecimal text in UTF-8 spells; an odd
length is reported before any wrong character. -/
def readHex (text : Bytes) : Except HexError Bytes :=
  if text.length % 2 = 1 then .error .oddLength else readHexFrom 0 text

end BlockLedger
