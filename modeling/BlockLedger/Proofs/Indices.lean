-- Which blocks an argument can name. An index is written in fewer than 32
-- bytes as a whole number with a sign, in as many bytes as one likes, and a
-- hash in 32 bytes. The sign is looked for before the zero bytes at the end
-- are left out, and the range after that.
import BlockLedger.Argument
import BlockLedger.Proofs.ReadBack

namespace BlockLedger

/-! ## Whole numbers in bytes -/

/-- The whole number that a byte string denotes, least significant byte first,
in two's complement: the upper half of the numbers with so many bytes stands for
negative ones. The empty string denotes zero. -/
def signedValue (s : Bytes) : Int :=
  if 2 * leValue s < 256 ^ s.length then leValue s else (leValue s : Int) - (256 ^ s.length : Nat)

/-- The highest bit is set exactly in the upper half. -/
theorem getLast?_high_iff (s : Bytes) :
    s.getLast?.any (128 ≤ ·) = true ↔ 256 ^ s.length ≤ 2 * leValue s := by
  induction s with
  | nil => simp [leValue]
  | cons b rest ih =>
    have hb : b.toNat < 256 := b.toNat_lt
    cases rest with
    | nil =>
      simp [leValue, UInt8.le_iff_toNat_le]
      omega
    | cons c more =>
      -- The lowest byte cannot make up for the half of an even number.
      rw [List.getLast?_cons_cons, ih]
      simp only [leValue, List.length_cons, Nat.pow_succ]
      omega

theorem signedValue_neg_iff (s : Bytes) :
    signedValue s < 0 ↔ s.getLast?.any (128 ≤ ·) = true := by
  have hlt := leValue_lt s
  rw [getLast?_high_iff]
  unfold signedValue
  by_cases h : 2 * leValue s < 256 ^ s.length
  · rw [if_pos h]
    omega
  · rw [if_neg h]
    omega

/-- A number that is not negative is that of its bytes without a sign. -/
theorem signedValue_eq {s : Bytes} (h : ¬ signedValue s < 0) : signedValue s = leValue s := by
  have hlt := leValue_lt s
  unfold signedValue at h ⊢
  by_cases hhalf : 2 * leValue s < 256 ^ s.length
  · rw [if_pos hhalf]
  · rw [if_neg hhalf] at h
    omega

/-- The number is that of the bits, in the two's complement of so many. -/
theorem signedValue_eq_toInt (s : Bytes) :
    signedValue s = (BitVec.ofNat (8 * s.length) (leValue s)).toInt := by
  have hpow : 2 ^ (8 * s.length) = 256 ^ s.length := Nat.pow_mul 2 8 s.length
  unfold signedValue
  rw [BitVec.toInt_eq_toNat_cond, BitVec.toNat_ofNat, hpow, Nat.mod_eq_of_lt (leValue_lt s)]

/-- The byte that the sign of a number fills. -/
def signByte (s : Bytes) : UInt8 := if signedValue s < 0 then 255 else 0

/-- A string with more bytes for the sign than it needs. -/
def signExtended (k : Nat) (s : Bytes) : Bytes := s ++ List.replicate k (signByte s)

theorem signedValue_append_signByte (s : Bytes) :
    signedValue (s ++ [signByte s]) = signedValue s := by
  have hvalue : leValue (s ++ [signByte s]) = leValue s + 256 ^ s.length * (signByte s).toNat := by
    simp [leValue_append, leValue]
  have hlt := leValue_lt s
  unfold signedValue
  rw [hvalue, List.length_append, List.length_singleton, Nat.pow_succ]
  by_cases hneg : signedValue s < 0
  · have hbyte : (signByte s).toNat = 255 := by simp [signByte, hneg]
    have hhalf := (getLast?_high_iff s).1 ((signedValue_neg_iff s).1 hneg)
    rw [hbyte, if_neg (by omega), if_neg (by omega)]
    omega
  · have hbyte : (signByte s).toNat = 0 := by simp [signByte, hneg]
    have hhalf : ¬ 256 ^ s.length ≤ 2 * leValue s := by
      rwa [← getLast?_high_iff, ← signedValue_neg_iff]
    rw [hbyte, if_pos (by omega), if_pos (by omega)]
    omega

/-- More bytes for the sign leave the number as it is. -/
theorem signedValue_signExtended (k : Nat) (s : Bytes) :
    signedValue (signExtended k s) = signedValue s := by
  induction k with
  | zero => simp [signExtended]
  | succ k ih =>
    -- One byte more extends the sign of what was extended before.
    have hbyte : signByte (signExtended k s) = signByte s := by
      unfold signByte
      rw [ih]
    have hnext : signExtended (k + 1) s = signExtended k s ++ [signByte (signExtended k s)] := by
      rw [hbyte]
      simp [signExtended, List.replicate_succ']
    rw [hnext, signedValue_append_signByte, ih]

/-- The bytes that are left without the zeros at the end are as many as the
number needs. -/
theorem length_trimZeros_le_iff (s : Bytes) (k : Nat) :
    (trimZeros s).length ≤ k ↔ leValue s < 256 ^ k := by
  induction s generalizing k with
  | nil => exact iff_of_true (Nat.zero_le k) (Nat.pow_pos (by decide))
  | cons b rest ih =>
    have hb : b.toNat < 256 := b.toNat_lt
    cases k with
    | zero =>
      rw [trimZeros, leValue]
      split
      · rename_i hnil
        have hrest : leValue rest = 0 := by simpa [hnil] using ih 0
        by_cases hz : b = 0
        · simp [hz, hrest]
        · have hpos : b.toNat ≠ 0 := fun h => hz (UInt8.toNat_inj.1 h)
          simp [hz]
          omega
      · rename_i hcons
        have hrest : leValue rest ≠ 0 := by simpa [hcons] using ih 0
        simp
        omega
    | succ k =>
      have hlength : (trimZeros (b :: rest)).length ≤ k + 1 ↔ (trimZeros rest).length ≤ k := by
        rw [trimZeros]
        split
        · split <;> simp_all
        · simp_all
      rw [hlength, ih k, leValue, Nat.pow_succ]
      omega

/-- The index that a short byte string denotes is its number, and strings of
other numbers are refused. -/
theorem indexOfBytes_eq {s : Bytes} (h : s.length < 32) : indexOfBytes s =
    if signedValue s < 0 then refuse .indexNegative
    else if signedValue s < 2 ^ 32 then .ok (signedValue s).toNat.toUInt32
    else refuse .indexTooLarge := by
  have hsign := signedValue_neg_iff s
  have hsize := length_trimZeros_le_iff s 4
  unfold indexOfBytes
  rw [if_neg (Nat.not_le.2 h)]
  by_cases hneg : signedValue s < 0
  · rw [if_pos (hsign.1 hneg), if_pos hneg]
  · rw [if_neg (fun hbit => hneg (hsign.2 hbit)), if_neg hneg, signedValue_eq hneg]
    by_cases hlarge : 4 < (trimZeros s).length
    · rw [if_pos hlarge, if_neg (by omega)]
    · rw [if_neg hlarge, if_pos (by omega), Int.toNat_natCast]

/-- An index is accepted exactly if it is the number of the string. -/
theorem indexOfBytes_eq_ok_iff {s : Bytes} (h : s.length < 32) (index : UInt32) :
    indexOfBytes s = .ok index ↔ signedValue s = index.toNat := by
  have hindex := index.toNat_lt
  rw [indexOfBytes_eq h]
  by_cases hneg : signedValue s < 0
  · rw [if_pos hneg]
    exact iff_of_false nofun (by omega)
  · by_cases hsmall : signedValue s < 2 ^ 32
    · rw [if_neg hneg, if_pos hsmall, Except.ok.injEq, ← UInt32.toNat_inj, Nat.toUInt32,
        UInt32.toNat_ofNat']
      omega
    · rw [if_neg hneg, if_neg hsmall]
      exact iff_of_false nofun (by omega)

/-- Every index can be written: a zero byte behind it keeps it positive. -/
theorem indexOfBytes_leBytes (index : UInt32) :
    indexOfBytes (leBytes 5 index.toNat) = .ok index := by
  have hlength := length_leBytes 5 index.toNat
  have hindex := index.toNat_lt
  have hvalue : leValue (leBytes 5 index.toNat) = index.toNat := by
    rw [leValue_leBytes]
    omega
  rw [indexOfBytes_eq_ok_iff (by omega), signedValue, hlength, hvalue, if_pos (by omega)]

/-- A short string is taken as an index exactly if its number is one of 32 bits
without a sign, and then as that number. The others are refused as what they are.
The number is that of two's complement: no byte at all stands for zero, and it
does not matter how often the sign is repeated. Every index can be written. -/
theorem an_index_is_the_number_of_its_bytes :
    (∀ s : Bytes, signedValue s = (BitVec.ofNat (8 * s.length) (leValue s)).toInt) ∧
      signedValue [] = 0 ∧ (∀ k s, signedValue (signExtended k s) = signedValue s) ∧
      (∀ s : Bytes, s.length < 32 →
        (∀ index : UInt32, indexOfBytes s = .ok index ↔
          0 ≤ signedValue s ∧ signedValue s ≤ 2 ^ 32 - 1 ∧ index.toNat = signedValue s) ∧
        (signedValue s < 0 → indexOfBytes s = refuse .indexNegative) ∧
        (2 ^ 32 - 1 < signedValue s → indexOfBytes s = refuse .indexTooLarge)) ∧
      ∀ index : UInt32, ∃ s : Bytes, s.length < 32 ∧ indexOfBytes s = .ok index := by
  refine ⟨signedValue_eq_toInt, rfl, signedValue_signExtended, fun s hshort => ?_, fun index => ?_⟩
  · refine ⟨fun index => ?_, fun hneg => ?_, fun hlarge => ?_⟩
    · have hindex := index.toNat_lt
      rw [indexOfBytes_eq_ok_iff hshort]
      omega
    · rw [indexOfBytes_eq hshort, if_pos hneg]
    · rw [indexOfBytes_eq hshort, if_neg (by omega), if_neg (by omega)]
  · refine ⟨leBytes 5 index.toNat, ?_, indexOfBytes_leBytes index⟩
    rw [length_leBytes]
    decide

/-- The highest bit of the fourth byte makes a negative number, unless zeros
follow that show another sign. -/
theorem sample_index : ([0, 0, 0, 128, 0, 0] : Bytes).length < 32 ∧
    indexOfBytes [0, 0, 0, 128, 0, 0] = .ok 2147483648 ∧
    indexOfBytes [0, 0, 0, 128] = refuse .indexNegative ∧
    indexOfBytes [0, 0, 0, 128, 255, 255] = refuse .indexNegative ∧
    indexOfBytes [0, 0, 0, 0, 1] = refuse .indexTooLarge := by
  obtain ⟨-, -, -, hread, -⟩ := an_index_is_the_number_of_its_bytes
  refine ⟨by decide, ((hread _ (by decide)).1 _).2 (by decide), ?_, ?_, ?_⟩
  · exact (hread _ (by decide)).2.1 (by decide)
  · exact (hread _ (by decide)).2.1 (by decide)
  · exact (hread _ (by decide)).2.2 (by decide)

/-! ## References to blocks -/

/-- What a byte string names a block by. -/
inductive Names : Bytes → BlockRef → Prop where
  | index {s : Bytes} {index : UInt32} : s.length < 32 → signedValue s = index.toNat →
    Names s (.index index)
  | hash (hash : Hash256) : Names hash.bytes (.hash hash)

theorem bytesArgument_eq_ok {args : List StackItem} {place : Nat} {s : Bytes}
    (h : args[place]? = some (.byteString s)) (name : String) :
    bytesArgument args place name = .ok s := by
  unfold bytesArgument argument
  rw [h]
  rfl

/-- An argument is accepted exactly if it names something, and taken as what it
names. -/
theorem blockArgument_eq_ok_iff {args : List StackItem} {place : Nat} {s : Bytes}
    (h : args[place]? = some (.byteString s)) (name : String) (ref : BlockRef) :
    blockArgument args place name = .ok ref ↔ Names s ref := by
  unfold blockArgument
  rw [bytesArgument_eq_ok h, ok_bind]
  constructor
  · intro hok
    split at hok
    · rename_i hshort
      obtain ⟨index, hindex, hok⟩ := ok_of_bind hok
      cases hok
      exact .index hshort ((indexOfBytes_eq_ok_iff hshort index).1 hindex)
    · split at hok
      · rename_i hash hfixed
        cases hok
        rw [Fixed.ofBytes?_eq_some_iff.1 hfixed]
        exact .hash hash
      · cases hok
  · intro hnames
    cases hnames with
    | index hshort hvalue =>
      rw [if_pos hshort, (indexOfBytes_eq_ok_iff hshort _).2 hvalue]
      rfl
    | hash hash =>
      rw [if_neg (by rw [hash.length_eq]; decide), Fixed.ofBytes?_bytes]
      rfl

theorem blockArgument_of_unnamed {args : List StackItem} {place : Nat} {s : Bytes}
    (h : args[place]? = some (.byteString s)) (name : String) (hnone : ∀ ref, ¬ Names s ref) :
    ∃ e, blockArgument args place name = refuse e := by
  unfold blockArgument
  rw [bytesArgument_eq_ok h, ok_bind]
  split
  · rename_i hshort
    rw [indexOfBytes_eq hshort]
    by_cases hneg : signedValue s < 0
    · rw [if_pos hneg]
      exact ⟨_, rfl⟩
    · by_cases hsmall : signedValue s < 2 ^ 32
      · have hvalue : signedValue s = (signedValue s).toNat.toUInt32.toNat := by
          rw [Nat.toUInt32, UInt32.toNat_ofNat']
          omega
        exact absurd (.index hshort hvalue) (hnone _)
      · rw [if_neg hneg, if_neg hsmall]
        exact ⟨_, rfl⟩
  · split
    · rename_i hash hfixed
      rw [Fixed.ofBytes?_eq_some_iff.1 hfixed] at hnone
      exact absurd (.hash hash) (hnone _)
    · exact ⟨_, rfl⟩

end BlockLedger
