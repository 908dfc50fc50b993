-- Reading fields gives back what was written. Main statements: a number
-- below 2^64 reads back from its bytes whatever follows them, and a
-- sequence of writable fields reads back from its bytes.
import BlockLedger.Wire.Field

namespace BlockLedger.Wire

/-! ## Numbers -/

theorem toNat_toUInt8 {n : Nat} (h : n < 256) : n.toUInt8.toNat = n := by
  simp [Nat.toUInt8, Nat.mod_eq_of_lt h]

theorem readVarintIn_varintIn (left : Nat) {n : Nat} (rest : Bytes) (h : n < 2 * 128 ^ left) :
    readVarintIn (left + 1) (varintIn (left + 1) n ++ rest) = some (n, rest) := by
  induction left generalizing n with
  | zero =>
    have hn : n.toUInt8.toNat = n := toNat_toUInt8 (by omega)
    have hlt : n.toUInt8 < 128 := UInt8.lt_iff_toNat_lt.2 (by rw [hn]; exact (by omega : n < 128))
    have hle : ¬ 1 < n.toUInt8 := fun hc => by
      have := UInt8.lt_iff_toNat_lt.1 hc
      rw [hn] at this
      exact absurd this (by simp; omega)
    simp [varintIn, readVarintIn, (by omega : n < 128), hlt, hle, hn]
  | succ left ih =>
    rw [varintIn]
    split
    · rename_i hsmall
      have hn : n.toUInt8.toNat = n := toNat_toUInt8 (by omega)
      have hlt : n.toUInt8 < 128 := UInt8.lt_iff_toNat_lt.2 (by rw [hn]; exact hsmall)
      simp [readVarintIn, hlt, hn]
    · rename_i hbig
      have hn : (n % 128 + 128).toUInt8.toNat = n % 128 + 128 := toNat_toUInt8 (by omega)
      have hge : ¬ (n % 128 + 128).toUInt8 < 128 := fun hc => by
        have := UInt8.lt_iff_toNat_lt.1 hc
        rw [hn] at this
        exact absurd this (by simp)
      have hdiv : n / 128 < 2 * 128 ^ left := by
        rw [Nat.pow_succ] at h
        omega
      simp only [List.cons_append, readVarintIn, hge, if_false, ih hdiv, Option.map_some, hn]
      congr 2
      omega

/-- A number reads back from its bytes, whatever follows them. -/
theorem readVarint_varint {n : Nat} (rest : Bytes) (h : n < 2 ^ 64) :
    readVarint (varint n ++ rest) = some (n, rest) :=
  readVarintIn_varintIn 9 rest (by omega)

theorem varintIn_ne_nil (left n : Nat) : varintIn (left + 1) n ≠ [] := by
  rw [varintIn]
  split <;> simp

/-! ## Fields -/

/-- A field that can be written: its number is in range, and its content
is a number or has a length that can be written. -/
def Field.Writable (f : Field) : Prop :=
  0 < f.number ∧ f.number < 2 ^ 29 ∧
    match f.payload with
    | .number _ => True
    | .bytes content => content.length < 2 ^ 64
    | .skipped => False

theorem readHead_varint {n code : Nat} {form : Form} (rest : Bytes) (hpos : 0 < n)
    (hlt : n < 2 ^ 29) (hcode : code < 8) (hform : Form.ofCode? code = some form) :
    readHead (varint (8 * n + code) ++ rest) = some (n, form, rest) := by
  have hmod : (8 * n + code) % 8 = code := by omega
  have hdiv : (8 * n + code) / 8 = n := by omega
  have hrange : ¬ (2 ^ 32 ≤ 8 * n + code ∨ 8 * n + code < 8) := by omega
  simp only [readHead, readVarint_varint rest (by omega : 8 * n + code < 2 ^ 64), hrange, if_false,
    hmod, hdiv, hform, Option.map_some]

theorem readCounted_counted (content rest : Bytes) (h : content.length < 2 ^ 64) :
    readCounted (varint content.length ++ (content ++ rest)) = some (content, rest) := by
  simp [readCounted, readVarint_varint _ h, cut]

/-- A field reads back from its bytes, whatever follows them. -/
theorem readField_write (room : Nat) {f : Field} (rest : Bytes) (h : f.Writable) :
    readField room (f.write ++ rest) = some (f, rest) := by
  obtain ⟨n, payload⟩ := f
  obtain ⟨hpos, hlt, hpayload⟩ := h
  cases payload with
  | number v =>
    have hhead : readHead (varint (8 * n) ++ (varint v.toNat ++ rest)) = _ :=
      @readHead_varint n 0 .number (varint v.toNat ++ rest) hpos hlt (by decide) rfl
    simp only [Field.write, List.append_assoc]
    simp [readField, hhead, readVarint_varint rest v.toNat_lt]
  | bytes content =>
    have hhead :
        readHead (varint (8 * n + 2) ++ (varint content.length ++ (content ++ rest))) = _ :=
      readHead_varint (varint content.length ++ (content ++ rest)) hpos hlt (by decide) rfl
    simp only [Field.write, List.append_assoc]
    simp [readField, hhead, readCounted_counted content rest hpayload]
  | skipped => exact hpayload.elim

theorem write_ne_nil {f : Field} (h : f.Writable) : f.write ≠ [] := by
  obtain ⟨n, payload⟩ := f
  cases payload with
  | number v => simp [Field.write, varint, varintIn_ne_nil]
  | bytes content => simp [Field.write, varint, varintIn_ne_nil]
  | skipped => exact h.2.2.elim

theorem readFieldsIn_write (room : Nat) {left : Nat} {fields : List Field}
    (h : ∀ f ∈ fields, f.Writable) (hleft : fields.length ≤ left) :
    readFieldsIn room left (write fields) = some fields := by
  induction fields generalizing left with
  | nil => cases left <;> rfl
  | cons f fields ih =>
    obtain ⟨left, rfl⟩ : ∃ k, left = k + 1 := ⟨left - 1, by simp at hleft; omega⟩
    have hf := h f List.mem_cons_self
    have hwrite : write (f :: fields) = f.write ++ write fields := rfl
    obtain ⟨b, s, hs⟩ := List.exists_cons_of_ne_nil (write_ne_nil hf)
    have hread := readField_write room (write fields) hf
    rw [hwrite, hs, List.cons_append] at *
    simp only [readFieldsIn, hread]
    rw [ih (fun g hg => h g (List.mem_cons_of_mem _ hg)) (by simpa using hleft)]
    rfl

theorem length_le_length_write {fields : List Field} (h : ∀ f ∈ fields, f.Writable) :
    fields.length ≤ (write fields).length := by
  induction fields with
  | nil => simp
  | cons f fields ih =>
    have hpos := List.length_pos_iff.2 (write_ne_nil (h f List.mem_cons_self))
    have hrest := ih fun g hg => h g (List.mem_cons_of_mem _ hg)
    have hwrite : write (f :: fields) = f.write ++ write fields := rfl
    rw [hwrite, List.length_append, List.length_cons]
    omega

/-- A sequence of writable fields reads back from its bytes. -/
theorem readFields_write (room : Nat) {fields : List Field} (h : ∀ f ∈ fields, f.Writable) :
    readFields room (write fields) = some fields :=
  readFieldsIn_write room h (length_le_length_write h)

end BlockLedger.Wire
