-- Every stored value reads back from its bytes. A value is written as a
-- list of fields; each field adds its part to a draft, and the whole
-- draft checks. Fields with a default value are left out, and the draft
-- starts with the defaults.
import BlockLedger.Draft
import BlockLedger.Wire.RoundTrip

namespace BlockLedger

open Wire

/-! ## Fields that can be written -/

theorem writable_numberField {n : Nat} (v : UInt64) (h : 0 < n ∧ n < 2 ^ 29) :
    ∀ f ∈ numberField n v, f.Writable := by
  intro f hf
  unfold numberField at hf
  split at hf
  · simp at hf
  · rw [List.mem_singleton] at hf
    subst hf
    exact ⟨h.1, h.2, trivial⟩

theorem writable_bytesField {n : Nat} {b : Bytes} (h : 0 < n ∧ n < 2 ^ 29)
    (hb : b.length < 2 ^ 64) : ∀ f ∈ bytesField n b, f.Writable := by
  intro f hf
  unfold bytesField at hf
  split at hf
  · simp at hf
  · rw [List.mem_singleton] at hf
    subst hf
    exact ⟨h.1, h.2, hb⟩

theorem writable_listedField {n : Nat} {b : Bytes} (h : 0 < n ∧ n < 2 ^ 29)
    (hb : b.length < 2 ^ 64) : (listedField n b).Writable := ⟨h.1, h.2, hb⟩

theorem writable_append {fs gs : List Field} (hf : ∀ f ∈ fs, f.Writable)
    (hg : ∀ f ∈ gs, f.Writable) : ∀ f ∈ fs ++ gs, f.Writable := by
  intro f h
  rcases List.mem_append.1 h with h | h
  · exact hf f h
  · exact hg f h

/-- A hash is short enough to be written. -/
theorem writable_hash {n k : Nat} (a : Fixed k) (h : 0 < n ∧ n < 2 ^ 29) (hk : k < 2 ^ 64) :
    ∀ f ∈ bytesField n a.bytes, f.Writable :=
  writable_bytesField h (by rw [a.length_eq]; exact hk)

theorem write_append (fs gs : List Field) : write (fs ++ gs) = write fs ++ write gs := by
  simp [write]

/-- The content of a written field is part of what is written. -/
theorem length_le_of_listed {fs : List Field} {n : Nat} {b : Bytes} (h : listedField n b ∈ fs) :
    b.length ≤ (write fs).length := by
  obtain ⟨before, after, rfl⟩ := List.append_of_mem h
  simp only [write, List.flatMap_append, List.flatMap_cons, listedField, Field.write,
    List.length_append]
  omega

theorem length_le_of_append (fs gs : List Field) :
    (write gs).length ≤ (write (fs ++ gs)).length := by
  rw [write_append, List.length_append]
  omega

theorem length_le_of_bytesField {n : Nat} {b : Bytes} :
    b.length ≤ (write (bytesField n b)).length := by
  unfold bytesField
  split
  · rename_i h
    simp [h]
  · exact length_le_of_listed (n := n) (by simp [listedField])

theorem length_varintIn_le (left n : Nat) : (varintIn left n).length ≤ left := by
  induction left generalizing n with
  | zero => simp [varintIn]
  | succ left ih =>
    rw [varintIn]
    split
    · simp
    · simpa using ih (n / 128)

theorem length_write_numberField_le (n : Nat) (v : UInt64) :
    (write (numberField n v)).length ≤ 20 := by
  have h1 := length_varintIn_le 10 (8 * n)
  have h2 := length_varintIn_le 10 v.toNat
  unfold numberField
  split
  · simp [write]
  · simp only [write, List.flatMap_cons, List.flatMap_nil, Field.write, varint, List.append_nil,
      List.length_append]
    omega

theorem length_write_bytesField_le (n : Nat) (b : Bytes) :
    (write (bytesField n b)).length ≤ 20 + b.length := by
  have h1 := length_varintIn_le 10 (8 * n + 2)
  have h2 := length_varintIn_le 10 b.length
  unfold bytesField
  split
  · simp [write]
  · simp only [write, List.flatMap_cons, List.flatMap_nil, Field.write, varint, List.append_nil,
      List.length_append]
    omega

/-! ## Adding the fields of a value to a draft -/

section Drafts

variable {α : Type} [Message α]

/-- A written value is read as what its fields add to the empty draft. -/
theorem read?_write {fs : List Field} (h : ∀ f ∈ fs, f.Writable) :
    (read? (write fs) : Option α) = fs.foldlM (Message.add 100) Message.empty := by
  simp [read?, readInto, readFields_write 100 h]

theorem readNested_write {room : Nat} {d : α} {fs : List Field} (h : ∀ f ∈ fs, f.Writable) :
    readNested room d (write fs) = fs.foldlM (Message.add (room - 1)) d := by
  simp [readNested, readInto, readFields_write (room - 1) h]

theorem readDraft_write {fs : List Field} {d : α} (h : ∀ f ∈ fs, f.Writable)
    (hd : fs.foldlM (Message.add 100) Message.empty = some d) :
    readDraft (write fs) = .ok d := by
  simp [readDraft, read?_write h, hd]

theorem foldlM_append_trans {room : Nat} {fs gs : List Field} {d d' d'' : α}
    (hf : fs.foldlM (Message.add room) d = some d')
    (hg : gs.foldlM (Message.add room) d' = some d'') :
    (fs ++ gs).foldlM (Message.add room) d = some d'' := by
  rw [List.foldlM_append, hf]
  exact hg

variable {room n : Nat} {d next : α}

/-- A number adds itself; a zero is left out, and must be what the draft
has already. -/
theorem foldlM_numberField {v : UInt64} (hn : Message.add room d ⟨n, .number v⟩ = some next)
    (hz : v = 0 → next = d) : (numberField n v).foldlM (Message.add room) d = some next := by
  unfold numberField
  split
  · rename_i h
    simp [hz h]
  · simp [hn]

theorem foldlM_bytesField {b : Bytes} (hn : Message.add room d ⟨n, .bytes b⟩ = some next)
    (hz : b = [] → next = d) : (bytesField n b).foldlM (Message.add room) d = some next := by
  unfold bytesField
  split
  · rename_i h
    simp [hz h]
  · simp [hn]

end Drafts

/-! ## Small values -/

theorem ok_bind {ε α β : Type} (v : α) (f : α → Except ε β) : Except.ok v >>= f = f v := rfl

theorem ok_of_bind {ε α β : Type} {x : Except ε α} {f : α → Except ε β} {b : β}
    (h : x >>= f = .ok b) : ∃ a, x = .ok a ∧ f a = .ok b := by
  rcases x with e | a
  · cases h
  · exact ⟨a, rfl, h⟩

theorem mapM_ok {ε α β : Type} {f : α → Except ε β} {g : β → α} {l : List β}
    (h : ∀ b ∈ l, f (g b) = .ok b) : (l.map g).mapM f = .ok l := by
  induction l with
  | nil => rfl
  | cons b rest ih =>
    have hrest := ih fun b' hb => h b' (List.mem_cons_of_mem b hb)
    simp only [List.map_cons, List.mapM_cons, h b List.mem_cons_self, hrest]
    rfl

theorem checkHash_bytes {n : Nat} (field : String) (a : Fixed n) :
    checkHash n field a.bytes = .ok a := by
  simp [checkHash, Fixed.ofBytes?_bytes]

/-- A byte is written as a number and read as one of 32 bits. -/
theorem checkByte_ofByte (field : String) (b : UInt8) :
    checkByte field b.toUInt64.toUInt32 = .ok b := by
  have h : b.toUInt64.toUInt32.toNat = b.toNat := by simp
  have hlt : b.toNat < 256 := b.toNat_lt
  unfold checkByte
  rw [h, if_pos hlt]
  congr 1
  apply UInt8.toNat_inj.1
  simp

theorem ofCode?_code (v : VmState) : VmState.ofCode? v.code.toUInt64.toUInt32.toNat = some v := by
  cases v <;> rfl

/-! ## Signers and attributes -/

/-- The draft that the fields of a signer add up to. -/
def Signer.draft (s : Signer) : SignerDraft := ⟨s.account.bytes, s.scopes.toUInt64.toUInt32⟩

theorem Signer.writable (s : Signer) : ∀ f ∈ s.fields, f.Writable :=
  writable_append (writable_hash _ (by decide) (by decide)) (writable_numberField _ (by decide))

theorem Signer.foldlM_fields (room : Nat) (s : Signer) :
    s.fields.foldlM (Message.add room) Message.empty = some s.draft := by
  refine foldlM_append_trans (foldlM_bytesField rfl ?_) (foldlM_numberField rfl ?_)
  all_goals
    intro h
    simp only [Signer.draft, h]
    rfl

theorem Signer.check_draft (s : Signer) : s.draft.check = .ok s := by
  simp only [SignerDraft.check, Signer.draft, checkHash_bytes, checkByte_ofByte]
  rfl

/-- The result of an oracle response is short enough to be written. -/
def Attribute.Fits : Attribute → Prop
  | .oracleResponse _ _ result => result.length < 2 ^ 64
  | _ => True

/-- The draft that the fields of an attribute add up to. -/
def Attribute.draft : Attribute → AttributeDraft
  | .highPriority => .highPriority ⟨⟩
  | .oracleResponse id code result => .oracleResponse ⟨id, code.toUInt64.toUInt32, result⟩
  | .notValidBefore height => .notValidBefore ⟨height.toUInt64.toUInt32⟩
  | .conflicts hash => .conflicts ⟨hash.bytes⟩

/-- The fields of an oracle response. -/
def oracleFields (id : UInt64) (code : UInt8) (result : Bytes) : List Field :=
  numberField 1 id ++ numberField 2 code.toUInt64 ++ bytesField 3 result

theorem writable_oracleFields (id : UInt64) (code : UInt8) {result : Bytes}
    (h : result.length < 2 ^ 64) : ∀ f ∈ oracleFields id code result, f.Writable :=
  writable_append
    (writable_append (writable_numberField _ (by decide)) (writable_numberField _ (by decide)))
    (writable_bytesField (by decide) h)

theorem foldlM_oracleFields (room : Nat) (id : UInt64) (code : UInt8) (result : Bytes) :
    (oracleFields id code result).foldlM (Message.add room) Message.empty =
      some (⟨id, code.toUInt64.toUInt32, result⟩ : OracleDraft) := by
  refine foldlM_append_trans (foldlM_append_trans (foldlM_numberField rfl ?_)
    (foldlM_numberField rfl ?_)) (foldlM_bytesField rfl ?_)
  all_goals
    intro h
    rw [h]
    rfl

theorem Attribute.writable {a : Attribute} (h : (write a.fields).length < 2 ^ 64) :
    ∀ f ∈ a.fields, f.Writable := by
  intro f hf
  cases a with
  | highPriority | oracleResponse id code result | notValidBefore height | conflicts hash =>
    simp only [Attribute.fields, List.mem_singleton] at hf
    subst hf
    exact writable_listedField (by decide)
      (Nat.lt_of_le_of_lt (length_le_of_listed List.mem_cons_self) h)

/-- An attribute that is written in few enough bytes has a short result. -/
theorem Attribute.fits_of_length {a : Attribute} (h : (write a.fields).length < 2 ^ 64) :
    a.Fits := by
  cases a with
  | oracleResponse id code result =>
    have hmem : listedField 2 (write (oracleFields id code result)) ∈
        Attribute.fields (.oracleResponse id code result) := List.mem_cons_self
    have h1 := length_le_of_listed hmem
    have h2 := length_le_of_bytesField (n := 3) (b := result)
    rw [oracleFields, write_append, List.length_append] at h1
    exact Nat.lt_of_le_of_lt (Nat.le_trans h2 (by omega)) h
  | highPriority | notValidBefore height | conflicts hash => trivial

theorem Attribute.foldlM_fields (room : Nat) {a : Attribute} (h : a.Fits) :
    a.fields.foldlM (Message.add room) Message.empty = some a.draft := by
  cases a with
  | highPriority => rfl
  | oracleResponse id code result =>
    have hread : readNested room Message.empty (write (oracleFields id code result)) = some _ :=
      (readNested_write (writable_oracleFields id code h)).trans
        (foldlM_oracleFields _ id code result)
    simp only [Attribute.fields, List.foldlM_cons, List.foldlM_nil, listedField]
    change ((readNested room Message.empty (write (oracleFields id code result))).map
      AttributeDraft.oracleResponse).bind some = _
    rw [hread]
    rfl
  | notValidBefore height =>
    have hread : readNested room Message.empty (write (numberField 1 height.toUInt64)) =
        some (⟨height.toUInt64.toUInt32⟩ : HeightDraft) := by
      rw [readNested_write (writable_numberField _ (by decide))]
      exact foldlM_numberField rfl fun h => by rw [h]; rfl
    change ((readNested room Message.empty (write (numberField 1 height.toUInt64))).map
      AttributeDraft.notValidBefore).bind some = _
    rw [hread]
    rfl
  | conflicts hash =>
    have hread : readNested room Message.empty (write (bytesField 1 hash.bytes)) =
        some (⟨hash.bytes⟩ : HashDraft) := by
      rw [readNested_write (writable_hash _ (by decide) (by decide))]
      exact foldlM_bytesField rfl fun h => by rw [h]; rfl
    change ((readNested room Message.empty (write (bytesField 1 hash.bytes))).map
      AttributeDraft.conflicts).bind some = _
    rw [hread]
    rfl

theorem Attribute.check_draft (a : Attribute) : a.draft.check = .ok a := by
  cases a with
  | highPriority => rfl
  | oracleResponse id code result =>
    simp only [Attribute.draft, AttributeDraft.check, checkByte_ofByte]
    rfl
  | notValidBefore height => simp [Attribute.draft, AttributeDraft.check]
  | conflicts hash =>
    simp only [Attribute.draft, AttributeDraft.check, checkHash_bytes]
    rfl

/-! ## Transactions -/

namespace Transaction

/-- The draft that the fields of a transaction add up to. -/
def Content.draft (c : Content) : TransactionDraft :=
  ⟨c.version.toUInt64.toUInt32, c.nonce.toUInt64.toUInt32, c.systemFee, c.networkFee,
    c.validUntil.toUInt64.toUInt32, c.signers.map Signer.draft, c.attributes.map Attribute.draft,
    c.script⟩

theorem mem_fields_of_signer {c : Content} {s : Signer} (h : s ∈ c.signers) :
    listedField 6 (write s.fields) ∈ c.fields := by
  simp only [Content.fields, List.mem_append, List.mem_map]
  exact .inl (.inl (.inr ⟨s, h, rfl⟩))

theorem mem_fields_of_attribute {c : Content} {a : Attribute} (h : a ∈ c.attributes) :
    listedField 7 (write a.fields) ∈ c.fields := by
  simp only [Content.fields, List.mem_append, List.mem_map]
  exact .inl (.inr ⟨a, h, rfl⟩)

variable {c : Content} (hc : c.bytes.length < 2 ^ 64)

include hc in
theorem length_attribute_lt {a : Attribute} (h : a ∈ c.attributes) :
    (write a.fields).length < 2 ^ 64 :=
  Nat.lt_of_le_of_lt (length_le_of_listed (mem_fields_of_attribute h)) hc

include hc in
theorem Content.writable : ∀ f ∈ c.fields, f.Writable := by
  have hscript : c.script.length < 2 ^ 64 :=
    Nat.lt_of_le_of_lt (Nat.le_trans length_le_of_bytesField (length_le_of_append _ _)) hc
  have hsigners : ∀ f ∈ c.signers.map (fun s => listedField 6 (write s.fields)), f.Writable := by
    intro f hf
    obtain ⟨s, hs, rfl⟩ := List.mem_map.1 hf
    exact writable_listedField (by decide)
      (Nat.lt_of_le_of_lt (length_le_of_listed (mem_fields_of_signer hs)) hc)
  have hattributes : ∀ f ∈ c.attributes.map (fun a => listedField 7 (write a.fields)),
      f.Writable := by
    intro f hf
    obtain ⟨a, ha, rfl⟩ := List.mem_map.1 hf
    exact writable_listedField (by decide) (length_attribute_lt hc ha)
  have hnumber : ∀ (n : Nat) (v : UInt64), 0 < n ∧ n < 2 ^ 29 → ∀ f ∈ numberField n v, f.Writable :=
    fun n v h => writable_numberField v h
  unfold Content.fields
  refine writable_append (writable_append (writable_append (writable_append (writable_append
    (writable_append (writable_append ?_ ?_) ?_) ?_) ?_) hsigners) hattributes)
    (writable_bytesField (by decide) hscript)
  all_goals exact hnumber _ _ (by decide)

theorem foldlM_signers (room : Nat) (signers : List Signer) (d : TransactionDraft) :
    (signers.map fun s => listedField 6 (write s.fields)).foldlM (Message.add room) d =
      some { d with signers := d.signers ++ signers.map Signer.draft } := by
  induction signers generalizing d with
  | nil => simp
  | cons s rest ih =>
    have hread : readNested room Message.empty (write s.fields) = some s.draft := by
      rw [readNested_write s.writable, s.foldlM_fields]
    have hadd : Message.add room d (listedField 6 (write s.fields)) =
        some { d with signers := d.signers ++ [s.draft] } := by
      change ((readNested room Message.empty (write s.fields)).map fun s =>
        { d with signers := d.signers ++ [s] }) = _
      rw [hread]
      rfl
    simp [hadd, ih]

theorem foldlM_attributes (room : Nat) {attributes : List Attribute}
    (h : ∀ a ∈ attributes, (write a.fields).length < 2 ^ 64) (d : TransactionDraft) :
    (attributes.map fun a => listedField 7 (write a.fields)).foldlM (Message.add room) d =
      some { d with attributes := d.attributes ++ attributes.map Attribute.draft } := by
  induction attributes generalizing d with
  | nil => simp
  | cons a rest ih =>
    have ha := h a List.mem_cons_self
    have hread : readNested room Message.empty (write a.fields) = some a.draft := by
      rw [readNested_write (Attribute.writable ha),
        Attribute.foldlM_fields _ (Attribute.fits_of_length ha)]
    have hadd : Message.add room d (listedField 7 (write a.fields)) =
        some { d with attributes := d.attributes ++ [a.draft] } := by
      change ((readNested room Message.empty (write a.fields)).map fun a =>
        { d with attributes := d.attributes ++ [a] }) = _
      rw [hread]
      rfl
    simp [hadd, ih fun b hb => h b (List.mem_cons_of_mem _ hb)]

include hc in
theorem Content.foldlM_fields (room : Nat) :
    c.fields.foldlM (Message.add room) Message.empty = some c.draft := by
  unfold Content.fields
  refine foldlM_append_trans (foldlM_append_trans (foldlM_append_trans (foldlM_append_trans
    (foldlM_append_trans (foldlM_append_trans (foldlM_append_trans (foldlM_numberField rfl ?_)
    (foldlM_numberField rfl ?_)) (foldlM_numberField rfl ?_)) (foldlM_numberField rfl ?_))
    (foldlM_numberField rfl ?_)) (foldlM_signers _ _ _))
    (foldlM_attributes _ (fun a ha => length_attribute_lt hc ha) _)) (foldlM_bytesField rfl ?_)
  all_goals
    intro h
    simp only [Content.draft, h]
    rfl

/-- A transaction's draft checks: each part gives back what was written. -/
theorem check_draft (t : Transaction) : t.draft.check = .ok t := by
  have hwords : (⟨t.version, t.nonce.toUInt64.toUInt32, t.systemFee, t.networkFee,
      t.validUntil.toUInt64.toUInt32, t.signers, t.attributes, t.script⟩ : Content) =
      t.toContent := by simp
  simp only [TransactionDraft.check, Content.draft, mapM_ok fun s _ => Signer.check_draft s,
    mapM_ok fun a _ => Attribute.check_draft a, checkByte_ofByte, ok_bind, hwords,
    ofContent?_toContent]
  rfl

theorem decode_bytes (t : Transaction) : Transaction.decode t.bytes = .ok t := by
  have hread : readDraft t.bytes = .ok t.draft :=
    readDraft_write (Content.writable t.fits) (Content.foldlM_fields t.fits 100)
  simp only [Transaction.decode, hread]
  exact check_draft t

end Transaction

/-! ## Headers and trimmed blocks -/

namespace Header

/-- The draft that the fields of a header add up to. -/
def draft (h : Header) : HeaderDraft :=
  ⟨h.version.toUInt64.toUInt32, h.parent.bytes, h.merkleRoot.bytes, h.timestamp, h.nonce,
    h.index.toUInt64.toUInt32, h.primary.toUInt64.toUInt32, h.nextConsensus.bytes⟩

theorem writable (h : Header) : ∀ f ∈ h.fields, f.Writable := by
  unfold fields
  refine writable_append (writable_append (writable_append (writable_append (writable_append
    (writable_append (writable_append ?_ ?_) ?_) ?_) ?_) ?_) ?_) ?_
  all_goals first
    | exact writable_numberField _ (by decide)
    | exact writable_hash _ (by decide) (by decide)

/-- A header is far shorter than any number that can be written. -/
theorem length_bytes_lt (h : Header) : h.bytes.length < 2 ^ 64 := by
  have hparent := length_write_bytesField_le 2 h.parent.bytes
  have hroot := length_write_bytesField_le 3 h.merkleRoot.bytes
  have hnext := length_write_bytesField_le 8 h.nextConsensus.bytes
  rw [Fixed.length_eq] at hparent hroot hnext
  have hversion := length_write_numberField_le 1 h.version.toUInt64
  have htime := length_write_numberField_le 4 h.timestamp
  have hnonce := length_write_numberField_le 5 h.nonce
  have hindex := length_write_numberField_le 6 h.index.toUInt64
  have hprimary := length_write_numberField_le 7 h.primary.toUInt64
  simp only [bytes, fields, write_append, List.length_append]
  omega

theorem foldlM_fields (room : Nat) (h : Header) :
    h.fields.foldlM (Message.add room) Message.empty = some h.draft := by
  refine foldlM_append_trans (foldlM_append_trans (foldlM_append_trans (foldlM_append_trans
    (foldlM_append_trans (foldlM_append_trans (foldlM_append_trans (foldlM_numberField rfl ?_)
    (foldlM_bytesField rfl ?_)) (foldlM_bytesField rfl ?_)) (foldlM_numberField rfl ?_))
    (foldlM_numberField rfl ?_)) (foldlM_numberField rfl ?_)) (foldlM_numberField rfl ?_))
    (foldlM_bytesField rfl ?_)
  all_goals
    intro hz
    simp only [draft, hz]
    rfl

theorem check_draft (h : Header) : h.draft.check = .ok h := by
  simp only [HeaderDraft.check, draft, checkHash_bytes, checkByte_ofByte, ok_bind,
    UInt32.toUInt32_toUInt64]
  rfl

theorem decode_bytes (h : Header) : Header.decode h.bytes = .ok h := by
  have hread : readDraft h.bytes = .ok h.draft := readDraft_write h.writable (h.foldlM_fields 100)
  simp only [Header.decode, hread]
  exact check_draft h

end Header

namespace TrimmedBlock

theorem foldlM_hashes (room : Nat) (hashes : List Hash256) (d : TrimmedDraft) :
    (hashes.map fun h => listedField 2 h.bytes).foldlM (Message.add room) d =
      some { d with hashes := d.hashes ++ hashes.map (·.bytes) } := by
  induction hashes generalizing d with
  | nil => simp
  | cons h rest ih =>
    have hadd : Message.add room d (listedField 2 h.bytes) =
        some { d with hashes := d.hashes ++ [h.bytes] } := rfl
    simp [hadd, ih]

theorem writable (b : TrimmedBlock) :
    ∀ f ∈ listedField 1 b.header.bytes :: b.hashes.map fun h => listedField 2 h.bytes,
      f.Writable := by
  intro f hf
  rcases List.mem_cons.1 hf with rfl | hf
  · exact writable_listedField (by decide) b.header.length_bytes_lt
  · obtain ⟨h, _, rfl⟩ := List.mem_map.1 hf
    exact writable_listedField (by decide) (by rw [h.length_eq]; decide)

theorem decode_bytes (b : TrimmedBlock) : TrimmedBlock.decode b.bytes = .ok b := by
  have hheader : readNested 100 Message.empty b.header.bytes = some b.header.draft :=
    (readNested_write b.header.writable).trans (b.header.foldlM_fields _)
  have hadd : Message.add 100 (⟨none, []⟩ : TrimmedDraft) (listedField 1 b.header.bytes) =
      some ⟨some b.header.draft, []⟩ := by
    change (readNested 100 Message.empty b.header.bytes).map _ = _
    rw [hheader]
    rfl
  have hread : readDraft b.bytes =
      .ok (⟨some b.header.draft, b.hashes.map (·.bytes)⟩ : TrimmedDraft) := by
    apply readDraft_write b.writable
    rw [List.foldlM_cons, show Message.empty = (⟨none, []⟩ : TrimmedDraft) from rfl, hadd]
    exact foldlM_hashes 100 b.hashes _
  simp only [TrimmedBlock.decode, hread, ok_bind, b.header.check_draft,
    mapM_ok fun (h : Hash256) _ => checkHash_bytes "trimmed_block.hashes" h]
  rfl

end TrimmedBlock

/-! ## Records -/

namespace TransactionRecord

/-- The fields of a record. -/
def fields (r : TransactionRecord) : List Field :=
  numberField 1 r.blockIndex.toUInt64 ++
    (r.transaction.toList.map fun t => listedField 2 t.bytes) ++
    numberField 3 r.vmState.code.toUInt64

/-- The draft that the fields of a record add up to. -/
def draft (r : TransactionRecord) : RecordDraft :=
  ⟨r.blockIndex.toUInt64.toUInt32, r.transaction.map (·.draft), r.vmState.code.toUInt64.toUInt32⟩

theorem writable (r : TransactionRecord) : ∀ f ∈ r.fields, f.Writable := by
  refine writable_append (writable_append (writable_numberField _ (by decide)) ?_)
    (writable_numberField _ (by decide))
  intro f hf
  obtain ⟨t, _, rfl⟩ := List.mem_map.1 hf
  exact writable_listedField (by decide) t.fits

theorem foldlM_transaction (room : Nat) (o : Option Transaction) (index state : UInt32) :
    (o.toList.map fun t => listedField 2 t.bytes).foldlM (Message.add room)
      (⟨index, none, state⟩ : RecordDraft) = some ⟨index, o.map (·.draft), state⟩ := by
  cases o with
  | none => rfl
  | some t =>
    have hread : readNested room Message.empty t.bytes = some t.draft :=
      (readNested_write (Transaction.Content.writable t.fits)).trans
        (Transaction.Content.foldlM_fields t.fits _)
    have hadd : Message.add room (⟨index, none, state⟩ : RecordDraft) (listedField 2 t.bytes) =
        some ⟨index, some t.draft, state⟩ := by
      change ((readNested room Message.empty t.bytes).map fun d =>
        (⟨index, some d, state⟩ : RecordDraft)) = _
      rw [hread]
      rfl
    rw [Option.toList_some, List.map_singleton, List.foldlM_cons, hadd]
    rfl

theorem foldlM_fields (r : TransactionRecord) :
    r.fields.foldlM (Message.add 100) Message.empty = some r.draft := by
  refine foldlM_append_trans (foldlM_append_trans (foldlM_numberField rfl ?_)
    (foldlM_transaction _ r.transaction _ _)) (foldlM_numberField rfl ?_)
  all_goals
    intro h
    simp only [draft, h]
    rfl

theorem decode_bytes (r : TransactionRecord) : TransactionRecord.decode r.bytes = .ok r := by
  have hread : readDraft r.bytes = .ok r.draft := readDraft_write r.writable r.foldlM_fields
  obtain ⟨index, transaction, vmState⟩ := r
  simp only [TransactionRecord.decode, hread, ok_bind, draft, ofCode?_code,
    UInt32.toUInt32_toUInt64]
  cases transaction with
  | none => rfl
  | some t =>
    simp only [Option.map_some, t.check_draft, ok_bind]
    rfl

end TransactionRecord

theorem BlockPointer.decode_bytes (p : BlockPointer) : BlockPointer.decode p.bytes = .ok p := by
  have hread : readDraft p.bytes =
      .ok (⟨p.hash.bytes, p.index.toUInt64.toUInt32⟩ : PointerDraft) := by
    refine readDraft_write (writable_append (writable_hash _ (by decide) (by decide))
      (writable_numberField _ (by decide))) (foldlM_append_trans (foldlM_bytesField rfl ?_)
      (foldlM_numberField rfl ?_))
    all_goals
      intro h
      rw [h]
      rfl
  simp only [BlockPointer.decode, hread, ok_bind, checkHash_bytes, UInt32.toUInt32_toUInt64]
  rfl

theorem length_bytes_le (a : Amount) : a.bytes.length ≤ 32 :=
  Nat.le_trans (length_trimZeros_le _) (Nat.le_of_eq (length_leBytes 32 a))

theorem Account.ofBytes?_bytes (a : Account) : Account.ofBytes? a.balance.bytes = some a := by
  obtain ⟨balance, fits⟩ := a
  simp [Account.ofBytes?, length_bytes_le, leValue_bytes fits]

theorem Account.decode_bytes (a : Account) : Account.decode a.bytes = .ok a := by
  have hshort : a.balance.bytes.length < 2 ^ 64 :=
    Nat.lt_of_le_of_lt (length_bytes_le _) (by decide)
  have hread : readDraft a.bytes = .ok (⟨a.balance.bytes⟩ : AccountDraft) := by
    refine readDraft_write (writable_bytesField (by decide) hshort) (foldlM_bytesField rfl ?_)
    intro h
    rw [h]
    rfl
  simp only [Account.decode, hread, ok_bind, Account.ofBytes?_bytes]
  rfl

end BlockLedger
