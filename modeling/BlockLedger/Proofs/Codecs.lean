-- What is kept for later reads back as it was written: the values of the
-- contracts, the blocks and the change sets of the log. So two values are
-- never written in the same bytes, and a value that is left out is not
-- taken for one that is empty.
import BlockLedger.Proofs.Council
import BlockLedger.Proofs.Durability

namespace BlockLedger

/-- What reads back is written in bytes of its own. -/
theorem injective_of_decode {α ε : Type} {bytes : α → Bytes} {decode : Bytes → Except ε α}
    (h : ∀ a, decode (bytes a) = .ok a) : Function.Injective bytes := by
  intro a b hab
  have ha := h a
  rw [hab, h b] at ha
  exact (Except.ok.inj ha).symm

/-! ## Committees -/

/-- A key that starts as the short form of a point does. -/
def PublicKey.Compressed (key : PublicKey) : Prop :=
  key.bytes.head? = some 2 ∨ key.bytes.head? = some 3

instance (key : PublicKey) : Decidable key.Compressed :=
  inferInstanceAs (Decidable (_ ∨ _))

theorem checkMember_bytes {key : PublicKey} (h : key.Compressed) :
    checkMember key.bytes = .ok key := by
  have hkey : publicKey? key.bytes = some key := (if_pos h).trans (Fixed.ofBytes?_bytes key)
  unfold checkMember
  rw [hkey]

/-- A list of members reads back, in its order. -/
theorem decodeCommittee_of_compressed {keys : List PublicKey}
    (h : ∀ key ∈ keys, key.Compressed) : decodeCommittee (committeeBytes keys) = .ok keys := by
  rw [Committee.decodeCommittee_bytes]
  exact mapM_ok fun key hkey => checkMember_bytes (h key hkey)

/-! ## Everything that is kept -/

/-- Whatever is stored, or written to a log, reads back as it was. The bytes of
a change set can be counted, as those of anything in memory. -/
theorem what_is_written_reads_back :
    (∀ r : TransactionRecord, TransactionRecord.decode r.bytes = .ok r) ∧
    (∀ p : BlockPointer, BlockPointer.decode p.bytes = .ok p) ∧
    (∀ a : Account, Account.decode a.bytes = .ok a) ∧
    (∀ b : TrimmedBlock, TrimmedBlock.decode b.bytes = .ok b) ∧
    (∀ keys : List PublicKey, (∀ key ∈ keys, key.Compressed) →
      decodeCommittee (committeeBytes keys) = .ok keys) ∧
    (∀ (sequence : UInt64) (changes : ChangeSet),
      (Frame.ofChanges sequence changes).bytes.length < 2 ^ 64 →
      (Frame.decode? (Frame.ofChanges sequence changes).bytes).map
        (fun f => (f.sequence, f.changes)) = some (sequence, changes)) ∧
    Function.Injective (fun t : Transaction => t.bytes) ∧ Function.Injective Header.bytes := by
  refine ⟨TransactionRecord.decode_bytes, BlockPointer.decode_bytes, Account.decode_bytes,
    TrimmedBlock.decode_bytes, fun _ => decodeCommittee_of_compressed, ?_,
    injective_of_decode Transaction.decode_bytes, injective_of_decode Header.decode_bytes⟩
  intro sequence changes hcount
  have hchanges := Frame.changes_ofChanges sequence changes
  rw [Frame.decode?_bytes hcount, Option.map_some, hchanges]
  rfl

/-- A key that is written without a value, and one that is taken out. -/
def twoWrites : ChangeSet := .ofList [([7], some []), ([8], none)]

/-- The number of the last change set that a log can have. -/
def lastSequence : UInt64 := 18446744073709551615

/-- A committee and the last change set that a log can have. -/
theorem two_writes_read_back :
    decodeCommittee (committeeBytes Sample.settings.standbyCommittee) =
      .ok Sample.settings.standbyCommittee ∧
    (Frame.decode? (Frame.ofChanges lastSequence twoWrites).bytes).map
      (fun f => (f.sequence, f.changes)) = some (lastSequence, twoWrites) := by
  obtain ⟨-, -, -, -, hcommittee, hchanges, -⟩ := what_is_written_reads_back
  have hcompressed : ∀ key ∈ Sample.settings.standbyCommittee, key.Compressed := by
    intro key hkey
    rw [List.mem_singleton.1 hkey]
    decide
  have hcount : (Frame.ofChanges lastSequence twoWrites).bytes.length < 2 ^ 64 := by
    decide +kernel
  exact ⟨hcommittee _ hcompressed, hchanges _ _ hcount⟩

/-- The mark of a block without height is written in no bytes at all, and an
empty transaction in some. -/
example : (TransactionRecord.stub 0).bytes = [] ∧
    (⟨0, some default, .none⟩ : TransactionRecord).bytes ≠ [] := by decide

end BlockLedger
