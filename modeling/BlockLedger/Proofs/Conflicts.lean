-- When a conflict shows. A declared conflict leaves only the index of the
-- last block that declared it, once under the hash and once for each
-- signer, and the answer looks at both. It is still the answer that all
-- declarations in the window together would give.
import BlockLedger.Proofs.History

namespace BlockLedger

/-! ## The latest of many -/

/-- Histories with the latest block first. -/
def LatestFirst (past : List Entry) : Prop :=
  past.Pairwise fun e e' => e'.block.index.toNat < e.block.index.toNat

/-- Whether a block of the history is in a window that ends at an index. -/
def Entry.inWindow (e : Entry) (current window : UInt32) : Bool :=
  Ledger.inWindow e.block.index current window

theorem Entry.inWindow_iff (e : Entry) (current window : UInt32) :
    e.inWindow current window = true ↔
      e.block.index ≤ current ∧ current.toNat < e.block.index.toNat + window.toNat := by
  simp [Entry.inWindow, Ledger.inWindow]

/-- If a block is in the window, so are the later ones. -/
theorem Entry.inWindow_of_le {e e' : Entry} {current window : UInt32}
    (h : e.inWindow current window = true) (hle : e.block.index.toNat ≤ e'.block.index.toNat)
    (hcurrent : e'.block.index ≤ current) : e'.inWindow current window = true := by
  rw [Entry.inWindow_iff] at h ⊢
  refine ⟨hcurrent, ?_⟩
  omega

/-- The latest block with a property is in the window exactly if any block with
the property is. -/
theorem find?_inWindow {past : List Entry} (hs : LatestFirst past) {current window : UInt32}
    (hle : ∀ e ∈ past, e.block.index ≤ current) (p : Entry → Bool) :
    (past.find? p).any (·.inWindow current window) = true ↔
      ∃ e ∈ past, p e = true ∧ e.inWindow current window = true := by
  rcases hf : past.find? p with _ | last
  · rw [List.find?_eq_none] at hf
    constructor
    · intro h
      cases h
    · rintro ⟨e, he, hp, -⟩
      exact absurd hp (hf e he)
  · have hmem := List.mem_of_find?_eq_some hf
    have hlast := List.find?_some hf
    constructor
    · intro h
      exact ⟨last, hmem, hlast, h⟩
    · rintro ⟨e, he, hp, hin⟩
      obtain ⟨-, before, after, rfl, hbefore⟩ := List.find?_eq_some_iff_append.1 hf
      rw [LatestFirst, List.pairwise_append] at hs
      have hlater : e.block.index.toNat ≤ last.block.index.toNat := by
        rcases List.mem_append.1 he with he | he
        · have hnot := hbefore e he
          simp [hp] at hnot
        · rcases List.mem_cons.1 he with rfl | he
          · exact Nat.le_refl _
          · exact Nat.le_of_lt ((List.pairwise_cons.1 hs.2.1).1 e he)
      exact Entry.inWindow_of_le hin hlater (hle last hmem)

/-! ## What the marks tell -/

namespace Ledger

variable {c : Cache} {past : List Entry} {tip : Option BlockPointer}

/-- The marks of signers are looked at one after the other. -/
theorem Tells.anyMarked (h : Tells c past tip) (hash : Hash256) (current window : UInt32)
    (signers : List Hash160) : Ledger.anyMarked c hash current window signers =
      .ok (signers.any fun signer =>
        (past.find? (·.marks hash signer)).any (·.inWindow current window)) := by
  induction signers with
  | nil => rfl
  | cons signer rest ih =>
    have hread : (c.read? (signerKey hash signer) : Outcome (Option TransactionRecord)) =
        .ok ((past.find? (·.marks hash signer)).map (·.stub)) := (h.register.mark hash signer).read?
    unfold Ledger.anyMarked
    rw [hread, ok_bind, List.any_cons]
    rcases hf : past.find? (·.marks hash signer) with _ | e
    · simp only [hf, Option.map_none, Option.any_none, Bool.false_or]
      exact ih
    · have hindex : Ledger.inWindow e.stub.blockIndex current window =
          e.inWindow current window := rfl
      simp only [hf, Option.map_some, Option.any_some, hindex, ih]
      cases e.inWindow current window <;> simp [pure, Except.pure]

/-- The answer to whether a hash has a conflict: no block holds the
transaction, and the last declaration and the last one of some signer are in
the window. -/
theorem Tells.hasConflict (h : Tells c past tip) {current : UInt32}
    (hc : currentIndex c = .ok current) (hash : Hash256) (signers : List Hash160)
    (window : UInt32) : Ledger.hasConflict c hash signers window =
      .ok ((past.findSome? (·.record? hash)).isNone &&
        (past.find? (·.declares hash)).any (·.inWindow current window) &&
        signers.any fun signer =>
          (past.find? (·.marks hash signer)).any (·.inWindow current window)) := by
  have hread : (c.read? (recordKey hash) : Outcome (Option TransactionRecord)) =
      .ok ((Register.of past).record hash) := (h.register.record hash).read?
  unfold Ledger.hasConflict
  rw [hread, ok_bind, Register.record_of]
  rcases hf : past.findSome? (·.record? hash) with _ | v
  · rcases hd : past.find? (·.declares hash) with _ | e
    · simp only [hf, hd]
      rfl
    · have hindex : Ledger.inWindow e.stub.blockIndex current window =
          e.inWindow current window := rfl
      have hstub : e.stub.isStub = true := rfl
      simp only [hf, hd, Option.none_or, Option.map_some, hstub, if_true, hc, ok_bind,
        h.anyMarked, hindex]
      cases hin : e.inWindow current window <;> simp [hin, pure, Except.pure]
  · obtain ⟨e, -, he⟩ := List.exists_of_findSome?_eq_some hf
    simp only [hf, Option.some_or, Entry.isStub_record? he]
    rfl

end Ledger

/-! ## What the marks of a chain tell -/

/-- A transaction of a block that declares a conflict with a hash, signed by
one of some accounts. -/
def Block.DeclaresFor (b : Block) (hash : Hash256) (signers : List Hash160) : Prop :=
  ∃ t ∈ b.transactions, hash ∈ t.declared ∧ ∃ a ∈ t.accounts, a ∈ signers

namespace Chronicle

variable {c : Chain Store} {past : List Entry} (h : Chronicle c past)

include h

theorem latestFirst_reverse : LatestFirst past.reverse := by
  unfold LatestFirst
  rw [List.pairwise_reverse]
  have hrange : (past.map (·.block.index.toNat)).Pairwise (· < ·) := by
    rw [h.indexes]
    exact List.pairwise_lt_range
  exact List.pairwise_map.1 hrange

/-- The tip has the largest index. -/
theorem index_le {last e : Entry} (hlast : past.getLast? = some last) (he : e ∈ past) :
    e.block.index ≤ last.block.index := by
  have hnext := h.index_last hlast
  have hmem := List.mem_map_of_mem (f := fun e : Entry => e.block.index.toNat) he
  rw [h.indexes, List.mem_range] at hmem
  rw [UInt32.le_iff_toNat_le]
  omega

/-- No record is filed under a hash exactly if no transaction has it. -/
theorem findSome?_record_eq_none (hash : Hash256) :
    past.reverse.findSome? (·.record? hash) = none ↔
      ∀ e ∈ past, ∀ t ∈ e.block.transactions, t.hash ≠ hash := by
  rw [List.findSome?_eq_none_iff]
  constructor
  · intro hnone e he t ht heq
    have hentry := hnone e (List.mem_reverse.2 he)
    rw [Entry.record?, Option.map_eq_none_iff, List.find?_eq_none] at hentry
    rw [← h.reported e he] at ht
    obtain ⟨p, hp, rfl⟩ := List.mem_map.1 ht
    exact hentry p hp (by simpa using heq)
  · intro hnone e he
    apply Entry.record?_eq_none
    intro p hp
    have he := List.mem_reverse.1 he
    apply hnone e he
    rw [← h.reported e he]
    exact List.mem_map_of_mem hp

/-- A block marks a signer exactly if a transaction of the signer declares the
conflict. -/
theorem marks_iff {e : Entry} (he : e ∈ past) (hash : Hash256) (signer : Hash160) :
    e.marks hash signer = true ↔
      ∃ t ∈ e.block.transactions, hash ∈ t.declared ∧ signer ∈ t.accounts := by
  unfold Entry.marks
  rw [← h.reported e he]
  simp

omit h in
/-- A marked signer has a declared conflict. -/
theorem declares_of_marks {e : Entry} {hash : Hash256} {signer : Hash160}
    (hm : e.marks hash signer = true) : e.declares hash = true := by
  unfold Entry.marks at hm
  unfold Entry.declares
  rw [List.any_eq_true] at hm ⊢
  obtain ⟨p, hp, hboth⟩ := hm
  rw [Bool.and_eq_true] at hboth
  exact ⟨p, hp, hboth.1⟩

end Chronicle

namespace Ledger

/-- A conflict with a hash shows for some signers exactly if no block of the
chain holds a transaction with that hash, and a block in the window holds one
that one of them signed and that declares the conflict. -/
theorem a_conflict_shows_in_its_window {settings : Settings} {c : Chain Store} {past : List Entry}
    (h : Grown settings c past) (hash : Hash256) (signers : List Hash160) (window : UInt32) :
    ∃ height answer, c.height = .ok height ∧
      hasConflict c.snapshot hash signers window = .ok answer ∧
      (answer = true ↔
        (∀ e ∈ past, ∀ t ∈ e.block.transactions, t.hash ≠ hash) ∧
        ∃ e ∈ past, e.block.index ≤ height ∧
          height.toNat < e.block.index.toNat + window.toNat ∧
          e.block.DeclaresFor hash signers) := by
  have hc := h.chronicle
  obtain ⟨last, hlast⟩ := h.exists_last
  have hheight : currentIndex c.snapshot = .ok last.block.index := (hc.tip_eq hlast).2
  have hlatest : ∀ p, (past.reverse.find? p).any (·.inWindow last.block.index window) = true ↔
      ∃ e ∈ past, p e = true ∧ e.inWindow last.block.index window = true := by
    intro p
    rw [find?_inWindow hc.latestFirst_reverse]
    · simp only [List.mem_reverse]
    · intro e he
      exact hc.index_le hlast (List.mem_reverse.1 he)
  refine ⟨last.block.index, _, hheight, hc.tells.hasConflict hheight hash signers window, ?_⟩
  rw [Bool.and_eq_true, Bool.and_eq_true, Option.isNone_iff_eq_none, hc.findSome?_record_eq_none,
    List.any_eq_true, hlatest]
  constructor
  · rintro ⟨⟨hnone, -⟩, signer, hsigner, hmark⟩
    rw [hlatest] at hmark
    obtain ⟨e, he, hmark, hin⟩ := hmark
    obtain ⟨t, ht, hdeclared, hsigned⟩ := (hc.marks_iff he hash signer).1 hmark
    rw [Entry.inWindow_iff] at hin
    exact ⟨hnone, e, he, hin.1, hin.2, t, ht, hdeclared, signer, hsigned, hsigner⟩
  · rintro ⟨hnone, e, he, hle, hlt, t, ht, hdeclared, signer, hsigned, hsigner⟩
    have hmark := (hc.marks_iff he hash signer).2 ⟨t, ht, hdeclared, hsigned⟩
    have hin := (Entry.inWindow_iff e last.block.index window).2 ⟨hle, hlt⟩
    refine ⟨⟨hnone, e, he, Chronicle.declares_of_marks hmark, hin⟩, signer, hsigner, ?_⟩
    rw [hlatest]
    exact ⟨e, he, hmark, hin⟩

/-- On the small chain the conflict with the zero hash shows for its signer. -/
theorem sample_conflict : Grown Sample.settings Sample.chain Sample.past ∧
    hasConflict Sample.chain.snapshot (.zero 32) [Sample.holder] 100 = .ok true := by
  have hdeclares : Sample.block.DeclaresFor (.zero 32) [Sample.holder] :=
    ⟨Sample.transaction 2 [.zero 32], by simp [Sample.block, Sample.transactions],
      by decide +kernel, Sample.holder, by decide +kernel, by simp⟩
  have hother : ∀ t ∈ Sample.block.transactions, t.hash ≠ .zero 32 := by decide +kernel
  have hlast : Sample.chain.height = .ok 1 :=
    (Sample.grown.chronicle.tip_eq (e := ⟨Sample.block, _⟩) rfl).2
  obtain ⟨height, answer, hheight, hanswer, hiff⟩ :=
    a_conflict_shows_in_its_window Sample.grown (.zero 32) [Sample.holder] 100
  rw [hlast] at hheight
  cases hheight
  refine ⟨Sample.grown, ?_⟩
  rw [hanswer, hiff.2]
  refine ⟨?_, ⟨Sample.block, _⟩, List.mem_append_right _ (List.mem_singleton_self _), ?_, ?_,
    hdeclares⟩
  · intro e he t ht
    apply hother
    rwa [← Sample.block_of_mem he ht]
  · decide
  · decide

end Ledger
end BlockLedger
