-- What calls tell of the history. The ledger shows scripts a block, under its
-- index or its hash, and a transaction under its hash, as long as fewer than a
-- number of blocks have followed. For a transaction the last block that holds
-- it counts, and a mark of a conflict is never taken for one.
import BlockLedger.Proofs.Indices
import BlockLedger.Proofs.Intact

namespace BlockLedger

/-! ## Blocks and transactions of a history -/

/-- Whether a reference denotes a block. -/
def Block.IsAt (b : Block) : BlockRef → Prop
  | .index index => b.index = index
  | .hash hash => b.hash = hash

/-- Whether fewer than `window` blocks have followed, up to a height. -/
def Entry.Within (e : Entry) (height window : UInt32) : Prop :=
  height.toNat < e.block.index.toNat + window.toNat

instance (e : Entry) (height window : UInt32) : Decidable (e.Within height window) :=
  inferInstanceAs (Decidable (_ < _))

/-- The last block of a history that holds a transaction. -/
def LastWith (past : List Entry) (e : Entry) (t : Transaction) : Prop :=
  ∃ before after, past = before ++ e :: after ∧ t ∈ e.block.transactions ∧
    ∀ e' ∈ after, t ∉ e'.block.transactions

theorem LastWith.mem {past : List Entry} {e : Entry} {t : Transaction} (h : LastWith past e t) :
    e ∈ past ∧ t ∈ e.block.transactions := by
  obtain ⟨before, after, rfl, ht, -⟩ := h
  exact ⟨List.mem_append_right _ List.mem_cons_self, ht⟩

/-- A transaction that is signed can be shown, and is shown as something. -/
theorem Transaction.toItem_ok {t : Transaction} (h : t.signers ≠ []) :
    ∃ item, t.toItem = .ok item ∧ item ≠ .null := by
  obtain ⟨sender, hsender⟩ := Transaction.succeeds_sender h
  unfold Transaction.toItem
  rw [hsender]
  exact ⟨_, rfl, nofun⟩

namespace Ledger

/-- The answer of the ledger to a call. -/
def asked (m : Machine) (method : String) (args : List StackItem) : Outcome StackItem :=
  ((Contract.call Contract.ledger.address method args).run m).1

theorem asked_eq (m : Machine) (method : String) (args : List StackItem) :
    asked m method args = answer m.cache m.settings.maxTraceableBlocks method args := by
  unfold asked Contract.call
  rw [Contract.ofAddress?_address]
  dsimp only [Contract.invoke]
  unfold invoke
  rw [Run.run_bind_of_ok (Run.run_settings m), Run.run_query]

theorem recordArgument?_ofHash (c : Cache) (window : UInt32) (hash : Hash256) :
    recordArgument? c window [.ofHash hash] = visibleRecord? c window hash := by
  have harg : hashArgument 32 [.ofHash hash] 0 "hash" = .ok hash := by
    unfold hashArgument
    rw [bytesArgument_eq_ok (s := hash.bytes) rfl, ok_bind, Fixed.ofBytes?_bytes]
    rfl
  unfold recordArgument?
  rw [harg]
  rfl

end Ledger

/-! ## What is visible of a chain -/

namespace Chronicle

variable {c : Chain Store} {past : List Entry} (h : Chronicle c past)

include h

/-- The only block with the index of a block is that block. -/
theorem find?_index_of_mem {e : Entry} (he : e ∈ past) :
    (past.reverse.map Entry.block).find? (·.index = e.block.index) = some e.block := by
  refine find?_of_nodup (List.Nodup.of_map UInt32.toNat ?_) he
  rw [List.map_map]
  exact h.indexes ▸ List.nodup_range

theorem resolve_of_mem {e : Entry} {ref : BlockRef} (he : e ∈ past) (hat : e.block.IsAt ref) :
    Ledger.resolve c.snapshot ref = .ok (some e.block.hash) := by
  cases ref with
  | index index =>
    have hindex : e.block.index = index := hat
    rw [Ledger.resolve, h.tells.hashAt?, ← hindex, h.find?_index_of_mem he, Option.map_some]
  | hash hash =>
    have hhash : e.block.hash = hash := hat
    rw [Ledger.resolve, hhash]

variable {last : Entry} (hlast : past.getLast? = some last)

include hlast

theorem isTraceable_eq (index window : UInt32) : Ledger.isTraceable c.snapshot index window =
    .ok (Ledger.inWindow index last.block.index window) := by
  have hheight : Ledger.currentIndex c.snapshot = .ok last.block.index := (h.tip_eq hlast).2
  unfold Ledger.isTraceable
  rw [hheight]
  rfl

/-- No block is above the tip, so that only its age counts. -/
theorem inWindow_iff {e : Entry} (he : e ∈ past) (window : UInt32) :
    Ledger.inWindow e.block.index last.block.index window = true ↔
      e.Within last.block.index window := by
  have hwindow := Entry.inWindow_iff e last.block.index window
  rw [Entry.inWindow, and_iff_right (h.index_le hlast he)] at hwindow
  exact hwindow

/-- A block that an argument denotes is visible exactly in its window. -/
theorem visibleBlock?_of_mem {args : List StackItem} {ref : BlockRef} {e : Entry}
    (harg : blockArgument args 0 "indexOrHash" = .ok ref) (he : e ∈ past)
    (hat : e.block.IsAt ref) (window : UInt32) : Ledger.visibleBlock? c.snapshot window args =
      .ok (if e.Within last.block.index window then some e.block.trim else none) := by
  have hindex : e.block.trim.header.index = e.block.index := rfl
  unfold Ledger.visibleBlock?
  rw [harg, ok_bind, h.resolve_of_mem he hat, ok_bind]
  dsimp only
  rw [h.tells.trimmedBlock?, h.find?_hash he, Option.map_some, ok_bind]
  dsimp only
  rw [hindex, h.isTraceable_eq hlast, ok_bind]
  simp only [h.inWindow_iff hlast he]
  rfl

omit hlast in
theorem visibleBlock?_of_none {args : List StackItem} {ref : BlockRef}
    (harg : blockArgument args 0 "indexOrHash" = .ok ref)
    (hnone : ∀ e ∈ past, ¬ e.block.IsAt ref) (window : UInt32) :
    Ledger.visibleBlock? c.snapshot window args = .ok none := by
  unfold Ledger.visibleBlock?
  rw [harg, ok_bind]
  cases ref with
  | index index =>
    have hfind : (past.reverse.map Entry.block).find? (·.index = index) = none := by
      simpa [List.find?_eq_none, Block.IsAt] using hnone
    rw [Ledger.resolve, h.tells.hashAt?, hfind]
    rfl
  | hash hash =>
    have hfind : (past.reverse.map Entry.block).find? (·.hash = hash) = none := by
      simpa [List.find?_eq_none, Block.IsAt] using hnone
    rw [Ledger.resolve, ok_bind]
    dsimp only
    rw [h.tells.trimmedBlock?, hfind]
    rfl

/-- A transaction is visible exactly in the window of the last block with it. -/
theorem visibleRecord?_of_last (hu : HashesTellApart past) {e : Entry} {t : Transaction}
    (ht : LastWith past e t) (window : UInt32) : ∃ state,
      Ledger.visibleRecord? c.snapshot window t.hash =
        .ok (if e.Within last.block.index window then some ⟨e.block.index, some t, state⟩
          else none) := by
  obtain ⟨he, hmem⟩ := ht.mem
  obtain ⟨before, after, hpast, -, hnone⟩ := ht
  obtain ⟨state, hstate⟩ := h.exists_reported he hmem
  refine ⟨state, ?_⟩
  unfold Ledger.visibleRecord?
  rw [h.record?_of_last hu hpast hstate hnone, ok_bind]
  dsimp only
  rw [h.isTraceable_eq hlast, ok_bind]
  simp only [h.inWindow_iff hlast he]
  rfl

omit hlast in
theorem visibleRecord?_of_none {hash : Hash256}
    (hnone : ∀ e ∈ past, ∀ t ∈ e.block.transactions, t.hash ≠ hash) (window : UInt32) :
    Ledger.visibleRecord? c.snapshot window hash = .ok none := by
  unfold Ledger.visibleRecord?
  rw [h.tells.record?, (h.findSome?_record_eq_none hash).2 hnone]
  rfl

end Chronicle

/-! ## What is answered -/

namespace Ledger

section Answers

variable (c : Cache) (window : UInt32)

theorem answer_getBlock (s : Bytes) : answer c window "getBlock" [.byteString s] =
    (visibleBlock? c window [.byteString s]).map fun b =>
      (b.map TrimmedBlock.toItem).getD .null := by
  rcases h : visibleBlock? c window [.byteString s] with f | _ | b
  all_goals
    simp only [answer, h]
    rfl

variable {c window}

/-- What is answered about the transaction of a visible record. -/
theorem answers_of_visible {hash : Hash256} {index : UInt32} {t : Transaction} {state : VmState}
    (h : visibleRecord? c window hash = .ok (some ⟨index, some t, state⟩)) :
    answer c window "getTransaction" [.ofHash hash] = t.toItem ∧
    answer c window "getTransactionSigners" [.ofHash hash] =
      .ok (.array (t.signers.map Signer.toItem)) ∧
    answer c window "getTransactionHeight" [.ofHash hash] = .ok (.integer index.toNat) := by
  simp only [answer, recordArgument?_ofHash, h]
  exact ⟨rfl, rfl, rfl⟩

theorem answers_of_hidden {hash : Hash256} (h : visibleRecord? c window hash = .ok none) :
    answer c window "getTransaction" [.ofHash hash] = .ok .null ∧
    answer c window "getTransactionSigners" [.ofHash hash] = .ok .null ∧
    answer c window "getTransactionHeight" [.ofHash hash] = .ok (.integer (-1)) := by
  simp only [answer, recordArgument?_ofHash, h]
  exact ⟨rfl, rfl, rfl⟩

theorem hashInBlock_of_lt {hashes : List Hash256} {place : Nat} (h : place < hashes.length) :
    hashInBlock hashes place = .ok hashes[place] := by
  unfold hashInBlock
  rw [if_neg (by omega), Int.toNat_natCast, List.getElem?_eq_getElem h]

theorem hashInBlock_of_outside {hashes : List Hash256} {place : Int}
    (h : place < 0 ∨ hashes.length ≤ place) :
    hashInBlock hashes place = refuse (.noSuchTransaction place hashes.length) := by
  unfold hashInBlock
  by_cases hneg : place < 0
  · rw [if_pos hneg]
  · rw [if_neg hneg, List.getElem?_eq_none (by omega)]

/-- What is answered about a place in a visible block. -/
theorem transactionFromBlock_eq {s : Bytes} {b : TrimmedBlock} (place : Int)
    (h : visibleBlock? c window [.byteString s, .integer place] = .ok (some b)) :
    answer c window "getTransactionFromBlock" [.byteString s, .integer place] =
      (hashInBlock b.hashes place >>= fun hash => do
        match ← transaction? c hash with
        | some t => t.toItem
        | none => return .null) := by
  simp only [answer, transactionFromBlock, h]
  rfl

end Answers

/-- A machine shows a block, and its transactions in their places, to those
who name it by a byte string. -/
structure ShowsBlock (m : Machine) (s : Bytes) (b : Block) : Prop where
  block : asked m "getBlock" [.byteString s] = .ok b.trim.toItem
  listed (place : Nat) (h : place < b.transactions.length) : ∃ item,
    b.transactions[place].toItem = .ok item ∧
    asked m "getTransactionFromBlock" [.byteString s, .integer place] = .ok item
  unlisted (place : Int) : place < 0 ∨ b.transactions.length ≤ place →
    asked m "getTransactionFromBlock" [.byteString s, .integer place] =
      refuse (.noSuchTransaction place b.transactions.length)

/-- A machine shows a transaction, with its signers, as one of the block at an
index. -/
structure ShowsTransaction (m : Machine) (t : Transaction) (index : UInt32) : Prop where
  transaction : ∃ item, t.toItem = .ok item ∧ item ≠ .null ∧
    asked m "getTransaction" [.ofHash t.hash] = .ok item
  signers : asked m "getTransactionSigners" [.ofHash t.hash] =
    .ok (.array (t.signers.map Signer.toItem))
  height : asked m "getTransactionHeight" [.ofHash t.hash] = .ok (.integer index.toNat)

/-- A machine shows no transaction under a hash. -/
structure HidesTransaction (m : Machine) (hash : Hash256) : Prop where
  transaction : asked m "getTransaction" [.ofHash hash] = .ok .null
  signers : asked m "getTransactionSigners" [.ofHash hash] = .ok .null
  height : asked m "getTransactionHeight" [.ofHash hash] = .ok (.integer (-1))

/-- A machine shows what is in a window of a history that ends at a height. -/
structure ShowsWindow (m : Machine) (past : List Entry) (height window : UInt32) : Prop where
  /-- Something is shown exactly if a block of the window is named. -/
  block {s : Bytes} {ref : BlockRef} : Names s ref → ∃ answer,
    asked m "getBlock" [.byteString s] = .ok answer ∧
    (answer ≠ .null ↔ ∃ e ∈ past, e.block.IsAt ref ∧ e.Within height window)
  /-- It is that block, whichever way it is named. -/
  shown {s : Bytes} {ref : BlockRef} {e : Entry} : Names s ref → e ∈ past → e.block.IsAt ref →
    e.Within height window → ShowsBlock m s e.block
  /-- A byte string that can name no block is refused. -/
  unnamed {s : Bytes} : (∀ ref, ¬ Names s ref) → ∃ e, asked m "getBlock" [.byteString s] = refuse e
  /-- For a transaction the last block with it has to be in the window. -/
  present {e : Entry} {t : Transaction} : LastWith past e t → e.Within height window →
    ShowsTransaction m t e.block.index
  absent {hash : Hash256} : (∀ e t, LastWith past e t → t.hash = hash →
    ¬ e.Within height window) → HidesTransaction m hash

section Window

variable {settings : Settings} {c : Chain Store} {past : List Entry} (h : Grown settings c past)
  {last : Entry} (hlast : past.getLast? = some last) {m : Machine} (hcache : m.cache = c.snapshot)

include h hlast hcache

theorem showsBlock (hu : HashesTellApart past) {s : Bytes} {ref : BlockRef} {e : Entry}
    (hnames : Names s ref) (he : e ∈ past) (hat : e.block.IsAt ref)
    (hin : e.Within last.block.index m.settings.maxTraceableBlocks) : ShowsBlock m s e.block := by
  have hc := h.chronicle
  have hvisible (args : List StackItem) (hargs : args[0]? = some (.byteString s)) :
      visibleBlock? m.cache m.settings.maxTraceableBlocks args = .ok (some e.block.trim) := by
    rw [hcache, hc.visibleBlock?_of_mem hlast ((blockArgument_eq_ok_iff hargs _ ref).2 hnames) he
      hat, if_pos hin]
  refine ⟨?_, fun place hplace => ?_, fun place hplace => ?_⟩
  · rw [asked_eq, answer_getBlock, hvisible _ rfl]
    rfl
  · have ht : e.block.transactions[place] ∈ e.block.transactions := List.getElem_mem hplace
    obtain ⟨item, hitem, -⟩ := Transaction.toItem_ok (h.signed e he _ ht)
    refine ⟨item, hitem, ?_⟩
    rw [asked_eq, transactionFromBlock_eq _ (hvisible _ rfl),
      hashInBlock_of_lt (by simpa [Block.trim] using hplace), ok_bind]
    simp only [Block.trim, List.getElem_map]
    -- The record may be that of a later block; its index is not looked at.
    rw [hcache, hc.transaction?_of_mem hu he ht]
    exact hitem
  · rw [asked_eq, transactionFromBlock_eq _ (hvisible _ rfl),
      hashInBlock_of_outside (by simpa [Block.trim] using hplace)]
    simp only [Block.trim, List.length_map]
    rfl

theorem showsTransaction (hu : HashesTellApart past) {e : Entry} {t : Transaction}
    (ht : LastWith past e t) (hin : e.Within last.block.index m.settings.maxTraceableBlocks) :
    ShowsTransaction m t e.block.index := by
  obtain ⟨he, hmem⟩ := ht.mem
  obtain ⟨item, hitem, hnull⟩ := Transaction.toItem_ok (h.signed e he t hmem)
  obtain ⟨state, hvisible⟩ :=
    h.chronicle.visibleRecord?_of_last hlast hu ht m.settings.maxTraceableBlocks
  rw [if_pos hin, ← hcache] at hvisible
  obtain ⟨htransaction, hsigners, hheight⟩ := answers_of_visible hvisible
  refine ⟨⟨item, hitem, hnull, ?_⟩, ?_, ?_⟩
  · rw [asked_eq, htransaction, hitem]
  · rw [asked_eq, hsigners]
  · rw [asked_eq, hheight]

theorem hidesTransaction (hu : HashesTellApart past) {hash : Hash256}
    (hnone : ∀ e t, LastWith past e t → t.hash = hash →
      ¬ e.Within last.block.index m.settings.maxTraceableBlocks) : HidesTransaction m hash := by
  have hc := h.chronicle
  have hhidden : visibleRecord? m.cache m.settings.maxTraceableBlocks hash = .ok none := by
    rw [hcache]
    by_cases hholds : ∃ e ∈ past, ∃ t ∈ e.block.transactions, t.hash = hash
    · obtain ⟨e, he, t, ht, rfl⟩ := hholds
      obtain ⟨before, holder, after, hpast, hholder, hafter⟩ := exists_last_block he ht
      have hlastWith : LastWith past holder t := ⟨before, after, hpast, hholder, hafter⟩
      obtain ⟨state, hvisible⟩ :=
        hc.visibleRecord?_of_last hlast hu hlastWith m.settings.maxTraceableBlocks
      rw [hvisible, if_neg (hnone holder t hlastWith rfl)]
    · exact hc.visibleRecord?_of_none (fun e he t ht heq => hholds ⟨e, he, t, ht, heq⟩) _
  obtain ⟨htransaction, hsigners, hheight⟩ := answers_of_hidden hhidden
  exact ⟨by rw [asked_eq, htransaction], by rw [asked_eq, hsigners], by rw [asked_eq, hheight]⟩

/-- A block before the window is not shown, and what names no block shows none. -/
theorem getBlock_eq_null {s : Bytes} {ref : BlockRef} (hnames : Names s ref)
    (hnone : ∀ e ∈ past, e.block.IsAt ref →
      ¬ e.Within last.block.index m.settings.maxTraceableBlocks) :
    asked m "getBlock" [.byteString s] = .ok .null := by
  have hc := h.chronicle
  have hargs : ([.byteString s] : List StackItem)[0]? = some (.byteString s) := rfl
  have harg := (blockArgument_eq_ok_iff hargs "indexOrHash" ref).2 hnames
  have hhidden : visibleBlock? m.cache m.settings.maxTraceableBlocks [.byteString s] =
      .ok none := by
    rw [hcache]
    by_cases hholds : ∃ e ∈ past, e.block.IsAt ref
    · obtain ⟨e, he, hat⟩ := hholds
      rw [hc.visibleBlock?_of_mem hlast harg he hat, if_neg (hnone e he hat)]
    · exact hc.visibleBlock?_of_none harg (fun e he hat => hholds ⟨e, he, hat⟩) _
  rw [asked_eq, answer_getBlock, hhidden]
  rfl

end Window

/-- What names nothing is refused. -/
theorem getBlock_of_unnamed (m : Machine) {s : Bytes} (h : ∀ ref, ¬ Names s ref) :
    ∃ e, asked m "getBlock" [.byteString s] = refuse e := by
  have hargs : ([.byteString s] : List StackItem)[0]? = some (.byteString s) := rfl
  obtain ⟨e, he⟩ := blockArgument_of_unnamed hargs "indexOrHash" h
  refine ⟨e, ?_⟩
  rw [asked_eq, answer_getBlock]
  unfold visibleBlock?
  rw [he]
  rfl

/-- On every chain calls see exactly the blocks of the window that the settings
give, and of its transactions those whose last block is one of them. -/
theorem calls_see_the_window {settings : Settings} {c : Chain Store} {past : List Entry}
    (h : Grown settings c past) (hu : HashesTellApart past) {m : Machine}
    (hsettings : m.settings = settings) (hcache : m.cache = c.snapshot) : ∃ height,
      c.height = .ok height ∧ ShowsWindow m past height settings.maxTraceableBlocks := by
  obtain ⟨last, hlast⟩ := h.exists_last
  rw [← hsettings]
  refine ⟨last.block.index, (h.chronicle.tip_eq hlast).2, ?_⟩
  exact {
    block := by
      intro s ref hnames
      by_cases hseen : ∃ e ∈ past, e.block.IsAt ref ∧
          e.Within last.block.index m.settings.maxTraceableBlocks
      · obtain ⟨e, he, hat, hin⟩ := hseen
        have hshown := showsBlock h hlast hcache hu hnames he hat hin
        exact ⟨_, hshown.block, iff_of_true nofun ⟨e, he, hat, hin⟩⟩
      · have hnull := getBlock_eq_null h hlast hcache hnames fun e he hat hin =>
          hseen ⟨e, he, hat, hin⟩
        exact ⟨_, hnull, iff_of_false (fun hne => hne rfl) hseen⟩
    shown := showsBlock h hlast hcache hu
    unnamed := getBlock_of_unnamed m
    present := showsTransaction h hlast hcache hu
    absent := hidesTransaction h hlast hcache hu }

/-- On the small chain the last block is shown under its index, its hash and in
its places. The zero hash, with which it declares a conflict, is that of no
transaction. -/
theorem sample_window : Sample.idle.cache = Sample.chain.snapshot ∧
    asked Sample.idle "getBlock" [.byteString [1, 0]] = .ok Sample.block.trim.toItem ∧
    asked Sample.idle "getBlock" [.ofHash Sample.block.hash] = .ok Sample.block.trim.toItem ∧
    asked Sample.idle "getTransactionFromBlock" [.byteString [1, 0], .integer (-1)] =
      refuse (.noSuchTransaction (-1) 2) ∧
    asked Sample.idle "getTransactionHeight" [.ofHash (Sample.transaction 1 []).hash] =
      .ok (.integer 1) ∧
    asked Sample.idle "getTransaction" [.ofHash (.zero 32 : Hash256)] = .ok .null := by
  obtain ⟨height, hheight, hwindow⟩ :=
    calls_see_the_window Sample.grown Sample.hashesTellApart (m := Sample.idle) rfl rfl
  have htip : Sample.chain.height = .ok 1 :=
    (Sample.grown.chronicle.tip_eq (e := ⟨Sample.block, _⟩) rfl).2
  rw [htip] at hheight
  cases hheight
  have he : ⟨Sample.block, Sample.first.reports Sample.executor () Sample.block⟩ ∈ Sample.past :=
    List.mem_append_right _ (List.mem_singleton_self _)
  have hother : ∀ t ∈ Sample.block.transactions, t.hash ≠ .zero 32 := by decide +kernel
  have hlast : LastWith Sample.past ⟨Sample.block, _⟩ (Sample.transaction 1 []) :=
    ⟨_, [], rfl, by simp [Sample.block, Sample.transactions], nofun⟩
  have hshown := hwindow.shown (.hash Sample.block.hash) he rfl (by decide)
  have hindexed := hwindow.shown (s := [1, 0]) (.index (by decide) (by decide)) he rfl (by decide)
  refine ⟨rfl, hindexed.block, hshown.block, hindexed.unlisted (-1) (.inl (by decide)),
    (hwindow.present hlast (by decide)).height, (hwindow.absent ?_).transaction⟩
  intro e t ht hzero
  obtain ⟨hmem, htx⟩ := ht.mem
  rw [Sample.block_of_mem hmem htx] at htx
  exact absurd hzero (hother t htx)

end Ledger
end BlockLedger
