-- What a chain answers about its history. Every block reads back as it was
-- taken up, however many later blocks wrote to the records it is put
-- together from, and every transaction has the record of the last block
-- that holds it.
import Mathlib.Data.List.Nodup
import BlockLedger.Proofs.CallFailures
import BlockLedger.Proofs.Refusals

namespace BlockLedger

/-! ## Reading what a cache tells -/

theorem find?_eq_some_of_unique {α : Type} {l : List α} {p : α → Bool} {a : α} (ha : a ∈ l)
    (hp : p a = true) (h : ∀ b ∈ l, p b = true → b = a) : l.find? p = some a := by
  rcases hf : l.find? p with _ | b
  · rw [List.find?_eq_none] at hf
    exact absurd hp (hf a ha)
  · rw [h b (List.mem_of_find?_eq_some hf) (List.find?_some hf)]

namespace Ledger

variable {c : Cache} {past : List Entry} {tip : Option BlockPointer}

theorem Tells.hashAt? (h : Tells c past tip) (index : UInt32) : Ledger.hashAt? c index =
    .ok (((past.map Entry.block).find? (·.index = index)).map Block.hash) := by
  unfold Ledger.hashAt?
  rw [h.hashes]
  rcases hf : (past.map Entry.block).find? (·.index = index) with _ | b
  · simp only [hf, Option.map_none]
  · simp only [hf, Option.map_some, Item.bytes, Fixed.ofBytes?_bytes]

theorem Tells.trimmedBlock? (h : Tells c past tip) (hash : Hash256) : Ledger.trimmedBlock? c hash =
    .ok (((past.map Entry.block).find? (·.hash = hash)).map Block.trim) := by
  unfold Ledger.trimmedBlock?
  rw [h.blocks]
  rcases hf : (past.map Entry.block).find? (·.hash = hash) with _ | b
  · simp only [hf, Option.map_none]
  · simp only [hf, Option.map_some, Item.bytes, TrimmedBlock.decode_bytes]

/-- The record of a transaction is the one that the last block with it files. -/
theorem Tells.record? (h : Tells c past tip) (hash : Hash256) :
    Ledger.record? c hash = .ok (past.findSome? (·.record? hash)) := by
  have hread : (c.read? (recordKey hash) : Outcome (Option TransactionRecord)) =
      .ok ((Register.of past).record hash) := (h.register.record hash).read?
  unfold Ledger.record?
  rw [hread, ok_bind, Register.record_of]
  change Except.ok _ = Except.ok _
  rcases hf : past.findSome? (·.record? hash) with _ | v
  · rcases hd : past.find? (·.declares hash) with _ | e <;> simp only [hf, hd] <;> rfl
  · obtain ⟨e, -, he⟩ := List.exists_of_findSome?_eq_some hf
    simp only [hf, Option.some_or, Option.filter_some, Entry.isStub_record? he]
    rfl

end Ledger

/-! ## Reading the history of a chain -/

/-- No two different transactions of a history have the same hash. -/
def HashesTellApart (past : List Entry) : Prop :=
  ∀ e ∈ past, ∀ e' ∈ past, ∀ t ∈ e.block.transactions, ∀ t' ∈ e'.block.transactions,
    t.hash = t'.hash → t = t'

/-- A block files the state that was reported for each transaction. -/
theorem Entry.record?_of_mem {e : Entry} {t : Transaction} {s : VmState}
    (hd : (e.reported.map (·.1.hash)).Nodup) (h : (t, s) ∈ e.reported) :
    e.record? t.hash = some ⟨e.block.index, some t, s⟩ := by
  have hfind : e.reported.find? (fun p => p.1.hash = t.hash) = some (t, s) := by
    refine find?_eq_some_of_unique h (by simp) fun p hp heq => ?_
    exact List.inj_on_of_nodup_map hd hp h (of_decide_eq_true heq)
  rw [Entry.record?, hfind]
  rfl

/-- Every transaction has a last block. -/
theorem exists_last_block {past : List Entry} {t : Transaction} {e : Entry} (he : e ∈ past)
    (ht : t ∈ e.block.transactions) : ∃ before last after, past = before ++ last :: after ∧
      t ∈ last.block.transactions ∧ ∀ e' ∈ after, t ∉ e'.block.transactions := by
  induction past generalizing e with
  | nil => cases he
  | cons first rest ih =>
    by_cases hrest : ∃ e' ∈ rest, t ∈ e'.block.transactions
    · obtain ⟨e', he', ht'⟩ := hrest
      obtain ⟨before, last, after, rfl, hlast, hnone⟩ := ih he' ht'
      exact ⟨first :: before, last, after, rfl, hlast, hnone⟩
    · rcases List.mem_cons.1 he with rfl | he
      · exact ⟨[], e, rest, rfl, ht, fun e' he' ht' => hrest ⟨e', he', ht'⟩⟩
      · exact absurd ⟨e, he, ht⟩ hrest

namespace Chronicle

variable {c : Chain Store} {past : List Entry} (h : Chronicle c past)

include h

/-- No block reports two transactions with the same hash. -/
theorem nodup_reported {e : Entry} (he : e ∈ past) : (e.reported.map (·.1.hash)).Nodup := by
  have hd := h.distinct e he
  rw [← h.reported e he, List.map_map] at hd
  exact hd

theorem exists_reported {e : Entry} {t : Transaction} (he : e ∈ past)
    (ht : t ∈ e.block.transactions) : ∃ s, (t, s) ∈ e.reported := by
  rw [← h.reported e he] at ht
  obtain ⟨⟨t', s⟩, hp, rfl⟩ := List.mem_map.1 ht
  exact ⟨s, hp⟩

/-- The record of a transaction is that of the last block that holds it. -/
theorem record?_of_last (hu : HashesTellApart past) {before after : List Entry} {e : Entry}
    {t : Transaction} {s : VmState} (hpast : past = before ++ e :: after)
    (ht : (t, s) ∈ e.reported) (hlast : ∀ e' ∈ after, t ∉ e'.block.transactions) :
    Ledger.record? c.snapshot t.hash = .ok (some ⟨e.block.index, some t, s⟩) := by
  have he : e ∈ past := by simp [hpast]
  have hblock : t ∈ e.block.transactions := by
    rw [← h.reported e he]
    exact List.mem_map_of_mem ht
  have hnone : after.reverse.findSome? (·.record? t.hash) = none := by
    rw [List.findSome?_eq_none_iff]
    intro e' he'
    have hafter : e' ∈ after := List.mem_reverse.1 he'
    have hmem : e' ∈ past := by simp [hpast, hafter]
    apply Entry.record?_eq_none
    intro p hp heq
    have hp' : p.1 ∈ e'.block.transactions := by
      rw [← h.reported e' hmem]
      exact List.mem_map_of_mem hp
    have hsame := hu e' hmem e he p.1 hp' t hblock heq
    exact hlast e' hafter (hsame ▸ hp')
  rw [h.tells.record?, hpast, List.reverse_append, List.reverse_cons, List.append_assoc,
    List.findSome?_append, hnone, Option.none_or, List.singleton_append, List.findSome?_cons,
    Entry.record?_of_mem (h.nodup_reported he) ht]

/-- A transaction of the history is read back. -/
theorem transaction?_of_mem (hu : HashesTellApart past) {e : Entry} {t : Transaction}
    (he : e ∈ past)
    (ht : t ∈ e.block.transactions) : Ledger.transaction? c.snapshot t.hash = .ok (some t) := by
  obtain ⟨before, last, after, hpast, hlast, hnone⟩ := exists_last_block he ht
  have hmem : last ∈ past := by simp [hpast]
  obtain ⟨s, hs⟩ := h.exists_reported hmem hlast
  unfold Ledger.transaction?
  rw [h.record?_of_last hu hpast hs hnone]
  rfl

/-- The transactions that a block lists are those it was taken up with. -/
theorem listed_of_mem (hu : HashesTellApart past) {e : Entry} (he : e ∈ past) (holder : Hash256) :
    Ledger.listed c.snapshot holder (e.block.transactions.map (·.hash)) =
      .ok e.block.transactions := by
  apply mapM_ok
  intro t ht
  rw [h.transaction?_of_mem hu he ht]
  rfl

/-- The block at a place has the index of the place. -/
theorem find?_index (index : UInt32) :
    (past.reverse.map Entry.block).find? (·.index = index) =
      (past[index.toNat]?).map Entry.block := by
  have hplace : ∀ n : Nat, ∀ e, past[n]? = some e → e.block.index.toNat = n := by
    intro n e he
    have hn : n < past.length := (List.getElem?_eq_some_iff.1 he).1
    have hmap : (past.map (·.block.index.toNat))[n]? = some e.block.index.toNat := by
      rw [List.getElem?_map, he]
      rfl
    rw [h.indexes, List.getElem?_range hn] at hmap
    exact (Option.some.inj hmap).symm
  rcases hget : past[index.toNat]? with _ | e
  · rw [Option.map_none, List.find?_eq_none]
    intro b hb
    obtain ⟨e, he, rfl⟩ := List.mem_map.1 hb
    obtain ⟨n, hn⟩ := List.mem_iff_getElem?.1 (List.mem_reverse.1 he)
    intro heq
    rw [← of_decide_eq_true heq, hplace n e hn, hn] at hget
    cases hget
  · have he : e ∈ past := List.mem_of_getElem? hget
    refine find?_eq_some_of_unique (List.mem_map_of_mem (List.mem_reverse.2 he)) ?_ ?_
    · simpa using UInt32.toNat_inj.1 (hplace _ e hget)
    · intro b hb heq
      obtain ⟨e', he', rfl⟩ := List.mem_map.1 hb
      obtain ⟨n, hn⟩ := List.mem_iff_getElem?.1 (List.mem_reverse.1 he')
      rw [← of_decide_eq_true heq, hplace n e' hn, hn] at hget
      rw [Option.some.inj hget]

omit h in
/-- A block is found under a key that no other block has. -/
theorem find?_of_nodup {κ : Type} [DecidableEq κ] {f : Block → κ}
    (hf : (past.map fun e => f e.block).Nodup) {e : Entry} (he : e ∈ past) :
    (past.reverse.map Entry.block).find? (fun b => f b = f e.block) = some e.block := by
  refine find?_eq_some_of_unique (List.mem_map_of_mem (List.mem_reverse.2 he)) (by simp) ?_
  intro b hb heq
  obtain ⟨e', he', rfl⟩ := List.mem_map.1 hb
  rw [List.inj_on_of_nodup_map hf (List.mem_reverse.1 he') he (of_decide_eq_true heq)]

/-- The only block with the hash of a block is that block. -/
theorem find?_hash {e : Entry} (he : e ∈ past) :
    (past.reverse.map Entry.block).find? (·.hash = e.block.hash) = some e.block :=
  find?_of_nodup h.hashes he

/-- A block reads back by its hash. -/
theorem block?_hash (hu : HashesTellApart past) {e : Entry} (he : e ∈ past) :
    Ledger.block? c.snapshot (.hash e.block.hash) = .ok (some e.block) := by
  unfold Ledger.block? Ledger.resolve
  rw [ok_bind]
  dsimp only
  rw [h.tells.trimmedBlock?, h.find?_hash he, Option.map_some, ok_bind]
  dsimp only [Block.trim]
  rw [h.listed_of_mem hu he]
  rfl

theorem block?_hash_of_new {hash : Hash256} (hnew : ∀ e ∈ past, e.block.hash ≠ hash) :
    Ledger.block? c.snapshot (.hash hash) = .ok none := by
  have hfind : (past.reverse.map Entry.block).find? (·.hash = hash) = none := by
    rw [List.find?_eq_none]
    intro b hb
    obtain ⟨e, he, rfl⟩ := List.mem_map.1 hb
    simpa using hnew e (List.mem_reverse.1 he)
  unfold Ledger.block? Ledger.resolve
  rw [ok_bind]
  dsimp only
  rw [h.tells.trimmedBlock?, hfind]
  rfl

/-- A block reads back by its index, and above the tip there is none. -/
theorem block?_index (hu : HashesTellApart past) (index : UInt32) :
    c.block? index = .ok ((past[index.toNat]?).map Entry.block) := by
  have hresolve : Ledger.resolve c.snapshot (.index index) =
      .ok ((past[index.toNat]?).map fun e => e.block.hash) := by
    unfold Ledger.resolve
    dsimp only
    rw [h.tells.hashAt?, h.find?_index, Option.map_map]
    rfl
  unfold Chain.block? Ledger.block?
  rw [hresolve]
  rcases hget : past[index.toNat]? with _ | e
  · rfl
  · have he : e ∈ past := List.mem_of_getElem? hget
    exact h.block?_hash hu he

theorem blocksFrom_eq (hu : HashesTellApart past) (count index : Nat)
    (hfit : index + count ≤ 2 ^ 32) : Chain.blocksFrom c.snapshot count index =
      .ok (((past.drop index).take count).map Entry.block) := by
  induction count generalizing index with
  | zero => simp [Chain.blocksFrom]
  | succ count ih =>
    have hread : Ledger.block? c.snapshot (.index index.toUInt32) =
        .ok ((past[index]?).map Entry.block) := by
      have hindex : index.toUInt32.toNat = index := by
        rw [UInt32.toNat_ofNat']
        exact Nat.mod_eq_of_lt (by omega)
      have hblock := h.block?_index hu index.toUInt32
      rwa [hindex] at hblock
    unfold Chain.blocksFrom
    rw [hread, ok_bind, ih (index + 1) (by omega), ok_bind]
    rcases hget : past[index]? with _ | e
    · have hlength : past.length ≤ index := List.getElem?_eq_none_iff.1 hget
      rw [List.drop_eq_nil_of_le hlength, List.drop_eq_nil_of_le (Nat.le_succ_of_le hlength)]
      simp [pure, Except.pure]
    · obtain ⟨hlt, rfl⟩ := List.getElem?_eq_some_iff.1 hget
      rw [List.drop_eq_getElem_cons hlt, List.take_succ_cons, List.map_cons]
      rfl

/-- Every block from the genesis block on reads back in order. -/
theorem blocks_eq (hu : HashesTellApart past) {e : Entry} (he : past.getLast? = some e) :
    c.blocks = .ok (past.map Entry.block) := by
  have hlast := h.index_last he
  have hlt := e.block.index.toNat_lt
  unfold Chain.blocks
  rw [(h.tip_eq he).2, ok_bind, h.blocksFrom_eq hu _ 0 (by omega), hlast, List.drop_zero,
    List.take_length]

end Chronicle

/-! ## What a chain answers -/

/-- A transaction that must be on the chain is not there. -/
def Failure.IsMissing (f : Failure) : Prop :=
  (∃ hash, f = .fault (.recordMissing hash)) ∨
    ∃ holder hash, f = .fault (.listedMissing holder hash)

theorem Contract.CallFailure.not_missing {f : Failure} (h : Contract.CallFailure f) :
    ¬ f.IsMissing := by
  rintro (⟨hash, rfl⟩ | ⟨holder, hash, rfl⟩) <;> cases h

/-- Who proposes a block is no question of transactions. -/
theorem Gas.failsIn_proposer (c : Cache) (b : Block) (count : Nat) :
    FailsIn (fun f => ¬ f.IsMissing) (proposer c b count) := by
  unfold proposer Committee.validators
  refine .bind (.bind ?_ fun _ => .ok _) fun validators => ?_
  · intro f hf
    exact (Committee.failsIn_members c f hf).not_missing
  · split
    · exact .ok _
    · refine .error ?_
      rintro (⟨hash, h⟩ | ⟨holder, hash, h⟩) <;> cases h

/-- A chain answers with the blocks that it took up. -/
structure Chain.Faithful (c : Chain Store) (past : List Entry) : Prop where
  /-- The tip is the last block, and its index is its place. -/
  tip : ∃ last, past.getLast? = some last ∧ c.tipHash = .ok last.block.hash ∧
    c.height = .ok last.block.index ∧ last.block.index.toNat + 1 = past.length
  by_index (index : UInt32) : c.block? index = .ok ((past[index.toNat]?).map Entry.block)
  by_hash : ∀ e ∈ past, Ledger.block? c.snapshot (.hash e.block.hash) = .ok (some e.block)
  unknown (hash : Hash256) : (∀ e ∈ past, e.block.hash ≠ hash) →
    Ledger.block? c.snapshot (.hash hash) = .ok none
  blocks : c.blocks = .ok (past.map Entry.block)
  /-- Every transaction has the record of the last block that holds it. -/
  records : ∀ e ∈ past, ∀ t ∈ e.block.transactions, ∃ before last after state,
    past = before ++ last :: after ∧ (t, state) ∈ last.reported ∧
    (∀ e' ∈ after, t ∉ e'.block.transactions) ∧
    Ledger.record? c.snapshot t.hash = .ok (some ⟨last.block.index, some t, state⟩)
  /-- A block whose scripts miss no transaction misses none. -/
  unmissed {σ : Type} {exec : Executor σ} {s s' : σ} {block : Block} {f : Failure} :
    exec.OnlyCalls → c.persist exec s block = (.error f, s') → f.IsMissing → exec.Raises f
  /-- No call misses a transaction. -/
  calls (m : Machine) (address : Hash160) (method : String) (args : List StackItem) (f : Failure) :
    ((Contract.call address method args).run m).1 = .error f → ¬ f.IsMissing

/-- Whatever blocks a chain took up, with whatever scripts, it answers with
exactly these blocks and with the states that were reported last. -/
theorem the_history_reads_back {settings : Settings} {c : Chain Store} {past : List Entry}
    (h : Grown settings c past) (hu : HashesTellApart past) : c.Faithful past := by
  have hc := h.chronicle
  obtain ⟨last, hlast⟩ := h.exists_last
  obtain ⟨htip, hheight⟩ := hc.tip_eq hlast
  refine ⟨⟨last, hlast, htip, hheight, hc.index_last hlast⟩, hc.block?_index hu,
    fun e he => hc.block?_hash hu he, fun hash hnew => hc.block?_hash_of_new hnew,
    hc.blocks_eq hu hlast, ?_, ?_, ?_⟩
  · intro e he t ht
    obtain ⟨before, last, after, hpast, hmem, hnone⟩ := exists_last_block he ht
    have hin : last ∈ past := by simp [hpast]
    obtain ⟨s, hs⟩ := hc.exists_reported hin hmem
    exact ⟨before, last, after, s, hpast, hs, hnone, hc.record?_of_last hu hpast hs hnone⟩
  · intro σ exec s s' block f hexec hp hmiss
    cases Chain.persist_refused h hexec hp with
    | rejected r => rcases hmiss with ⟨hash, h⟩ | ⟨holder, hash, h⟩ <;> cases h
    | repeated e => rcases hmiss with ⟨hash, h⟩ | ⟨holder, hash, h⟩ <;> cases h
    | uncovered t => rcases hmiss with ⟨hash, h⟩ | ⟨holder, hash, h⟩ <;> cases h
    | raised hraise => exact hraise
    | unproposed hf => exact absurd hmiss (Gas.failsIn_proposer _ _ _ _ hf)
  · intro m address method args f hf
    exact (Contract.failsIn_call address method args m f hf).not_missing

theorem Sample.hashesTellApart : HashesTellApart Sample.past := by
  intro e he e' he' t ht t' ht' heq
  rw [Sample.block_of_mem he' ht', ← Sample.block_of_mem he ht] at ht'
  exact List.inj_on_of_nodup_map (Sample.grown.chronicle.distinct e he) ht ht' heq

/-- The small chain holds two transactions with different hashes. -/
theorem sample_history : Grown Sample.settings Sample.chain Sample.past ∧
    HashesTellApart Sample.past ∧ Sample.chain.Faithful Sample.past :=
  ⟨Sample.grown, Sample.hashesTellApart,
    the_history_reads_back Sample.grown Sample.hashesTellApart⟩

end BlockLedger
