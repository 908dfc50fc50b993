-- Blocks with transactions that the chain has already. What is on record
-- has no say when a block is taken up: a transaction that comes again is
-- recorded anew, as of the later block, and its fees are burned again.
import BlockLedger.Proofs.Acceptance
import BlockLedger.Proofs.Conflicts
import BlockLedger.Proofs.Fidelity

namespace BlockLedger

namespace Chronicle

variable {c : Chain Store} {past : List Entry} {e : Entry} {t : Transaction}

/-- A transaction of any block of the chain is on record. -/
theorem containsTransaction_of_mem (h : Chronicle c past) (he : e ∈ past)
    (ht : t ∈ e.block.transactions) :
    Ledger.containsTransaction c.snapshot t.hash = .ok true := by
  unfold Ledger.containsTransaction
  rw [h.tells.record?, ok_bind]
  rcases hf : past.reverse.findSome? (·.record? t.hash) with _ | r
  · exact absurd rfl ((h.findSome?_record_eq_none t.hash).1 hf e he t ht)
  · simp only [hf]
    rfl

/-- A transaction of the last block has the record of this block, whatever the
blocks before it recorded. -/
theorem record?_of_tip (h : Chronicle c (past ++ [e])) (ht : t ∈ e.block.transactions) :
    ∃ state, Ledger.record? c.snapshot t.hash = .ok (some ⟨e.block.index, some t, state⟩) := by
  have he : e ∈ past ++ [e] := by simp
  obtain ⟨state, hs⟩ := h.exists_reported he ht
  refine ⟨state, ?_⟩
  rw [h.tells.record?, List.reverse_append, List.reverse_singleton, List.singleton_append,
    List.findSome?_cons, Entry.record?_of_mem (h.nodup_reported he) hs]

end Chronicle

namespace Chain

variable {σ : Type} {settings : Settings} {c c' : Chain Store} {past : List Entry} {block : Block}

/-- Each block takes its system fees out of the supply. -/
theorem totalSupply_of_persist {exec : Executor σ} {s s' : σ} {applied : Persisted}
    (h : Grown settings c past) (hexec : exec.OnlyCalls)
    (hp : c.persist exec s block = (.ok (applied, c'), s')) :
    ∃ supply, Gas.totalSupply c.snapshot = .ok (supply + block.systemFee) ∧
      Gas.totalSupply c'.snapshot = .ok supply := by
  obtain ⟨before, hbefore, hsum⟩ := (Gas.Booked.of_grown h).supply
  obtain ⟨after, hafter, hsum'⟩ := (Gas.Booked.of_grown (h.persist hexec hp)).supply
  rw [h.isEmpty, if_neg (by decide)] at hsum
  rw [(h.persist hexec hp).isEmpty, if_neg (by decide), Gas.feesOf_snoc] at hsum'
  dsimp only at hsum'
  have heq : before = after + block.systemFee := by
    unfold Amount at *
    omega
  exact ⟨after, heq ▸ hbefore.total, hafter.total⟩

/-- A block that fits and that every sender can pay for is taken up with the
transactions of earlier blocks in it. Each of them is then recorded for this
block, and its fees are burned like those of a new one. -/
theorem recorded_transactions_count_again (h : Grown settings c past)
    (ha : c.accept block = .ok ()) (hclears : c.Clears past block) (s : σ) {e : Entry}
    {t : Transaction} (he : e ∈ past) (ht : t ∈ e.block.transactions)
    (hagain : t ∈ block.transactions) :
    Ledger.containsTransaction c.snapshot t.hash = .ok true ∧
    ∃ applied c', (c.persist .halting s block).1 = .ok (applied, c') ∧
      (∃ state,
        Ledger.record? c'.snapshot t.hash = .ok (some ⟨block.index, some t, state⟩)) ∧
      ∃ supply, Gas.totalSupply c.snapshot = .ok (supply + block.systemFee) ∧
        Gas.totalSupply c'.snapshot = .ok supply := by
  refine ⟨h.chronicle.containsTransaction_of_mem he ht, ?_⟩
  rcases persist_halting h ha s with ⟨⟨⟨applied, c'⟩, hr⟩, -⟩ | ⟨-, hnot⟩
  · have hp : c.persist .halting s block = (.ok (applied, c'), _) := Prod.ext hr rfl
    have hgrown := h.persist Executor.halting_onlyCalls hp
    exact ⟨applied, c', hr, hgrown.chronicle.record?_of_tip hagain,
      totalSupply_of_persist h Executor.halting_onlyCalls hp⟩
  · exact absurd hclears hnot

end Chain

namespace Sample

/-- A block with the transactions of the block before it. -/
def repetition : Block :=
  ⟨⟨0, block.hash, merkleRoot (transactions.map (·.hash)), 2, 0, 2, 0, holder⟩, transactions⟩

theorem isOk_repetition :
    (chain.persist (Executor.halting : Executor Unit) () repetition).1.isOk = true := by
  decide +kernel

/-- The first of its transactions is on the chain. -/
theorem exists_entry : ∃ e ∈ past, transaction 1 [] ∈ e.block.transactions :=
  ⟨_, List.mem_append_right _ (List.mem_singleton.2 rfl), List.mem_cons_self⟩

end Sample

namespace Chain

/-- It is not so that every transaction of a block that is taken up is new. -/
theorem not_every_transaction_is_new :
    ¬ ∀ (settings : Settings) (c c' : Chain Store) (past : List Entry) (block : Block)
      (applied : Persisted), Grown settings c past →
      c.persist (Executor.halting : Executor Unit) () block = (.ok (applied, c'), ()) →
      ∀ t ∈ block.transactions, Ledger.containsTransaction c.snapshot t.hash = .ok false := by
  intro hall
  obtain ⟨applied, hp⟩ :=
    Sample.persist_given (⟨0, .zero 32, .empty, []⟩, Sample.first) Sample.isOk_repetition
  obtain ⟨e, he, ht⟩ := Sample.exists_entry
  have hagain : Sample.transaction 1 [] ∈ Sample.repetition.transactions := List.mem_cons_self
  have hnew := hall _ _ _ _ _ _ Sample.grown hp _ hagain
  have hold := Sample.grown.chronicle.containsTransaction_of_mem he ht
  rw [hold] at hnew
  cases hnew

/-- The small chain takes up the transactions of its last block once more. -/
theorem sample_repetition :
    Ledger.containsTransaction Sample.chain.snapshot (Sample.transaction 1 []).hash = .ok true ∧
    ∃ applied c',
      (Sample.chain.persist (Executor.halting : Executor Unit) () Sample.repetition).1 =
        .ok (applied, c') ∧
      (∃ state, Ledger.record? c'.snapshot (Sample.transaction 1 []).hash =
        .ok (some ⟨2, some (Sample.transaction 1 []), state⟩)) ∧
      ∃ supply, Gas.totalSupply Sample.chain.snapshot = .ok (supply + 10) ∧
        Gas.totalSupply c'.snapshot = .ok supply := by
  have ha : Sample.chain.accept Sample.repetition = .ok () := by
    rcases ha : Sample.chain.accept Sample.repetition with f | u
    · have hok := Sample.isOk_repetition
      rw [persist_eq, ha] at hok
      cases hok
    · rfl
  have hclears : Sample.chain.Clears Sample.past Sample.repetition := by
    rcases persist_halting Sample.grown ha () with ⟨-, hclears⟩ | ⟨⟨fault, hr⟩, -⟩
    · exact hclears
    · have hok := Sample.isOk_repetition
      rw [hr] at hok
      cases hok
  obtain ⟨e, he, ht⟩ := Sample.exists_entry
  have hagain : Sample.transaction 1 [] ∈ Sample.repetition.transactions := List.mem_cons_self
  have hfees : Sample.repetition.systemFee = 10 := by decide +kernel
  have hcounts := recorded_transactions_count_again Sample.grown ha hclears () he ht hagain
  rwa [hfees] at hcounts

end Chain
end BlockLedger
