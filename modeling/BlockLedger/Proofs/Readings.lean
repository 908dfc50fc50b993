-- What the checks of a pool read from a chain. A transaction is looked up
-- in the records and the marks of the ledger, its sender in the accounts,
-- and the policy prices its size. On every chain all of that can be read,
-- so no check fails for want of an answer.
import BlockLedger.Pool.Verdict
import BlockLedger.Proofs.Conflicts
import BlockLedger.Proofs.Fidelity
import BlockLedger.Proofs.Limits

namespace BlockLedger

/-! ## Outcomes that are results -/

/-- An outcome that is no failure. -/
def Succeeds {α : Type} (r : Outcome α) : Prop := ∃ v, r = .ok v

namespace Succeeds

variable {α β : Type} {r : Outcome α}

theorem ok (v : α) : Succeeds (.ok v : Outcome α) := ⟨v, rfl⟩

theorem bind {g : α → Outcome β} (hr : Succeeds r) (hg : ∀ v, r = .ok v → Succeeds (g v)) :
    Succeeds (r >>= g) := by
  obtain ⟨v, rfl⟩ := hr
  exact hg v rfl

theorem map {g : α → β} (hr : Succeeds r) : Succeeds (r.map g) := by
  obtain ⟨v, rfl⟩ := hr
  exact ⟨g v, rfl⟩

theorem ite {c : Prop} [Decidable c] {r r' : Outcome α} (hr : Succeeds r) (hr' : Succeeds r') :
    Succeeds (if c then r else r') := by
  by_cases h : c
  · rwa [if_pos h]
  · rwa [if_neg h]

end Succeeds

/-! ## What a pool looks up -/

/-- A cache where everything can be read that the checks of a pool look up. -/
structure Legible (c : Cache) : Prop where
  known (hash : Hash256) : Succeeds (Ledger.containsTransaction c hash)
  conflict (hash : Hash256) (signers : List Hash160) (window : UInt32) :
    Succeeds (Ledger.hasConflict c hash signers window)
  height : Succeeds (Ledger.currentIndex c)
  fee : Succeeds (Policy.feePerByte c)
  balance (owner : Hash160) : ∃ held, Gas.balance c owner = .ok held ∧ held < 2 ^ 64

namespace Legible

variable {c : Cache}

/-- Every chain can be read. -/
theorem of_grown {settings : Settings} {c : Chain Store} {past : List Entry}
    (h : Grown settings c past) : Legible c.snapshot := by
  have hbooked := Gas.Booked.of_grown h
  have htells := hbooked.chronicle.tells
  obtain ⟨last, hlast⟩ := h.exists_last
  have hheight : Ledger.currentIndex c.snapshot = .ok last.block.index :=
    (hbooked.chronicle.tip_eq hlast).2
  obtain ⟨supply, hsound, -⟩ := hbooked.supply
  obtain ⟨fee, hfee, -⟩ := Policy.kept_priced.of_grown h
  refine ⟨fun hash => ?_, fun hash signers window => ?_, ⟨_, hheight⟩, ⟨fee, hfee⟩, fun owner => ?_⟩
  · unfold Ledger.containsTransaction
    rw [htells.record?]
    exact .ok _
  · rw [htells.hasConflict hheight]
    exact .ok _
  · obtain ⟨a, ha⟩ := Gas.clean_account hsound.clean owner
    exact ⟨_, Gas.balance_of_account ha, Nat.lt_of_le_of_lt (hsound.balance_le ha) hsound.small⟩

theorem anyOnChain (h : Legible c) (hashes : List Hash256) :
    Succeeds (BlockLedger.anyOnChain c hashes) := by
  induction hashes with
  | nil => exact .ok _
  | cons hash rest ih =>
    unfold BlockLedger.anyOnChain
    exact .bind (h.known hash) fun _ _ => .ite (.ok _) ih

/-- The checks of a transaction against the chain always come to a verdict. -/
theorem checkOnChain (h : Legible c) (t : Transaction) (settings : Settings) :
    Succeeds (BlockLedger.checkOnChain t c settings) := by
  unfold BlockLedger.checkOnChain
  refine .bind (h.known t.hash) fun _ _ => .ite (.ok _) ?_
  refine .bind (h.conflict t.hash _ _) fun _ _ => .ite (.ok _) ?_
  refine .bind (h.anyOnChain _) fun _ _ => .ite (.ok _) ?_
  refine .bind h.height fun _ _ => .ite (.ok _) (.ite (.ok _) (.ite (.ok _) ?_))
  exact .bind h.fee fun _ _ => .ite (.ok _) (.ok _)

end Legible
end BlockLedger
