-- The pool of one snapshot. Between two blocks every offer is checked
-- against the same balances, while earlier transactions are replaced,
-- evicted or taken out. Nobody ever has more fees pooled than it holds.
import BlockLedger.Proofs.Solvency

namespace BlockLedger.Pool

/-- The pools that offers against one snapshot and removals lead to. They start
with a pool that is empty or was just brought in line with the snapshot,
whatever happened to it before. -/
inductive Fed (capacity : Nat) (c : Cache) : Pool → Prop where
  | empty {p : Pool} : Reached capacity p → p.isEmpty = true → Fed capacity c p
  | updated {p p' : Pool} {block : Block} {settings : Settings} {gone : List Hash256} :
    Reached capacity p → p.update block c settings = (.ok gone, p') → Fed capacity c p'
  | offer {p : Pool} (t : Transaction) (settings : Settings) :
    Fed capacity c p → Fed capacity c (p.offer t c settings).2
  | remove {p : Pool} (hash : Hash256) : Fed capacity c p → Fed capacity c (p.remove hash).2

/-- A pool in order, where every sender of a pooled transaction holds the sum
of its pooled fees. The accounts of others may not even be readable. -/
structure Covered (p : Pool) (capacity : Nat) (c : Cache) : Prop extends p.Kept capacity where
  pays (hash : Hash256) (t : Transaction) (sender : Hash160) : p.get? hash = some t →
    t.sender? = some sender → ∃ held, Gas.balance c sender = .ok held ∧ p.feesOf sender ≤ held

variable {p p' : Pool} {capacity : Nat} {c : Cache} {settings : Settings} {t : Transaction}
  {hash : Hash256} {evicted : SortedSet Hash256}

theorem get?_eq_none_of_isEmpty (h : p.isEmpty = true) (hash : Hash256) : p.get? hash = none := by
  unfold Pool.isEmpty SortedMap.isEmpty at h
  unfold Pool.get? SortedMap.get?
  rw [List.isEmpty_iff.1 h]
  rfl

theorem get?_insert (p : Pool) (t : Transaction) (hash : Hash256) :
    (p.insert t).get? hash = if hash = t.hash then some t else p.get? hash := by
  unfold Pool.insert Pool.get?
  dsimp only
  rw [SortedMap.get?_insert]
  split <;> rfl

/-- What is pooled after some have left was pooled before. -/
theorem get?_of_foldl_erase {hashes : List Hash256}
    (hp : p'.verified = hashes.foldl (fun m hash => m.erase hash) p.verified)
    (h : p'.get? hash = some t) : p.get? hash = some t := by
  unfold Pool.get? at h ⊢
  rw [hp, SortedMap.get?_foldl_erase] at h
  split at h
  · cases h
  · exact h

theorem Kept.covered_of_isEmpty (h : p.Kept capacity) (he : p.isEmpty = true) :
    p.Covered capacity c := by
  refine ⟨h, fun hash t sender hget => ?_⟩
  rw [get?_eq_none_of_isEmpty he] at hget
  cases hget

namespace Covered

/-- The sender of the new transaction was just checked, and everybody else has
no more pooled than before. -/
theorem accept (h : p.Covered capacity c) (hplan : p.plan t c settings = .ok (.accept evicted))
    (hp : p.Vacated t evicted p') : (p'.insert t).Covered capacity c := by
  refine ⟨h.toKept.accept hplan hp, fun hash u other hget hother => ?_⟩
  obtain ⟨sender, held, hs, hheld, hpays, hothers⟩ := h.sound.feesOf_accept hplan hp
  by_cases hsame : other = sender
  · exact ⟨held, by rw [hsame, hheld], by rwa [hsame]⟩
  · -- A transaction of another sender is not the new one, so it was pooled before.
    have hbefore : p.get? hash = some u := by
      rw [get?_insert] at hget
      split at hget
      · cases hget
        rw [hs] at hother
        exact absurd (Option.some.inj hother).symm hsame
      · exact get?_of_foldl_erase hp.verified hget
    obtain ⟨held, hheld, hcovered⟩ := h.pays hash u other hbefore hother
    exact ⟨held, hheld, Nat.le_trans (hothers other hsame) hcovered⟩

theorem offer (h : p.Covered capacity c) (t : Transaction) (settings : Settings) :
    (p.offer t c settings).2.Covered capacity c := by
  rcases h.sound.offer_cases t c settings with
    ⟨f, -, hr⟩ | ⟨verdict, -, hr⟩ | ⟨evicted, p', hplan, hp, hr⟩ <;> rw [hr]
  · exact h
  · exact h
  · exact h.accept hplan hp

theorem remove (h : p.Covered capacity c) (hash : Hash256) :
    (p.remove hash).2.Covered capacity c := by
  obtain ⟨gone, p', hrun, hkept, hverified⟩ := h.toKept.remove hash
  rw [hrun]
  refine ⟨hkept, fun hash' t sender hget hs => ?_⟩
  have hleft := feesOf_without p (List.nodup_singleton hash) sender hverified
  have hbefore : p.get? hash' = some t :=
    get?_of_foldl_erase (show _ = [hash].foldl _ _ from hverified) hget
  obtain ⟨held, hheld, hcovered⟩ := h.pays hash' t sender hbefore hs
  exact ⟨held, hheld, Nat.le_trans (Nat.le.intro hleft) hcovered⟩

end Covered

/-- An update fills the pool anew, so what its senders could pay before does
not matter. -/
theorem Kept.covered_update (h : p.Kept capacity) {block : Block} {gone : List Hash256}
    (hr : p.update block c settings = (.ok gone, p')) : p'.Covered capacity c := by
  obtain ⟨swept, s, -, -, -, -, heq⟩ := h.update_eq_reenter block c settings
  rw [heq] at hr
  obtain ⟨-, rfl⟩ := Prod.mk.inj hr
  exact reenter_keeps (I := fun p => p.Covered capacity c)
    (fun item _ p hp => hp.offer item.transaction settings)
    ((kept_empty capacity).covered_of_isEmpty rfl)

theorem Fed.covered (h : Fed capacity c p) : p.Covered capacity c := by
  induction h with
  | empty h he => exact h.kept.covered_of_isEmpty he
  | updated h hr => exact h.kept.covered_update hr
  | offer t settings _ ih => exact ih.offer t settings
  | remove hash _ ih => exact ih.remove hash

/-- Nobody who has a transaction in the pool has more fees pooled there than
the balance that it has in the snapshot. -/
theorem no_sender_overcommits (h : Fed capacity c p) {sender : Hash160}
    (hget : p.get? hash = some t) (hs : t.sender? = some sender) :
    ∃ held, Gas.balance c sender = .ok held ∧ p.pooledFee sender ≤ held := by
  obtain ⟨held, hheld, hpays⟩ := h.covered.pays hash t sender hget hs
  have htotal : p.pooledFee sender = p.feesOf sender := h.covered.sound.listsSums.getD sender
  exact ⟨held, hheld, by rwa [htotal]⟩

/-- A pool with one transaction. -/
def pending : Pool :=
  ((empty 2).offer (Sample.transaction 1 [.zero 32]) scarce Sample.settings).2

/-- The pool after it was filled anew. -/
def refilled : Pool := ((empty 2).reenter scarce Sample.settings pending.verified.values).2

/-- A block without transactions leaves the pool to be filled anew. -/
theorem update_pending : ∃ gone,
    pending.update ⟨Sample.genesis.header, []⟩ scarce Sample.settings = (.ok gone, refilled) := by
  have hone : ∃ item, pending.verified.values = [item] :=
    List.length_eq_one_iff.1 (by decide +kernel)
  obtain ⟨item, hitem⟩ := hone
  have hranked : pending.ranked = pending.verified.values := by
    rw [ranked, hitem, List.mergeSort_singleton]
  have hok : ((empty 2).reenter scarce Sample.settings pending.verified.values).1.isOk = true := by
    decide +kernel
  have hkept : pending.Kept 2 := Kept.offer (kept_empty 2) _ _ _
  have hlimit := hkept.limit
  rcases hr : (empty 2).reenter scarce Sample.settings pending.verified.values with ⟨f | gone, p'⟩
  · rw [hr] at hok
    cases hok
  · have hrefilled : p' = refilled := by rw [refilled, hr]
    refine ⟨gone, ?_⟩
    simp only [Pool.update, Pool.removeIncluded, hranked, hlimit, hr, hrefilled, List.nil_append]

/-- A transaction that takes the place of a pooled one. -/
def replacement : Transaction :=
  (Transaction.ofContent? ⟨0, 3, 5, 4, 10, [⟨Sample.holder, 1⟩],
    [.conflicts (Sample.transaction 1 [.zero 32]).hash], [1]⟩).getD default

/-- A transaction that ranks higher than the other pooled one. -/
def better : Transaction :=
  (Transaction.ofContent? ⟨0, 4, 3, 5, 10, [⟨Sample.holder, 1⟩], [], [1]⟩).getD default

/-- The pool with a second transaction, once both were driven out. -/
def crowded : Pool :=
  (((refilled.offer (Sample.transaction 2 []) scarce Sample.settings).2.offer
    replacement scarce Sample.settings).2.offer better scarce Sample.settings).2

/-- The holder has pooled fees for all that it holds. -/
theorem sample_commitment : Fed 2 scarce crowded ∧ crowded.get? better.hash = some better ∧
    better.sender? = some Sample.holder ∧ crowded.pooledFee Sample.holder = 17 ∧
    ∃ held, Gas.balance scarce Sample.holder = .ok held ∧
      crowded.pooledFee Sample.holder ≤ held := by
  obtain ⟨gone, hr⟩ := update_pending
  have hfed : Fed 2 scarce crowded :=
    .offer _ _ (.offer _ _ (.offer _ _ (.updated (.offer _ _ _ .empty) hr)))
  have hpooled : crowded.get? better.hash = some better ∧ better.sender? = some Sample.holder ∧
      crowded.pooledFee Sample.holder = 17 := by decide +kernel
  obtain ⟨hget, hs, hfees⟩ := hpooled
  exact ⟨hfed, hget, hs, hfees, no_sender_overcommits hfed hget hs⟩

end BlockLedger.Pool
