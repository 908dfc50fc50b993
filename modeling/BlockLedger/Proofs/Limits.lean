-- The limits that the policy keeps on every chain. Nobody else writes its
-- keys, so what holds where there are none, and what its founding and its
-- changes keep, holds at all times.
import BlockLedger.Proofs.Growth

namespace BlockLedger.Policy

/-! ## Properties that the policy keeps -/

/-- A property of the keys of the policy that holds where there are none,
and that the policy keeps whatever it does. -/
structure Kept (I : Cache → Prop) : Prop where
  congr {c c' : Cache} :
    (∀ key : Key, key.owner = Contract.policy.id → c'.get? key = c.get? key) → I c → I c'
  empty : I (.ofStore SortedMap.empty)
  stored {c : Cache} : I c → I c.stored
  found : found.Preserves I
  setFee (fee : Int) : (setFee fee).Preserves I
  blockAccount (account : Hash160) : (blockAccount account).Preserves I
  unblockAccount (account : Hash160) : (unblockAccount account).Preserves I

namespace Kept

variable {I : Cache → Prop} (h : Kept I)

include h

/-- The other contracts keep it by leaving the keys of the policy alone. -/
theorem foreign {α : Type} {x : Run α} {contract : Contract} (hx : x.Leaves contract.Foreign)
    (hne : contract ≠ .policy) : x.Preserves I :=
  .of_leaves (fun _ _ hc => h.congr hc) (hx.mono fun _ => Contract.foreign hne)

theorem call (address : Hash160) (method : String) (args : List StackItem) :
    (Contract.call address method args).Preserves I :=
  Contract.within_call (fun method args => h.foreign (Gas.leaves_invoke method args) (by decide))
    (within_invoke h.setFee h.blockAccount h.unblockAccount) address method args

/-- It lasts through the transactions of a block. -/
theorem lasting : Machine.Lasting fun m => I m.cache where
  same hm _ _ hc := by rwa [hc]
  call m address method args hm := h.call address method args m hm
  record m hash vmState hm := h.foreign (Ledger.leaves_setVmState hash vmState) (by decide) m hm

theorem foundOnce (c : Cache) : (foundOnce c).Preserves I := by
  unfold BlockLedger.foundOnce foundAll
  refine .ite (.pure ()) (.bind ?_ fun _ => .bind ?_ fun _ => h.found)
  · exact h.foreign Committee.silent_found.leaves (by decide)
  · exact h.foreign Gas.leaves_found (by decide)

section Chain

variable {σ : Type} {exec : Executor σ} {s s' : σ} {c c' : Chain Store} {block : Block}
  {applied : Persisted}

theorem prepared {m : Machine} (hc : I c.snapshot) (hp : c.Prepared block m) : I m.cache := by
  obtain ⟨founded, stored, burned, hfound, hstore, hburn, rfl⟩ := hp.phases
  have hfounded : I founded.cache := (h.foundOnce c.snapshot).of_run hfound hc
  have hstored : I stored.cache :=
    (h.foreign Ledger.leaves_onPersist (by decide)).of_run hstore hfounded
  have hburned : I burned.cache :=
    (h.foreign Gas.leaves_onPersist (by decide)).of_run hburn hstored
  exact hburned

theorem persist (hc : I c.snapshot) (hexec : exec.OnlyCalls)
    (hp : c.persist exec s block = (.ok (applied, c'), s')) : I c'.snapshot := by
  obtain ⟨prepared, ended, final, hpass, rfl⟩ := Chain.persist_ok hp
  obtain ⟨executed, s₁, hrun⟩ := hpass.toEnded.run
  have hsnapshot := hpass.snapshot_eq hexec
  obtain ⟨moved, minted, hmove, hmint, rfl⟩ := hpass.phases
  have hended := h.lasting.runTransactions hexec block.transactions s
    (h.prepared hc hpass.toEnded.toPrepared)
  rw [hrun] at hended
  have hmoved : I moved.cache :=
    (h.foreign Ledger.leaves_postPersist (by decide)).of_run hmove hended
  have hminted : I minted.cache :=
    (h.foreign Gas.leaves_postPersist (by decide)).of_run hmint hmoved
  rw [hsnapshot]
  exact h.stored hminted

/-- It holds on every chain. -/
theorem of_grown {settings : Settings} {past : List Entry} (hg : Grown settings c past) :
    I c.snapshot :=
  hg.preserve (I := fun c _ => I c.snapshot) h.empty fun hc hexec hp => h.persist hc hexec hp

end Chain
end Kept

/-! ## The fee per byte -/

variable {c c' : Cache}

/-- The fee per byte can be read, and it is not above its bound. -/
def Priced (c : Cache) : Prop := ∃ fee, feePerByte c = .ok fee ∧ fee.toNat ≤ maxFee

theorem Priced.congr (h : Priced c) (hc : c'.get? feeKey = c.get? feeKey) : Priced c' := by
  unfold Priced feePerByte at h ⊢
  rwa [hc]

/-- A commit leaves the fee per byte as it is. -/
theorem Priced.stored (h : Priced c) : Priced c.stored := by
  unfold Priced feePerByte at h ⊢
  rw [Cache.get?_stored]
  rcases hk : c.get? feeKey with _ | item <;> rw [hk] at h <;> exact h

theorem priced_of_none (h : c.get? feeKey = none) : Priced c := by
  refine ⟨defaultFee.toUInt64, ?_, by decide⟩
  unfold feePerByte
  rw [h]

/-- A fee within the bound is read as it was written. -/
theorem priced_put {fee : Nat} (h : fee ≤ maxFee) (c : Cache) :
    Priced (c.put feeKey (.raw (Amount.bytes fee))) := by
  have hsmall : fee < 2 ^ 64 := Nat.lt_of_le_of_lt h (by decide)
  have hread : feeOfBytes? (Amount.bytes fee) = some fee.toUInt64 := by
    unfold feeOfBytes?
    rw [ofBytes?_bytes (Nat.lt_trans hsmall (by decide))]
    exact if_pos hsmall
  refine ⟨fee.toUInt64, ?_, ?_⟩
  · unfold feePerByte
    rw [Cache.get?_put, if_pos rfl]
    simp only [Item.bytes, hread]
  · rwa [UInt64.toNat_ofNat_of_lt' hsmall]

theorem feeKey_ne_blockedKey (account : Hash160) : feeKey ≠ blockedKey account := by
  intro h
  have htag : (10 : UInt8) = 15 := congrArg Key.tag h
  exact absurd htag (by decide)

theorem preserves_priced {α : Type} {x : Run α} (hx : x.Silent fun key => key = feeKey) :
    x.Preserves Priced :=
  .of_leaves (P := fun key => key = feeKey) (fun _ _ hc h => h.congr (hc feeKey rfl)) hx.leaves

/-- The committee sets no fee above the bound. -/
theorem preserves_setFee (fee : Int) : (setFee fee).Preserves Priced := by
  unfold setFee
  by_cases hout : fee < 0 ∨ (maxFee : Int) < fee
  · rw [if_pos hout]
    exact .throw _
  · rw [if_neg hout]
    refine .bind (preserves_priced silent_requireCommittee) fun _ m _ => ?_
    exact priced_put (by omega) m.cache

/-- The fee per byte stays within its bound. -/
theorem kept_priced : Kept Priced where
  congr hc h := h.congr (hc feeKey rfl)
  empty := priced_of_none rfl
  stored h := h.stored
  found m h := by
    unfold found
    rcases hold : m.cache.get? feeKey with _ | old
    · rw [Run.after_of_run (Run.run_add_of_none hold _)]
      exact priced_put (by decide) m.cache
    · rwa [Run.after_of_run (Run.run_add_of_some hold _)]
  setFee := preserves_setFee
  blockAccount account :=
    preserves_priced (silent_blockAccount (feeKey_ne_blockedKey account).symm)
  unblockAccount account :=
    preserves_priced (silent_unblockAccount (feeKey_ne_blockedKey account).symm)

/-! ## The blocked accounts -/

/-- No contract is blocked. -/
def Unblocked (c : Cache) : Prop := ∀ contract : Contract, isBlocked c contract.address = false

/-- The mark that a contract would be blocked by. -/
def MarksContract (key : Key) : Prop := ∃ contract : Contract, key = blockedKey contract.address

theorem Unblocked.congr (h : Unblocked c)
    (hc : ∀ key, MarksContract key → c'.get? key = c.get? key) : Unblocked c' := by
  intro contract
  have hcontract := h contract
  unfold isBlocked Cache.contains at hcontract ⊢
  rwa [hc _ ⟨contract, rfl⟩]

theorem preserves_unblocked {α : Type} {x : Run α} (hx : x.Silent MarksContract) :
    x.Preserves Unblocked := .of_leaves (fun _ _ hc h => h.congr hc) hx.leaves

theorem not_marksContract_feeKey : ¬ MarksContract feeKey := by
  rintro ⟨contract, h⟩
  exact feeKey_ne_blockedKey _ h

theorem not_marksContract {account : Hash160} (h : Contract.isAddress account = false) :
    ¬ MarksContract (blockedKey account) := by
  rintro ⟨contract, hkey⟩
  have heq : account = contract.address := Fixed.ext (congrArg Key.rest hkey)
  rw [heq, Contract.isAddress_address] at h
  cases h

/-- The committee blocks no contract. -/
theorem preserves_blockAccount (account : Hash160) :
    (blockAccount account).Preserves Unblocked := by
  cases haddress : Contract.isAddress account with
  | true =>
    unfold blockAccount
    refine .bind (preserves_unblocked silent_requireCommittee) fun _ => ?_
    rw [if_pos haddress]
    exact .throw _
  | false => exact preserves_unblocked (silent_blockAccount (not_marksContract haddress))

theorem preserves_unblockAccount (account : Hash160) :
    (unblockAccount account).Preserves Unblocked := by
  unfold unblockAccount
  refine .bind (preserves_unblocked silent_requireCommittee) fun _ => .bind .get fun _ => ?_
  refine .ite (.pure _) (.bind (fun m h contract => ?_) fun _ => .pure _)
  have hcontract := h contract
  unfold isBlocked Cache.contains at hcontract ⊢
  rw [Run.after_of_run (Run.run_delete _ m), Cache.get?_delete]
  split
  · rfl
  · exact hcontract

/-- No contract is ever blocked. -/
theorem kept_unblocked : Kept Unblocked where
  congr hc h := h.congr fun key hk => by
    obtain ⟨contract, rfl⟩ := hk
    exact hc _ rfl
  empty _ := rfl
  stored h contract := by
    have hcontract := h contract
    unfold isBlocked Cache.contains at hcontract ⊢
    rw [Cache.get?_stored]
    simpa using hcontract
  found := preserves_unblocked (.add not_marksContract_feeKey _)
  setFee fee := by
    unfold setFee
    refine .when (.throw _) fun _ => ?_
    refine .bind (preserves_unblocked silent_requireCommittee) fun _ => ?_
    exact preserves_unblocked (.put not_marksContract_feeKey _)
  blockAccount := preserves_blockAccount
  unblockAccount := preserves_unblockAccount

end BlockLedger.Policy
