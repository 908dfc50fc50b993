-- What calls find whenever a script runs. The ledger can be read and every
-- transaction on record is signed, the committee has an address, the policy
-- has a fee, and the accounts are in step with the supply.
import BlockLedger.Proofs.Authority
import BlockLedger.Proofs.Readings

namespace BlockLedger

/-! ## Signed transactions -/

theorem Transaction.succeeds_sender {t : Transaction} (h : t.signers ≠ []) :
    Succeeds t.sender := by
  unfold Transaction.sender Transaction.sender? Transaction.accounts
  obtain ⟨signer, rest, hsigners⟩ := List.exists_cons_of_ne_nil h
  rw [hsigners]
  exact .ok _

/-- A record whose transaction, if it has one, is signed. -/
def TransactionRecord.Signed (r : TransactionRecord) : Prop :=
  ∀ t, r.transaction = some t → Succeeds t.sender

/-- Every transaction of a grown chain is signed. -/
theorem Grown.signed {settings : Settings} {c : Chain Store} {past : List Entry}
    (h : Grown settings c past) : ∀ e ∈ past, ∀ t ∈ e.block.transactions, t.signers ≠ [] := by
  refine h.preserve (I := fun _ past => ∀ e ∈ past, ∀ t ∈ e.block.transactions, t.signers ≠ [])
    (by simp) ?_
  intro σ exec s s' c c' past block applied hpast _ hp e he
  rcases List.mem_append.1 he with he | he
  · exact hpast e he
  · obtain ⟨prepared, ended, final, hpass, -⟩ := Chain.persist_ok hp
    obtain ⟨tip, -, hcheck⟩ := hpass.fits
    rw [List.mem_singleton.1 he]
    exact (Block.transactions_of_check hcheck).2

/-! ## What calls read from the ledger -/

namespace Ledger

/-- A cache where everything can be read that calls ask the ledger for. -/
structure Readable (c : Cache) : Prop where
  tip : ∃ v : Option BlockPointer, c.Shows tipKey v
  hashes (index : UInt32) : Succeeds (hashAt? c index)
  blocks (hash : Hash256) : Succeeds (trimmedBlock? c hash)
  records (hash : Hash256) :
    ∃ v : Option TransactionRecord, c.Shows (recordKey hash) v ∧ ∀ r ∈ v, r.Signed

namespace Readable

variable {c c' : Cache}

theorem congr (h : Readable c)
    (hc : ∀ key : Key, key.owner = Contract.ledger.id → c'.get? key = c.get? key) :
    Readable c' where
  tip := by
    obtain ⟨v, hv⟩ := h.tip
    exact ⟨v, Cache.shows_of_get?_eq (hc _ rfl) hv⟩
  hashes index := by
    have hindex := h.hashes index
    unfold hashAt? at hindex ⊢
    rwa [hc _ rfl]
  blocks hash := by
    have hhash := h.blocks hash
    unfold trimmedBlock? at hhash ⊢
    rwa [hc _ rfl]
  records hash := by
    obtain ⟨v, hv, hsigned⟩ := h.records hash
    exact ⟨v, Cache.shows_of_get?_eq (hc _ rfl) hv, hsigned⟩

/-- The keys of the tip and of the blocks are no keys of records. -/
theorem get?_put_record {key : Key} (hk : Outside key) (c : Cache) (hash : Hash256) (item : Item) :
    (c.put (recordKey hash) item).get? key = c.get? key := by
  rw [Cache.get?_put, if_neg]
  rintro rfl
  exact not_outside hk

/-- A record of a signed transaction may be put under any hash. -/
theorem put_record (h : Readable c) {r : TransactionRecord} (hr : r.Signed) (hash : Hash256) :
    Readable (c.put (recordKey hash) (.transaction r)) where
  tip := by
    obtain ⟨v, hv⟩ := h.tip
    exact ⟨v, Cache.shows_of_get?_eq (get?_put_record outside_tipKey c hash _) hv⟩
  hashes index := by
    have hindex := h.hashes index
    unfold hashAt? at hindex ⊢
    rwa [get?_put_record (outside_hashKey index)]
  blocks hash' := by
    have hhash := h.blocks hash'
    unfold trimmedBlock? at hhash ⊢
    rwa [get?_put_record (outside_blockKey hash')]
  records hash' := by
    by_cases hh : hash' = hash
    · rw [hh]
      exact ⟨some r, Cache.shows_put r, by simpa using hr⟩
    · obtain ⟨v, hv, hsigned⟩ := h.records hash'
      refine ⟨v, Cache.shows_of_get?_eq ?_ hv, hsigned⟩
      rw [Cache.get?_put, if_neg (by rwa [recordKey_inj])]

/-- A cache that tells a history of signed transactions can be read. -/
theorem of_tells {past : List Entry} {tip : Option BlockPointer} (h : Tells c past tip)
    (hsigned : ∀ e ∈ past, ∀ p ∈ e.reported, p.1.signers ≠ []) : Readable c where
  tip := ⟨tip, h.tip⟩
  hashes index := ⟨_, h.hashAt? index⟩
  blocks hash := ⟨_, h.trimmedBlock? hash⟩
  records hash := by
    refine ⟨_, h.register.record hash, fun r hr t ht => ?_⟩
    -- The register shows a record with its transaction, or a mark without any.
    have hr : (Register.of past).record hash = some r := hr
    rw [Register.record_of, Option.or_eq_some_iff] at hr
    rcases hr with hr | ⟨-, hr⟩
    · obtain ⟨e, he, hrecord⟩ := List.exists_of_findSome?_eq_some hr
      obtain ⟨p, hp, rfl⟩ := Option.map_eq_some_iff.1 hrecord
      cases ht
      exact Transaction.succeeds_sender (hsigned e he p (List.mem_of_find?_eq_some hp))
    · obtain ⟨e, -, rfl⟩ := Option.map_eq_some_iff.1 hr
      cases ht

/-- How a script ended may be recorded under any hash. -/
theorem preserves_setVmState (hash : Hash256) (vmState : VmState) :
    (setVmState hash vmState).Preserves Readable := by
  intro m h
  obtain ⟨v, hv, hsigned⟩ := h.records hash
  -- Without a record the step fails before it writes.
  rcases v with _ | r
  · have htouch : (Run.touchValue (recordKey hash)
        (raise (.recordMissing hash) : Outcome TransactionRecord)).run m =
        (raise (.recordMissing hash), m) := by
      rw [Run.run_touchValue, Cache.touchValue, Cache.touch, show m.cache.get? _ = none from hv]
      rfl
    unfold setVmState
    rwa [Run.after_of_run (Run.run_bind_of_error htouch)]
  · rw [Run.after_of_run ((run_setVmState hv vmState).trans (Run.run_put _ _ m))]
    exact h.put_record (r := { r with vmState := vmState }) (hsigned r rfl) hash

theorem lasting : Machine.Lasting fun m => Readable m.cache where
  same h _ _ hc := by rwa [hc]
  call m address method args h := by
    refine h.congr fun key ho => (Contract.leaves_call address method args m).get? key ?_
    exact ⟨Contract.foreign (by decide) ho, Contract.foreign (by decide) ho⟩
  record m hash vmState h := preserves_setVmState hash vmState m h

/-- Whenever a script runs, the ledger can be read. -/
theorem of_underway {settings : Settings} {m : Machine} (h : Underway settings m) :
    Readable m.cache := by
  have hreported : ∀ {c : Chain Store} {past : List Entry}, Grown settings c past →
      ∀ e ∈ past.reverse, ∀ p ∈ e.reported, p.1.signers ≠ [] := by
    intro c past hc e he p hp
    have he : e ∈ past := List.mem_reverse.1 he
    apply hc.signed e he
    rw [← hc.chronicle.reported e he]
    exact List.mem_map_of_mem hp
  refine h.keeps lasting (fun hc => .of_tells hc.chronicle.tells (hreported hc)) ?_
  intro c past block m hc hp
  obtain ⟨tip, -, hcheck⟩ := hp.fits
  refine .of_tells (hc.chronicle.tells_prepared hp).1 (List.forall_mem_cons.2 ⟨?_, hreported hc⟩)
  intro p hp
  obtain ⟨t, ht, rfl⟩ := List.mem_map.1 hp
  exact (Block.transactions_of_check hcheck).2 t ht

end Readable
end Ledger

/-! ## The committee -/

/-- A script counts up to 255 keys. -/
theorem succeeds_multisigScript {keys : List PublicKey} {threshold : Nat} (hpos : 0 < threshold)
    (hle : threshold ≤ keys.length) (hfew : keys.length ≤ 255) :
    Succeeds (multisigScript threshold keys) := by
  unfold multisigScript
  dsimp only
  rw [if_neg (by omega)]
  exact .ok _

/-- Up to 255 keys have an address together, if there are any. -/
theorem succeeds_committeeAddress {keys : List PublicKey} (hne : keys ≠ [])
    (hfew : keys.length ≤ 255) : Succeeds (committeeAddress keys) := by
  have hpos : 0 < keys.length := List.length_pos_iff.2 hne
  unfold committeeAddress majorityThreshold
  exact .map (succeeds_multisigScript (by omega) (by omega) hfew)

/-- A chain that started has a committee. -/
theorem Grown.committee_ne_nil {settings : Settings} {c : Chain Store} {past : List Entry}
    (h : Grown settings c past) : settings.standbyCommittee ≠ [] := by
  induction h with
  | start hg _ =>
    intro hnil
    unfold Chain.genesis Settings.genesisHolder Settings.validators at hg
    rw [hnil, List.take_nil] at hg
    split at hg <;> cases hg
  | persist _ _ _ ih => exact ih

theorem Underway.committee_ne_nil {settings : Settings} {m : Machine}
    (h : Underway settings m) : settings.standbyCommittee ≠ [] := by
  induction h with
  | between hc _ => exact hc.committee_ne_nil
  | prepared hc _ => exact hc.committee_ne_nil
  | ran _ _ _ ih => exact ih
  | began _ _ ih => exact ih
  | called _ _ _ _ ih => exact ih

namespace Committee.Seated

variable {settings : Settings}

theorem lasting : Machine.Lasting fun m => Seated settings m.cache where
  same h _ _ hc := by rwa [hc]
  call m address method args h := h.congr ((lasting_members _).call m address method args rfl)
  record m hash vmState h := h.congr ((lasting_members _).record m hash vmState rfl)

/-- Whenever a script runs, the committee is the configured one. -/
theorem of_underway {m : Machine} (h : Underway settings m) : Seated settings m.cache := by
  refine h.keeps lasting of_grown fun hc hp => ?_
  exact (of_grown hc).congr (hp.members (hc.chronicle.isFounded hc.ne_nil))

end Committee.Seated

/-! ## All that calls rely on -/

/-- A cache where everything can be read that calls ask for, and where
everything fits that they add up. -/
structure Intact (c : Cache) : Prop where
  ledger : Ledger.Readable c
  members : Succeeds (Committee.members c)
  address : Succeeds (Committee.address c)
  fee : Succeeds (Policy.feePerByte c)
  supply : ∃ supply, Gas.Sound c supply

/-- Whenever a script runs on a chain whose committee is not too large, calls
find what they rely on. -/
theorem Intact.of_underway {settings : Settings} {m : Machine}
    (hfew : settings.standbyCommittee.length ≤ 255) (h : Underway settings m) :
    Intact m.cache := by
  have hseated := Committee.Seated.of_underway h
  obtain ⟨fee, hfee, -⟩ := Policy.kept_priced.of_underway h
  exact {
    ledger := .of_underway h
    members := ⟨_, hseated.members⟩
    address := by
      unfold Committee.address
      rw [hseated.members]
      exact succeeds_committeeAddress h.committee_ne_nil hfew
    fee := ⟨fee, hfee⟩
    supply := h.sound }

end BlockLedger
