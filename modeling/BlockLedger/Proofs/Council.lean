-- The committee of a chain. Its members are stored when the chain is
-- founded and never change, so a block that names one of the validators
-- always finds its proposer.
import BlockLedger.Proofs.Supply

namespace BlockLedger

open Wire

namespace Committee

/-! ## Stored members -/

theorem eq_of_checkMember {key key' : PublicKey} (h : checkMember key.bytes = .ok key') :
    key' = key := by
  unfold checkMember publicKey? at h
  split at h
  · rename_i found hfound
    cases h
    split at hfound
    · exact Fixed.ext (Fixed.ofBytes?_eq_some_iff.1 hfound).symm
    · cases hfound
  · cases h

theorem eq_of_mapM_checkMember {keys keys' : List PublicKey}
    (h : (keys.map (·.bytes)).mapM checkMember = .ok keys') : keys' = keys := by
  induction keys generalizing keys' with
  | nil =>
    cases h
    rfl
  | cons key rest ih =>
    rw [List.map_cons, List.mapM_cons] at h
    obtain ⟨key', hkey, h⟩ := ok_of_bind h
    obtain ⟨rest', hrest, h⟩ := ok_of_bind h
    cases h
    rw [eq_of_checkMember hkey, ih hrest]

theorem foldlM_members (keys : List PublicKey) (before : List Bytes) :
    (keys.map fun k => listedField 1 k.bytes).foldlM (Message.add 100)
      (⟨before⟩ : CommitteeDraft) = some ⟨before ++ keys.map (·.bytes)⟩ := by
  induction keys generalizing before with
  | nil => simp
  | cons key rest ih =>
    have hadd : Message.add 100 (⟨before⟩ : CommitteeDraft) (listedField 1 key.bytes) =
        some ⟨before ++ [key.bytes]⟩ := rfl
    rw [List.map_cons, List.foldlM_cons, hadd]
    have hrest := ih (before ++ [key.bytes])
    rwa [List.append_assoc] at hrest

/-- What the bytes of a list of members are read as: each member by itself. -/
theorem decodeCommittee_bytes (keys : List PublicKey) :
    decodeCommittee (committeeBytes keys) = (keys.map (·.bytes)).mapM checkMember := by
  have hwritable : ∀ f ∈ keys.map (fun k : PublicKey => listedField 1 k.bytes), f.Writable := by
    intro f hf
    obtain ⟨key, -, rfl⟩ := List.mem_map.1 hf
    exact writable_listedField (by decide) (by rw [key.length_eq]; decide)
  have hread : readDraft (committeeBytes keys) = .ok (⟨keys.map (·.bytes)⟩ : CommitteeDraft) :=
    readDraft_write hwritable (foldlM_members keys [])
  unfold decodeCommittee
  rw [hread, ok_bind]

/-- If the bytes of a list of members read as a list at all, it is theirs. -/
theorem eq_of_decodeCommittee {keys keys' : List PublicKey}
    (h : decodeCommittee (committeeBytes keys) = .ok keys') : keys' = keys := by
  rw [decodeCommittee_bytes] at h
  exact eq_of_mapM_checkMember h

/-! ## Who touches the members -/

theorem foreign_membersKey :
    Contract.ledger.Foreign membersKey ∧ Contract.gas.Foreign membersKey ∧
      Contract.policy.Foreign membersKey := by
  refine ⟨?_, ?_, ?_⟩ <;> (unfold Contract.Foreign; decide)

theorem members_congr {c c' : Cache} (h : c'.get? membersKey = c.get? membersKey) :
    members c' = members c := by
  simp only [members, h]

/-- Who proposes a block depends on the members alone. -/
theorem proposer_congr {c c' : Cache} (h : c'.get? membersKey = c.get? membersKey) (b : Block)
    (count : Nat) : Gas.proposer c' b count = Gas.proposer c b count := by
  simp only [Gas.proposer, validators, members_congr h]

/-- No transaction changes the members. -/
theorem lasting_members (item : Option Item) :
    Machine.Lasting fun m => m.cache.get? membersKey = item where
  same h _ _ hc := by rw [hc, h]
  call m address method args h := by
    rw [(Contract.leaves_call address method args m).get? _ foreign_membersKey.2, h]
  record m hash vmState h := by
    rw [(Ledger.leaves_setVmState hash vmState m).get? _ foreign_membersKey.1, h]

end Committee

/-! ## The members while a block is applied -/

namespace Chain

variable {σ : Type} {c : Chain Store} {exec : Executor σ} {s : σ} {block : Block}
  {prepared ended final founded : Machine}

/-- Once the chain is founded, the members stay while the block is prepared. -/
theorem Prepared.members_eq (h : c.Prepared block prepared)
    (hfound : (foundOnce c.snapshot).run (.forBlock c.settings c.content block) =
      (.ok (), founded)) :
    prepared.cache.get? Committee.membersKey = founded.cache.get? Committee.membersKey := by
  obtain ⟨hledger, hgas, -⟩ := Committee.foreign_membersKey
  obtain ⟨founded', stored, burned, hfound', hstore, hburn, rfl⟩ := h.phases
  rw [hfound] at hfound'
  cases hfound'
  have hstored := (Ledger.leaves_onPersist.of_run hstore).get? _ hledger
  have hburned := (Gas.leaves_onPersist.of_run hburn).get? _ hgas
  exact hburned.trans hstored

/-- A founded chain prepares a block with the committee that it has. -/
theorem Prepared.members (h : c.Prepared block prepared)
    (hfounded : Ledger.isFounded c.snapshot = true) :
    prepared.cache.get? Committee.membersKey = c.snapshot.get? Committee.membersKey := by
  have hfound : (foundOnce c.snapshot).run (.forBlock c.settings c.content block) =
      (.ok (), .forBlock c.settings c.content block) := by
    rw [foundOnce, if_pos hfounded]
    rfl
  exact h.members_eq hfound

/-- The transactions of a block leave the members alone. -/
theorem Ended.members_eq (h : c.Ended exec s block prepared ended) (hexec : exec.OnlyCalls) :
    ended.cache.get? Committee.membersKey = prepared.cache.get? Committee.membersKey := by
  obtain ⟨executed, s', hrun⟩ := h.run
  have hended := (Committee.lasting_members _).runTransactions hexec block.transactions s
    (m := prepared) rfl
  rwa [hrun] at hended

/-- The committee that concludes a block is the one before it. -/
theorem Ended.members (h : c.Ended exec s block prepared ended) (hexec : exec.OnlyCalls)
    (hfounded : Ledger.isFounded c.snapshot = true) :
    ended.cache.get? Committee.membersKey = c.snapshot.get? Committee.membersKey :=
  (h.members_eq hexec).trans (h.toPrepared.members hfounded)

theorem Passage.members_eq (h : c.Passage exec s block prepared ended final) :
    final.cache.get? Committee.membersKey = ended.cache.get? Committee.membersKey := by
  obtain ⟨hledger, hgas, -⟩ := Committee.foreign_membersKey
  obtain ⟨moved, minted, hmove, hmint, rfl⟩ := h.phases
  have hminted := (Gas.leaves_postPersist.of_run hmint).get? _ hgas
  have hmoved := (Ledger.leaves_postPersist.of_run hmove).get? _ hledger
  exact hminted.trans hmoved

end Chain

/-! ## The committee of a chain -/

namespace Committee

/-- The committee is stored as it is configured, and it has a member for
every validator. -/
structure Seated (settings : Settings) (c : Cache) : Prop where
  stored : c.get? membersKey = some (.raw (committeeBytes settings.standbyCommittee))
  members : Committee.members c = .ok settings.standbyCommittee
  enough : settings.validatorsCount ≤ settings.standbyCommittee.length

namespace Seated

variable {settings : Settings} {c : Cache}

theorem congr {c' : Cache} (h : Seated settings c) (hc : c'.get? membersKey = c.get? membersKey) :
    Seated settings c' :=
  ⟨hc.trans h.stored, (members_congr hc).trans h.members, h.enough⟩

/-- A commit leaves the committee as it is. -/
theorem of_stored (h : Seated settings c) : Seated settings c.stored := by
  apply h.congr
  rw [Cache.get?_stored, h.stored]
  rfl

/-- A block that names one of the validators has a proposer. -/
theorem proposer (h : Seated settings c) {block : Block}
    (hblock : block.checkPrimary settings.validatorsCount = .ok ()) :
    ∃ key, Gas.proposer c block settings.validatorsCount = .ok key := by
  have hprimary : block.header.primary.toNat < settings.validatorsCount := by
    unfold Block.checkPrimary at hblock
    split at hblock
    · assumption
    · cases hblock
  have hlength : ((settings.standbyCommittee.take settings.validatorsCount).mergeSort
      fun a b => (compare a b).isLE).length = settings.validatorsCount := by
    rw [List.length_mergeSort, List.length_take_of_le h.enough]
  unfold Gas.proposer validators
  rw [h.members, ok_bind]
  simp only [bind, Except.bind, pure, Except.pure]
  rw [List.getElem?_eq_getElem (by rwa [hlength])]
  exact ⟨_, rfl⟩

end Seated

section Founding

variable {settings : Settings} {m founded : Machine}

/-- The founding of a chain stores the committee, which has a member for
every validator. -/
theorem stored_of_found (hfound : foundAll.run m = (.ok (), founded)) :
    founded.cache.get? membersKey = some (.raw (committeeBytes m.settings.standbyCommittee)) ∧
      m.settings.validatorsCount ≤ m.settings.standbyCommittee.length := by
  obtain ⟨-, hgas, hpolicy⟩ := foreign_membersKey
  unfold foundAll at hfound
  obtain ⟨_, m₁, hcommittee, hfound⟩ := Run.run_bind_ok hfound
  obtain ⟨_, m₂, hmint, hlast⟩ := Run.run_bind_ok hfound
  have hadded : m₁.cache.get? membersKey =
      some (.raw (committeeBytes m.settings.standbyCommittee)) := by
    unfold Committee.found at hcommittee
    rw [Run.run_bind_of_ok (Run.run_settings m)] at hcommittee
    rcases hold : m.cache.get? membersKey with _ | old
    · rw [Run.run_add_of_none hold] at hcommittee
      cases hcommittee
      exact (Cache.get?_put _ _ _ _).trans (if_pos rfl)
    · rw [Run.run_add_of_some hold] at hcommittee
      cases hcommittee
  have hsettings := ((Contract.leaves_found .committee none).of_run hcommittee).settings
  constructor
  · have hfirst := ((Contract.leaves_found .gas none).of_run hmint).get? _ hgas
    have hsecond := ((Contract.leaves_found .policy none).of_run hlast).get? _ hpolicy
    exact (hsecond.trans hfirst).trans hadded
  · unfold Gas.found at hmint
    rw [Run.run_bind_of_ok (Run.run_settings m₁), hsettings] at hmint
    obtain ⟨holder, m₃, hholder, -⟩ := Run.run_bind_ok hmint
    rw [Run.run_ofOutcome] at hholder
    have hholder : m.settings.genesisHolder = .ok holder := congrArg Prod.fst hholder
    unfold Settings.genesisHolder at hholder
    split at hholder
    · cases hholder
    · rename_i hlt
      exact Nat.le_of_not_lt hlt

end Founding

section Blocks

variable {σ : Type} {exec : Executor σ} {s s' : σ} {settings : Settings} {c c' : Chain Store}
  {past : List Entry} {block : Block} {applied : Persisted} {prepared ended final : Machine}

/-- The block that founds the chain is concluded by the configured committee. -/
theorem stored_of_ended (h : c.Ended exec s block prepared ended) (hexec : exec.OnlyCalls)
    (hnew : Ledger.isFounded c.snapshot = false) :
    ended.cache.get? membersKey = some (.raw (committeeBytes c.settings.standbyCommittee)) ∧
      c.settings.validatorsCount ≤ c.settings.standbyCommittee.length := by
  obtain ⟨founded, stored, burned, hfound, -⟩ := h.toPrepared.phases
  have hended := (h.members_eq hexec).trans (h.toPrepared.members_eq hfound)
  rw [foundOnce, hnew, if_neg (by decide)] at hfound
  obtain ⟨hstored, henough⟩ := stored_of_found hfound
  exact ⟨hended.trans hstored, henough⟩

/-- A block is concluded by a committee that can be read. -/
theorem members_of_passage (h : c.Passage exec s block prepared ended final)
    (hexec : exec.OnlyCalls) : ∃ keys, members ended.cache = .ok keys := by
  obtain ⟨moved, minted, hmove, hmint, -⟩ := h.phases
  have hmoved := Ledger.leaves_postPersist.of_run hmove
  have hblock : moved.block = some block :=
    hmoved.block.trans (h.toEnded.applies hexec).block
  unfold Gas.postPersist at hmint
  rw [Run.run_bind_of_ok (Run.run_block_of_some hblock),
    Run.run_bind_of_ok (Run.run_settings moved)] at hmint
  obtain ⟨key, m, hkey, -⟩ := Run.run_bind_ok hmint
  rw [Run.run_query] at hkey
  have hproposer := congrArg Prod.fst hkey
  dsimp only at hproposer
  unfold Gas.proposer validators at hproposer
  rw [members_congr (hmoved.get? _ foreign_membersKey.1)] at hproposer
  rcases hmembers : members ended.cache with f | keys
  · rw [hmembers] at hproposer
    cases hproposer
  · exact ⟨keys, rfl⟩

/-- The first block seats the committee, and every other block leaves it. -/
theorem Seated.persist (hbooked : Gas.Booked settings c past)
    (h : past ≠ [] → Seated settings c.snapshot) (hexec : exec.OnlyCalls)
    (hp : c.persist exec s block = (.ok (applied, c'), s')) : Seated settings c'.snapshot := by
  obtain ⟨prepared, ended, final, hpass, rfl⟩ := Chain.persist_ok hp
  rw [hpass.snapshot_eq hexec]
  apply Seated.of_stored
  rcases hpast : past with _ | ⟨e, rest⟩
  · subst hpast
    obtain ⟨hstored, henough⟩ := stored_of_ended hpass.toEnded hexec hbooked.founded
    rw [hbooked.settings_eq] at hstored henough
    have hfinal := hpass.members_eq
    have hkey := hfinal.trans hstored
    obtain ⟨keys, hkeys⟩ := members_of_passage hpass hexec
    have hmembers : Committee.members final.cache = .ok keys := (members_congr hfinal).trans hkeys
    have hdecoded : decodeCommittee (committeeBytes settings.standbyCommittee) = .ok keys := by
      unfold Committee.members at hmembers
      rw [hkey] at hmembers
      dsimp only [Item.bytes] at hmembers
      split at hmembers
      · rename_i hdecode
        cases hmembers
        exact hdecode
      · cases hmembers
    rw [eq_of_decodeCommittee hdecoded] at hmembers
    exact ⟨hkey, hmembers, henough⟩
  · have hne : past ≠ [] := by simp [hpast]
    apply (h hne).congr
    rw [hpass.members_eq, hpass.toEnded.members hexec (hbooked.chronicle.isFounded hne)]

/-- On every chain the committee is the configured one. -/
theorem Seated.of_grown (h : Grown settings c past) : Seated settings c.snapshot := by
  have hall : Gas.Booked settings c past ∧ (past ≠ [] → Seated settings c.snapshot) :=
    h.preserve (I := fun c past => Gas.Booked settings c past ∧
        (past ≠ [] → Seated settings c.snapshot))
      ⟨.empty settings, fun hne => absurd rfl hne⟩
      fun hc hexec hp => ⟨hc.1.persist hexec hp, fun _ => .persist hc.1 hc.2 hexec hp⟩
  exact hall.2 h.ne_nil

end Blocks

end Committee
end BlockLedger
