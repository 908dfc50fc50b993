-- Whether accepted settings are of use. They name as many keys as one likes,
-- but a script counts its keys in one byte. So a chain can be founded with up
-- to 255 validators, and its committee has an address with up to 255 members.
import BlockLedger.Proofs.Codecs
import BlockLedger.Proofs.Intact
import BlockLedger.Proofs.Refusals

namespace BlockLedger

/-! ## Accepted settings -/

/-- What the checks of settings ensure. -/
structure Settings.Checked (settings : Settings) : Prop where
  compressed : ∀ key ∈ settings.standbyCommittee, key.Compressed
  positive : 0 < settings.validatorsCount
  enough : settings.validatorsCount ≤ settings.standbyCommittee.length
  /-- A chain can look at its last block at least. -/
  traceable : 0 < settings.maxTraceableBlocks

theorem compressed_of_publicKey? {s : Bytes} {key : PublicKey} (h : publicKey? s = some key) :
    key.Compressed := by
  unfold publicKey? at h
  split at h
  · rename_i hhead
    obtain rfl := Fixed.ofBytes?_eq_some_iff.1 h
    exact hhead
  · cases h

theorem compressed_of_readPublicKey {text : String} {key : PublicKey}
    (h : readPublicKey text = .ok key) : key.Compressed := by
  unfold readPublicKey at h
  split at h
  · cases h
  · split at h
    · rename_i hkey
      cases h
      exact compressed_of_publicKey? hkey
    · cases h

theorem exists_of_mapM_ok {ε α β : Type} {f : α → Except ε β} {l : List α} {l' : List β}
    (h : l.mapM f = .ok l') {b : β} (hb : b ∈ l') : ∃ a ∈ l, f a = .ok b := by
  induction l generalizing l' with
  | nil =>
    cases h
    cases hb
  | cons a rest ih =>
    rw [List.mapM_cons] at h
    obtain ⟨b', hfirst, h⟩ := ok_of_bind h
    obtain ⟨rest', hrest, h⟩ := ok_of_bind h
    cases h
    rcases List.mem_cons.1 hb with rfl | hb
    · exact ⟨a, List.mem_cons_self, hfirst⟩
    · obtain ⟨a', ha', heq⟩ := ih hrest hb
      exact ⟨a', List.mem_cons_of_mem a ha', heq⟩

theorem Settings.compressed_of_committeeOf {o : Options} {keys : List PublicKey}
    (h : committeeOf o = .ok keys) : ∀ key ∈ keys, key.Compressed := by
  intro key hkey
  obtain ⟨text, -, hread⟩ := exists_of_mapM_ok h hkey
  rcases hr : readPublicKey text with e | key' <;> rw [hr] at hread <;> cases hread
  exact compressed_of_readPublicKey hr

theorem ok_of_check {ε α β : Type} {c : Prop} [Decidable c] {e : ε} {f : β → Except ε α}
    {r : Except ε α} {v : α} (h : (if c then throw e >>= f else r) = .ok v) : ¬ c ∧ r = .ok v := by
  split at h
  · cases h
  · exact ⟨‹_›, h⟩

theorem Settings.checked_of_ofOptions {o : Options} {settings : Settings}
    (h : ofOptions o = .ok settings) : settings.Checked := by
  unfold ofOptions at h
  obtain ⟨keys, hkeys, h⟩ := ok_of_bind h
  obtain ⟨-, h⟩ := ok_of_check h
  obtain ⟨hcount, h⟩ := ok_of_check h
  obtain ⟨hwindow, h⟩ := ok_of_check h
  obtain ⟨-, h⟩ := ok_of_check h
  obtain ⟨-, -, h⟩ := ok_of_bind h
  cases h
  obtain ⟨hpositive, henough⟩ := not_or.1 hcount
  exact ⟨compressed_of_committeeOf hkeys, Nat.pos_of_ne_zero hpositive, Nat.le_of_not_lt henough,
    UInt32.pos_iff_ne_zero.2 hwindow⟩

/-! ## Addresses of many keys -/

section Addresses

variable {keys : List PublicKey} {threshold : Nat}

/-- A script has one byte for the number of its keys. -/
theorem multisigScript_of_many (h : 255 < keys.length) :
    multisigScript threshold keys = raise (.thresholdOutOfRange threshold keys.length) :=
  if_pos (.inr (.inr h))

theorem committeeAddress_of_many (h : 255 < keys.length) : committeeAddress keys =
    raise (.thresholdOutOfRange (majorityThreshold keys.length) keys.length) := by
  rw [committeeAddress, multisigScript_of_many h]
  rfl

theorem validatorsAddress_of_many (h : 255 < keys.length) : validatorsAddress keys =
    raise (.thresholdOutOfRange (byzantineThreshold keys.length) keys.length) := by
  rw [validatorsAddress, multisigScript_of_many h]
  rfl

theorem succeeds_validatorsAddress (hne : keys ≠ []) (hfew : keys.length ≤ 255) :
    Succeeds (validatorsAddress keys) := by
  have hpos : 0 < keys.length := List.length_pos_iff.2 hne
  unfold validatorsAddress byzantineThreshold
  exact .map (succeeds_multisigScript (by omega) (by omega) hfew)

end Addresses

namespace Settings.Checked

variable {settings : Settings}

theorem length_validators (h : settings.Checked) :
    settings.validators.length = settings.validatorsCount :=
  List.length_take_of_le h.enough

theorem genesisHolder_eq (h : settings.Checked) :
    settings.genesisHolder = validatorsAddress settings.validators :=
  if_neg (Nat.not_lt.2 h.enough)

theorem succeeds_genesisHolder (h : settings.Checked) (hfew : settings.validatorsCount ≤ 255) :
    Succeeds settings.genesisHolder := by
  rw [h.genesisHolder_eq]
  have hlength := h.length_validators
  apply succeeds_validatorsAddress
  · rw [← List.length_pos_iff, hlength]
    exact h.positive
  · rwa [hlength]

theorem genesisHolder_of_many (h : settings.Checked) (hmany : 255 < settings.validatorsCount) :
    settings.genesisHolder = raise (.thresholdOutOfRange
      (byzantineThreshold settings.validatorsCount) settings.validatorsCount) := by
  have hlength := h.length_validators
  rw [← hlength] at hmany
  rw [h.genesisHolder_eq, validatorsAddress_of_many hmany, hlength]

theorem committee_ne_nil (h : settings.Checked) : settings.standbyCommittee ≠ [] :=
  List.length_pos_iff.1 (Nat.lt_of_lt_of_le h.positive h.enough)

end Settings.Checked

/-! ## The founding -/

section Founding

variable {m : Machine}

theorem Committee.run_found (h : m.cache.get? membersKey = none) :
    found.run m = (.ok (), { m with
      cache := m.cache.put membersKey (.raw (committeeBytes m.settings.standbyCommittee)) }) := by
  unfold found
  rw [Run.run_bind_of_ok (Run.run_settings m)]
  exact Run.run_add_of_none h _

theorem Gas.yields_found (h : Sound m.cache 0) (hholder : Succeeds m.settings.genesisHolder) :
    found.Yields m fun _ _ => True := by
  obtain ⟨holder, hholder⟩ := hholder
  have hlt := m.settings.initialGasDistribution.toNat_lt
  obtain ⟨u, m', hmint, -⟩ := yields_mint h (by rwa [Nat.zero_add]) holder
  refine ⟨u, m', ?_, trivial⟩
  unfold found
  rw [Run.run_bind_of_ok (Run.run_settings m), hholder,
    Run.run_bind_of_ok (Run.run_ofOutcome _ m), hmint]

/-- The contracts can be founded where none of them has stored anything. -/
theorem yields_foundAll (h : Gas.Sound m.cache 0) (hholder : Succeeds m.settings.genesisHolder)
    (hmembers : m.cache.get? Committee.membersKey = none)
    (hfee : m.cache.get? Policy.feeKey = none) : foundAll.Yields m fun _ _ => True := by
  have hseat := Committee.run_found hmembers
  have hseated := Committee.silent_found.of_run hseat
  obtain ⟨hsound, -⟩ := h.undisturbed hseated (by decide)
  obtain ⟨_, minted, hmint, -⟩ := Gas.yields_found hsound hholder
  have hminted := Gas.leaves_found.of_run hmint
  have hforeign :
      Contract.committee.Foreign Policy.feeKey ∧ Contract.gas.Foreign Policy.feeKey := by
    unfold Contract.Foreign
    decide
  have hfree : minted.cache.get? Policy.feeKey = none := by
    rw [hminted.get? _ hforeign.2, hseated.get? _ hforeign.1, hfee]
  obtain ⟨founded, hprice⟩ : ∃ founded, Policy.found.run minted = (.ok (), founded) :=
    ⟨_, Run.run_add_of_none hfree _⟩
  refine ⟨(), founded, ?_, trivial⟩
  unfold foundAll
  rw [Run.run_bind_of_ok hseat, Run.run_bind_of_ok hmint, hprice]

end Founding

namespace Settings.Checked

variable {settings : Settings} {genesis : Block} {σ : Type} {s : σ} {prepared ended : Machine}

/-! ## The first block -/

theorem exists_genesis (h : settings.Checked) (hfew : settings.validatorsCount ≤ 255) :
    ∃ genesis, Chain.genesis settings = .ok genesis := by
  obtain ⟨holder, hholder⟩ := h.succeeds_genesisHolder hfew
  unfold Chain.genesis
  rw [hholder]
  exact ⟨_, rfl⟩

/-- The first block fits an empty store. -/
theorem check_genesis (h : settings.Checked) (hg : Chain.genesis settings = .ok genesis) :
    genesis.check none settings.validatorsCount = .ok () := by
  unfold Chain.genesis at hg
  obtain ⟨holder, -, hg⟩ := ok_of_bind hg
  cases hg
  have hprimary : Block.checkPrimary ⟨⟨0, .zero 32, .zero 32, 1468595301000, 2083236893, 0, 0,
      holder⟩, []⟩ settings.validatorsCount = .ok () := if_pos h.positive
  unfold Block.check
  rw [hprimary]
  rfl

theorem accept_genesis (h : settings.Checked) (hg : Chain.genesis settings = .ok genesis) :
    Chain.accept ⟨(SortedMap.empty : Store), settings⟩ genesis = .ok () := by
  rw [Chain.accept_eq (.empty settings), Chain.transactions_genesis hg, List.length_nil,
    if_neg (Nat.not_lt_zero _), List.getLast?_nil, Option.map_none]
  dsimp only
  rw [h.check_genesis hg]

/-- The first block can be prepared on an empty store. -/
theorem ends_prepare (h : settings.Checked) (hfew : settings.validatorsCount ≤ 255)
    (hg : Chain.genesis settings = .ok genesis) :
    (prepare genesis.index).Ends (.forBlock settings SortedMap.empty genesis)
      (fun _ => False) fun _ _ => True := by
  set m : Machine := .forBlock settings SortedMap.empty genesis
  have hbooked := Gas.Booked.empty settings
  obtain ⟨_, founded, hfound, -⟩ := yields_foundAll (m := m) Gas.sound_empty
    (h.succeeds_genesisHolder hfew) rfl rfl
  obtain ⟨hsound, -⟩ := Gas.foundAll_ok (m := m) Gas.sound_empty hfound
  have honce : (foundOnce m.cache).run m = (.ok (), founded) := hfound
  have hleaves := (leaves_foundOnce m.cache).of_run honce
  have htells : Ledger.Tells founded.cache [] none := Ledger.tells_empty.congr hleaves.get?
  have hempty := Chain.transactions_genesis hg
  unfold Run.Ends
  rw [run_prepare]
  apply Run.Ends.bind_of_ok honce
  refine .bind ((Ledger.ends_onPersist htells hleaves.block (by simp) (by simp)
    (by simp [hempty])).with_run.imp ?_ fun _ _ hQ => hQ) ?_
  · rintro f ⟨-, e, he, -⟩
    cases he
  · rintro _ stored ⟨hstore, -⟩
    have hblock : stored.block = some genesis :=
      (Ledger.leaves_onPersist.of_run hstore).block.trans hleaves.block
    have hkeep := Gas.preserves_ledger Ledger.leaves_onPersist founded hsound
    rw [Run.after_of_run hstore] at hkeep
    refine .bind ((Gas.ends_onPersist hkeep hblock).imp ?_ fun _ _ _ => trivial) ?_
    · rintro f ⟨t, ht, -⟩
      rw [hempty] at ht
      cases ht
    · intro _ burned _
      exact .of_ok rfl trivial

/-- The first block is concluded by the committee that was just stored. -/
theorem ends_conclude (h : settings.Checked) (hg : Chain.genesis settings = .ok genesis)
    (hended : Chain.Ended ⟨(SortedMap.empty : Store), settings⟩ (.halting : Executor σ) s genesis
      prepared ended) : conclude.Ends ended (fun _ => False) fun _ _ => True := by
  apply (Chain.ends_conclude (.empty settings) Executor.halting_onlyCalls hended).imp ?_
    fun _ _ hQ => hQ
  intro f hf
  obtain ⟨hstored, henough⟩ := Committee.stored_of_ended hended Executor.halting_onlyCalls rfl
  have hmembers : Committee.members ended.cache = .ok settings.standbyCommittee := by
    unfold Committee.members
    rw [hstored]
    dsimp only [Item.bytes]
    rw [decodeCommittee_of_compressed h.compressed]
  have hseated : Committee.Seated settings ended.cache := ⟨hstored, hmembers, henough⟩
  obtain ⟨key, hkey⟩ := hseated.proposer (Block.check_ok (h.check_genesis hg)).2.2.2
  rw [hkey] at hf
  cases hf

/-- The first block is taken up. -/
theorem start_ok (h : settings.Checked) (hfew : settings.validatorsCount ≤ 255) :
    ∃ c, Chain.start (SortedMap.empty : Store) settings = .ok c := by
  obtain ⟨genesis, hg⟩ := h.exists_genesis hfew
  rw [Chain.start_empty, hg, ok_bind]
  rcases hp : Chain.persist ⟨(SortedMap.empty : Store), settings⟩ Executor.halting () genesis with
    ⟨f | ⟨applied, c⟩, u⟩
  · exfalso
    rcases Chain.persist_error hp with
      hf | ⟨-, hf⟩ | ⟨prepared, -, hf⟩ | ⟨prepared, ended, hended, hf⟩
    · rw [h.accept_genesis hg] at hf
      cases hf
    · exact (h.ends_prepare hfew hg).failed hf
    · rw [Chain.transactions_genesis hg] at hf
      cases hf
    · exact (h.ends_conclude hg hended).failed hf
  · exact ⟨c, rfl⟩

/-- Without an address of the validators there is no first block. -/
theorem start_of_many (h : settings.Checked) (hmany : 255 < settings.validatorsCount) :
    Chain.start (SortedMap.empty : Store) settings = raise (.thresholdOutOfRange
      (byzantineThreshold settings.validatorsCount) settings.validatorsCount) := by
  rw [Chain.start_empty, Chain.genesis, h.genesisHolder_of_many hmany]
  rfl

end Settings.Checked

/-! ## Usable settings -/

/-- A call asks for the address of the committee. -/
def Committee.asked (m : Machine) : Outcome StackItem :=
  ((Contract.call Contract.committee.address "getCommitteeAddress" []).run m).1

/-- The answer is the address of the members. -/
theorem Committee.asked_eq {settings : Settings} {m : Machine} (h : Seated settings m.cache) :
    asked m = (committeeAddress settings.standbyCommittee).map .ofHash := by
  have hanswer (count : Nat) : answer m.cache count "getCommitteeAddress" [] =
      (address m.cache).map .ofHash := rfl
  unfold asked Contract.call
  rw [Contract.ofAddress?_address]
  dsimp only [Contract.invoke]
  unfold invoke
  rw [Run.run_bind_of_ok (Run.run_settings m), Run.run_query, hanswer, address, h.members, ok_bind]

/-- What is expected of settings: the first distribution has a holder, the
committee has an address, and they found a chain that tells this address. -/
structure Settings.Usable (settings : Settings) : Prop where
  holder : Succeeds settings.genesisHolder
  address : Succeeds (committeeAddress settings.standbyCommittee)
  founds : ∃ c, Chain.start (SortedMap.empty : Store) settings = .ok c ∧ c.height = .ok 0 ∧
    ∀ m : Machine, m.cache = c.snapshot → Succeeds (Committee.asked m)

/-- A chain that is founded by checked settings. -/
theorem Settings.Checked.founds {settings : Settings} (h : settings.Checked)
    (hfew : settings.validatorsCount ≤ 255) : ∃ c,
      Chain.start (SortedMap.empty : Store) settings = .ok c ∧ c.height = .ok 0 ∧
      ∀ m : Machine, m.cache = c.snapshot →
        Committee.asked m = (committeeAddress settings.standbyCommittee).map .ofHash := by
  obtain ⟨genesis, hg⟩ := h.exists_genesis hfew
  obtain ⟨c, hstart⟩ := h.start_ok hfew
  have hgrown : Grown settings c [⟨genesis, []⟩] := .start hg hstart
  have hheight := (hgrown.chronicle.tip_eq (e := ⟨genesis, []⟩) rfl).2
  have hindex : genesis.index = 0 :=
    Block.index_of_checkLink_none (Block.check_ok (h.check_genesis hg)).1
  refine ⟨c, hstart, by rw [hheight]; exact congrArg _ hindex, fun m hm => Committee.asked_eq ?_⟩
  rw [hm]
  exact Committee.Seated.of_grown hgrown

/-- Accepted settings are usable with up to 255 members of the committee. With
more members nobody can ask for their address, and with more validators no
chain is founded. -/
theorem settings_are_usable_up_to_255_members {o : Options} {settings : Settings}
    (h : Settings.ofOptions o = .ok settings) :
    (settings.Usable ↔ settings.standbyCommittee.length ≤ 255) ∧
    (255 < settings.standbyCommittee.length → committeeAddress settings.standbyCommittee =
      raise (.thresholdOutOfRange (majorityThreshold settings.standbyCommittee.length)
        settings.standbyCommittee.length)) ∧
    (settings.validatorsCount ≤ 255 → Succeeds settings.genesisHolder ∧ ∃ c,
      Chain.start (SortedMap.empty : Store) settings = .ok c ∧ c.height = .ok 0 ∧
      ∀ m : Machine, m.cache = c.snapshot →
        Committee.asked m = (committeeAddress settings.standbyCommittee).map .ofHash) ∧
    (255 < settings.validatorsCount →
      settings.genesisHolder = raise (.thresholdOutOfRange
        (byzantineThreshold settings.validatorsCount) settings.validatorsCount) ∧
      Chain.start (SortedMap.empty : Store) settings = raise (.thresholdOutOfRange
        (byzantineThreshold settings.validatorsCount) settings.validatorsCount)) := by
  have hchecked := Settings.checked_of_ofOptions h
  refine ⟨⟨fun husable => ?_, fun hfew => ?_⟩, committeeAddress_of_many,
    fun hfew => ⟨hchecked.succeeds_genesisHolder hfew, hchecked.founds hfew⟩,
    fun hmany => ⟨hchecked.genesisHolder_of_many hmany, hchecked.start_of_many hmany⟩⟩
  · by_contra hmany
    obtain ⟨address, haddress⟩ := husable.address
    rw [committeeAddress_of_many (Nat.lt_of_not_le hmany)] at haddress
    cases haddress
  · have hvalidators := Nat.le_trans hchecked.enough hfew
    have haddress := succeeds_committeeAddress hchecked.committee_ne_nil hfew
    obtain ⟨c, hstart, hheight, hasked⟩ := hchecked.founds hvalidators
    refine ⟨hchecked.succeeds_genesisHolder hvalidators, haddress, c, hstart, hheight, ?_⟩
    intro m hm
    rw [hasked m hm]
    exact haddress.map

namespace Sample

/-- Options with a committee of some size that name the same key again and
again. -/
def options (members : Nat) : Options :=
  { Options.default with
    standbyCommittee := List.replicate members
      "020707070707070707070707070707070707070707070707070707070707070707"
    validatorsCount := 1 }

/-- The settings of the small chains as they are written. -/
def written (distribution : UInt64) : Options :=
  { options 1 with
    network := 1
    memoryPoolMaxTransactions := 100
    maxTraceableBlocks := 100
    maxValidUntilBlockIncrement := 100
    initialGasDistribution := distribution }

/-- They are accepted. -/
theorem ofOptions_written (distribution : UInt64) : Settings.ofOptions (written distribution) =
    .ok { settings with initialGasDistribution := distribution } := by
  have hkeys : (Settings.committeeOf (options 1)).toOption = some settings.standbyCommittee := by
    decide +kernel
  have hcommittee : Settings.committeeOf (written distribution) = .ok settings.standbyCommittee := by
    change Settings.committeeOf (options 1) = _
    rcases hc : Settings.committeeOf (options 1) with e | committee <;> rw [hc] at hkeys <;>
      cases hkeys
    rfl
  unfold Settings.ofOptions
  rw [hcommittee]
  rfl

/-- The size of the committee, if the options are accepted. -/
def committeeSize? (o : Options) : Option Nat :=
  (Settings.ofOptions o).toOption.map fun settings => settings.standbyCommittee.length

theorem exists_settings {o : Options} {n : Nat} (h : committeeSize? o = some n) :
    ∃ settings, Settings.ofOptions o = .ok settings ∧ settings.standbyCommittee.length = n := by
  unfold committeeSize? at h
  rcases ho : Settings.ofOptions o with e | settings <;> rw [ho] at h
  · cases h
  · exact ⟨settings, rfl, Option.some.inj h⟩

/-- One key is enough. -/
theorem usable_options : ∃ settings, Settings.ofOptions (options 1) = .ok settings ∧
    settings.Usable := by
  have hsize : committeeSize? (options 1) = some 1 := by decide +kernel
  obtain ⟨settings, ho, hlength⟩ := exists_settings hsize
  refine ⟨settings, ho, (settings_are_usable_up_to_255_members ho).1.2 ?_⟩
  rw [hlength]
  decide

/-- A committee can be accepted and have no address. -/
theorem not_all_accepted_settings_are_usable : ¬ ∀ (o : Options) (settings : Settings),
    Settings.ofOptions o = .ok settings → settings.Usable := by
  intro hall
  have hsize : committeeSize? (options 256) = some 256 := by decide +kernel
  obtain ⟨settings, ho, hlength⟩ := exists_settings hsize
  obtain ⟨address, haddress⟩ := (hall _ _ ho).address
  rw [committeeAddress_of_many (by rw [hlength]; decide)] at haddress
  cases haddress

end Sample
end BlockLedger
