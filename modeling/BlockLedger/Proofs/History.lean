-- What the ledger tells about the blocks of a chain. Blocks are stored
-- without their transactions, and later blocks keep writing to the table of
-- the records, so the whole table is followed through every phase of every
-- block.
import BlockLedger.Proofs.Register

namespace BlockLedger

namespace Ledger

/-! ## Keys of different tables -/

theorem leValue_beBytes_inj {a b : UInt32} (h : beBytes 4 a.toNat = beBytes 4 b.toNat) : a = b := by
  have hv := congrArg leValue (List.reverse_inj.1 h)
  rw [leValue_leBytes, leValue_leBytes] at hv
  have ha := a.toNat_lt
  have hb := b.toNat_lt
  apply UInt32.toNat_inj.1
  omega

theorem hashKey_inj {a b : UInt32} : hashKey a = hashKey b ↔ a = b :=
  ⟨fun h => leValue_beBytes_inj (congrArg Key.rest h), fun h => h ▸ rfl⟩

theorem blockKey_inj {a b : Hash256} : blockKey a = blockKey b ↔ a = b :=
  ⟨fun h => Fixed.ext (congrArg Key.rest h), fun h => h ▸ rfl⟩

theorem hashKey_ne_blockKey (index : UInt32) (hash : Hash256) : hashKey index ≠ blockKey hash := by
  intro h
  have htag : (9 : UInt8) = 5 := congrArg Key.tag h
  exact absurd htag (by decide)

theorem tipKey_ne_hashKey (index : UInt32) : tipKey ≠ hashKey index := by
  intro h
  have htag : (12 : UInt8) = 9 := congrArg Key.tag h
  exact absurd htag (by decide)

theorem tipKey_ne_blockKey (hash : Hash256) : tipKey ≠ blockKey hash := by
  intro h
  have htag : (12 : UInt8) = 5 := congrArg Key.tag h
  exact absurd htag (by decide)

theorem outside_tipKey : Outside tipKey := fun _ => by decide

theorem outside_hashKey (index : UInt32) : Outside (hashKey index) := by
  intro _ htag
  have htag : (9 : UInt8) = 11 := htag
  exact absurd htag (by decide)

theorem outside_blockKey (hash : Hash256) : Outside (blockKey hash) := by
  intro _ htag
  have htag : (5 : UInt8) = 11 := htag
  exact absurd htag (by decide)

/-! ## Caches that tell a history -/

/-- A cache tells the blocks of a history, the latest one first, and the tip. -/
structure Tells (c : Cache) (past : List Entry) (tip : Option BlockPointer) : Prop where
  tip : c.Shows tipKey tip
  hashes (index : UInt32) : c.get? (hashKey index) =
    ((past.map Entry.block).find? (·.index = index)).map fun b => .raw b.hash.bytes
  blocks (hash : Hash256) : c.get? (blockKey hash) =
    ((past.map Entry.block).find? (·.hash = hash)).map fun b => .raw b.trim.bytes
  register : Keeps c (.of past)

variable {c c' : Cache} {past : List Entry} {tip : Option BlockPointer}

/-- The history is in the keys of the ledger. -/
theorem Tells.congr (h : Tells c past tip)
    (hc : ∀ key : Key, key.owner = Contract.ledger.id → c'.get? key = c.get? key) :
    Tells c' past tip where
  tip := Cache.shows_of_get?_eq (hc _ rfl) h.tip
  hashes index := (hc _ rfl).trans (h.hashes index)
  blocks hash := (hc _ rfl).trans (h.blocks hash)
  register := h.register.congr fun key ho _ => hc key ho

/-- A commit changes nothing that the ledger tells. -/
theorem Tells.stored (h : Tells c past tip) : Tells c.stored past tip where
  tip := h.tip.stored
  hashes index := by
    rw [Cache.get?_stored, h.hashes]
    simp [Function.comp_def, Item.bytes]
  blocks hash := by
    rw [Cache.get?_stored, h.blocks]
    simp [Function.comp_def, Item.bytes]
  register := h.register.stored

theorem tells_empty : Tells (.ofStore SortedMap.empty) [] none :=
  ⟨rfl, fun _ => rfl, fun _ => rfl, fun _ => rfl, fun _ _ => rfl⟩

/-- What is entered in the register leaves the rest of the history alone. -/
theorem Tells.enter {m m' : Machine} {past' : List Entry} (h : Tells m.cache past tip)
    (ha : m.Agrees Outside m') (hk : Keeps m'.cache (.of past'))
    (hsame : past'.map Entry.block = past.map Entry.block) : Tells m'.cache past' tip where
  tip := Cache.shows_of_get?_eq (ha.get? _ outside_tipKey) h.tip
  hashes index := by rw [ha.get? _ (outside_hashKey index), hsame, h.hashes]
  blocks hash := by rw [ha.get? _ (outside_blockKey hash), hsame, h.blocks]
  register := hk

/-! ## Storing a block -/

theorem of_empty_entry (b : Block) (past : List Entry) :
    Register.of (⟨b, []⟩ :: past) = Register.of past := by
  refine Register.ext (funext fun h => ?_) (funext fun h => funext fun s => ?_)
  · rw [Register.record_of_cons]
    rfl
  · rw [Register.mark_of_cons]
    rfl

/-- The hash and the trimmed block are stored before any transaction. -/
theorem Tells.put_block (h : Tells c past tip) (b : Block) :
    Tells ((c.put (hashKey b.index) (.raw b.hash.bytes)).put (blockKey b.hash)
      (.raw b.trim.bytes)) (⟨b, []⟩ :: past) tip where
  tip := by
    refine Cache.shows_of_get?_eq ?_ h.tip
    rw [Cache.get?_put, if_neg (tipKey_ne_blockKey _), Cache.get?_put, if_neg (tipKey_ne_hashKey _)]
  hashes index := by
    rw [Cache.get?_put, if_neg (hashKey_ne_blockKey _ _), Cache.get?_put, h.hashes]
    by_cases hi : b.index = index
    · simp [hi]
    · have hne : ¬ index = b.index := fun heq => hi heq.symm
      simp [hi, hne, hashKey_inj]
  blocks hash := by
    rw [Cache.get?_put, Cache.get?_put, if_neg (hashKey_ne_blockKey _ _).symm, h.blocks]
    by_cases hh : b.hash = hash
    · simp [hh]
    · have hne : ¬ hash = b.hash := fun heq => hh heq.symm
      simp [hh, hne, blockKey_inj]
  register := by
    rw [of_empty_entry]
    apply h.register.congr
    intro key _ ht
    rw [Cache.get?_put, if_neg, Cache.get?_put, if_neg]
    · rintro rfl
      exact outside_hashKey _ rfl ht
    · rintro rfl
      exact outside_blockKey _ rfl ht

/-- The transactions of a block are stored one after the other. -/
theorem yields_storeTransactions {m : Machine} {b : Block} (h : Tells m.cache (⟨b, []⟩ :: past) tip)
    (hd : (b.transactions.map (·.hash)).Nodup) :
    (b.transactions.forM (storeTransaction b.index)).Yields m fun _ m' =>
      Tells m'.cache (⟨b, b.transactions.map fun t => (t, .none)⟩ :: past) tip := by
  have hall := Enters.forM (l := b.transactions) (f := storeTransaction b.index)
    (g := fun done => Register.of (⟨b, done.map fun t => (t, .none)⟩ :: past)) h.register ?_
  · obtain ⟨u, m', hrun, hagrees, hkeeps⟩ := hall
    exact ⟨u, m', hrun, h.enter hagrees hkeeps rfl⟩
  · intro done t rest m' hl hk
    rw [List.map_append, List.map_singleton, ← Register.of_store]
    · exact enters_storeTransaction hk b.index t
    · intro p hp heq
      obtain ⟨t', ht', rfl⟩ := List.mem_map.1 hp
      rw [hl, List.map_append, List.nodup_append] at hd
      exact hd.2.2 _ (List.mem_map_of_mem ht') _ List.mem_cons_self heq

/-- A tip that the block follows passes the check of the ledger. -/
theorem checkTip_ok {b : Block} (h : c.Shows tipKey tip)
    (hlink : ∀ p ∈ tip, b.index.toNat = p.index.toNat + 1) : checkTip c b.index = .ok () := by
  have hread : Ledger.tip c = .ok tip := h.read?
  unfold checkTip
  rw [hread]
  rcases tip with _ | p
  · rfl
  · exact if_pos (hlink p rfl)

/-- A block that follows the tip is stored as the latest one, unless one with
the same hash is there. -/
theorem ends_onPersist {m : Machine} {b : Block} (h : Tells m.cache past tip)
    (hb : m.block = some b) (hlink : ∀ p ∈ tip, b.index.toNat = p.index.toNat + 1)
    (hindex : ∀ e ∈ past, e.block.index ≠ b.index) (hd : (b.transactions.map (·.hash)).Nodup) :
    onPersist.Ends m
      (fun f => f = .fault (.duplicateKey (blockKey b.hash)) ∧ ∃ e ∈ past, e.block.hash = b.hash)
      fun _ m' => Tells m'.cache (⟨b, b.transactions.map fun t => (t, .none)⟩ :: past) tip ∧
        ∀ e ∈ past, e.block.hash ≠ b.hash := by
  have hquery : (Run.query fun c => checkTip c b.index).run m = (.ok (), m) := by
    rw [Run.run_query, checkTip_ok h.tip hlink]
  have hfree : m.cache.get? (hashKey b.index) = none := by
    rw [h.hashes, Option.map_eq_none_iff, List.find?_eq_none]
    intro b' hb'
    obtain ⟨e, he, rfl⟩ := List.mem_map.1 hb'
    simpa using hindex e he
  have hblock : (m.cache.put (hashKey b.index) (.raw b.hash.bytes)).get? (blockKey b.hash) =
      ((past.map Entry.block).find? (·.hash = b.hash)).map fun b => .raw b.trim.bytes := by
    rw [Cache.get?_put, if_neg (hashKey_ne_blockKey _ _).symm, h.blocks]
  unfold onPersist
  refine .bind_of_ok (Run.run_block_of_some hb) (.bind_of_ok hquery ?_)
  refine .bind_of_ok (Run.run_add_of_none hfree _) ?_
  rcases hfind : (past.map Entry.block).find? (·.hash = b.hash) with _ | b'
  · rw [hfind] at hblock
    refine .bind_of_ok (Run.run_add_of_none hblock _) ?_
    have hnew : ∀ e ∈ past, e.block.hash ≠ b.hash := by
      intro e he heq
      rw [List.find?_eq_none] at hfind
      exact hfind e.block (List.mem_map_of_mem he) (by simpa using heq)
    apply (yields_storeTransactions (h.put_block b) hd).ends.imp (fun f hf => hf)
    intro _ m' htells
    exact ⟨htells, hnew⟩
  · rw [hfind] at hblock
    refine .of_error (Run.run_bind_of_error (Run.run_add_of_some hblock _)) ⟨rfl, ?_⟩
    obtain ⟨e, he, rfl⟩ := List.mem_map.1 (List.mem_of_find?_eq_some hfind)
    exact ⟨e, he, by simpa using List.find?_some hfind⟩

/-! ## The end of a block -/

theorem run_postPersist {m : Machine} {b : Block} (h : m.cache.Shows tipKey tip)
    (hb : m.block = some b) : postPersist.run m =
      (.ok (), { m with cache := m.cache.put tipKey (.pointer ⟨b.hash, b.index⟩) }) := by
  have htouch : ∃ v item, (Run.touchValue tipKey (.ok BlockPointer.zero)).run m =
      (.ok v, { m with cache := m.cache.put tipKey item }) := by
    rw [Run.run_touchValue]
    rcases tip with _ | v
    · exact ⟨_, _, by rw [Cache.touchValue_none h]⟩
    · exact ⟨_, _, by rw [Cache.touchValue_some h]⟩
  obtain ⟨v, item, hrun⟩ := htouch
  unfold postPersist
  rw [Run.run_bind_of_ok (Run.run_block_of_some hb), Run.run_bind_of_ok hrun]
  unfold Run.putValue
  rw [Run.run_put, Cache.put_put]
  rfl

/-- The tip moves to the block, and nothing else changes. -/
theorem Tells.put_tip (h : Tells c past tip) (p : BlockPointer) :
    Tells (c.put tipKey (.pointer p)) past (some p) where
  tip := Cache.shows_put p
  hashes index := by rw [Cache.get?_put, if_neg (tipKey_ne_hashKey _).symm, h.hashes]
  blocks hash := by rw [Cache.get?_put, if_neg (tipKey_ne_blockKey _).symm, h.blocks]
  register := by
    apply h.register.congr
    intro key _ ht
    rw [Cache.get?_put, if_neg]
    rintro rfl
    exact outside_tipKey rfl ht

/-! ## The transactions of a block -/

section Transactions

variable {σ : Type} {exec : Executor σ} {s : σ} {m : Machine} {b : Block}
  {done rest : List (Transaction × VmState)}

/-- A script leaves the history as it is, and its end is recorded. -/
theorem tells_runTransaction {t : Transaction} {result : Execution} {s' : σ} {m₁ : Machine}
    (h : Tells m.cache (⟨b, done ++ (t, .none) :: rest⟩ :: past) tip)
    (hnew : ∀ p ∈ done, p.1.hash ≠ t.hash) (hexec : exec.OnlyCalls)
    (hx : exec t s { m with container := some t } = (.ok result, s', m₁)) :
    ∃ executed m', runTransaction exec t s m = (.ok executed, s', m') ∧
      Tells m'.cache (⟨b, done ++ (t, result.vmState) :: rest⟩ :: past) tip := by
  have hagrees := (hexec t s { m with container := some t }).agrees
  rw [hx] at hagrees
  have hafter : Tells (afterExecution m m₁ result.vmState).2.cache
      (⟨b, done ++ (t, .none) :: rest⟩ :: past) tip := by
    refine h.congr fun key ho => get?_afterExecution hagrees _ ?_
    exact ⟨Contract.foreign (by decide) ho, Contract.foreign (by decide) ho⟩
  obtain ⟨u, m', hset, hsame, hkeeps⟩ := enters_setVmState hafter.register
    (Register.record_of_split hnew .none) result.vmState
  rw [Register.of_setState hnew] at hkeeps
  unfold runTransaction
  simp only [hx, run_recordExecution, hset]
  exact ⟨_, m', rfl, hafter.enter hsame hkeeps rfl⟩

theorem reports_cons {t : Transaction} (ts : List Transaction) {result : Execution} {s' : σ}
    {m₁ : Machine} (hx : exec t s { m with container := some t } = (.ok result, s', m₁)) :
    exec.reports (t :: ts) s m = (t, result.vmState) ::
      exec.reports ts (runTransaction exec t s m).2.1 (runTransaction exec t s m).2.2 := by
  rw [Executor.reports, hx]

/-- The transactions run one after the other, each with the state that the
executor reports. Only the executor itself can fail. -/
theorem tells_runTransactions (hexec : exec.OnlyCalls) {ts : List Transaction} (s : σ)
    (h : Tells m.cache (⟨b, done ++ ts.map fun t => (t, .none)⟩ :: past) tip)
    (hd : (done.map (·.1.hash) ++ ts.map (·.hash)).Nodup) :
    (∃ f, (runTransactions exec ts s m).1 = .error f ∧ exec.Raises f) ∨
    ∃ executed s' m', runTransactions exec ts s m = (.ok executed, s', m') ∧
      (exec.reports ts s m).map Prod.fst = ts ∧
      Tells m'.cache (⟨b, done ++ exec.reports ts s m⟩ :: past) tip := by
  induction ts generalizing done s m with
  | nil => exact .inr ⟨[], s, m, rfl, rfl, h⟩
  | cons t rest ih =>
    rcases hx : exec t s { m with container := some t } with ⟨f | result, s₁, m₁⟩
    · refine .inl ⟨f, ?_, t, s, _, by rw [hx]⟩
      simp only [runTransactions, runTransaction, hx]
    · have hnew : ∀ p ∈ done, p.1.hash ≠ t.hash := by
        intro p hp heq
        exact (List.nodup_append.1 hd).2.2 _ (List.mem_map_of_mem hp) _ List.mem_cons_self heq
      obtain ⟨executed, m₂, hrun, htells⟩ := tells_runTransaction h hnew hexec hx
      have hreports := reports_cons rest hx
      rw [hrun] at hreports
      rw [List.append_cons] at htells
      rcases ih s₁ htells (by simpa using hd) with
        ⟨f, hf, hraise⟩ | ⟨more, s', m', hmore, hfst, hlast⟩
      · refine .inl ⟨f, ?_, hraise⟩
        rcases hr : runTransactions exec rest s₁ m₂ with ⟨e | more, s', m'⟩
        · rw [hr] at hf
          cases hf
          simp only [runTransactions, hrun, hr]
        · rw [hr] at hf
          cases hf
      · refine .inr ⟨executed :: more, s', m', ?_, ?_, ?_⟩
        · simp only [runTransactions, hrun, hmore]
        · rw [hreports, List.map_cons, hfst]
        · rwa [hreports, List.append_cons]

end Transactions

end Ledger

/-! ## The history of a chain -/

/-- The pointer to a block of the history. -/
def Entry.pointer (e : Entry) : BlockPointer := ⟨e.block.hash, e.block.index⟩

/-- A chain tells its history: each block is at the place of its index, no
two have the same hash, and a state is reported for each transaction. -/
structure Chronicle (c : Chain Store) (past : List Entry) : Prop where
  tells : Ledger.Tells c.snapshot past.reverse (past.getLast?.map Entry.pointer)
  indexes : past.map (·.block.index.toNat) = List.range past.length
  hashes : (past.map (·.block.hash)).Nodup
  reported : ∀ e ∈ past, e.reported.map Prod.fst = e.block.transactions
  distinct : ∀ e ∈ past, (e.block.transactions.map (·.hash)).Nodup

namespace Chronicle

variable {σ : Type} {exec : Executor σ} {s s' : σ} {c c' : Chain Store} {past : List Entry}
  {block : Block} {applied : Persisted}

/-- The last block of a history has the last index. -/
theorem index_last (h : Chronicle c past) {e : Entry} (he : past.getLast? = some e) :
    e.block.index.toNat + 1 = past.length := by
  obtain ⟨before, rfl⟩ := List.getLast?_eq_some_iff.1 he
  have hindexes := h.indexes
  rw [List.map_append, List.length_append, List.length_singleton, List.range_succ] at hindexes
  have hlast := List.append_inj_right hindexes (by simp)
  simp at hlast
  simp [hlast]

/-- The tip is the last block. -/
theorem tip_eq (h : Chronicle c past) {e : Entry} (he : past.getLast? = some e) :
    c.tipHash = .ok e.block.hash ∧ c.height = .ok e.block.index := by
  have hread : Ledger.tip c.snapshot = .ok (some e.pointer) := by
    have hread : Ledger.tip c.snapshot = .ok (past.getLast?.map Entry.pointer) := h.tells.tip.read?
    rwa [he] at hread
  unfold Chain.tipHash Chain.height Ledger.currentHash Ledger.currentIndex Ledger.tipOrZero
  rw [hread]
  exact ⟨rfl, rfl⟩

/-- The block that a chain takes up has the next index. -/
theorem index_next (h : Chronicle c past) {tip : Option BlockPointer} {validators : Nat}
    (htip : Ledger.tip c.snapshot = .ok tip) (hcheck : block.check tip validators = .ok ()) :
    block.index.toNat = past.length := by
  have hread : Ledger.tip c.snapshot = .ok (past.getLast?.map Entry.pointer) := h.tells.tip.read?
  rw [htip] at hread
  cases hread
  have hlink := (Block.check_ok hcheck).1
  rcases hlast : past.getLast? with _ | e
  · rw [hlast] at hlink
    rw [Block.index_of_checkLink_none hlink, List.getLast?_eq_none_iff.1 hlast]
    rfl
  · rw [hlast] at hlink
    rw [Block.index_of_checkLink_some hlink, ← h.index_last hlast]
    rfl

/-- The block that a chain takes up follows the tip, and no block has its
index. -/
theorem follows (h : Chronicle c past) {tip : Option BlockPointer} {validators : Nat}
    (htip : Ledger.tip c.snapshot = .ok tip) (hcheck : block.check tip validators = .ok ()) :
    (∀ p ∈ past.getLast?.map Entry.pointer, block.index.toNat = p.index.toNat + 1) ∧
      ∀ e ∈ past, e.block.index ≠ block.index := by
  have hnext := h.index_next htip hcheck
  constructor
  · intro p hp
    obtain ⟨e, he, rfl⟩ := Option.map_eq_some_iff.1 hp
    rw [hnext, ← h.index_last he]
    rfl
  · intro e he heq
    have hmem := List.mem_map_of_mem (f := fun e : Entry => e.block.index.toNat) he
    rw [h.indexes, List.mem_range, heq, hnext] at hmem
    exact Nat.lt_irrefl _ hmem

theorem empty (settings : Settings) : Chronicle ⟨SortedMap.empty, settings⟩ [] :=
  ⟨Ledger.tells_empty, rfl, .nil, by simp, by simp⟩

section Step

variable {prepared ended final : Machine}

/-- Before its transactions run, the block is stored with all of them. -/
theorem tells_prepared (h : Chronicle c past) (hpass : c.Prepared block prepared) :
    Ledger.Tells prepared.cache
      (⟨block, block.transactions.map fun t => (t, .none)⟩ :: past.reverse)
      (past.getLast?.map Entry.pointer) ∧ ∀ e ∈ past, e.block.hash ≠ block.hash := by
  obtain ⟨tip, htip, hcheck⟩ := hpass.fits
  obtain ⟨hdistinct, -⟩ := Block.transactions_of_check hcheck
  obtain ⟨hlink, hindex⟩ := h.follows htip hcheck
  obtain ⟨founded, stored, burned, hfound, hstore, hburn, rfl⟩ := hpass.phases
  have hfounded := (leaves_foundOnce c.snapshot).of_run hfound
  have htells : Ledger.Tells founded.cache past.reverse (past.getLast?.map Entry.pointer) :=
    h.tells.congr hfounded.get?
  obtain ⟨hstored, hnew⟩ := (Ledger.ends_onPersist htells hfounded.block hlink
    (by simpa using hindex) hdistinct).of_run hstore
  have hburned := Gas.leaves_onPersist.of_run hburn
  refine ⟨hstored.congr fun key ho => hburned.get? key ?_, fun e he => hnew e (by simpa using he)⟩
  exact Contract.foreign (by decide) ho

/-- After its transactions ran, the block is stored with the states that were
reported for them. -/
theorem tells_ended (h : Chronicle c past) (hexec : exec.OnlyCalls)
    (hpass : c.Ended exec s block prepared ended) :
    Ledger.Tells ended.cache (⟨block, c.reports exec s block⟩ :: past.reverse)
      (past.getLast?.map Entry.pointer) ∧
      (c.reports exec s block).map Prod.fst = block.transactions := by
  obtain ⟨tip, -, hcheck⟩ := hpass.fits
  obtain ⟨hdistinct, -⟩ := Block.transactions_of_check hcheck
  obtain ⟨hprepared, -⟩ := h.tells_prepared hpass.toPrepared
  obtain ⟨executed, s', hrun⟩ := hpass.run
  rw [hpass.toPrepared.reports_eq exec s]
  have hstart : Ledger.Tells prepared.cache
      (⟨block, [] ++ block.transactions.map fun t => (t, .none)⟩ :: past.reverse)
      (past.getLast?.map Entry.pointer) := hprepared
  rcases Ledger.tells_runTransactions hexec s hstart (by simpa using hdistinct) with
    ⟨f, hf, -⟩ | ⟨executed', s₁, m', hrun', hfst, htells⟩
  · rw [hrun] at hf
    cases hf
  · rw [hrun] at hrun'
    cases hrun'
    exact ⟨htells, hfst⟩

/-- At its end the block is the tip. -/
theorem tells_final (h : Chronicle c past) (hexec : exec.OnlyCalls)
    (hpass : c.Passage exec s block prepared ended final) :
    Ledger.Tells final.cache (⟨block, c.reports exec s block⟩ :: past.reverse)
      (some ⟨block.hash, block.index⟩) := by
  obtain ⟨htells, -⟩ := h.tells_ended hexec hpass.toEnded
  obtain ⟨moved, minted, hmove, hmint, rfl⟩ := hpass.phases
  rw [Ledger.run_postPersist htells.tip (hpass.toEnded.applies hexec).block] at hmove
  cases hmove
  have hminted := Gas.leaves_postPersist.of_run hmint
  refine (htells.put_tip ⟨block.hash, block.index⟩).congr fun key ho => hminted.get? key ?_
  exact Contract.foreign (by decide) ho

/-- A block that is committed is one more block of the history. -/
theorem advance (h : Chronicle c past) (hexec : exec.OnlyCalls)
    (hpass : c.Passage exec s block prepared ended final) :
    Chronicle ⟨c.content.commit final.cache.changes, c.settings⟩
      (past ++ [⟨block, c.reports exec s block⟩]) := by
  obtain ⟨tip, htip, hcheck⟩ := hpass.fits
  obtain ⟨hdistinct, -⟩ := Block.transactions_of_check hcheck
  obtain ⟨-, hnew⟩ := h.tells_prepared hpass.toPrepared
  obtain ⟨-, hreported⟩ := h.tells_ended hexec hpass.toEnded
  have hfinal := (h.tells_final hexec hpass).stored
  rw [← hpass.snapshot_eq hexec] at hfinal
  refine ⟨?_, ?_, ?_, ?_, ?_⟩
  · rw [List.reverse_append, List.getLast?_append]
    exact hfinal
  · rw [List.map_append, h.indexes, List.length_append, List.length_singleton, List.range_succ]
    simp [h.index_next htip hcheck]
  · rw [List.map_append, List.nodup_append]
    refine ⟨h.hashes, by simp, ?_⟩
    intro a ha b hb
    obtain ⟨e, he, rfl⟩ := List.mem_map.1 ha
    rw [List.map_singleton, List.mem_singleton] at hb
    exact hb ▸ hnew e he
  · intro e he
    rcases List.mem_append.1 he with he | he
    · exact h.reported e he
    · rw [List.mem_singleton.1 he]
      exact hreported
  · intro e he
    rcases List.mem_append.1 he with he | he
    · exact h.distinct e he
    · rw [List.mem_singleton.1 he]
      exact hdistinct

theorem persist (h : Chronicle c past) (hexec : exec.OnlyCalls)
    (hp : c.persist exec s block = (.ok (applied, c'), s')) :
    Chronicle c' (past ++ [⟨block, c.reports exec s block⟩]) := by
  obtain ⟨prepared, ended, final, hpass, rfl⟩ := Chain.persist_ok hp
  exact h.advance hexec hpass

end Step

end Chronicle

/-- A chain that tells of a block is founded. -/
theorem Chronicle.isFounded {c : Chain Store} {past : List Entry} (h : Chronicle c past)
    (hne : past ≠ []) : Ledger.isFounded c.snapshot = true := by
  obtain ⟨e, he⟩ := List.exists_mem_of_ne_nil past hne
  have hblock := h.tells.blocks e.block.hash
  have hfind : ((c.snapshot.find (Key.lead Contract.ledger.id Ledger.blockTag)).get?
      (Ledger.blockKey e.block.hash).bytes) = c.snapshot.get? (Ledger.blockKey e.block.hash) :=
    Cache.get?_find_table _ rfl rfl
  unfold Ledger.isFounded
  rw [Bool.not_eq_true', Bool.eq_false_iff]
  intro hempty
  rw [SortedMap.isEmpty_iff] at hempty
  rw [← hfind, hempty, eq_comm, Option.map_eq_none_iff, List.find?_eq_none] at hblock
  apply hblock e.block (List.mem_map_of_mem (List.mem_reverse.2 he))
  simp

/-- Every grown chain tells its history. -/
theorem Grown.chronicle {settings : Settings} {c : Chain Store} {past : List Entry}
    (h : Grown settings c past) : Chronicle c past :=
  h.preserve (I := Chronicle) (.empty settings) fun hc hexec hp => hc.persist hexec hp

end BlockLedger
