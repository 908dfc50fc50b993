-- What the ledger keeps about transactions, as a register of two tables:
-- the record under each hash, and the mark under each hash and signer.
-- Every write of the ledger is an entry in the register, and the register
-- follows from the blocks alone.
import BlockLedger.Proofs.Growth

namespace BlockLedger

theorem isStub_stub (index : UInt32) : (TransactionRecord.stub index).isStub = true := rfl

/-! ## The register -/

/-- The records and the marks of the ledger. -/
@[ext]
structure Register where
  record : Hash256 → Option TransactionRecord
  mark : Hash256 → Hash160 → Option TransactionRecord

namespace Register

/-- Puts a record under a hash. -/
def setRecord (r : Register) (hash : Hash256) (v : TransactionRecord) : Register where
  record hash' := if hash' = hash then some v else r.record hash'
  mark := r.mark

/-- Puts a mark under a hash and a signer. -/
def setMark (r : Register) (hash : Hash256) (signer : Hash160) (v : TransactionRecord) :
    Register where
  record := r.record
  mark hash' signer' := if hash' = hash ∧ signer' = signer then some v else r.mark hash' signer'

theorem record_setRecord (r : Register) (hash : Hash256) (v : TransactionRecord)
    (hash' : Hash256) :
    (r.setRecord hash v).record hash' = if hash' = hash then some v else r.record hash' := rfl

theorem mark_setMark (r : Register) (hash : Hash256) (signer : Hash160) (v : TransactionRecord)
    (hash' : Hash256) (signer' : Hash160) : (r.setMark hash signer v).mark hash' signer' =
      if hash' = hash ∧ signer' = signer then some v else r.mark hash' signer' := rfl

/-- Files a transaction over whatever is under its hash. -/
def file (r : Register) (t : Transaction) (index : UInt32) (vmState : VmState) : Register :=
  r.setRecord t.hash ⟨index, some t, vmState⟩

/-- Notes that a block declared a conflict with some hashes; the record of a
transaction stays. -/
def declare (r : Register) (index : UInt32) (signers : List Hash160) (hashes : List Hash256) :
    Register where
  record hash := if hash ∈ hashes ∧ (r.record hash).all (·.isStub) then some (.stub index)
    else r.record hash
  mark hash signer := if hash ∈ hashes ∧ signer ∈ signers then some (.stub index)
    else r.mark hash signer

theorem record_declare (r : Register) (index : UInt32) (signers : List Hash160)
    (hashes : List Hash256) (hash : Hash256) : (r.declare index signers hashes).record hash =
      if hash ∈ hashes ∧ (r.record hash).all (·.isStub) then some (.stub index)
      else r.record hash := rfl

theorem mark_declare (r : Register) (index : UInt32) (signers : List Hash160)
    (hashes : List Hash256) (hash : Hash256) (signer : Hash160) :
    (r.declare index signers hashes).mark hash signer =
      if hash ∈ hashes ∧ signer ∈ signers then some (.stub index) else r.mark hash signer := rfl

theorem declare_nil (r : Register) (index : UInt32) (signers : List Hash160) :
    r.declare index signers [] = r := by
  ext <;> simp [declare]

/-- Declaring more hashes of the same block is declaring all of them. -/
theorem declare_append (r : Register) (index : UInt32) (signers : List Hash160)
    (hashes : List Hash256) (hash : Hash256) :
    (r.declare index signers hashes).declare index signers [hash] =
      r.declare index signers (hashes ++ [hash]) := by
  refine Register.ext (funext fun h => ?_) (funext fun h => funext fun s => ?_)
  · simp only [declare, List.mem_append, List.mem_singleton]
    by_cases hh : h = hash
    · subst hh
      by_cases hs : (r.record h).all (·.isStub) = true <;> by_cases hm : h ∈ hashes <;>
        simp [hs, hm, isStub_stub]
    · simp [hh]
  · simp only [declare, List.mem_append, List.mem_singleton]
    by_cases hh : h = hash
    · subst hh
      by_cases hs : s ∈ signers <;> simp [hs]
    · simp [hh]

/-- Without a signer a declared conflict shows in the record only. -/
theorem declare_unsigned (r : Register) (index : UInt32) (hash : Hash256) :
    r.declare index [] [hash] =
      if (r.record hash).all (·.isStub) then r.setRecord hash (.stub index) else r := by
  refine Register.ext (funext fun h => ?_) (funext fun h => funext fun s => ?_)
  · by_cases hs : (r.record hash).all (·.isStub) = true <;> by_cases hh : h = hash <;>
      simp [declare, setRecord, hs, hh]
  · by_cases hs : (r.record hash).all (·.isStub) = true <;> simp [declare, setRecord, hs]

theorem declare_signer (r : Register) (index : UInt32) (signers : List Hash160) (signer : Hash160)
    (hash : Hash256) :
    (r.declare index signers [hash]).setMark hash signer (.stub index) =
      r.declare index (signers ++ [signer]) [hash] := by
  refine Register.ext rfl (funext fun h => funext fun s => ?_)
  simp only [declare, setMark, List.mem_append, List.mem_singleton]
  by_cases hh : h = hash <;> by_cases hs : s = signer <;> simp [hh, hs]

end Register

/-! ## The register of a history -/

namespace Entry

/-- The record that a block files under a hash. -/
def record? (e : Entry) (hash : Hash256) : Option TransactionRecord :=
  (e.reported.find? fun p => p.1.hash = hash).map fun p => ⟨e.block.index, some p.1, p.2⟩

/-- Whether a block declares a conflict with a hash. -/
def declares (e : Entry) (hash : Hash256) : Bool :=
  e.reported.any fun p => p.1.declared.contains hash

/-- Whether a signer declares a conflict with a hash in a block. -/
def marks (e : Entry) (hash : Hash256) (signer : Hash160) : Bool :=
  e.reported.any fun p => p.1.declared.contains hash && p.1.accounts.contains signer

/-- The mark of a conflict that a block declares. -/
def stub (e : Entry) : TransactionRecord := .stub e.block.index

variable {e : Entry} {hash : Hash256}

theorem isStub_record? {v : TransactionRecord} (h : e.record? hash = some v) :
    v.isStub = false := by
  obtain ⟨p, _, rfl⟩ := Option.map_eq_some_iff.1 h
  rfl

theorem record?_snoc (b : Block) (done : List (Transaction × VmState)) (t : Transaction)
    (s : VmState) (hash : Hash256) : record? ⟨b, done ++ [(t, s)]⟩ hash =
      (record? ⟨b, done⟩ hash).or (if t.hash = hash then some ⟨b.index, some t, s⟩ else none) := by
  simp only [record?, List.find?_append, Option.map_or]
  by_cases h : t.hash = hash <;> simp [h]

/-- No record under a hash that no transaction has. -/
theorem record?_eq_none (h : ∀ p ∈ e.reported, p.1.hash ≠ hash) : e.record? hash = none := by
  rw [record?, Option.map_eq_none_iff, List.find?_eq_none]
  intro p hp
  simpa using h p hp

/-- The record that a block files for its only transaction with some hash. -/
theorem record?_split {b : Block} {done rest : List (Transaction × VmState)} {t : Transaction}
    (hnew : ∀ p ∈ done, p.1.hash ≠ t.hash) (s : VmState) (hash : Hash256) :
    record? ⟨b, done ++ (t, s) :: rest⟩ hash = if hash = t.hash then some ⟨b.index, some t, s⟩
      else (record? ⟨b, done⟩ hash).or (record? ⟨b, rest⟩ hash) := by
  by_cases hh : hash = t.hash
  · subst hh
    have hnone : done.find? (fun p => p.1.hash = t.hash) = none := by
      rw [List.find?_eq_none]
      intro p hp
      simpa using hnew p hp
    simp [record?, List.find?_append, hnone]
  · have hother : ¬ t.hash = hash := fun heq => hh heq.symm
    simp [record?, List.find?_append, hother, hh, Option.map_or]

end Entry

namespace Register

/-- What the transactions of some blocks leave in the register, the latest
block first. The last block with a transaction keeps its record; without one
the last block that declares a conflict shows. -/
def of (past : List Entry) : Register where
  record hash := (past.findSome? (·.record? hash)).or
    ((past.find? (·.declares hash)).map (·.stub))
  mark hash signer := (past.find? (·.marks hash signer)).map (·.stub)

theorem record_of (past : List Entry) (hash : Hash256) : (of past).record hash =
    (past.findSome? (·.record? hash)).or ((past.find? (·.declares hash)).map (·.stub)) := rfl

/-- A hash shows a mark exactly if no block holds the transaction. -/
theorem all_isStub_of_iff (past : List Entry) (hash : Hash256) :
    ((of past).record hash).all (·.isStub) = true ↔
      past.findSome? (·.record? hash) = none := by
  rcases hf : past.findSome? (·.record? hash) with _ | v
  · rcases hd : past.find? (·.declares hash) with _ | e <;>
      simp [of, hf, hd, Entry.stub, isStub_stub]
  · obtain ⟨e, _, he⟩ := List.exists_of_findSome?_eq_some hf
    simp [of, hf, Entry.isStub_record? he]

/-- A block files its transactions, and marks what it declares where there is
no record. -/
theorem record_of_cons (e : Entry) (past : List Entry) (hash : Hash256) :
    (of (e :: past)).record hash = (e.record? hash).or
      (if e.declares hash ∧ ((of past).record hash).all (·.isStub) then some e.stub
        else (of past).record hash) := by
  simp only [all_isStub_of_iff]
  rw [record_of, record_of, List.findSome?_cons, List.find?_cons]
  rcases e.record? hash with _ | v
  · rcases hf : past.findSome? (·.record? hash) with _ | v
    · simp only [hf]
      cases e.declares hash <;> simp
    · simp only [hf]
      simp
  · rfl

theorem mark_of_cons (e : Entry) (past : List Entry) (hash : Hash256) (signer : Hash160) :
    (of (e :: past)).mark hash signer =
      if e.marks hash signer then some e.stub else (of past).mark hash signer := by
  simp only [of, List.find?_cons]
  cases e.marks hash signer <;> rfl

/-- A stored transaction is one more transaction of the block. -/
theorem of_store {b : Block} {done : List (Transaction × VmState)} {past : List Entry}
    {t : Transaction} (hnew : ∀ p ∈ done, p.1.hash ≠ t.hash) :
    ((of (⟨b, done⟩ :: past)).file t b.index .none).declare b.index t.accounts t.declared =
      of (⟨b, done ++ [(t, .none)]⟩ :: past) := by
  refine Register.ext (funext fun h => ?_) (funext fun h => funext fun s => ?_)
  · have hdeclares : Entry.declares ⟨b, done ++ [(t, .none)]⟩ h =
        (Entry.declares ⟨b, done⟩ h || t.declared.contains h) := by simp [Entry.declares]
    rw [record_declare, file, record_setRecord, record_of_cons, record_of_cons, Entry.record?_snoc,
      hdeclares]
    by_cases hh : h = t.hash
    · subst hh
      have hnone : Entry.record? ⟨b, done⟩ t.hash = none := Entry.record?_eq_none hnew
      simp [hnone, TransactionRecord.isStub]
    · have hother : ¬ t.hash = h := fun heq => hh heq.symm
      rcases hr : Entry.record? ⟨b, done⟩ h with _ | v
      · by_cases hs : ((of past).record h).all (·.isStub) = true <;>
          by_cases hd : h ∈ t.declared <;> by_cases he : Entry.declares ⟨b, done⟩ h = true <;>
          simp [hh, hother, hs, hd, he, Entry.stub, isStub_stub]
      · simp [hh, Entry.isStub_record? hr]
  · have hmarks : Entry.marks ⟨b, done ++ [(t, .none)]⟩ h s = (Entry.marks ⟨b, done⟩ h s ||
        (t.declared.contains h && t.accounts.contains s)) := by simp [Entry.marks]
    rw [mark_declare, file, mark_of_cons, hmarks]
    change (if _ then _ else (of (⟨b, done⟩ :: past)).mark h s) = _
    rw [mark_of_cons]
    by_cases hd : h ∈ t.declared ∧ s ∈ t.accounts <;>
      by_cases he : Entry.marks ⟨b, done⟩ h s = true <;> simp [hd, he, Entry.stub]

/-- A recorded state changes the record of one transaction of the block. -/
theorem of_setState {b : Block} {done rest : List (Transaction × VmState)} {past : List Entry}
    {t : Transaction} (hnew : ∀ p ∈ done, p.1.hash ≠ t.hash) (old s : VmState) :
    (of (⟨b, done ++ (t, old) :: rest⟩ :: past)).file t b.index s =
      of (⟨b, done ++ (t, s) :: rest⟩ :: past) := by
  refine Register.ext (funext fun h => ?_) (funext fun h => funext fun u => ?_)
  · have hdeclares : Entry.declares ⟨b, done ++ (t, old) :: rest⟩ h =
        Entry.declares ⟨b, done ++ (t, s) :: rest⟩ h := by simp [Entry.declares]
    rw [file, record_setRecord, record_of_cons, record_of_cons, Entry.record?_split hnew,
      Entry.record?_split hnew, hdeclares]
    by_cases hh : h = t.hash <;> simp [hh, Entry.stub]
  · have hmarks : Entry.marks ⟨b, done ++ (t, old) :: rest⟩ h u =
        Entry.marks ⟨b, done ++ (t, s) :: rest⟩ h u := by simp [Entry.marks]
    change (of (⟨b, done ++ (t, old) :: rest⟩ :: past)).mark h u = _
    rw [mark_of_cons, mark_of_cons, hmarks]
    rfl

theorem record_of_split {b : Block} {done rest : List (Transaction × VmState)} {past : List Entry}
    {t : Transaction} (hnew : ∀ p ∈ done, p.1.hash ≠ t.hash) (s : VmState) :
    (of (⟨b, done ++ (t, s) :: rest⟩ :: past)).record t.hash = some ⟨b.index, some t, s⟩ := by
  rw [record_of_cons, Entry.record?_split hnew, if_pos rfl]
  rfl

end Register

/-! ## Caches that show a register -/

namespace Ledger

/-- The table of the records and the marks. -/
def registerTag : UInt8 := 11

theorem recordKey_inj {a b : Hash256} : recordKey a = recordKey b ↔ a = b := by
  refine ⟨fun h => Fixed.ext ?_, fun h => h ▸ rfl⟩
  simpa [recordKey] using h

theorem signerKey_inj {a b : Hash256} {s u : Hash160} :
    signerKey a s = signerKey b u ↔ a = b ∧ s = u := by
  constructor
  · intro h
    have hrest : a.bytes ++ s.bytes = b.bytes ++ u.bytes := congrArg Key.rest h
    obtain ⟨ha, hs⟩ := List.append_inj hrest (by rw [a.length_eq, b.length_eq])
    exact ⟨Fixed.ext ha, Fixed.ext hs⟩
  · rintro ⟨rfl, rfl⟩
    rfl

/-- A record and a mark are never kept under the same key. -/
theorem recordKey_ne_signerKey (a b : Hash256) (s : Hash160) : recordKey a ≠ signerKey b s := by
  intro h
  have hrest : a.bytes = b.bytes ++ s.bytes := congrArg Key.rest h
  have hlength := congrArg List.length hrest
  rw [List.length_append, a.length_eq, b.length_eq, s.length_eq] at hlength
  omega

/-- A cache shows a register if it shows each record and each mark. -/
structure Keeps (c : Cache) (r : Register) : Prop where
  record (hash : Hash256) : c.Shows (recordKey hash) (r.record hash)
  mark (hash : Hash256) (signer : Hash160) : c.Shows (signerKey hash signer) (r.mark hash signer)

variable {c c' : Cache} {r : Register}

theorem Keeps.stored (h : Keeps c r) : Keeps c.stored r :=
  ⟨fun hash => (h.record hash).stored, fun hash signer => (h.mark hash signer).stored⟩

/-- The register is in the keys of its table. -/
theorem Keeps.congr (h : Keeps c r)
    (hc : ∀ key : Key, key.owner = Contract.ledger.id → key.tag = registerTag →
      c'.get? key = c.get? key) : Keeps c' r :=
  ⟨fun hash => Cache.shows_of_get?_eq (hc _ rfl rfl) (h.record hash),
    fun hash signer => Cache.shows_of_get?_eq (hc _ rfl rfl) (h.mark hash signer)⟩

theorem keeps_put_record (h : Keeps c r) (hash : Hash256) (v : TransactionRecord) :
    Keeps (c.put (recordKey hash) (.transaction v)) (r.setRecord hash v) where
  record hash' := by
    rw [Register.record_setRecord]
    by_cases hh : hash' = hash
    · rw [if_pos hh, hh]
      exact Cache.shows_put v
    · rw [if_neg hh]
      refine Cache.shows_of_get?_eq ?_ (h.record hash')
      rw [Cache.get?_put, if_neg (by rwa [recordKey_inj])]
  mark hash' signer := by
    refine Cache.shows_of_get?_eq ?_ (h.mark hash' signer)
    rw [Cache.get?_put, if_neg (recordKey_ne_signerKey hash hash' signer).symm]

theorem keeps_put_mark (h : Keeps c r) (hash : Hash256) (signer : Hash160)
    (v : TransactionRecord) :
    Keeps (c.put (signerKey hash signer) (.transaction v)) (r.setMark hash signer v) where
  record hash' := by
    refine Cache.shows_of_get?_eq ?_ (h.record hash')
    rw [Cache.get?_put, if_neg (recordKey_ne_signerKey hash' hash signer)]
  mark hash' signer' := by
    rw [Register.mark_setMark]
    by_cases hh : hash' = hash ∧ signer' = signer
    · rw [if_pos hh, hh.1, hh.2]
      exact Cache.shows_put v
    · rw [if_neg hh]
      refine Cache.shows_of_get?_eq ?_ (h.mark hash' signer')
      rw [Cache.get?_put, if_neg (by rwa [signerKey_inj])]

/-- The keys that the register is not kept in. -/
def Outside (key : Key) : Prop := key.owner = Contract.ledger.id → key.tag ≠ registerTag

/-! ## What the ledger enters in its register -/

/-- A run succeeds, leaves everything outside the register alone, and enters
what is to be entered. -/
def Enters (x : Run Unit) (m : Machine) (r : Register) : Prop :=
  x.Yields m fun _ m' => m.Agrees Outside m' ∧ Keeps m'.cache r

variable {m : Machine}

theorem Enters.bind {r' : Register} {x : Run Unit} {f : Unit → Run Unit} (hx : Enters x m r)
    (hf : ∀ m', Keeps m'.cache r → Enters (f ()) m' r') : Enters (x >>= f) m r' := by
  apply Run.Yields.bind hx
  rintro _ m' ⟨hagrees, hkeeps⟩
  obtain ⟨u, m'', hrun, hagrees', hkeeps'⟩ := hf m' hkeeps
  exact ⟨u, m'', hrun, hagrees.trans hagrees', hkeeps'⟩

theorem Enters.forM {β : Type} {f : β → Run Unit} {g : List β → Register} {l : List β}
    (hm : Keeps m.cache (g []))
    (h : ∀ done b rest m, l = done ++ b :: rest → Keeps m.cache (g done) →
      Enters (f b) m (g (done ++ [b]))) : Enters (l.forM f) m (g l) := by
  refine Run.yields_forM (P := fun done m' => m.Agrees Outside m' ∧ Keeps m'.cache (g done)) ?_
    ⟨.refl _ m, hm⟩
  rintro done b rest m' hl ⟨hagrees, hkeeps⟩
  obtain ⟨u, m'', hrun, hagrees', hkeeps'⟩ := h done b rest m' hl hkeeps
  exact ⟨u, m'', hrun, hagrees.trans hagrees', hkeeps'⟩

theorem enters_put {key : Key} {item : Item} (hk : ¬ Outside key)
    (h : Keeps (m.cache.put key item) r) : Enters (Run.put key item) m r :=
  ⟨(), _, rfl, (Run.Silent.put hk item).leaves m, h⟩

theorem not_outside {rest : Bytes} : ¬ Outside ⟨Contract.ledger.id, 11, rest⟩ := fun h => h rfl rfl

/-- A declared conflict is entered for all signers. -/
theorem enters_markConflict (h : Keeps m.cache r) (index : UInt32) (signers : List Hash160)
    (hash : Hash256) :
    Enters (markConflict index signers hash) m (r.declare index signers [hash]) := by
  have hread : (Run.query fun c => c.read? (recordKey hash)).run m = (.ok (r.record hash), m) := by
    rw [Run.run_query, (h.record hash).read?]
  have hsigners : ∀ m' : Machine, Keeps m'.cache (r.declare index [] [hash]) →
      Enters (signers.forM fun signer =>
        Run.put (signerKey hash signer) (.transaction (.stub index))) m'
        (r.declare index signers [hash]) := by
    intro m' hm'
    apply Enters.forM (g := fun done => r.declare index done [hash]) hm'
    intro done signer rest m'' _ hk
    apply enters_put not_outside
    rw [← Register.declare_signer]
    exact keeps_put_mark hk hash signer _
  refine Run.Yields.bind (R := fun old m' => old = r.record hash ∧ m' = m)
    ⟨_, m, hread, rfl, rfl⟩ ?_
  rintro _ _ ⟨rfl, rfl⟩
  dsimp only
  by_cases hs : (r.record hash).all (·.isStub) = true
  · rw [if_pos hs]
    refine Enters.bind (enters_put not_outside ?_) hsigners
    rw [Register.declare_unsigned, if_pos hs]
    exact keeps_put_record h hash _
  · rw [if_neg hs]
    apply hsigners _
    rwa [Register.declare_unsigned, if_neg hs]

/-- A transaction is filed, and then its conflicts are entered. -/
theorem enters_storeTransaction (h : Keeps m.cache r) (index : UInt32) (t : Transaction) :
    Enters (storeTransaction index t) m
      ((r.file t index .none).declare index t.accounts t.declared) := by
  apply Enters.bind (enters_put not_outside (keeps_put_record h t.hash _))
  intro m' hm'
  apply Enters.forM (g := fun done => (r.file t index .none).declare index t.accounts done)
  · rwa [Register.declare_nil]
  · intro done hash rest m'' _ hk
    rw [← Register.declare_append]
    exact enters_markConflict hk index t.accounts hash

/-- To record how a script ended is to write the record once. -/
theorem run_setVmState {hash : Hash256} {v : TransactionRecord}
    (h : m.cache.Shows (recordKey hash) (some v)) (vmState : VmState) :
    (setVmState hash vmState).run m =
      (Run.put (recordKey hash) (.transaction { v with vmState := vmState })).run m := by
  have htouch : (Run.touchValue (recordKey hash) (raise (.recordMissing hash))).run m =
      (.ok v, { m with cache := m.cache.put (recordKey hash) (.transaction v) }) := by
    rw [Run.run_touchValue, Cache.touchValue_some h]
    rfl
  unfold setVmState
  rw [Run.run_bind_of_ok htouch]
  unfold Run.putValue
  rw [Run.run_put, Run.run_put, Cache.put_put]
  rfl

/-- The state of a transaction on file is noted in its record. -/
theorem enters_setVmState {t : Transaction} {index : UInt32} {old : VmState}
    (h : Keeps m.cache r) (hr : r.record t.hash = some ⟨index, some t, old⟩) (vmState : VmState) :
    Enters (setVmState t.hash vmState) m (r.file t index vmState) := by
  have hshows := h.record t.hash
  rw [hr] at hshows
  unfold Enters Run.Yields
  rw [run_setVmState hshows]
  exact enters_put not_outside (keeps_put_record h t.hash _)

end Ledger
end BlockLedger
