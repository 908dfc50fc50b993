-- The books of the pool against the transactions that they are kept for.
-- The fee book lists a sum for exactly the senders that owe something and
-- an owner for exactly the requests that are answered, and the index lists
-- exactly the conflicts that are declared.
import BlockLedger.Pool.Basic
import BlockLedger.Proofs.ReadBack
import BlockLedger.Proofs.Totals

namespace BlockLedger

/-! ## Sums by sender -/

/-- What a sender owes for one transaction. -/
def Transaction.owes (t : Transaction) (sender : Hash160) : Nat :=
  if t.sender? = some sender then t.fee else 0

/-- What a sender owes for some transactions together. -/
def owed (m : SortedMap Hash256 Transaction) (sender : Hash160) : Nat :=
  m.total fun _ t => t.owes sender

/-- A table that lists exactly the sums that are not zero. -/
def ListsSums (totals : SortedMap Hash160 Amount) (sum : Hash160 → Nat) : Prop :=
  ∀ sender, totals.get? sender = if sum sender = 0 then none else some (sum sender)

variable {totals : SortedMap Hash160 Amount} {sum sum' : Hash160 → Nat}
  {m : SortedMap Hash256 Transaction} {t : Transaction} {sender : Hash160}

/-- A sum that fits. -/
theorem Amount.of_add {a b sum : Amount} (h : Amount.add a b = .ok sum) :
    a + b < Amount.limit ∧ sum = a + b := by
  unfold Amount.add at h
  split at h
  · rename_i hfit
    cases h
    exact ⟨hfit, rfl⟩
  · cases h

theorem Transaction.owes_of_sender (h : t.sender? = some sender) (s : Hash160) :
    t.owes s = if s = sender then t.fee else 0 := by
  unfold Transaction.owes
  rw [h]
  by_cases hs : s = sender
  · simp [hs]
  · have hne : ¬ sender = s := fun heq => hs heq.symm
    simp [hs, hne]

theorem owed_insert (hnew : m.get? t.hash = none) (s : Hash160) :
    owed (m.insert t.hash t) s = owed m s + t.owes s := by
  have h := SortedMap.total_insert (fun _ t => t.owes s) m t.hash t
  rw [hnew] at h
  exact h

theorem owed_erase {hash : Hash256} (h : m.get? hash = some t) (s : Hash160) :
    owed (m.erase hash) s + t.owes s = owed m s := by
  have herase := SortedMap.total_erase (fun _ t => t.owes s) m hash
  rw [h] at herase
  exact herase

namespace ListsSums

/-- There is only one such table. -/
theorem unique {totals' : SortedMap Hash160 Amount} (h : ListsSums totals sum)
    (h' : ListsSums totals' sum) : totals = totals' :=
  SortedMap.ext fun s => (h s).trans (h' s).symm

theorem getD (h : ListsSums totals sum) (s : Hash160) : (totals.get? s).getD 0 = sum s := by
  rw [h s]
  by_cases hs : sum s = 0 <;> simp [hs]

/-- A larger sum is put in. -/
theorem insert (h : ListsSums totals sum) {v : Nat} (hv : v ≠ 0)
    (hsum : ∀ s, sum' s = if s = sender then v else sum s) :
    ListsSums (totals.insert sender v) sum' := by
  intro s
  rw [SortedMap.get?_insert, hsum]
  by_cases hs : s = sender
  · simp [hs, hv]
  · simp only [hs, if_false]
    exact h s

/-- A sum of zero is taken out. -/
theorem erase (h : ListsSums totals sum) (hsum : ∀ s, sum' s = if s = sender then 0 else sum s) :
    ListsSums (totals.erase sender) sum' := by
  intro s
  rw [SortedMap.get?_erase, hsum]
  by_cases hs : s = sender
  · simp [hs]
  · simp only [hs, if_false]
    exact h s

end ListsSums

/-- A table that lists exactly the pairs of a relation. -/
def ListsPairs (oracles : SortedMap UInt64 Hash256) (r : UInt64 → Hash256 → Prop) : Prop :=
  ∀ id hash, oracles.get? id = some hash ↔ r id hash

/-- There is only one such table. -/
theorem ListsPairs.unique {oracles oracles' : SortedMap UInt64 Hash256}
    {r : UInt64 → Hash256 → Prop} (h : ListsPairs oracles r) (h' : ListsPairs oracles' r) :
    oracles = oracles' := by
  apply SortedMap.ext
  intro id
  ext hash
  exact (h id hash).trans (h' id hash).symm

/-- A table that lists exactly the answered requests with their owners. -/
def ListsOwners (oracles : SortedMap UInt64 Hash256) (m : SortedMap Hash256 Transaction) : Prop :=
  ∀ id hash, oracles.get? id = some hash ↔ ∃ t, m.get? hash = some t ∧ t.oracleId? = some id

/-- A new transaction owns the request that it answers, beside the others. -/
theorem owner_insert_iff (hnew : m.get? t.hash = none) (id : UInt64) (hash : Hash256) :
    (∃ u, (m.insert t.hash t).get? hash = some u ∧ u.oracleId? = some id) ↔
      (∃ u, m.get? hash = some u ∧ u.oracleId? = some id) ∨
        t.oracleId? = some id ∧ hash = t.hash := by
  rw [SortedMap.get?_insert]
  by_cases hh : hash = t.hash
  · subst hh
    simp [hnew]
  · simp [hh]

/-- A request has one owner at most, so it is open once the owner has left. -/
theorem ListsOwners.owner_erase_iff {oracles : SortedMap UInt64 Hash256}
    (h : ListsOwners oracles m) (ht : m.get? t.hash = some t) (id : UInt64) (hash : Hash256) :
    (∃ u, (m.erase t.hash).get? hash = some u ∧ u.oracleId? = some id) ↔
      (∃ u, m.get? hash = some u ∧ u.oracleId? = some id) ∧ t.oracleId? ≠ some id := by
  rw [SortedMap.get?_erase]
  by_cases hh : hash = t.hash
  · subst hh
    simp [ht]
  · rw [if_neg hh]
    refine ⟨fun hown => ⟨hown, fun hid => ?_⟩, And.left⟩
    have hother := (h id hash).2 hown
    rw [(h id t.hash).2 ⟨t, ht, hid⟩] at hother
    exact hh (Option.some.inj hother).symm

namespace FeeBook

variable {b : FeeBook} {r r' : UInt64 → Hash256 → Prop}

/-! ## Booking a transaction -/

theorem sender_of_sender? (h : t.sender? = some sender) : t.sender = .ok sender := by
  unfold Transaction.sender
  rw [h]

theorem sender?_of_sender (h : t.sender = .ok sender) : t.sender? = some sender := by
  unfold Transaction.sender at h
  split at h
  · rename_i account hs
    cases h
    exact hs
  · cases h

/-- The request of a transaction is booked, if it is open. -/
theorem addOracle_ok (h : ListsPairs b.oracles r)
    (hopen : ∀ id ∈ t.oracleId?, b.oracles.get? id = none)
    (hr : ∀ id hash, r' id hash ↔ r id hash ∨ t.oracleId? = some id ∧ hash = t.hash) :
    ∃ b', b.addOracle t = .ok b' ∧ b'.totals = b.totals ∧ ListsPairs b'.oracles r' := by
  unfold FeeBook.addOracle
  rcases hid : t.oracleId? with _ | id
  · refine ⟨b, rfl, rfl, fun id hash => ?_⟩
    rw [h id hash, hr, hid]
    simp
  · have hfree : b.oracles.get? id = none := hopen id (by rw [hid]; rfl)
    simp only [hfree]
    refine ⟨_, rfl, rfl, fun id' hash => ?_⟩
    rw [SortedMap.get?_insert, hr, hid, ← h id' hash]
    by_cases hi : id' = id
    · subst hi
      simp [hfree, eq_comm]
    · have hne : ¬ id = id' := fun heq => hi heq.symm
      simp [hi, hne]

/-- The fees of a transaction are booked, if they fit. -/
theorem addFee_ok (h : ListsSums b.totals sum) (hs : t.sender? = some sender)
    (hfit : sum sender + t.fee < Amount.limit) (hsum : ∀ s, sum' s = sum s + t.owes s) :
    ∃ b', b.addFee t = .ok b' ∧ b'.oracles = b.oracles ∧ ListsSums b'.totals sum' := by
  have htotal : b.total sender = sum sender := h.getD sender
  have howes := Transaction.owes_of_sender hs
  unfold FeeBook.addFee
  rw [sender_of_sender? hs, ok_bind]
  by_cases hfee : t.fee = 0
  · refine ⟨b, if_pos hfee, rfl, fun s => ?_⟩
    rw [hsum, howes, hfee, ite_self]
    exact h s
  · have hadd : Amount.add (b.total sender) t.fee = .ok (sum sender + t.fee) := by
      rw [htotal]
      exact if_pos hfit
    rw [if_neg hfee, hadd, ok_bind]
    refine ⟨_, rfl, rfl, h.insert (fun hz => hfee (Nat.eq_zero_of_add_eq_zero_left hz)) ?_⟩
    intro s
    rw [hsum, howes]
    by_cases hsender : s = sender <;> simp [hsender]

/-- A book that is kept for some transactions, by their hashes. -/
structure Tallies (b : FeeBook) (m : SortedMap Hash256 Transaction) : Prop where
  totals : ListsSums b.totals (owed m)
  oracles : ListsOwners b.oracles m

theorem tallies_empty : Tallies .empty .empty where
  totals _ := rfl
  oracles _ _ := by
    constructor
    · intro h
      cases h
    · rintro ⟨t, h, -⟩
      cases h

/-- A transaction is booked, if its fees fit and its request is open. -/
theorem add_ok (hsums : ListsSums b.totals sum) (hpairs : ListsPairs b.oracles r)
    (hs : t.sender? = some sender) (hfit : sum sender + t.fee < Amount.limit)
    (hsum : ∀ s, sum' s = sum s + t.owes s) (hopen : ∀ id ∈ t.oracleId?, b.oracles.get? id = none)
    (hr : ∀ id hash, r' id hash ↔ r id hash ∨ t.oracleId? = some id ∧ hash = t.hash) :
    ∃ b', b.add t = (.ok (), b') ∧ ListsSums b'.totals sum' ∧ ListsPairs b'.oracles r' := by
  obtain ⟨b₁, horacle, hsame, hpairs'⟩ := addOracle_ok hpairs hopen hr
  rw [← hsame] at hsums
  obtain ⟨b₂, hfee, hsame', hsums'⟩ := addFee_ok hsums hs hfit hsum
  rw [← hsame'] at hpairs'
  refine ⟨b₂, ?_, hsums', hpairs'⟩
  unfold FeeBook.add
  simp only [horacle, hfee]

/-- A new transaction is booked, if its fees fit and its request is open. -/
theorem Tallies.add (h : Tallies b m) (hnew : m.get? t.hash = none) (hs : t.sender? = some sender)
    (hfit : owed m sender + t.fee < Amount.limit)
    (hopen : ∀ id ∈ t.oracleId?, b.oracles.get? id = none) :
    ∃ b', b.add t = (.ok (), b') ∧ Tallies b' (m.insert t.hash t) := by
  obtain ⟨b', hadd, hsums, howners⟩ :=
    add_ok h.totals h.oracles hs hfit (owed_insert hnew) hopen (owner_insert_iff hnew)
  exact ⟨b', hadd, hsums, howners⟩

/-! ## Taking a transaction out -/

/-- The fees of a booked transaction can be taken out. -/
theorem removeFee_ok (h : ListsSums b.totals sum) (hs : t.sender? = some sender)
    (hrest : ∀ s, sum' s + t.owes s = sum s) :
    ∃ b', b.removeFee t = .ok b' ∧ b'.oracles = b.oracles ∧ ListsSums b'.totals sum' := by
  have howes := Transaction.owes_of_sender hs
  have hsender : sum' sender + t.fee = sum sender := by
    rw [← hrest sender, howes, if_pos rfl]
  have hother : ∀ s, s ≠ sender → sum' s = sum s := by
    intro s hne
    rw [← hrest s, howes, if_neg hne, Nat.add_zero]
  have hlisted := h sender
  unfold FeeBook.removeFee
  rw [sender_of_sender? hs, ok_bind]
  by_cases hzero : sum sender = 0
  · -- The sender is not listed, and the transaction was for free.
    rw [if_pos hzero] at hlisted
    have hfee : t.fee = 0 := Nat.eq_zero_of_add_eq_zero_left (hsender.trans hzero)
    simp only [hlisted, hfee, if_true]
    refine ⟨b, rfl, rfl, ?_⟩
    intro s
    by_cases hs' : s = sender
    · rw [hs', hlisted, if_pos (Nat.eq_zero_of_add_eq_zero_right (hsender.trans hzero))]
    · rw [hother s hs']
      exact h s
  · rw [if_neg hzero] at hlisted
    have hsub : Amount.sub (sum sender) t.fee = .ok (sum' sender) := by
      have hdiff : sum sender - t.fee = sum' sender := by
        rw [← hsender]
        exact Nat.add_sub_cancel _ _
      unfold Amount.sub
      rw [if_pos (Nat.le.intro ((Nat.add_comm _ _).trans hsender))]
      exact congrArg Except.ok hdiff
    simp only [hlisted, hsub, ok_bind]
    by_cases hleft : sum' sender = 0
    · refine ⟨_, if_pos hleft, rfl, h.erase ?_⟩
      intro s
      by_cases hs' : s = sender
      · rw [if_pos hs', hs', hleft]
      · rw [if_neg hs', hother s hs']
    · refine ⟨_, if_neg hleft, rfl, h.insert hleft ?_⟩
      intro s
      by_cases hs' : s = sender
      · rw [if_pos hs', hs']
      · rw [if_neg hs', hother s hs']

/-- The request of a booked transaction is given up. -/
theorem removeOracle_lists (h : ListsPairs b.oracles r) (hown : ∀ id ∈ t.oracleId?, r id t.hash)
    (hr : ∀ id hash, r' id hash ↔ r id hash ∧ t.oracleId? ≠ some id) :
    (b.removeOracle t).totals = b.totals ∧ ListsPairs (b.removeOracle t).oracles r' := by
  unfold FeeBook.removeOracle
  rcases hid : t.oracleId? with _ | id
  · refine ⟨rfl, fun id hash => ?_⟩
    rw [h id hash, hr, hid]
    simp
  · have howner : b.oracles.get? id = some t.hash := (h id t.hash).2 (hown id (by rw [hid]; rfl))
    simp only [howner, if_true, true_and]
    intro id' hash
    rw [SortedMap.get?_erase, hr, hid, ← h id' hash]
    by_cases hi : id' = id
    · simp [hi]
    · have hne : ¬ id = id' := fun heq => hi heq.symm
      simp [hi, hne]

/-- A booked transaction can be taken out. -/
theorem remove_ok (hsums : ListsSums b.totals sum) (hpairs : ListsPairs b.oracles r)
    (hs : t.sender? = some sender) (hrest : ∀ s, sum' s + t.owes s = sum s)
    (hown : ∀ id ∈ t.oracleId?, r id t.hash)
    (hr : ∀ id hash, r' id hash ↔ r id hash ∧ t.oracleId? ≠ some id) :
    ∃ b', b.remove t = .ok b' ∧ ListsSums b'.totals sum' ∧ ListsPairs b'.oracles r' := by
  obtain ⟨b₁, hfee, hsame, hsums'⟩ := removeFee_ok hsums hs hrest
  rw [← hsame] at hpairs
  obtain ⟨hsame', hpairs'⟩ := removeOracle_lists hpairs hown hr
  rw [← hsame'] at hsums'
  refine ⟨b₁.removeOracle t, ?_, hsums', hpairs'⟩
  unfold FeeBook.remove
  rw [hfee]
  rfl

/-- A transaction that a book is kept for can be taken out. -/
theorem Tallies.remove (h : Tallies b m) (ht : m.get? t.hash = some t)
    (hs : t.sender? = some sender) :
    ∃ b', b.remove t = .ok b' ∧ Tallies b' (m.erase t.hash) := by
  obtain ⟨b', hremove, hsums, howners⟩ := remove_ok h.totals h.oracles hs (owed_erase ht)
    (fun id hid => ⟨t, ht, hid⟩) (h.oracles.owner_erase_iff ht)
  exact ⟨b', hremove, hsums, howners⟩

/-- Whether a request counts as taken. -/
theorem oracleTaken?_eq_some_iff (b : FeeBook) (t : Transaction) (id : UInt64) :
    b.oracleTaken? t = some id ↔
      t.oracleId? = some id ∧ ∃ owner, b.oracles.get? id = some owner ∧ owner ≠ t.hash := by
  unfold oracleTaken?
  rcases t.oracleId? with _ | id'
  · simp
  · rcases howner : b.oracles.get? id' with _ | owner
    · simp only [Option.bind_eq_bind, Option.bind_some, howner, Option.bind_none, reduceCtorEq,
        Option.some.injEq, false_iff, not_and]
      rintro rfl
      simp [howner]
    · simp only [Option.bind_eq_bind, Option.bind_some, howner, Option.some.injEq]
      by_cases hsame : owner = t.hash
      · simp only [hsame, if_true, reduceCtorEq, false_iff, not_and]
        rintro rfl
        simp [howner, hsame]
      · simp only [hsame, if_false, Option.some.injEq]
        refine ⟨?_, And.left⟩
        rintro rfl
        exact ⟨rfl, owner, howner, hsame⟩

end FeeBook

/-! ## The index of declared conflicts -/

/-- An index that lists exactly the pairs of a relation, and no empty set. -/
structure Indexes (conflicts : SortedMap Hash256 (SortedSet Hash256))
    (r : Hash256 → Hash256 → Prop) : Prop where
  listed (declared hash : Hash256) :
    (∃ s, conflicts.get? declared = some s ∧ s.contains hash = true) ↔ r declared hash
  filled (declared : Hash256) (s : SortedSet Hash256) :
    conflicts.get? declared = some s → s.isEmpty = false

namespace Indexes

variable {conflicts : SortedMap Hash256 (SortedSet Hash256)} {r r' : Hash256 → Hash256 → Prop}

theorem congr (h : Indexes conflicts r) (hr : ∀ d x, r d x ↔ r' d x) : Indexes conflicts r' where
  listed d x := (h.listed d x).trans (hr d x)
  filled := h.filled

/-- A set that is not empty is put under a declared hash. -/
theorem put (h : Indexes conflicts r) {declared : Hash256} {s : SortedSet Hash256}
    (hfilled : s.isEmpty = false) (hs : ∀ x, s.contains x = true ↔ r' declared x)
    (hother : ∀ d x, d ≠ declared → (r d x ↔ r' d x)) :
    Indexes (conflicts.insert declared s) r' where
  listed d x := by
    rw [SortedMap.get?_insert]
    by_cases hd : d = declared
    · subst hd
      simp [hs]
    · rw [if_neg hd, ← hother d x hd]
      exact h.listed d x
  filled d s' hs' := by
    rw [SortedMap.get?_insert] at hs'
    by_cases hd : d = declared
    · rw [if_pos hd] at hs'
      cases hs'
      exact hfilled
    · rw [if_neg hd] at hs'
      exact h.filled d s' hs'

/-- A declared hash is dropped with its last declarer. -/
theorem drop (h : Indexes conflicts r) {declared : Hash256} (hnone : ∀ x, ¬ r' declared x)
    (hother : ∀ d x, d ≠ declared → (r d x ↔ r' d x)) : Indexes (conflicts.erase declared) r' where
  listed d x := by
    rw [SortedMap.get?_erase]
    by_cases hd : d = declared
    · subst hd
      simp [hnone]
    · rw [if_neg hd, ← hother d x hd]
      exact h.listed d x
  filled d s hs := by
    rw [SortedMap.get?_erase] at hs
    by_cases hd : d = declared
    · rw [if_pos hd] at hs
      cases hs
    · rw [if_neg hd] at hs
      exact h.filled d s hs

theorem contains_iff (h : Indexes conflicts r) {declared : Hash256} {s : SortedSet Hash256}
    (hs : conflicts.get? declared = some s) (x : Hash256) :
    s.contains x = true ↔ r declared x := by
  rw [← h.listed, hs]
  simp

theorem not_of_get?_eq_none (h : Indexes conflicts r) {declared : Hash256}
    (hs : conflicts.get? declared = none) (x : Hash256) : ¬ r declared x := by
  rw [← h.listed, hs]
  simp

/-- A listed set has a member. -/
theorem exists_of_get?_eq_some (h : Indexes conflicts r) {declared : Hash256}
    {s : SortedSet Hash256} (hs : conflicts.get? declared = some s) : ∃ x, r declared x := by
  by_contra hnone
  have hempty : s.isEmpty = true := by
    rw [SortedMap.isEmpty_iff]
    intro x
    rw [← Option.not_isSome_iff_eq_none]
    exact fun hx => hnone ⟨x, (h.contains_iff hs x).1 hx⟩
  rw [h.filled declared s hs] at hempty
  cases hempty

/-- There is only one such index. -/
theorem unique {conflicts' : SortedMap Hash256 (SortedSet Hash256)} (h : Indexes conflicts r)
    (h' : Indexes conflicts' r) : conflicts = conflicts' := by
  apply SortedMap.ext
  intro declared
  rcases hs : conflicts.get? declared with _ | s <;>
    rcases hs' : conflicts'.get? declared with _ | s'
  · rfl
  · obtain ⟨x, hx⟩ := h'.exists_of_get?_eq_some hs'
    exact absurd hx (h.not_of_get?_eq_none hs x)
  · obtain ⟨x, hx⟩ := h.exists_of_get?_eq_some hs
    exact absurd hx (h'.not_of_get?_eq_none hs' x)
  · congr 1
    apply SortedMap.ext_contains
    intro x
    rw [h.contains_iff hs, h'.contains_iff hs']

theorem declare (h : Indexes conflicts r) (hash declared : Hash256) :
    Indexes (Pool.declare hash conflicts declared)
      fun d x => r d x ∨ (d = declared ∧ x = hash) := by
  unfold Pool.declare
  apply h.put
  · rw [Bool.eq_false_iff]
    intro hempty
    have hnone := SortedMap.isEmpty_iff.1 hempty hash
    rw [SortedMap.get?_insert, if_pos rfl] at hnone
    cases hnone
  · intro x
    rw [SortedMap.contains_insert_iff]
    rcases hget : conflicts.get? declared with _ | s
    · have hnone := h.not_of_get?_eq_none hget x
      simp [hnone, SortedMap.contains, SortedMap.get?_empty]
    · rw [Option.getD_some, h.contains_iff hget]
      simp [or_comm]
  · intro d x hd
    simp [hd]

theorem declare_all (h : Indexes conflicts r) (hash : Hash256) (ds : List Hash256) :
    Indexes (ds.foldl (Pool.declare hash) conflicts) fun d x => r d x ∨ (d ∈ ds ∧ x = hash) := by
  induction ds generalizing conflicts r with
  | nil => exact h.congr (by simp)
  | cons declared rest ih =>
    apply (ih (h.declare hash declared)).congr
    intro d x
    rw [List.mem_cons, or_and_right, or_assoc]

theorem retract (h : Indexes conflicts r) (hash declared : Hash256) :
    Indexes (Pool.retract hash conflicts declared)
      fun d x => r d x ∧ ¬ (d = declared ∧ x = hash) := by
  have hother : ∀ d x, d ≠ declared → (r d x ↔ r d x ∧ ¬ (d = declared ∧ x = hash)) := by
    intro d x hd
    simp [hd]
  unfold Pool.retract
  rcases hget : conflicts.get? declared with _ | s
  · apply h.congr
    intro d x
    by_cases hd : d = declared
    · have hnone := h.not_of_get?_eq_none hget x
      simp [hd, hnone]
    · exact hother d x hd
  · have hleft : ∀ x, (s.erase hash).contains x = true ↔
        r declared x ∧ ¬ (declared = declared ∧ x = hash) := by
      intro x
      rw [SortedMap.contains_erase_iff, h.contains_iff hget]
      simp [and_comm]
    dsimp only
    by_cases hempty : (s.erase hash).isEmpty = true
    · rw [if_pos hempty]
      apply h.drop _ hother
      intro x hx
      rw [← hleft, SortedMap.contains_iff] at hx
      obtain ⟨v, hv⟩ := hx
      rw [SortedMap.isEmpty_iff.1 hempty x] at hv
      cases hv
    · rw [if_neg hempty]
      exact h.put (Bool.eq_false_iff.2 hempty) hleft hother

theorem retract_all (h : Indexes conflicts r) (hash : Hash256) (ds : List Hash256) :
    Indexes (ds.foldl (Pool.retract hash) conflicts) fun d x => r d x ∧ ¬ (d ∈ ds ∧ x = hash) := by
  induction ds generalizing conflicts r with
  | nil => exact h.congr (by simp)
  | cons declared rest ih =>
    apply (ih (h.retract hash declared)).congr
    intro d x
    simp only [List.mem_cons]
    constructor
    · rintro ⟨⟨hr, hfirst⟩, hrest⟩
      refine ⟨hr, ?_⟩
      rintro ⟨hd | hd, hx⟩
      · exact hfirst ⟨hd, hx⟩
      · exact hrest ⟨hd, hx⟩
    · rintro ⟨hr, hnot⟩
      exact ⟨⟨hr, fun hd => hnot ⟨.inl hd.1, hd.2⟩⟩, fun hd => hnot ⟨.inr hd.1, hd.2⟩⟩

end Indexes

end BlockLedger
