-- The pool against its books. The order, the index of declared conflicts
-- and the fee book are changed apart from the transactions themselves, by
-- every transaction that joins, leaves or is replaced, and always agree
-- with them.
import BlockLedger.Pool.Update
import BlockLedger.Proofs.Books
import BlockLedger.Proofs.CallFailures
import BlockLedger.Proofs.Growth

namespace BlockLedger

namespace Pool

/-! ## Pools that agree with their books -/

/-- The booked transactions: the pooled ones, and one that is about to join. -/
def booked (verified : SortedMap Hash256 Pooled) :
    Option Transaction → SortedMap Hash256 Transaction
  | none => verified.mapValues (·.transaction)
  | some t => (verified.mapValues (·.transaction)).insert t.hash t

/-- A pool whose order, index and book agree with its transactions. One
transaction may be booked already before it joins. -/
structure Sound (p : Pool) (joining : Option Transaction) : Prop where
  keyed (hash : Hash256) (item : Pooled) : p.verified.get? hash = some item →
    item.transaction.hash = hash ∧ item.priority = .of item.transaction hash ∧
      checkAlone item.transaction = .succeed
  sorted (priority : Priority) : p.sorted.contains priority = true ↔
    ∃ item, p.verified.get? priority.hash = some item ∧ item.priority = priority
  conflicts : Indexes p.conflicts fun declared hash =>
    ∃ item, p.verified.get? hash = some item ∧ declared ∈ item.transaction.declared
  fresh : ∀ t ∈ joining, p.verified.get? t.hash = none
  book : p.book.Tallies (booked p.verified joining)

variable {p : Pool} {joining : Option Transaction} {t : Transaction} {hash : Hash256}

theorem sound_empty (capacity : Nat) : (empty capacity).Sound none where
  keyed _ _ h := by cases h
  sorted _ := by
    constructor
    · intro h
      cases h
    · rintro ⟨item, h, -⟩
      cases h
  conflicts := by
    refine ⟨fun declared hash => ?_, fun declared s h => by cases h⟩
    constructor
    · rintro ⟨s, h, -⟩
      cases h
    · rintro ⟨item, h, -⟩
      cases h
  fresh _ h := by cases h
  book := FeeBook.tallies_empty

/-- A transaction that passes the checks by itself is signed. -/
theorem exists_sender (h : checkAlone t = .succeed) : ∃ sender, t.sender? = some sender := by
  unfold checkAlone at h
  split at h
  · cases h
  · rename_i hsigners
    unfold Transaction.sender? Transaction.accounts
    rcases hs : t.signers with _ | ⟨signer, rest⟩
    · exact absurd hs hsigners
    · exact ⟨_, rfl⟩

theorem get?_booked {verified : SortedMap Hash256 Pooled} {item : Pooled}
    (hfresh : ∀ t ∈ joining, verified.get? t.hash = none) (h : verified.get? hash = some item) :
    (booked verified joining).get? hash = some item.transaction := by
  rcases joining with _ | t
  · rw [booked, SortedMap.get?_mapValues, h]
    rfl
  · have hne : hash ≠ t.hash := by
      rintro rfl
      rw [hfresh t rfl] at h
      cases h
    rw [booked, SortedMap.get?_insert, if_neg hne, SortedMap.get?_mapValues, h]
    rfl

/-- What leaves the pool leaves the booked transactions. -/
theorem booked_erase {verified : SortedMap Hash256 Pooled}
    (hne : ∀ t ∈ joining, hash ≠ t.hash) :
    booked (verified.erase hash) joining = (booked verified joining).erase hash := by
  rcases joining with _ | t
  · exact SortedMap.mapValues_erase _ _ _
  · unfold booked
    rw [SortedMap.mapValues_erase, SortedMap.erase_insert_of_ne (hne t rfl)]

/-! ## Leaving the pool -/

/-- The priority of a transaction that leaves goes with it. -/
theorem Sound.sorted_erase (h : p.Sound joining) {item : Pooled}
    (hget : p.verified.get? hash = some item) (priority : Priority) :
    (p.sorted.erase item.priority).contains priority = true ↔
      ∃ item', (p.verified.erase hash).get? priority.hash = some item' ∧
        item'.priority = priority := by
  obtain ⟨-, hpriority, -⟩ := h.keyed hash item hget
  rw [SortedMap.contains_erase_iff, h.sorted, SortedMap.get?_erase]
  by_cases hp : priority.hash = hash
  · -- The only priority with this hash is the one that leaves.
    rw [if_pos hp, hp, hget]
    simp [eq_comm]
  · rw [if_neg hp]
    have hother : priority ≠ item.priority := by
      rintro rfl
      rw [hpriority] at hp
      exact hp rfl
    simp [hother]

/-- The conflicts that a transaction declares go with it. -/
theorem Sound.conflicts_erase (h : p.Sound joining) {item : Pooled}
    (hget : p.verified.get? hash = some item) :
    Indexes (item.transaction.declared.foldl (retract hash) p.conflicts) fun declared hash' =>
      ∃ item', (p.verified.erase hash).get? hash' = some item' ∧
        declared ∈ item'.transaction.declared := by
  apply (h.conflicts.retract_all hash item.transaction.declared).congr
  intro declared hash'
  rw [SortedMap.get?_erase]
  by_cases hp : hash' = hash
  · rw [if_pos hp, hp, hget]
    simp
  · simp [hp]

/-- A transaction can always be taken out, with everything kept about it. -/
theorem Sound.remove (h : p.Sound joining) (hash : Hash256) :
    ∃ p', p.remove hash = (.ok (p.get? hash), p') ∧ p'.Sound joining ∧ p'.capacity = p.capacity ∧
      p'.verified = p.verified.erase hash := by
  unfold Pool.remove Pool.get?
  rcases hget : p.verified.get? hash with _ | item
  · exact ⟨p, rfl, h, rfl, (SortedMap.erase_of_get?_eq_none hget).symm⟩
  · obtain ⟨hhash, hpriority, halone⟩ := h.keyed hash item hget
    obtain ⟨sender, hsender⟩ := exists_sender halone
    have hbooked := get?_booked h.fresh hget
    rw [← hhash] at hbooked
    obtain ⟨book, hremove, htallies⟩ := h.book.remove hbooked hsender
    have hne : ∀ t ∈ joining, hash ≠ t.hash := by
      rintro t ht rfl
      rw [h.fresh t ht] at hget
      cases hget
    simp only [hremove]
    refine ⟨_, rfl, ⟨?_, h.sorted_erase hget, h.conflicts_erase hget, ?_, ?_⟩, rfl, rfl⟩
    · intro hash' item' hget'
      dsimp only at hget'
      rw [SortedMap.get?_erase] at hget'
      split at hget'
      · cases hget'
      · exact h.keyed hash' item' hget'
    · intro t ht
      dsimp only
      rw [SortedMap.get?_erase, h.fresh t ht, ite_self]
    · dsimp only
      rw [booked_erase hne, ← hhash]
      exact htallies

/-- A pool without the transactions that are told to have left. -/
def Without (p : Pool) (gone : List Hash256) (p' : Pool) : Prop :=
  ∀ hash, p'.verified.get? hash = if hash ∈ gone then none else p.verified.get? hash

theorem Without.trans {p' p'' : Pool} {gone more : List Hash256} (h : p.Without gone p')
    (h' : p'.Without more p'') : p.Without (gone ++ more) p'' := by
  intro hash
  rw [h' hash, h hash]
  by_cases hg : hash ∈ gone <;> by_cases hm : hash ∈ more <;> simp [hg, hm]

/-- The told transactions were in, are told once, and are all that left. -/
structure Drops (p : Pool) (gone : List Hash256) (p' : Pool) : Prop where
  without : p.Without gone p'
  pooled : ∀ hash ∈ gone, p.verified.contains hash = true
  once : gone.Nodup

theorem Drops.refl (p : Pool) : p.Drops [] p := ⟨fun _ => rfl, by simp, .nil⟩

theorem Drops.trans {p' p'' : Pool} {gone more : List Hash256} (h : p.Drops gone p')
    (h' : p'.Drops more p'') : p.Drops (gone ++ more) p'' := by
  have hstill : ∀ hash ∈ more, hash ∉ gone ∧ p.verified.contains hash = true := by
    intro hash hmem
    have hin := h'.pooled hash hmem
    unfold SortedMap.contains at hin ⊢
    rw [h.without hash] at hin
    split at hin
    · cases hin
    · exact ⟨‹_›, hin⟩
  refine ⟨h.without.trans h'.without, fun hash hmem => ?_,
    List.nodup_append.2 ⟨h.once, h'.once, ?_⟩⟩
  · rcases List.mem_append.1 hmem with hmem | hmem
    · exact h.pooled hash hmem
    · exact (hstill hash hmem).2
  · rintro a ha b hb rfl
    exact (hstill a hb).1 ha

/-- A removal tells what left. -/
theorem drops_of_erase {p' : Pool} (h : p'.verified = p.verified.erase hash) :
    p.Drops (if (p.get? hash).isSome then [hash] else []) p' := by
  refine ⟨fun x => ?_, fun x hx => ?_, ?_⟩
  · rw [h, SortedMap.get?_erase, Pool.get?, Option.isSome_map]
    by_cases hx : x = hash
    · subst hx
      rcases p.verified.get? x with _ | item <;> simp
    · rcases p.verified.get? hash with _ | item <;> simp [hx]
  · split at hx
    · rename_i hin
      rw [List.mem_singleton.1 hx]
      unfold Pool.get? at hin
      rwa [Option.isSome_map] at hin
    · cases hx
  · split
    · simp
    · exact .nil

theorem Sound.removeAll (h : p.Sound joining) (hashes : List Hash256) :
    ∃ gone p', p.removeAll hashes = (.ok gone, p') ∧ p'.Sound joining ∧
      p'.capacity = p.capacity ∧
      p'.verified = hashes.foldl (fun m hash => m.erase hash) p.verified ∧ p.Drops gone p' := by
  induction hashes generalizing p with
  | nil => exact ⟨[], p, rfl, h, rfl, rfl, .refl p⟩
  | cons hash rest ih =>
    obtain ⟨p₁, hrun, h₁, hcapacity, hverified⟩ := h.remove hash
    obtain ⟨more, p', hrest, h', hcapacity', hverified', hmore⟩ := ih h₁
    have hall : p.removeAll (hash :: rest) =
        (.ok ((if (p.get? hash).isSome then [hash] else []) ++ more), p') := by
      simp only [Pool.removeAll, hrun, hrest]
      cases (p.get? hash).isSome <;> rfl
    refine ⟨_, p', hall, h', hcapacity'.trans hcapacity, ?_, (drops_of_erase hverified).trans hmore⟩
    rw [hverified', hverified]
    rfl

/-! ## Joining the pool -/

/-- A booked transaction joins. -/
theorem Sound.insert (h : p.Sound (some t)) (halone : checkAlone t = .succeed) :
    (p.insert t).Sound none where
  keyed hash item hget := by
    unfold Pool.insert at hget
    dsimp only at hget
    rw [SortedMap.get?_insert] at hget
    split at hget
    · rename_i hhash
      cases hget
      exact ⟨hhash.symm, by rw [hhash], halone⟩
    · exact h.keyed hash item hget
  sorted priority := by
    unfold Pool.insert
    dsimp only
    rw [SortedMap.contains_insert_iff, h.sorted, SortedMap.get?_insert]
    by_cases hp : priority.hash = t.hash
    · rw [if_pos hp, hp, h.fresh t rfl]
      simp [eq_comm]
    · have hother : priority ≠ Priority.of t t.hash := by
        rintro rfl
        exact hp rfl
      simp [hp, hother]
  conflicts := by
    apply (h.conflicts.declare_all t.hash t.declared).congr
    intro declared hash
    unfold Pool.insert
    dsimp only
    rw [SortedMap.get?_insert]
    by_cases hp : hash = t.hash
    · rw [if_pos hp, hp, h.fresh t rfl]
      simp
    · simp [hp]
  fresh _ h := by cases h
  book := by
    have hbook := h.book
    unfold Pool.insert booked
    dsimp only
    rw [SortedMap.mapValues_insert]
    exact hbook

/-! ## Making room -/

variable {c : Cache} {settings : Settings} {evicted replaced : SortedSet Hash256}

theorem contains_foldl_insert (hashes : List Hash256) (s : SortedSet Hash256) (x : Hash256) :
    (hashes.foldl (fun s hash => s.insert hash ()) s).contains x = true ↔
      x ∈ hashes ∨ s.contains x = true := by
  induction hashes generalizing s with
  | nil => simp
  | cons hash rest ih =>
    rw [List.foldl_cons, ih, SortedMap.contains_insert_iff, List.mem_cons]
    constructor
    · rintro (h | h | h)
      · exact .inl (.inr h)
      · exact .inl (.inl h)
      · exact .inr h
    · rintro ((h | h) | h)
      · exact .inr (.inl h)
      · exact .inl h
      · exact .inr (.inr h)

/-- The index finds the pooled transactions that declare a hash. -/
theorem Sound.mem_declarers_iff (h : p.Sound joining) (declared : Hash256) :
    hash ∈ p.declarers declared ↔
      ∃ item, p.verified.get? hash = some item ∧ declared ∈ item.transaction.declared := by
  rw [← h.conflicts.listed]
  unfold Pool.declarers
  rcases p.conflicts.get? declared with _ | s
  · simp
  · simp [SortedMap.mem_keys_iff]

/-- Only pooled transactions are in conflict with a new one. -/
theorem Sound.contains_of_conflicting (h : p.Sound none) {x : Hash256}
    (hx : (p.conflicting t).contains x = true) : p.verified.contains x = true := by
  unfold Pool.conflicting at hx
  rw [contains_foldl_insert, List.mem_append, List.mem_filter] at hx
  rcases hx with (⟨-, hx⟩ | hx) | hx
  · exact hx
  · obtain ⟨item, hitem, -⟩ := (h.mem_declarers_iff t.hash).1 hx
    exact SortedMap.contains_iff.2 ⟨item, hitem⟩
  · cases hx

theorem eq_conflicting_of_replaced (h : p.replaced t = some replaced) :
    replaced = p.conflicting t := by
  unfold Pool.replaced at h
  dsimp only at h
  split at h
  · exact (Option.some.inj h).symm
  · split at h
    · exact (Option.some.inj h).symm
    · cases h

/-- What leaves for a new transaction is pooled, and makes room enough. -/
theorem Sound.makeRoom (h : p.Sound none) (hsize : p.size ≤ p.capacity)
    (hin : ∀ x, replaced.contains x = true → p.verified.contains x = true)
    (hroom : p.makeRoom t replaced = some evicted) :
    (∀ x, evicted.contains x = true → p.verified.contains x = true) ∧
      p.size + 1 ≤ p.capacity + evicted.size := by
  unfold Pool.makeRoom at hroom
  split at hroom
  · cases hroom
    exact ⟨hin, by omega⟩
  · split at hroom
    · cases hroom
    · rename_i lowest hfind
      split at hroom
      · cases hroom
        have hpooled := List.mem_of_find?_eq_some hfind
        rw [SortedMap.mem_keys_iff, h.sorted] at hpooled
        obtain ⟨item, hitem, -⟩ := hpooled
        have hnew : replaced.get? lowest.hash = none := by
          have hnot := List.find?_some hfind
          simpa [SortedMap.contains] using hnot
        constructor
        · intro x hx
          rw [SortedMap.contains_insert_iff] at hx
          rcases hx with rfl | hx
          · exact SortedMap.contains_iff.2 ⟨item, hitem⟩
          · exact hin x hx
        · rw [SortedMap.size_insert_of_new hnew]
          omega
      · cases hroom

/-! ## Offers -/

theorem planInPool_accept (h : p.planInPool t c = .ok (.accept evicted)) :
    p.makeRoom t (p.conflicting t) = some evicted ∧
      p.book.check t (evicted.keys.filterMap p.get?) c = .ok .granted := by
  unfold Pool.planInPool at h
  split at h
  · cases h
  · rename_i replaced hreplaced
    have hconflicting := eq_conflicting_of_replaced hreplaced
    subst hconflicting
    split at h
    · cases h
    · rename_i room hroom
      rcases hcheck : p.book.check t (room.keys.filterMap p.get?) c with f | clearance
      · rw [hcheck] at h
        cases h
      · rw [hcheck] at h
        cases clearance with
        | granted =>
          cases h
          exact ⟨hroom, hcheck⟩
        | insufficientFunds => cases h
        | duplicateOracle => cases h

/-- What a plan to accept a transaction has checked. -/
theorem plan_accept (h : p.plan t c settings = .ok (.accept evicted)) :
    p.verified.get? t.hash = none ∧ checkAlone t = .succeed ∧
      p.makeRoom t (p.conflicting t) = some evicted ∧
      p.book.check t (evicted.keys.filterMap p.get?) c = .ok .granted := by
  unfold Pool.plan at h
  split at h
  · cases h
  · rename_i hcontains
    split at h
    · rename_i halone
      rcases hchain : checkOnChain t c settings with f | verdict
      · rw [hchain] at h
        cases h
      · rw [hchain, ok_bind] at h
        split at h
        · obtain ⟨hroom, hcheck⟩ := planInPool_accept h
          refine ⟨?_, halone, hroom, hcheck⟩
          unfold Pool.contains SortedMap.contains at hcontains
          simpa using hcontains
        · cases h
    · cases h

/-- What a clearance has checked: with what it gets back, the sender holds
enough for what it has pooled and for the new transaction. -/
theorem check_granted {b : FeeBook} {ts : List Transaction} (h : b.check t ts c = .ok .granted) :
    b.oracleTaken? t = none ∧ ∃ sender held back, t.sender? = some sender ∧
      Gas.balance c sender = .ok held ∧ FeeBook.freed sender 0 ts = .ok back ∧
      t.fee + b.total sender < Amount.limit ∧ held + back < Amount.limit ∧
      t.fee + b.total sender ≤ held + back := by
  unfold FeeBook.check at h
  split at h
  · cases h
  · rename_i horacle
    obtain ⟨sender, hs, h⟩ := ok_of_bind h
    obtain ⟨held, hheld, h⟩ := ok_of_bind h
    obtain ⟨back, hback, h⟩ := ok_of_bind h
    obtain ⟨required, hrequired, h⟩ := ok_of_bind h
    obtain ⟨available, havailable, h⟩ := ok_of_bind h
    obtain ⟨hlimit, rfl⟩ := Amount.of_add hrequired
    obtain ⟨hfit, rfl⟩ := Amount.of_add havailable
    refine ⟨horacle, sender, held, back, FeeBook.sender?_of_sender hs, hheld, hback, hlimit, hfit,
      ?_⟩
    split at h
    · cases h
    · rename_i henough
      exact Nat.le_of_not_lt henough

/-- A new transaction whose request is not taken finds it open. -/
theorem oracle_open {b : FeeBook} {m : SortedMap Hash256 Transaction}
    (h : ListsOwners b.oracles m) (hnew : m.get? t.hash = none) (hfree : b.oracleTaken? t = none) :
    ∀ id ∈ t.oracleId?, b.oracles.get? id = none := by
  intro id hid
  rcases hown : b.oracles.get? id with _ | owner
  · rfl
  · -- The owner is in the map, and the new transaction is not.
    have hother : owner ≠ t.hash := by
      rintro rfl
      obtain ⟨u, hu, -⟩ := (h id t.hash).1 hown
      rw [hnew] at hu
      cases hu
    have htaken := (b.oracleTaken?_eq_some_iff t id).2 ⟨hid, owner, hown, hother⟩
    rw [hfree] at htaken
    cases htaken

/-- An accepted transaction can be booked. -/
theorem Sound.book_of_accept (h : p.Sound none)
    (hplan : p.plan t c settings = .ok (.accept evicted)) :
    ∃ book, p.book.add t = (.ok (), book) ∧ Sound { p with book := book } (some t) := by
  obtain ⟨hnew, -, -, hcheck⟩ := plan_accept hplan
  obtain ⟨hfree, sender, -, -, hsender, -, -, hfit, -⟩ := check_granted hcheck
  have hbooked : (booked p.verified none).get? t.hash = none := by
    rw [booked, SortedMap.get?_mapValues, hnew]
    rfl
  have htotal : p.book.total sender = owed (booked p.verified none) sender :=
    h.book.totals.getD sender
  rw [htotal] at hfit
  have hfit : owed (booked p.verified none) sender + t.fee < Amount.limit := by
    rwa [Nat.add_comm]
  obtain ⟨book, hadd, htallies⟩ := h.book.add hbooked hsender hfit
    (oracle_open h.book.oracles hbooked hfree)
  refine ⟨book, hadd, h.keyed, h.sorted, h.conflicts, ?_, htallies⟩
  intro u hu
  cases hu
  exact hnew

/-! ## What every call keeps -/

/-- A pool within its capacity whose books agree with it. -/
structure Kept (p : Pool) (capacity : Nat) : Prop where
  sound : p.Sound none
  limit : p.capacity = capacity
  size : p.size ≤ capacity

variable {capacity : Nat}

theorem kept_empty (capacity : Nat) : (empty capacity).Kept capacity :=
  ⟨sound_empty capacity, rfl, Nat.zero_le _⟩

theorem Kept.remove (h : p.Kept capacity) (hash : Hash256) :
    ∃ gone p', p.remove hash = (.ok gone, p') ∧ p'.Kept capacity ∧
      p'.verified = p.verified.erase hash := by
  obtain ⟨p', hrun, hsound, hlimit, hverified⟩ := h.sound.remove hash
  refine ⟨_, p', hrun, ⟨hsound, hlimit.trans h.limit, ?_⟩, hverified⟩
  unfold Pool.size
  rw [hverified]
  exact Nat.le_trans (SortedMap.size_erase_le _ _) h.size

theorem Kept.removeAll (h : p.Kept capacity) (hashes : List Hash256) :
    ∃ gone p', p.removeAll hashes = (.ok gone, p') ∧ p'.Kept capacity ∧ p.Drops gone p' ∧
      ∀ hash, p'.get? hash = if hash ∈ hashes then none else p.get? hash := by
  obtain ⟨gone, p', hrun, hsound, hlimit, hverified, hgone⟩ := h.sound.removeAll hashes
  refine ⟨gone, p', hrun, ⟨hsound, hlimit.trans h.limit, ?_⟩, hgone, fun hash => ?_⟩
  · unfold Pool.size
    rw [hverified]
    exact Nat.le_trans (SortedMap.size_foldl_erase_le _ _) h.size
  · unfold Pool.get?
    rw [hverified, SortedMap.get?_foldl_erase]
    split <;> rfl

/-- A pool where a booked transaction has room, once the evicted ones left. -/
structure Vacated (p : Pool) (t : Transaction) (evicted : SortedSet Hash256) (p' : Pool) :
    Prop where
  sound : p'.Sound (some t)
  limit : p'.capacity = p.capacity
  verified : p'.verified = evicted.keys.foldl (fun m hash => m.erase hash) p.verified

/-- What an offer does to a pool: it fails as its checks do, it is rejected,
or the transaction takes the place of those that leave for it. -/
theorem Sound.offer_cases (h : p.Sound none) (t : Transaction) (c : Cache) (settings : Settings) :
    (∃ f, p.plan t c settings = .error f ∧ p.offer t c settings = (.error f, p)) ∨
    (∃ verdict, p.plan t c settings = .ok (.reject verdict) ∧
      p.offer t c settings = (.ok verdict, p)) ∨
    ∃ evicted p', p.plan t c settings = .ok (.accept evicted) ∧ p.Vacated t evicted p' ∧
      p.offer t c settings = (.ok .succeed, p'.insert t) := by
  unfold Pool.offer
  rcases hplan : p.plan t c settings with f | verdict | evicted
  · exact .inl ⟨f, rfl, rfl⟩
  · exact .inr (.inl ⟨verdict, rfl, rfl⟩)
  · obtain ⟨book, hadd, hbook⟩ := h.book_of_accept hplan
    obtain ⟨gone, p', hrun, hsound, hlimit, hverified, -⟩ := hbook.removeAll evicted.keys
    refine .inr (.inr ⟨evicted, p', rfl, ⟨hsound, hlimit, hverified⟩, ?_⟩)
    simp only [hadd, hrun]

/-- An accepted transaction finds room. -/
theorem Kept.accept (h : p.Kept capacity) {p' : Pool}
    (hplan : p.plan t c settings = .ok (.accept evicted)) (hp : p.Vacated t evicted p') :
    (p'.insert t).Kept capacity := by
  obtain ⟨hnew, halone, hroom, -⟩ := plan_accept hplan
  obtain ⟨hin, henough⟩ := h.sound.makeRoom (by rw [h.limit]; exact h.size)
    (fun x hx => h.sound.contains_of_conflicting hx) hroom
  refine ⟨hp.sound.insert halone, hp.limit.trans h.limit, ?_⟩
  have hleft := SortedMap.size_foldl_erase (SortedMap.nodup_keys evicted)
    (fun x hx => hin x (SortedMap.mem_keys_iff.1 hx))
  have hlength : evicted.keys.length = evicted.size := List.length_map _
  have hinsert : (p'.insert t).size = p'.verified.size + 1 :=
    SortedMap.size_insert_of_new (hp.sound.fresh t rfl)
  rw [hinsert, hp.verified]
  rw [h.limit] at henough
  unfold Pool.size at henough
  omega

/-- An offer keeps the books, whatever comes of it. -/
theorem Kept.offer (h : p.Kept capacity) (t : Transaction) (c : Cache) (settings : Settings) :
    (p.offer t c settings).2.Kept capacity := by
  rcases h.sound.offer_cases t c settings with
    ⟨f, -, hr⟩ | ⟨verdict, -, hr⟩ | ⟨evicted, p', hplan, hp, hr⟩ <;> rw [hr]
  · exact h
  · exact h
  · exact h.accept hplan hp

/-- Whether an included transaction sweeps a pooled one away: it is the same,
it declares the pooled one and is signed by its sender, or it is declared by
the pooled one. -/
def Sweeps (u t : Transaction) : Prop :=
  t.hash = u.hash ∨ (t.hash ∈ u.declared ∧ ∃ sender ∈ u.accounts, t.sender? = some sender) ∨
    u.hash ∈ t.declared

instance (u t : Transaction) : Decidable (Sweeps u t) := inferInstanceAs (Decidable (_ ∨ _ ∨ _))

theorem Sound.mem_leaving_iff (h : p.Sound none) (hget : p.get? hash = some t) (u : Transaction) :
    hash ∈ p.leaving u ↔ Sweeps u t := by
  obtain ⟨item, hitem, rfl⟩ := Option.map_eq_some_iff.1 hget
  obtain ⟨hhash, -, -⟩ := h.keyed hash item hitem
  have hsigned : p.isSignedBySender u.accounts hash = true ↔
      ∃ sender ∈ u.accounts, item.transaction.sender? = some sender := by
    unfold Pool.isSignedBySender
    rw [hget, Option.any_some]
    rcases item.transaction.sender? with _ | sender <;> simp
  unfold Pool.leaving Sweeps
  rw [List.cons_append, List.mem_cons, List.mem_append, List.mem_filter, hsigned,
    h.mem_declarers_iff, hitem, hhash]
  simp

/-- What the transactions of a block sweep away leaves, and nothing else. -/
theorem Kept.removeIncluded (h : p.Kept capacity) (ts : List Transaction) :
    ∃ gone p', p.removeIncluded ts = (.ok gone, p') ∧ p'.Kept capacity ∧ p.Drops gone p' ∧
      ∀ hash t, p'.get? hash = some t ↔ p.get? hash = some t ∧ ∀ u ∈ ts, ¬ Sweeps u t := by
  induction ts generalizing p with
  | nil => exact ⟨[], p, rfl, h, .refl p, by simp⟩
  | cons u rest ih =>
    obtain ⟨gone, p₁, hrun, h₁, hgone, hfirst⟩ := h.removeAll (p.leaving u)
    obtain ⟨more, p', hrest, h', hmore, hothers⟩ := ih h₁
    refine ⟨gone ++ more, p', by simp only [Pool.removeIncluded, hrun, hrest], h',
      hgone.trans hmore, fun hash t => ?_⟩
    rw [hothers, hfirst, List.forall_mem_cons, ← and_assoc]
    refine and_congr_left fun _ => ?_
    constructor
    · intro hget
      split at hget
      · cases hget
      · rename_i hnot
        exact ⟨hget, fun hsweeps => hnot ((h.sound.mem_leaving_iff hget u).2 hsweeps)⟩
    · rintro ⟨hget, hsweeps⟩
      rw [if_neg fun hmem => hsweeps ((h.sound.mem_leaving_iff hget u).1 hmem), hget]

/-- What every offer of a queue keeps, the whole queue keeps. -/
theorem reenter_keeps {I : Pool → Prop} {items : List Pooled}
    (hoffer : ∀ item ∈ items, ∀ p : Pool, I p → I (p.offer item.transaction c settings).2)
    (hp : I p) : I (p.reenter c settings items).2 := by
  induction items generalizing p with
  | nil => exact hp
  | cons item rest ih =>
    have hfirst := hoffer item List.mem_cons_self p hp
    unfold Pool.reenter
    rcases hr : p.offer item.transaction c settings with ⟨f | verdict, p'⟩ <;> rw [hr] at hfirst
    · exact hfirst
    · have hrest := ih (fun item hi => hoffer item (List.mem_cons_of_mem _ hi)) hfirst
      dsimp only
      rcases hm : p'.reenter c settings rest with ⟨f | more, p''⟩ <;> rw [hm] at hrest <;>
        exact hrest

/-- After a block an empty pool is filled with what the block did not sweep away. -/
theorem Kept.update_eq_reenter (h : p.Kept capacity) (block : Block) (c : Cache)
    (settings : Settings) :
    ∃ swept s, p.removeIncluded block.transactions = (.ok swept, s) ∧ s.Kept capacity ∧
      p.Drops swept s ∧
      (∀ hash t, s.get? hash = some t ↔
        p.get? hash = some t ∧ ∀ u ∈ block.transactions, ¬ Sweeps u t) ∧
      p.update block c settings =
        (((empty capacity).reenter c settings s.ranked).1.map (swept ++ ·),
          ((empty capacity).reenter c settings s.ranked).2) := by
  obtain ⟨swept, s, hrun, hs, hswept, hstays⟩ := h.removeIncluded block.transactions
  refine ⟨swept, s, hrun, hs, hswept, hstays, ?_⟩
  unfold Pool.update
  rw [hrun]
  dsimp only
  rw [hs.limit]
  rcases (Pool.empty capacity).reenter c settings s.ranked with ⟨f | refused, p'⟩ <;> rfl

/-- An update keeps the books, whatever comes of it. -/
theorem Kept.update (h : p.Kept capacity) (block : Block) (c : Cache) (settings : Settings) :
    (p.update block c settings).2.Kept capacity := by
  obtain ⟨swept, s, -, -, -, -, heq⟩ := h.update_eq_reenter block c settings
  rw [heq]
  exact reenter_keeps (I := fun p => p.Kept capacity)
    (fun item _ p hp => hp.offer item.transaction c settings) (kept_empty capacity)

/-- The pools that offers, removals and updates lead to from an empty pool,
with any blocks, caches and settings and whatever each call returns. -/
inductive Reached (capacity : Nat) : Pool → Prop where
  | empty : Reached capacity (.empty capacity)
  | offer {p : Pool} (t : Transaction) (c : Cache) (settings : Settings) :
    Reached capacity p → Reached capacity (p.offer t c settings).2
  | remove {p : Pool} (hash : Hash256) : Reached capacity p → Reached capacity (p.remove hash).2
  | update {p : Pool} (block : Block) (c : Cache) (settings : Settings) :
    Reached capacity p → Reached capacity (p.update block c settings).2

theorem Reached.kept (h : Reached capacity p) : p.Kept capacity := by
  induction h with
  | empty => exact kept_empty capacity
  | offer t c settings _ ih => exact ih.offer t c settings
  | remove hash _ ih =>
    obtain ⟨gone, p', hrun, hkept, -⟩ := ih.remove hash
    rwa [hrun]
  | update block c settings _ ih => exact ih.update block c settings

theorem Reached.of_update {p' : Pool} {block : Block} {gone : List Hash256}
    (h : Reached capacity p) (hr : p.update block c settings = (.ok gone, p')) :
    Reached capacity p' := by
  have hafter := h.update block c settings
  rwa [hr] at hafter

/-! ## How calls fail -/

open Contract (CallFailure)

theorem failsIn_anyOnChain (c : Cache) (hashes : List Hash256) :
    FailsIn CallFailure (anyOnChain c hashes) := by
  induction hashes with
  | nil => exact .ok _
  | cons hash rest ih =>
    unfold anyOnChain
    exact .bind (Ledger.failsIn_containsTransaction c hash) fun _ => .ite (.ok _) ih

theorem failsIn_checkOnChain (t : Transaction) (c : Cache) (settings : Settings) :
    FailsIn CallFailure (checkOnChain t c settings) := by
  unfold checkOnChain
  refine .bind (Ledger.failsIn_containsTransaction c t.hash) fun _ => .ite (.ok _) ?_
  refine .bind (Ledger.failsIn_hasConflict c t.hash _ _) fun _ => .ite (.ok _) ?_
  refine .bind (failsIn_anyOnChain c _) fun _ => .ite (.ok _) ?_
  refine .bind (Ledger.reads_callFailure c).currentIndex fun height => .ite (.ok _) (.ite (.ok _) ?_)
  refine .ite (.ok _) (.bind (Policy.failsIn_feePerByte c) fun _ => ?_)
  exact .ite (.ok _) (.ok _)

theorem failsIn_add (a b : Amount) : FailsIn CallFailure (Amount.add a b) :=
  .ite (.ok _) (.error (.overflow a b))

theorem failsIn_freed (sender : Hash160) (sum : Amount) (ts : List Transaction) :
    FailsIn CallFailure (FeeBook.freed sender sum ts) := by
  induction ts generalizing sum with
  | nil => exact .ok _
  | cons t rest ih =>
    unfold FeeBook.freed
    refine .bind (Ledger.failsIn_sender t) fun _ => .ite ?_ (ih sum)
    exact .bind (failsIn_add sum t.fee) fun sum => ih sum

theorem failsIn_check (b : FeeBook) (t : Transaction) (ts : List Transaction) (c : Cache) :
    FailsIn CallFailure (b.check t ts c) := by
  unfold FeeBook.check
  split
  · exact .ok _
  · refine .bind (Ledger.failsIn_sender t) fun sender => ?_
    refine .bind (.bind (Gas.failsIn_account c sender) fun _ => .ok _) fun balance => ?_
    refine .bind (failsIn_freed sender 0 ts) fun freed => ?_
    exact .bind (failsIn_add _ _) fun _ => .bind (failsIn_add _ _) fun _ => .ok _

theorem failsIn_plan (p : Pool) (t : Transaction) (c : Cache) (settings : Settings) :
    FailsIn CallFailure (p.plan t c settings) := by
  unfold Pool.plan Pool.planInPool
  refine .ite (.ok _) ?_
  split
  · refine .bind (failsIn_checkOnChain t c settings) fun _ => ?_
    split
    · split
      · exact .ok _
      · split
        · exact .ok _
        · exact .map (failsIn_check _ _ _ _)
    · exact .ok _
  · exact .ok _

/-- An offer fails as its checks do, and in no other way. -/
theorem Kept.failsIn_offer (h : p.Kept capacity) (t : Transaction) (c : Cache)
    (settings : Settings) : FailsIn CallFailure (p.offer t c settings).1 := by
  rcases h.sound.offer_cases t c settings with
    ⟨f, hplan, hr⟩ | ⟨verdict, -, hr⟩ | ⟨evicted, p', -, -, hr⟩ <;> rw [hr]
  · exact .error (failsIn_plan p t c settings f hplan)
  · exact .ok _
  · exact .ok _

theorem Kept.failsIn_reenter (h : p.Kept capacity) (c : Cache) (settings : Settings)
    (items : List Pooled) : FailsIn CallFailure (p.reenter c settings items).1 := by
  induction items generalizing p with
  | nil => exact .ok _
  | cons item rest ih =>
    have hfails := h.failsIn_offer item.transaction c settings
    have hoffer := h.offer item.transaction c settings
    unfold Pool.reenter
    rcases hr : p.offer item.transaction c settings with ⟨f | verdict, p'⟩
    · rw [hr] at hfails
      exact .error (hfails f rfl)
    · rw [hr] at hoffer
      have hrest := ih hoffer
      dsimp only
      rcases hm : p'.reenter c settings rest with ⟨f | more, p''⟩
      · rw [hm] at hrest
        exact .error (hrest f rfl)
      · exact .ok _

theorem Kept.failsIn_update (h : p.Kept capacity) (block : Block) (c : Cache)
    (settings : Settings) : FailsIn CallFailure (p.update block c settings).1 := by
  obtain ⟨swept, s, -, -, -, -, heq⟩ := h.update_eq_reenter block c settings
  rw [heq]
  exact .map ((kept_empty capacity).failsIn_reenter c settings s.ranked)

/-! ## What the books tell -/

/-- The pooled fees of a sender. -/
def feesOf (p : Pool) (sender : Hash160) : Nat :=
  (((p.verified.values.map (·.transaction)).filter (·.sender? = some sender)).map (·.fee)).sum

theorem sum_owes (ts : List Transaction) (sender : Hash160) :
    (ts.map (·.owes sender)).sum = ((ts.filter (·.sender? = some sender)).map (·.fee)).sum := by
  induction ts with
  | nil => rfl
  | cons t rest ih =>
    rw [List.map_cons, List.sum_cons, ih]
    unfold Transaction.owes
    by_cases hs : t.sender? = some sender <;> simp [hs]

theorem get?_booked_none (p : Pool) (hash : Hash256) :
    (booked p.verified none).get? hash = p.get? hash := SortedMap.get?_mapValues _ _ _

theorem owed_booked (p : Pool) (sender : Hash160) :
    owed (booked p.verified none) sender = p.feesOf sender := by
  rw [feesOf, ← sum_owes]
  unfold owed booked SortedMap.total SortedMap.mapValues SortedMap.values
  simp [Function.comp_def]

/-- Of two members that pass a test only one can pass it, they are the same. -/
theorem eq_of_countP_le_one {α : Type} {l : List α} {f : α → Bool} (h : l.countP f ≤ 1) {a b : α}
    (ha : a ∈ l) (hb : b ∈ l) (hfa : f a = true) (hfb : f b = true) : a = b := by
  have ha : a ∈ l.filter f := List.mem_filter.2 ⟨ha, hfa⟩
  have hb : b ∈ l.filter f := List.mem_filter.2 ⟨hb, hfb⟩
  rw [List.countP_eq_length_filter] at h
  rcases hl : l.filter f with _ | ⟨x, _ | ⟨y, rest⟩⟩
  · rw [hl] at ha
    cases ha
  · rw [hl, List.mem_singleton] at ha hb
    rw [ha, hb]
  · rw [hl] at h
    simp at h

/-- A transaction that passes the checks by itself has one oracle response at
most. -/
theorem countP_isOracle_le_one (h : checkAlone t = .succeed) :
    t.attributes.countP Attribute.isOracle ≤ 1 := by
  unfold checkAlone at h
  by_cases hcount : 1 < t.attributes.countP Attribute.isOracle
  · rw [if_pos hcount] at h
    split at h
    · cases h
    · split at h
      · cases h
      · split at h <;> cases h
  · exact Nat.le_of_not_lt hcount

/-- The request that it answers is that of its only oracle response. -/
theorem oracleId?_eq_some_iff (h : checkAlone t = .succeed) (id : UInt64) :
    t.oracleId? = some id ↔ ∃ code result, .oracleResponse id code result ∈ t.attributes := by
  have hfound : ∀ id, t.oracleId? = some id →
      ∃ code result, .oracleResponse id code result ∈ t.attributes := by
    intro id hid
    obtain ⟨a, ha, hfirst⟩ := List.exists_of_findSome?_eq_some hid
    cases a with
    | oracleResponse id' code result =>
      cases hfirst
      exact ⟨code, result, ha⟩
    | highPriority => cases hfirst
    | notValidBefore => cases hfirst
    | conflicts => cases hfirst
  refine ⟨hfound id, ?_⟩
  rintro ⟨code, result, hmem⟩
  rcases hid : t.oracleId? with _ | id'
  · unfold Transaction.oracleId? at hid
    rw [List.findSome?_eq_none_iff] at hid
    have hnone := hid _ hmem
    cases hnone
  · obtain ⟨code', result', hmem'⟩ := hfound id' hid
    have hsame := eq_of_countP_le_one (countP_isOracle_le_one h) hmem' hmem rfl rfl
    cases hsame
    rfl

theorem Sound.get?_eq_some (h : p.Sound none) (hget : p.get? hash = some t) :
    p.verified.get? hash = some ⟨t, .of t hash⟩ ∧ t.hash = hash ∧ checkAlone t = .succeed := by
  obtain ⟨item, hitem, rfl⟩ := Option.map_eq_some_iff.1 hget
  obtain ⟨hhash, hpriority, halone⟩ := h.keyed hash item hitem
  rw [← hpriority]
  exact ⟨hitem, hhash, halone⟩

/-- The order holds the priorities of the pooled transactions. -/
theorem Sound.mem_sorted_iff (h : p.Sound none) (priority : Priority) :
    priority ∈ p.sorted.keys ↔
      ∃ t, p.get? priority.hash = some t ∧ Priority.of t t.hash = priority := by
  rw [SortedMap.mem_keys_iff, h.sorted]
  constructor
  · rintro ⟨item, hitem, hpriority⟩
    obtain ⟨hhash, hof, -⟩ := h.keyed _ item hitem
    refine ⟨item.transaction, ?_, ?_⟩
    · rw [Pool.get?, hitem]
      rfl
    · rw [hhash, ← hof, hpriority]
  · rintro ⟨t, hget, hpriority⟩
    obtain ⟨hitem, hhash, -⟩ := h.get?_eq_some hget
    exact ⟨_, hitem, by rw [← hhash, hpriority]⟩

theorem map_filterMap_eq {α β : Type} {f : α → Option β} {g : β → α} {l : List α}
    (h : ∀ a ∈ l, ∃ b, f a = some b ∧ g b = a) : (l.filterMap f).map g = l := by
  induction l with
  | nil => rfl
  | cons a rest ih =>
    obtain ⟨b, hb, hg⟩ := h a List.mem_cons_self
    rw [List.filterMap_cons_some hb, List.map_cons, hg,
      ih fun a' ha' => h a' (List.mem_cons_of_mem a ha')]

/-- The listed transactions have the priorities of the order, the highest
first. -/
theorem Sound.map_transactions (h : p.Sound none) :
    (p.transactions.map fun t => Priority.of t t.hash) = p.sorted.keys.reverse := by
  apply map_filterMap_eq
  intro priority hmem
  exact (h.mem_sorted_iff priority).1 (List.mem_reverse.1 hmem)

/-- Every pooled transaction is listed. -/
theorem Sound.mem_transactions_iff (h : p.Sound none) (t : Transaction) :
    t ∈ p.transactions ↔ ∃ hash, p.get? hash = some t := by
  unfold Pool.transactions
  rw [List.mem_filterMap]
  constructor
  · rintro ⟨priority, -, hget⟩
    exact ⟨priority.hash, hget⟩
  · rintro ⟨hash, hget⟩
    obtain ⟨-, hhash, -⟩ := h.get?_eq_some hget
    rw [← hhash] at hget
    refine ⟨Priority.of t t.hash, ?_, hget⟩
    rw [List.mem_reverse, h.mem_sorted_iff]
    exact ⟨t, hget, rfl⟩

/-- The listed transactions have descending priorities. -/
theorem Sound.descending (h : p.Sound none) :
    p.transactions.Pairwise fun a b =>
      compare (Priority.of a a.hash) (Priority.of b b.hash) = .gt := by
  have hmap : (p.transactions.map fun t => Priority.of t t.hash).Pairwise
      fun a b => compare a b = .gt := by
    rw [h.map_transactions, List.pairwise_reverse]
    exact (SortedMap.pairwise_keys p.sorted).imp fun hlt => Std.OrientedCmp.gt_iff_lt.2 hlt
  exact List.pairwise_map.1 hmap

theorem Sound.nodup_transactions (h : p.Sound none) : p.transactions.Nodup := by
  apply h.descending.imp
  rintro a b hgt rfl
  rw [Std.ReflOrd.compare_self] at hgt
  cases hgt

/-- The order holds exactly the priorities of the pooled transactions. -/
theorem Sound.sorted_iff (h : p.Sound none) (priority : Priority) :
    p.sorted.contains priority = true ↔
      ∃ hash t, p.get? hash = some t ∧ priority = .of t t.hash := by
  rw [← SortedMap.mem_keys_iff, h.mem_sorted_iff]
  constructor
  · rintro ⟨t, hget, hpriority⟩
    exact ⟨_, t, hget, hpriority.symm⟩
  · rintro ⟨hash, t, hget, rfl⟩
    obtain ⟨-, hhash, -⟩ := h.get?_eq_some hget
    exact ⟨t, by rwa [← hhash] at hget, rfl⟩

/-- The index has the declarers of every hash. -/
theorem Sound.declarers (h : p.Sound none) : Indexes p.conflicts fun declared hash =>
    ∃ t, p.get? hash = some t ∧ declared ∈ t.declared := by
  apply h.conflicts.congr
  intro declared hash
  constructor
  · rintro ⟨item, hitem, hdeclared⟩
    exact ⟨item.transaction, by rw [Pool.get?, hitem]; rfl, hdeclared⟩
  · rintro ⟨t, hget, hdeclared⟩
    obtain ⟨item, hitem, rfl⟩ := Option.map_eq_some_iff.1 hget
    exact ⟨item, hitem, hdeclared⟩

theorem Sound.listsSums (h : p.Sound none) : ListsSums p.book.totals p.feesOf := by
  intro sender
  have htotals := h.book.totals sender
  rwa [owed_booked] at htotals

/-- A request is owned by the pooled transaction that answers it. -/
theorem Sound.oracles_iff (h : p.Sound none) (id : UInt64) (hash : Hash256) :
    p.book.oracles.get? id = some hash ↔
      ∃ t, p.get? hash = some t ∧ ∃ code result, .oracleResponse id code result ∈ t.attributes := by
  rw [h.book.oracles, get?_booked_none]
  constructor
  · rintro ⟨t, hget, hid⟩
    exact ⟨t, hget, (oracleId?_eq_some_iff (h.get?_eq_some hget).2.2 id).1 hid⟩
  · rintro ⟨t, hget, hid⟩
    exact ⟨t, hget, (oracleId?_eq_some_iff (h.get?_eq_some hget).2.2 id).2 hid⟩

/-! ## The books of a pool -/

end Pool

/-- A failure that would show that the books of a pool are wrong. -/
def Failure.BreaksBooks (f : Failure) : Prop :=
  (∃ hash sender, f = .fault (.unknownSender hash sender)) ∨
    ∃ a b, f = .fault (.amountUnderflow a b)

theorem Contract.CallFailure.not_breaksBooks {f : Failure} (h : Contract.CallFailure f) :
    ¬ f.BreaksBooks := by
  rintro (⟨hash, sender, rfl⟩ | ⟨a, b, rfl⟩) <;> cases h

namespace Pool

/-- A pool whose books tell exactly what is pooled, and whose calls never find
them wrong. -/
structure Exact (p : Pool) (capacity : Nat) : Prop where
  size : p.size ≤ capacity
  /-- A transaction is pooled under its hash and passes the checks by itself. -/
  verified (hash : Hash256) (t : Transaction) : p.get? hash = some t →
    t.hash = hash ∧ checkAlone t = .succeed
  /-- The order is that of the pooled transactions. -/
  sorted (priority : Priority) : p.sorted.contains priority = true ↔
    ∃ hash t, p.get? hash = some t ∧ priority = .of t t.hash
  /-- Every pooled transaction is listed, once, and higher ones come first. -/
  listed (t : Transaction) : t ∈ p.transactions ↔ ∃ hash, p.get? hash = some t
  once : p.transactions.Nodup
  descending : p.transactions.Pairwise fun a b =>
    compare (Priority.of a a.hash) (Priority.of b b.hash) = .gt
  conflicts : Indexes p.conflicts fun declared hash =>
    ∃ t, p.get? hash = some t ∧ declared ∈ t.declared
  totals : ListsSums p.book.totals p.feesOf
  oracles (id : UInt64) (hash : Hash256) : p.book.oracles.get? id = some hash ↔
    ∃ t, p.get? hash = some t ∧ ∃ code result, .oracleResponse id code result ∈ t.attributes
  removes (hash : Hash256) : ∃ gone, (p.remove hash).1 = .ok gone
  offers (t : Transaction) (c : Cache) (settings : Settings) (f : Failure) :
    (p.offer t c settings).1 = .error f → ¬ f.BreaksBooks
  updates (block : Block) (c : Cache) (settings : Settings) (f : Failure) :
    (p.update block c settings).1 = .error f → ¬ f.BreaksBooks

/-- Whatever was offered to a pool, taken out or swept away by blocks, and
whatever came of it, its books tell exactly what is pooled. -/
theorem the_books_tell_what_is_pooled {capacity : Nat} {p : Pool} (h : Reached capacity p) :
    p.Exact capacity := by
  have hkept := h.kept
  have hsound := hkept.sound
  refine ⟨hkept.size, fun hash t hget => (hsound.get?_eq_some hget).2, hsound.sorted_iff,
    hsound.mem_transactions_iff, hsound.nodup_transactions, hsound.descending, hsound.declarers,
    hsound.listsSums, hsound.oracles_iff, ?_, ?_, ?_⟩
  · intro hash
    obtain ⟨gone, p', hrun, -⟩ := hkept.remove hash
    exact ⟨gone, by rw [hrun]⟩
  · intro t c settings f hf
    exact (hkept.failsIn_offer t c settings f hf).not_breaksBooks
  · intro block c settings f hf
    exact (hkept.failsIn_update block c settings f hf).not_breaksBooks

/-- A snapshot without a fee per byte where the holder can pay for two
transactions. -/
def scarce : Cache :=
  ((Cache.ofStore .empty).put Policy.feeKey (.raw [])).put (Gas.accountKey Sample.holder)
    (.account ⟨17, by decide⟩)

/-- A full pool with two transactions of one sender. -/
def full : Pool :=
  (((empty 2).offer (Sample.transaction 1 [.zero 32]) scarce Sample.settings).2.offer
    (Sample.transaction 2 [.zero 32]) scarce Sample.settings).2

/-- The full pool books the fees of both transactions. -/
theorem sample_pool : Reached 2 full ∧ full.size = 2 ∧ full.pooledFee Sample.holder = 16 ∧
    full.Exact 2 := by
  have hreached : Reached 2 full := .offer _ _ _ (.offer _ _ _ .empty)
  have hfull : full.size = 2 ∧ full.pooledFee Sample.holder = 16 := by decide +kernel
  exact ⟨hreached, hfull.1, hfull.2, the_books_tell_what_is_pooled hreached⟩

end Pool
end BlockLedger
