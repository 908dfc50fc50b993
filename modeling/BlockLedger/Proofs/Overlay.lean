-- A cache is as good as a plain map from keys to bytes. Whatever is done
-- with the cache, the same done with the content that the snapshot was
-- taken of gives what the cache shows, what it finds, and what the store
-- has once the writes are committed.
import BlockLedger.Proofs.Items

namespace BlockLedger

/-- Where an item holds a value, the bytes of the item read as the value. -/
theorem Item.decode_of_read {α : Type} [Storable α] [LawfulStorable α] {item : Item} {v : α}
    (h : item.read = .ok v) : Storable.decode item.bytes = .ok v := by
  unfold Item.read at h
  split at h
  · exact h
  · split at h
    · rename_i w hheld
      cases h
      rw [LawfulStorable.item_of_held item v hheld]
      exact LawfulStorable.decode_bytes v
    · cases h

namespace Cache

/-! ## Uses of a cache -/

/-- One use of a cache, with a plain map that the same is done with. An
item that was handed out is left as any other item; a value that was
handed out is left as any other value of its shape. Where a value cannot
be read, nothing is done with the map. -/
inductive Use : Cache → Store → Cache → Store → Prop
  | add {c c' : Cache} {key : Key} {item : Item} (m : Store) :
      c.add key item = .ok c' → Use c m c' (m.insert key.bytes item.bytes)
  | put (c : Cache) (m : Store) (key : Key) (item : Item) :
      Use c m (c.put key item) (m.insert key.bytes item.bytes)
  | change {c c' : Cache} {key : Key} {make : Outcome Item} {held : Item} (m : Store)
      (left : Item) :
      c.touch key make = .ok (held, c') →
      Use c m (c'.put key left) (m.insert key.bytes left.bytes)
  | changeValue {α : Type} [Storable α] [LawfulStorable α] {c c' : Cache} {key : Key}
      {make : Outcome α} {held : α} (m : Store) (left : α) :
      c.touchValue key make = (.ok held, c') →
      Use c m (c'.put key (Storable.item left)) (m.insert key.bytes (Storable.item left).bytes)
  | misread {α : Type} [Storable α] [LawfulStorable α] {c c' : Cache} {key : Key}
      {make : Outcome α} {f : Failure} (m : Store) :
      c.touchValue key make = (.error f, c') → Use c m c' m
  | delete (c : Cache) (m : Store) (key : Key) : Use c m (c.delete key) (m.erase key.bytes)

/-- The uses of a cache over a snapshot, one after the other. -/
inductive Uses (base : Store) : Cache → Store → Prop
  | start : Uses base (.ofStore base) base
  | next {c c' : Cache} {m m' : Store} : Uses base c m → Use c m c' m' → Uses base c' m'

/-! ## What each use does -/

section Touched

variable {c c' : Cache} {key : Key}

theorem add_ok {item : Item} (h : c.add key item = .ok c') : c' = c.put key item := by
  unfold add at h
  split at h <;> cases h
  rfl

/-- A touched item is the one that was there, or the one that was made. -/
theorem touch_ok {make : Outcome Item} {held : Item} (h : c.touch key make = .ok (held, c')) :
    c' = c.put key held ∧ (c.get? key = some held ∨ c.get? key = none ∧ make = .ok held) := by
  unfold touch at h
  rcases hget : c.get? key with _ | item
  · rcases make with f | made <;> rw [hget] at h <;> cases h
    exact ⟨rfl, .inr ⟨rfl, rfl⟩⟩
  · rw [hget] at h
    cases h
    exact ⟨rfl, .inl rfl⟩

section Values

variable {α : Type} [Storable α] [LawfulStorable α] {make : Outcome α}

/-- A touched value is the one that was there, or the one that was made. -/
theorem touchValue_ok {held : α} (h : c.touchValue key make = (.ok held, c')) :
    c' = c.put key (Storable.item held) ∧
      ((∃ item, c.get? key = some item ∧ item.read = .ok held) ∨
        c.get? key = none ∧ make = .ok held) := by
  unfold touchValue touch at h
  rcases hget : c.get? key with _ | item
  · rcases make with f | made <;> simp only [hget, Except.map] at h
    · cases h
    · rw [LawfulStorable.read_item] at h
      cases h
      exact ⟨put_put _ _ _ _, .inr ⟨rfl, rfl⟩⟩
  · simp only [hget] at h
    rcases hread : (item.read : Except CodecError α) with e | v <;> rw [hread] at h <;> cases h
    exact ⟨put_put _ _ _ _, .inl ⟨item, rfl, hread⟩⟩

/-- A value that cannot be read leaves at most a write of what is there. -/
theorem touchValue_error {f : Failure} (h : c.touchValue key make = (.error f, c')) :
    c' = c ∨ ∃ item, c.get? key = some item ∧ c' = c.put key item := by
  unfold touchValue touch at h
  rcases hget : c.get? key with _ | item
  · rcases make with e | made <;> simp only [hget, Except.map] at h
    · cases h
      exact .inl rfl
    · -- what was just made is held in its own shape
      rw [LawfulStorable.read_item] at h
      cases h
  · simp only [hget] at h
    rcases hread : (item.read : Except CodecError α) with e | v <;> rw [hread] at h <;> cases h
    exact .inr ⟨item, rfl, rfl⟩

end Values

end Touched

/-! ## What a cache has in common with the map -/

/-- A cache over `base` that has the bytes of a map under every key. -/
structure Agrees (base : Store) (c : Cache) (m : Store) : Prop where
  base_eq : c.base = base
  lookup (k : Bytes) : (c.lookup k).map Item.bytes = m.get? k

namespace Agrees

variable {base m : Store} {c : Cache}

theorem ofStore (base : Store) : Agrees base (.ofStore base) base :=
  ⟨rfl, fun k => by
    change ((base.get? k).map Item.raw).map Item.bytes = base.get? k
    cases base.get? k <;> rfl⟩

theorem put (h : Agrees base c m) (key : Key) (item : Item) :
    Agrees base (c.put key item) (m.insert key.bytes item.bytes) := by
  refine ⟨h.base_eq, fun k => ?_⟩
  rw [lookup_put, SortedMap.get?_insert]
  split
  · rfl
  · exact h.lookup k

theorem delete (h : Agrees base c m) (key : Key) :
    Agrees base (c.delete key) (m.erase key.bytes) := by
  refine ⟨h.base_eq, fun k => ?_⟩
  rw [lookup_delete, SortedMap.get?_erase]
  split
  · rfl
  · exact h.lookup k

/-- A write of what is there changes nothing that is shown. -/
theorem put_same (h : Agrees base c m) {key : Key} {item : Item} (hget : c.get? key = some item) :
    Agrees base (c.put key item) m := by
  refine ⟨h.base_eq, fun k => ?_⟩
  rw [lookup_put]
  split
  · rename_i hk
    rw [← h.lookup k, hk, ← get?_eq_lookup, hget]
  · exact h.lookup k

theorem use {c' : Cache} {m' : Store} (h : Agrees base c m) (hu : Use c m c' m') :
    Agrees base c' m' := by
  cases hu with
  | add m hadd =>
    rw [add_ok hadd]
    exact h.put _ _
  | put c m key item => exact h.put key item
  | change m left htouch =>
    rw [(touch_ok htouch).1, put_put]
    exact h.put _ left
  | changeValue m left htouch =>
    rw [(touchValue_ok htouch).1, put_put]
    exact h.put _ _
  | misread m htouch =>
    rcases touchValue_error htouch with rfl | ⟨item, hget, rfl⟩
    · exact h
    · exact h.put_same hget
  | delete c m key => exact h.delete key

theorem of_uses (h : Uses base c m) : Agrees base c m := by
  induction h with
  | start => exact .ofStore base
  | next _ hu ih => exact ih.use hu

/-! ## What follows for each question -/

theorem get? (h : Agrees base c m) (key : Key) : (c.get? key).map Item.bytes = m.get? key.bytes :=
  h.lookup key.bytes

theorem contains (h : Agrees base c m) (key : Key) : c.contains key = m.contains key.bytes := by
  rw [SortedMap.contains, ← h.get? key, Option.isSome_map]
  rfl

theorem find (h : Agrees base c m) (lead : Bytes) :
    (c.find lead).toList.map (fun e => (e.1, e.2.bytes)) =
      m.toList.filter fun e => lead.isPrefixOf e.1 := by
  have heq : (c.find lead).mapValues Item.bytes = m.filterKeys lead.isPrefixOf := by
    apply SortedMap.ext
    intro k
    rw [SortedMap.get?_mapValues, get?_find, SortedMap.get?_filterKeys]
    split
    · exact h.lookup k
    · rfl
  exact congrArg SortedMap.toList heq

theorem add (h : Agrees base c m) (key : Key) (item : Item) :
    c.add key item =
      if m.contains key.bytes then raise (.duplicateKey key) else .ok (c.put key item) := by
  rw [Cache.add, h.contains key]

theorem touch (h : Agrees base c m) {key : Key} {make : Outcome Item} {held : Item} {c' : Cache}
    (htouch : c.touch key make = .ok (held, c')) :
    m.get? key.bytes = some held.bytes ∨ m.get? key.bytes = none ∧ make = .ok held := by
  rw [← h.get? key]
  rcases (touch_ok htouch).2 with hget | ⟨hget, hmake⟩ <;> rw [hget]
  · exact .inl rfl
  · exact .inr ⟨rfl, hmake⟩

theorem touchValue (h : Agrees base c m) {α : Type} [Storable α] [LawfulStorable α] {key : Key}
    {make : Outcome α} {held : α} {c' : Cache} (htouch : c.touchValue key make = (.ok held, c')) :
    (∃ b, m.get? key.bytes = some b ∧ Storable.decode b = .ok held) ∨
      m.get? key.bytes = none ∧ make = .ok held := by
  rw [← h.get? key]
  rcases (touchValue_ok htouch).2 with ⟨item, hget, hread⟩ | ⟨hget, hmake⟩ <;> rw [hget]
  · exact .inl ⟨item.bytes, rfl, Item.decode_of_read hread⟩
  · exact .inr ⟨rfl, hmake⟩

theorem commit (h : Agrees base c m) : base.commit c.changes = m := by
  apply SortedMap.ext
  intro k
  rw [← h.base_eq, get?_commit_changes, h.lookup]

end Agrees

/-- Only what the snapshot has is deleted from the store. -/
theorem contains_of_deleted {c : Cache} {k : Bytes} (h : c.changes.get? k = some none) :
    c.base.contains k = true := by
  rw [changes, SortedMap.get?_mapValues, Option.map_eq_some_iff] at h
  obtain ⟨t, ht, hshown⟩ := h
  have hstate : t.state ≠ .added := by
    rintro hadded
    simp [Tracked.shown, hadded] at hshown
  rw [SortedMap.contains, Option.isSome_iff_ne_none]
  exact fun hnone => hstate ((c.fits k t ht).2 hnone)

/-! ## The cache and the map -/

/-- A cache over `base` that answers every question as a map does. -/
structure Mirrors (base : Store) (c : Cache) (m : Store) : Prop where
  get? (key : Key) : (c.get? key).map Item.bytes = m.get? key.bytes
  contains (key : Key) : c.contains key = m.contains key.bytes
  /-- A scan finds the pairs of the map that have the start. -/
  find (lead : Bytes) : (c.find lead).toList.map (fun e => (e.1, e.2.bytes)) =
    m.toList.filter fun e => lead.isPrefixOf e.1
  ascending (lead : Bytes) : (c.find lead).toList.Pairwise fun a b => compare a.1 b.1 = .lt
  /-- A key can be added unless the map has it. -/
  add (key : Key) (item : Item) : c.add key item =
    if m.contains key.bytes then raise (.duplicateKey key) else .ok (c.put key item)
  /-- What is handed out is what the map has, or else what is made. -/
  touch {key : Key} {make : Outcome Item} {held : Item} {c' : Cache} :
    c.touch key make = .ok (held, c') →
    m.get? key.bytes = some held.bytes ∨ m.get? key.bytes = none ∧ make = .ok held
  touchValue {α : Type} [Storable α] [LawfulStorable α] {key : Key} {make : Outcome α} {held : α}
    {c' : Cache} : c.touchValue key make = (.ok held, c') →
    (∃ b, m.get? key.bytes = some b ∧ Storable.decode b = .ok held) ∨
      m.get? key.bytes = none ∧ make = .ok held
  commit : base.commit c.changes = m
  deleted (k : Bytes) : c.changes.get? k = some none → base.contains k = true

/-- Whatever is done with a cache, it stays what a plain map is that the
same is done with. -/
theorem the_cache_mirrors_a_plain_map {base m : Store} {c : Cache} (h : Uses base c m) :
    Mirrors base c m := by
  have ha : Agrees base c m := .of_uses h
  exact
    { get? := ha.get?
      contains := ha.contains
      find := ha.find
      ascending := fun lead => (c.find lead).sorted
      add := ha.add
      touch := ha.touch
      touchValue := ha.touchValue
      commit := ha.commit
      deleted := fun k hk => ha.base_eq ▸ contains_of_deleted hk }

/-- A key whose item is no account. -/
def plainKey : Key := ⟨-6, 20, [1]⟩

/-- A store with the one key. -/
def plainStore : Store := SortedMap.empty.insert plainKey.bytes [1]

/-- An account is asked for in vain; then the key is deleted and added
again. -/
def replaced : Cache :=
  (((ofStore plainStore).put plainKey (.raw [1])).delete plainKey).put plainKey (.raw [7])

theorem replaced_mirrors : Uses plainStore replaced (SortedMap.empty.insert plainKey.bytes [7]) ∧
    Mirrors plainStore replaced (SortedMap.empty.insert plainKey.bytes [7]) := by
  have htouch : ∃ f, (ofStore plainStore).touchValue plainKey (.ok Account.zero) =
      (.error f, (ofStore plainStore).put plainKey (.raw [1])) := ⟨_, rfl⟩
  have hadd : (((ofStore plainStore).put plainKey (.raw [1])).delete plainKey).add plainKey
      (.raw [7]) = .ok replaced := rfl
  obtain ⟨f, htouch⟩ := htouch
  have huses : Uses plainStore replaced (SortedMap.empty.insert plainKey.bytes [7]) :=
    ((Uses.start.next (.misread _ htouch)).next (.delete _ _ plainKey)).next (.add _ hadd)
  exact ⟨huses, the_cache_mirrors_a_plain_map huses⟩

end Cache
end BlockLedger
