-- What a cache shows under a key. A value is shown by the item that holds
-- it and by the bytes that read back as it, so a commit changes no value:
-- it only turns held values into bytes.
import BlockLedger.Proofs.ReadBack
import BlockLedger.Proofs.Totals
import BlockLedger.Store.Cache

namespace BlockLedger

/-! ## Items that show a value -/

/-- A shape whose values are held as they are and read back from their
bytes. -/
class LawfulStorable (α : Type) [Storable α] : Prop where
  read_item (v : α) : (Storable.item v).read = .ok v
  decode_bytes (v : α) : Storable.decode (Storable.item v).bytes = .ok v
  item_of_held (item : Item) (v : α) : Storable.held item = some v → item = Storable.item v

instance : LawfulStorable BlockPointer where
  read_item _ := rfl
  decode_bytes := BlockPointer.decode_bytes
  item_of_held item _ h := by cases item <;> cases h; rfl

instance : LawfulStorable TransactionRecord where
  read_item _ := rfl
  decode_bytes := TransactionRecord.decode_bytes
  item_of_held item _ h := by cases item <;> cases h; rfl

instance : LawfulStorable Account where
  read_item _ := rfl
  decode_bytes := Account.decode_bytes
  item_of_held item _ h := by cases item <;> cases h; rfl

/-- An item shows a value if it holds it or has its bytes. -/
def Item.Shows {α : Type} [Storable α] (item : Item) (v : α) : Prop :=
  item = Storable.item v ∨ item = .raw (Storable.item v).bytes

namespace Item

variable {α : Type} [Storable α] {item : Item} {v w : α}

theorem shows_item (v : α) : (Storable.item v).Shows v := .inl rfl

theorem Shows.read [LawfulStorable α] (h : item.Shows v) : item.read = .ok v := by
  rcases h with rfl | rfl
  · exact LawfulStorable.read_item v
  · exact LawfulStorable.decode_bytes v

/-- The bytes of an item show what the item shows. -/
theorem Shows.raw (h : item.Shows v) : (Item.raw item.bytes).Shows v := by
  rcases h with rfl | rfl <;> exact .inr rfl

end Item

namespace Cache

/-! ## Look-ups by bytes -/

theorem get?_eq_lookup (c : Cache) (key : Key) : c.get? key = c.lookup key.bytes := rfl

/-- A scan finds what a look-up of each key with the given start finds. -/
theorem get?_find (c : Cache) (lead key : Bytes) :
    (c.find lead).get? key = if lead.isPrefixOf key then c.lookup key else none := by
  have hentries : SortedMap.find key (c.entries.startingWith lead).toList =
      if lead.isPrefixOf key then c.entries.get? key else none :=
    SortedMap.get?_startingWith c.entries lead key
  unfold find lookup
  rw [SortedMap.get?_foldl (fun m e k => get?_overlay m e.1 e.2.shown k) key
      (c.entries.startingWith lead).sorted, hentries, SortedMap.get?_mapValues, Store.scan,
      SortedMap.get?_startingWith]
  split
  · cases c.entries.get? key <;> rfl
  · rfl

/-! ## The keys of a table -/

section Tables

variable {owner : ContractId} {tag : UInt8} {c c' : Cache}

/-- Whatever starts like the keys of a table is a key of the table. -/
theorem exists_key_of_lead {k : Bytes} (h : (Key.lead owner tag).isPrefixOf k = true) :
    ∃ key : Key, key.owner = owner ∧ key.tag = tag ∧ key.bytes = k := by
  obtain ⟨rest, rfl⟩ := List.isPrefixOf_iff_prefix.1 h
  exact ⟨⟨owner, tag, rest⟩, rfl, rfl, rfl⟩

theorem lead_isPrefixOf_bytes (key : Key) :
    (Key.lead key.owner key.tag).isPrefixOf key.bytes = true :=
  List.isPrefixOf_iff_prefix.2 ⟨key.rest, rfl⟩

/-- Whatever a scan of a table finds is under a key of the table. -/
theorem exists_key_of_find {k : Bytes} {item : Item}
    (h : (c.find (Key.lead owner tag)).get? k = some item) :
    ∃ key : Key, key.owner = owner ∧ key.tag = tag ∧ c.get? key = some item := by
  rw [get?_find] at h
  split at h
  · rename_i hk
    obtain ⟨key, ho, ht, rfl⟩ := exists_key_of_lead hk
    exact ⟨key, ho, ht, h⟩
  · cases h

theorem get?_find_table (key : Key) (ho : key.owner = owner) (ht : key.tag = tag) :
    (c.find (Key.lead owner tag)).get? key.bytes = c.get? key := by
  rw [get?_find, ← ho, ← ht, if_pos (lead_isPrefixOf_bytes key), get?_eq_lookup]

/-- A scan of a table depends on the keys of the table alone. -/
theorem find_congr (h : ∀ key : Key, key.owner = owner → key.tag = tag → c.get? key = c'.get? key) :
    c.find (Key.lead owner tag) = c'.find (Key.lead owner tag) := by
  apply SortedMap.ext
  intro k
  rw [get?_find, get?_find]
  split
  · rename_i hk
    obtain ⟨key, ho, ht, rfl⟩ := exists_key_of_lead hk
    exact h key ho ht
  · rfl

theorem find_put (key : Key) (ho : key.owner = owner) (ht : key.tag = tag) (item : Item) :
    (c.put key item).find (Key.lead owner tag) =
      (c.find (Key.lead owner tag)).insert key.bytes item := by
  apply SortedMap.ext
  intro k
  rw [SortedMap.get?_insert, get?_find, get?_find]
  split
  · rename_i hk
    obtain ⟨key', _, _, rfl⟩ := exists_key_of_lead hk
    simp only [← get?_eq_lookup, get?_put, Key.bytes_inj]
  · rename_i hk
    have hne : k ≠ key.bytes := by
      rintro rfl
      exact hk (by rw [← ho, ← ht]; exact lead_isPrefixOf_bytes key)
    rw [if_neg hne]

theorem find_delete (key : Key) :
    (c.delete key).find (Key.lead owner tag) =
      (c.find (Key.lead owner tag)).erase key.bytes := by
  apply SortedMap.ext
  intro k
  rw [SortedMap.get?_erase, get?_find, get?_find]
  split
  · rename_i hk
    obtain ⟨key', _, _, rfl⟩ := exists_key_of_lead hk
    simp only [← get?_eq_lookup, get?_delete, Key.bytes_inj]
  · simp

end Tables

/-! ## Touched keys -/

theorem put_put (c : Cache) (key : Key) (a b : Item) : (c.put key a).put key b = c.put key b := by
  have hwritten (stored : Option Bytes) (old : Option Tracked) :
      Tracked.written stored (some (Tracked.written stored old a)) b =
        Tracked.written stored old b := by
    rcases old with _ | ⟨i, _ | _ | _⟩
    · cases stored <;> rfl
    all_goals rfl
  simp [put, track, overlay, hwritten, SortedMap.get?_insert, SortedMap.insert_insert]

section Touches

variable {α : Type} [Storable α] (c : Cache) (key : Key) (make : Outcome α)

/-- A touched key is written, if at all; no other key is. -/
theorem touchValue_cases :
    (c.touchValue key make).2 = c ∨ ∃ item, (c.touchValue key make).2 = c.put key item := by
  unfold touchValue touch
  rcases c.get? key with _ | item
  · rcases make with e | v
    · exact .inl rfl
    · simp only [Except.map]
      split
      · exact .inr ⟨_, put_put _ _ _ _⟩
      · exact .inr ⟨_, rfl⟩
  · simp only
    split
    · exact .inr ⟨_, put_put _ _ _ _⟩
    · exact .inr ⟨_, rfl⟩

theorem base_touchValue : (c.touchValue key make).2.base = c.base := by
  rcases touchValue_cases c key make with h | ⟨item, h⟩ <;> rw [h]
  rfl

variable {key}

theorem get?_touchValue_of_ne {key' : Key} (h : key' ≠ key) :
    (c.touchValue key make).2.get? key' = c.get? key' := by
  rcases touchValue_cases c key make with ht | ⟨item, ht⟩ <;> rw [ht]
  rw [get?_put, if_neg h]

end Touches

/-! ## Commits -/

/-- The cache over the store that has taken the writes of a cache in. -/
def stored (c : Cache) : Cache := .ofStore (c.base.commit c.changes)

/-- A commit writes the bytes of every item. -/
theorem get?_commit_changes (c : Cache) (k : Bytes) :
    (c.base.commit c.changes).get? k = (c.lookup k).map Item.bytes := by
  rw [Store.get?_commit, changes, SortedMap.get?_mapValues, lookup]
  cases c.entries.get? k with
  | none => simp [Tracked.seen, Function.comp_def, Item.bytes]
  | some t => cases h : t.shown <;> simp [Tracked.seen, h]

theorem lookup_stored (c : Cache) (k : Bytes) :
    c.stored.lookup k = (c.lookup k).map fun item => .raw item.bytes := by
  have hbase : c.stored.lookup k = ((c.base.commit c.changes).get? k).map .raw := rfl
  rw [hbase, get?_commit_changes, Option.map_map]
  rfl

theorem get?_stored (c : Cache) (key : Key) :
    c.stored.get? key = (c.get? key).map fun item => .raw item.bytes :=
  lookup_stored c key.bytes

theorem find_stored (c : Cache) (lead : Bytes) :
    c.stored.find lead = (c.find lead).mapValues fun item => .raw item.bytes := by
  apply SortedMap.ext
  intro k
  rw [SortedMap.get?_mapValues, get?_find, get?_find, lookup_stored]
  split <;> rfl

/-! ## Caches that show a value -/

section Shows

variable {α : Type} [Storable α] {c c' : Cache} {key : Key}

/-- A cache shows a value under a key, or shows that there is none. -/
def Shows (c : Cache) (key : Key) : Option α → Prop
  | none => c.get? key = none
  | some v => ∃ item, c.get? key = some item ∧ item.Shows v

theorem shows_of_get?_eq {v : Option α} (h : c'.get? key = c.get? key) (hc : c.Shows key v) :
    c'.Shows key v := by
  cases v with
  | none => exact h.trans hc
  | some v =>
    obtain ⟨item, hi, hs⟩ := hc
    exact ⟨item, h.trans hi, hs⟩

theorem Shows.stored {v : Option α} (h : c.Shows key v) : c.stored.Shows key v := by
  cases v with
  | none =>
    have h : c.get? key = none := h
    change c.stored.get? key = none
    rw [get?_stored, h]
    rfl
  | some v =>
    obtain ⟨item, hi, hs⟩ := h
    exact ⟨.raw item.bytes, by rw [get?_stored, hi]; rfl, hs.raw⟩

theorem shows_put (v : α) : (c.put key (Storable.item v)).Shows key (some v) :=
  ⟨Storable.item v, by rw [get?_put, if_pos rfl], Item.shows_item v⟩

variable [LawfulStorable α]

theorem Shows.read? {v : Option α} (h : c.Shows key v) : c.read? key = .ok v := by
  unfold Cache.read?
  cases v with
  | none => rw [show c.get? key = none from h]
  | some v =>
    obtain ⟨item, hi, hs⟩ := h
    simp only [hi, hs.read]

/-- A touched value is held from then on. -/
theorem touchValue_some {v : α} (h : c.Shows key (some v)) (make : Outcome α) :
    c.touchValue key make = (.ok v, c.put key (Storable.item v)) := by
  obtain ⟨item, hi, hs⟩ := h
  simp only [touchValue, touch, hi, hs.read, put_put]

/-- A value that is not there is made. -/
theorem touchValue_none (h : c.get? key = none) (v : α) :
    c.touchValue key (.ok v) = (.ok v, c.put key (Storable.item v)) := by
  simp only [touchValue, touch, h, Except.map, LawfulStorable.read_item, put_put]

end Shows

end Cache
end BlockLedger
