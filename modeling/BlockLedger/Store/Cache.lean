-- The cache that a block is applied in: a snapshot of the store with the
-- writes that are pending over it. What is tracked under a key says
-- whether the snapshot has the key, so a key that was added and deleted
-- again leaves no trace. Keeping a copy of the cache is how writes are
-- taken back.
import BlockLedger.Draft
import BlockLedger.Store.Basic

namespace BlockLedger

/-! ## Shapes of stored values -/

/-- A shape that a stored item can be read in. -/
class Storable (α : Type) where
  /-- The name of the shape in messages. -/
  shape : String
  decode : Bytes → Except CodecError α
  /-- The item that holds a value. -/
  item : α → Item
  /-- The value that an item holds in this shape. -/
  held : Item → Option α

instance : Storable BlockPointer where
  shape := "HashIndexState"
  decode := BlockPointer.decode
  item := .pointer
  held
    | .pointer v => some v
    | _ => none

instance : Storable TransactionRecord where
  shape := "TransactionState"
  decode := TransactionRecord.decode
  item := .transaction
  held
    | .transaction v => some v
    | _ => none

instance : Storable Account where
  shape := "AccountState"
  decode := Account.decode
  item := .account
  held
    | .account v => some v
    | _ => none

/-- The value of an item: read from its bytes, or held in this shape. -/
def Item.read {α : Type} [Storable α] : Item → Except CodecError α
  | .raw b => Storable.decode b
  | item =>
    match Storable.held item with
    | some v => .ok v
    | none => .error (.unexpectedShape (Storable.shape α))

/-! ## Tracked items -/

/-- How a tracked item stands to the snapshot. -/
inductive TrackState where
  | added | changed | deleted
deriving DecidableEq

/-- An item that was written. One that was deleted keeps the item that it
had last. -/
structure Tracked where
  item : Item
  state : TrackState
deriving DecidableEq

namespace Tracked

/-- The item that is shown: none if it was deleted. -/
def shown (t : Tracked) : Option Item :=
  match t.state with
  | .deleted => none
  | _ => some t.item

/-- The item that is seen under a key: the one that is tracked, or else
what the snapshot has. -/
def seen (stored : Option Bytes) : Option Tracked → Option Item
  | some t => t.shown
  | none => stored.map .raw

/-- Whether what is tracked under a key fits what the snapshot has under
it: it counts as added exactly if the snapshot has nothing. -/
def Fits (stored : Option Bytes) (t : Tracked) : Prop := t.state = .added ↔ stored = none

/-- What is tracked once an item is written. -/
def written (stored : Option Bytes) (old : Option Tracked) (item : Item) : Tracked :=
  match old, stored with
  | some ⟨_, .deleted⟩, _ => ⟨item, .changed⟩
  | some t, _ => { t with item }
  | none, some _ => ⟨item, .changed⟩
  | none, none => ⟨item, .added⟩

/-- What is tracked once a key is deleted; one that was added leaves no
trace, and neither does one that was never there. -/
def deleted (stored : Option Bytes) : Option Tracked → Option Tracked
  | some ⟨_, .added⟩ => none
  | some t => some { t with state := .deleted }
  | none => stored.map fun b => ⟨.raw b, .deleted⟩

section Laws

variable {stored : Option Bytes} {old : Option Tracked}

theorem fits_written (h : ∀ t, old = some t → t.Fits stored) (item : Item) :
    (written stored old item).Fits stored := by
  rcases old with _ | ⟨i, _ | _ | _⟩
  · cases stored <;> simp [written, Fits]
  all_goals simpa [written, Fits] using h _ rfl

theorem fits_deleted (h : ∀ t, old = some t → t.Fits stored) :
    ∀ t, deleted stored old = some t → t.Fits stored := by
  rcases old with _ | ⟨i, _ | _ | _⟩
  · cases stored <;> simp [deleted, Fits]
  · simp [deleted]
  all_goals simpa [deleted, Fits] using h _ rfl

theorem seen_written (item : Item) :
    seen stored (some (written stored old item)) = some item := by
  rcases old with _ | ⟨i, _ | _ | _⟩
  · cases stored <;> rfl
  all_goals rfl

/-- A deleted key is not seen, be it tracked still or not. -/
theorem seen_deleted (h : ∀ t, old = some t → t.Fits stored) :
    seen stored (deleted stored old) = none := by
  rcases old with _ | ⟨i, _ | _ | _⟩
  · cases stored <;> rfl
  · have hnone : stored = none := (h _ rfl).1 rfl
    rw [hnone]
    rfl
  all_goals rfl

end Laws

end Tracked

/-! ## The cache -/

/-- A snapshot with the items that were written since it was taken. -/
structure Cache where
  base : Store
  entries : SortedMap Bytes Tracked
  fits : ∀ key t, entries.get? key = some t → t.Fits (base.get? key)

namespace Cache

/-- A cache without pending writes. -/
def ofStore (base : Store) : Cache := ⟨base, .empty, fun _ _ h => nomatch h⟩

/-! ## Reading -/

/-- The item under a key that is given by its bytes. -/
def lookup (c : Cache) (key : Bytes) : Option Item :=
  Tracked.seen (c.base.get? key) (c.entries.get? key)

/-- The item under a key. -/
def get? (c : Cache) (key : Key) : Option Item := c.lookup key.bytes

def contains (c : Cache) (key : Key) : Bool := (c.get? key).isSome

/-- The value under a key in the shape that is asked for. -/
def read? {α : Type} [Storable α] (c : Cache) (key : Key) : Outcome (Option α) :=
  match c.get? key with
  | none => .ok none
  | some item =>
    match (item.read : Except CodecError α) with
    | .ok v => .ok (some v)
    | .error e => corrupted key e

/-- An entry of a map replaced by what was written. -/
def overlay {ν : Type} (m : SortedMap Bytes ν) (key : Bytes) : Option ν → SortedMap Bytes ν
  | some v => m.insert key v
  | none => m.erase key

theorem get?_overlay {ν : Type} (m : SortedMap Bytes ν) (key : Bytes) (written : Option ν)
    (k : Bytes) : (overlay m key written).get? k = if k = key then written else m.get? k := by
  cases written with
  | none => exact SortedMap.get?_erase m key k
  | some v => exact SortedMap.get?_insert m key k v

/-- The items whose key starts with `lead`, with the pending writes, in
key order. -/
def find (c : Cache) (lead : Bytes) : SortedMap Bytes Item :=
  (c.entries.startingWith lead).toList.foldl (fun m e => overlay m e.1 e.2.shown)
    ((c.base.scan lead).mapValues .raw)

/-- The number of keys with pending writes. -/
def pending (c : Cache) : Nat := c.entries.size

/-- What the cache writes to the store. -/
def changes (c : Cache) : ChangeSet := c.entries.mapValues fun t => t.shown.map Item.bytes

/-! ## Writing -/

/-- Tracks an item under a key, or no longer tracks the key. -/
def track (c : Cache) (key : Bytes) (tracked : Option Tracked)
    (h : ∀ t, tracked = some t → t.Fits (c.base.get? key)) : Cache where
  base := c.base
  entries := overlay c.entries key tracked
  fits k t ht := by
    rw [get?_overlay] at ht
    split at ht
    · rename_i hk
      exact hk ▸ h t ht
    · exact c.fits k t ht

/-- Puts an item under a key, whether it is there or not. -/
def put (c : Cache) (key : Key) (item : Item) : Cache :=
  c.track key.bytes
    (some (Tracked.written (c.base.get? key.bytes) (c.entries.get? key.bytes) item))
    fun _ h => Option.some.inj h ▸ Tracked.fits_written (c.fits key.bytes) item

/-- Adds a key that must not be there yet. -/
def add (c : Cache) (key : Key) (item : Item) : Outcome Cache :=
  if c.contains key then raise (.duplicateKey key) else .ok (c.put key item)

/-- Deletes a key, whether it is there or not. -/
def delete (c : Cache) (key : Key) : Cache :=
  c.track key.bytes (Tracked.deleted (c.base.get? key.bytes) (c.entries.get? key.bytes))
    (Tracked.fits_deleted (c.fits key.bytes))

/-- Writes a key as it is and hands out its item; `make` gives the item of
a key that is not there. -/
def touch (c : Cache) (key : Key) (make : Outcome Item) : Outcome (Item × Cache) :=
  match c.get? key with
  | some item => .ok (item, c.put key item)
  | none => make.map fun item => (item, c.put key item)

/-- Writes a key as it is and hands out its value, which is held from then
on in the shape that is asked for. A value that cannot be read is written
as it is. -/
def touchValue {α : Type} [Storable α] (c : Cache) (key : Key) (make : Outcome α) :
    Outcome α × Cache :=
  match c.touch key (make.map Storable.item) with
  | .error e => (.error e, c)
  | .ok (item, c) =>
    match (item.read : Except CodecError α) with
    | .ok v => (.ok v, c.put key (Storable.item v))
    | .error e => (corrupted key e, c)

/-! ## What each operation does to look-ups -/

theorem lookup_track (c : Cache) (key k : Bytes) (tracked : Option Tracked)
    (h : ∀ t, tracked = some t → t.Fits (c.base.get? key)) :
    (c.track key tracked h).lookup k =
      if k = key then Tracked.seen (c.base.get? key) tracked else c.lookup k := by
  simp only [lookup, track, get?_overlay]
  by_cases hk : k = key <;> simp [hk]

theorem lookup_put (c : Cache) (key : Key) (item : Item) (k : Bytes) :
    (c.put key item).lookup k = if k = key.bytes then some item else c.lookup k := by
  rw [put, lookup_track, Tracked.seen_written]

theorem lookup_delete (c : Cache) (key : Key) (k : Bytes) :
    (c.delete key).lookup k = if k = key.bytes then none else c.lookup k := by
  rw [delete, lookup_track, Tracked.seen_deleted (c.fits key.bytes)]

theorem get?_put (c : Cache) (key key' : Key) (item : Item) :
    (c.put key item).get? key' = if key' = key then some item else c.get? key' := by
  simp only [get?, lookup_put, Key.bytes_inj]

theorem get?_delete (c : Cache) (key key' : Key) :
    (c.delete key).get? key' = if key' = key then none else c.get? key' := by
  simp only [get?, lookup_delete, Key.bytes_inj]

end Cache
end BlockLedger
