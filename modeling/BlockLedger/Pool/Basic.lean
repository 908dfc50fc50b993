-- The pool of verified transactions that wait for a block. Beside the
-- transactions it keeps their order, the conflicts that they declare and
-- the book of their fees.
import BlockLedger.Pool.FeeBook
import BlockLedger.Pool.Priority
import BlockLedger.Pool.Verdict

namespace BlockLedger

structure Pooled where
  transaction : Transaction
  priority : Priority
deriving DecidableEq

structure Pool where
  capacity : Nat
  /-- The pooled transactions by hash. -/
  verified : SortedMap Hash256 Pooled
  /-- Their priorities, lowest first. -/
  sorted : SortedSet Priority
  /-- For a declared hash, the pooled transactions that declare it. -/
  conflicts : SortedMap Hash256 (SortedSet Hash256)
  book : FeeBook

namespace Pool

def empty (capacity : Nat) : Pool := ⟨capacity, .empty, .empty, .empty, .empty⟩

/-- The empty pool of a network. -/
def ofSettings (settings : Settings) : Pool := empty settings.memoryPoolMaxTransactions

/-! ## Reading -/

def size (p : Pool) : Nat := p.verified.size

def isEmpty (p : Pool) : Bool := p.verified.isEmpty

def contains (p : Pool) (hash : Hash256) : Bool := p.verified.contains hash

def get? (p : Pool) (hash : Hash256) : Option Transaction :=
  (p.verified.get? hash).map (·.transaction)

/-- The pooled fees of a sender. -/
def pooledFee (p : Pool) (sender : Hash160) : Amount := p.book.total sender

/-- The pooled transactions, highest priority first. -/
def transactions (p : Pool) : List Transaction :=
  p.sorted.keys.reverse.filterMap fun priority => p.get? priority.hash

/-- The first `max` transactions, for the next block. -/
def take (p : Pool) (max : Nat) : List Transaction := p.transactions.take max

/-- The pooled transactions that declare a conflict with a hash. -/
def declarers (p : Pool) (hash : Hash256) : List Hash256 :=
  match p.conflicts.get? hash with
  | some s => s.keys
  | none => []

/-! ## Single changes -/

/-- Adds a declarer to a declared hash. -/
def declare (hash : Hash256) (conflicts : SortedMap Hash256 (SortedSet Hash256))
    (declared : Hash256) : SortedMap Hash256 (SortedSet Hash256) :=
  conflicts.insert declared (((conflicts.get? declared).getD .empty).insert hash ())

/-- Takes a declarer off a declared hash, and the hash with the last one. -/
def retract (hash : Hash256) (conflicts : SortedMap Hash256 (SortedSet Hash256))
    (declared : Hash256) : SortedMap Hash256 (SortedSet Hash256) :=
  match conflicts.get? declared with
  | none => conflicts
  | some s =>
    let s := s.erase hash
    if s.isEmpty then conflicts.erase declared else conflicts.insert declared s

/-- Puts a booked transaction in. -/
def insert (p : Pool) (t : Transaction) : Pool :=
  let priority := Priority.of t t.hash
  { p with
    verified := p.verified.insert t.hash ⟨t, priority⟩
    sorted := p.sorted.insert priority ()
    conflicts := t.declared.foldl (declare t.hash) p.conflicts }

/-- Takes a transaction out, with everything that is kept about it. -/
def remove (p : Pool) (hash : Hash256) : Outcome (Option Transaction) × Pool :=
  match p.verified.get? hash with
  | none => (.ok none, p)
  | some item =>
    let p := { p with
      verified := p.verified.erase hash
      sorted := p.sorted.erase item.priority
      conflicts := item.transaction.declared.foldl (retract hash) p.conflicts }
    match p.book.remove item.transaction with
    | .error f => (.error f, p)
    | .ok book => (.ok (some item.transaction), { p with book := book })

/-- Takes transactions out in turn and tells which of them were in. -/
def removeAll (p : Pool) : List Hash256 → Outcome (List Hash256) × Pool
  | [] => (.ok [], p)
  | hash :: rest =>
    match p.remove hash with
    | (.error f, p) => (.error f, p)
    | (.ok gone, p) =>
      match p.removeAll rest with
      | (.error f, p) => (.error f, p)
      | (.ok more, p) => (.ok (if gone.isSome then hash :: more else more), p)

end Pool
end BlockLedger
