-- The pool after a block. Transactions that the block included, or that
-- are in conflict with it, leave; the others are verified anew, the
-- highest priority first.
import BlockLedger.Pool.Joining

namespace BlockLedger.Pool

/-- Whether the sender of a pooled transaction is one of the signers. -/
def isSignedBySender (p : Pool) (signers : List Hash160) (hash : Hash256) : Bool :=
  (p.get? hash).any fun t => t.sender?.any (signers.contains ·)

/-- What leaves the pool because a block includes a transaction: itself,
the transactions that it declares if their sender signed it, and those
that declare it. -/
def leaving (p : Pool) (included : Transaction) : List Hash256 :=
  included.hash ::
    included.declared.filter (p.isSignedBySender included.accounts) ++ p.declarers included.hash

/-- Takes out what leaves because of each included transaction, and tells
what left. -/
def removeIncluded (p : Pool) : List Transaction → Outcome (List Hash256) × Pool
  | [] => (.ok [], p)
  | included :: rest =>
    match p.removeAll (p.leaving included) with
    | (.error f, p) => (.error f, p)
    | (.ok gone, p) =>
      match p.removeIncluded rest with
      | (.error f, p) => (.error f, p)
      | (.ok more, p) => (.ok (gone ++ more), p)

/-- The pooled transactions with their priorities, highest first. -/
def ranked (p : Pool) : List Pooled :=
  p.verified.values.mergeSort fun a b => (compare b.priority a.priority).isLE

/-- Adds transactions in turn, and tells which of them were refused. -/
def reenter (p : Pool) (c : Cache) (settings : Settings) :
    List Pooled → Outcome (List Hash256) × Pool
  | [] => (.ok [], p)
  | item :: rest =>
    match p.offer item.transaction c settings with
    | (.error f, p) => (.error f, p)
    | (.ok verdict, p) =>
      match p.reenter c settings rest with
      | (.error f, p) => (.error f, p)
      | (.ok more, p) => (.ok (if verdict = .succeed then more else item.priority.hash :: more), p)

/-- Brings the pool in line with a new block, and tells which transactions
left it. -/
def update (p : Pool) (block : Block) (c : Cache) (settings : Settings) :
    Outcome (List Hash256) × Pool :=
  match p.removeIncluded block.transactions with
  | (.error f, p) => (.error f, p)
  | (.ok gone, p) =>
    match (empty p.capacity).reenter c settings p.ranked with
    | (.error f, p) => (.error f, p)
    | (.ok refused, p) => (.ok (gone ++ refused), p)

end BlockLedger.Pool
