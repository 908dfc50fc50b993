-- What a node may propose. Its pool is checked against the chain as it was
-- when each transaction came in, and anew after every block, so the first
-- transactions of the pool always make a block that the chain takes up, and
-- the pool lets go of all of them.
import BlockLedger.Proofs.Acceptance
import BlockLedger.Proofs.Solvency

namespace BlockLedger

/-! ## Chains with a pool -/

/-- The chains that start on an empty store, with their entries and with the
pool that goes with them. Transactions are offered and taken out in any order,
and the pool is updated after every block that the chain takes up. -/
inductive Node (settings : Settings) (capacity : Nat) : Chain Store → List Entry → Pool → Prop where
  | start {genesis : Block} {c : Chain Store} :
    Chain.genesis settings = .ok genesis → Chain.start SortedMap.empty settings = .ok c →
    Node settings capacity c [⟨genesis, []⟩] (.empty capacity)
  | offer {c : Chain Store} {past : List Entry} {p : Pool} (t : Transaction) :
    Node settings capacity c past p →
    Node settings capacity c past (p.offer t c.snapshot settings).2
  | remove {c : Chain Store} {past : List Entry} {p : Pool} (hash : Hash256) :
    Node settings capacity c past p → Node settings capacity c past (p.remove hash).2
  | persist {σ : Type} {exec : Executor σ} {s s' : σ} {c c' : Chain Store} {past : List Entry}
    {p : Pool} {block : Block} {applied : Persisted} :
    Node settings capacity c past p → exec.OnlyCalls →
    c.persist exec s block = (.ok (applied, c'), s') →
    Node settings capacity c' (past ++ [⟨block, c.reports exec s block⟩])
      (p.update block c'.snapshot settings).2

section Nodes

variable {settings : Settings} {capacity : Nat} {c : Chain Store} {past : List Entry} {p : Pool}

theorem Node.grown (h : Node settings capacity c past p) : Grown settings c past := by
  induction h with
  | start hg hstart => exact .start hg hstart
  | offer _ _ ih => exact ih
  | remove _ _ ih => exact ih
  | persist _ hexec hp ih => exact ih.persist hexec hp

/-- At any time every sender holds the fees that it has pooled. -/
theorem Node.solvent (h : Node settings capacity c past p) : p.Solvent capacity c.snapshot := by
  induction h with
  | start hg hstart => exact .empty (.of_grown (.start hg hstart)) capacity
  | offer t hnode ih =>
    obtain ⟨verdict, p', hr, h'⟩ := ih.offer (.of_grown hnode.grown) t settings
    rwa [hr]
  | remove hash _ ih =>
    obtain ⟨gone, p', hr, h'⟩ := ih.remove hash
    rwa [hr]
  | persist hnode hexec hp ih =>
    -- The balances are other ones now, and so is the pool.
    have hnext := hnode.grown.persist hexec hp
    obtain ⟨gone, p', hr, h'⟩ := ih.toKept.solvent_update (.of_grown hnext) _ settings
    rwa [hr]

end Nodes

/-! ## Blocks that pass every check -/

namespace Block

variable {b : Block} {tip : Option BlockPointer} {validators : Nat}

theorem check_of (hlink : b.checkLink tip = .ok ()) (hroot : b.checkMerkleRoot = .ok ())
    (heach : b.checkTransactions = .ok ()) (hprimary : b.checkPrimary validators = .ok ()) :
    b.check tip validators = .ok () := by
  unfold check
  rw [hlink, ok_bind, hroot, ok_bind, heach, ok_bind, hprimary]

/-- The block after the tip links to it. -/
theorem checkLink_of {p : BlockPointer} (hindex : b.index.toNat = p.index.toNat + 1)
    (hparent : b.header.parent = p.hash) : b.checkLink (some p) = .ok () := by
  unfold checkLink
  dsimp only
  rw [if_neg (not_not_intro hindex), if_neg (not_not_intro hparent)]

theorem checkEach_of {index : UInt32} {seen : List Hash256} {ts : List Transaction}
    (hd : (ts.map (·.hash)).Nodup) (hnew : ∀ t ∈ ts, t.hash ∉ seen)
    (hsigned : ∀ t ∈ ts, t.signers ≠ []) : checkEach index seen ts = .ok () := by
  induction ts generalizing seen with
  | nil => rfl
  | cons t rest ih =>
    obtain ⟨hfirst, hd⟩ := List.nodup_cons.1 hd
    unfold checkEach
    dsimp only
    rw [if_neg (hnew t List.mem_cons_self), if_neg (hsigned t List.mem_cons_self)]
    refine ih hd (fun u hu => ?_) fun u hu => hsigned u (List.mem_cons_of_mem t hu)
    rw [List.mem_cons]
    rintro (heq | hseen)
    · exact hfirst (List.mem_map.2 ⟨u, hu, heq⟩)
    · exact hnew u (List.mem_cons_of_mem t hu) hseen

end Block

/-! ## Pooled transactions in a block -/

namespace Pool

variable {p : Pool} {t : Transaction} {c : Cache} {capacity : Nat}

theorem Sound.get?_of_mem_take (h : p.Sound none) {n : Nat} (ht : t ∈ p.take n) :
    p.get? t.hash = some t ∧ checkAlone t = .succeed := by
  obtain ⟨hash, hget⟩ := (h.mem_transactions_iff t).1 (List.mem_of_mem_take ht)
  obtain ⟨-, hhash, halone⟩ := h.get?_eq_some hget
  rw [hhash]
  exact ⟨hget, halone⟩

/-- No two pooled transactions have the same hash. -/
theorem Sound.nodup_take (h : p.Sound none) (n : Nat) : ((p.take n).map (·.hash)).Nodup := by
  refine List.Nodup.map_on ?_ (h.nodup_transactions.sublist (List.take_sublist n _))
  intro t ht u hu heq
  have hget := (h.get?_of_mem_take ht).1
  rw [heq, (h.get?_of_mem_take hu).1] at hget
  exact (Option.some.inj hget).symm

theorem Sound.filterMap_take (h : p.Sound none) (n : Nat) :
    ((p.take n).map (·.hash)).filterMap p.get? = p.take n := by
  rw [List.filterMap_map]
  exact (List.filterMap_congr fun t ht => (h.get?_of_mem_take ht).1).trans List.filterMap_some

/-- The senders cover any first transactions of the pool together. -/
theorem Solvent.covers_take (h : p.Solvent capacity c) (n : Nat) (sender : Hash160) :
    Gas.Covers c (p.take n) sender := by
  obtain ⟨held, hheld, hcovered⟩ := h.covered sender
  have hle := sum_owes_le_feesOf p (h.sound.nodup_take n) sender
  rw [h.sound.filterMap_take] at hle
  exact ⟨held, hheld, Nat.le_trans hle hcovered⟩

end Pool

/-! ## Proposals -/

/-- A block proposes the first transactions of a pool after the tip of a
chain. -/
structure Proposes (c : Chain Store) (p : Pool) (n : Nat) (block : Block) : Prop where
  few : n ≤ c.settings.maxTransactionsPerBlock.toNat
  transactions : block.transactions = p.take n
  /-- The tip is not at the last index there is. -/
  next : ∃ height, c.height = .ok height ∧ block.index.toNat = height.toNat + 1
  parent : c.tipHash = .ok block.header.parent
  root : block.header.merkleRoot = merkleRoot (block.transactions.map (·.hash))
  primary : block.header.primary.toNat < c.settings.validatorsCount
  /-- No stored block has the same hash. -/
  fresh : Ledger.containsBlock c.snapshot block.hash = false

namespace Proposes

variable {settings : Settings} {capacity n : Nat} {c : Chain Store} {past : List Entry} {p : Pool}
  {block : Block}

/-- A proposal fits the last block. -/
theorem check (h : Proposes c p n block) (hc : Chronicle c past) {last : Entry}
    (hlast : past.getLast? = some last) (hp : p.Sound none) :
    block.check (past.getLast?.map Entry.pointer) c.settings.validatorsCount = .ok () := by
  obtain ⟨hhash, hindex⟩ := hc.tip_eq hlast
  obtain ⟨height, hheight, hnext⟩ := h.next
  have hparent := h.parent
  rw [hindex] at hheight
  cases hheight
  rw [hhash] at hparent
  rw [hlast]
  apply Block.check_of
  · exact Block.checkLink_of hnext (Except.ok.inj hparent).symm
  · exact if_pos h.root
  · unfold Block.checkTransactions
    rw [h.transactions]
    refine Block.checkEach_of (hp.nodup_take n) (fun _ _ => List.not_mem_nil) fun t ht hnone => ?_
    obtain ⟨sender, hs⟩ := Pool.exists_sender (hp.get?_of_mem_take ht).2
    rw [Transaction.sender?, Transaction.accounts, hnone] at hs
    cases hs
  · exact if_pos h.primary

theorem accept (h : Proposes c p n block) (hc : Chronicle c past) {last : Entry}
    (hlast : past.getLast? = some last) (hp : p.Sound none) : c.accept block = .ok () := by
  have hfew : block.transactions.length ≤ c.settings.maxTransactionsPerBlock.toNat := by
    rw [h.transactions, Pool.take, List.length_take]
    exact Nat.le_trans (Nat.min_le_left _ _) h.few
  rw [Chain.accept_eq hc, if_neg (Nat.not_lt.2 hfew), h.check hc hlast hp]

/-- Nothing stands in the way of a proposal. -/
theorem clears (h : Proposes c p n block) (hc : Chronicle c past)
    (hp : p.Solvent capacity c.snapshot) : c.Clears past block where
  covered sender := by
    rw [h.transactions]
    exact hp.covers_take n sender
  fresh e he heq := by
    have hstored := hc.tells.blocks block.hash
    have hnone := h.fresh
    unfold Ledger.containsBlock Cache.contains at hnone
    rw [Option.isSome_eq_false_iff, Option.isNone_iff_eq_none] at hnone
    rw [hnone, eq_comm, Option.map_eq_none_iff, List.find?_eq_none] at hstored
    exact hstored e.block (List.mem_map_of_mem (List.mem_reverse.2 he)) (by simpa using heq)

end Proposes

/-! ## A small proposal -/

namespace Sample

/-- A network where the fees of a transaction can be paid. -/
def wealthy : Settings := { settings with initialGasDistribution := 100000000 }

def founded : Chain Store := given (Chain.start SortedMap.empty wealthy) ⟨.empty, wealthy⟩

/-- A transaction that pays for its size. -/
def payment : Transaction :=
  (Transaction.ofContent? ⟨0, 1, 5, 1000000, 10, [⟨holder, 1⟩], [], [1]⟩).getD default

def pool : Pool := ((Pool.empty 2).offer payment founded.snapshot wealthy).2

/-- The block that proposes the payment. -/
def proposal : Block :=
  ⟨⟨0, genesis.hash, merkleRoot [payment.hash], 1, 0, 1, 0, holder⟩, [payment]⟩

theorem node : Node wealthy 2 founded [⟨genesis, []⟩] pool := by
  have hstart : (Chain.start (SortedMap.empty : Store) wealthy).isOk = true := by decide +kernel
  exact .offer payment (.start genesis_eq (eq_given hstart))

theorem tip_founded : founded.tipHash = .ok genesis.hash ∧ founded.height = .ok genesis.index :=
  node.grown.chronicle.tip_eq (e := ⟨genesis, []⟩) rfl

theorem proposes : Proposes founded pool 1 proposal where
  few := by decide +kernel
  transactions := by decide +kernel
  next := ⟨_, tip_founded.2, by decide +kernel⟩
  parent := tip_founded.1
  root := rfl
  primary := by decide +kernel
  fresh := by decide +kernel

end Sample

/-! ## What becomes of proposals -/

/-- At any time, after any offers, removals and blocks, a block that proposes
the first transactions of the pool is taken up, and the update of the pool
succeeds and lets go of all of them. -/
theorem a_proposal_is_taken_up {settings : Settings} {capacity n : Nat} {c : Chain Store}
    {past : List Entry} {p : Pool} {block : Block} (h : Node settings capacity c past p)
    (hb : Proposes c p n block) {σ : Type} (s : σ) :
    ∃ taken gone p', (c.persist .halting s block).1 = .ok taken ∧
      p.update block taken.2.snapshot settings = (.ok gone, p') ∧
      ∀ t ∈ p.take n, t.hash ∈ gone ∧ p'.contains t.hash = false := by
  have hgrown := h.grown
  have hsolvent := h.solvent
  obtain ⟨last, hlast⟩ := hgrown.exists_last
  have haccept := hb.accept hgrown.chronicle hlast hsolvent.sound
  rcases Chain.persist_halting hgrown haccept s with ⟨⟨⟨applied, c'⟩, hr⟩, -⟩ | ⟨-, hnot⟩
  · have hnext := hgrown.persist Executor.halting_onlyCalls (Prod.ext hr rfl)
    obtain ⟨gone, p', hupdate, -⟩ := hsolvent.toKept.solvent_update (.of_grown hnext) block settings
    refine ⟨(applied, c'), gone, p', hr, hupdate, fun t ht => ?_⟩
    have hin : p.contains t.hash = true := by
      obtain ⟨item, hitem, -⟩ := Option.map_eq_some_iff.1 (hsolvent.sound.get?_of_mem_take ht).1
      exact SortedMap.contains_iff.2 ⟨item, hitem⟩
    rw [← hb.transactions] at ht
    obtain ⟨hout, htold⟩ := hsolvent.toKept.update_leaves hupdate ht
    exact ⟨htold hin, hout⟩
  · exact absurd (hb.clears hgrown.chronicle hsolvent) hnot

/-- The payment goes from the pool into a block. -/
theorem sample_proposal : Node Sample.wealthy 2 Sample.founded [⟨Sample.genesis, []⟩] Sample.pool ∧
    Sample.pool.take 1 = [Sample.payment] ∧
    ∃ taken gone p',
      (Sample.founded.persist (.halting : Executor Unit) () Sample.proposal).1 = .ok taken ∧
      Sample.pool.update Sample.proposal taken.2.snapshot Sample.wealthy = (.ok gone, p') ∧
      ∀ t ∈ Sample.pool.take 1, t.hash ∈ gone ∧ p'.contains t.hash = false :=
  ⟨Sample.node, Sample.proposes.transactions.symm,
    a_proposal_is_taken_up Sample.node Sample.proposes ()⟩

end BlockLedger
