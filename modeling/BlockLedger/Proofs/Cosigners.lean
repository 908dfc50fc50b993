-- Whose conflicts count. A declared conflict takes a pooled transaction out if
-- any of its signers signed the declaring one, since the chain marks every
-- signer and looks for the marks of all. That the block sweeps away only what
-- the sender signed makes no difference.
import Mathlib.Algebra.Order.BigOperators.Group.List
import Mathlib.Algebra.Order.Group.Nat
import BlockLedger.Proofs.Proposals
import BlockLedger.Proofs.Replacement
import BlockLedger.Proofs.Sweeping

namespace BlockLedger

/-! ## Old conflicts after a block -/

namespace Chronicle

variable {c c' : Chain Store} {past : List Entry} {last e : Entry} {hash : Hash256}
  {signers : List Hash160} {window : UInt32}

theorem height_le_next (h : Chronicle c past) (h' : Chronicle c' (past ++ [e])) (hne : past ≠ [])
    {height height' : UInt32} (hheight : c.height = .ok height)
    (hheight' : c'.height = .ok height') : height ≤ height' := by
  obtain ⟨last, hlast⟩ := Option.isSome_iff_exists.1 (List.getLast?_isSome.2 hne)
  rw [(h.tip_eq hlast).2] at hheight
  rw [(h'.tip_eq List.getLast?_concat).2] at hheight'
  cases hheight
  cases hheight'
  exact h'.index_le List.getLast?_concat (List.mem_append_left _ (List.mem_of_getLast? hlast))

/-- A window that ends at the next block holds no more of the old blocks. -/
theorem inWindow_of_next (h : Chronicle c past) (h' : Chronicle c' (past ++ [e]))
    (hlast : past.getLast? = some last) {e' : Entry} (he' : e' ∈ past)
    (hin : e'.inWindow e.block.index window = true) :
    e'.inWindow last.block.index window = true := by
  have hindex := h.index_last hlast
  have hnext := h'.index_last (e := e) List.getLast?_concat
  rw [List.length_append, List.length_singleton] at hnext
  rw [Entry.inWindow_iff] at hin ⊢
  exact ⟨h.index_le hlast he', by omega⟩

/-- A block makes no conflict show that it does not declare. -/
theorem hasConflict_of_next (h : Chronicle c past) (h' : Chronicle c' (past ++ [e]))
    (hne : past ≠ []) (hold : Ledger.hasConflict c.snapshot hash signers window = .ok false)
    (hno : ¬ e.block.DeclaresFor hash signers) :
    Ledger.hasConflict c'.snapshot hash signers window = .ok false := by
  obtain ⟨last, hlast⟩ := Option.isSome_iff_exists.1 (List.getLast?_isSome.2 hne)
  obtain ⟨before, hbefore, hiff⟩ := h.exists_hasConflict hlast hash signers window
  obtain ⟨after, hafter, hiff'⟩ :=
    h'.exists_hasConflict List.getLast?_concat hash signers window
  rw [hold] at hbefore
  cases hbefore
  rw [hafter]
  congr 1
  rw [Bool.eq_false_iff]
  intro hshows
  obtain ⟨hnew, e', he', hin, hdeclares⟩ := hiff'.1 hshows
  rw [h'.containsTransaction_eq_false_iff] at hnew
  -- The block that declares the conflict is an old one, so it showed before.
  have he' : e' ∈ past := by
    rcases List.mem_append.1 he' with he' | he'
    · exact he'
    · rw [List.mem_singleton.1 he'] at hdeclares
      exact absurd hdeclares hno
  have hnew : Ledger.containsTransaction c.snapshot hash = .ok false :=
    h.containsTransaction_eq_false_iff.2 fun e he => hnew e (List.mem_append_left _ he)
  have hshowed := hiff.2 ⟨hnew, e', he', h.inWindow_of_next h' hlast he' hin, hdeclares⟩
  cases hshowed

end Chronicle

/-! ## What is pooled passed -/

namespace Pool

variable {p p' : Pool} {capacity : Nat} {c : Cache} {settings : Settings} {t : Transaction}
  {hash : Hash256} {queue kept ts : List Transaction}

theorem checkOnChain_of_mem_foldl (h : t ∈ queue.foldl (afterTurn c settings) kept) :
    t ∈ kept ∨ checkOnChain t c settings = .ok .succeed := by
  induction queue generalizing kept with
  | nil => exact .inl h
  | cons u rest ih =>
    rcases ih h with hmem | hchain
    · unfold afterTurn at hmem
      split at hmem
      · rename_i hadmits
        rcases List.mem_append.1 hmem with hmem | hmem
        · exact .inl hmem
        · rw [List.mem_singleton.1 hmem]
          exact .inr (Pool.admits_iff.1 hadmits).1
      · exact .inl hmem
    · exact .inr hchain

theorem owedFor_le_of_sublist (h : queue.Sublist ts) (sender : Hash160) :
    owedFor queue sender ≤ owedFor ts sender :=
  (h.map _).sum_le_sum fun _ _ => Nat.zero_le _

/-- Whoever can pay for all of the queue is kept if the chain lets it in. -/
theorem mem_readmitted_of_covered {sender : Hash160} {held : Amount} (ht : t ∈ queue)
    (hchain : checkOnChain t c settings = .ok .succeed) (hs : t.sender? = some sender)
    (hheld : Gas.balance c sender = .ok held) (hpays : owedFor queue sender ≤ held) :
    t ∈ readmitted c settings queue := by
  obtain ⟨before, after, rfl⟩ := List.append_of_mem ht
  have hbefore : owedFor (before.foldl (afterTurn c settings) []) sender ≤ owedFor before sender :=
    owedFor_le_of_sublist (foldl_afterTurn_sublist before []) sender
  have howes : owedFor [t] sender = t.fee := by
    rw [owedFor, List.map_singleton, List.sum_singleton, Transaction.owes_of_sender hs, if_pos rfl]
  have hpart : owedFor before sender + t.fee ≤ held := by
    rw [← howes, ← owedFor_append]
    refine Nat.le_trans (owedFor_le_of_sublist ?_ sender) hpays
    exact (List.singleton_sublist.2 List.mem_cons_self).append_left before
  have hadmits : admits c settings (before.foldl (afterTurn c settings) []) t = true := by
    refine Pool.admits_iff.2 ⟨hchain, sender, held, hs, hheld, ?_⟩
    unfold Amount at *
    omega
  rw [readmitted, List.foldl_append, List.foldl_cons]
  apply subset_foldl_afterTurn
  rw [afterTurn, if_pos hadmits]
  exact List.mem_append_right _ List.mem_cons_self

/-- What is offered and accepted passed the checks, and the rest did before. -/
theorem Sound.checkOnChain_offer (h : p.Sound none)
    (hp : ∀ hash u, p.get? hash = some u → checkOnChain u c settings = .ok .succeed)
    (t : Transaction) (hash : Hash256) (u : Transaction)
    (hget : (p.offer t c settings).2.get? hash = some u) :
    checkOnChain u c settings = .ok .succeed := by
  rcases h.offer_cases t c settings with
    ⟨f, -, hr⟩ | ⟨verdict, -, hr⟩ | ⟨evicted, p', hplan, hv, hr⟩ <;> rw [hr] at hget
  · exact hp hash u hget
  · exact hp hash u hget
  · rw [get?_insert] at hget
    split at hget
    · cases hget
      exact (checked_of_accept hplan).1
    · exact hp hash u (get?_of_foldl_erase hv.verified hget)

end Pool

namespace Node

variable {settings : Settings} {capacity : Nat} {c : Chain Store} {past : List Entry} {p : Pool}

theorem reached (h : Node settings capacity c past p) : Pool.Reached capacity p := by
  induction h with
  | start => exact .empty
  | offer t _ ih => exact ih.offer t _ settings
  | remove hash _ ih => exact ih.remove hash
  | persist _ _ _ ih => exact ih.update _ _ settings

/-- An update against a chain succeeds, and what it keeps is what the rule
readmits of the survivors. -/
theorem update_lists {σ : Type} {exec : Executor σ} {s s' : σ} {c' : Chain Store} {block : Block}
    {applied : Persisted} (h : Node settings capacity c past p) (hexec : exec.OnlyCalls)
    (hp : c.persist exec s block = (.ok (applied, c'), s')) :
    ∃ gone p', p.update block c'.snapshot settings = (.ok gone, p') ∧
      p'.Lists (Pool.readmitted c'.snapshot settings (p.survivors block)) := by
  have hlegible := Legible.of_grown (h.grown.persist hexec hp)
  obtain ⟨gone, p', hr, -⟩ := h.reached.kept.solvent_update hlegible block settings
  exact ⟨gone, p', hr, h.reached.lists_of_update hr⟩

/-- Every pooled transaction passes the checks against the chain as it is. -/
theorem checkOnChain_of_pooled (h : Node settings capacity c past p) (hash : Hash256)
    (t : Transaction) (hget : p.get? hash = some t) :
    checkOnChain t c.snapshot settings = .ok .succeed := by
  induction h generalizing hash t with
  | start => cases hget
  | offer u hnode ih => exact hnode.reached.kept.sound.checkOnChain_offer ih u hash t hget
  | remove hash' hnode ih =>
    obtain ⟨gone, p', hrun, -, hverified⟩ := hnode.reached.kept.remove hash'
    rw [hrun] at hget
    exact ih hash t
      (Pool.get?_of_foldl_erase (show _ = [hash'].foldl _ _ from hverified) hget)
  | persist hnode hexec hp ih =>
    obtain ⟨gone, p', hrun, hlists⟩ := hnode.update_lists hexec hp
    rw [hrun] at hget
    have hmem := ((hlists.get?_eq_some_iff hash t).1 hget).1
    exact (Pool.checkOnChain_of_mem_foldl hmem).resolve_left List.not_mem_nil

/-- The last block declares no conflict for a signer of a pooled transaction. -/
theorem not_declared_of_pooled {e : Entry} (h : Node settings capacity c (past ++ [e]) p)
    (hwindow : 0 < settings.maxTraceableBlocks) {hash : Hash256} {t : Transaction}
    (hget : p.get? hash = some t) : ¬ e.block.DeclaresFor t.hash t.accounts := by
  obtain ⟨height, rate, hpasses⟩ :=
    checkOnChain_succeed_iff.1 (h.checkOnChain_of_pooled hash t hget)
  exact h.grown.chronicle.not_declared_of_passes hwindow hpasses

end Node

/-! ## The next block -/

section NextBlock

variable {settings : Settings} {capacity : Nat} {c c' : Chain Store} {past : List Entry} {p : Pool}
  {t : Transaction} {block : Block} {e : Entry} {height height' increment : UInt32}

theorem isEarly_of_le (h : isEarly t height = false) (hle : height ≤ height') :
    isEarly t height' = false := by
  unfold isEarly at h ⊢
  rw [List.any_eq_false] at h ⊢
  intro a ha
  have hbefore := h a ha
  cases a with
  | notValidBefore start =>
    simp only [decide_eq_true_eq, UInt32.not_lt] at hbefore ⊢
    exact UInt32.le_trans hbefore hle
  | highPriority => exact hbefore
  | oracleResponse => exact hbefore
  | conflicts => exact hbefore

/-- The last block of a transaction may be too far off, but only for a while. -/
theorem isExpired_of_le (h : isExpired t height increment = false) (hle : height ≤ height')
    (hvalid : height' < t.validUntil) : isExpired t height' increment = false := by
  unfold isExpired at h ⊢
  rw [Bool.or_eq_false_iff, decide_eq_false_iff_not, decide_eq_false_iff_not] at h ⊢
  rw [UInt32.le_iff_toNat_le] at hle
  exact ⟨UInt32.not_le.2 hvalid, by omega⟩

/-- Nothing but a declared conflict stands in the way of a pooled transaction
when a chain has a new block. -/
structure Pool.Unhindered (p : Pool) (t : Transaction) (block : Block) (c : Chain Store) :
    Prop where
  pooled : p.get? t.hash = some t
  excluded : ∀ u ∈ block.transactions, u.hash ≠ t.hash
  /-- It declares no transaction of the chain. -/
  unopposed : ∀ hash ∈ t.declared, Ledger.containsTransaction c.snapshot hash = .ok false
  unexpired : ∃ height, c.height = .ok height ∧ height < t.validUntil
  allowed : ∀ a ∈ t.accounts, Policy.isBlocked c.snapshot a = false
  paid : ∃ rate, Policy.feePerByte c.snapshot = .ok rate ∧ sizeFee t rate ≤ t.networkFee.toNat
  /-- Its sender still holds the fees of all that it has pooled. -/
  covered : ∃ sender held, t.sender? = some sender ∧ Gas.balance c.snapshot sender = .ok held ∧
    p.pooledFee sender ≤ held

/-- What passed before a block passes after it, if nothing stands in the way. -/
theorem Pool.Unhindered.checkOnChain_next (h : p.Unhindered t e.block c') (hc : Chronicle c past)
    (hne : past ≠ []) (hc' : Chronicle c' (past ++ [e]))
    (hold : checkOnChain t c.snapshot settings = .ok .succeed)
    (hno : ¬ e.block.DeclaresFor t.hash t.accounts) :
    checkOnChain t c'.snapshot settings = .ok .succeed := by
  obtain ⟨height, before, hpassed⟩ := checkOnChain_succeed_iff.1 hold
  obtain ⟨height', hheight', hvalid⟩ := h.unexpired
  obtain ⟨rate, hrate, hpaid⟩ := h.paid
  have hle : height ≤ height' := hc.height_le_next hc' hne hpassed.tip hheight'
  refine checkOnChain_succeed_iff.2 ⟨height', rate, ?_, hc.hasConflict_of_next hc' hne
    hpassed.unmarked hno, h.unopposed, hheight', isExpired_of_le hpassed.lasting hle hvalid,
    isEarly_of_le hpassed.due hle, ?_, hrate, hpaid⟩
  · rw [hc'.containsTransaction_eq_false_iff]
    intro e' he'
    rcases List.mem_append.1 he' with he' | he'
    · exact hc.containsTransaction_eq_false_iff.1 hpassed.new e' he'
    · rw [List.mem_singleton.1 he']
      exact h.excluded
  · rw [List.any_eq_false]
    intro a ha
    rw [h.allowed a ha]
    decide

/-- The survivors of a block owe no more than what was pooled. -/
theorem Pool.owedFor_survivors_le (h : p.Sound none) (block : Block) (sender : Hash160) :
    owedFor (p.survivors block) sender ≤ p.pooledFee sender := by
  have htotal : p.pooledFee sender = owedFor p.transactions sender := h.lists.total_eq h sender
  rw [htotal]
  exact owedFor_le_of_sublist List.filter_sublist sender

/-- What the block declares no conflict with survives it. -/
theorem Pool.Unhindered.mem_survivors (h : p.Unhindered t e.block c') (hsound : p.Sound none)
    (hc' : Chronicle c' (past ++ [e])) (hno : ¬ e.block.DeclaresFor t.hash t.accounts) :
    t ∈ p.survivors e.block := by
  refine hsound.mem_survivors_iff.2 ⟨h.pooled, fun u hu => ?_⟩
  exact hc'.not_sweeps h.excluded h.unopposed hno hu

/-- Beside the sender every other signer of a pooled transaction counts: if nothing
else stands in its way, it stays in the pool after a block exactly if no
transaction of the block that any of its signers signed declares a conflict
with it. -/
theorem a_conflict_of_any_signer_counts {σ : Type} {exec : Executor σ} {s s' : σ}
    {applied : Persisted} (h : Node settings capacity c past p)
    (hwindow : 0 < settings.maxTraceableBlocks) (hexec : exec.OnlyCalls)
    (hp : c.persist exec s block = (.ok (applied, c'), s')) (ht : p.Unhindered t block c') :
    ∃ gone p', p.update block c'.snapshot settings = (.ok gone, p') ∧
      (p'.get? t.hash = some t ↔ ¬ block.DeclaresFor t.hash t.accounts) := by
  have hc := h.grown.chronicle
  have hc' := hc.persist hexec hp
  have hnext := h.persist hexec hp
  obtain ⟨gone, p', hr, hlists⟩ := h.update_lists hexec hp
  rw [hr] at hnext
  refine ⟨gone, p', hr, hnext.not_declared_of_pooled hwindow, fun hno => ?_⟩
  have hsound := h.reached.kept.sound
  obtain ⟨sender, held, hs, hheld, hpays⟩ := ht.covered
  apply hlists.get?_of_mem
  apply Pool.mem_readmitted_of_covered (ht.mem_survivors hsound hc' hno) _ hs hheld
  · exact Nat.le_trans (Pool.owedFor_survivors_le hsound block sender) hpays
  · exact ht.checkOnChain_next hc h.grown.ne_nil hc'
      (h.checkOnChain_of_pooled t.hash t ht.pooled) hno

end NextBlock

/-! ## The objection of a cosigner -/

namespace Sample

/-- A payment of the holder with a cosigner. -/
def joint : Transaction :=
  (Transaction.ofContent? ⟨0, 1, 5, 1000000, 10, [⟨holder, 1⟩, ⟨.zero 20, 1⟩], [], [1]⟩).getD
    default

/-- A transaction that the cosigner alone signed. -/
def objection : Transaction :=
  (Transaction.ofContent? ⟨0, 2, 0, 0, 10, [⟨.zero 20, 1⟩], [.conflicts joint.hash], [1]⟩).getD
    default

def jointPool : Pool := ((Pool.empty 2).offer joint founded.snapshot wealthy).2

def objecting : Block :=
  ⟨⟨0, genesis.hash, merkleRoot [objection.hash], 1, 0, 1, 0, holder⟩, [objection]⟩

/-- The chain with the objection. -/
def objected : Chain Store :=
  given ((founded.persist (Executor.halting : Executor Unit) () objecting).1.map Prod.snd) founded

/-- The chain takes the objection up, and nobody is blocked or poor after it. -/
theorem objecting_checks :
    (founded.persist (Executor.halting : Executor Unit) () objecting).1.isOk = true ∧
      (∀ a ∈ joint.accounts, Policy.isBlocked objected.snapshot a = false) ∧
      ((Policy.feePerByte objected.snapshot).toOption.any fun rate =>
        sizeFee joint rate ≤ joint.networkFee.toNat) = true ∧
      ((Gas.balance objected.snapshot holder).toOption.any fun held =>
        jointPool.pooledFee holder ≤ held) = true := by
  decide +kernel

theorem persist_map_given {c : Chain Store} {exec : Executor Unit} {block : Block}
    (fallback : Chain Store) (h : (c.persist exec () block).1.isOk = true) :
    ∃ applied, c.persist exec () block =
      (.ok (applied, given ((c.persist exec () block).1.map Prod.snd) fallback), ()) := by
  rcases hp : c.persist exec () block with ⟨f | ⟨applied, c'⟩, u⟩
  · rw [hp] at h
    cases h
  · exact ⟨applied, rfl⟩

theorem persist_objecting : ∃ applied, founded.persist (Executor.halting : Executor Unit) ()
    objecting = (.ok (applied, objected), ()) :=
  persist_map_given founded objecting_checks.1

theorem node_joint : Node wealthy 2 founded [⟨genesis, []⟩] jointPool := by
  have hstart : (Chain.start (SortedMap.empty : Store) wealthy).isOk = true := by decide +kernel
  exact .offer joint (.start genesis_eq (eq_given hstart))

theorem unhindered_joint : jointPool.Unhindered joint objecting objected := by
  obtain ⟨hpooled, hexcluded, hdeclared, hvalid⟩ : jointPool.get? joint.hash = some joint ∧
      (∀ u ∈ objecting.transactions, u.hash ≠ joint.hash) ∧ joint.declared = [] ∧
      objecting.index < joint.validUntil := by decide +kernel
  obtain ⟨-, hallowed, hpaid, hcovered⟩ := objecting_checks
  obtain ⟨rate, hrate, hpaid⟩ := exists_ok_of_any hpaid
  obtain ⟨held, hheld, hcovered⟩ := exists_ok_of_any hcovered
  obtain ⟨applied, hp⟩ := persist_objecting
  have hchronicle := node_joint.grown.chronicle.persist Executor.halting_onlyCalls hp
  refine ⟨hpooled, hexcluded, ?_, ⟨_, (hchronicle.tip_eq List.getLast?_concat).2, hvalid⟩,
    hallowed, ⟨rate, hrate, of_decide_eq_true hpaid⟩,
    ⟨holder, held, by decide +kernel, hheld, of_decide_eq_true hcovered⟩⟩
  rw [hdeclared]
  exact fun hash hmem => absurd hmem List.not_mem_nil

theorem declaresFor_joint : objecting.DeclaresFor joint.hash joint.accounts := by
  have hdeclares : ∃ u ∈ objecting.transactions, joint.hash ∈ u.declared ∧
      ∃ a ∈ u.accounts, a ∈ joint.accounts := by decide +kernel
  exact hdeclares

theorem ofOptions_wealthy : Settings.ofOptions (written 100000000) = .ok wealthy :=
  ofOptions_written 100000000

end Sample

/-- A payment with a cosigner leaves the pool after the objection of the cosigner
alone. -/
theorem sample_objection : ∃ applied gone p',
    Node Sample.wealthy 2 Sample.founded [⟨Sample.genesis, []⟩] Sample.jointPool ∧
    Settings.ofOptions (Sample.written 100000000) = .ok Sample.wealthy ∧
    0 < Sample.wealthy.maxTraceableBlocks ∧
    Sample.founded.persist (Executor.halting : Executor Unit) () Sample.objecting =
      (.ok (applied, Sample.objected), ()) ∧
    Sample.jointPool.Unhindered Sample.joint Sample.objecting Sample.objected ∧
    Sample.jointPool.update Sample.objecting Sample.objected.snapshot Sample.wealthy =
      (.ok gone, p') ∧
    p'.get? Sample.joint.hash ≠ some Sample.joint := by
  have hwindow := (Settings.checked_of_ofOptions Sample.ofOptions_wealthy).traceable
  obtain ⟨applied, hp⟩ := Sample.persist_objecting
  obtain ⟨gone, p', hr, hiff⟩ := a_conflict_of_any_signer_counts Sample.node_joint hwindow
    Executor.halting_onlyCalls hp Sample.unhindered_joint
  exact ⟨applied, gone, p', Sample.node_joint, Sample.ofOptions_wealthy, hwindow, hp,
    Sample.unhindered_joint, hr, fun hget => hiff.1 hget Sample.declaresFor_joint⟩

/-- It is not so that only the conflicts count that the sender of the pooled
transaction signed. -/
theorem not_only_the_sender_counts :
    ¬ ∀ (o : Options) (settings : Settings) (capacity : Nat) (c c' : Chain Store)
      (past : List Entry) (p : Pool) (t : Transaction) (block : Block) (applied : Persisted),
      Settings.ofOptions o = .ok settings → Node settings capacity c past p →
      c.persist (Executor.halting : Executor Unit) () block = (.ok (applied, c'), ()) →
      p.Unhindered t block c' →
      (∀ u ∈ block.transactions, t.hash ∈ u.declared →
        ∀ sender, t.sender? = some sender → sender ∉ u.accounts) →
      (p.update block c'.snapshot settings).2.get? t.hash = some t := by
  intro hstays
  obtain ⟨applied, hp⟩ := Sample.persist_objecting
  have hsender : ∀ u ∈ Sample.objecting.transactions, Sample.joint.hash ∈ u.declared →
      ∀ sender, Sample.joint.sender? = some sender → sender ∉ u.accounts := by
    have hneither : Sample.joint.sender? = some Sample.holder ∧
        ∀ u ∈ Sample.objecting.transactions, Sample.holder ∉ u.accounts := by decide +kernel
    intro u hu _ sender hs
    rw [hneither.1] at hs
    cases hs
    exact hneither.2 u hu
  have hget := hstays _ _ _ _ _ _ _ _ _ _ Sample.ofOptions_wealthy Sample.node_joint hp
    Sample.unhindered_joint hsender
  have hwindow := (Settings.checked_of_ofOptions Sample.ofOptions_wealthy).traceable
  exact (Sample.node_joint.persist Executor.halting_onlyCalls hp).not_declared_of_pooled hwindow
    hget Sample.declaresFor_joint

end BlockLedger
