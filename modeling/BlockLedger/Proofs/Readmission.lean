-- The pool after a block, by a rule that can be followed by hand. What the
-- block sweeps away leaves. The others queue by priority, and one after the
-- other stays if the chain lets it in and its sender can pay for it as well.
-- Nothing else that an offer may do can happen, and all that left is told.
import BlockLedger.Proofs.Compatibility

namespace BlockLedger.Pool

/-! ## The rule -/

/-- Whether a transaction may stay beside those that are kept already. -/
def admits (c : Cache) (settings : Settings) (kept : List Transaction) (t : Transaction) : Bool :=
  match checkOnChain t c settings, t.sender? with
  | .ok .succeed, some sender =>
    match Gas.balance c sender with
    | .ok held => t.fee + owedFor kept sender ≤ held
    | .error _ => false
  | _, _ => false

/-- The kept transactions, once another one had its turn. -/
def afterTurn (c : Cache) (settings : Settings) (kept : List Transaction) (t : Transaction) :
    List Transaction :=
  if admits c settings kept t then kept ++ [t] else kept

/-- What is kept of a queue. -/
def readmitted (c : Cache) (settings : Settings) (queue : List Transaction) : List Transaction :=
  queue.foldl (afterTurn c settings) []

/-- The first of two transactions has the higher priority. -/
def Above (t u : Transaction) : Prop :=
  compare (Priority.of t t.hash) (Priority.of u u.hash) = .gt

/-- The pooled transactions, the highest priority first. -/
structure Lists (p : Pool) (ts : List Transaction) : Prop where
  descending : ts.Pairwise Above
  get?_eq_some_iff (hash : Hash256) (t : Transaction) :
    p.get? hash = some t ↔ t ∈ ts ∧ t.hash = hash

variable {p p' s : Pool} {capacity : Nat} {c : Cache} {settings : Settings} {t u : Transaction}
  {hash : Hash256} {ts us kept rest queue : List Transaction} {gone refused : List Hash256}

theorem admits_iff : admits c settings kept t = true ↔
    checkOnChain t c settings = .ok .succeed ∧ ∃ sender held, t.sender? = some sender ∧
      Gas.balance c sender = .ok held ∧ t.fee + owedFor kept sender ≤ held := by
  unfold admits
  split
  · rename_i hchain hs
    rw [hchain, hs]
    rcases hheld : Gas.balance c _ with f | held <;> simp [hheld]
  · rename_i hnot
    simp only [Bool.false_eq_true, false_iff, not_and]
    rintro hchain ⟨sender, held, hs, -⟩
    exact hnot sender hchain hs

theorem subset_foldl_afterTurn (queue kept : List Transaction) :
    kept ⊆ queue.foldl (afterTurn c settings) kept := by
  induction queue generalizing kept with
  | nil => exact List.Subset.refl kept
  | cons t rest ih =>
    refine List.Subset.trans ?_ (ih _)
    unfold afterTurn
    split
    · exact List.subset_append_left kept [t]
    · exact List.Subset.refl kept

theorem foldl_afterTurn_sublist (queue kept : List Transaction) :
    (queue.foldl (afterTurn c settings) kept).Sublist (kept ++ queue) := by
  induction queue generalizing kept with
  | nil => rw [List.append_nil, List.foldl_nil]
  | cons t rest ih =>
    refine (ih _).trans ?_
    unfold afterTurn
    split
    · rw [List.append_assoc, List.singleton_append]
    · exact (List.sublist_cons_self t rest).append_left kept

/-! ## Transactions in order -/

theorem not_above_self (t : Transaction) : ¬ Above t t := by
  intro h
  unfold Above at h
  rw [Std.ReflOrd.compare_self] at h
  cases h

theorem nodup_of_above (h : ts.Pairwise Above) : ts.Nodup := by
  apply h.imp
  rintro a b hgt rfl
  exact not_above_self a hgt

/-- The order of some transactions is settled by their priorities. -/
theorem eq_of_above (h : ts.Pairwise Above) (h' : us.Pairwise Above)
    (hmem : ∀ t, t ∈ ts ↔ t ∈ us) : ts = us := by
  have hperm : ts.Perm us :=
    (List.perm_ext_iff_of_nodup (nodup_of_above h) (nodup_of_above h')).2 hmem
  apply hperm.eq_of_pairwise _ h h'
  intro a b _ _ hab hba
  exact absurd (Std.OrientedCmp.gt_iff_lt.1 hba) (by rw [hab]; decide)

namespace Lists

theorem unique (h : p.Lists ts) (h' : p.Lists us) : ts = us := by
  apply eq_of_above h.descending h'.descending
  intro t
  have hiff := (h.get?_eq_some_iff t.hash t).symm.trans (h'.get?_eq_some_iff t.hash t)
  simpa using hiff

theorem get?_of_mem (h : p.Lists ts) (ht : t ∈ ts) : p.get? t.hash = some t :=
  (h.get?_eq_some_iff t.hash t).2 ⟨ht, rfl⟩

theorem nodup_hashes (h : p.Lists ts) : (ts.map (·.hash)).Nodup := by
  apply (nodup_of_above h.descending).map_on
  intro t ht u hu hsame
  have hget := h.get?_of_mem ht
  rw [hsame, h.get?_of_mem hu] at hget
  exact (Option.some.inj hget).symm

end Lists

theorem Sound.lists (h : p.Sound none) : p.Lists p.transactions where
  descending := h.descending
  get?_eq_some_iff hash t := by
    constructor
    · intro hget
      exact ⟨(h.mem_transactions_iff t).2 ⟨hash, hget⟩, (h.get?_eq_some hget).2.1⟩
    · rintro ⟨hmem, rfl⟩
      obtain ⟨hash, hget⟩ := (h.mem_transactions_iff t).1 hmem
      rwa [(h.get?_eq_some hget).2.1]

/-! ## The queue -/

end Pool

/-- A transaction as the pool keeps it. -/
def Pooled.of (t : Transaction) : Pooled := ⟨t, .of t t.hash⟩

namespace Pool

variable {p p' s : Pool} {capacity : Nat} {c : Cache} {settings : Settings} {t u : Transaction}
  {hash : Hash256} {ts us kept rest queue : List Transaction} {gone refused : List Hash256}

theorem Sound.verified_get? (h : p.Sound none) (hash : Hash256) :
    p.verified.get? hash = (p.get? hash).map Pooled.of := by
  rcases hget : p.get? hash with _ | t
  · exact Option.map_eq_none_iff.1 hget
  · obtain ⟨hitem, rfl, -⟩ := h.get?_eq_some hget
    exact hitem

theorem ranked_perm (p : Pool) : p.ranked.Perm p.verified.values := List.mergeSort_perm _ _

theorem Sound.eq_of_mem_ranked (h : p.Sound none) {item : Pooled} (hitem : item ∈ p.ranked) :
    Pooled.of item.transaction = item := by
  obtain ⟨hash, hget⟩ := get?_of_mem_ranked hitem
  obtain ⟨rfl, hpriority, -⟩ := h.keyed hash item hget
  unfold Pooled.of
  rw [← hpriority]

theorem Sound.nodup_ranked (h : p.Sound none) :
    p.ranked.Pairwise fun a b => a.transaction.hash ≠ b.transaction.hash := by
  have hkeys : p.verified.values.map (·.transaction.hash) = p.verified.keys := by
    unfold SortedMap.values SortedMap.keys
    rw [List.map_map]
    apply List.map_congr_left
    intro e he
    exact (h.keyed e.1 e.2 (SortedMap.get?_eq_some_iff.2 he)).1
  have hnodup : (p.ranked.map (·.transaction.hash)).Nodup := by
    rw [((ranked_perm p).map _).nodup_iff, hkeys]
    exact SortedMap.nodup_keys _
  exact List.pairwise_map.1 hnodup

theorem pairwise_ranked (p : Pool) :
    p.ranked.Pairwise fun a b => (compare b.priority a.priority).isLE = true := by
  apply List.pairwise_mergeSort
  · exact fun a b c hab hbc => Std.TransOrd.isLE_trans hbc hab
  · intro a b
    have hswap : compare a.priority b.priority = (compare b.priority a.priority).swap :=
      Std.OrientedOrd.eq_swap
    rw [hswap]
    cases compare b.priority a.priority <;> rfl

/-- No two priorities are equal, so the sorted transactions strictly descend. -/
theorem Sound.descending_ranked (h : p.Sound none) :
    (p.ranked.map (·.transaction)).Pairwise Above := by
  rw [List.pairwise_map]
  apply ((pairwise_ranked p).and h.nodup_ranked).imp_of_mem
  rintro a b ha hb ⟨hle, hne⟩
  rw [← h.eq_of_mem_ranked ha, ← h.eq_of_mem_ranked hb] at hle
  unfold Above
  rw [Std.OrientedCmp.gt_iff_lt]
  change (compare (Priority.of b.transaction _) (Priority.of a.transaction _)).isLE = true at hle
  rcases hcmp : compare (Priority.of b.transaction b.transaction.hash)
    (Priority.of a.transaction a.transaction.hash) with _ | _ | _
  · rfl
  · have hsame := Std.LawfulEqOrd.eq_of_compare hcmp
    exact absurd (congrArg Priority.hash hsame).symm hne
  · rw [hcmp] at hle
    cases hle

theorem Sound.map_ranked (h : p.Sound none) : p.ranked.map (·.transaction) = p.transactions := by
  apply eq_of_above h.descending_ranked h.descending
  intro t
  rw [h.mem_transactions_iff, List.mem_map]
  constructor
  · rintro ⟨item, hitem, rfl⟩
    obtain ⟨hash, hget⟩ := get?_of_mem_ranked hitem
    exact ⟨hash, Option.map_eq_some_iff.2 ⟨item, hget, rfl⟩⟩
  · rintro ⟨hash, hget⟩
    obtain ⟨item, hitem, rfl⟩ := Option.map_eq_some_iff.1 hget
    have hvalue : item ∈ p.verified.values :=
      List.mem_map_of_mem (SortedMap.get?_eq_some_iff.1 hitem)
    exact ⟨item, (ranked_perm p).mem_iff.2 hvalue, rfl⟩

/-- The queue of an update has the pooled transactions in order. -/
theorem Sound.ranked_eq (h : p.Sound none) : p.ranked = p.transactions.map Pooled.of := by
  rw [← h.map_ranked, List.map_map]
  conv_lhs => rw [← List.map_id p.ranked]
  exact List.map_congr_left fun item hitem => (h.eq_of_mem_ranked hitem).symm

theorem Lists.length_eq (hl : p.Lists ts) (h : p.Sound none) : ts.length = p.size := by
  rw [hl.unique h.lists, ← h.map_ranked, List.length_map, (ranked_perm p).length_eq]
  exact List.length_map _

/-- The book has the fees of the listed transactions. -/
theorem Lists.total_eq (hl : p.Lists ts) (h : p.Sound none) (sender : Hash160) :
    p.book.total sender = owedFor ts sender := by
  have htotal : p.book.total sender = p.feesOf sender := h.listsSums.getD sender
  rw [htotal, feesOf, ← sum_owes, hl.unique h.lists, ← h.map_ranked]
  exact owedFor_perm ((ranked_perm p).map _).symm sender

/-! ## One turn -/

/-- A pool that is filled anew from another one, its source: some of the queue
are kept, and the rest are waiting. -/
structure Refills (s : Pool) (capacity : Nat) (p : Pool) (kept rest : List Transaction) : Prop
    extends p.Kept capacity where
  lists : p.Lists kept
  source : s.Kept capacity
  compatible : s.Compatible
  queue : (kept ++ rest).Sublist s.transactions

namespace Refills

theorem start (h : s.Kept capacity) (hc : s.Compatible) :
    s.Refills capacity (.empty capacity) [] s.transactions where
  toKept := kept_empty capacity
  lists := ⟨.nil, fun hash t => by constructor <;> rintro ⟨⟩; contradiction⟩
  source := h
  compatible := hc
  queue := List.Sublist.refl _

/-- The kept and the waiting transactions come from the source. -/
theorem get?_source (h : s.Refills capacity p kept rest) (ht : t ∈ kept ++ rest) :
    s.get? t.hash = some t :=
  h.source.sound.lists.get?_of_mem (h.queue.subset ht)

theorem get?_turn (h : s.Refills capacity p kept (t :: rest)) : s.get? t.hash = some t :=
  h.get?_source (List.mem_append_right kept List.mem_cons_self)

theorem mem_kept (h : s.Refills capacity p kept rest) (hget : p.get? hash = some t) :
    t ∈ kept ∧ t.hash = hash :=
  (h.lists.get?_eq_some_iff hash t).1 hget

/-- No transaction has two turns. -/
theorem not_mem (h : s.Refills capacity p kept (t :: rest)) : t ∉ kept ++ rest := by
  have hnodup := (nodup_of_above h.source.sound.descending).sublist h.queue
  exact (List.nodup_cons.1 (List.nodup_middle.1 hnodup)).1

theorem eq_of_hash_eq (h : s.Refills capacity p kept rest) (ht : t ∈ kept ++ rest)
    (hu : u ∈ kept ++ rest) (hsame : t.hash = u.hash) : t = u := by
  have hget := h.get?_source ht
  rw [hsame, h.get?_source hu] at hget
  exact (Option.some.inj hget).symm

theorem get?_new (h : s.Refills capacity p kept (t :: rest)) : p.get? t.hash = none := by
  rcases hget : p.get? t.hash with _ | u
  · rfl
  · obtain ⟨hu, hsame⟩ := h.mem_kept hget
    have heq := h.eq_of_hash_eq (List.mem_append_left _ hu)
      (List.mem_append_right _ List.mem_cons_self) hsame
    rw [heq] at hu
    exact absurd (List.mem_append_left _ hu) h.not_mem

theorem not_contains (h : s.Refills capacity p kept (t :: rest)) : p.contains t.hash = false := by
  unfold Pool.contains SortedMap.contains
  rw [Option.map_eq_none_iff.1 h.get?_new]
  rfl

theorem checkAlone_eq (h : s.Refills capacity p kept (t :: rest)) : checkAlone t = .succeed :=
  (h.source.sound.get?_eq_some h.get?_turn).2.2

/-- It is in conflict with nothing, since nothing was in the source. -/
theorem conflicting_eq (h : s.Refills capacity p kept (t :: rest)) :
    p.conflicting t = .empty := by
  apply SortedMap.ext
  intro x
  rw [SortedMap.get?_empty, ← Option.not_isSome_iff_eq_none]
  intro hin
  obtain ⟨u, hget, hdeclared⟩ := h.sound.conflicting_iff.1 hin
  have ht := h.get?_turn
  have hu := h.get?_source (List.mem_append_left _ (h.mem_kept hget).1)
  rcases hdeclared with hdeclared | hdeclared
  · exact h.compatible _ _ t u ht hu hdeclared
  · exact h.compatible _ _ u t hu ht hdeclared

theorem room (h : s.Refills capacity p kept (t :: rest)) : p.size < p.capacity := by
  have hlength := h.queue.length_le
  rw [List.length_append, List.length_cons, h.lists.length_eq h.sound,
    h.source.sound.lists.length_eq h.source.sound] at hlength
  have hfits := h.source.size
  rw [h.limit]
  omega

/-- In the source its request was its own. -/
theorem oracle_free (h : s.Refills capacity p kept (t :: rest)) : p.book.oracleTaken? t = none := by
  rw [Option.eq_none_iff_forall_ne_some]
  intro id htaken
  obtain ⟨hid, owner, howner, hother⟩ := (p.book.oracleTaken?_eq_some_iff t id).1 htaken
  obtain ⟨u, hget, huid⟩ := (h.sound.book.oracles id owner).1 howner
  rw [get?_booked_none] at hget
  obtain ⟨hu, rfl⟩ := h.mem_kept hget
  have hsu := h.get?_source (List.mem_append_left (t :: rest) hu)
  have hst := h.get?_turn
  rw [← get?_booked_none] at hsu hst
  have hu := (h.source.sound.book.oracles id u.hash).2 ⟨u, hsu, huid⟩
  have ht := (h.source.sound.book.oracles id t.hash).2 ⟨t, hst, hid⟩
  rw [hu] at ht
  exact hother (Option.some.inj ht)

variable {plan : Plan} {verdict : Verdict}

theorem admits_iff (h : s.Refills capacity p kept (t :: rest)) :
    admits c settings kept t = true ↔
      checkOnChain t c settings = .ok .succeed ∧ p.book.check t [] c = .ok .granted := by
  rw [Pool.admits_iff, FeeBook.check_nil_granted_iff]
  simp only [h.oracle_free, h.lists.total_eq h.sound, true_and]

/-- Nothing has to leave for a waiting transaction, so only its fees count. -/
theorem planInPool_eq (h : s.Refills capacity p kept (t :: rest)) :
    p.planInPool t c = (p.book.check t [] c).map fun
      | .granted => .accept .empty
      | .insufficientFunds _ _ _ => .reject .insufficientFunds
      | .duplicateOracle id => .reject (.duplicateOracle id) := by
  have hreplaced : p.replaced t = some .empty := by
    unfold Pool.replaced
    rw [h.conflicting_eq]
    rfl
  have hvacant : p.makeRoom t .empty = some .empty := if_pos h.room
  unfold Pool.planInPool
  simp only [hreplaced, hvacant]
  rfl

theorem planInPool_cases (h : s.Refills capacity p kept (t :: rest))
    (hplan : p.planInPool t c = .ok plan) :
    (plan = .accept .empty ∧ p.book.check t [] c = .ok .granted) ∨
      ∃ verdict, plan = .reject verdict ∧ verdict ≠ .succeed ∧
        p.book.check t [] c ≠ .ok .granted := by
  rw [h.planInPool_eq] at hplan
  rcases hcheck : p.book.check t [] c with f | clearance <;> rw [hcheck] at hplan
  · cases hplan
  · cases clearance with
    | granted =>
      cases hplan
      exact .inl ⟨rfl, rfl⟩
    | insufficientFunds sender available required =>
      cases hplan
      exact .inr ⟨_, rfl, by decide, by simp⟩
    | duplicateOracle id =>
      cases hplan
      exact .inr ⟨_, rfl, by simp, by simp⟩

/-- A waiting transaction is planned to join if it is admitted, and then nothing
leaves for it. -/
theorem plan_cases (h : s.Refills capacity p kept (t :: rest))
    (hplan : p.plan t c settings = .ok plan) :
    (plan = .accept .empty ∧ admits c settings kept t = true) ∨
      ∃ verdict, plan = .reject verdict ∧ verdict ≠ .succeed ∧
        ¬ admits c settings kept t = true := by
  rw [h.admits_iff]
  unfold Pool.plan at hplan
  rw [h.not_contains, if_neg (by decide), h.checkAlone_eq] at hplan
  obtain ⟨verdict, hchain, hplan⟩ := ok_of_bind hplan
  rw [hchain]
  split at hplan
  · rcases h.planInPool_cases hplan with ⟨rfl, hgranted⟩ | ⟨verdict, rfl, hv, hrefused⟩
    · exact .inl ⟨rfl, rfl, hgranted⟩
    · exact .inr ⟨verdict, rfl, hv, fun hboth => hrefused hboth.2⟩
  · rename_i hv
    cases hplan
    exact .inr ⟨verdict, rfl, hv, fun hboth => hv (Except.ok.inj hboth.1)⟩

/-- The plan for an admitted transaction does not fail. -/
theorem plan_of_admits (h : s.Refills capacity p kept (t :: rest))
    (hadmits : admits c settings kept t = true) :
    p.plan t c settings = .ok (.accept .empty) := by
  obtain ⟨hchain, hgranted⟩ := h.admits_iff.1 hadmits
  unfold Pool.plan
  rw [h.not_contains, if_neg (by decide), h.checkAlone_eq]
  simp only [hchain, ok_bind, h.planInPool_eq, hgranted]
  rfl

/-- An admitted transaction joins the kept ones. -/
theorem accept (h : s.Refills capacity p kept (t :: rest))
    (hplan : p.plan t c settings = .ok (.accept .empty)) (hp : p.Vacated t .empty p') :
    s.Refills capacity (p'.insert t) (kept ++ [t]) rest where
  toKept := h.toKept.accept hplan hp
  lists := by
    have hqueue : (kept ++ [t]).Sublist s.transactions := by
      refine List.Sublist.trans ?_ h.queue
      exact (List.singleton_sublist.2 List.mem_cons_self).append_left kept
    refine ⟨h.source.sound.descending.sublist hqueue, fun hash u => ?_⟩
    have hverified : p'.get? hash = p.get? hash := by
      unfold Pool.get?
      rw [hp.verified]
      rfl
    rw [get?_insert, hverified, List.mem_append, List.mem_singleton]
    by_cases hsame : hash = t.hash
    · subst hsame
      rw [if_pos rfl]
      constructor
      · rintro ⟨⟩
        exact ⟨.inr rfl, rfl⟩
      · rintro ⟨hu | rfl, hhash⟩
        · have hget := (h.lists.get?_eq_some_iff t.hash u).2 ⟨hu, hhash⟩
          rw [h.get?_new] at hget
          cases hget
        · rfl
    · rw [if_neg hsame, h.lists.get?_eq_some_iff]
      constructor
      · rintro ⟨hu, hhash⟩
        exact ⟨.inl hu, hhash⟩
      · rintro ⟨hu | rfl, hhash⟩
        · exact ⟨hu, hhash⟩
        · exact absurd hhash.symm hsame
  source := h.source
  compatible := h.compatible
  queue := by
    rw [List.append_assoc, List.singleton_append]
    exact h.queue

/-- A refused transaction is passed over. -/
theorem pass (h : s.Refills capacity p kept (t :: rest)) : s.Refills capacity p kept rest where
  toKept := h.toKept
  lists := h.lists
  source := h.source
  compatible := h.compatible
  queue := ((List.sublist_cons_self t rest).append_left kept).trans h.queue

/-- One turn of the queue goes by the rule. -/
theorem offer (h : s.Refills capacity p kept (t :: rest))
    (hr : p.offer t c settings = (.ok verdict, p')) :
    s.Refills capacity p' (afterTurn c settings kept t) rest ∧
      (verdict = .succeed ↔ admits c settings kept t = true) := by
  unfold afterTurn
  rcases h.sound.offer_cases t c settings with
    ⟨f, -, hrun⟩ | ⟨verdict', hplan, hrun⟩ | ⟨evicted, p₁, hplan, hp, hrun⟩ <;> rw [hr] at hrun
  · cases hrun
  · cases hrun
    rcases h.plan_cases hplan with ⟨hpl, -⟩ | ⟨verdict', hpl, hv, hnot⟩
    · cases hpl
    · cases hpl
      rw [if_neg hnot]
      exact ⟨h.pass, fun hs => absurd hs hv, fun ha => absurd ha hnot⟩
  · cases hrun
    rcases h.plan_cases hplan with ⟨hpl, hadmits⟩ | ⟨verdict', hpl, -⟩
    · cases hpl
      rw [if_pos hadmits]
      exact ⟨h.accept hplan hp, fun _ => hadmits, fun _ => rfl⟩
    · cases hpl

/-! ## The whole queue -/

/-- The queue goes by the rule, and what is refused is told. -/
theorem reenter (h : s.Refills capacity p kept rest)
    (hr : p.reenter c settings (rest.map Pooled.of) = (.ok refused, p')) :
    s.Refills capacity p' (rest.foldl (afterTurn c settings) kept) [] ∧
      refused.Sublist (rest.map (·.hash)) ∧
      ∀ t ∈ rest, t.hash ∈ refused ↔ t ∉ rest.foldl (afterTurn c settings) kept := by
  induction rest generalizing p kept refused with
  | nil =>
    cases hr
    exact ⟨h, List.Sublist.refl _, by simp⟩
  | cons t rest ih =>
    rw [List.map_cons, Pool.reenter] at hr
    rcases hoffer : p.offer (Pooled.of t).transaction c settings with ⟨f | verdict, p₁⟩ <;>
      rw [hoffer] at hr
    · cases hr
    dsimp only at hr
    rcases hmore : p₁.reenter c settings (rest.map Pooled.of) with ⟨f | more, p₂⟩ <;>
      rw [hmore] at hr
    · cases hr
    cases hr
    obtain ⟨hturn, hverdict⟩ := h.offer hoffer
    obtain ⟨hfilled, hsub, htold⟩ := ih hturn hmore
    have hother : ∀ u ∈ rest, u.hash ≠ t.hash := by
      intro u hu hsame
      have heq := h.eq_of_hash_eq (List.mem_append_right _ (List.mem_cons_of_mem t hu))
        (List.mem_append_right _ List.mem_cons_self) hsame
      rw [heq] at hu
      exact h.not_mem (List.mem_append_right _ hu)
    rw [List.foldl_cons]
    refine ⟨hfilled, ?_, List.forall_mem_cons.2 ?_⟩
    · split
      · exact hsub.cons _
      · exact hsub.cons_cons _
    · by_cases hadmits : admits c settings kept t = true
      · rw [if_pos (hverdict.2 hadmits)]
        refine ⟨⟨fun hmem => ?_, fun hnot => ?_⟩, htold⟩
        · obtain ⟨u, hu, hsame⟩ := List.mem_map.1 (hsub.subset hmem)
          exact absurd hsame (hother u hu)
        · refine absurd (subset_foldl_afterTurn rest _ ?_) hnot
          rw [afterTurn, if_pos hadmits]
          exact List.mem_append_right _ List.mem_cons_self
      · rw [if_neg fun hv => hadmits (hverdict.1 hv)]
        refine ⟨⟨fun _ hmem => ?_, fun _ => List.mem_cons_self⟩, fun u hu => ?_⟩
        · rw [afterTurn, if_neg hadmits] at hmem
          exact h.not_mem ((foldl_afterTurn_sublist rest kept).subset hmem)
        · rw [← htold u hu, List.mem_cons]
          exact or_iff_right (hother u hu)

end Refills

/-! ## Updates -/

theorem Drops.mem_iff (h : p.Drops gone p') (hash : Hash256) :
    hash ∈ gone ↔ p.contains hash = true ∧ p'.contains hash = false := by
  unfold Pool.contains SortedMap.contains
  rw [h.without hash]
  constructor
  · intro hmem
    rw [if_pos hmem]
    exact ⟨h.pooled hash hmem, rfl⟩
  · rintro ⟨hin, hout⟩
    split at hout
    · assumption
    · rw [hin] at hout
      cases hout

/-- A pool that was filled anew dropped what was refused. -/
theorem Refills.drops (h : s.Refills capacity p' kept [])
    (hsub : refused.Sublist (s.transactions.map (·.hash)))
    (htold : ∀ t ∈ s.transactions, t.hash ∈ refused ↔ t ∉ kept) : s.Drops refused p' where
  without hash := by
    have hget : p'.get? hash = if hash ∈ refused then none else s.get? hash := by
      ext t
      rw [h.lists.get?_eq_some_iff]
      constructor
      · rintro ⟨hkept, rfl⟩
        have hs := h.get?_source (List.mem_append_left [] hkept)
        have hmem := (h.source.sound.mem_transactions_iff t).2 ⟨_, hs⟩
        rw [if_neg fun hin => (htold t hmem).1 hin hkept, hs]
      · intro hs
        split at hs
        · cases hs
        · rename_i hnot
          obtain ⟨hmem, rfl⟩ := (h.source.sound.lists.get?_eq_some_iff hash t).1 hs
          exact ⟨not_not.1 fun hout => hnot ((htold t hmem).2 hout), rfl⟩
    rw [h.sound.verified_get?, h.source.sound.verified_get?, hget]
    split <;> rfl
  pooled hash hmem := by
    obtain ⟨t, ht, rfl⟩ := List.mem_map.1 (hsub.subset hmem)
    have hs := h.source.sound.lists.get?_of_mem ht
    rw [SortedMap.contains, h.source.sound.verified_get?, hs]
    rfl
  once := h.source.sound.lists.nodup_hashes.sublist hsub

/-- After a block the pool is filled anew with what the block did not sweep
away, in order. -/
theorem Kept.update_eq (h : p.Kept capacity) (block : Block) (c : Cache) (settings : Settings) :
    ∃ s swept, p.removeIncluded block.transactions = (.ok swept, s) ∧ s.Kept capacity ∧
      p.Drops swept s ∧
      (∀ hash t, s.get? hash = some t ↔
        p.get? hash = some t ∧ ∀ u ∈ block.transactions, ¬ Sweeps u t) ∧
      ∀ r p', (empty capacity).reenter c settings (s.transactions.map Pooled.of) = (r, p') →
        p.update block c settings = (r.map (swept ++ ·), p') := by
  obtain ⟨swept, s, hrun, hs, hswept, hstays, heq⟩ := h.update_eq_reenter block c settings
  refine ⟨s, swept, hrun, hs, hswept, hstays, fun r p' hr => ?_⟩
  rw [heq, hs.sound.ranked_eq, hr]

theorem Kept.of_update (h : p.Kept capacity) {block : Block}
    (hr : p.update block c settings = (.ok gone, p')) : ∃ s swept refused,
      s.Kept capacity ∧ p.Drops swept s ∧
      (∀ hash t, s.get? hash = some t ↔
        p.get? hash = some t ∧ ∀ u ∈ block.transactions, ¬ Sweeps u t) ∧
      (empty capacity).reenter c settings (s.transactions.map Pooled.of) = (.ok refused, p') ∧
      gone = swept ++ refused := by
  obtain ⟨s, swept, -, hs, hswept, hstays, heq⟩ := h.update_eq block c settings
  rcases hm : (empty capacity).reenter c settings (s.transactions.map Pooled.of)
    with ⟨f | refused, p''⟩ <;> rw [heq _ _ hm] at hr <;> cases hr
  exact ⟨s, swept, refused, hs, hswept, hstays, hm, rfl⟩

/-- An update keeps what the rule readmits of all that the block does not sweep
away, and tells exactly what left, each once. -/
theorem an_update_readmits_by_the_rule (h : Reached capacity p) {block : Block}
    (hr : p.update block c settings = (.ok gone, p')) :
    p.Lists p.transactions ∧
      p'.Lists (readmitted c settings
        (p.transactions.filter fun t => ∀ u ∈ block.transactions, ¬ Sweeps u t)) ∧
      gone.Nodup ∧ ∀ hash, hash ∈ gone ↔ p.contains hash = true ∧ p'.contains hash = false := by
  obtain ⟨s, swept, refused, hs, hswept, hstays, hrun, rfl⟩ := h.kept.of_update hr
  have hlists := h.kept.sound.lists
  have hqueue : p.transactions.filter (fun t => ∀ u ∈ block.transactions, ¬ Sweeps u t) =
      s.transactions := by
    apply Lists.unique (p := s) _ hs.sound.lists
    refine ⟨hlists.descending.filter _, fun hash t => ?_⟩
    rw [hstays, hlists.get?_eq_some_iff, List.mem_filter, decide_eq_true_eq]
    exact and_right_comm
  have hcompatible : s.Compatible := h.compatible.mono fun hash t hget => ((hstays hash t).1 hget).1
  obtain ⟨hfilled, hsub, htold⟩ := (Refills.start hs hcompatible).reenter hrun
  have hdrops := hswept.trans (hfilled.drops hsub htold)
  rw [hqueue]
  exact ⟨hlists, hfilled.lists, hdrops.once, hdrops.mem_iff⟩

/-- A snapshot where the holder can pay for more. -/
def ample : Cache := scarce.put (Gas.accountKey Sample.holder) (.account ⟨100, by decide⟩)

/-- Transactions of one sender; the second declares a conflict with a
transaction that is not pooled. -/
def crowd : List Transaction :=
  [Sample.transaction 1 [], Sample.transaction 2 [better.hash], Sample.transaction 3 [],
    Sample.transaction 4 [], Sample.transaction 5 []]

/-- A block with one of them and with the declared one. -/
def sweeping : Block := ⟨Sample.genesis.header, [better, Sample.transaction 1 []]⟩

/-- The pool after offers in turn. -/
def offered (p : Pool) (c : Cache) (settings : Settings) (ts : List Transaction) : Pool :=
  ts.foldl (fun p t => (p.offer t c settings).2) p

theorem Reached.offered (h : Reached capacity p) (c : Cache) (settings : Settings)
    (ts : List Transaction) : Reached capacity (p.offered c settings ts) := by
  induction ts generalizing p with
  | nil => exact h
  | cons t rest ih => exact ih (h.offer t c settings)

def brimming : Pool := (empty 5).offered ample Sample.settings crowd

/-- Two transactions are swept away, and of the three others the sender can pay
for two. -/
theorem sample_readmission : Reached 5 brimming ∧ brimming.size = 5 ∧ ∃ gone p',
    brimming.update sweeping scarce Sample.settings = (.ok gone, p') ∧
    p'.Lists [Sample.transaction 3 [], Sample.transaction 5 []] ∧ gone.Nodup ∧
    ∀ hash, hash ∈ gone ↔ brimming.contains hash = true ∧ p'.contains hash = false := by
  have hreached : Reached 5 brimming := Reached.empty.offered ample Sample.settings crowd
  have hsize : brimming.size = 5 := by decide +kernel
  have hok : ((empty 5).reenter scarce Sample.settings
      ((brimming.removeIncluded sweeping.transactions).2.transactions.map Pooled.of)).1.isOk =
        true := by decide +kernel
  have hrule : readmitted scarce Sample.settings
      (brimming.transactions.filter fun t => ∀ u ∈ sweeping.transactions, ¬ Sweeps u t) =
        [Sample.transaction 3 [], Sample.transaction 5 []] := by decide +kernel
  obtain ⟨s, swept, hrun, -, -, -, heq⟩ := hreached.kept.update_eq sweeping scarce Sample.settings
  rw [hrun] at hok
  rcases hm : (empty 5).reenter scarce Sample.settings (s.transactions.map Pooled.of)
    with ⟨f | refused, p'⟩
  · rw [hm] at hok
    cases hok
  · have hupdate := heq _ _ hm
    obtain ⟨-, hlists, honce, htold⟩ := an_update_readmits_by_the_rule hreached hupdate
    rw [hrule] at hlists
    exact ⟨hreached, hsize, _, p', hupdate, hlists, honce, htold⟩

end BlockLedger.Pool
