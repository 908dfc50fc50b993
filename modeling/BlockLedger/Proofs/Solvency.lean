-- The fees of a pool against the balances of a chain. A transaction joins
-- only if its sender holds enough for all that it has pooled, less what
-- leaves the pool at the same time, and after a block the pool is filled
-- anew. So at any time every sender can pay for everything that it has
-- pooled, and no sum of fees runs over.
import BlockLedger.Proofs.PoolBooks
import BlockLedger.Proofs.Readings

namespace BlockLedger

/-! ## Sums of fees -/

variable {t : Transaction} {c : Cache} {settings : Settings}

/-- What a sender owes for the transactions of a list. -/
def owedFor (ts : List Transaction) (sender : Hash160) : Nat := (ts.map (·.owes sender)).sum

theorem owedFor_perm {ts us : List Transaction} (h : ts.Perm us) (sender : Hash160) :
    owedFor ts sender = owedFor us sender :=
  (h.map _).sum_nat

theorem owedFor_append (ts us : List Transaction) (sender : Hash160) :
    owedFor (ts ++ us) sender = owedFor ts sender + owedFor us sender := by
  unfold owedFor
  rw [List.map_append, List.sum_append]

/-- What is owed for some transactions is not owed any more without them. -/
theorem owed_foldl_erase {hashes : List Hash256} (hd : hashes.Nodup)
    (m : SortedMap Hash256 Transaction) (sender : Hash160) :
    owed (hashes.foldl (fun m hash => m.erase hash) m) sender +
      ((hashes.filterMap m.get?).map (·.owes sender)).sum = owed m sender := by
  induction hashes generalizing m with
  | nil => rfl
  | cons hash rest ih =>
    obtain ⟨hnot, hd⟩ := List.nodup_cons.1 hd
    -- No hash comes twice, so the others are looked up as before.
    have hsame : rest.filterMap (m.erase hash).get? = rest.filterMap m.get? := by
      apply List.filterMap_congr
      intro x hx
      rw [SortedMap.get?_erase, if_neg]
      rintro rfl
      exact hnot hx
    have hrest := ih hd (m.erase hash)
    rw [hsame] at hrest
    rw [List.foldl_cons]
    rcases hk : m.get? hash with _ | t
    · rw [List.filterMap_cons_none hk, hrest, SortedMap.erase_of_get?_eq_none hk]
    · have herase := owed_erase hk sender
      rw [List.filterMap_cons_some hk, List.map_cons, List.sum_cons]
      omega

/-! ## The check of a sender -/

namespace FeeBook

/-- What a sender gets back is what it owes for the transactions. -/
theorem freed_eq {ts : List Transaction} (hs : ∀ t ∈ ts, ∃ s, t.sender? = some s)
    (sender : Hash160) (sum : Amount)
    (hfit : sum + (ts.map (·.owes sender)).sum < Amount.limit) :
    freed sender sum ts = .ok (sum + (ts.map (·.owes sender)).sum) := by
  induction ts generalizing sum with
  | nil => rfl
  | cons t rest ih =>
    obtain ⟨s, hsender⟩ := hs t List.mem_cons_self
    have hrest := ih fun u hu => hs u (List.mem_cons_of_mem t hu)
    have howes := Transaction.owes_of_sender hsender sender
    rw [List.map_cons, List.sum_cons, ← Nat.add_assoc] at hfit ⊢
    unfold freed
    rw [sender_of_sender? hsender, ok_bind]
    by_cases hsame : s = sender
    · rw [if_pos hsame.symm] at howes
      rw [howes] at hfit ⊢
      have hadd : Amount.add sum t.fee = .ok (sum + t.fee) :=
        if_pos (Nat.lt_of_le_of_lt (Nat.le_add_right _ _) hfit)
      rw [if_pos hsame, hadd, ok_bind, hrest _ hfit]
    · rw [if_neg fun h => hsame h.symm] at howes
      rw [howes, Nat.add_zero] at hfit ⊢
      rw [if_neg hsame, hrest _ hfit]

theorem freed_ok {ts : List Transaction} {sender : Hash160} {sum back : Amount}
    (h : freed sender sum ts = .ok back) : back = sum + (ts.map (·.owes sender)).sum := by
  induction ts generalizing sum with
  | nil =>
    cases h
    rfl
  | cons t rest ih =>
    obtain ⟨s, hs, h⟩ := ok_of_bind h
    have howes := Transaction.owes_of_sender (sender?_of_sender hs) sender
    rw [List.map_cons, List.sum_cons, howes]
    split at h
    · rename_i hsame
      obtain ⟨more, hmore, h⟩ := ok_of_bind h
      obtain ⟨-, rfl⟩ := Amount.of_add hmore
      rw [ih h, if_pos hsame.symm, Nat.add_assoc]
    · rename_i hother
      rw [ih h, if_neg fun heq => hother heq.symm, Nat.zero_add]

/-- Where no request stands in the way, what a sender holds and gets back is
compared with what it would have to pay. -/
theorem check_eq {b : FeeBook} {ts : List Transaction} {sender : Hash160} {held : Amount}
    (hfree : b.oracleTaken? t = none) (hs : t.sender? = some sender)
    (hheld : Gas.balance c sender = .ok held) (hts : ∀ t ∈ ts, ∃ s, t.sender? = some s)
    (hback : held + (ts.map (·.owes sender)).sum < Amount.limit)
    (hfees : t.fee + b.total sender < Amount.limit) :
    b.check t ts c = .ok
      (if held + (ts.map (·.owes sender)).sum < t.fee + b.total sender then
        .insufficientFunds sender (held + (ts.map (·.owes sender)).sum) (t.fee + b.total sender)
      else .granted) := by
  have hfreed := freed_eq hts sender 0 (by
    rw [Nat.zero_add]
    exact Nat.lt_of_le_of_lt (Nat.le_add_left _ _) hback)
  rw [Nat.zero_add] at hfreed
  have hrequired : Amount.add t.fee (b.total sender) = .ok (t.fee + b.total sender) := if_pos hfees
  have havailable : Amount.add held (ts.map (·.owes sender)).sum =
      .ok (held + (ts.map (·.owes sender)).sum) := if_pos hback
  unfold check
  rw [hfree]
  dsimp only
  rw [sender_of_sender? hs, ok_bind, hheld, ok_bind, hfreed, ok_bind, hrequired, ok_bind,
    havailable, ok_bind]
  rfl

/-- A check passes if the request is open, no sum runs over and the sender holds
enough with what it gets back. -/
theorem check_granted_iff {b : FeeBook} {ts : List Transaction} {sender : Hash160}
    {held back : Amount} (hs : t.sender? = some sender) (hheld : Gas.balance c sender = .ok held)
    (hback : freed sender 0 ts = .ok back) :
    b.check t ts c = .ok .granted ↔ b.oracleTaken? t = none ∧
      t.fee + b.total sender < Amount.limit ∧ held + back < Amount.limit ∧
      t.fee + b.total sender ≤ held + back := by
  constructor
  · intro h
    obtain ⟨hfree, sender', held', back', hs', hheld', hback', hsums⟩ := Pool.check_granted h
    rw [hs] at hs'
    cases hs'
    rw [hheld] at hheld'
    cases hheld'
    rw [hback] at hback'
    cases hback'
    exact ⟨hfree, hsums⟩
  · rintro ⟨hfree, hfees, hfit, henough⟩
    have hrequired : Amount.add t.fee (b.total sender) = .ok (t.fee + b.total sender) :=
      if_pos hfees
    have havailable : Amount.add held back = .ok (held + back) := if_pos hfit
    unfold check
    rw [hfree]
    dsimp only
    rw [sender_of_sender? hs, ok_bind, hheld, ok_bind, hback, ok_bind, hrequired, ok_bind,
      havailable, ok_bind, if_neg (Nat.not_lt.2 henough)]
    rfl

/-- If nothing is evicted, the sender is to hold the fees of all that it has in
the book and of the new transaction. -/
theorem check_nil_granted_iff (b : FeeBook) (t : Transaction) (c : Cache) :
    b.check t [] c = .ok .granted ↔ b.oracleTaken? t = none ∧ ∃ sender held,
      t.sender? = some sender ∧ Gas.balance c sender = .ok held ∧
      t.fee + b.total sender ≤ held := by
  constructor
  · intro h
    obtain ⟨hfree, sender, held, back, hs, hheld, hback, -, -, henough⟩ := Pool.check_granted h
    cases hback
    exact ⟨hfree, sender, held, hs, hheld, henough⟩
  · rintro ⟨hfree, sender, held, hs, hheld, henough⟩
    have hfit := Gas.balance_lt hheld
    exact (check_granted_iff hs hheld rfl).2
      ⟨hfree, Nat.lt_of_le_of_lt henough hfit, hfit, henough⟩

end FeeBook

theorem Transaction.fee_lt (t : Transaction) : t.fee < 2 ^ 65 := by
  have hsystem := t.systemFee.toNat_lt
  have hnetwork := t.networkFee.toNat_lt
  change t.systemFee.toNat + t.networkFee.toNat < 2 ^ 65
  omega

namespace Pool

variable {p p' : Pool} {capacity : Nat} {hash : Hash256} {evicted : SortedSet Hash256}

/-! ## The fees of a sender -/

theorem booked_foldl_erase (verified : SortedMap Hash256 Pooled) (hashes : List Hash256) :
    booked (hashes.foldl (fun m hash => m.erase hash) verified) none =
      hashes.foldl (fun m hash => m.erase hash) (booked verified none) := by
  induction hashes generalizing verified with
  | nil => rfl
  | cons hash rest ih => rw [List.foldl_cons, ih, booked_erase (by simp), List.foldl_cons]

/-- The pooled fees of a sender are those of some transactions and those of
the pool without them. -/
theorem feesOf_without (p : Pool) {hashes : List Hash256} (hd : hashes.Nodup) (sender : Hash160)
    (hp : p'.verified = hashes.foldl (fun m hash => m.erase hash) p.verified) :
    p'.feesOf sender + ((hashes.filterMap p.get?).map (·.owes sender)).sum = p.feesOf sender := by
  rw [← owed_booked, ← owed_booked, hp, booked_foldl_erase, ← funext (get?_booked_none p)]
  exact owed_foldl_erase hd _ sender

/-- A sender owes no more for some of its pooled transactions than for all. -/
theorem sum_owes_le_feesOf (p : Pool) {hashes : List Hash256} (hd : hashes.Nodup)
    (sender : Hash160) :
    ((hashes.filterMap p.get?).map (·.owes sender)).sum ≤ p.feesOf sender := by
  have herase := owed_foldl_erase hd (booked p.verified none) sender
  rw [funext (get?_booked_none p), owed_booked] at herase
  exact Nat.le.intro ((Nat.add_comm _ _).trans herase)

theorem feesOf_insert (hnew : p.verified.get? t.hash = none) (sender : Hash160) :
    (p.insert t).feesOf sender = p.feesOf sender + t.owes sender := by
  have hbooked : (booked p.verified none).get? t.hash = none := by
    rw [get?_booked_none, Pool.get?, hnew]
    rfl
  have hinsert : booked (p.insert t).verified none = (booked p.verified none).insert t.hash t :=
    SortedMap.mapValues_insert _ _ _ _
  rw [← owed_booked, ← owed_booked, hinsert, owed_insert hbooked]

/-- Once a transaction has joined, its sender holds enough for all that it has
pooled, and no other sender has more pooled than before. -/
theorem Sound.feesOf_accept (h : p.Sound none)
    (hplan : p.plan t c settings = .ok (.accept evicted)) (hp : p.Vacated t evicted p') :
    ∃ sender held, t.sender? = some sender ∧ Gas.balance c sender = .ok held ∧
      (p'.insert t).feesOf sender ≤ held ∧
      ∀ other, other ≠ sender → (p'.insert t).feesOf other ≤ p.feesOf other := by
  obtain ⟨-, -, -, hgranted⟩ := plan_accept hplan
  obtain ⟨-, sender, held, back, hs, hheld, hback, -, -, henough⟩ := check_granted hgranted
  have hleft (other : Hash160) :=
    feesOf_without p (SortedMap.nodup_keys evicted) other hp.verified
  have hjoin (other : Hash160) := feesOf_insert (hp.sound.fresh t rfl) other
  have hpooled : p.book.total sender = p.feesOf sender := h.listsSums.getD sender
  rw [hpooled, FeeBook.freed_ok hback] at henough
  refine ⟨sender, held, hs, hheld, ?_, fun other hother => ?_⟩
  · have hsender := hleft sender
    rw [hjoin, Transaction.owes_of_sender hs, if_pos rfl]
    unfold Amount at *
    omega
  · have hother' := hleft other
    rw [hjoin, Transaction.owes_of_sender hs, if_neg hother]
    omega

/-! ## Pools that every sender can pay for -/

/-- A pool in order, where every sender holds the sum of its pooled fees. -/
structure Solvent (p : Pool) (capacity : Nat) (c : Cache) : Prop extends p.Kept capacity where
  covered (sender : Hash160) : ∃ held, Gas.balance c sender = .ok held ∧ p.feesOf sender ≤ held

namespace Solvent

theorem empty (hl : Legible c) (capacity : Nat) : (Pool.empty capacity).Solvent capacity c := by
  refine ⟨kept_empty capacity, fun sender => ?_⟩
  obtain ⟨held, hheld, -⟩ := hl.balance sender
  exact ⟨held, hheld, Nat.zero_le _⟩

/-- The check of a new transaction compares two sums that cannot run over. -/
theorem check_eq (h : p.Solvent capacity c) (hl : Legible c) {sender : Hash160}
    (hfree : p.book.oracleTaken? t = none) (hs : t.sender? = some sender)
    (evicted : SortedSet Hash256) : ∃ held back, Gas.balance c sender = .ok held ∧
      back = ((evicted.keys.filterMap p.get?).map (·.owes sender)).sum ∧
      p.book.check t (evicted.keys.filterMap p.get?) c = .ok
        (if held + back < t.fee + p.feesOf sender then
          .insufficientFunds sender (held + back) (t.fee + p.feesOf sender)
        else .granted) := by
  obtain ⟨held, hheld, hcovered⟩ := h.covered sender
  obtain ⟨held', hheld', hsmall⟩ := hl.balance sender
  rw [hheld] at hheld'
  cases hheld'
  have hsigned : ∀ u ∈ evicted.keys.filterMap p.get?, ∃ s, u.sender? = some s := by
    intro u hu
    obtain ⟨hash, -, hget⟩ := List.mem_filterMap.1 hu
    exact exists_sender (h.sound.get?_eq_some hget).2.2
  have hback := sum_owes_le_feesOf p (SortedMap.nodup_keys evicted) sender
  have htotal : p.book.total sender = p.feesOf sender := h.sound.listsSums.getD sender
  have hpooled : p.feesOf sender < 2 ^ 64 := Nat.lt_of_le_of_lt hcovered hsmall
  refine ⟨held, _, hheld, rfl, ?_⟩
  rw [← htotal]
  apply FeeBook.check_eq hfree hs hheld hsigned
  · exact Nat.lt_trans (Nat.add_lt_add hsmall (Nat.lt_of_le_of_lt hback hpooled)) (by decide)
  · rw [htotal]
    exact Nat.lt_trans (Nat.add_lt_add t.fee_lt hpooled) (by decide)

theorem planInPool (h : p.Solvent capacity c) (hl : Legible c) (halone : checkAlone t = .succeed) :
    Succeeds (p.planInPool t c) := by
  obtain ⟨sender, hs⟩ := exists_sender halone
  unfold Pool.planInPool
  split
  · exact .ok _
  · split
    · exact .ok _
    · rename_i evicted _
      apply Succeeds.map
      rcases hfree : p.book.oracleTaken? t with _ | id
      · obtain ⟨held, back, -, -, hcheck⟩ := h.check_eq hl hfree hs evicted
        exact ⟨_, hcheck⟩
      · unfold FeeBook.check
        rw [hfree]
        exact .ok _

/-- Every check of an offer comes to a result. -/
theorem plan (h : p.Solvent capacity c) (hl : Legible c) (t : Transaction) (settings : Settings) :
    Succeeds (p.plan t c settings) := by
  unfold Pool.plan
  refine .ite (.ok _) ?_
  split
  · rename_i halone
    refine .bind (hl.checkOnChain t settings) fun _ _ => ?_
    split
    · exact h.planInPool hl halone
    · exact .ok _
  · exact .ok _

/-- An accepted transaction is one more that its sender can pay for. -/
theorem accept (h : p.Solvent capacity c) (hplan : p.plan t c settings = .ok (.accept evicted))
    (hp : p.Vacated t evicted p') : (p'.insert t).Solvent capacity c := by
  refine ⟨h.toKept.accept hplan hp, fun other => ?_⟩
  obtain ⟨sender, held, -, hheld, hpays, hothers⟩ := h.sound.feesOf_accept hplan hp
  by_cases hother : other = sender
  · exact ⟨held, by rw [hother, hheld], by rwa [hother]⟩
  · obtain ⟨held, hheld, hcovered⟩ := h.covered other
    exact ⟨held, hheld, Nat.le_trans (hothers other hother) hcovered⟩

/-- An offer always comes to a verdict, and every sender can still pay. -/
theorem offer (h : p.Solvent capacity c) (hl : Legible c) (t : Transaction)
    (settings : Settings) :
    ∃ verdict p', p.offer t c settings = (.ok verdict, p') ∧ p'.Solvent capacity c := by
  rcases h.sound.offer_cases t c settings with
    ⟨f, hplan, -⟩ | ⟨verdict, -, hr⟩ | ⟨evicted, p', hplan, hp, hr⟩
  · obtain ⟨plan, hok⟩ := h.plan hl t settings
    rw [hplan] at hok
    cases hok
  · exact ⟨verdict, p, hr, h⟩
  · exact ⟨.succeed, p'.insert t, hr, h.accept hplan hp⟩

theorem remove (h : p.Solvent capacity c) (hash : Hash256) :
    ∃ gone p', p.remove hash = (.ok gone, p') ∧ p'.Solvent capacity c := by
  obtain ⟨gone, p', hrun, hkept, hverified⟩ := h.toKept.remove hash
  refine ⟨gone, p', hrun, hkept, fun sender => ?_⟩
  obtain ⟨held, hheld, hcovered⟩ := h.covered sender
  have hleft := feesOf_without p (List.nodup_singleton hash) sender hverified
  exact ⟨held, hheld, Nat.le_trans (Nat.le.intro hleft) hcovered⟩

theorem reenter (h : p.Solvent capacity c) (hl : Legible c) (settings : Settings)
    (items : List Pooled) :
    ∃ refused p', p.reenter c settings items = (.ok refused, p') ∧ p'.Solvent capacity c := by
  induction items generalizing p with
  | nil => exact ⟨[], p, rfl, h⟩
  | cons item rest ih =>
    obtain ⟨verdict, p₁, hoffer, h₁⟩ := h.offer hl item.transaction settings
    obtain ⟨more, p', hrest, h'⟩ := ih h₁
    have hall : p.reenter c settings (item :: rest) =
        (.ok (if verdict = .succeed then more else item.priority.hash :: more), p') := by
      simp only [Pool.reenter, hoffer, hrest]
    exact ⟨_, p', hall, h'⟩

end Solvent

/-- After a block the pool is filled anew, so it does not matter where the
senders could pay before. -/
theorem Kept.solvent_update (h : p.Kept capacity) (hl : Legible c) (block : Block)
    (settings : Settings) :
    ∃ gone p', p.update block c settings = (.ok gone, p') ∧ p'.Solvent capacity c := by
  obtain ⟨swept, s, -, -, -, -, heq⟩ := h.update_eq_reenter block c settings
  obtain ⟨refused, p', hrest, h'⟩ := (Solvent.empty hl capacity).reenter hl settings s.ranked
  rw [hrest] at heq
  exact ⟨swept ++ refused, p', heq, h'⟩

/-! ## Transactions that stay away -/

/-- An offer brings in the offered transaction only. -/
theorem Sound.get?_offer (h : p.Sound none) (hnone : p.verified.get? hash = none)
    (hne : t.hash ≠ hash) (c : Cache) (settings : Settings) :
    (p.offer t c settings).2.verified.get? hash = none := by
  rcases h.offer_cases t c settings with
    ⟨f, -, hr⟩ | ⟨verdict, -, hr⟩ | ⟨evicted, p', -, hp, hr⟩ <;> rw [hr]
  · exact hnone
  · exact hnone
  · unfold Pool.insert
    dsimp only
    rw [SortedMap.get?_insert, if_neg hne.symm, hp.verified, SortedMap.get?_foldl_erase, hnone,
      ite_self]

theorem Kept.get?_reenter (h : p.Kept capacity) (hnone : p.verified.get? hash = none)
    {items : List Pooled} (hne : ∀ item ∈ items, item.transaction.hash ≠ hash) (c : Cache)
    (settings : Settings) : (p.reenter c settings items).2.verified.get? hash = none := by
  have hkeeps : ∀ item ∈ items, ∀ p : Pool, p.Kept capacity ∧ p.verified.get? hash = none →
      (p.offer item.transaction c settings).2.Kept capacity ∧
        (p.offer item.transaction c settings).2.verified.get? hash = none := by
    rintro item hitem p ⟨hkept, hnone⟩
    exact ⟨hkept.offer _ c settings, hkept.sound.get?_offer hnone (hne item hitem) c settings⟩
  exact (reenter_keeps hkeeps ⟨h, hnone⟩).2

theorem get?_of_mem_ranked {item : Pooled} (h : item ∈ p.ranked) :
    ∃ hash, p.verified.get? hash = some item := by
  unfold ranked at h
  rw [List.mem_mergeSort] at h
  obtain ⟨⟨hash, item⟩, hmem, rfl⟩ := List.mem_map.1 h
  exact ⟨hash, SortedMap.get?_eq_some_iff.2 hmem⟩

/-- The transactions of a block leave the pool and stay away, and it is told
which of them were in. -/
theorem Kept.update_leaves (h : p.Kept capacity) {block : Block} {gone : List Hash256}
    (hr : p.update block c settings = (.ok gone, p')) (ht : t ∈ block.transactions) :
    p'.contains t.hash = false ∧ (p.contains t.hash = true → t.hash ∈ gone) := by
  obtain ⟨left, s, -, hs, hleft, hstays, heq⟩ := h.update_eq_reenter block c settings
  have hout : s.verified.get? t.hash = none := by
    rcases hitem : s.verified.get? t.hash with _ | item
    · rfl
    · have hget : s.get? t.hash = some item.transaction := by
        rw [Pool.get?, hitem]
        rfl
      exact absurd (.inl (hs.sound.keyed t.hash item hitem).1) (((hstays _ _).1 hget).2 t ht)
  have hothers : ∀ item ∈ s.ranked, item.transaction.hash ≠ t.hash := by
    intro item hitem hsame
    obtain ⟨hash, hget⟩ := get?_of_mem_ranked hitem
    rw [← hsame, (hs.sound.keyed hash item hget).1, hget] at hout
    cases hout
  have hstay := (kept_empty capacity).get?_reenter rfl hothers c settings
  rw [heq] at hr
  rcases hm : (Pool.empty capacity).reenter c settings s.ranked with ⟨f | refused, p''⟩
  · rw [hm] at hr
    cases hr
  · rw [hm] at hr hstay
    cases hr
    refine ⟨by rw [Pool.contains, SortedMap.contains, hstay]; rfl, fun hin => ?_⟩
    obtain ⟨item, hitem⟩ := SortedMap.contains_iff.1 hin
    have hgone := hleft.without t.hash
    rw [hout, hitem] at hgone
    by_cases hmem : t.hash ∈ left
    · exact List.mem_append_left _ hmem
    · rw [if_neg hmem] at hgone
      cases hgone

end Pool
end BlockLedger
