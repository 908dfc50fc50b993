-- What an eviction sets free. A check of the fee book counts the fees of the
-- evicted transactions as if these had left. The requests that they answer
-- still count as taken, so such a check refuses more than one on the book
-- without them does.
import BlockLedger.Proofs.Solvency

namespace BlockLedger.FeeBook

/-! ## Books and what is booked -/

/-- The books that successful bookings and removals of booked transactions lead
to, with the transactions that are booked. One may be booked more than once. -/
inductive Filled : FeeBook → List Transaction → Prop where
  | empty : Filled .empty []
  | add {b b' : FeeBook} {ts : List Transaction} {t : Transaction} :
    Filled b ts → b.add t = (.ok (), b') → Filled b' (t :: ts)
  | remove {b b' : FeeBook} {ts : List Transaction} {t : Transaction} :
    Filled b ts → t ∈ ts → b.remove t = .ok b' → Filled b' (ts.erase t)

/-- Whether one of some transactions with a hash answers a request. -/
def Answered (ts : List Transaction) (id : UInt64) (hash : Hash256) : Prop :=
  ∃ t ∈ ts, t.oracleId? = some id ∧ t.hash = hash

/-- Two transactions do not answer the same request. -/
def Apart (t u : Transaction) : Prop := ∀ id, t.oracleId? = some id → u.oracleId? ≠ some id

/-- A book that counts exactly the booked transactions. -/
structure Counts (b : FeeBook) (ts : List Transaction) : Prop where
  signed : ∀ t ∈ ts, ∃ sender, t.sender? = some sender
  totals : ListsSums b.totals (owedFor ts)
  fits (sender : Hash160) : owedFor ts sender < Amount.limit
  oracles : ListsPairs b.oracles (Answered ts)
  once : ts.Pairwise Apart

variable {b b' : FeeBook} {ts es rest : List Transaction} {t : Transaction} {c : Cache}
  {sender : Hash160} {held back : Amount}

theorem Apart.symm {u : Transaction} (h : Apart t u) : Apart u t := fun id hu ht => h id ht hu

/-! ## Bookings -/

/-- A booking succeeds only for a signed transaction, with an open request and
with fees that fit. -/
theorem of_add_ok (h : b.add t = (.ok (), b')) :
    (∀ id ∈ t.oracleId?, b.oracles.get? id = none) ∧ ∃ sender, t.sender? = some sender ∧
      (t.fee ≠ 0 → b.total sender + t.fee < Amount.limit) := by
  unfold FeeBook.add at h
  rcases horacle : b.addOracle t with e | b₁ <;> rw [horacle] at h
  · cases h
  rcases hfee : b₁.addFee t with f | b₂ <;> simp only [hfee] at h
  · cases h
  unfold FeeBook.addOracle at horacle
  have hopen : (∀ id ∈ t.oracleId?, b.oracles.get? id = none) ∧ b₁.totals = b.totals := by
    rcases hid : t.oracleId? with _ | id
    · rw [hid] at horacle
      cases horacle
      exact ⟨by simp, rfl⟩
    · simp only [hid] at horacle
      split at horacle
      · cases horacle
      · rename_i hnone
        cases horacle
        exact ⟨by simpa using hnone, rfl⟩
  obtain ⟨hopen, hsame⟩ := hopen
  refine ⟨hopen, ?_⟩
  unfold FeeBook.addFee at hfee
  obtain ⟨sender, hs, hfee⟩ := ok_of_bind hfee
  refine ⟨sender, sender?_of_sender hs, fun hne => ?_⟩
  rw [if_neg hne] at hfee
  obtain ⟨sum, hsum, -⟩ := ok_of_bind hfee
  have hfit := (Amount.of_add hsum).1
  unfold FeeBook.total at hfit ⊢
  rwa [hsame] at hfit

namespace Counts

theorem empty : Counts .empty [] where
  signed := by simp
  totals _ := rfl
  fits _ := (by decide : 0 < Amount.limit)
  oracles id hash := by
    constructor
    · intro h
      cases h
    · rintro ⟨t, ht, -⟩
      cases ht
  once := .nil

theorem total_eq (h : Counts b ts) (sender : Hash160) : b.total sender = owedFor ts sender :=
  h.totals.getD sender

theorem add (h : Counts b ts) (hadd : b.add t = (.ok (), b')) : Counts b' (t :: ts) := by
  obtain ⟨hopen, sender, hs, hfit⟩ := of_add_ok hadd
  rw [h.total_eq] at hfit
  have hsum : ∀ s, owedFor (t :: ts) s = owedFor ts s + t.owes s := by
    intro s
    unfold owedFor
    rw [List.map_cons, List.sum_cons, Nat.add_comm]
  have hfits : owedFor ts sender + t.fee < Amount.limit := by
    by_cases hfee : t.fee = 0
    · rw [hfee]
      exact h.fits sender
    · exact hfit hfee
  have hr : ∀ id hash, Answered (t :: ts) id hash ↔
      Answered ts id hash ∨ t.oracleId? = some id ∧ hash = t.hash := by
    intro id hash
    simp only [Answered, List.exists_mem_cons_iff, eq_comm (a := hash)]
    exact or_comm
  obtain ⟨b'', hadd', htotals, horacles⟩ := add_ok h.totals h.oracles hs hfits hsum hopen hr
  rw [hadd] at hadd'
  cases hadd'
  refine ⟨List.forall_mem_cons.2 ⟨⟨sender, hs⟩, h.signed⟩, htotals, fun s => ?_, horacles,
    List.pairwise_cons.2 ⟨fun u hu id ht hid => ?_, h.once⟩⟩
  · rw [hsum, Transaction.owes_of_sender hs]
    by_cases hsame : s = sender
    · rwa [if_pos hsame, hsame]
    · rw [if_neg hsame]
      exact h.fits s
  · -- Another owner would have stood in the way of the booking.
    have howner := (h.oracles id u.hash).2 ⟨u, hu, hid, rfl⟩
    rw [hopen id ht] at howner
    cases howner

/-- Any booked transaction can be taken out. -/
theorem remove (h : Counts b ts) (ht : t ∈ ts) :
    ∃ b', b.remove t = .ok b' ∧ Counts b' (ts.erase t) := by
  obtain ⟨sender, hs⟩ := h.signed t ht
  have hperm := List.perm_cons_erase ht
  have honce := (hperm.pairwise_iff Apart.symm).1 h.once
  obtain ⟨hapart, honce⟩ := List.pairwise_cons.1 honce
  have hrest : ∀ s, owedFor (ts.erase t) s + t.owes s = owedFor ts s := by
    intro s
    rw [owedFor_perm hperm]
    exact Nat.add_comm _ _
  have hr : ∀ id hash, Answered (ts.erase t) id hash ↔
      Answered ts id hash ∧ t.oracleId? ≠ some id := by
    intro id hash
    constructor
    · rintro ⟨u, hu, hid, hhash⟩
      exact ⟨⟨u, List.mem_of_mem_erase hu, hid, hhash⟩, fun htid => hapart u hu id htid hid⟩
    · rintro ⟨⟨u, hu, hid, hhash⟩, hother⟩
      have hne : u ≠ t := by
        rintro rfl
        exact hother hid
      exact ⟨u, (List.mem_erase_of_ne hne).2 hu, hid, hhash⟩
  obtain ⟨b', hremove, htotals, horacles⟩ := remove_ok h.totals h.oracles hs hrest
    (fun id hid => ⟨t, ht, hid, rfl⟩) hr
  exact ⟨b', hremove, fun u hu => h.signed u (List.mem_of_mem_erase hu), htotals,
    fun s => Nat.lt_of_le_of_lt (Nat.le.intro (hrest s)) (h.fits s), horacles, honce⟩

end Counts

theorem Filled.counts (h : Filled b ts) : Counts b ts := by
  induction h with
  | empty => exact .empty
  | add _ hadd ih => exact ih.add hadd
  | remove _ ht hremove ih =>
    obtain ⟨b', hremove', hcounts⟩ := ih.remove ht
    rw [hremove] at hremove'
    cases hremove'
    exact hcounts

/-! ## Evictions -/

/-- The book without some transactions. -/
def removeEach (b : FeeBook) (es : List Transaction) : Outcome FeeBook := es.foldlM FeeBook.remove b

theorem Counts.removeEach (h : Counts b ts) (hd : es.Nodup) (hin : ∀ e ∈ es, e ∈ ts) :
    ∃ b' rest, b.removeEach es = .ok b' ∧ (es ++ rest).Perm ts ∧ Counts b' rest := by
  induction es generalizing b ts with
  | nil => exact ⟨b, ts, rfl, .refl ts, h⟩
  | cons e es ih =>
    obtain ⟨hnot, hd⟩ := List.nodup_cons.1 hd
    have he := hin e List.mem_cons_self
    obtain ⟨b₁, hremove, h₁⟩ := h.remove he
    have hleft : ∀ e' ∈ es, e' ∈ ts.erase e := by
      intro e' he'
      have hne : e' ≠ e := by
        rintro rfl
        exact hnot he'
      exact (List.mem_erase_of_ne hne).2 (hin e' (List.mem_cons_of_mem e he'))
    obtain ⟨b', rest, hrun, hperm, h'⟩ := ih h₁ hd hleft
    refine ⟨b', rest, ?_, (hperm.cons e).trans (List.perm_cons_erase he).symm, h'⟩
    unfold FeeBook.removeEach
    rw [List.foldlM_cons, hremove, ok_bind]
    exact hrun

/-! ## Checks -/

/-- A request is taken if a booked transaction with another hash answers it. -/
theorem Counts.oracleTaken?_eq_none_iff (h : Counts b ts) (t : Transaction) :
    b.oracleTaken? t = none ↔
      ∀ id, t.oracleId? = some id → ∀ u ∈ ts, u.oracleId? = some id → u.hash = t.hash := by
  rw [Option.eq_none_iff_forall_ne_some]
  constructor
  · intro hfree id hid u hu huid
    by_contra hne
    have howner := (h.oracles id u.hash).2 ⟨u, hu, huid, rfl⟩
    exact hfree id ((oracleTaken?_eq_some_iff b t id).2 ⟨hid, u.hash, howner, hne⟩)
  · intro hsame id htaken
    obtain ⟨hid, owner, howner, hne⟩ := (oracleTaken?_eq_some_iff b t id).1 htaken
    obtain ⟨u, hu, huid, rfl⟩ := (h.oracles id owner).1 howner
    exact hne (hsame id hid u hu huid)

/-- A check that passes found the sender and what it holds. -/
theorem exists_held_of_granted (h : b.check t es c = .ok .granted) :
    ∃ sender held, t.sender? = some sender ∧ Gas.balance c sender = .ok held := by
  obtain ⟨-, sender, held, -, hs, hheld, -⟩ := Pool.check_granted h
  exact ⟨sender, held, hs, hheld⟩

theorem Counts.freed_eq (h : Counts b ts) (hperm : (es ++ rest).Perm ts) (sender : Hash160) :
    freed sender 0 es = .ok (owedFor es sender) := by
  have hfit : owedFor es sender < Amount.limit := by
    apply Nat.lt_of_le_of_lt _ (h.fits sender)
    rw [← owedFor_perm hperm, owedFor_append]
    exact Nat.le_add_right _ _
  have hsigned : ∀ e ∈ es, ∃ s, e.sender? = some s :=
    fun e he => h.signed e (hperm.subset (List.mem_append_left _ he))
  have hfreed := FeeBook.freed_eq hsigned sender 0
  unfold owedFor at hfit ⊢
  rw [Nat.zero_add] at hfreed
  exact hfreed hfit

/-- Fees that are in the book and set free as well cancel out, if they fit
together with the balance. -/
theorem fees_cancel {fee back kept held : Nat} :
    (fee + (back + kept) < Amount.limit ∧ held + back < Amount.limit ∧
      fee + (back + kept) ≤ held + back) ↔
    (fee + kept < Amount.limit ∧ held + 0 < Amount.limit ∧ fee + kept ≤ held + 0) ∧
      held + back < Amount.limit := by
  omega

/-- Any booked transactions can be taken out, and then the fees count as they
did in the check with these transactions as the evicted ones. The requests do
not: one that an evicted transaction answers is still taken in that check. And
what the evicted transactions give back must fit together with the balance. -/
theorem evictions_free_fees_only (h : Filled b ts) (hd : es.Nodup) (hin : ∀ e ∈ es, e ∈ ts)
    (t : Transaction) (c : Cache) :
    ∃ b', b.removeEach es = .ok b' ∧
      (b.check t es c = .ok .granted ↔ b'.check t [] c = .ok .granted ∧
        (∀ id, t.oracleId? = some id → ∀ e ∈ es, e.oracleId? = some id → e.hash = t.hash) ∧
        ∀ sender held, t.sender? = some sender → Gas.balance c sender = .ok held →
          held + owedFor es sender < Amount.limit) ∧
      ∀ id, t.oracleId? = some id → ∀ e ∈ es, e.oracleId? = some id → e.hash ≠ t.hash →
        b.check t es c = .ok (.duplicateOracle id) := by
  have hcounts := h.counts
  obtain ⟨b', rest, hrun, hperm, hcounts'⟩ := hcounts.removeEach hd hin
  refine ⟨b', hrun, ?_, fun id hid e he heid hne => ?_⟩
  · by_cases hpayer : ∃ sender held, t.sender? = some sender ∧ Gas.balance c sender = .ok held
    · obtain ⟨sender, held, hs, hheld⟩ := hpayer
      have hopen : b.oracleTaken? t = none ↔ b'.oracleTaken? t = none ∧
          ∀ id, t.oracleId? = some id → ∀ e ∈ es, e.oracleId? = some id → e.hash = t.hash := by
        simp only [hcounts.oracleTaken?_eq_none_iff, hcounts'.oracleTaken?_eq_none_iff,
          ← hperm.mem_iff, List.mem_append, or_imp, forall_and]
        exact and_comm
      have hfits : (∀ s amount, t.sender? = some s → Gas.balance c s = .ok amount →
          amount + owedFor es s < Amount.limit) ↔ held + owedFor es sender < Amount.limit := by
        refine ⟨fun hall => hall sender held hs hheld, fun hfit s amount hs' hamount => ?_⟩
        rw [hs] at hs'
        cases hs'
        rw [hheld] at hamount
        cases hamount
        exact hfit
      rw [check_granted_iff hs hheld (hcounts.freed_eq hperm sender),
        check_granted_iff hs hheld rfl, hcounts.total_eq, hcounts'.total_eq,
        ← owedFor_perm hperm, owedFor_append, fees_cancel, hopen, hfits]
      tauto
    · -- Without a sender or a balance neither check passes.
      constructor
      · exact fun hgranted => absurd (exists_held_of_granted hgranted) hpayer
      · exact fun hboth => absurd (exists_held_of_granted hboth.1) hpayer
  · have howner := (hcounts.oracles id e.hash).2 ⟨e, hin e he, heid, rfl⟩
    have htaken := (oracleTaken?_eq_some_iff b t id).2 ⟨hid, e.hash, howner, hne⟩
    unfold check
    rw [htaken]

/-- A transaction that answers a request, with a nonce. -/
def answer (nonce : UInt32) : Transaction :=
  (Transaction.ofContent? ⟨0, nonce, 5, 3, 10, [⟨Sample.holder, 1⟩], [.oracleResponse 7 0 []],
    [1]⟩).getD default

/-- The book with one answer. -/
def answered : FeeBook := (FeeBook.empty.add (answer 1)).2

theorem filled_answered : Filled answered [answer 1] := by
  have hok : (FeeBook.empty.add (answer 1)).1.isOk = true := by decide +kernel
  refine .add .empty (Prod.ext ?_ rfl)
  rcases hadd : (FeeBook.empty.add (answer 1)).1 with e | u
  · rw [hadd] at hok
    cases hok
  · rfl

/-- Once the booked answer has left, another one may join. -/
theorem open_without_answer : ∃ b', answered.removeEach [answer 1] = .ok b' ∧
    b'.check (answer 2) [] Pool.scarce = .ok .granted := by
  have hpasses : (match answered.removeEach [answer 1] with
      | .ok b' => match b'.check (answer 2) [] Pool.scarce with
        | .ok .granted => true
        | _ => false
      | .error _ => false) = true := by decide +kernel
  rcases hrun : answered.removeEach [answer 1] with f | b' <;> rw [hrun] at hpasses
  · cases hpasses
  · refine ⟨b', rfl, ?_⟩
    dsimp only at hpasses
    split at hpasses
    · assumption
    · cases hpasses

/-- The other answer to the request is turned away, although the one that is
booked would leave. -/
theorem sample_eviction : ∃ b', answered.removeEach [answer 1] = .ok b' ∧
    b'.check (answer 2) [] Pool.scarce = .ok .granted ∧
    answered.check (answer 2) [answer 1] Pool.scarce = .ok (.duplicateOracle 7) := by
  have hanswers : (answer 2).oracleId? = some 7 ∧ (answer 1).oracleId? = some 7 ∧
      (answer 1).hash ≠ (answer 2).hash := by decide +kernel
  obtain ⟨h2, h1, hne⟩ := hanswers
  obtain ⟨b', hrun, -, hrefused⟩ := evictions_free_fees_only filled_answered
    (List.nodup_singleton (answer 1)) (fun e he => he) (answer 2) Pool.scarce
  obtain ⟨b'', hrun', hpasses⟩ := open_without_answer
  rw [hrun] at hrun'
  cases hrun'
  exact ⟨b', hrun, hpasses, hrefused 7 h2 (answer 1) List.mem_cons_self h1 hne⟩

/-- A check with evictions is not a check of the book without the evicted
transactions. -/
theorem not_every_eviction_counts : ¬ ∀ (b b' : FeeBook) (ts es : List Transaction)
    (t : Transaction) (c : Cache), Filled b ts → es.Nodup → (∀ e ∈ es, e ∈ ts) → t ∉ ts →
      b.removeEach es = .ok b' →
      (b.check t es c = .ok .granted ↔ b'.check t [] c = .ok .granted) := by
  intro hall
  have hnew : answer 2 ∉ [answer 1] := by decide +kernel
  obtain ⟨b', hrun, hpasses⟩ := open_without_answer
  have hgranted := (hall answered b' [answer 1] [answer 1] (answer 2) Pool.scarce filled_answered
    (List.nodup_singleton _) (fun _ he => he) hnew hrun).2 hpasses
  have htaken : (answered.oracleTaken? (answer 2)).isSome = true := by decide +kernel
  obtain ⟨id, hid⟩ := Option.isSome_iff_exists.1 htaken
  unfold check at hgranted
  rw [hid] at hgranted
  cases hgranted

end BlockLedger.FeeBook
