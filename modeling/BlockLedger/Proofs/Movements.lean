-- The movements of the fee asset. A mint, a burn and a transfer write to
-- balances and give a notice. What the notices tell is what happens to the
-- balances, so the two can be settled against each other.
import BlockLedger.Proofs.Accounts
import BlockLedger.Proofs.Steps

namespace BlockLedger.Gas

/-! ## What notices tell -/

/-- An amount that goes from one party to another. A party that is no account
is the asset itself. -/
structure Movement where
  source : Option Hash160
  target : Option Hash160
  amount : Nat

namespace Movement

/-- The notice of a movement. -/
def notice (v : Movement) : Notice :=
  ⟨Contract.gas.address, "Transfer", [partyItem v.source, partyItem v.target, .integer v.amount]⟩

/-- The sum of what a party sends in some movements. -/
def sent (party : Option Hash160) (vs : List Movement) : Nat :=
  (vs.map fun v => if v.source = party then v.amount else 0).sum

/-- The sum of what a party receives in some movements. -/
def received (party : Option Hash160) (vs : List Movement) : Nat :=
  (vs.map fun v => if v.target = party then v.amount else 0).sum

variable (party : Option Hash160) (v : Movement) (vs vs' : List Movement)

@[simp] theorem sent_nil : sent party [] = 0 := rfl

@[simp] theorem received_nil : received party [] = 0 := rfl

@[simp] theorem sent_cons :
    sent party (v :: vs) = (if v.source = party then v.amount else 0) + sent party vs := rfl

@[simp] theorem received_cons :
    received party (v :: vs) = (if v.target = party then v.amount else 0) + received party vs := rfl

theorem sent_append : sent party (vs ++ vs') = sent party vs + sent party vs' := by
  simp [sent]

theorem received_append : received party (vs ++ vs') = received party vs + received party vs' := by
  simp [received]

/-- A party that no movement starts from sends nothing. -/
theorem sent_eq_zero {party : Option Hash160} {vs : List Movement}
    (h : ∀ v ∈ vs, v.source ≠ party) : sent party vs = 0 := by
  induction vs with
  | nil => rfl
  | cons v rest ih =>
    rw [sent_cons, if_neg (h v List.mem_cons_self),
      ih fun u hu => h u (List.mem_cons_of_mem v hu)]

theorem received_eq_zero {party : Option Hash160} {vs : List Movement}
    (h : ∀ v ∈ vs, v.target ≠ party) : received party vs = 0 := by
  induction vs with
  | nil => rfl
  | cons v rest ih =>
    rw [received_cons, if_neg (h v List.mem_cons_self),
      ih fun u hu => h u (List.mem_cons_of_mem v hu)]

end Movement

/-! ## What movements do -/

open Movement

variable {c c' c'' : Cache} {owner : Hash160} {a : Account} {supply : Nat}

/-- Some movements settle the balances of a cache with those of another one:
what an account holds and has sent is what it held and has received, and the
supply grows by what the asset sends. -/
structure Settles (c : Cache) (vs : List Movement) (c' : Cache) : Prop where
  account (owner : Hash160) : ∃ before after, balance c owner = .ok before ∧
    balance c' owner = .ok after ∧ after + sent (some owner) vs = before + received (some owner) vs
  supply : ∃ before after, totalSupply c = .ok before ∧ totalSupply c' = .ok after ∧
    after + received none vs = before + sent none vs

theorem Settles.trans {vs vs' : List Movement} (h : Settles c vs c') (h' : Settles c' vs' c'') :
    Settles c (vs ++ vs') c'' where
  account owner := by
    obtain ⟨before, middle, hbefore, hmiddle, hsum⟩ := h.account owner
    obtain ⟨middle', after, hmiddle', hafter, hsum'⟩ := h'.account owner
    obtain rfl : middle = middle' := Except.ok.inj (hmiddle.symm.trans hmiddle')
    refine ⟨before, after, hbefore, hafter, ?_⟩
    rw [sent_append, received_append]
    unfold Amount at *
    omega
  supply := by
    obtain ⟨before, middle, hbefore, hmiddle, hsum⟩ := h.supply
    obtain ⟨middle', after, hmiddle', hafter, hsum'⟩ := h'.supply
    obtain rfl : middle = middle' := Except.ok.inj (hmiddle.symm.trans hmiddle')
    refine ⟨before, after, hbefore, hafter, ?_⟩
    rw [sent_append, received_append]
    unfold Amount at *
    omega

/-- Where no key of the asset changes, nothing moves. -/
theorem Sound.settles_nil (h : Sound c supply)
    (hc : ∀ key : Key, key.owner = Contract.gas.id → c'.get? key = c.get? key) :
    Settles c [] c' where
  account owner := by
    obtain ⟨b, hb⟩ := clean_account h.clean owner
    have hbalance := balance_of_account hb
    exact ⟨_, _, hbalance, (balance_congr (hc (accountKey owner) rfl)).trans hbalance, rfl⟩
  supply := ⟨supply, supply, h.total, (h.congr hc).total, rfl⟩

/-- An account and the supply change together when the other party is the
asset. -/
theorem Sound.settles_keep_put {old : Account} {v : Movement} {supply' : Nat} (h : Sound c supply)
    (ha : account c owner = .ok old) (hsmall : supply' < Amount.limit)
    (hparty : v = ⟨none, some owner, v.amount⟩ ∧ (a.balance : Nat) = old.balance + v.amount ∧
        supply' = supply + v.amount ∨
      v = ⟨some owner, none, v.amount⟩ ∧ (a.balance : Nat) + v.amount = old.balance ∧
        supply' + v.amount = supply) :
    Settles c [v] ((keep c owner a).put supplyKey (.raw (Amount.bytes supply'))) where
  account other := by
    have hafter := (balance_put_supply (keep c owner a) (.raw (Amount.bytes supply')) other).trans
      (balance_keep c owner a other)
    by_cases hother : other = owner
    · subst hother
      rw [if_pos rfl] at hafter
      refine ⟨_, _, balance_of_account ha, hafter, ?_⟩
      rcases hparty with ⟨hv, hbalance, -⟩ | ⟨hv, hbalance, -⟩ <;> rw [hv] <;> simp <;>
        (unfold Amount at *; omega)
    · obtain ⟨b, hb⟩ := clean_account h.clean other
      rw [if_neg hother, balance_of_account hb] at hafter
      refine ⟨_, _, balance_of_account hb, hafter, ?_⟩
      have hne : owner ≠ other := fun heq => hother heq.symm
      rcases hparty with ⟨hv, -⟩ | ⟨hv, -⟩ <;> rw [hv] <;> simp [hne]
  supply := by
    refine ⟨_, _, h.total, totalSupply_put hsmall, ?_⟩
    rcases hparty with ⟨hv, -, hsupply⟩ | ⟨hv, -, hsupply⟩ <;> rw [hv] <;> simp [hsupply]

/-- Two accounts change together when one sends to the other. -/
theorem Sound.settles_keep_keep {old old' a' : Account} {target : Hash160} {amount : Nat}
    (h : Sound c supply) (hne : owner ≠ target) (ha : account c owner = .ok old)
    (ha' : account (keep c owner a) target = .ok old')
    (hsource : (a.balance : Nat) + amount = old.balance)
    (htarget : (a'.balance : Nat) = old'.balance + amount) :
    Settles c [⟨some owner, some target, amount⟩] (keep (keep c owner a) target a') where
  account other := by
    have hbefore := balance_of_account ha'
    rw [balance_keep, if_neg hne.symm] at hbefore
    have hafter := balance_keep (keep c owner a) target a' other
    have hkept := balance_keep c owner a other
    by_cases htaker : other = target
    · subst htaker
      rw [if_pos rfl] at hafter
      refine ⟨_, _, hbefore, hafter, ?_⟩
      simp [hne, htarget]
    · have hnt : target ≠ other := fun heq => htaker heq.symm
      rw [if_neg htaker, hkept] at hafter
      by_cases hgiver : other = owner
      · subst hgiver
        rw [if_pos rfl] at hafter
        refine ⟨_, _, balance_of_account ha, hafter, ?_⟩
        simpa [hnt] using hsource
      · have hno : owner ≠ other := fun heq => hgiver heq.symm
        obtain ⟨b, hb⟩ := clean_account h.clean other
        rw [if_neg hgiver, balance_of_account hb] at hafter
        refine ⟨_, _, balance_of_account hb, hafter, ?_⟩
        simp [hnt, hno]
  supply := by
    refine ⟨_, _, h.total, ?_, rfl⟩
    rw [totalSupply_keep, totalSupply_keep, h.total]

/-- A movement of nothing, or from an account to itself, changes nothing. -/
theorem Sound.settles_self {source target : Hash160} {amount : Nat} (h : Sound c supply)
    (hstill : ¬ (amount ≠ 0 ∧ source ≠ target)) :
    Settles c [⟨some source, some target, amount⟩] c where
  account owner := by
    obtain ⟨b, hb⟩ := clean_account h.clean owner
    refine ⟨_, _, balance_of_account hb, balance_of_account hb, ?_⟩
    by_cases hzero : amount = 0
    · simp [hzero]
    · have hsame : source = target := Decidable.not_not.1 fun hne => hstill ⟨hzero, hne⟩
      simp [hsame]
  supply := ⟨_, _, h.total, h.total, rfl⟩

/-! ## Movements that are told -/

variable {m m' m'' : Machine}

/-- Some movements are made, and a notice is given of each. -/
structure Told (m : Machine) (vs : List Movement) (m' : Machine) : Prop where
  notices : m'.notices = m.notices ++ vs.map notice
  settles : Settles m.cache vs m'.cache

theorem Told.trans {vs vs' : List Movement} (h : Told m vs m') (h' : Told m' vs' m'') :
    Told m (vs ++ vs') m'' where
  notices := by rw [h'.notices, h.notices, List.map_append, List.append_assoc]
  settles := h.settles.trans h'.settles

theorem Sound.told_refl (h : Sound m.cache supply) : Told m [] m where
  notices := (List.append_nil _).symm
  settles := h.settles_nil fun _ _ => rfl

/-- What another contract does without a notice moves nothing. -/
theorem Sound.undisturbed {contract : Contract} (h : Sound m.cache supply)
    (hm : m.Matches contract.Foreign m') (hne : contract ≠ .gas) :
    Sound m'.cache supply ∧ Told m [] m' := by
  have hsame (key : Key) (ho : key.owner = Contract.gas.id) :
      m'.cache.get? key = m.cache.get? key := hm.get? key (Contract.foreign hne ho)
  refine ⟨h.congr hsame, ?_, h.settles_nil hsame⟩
  rw [hm.notices, List.map_nil, List.append_nil]

/-- An amount that a supply can hold fits a notice. -/
theorem run_notifyTransfer {amount : Amount} (h : amount < 2 ^ 64) (source target : Option Hash160)
    (m : Machine) : (notifyTransfer source target amount).run m =
      (.ok (), { m with notices := m.notices ++ [notice ⟨source, target, amount⟩] }) := by
  have hitem : amount.toItem = .ok (.integer amount) := by
    have hmax : amount ≤ StackItem.maxInteger := Nat.le_trans (Nat.le_of_lt h) (by decide)
    rw [Amount.toItem, if_pos hmax]
  rw [notifyTransfer, hitem, Run.run_notify, notice]

/-- To settle an account is to keep what it holds. -/
theorem run_settle (h : Clean m.cache) (owner : Hash160) (a : Account) :
    (settle owner a).run m = (.ok (), { m with cache := keep m.cache owner a }) := by
  obtain ⟨v, hv, -⟩ := h.shows owner
  unfold settle keep
  split
  · exact Run.run_delete _ m
  · have htouch : ∃ w item, (Run.touchValue (accountKey owner) (.ok Account.zero)).run m =
        (.ok w, { m with cache := m.cache.put (accountKey owner) item }) := by
      rw [Run.run_touchValue]
      rcases v with _ | w
      · exact ⟨_, _, by rw [Cache.touchValue_none hv]⟩
      · exact ⟨_, _, by rw [Cache.touchValue_some hv]⟩
    obtain ⟨w, item, hrun⟩ := htouch
    rw [Run.run_bind_of_ok hrun]
    unfold Run.putValue
    rw [Run.run_put, Cache.put_put]
    rfl

/-- To credit an account is to keep it with more. -/
theorem run_credit {old : Account} {amount : Nat} (h : Clean m.cache)
    (ha : account m.cache owner = .ok old) (hfit : old.balance + amount < Amount.limit)
    (hne : amount ≠ 0) : (credit owner amount).run m =
      (.ok (), { m with cache := keep m.cache owner ⟨old.balance + amount, hfit⟩ }) := by
  obtain ⟨v, hv, -⟩ := h.shows owner
  have htouch : ∃ item, (Run.touchValue (accountKey owner) (.ok Account.zero)).run m =
      (.ok old, { m with cache := m.cache.put (accountKey owner) item }) := by
    rw [account_of_shows hv] at ha
    cases ha
    rw [Run.run_touchValue]
    rcases v with _ | w
    · exact ⟨_, by rw [Cache.touchValue_none hv]; rfl⟩
    · exact ⟨_, by rw [Cache.touchValue_some hv]; rfl⟩
  obtain ⟨item, hrun⟩ := htouch
  have hcredit : old.credit amount = .ok ⟨old.balance + amount, hfit⟩ := dif_pos hfit
  have hkept : ¬ old.balance + amount = 0 := fun h => hne (Nat.add_eq_zero_iff.1 h).2
  unfold credit keep
  rw [Run.run_bind_of_ok hrun, hcredit, Run.run_bind_of_ok (Run.run_ofOutcome _ _)]
  unfold Run.putValue
  rw [Run.run_put, Cache.put_put, if_neg hkept]
  rfl

/-- After an account is kept the supply is still the old one. -/
theorem run_totalSupply_keep (h : Sound m.cache supply) (owner : Hash160) (a : Account) :
    (Run.query totalSupply).run { m with cache := keep m.cache owner a } =
      (.ok supply, { m with cache := keep m.cache owner a }) := by
  rw [Run.run_query]
  simp only [totalSupply_keep, h.total]

theorem run_account (ha : account m.cache owner = .ok a) :
    (Run.query fun c => account c owner).run m = (.ok a, m) := by
  rw [Run.run_query]
  simp only [ha]

/-- A mint adds to the supply. -/
theorem yields_mint {amount : Nat} (h : Sound m.cache supply) (hfit : supply + amount < 2 ^ 64)
    (owner : Hash160) :
    (mint owner amount).Yields m fun _ m' =>
      Sound m'.cache (supply + amount) ∧ ∃ vs, Told m vs m' := by
  unfold mint
  by_cases hzero : amount = 0
  · rw [if_pos hzero, hzero]
    exact ⟨(), m, rfl, h, [], h.told_refl⟩
  · obtain ⟨old, ha⟩ := clean_account h.clean owner
    have hle := h.balance_le ha
    have hlimit : old.balance + amount < Amount.limit := by
      apply Nat.lt_of_le_of_lt (Nat.add_le_add_right hle amount)
      exact Nat.lt_trans hfit (by decide)
    have hsupply : supply + amount < Amount.limit := Nat.lt_trans hfit (by decide)
    have hadd : Amount.add supply amount = .ok (supply + amount) := if_pos hsupply
    have hamount : amount < 2 ^ 64 := Nat.lt_of_le_of_lt (Nat.le_add_left _ _) hfit
    rw [if_neg hzero, Run.Yields, Run.run_bind_of_ok (run_credit h.clean ha hlimit hzero),
      Run.run_bind_of_ok (run_totalSupply_keep h owner _), hadd,
      Run.run_bind_of_ok (Run.run_ofOutcome _ _), setSupply, Run.run_bind_of_ok (Run.run_put _ _ _),
      run_notifyTransfer hamount]
    refine ⟨(), _, rfl, h.keep_put ha ?_ hfit, [⟨none, some owner, amount⟩], rfl,
      h.settles_keep_put ha hsupply (.inl ⟨rfl, rfl, rfl⟩)⟩
    change supply + amount + (old.balance : Nat) = supply + (old.balance + amount : Nat)
    unfold Amount at *
    omega

/-- A burn takes from the supply, if the account holds enough. -/
theorem yields_burn {amount : Nat} (h : Sound m.cache supply)
    (ha : account m.cache owner = .ok a) (hle : amount ≤ a.balance) :
    (burn owner amount).Yields m fun _ m' =>
      (∃ rest, rest + amount = supply ∧ Sound m'.cache rest) ∧
        (∀ other, balance m'.cache other =
          if other = owner then .ok (a.balance - amount) else balance m.cache other) ∧
        ∃ vs, Told m vs m' := by
  unfold burn
  by_cases hzero : amount = 0
  · rw [if_pos hzero]
    refine ⟨(), m, rfl, ⟨supply, by rw [hzero]; rfl, h⟩, fun other => ?_, [], h.told_refl⟩
    split
    · rename_i hother
      rw [hother, balance_of_account ha, hzero]
      rfl
    · rfl
  · have hsupply : amount ≤ supply := Nat.le_trans hle (h.balance_le ha)
    have hsub : Amount.sub supply amount = .ok (supply - amount) := if_pos hsupply
    have hamount : amount < 2 ^ 64 := Nat.lt_of_le_of_lt hsupply h.small
    have hless : supply - amount < 2 ^ 64 := Nat.lt_of_le_of_lt (Nat.sub_le _ _) h.small
    have hrest : supply - amount + amount = supply := Nat.sub_add_cancel hsupply
    rw [if_neg hzero, Run.Yields, Run.run_bind_of_ok (run_account ha)]
    dsimp only
    rw [if_neg (Nat.not_lt.2 hle), Run.run_bind_of_ok (run_settle h.clean owner _),
      Run.run_bind_of_ok (run_totalSupply_keep h owner _), hsub,
      Run.run_bind_of_ok (Run.run_ofOutcome _ _), setSupply, Run.run_bind_of_ok (Run.run_put _ _ _),
      run_notifyTransfer hamount]
    refine ⟨(), _, rfl, ⟨supply - amount, hrest, h.keep_put ha ?_ hless⟩, ?_,
      [⟨some owner, none, amount⟩], rfl, h.settles_keep_put ha (Nat.lt_trans hless (by decide))
        (.inr ⟨rfl, Nat.sub_add_cancel hle, hrest⟩)⟩
    · change supply - amount + (a.balance : Nat) = supply + (a.balance - amount : Nat)
      unfold Amount at *
      omega
    · intro other
      rw [balance_put_supply]
      exact balance_keep m.cache owner (a.debit amount) other

/-- A burn that an account does not cover changes nothing. -/
theorem run_burn_of_lt {amount : Nat} (ha : account m.cache owner = .ok a)
    (hlt : a.balance < amount) :
    (burn owner amount).run m =
      (.error (.fault (.burnBeyondBalance amount owner a.balance)), m) := by
  have hzero : amount ≠ 0 := Nat.ne_of_gt (Nat.lt_of_le_of_lt (Nat.zero_le _) hlt)
  unfold burn
  rw [if_neg hzero, Run.run_bind_of_ok (run_account ha)]
  dsimp only
  rw [if_pos hlt]
  rfl

/-- An account that signed the running transaction sends to another one. -/
def Movement.Signed (m : Machine) (v : Movement) : Prop :=
  ∃ source target, v.source = some source ∧ v.target = some target ∧ m.hasWitness source = true

/-- What one account has goes to another one, whatever is done after that. -/
theorem run_pay {β : Type} {source target : Hash160} {amount : Nat} (h : Sound m.cache supply)
    (ha : account m.cache source = .ok a) (hle : amount ≤ a.balance)
    (hmove : amount ≠ 0 ∧ source ≠ target) (next : Unit → Run β) :
    ∃ c', (settle source (a.debit amount) >>= fun _ => credit target amount >>= next).run m =
        (next ()).run { m with cache := c' } ∧
      Sound c' supply ∧ Settles m.cache [⟨some source, some target, amount⟩] c' := by
  have hclean : Clean (keep m.cache source (a.debit amount)) := clean_keep h.clean
  have hdebit : ((a.debit amount).balance : Nat) + amount = a.balance := Nat.sub_add_cancel hle
  obtain ⟨b, hb⟩ := clean_account hclean target
  -- The target holds less than the supply without what it is about to get.
  have hlimit : b.balance + amount < Amount.limit := by
    refine Nat.lt_trans ?_ (by decide : 2 ^ 64 < Amount.limit)
    have htarget := hclean.balance_le hb
    have hheld := held_keep (a := a.debit amount) h.clean ha
    rw [h.held] at hheld
    have hsmall := h.small
    unfold Amount at *
    omega
  have hsum : ((a.debit amount).balance : Nat) + (b.balance + amount : Nat) =
      (a.balance : Nat) + (b.balance : Nat) := by
    unfold Amount at *
    omega
  let paid : Account := ⟨b.balance + amount, hlimit⟩
  refine ⟨keep (keep m.cache source (a.debit amount)) target paid, ?_, h.keep_keep ha hb hsum,
    h.settles_keep_keep hmove.2 ha hb hdebit rfl⟩
  rw [Run.run_bind_of_ok (run_settle h.clean source _),
    Run.run_bind_of_ok (run_credit hclean hb hlimit hmove.1)]

/-- A transfer moves what the source signed for, and always succeeds. -/
theorem yields_transfer {amount : Nat} (h : Sound m.cache supply) (source target : Hash160) :
    (transfer source target amount).Yields m fun _ m' =>
      Sound m'.cache supply ∧ ∃ vs, Told m vs m' ∧ ∀ v ∈ vs, v.Signed m := by
  obtain ⟨a, ha⟩ := clean_account h.clean source
  have hrefused : Sound m.cache supply ∧ ∃ vs, Told m vs m ∧ ∀ v ∈ vs, v.Signed m :=
    ⟨h, [], h.told_refl, by simp⟩
  unfold transfer
  rw [Run.Yields, Run.run_bind_of_ok (Run.run_get m)]
  dsimp only
  by_cases hsigned : m.hasWitness source = true
  · rw [hsigned, if_neg (by decide), Run.run_bind_of_ok (run_account ha)]
    by_cases hlt : a.balance < amount
    · rw [if_pos hlt]
      exact ⟨false, m, rfl, hrefused⟩
    · have hle : amount ≤ a.balance := Nat.le_of_not_lt hlt
      have hamount : amount < 2 ^ 64 :=
        Nat.lt_of_le_of_lt (Nat.le_trans hle (h.balance_le ha)) h.small
      have hall : ∀ v ∈ [(⟨some source, some target, amount⟩ : Movement)], v.Signed m := by
        intro v hv
        rw [List.mem_singleton.1 hv]
        exact ⟨source, target, rfl, rfl, hsigned⟩
      rw [if_neg hlt]
      by_cases hmove : amount ≠ 0 ∧ source ≠ target
      · obtain ⟨c', hrun, hsound, hsettles⟩ := run_pay h ha hle hmove fun _ => do
          notifyTransfer (some source) (some target) amount
          return true
        rw [if_pos hmove, hrun, Run.run_bind_of_ok (run_notifyTransfer hamount _ _ _)]
        exact ⟨true, _, rfl, hsound, _, ⟨rfl, hsettles⟩, hall⟩
      · rw [if_neg hmove, Run.run_bind_of_ok (run_notifyTransfer hamount _ _ _)]
        exact ⟨true, _, rfl, h, _, ⟨rfl, h.settles_self hmove⟩, hall⟩
  · rw [if_pos (by simpa using hsigned)]
    exact ⟨false, m, rfl, hrefused⟩

/-! ## What runs move -/

/-- Runs after which the accounts are in step if they were before, and by
which only what is told is moved. -/
def Balanced (m m' : Machine) : Prop :=
  ∀ supply, Sound m.cache supply → ∃ supply' vs, Sound m'.cache supply' ∧ Told m vs m'

instance : IsPreorder Machine Balanced where
  refl m supply h := ⟨supply, [], h, h.told_refl⟩
  trans m₁ m₂ m₃ h h' supply hs := by
    obtain ⟨supply', vs, hs', hvs⟩ := h supply hs
    obtain ⟨supply'', vs', hs'', hvs'⟩ := h' supply' hs'
    exact ⟨supply'', vs ++ vs', hs'', hvs.trans hvs'⟩

theorem balanced_burn (owner : Hash160) (amount : Nat) : (burn owner amount).Within Balanced := by
  intro m supply h
  obtain ⟨a, ha⟩ := clean_account h.clean owner
  by_cases hlt : a.balance < amount
  · rw [Run.after_of_run (run_burn_of_lt ha hlt)]
    exact ⟨supply, [], h, h.told_refl⟩
  · obtain ⟨u, m', hrun, ⟨rest, -, hrest⟩, -, vs, htold⟩ := yields_burn h ha (Nat.le_of_not_lt hlt)
    rw [Run.after_of_run hrun]
    exact ⟨rest, vs, hrest, htold⟩

/-- The fees of a block are burned with a notice for each sender who pays. -/
theorem balanced_onPersist : onPersist.Within Balanced := by
  unfold onPersist burnFee
  exact .bind .block fun b => .forM _ fun t _ => .bind (.ofOutcome _) fun _ => balanced_burn _ _

/-- Runs that keep the supply, and by which accounts that signed the running
transaction send to others, all of it told. -/
structure Spends (m m' : Machine) : Prop where
  container : m'.container = m.container
  spent : ∀ supply, Sound m.cache supply →
    Sound m'.cache supply ∧ ∃ vs, Told m vs m' ∧ ∀ v ∈ vs, v.Signed m

instance : IsPreorder Machine Spends where
  refl m := ⟨rfl, fun supply h => ⟨h, [], h.told_refl, by simp⟩⟩
  trans m₁ m₂ m₃ h h' := by
    refine ⟨h'.container.trans h.container, fun supply hs => ?_⟩
    obtain ⟨hs', vs, hvs, hsigned⟩ := h.spent supply hs
    obtain ⟨hs'', vs', hvs', hsigned'⟩ := h'.spent supply hs'
    refine ⟨hs'', vs ++ vs', hvs.trans hvs', fun v hv => ?_⟩
    rcases List.mem_append.1 hv with hv | hv
    · exact hsigned v hv
    · obtain ⟨source, target, hsource, htarget, hwitness⟩ := hsigned' v hv
      refine ⟨source, target, hsource, htarget, ?_⟩
      rwa [Machine.hasWitness, h.container] at hwitness

theorem spends_transfer (source target : Hash160) (amount : Amount) :
    (transfer source target amount).Within Spends := by
  intro m
  refine ⟨(leaves_transfer source target amount m).container, fun supply h => ?_⟩
  obtain ⟨moved, m', hrun, hspent⟩ : (transfer source target amount).Yields m _ :=
    yields_transfer h source target
  rwa [Run.after_of_run hrun]

/-- No call moves anything but what signers send. -/
theorem spends_call (address : Hash160) (method : String) (args : List StackItem) :
    (Contract.call address method args).Within Spends := by
  refine Contract.within_call (within_invoke spends_transfer) (fun method args m => ?_)
    address method args
  have hsilent := Policy.silent_invoke method args m
  refine ⟨hsilent.container, fun supply h => ?_⟩
  obtain ⟨hsound, htold⟩ := h.undisturbed hsilent (by decide)
  exact ⟨hsound, [], htold, by simp⟩

end BlockLedger.Gas
