-- What scripts can do by calling contracts. A call of the asset sends what
-- the source signed for, and a call of the policy changes its keys if the
-- committee signed, so no sequence of calls reaches further than the
-- signatures of the running transaction.
import BlockLedger.Proofs.Council
import BlockLedger.Proofs.Limits

namespace BlockLedger

/-! ## The states in which scripts run -/

/-- The states in which scripts run on a grown chain: on what the chain shows
between two blocks, or while the transactions of a block are run. Any number
of calls may have been made, for any transaction. -/
inductive Underway (settings : Settings) : Machine → Prop where
  | between {c : Chain Store} {past : List Entry} {m : Machine} :
    Grown settings c past → m.cache = c.snapshot → Underway settings m
  | prepared {c : Chain Store} {past : List Entry} {block : Block} {m : Machine} :
    Grown settings c past → c.Prepared block m → Underway settings m
  | ran {σ : Type} {exec : Executor σ} {t : Transaction} {s s' : σ} {m m' : Machine}
    {executed : Executed} :
    Underway settings m → exec.OnlyCalls → runTransaction exec t s m = (.ok executed, s', m') →
    Underway settings m'
  | began {m : Machine} (container : Option Transaction) :
    Underway settings m → Underway settings { m with container := container }
  | called {m : Machine} (address : Hash160) (method : String) (args : List StackItem) :
    Underway settings m → Underway settings ((Contract.call address method args).after m)

/-- What holds on every chain, once a block is prepared, and through every
transaction holds in every state in which a script runs. -/
theorem Underway.keeps {settings : Settings} {I : Cache → Prop} {m : Machine}
    (h : Underway settings m) (hI : Machine.Lasting fun m => I m.cache)
    (hgrown : ∀ {c : Chain Store} {past : List Entry}, Grown settings c past → I c.snapshot)
    (hprepared : ∀ {c : Chain Store} {past : List Entry} {block : Block} {m : Machine},
      Grown settings c past → c.Prepared block m → I m.cache) : I m.cache := by
  induction h with
  | between hc hm =>
    rw [hm]
    exact hgrown hc
  | prepared hc hp => exact hprepared hc hp
  | @ran _ _ t s _ _ _ _ _ hexec hrun ih =>
    have hran := hI.runTransaction hexec t s ih
    rwa [hrun] at hran
  | began container _ ih => exact ih
  | called address method args _ ih => exact hI.call _ address method args ih

theorem Machine.Lasting.exists {ι : Type} {I : ι → Machine → Prop} (h : ∀ i, Lasting (I i)) :
    Lasting fun m => ∃ i, I i m where
  same := fun ⟨i, hi⟩ hs hb hc => ⟨i, (h i).same hi hs hb hc⟩
  call m address method args := fun ⟨i, hi⟩ => ⟨i, (h i).call m address method args hi⟩
  record m hash vmState := fun ⟨i, hi⟩ => ⟨i, (h i).record m hash vmState hi⟩

/-- Whenever a script runs, the accounts are in step with the supply. -/
theorem Underway.sound {settings : Settings} {m : Machine} (h : Underway settings m) :
    ∃ supply, Gas.Sound m.cache supply := by
  refine h.keeps (I := fun c => ∃ supply, Gas.Sound c supply) (.exists Gas.lasting_sound) ?_ ?_
  · intro c past hc
    obtain ⟨supply, hsound, -⟩ := (Gas.Booked.of_grown hc).supply
    exact ⟨supply, hsound⟩
  · intro c past block m hc hp
    obtain ⟨rest, hsound, -⟩ := (Gas.Booked.of_grown hc).sound_prepared hp
    exact ⟨rest, hsound⟩

/-- Whenever a script runs, the policy is as it is kept. -/
theorem Policy.Kept.of_underway {settings : Settings} {m : Machine} {I : Cache → Prop}
    (hI : Policy.Kept I) (h : Underway settings m) : I m.cache :=
  h.keeps hI.lasting hI.of_grown fun hc hp => hI.prepared (hI.of_grown hc) hp

/-! ## Changes that the committee must sign -/

theorem Committee.hasWitness_congr {m m' : Machine} (hcontainer : m'.container = m.container)
    (hmembers : m'.cache.get? membersKey = m.cache.get? membersKey) :
    hasWitness m' = hasWitness m := by
  simp only [hasWitness, address, members_congr hmembers, Machine.hasWitness, hcontainer]

namespace Policy

variable {m : Machine}

/-- Runs that change no key of the policy if the committee did not sign. -/
structure Guarded (m m' : Machine) : Prop where
  container : m'.container = m.container
  members : m'.cache.get? Committee.membersKey = m.cache.get? Committee.membersKey
  unsigned : Committee.hasWitness m ≠ .ok true →
    ∀ key : Key, key.owner = Contract.policy.id → m'.cache.get? key = m.cache.get? key

instance : IsPreorder Machine Guarded where
  refl m := ⟨rfl, rfl, fun _ _ _ => rfl⟩
  trans m₁ m₂ m₃ h h' := by
    refine ⟨h'.container.trans h.container, h'.members.trans h.members, fun hno key ho => ?_⟩
    have hno' : Committee.hasWitness m₂ ≠ .ok true := by
      rwa [Committee.hasWitness_congr h.container h.members]
    rw [h'.unsigned hno' key ho, h.unsigned hno key ho]

theorem run_requireCommittee (h : Committee.hasWitness m ≠ .ok true) :
    ∃ e, requireCommittee.run m = (.error e, m) := by
  unfold requireCommittee
  rw [Run.run_bind_of_ok (Run.run_get m)]
  rcases hsigned : Committee.hasWitness m with e | signed
  · exact ⟨e, Run.run_bind_of_error (Run.run_ofOutcome _ m)⟩
  · cases signed with
    | true => exact absurd hsigned h
    | false => exact ⟨_, Run.run_bind_of_ok (Run.run_ofOutcome _ m)⟩

/-- What is done after the committee is required is guarded, as it writes
keys of the policy only. -/
theorem guarded_required {α : Type} {f : Unit → Run α}
    (hx : (requireCommittee >>= f).Leaves Contract.policy.Foreign) :
    (requireCommittee >>= f).Within Guarded := by
  intro m
  refine ⟨(hx m).container, (hx m).get? _ Committee.foreign_membersKey.2.2, fun hno key ho => ?_⟩
  obtain ⟨e, hrun⟩ := run_requireCommittee hno
  rw [Run.after_of_run (Run.run_bind_of_error hrun)]

theorem guarded_setFee (fee : Int) : (setFee fee).Within Guarded := by
  unfold setFee
  refine .when (.throw _) fun _ => guarded_required ?_
  have hput (item : Item) : (Run.put feeKey item).Leaves Contract.policy.Foreign :=
    (Run.Silent.put (Contract.not_foreign rfl) item).leaves
  exact .bind silent_requireCommittee.leaves fun _ => hput _

theorem guarded_blockAccount (account : Hash160) : (blockAccount account).Within Guarded := by
  have hleaves : (blockAccount account).Leaves Contract.policy.Foreign :=
    (silent_blockAccount (Contract.not_foreign rfl)).leaves
  unfold blockAccount at hleaves ⊢
  exact guarded_required hleaves

theorem guarded_unblockAccount (account : Hash160) : (unblockAccount account).Within Guarded := by
  have hleaves : (unblockAccount account).Leaves Contract.policy.Foreign :=
    (silent_unblockAccount (Contract.not_foreign rfl)).leaves
  unfold unblockAccount at hleaves ⊢
  exact guarded_required hleaves

/-- No call changes the policy unless the committee signed. -/
theorem guarded_call (address : Hash160) (method : String) (args : List StackItem) :
    (Contract.call address method args).Within Guarded := by
  refine Contract.within_call (fun method args m => ?_)
    (within_invoke guarded_setFee guarded_blockAccount guarded_unblockAccount) address method args
  have hgas := Gas.leaves_invoke method args m
  refine ⟨hgas.container, hgas.get? _ Committee.foreign_membersKey.2.1, ?_⟩
  exact fun _ key ho => hgas.get? key (Contract.foreign (by decide) ho)

end Policy

/-! ## Calls for a transaction -/

/-- What calls for a transaction may change. -/
structure Authorized (t : Transaction) (m m' : Machine) : Prop where
  /-- Only the asset and the policy write. -/
  outside : ∀ key : Key, key.owner ≠ Contract.gas.id → key.owner ≠ Contract.policy.id →
    m'.cache.get? key = m.cache.get? key
  supply : ∃ supply, Gas.totalSupply m.cache = .ok supply ∧ Gas.totalSupply m'.cache = .ok supply
  /-- Who did not sign loses nothing. -/
  unsigned : ∀ account ∉ t.accounts, ∃ before after, Gas.balance m.cache account = .ok before ∧
    Gas.balance m'.cache account = .ok after ∧ before ≤ after
  /-- The policy changes only if the committee signed. -/
  policy : (∀ address, Committee.address m.cache = .ok address → address ∉ t.accounts) →
    ∀ key : Key, key.owner = Contract.policy.id → m'.cache.get? key = m.cache.get? key
  fee : ∃ fee, Policy.feePerByte m'.cache = .ok fee ∧ fee.toNat ≤ 100000000
  unblocked : ∀ contract : Contract, Policy.isBlocked m'.cache contract.address = false

section

variable {settings : Settings} {t : Transaction} {m m' : Machine}

theorem Machine.hasWitness_of_container (ht : m.container = some t) (account : Hash160) :
    m.hasWitness account = true ↔ account ∈ t.accounts := by
  simp [Machine.hasWitness, ht]

/-- The committee signs with its address. -/
theorem Committee.not_hasWitness (ht : m.container = some t)
    (h : ∀ account, Committee.address m.cache = .ok account → account ∉ t.accounts) :
    Committee.hasWitness m ≠ .ok true := by
  unfold Committee.hasWitness
  rcases haddress : Committee.address m.cache with e | account
  · intro hsigned
    cases hsigned
  · intro hsigned
    have hwitness : m.hasWitness account = true := Except.ok.inj hsigned
    exact h account haddress ((Machine.hasWitness_of_container ht account).1 hwitness)

/-- The asset itself signs nothing, so signed movements leave the supply alone. -/
theorem Gas.Settles.totalSupply_eq {vs : List Gas.Movement}
    (h : Gas.Settles m.cache vs m'.cache) (hsigned : ∀ v ∈ vs, v.Signed m) :
    ∃ supply, Gas.totalSupply m.cache = .ok supply ∧ Gas.totalSupply m'.cache = .ok supply := by
  obtain ⟨before, after, hbefore, hafter, hsum⟩ := h.supply
  have hsent : Gas.Movement.sent none vs = 0 := Gas.Movement.sent_eq_zero fun v hv hnone => by
    obtain ⟨source, target, hsource, -⟩ := hsigned v hv
    rw [hsource] at hnone
    cases hnone
  have hreceived : Gas.Movement.received none vs = 0 :=
    Gas.Movement.received_eq_zero fun v hv hnone => by
      obtain ⟨source, target, -, htarget, -⟩ := hsigned v hv
      rw [htarget] at hnone
      cases hnone
  rw [hsent, hreceived] at hsum
  obtain rfl : after = before := hsum
  exact ⟨after, hbefore, hafter⟩

/-- Signed movements take nothing from an account that did not sign. -/
theorem Gas.Settles.le_of_unsigned {vs : List Gas.Movement}
    (h : Gas.Settles m.cache vs m'.cache) (ht : m.container = some t)
    (hsigned : ∀ v ∈ vs, v.Signed m) {account : Hash160} (hno : account ∉ t.accounts) :
    ∃ before after, Gas.balance m.cache account = .ok before ∧
      Gas.balance m'.cache account = .ok after ∧ before ≤ after := by
  obtain ⟨before, after, hbefore, hafter, hsum⟩ := h.account account
  have hsent : Gas.Movement.sent (some account) vs = 0 :=
    Gas.Movement.sent_eq_zero fun v hv hsome => by
      obtain ⟨source, target, hsource, -, hwitness⟩ := hsigned v hv
      rw [hsource, Option.some.injEq] at hsome
      rw [hsome] at hwitness
      exact hno ((Machine.hasWitness_of_container ht account).1 hwitness)
  rw [hsent, Nat.add_zero] at hsum
  exact ⟨before, after, hbefore, hafter, hsum ▸ Nat.le_add_right _ _⟩

/-- Whatever contracts a script calls for a transaction, and whether the calls
succeed or fail, they change nothing that the transaction did not sign for. -/
theorem calls_stay_within_the_signatures (h : Underway settings m) (ht : m.container = some t)
    (hcalls : Calls m m') : Authorized t m m' := by
  obtain ⟨supply, hsound⟩ := h.sound
  obtain ⟨-, vs, htold, hsigned⟩ := (hcalls.within Gas.spends_call).spent supply hsound
  have hguarded := hcalls.within Policy.guarded_call
  have hpriced := hcalls.within Policy.kept_priced.call (Policy.kept_priced.of_underway h)
  have hunblocked := hcalls.within Policy.kept_unblocked.call (Policy.kept_unblocked.of_underway h)
  exact {
    outside := fun key hgas hpolicy => hcalls.agrees.get? key ⟨hgas, hpolicy⟩
    supply := htold.settles.totalSupply_eq hsigned
    unsigned := fun account hno => htold.settles.le_of_unsigned ht hsigned hno
    policy := fun hno => hguarded.unsigned (Committee.not_hasWitness ht hno)
    fee := hpriced
    unblocked := hunblocked }

end

namespace Sample

/-- Between two blocks of the small chain, with a transaction to run. -/
def idle : Machine := ⟨settings, none, some (transaction 1 []), chain.snapshot, []⟩

/-- A payment that the transaction signed, and a fee that it did not. -/
def changed : Machine :=
  (Contract.call Contract.policy.address "setFeePerByte" [.integer 7]).after
    ((Contract.call Contract.gas.address "transfer"
      [.ofHash holder, .ofHash (.zero 20 : Hash160), .integer 7]).after idle)

end Sample

/-- The holder of the small chain pays and tries to set the fee. -/
theorem sample_calls : Underway Sample.settings Sample.idle ∧
    Sample.idle.container = some (Sample.transaction 1 []) ∧ Calls Sample.idle Sample.changed ∧
    Authorized (Sample.transaction 1 []) Sample.idle Sample.changed := by
  have hunderway : Underway Sample.settings Sample.idle := .between Sample.grown rfl
  have hcalls : Calls Sample.idle Sample.changed := .more _ _ _ (.more _ _ _ .none)
  exact ⟨hunderway, rfl, hcalls, calls_stay_within_the_signatures hunderway rfl hcalls⟩

end BlockLedger
