-- That every call is answered. A call has a result, or it is refused with
-- one of the errors that callers are shown, and then nothing has changed. No
-- call stops the node, and none finds a stored value that it cannot read.
import BlockLedger.Proofs.Intact

namespace BlockLedger

open Contract (Refused)

/-! ## Answers -/

/-- A run is answered if it has a result, or if it is refused and leaves the
state as it was. -/
def Run.Answers {α : Type} (x : Run α) (m : Machine) : Prop :=
  (∃ a m', x.run m = (.ok a, m')) ∨ ∃ e, x.run m = (.error (.call e), m)

/-- What succeeds does not fail in any way. -/
theorem Succeeds.failsIn {α : Type} {P : Failure → Prop} {r : Outcome α} (h : Succeeds r) :
    FailsIn P r := by
  obtain ⟨v, rfl⟩ := h
  exact .ok v

namespace Run.Answers

variable {α β : Type} {m : Machine}

theorem pure (v : α) : (Pure.pure v : Run α).Answers m := .inl ⟨v, m, rfl⟩

theorem throw (e : CallError) : (throw (.call e) : Run α).Answers m := .inr ⟨e, rfl⟩

theorem of_yields {x : Run α} {Q : α → Machine → Prop} (h : x.Yields m Q) : x.Answers m := by
  obtain ⟨a, m', hrun, -⟩ := h
  exact .inl ⟨a, m', hrun⟩

/-- What only reads is answered if it fails by being refused. -/
theorem of_run {x : Run α} {r : Outcome α} (hx : x.run m = (r, m)) (hr : BlockLedger.FailsIn Refused r) :
    x.Answers m := by
  rcases r with f | a
  · cases hr f rfl with
    | refused e => exact .inr ⟨e, hx⟩
  · exact .inl ⟨a, m, hx⟩

/-- What follows a reading runs in the same state. -/
theorem bind_of_run {x : Run α} {f : α → Run β} {r : Outcome α} (hx : x.run m = (r, m))
    (hr : BlockLedger.FailsIn Refused r) (hf : ∀ a, r = .ok a → (f a).Answers m) : (x >>= f).Answers m := by
  rcases r with e | a
  · cases hr e rfl with
    | refused e => exact .inr ⟨e, Run.run_bind_of_error hx⟩
  · unfold Run.Answers
    rw [Run.run_bind_of_ok hx]
    exact hf a rfl

theorem bind_ofOutcome {r : Outcome α} {f : α → Run β} (hr : BlockLedger.FailsIn Refused r)
    (hf : ∀ a, (f a).Answers m) : (Run.ofOutcome r >>= f).Answers m :=
  bind_of_run (Run.run_ofOutcome r m) hr fun a _ => hf a

theorem bind_query {g : Cache → Outcome α} {f : α → Run β} (hr : BlockLedger.FailsIn Refused (g m.cache))
    (hf : ∀ a, (f a).Answers m) : (Run.query g >>= f).Answers m :=
  bind_of_run (Run.run_query g m) hr fun a _ => hf a

theorem bind_get {f : Machine → Run β} (hf : (f m).Answers m) : (get >>= f).Answers m :=
  bind_of_run (Run.run_get m) (.ok m) fun _ h => by cases h; exact hf

/-- A result may be shown in another form. -/
theorem map {x : Run α} (hx : x.Answers m) (g : α → β) :
    (x >>= fun a => Pure.pure (g a)).Answers m := by
  rcases hx with ⟨a, m', hrun⟩ | ⟨e, hrun⟩
  · exact .inl ⟨g a, m', Run.run_bind_of_ok hrun⟩
  · exact .inr ⟨e, Run.run_bind_of_error hrun⟩

theorem ite {c : Prop} [Decidable c] {x y : Run α} (hx : c → x.Answers m)
    (hy : ¬ c → y.Answers m) : (if c then x else y).Answers m := by
  by_cases h : c
  · rw [if_pos h]
    exact hx h
  · rw [if_neg h]
    exact hy h

/-- A check that refuses comes before any change. -/
theorem check {c : Prop} [Decidable c] {e : CallError} {f : Unit → Run α}
    (hf : ¬ c → (f ()).Answers m) :
    (if c then (MonadExcept.throw (.call e) : Run Unit) >>= f else f ()).Answers m :=
  .ite (fun _ => .inr ⟨e, Run.run_bind_of_error (Run.run_throw _ m)⟩) hf

end Run.Answers

/-! ## The ledger -/

/-- Nothing that calls read from a readable ledger fails. -/
theorem Ledger.Readable.reads {c : Cache} (h : Readable c) : Reads Refused c := by
  -- Marks read as no record, so what is read is still signed.
  have hread (hash : Hash256) : ∃ v : Option TransactionRecord,
      record? c hash = .ok (v.filter fun r => !r.isStub) ∧ ∀ r ∈ v, r.Signed := by
    obtain ⟨v, hv, hsigned⟩ := h.records hash
    refine ⟨v, ?_, hsigned⟩
    unfold record?
    rw [hv.read?]
    rfl
  refine ⟨?_, fun i => (h.hashes i).failsIn, fun hash => (h.blocks hash).failsIn, ?_, ?_⟩
  · obtain ⟨v, hv⟩ := h.tip
    exact Succeeds.failsIn ⟨v, hv.read?⟩
  · intro hash
    obtain ⟨v, hv, -⟩ := hread hash
    exact Succeeds.failsIn ⟨_, hv⟩
  · intro hash r t hr ht
    obtain ⟨v, hv, hsigned⟩ := hread hash
    rw [hv] at hr
    have hmem : r ∈ v := (Option.filter_eq_some_iff.1 (Except.ok.inj hr)).1
    exact .bind (hsigned r hmem t ht).failsIn fun _ => .ok _

/-! ## The fee asset -/

namespace Gas

/-- Where the accounts are in step with the supply, every call of the asset is
answered. -/
theorem answers_invoke {m : Machine} {supply : Nat} (h : Sound m.cache supply) (method : String)
    (args : List StackItem) : (invoke method args).Answers m := by
  have hcount (n : Nat) : FailsIn Refused (expectCount args n) := failsIn_expectCount args n
  have hhash (place : Nat) (name : String) : FailsIn Refused (hashArgument 20 args place name) :=
    failsIn_hashArgument args place name 20
  unfold invoke
  split
  · exact .bind_ofOutcome (hcount 0) fun _ => .pure _
  · exact .bind_ofOutcome (hcount 0) fun _ => .pure _
  · refine .bind_ofOutcome (hcount 0) fun _ => .bind_query (Succeeds.failsIn ⟨_, h.total⟩) ?_
    exact fun supply => .of_run (Run.run_ofOutcome _ m) (failsIn_toItem supply)
  · refine .bind_ofOutcome (hcount 1) fun _ => .bind_ofOutcome (hhash 0 _) fun owner => ?_
    obtain ⟨a, ha⟩ := clean_account h.clean owner
    refine .bind_query (Succeeds.failsIn ⟨_, balance_of_account ha⟩) fun held => ?_
    exact .of_run (Run.run_ofOutcome _ m) (failsIn_toItem held)
  · refine .bind_ofOutcome (hcount 3) fun _ => .bind_ofOutcome (hhash 0 _) fun source => ?_
    refine .bind_ofOutcome (hhash 1 _) fun target => ?_
    refine .bind_ofOutcome (failsIn_amountArgument args 2 _) fun amount => ?_
    exact .map (.of_yields (yields_transfer h source target)) _
  · exact .throw _

end Gas

/-! ## The policy -/

namespace Policy

variable {m : Machine}

/-- Whether the committee signed is always known, so that what needs its
signature goes on or is refused. -/
theorem answers_required {α : Type} {f : Unit → Run α} (h : Succeeds (Committee.address m.cache))
    (hf : (f ()).Answers m) : (requireCommittee >>= f).Answers m := by
  obtain ⟨account, haddress⟩ := h
  have hsigned : Committee.hasWitness m = .ok (m.hasWitness account) := by
    unfold Committee.hasWitness
    rw [haddress]
    rfl
  have hrun : requireCommittee.run m =
      (if m.hasWitness account then .ok () else .error (.call .unauthorized), m) := by
    unfold requireCommittee
    rw [Run.run_bind_of_ok (Run.run_get m), hsigned, Run.run_bind_of_ok (Run.run_ofOutcome _ m)]
    cases m.hasWitness account <;> rfl
  exact .bind_of_run hrun (.ite (.ok ()) (.error (.refused _))) fun _ _ => hf

theorem answers_setFee (h : Succeeds (Committee.address m.cache)) (fee : Int) :
    (setFee fee).Answers m := by
  unfold setFee
  exact .check fun _ => answers_required h (.inl ⟨(), _, Run.run_put _ _ m⟩)

/-- An account is added where it was just not found. -/
theorem answers_blockAccount (h : Succeeds (Committee.address m.cache)) (account : Hash160) :
    (blockAccount account).Answers m := by
  unfold blockAccount
  refine answers_required h (.check fun _ => .bind_get (.ite (fun _ => .pure _) fun hnew => ?_))
  have hnone : m.cache.get? (blockedKey account) = none := by
    simpa [isBlocked, Cache.contains] using hnew
  exact .inl ⟨true, _, Run.run_bind_of_ok (Run.run_add_of_none hnone _)⟩

theorem answers_unblockAccount (h : Succeeds (Committee.address m.cache)) (account : Hash160) :
    (unblockAccount account).Answers m := by
  unfold unblockAccount
  refine answers_required h (.bind_get (.ite (fun _ => .pure _) fun _ => ?_))
  exact .inl ⟨true, _, Run.run_bind_of_ok (Run.run_delete _ m)⟩

theorem bind_accountArgument {α : Type} {f : Hash160 → Run α} {args : List StackItem}
    (hf : ∀ account, (f account).Answers m) : (accountArgument args >>= f).Answers m := by
  unfold accountArgument
  rw [bind_assoc]
  exact .bind_ofOutcome (failsIn_expectCount args 1) fun _ =>
    .bind_ofOutcome (failsIn_hashArgument args 0 _ 20) hf

theorem answers_invoke (haddress : Succeeds (Committee.address m.cache))
    (hfee : Succeeds (feePerByte m.cache)) (method : String) (args : List StackItem) :
    (invoke method args).Answers m := by
  unfold invoke
  split
  · exact .bind_ofOutcome (failsIn_expectCount args 0) fun _ =>
      .bind_query hfee.failsIn fun _ => .pure _
  · refine .bind_ofOutcome (failsIn_expectCount args 1) fun _ => ?_
    refine .bind_ofOutcome (failsIn_integerArgument args 0 _) fun fee => ?_
    exact .map (answers_setFee haddress fee) _
  · exact bind_accountArgument fun account => .bind_get (.pure _)
  · exact bind_accountArgument fun account => .map (answers_blockAccount haddress account) _
  · exact bind_accountArgument fun account => .map (answers_unblockAccount haddress account) _
  · exact .throw _

end Policy

/-! ## Any contract -/

/-- Where calls find what they rely on, each of them is answered. -/
theorem Intact.answers_call {m : Machine} (h : Intact m.cache) (address : Hash160)
    (method : String) (args : List StackItem) : (Contract.call address method args).Answers m := by
  unfold Contract.call
  rcases Contract.ofAddress? address with _ | contract
  · exact .throw _
  · cases contract with
    | ledger =>
      refine .bind_of_run (Run.run_settings m) (.ok _) fun settings _ => ?_
      exact .of_run (Run.run_query _ m) (Ledger.failsIn_answer h.ledger.reads _ method args)
    | committee =>
      refine .bind_of_run (Run.run_settings m) (.ok _) fun settings _ => ?_
      exact .of_run (Run.run_query _ m)
        (Committee.failsIn_answer h.members.failsIn h.address.failsIn _ method args)
    | gas =>
      obtain ⟨supply, hsound⟩ := h.supply
      exact Gas.answers_invoke hsound method args
    | policy => exact Policy.answers_invoke h.address h.fee method args

/-- Calls lead from states in which scripts run to such states. -/
theorem Underway.calls {settings : Settings} {m m' : Machine} (h : Underway settings m)
    (hcalls : Calls m m') : Underway settings m' :=
  hcalls.preserve h fun _ => .called

/-- On every chain whose committee has at most 255 members, whatever a script
has called before, for whatever transaction: the next call has a result, or it
is refused and changes nothing. -/
theorem every_call_is_answered {settings : Settings} {m m' : Machine}
    (hfew : settings.standbyCommittee.length ≤ 255) (h : Underway settings m)
    (container : Option Transaction) (hcalls : Calls { m with container := container } m')
    (address : Hash160) (method : String) (args : List StackItem) :
    (Contract.call address method args).Answers m' :=
  (Intact.of_underway hfew ((h.began container).calls hcalls)).answers_call address method args

/-- After a payment and a fee that nobody may set, someone asks for a
transaction that is not there. -/
theorem sample_answer : Sample.settings.standbyCommittee.length ≤ 255 ∧
    Underway Sample.settings Sample.idle ∧ Calls Sample.idle Sample.changed ∧
    (Contract.call Contract.ledger.address "getTransactionFromBlock"
      [.ofHash Sample.block.hash, .integer (-1)]).Answers Sample.changed := by
  have hfew : Sample.settings.standbyCommittee.length ≤ 255 := by decide
  have hunderway : Underway Sample.settings Sample.idle := .between Sample.grown rfl
  have hcalls : Calls Sample.idle Sample.changed := .more _ _ _ (.more _ _ _ .none)
  exact ⟨hfew, hunderway, hcalls,
    every_call_is_answered hfew hunderway (some (Sample.transaction 1 [])) hcalls _ _ _⟩

end BlockLedger
