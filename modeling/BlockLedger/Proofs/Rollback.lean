-- What a script that does not halt leaves behind. Its writes and its notices are
-- taken back before its end is recorded, so a block goes on as if the script had
-- made no calls, and gives the same change set in the end.
import BlockLedger.Proofs.Growth

namespace BlockLedger

/-! ## Executors that differ in aborted scripts -/

section Visits

variable {σ : Type}

/-- The transactions of a run, each with the state in which its script starts. -/
def Executor.visits (exec : Executor σ) :
    List Transaction → σ → Machine → List (Transaction × Machine)
  | [], _, _ => []
  | t :: rest, s, m =>
    (t, { m with container := some t }) ::
      match runTransaction exec t s m with
      | (.ok _, s, m) => exec.visits rest s m
      | (.error _, _, _) => []

/-- The transactions that are run when a block is applied. -/
def Executor.blockVisits (exec : Executor σ) (s : σ) (settings : Settings) (base : Store)
    (block : Block) : List (Transaction × Machine) :=
  match (prepare block.index).run (.forBlock settings base block) with
  | (.ok _, m) => exec.visits block.transactions s m
  | (.error _, _) => []

end Visits

variable {σ τ : Type}

/-- One executor does to a transaction what another one does, except that it makes
no calls for an aborted one. -/
structure Mutes (aborted : Transaction → Prop) (exec : Executor σ) (quiet : Executor τ)
    (t : Transaction) (m : Machine) : Prop where
  alike : ¬ aborted t → ∀ s s',
    (exec t s m).1 = (quiet t s' m).1 ∧ (exec t s m).2.2 = (quiet t s' m).2.2
  /-- No call of an aborted script panics, and the script does not halt. -/
  aborts : aborted t → ∀ s s', ∃ result result',
    (exec t s m).1 = .ok result ∧ result.vmState ≠ .halt ∧
      (quiet t s' m).1 = .ok result' ∧ result'.vmState = result.vmState ∧
      (quiet t s' m).2.2 = m

/-- What two runs tell of one transaction: the same, or all the same but the gas and
the exception if it is aborted, and then it did not halt and gave no notices. -/
inductive ToldAlike (aborted : Transaction → Prop) (t : Transaction) :
    Executed → Executed → Prop where
  | same (e : Executed) : ¬ aborted t → ToldAlike aborted t e e
  | aborted (vmState : VmState) (gas gas' : UInt64) (exception exception' : Option String) :
    aborted t → vmState ≠ .halt →
    ToldAlike aborted t ⟨.application, some t.hash, vmState, gas, exception, []⟩
      ⟨.application, some t.hash, vmState, gas', exception', []⟩

/-- What two runs tell of their transactions in order. -/
inductive AllToldAlike (aborted : Transaction → Prop) :
    List Transaction → List Executed → List Executed → Prop where
  | nil : AllToldAlike aborted [] [] []
  | cons {t : Transaction} {ts : List Transaction} {e e' : Executed} {es es' : List Executed} :
    ToldAlike aborted t e e' → AllToldAlike aborted ts es es' →
    AllToldAlike aborted (t :: ts) (e :: es) (e' :: es')

variable {exec : Executor σ} {quiet : Executor τ} {aborted : Transaction → Prop}
  {t : Transaction} {ts : List Transaction} {s s₁ : σ} {s' s₁' : τ} {m finish : Machine}
  {result : Execution}

/-! ## One transaction -/

/-- Whatever calls it made, nothing of them is left. -/
theorem afterExecution_of_not_halt (hcalls : Calls { m with container := some t } finish)
    {vmState : VmState} (h : vmState ≠ .halt) :
    afterExecution m finish vmState = ([], { m with container := none, notices := [] }) := by
  have hagrees := hcalls.agrees
  have hsettings := hagrees.settings
  have hblock := hagrees.block
  unfold afterExecution
  rw [if_neg h, hsettings, hblock]

/-- The run goes on with the record of how the script ended. -/
theorem runTransaction_of_not_halt (hcalls : Calls { m with container := some t } finish)
    (hx : exec t s { m with container := some t } = (.ok result, s₁, finish))
    (h : result.vmState ≠ .halt) :
    runTransaction exec t s m =
      match (Ledger.setVmState t.hash result.vmState).run
        { m with container := none, notices := [] } with
      | (.ok (), m) => (.ok ⟨.application, some t.hash, result.vmState, result.gas,
          result.exception, []⟩, s₁, m)
      | (.error f, m) => (.error f, s₁, m) := by
  unfold runTransaction
  rw [hx]
  simp only [afterExecution_of_not_halt hcalls h, run_recordExecution]
  rcases (Ledger.setVmState t.hash result.vmState).run { m with container := none, notices := [] }
    with ⟨f | u, m₁⟩ <;> rfl

/-- Two runs fail alike, or they end in one state with results that are related. -/
inductive RunsAlike {α : Type} (R : α → α → Prop) :
    Outcome α × σ × Machine → Outcome α × τ × Machine → Prop where
  | fail (f : Failure) (s : σ) (s' : τ) (m m' : Machine) :
    RunsAlike R (.error f, s, m) (.error f, s', m')
  | pass {a b : α} (s : σ) (s' : τ) (m : Machine) :
    R a b → RunsAlike R (.ok a, s, m) (.ok b, s', m)

namespace Mutes

variable (h : Mutes aborted exec quiet t { m with container := some t })

include h

theorem runsAlike_of_not_aborted (hnot : ¬ aborted t) (s : σ) (s' : τ) :
    RunsAlike (ToldAlike aborted t) (runTransaction exec t s m) (runTransaction quiet t s' m) := by
  obtain ⟨hr, hm⟩ := h.alike hnot s s'
  rcases hx : exec t s { m with container := some t } with ⟨r, s₁, finish⟩
  rcases hy : quiet t s' { m with container := some t } with ⟨r', s₁', finish'⟩
  rw [hx, hy] at hr hm
  dsimp only at hr hm
  subst hr hm
  unfold runTransaction
  rw [hx, hy]
  rcases r with f | result
  · exact .fail f s₁ s₁' finish finish
  · dsimp only
    rcases (recordExecution t.hash result (afterExecution m finish result.vmState).1).run
      (afterExecution m finish result.vmState).2 with ⟨f | e, m₁⟩
    · exact .fail f s₁ s₁' m₁ m₁
    · exact .pass s₁ s₁' m₁ (.same e hnot)

/-- Both runs take back what the script did, if anything, and record the same end. -/
theorem runsAlike_of_aborted (hexec : exec.OnlyCalls) (habort : aborted t) (s : σ) (s' : τ) :
    RunsAlike (ToldAlike aborted t) (runTransaction exec t s m) (runTransaction quiet t s' m) := by
  obtain ⟨result, result', hr, hnot, hr', hsame, hm'⟩ := h.aborts habort s s'
  have hcalls := hexec t s { m with container := some t }
  rcases hx : exec t s { m with container := some t } with ⟨r, s₁, finish⟩
  rcases hy : quiet t s' { m with container := some t } with ⟨r', s₁', finish'⟩
  rw [hx] at hr hcalls
  rw [hy] at hr' hm'
  dsimp only at hr hcalls hr' hm'
  subst hr hr' hm'
  rw [runTransaction_of_not_halt hcalls hx hnot,
    runTransaction_of_not_halt .none hy (by rwa [hsame]), hsame]
  rcases (Ledger.setVmState t.hash result.vmState).run { m with container := none, notices := [] }
    with ⟨f | u, m₁⟩
  · exact .fail f s₁ s₁' m₁ m₁
  · exact .pass s₁ s₁' m₁ (.aborted _ _ _ _ _ habort hnot)

theorem runsAlike (hexec : exec.OnlyCalls) (s : σ) (s' : τ) :
    RunsAlike (ToldAlike aborted t) (runTransaction exec t s m) (runTransaction quiet t s' m) := by
  by_cases habort : aborted t
  · exact h.runsAlike_of_aborted hexec habort s s'
  · exact h.runsAlike_of_not_aborted habort s s'

end Mutes

/-! ## All transactions -/

/-- After each transaction both runs are in one state, so the next one finds the same
whether the script before it made calls or not. -/
theorem runTransactions_alike (hexec : exec.OnlyCalls)
    (h : ∀ v ∈ exec.visits ts s m, Mutes aborted exec quiet v.1 v.2) (s' : τ) :
    RunsAlike (AllToldAlike aborted ts) (runTransactions exec ts s m)
      (runTransactions quiet ts s' m) := by
  induction ts generalizing s s' m with
  | nil => exact .pass s s' m .nil
  | cons t rest ih =>
    rw [Executor.visits, List.forall_mem_cons] at h
    obtain ⟨hfirst, hrest⟩ := h
    have hstep := hfirst.runsAlike hexec s s'
    unfold runTransactions
    generalize runTransaction exec t s m = x at hstep hrest ⊢
    generalize runTransaction quiet t s' m = y at hstep ⊢
    cases hstep with
    | fail f s₁ s₁' m₁ m₁' => exact .fail f s₁ s₁' m₁ m₁'
    | pass s₁ s₁' m₁ he =>
      have hmore := ih hrest s₁'
      dsimp only
      generalize runTransactions exec rest s₁ m₁ = x at hmore ⊢
      generalize runTransactions quiet rest s₁' m₁ = y at hmore ⊢
      cases hmore with
      | fail f s₂ s₂' m₂ m₂' => exact .fail f s₂ s₂' m₂ m₂'
      | pass s₂ s₂' m₂ hes => exact .pass s₂ s₂' m₂ (.cons he hes)

/-! ## Blocks -/

/-- What two runs make of a block: one change set, and entries that differ in the
gas and the exceptions of aborted transactions at most. -/
structure Persisted.Alike (aborted : Transaction → Prop) (block : Block) (a b : Persisted) :
    Prop where
  index : b.index = a.index
  hash : b.hash = a.hash
  changes : b.changes = a.changes
  executed : ∃ first last es es', a.executed = first :: es ++ [last] ∧
    b.executed = first :: es' ++ [last] ∧ AllToldAlike aborted block.transactions es es'

/-- Two executors that act through calls and do the same to all transactions of a
block that is applied, except that one of them makes no calls for some that do not
halt. The block fails with both in the same way, or both give the same change set
and the same entries, up to the gas and the exceptions of those transactions, which
gave no notices. -/
theorem aborted_scripts_leave_no_trace {settings : Settings} {base : Store} {block : Block}
    (hexec : exec.OnlyCalls)
    (h : ∀ v ∈ exec.blockVisits s settings base block, Mutes aborted exec quiet v.1 v.2) (s' : τ) :
    (∃ f, (persistBlock exec s settings base block).1 = .error f ∧
      (persistBlock quiet s' settings base block).1 = .error f) ∨
    ∃ a b, (persistBlock exec s settings base block).1 = .ok a ∧
      (persistBlock quiet s' settings base block).1 = .ok b ∧ a.Alike aborted block b := by
  unfold persistBlock
  unfold Executor.blockVisits at h
  rcases mustFit settings base block with f | u
  · exact .inl ⟨f, rfl, rfl⟩
  rcases hprepare : (prepare block.index).run (.forBlock settings base block) with ⟨f | first, m⟩
  · exact .inl ⟨f, rfl, rfl⟩
  rw [hprepare] at h
  have hall := runTransactions_alike hexec h s'
  dsimp only
  generalize runTransactions exec block.transactions s m = x at hall ⊢
  generalize runTransactions quiet block.transactions s' m = y at hall ⊢
  cases hall with
  | fail f s₁ s₁' m₁ m₁' => exact .inl ⟨f, rfl, rfl⟩
  | pass s₁ s₁' m₁ hes =>
    dsimp only
    rcases conclude.run m₁ with ⟨f | last, m₂⟩
    · exact .inl ⟨f, rfl, rfl⟩
    · exact .inr ⟨_, _, rfl, rfl, rfl, rfl, rfl, first, last, _, _, rfl, rfl, hes⟩

/-- The executor of the sample without the calls of scripts that do not halt. -/
def Sample.muted : Executor Unit := fun t s m =>
  if t.declared = [] then Sample.executor t s m
  else (.ok ⟨.fault, 9, some "no calls"⟩, s, m)

theorem Sample.mutes (t : Transaction) (m : Machine) :
    Mutes (·.declared ≠ []) Sample.executor Sample.muted t m := by
  constructor
  · intro hnot s s'
    unfold Sample.muted
    rw [if_pos (not_not.1 hnot)]
    exact ⟨rfl, rfl⟩
  · intro habort s s'
    unfold Sample.executor Sample.muted
    rw [if_neg habort, if_neg habort]
    exact ⟨_, _, rfl, nofun, rfl, rfl, rfl⟩

/-- The second transaction of the sample block pays and does not halt. Without its
payment the block gives the same change set. -/
theorem sample_rollback : Sample.executor.OnlyCalls ∧
    (∀ v ∈ Sample.executor.blockVisits () Sample.first.settings Sample.first.content Sample.block,
      Mutes (·.declared ≠ []) Sample.executor Sample.muted v.1 v.2) ∧
    (Sample.transaction 2 [.zero 32] ∈ Sample.block.transactions ∧
      (Sample.transaction 2 [.zero 32]).declared ≠ []) ∧ ∃ a b,
    (persistBlock Sample.executor () Sample.first.settings Sample.first.content
      Sample.block).1 = .ok a ∧
    (persistBlock Sample.muted () Sample.first.settings Sample.first.content
      Sample.block).1 = .ok b ∧
    a.Alike (·.declared ≠ []) Sample.block b := by
  have hmutes : ∀ v ∈ Sample.executor.blockVisits () Sample.first.settings Sample.first.content
      Sample.block, Mutes (·.declared ≠ []) Sample.executor Sample.muted v.1 v.2 :=
    fun v _ => Sample.mutes v.1 v.2
  obtain ⟨applied, hp⟩ := Sample.persist_block
  have hruns := (Chain.applied_of_persist hp).1
  refine ⟨Sample.executor_onlyCalls, hmutes, by decide +kernel, ?_⟩
  rcases aborted_scripts_leave_no_trace Sample.executor_onlyCalls hmutes () with
    ⟨f, hfails, -⟩ | hboth
  · rw [hruns] at hfails
    cases hfails
  · exact hboth

end BlockLedger
