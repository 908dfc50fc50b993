-- How a call of a contract can fail: the call is refused, a stored value
-- cannot be read, an amount does not fit, or something that founding the
-- chain puts in place is not there. No call misses a transaction.
import BlockLedger.Proofs.Steps

namespace BlockLedger

/-! ## Failures of one kind -/

/-- An outcome that fails in one kind of way only. -/
def FailsIn {α : Type} (P : Failure → Prop) (r : Outcome α) : Prop := ∀ f, r = .error f → P f

/-- A run that fails in one kind of way only. -/
def Run.FailsIn {α : Type} (P : Failure → Prop) (x : Run α) : Prop :=
  ∀ m, BlockLedger.FailsIn P (x.run m).1

namespace FailsIn

variable {α β : Type} {P : Failure → Prop} {r : Outcome α}

theorem ok (v : α) : FailsIn P (.ok v : Outcome α) := by
  intro f h
  cases h

theorem error {f : Failure} (h : P f) : FailsIn P (.error f : Outcome α) := by
  intro f' h'
  cases h'
  exact h

theorem bind_of_ok {g : α → Outcome β} (hr : FailsIn P r)
    (hg : ∀ a, r = .ok a → FailsIn P (g a)) : FailsIn P (r >>= g) := by
  intro f h
  rcases hx : r with e | a
  · rw [hx] at h
    cases h
    exact hr f hx
  · rw [hx, ok_bind] at h
    exact hg a hx f h

theorem bind {g : α → Outcome β} (hr : FailsIn P r) (hg : ∀ a, FailsIn P (g a)) :
    FailsIn P (r >>= g) := bind_of_ok hr fun a _ => hg a

theorem map {g : α → β} (hr : FailsIn P r) : FailsIn P (r.map g) := by
  intro f h
  rcases hx : r with e | a
  · rw [hx] at h
    cases h
    exact hr f hx
  · rw [hx] at h
    cases h

theorem ite {c : Prop} [Decidable c] {r r' : Outcome α} (hr : FailsIn P r) (hr' : FailsIn P r') :
    FailsIn P (if c then r else r') := by
  by_cases h : c
  · rwa [if_pos h]
  · rwa [if_neg h]

end FailsIn

namespace Run.FailsIn

variable {α β : Type} {P : Failure → Prop}

theorem pure (v : α) : FailsIn P (Pure.pure v : Run α) := fun _ => .ok v

theorem throw {f : Failure} (h : P f) : FailsIn P (throw f : Run α) := fun _ => .error h

theorem get : FailsIn P (get : Run Machine) := fun m => .ok m

theorem settings : FailsIn P Run.settings := fun m => .ok m.settings

theorem bind {x : Run α} {g : α → Run β} (hx : FailsIn P x) (hg : ∀ a, FailsIn P (g a)) :
    FailsIn P (x >>= g) := by
  intro m f h
  rcases hr : x.run m with ⟨e | a, m'⟩
  · rw [run_bind_of_error hr] at h
    cases h
    exact hx m f (by rw [hr])
  · rw [run_bind_of_ok hr] at h
    exact hg a m' f h

theorem ofOutcome {r : Outcome α} (h : BlockLedger.FailsIn P r) : FailsIn P (Run.ofOutcome r) := by
  intro m
  rw [run_ofOutcome]
  exact h

theorem query {g : Cache → Outcome α} (h : ∀ c, BlockLedger.FailsIn P (g c)) :
    FailsIn P (Run.query g) := by
  intro m
  rw [run_query]
  exact h m.cache

theorem put (key : Key) (item : Item) : FailsIn P (Run.put key item) := fun _ => .ok ()

theorem delete (key : Key) : FailsIn P (Run.delete key) := fun _ => .ok ()

theorem notify (contract : Hash160) (event : String) (state : List StackItem) :
    FailsIn P (Run.notify contract event state) := fun _ => .ok ()

theorem add {key : Key} (h : P (.fault (.duplicateKey key))) (item : Item) :
    FailsIn P (Run.add key item) := by
  intro m
  rcases hk : m.cache.get? key with _ | old
  · rw [run_add_of_none hk]
    exact .ok ()
  · rw [run_add_of_some hk]
    exact .error h

theorem ite {c : Prop} [Decidable c] {x y : Run α} (hx : FailsIn P x) (hy : FailsIn P y) :
    FailsIn P (if c then x else y) := by
  by_cases h : c
  · rwa [if_pos h]
  · rwa [if_neg h]

theorem when {c : Prop} [Decidable c] {x : Run Unit} {g : Unit → Run α} (hx : FailsIn P x)
    (hg : ∀ u, FailsIn P (g u)) : FailsIn P (if c then x >>= g else g ()) :=
  ite (bind hx hg) (hg ())

end Run.FailsIn

/-! ## Failures of calls -/

/-- The ways in which a call can fail. -/
inductive Contract.CallFailure : Failure → Prop where
  | refused (e : CallError) : CallFailure (.call e)
  | unreadable (key : Key) (e : CodecError) : CallFailure (.storage (.corrupted key e))
  | overflow (a b : Nat) : CallFailure (.fault (.amountOverflow a b))
  | tooLarge (amount : Nat) : CallFailure (.fault (.transferTooLarge amount))
  /-- There is no committee, or it is too large for an address. -/
  | unfounded : CallFailure (.fault .committeeMissing)
  | committee (threshold keys : Nat) : CallFailure (.fault (.thresholdOutOfRange threshold keys))
  | unsigned : CallFailure (.fault .noSigners)
  | taken (key : Key) : CallFailure (.fault (.duplicateKey key))

/-- A failure by which a call is refused. -/
inductive Contract.Refused : Failure → Prop where
  | refused (e : CallError) : Refused (.call e)

/-- A kind of failures with the refusals of calls among them. -/
class Contract.Refusing (P : Failure → Prop) : Prop where
  refused (e : CallError) : P (.call e)

open Contract (CallFailure Refused Refusing)

instance : Refusing CallFailure := ⟨.refused⟩

instance : Refusing Refused := ⟨.refused⟩

section Reading

variable {α : Type} {P : Failure → Prop} [Refusing P]

theorem failsIn_refuse (e : ArgumentError) : FailsIn P (refuse e : Outcome α) :=
  .error (Refusing.refused _)

theorem failsIn_corrupted (key : Key) (e : CodecError) :
    FailsIn CallFailure (corrupted key e : Outcome α) := .error (.unreadable key e)

variable (args : List StackItem) (place count : Nat) (name : String)

theorem failsIn_argument : FailsIn P (argument args place name) := by
  unfold argument
  split
  · exact .ok _
  · exact failsIn_refuse _

theorem failsIn_expectCount : FailsIn P (expectCount args count) := by
  unfold expectCount
  split
  · exact .ok _
  · exact failsIn_refuse _

theorem failsIn_bytesArgument : FailsIn P (bytesArgument args place name) := by
  refine .bind (failsIn_argument args place name) fun item => ?_
  split
  · exact .ok _
  · exact failsIn_refuse _

theorem failsIn_hashArgument (n : Nat) :
    FailsIn P (hashArgument n args place name) := by
  refine .bind (failsIn_bytesArgument args place name) fun s => ?_
  split
  · exact .ok _
  · exact failsIn_refuse _

theorem failsIn_integerArgument : FailsIn P (integerArgument args place name) := by
  refine .bind (failsIn_argument args place name) fun item => ?_
  split
  · exact .ok _
  · exact failsIn_refuse _

theorem failsIn_amountArgument : FailsIn P (amountArgument args place name) := by
  refine .bind (failsIn_integerArgument args place name) fun value => ?_
  split
  · exact failsIn_refuse _
  · exact .ok _

theorem failsIn_indexOfBytes (s : Bytes) : FailsIn P (indexOfBytes s) := by
  unfold indexOfBytes
  split
  · exact failsIn_refuse _
  · split
    · exact failsIn_refuse _
    · split
      · exact failsIn_refuse _
      · exact .ok _

theorem failsIn_blockArgument : FailsIn P (blockArgument args place name) := by
  refine .bind (failsIn_bytesArgument args place name) fun s => ?_
  split
  · exact .bind (failsIn_indexOfBytes s) fun _ => .ok _
  · split
    · exact .ok _
    · exact failsIn_refuse _

theorem failsIn_read? [Storable α] (c : Cache) (key : Key) :
    FailsIn CallFailure (c.read? key : Outcome (Option α)) := by
  unfold Cache.read?
  split
  · exact .ok _
  · split
    · exact .ok _
    · exact failsIn_corrupted _ _

theorem failsIn_toItem (a : Amount) : FailsIn P a.toItem := by
  unfold Amount.toItem
  split
  · exact .ok _
  · exact failsIn_refuse _

end Reading

/-! ## The committee -/

namespace Committee

theorem failsIn_members (c : Cache) : FailsIn CallFailure (members c) := by
  unfold members
  split
  · exact .error .unfounded
  · split
    · exact .ok _
    · exact failsIn_corrupted _ _

theorem failsIn_address (c : Cache) : FailsIn CallFailure (address c) := by
  refine .bind (failsIn_members c) fun keys => .map ?_
  unfold multisigScript
  dsimp only
  split
  · exact .error (.committee _ _)
  · exact .ok _

/-- An answer fails as the members and their address are read. -/
theorem failsIn_answer {P : Failure → Prop} [Refusing P] {c : Cache}
    (hmembers : FailsIn P (members c)) (haddress : FailsIn P (address c)) (count : Nat)
    (method : String) (args : List StackItem) : FailsIn P (answer c count method args) := by
  unfold answer
  split
  · exact .bind (failsIn_expectCount args 0) fun _ => .bind hmembers fun _ => .ok _
  · exact .bind (failsIn_expectCount args 0) fun _ => .bind haddress fun _ => .ok _
  · exact .bind (failsIn_expectCount args 0) fun _ =>
      .bind (.bind hmembers fun _ => .ok _) fun _ => .ok _
  · exact .error (Refusing.refused _)

end Committee

/-! ## The fee asset -/

namespace Gas

theorem failsIn_account (c : Cache) (owner : Hash160) : FailsIn CallFailure (account c owner) :=
  .bind (failsIn_read? c _) fun _ => .ok _

theorem failsIn_touch (owner : Hash160) :
    Run.FailsIn CallFailure (Run.touchValue (accountKey owner) (.ok Account.zero)) := by
  intro m
  rw [Run.run_touchValue]
  unfold Cache.touchValue Cache.touch
  dsimp only [Except.map]
  rcases m.cache.get? (accountKey owner) with _ | item
  · exact .ok _
  · dsimp only
    split
    · exact .ok _
    · exact failsIn_corrupted _ _

theorem failsIn_settle (owner : Hash160) (held : Account) :
    Run.FailsIn CallFailure (settle owner held) := by
  unfold settle
  exact .ite (.delete _) (.bind (failsIn_touch owner) fun _ => .put _ _)

theorem failsIn_credit (owner : Hash160) (amount : Amount) :
    Run.FailsIn CallFailure (credit owner amount) := by
  unfold credit
  refine .bind (failsIn_touch owner) fun held => .bind (.ofOutcome ?_) fun _ => .put _ _
  unfold Account.credit
  split
  · exact .ok _
  · exact .error (.overflow _ _)

theorem failsIn_notifyTransfer (source target : Option Hash160) (amount : Amount) :
    Run.FailsIn CallFailure (notifyTransfer source target amount) := by
  unfold notifyTransfer
  split
  · exact .notify _ _ _
  · exact .throw (.tooLarge _)

theorem failsIn_transfer (source target : Hash160) (amount : Amount) :
    Run.FailsIn CallFailure (transfer source target amount) := by
  have hnotify : ∀ u : Unit, Run.FailsIn CallFailure (do
      notifyTransfer (some source) (some target) amount
      return true) := fun _ => .bind (failsIn_notifyTransfer _ _ _) fun _ => .pure _
  unfold transfer
  refine .bind .get fun m => .ite (.pure _) ?_
  refine .bind (.query fun c => failsIn_account c source) fun held => .ite (.pure _) ?_
  exact .ite (.bind (failsIn_settle _ _) fun _ => .bind (failsIn_credit _ _) hnotify) (hnotify ())

theorem failsIn_totalSupply (c : Cache) : FailsIn CallFailure (totalSupply c) := by
  unfold totalSupply
  split
  · exact .ok _
  · split
    · exact .ok _
    · exact failsIn_corrupted _ _

theorem failsIn_invoke (method : String) (args : List StackItem) :
    Run.FailsIn CallFailure (invoke method args) := by
  have hcount (count : Nat) : Run.FailsIn CallFailure (Run.ofOutcome (expectCount args count)) :=
    .ofOutcome (failsIn_expectCount args count)
  unfold invoke
  split
  · exact .bind (hcount 0) fun _ => .pure _
  · exact .bind (hcount 0) fun _ => .pure _
  · exact .bind (hcount 0) fun _ => .bind (.query failsIn_totalSupply) fun supply =>
      .ofOutcome (failsIn_toItem supply)
  · refine .bind (hcount 1) fun _ => .bind (.ofOutcome (failsIn_hashArgument args 0 _ 20)) ?_
    intro owner
    refine .bind (.query fun c => ?_) fun held => .ofOutcome (failsIn_toItem held)
    exact .bind (failsIn_account c owner) fun _ => .ok _
  · refine .bind (hcount 3) fun _ => .bind (.ofOutcome (failsIn_hashArgument args 0 _ 20)) ?_
    intro source
    refine .bind (.ofOutcome (failsIn_hashArgument args 1 _ 20)) fun target => ?_
    refine .bind (.ofOutcome (failsIn_amountArgument args 2 _)) fun amount => ?_
    exact .bind (failsIn_transfer source target amount) fun _ => .pure _
  · exact .throw (.refused _)

end Gas

/-! ## The policy -/

namespace Policy

theorem failsIn_requireCommittee : Run.FailsIn CallFailure requireCommittee := by
  unfold requireCommittee Committee.hasWitness
  refine .bind .get fun m => .bind (.ofOutcome ?_) fun signed =>
    .ite (.throw (.refused _)) (.pure _)
  exact .bind (Committee.failsIn_address m.cache) fun _ => .ok _

theorem failsIn_feePerByte (c : Cache) : FailsIn CallFailure (feePerByte c) := by
  unfold feePerByte
  split
  · exact .ok _
  · split
    · exact .ok _
    · exact failsIn_corrupted _ _

theorem failsIn_setFee (fee : Int) : Run.FailsIn CallFailure (setFee fee) := by
  unfold setFee
  exact .when (.throw (.refused _)) fun _ => .bind failsIn_requireCommittee fun _ => .put _ _

theorem failsIn_blockAccount (account : Hash160) :
    Run.FailsIn CallFailure (blockAccount account) := by
  unfold blockAccount
  refine .bind failsIn_requireCommittee fun _ => .when (.throw (.refused _)) fun _ => ?_
  exact .bind .get fun _ => .ite (.pure _) (.bind (.add (.taken _) _) fun _ => .pure _)

theorem failsIn_unblockAccount (account : Hash160) :
    Run.FailsIn CallFailure (unblockAccount account) := by
  unfold unblockAccount
  refine .bind failsIn_requireCommittee fun _ => .bind .get fun _ => .ite (.pure _) ?_
  exact .bind (.delete _) fun _ => .pure _

theorem failsIn_accountArgument (args : List StackItem) :
    Run.FailsIn CallFailure (accountArgument args) := by
  unfold accountArgument
  exact .bind (.ofOutcome (failsIn_expectCount args 1)) fun _ =>
    .ofOutcome (failsIn_hashArgument args 0 _ 20)

theorem failsIn_invoke (method : String) (args : List StackItem) :
    Run.FailsIn CallFailure (invoke method args) := by
  have hcount (count : Nat) : Run.FailsIn CallFailure (Run.ofOutcome (expectCount args count)) :=
    .ofOutcome (failsIn_expectCount args count)
  unfold invoke
  split
  · exact .bind (hcount 0) fun _ => .bind (.query failsIn_feePerByte) fun _ => .pure _
  · refine .bind (hcount 1) fun _ => .bind (.ofOutcome (failsIn_integerArgument args 0 _)) ?_
    exact fun fee => .bind (failsIn_setFee fee) fun _ => .pure _
  · exact .bind (failsIn_accountArgument args) fun _ => .bind .get fun _ => .pure _
  · exact .bind (failsIn_accountArgument args) fun _ => .bind (failsIn_blockAccount _) fun _ =>
      .pure _
  · exact .bind (failsIn_accountArgument args) fun _ => .bind (failsIn_unblockAccount _) fun _ =>
      .pure _
  · exact .throw (.refused _)

end Policy

/-! ## The ledger -/

namespace Ledger

/-- What calls read from the ledger fails in one kind of way only, and so does
showing a transaction that is on record. -/
structure Reads (P : Failure → Prop) (c : Cache) : Prop where
  tip : FailsIn P (tip c)
  hashAt (index : UInt32) : FailsIn P (hashAt? c index)
  block (hash : Hash256) : FailsIn P (trimmedBlock? c hash)
  record (hash : Hash256) : FailsIn P (record? c hash)
  item {hash : Hash256} {r : TransactionRecord} {t : Transaction} :
    record? c hash = .ok (some r) → r.transaction = some t → FailsIn P t.toItem

theorem failsIn_record? (c : Cache) (hash : Hash256) : FailsIn CallFailure (record? c hash) :=
  .bind (failsIn_read? c _) fun _ => .ok _

theorem failsIn_sender (t : Transaction) : FailsIn CallFailure t.sender := by
  unfold Transaction.sender
  split
  · exact .ok _
  · exact .error .unsigned

/-- On any cache the ledger is read, or shows that a value cannot be read. -/
theorem reads_callFailure (c : Cache) : Reads CallFailure c where
  tip := failsIn_read? c _
  hashAt index := by
    unfold hashAt?
    split
    · exact .ok _
    · split
      · exact .ok _
      · exact failsIn_corrupted _ _
  block hash := by
    unfold trimmedBlock?
    split
    · exact .ok _
    · split
      · exact .ok _
      · exact failsIn_corrupted _ _
  record := failsIn_record? c
  item {_ _ t} _ _ := .bind (failsIn_sender t) fun _ => .ok _

/-- A record that a script sees is on record. -/
theorem record?_of_recordArgument? {c : Cache} {window : UInt32} {args : List StackItem}
    {r : TransactionRecord} (h : recordArgument? c window args = .ok (some r)) :
    ∃ hash, record? c hash = .ok (some r) := by
  obtain ⟨_, -, h⟩ := ok_of_bind h
  obtain ⟨hash, -, h⟩ := ok_of_bind h
  obtain ⟨found, hfound, h⟩ := ok_of_bind h
  refine ⟨hash, ?_⟩
  rcases found with _ | r'
  · cases h
  · obtain ⟨visible, -, h⟩ := ok_of_bind h
    cases visible <;> cases h
    exact hfound

section Answers

variable {P : Failure → Prop} {c : Cache}

theorem Reads.currentHash (h : Reads P c) : FailsIn P (currentHash c) :=
  .bind (.bind h.tip fun _ => .ok _) fun _ => .ok _

theorem Reads.currentIndex (h : Reads P c) : FailsIn P (currentIndex c) :=
  .bind (.bind h.tip fun _ => .ok _) fun _ => .ok _

theorem Reads.isTraceable (h : Reads P c) (index window : UInt32) :
    FailsIn P (isTraceable c index window) := .bind h.currentIndex fun _ => .ok _

variable [Refusing P]

theorem Reads.visibleBlock? (h : Reads P c) (window : UInt32) (args : List StackItem) :
    FailsIn P (visibleBlock? c window args) := by
  unfold Ledger.visibleBlock?
  refine .bind (failsIn_blockArgument args 0 _) fun ref => .bind ?_ fun hash => ?_
  · cases ref with
    | index index => exact h.hashAt index
    | hash hash => exact .ok _
  · split
    · exact .ok _
    · refine .bind (h.block _) fun b => ?_
      split
      · exact .ok _
      · exact .bind (h.isTraceable _ window) fun _ => .ok _

theorem Reads.recordArgument? (h : Reads P c) (window : UInt32) (args : List StackItem) :
    FailsIn P (recordArgument? c window args) := by
  unfold Ledger.recordArgument? visibleRecord?
  refine .bind (failsIn_expectCount args 1) fun _ => .bind (failsIn_hashArgument args 0 _ 32) ?_
  intro hash
  refine .bind (h.record hash) fun r => ?_
  split
  · exact .ok _
  · exact .bind (h.isTraceable _ window) fun _ => .ok _

theorem Reads.transactionFromBlock (h : Reads P c) (window : UInt32) (args : List StackItem) :
    FailsIn P (transactionFromBlock c window args) := by
  unfold Ledger.transactionFromBlock
  refine .bind (failsIn_expectCount args 2) fun _ => ?_
  refine .bind (failsIn_integerArgument args 1 _) fun index => ?_
  refine .bind (h.visibleBlock? window args) fun b => ?_
  split
  · exact .ok _
  · refine .bind ?_ fun hash => .bind_of_ok (.bind (h.record hash) fun _ => .ok _) fun t ht => ?_
    · unfold hashInBlock
      split
      · exact .ok _
      · exact failsIn_refuse _
    · split
      · obtain ⟨r, hr, hsome⟩ := ok_of_bind ht
        obtain ⟨r, rfl, hshown⟩ := Option.bind_eq_some_iff.1 (Except.ok.inj hsome)
        exact h.item hr hshown
      · exact .ok _

/-- An answer fails as what it reads from the ledger. -/
theorem failsIn_answer (h : Reads P c) (window : UInt32) (method : String)
    (args : List StackItem) : FailsIn P (answer c window method args) := by
  have hrecord := h.recordArgument? window args
  unfold answer
  split
  · exact .bind (failsIn_expectCount args 0) fun _ => .bind h.currentHash fun _ => .ok _
  · exact .bind (failsIn_expectCount args 0) fun _ => .bind h.currentIndex fun _ => .ok _
  · refine .bind (failsIn_expectCount args 1) fun _ => ?_
    refine .bind (h.visibleBlock? window args) fun b => ?_
    split <;> exact .ok _
  · refine .bind_of_ok hrecord fun r hr => ?_
    split
    · rename_i hsome
      obtain ⟨r, rfl, hshown⟩ := Option.bind_eq_some_iff.1 hsome
      obtain ⟨hash, hread⟩ := record?_of_recordArgument? hr
      exact h.item hread hshown
    · exact .ok _
  · refine .bind hrecord fun r => ?_
    split <;> exact .ok _
  · refine .bind hrecord fun r => ?_
    split <;> exact .ok _
  · refine .bind hrecord fun r => ?_
    split <;> exact .ok _
  · exact h.transactionFromBlock window args
  · exact .error (Refusing.refused _)

end Answers

theorem failsIn_containsTransaction (c : Cache) (hash : Hash256) :
    FailsIn CallFailure (containsTransaction c hash) :=
  .bind (failsIn_record? c hash) fun _ => .ok _

theorem failsIn_anyMarked (c : Cache) (hash : Hash256) (current window : UInt32)
    (signers : List Hash160) : FailsIn CallFailure (anyMarked c hash current window signers) := by
  induction signers with
  | nil => exact .ok _
  | cons signer rest ih =>
    unfold anyMarked
    refine .bind (failsIn_read? c _) fun r => ?_
    split
    · exact .ite (.ok _) ih
    · exact ih

theorem failsIn_hasConflict (c : Cache) (hash : Hash256) (signers : List Hash160)
    (window : UInt32) : FailsIn CallFailure (hasConflict c hash signers window) := by
  unfold hasConflict
  refine .bind (failsIn_read? c _) fun r => ?_
  split
  · exact .ok _
  · refine .ite (.bind (reads_callFailure c).currentIndex fun current => ?_) (.ok _)
    exact .ite (failsIn_anyMarked c hash current window signers) (.ok _)

end Ledger

/-! ## Any contract -/

namespace Contract

/-- A call fails in one of the ways that calls fail. -/
theorem failsIn_call (address : Hash160) (method : String) (args : List StackItem) :
    Run.FailsIn CallFailure (call address method args) := by
  unfold call
  rcases ofAddress? address with _ | contract
  · exact .throw (.refused _)
  · cases contract with
    | ledger =>
      refine .bind .settings fun settings => .query fun c => ?_
      exact Ledger.failsIn_answer (Ledger.reads_callFailure c) _ method args
    | committee =>
      refine .bind .settings fun settings => .query fun c => ?_
      exact Committee.failsIn_answer (Committee.failsIn_members c) (Committee.failsIn_address c)
        _ method args
    | gas => exact Gas.failsIn_invoke method args
    | policy => exact Policy.failsIn_invoke method args

end Contract
end BlockLedger
