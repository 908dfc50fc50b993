-- What a run leaves alone. A contract writes only the keys that it owns,
-- whether its run succeeds or fails halfway, so a fact about the keys of
-- one contract outlives every run of the others.
import Mathlib.Order.Defs.Unbundled
import BlockLedger.Application
import BlockLedger.Proofs.Items

namespace BlockLedger

/-! ## Runs that succeed -/

namespace Run

variable {α β : Type} {x : Run α} {f : α → Run β} {m m' m'' : Machine}

/-- The state that a run leaves behind. -/
def after (x : Run α) (m : Machine) : Machine := Prod.snd (x.run m)

theorem after_of_run {r : Outcome α} (h : x.run m = (r, m')) : x.after m = m' := by
  rw [after, h]

/-- The second step starts where the first one ended. -/
theorem run_bind_of_ok {a : α} (h : x.run m = (.ok a, m')) : (x >>= f).run m = (f a).run m' := by
  rw [run_bind, h]

theorem run_bind_of_error {e : Failure} (h : x.run m = (.error e, m')) :
    (x >>= f).run m = (.error e, m') := by
  rw [run_bind, h]

/-- Both steps of a run that succeeds succeed. -/
theorem run_bind_ok {b : β} (h : (x >>= f).run m = (.ok b, m'')) :
    ∃ a m', x.run m = (.ok a, m') ∧ (f a).run m' = (.ok b, m'') := by
  rcases hx : x.run m with ⟨e | a, m'⟩
  · rw [run_bind_of_error hx] at h
    cases h
  · rw [run_bind_of_ok hx] at h
    exact ⟨a, m', rfl, h⟩

theorem run_block_of_some {b : Block} (h : m.block = some b) : Run.block.run m = (.ok b, m) := by
  rw [Run.block, run_bind_of_ok (run_get m), h]
  rfl

theorem run_settings (m : Machine) : Run.settings.run m = (.ok m.settings, m) := rfl

theorem run_put (key : Key) (item : Item) (m : Machine) :
    (put key item).run m = (.ok (), { m with cache := m.cache.put key item }) := rfl

theorem run_delete (key : Key) (m : Machine) :
    (delete key).run m = (.ok (), { m with cache := m.cache.delete key }) := rfl

theorem run_add_of_none {key : Key} (h : m.cache.get? key = none) (item : Item) :
    (add key item).run m = (.ok (), { m with cache := m.cache.put key item }) := by
  rw [add, run_tryUpdate]
  simp [Cache.add, Cache.contains, h]

/-- Only a key that is there cannot be added. -/
theorem run_add_of_some {key : Key} {old : Item} (h : m.cache.get? key = some old) (item : Item) :
    (add key item).run m = (.error (.fault (.duplicateKey key)), m) := by
  rw [add, run_tryUpdate]
  simp [Cache.add, Cache.contains, h, raise]

theorem run_notify (contract : Hash160) (event : String) (state : List StackItem) (m : Machine) :
    (notify contract event state).run m =
      (.ok (), { m with notices := m.notices ++ [⟨contract, event, state⟩] }) := rfl

/-- A run succeeds, with a result and a state that have a property. -/
def Yields (x : Run α) (m : Machine) (Q : α → Machine → Prop) : Prop :=
  ∃ a m', x.run m = (.ok a, m') ∧ Q a m'

theorem Yields.bind {R : α → Machine → Prop} {Q : β → Machine → Prop} (hx : x.Yields m R)
    (hf : ∀ a m', R a m' → (f a).Yields m' Q) : (x >>= f).Yields m Q := by
  obtain ⟨a, m', hr, hR⟩ := hx
  obtain ⟨b, m'', hr', hQ⟩ := hf a m' hR
  exact ⟨b, m'', by rw [run_bind_of_ok hr, hr'], hQ⟩

/-- A run that yields a property has it however its success is found. -/
theorem Yields.of_run {Q : α → Machine → Prop} {a : α} (h : x.Yields m Q)
    (hr : x.run m = (.ok a, m')) : Q a m' := by
  obtain ⟨b, m'', hr', hQ⟩ := h
  rw [hr] at hr'
  cases hr'
  exact hQ

/-- A run ends in a failure of one kind, or with a result and a state that have
a property. -/
def Ends (x : Run α) (m : Machine) (F : Failure → Prop) (Q : α → Machine → Prop) : Prop :=
  match x.run m with
  | (.ok a, m') => Q a m'
  | (.error f, _) => F f

theorem Ends.of_ok {F : Failure → Prop} {Q : α → Machine → Prop} {a : α}
    (hr : x.run m = (.ok a, m')) (h : Q a m') : x.Ends m F Q := by
  rwa [Ends, hr]

theorem Ends.of_error {F : Failure → Prop} {Q : α → Machine → Prop} {e : Failure}
    (hr : x.run m = (.error e, m')) (h : F e) : x.Ends m F Q := by
  rwa [Ends, hr]

theorem Yields.ends {F : Failure → Prop} {Q : α → Machine → Prop} (h : x.Yields m Q) :
    x.Ends m F Q := by
  obtain ⟨a, m', hr, hQ⟩ := h
  exact .of_ok hr hQ

theorem Ends.bind {F : Failure → Prop} {R : α → Machine → Prop} {Q : β → Machine → Prop}
    (hx : x.Ends m F R) (hf : ∀ a m', R a m' → (f a).Ends m' F Q) : (x >>= f).Ends m F Q := by
  unfold Ends at hx
  rcases hr : x.run m with ⟨e | a, m'⟩
  · rw [hr] at hx
    exact .of_error (run_bind_of_error hr) hx
  · rw [hr] at hx
    have hnext := hf a m' hx
    unfold Ends at hnext ⊢
    rwa [run_bind_of_ok hr]

/-- A step that is known to succeed may be passed over. -/
theorem Ends.bind_of_ok {F : Failure → Prop} {Q : β → Machine → Prop} {a : α}
    (hr : x.run m = (.ok a, m')) (hf : (f a).Ends m' F Q) : (x >>= f).Ends m F Q := by
  unfold Ends at hf ⊢
  rwa [run_bind_of_ok hr]

theorem Ends.imp {F F' : Failure → Prop} {Q Q' : α → Machine → Prop} (h : x.Ends m F Q)
    (hF : ∀ e, F e → F' e) (hQ : ∀ a m', Q a m' → Q' a m') : x.Ends m F' Q' := by
  unfold Ends at h ⊢
  rcases hr : x.run m with ⟨e | a, m'⟩ <;> rw [hr] at h
  · exact hF e h
  · exact hQ a m' h

/-- Where a run ended may be kept along with what it left. -/
theorem Ends.with_run {F : Failure → Prop} {Q : α → Machine → Prop} (h : x.Ends m F Q) :
    x.Ends m F fun a m' => x.run m = (.ok a, m') ∧ Q a m' := by
  unfold Ends at h ⊢
  rcases hr : x.run m with ⟨e | a, m'⟩ <;> rw [hr] at h
  · exact h
  · exact ⟨rfl, h⟩

theorem Ends.of_run {F : Failure → Prop} {Q : α → Machine → Prop} {a : α} (h : x.Ends m F Q)
    (hr : x.run m = (.ok a, m')) : Q a m' := by
  rwa [Ends, hr] at h

theorem Ends.failed {F : Failure → Prop} {Q : α → Machine → Prop} {e : Failure}
    (h : x.Ends m F Q) (hr : (x.run m).1 = .error e) : F e := by
  unfold Ends at h
  rcases hx : x.run m with ⟨e' | a, m'⟩
  · rw [hx] at h hr
    cases hr
    exact h
  · rw [hx] at hr
    cases hr

/-- A loop yields what every round carries from the elements that are done
to one more. -/
theorem yields_forM {g : β → Run Unit} {P : List β → Machine → Prop} {l : List β}
    (h : ∀ done b rest m, l = done ++ b :: rest → P done m →
      (g b).Yields m fun _ m' => P (done ++ [b]) m') (hm : P [] m) :
    (l.forM g).Yields m fun _ m' => P l m' := by
  suffices hall : ∀ rest done m, l = done ++ rest → P done m →
      (rest.forM g).Yields m fun _ m' => P l m' from hall l [] m rfl hm
  intro rest
  induction rest with
  | nil =>
    intro done m hl hP
    rw [List.append_nil] at hl
    exact ⟨(), m, rfl, hl ▸ hP⟩
  | cons b rest ih =>
    intro done m hl hP
    refine (h done b rest m hl hP).bind fun _ m' hP' => ih (done ++ [b]) m' ?_ hP'
    rw [hl, List.append_assoc]
    rfl

end Run

/-! ## What a run does to the state -/

/-- A run that relates every state to the one that it leaves behind. -/
def Run.Within {α : Type} (R : Machine → Machine → Prop) (x : Run α) : Prop :=
  ∀ m : Machine, R m (x.after m)

namespace Run.Within

variable {α β : Type} {R : Machine → Machine → Prop}

theorem of_run {x : Run α} {m m' : Machine} {r : Outcome α} (h : Within R x)
    (hr : x.run m = (r, m')) : R m m' := by
  have hm := h m
  rwa [after_of_run hr] at hm

theorem ite {c : Prop} [Decidable c] {x y : Run α} (hx : Within R x) (hy : Within R y) :
    Within R (if c then x else y) := by
  by_cases h : c
  · rwa [if_pos h]
  · rwa [if_neg h]

-- Steps that read at most leave the state as it is, and what two steps do
-- is one after the other, so a preorder is all that is asked for.
variable [IsPreorder Machine R]

theorem pure (v : α) : Within R (Pure.pure v : Run α) := fun m => refl_of R m

theorem throw (e : Failure) : Within R (throw e : Run α) := fun m => refl_of R m

theorem get : Within R (get : Run Machine) := fun m => refl_of R m

theorem settings : Within R Run.settings := fun m => refl_of R m

theorem bind {x : Run α} {f : α → Run β} (hx : Within R x) (hf : ∀ a, Within R (f a)) :
    Within R (x >>= f) := by
  intro m
  have h := hx m
  unfold after
  rcases hr : x.run m with ⟨e | a, m'⟩
  · rw [after_of_run hr] at h
    rwa [run_bind_of_error hr]
  · rw [after_of_run hr] at h
    rw [run_bind_of_ok hr]
    exact trans_of R h (hf a m')

theorem ofOutcome (r : Outcome α) : Within R (Run.ofOutcome r) := by
  cases r with
  | ok v => exact pure v
  | error e => exact throw e

theorem query (f : Cache → Outcome α) : Within R (Run.query f) :=
  bind get fun m => ofOutcome (f m.cache)

theorem block : Within R Run.block := by
  refine bind get fun m => ?_
  rcases m.block with _ | b
  · exact throw _
  · exact pure b

theorem forM {f : β → Run Unit} (l : List β) (h : ∀ b ∈ l, Within R (f b)) :
    Within R (l.forM f) := by
  induction l with
  | nil => exact pure ()
  | cons b rest ih =>
    exact bind (h b List.mem_cons_self) fun _ => ih fun b' hb => h b' (List.mem_cons_of_mem b hb)

/-- A step that is taken in one case only, before the rest. -/
theorem when {c : Prop} [Decidable c] {x : Run Unit} {f : Unit → Run α} (hx : Within R x)
    (hf : ∀ u, Within R (f u)) : Within R (if c then x >>= f else f ()) :=
  ite (bind hx hf) (hf ())

end Run.Within

/-! ## Runs that leave keys alone -/

/-- Two states of a run that differ in their notices, and in the values of
keys without a property, only. -/
structure Machine.Agrees (P : Key → Prop) (m m' : Machine) : Prop where
  settings : m'.settings = m.settings
  block : m'.block = m.block
  container : m'.container = m.container
  base : m'.cache.base = m.cache.base
  get? : ∀ key, P key → m'.cache.get? key = m.cache.get? key

namespace Machine.Agrees

variable {P Q : Key → Prop} {m m' m'' : Machine}

theorem refl (P : Key → Prop) (m : Machine) : Agrees P m m := ⟨rfl, rfl, rfl, rfl, fun _ _ => rfl⟩

theorem trans (h : Agrees P m m') (h' : Agrees P m' m'') : Agrees P m m'' where
  settings := h'.settings.trans h.settings
  block := h'.block.trans h.block
  container := h'.container.trans h.container
  base := h'.base.trans h.base
  get? key hk := (h'.get? key hk).trans (h.get? key hk)

theorem mono (hPQ : ∀ key, Q key → P key) (h : Agrees P m m') : Agrees Q m m' :=
  ⟨h.settings, h.block, h.container, h.base, fun key hk => h.get? key (hPQ key hk)⟩

instance : IsPreorder Machine (Agrees P) where
  refl := refl P
  trans _ _ _ := trans

end Machine.Agrees

/-- Two states that agree, with the same notices. -/
structure Machine.Matches (P : Key → Prop) (m m' : Machine) : Prop extends Agrees P m m' where
  notices : m'.notices = m.notices

instance {P : Key → Prop} : IsPreorder Machine (Machine.Matches P) where
  refl m := ⟨.refl P m, rfl⟩
  trans _ _ _ h h' := ⟨h.toAgrees.trans h'.toAgrees, h'.notices.trans h.notices⟩

/-- A state in which a block is applied to a snapshot. -/
structure Machine.Applies (m : Machine) (settings : Settings) (base : Store) (block : Block) :
    Prop where
  settings : m.settings = settings
  block : m.block = some block
  base : m.cache.base = base

theorem Machine.Applies.agrees {settings : Settings} {base : Store} {block : Block}
    {P : Key → Prop} {m m' : Machine} (h : m.Applies settings base block) (hm : m.Agrees P m') :
    m'.Applies settings base block :=
  ⟨hm.settings.trans h.settings, hm.block.trans h.block, hm.base.trans h.base⟩

/-- A run that never changes the keys with a property. -/
def Run.Leaves {α : Type} (P : Key → Prop) (x : Run α) : Prop := x.Within (Machine.Agrees P)

/-- A run that never changes the keys with a property, and gives no notice. -/
def Run.Silent {α : Type} (P : Key → Prop) (x : Run α) : Prop := x.Within (Machine.Matches P)

namespace Run.Silent

variable {α : Type} {P : Key → Prop} {key : Key}

theorem leaves {x : Run α} (h : Silent P x) : Leaves P x := fun m => (h m).toAgrees

/-- A change of the cache at one key without the property. -/
theorem update {f : Cache → Cache} (hk : ¬ P key) (hbase : ∀ c, (f c).base = c.base)
    (hf : ∀ c key', key' ≠ key → (f c).get? key' = c.get? key') : Silent P (Run.update f) := by
  intro m
  refine ⟨⟨rfl, rfl, rfl, hbase m.cache, fun key' hk' => hf m.cache key' ?_⟩, rfl⟩
  rintro rfl
  exact hk hk'

theorem put (hk : ¬ P key) (item : Item) : Silent P (Run.put key item) := by
  refine update hk (fun _ => rfl) fun c key' hne => ?_
  rw [Cache.get?_put, if_neg hne]

theorem delete (hk : ¬ P key) : Silent P (Run.delete key) := by
  refine update hk (fun _ => rfl) fun c key' hne => ?_
  rw [Cache.get?_delete, if_neg hne]

theorem add (hk : ¬ P key) (item : Item) : Silent P (Run.add key item) := by
  intro m
  rcases h : m.cache.get? key with _ | old
  · rw [after_of_run (run_add_of_none h item)]
    exact put hk item m
  · rw [after_of_run (run_add_of_some h item)]
    exact refl_of (Machine.Matches P) m

theorem touchValue [Storable α] (hk : ¬ P key) (make : Outcome α) :
    Silent P (Run.touchValue key make) := by
  intro m
  rw [after_of_run (run_touchValue key make m)]
  refine ⟨⟨rfl, rfl, rfl, Cache.base_touchValue m.cache key make, fun key' hk' => ?_⟩, rfl⟩
  refine Cache.get?_touchValue_of_ne m.cache make ?_
  rintro rfl
  exact hk hk'

theorem putValue [Storable α] (hk : ¬ P key) (v : α) : Silent P (Run.putValue key v) := put hk _

end Run.Silent

namespace Run.Leaves

variable {α : Type} {P Q : Key → Prop}

theorem mono {x : Run α} (hPQ : ∀ key, Q key → P key) (h : Leaves P x) : Leaves Q x :=
  fun m => (h m).mono hPQ

theorem notify (contract : Hash160) (event : String) (state : List StackItem) :
    Leaves P (Run.notify contract event state) := fun _ => ⟨rfl, rfl, rfl, rfl, fun _ _ => rfl⟩

end Run.Leaves

/-- Two states of which the second has a property of the cache if the first
one does. -/
def Machine.Carries (I : Cache → Prop) (m m' : Machine) : Prop := I m.cache → I m'.cache

instance {I : Cache → Prop} : IsPreorder Machine (Machine.Carries I) where
  refl _ h := h
  trans _ _ _ h h' hm := h' (h hm)

/-- A run that keeps a property of the cache, whatever comes of it. -/
def Run.Preserves {α : Type} (I : Cache → Prop) (x : Run α) : Prop := x.Within (Machine.Carries I)

/-- A property of some keys is kept by the runs that leave them alone. -/
theorem Run.Preserves.of_leaves {α : Type} {I : Cache → Prop} {P : Key → Prop} {x : Run α}
    (hI : ∀ c c' : Cache, (∀ key, P key → c'.get? key = c.get? key) → I c → I c')
    (hx : Leaves P x) : Preserves I x := fun m hm => hI _ _ (hx m).get? hm

/-! ## What each contract writes -/

/-- A key that a contract does not own. -/
def Contract.Foreign (contract : Contract) (key : Key) : Prop := key.owner ≠ contract.id

theorem Contract.not_foreign {contract : Contract} {key : Key} (h : key.owner = contract.id) :
    ¬ contract.Foreign key := fun hf => hf h

/-- A key that one contract owns is foreign to every other one. -/
theorem Contract.foreign {contract owner : Contract} {key : Key} (hne : contract ≠ owner)
    (h : key.owner = owner.id) : contract.Foreign key := by
  rw [Foreign, h]
  revert hne
  cases contract <;> cases owner <;> decide

namespace Gas

open Run

theorem leaves_notifyTransfer {P : Key → Prop} (source target : Option Hash160) (amount : Amount) :
    Leaves P (notifyTransfer source target amount) := by
  unfold notifyTransfer
  rcases amount.toItem with e | item
  · exact .throw _
  · exact .notify _ _ _

theorem silent_credit (owner : Hash160) (amount : Amount) :
    Silent Contract.gas.Foreign (credit owner amount) := by
  unfold credit
  have hkey : ¬ Contract.gas.Foreign (accountKey owner) := Contract.not_foreign rfl
  refine .bind (Silent.touchValue hkey _) fun held => .bind (.ofOutcome _) fun _ => ?_
  exact Silent.putValue hkey _

theorem silent_settle (owner : Hash160) (held : Account) :
    Silent Contract.gas.Foreign (settle owner held) := by
  unfold settle
  have hkey : ¬ Contract.gas.Foreign (accountKey owner) := Contract.not_foreign rfl
  exact .ite (Silent.delete hkey) (.bind (Silent.touchValue hkey _) fun _ => Silent.putValue hkey _)

theorem silent_setSupply (supply : Amount) :
    Silent Contract.gas.Foreign (setSupply supply) := .put (Contract.not_foreign rfl) _

theorem leaves_mint (owner : Hash160) (amount : Amount) :
    Leaves Contract.gas.Foreign (mint owner amount) := by
  unfold mint
  refine .ite (.pure ()) (.bind (silent_credit owner amount).leaves fun _ => ?_)
  refine .bind (.query _) fun _ => .bind (.ofOutcome _) fun _ => ?_
  exact .bind (silent_setSupply _).leaves fun _ => leaves_notifyTransfer _ _ _

theorem leaves_burn (owner : Hash160) (amount : Amount) :
    Leaves Contract.gas.Foreign (burn owner amount) := by
  unfold burn
  refine .ite (.pure ()) (.bind (.query _) fun held => ?_)
  refine .when (.throw _) fun _ => ?_
  refine .bind (silent_settle _ _).leaves fun _ => .bind (.query _) fun _ => ?_
  refine .bind (.ofOutcome _) fun _ => ?_
  exact .bind (silent_setSupply _).leaves fun _ => leaves_notifyTransfer _ _ _

theorem leaves_transfer (source target : Hash160) (amount : Amount) :
    Leaves Contract.gas.Foreign (transfer source target amount) := by
  unfold transfer
  refine .bind .get fun m => .ite (.pure _) (.bind (.query _) fun held => .ite (.pure _) ?_)
  have hnotify : ∀ u : Unit, Leaves Contract.gas.Foreign (do
      notifyTransfer (some source) (some target) amount
      return true) := fun _ => .bind (leaves_notifyTransfer _ _ _) fun _ => .pure _
  refine .ite (.bind (silent_settle _ _).leaves fun _ => ?_) (hnotify ())
  exact .bind (silent_credit _ _).leaves hnotify

theorem leaves_found : Leaves Contract.gas.Foreign found := by
  unfold found
  exact .bind .settings fun _ => .bind (.ofOutcome _) fun _ => leaves_mint _ _

theorem leaves_onPersist : Leaves Contract.gas.Foreign onPersist := by
  unfold onPersist
  refine .bind .block fun b => .forM _ fun t _ => ?_
  exact .bind (.ofOutcome _) fun _ => leaves_burn _ _

theorem leaves_postPersist : Leaves Contract.gas.Foreign postPersist := by
  unfold postPersist
  exact .bind .block fun b => .bind .settings fun _ => .bind (.query _) fun _ => leaves_mint _ _

/-- A call of the asset reads, or it is a transfer. -/
theorem within_invoke {R : Machine → Machine → Prop} [IsPreorder Machine R]
    (htransfer : ∀ source target amount, (transfer source target amount).Within R)
    (method : String) (args : List StackItem) : (invoke method args).Within R := by
  unfold invoke
  split
  · exact .bind (.ofOutcome _) fun _ => .pure _
  · exact .bind (.ofOutcome _) fun _ => .pure _
  · exact .bind (.ofOutcome _) fun _ => .bind (.query _) fun _ => .ofOutcome _
  · refine .bind (.ofOutcome _) fun _ => .bind (.ofOutcome _) fun _ => ?_
    exact .bind (.query _) fun _ => .ofOutcome _
  · refine .bind (.ofOutcome _) fun _ => .bind (.ofOutcome _) fun _ => ?_
    refine .bind (.ofOutcome _) fun _ => .bind (.ofOutcome _) fun _ => ?_
    exact .bind (htransfer _ _ _) fun _ => .pure _
  · exact .throw _

theorem leaves_invoke (method : String) (args : List StackItem) :
    Leaves Contract.gas.Foreign (invoke method args) := within_invoke leaves_transfer method args

end Gas

namespace Policy

open Run

theorem silent_requireCommittee {P : Key → Prop} : Silent P requireCommittee := by
  unfold requireCommittee
  exact .bind .get fun _ => .bind (.ofOutcome _) fun _ => .ite (.throw _) (.pure _)

theorem silent_setFee (fee : Int) : Silent Contract.policy.Foreign (setFee fee) := by
  unfold setFee
  refine .when (.throw _) fun _ => .bind silent_requireCommittee fun _ => ?_
  exact Silent.put (Contract.not_foreign rfl) _

theorem silent_blockAccount {P : Key → Prop} {account : Hash160} (hk : ¬ P (blockedKey account)) :
    Silent P (blockAccount account) := by
  unfold blockAccount
  refine .bind silent_requireCommittee fun _ => .when (.throw _) fun _ => ?_
  refine .bind .get fun _ => .ite (.pure _) ?_
  exact .bind (Silent.add hk _) fun _ => .pure _

theorem silent_unblockAccount {P : Key → Prop} {account : Hash160}
    (hk : ¬ P (blockedKey account)) : Silent P (unblockAccount account) := by
  unfold unblockAccount
  refine .bind silent_requireCommittee fun _ => .bind .get fun _ => .ite (.pure _) ?_
  exact .bind (Silent.delete hk) fun _ => .pure _

/-- A call of the policy reads, or it is one of three changes. -/
theorem within_invoke {R : Machine → Machine → Prop} [IsPreorder Machine R]
    (hset : ∀ fee, (setFee fee).Within R) (hblock : ∀ account, (blockAccount account).Within R)
    (hunblock : ∀ account, (unblockAccount account).Within R) (method : String)
    (args : List StackItem) : (invoke method args).Within R := by
  have hargument : (accountArgument args).Within R := .bind (.ofOutcome _) fun _ => .ofOutcome _
  unfold invoke
  split
  · exact .bind (.ofOutcome _) fun _ => .bind (.query _) fun _ => .pure _
  · refine .bind (.ofOutcome _) fun _ => .bind (.ofOutcome _) fun _ => ?_
    exact .bind (hset _) fun _ => .pure _
  · exact .bind hargument fun _ => .bind .get fun _ => .pure _
  · exact .bind hargument fun _ => .bind (hblock _) fun _ => .pure _
  · exact .bind hargument fun _ => .bind (hunblock _) fun _ => .pure _
  · exact .throw _

theorem silent_invoke (method : String) (args : List StackItem) :
    Silent Contract.policy.Foreign (invoke method args) :=
  within_invoke silent_setFee (fun _ => silent_blockAccount (Contract.not_foreign rfl))
    (fun _ => silent_unblockAccount (Contract.not_foreign rfl)) method args

end Policy

namespace Ledger

open Run

theorem silent_markConflict (index : UInt32) (signers : List Hash160) (hash : Hash256) :
    Silent Contract.ledger.Foreign (markConflict index signers hash) := by
  unfold markConflict
  have hput (key : Key) (ho : key.owner = Contract.ledger.id) (item : Item) :
      Silent Contract.ledger.Foreign (Run.put key item) := .put (Contract.not_foreign ho) item
  refine .bind (.query _) fun old => .when (hput _ rfl _) fun _ => ?_
  exact .forM _ fun signer _ => hput _ rfl _

theorem silent_onPersist : Silent Contract.ledger.Foreign onPersist := by
  unfold onPersist
  refine .bind .block fun b => .bind (.query _) fun _ => ?_
  refine .bind (Silent.add (Contract.not_foreign rfl) _) fun _ => ?_
  refine .bind (Silent.add (Contract.not_foreign rfl) _) fun _ => .forM _ fun t _ => ?_
  unfold storeTransaction
  exact .bind (Silent.put (Contract.not_foreign rfl) _) fun _ => .forM _ fun hash _ =>
    silent_markConflict _ _ _

theorem silent_postPersist : Silent Contract.ledger.Foreign postPersist := by
  unfold postPersist
  refine .bind .block fun b => .bind (Silent.touchValue (Contract.not_foreign rfl) _) fun _ => ?_
  exact Silent.putValue (Contract.not_foreign rfl) _

theorem silent_setVmState (hash : Hash256) (vmState : VmState) :
    Silent Contract.ledger.Foreign (setVmState hash vmState) := by
  unfold setVmState
  refine .bind (Silent.touchValue (Contract.not_foreign rfl) _) fun r => ?_
  exact Silent.putValue (Contract.not_foreign rfl) _

theorem leaves_onPersist : Leaves Contract.ledger.Foreign onPersist := silent_onPersist.leaves

theorem leaves_postPersist : Leaves Contract.ledger.Foreign postPersist :=
  silent_postPersist.leaves

theorem leaves_setVmState (hash : Hash256) (vmState : VmState) :
    Leaves Contract.ledger.Foreign (setVmState hash vmState) :=
  (silent_setVmState hash vmState).leaves

end Ledger

theorem Committee.silent_found : Run.Silent Contract.committee.Foreign Committee.found := by
  unfold Committee.found
  exact .bind .settings fun _ => Run.Silent.add (Contract.not_foreign rfl) _

theorem Policy.silent_found : Run.Silent Contract.policy.Foreign Policy.found :=
  .add (Contract.not_foreign rfl) _

namespace Contract

open Run

/-- A contract is founded in its own keys. -/
theorem leaves_found (contract : Contract) (hardfork : Option Hardfork) :
    Leaves contract.Foreign (contract.found hardfork) := by
  unfold found
  refine .ite (.pure ()) ?_
  cases contract with
  | ledger => exact .pure ()
  | committee => exact Committee.silent_found.leaves
  | gas => exact Gas.leaves_found
  | policy => exact Policy.silent_found.leaves

/-- What the calls of the fee asset and of the policy do, every call does;
all others read at most. -/
theorem within_call {R : Machine → Machine → Prop} [IsPreorder Machine R]
    (hgas : ∀ method args, (Gas.invoke method args).Within R)
    (hpolicy : ∀ method args, (Policy.invoke method args).Within R) (address : Hash160)
    (method : String) (args : List StackItem) : (call address method args).Within R := by
  unfold call
  rcases ofAddress? address with _ | contract
  · exact .throw _
  · cases contract with
    | ledger => exact .bind .settings fun _ => .query _
    | committee => exact .bind .settings fun _ => .query _
    | gas => exact hgas method args
    | policy => exact hpolicy method args

/-- Only the fee asset and the policy contract answer calls by writing. -/
theorem leaves_call (address : Hash160) (method : String) (args : List StackItem) :
    Leaves (fun key => gas.Foreign key ∧ policy.Foreign key) (call address method args) := by
  refine within_call (fun method args => ?_) (fun method args => ?_) address method args
  · exact (Gas.leaves_invoke method args).mono fun _ h => h.1
  · exact (Policy.silent_invoke method args).leaves.mono fun _ h => h.2

end Contract

/-! ## Scripts that act through calls -/

/-- A state that is reached from another one by calls of contracts; a call
that fails may be followed by more. -/
inductive Calls (m : Machine) : Machine → Prop where
  | none : Calls m m
  | more {m' : Machine} (address : Hash160) (method : String) (args : List StackItem) :
    Calls m m' → Calls m ((Contract.call address method args).after m')

/-- An executor that touches the state through calls of contracts only. -/
def Executor.OnlyCalls {σ : Type} (exec : Executor σ) : Prop :=
  ∀ t s m, Calls m (exec t s m).2.2

/-- A failure that an executor may end with by itself. -/
def Executor.Raises {σ : Type} (exec : Executor σ) (f : Failure) : Prop :=
  ∃ t s m, (exec t s m).1 = .error f

/-- What every call preserves is preserved by any number of calls. -/
theorem Calls.preserve {I : Machine → Prop} {m m' : Machine} (h : Calls m m') (hm : I m)
    (hstep : ∀ m address method args, I m → I ((Contract.call address method args).after m)) :
    I m' := by
  induction h with
  | none => exact hm
  | more address method args _ ih => exact hstep _ _ _ _ ih

/-- What every call does to the state, any number of calls does. -/
theorem Calls.within {R : Machine → Machine → Prop} [IsPreorder Machine R] {m m' : Machine}
    (h : Calls m m')
    (hcall : ∀ address method args, (Contract.call address method args).Within R) : R m m' := by
  induction h with
  | none => exact refl_of R m
  | more address method args _ ih => exact trans_of R ih (hcall address method args _)

/-- Calls write no key of the ledger or of the committee. -/
theorem Calls.agrees {m m' : Machine} (h : Calls m m') :
    m.Agrees (fun key => Contract.gas.Foreign key ∧ Contract.policy.Foreign key) m' :=
  h.within Contract.leaves_call

theorem Executor.halting_onlyCalls {σ : Type} : (Executor.halting : Executor σ).OnlyCalls :=
  fun _ _ _ => .none

/-! ## The transactions of a block -/

/-- A script that does not halt takes back what its calls wrote, so the
keys that its calls leave alone are as they were either way. -/
theorem get?_afterExecution {P : Key → Prop} {start finish : Machine}
    {container : Option Transaction}
    (h : Machine.Agrees P { start with container := container } finish) (vmState : VmState)
    {key : Key} (hk : P key) :
    (afterExecution start finish vmState).2.cache.get? key = start.cache.get? key := by
  unfold afterExecution
  split
  · exact h.get? key hk
  · rfl

theorem run_recordExecution (hash : Hash256) (result : Execution) (notices : List Notice)
    (m : Machine) :
    (recordExecution hash result notices).run m =
      match (Ledger.setVmState hash result.vmState).run m with
      | (.ok (), m) => (.ok ⟨.application, some hash, result.vmState, result.gas,
          result.exception, notices⟩, m)
      | (.error e, m) => (.error e, m) := by
  unfold recordExecution
  rw [Run.run_bind]
  rcases (Ledger.setVmState hash result.vmState).run m with ⟨_ | _, _⟩ <;> rfl

/-- A transaction that is run was executed, and its end was recorded. -/
theorem runTransaction_ok {σ : Type} {exec : Executor σ} {t : Transaction} {s s' : σ}
    {m m' : Machine} {executed : Executed}
    (h : runTransaction exec t s m = (.ok executed, s', m')) : ∃ result finish,
      exec t s { m with container := some t } = (.ok result, s', finish) ∧
      (Ledger.setVmState t.hash result.vmState).run (afterExecution m finish result.vmState).2 =
        (.ok (), m') ∧
      executed.notices = (afterExecution m finish result.vmState).1 := by
  unfold runTransaction at h
  rcases hx : exec t s { m with container := some t } with ⟨e | result, s₁, finish⟩
  · rw [hx] at h
    cases h
  · rw [hx] at h
    simp only [run_recordExecution] at h
    rcases hset : (Ledger.setVmState t.hash result.vmState).run
      (afterExecution m finish result.vmState).2 with ⟨e | u, m₂⟩
    · rw [hset] at h
      cases h
    · rw [hset] at h
      cases h
      exact ⟨result, finish, rfl, hset, rfl⟩

theorem runTransactions_cons_ok {σ : Type} {exec : Executor σ} {t : Transaction}
    {rest : List Transaction} {s s' : σ} {m m' : Machine} {executed : List Executed}
    (h : runTransactions exec (t :: rest) s m = (.ok executed, s', m')) :
    ∃ first s₁ m₁ more, runTransaction exec t s m = (.ok first, s₁, m₁) ∧
      runTransactions exec rest s₁ m₁ = (.ok more, s', m') ∧ executed = first :: more := by
  unfold runTransactions at h
  rcases hx : runTransaction exec t s m with ⟨e | first, s₁, m₁⟩
  · rw [hx] at h
    cases h
  · rw [hx] at h
    simp only at h
    rcases hy : runTransactions exec rest s₁ m₁ with ⟨e | more, s₂, m₂⟩
    · rw [hy] at h
      cases h
    · rw [hy] at h
      cases h
      exact ⟨first, s₁, m₁, more, rfl, hy, rfl⟩

/-- A property of the states of a run that neither the running transaction
nor the notices matter to, and that calls and records of executions keep. -/
structure Machine.Lasting (I : Machine → Prop) : Prop where
  same {m m' : Machine} : I m → m'.settings = m.settings → m'.block = m.block →
    m'.cache = m.cache → I m'
  call (m : Machine) (address : Hash160) (method : String) (args : List StackItem) :
    I m → I ((Contract.call address method args).after m)
  record (m : Machine) (hash : Hash256) (vmState : VmState) :
    I m → I ((Ledger.setVmState hash vmState).after m)

namespace Machine.Lasting

variable {σ : Type} {I : Machine → Prop} {exec : Executor σ}

theorem runTransaction (hI : Lasting I) (hexec : exec.OnlyCalls) (t : Transaction) (s : σ)
    {m : Machine} (hm : I m) : I (runTransaction exec t s m).2.2 := by
  have hcalls := hexec t s { m with container := some t }
  have hstart : I { m with container := some t } := hI.same hm rfl rfl rfl
  have hfinish := hcalls.preserve hstart hI.call
  have hagrees := hcalls.agrees
  unfold BlockLedger.runTransaction
  rcases hx : exec t s { m with container := some t } with ⟨e | result, s', finish⟩
  · rw [hx] at hfinish
    exact hfinish
  · rw [hx] at hfinish hagrees
    have hafter : I (afterExecution m finish result.vmState).2 := by
      unfold afterExecution
      split
      · exact hI.same hfinish rfl rfl rfl
      · exact hI.same hm hagrees.settings hagrees.block rfl
    have hrecord := hI.record _ t.hash result.vmState hafter
    simp only [run_recordExecution]
    unfold Run.after at hrecord
    rcases hr : (Ledger.setVmState t.hash result.vmState).run
      (afterExecution m finish result.vmState).2 with ⟨e | u, m'⟩ <;> rw [hr] at hrecord <;>
      exact hrecord

/-- What lasts through every call and every record lasts through all
transactions of a block, whatever comes of them. -/
theorem runTransactions (hI : Lasting I) (hexec : exec.OnlyCalls) (ts : List Transaction) (s : σ)
    {m : Machine} (hm : I m) : I (runTransactions exec ts s m).2.2 := by
  induction ts generalizing s m with
  | nil => exact hm
  | cons t rest ih =>
    have hfirst := hI.runTransaction hexec t s hm
    unfold BlockLedger.runTransactions
    rcases hx : BlockLedger.runTransaction exec t s m with ⟨e | executed, s', m'⟩
    · rw [hx] at hfirst
      exact hfirst
    · rw [hx] at hfirst
      have hrest := ih s' hfirst
      simp only
      rcases hy : BlockLedger.runTransactions exec rest s' m' with ⟨e | more, s'', m''⟩ <;>
        rw [hy] at hrest <;> exact hrest

/-- The same block is applied all along. -/
theorem applies (settings : Settings) (base : Store) (block : Block) :
    Lasting fun m => m.Applies settings base block where
  same h hs hb hc := ⟨hs.trans h.settings, hb.trans h.block, by rw [hc, h.base]⟩
  call m address method args h := h.agrees (Contract.leaves_call address method args m)
  record m hash vmState h := h.agrees (Ledger.leaves_setVmState hash vmState m)

end Machine.Lasting
end BlockLedger
