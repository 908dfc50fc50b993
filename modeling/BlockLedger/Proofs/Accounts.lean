-- The accounts of the fee asset. The accounts and the total supply are kept
-- apart; they are in step when the accounts hold the supply together.
import BlockLedger.Proofs.Books
import BlockLedger.Proofs.Items

namespace BlockLedger

/-! ## Balances of a cache -/

/-- The balance that an item shows; an item that is no account shows none. -/
def Item.balance (item : Item) : Nat :=
  match (item.read : Except CodecError Account) with
  | .ok a => a.balance
  | .error _ => 0

theorem Item.Shows.balance {item : Item} {a : Account} (h : item.Shows a) :
    item.balance = a.balance := by
  rw [Item.balance, h.read]

namespace Gas

variable {c c' : Cache} {owner : Hash160} {a : Account} {supply : Nat}

/-- The items of all accounts. -/
def accounts (c : Cache) : SortedMap Bytes Item := c.find (Key.lead Contract.gas.id accountTag)

/-- The sum of all balances. -/
def held (c : Cache) : Nat := (accounts c).total fun _ item => item.balance

/-- The accounts that hold something are kept, and no others. -/
def Clean (c : Cache) : Prop :=
  ∀ key : Key, key.owner = Contract.gas.id → key.tag = accountTag → ∀ item, c.get? key = some item →
    ∃ a : Account, item.Shows a ∧ a.balance ≠ 0

/-- The accounts hold the supply together. -/
structure Sound (c : Cache) (supply : Nat) : Prop where
  total : totalSupply c = .ok supply
  held : held c = supply
  clean : Clean c
  /-- No supply is larger than the largest first distribution. -/
  small : supply < 2 ^ 64

theorem supplyKey_ne_accountKey (owner : Hash160) : supplyKey ≠ accountKey owner := by
  intro h
  have htag : (11 : UInt8) = 20 := congrArg Key.tag h
  exact absurd htag (by decide)

/-- Every account can be read; one that is not kept holds nothing. -/
theorem Clean.shows (h : Clean c) (owner : Hash160) :
    ∃ v : Option Account, c.Shows (accountKey owner) v ∧ ∀ a ∈ v, a.balance ≠ 0 := by
  rcases hk : c.get? (accountKey owner) with _ | item
  · exact ⟨none, hk, by simp⟩
  · obtain ⟨a, hs, ha⟩ := h (accountKey owner) rfl rfl item hk
    exact ⟨some a, ⟨item, hk, hs⟩, by simpa using ha⟩

theorem account_of_shows {v : Option Account} (h : c.Shows (accountKey owner) v) :
    account c owner = .ok (v.getD .zero) := by
  rw [account, h.read?]
  rfl

theorem get?_accounts (c : Cache) (owner : Hash160) :
    (accounts c).get? (accountKey owner).bytes = c.get? (accountKey owner) :=
  Cache.get?_find_table (accountKey owner) rfl rfl

theorem accounts_put (c : Cache) (owner : Hash160) (item : Item) :
    accounts (c.put (accountKey owner) item) =
      (accounts c).insert (accountKey owner).bytes item :=
  Cache.find_put (accountKey owner) rfl rfl item

theorem accounts_delete (c : Cache) (owner : Hash160) :
    accounts (c.delete (accountKey owner)) = (accounts c).erase (accountKey owner).bytes :=
  Cache.find_delete (accountKey owner)

/-- The entry of an account weighs what the account holds. -/
theorem weight_of_shows {v : Option Account} (h : c.Shows (accountKey owner) v) :
    ((accounts c).get? (accountKey owner).bytes).elim 0 (fun item => item.balance) =
      (v.getD .zero).balance := by
  rw [get?_accounts]
  rcases v with _ | a
  · rw [show c.get? (accountKey owner) = none from h]
    rfl
  · obtain ⟨item, hk, hs⟩ := h
    rw [hk, Option.elim_some, hs.balance]
    rfl

/-! ## Keeping an account -/

/-- The cache in which an account holds what is given. -/
def keep (c : Cache) (owner : Hash160) (a : Account) : Cache :=
  if a.balance = 0 then c.delete (accountKey owner) else c.put (accountKey owner) (.account a)

theorem get?_keep_of_ne {key : Key} (h : key ≠ accountKey owner) :
    (keep c owner a).get? key = c.get? key := by
  unfold keep
  split
  · rw [Cache.get?_delete, if_neg h]
  · rw [Cache.get?_put, if_neg h]

/-- The sum of all balances changes as the account does. -/
theorem held_keep {old : Account} (h : Clean c) (ha : account c owner = .ok old) :
    held (keep c owner a) + (old.balance : Nat) = held c + (a.balance : Nat) := by
  obtain ⟨v, hv, -⟩ := h.shows owner
  rw [account_of_shows hv] at ha
  cases ha
  have hweight := weight_of_shows hv
  unfold held keep
  split
  · rename_i hzero
    have herase := SortedMap.total_erase (fun _ item => item.balance) (accounts c)
      (accountKey owner).bytes
    rw [hweight] at herase
    rw [accounts_delete, herase, hzero, Nat.add_zero]
  · have hinsert := SortedMap.total_insert (fun _ item => item.balance) (accounts c)
      (accountKey owner).bytes (Item.account a)
    rw [hweight] at hinsert
    rw [accounts_put, hinsert]
    rfl

theorem clean_keep (h : Clean c) : Clean (keep c owner a) := by
  intro key ho ht item hk
  by_cases hkey : key = accountKey owner
  · subst hkey
    unfold keep at hk
    split at hk
    · rw [Cache.get?_delete, if_pos rfl] at hk
      cases hk
    · rename_i hne
      rw [Cache.get?_put, if_pos rfl] at hk
      cases hk
      exact ⟨a, Item.shows_item a, hne⟩
  · rw [get?_keep_of_ne hkey] at hk
    exact h key ho ht item hk

theorem totalSupply_keep : totalSupply (keep c owner a) = totalSupply c := by
  unfold totalSupply
  rw [get?_keep_of_ne (supplyKey_ne_accountKey owner)]

theorem totalSupply_put (h : supply < Amount.limit) :
    totalSupply (c.put supplyKey (.raw (Amount.bytes supply))) = .ok supply := by
  simp [totalSupply, Cache.get?_put, Item.bytes, ofBytes?_bytes h]

/-- The supply is kept in another table than the accounts. -/
theorem Sound.congr (h : Sound c supply)
    (hc : ∀ key : Key, key.owner = Contract.gas.id → c'.get? key = c.get? key) :
    Sound c' supply where
  total := by
    have htotal := h.total
    unfold totalSupply at htotal ⊢
    rwa [hc supplyKey rfl]
  held := by
    have hheld := h.held
    unfold Gas.held accounts at hheld ⊢
    rwa [Cache.find_congr fun key ho _ => hc key ho]
  clean key ho ht item hk := h.clean key ho ht item (by rwa [← hc key ho])
  small := h.small

/-- No account holds more than all of them together. -/
theorem Clean.balance_le (h : Clean c) (ha : account c owner = .ok a) : a.balance ≤ held c := by
  have hheld := held_keep (a := Account.zero) h ha
  exact Nat.le.intro ((Nat.add_comm _ _).trans hheld)

theorem Sound.balance_le (h : Sound c supply) (ha : account c owner = .ok a) :
    a.balance ≤ supply := by
  rw [← h.held]
  exact h.clean.balance_le ha

theorem accounts_put_supply (c : Cache) (item : Item) :
    accounts (c.put supplyKey item) = accounts c := by
  apply Cache.find_congr
  intro key _ ht
  rw [Cache.get?_put, if_neg]
  rintro rfl
  exact absurd ht (by decide)

theorem clean_put_supply (h : Clean c) (item : Item) : Clean (c.put supplyKey item) := by
  intro key ho ht item' hk
  rw [Cache.get?_put, if_neg] at hk
  · exact h key ho ht item' hk
  · rintro rfl
    exact absurd ht (by decide)

/-- An account and the supply that change by the same amount stay in step. -/
theorem Sound.keep_put {old : Account} {supply' : Nat} (h : Sound c supply)
    (ha : account c owner = .ok old)
    (hs : supply' + (old.balance : Nat) = supply + (a.balance : Nat)) (hsmall : supply' < 2 ^ 64) :
    Sound ((keep c owner a).put supplyKey (.raw (Amount.bytes supply'))) supply' where
  total := totalSupply_put (Nat.lt_trans hsmall (by decide))
  held := by
    have hheld := held_keep (a := a) h.clean ha
    rw [h.held, ← hs] at hheld
    unfold Gas.held at hheld ⊢
    rw [accounts_put_supply]
    exact Nat.add_right_cancel hheld
  clean := clean_put_supply (clean_keep h.clean) _
  small := hsmall

/-- Two accounts that change by the same amount keep the supply. -/
theorem Sound.keep_keep {old old' a' : Account} {target : Hash160} (h : Sound c supply)
    (ha : account c owner = .ok old) (ha' : account (keep c owner a) target = .ok old')
    (hs : (a.balance : Nat) + (a'.balance : Nat) = (old.balance : Nat) + (old'.balance : Nat)) :
    Sound (keep (keep c owner a) target a') supply where
  total := by rw [totalSupply_keep, totalSupply_keep, h.total]
  held := by
    have hfirst := held_keep (a := a) h.clean ha
    have hsecond := held_keep (a := a') (clean_keep h.clean) ha'
    rw [h.held] at hfirst
    unfold Amount at *
    omega
  clean := clean_keep (clean_keep h.clean)
  small := h.small

/-- A commit changes no balance. -/
theorem Sound.stored (h : Sound c supply) : Sound c.stored supply where
  total := by
    have htotal := h.total
    unfold totalSupply at htotal ⊢
    rw [Cache.get?_stored]
    rcases hk : c.get? supplyKey with _ | item <;> rw [hk] at htotal <;> exact htotal
  held := by
    have hweights : ∀ e ∈ (accounts c).toList, (Item.raw e.2.bytes).balance = e.2.balance := by
      rintro ⟨k, item⟩ he
      obtain ⟨key, ho, ht, hk⟩ := Cache.exists_key_of_find (SortedMap.get?_eq_some_iff.2 he)
      obtain ⟨a, hs, -⟩ := h.clean key ho ht item hk
      exact hs.raw.balance.trans hs.balance.symm
    have hheld := h.held
    unfold Gas.held accounts at hheld ⊢
    rw [Cache.find_stored, SortedMap.total_mapValues]
    exact (SortedMap.total_congr hweights).trans hheld
  clean := by
    intro key ho ht item hk
    rw [Cache.get?_stored, Option.map_eq_some_iff] at hk
    obtain ⟨old, hold, rfl⟩ := hk
    obtain ⟨a, hs, ha⟩ := h.clean key ho ht old hold
    exact ⟨a, hs.raw, ha⟩
  small := h.small

/-! ## Single balances -/

theorem clean_account (h : Clean c) (owner : Hash160) : ∃ a, account c owner = .ok a := by
  obtain ⟨v, hv, -⟩ := h.shows owner
  exact ⟨_, account_of_shows hv⟩

theorem accountKey_inj {owner other : Hash160} :
    accountKey owner = accountKey other ↔ owner = other :=
  ⟨fun h => Fixed.ext (congrArg Key.rest h), fun h => h ▸ rfl⟩

theorem balance_of_account (h : account c owner = .ok a) : balance c owner = .ok a.balance := by
  rw [balance, h]
  rfl

/-- What an account holds fits. -/
theorem balance_lt {held : Amount} (h : balance c owner = .ok held) : held < Amount.limit := by
  unfold balance at h
  obtain ⟨a, -, h⟩ := ok_of_bind h
  cases h
  exact a.fits

theorem balance_congr (h : c'.get? (accountKey owner) = c.get? (accountKey owner)) :
    balance c' owner = balance c owner := by
  simp only [balance, account, Cache.read?, h]

/-- An account that is kept holds what is given; others hold what they did. -/
theorem balance_keep (c : Cache) (owner : Hash160) (a : Account) (other : Hash160) :
    balance (keep c owner a) other = if other = owner then .ok a.balance else balance c other := by
  by_cases hother : other = owner
  · subst hother
    rw [if_pos rfl]
    unfold keep
    split
    · rename_i hzero
      have hnone :
          (c.delete (accountKey other)).Shows (accountKey other) (none : Option Account) := by
        change (c.delete (accountKey other)).get? (accountKey other) = none
        rw [Cache.get?_delete, if_pos rfl]
      rw [balance_of_account (account_of_shows hnone), hzero]
      rfl
    · exact balance_of_account (account_of_shows (Cache.shows_put a))
  · rw [if_neg hother]
    exact balance_congr (get?_keep_of_ne fun h => hother (accountKey_inj.1 h))

theorem balance_put_supply (c : Cache) (item : Item) (owner : Hash160) :
    balance (c.put supplyKey item) owner = balance c owner := by
  apply balance_congr
  rw [Cache.get?_put, if_neg (supplyKey_ne_accountKey owner).symm]

/-- A sender covers some transactions if it holds the sum of their fees. -/
def Covers (c : Cache) (ts : List Transaction) (sender : Hash160) : Prop :=
  ∃ held, balance c sender = .ok held ∧ (ts.map (·.owes sender)).sum ≤ held

theorem covers_congr (h : ∀ key : Key, key.owner = Contract.gas.id → c'.get? key = c.get? key)
    (ts : List Transaction) (sender : Hash160) : Covers c' ts sender ↔ Covers c ts sender := by
  unfold Covers
  rw [balance_congr (h (accountKey sender) rfl)]

/-- Every account paid what it owes for a transaction. -/
def Paid (c : Cache) (t : Transaction) (c' : Cache) : Prop :=
  ∀ sender, ∃ held, balance c sender = .ok held ∧ t.owes sender ≤ held ∧
    balance c' sender = .ok (held - t.owes sender)

/-- Once the first transaction is paid, the others are to be covered. -/
theorem Paid.covers_iff {t : Transaction} (h : Paid c t c') (ts : List Transaction)
    (sender : Hash160) : Covers c (t :: ts) sender ↔ Covers c' ts sender := by
  obtain ⟨held, hheld, hle, hleft⟩ := h sender
  unfold Covers
  rw [hheld, hleft, List.map_cons, List.sum_cons]
  constructor
  · rintro ⟨_, ⟨⟩, hsum⟩
    exact ⟨_, rfl, Nat.le_sub_of_add_le' hsum⟩
  · rintro ⟨_, ⟨⟩, hsum⟩
    exact ⟨_, rfl, Nat.add_le_of_le_sub' hle hsum⟩

theorem not_covers_of_lt {t : Transaction} {ts : List Transaction} {held : Nat}
    (hheld : balance c owner = .ok held) (hlt : held < t.owes owner) :
    ¬ Covers c (t :: ts) owner := by
  rintro ⟨held', hheld', hsum⟩
  rw [hheld] at hheld'
  cases hheld'
  rw [List.map_cons, List.sum_cons] at hsum
  omega

end Gas
end BlockLedger
