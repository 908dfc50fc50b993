-- What a comparison of two stores says. It lists the keys that only one of the
-- stores has and the keys with different values, and for every owner how many
-- keys it has more. No key is shown like another one, so the lists say exactly
-- where the stores differ, and the other way round they say the same.
import Mathlib.Data.List.Basic
import Mathlib.Tactic.Ring
import BlockLedger.Comparison
import BlockLedger.Proofs.Growth
import BlockLedger.Proofs.Totals

namespace BlockLedger

/-! ## Keys as texts -/

theorem colon_notMem_hexChars (s : Bytes) : ':' ∉ hexChars s := by
  have hdigit : ∀ n < 16, ':' ≠ hexDigit n := by decide
  induction s with
  | nil => exact List.not_mem_nil
  | cons b rest ih =>
    have hb : b.toNat < 256 := b.toNat_lt
    have hhigh := hdigit (b.toNat / 16) (by omega)
    have hlow := hdigit (b.toNat % 16) (by omega)
    simp [hexChars, hhigh, hlow, ih]

theorem notMem_repr {c : Char} (hc : ¬ c.isDigit = true) (n : Nat) : c ∉ n.repr.toList := by
  rw [Nat.toList_repr]
  exact fun h => hc (Nat.isDigit_of_mem_toDigits (by decide) (by decide) h)

theorem colon_notMem_toString (i : Int) : ':' ∉ (toString i).toList := by
  have hcolon := notMem_repr (c := ':') (by decide)
  rw [Int.toString_eq_repr]
  cases i with
  | ofNat n => exact hcolon n
  | negSucc n => simpa [Int.repr] using hcolon (n + 1)

/-- A number can be read from its digits. -/
theorem repr_inj {m n : Nat} (h : m.repr = n.repr) : m = n := by
  have hdigits : Nat.toDigits 10 m = Nat.toDigits 10 n := by
    rw [← Nat.toList_repr, ← Nat.toList_repr, h]
  rw [← Nat.ofDigitChars_ten_toDigits (n := m), hdigits, Nat.ofDigitChars_ten_toDigits]

/-- Only negative numbers have a sign. -/
theorem toString_inj {i j : Int} (h : toString i = toString j) : i = j := by
  have hnone (n : Nat) : '-' ∉ (Int.ofNat n).repr.toList := notMem_repr (by decide) n
  have hsign (n : Nat) : '-' ∈ (Int.negSucc n).repr.toList := by simp [Int.repr]
  rw [Int.toString_eq_repr, Int.toString_eq_repr] at h
  cases i with
  | ofNat m =>
    cases j with
    | ofNat n => rw [repr_inj h]
    | negSucc n => exact absurd (h ▸ hsign n) (hnone m)
  | negSucc m =>
    cases j with
    | ofNat n => exact absurd (h ▸ hsign m) (hnone n)
    | negSucc n => rw [Nat.succ.inj (repr_inj ((String.append_right_inj _).1 h))]

/-- The owner of a long key is its first four bytes. -/
theorem take_eq_of_ownerOf_eq {key key' : Bytes} (hk : 4 ≤ key.length) (hk' : 4 ≤ key'.length)
    (h : ownerOf key = ownerOf key') : key.take 4 = key'.take 4 := by
  have hlength : (key.take 4).length = 4 := by simp [hk]
  have hlength' : (key'.take 4).length = 4 := by simp [hk']
  have hlt := leValue_lt (key.take 4)
  have hlt' := leValue_lt (key'.take 4)
  have hword := congrArg (fun id : Int32 => id.toUInt32.toNat) h
  simp only [ownerOf, UInt32.toUInt32_toInt32, Nat.toUInt32, UInt32.toNat_ofNat'] at hword
  rw [hlength] at hlt
  rw [hlength'] at hlt'
  have hvalue : leValue (key.take 4) = leValue (key'.take 4) := by omega
  rw [← leBytes_leValue (key.take 4), ← leBytes_leValue (key'.take 4), hlength, hlength', hvalue]

theorem toList_keyText_of_lt {key : Bytes} (h : key.length < 4) :
    (keyText key).toList = hexChars key := by
  rw [keyText, if_pos h, hex, String.toList_ofList]

theorem toList_keyText_of_le {key : Bytes} (h : 4 ≤ key.length) : (keyText key).toList =
    (toString (ownerOf key).toInt).toList ++ ':' :: hexChars (key.drop 4) := by
  rw [keyText, if_neg (by omega), hex, String.toList_append, String.toList_append,
    String.toList_ofList]
  simp

/-- No two keys are shown alike. Only a key with an owner has a colon, and it
stands where the owner ends. -/
theorem keyText_injective : Function.Injective keyText := by
  intro key key' h
  have htext := congrArg String.toList h
  rcases Nat.lt_or_ge key.length 4 with hk | hk
  · rw [toList_keyText_of_lt hk] at htext
    rcases Nat.lt_or_ge key'.length 4 with hk' | hk'
    · rw [toList_keyText_of_lt hk'] at htext
      exact hexChars_inj htext
    · rw [toList_keyText_of_le hk'] at htext
      have hcolon := colon_notMem_hexChars key
      simp [htext] at hcolon
  · rw [toList_keyText_of_le hk] at htext
    rcases Nat.lt_or_ge key'.length 4 with hk' | hk'
    · rw [toList_keyText_of_lt hk'] at htext
      have hcolon := colon_notMem_hexChars key'
      simp [← htext] at hcolon
    · rw [toList_keyText_of_le hk', List.append_cons_inj_of_notMem (colon_notMem_toString _)
        (colon_notMem_hexChars _), String.toList_inj] at htext
      obtain ⟨howner, -, hrest⟩ := htext
      rw [← List.take_append_drop 4 key,
        take_eq_of_ownerOf_eq hk hk' (Int32.toInt_inj.1 (toString_inj howner)), hexChars_inj hrest,
        List.take_append_drop]

/-! ## The keys that differ -/

/-- Lists in ascending order are equal if they have the same members. -/
theorem eq_of_ascending {l l' : List Bytes} (h : l.Pairwise fun k k' => compare k k' = .lt)
    (h' : l'.Pairwise fun k k' => compare k k' = .lt) (hmem : ∀ k, k ∈ l ↔ k ∈ l') : l = l' := by
  have hnodup : ∀ {l : List Bytes}, (l.Pairwise fun k k' => compare k k' = .lt) → l.Nodup := by
    intro l hl
    refine hl.imp fun {k k'} hlt heq => ?_
    simp [heq] at hlt
  refine ((List.perm_ext_iff_of_nodup (hnodup h) (hnodup h')).2 hmem).eq_of_pairwise ?_ h h'
  intro k k' _ _ hlt hgt
  have hself := Std.TransCmp.lt_trans hlt hgt
  simp at hself

namespace Comparison

/-- A list of texts that shows the keys with a property, in the order of the keys. -/
def ListsKeys (texts : List String) (p : Bytes → Prop) : Prop :=
  ∃ keys : List Bytes, texts = keys.map keyText ∧
    (keys.Pairwise fun k k' => compare k k' = .lt) ∧ ∀ key, key ∈ keys ↔ p key

theorem ListsKeys.isEmpty_iff {texts : List String} {p : Bytes → Prop} (h : ListsKeys texts p) :
    texts.isEmpty = true ↔ ∀ key, ¬ p key := by
  obtain ⟨keys, rfl, -, hmem⟩ := h
  simp [← hmem, List.eq_nil_iff_forall_not_mem]

variable (a b : Store) {key : Bytes}

theorem mem_keysMissing_iff :
    key ∈ keysMissing a b ↔ (a.get? key).isSome = true ∧ b.get? key = none := by
  simp [keysMissing, SortedMap.mem_keys_iff, SortedMap.contains]

theorem pairwise_keysMissing : (keysMissing a b).Pairwise fun k k' => compare k k' = .lt :=
  (SortedMap.pairwise_keys a).filter _

theorem listsKeys_keysMissing : ListsKeys ((keysMissing a b).map keyText) fun key =>
    (a.get? key).isSome = true ∧ b.get? key = none :=
  ⟨keysMissing a b, rfl, pairwise_keysMissing a b, fun _ => mem_keysMissing_iff a b⟩

/-- Two different values under one key. -/
def Differ (key : Bytes) : Prop :=
  ∃ old new, a.get? key = some old ∧ b.get? key = some new ∧ old ≠ new

theorem mem_keysChanged_iff : key ∈ keysChanged a b ↔ Differ a b key := by
  simp only [keysChanged, List.mem_map, List.mem_filter, Option.any_eq_true, decide_eq_true_eq]
  constructor
  · rintro ⟨⟨key, new⟩, ⟨hmem, old, hold, hne⟩, rfl⟩
    exact ⟨old, new, hold, SortedMap.get?_eq_some_iff.2 hmem, hne⟩
  · rintro ⟨old, new, hold, hnew, hne⟩
    exact ⟨(key, new), ⟨SortedMap.get?_eq_some_iff.1 hnew, old, hold, hne⟩, rfl⟩

theorem pairwise_keysChanged : (keysChanged a b).Pairwise fun k k' => compare k k' = .lt :=
  List.pairwise_map.2 (b.sorted.filter _)

theorem listsKeys_keysChanged : ListsKeys ((keysChanged a b).map keyText) (Differ a b) :=
  ⟨keysChanged a b, rfl, pairwise_keysChanged a b, fun _ => mem_keysChanged_iff a b⟩

/-- The same keys have changed, whichever store comes first. -/
theorem keysChanged_comm : keysChanged a b = keysChanged b a := by
  apply eq_of_ascending (pairwise_keysChanged a b) (pairwise_keysChanged b a)
  intro key
  rw [mem_keysChanged_iff, mem_keysChanged_iff]
  constructor <;> rintro ⟨old, new, hold, hnew, hne⟩ <;> exact ⟨new, old, hnew, hold, hne.symm⟩

/-- Stores are equal if no key is in one of them only and none has changed. -/
theorem get?_eq_iff : (∀ key, a.get? key = b.get? key) ↔
    (∀ key, ¬ ((b.get? key).isSome = true ∧ a.get? key = none)) ∧
    (∀ key, ¬ ((a.get? key).isSome = true ∧ b.get? key = none)) ∧ ∀ key, ¬ Differ a b key := by
  constructor
  · intro h
    refine ⟨fun key hadded => ?_, fun key hremoved => ?_, ?_⟩
    · simp [← h key, hadded.2] at hadded
    · simp [h key, hremoved.2] at hremoved
    · rintro key ⟨old, new, hold, hnew, hne⟩
      rw [h key, hnew] at hold
      exact hne (Option.some.inj hold).symm
  · rintro ⟨hadded, hremoved, hchanged⟩ key
    rcases ha : a.get? key with _ | old
    · rcases hb : b.get? key with _ | new
      · rfl
      · exact absurd ⟨by simp [hb], ha⟩ (hadded key)
    · rcases hb : b.get? key with _ | new
      · exact absurd ⟨by simp [ha], hb⟩ (hremoved key)
      · by_contra hne
        exact hchanged key ⟨old, new, ha, hb, fun heq => hne (by rw [heq])⟩

/-! ## How many keys each owner has more -/

/-- How many keys of a store belong to an owner. -/
def ownedKeys (s : Store) (owner : ContractId) : Nat := s.keys.countP fun key => ownerOf key = owner

/-- Where keys are counted, those in both stores make no difference. -/
theorem countP_keys (p : Bytes → Bool) :
    (b.keys.countP p : Int) - a.keys.countP p =
      (keysMissing b a).countP p - (keysMissing a b).countP p := by
  have hsplit (s other : Store) : s.keys.countP p =
      (s.keys.filter other.contains).countP p + (keysMissing s other).countP p :=
    List.countP_eq_countP_filter_add _ _ _
  have hboth : (a.keys.filter b.contains).Perm (b.keys.filter a.contains) := by
    rw [List.perm_ext_iff_of_nodup ((SortedMap.nodup_keys a).filter _)
      ((SortedMap.nodup_keys b).filter _)]
    intro key
    simp [SortedMap.mem_keys_iff, and_comm]
  have ha := hsplit a b
  have hb := hsplit b a
  rw [hboth.countP_eq] at ha
  omega

/-- A store has as many keys more as it has keys of its own more. -/
theorem size_sub_size :
    (b.size : Int) - a.size = (keysMissing b a).length - (keysMissing a b).length := by
  have hcount := countP_keys a b fun _ => true
  simpa [List.countP_true, SortedMap.keys, SortedMap.size] using hcount

section Tallies

variable (step : Int) (deltas : SortedMap ContractId Int) (owner : ContractId)

theorem getD_tally (key : Bytes) : ((tally step deltas key).get? owner).getD 0 =
    (deltas.get? owner).getD 0 + if ownerOf key = owner then step else 0 := by
  rw [tally, SortedMap.get?_insert]
  by_cases h : ownerOf key = owner
  · simp [h]
  · have hne : ¬ owner = ownerOf key := fun heq => h heq.symm
    simp [h, hne]

theorem getD_foldl_tally (keys : List Bytes) :
    ((keys.foldl (tally step) deltas).get? owner).getD 0 =
      (deltas.get? owner).getD 0 + step * keys.countP fun key => ownerOf key = owner := by
  induction keys generalizing deltas with
  | nil => simp
  | cons key rest ih =>
    rw [List.foldl_cons, ih, getD_tally, List.countP_cons]
    by_cases h : ownerOf key = owner
    · simp [h]
      ring
    · simp [h]

theorem sum_tally (key : Bytes) :
    (tally step deltas key).values.sum = deltas.values.sum + step := by
  have hput := SortedMap.sum_put (fun _ delta => delta) (ownerOf key)
    ((deltas.get? (ownerOf key)).getD 0 + step) deltas.toList
  have hold : (SortedMap.find (ownerOf key) deltas.toList).elim 0 (fun delta => delta) =
      (deltas.get? (ownerOf key)).getD 0 := by
    unfold SortedMap.get?
    cases SortedMap.find (ownerOf key) deltas.toList <;> rfl
  rw [hold] at hput
  simp only [tally, SortedMap.values, SortedMap.insert]
  omega

theorem sum_foldl_tally (keys : List Bytes) :
    (keys.foldl (tally step) deltas).values.sum = deltas.values.sum + step * keys.length := by
  induction keys generalizing deltas with
  | nil => simp
  | cons key rest ih =>
    rw [List.foldl_cons, ih, sum_tally, List.length_cons]
    push_cast
    ring

theorem get?_nonzero : (nonzero deltas).get? owner = (deltas.get? owner).filter (· ≠ 0) := by
  ext v
  rw [SortedMap.get?_eq_some_iff, nonzero, List.mem_filter, ← SortedMap.get?_eq_some_iff,
    Option.filter_eq_some_iff]

theorem sum_nonzero : (nonzero deltas).values.sum = deltas.values.sum := by
  simp only [nonzero, SortedMap.values]
  induction deltas.toList with
  | nil => rfl
  | cons e rest ih =>
    by_cases h : e.2 = 0
    · rw [List.filter_cons_of_neg (by simpa using h), ih, List.map_cons, List.sum_cons, h, zero_add]
    · rw [List.filter_cons_of_pos (by simpa using h), List.map_cons, List.map_cons, List.sum_cons,
        List.sum_cons, ih]

end Tallies

/-- What the keys of their own add up to for every owner. -/
def deltasOf : SortedMap ContractId Int :=
  (keysMissing a b).foldl (tally (-1)) ((keysMissing b a).foldl (tally 1) .empty)

theorem getD_deltasOf (owner : ContractId) :
    ((deltasOf a b).get? owner).getD 0 = (ownedKeys b owner : Int) - ownedKeys a owner := by
  rw [deltasOf, getD_foldl_tally, getD_foldl_tally, SortedMap.get?_empty, ownedKeys, ownedKeys,
    countP_keys a b]
  simp
  ring

/-- An owner is listed with the difference, unless there is none. -/
theorem get?_nonzero_deltasOf (owner : ContractId) : (nonzero (deltasOf a b)).get? owner =
    if ownedKeys b owner = ownedKeys a owner then none
    else some ((ownedKeys b owner : Int) - ownedKeys a owner) := by
  have hdelta := getD_deltasOf a b owner
  rw [get?_nonzero]
  rcases hget : (deltasOf a b).get? owner with _ | v
  · rw [hget, Option.getD_none] at hdelta
    rw [if_pos (by omega), Option.filter_none]
  · rw [hget, Option.getD_some] at hdelta
    by_cases h : ownedKeys b owner = ownedKeys a owner
    · have hzero : v = 0 := by omega
      simp [h, hzero]
    · have hne : v ≠ 0 := by omega
      rw [if_neg h, ← hdelta]
      simp [hne]

theorem sum_nonzero_deltasOf : (nonzero (deltasOf a b)).values.sum = (b.size : Int) - a.size := by
  have hempty : (SortedMap.empty : SortedMap ContractId Int).values.sum = 0 := rfl
  rw [sum_nonzero, deltasOf, sum_foldl_tally, sum_foldl_tally, hempty, size_sub_size]
  ring

theorem nonzero_deltasOf_comm :
    nonzero (deltasOf b a) = (nonzero (deltasOf a b)).mapValues fun delta => -delta := by
  apply SortedMap.ext
  intro owner
  rw [SortedMap.get?_mapValues, get?_nonzero_deltasOf, get?_nonzero_deltasOf]
  by_cases h : ownedKeys b owner = ownedKeys a owner
  · simp [h]
  · have hne : ¬ ownedKeys a owner = ownedKeys b owner := fun heq => h heq.symm
    simp [h, hne]

/-! ## What a comparison says -/

/-- The comparison of two stores with known heights. -/
def between (heightA heightB : UInt32) : Comparison where
  countA := a.size
  countB := b.size
  heightA := heightA
  heightB := heightB
  ownerDeltas := nonzero (deltasOf a b)
  added := (keysMissing b a).map keyText
  removed := (keysMissing a b).map keyText
  changed := (keysChanged a b).map keyText

variable {a b} {r : Comparison}

/-- Stores are compared if both have a height that can be read. -/
theorem ofStores_eq_ok_iff : ofStores a b = .ok r ↔ ∃ heightA heightB,
    Ledger.currentIndex (.ofStore a) = .ok heightA ∧
    Ledger.currentIndex (.ofStore b) = .ok heightB ∧ between a b heightA heightB = r := by
  have hunfold : ofStores a b = (do
      let heightA ← Ledger.currentIndex (.ofStore a)
      let heightB ← Ledger.currentIndex (.ofStore b)
      return between a b heightA heightB) := rfl
  rw [hunfold]
  constructor
  · intro h
    obtain ⟨heightA, ha, h⟩ := ok_of_bind h
    obtain ⟨heightB, hb, h⟩ := ok_of_bind h
    exact ⟨heightA, heightB, ha, hb, Except.ok.inj h⟩
  · rintro ⟨heightA, heightB, ha, hb, rfl⟩
    rw [ha, hb]
    rfl

/-- The comparison with the two stores in each other's place. -/
def flipped (r : Comparison) : Comparison where
  countA := r.countB
  countB := r.countA
  heightA := r.heightB
  heightB := r.heightA
  ownerDeltas := r.ownerDeltas.mapValues fun delta => -delta
  added := r.removed
  removed := r.added
  changed := r.changed

theorem between_comm (heightA heightB : UInt32) :
    between b a heightB heightA = (between a b heightA heightB).flipped := by
  simp only [between, flipped, nonzero_deltasOf_comm a b, keysChanged_comm b a]

theorem countDelta_flipped (r : Comparison) : r.flipped.countDelta = -r.countDelta := by
  simp [countDelta, flipped]

/-- A comparison that says exactly where and by how much two stores differ. -/
structure Exact (r : Comparison) (a b : Store) : Prop where
  added : ListsKeys r.added fun key => (b.get? key).isSome = true ∧ a.get? key = none
  removed : ListsKeys r.removed fun key => (a.get? key).isSome = true ∧ b.get? key = none
  changed : ListsKeys r.changed (Differ a b)
  counts : r.countA = a.size ∧ r.countB = b.size
  heights : Ledger.currentIndex (.ofStore a) = .ok r.heightA ∧
    Ledger.currentIndex (.ofStore b) = .ok r.heightB
  countDelta : r.countDelta = (b.size : Int) - a.size
  countDelta_lists : r.countDelta = (r.added.length : Int) - r.removed.length
  countDelta_owners : r.countDelta = r.ownerDeltas.values.sum
  /-- An owner is listed with the difference of its keys, unless there is none. -/
  ownerDeltas (owner : ContractId) : r.ownerDeltas.get? owner =
    if ownedKeys b owner = ownedKeys a owner then none
    else some ((ownedKeys b owner : Int) - ownedKeys a owner)
  identical : r.isIdentical = true ↔ ∀ key, a.get? key = b.get? key
  /-- The other way round all is the same, with opposite differences. -/
  flipped : ofStores b a = .ok r.flipped ∧ r.flipped.countDelta = -r.countDelta

/-- Whenever two stores are compared, the comparison says exactly how they
differ, and its texts tell the keys. -/
theorem a_comparison_tells_the_difference (h : ofStores a b = .ok r) :
    r.Exact a b ∧ Function.Injective keyText := by
  obtain ⟨heightA, heightB, ha, hb, rfl⟩ := ofStores_eq_ok_iff.1 h
  have hadded := listsKeys_keysMissing b a
  have hremoved := listsKeys_keysMissing a b
  have hchanged := listsKeys_keysChanged a b
  refine ⟨?_, keyText_injective⟩
  exact {
    added := hadded
    removed := hremoved
    changed := hchanged
    counts := ⟨rfl, rfl⟩
    heights := ⟨ha, hb⟩
    countDelta := rfl
    countDelta_lists := by
      simpa [Comparison.countDelta, between] using size_sub_size a b
    countDelta_owners := (sum_nonzero_deltasOf a b).symm
    ownerDeltas := get?_nonzero_deltasOf a b
    identical := by
      rw [get?_eq_iff, ← hadded.isEmpty_iff, ← hremoved.isEmpty_iff, ← hchanged.isEmpty_iff]
      simp [isIdentical, between, and_assoc]
    flipped := by
      refine ⟨ofStores_eq_ok_iff.2 ⟨heightB, heightA, hb, ha, ?_⟩, countDelta_flipped _⟩
      exact between_comm heightA heightB }

namespace Sample

/-- A key of a contract with one more byte. -/
def keyOf (owner : ContractId) (rest : UInt8) : Bytes := owner.bytes ++ [rest]

def older : Store := ((SortedMap.empty : Store).insert (keyOf (-3) 120) [1]).insert
  (keyOf (-4) 121) [1]

/-- One value has changed, one key has gone and two have come; one of these is
too short to name its owner. -/
def newer : Store := (((SortedMap.empty : Store).insert (keyOf (-3) 120) [2]).insert
  (keyOf (-1) 122) [1]).insert [255, 255] []

/-- One key more in all, and yet one has gone. -/
theorem newer_has_changed : ∃ r, ofStores older newer = .ok r ∧ r.Exact older newer ∧
    r.removed = ["-4:79"] ∧ r.added = ["ffff", "-1:7a"] ∧ r.changed = ["-3:78"] ∧
    r.ownerDeltas.toList = [(-4, -1), (-1, 1), (65535, 1)] := by
  have hok : ofStores older newer = .ok (BlockLedger.Sample.given (ofStores older newer)
      (between older newer 0 0)) := BlockLedger.Sample.eq_given (by decide +kernel)
  exact ⟨_, hok, (a_comparison_tells_the_difference hok).1, by decide +kernel, by decide +kernel,
    by decide +kernel, by decide +kernel⟩

end Sample
end Comparison
end BlockLedger
