-- Whose address an address is. The script of a built-in contract has a first
-- byte of its own, and the scripts of one key and of several keys have last
-- bytes of their own. Within each kind a script tells everything but the order
-- in which the keys were given. So two authorities share an address only if two
-- different scripts have the same hash.
import BlockLedger.Proofs.Codecs
import BlockLedger.Proofs.Fingerprints

namespace BlockLedger

/-! ## Keys in order -/

/-- The keys in the order in which a script lists them. -/
def ascending (keys : List PublicKey) : List PublicKey :=
  keys.mergeSort fun a b => (compare a b).isLE

theorem perm_ascending (keys : List PublicKey) : (ascending keys).Perm keys :=
  List.mergeSort_perm keys _

theorem pairwise_ascending (keys : List PublicKey) :
    (ascending keys).Pairwise fun a b => (compare a b).isLE = true := by
  apply List.pairwise_mergeSort
  · intro a b c hab hbc
    exact Std.TransCmp.isLE_trans hab hbc
  · intro a b
    have hswap : compare b a = (compare a b).swap := Std.OrientedCmp.eq_swap
    rw [hswap]
    cases compare a b <;> rfl

/-- The order tells which keys were given and how often, and nothing else. -/
theorem ascending_eq_iff {keys keys' : List PublicKey} :
    ascending keys = ascending keys' ↔ keys.Perm keys' := by
  constructor
  · intro h
    have hperm := perm_ascending keys
    rw [h] at hperm
    exact hperm.symm.trans (perm_ascending keys')
  · intro h
    have hperm := ((perm_ascending keys).trans h).trans (perm_ascending keys').symm
    apply hperm.eq_of_pairwise ?_ (pairwise_ascending keys) (pairwise_ascending keys')
    intro a b _ _ hab hba
    exact Std.LawfulEqOrd.eq_of_compare (Std.OrientedCmp.isLE_antisymm hab hba)

theorem length_flatMap_bytes {n : Nat} (l : List (Fixed n)) :
    (l.flatMap (·.bytes)).length = n * l.length := by
  induction l with
  | nil => rfl
  | cons a rest ih =>
    rw [List.flatMap_cons, List.length_append, ih, a.length_eq, List.length_cons, Nat.mul_succ]
    omega

/-- Strings of one length are told apart where they follow each other. -/
theorem flatMap_bytes_inj {n : Nat} {l l' : List (Fixed n)} (hlength : l.length = l'.length)
    (h : l.flatMap (·.bytes) = l'.flatMap (·.bytes)) : l = l' := by
  induction l generalizing l' with
  | nil => exact (List.length_eq_zero_iff.1 hlength.symm).symm
  | cons a rest ih =>
    cases l' with
    | nil => cases hlength
    | cons a' rest' =>
      rw [List.flatMap_cons, List.flatMap_cons] at h
      obtain ⟨hfirst, hrest⟩ := List.append_inj h (a.length_eq.trans a'.length_eq.symm)
      rw [Fixed.ext hfirst, ih (by simpa using hlength) hrest]

/-! ## Scripts of several keys -/

/-- A number of keys that can all sign and that one byte can count. -/
def Quorum (threshold : Nat) (keys : List PublicKey) : Prop :=
  1 ≤ threshold ∧ threshold ≤ keys.length ∧ keys.length ≤ 255

instance (threshold : Nat) (keys : List PublicKey) : Decidable (Quorum threshold keys) :=
  inferInstanceAs (Decidable (_ ∧ _))

/-- What several keys sign for. -/
def groupScript (threshold : Nat) (keys : List PublicKey) : Bytes :=
  threshold.toUInt8 :: ((ascending keys).flatMap (·.bytes) ++ [keys.length.toUInt8, 0xae])

variable {threshold threshold' : Nat} {keys keys' : List PublicKey}

theorem multisigScript_of_quorum (h : Quorum threshold keys) :
    multisigScript threshold keys = .ok (groupScript threshold keys) := by
  obtain ⟨hpos, hle, hfew⟩ := h
  unfold multisigScript
  dsimp only
  rw [if_neg (by omega)]
  rfl

theorem length_groupScript (threshold : Nat) (keys : List PublicKey) :
    (groupScript threshold keys).length = 33 * keys.length + 3 := by
  have hkeys := length_flatMap_bytes (ascending keys)
  rw [(perm_ascending keys).length_eq] at hkeys
  simp [groupScript, hkeys]

theorem toUInt8_inj {m n : Nat} (hm : m < 256) (hn : n < 256) (h : m.toUInt8 = n.toUInt8) :
    m = n := by
  have hvalue := congrArg UInt8.toNat h
  simp only [Nat.toUInt8, UInt8.toNat_ofNat'] at hvalue
  omega

/-- The length of a script tells the number of keys, and so where the list of
the keys ends. -/
theorem groupScript_eq_iff (h : Quorum threshold keys) (h' : Quorum threshold' keys') :
    groupScript threshold keys = groupScript threshold' keys' ↔
      threshold = threshold' ∧ keys.Perm keys' := by
  obtain ⟨-, hle, hfew⟩ := h
  obtain ⟨-, hle', hfew'⟩ := h'
  rw [← ascending_eq_iff]
  constructor
  · intro heq
    have hcount : keys.length = keys'.length := by
      have hlength := congrArg List.length heq
      rw [length_groupScript, length_groupScript] at hlength
      omega
    have hsorted : (ascending keys).length = (ascending keys').length := by
      rw [(perm_ascending keys).length_eq, (perm_ascending keys').length_eq, hcount]
    obtain ⟨hfirst, hrest⟩ := List.cons.inj heq
    obtain ⟨hkeys, -⟩ := List.append_inj hrest (by
      rw [length_flatMap_bytes, length_flatMap_bytes, hsorted])
    exact ⟨toUInt8_inj (by omega) (by omega) hfirst, flatMap_bytes_inj hsorted hkeys⟩
  · rintro ⟨rfl, hkeys⟩
    have hcount := (ascending_eq_iff.1 hkeys).length_eq
    rw [groupScript, groupScript, hkeys, hcount]

/-! ## Scripts of different kinds -/

theorem signatureScript_inj {k k' : PublicKey} (h : signatureScript k = signatureScript k') :
    k = k' :=
  Fixed.ext (List.append_cancel_right h)

theorem utf8_inj {s s' : String} (h : utf8 s = utf8 s') : s = s' :=
  String.toByteArray_inj.1 (ByteArray.ext (Array.toList_inj.1 h))

theorem contractScript_inj {name name' : String} (h : contractScript name = contractScript name') :
    name = name' :=
  utf8_inj (List.cons.inj h).2

theorem signatureScript_ne_groupScript (k : PublicKey) (threshold : Nat)
    (keys : List PublicKey) : signatureScript k ≠ groupScript threshold keys := by
  intro h
  have hlast := congrArg List.getLast? h
  simp [signatureScript, groupScript, List.getLast?_cons, List.getLast?_append] at hlast

theorem signatureScript_ne_contractScript {k : PublicKey} (h : k.Compressed) (name : String) :
    signatureScript k ≠ contractScript name := by
  intro heq
  have hfirst := congrArg List.head? heq
  rcases h with h | h <;> simp [signatureScript, contractScript, List.head?_append, h] at hfirst

theorem groupScript_ne_contractScript (h : Quorum threshold keys) (name : String) :
    groupScript threshold keys ≠ contractScript name := by
  obtain ⟨hpos, hle, hfew⟩ := h
  intro heq
  have hzero : threshold = 0 := toUInt8_inj (by omega) (by omega) (List.cons.inj heq).1
  omega

/-! ## Authorities -/

/-- Who can have an address: one key, a number of several keys, as the validators
and the committee are, or a built-in contract. -/
inductive Authority where
  | key (key : PublicKey)
  | group (threshold : Nat) (keys : List PublicKey)
  | contract (name : String)

namespace Authority

def script : Authority → Outcome Bytes
  | key k => .ok (signatureScript k)
  | group threshold keys => multisigScript threshold keys
  | contract name => .ok (contractScript name)

def address : Authority → Outcome Hash160
  | key k => .ok (signatureAddress k)
  | group threshold keys => (multisigScript threshold keys).map hash160
  | contract name => .ok (contractAddress name)

/-- Keys that a point can have, and a threshold that they can reach. -/
def Proper : Authority → Prop
  | key k => k.Compressed
  | group threshold keys => Quorum threshold keys ∧ ∀ k ∈ keys, k.Compressed
  | contract _ => True

/-- The same key, the same number of the same keys in any order, or the same
contract. -/
def Same : Authority → Authority → Prop
  | key k, key k' => k = k'
  | group threshold keys, group threshold' keys' => threshold = threshold' ∧ keys.Perm keys'
  | contract name, contract name' => name = name'
  | _, _ => False

/-- The bytes of the script of a proper authority. -/
def bytes : Authority → Bytes
  | key k => signatureScript k
  | group threshold keys => groupScript threshold keys
  | contract name => contractScript name

variable {a b : Authority}

theorem script_eq (h : a.Proper) : a.script = .ok a.bytes := by
  cases a with
  | key k => rfl
  | group threshold keys => exact multisigScript_of_quorum h.1
  | contract name => rfl

theorem address_eq (h : a.Proper) : a.address = .ok (hash160 a.bytes) := by
  cases a with
  | key k => rfl
  | group threshold keys => simp [address, multisigScript_of_quorum h.1, bytes, Except.map]
  | contract name => rfl

/-- Scripts of one kind tell what they were made of, and no script is of two
kinds. -/
theorem bytes_eq_iff (ha : a.Proper) (hb : b.Proper) : a.bytes = b.bytes ↔ a.Same b := by
  cases a with
  | key k =>
    cases b with
    | key k' => exact ⟨signatureScript_inj, fun h => congrArg signatureScript h⟩
    | group threshold keys => exact iff_of_false (signatureScript_ne_groupScript _ _ _) id
    | contract name => exact iff_of_false (signatureScript_ne_contractScript ha _) id
  | group threshold keys =>
    cases b with
    | key k => exact iff_of_false (signatureScript_ne_groupScript _ _ _).symm id
    | group threshold' keys' => exact groupScript_eq_iff ha.1 hb.1
    | contract name => exact iff_of_false (groupScript_ne_contractScript ha.1 _) id
  | contract name =>
    cases b with
    | key k => exact iff_of_false (signatureScript_ne_contractScript hb _).symm id
    | group threshold keys => exact iff_of_false (groupScript_ne_contractScript hb.1 _).symm id
    | contract name' => exact ⟨contractScript_inj, fun h => congrArg contractScript h⟩

/-- Two authorities have the same script exactly if they are the same, and the
same address exactly if they are the same or the hash of their scripts
collides. -/
theorem an_address_tells_whose_it_is (ha : a.Proper) (hb : b.Proper) :
    ∃ s s', a.script = .ok s ∧ b.script = .ok s' ∧ (s = s' ↔ a.Same b) ∧
      (a.address = b.address ↔ a.Same b ∨ Collide hash160 s s') := by
  refine ⟨a.bytes, b.bytes, script_eq ha, script_eq hb, bytes_eq_iff ha hb, ?_⟩
  have hhash : a.address = b.address ↔ hash160 a.bytes = hash160 b.bytes := by
    rw [address_eq ha, address_eq hb, Except.ok.injEq]
  rw [hhash, hash_eq_iff, bytes_eq_iff ha hb]

/-- A key that starts with some byte. -/
def keyFrom (first : UInt8) : PublicKey := ⟨first :: List.replicate 32 7, by simp⟩

def evenKey : PublicKey := keyFrom 2

def oddKey : PublicKey := keyFrom 3

/-- Keys may repeat and change places, but no threshold passes for another. -/
theorem sample_authorities :
    (group 2 [evenKey, oddKey, evenKey]).Proper ∧ (group 2 [oddKey, evenKey, evenKey]).Proper ∧
    (group 1 [oddKey, evenKey, evenKey]).Proper ∧
    (group 2 [evenKey, oddKey, evenKey]).address = (group 2 [oddKey, evenKey, evenKey]).address ∧
    ∃ s s', (group 2 [evenKey, oddKey, evenKey]).script = .ok s ∧
      (group 1 [oddKey, evenKey, evenKey]).script = .ok s' ∧ s ≠ s' := by
  have hleft : (group 2 [evenKey, oddKey, evenKey]).Proper := ⟨by decide, by decide⟩
  have hright : (group 2 [oddKey, evenKey, evenKey]).Proper := ⟨by decide, by decide⟩
  have hone : (group 1 [oddKey, evenKey, evenKey]).Proper := ⟨by decide, by decide⟩
  have hsame : (group 2 [evenKey, oddKey, evenKey]).Same (group 2 [oddKey, evenKey, evenKey]) :=
    ⟨rfl, by decide⟩
  obtain ⟨_, _, -, -, -, haddress⟩ := an_address_tells_whose_it_is hleft hright
  obtain ⟨s, s', hs, hs', hscript, -⟩ := an_address_tells_whose_it_is hleft hone
  refine ⟨hleft, hright, hone, haddress.2 (.inl hsame), s, s', hs, hs', fun heq => ?_⟩
  obtain ⟨hthreshold, -⟩ := hscript.1 heq
  cases hthreshold

/-- The validators and the committee are groups. -/
example (keys : List PublicKey) :
    validatorsAddress keys = (group (byzantineThreshold keys.length) keys).address ∧
    committeeAddress keys = (group (majorityThreshold keys.length) keys).address := ⟨rfl, rfl⟩

end Authority
end BlockLedger
