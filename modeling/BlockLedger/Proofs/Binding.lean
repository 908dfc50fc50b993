-- What the root of the hash tree says about its leaves. A last hash without a
-- neighbour is hashed with itself, so a list and the one that repeats its end
-- share a root. Between lists without repetitions, with trees of one height, the
-- root tells the leaves and their order, as long as the hash function tells apart
-- what was joined on the way.
import Mathlib.Data.List.Nodup
import Mathlib.Data.Nat.Log
import BlockLedger.Proofs.Growth

namespace BlockLedger

/-! ## What is hashed on the way to a root -/

/-- What one level of the tree is hashed from. -/
def merkleJoins : List Hash256 → List Bytes
  | [] => []
  | [a] => [a.bytes ++ a.bytes]
  | a :: b :: rest => (a.bytes ++ b.bytes) :: merkleJoins rest

/-- The levels that are paired up over a level, in at most `rounds` rounds. -/
def merkleLevelsIn : (rounds : Nat) → List Hash256 → List (List Hash256)
  | _, [] => []
  | _, [_] => []
  | 0, _ => []
  | rounds + 1, level => level :: merkleLevelsIn rounds (merkleLevel level)

/-- The levels that are paired up until the root is left. -/
def merkleLevels (hashes : List Hash256) : List (List Hash256) :=
  merkleLevelsIn hashes.length hashes

/-- How often the hashes are paired up. -/
def merkleRounds (hashes : List Hash256) : Nat := (merkleLevels hashes).length

/-- The number of levels of the tree, with the root and the leaves. -/
def merkleHeight (hashes : List Hash256) : Nat :=
  if hashes = [] then 0 else merkleRounds hashes + 1

/-- All that is hashed to get the root. -/
def merkleInputs (hashes : List Hash256) : List Bytes := (merkleLevels hashes).flatMap merkleJoins

/-- Two different inputs of 64 bytes have one hash. -/
def HasCollision (inputs : List Bytes) : Prop :=
  ∃ x ∈ inputs, ∃ y ∈ inputs, x.length = 64 ∧ y.length = 64 ∧ x ≠ y ∧ sha256 x = sha256 y

/-- No two of the inputs share a hash. -/
def HashedApart (inputs : List Bytes) : Prop :=
  ∀ x ∈ inputs, ∀ y ∈ inputs, sha256 x = sha256 y → x = y

variable {l l' : List Hash256} {n n' : Nat} {a b a' b' : Hash256} {x : Bytes}
  {inputs : List Bytes}

theorem merkleLevel_eq (l : List Hash256) : merkleLevel l = (merkleJoins l).map sha256 := by
  induction l using merkleLevel.induct with
  | case1 => rfl
  | case2 => rfl
  | case3 a b rest ih => rw [merkleLevel, merkleJoins, List.map_cons, ih]

theorem merkleJoins_eq_nil_iff : merkleJoins l = [] ↔ l = [] := by
  match l with
  | [] => exact iff_of_true rfl rfl
  | [a] => exact iff_of_false nofun nofun
  | a :: b :: rest => exact iff_of_false nofun nofun

/-- Every input is two neighbours, or one hash twice. -/
theorem of_mem_merkleJoins (h : x ∈ merkleJoins l) :
    ∃ a ∈ l, ∃ b ∈ l, x = a.bytes ++ b.bytes := by
  induction l using merkleJoins.induct with
  | case1 => cases h
  | case2 a =>
    have ha : a ∈ [a] := List.mem_singleton_self a
    exact ⟨a, ha, a, ha, List.mem_singleton.1 h⟩
  | case3 a b rest ih =>
    rcases List.mem_cons.1 h with rfl | h
    · exact ⟨a, by simp, b, by simp, rfl⟩
    · obtain ⟨c, hc, d, hd, rfl⟩ := ih h
      exact ⟨c, by simp [hc], d, by simp [hd], rfl⟩

theorem length_of_mem_merkleInputs (h : x ∈ merkleInputs l) : x.length = 64 := by
  obtain ⟨level, -, h⟩ := List.mem_flatMap.1 h
  obtain ⟨a, -, b, -, rfl⟩ := of_mem_merkleJoins h
  rw [List.length_append, a.length_eq, b.length_eq]

/-! ## Rounds -/

theorem merkleRootIn_succ (h : 2 ≤ l.length) :
    merkleRootIn (n + 1) l = merkleRootIn n (merkleLevel l) := by
  match l, h with
  | a :: b :: rest, _ => rfl

theorem merkleLevelsIn_succ (h : 2 ≤ l.length) :
    merkleLevelsIn (n + 1) l = l :: merkleLevelsIn n (merkleLevel l) := by
  match l, h with
  | a :: b :: rest, _ => rfl

theorem merkleRootIn_singleton (n : Nat) (root : Hash256) : merkleRootIn n [root] = root := by
  cases n <;> rfl

/-- Without a round to go, nothing or one hash is left. -/
theorem merkleLevelsIn_eq_nil_iff (h : l.length ≤ n) :
    merkleLevelsIn n l = [] ↔ l.length ≤ 1 := by
  match n, l, h with
  | _, [], _ => simp [merkleLevelsIn]
  | _, [a], _ => simp [merkleLevelsIn]
  | n + 1, a :: b :: rest, _ => simp [merkleLevelsIn]

/-- The number of rounds depends on the number of hashes alone. -/
theorem length_merkleLevelsIn (h : l.length ≤ n) :
    (merkleLevelsIn n l).length = Nat.clog 2 l.length := by
  induction n generalizing l with
  | zero =>
    obtain rfl := List.length_eq_zero_iff.1 (Nat.le_zero.1 h)
    rfl
  | succ n ih =>
    by_cases htwo : 2 ≤ l.length
    · have hlevel := length_merkleLevel l
      rw [merkleLevelsIn_succ htwo, List.length_cons, ih (by omega), hlevel,
        Nat.clog_of_two_le (by decide) htwo]
      rfl
    · rw [(merkleLevelsIn_eq_nil_iff h).2 (by omega), Nat.clog_of_right_le_one (by omega)]
      rfl

theorem merkleRounds_eq (l : List Hash256) : merkleRounds l = Nat.clog 2 l.length :=
  length_merkleLevelsIn le_rfl

/-! ## One level -/

theorem bytes_append_inj (h : a.bytes ++ b.bytes = a'.bytes ++ b'.bytes) : a = a' ∧ b = b' := by
  obtain ⟨hleft, hright⟩ := List.append_inj h (a.length_eq.trans a'.length_eq.symm)
  exact ⟨Fixed.ext hleft, Fixed.ext hright⟩

theorem nodup_merkleJoins (h : l.Nodup) : (merkleJoins l).Nodup := by
  induction l using merkleJoins.induct with
  | case1 => exact .nil
  | case2 a => exact List.nodup_singleton _
  | case3 a b rest ih =>
    obtain ⟨ha, h⟩ := List.nodup_cons.1 h
    refine List.nodup_cons.2 ⟨fun hmem => ha ?_, ih (List.nodup_cons.1 h).2⟩
    obtain ⟨c, hc, d, -, hjoin⟩ := of_mem_merkleJoins hmem
    rw [(bytes_append_inj hjoin).1]
    exact List.mem_cons_of_mem b hc

/-- A last hash that is joined with itself cannot be taken for two neighbours,
since no neighbours are the same. -/
theorem eq_of_merkleJoins_eq (h : l.Nodup) (h' : l'.Nodup)
    (heq : merkleJoins l = merkleJoins l') : l = l' := by
  induction l using merkleJoins.induct generalizing l' with
  | case1 => exact (merkleJoins_eq_nil_iff.1 heq.symm).symm
  | case2 a =>
    match l', heq with
    | [a'], heq =>
      obtain ⟨rfl, -⟩ := bytes_append_inj (List.cons.inj heq).1
      rfl
    | a' :: b' :: rest', heq =>
      obtain ⟨rfl, rfl⟩ := bytes_append_inj (List.cons.inj heq).1
      simp at h'
  | case3 a b rest ih =>
    match l', heq with
    | [a'], heq =>
      obtain ⟨rfl, rfl⟩ := bytes_append_inj (List.cons.inj heq).1
      simp at h
    | a' :: b' :: rest', heq =>
      obtain ⟨hfirst, hrest⟩ := List.cons.inj heq
      obtain ⟨rfl, rfl⟩ := bytes_append_inj hfirst
      rw [ih h.of_cons.of_cons h'.of_cons.of_cons hrest]

theorem HashedApart.mono {some : List Bytes} (h : HashedApart inputs)
    (hin : ∀ x ∈ some, x ∈ inputs) : HashedApart some :=
  fun x hx y hy => h x (hin x hx) y (hin y hy)

/-- What was hashed apart can be told from the hashes. -/
theorem HashedApart.eq_of_map_eq {s s' : List Bytes} (h : HashedApart (s ++ s'))
    (heq : s.map sha256 = s'.map sha256) : s = s' := by
  induction s generalizing s' with
  | nil => exact (List.map_eq_nil_iff.1 heq.symm).symm
  | cons x rest ih =>
    match s' with
    | y :: rest' =>
      obtain ⟨hfirst, hrest⟩ := List.cons.inj heq
      have hlater : HashedApart (rest ++ rest') := h.mono fun z hz => by
        rcases List.mem_append.1 hz with hz | hz <;> simp [hz]
      rw [h x (by simp) y (by simp) hfirst, ih hlater hrest]

theorem nodup_merkleLevel (h : l.Nodup) (hapart : HashedApart (merkleJoins l)) :
    (merkleLevel l).Nodup := by
  rw [merkleLevel_eq]
  exact (nodup_merkleJoins h).map_on hapart

/-- Two levels without repetitions that lead to one level are one. -/
theorem eq_of_merkleLevel_eq (h : l.Nodup) (h' : l'.Nodup)
    (hapart : HashedApart (merkleJoins l ++ merkleJoins l'))
    (heq : merkleLevel l = merkleLevel l') : l = l' := by
  rw [merkleLevel_eq, merkleLevel_eq] at heq
  exact eq_of_merkleJoins_eq h h' (hapart.eq_of_map_eq heq)

/-! ## All levels -/

/-- Trees with the same rounds to go have them to go together. -/
theorem two_le_length_iff (hn : l.length ≤ n) (hn' : l'.length ≤ n')
    (hrounds : (merkleLevelsIn n l).length = (merkleLevelsIn n' l').length) :
    2 ≤ l.length ↔ 2 ≤ l'.length := by
  have hnil := merkleLevelsIn_eq_nil_iff hn
  have hnil' := merkleLevelsIn_eq_nil_iff hn'
  rw [← List.length_eq_zero_iff] at hnil hnil'
  omega

theorem HashedApart.of_flatMap_cons {level level' : List Hash256}
    {above above' : List (List Hash256)}
    (h : HashedApart ((level :: above).flatMap merkleJoins ++
      (level' :: above').flatMap merkleJoins)) :
    HashedApart (merkleJoins level ++ merkleJoins level') ∧
      HashedApart (above.flatMap merkleJoins ++ above'.flatMap merkleJoins) := by
  rw [List.flatMap_cons, List.flatMap_cons] at h
  constructor
  · exact h.mono fun x hx => by rcases List.mem_append.1 hx with hx | hx <;> simp [hx]
  · refine h.mono fun x hx => ?_
    rcases List.mem_append.1 hx with hx | hx
    · exact List.mem_append_left _ (List.mem_append_right _ hx)
    · exact List.mem_append_right _ (List.mem_append_right _ hx)

/-- Up the levels no hash is repeated, and down again each level is told by the
one above it. -/
theorem eq_of_merkleRootIn_eq (hn : l.length ≤ n) (hn' : l'.length ≤ n') (hne : l ≠ [])
    (hne' : l' ≠ []) (h : l.Nodup) (h' : l'.Nodup)
    (hrounds : (merkleLevelsIn n l).length = (merkleLevelsIn n' l').length)
    (hapart : HashedApart ((merkleLevelsIn n l).flatMap merkleJoins ++
      (merkleLevelsIn n' l').flatMap merkleJoins))
    (hroot : merkleRootIn n l = merkleRootIn n' l') : l = l' := by
  induction n generalizing n' l l' with
  | zero => exact absurd (List.length_eq_zero_iff.1 (Nat.le_zero.1 hn)) hne
  | succ n ih =>
    have hsame := two_le_length_iff hn hn' hrounds
    by_cases htwo : 2 ≤ l.length
    · have htwo' := hsame.1 htwo
      obtain ⟨n', rfl⟩ := Nat.exists_eq_succ_of_ne_zero (show n' ≠ 0 by omega)
      rw [merkleLevelsIn_succ htwo, merkleLevelsIn_succ htwo'] at hrounds hapart
      rw [merkleRootIn_succ htwo, merkleRootIn_succ htwo'] at hroot
      obtain ⟨hjoins, habove⟩ := hapart.of_flatMap_cons
      have hd := nodup_merkleLevel h (hjoins.mono fun x hx => List.mem_append_left _ hx)
      have hd' := nodup_merkleLevel h' (hjoins.mono fun x hx => List.mem_append_right _ hx)
      have hlength := length_merkleLevel l
      have hlength' := length_merkleLevel l'
      have hlevel : merkleLevel l = merkleLevel l' :=
        ih (by omega) (by omega) (List.ne_nil_of_length_pos (by omega))
          (List.ne_nil_of_length_pos (by omega)) hd hd' (Nat.succ.inj hrounds) habove hroot
      exact eq_of_merkleLevel_eq h h' hjoins hlevel
    · -- Both trees are single leaves, which are their roots.
      have hone := List.length_pos_iff.2 hne
      have hone' := List.length_pos_iff.2 hne'
      obtain ⟨root, rfl⟩ := List.length_eq_one_iff.1 (show l.length = 1 by omega)
      obtain ⟨root', rfl⟩ := List.length_eq_one_iff.1 (show l'.length = 1 by omega)
      rw [merkleRootIn_singleton, merkleRootIn_singleton] at hroot
      rw [hroot]

/-! ## What a root leaves open -/

/-- Rounds that are left over do nothing. -/
theorem merkleRootIn_eq (hn : l.length ≤ n) (hn' : l.length ≤ n') :
    merkleRootIn n l = merkleRootIn n' l := by
  induction n generalizing n' l with
  | zero =>
    obtain rfl := List.length_eq_zero_iff.1 (Nat.le_zero.1 hn)
    cases n' <;> rfl
  | succ n ih =>
    match l, hn, hn' with
    | [], _, _ => cases n' <;> rfl
    | [root], _, _ => rw [merkleRootIn_singleton, merkleRootIn_singleton]
    | a :: b :: rest, hn, hn' =>
      have hlevel := length_merkleLevel (a :: b :: rest)
      rw [List.length_cons, List.length_cons] at hn hn' hlevel
      obtain ⟨n', rfl⟩ := Nat.exists_eq_succ_of_ne_zero (show n' ≠ 0 by omega)
      exact ih (by omega) (by omega)

/-- A list shares its root with the level above it. -/
theorem merkleRoot_merkleLevel (h : 2 ≤ l.length) : merkleRoot (merkleLevel l) = merkleRoot l := by
  have hlevel := length_merkleLevel l
  obtain ⟨n, hn⟩ := Nat.exists_eq_succ_of_ne_zero (show l.length ≠ 0 by omega)
  unfold merkleRoot
  rw [hn, merkleRootIn_succ h]
  exact merkleRootIn_eq le_rfl (by omega)

theorem merkleLevel_append (h : l.length % 2 = 0) (s : List Hash256) :
    merkleLevel (l ++ s) = merkleLevel l ++ merkleLevel s := by
  induction l using merkleLevel.induct with
  | case1 => rfl
  | case2 => cases h
  | case3 a b rest ih =>
    rw [List.length_cons, List.length_cons] at h
    rw [List.cons_append, List.cons_append, merkleLevel, merkleLevel, ih (by omega),
      List.cons_append]

/-- A list with a last hash that has no neighbour shares its root with the list that
repeats this hash. -/
theorem merkleRoot_repeat_last (h : l.length % 2 = 0) (hne : l ≠ []) (a : Hash256) :
    merkleRoot (l ++ [a, a]) = merkleRoot (l ++ [a]) := by
  have hpos := List.length_pos_iff.2 hne
  have hlevel : merkleLevel (l ++ [a, a]) = merkleLevel (l ++ [a]) := by
    rw [merkleLevel_append h, merkleLevel_append h]
    rfl
  rw [← merkleRoot_merkleLevel (l := l ++ [a, a]) (by simp),
    ← merkleRoot_merkleLevel (l := l ++ [a]) (by simp; omega), hlevel]

/-! ## Roots that bind their leaves -/

theorem hasCollision_of_not_hashedApart (hlength : ∀ x ∈ inputs, x.length = 64)
    (h : ¬ HashedApart inputs) : HasCollision inputs := by
  unfold HashedApart at h
  push Not at h
  obtain ⟨x, hx, y, hy, hhash, hne⟩ := h
  exact ⟨x, hx, y, hy, hlength x hx, hlength y hy, hne, hhash⟩

/-- Lists of hashes without repetitions are told apart by the roots of trees of
one height. -/
theorem eq_or_hasCollision (hne : l ≠ []) (hne' : l' ≠ []) (h : l.Nodup) (h' : l'.Nodup)
    (hrounds : merkleRounds l = merkleRounds l') (hroot : merkleRoot l = merkleRoot l') :
    l = l' ∨ HasCollision (merkleInputs l ++ merkleInputs l') := by
  by_cases hapart : HashedApart (merkleInputs l ++ merkleInputs l')
  · exact .inl (eq_of_merkleRootIn_eq le_rfl le_rfl hne hne' h h' hrounds hapart hroot)
  · refine .inr (hasCollision_of_not_hashedApart (fun x hx => ?_) hapart)
    rcases List.mem_append.1 hx with hx | hx <;> exact length_of_mem_merkleInputs hx

/-- Trees of one height have leaves both or none, and the same rounds. -/
theorem merkleHeight_eq_iff : merkleHeight l = merkleHeight l' ↔
    (l = [] ↔ l' = []) ∧ merkleRounds l = merkleRounds l' := by
  unfold merkleHeight
  by_cases h : l = [] <;> by_cases h' : l' = [] <;> simp [h, h']

theorem Block.eq_merkleRoot {b : Block} (h : b.checkMerkleRoot = .ok ()) :
    b.header.merkleRoot = BlockLedger.merkleRoot (b.transactions.map (·.hash)) := by
  unfold checkMerkleRoot at h
  dsimp only at h
  split at h
  · assumption
  · cases h

/-- A list of hashes without repetitions is told by the root of its tree among
those with trees of the same height, unless two of the inputs that were hashed on
the way to the two roots share a hash. So blocks with one header that pass the
checks of root and transactions hold the same transactions in the same order. It
takes trees of the same height, since the level above the leaves has the root of
the leaves, and no repetitions, since a last hash without a neighbour may be
repeated. -/
theorem the_root_binds_the_leaves :
    (∀ l l' : List Hash256, l ≠ [] → l' ≠ [] → l.Nodup → l'.Nodup →
      merkleRounds l = merkleRounds l' → merkleRoot l = merkleRoot l' →
      l = l' ∨ HasCollision (merkleInputs l ++ merkleInputs l')) ∧
    (∀ b b' : Block, b.header = b'.header →
      merkleHeight (b.transactions.map (·.hash)) = merkleHeight (b'.transactions.map (·.hash)) →
      b.checkMerkleRoot = .ok () → b'.checkMerkleRoot = .ok () →
      b.checkTransactions = .ok () → b'.checkTransactions = .ok () →
      b.transactions.map (·.hash) = b'.transactions.map (·.hash) ∨
        HasCollision (merkleInputs (b.transactions.map (·.hash)) ++
          merkleInputs (b'.transactions.map (·.hash)))) ∧
    (∀ l : List Hash256, 2 ≤ l.length → merkleRoot (merkleLevel l) = merkleRoot l) ∧
    ∀ (l : List Hash256) (a : Hash256), l ≠ [] → l.length % 2 = 0 →
      merkleRoot (l ++ [a, a]) = merkleRoot (l ++ [a]) := by
  refine ⟨fun l l' => eq_or_hasCollision, fun b b' hheader hheight hroot hroot' hts hts' => ?_,
    fun l => merkleRoot_merkleLevel, fun l a hne heven => merkleRoot_repeat_last heven hne a⟩
  have hsame : merkleRoot (b.transactions.map (·.hash)) =
      merkleRoot (b'.transactions.map (·.hash)) := by
    rw [← Block.eq_merkleRoot hroot, ← Block.eq_merkleRoot hroot', hheader]
  have hnil := merkleHeight_eq_iff.1 hheight
  by_cases hempty : b.transactions.map (·.hash) = []
  · exact .inl (hempty.trans (hnil.1.1 hempty).symm)
  · exact eq_or_hasCollision hempty (mt hnil.1.2 hempty) (Block.checkEach_ok hts).1
      (Block.checkEach_ok hts').1 hnil.2 hsame

/-- The leaves of the tree of the sample block. -/
def Sample.leaves : List Hash256 := Sample.block.transactions.map (·.hash)

/-- The block with its two transactions passes both checks. -/
theorem sample_binding :
    Sample.leaves.length = 2 ∧ merkleHeight Sample.leaves = 2 ∧ Sample.leaves.Nodup ∧
    Sample.block.checkMerkleRoot = .ok () ∧ Sample.block.checkTransactions = .ok () ∧
    ([(Sample.transaction 1 []).hash, (Sample.transaction 2 [.zero 32]).hash] = Sample.leaves ∨
      HasCollision (merkleInputs Sample.leaves ++ merkleInputs Sample.leaves)) ∧
    (Sample.leaves = Sample.leaves ∨
      HasCollision (merkleInputs Sample.leaves ++ merkleInputs Sample.leaves)) ∧
    merkleRoot (merkleLevel Sample.leaves) = merkleRoot Sample.leaves ∧
    merkleRoot (Sample.leaves ++ [.zero 32, .zero 32]) = merkleRoot (Sample.leaves ++ [.zero 32]) :=
    by
  obtain ⟨hlists, hblocks, hlevel, hrepeat⟩ := the_root_binds_the_leaves
  obtain ⟨applied, hp⟩ := Sample.persist_block
  obtain ⟨_, _, _, hpass, -⟩ := Chain.persist_ok hp
  obtain ⟨tip, -, hcheck⟩ := hpass.fits
  obtain ⟨-, hroot, hts, -⟩ := Block.check_ok hcheck
  have hd : Sample.leaves.Nodup := (Block.checkEach_ok hts).1
  have hlength : Sample.leaves.length = 2 := rfl
  have hne : Sample.leaves ≠ [] := List.ne_nil_of_length_pos (by omega)
  have hheight : merkleHeight Sample.leaves = 2 := by
    rw [merkleHeight, if_neg hne, merkleRounds_eq, hlength]
    rfl
  exact ⟨hlength, hheight, hd, hroot, hts,
    hlists Sample.leaves Sample.leaves hne hne hd hd rfl rfl,
    hblocks Sample.block Sample.block rfl rfl hroot hroot hts hts,
    hlevel Sample.leaves (by omega), hrepeat Sample.leaves (.zero 32) hne (by rw [hlength])⟩

end BlockLedger
