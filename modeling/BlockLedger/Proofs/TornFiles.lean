-- A file that lost its end. The length in front of a frame tells where the
-- frame ends, so a file that is cut behind a frame opens with the frames that
-- are left, and any other cut is reported with the last whole frame.
import BlockLedger.Proofs.Durability

namespace BlockLedger

/-! ## Where frames end -/

/-- The place in a file where its first frames end, read off the lengths in
front of them. -/
def frameEnd (file : Bytes) : (count : Nat) → Nat
  | 0 => 0
  | count + 1 =>
    4 + leValue (file.take 4) + frameEnd (file.drop (4 + leValue (file.take 4))) count

section FrameEnd

variable {content rest s : Bytes} {fs : List Frame} {count size : Nat}

theorem length_framed (content rest : Bytes) :
    (leBytes 4 content.length ++ content ++ rest).length = 4 + content.length + rest.length := by
  rw [List.length_append, List.length_append, length_leBytes]

/-- The four bytes in front of a frame are its length. -/
theorem leValue_take_framed (hle : content.length ≤ Frame.maxLength) (rest : Bytes) :
    leValue ((leBytes 4 content.length ++ content ++ rest).take 4) = content.length := by
  have hmax : Frame.maxLength < 256 ^ 4 := by decide
  rw [List.append_assoc, List.take_left' (length_leBytes 4 _), leValue_leBytes]
  exact Nat.mod_eq_of_lt (by omega)

theorem drop_framed (content rest : Bytes) :
    (leBytes 4 content.length ++ content ++ rest).drop (4 + content.length) = rest :=
  List.drop_left' (by rw [List.length_append, length_leBytes])

theorem take_framed (content rest : Bytes) (size : Nat) :
    (leBytes 4 content.length ++ content ++ rest).take (4 + content.length + size) =
      leBytes 4 content.length ++ content ++ rest.take size := by
  rw [List.take_append, List.take_of_length_le, List.length_append, length_leBytes,
    Nat.add_sub_cancel_left]
  rw [List.length_append, length_leBytes]
  omega

/-- Behind its first frame a file goes on like the rest of it. -/
theorem frameEnd_framed (hle : content.length ≤ Frame.maxLength) (rest : Bytes) (count : Nat) :
    frameEnd (leBytes 4 content.length ++ content ++ rest) (count + 1) =
      4 + content.length + frameEnd rest count := by
  rw [frameEnd, leValue_take_framed hle, drop_framed]

/-- The last frame ends with the file. -/
theorem Holds.frameEnd_length (h : Holds s fs) : frameEnd s fs.length = s.length := by
  induction h with
  | nil => rfl
  | cons _ hle _ _ ih => rw [List.length_cons, frameEnd_framed hle, ih, length_framed]

/-- Every cut is behind one of the frames, or inside the frame after it. -/
theorem Holds.exists_whole (h : Holds s fs) (hsize : size ≤ s.length) :
    ∃ k, k ≤ fs.length ∧ frameEnd s k ≤ size ∧ (size ≠ frameEnd s k →
      k < fs.length ∧ size < frameEnd s (k + 1)) := by
  induction h generalizing size with
  | nil => exact ⟨0, Nat.le_refl _, Nat.zero_le _, fun hne => absurd (Nat.le_zero.1 hsize) hne⟩
  | @cons content rest f fs _ hle _ _ ih =>
    rw [length_framed] at hsize
    by_cases hlt : size < 4 + content.length
    · refine ⟨0, Nat.zero_le _, Nat.zero_le _, fun _ => ⟨Nat.zero_lt_succ _, ?_⟩⟩
      rw [frameEnd_framed hle]
      omega
    · have hrest : size - (4 + content.length) ≤ rest.length := by omega
      obtain ⟨k, hk, hend, hnext⟩ := ih hrest
      refine ⟨k + 1, Nat.succ_le_succ hk, ?_, fun hne => ?_⟩
      · rw [frameEnd_framed hle]
        omega
      · rw [frameEnd_framed hle] at hne
        obtain ⟨hk', hend'⟩ := hnext (by omega)
        refine ⟨Nat.succ_lt_succ hk', ?_⟩
        rw [frameEnd_framed hle]
        omega

/-! ## Reading a cut file -/

/-- Up to the end of a frame a file holds the frames before it. -/
theorem Holds.take_frameEnd (h : Holds s fs) (hcount : count ≤ fs.length) :
    Holds (s.take (frameEnd s count)) (fs.take count) := by
  induction h generalizing count with
  | nil =>
    rw [List.take_nil, List.take_nil]
    exact .nil
  | cons hne hle hdecode _ ih =>
    cases count with
    | zero => exact .nil
    | succ count =>
      rw [frameEnd_framed hle, take_framed, List.take_succ_cons]
      exact .cons hne hle hdecode (ih (Nat.le_of_succ_le_succ hcount))

/-- A frame of which some bytes are missing is reported, be they of its
length or of its content. -/
theorem readFrame_torn (last : UInt64) (hne : content ≠ [])
    (hle : content.length ≤ Frame.maxLength) (hsize : size < 4 + content.length) :
    readFrame last ((leBytes 4 content.length ++ content ++ rest).take size) =
      .error (.truncated last) := by
  have hlength := length_framed content rest
  by_cases hshort : size < 4
  · unfold readFrame
    rw [if_pos]
    rw [List.length_take]
    omega
  · have hlong : ((leBytes 4 content.length ++ content ++ rest).take size).length = size :=
      List.length_take_of_le (by omega)
    have hvalue : leValue (((leBytes 4 content.length ++ content ++ rest).take size).take 4) =
        content.length := by
      rw [List.take_take, Nat.min_eq_left (Nat.le_of_not_lt hshort), leValue_take_framed hle]
    have hpos : content.length ≠ 0 := fun h => hne (List.length_eq_zero_iff.1 h)
    unfold readFrame
    rw [hlong, if_neg hshort, hvalue]
    dsimp only
    rw [if_neg (by omega), Wire.cut, if_neg]
    rw [List.length_drop, hlong]
    omega

/-- The reader of a file that goes on reads one frame first. -/
theorem readFramesIn_succ (left : Nat) (last : UInt64) (hne : s ≠ []) :
    readFramesIn (left + 1) last s = (do
      let (f, rest) ← readFrame last s
      let fs ← readFramesIn left f.sequence rest
      return f :: fs) := by
  cases s with
  | nil => exact absurd rfl hne
  | cons b s => rfl

/-- A cut inside a frame is reported with the number of the frame before it. -/
theorem Holds.readFramesIn_torn (h : Holds s fs) {last last' : UInt64} {memory memory' : Store}
    (happlied : Log.applyFrames last memory fs = .ok (last', memory')) {left k : Nat}
    (hk : k < fs.length) (hend : frameEnd s k < size) (hnext : size < frameEnd s (k + 1))
    (hleft : size ≤ left) :
    ∃ number : UInt64, number.toNat = last.toNat + k ∧
      readFramesIn left last (s.take size) = .error (.truncated number) := by
  induction h generalizing last memory left k size with
  | nil => cases hk
  | @cons content rest f fs hne hle hdecode _ ih =>
    obtain ⟨left, rfl⟩ : ∃ n, left = n + 1 := ⟨left - 1, by omega⟩
    rw [frameEnd_framed hle] at hnext
    have hgoes : (leBytes 4 content.length ++ content ++ rest).take size ≠ [] := by
      rw [← List.length_pos_iff, List.length_take, length_framed]
      omega
    rw [readFramesIn_succ left last hgoes]
    cases k with
    | zero =>
      rw [readFrame_torn last hne hle hnext]
      exact ⟨last, rfl, rfl⟩
    | succ k =>
      rw [Log.applyFrames] at happlied
      obtain ⟨_, hcheck, happlied⟩ := ok_of_bind happlied
      have hnumber : f.sequence.toNat = last.toNat + 1 := Log.toNat_of_checkSequence hcheck
      rw [frameEnd_framed hle] at hend
      obtain ⟨more, rfl⟩ : ∃ n, size = 4 + content.length + n :=
        ⟨size - (4 + content.length), by omega⟩
      have hread : readFrame last (leBytes 4 content.length ++ content ++ rest.take more) =
          .ok (f, rest.take more) := readFrame_iff.2 ⟨content, rfl, hne, hle, hdecode⟩
      have hend' : frameEnd rest k < more := by omega
      have hnext' : more < frameEnd rest (k + 1) := by omega
      have hleft' : more ≤ left := by omega
      obtain ⟨number, hn, hrest⟩ := ih happlied (Nat.lt_of_succ_lt_succ hk) hend' hnext' hleft'
      rw [take_framed, hread, ok_bind]
      dsimp only
      rw [hrest]
      exact ⟨number, by omega, rfl⟩

end FrameEnd

/-! ## Opening a cut file -/

namespace Log

/-- The store that frames build up from nothing. -/
def replayed (fs : List Frame) : Store := fs.foldl (fun memory f => memory.commit f.changes) .empty

/-- The first frames of those that were applied are applied as well, and the
last of them has their number. -/
theorem applyFrames_take {last last' : UInt64} {memory memory' : Store} {fs : List Frame}
    (h : applyFrames last memory fs = .ok (last', memory')) {count : Nat}
    (hcount : count ≤ fs.length) :
    ∃ number : UInt64, number.toNat = last.toNat + count ∧
      applyFrames last memory (fs.take count) =
        .ok (number, (fs.take count).foldl (fun memory f => memory.commit f.changes) memory) := by
  induction fs generalizing last memory count with
  | nil =>
    cases Nat.le_zero.1 hcount
    exact ⟨last, rfl, rfl⟩
  | cons f fs ih =>
    cases count with
    | zero => exact ⟨last, rfl, rfl⟩
    | succ count =>
      rw [applyFrames] at h
      obtain ⟨_, hcheck, h⟩ := ok_of_bind h
      have hnumber := toNat_of_checkSequence hcheck
      obtain ⟨number, hn, hrest⟩ := ih h (Nat.le_of_succ_le_succ hcount)
      refine ⟨number, by omega, ?_⟩
      rw [List.take_succ_cons, applyFrames, hcheck, ok_bind, hrest, List.foldl_cons]

/-- What opening the first bytes of a file gives. -/
structure OpensCut (file : Bytes) (fs : List Frame) (cut : Bytes) : Prop where
  /-- Cut behind a frame, the file opens with the frames that are left. -/
  whole (k : Nat) : k ≤ fs.length → cut.length = frameEnd file k →
    ∃ number : UInt64, number.toNat = k ∧ load cut = .ok ⟨cut, number, replayed (fs.take k)⟩
  /-- Any other cut is inside a frame, and the frame before it is reported. -/
  torn : (∀ k ≤ fs.length, cut.length ≠ frameEnd file k) →
    ∃ k, k < fs.length ∧ frameEnd file k < cut.length ∧ cut.length < frameEnd file (k + 1) ∧
      ∃ number : UInt64, number.toNat = k ∧ load cut = .error (.truncated number)

theorem Sound.opensCut {l : Log} {fs : List Frame} (h : l.Sound fs) {cut : Bytes}
    (hcut : cut <+: l.file) : OpensCut l.file fs cut := by
  have htake : cut = l.file.take cut.length := List.prefix_iff_eq_take.1 hcut
  have happlied := h.applied
  refine ⟨fun k hk hlength => ?_, fun hother => ?_⟩
  · obtain ⟨number, hn, hprefix⟩ := applyFrames_take happlied hk
    have hread : readFrames cut = .ok (fs.take k) := by
      rw [readFrames_iff, htake, hlength]
      exact h.holds.take_frameEnd hk
    refine ⟨number, by rw [hn]; exact Nat.zero_add k, ?_⟩
    unfold Log.load
    rw [hread, ok_bind, hprefix]
    rfl
  · obtain ⟨k, hk, hend, hnext⟩ := h.holds.exists_whole hcut.length_le
    obtain ⟨hlt, hnext⟩ := hnext (hother k hk)
    have hend : frameEnd l.file k < cut.length := Nat.lt_of_le_of_ne hend (hother k hk).symm
    obtain ⟨number, hn, hread⟩ := h.holds.readFramesIn_torn happlied hlt hend hnext (Nat.le_refl _)
    rw [← htake] at hread
    refine ⟨k, hlt, hend, hnext, number, by rw [hn]; exact Nat.zero_add k, ?_⟩
    unfold Log.load readFrames
    rw [hread]
    rfl

/-- A file that opens holds frames, and it ends with the last one. Its first
bytes open with the frames before the cut, if the cut is behind one of them or
before all; with any other cut they are reported as torn behind the last whole
frame. -/
theorem a_cut_shows_where_it_is {file : Bytes} {l : Log} (h : load file = .ok l) :
    ∃ fs, l.frames = .ok fs ∧ frameEnd file fs.length = file.length ∧
      ∀ cut, cut <+: file → OpensCut file fs cut := by
  obtain ⟨fs, hsound⟩ := sound_of_load h
  rw [← file_of_load h]
  exact ⟨fs, hsound.frames, hsound.holds.frameEnd_length, fun cut hcut => hsound.opensCut hcut⟩

/-- A file with two frames. -/
def twoFrames : Bytes :=
  (Frame.ofChanges 1 (.insert .empty [1] (some [2, 3]))).framed ++
    (Frame.ofChanges 2 (.insert .empty [1] none)).framed

/-- The file with two frames, cut anywhere. -/
theorem two_frames_cut : ∃ l fs, load twoFrames = .ok l ∧ l.frames = .ok fs ∧ fs.length = 2 ∧
    frameEnd twoFrames fs.length = twoFrames.length ∧
      ∀ cut, cut <+: twoFrames → OpensCut twoFrames fs cut := by
  have hload : (load twoFrames).isOk = true := by decide +kernel
  have hread : (readFrames twoFrames).toOption.map List.length = some 2 := by decide +kernel
  rcases hl : load twoFrames with e | l
  · rw [hl] at hload
    cases hload
  obtain ⟨fs, hfs, hcuts⟩ := a_cut_shows_where_it_is hl
  have hr : readFrames twoFrames = .ok fs := by rw [← file_of_load hl, ← hfs, Log.frames]
  rw [hr] at hread
  exact ⟨l, fs, rfl, hfs, Option.some.inj hread, hcuts⟩

end Log
end BlockLedger
