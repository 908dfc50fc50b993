-- Frames that are written and not read. The writer takes frames of any length,
-- and the reader takes those up to a limit. A frame within the limit is there
-- when the log is opened again; after a longer one the log does not open any
-- more, whatever is written later.
import BlockLedger.Proofs.TornFiles

namespace BlockLedger

/-! ## Reading on after some frames -/

section Reading

variable {s t : Bytes} {fs : List Frame} {f : Frame} {left : Nat} {last : UInt64}

/-- The reader passes the frames that a file starts with. -/
theorem Holds.readFramesIn_append (h : Holds s fs) (hleft : (s ++ t).length ≤ left)
    (last : UInt64) :
    ∃ left' last', t.length ≤ left' ∧
      readFramesIn left last (s ++ t) = (readFramesIn left' last' t).map (fs ++ ·) := by
  induction h generalizing left last with
  | nil =>
    refine ⟨left, last, hleft, ?_⟩
    rw [List.nil_append]
    cases readFramesIn left last t <;> rfl
  | @cons content rest f fs hne hle hdecode _ ih =>
    rw [List.length_append, length_framed] at hleft
    obtain ⟨left, rfl⟩ : ∃ n, left = n + 1 := ⟨left - 1, by omega⟩
    have hread : readFrame last (leBytes 4 content.length ++ content ++ (rest ++ t)) =
        .ok (f, rest ++ t) := readFrame_iff.2 ⟨content, rfl, hne, hle, hdecode⟩
    have hgoes : leBytes 4 content.length ++ content ++ (rest ++ t) ≠ [] := by
      rw [← List.length_pos_iff, length_framed]
      omega
    obtain ⟨left', last', hleft', hrest⟩ :=
      @ih left (by rw [List.length_append]; omega) f.sequence
    refine ⟨left', last', hleft', ?_⟩
    rw [List.append_assoc _ rest t, readFramesIn_succ left last hgoes, hread, ok_bind]
    dsimp only
    rw [hrest]
    cases readFramesIn left' last' t <;> rfl

/-- A frame that is longer than the reader allows, and not so long that its length
does not fit in front of it, is reported. -/
theorem readFrame_overlong (hlong : Frame.maxLength < f.bytes.length)
    (hfits : f.bytes.length < 2 ^ 32) :
    readFrame last (f.framed ++ t) = .error (.badLength f.bytes.length) := by
  have hvalue : leValue ((f.framed ++ t).take 4) = f.bytes.length := by
    rw [Frame.framed, List.append_assoc, List.take_left' (length_leBytes 4 _), leValue_leBytes]
    exact Nat.mod_eq_of_lt hfits
  unfold readFrame
  rw [if_neg, hvalue]
  · exact if_pos (.inr hlong)
  · rw [Frame.framed, List.length_append, List.length_append, length_leBytes]
    omega

/-- It hides all frames, those before it as well as those after it. -/
theorem Holds.readFrames_overlong (h : Holds s fs) (hlong : Frame.maxLength < f.bytes.length)
    (hfits : f.bytes.length < 2 ^ 32) (t : Bytes) :
    readFrames (s ++ (f.framed ++ t)) = .error (.badLength f.bytes.length) := by
  obtain ⟨left, last, hleft, hread⟩ :=
    h.readFramesIn_append (Nat.le_refl (s ++ (f.framed ++ t)).length) 0
  have hlength : (f.framed ++ t).length = 4 + f.bytes.length + t.length := length_framed _ _
  obtain ⟨left, rfl⟩ : ∃ n, left = n + 1 := ⟨left - 1, by omega⟩
  have hgoes : f.framed ++ t ≠ [] := by
    rw [← List.length_pos_iff]
    omega
  unfold readFrames
  rw [hread, readFramesIn_succ left last hgoes, readFrame_overlong hlong hfits]
  rfl

/-- A frame that is read as the last one is within the limit. -/
theorem Holds.le_maxLength (h : Holds s fs)
    (hread : readFrames (s ++ f.framed) = .ok (fs ++ [f])) :
    f.bytes.length ≤ Frame.maxLength := by
  obtain ⟨left, last, -, hmap⟩ :=
    h.readFramesIn_append (Nat.le_refl (s ++ f.framed).length) 0
  unfold readFrames at hread
  rw [hmap] at hread
  rcases hlast : readFramesIn left last f.framed with e | gs <;> rw [hlast] at hread
  · cases hread
  obtain rfl : gs = [f] := List.append_cancel_left (Except.ok.inj hread)
  have hholds := holds_of_readFramesIn hlast
  generalize hwritten : f.framed = written at hholds
  cases hholds with
  | @cons content rest _ _ _ hle _ hrest =>
    cases hrest
    rw [List.append_nil] at hwritten
    obtain ⟨-, rfl⟩ := List.append_inj hwritten (by rw [length_leBytes, length_leBytes])
    exact hle

end Reading

/-! ## Writing to an open log -/

namespace Log

/-- A frame is written to a log, by itself or for a commit. -/
def Written (l : Log) (f : Frame) (l' : Log) : Prop :=
  l.append f = .ok l' ∨
    ∃ changes, f = .ofChanges (l.last + 1) changes ∧ l.commit changes = .ok l'

/-- Frames are written to a log, one after the other. -/
inductive Writes (l : Log) : List Frame → Log → Prop where
  | none : Writes l [] l
  | more {l' l'' : Log} {gs : List Frame} {f : Frame} :
    Writes l gs l' → l'.Written f l'' → Writes l (gs ++ [f]) l''

variable {l l' l'' : Log} {f : Frame} {fs gs : List Frame} {file : Bytes}

theorem Written.spec (h : l.Written f l') :
    l'.file = l.file ++ f.framed ∧ l'.last = f.sequence ∧ checkSequence l.last f = .ok () := by
  rcases h with happend | ⟨changes, rfl, hcommit⟩
  · obtain ⟨hfile, hlast, -, hcheck⟩ := append_ok happend
    exact ⟨hfile, hlast, hcheck⟩
  · obtain ⟨l₁, happend, rfl⟩ := append_of_commit hcommit
    obtain ⟨hfile, hlast, -, hcheck⟩ := append_ok happend
    exact ⟨hfile, hlast, hcheck⟩

/-- Nothing is written but behind the end of the file. -/
theorem Writes.exists_file (h : l.Writes gs l') : ∃ more, l'.file = l.file ++ more := by
  induction h with
  | none => exact ⟨[], (List.append_nil _).symm⟩
  | @more l' l'' gs f _ hf ih =>
    obtain ⟨more, hmore⟩ := ih
    exact ⟨more ++ f.framed, by rw [hf.spec.1, hmore, List.append_assoc]⟩

/-- A log whose file holds some frames, the last of which has its number. An
append leaves its store behind the file. -/
structure Readable (l : Log) (fs : List Frame) : Prop where
  holds : Holds l.file fs
  applied : ∃ memory, applyFrames 0 .empty fs = .ok (l.last, memory)

theorem Sound.readable (h : l.Sound fs) : l.Readable fs := ⟨h.holds, l.memory, h.applied⟩

theorem Readable.load (h : l.Readable fs) :
    ∃ r, Log.load l.file = .ok r ∧ r.last = l.last ∧ r.frames = .ok fs := by
  obtain ⟨memory, happlied⟩ := h.applied
  have hread := readFrames_iff.2 h.holds
  refine ⟨⟨l.file, l.last, memory⟩, ?_, rfl, hread⟩
  unfold Log.load
  rw [hread, ok_bind, happlied, ok_bind]
  rfl

/-- A frame within the limit that is written is read. -/
theorem Readable.written (h : l.Readable fs) (hf : l.Written f l')
    (hle : f.bytes.length ≤ Frame.maxLength) : l'.Readable (fs ++ [f]) := by
  obtain ⟨hfile, hlast, hcheck⟩ := hf.spec
  obtain ⟨memory, happlied⟩ := h.applied
  have hne := ne_zero_of_checkSequence hcheck
  refine ⟨by rw [hfile]; exact h.holds.append (.framed hne hle), memory.commit f.changes, ?_⟩
  rw [applyFrames_append happlied, applyFrames, hcheck, ok_bind, applyFrames, hlast]

theorem Readable.writes (h : l.Readable fs) (hw : l.Writes gs l')
    (hle : ∀ g ∈ gs, g.bytes.length ≤ Frame.maxLength) : l'.Readable (fs ++ gs) := by
  induction hw with
  | none => rwa [List.append_nil]
  | @more l' l'' gs f _ hf ih =>
    rw [List.forall_mem_append] at hle
    rw [← List.append_assoc]
    exact (ih hle.1).written hf (hle.2 f (List.mem_singleton_self f))

/-- After a frame beyond the limit a log cannot be opened, whatever is written
behind it. -/
theorem Readable.load_overlong (h : l.Readable fs) (hf : l.Written f l')
    (hlong : Frame.maxLength < f.bytes.length) (hfits : f.bytes.length < 2 ^ 32)
    (hw : l'.Writes gs l'') : Log.load l''.file = .error (.badLength f.bytes.length) := by
  obtain ⟨more, hmore⟩ := hw.exists_file
  unfold Log.load
  rw [hmore, hf.spec.1, List.append_assoc, h.holds.readFrames_overlong hlong hfits]
  rfl

/-- What is written to a log that was opened is there when it is opened again, as
long as no frame is beyond the limit of the reader. The writer does not look at the
limit. A frame beyond it never reads back, and if its length fits in front of it,
the log does not open any more. -/
theorem frames_read_back_up_to_the_limit (h : load file = .ok l) (hw : l.Writes gs l')
    (hle : ∀ g ∈ gs, g.bytes.length ≤ Frame.maxLength) (hf : l'.Written f l'') :
    ∃ fs, l.frames = .ok fs ∧
      (f.bytes.length ≤ Frame.maxLength → ∃ r, load l''.file = .ok r ∧
        r.last = f.sequence ∧ r.frames = .ok (fs ++ gs ++ [f])) ∧
      (Frame.maxLength < f.bytes.length → l''.frames ≠ .ok (fs ++ gs ++ [f]) ∧
        (f.bytes.length < 2 ^ 32 → ∀ later l₃, l''.Writes later l₃ →
          load l₃.file = .error (.badLength f.bytes.length))) := by
  obtain ⟨fs, hsound⟩ := sound_of_load h
  have hreadable := hsound.readable.writes hw hle
  obtain ⟨hfile, hlast, -⟩ := hf.spec
  refine ⟨fs, hsound.frames, fun hshort => ?_, fun hlong => ⟨fun hread => ?_, ?_⟩⟩
  · obtain ⟨r, hload, hr, hframes⟩ := (hreadable.written hf hshort).load
    exact ⟨r, hload, hr.trans hlast, hframes⟩
  · rw [Log.frames, hfile] at hread
    exact absurd (hreadable.holds.le_maxLength hread) (Nat.not_le.2 hlong)
  · exact fun hfits later l₃ hlater => hreadable.load_overlong hf hlong hfits hlater

/-- A commit, then a frame that is appended by itself. -/
theorem sample_read_back : ∃ l l' l'' r,
    load [] = .ok l ∧ l.Writes [.ofChanges 1 (.insert .empty [1] (some [2, 3]))] l' ∧
    l'.Written ⟨2, [⟨[4], [], true⟩]⟩ l'' ∧ load l''.file = .ok r ∧ r.last = 2 ∧
    r.frames = .ok [.ofChanges 1 (.insert .empty [1] (some [2, 3])), ⟨2, [⟨[4], [], true⟩]⟩] := by
  have hload : load [] = .ok ⟨[], 0, .empty⟩ := rfl
  obtain ⟨l', hcommit, hlast⟩ := commit_ok (l := ⟨[], 0, .empty⟩) (by decide)
    (.insert .empty [1] (some [2, 3]))
  have hw : Writes ⟨[], 0, .empty⟩ [.ofChanges 1 (.insert .empty [1] (some [2, 3]))] l' :=
    .more .none (.inr ⟨_, rfl, hcommit⟩)
  obtain ⟨l'', happend⟩ : ∃ l'', l'.append ⟨2, [⟨[4], [], true⟩]⟩ = .ok l'' := by
    unfold append
    rw [hlast]
    exact ⟨_, rfl⟩
  obtain ⟨fs, hfs, hread, -⟩ :=
    frames_read_back_up_to_the_limit hload hw (by decide +kernel) (.inl happend)
  obtain rfl : fs = [] := (Except.ok.inj hfs).symm
  obtain ⟨r, hr, hnumber, hframes⟩ := hread (by decide +kernel)
  exact ⟨_, l', l'', r, hload, hw, .inl happend, hr, hnumber, hframes⟩

/-- A first frame with one value. -/
def single (value : Bytes) : Frame := ⟨1, [⟨[], value, false⟩]⟩

open Wire in
/-- Beside its value such a frame has a few bytes. -/
theorem length_single {value : Bytes} (hne : value ≠ []) :
    value.length ≤ (single value).bytes.length ∧
      (single value).bytes.length ≤ value.length + 100 := by
  obtain ⟨entry, hentry⟩ : ∃ entry, entry = write (FrameEntry.fields ⟨[], value, false⟩) := ⟨_, rfl⟩
  have hparts : entry.length = (write (bytesField 1 [])).length +
      (write (bytesField 2 value)).length + (write (numberField 3 0)).length := by
    rw [hentry, FrameEntry.fields, write_append, write_append, List.length_append,
      List.length_append]
    rfl
  have hkey : (write (bytesField 1 [])).length ≤ 20 := length_write_bytesField_le 1 []
  have hvalue := length_write_bytesField_le 2 value
  have hflag := length_write_numberField_le 3 0
  have hheld := length_le_of_bytesField (n := 2) (b := value)
  have hpos := List.length_pos_iff.2 hne
  -- The entry is not empty, so it is written like any other string.
  have hlisted : bytesField 2 entry = [listedField 2 entry] :=
    if_neg (List.ne_nil_of_length_pos (by omega))
  have hframe : (single value).bytes.length =
      (write (numberField 1 1)).length + (write (bytesField 2 entry)).length := by
    rw [hlisted, ← List.length_append, ← write_append, hentry]
    rfl
  have hnumber := length_write_numberField_le 1 1
  have hmost := length_write_bytesField_le 2 entry
  have hleast := length_le_of_bytesField (n := 2) (b := entry)
  omega

/-- The writer does take frames that are never read again. -/
theorem a_written_frame_may_close_the_log : ¬ ∀ (file : Bytes) (l l' : Log) (f : Frame),
    load file = .ok l → l.Written f l' →
    ∃ r fs, load l'.file = .ok r ∧ r.frames = .ok (fs ++ [f]) := by
  intro hall
  have hlength : (List.replicate (Frame.maxLength + 1) (0 : UInt8)).length = Frame.maxLength + 1 :=
    List.length_replicate
  generalize List.replicate (Frame.maxLength + 1) (0 : UInt8) = value at hlength
  obtain ⟨hleast, hmost⟩ := length_single (List.ne_nil_of_length_eq_add_one hlength)
  have hload : load [] = .ok ⟨[], 0, .empty⟩ := rfl
  have hmax : Frame.maxLength + 101 < 2 ^ 32 := by decide
  have hwritten : Written ⟨[], 0, .empty⟩ (single value)
      ⟨[] ++ (single value).framed, 1, .empty⟩ := .inl rfl
  obtain ⟨before, hsound⟩ := sound_of_load hload
  have hclosed := hsound.readable.load_overlong hwritten (by omega) (by omega) .none
  obtain ⟨r, fs, hopens, -⟩ := hall _ _ _ _ hload hwritten
  rw [hclosed] at hopens
  cases hopens

end Log
end BlockLedger
