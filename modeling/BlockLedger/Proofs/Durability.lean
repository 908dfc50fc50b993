-- What is written to a log is there when the log is opened again: its
-- file holds the frames that it held and one more for every commit, and
-- the store that the frames build up is the store of the open log.
import BlockLedger.Log.Basic
import BlockLedger.Proofs.ReadBack

namespace BlockLedger

open Wire

/-! ## A frame reads back from its bytes -/

theorem FrameEntry.writable {e : FrameEntry} (h : (write e.fields).length < 2 ^ 64) :
    ∀ f ∈ e.fields, f.Writable := by
  have hkey : e.key.length ≤ (write e.fields).length := by
    have hwritten := length_le_of_bytesField (n := 1) (b := e.key)
    rw [fields, write_append, write_append, List.length_append, List.length_append]
    omega
  have hvalue : e.value.length ≤ (write e.fields).length := by
    have hwritten := length_le_of_bytesField (n := 2) (b := e.value)
    rw [fields, write_append, write_append, List.length_append, List.length_append]
    omega
  exact writable_append
    (writable_append (writable_bytesField (by decide) (by omega))
      (writable_bytesField (by decide) (by omega)))
    (writable_numberField _ (by decide))

theorem FrameEntry.foldlM_fields (room : Nat) (e : FrameEntry) :
    e.fields.foldlM (Message.add room) Message.empty = some e := by
  obtain ⟨key, value, deleted⟩ := e
  refine foldlM_append_trans (foldlM_append_trans (foldlM_bytesField rfl ?_)
    (foldlM_bytesField rfl ?_)) (foldlM_numberField ?_ ?_)
  · rintro rfl
    rfl
  · rintro rfl
    rfl
  · cases deleted <;> rfl
  · cases deleted <;> simp [Message.empty]

namespace Frame

theorem writable {f : Frame} (h : f.bytes.length < 2 ^ 64) :
    ∀ field ∈ numberField 1 f.sequence ++ f.entries.map fun e => listedField 2 (write e.fields),
      field.Writable := by
  refine writable_append (writable_numberField _ (by decide)) fun field hfield => ?_
  obtain ⟨e, -, rfl⟩ := List.mem_map.1 hfield
  exact writable_listedField (by decide)
    (Nat.lt_of_le_of_lt (length_le_of_listed (List.mem_append_right _ hfield)) h)

/-- The entries of a frame are read one after the other. -/
theorem foldlM_entries {room : Nat} {sequence : UInt64} {entries before : List FrameEntry}
    (h : ∀ e ∈ entries, (write e.fields).length < 2 ^ 64) :
    (entries.map fun e => listedField 2 (write e.fields)).foldlM (Message.add room)
      (⟨sequence, before⟩ : Frame) = some ⟨sequence, before ++ entries⟩ := by
  induction entries generalizing before with
  | nil => simp
  | cons e rest ih =>
    have hread : readNested room Message.empty (write e.fields) = some e :=
      (readNested_write (FrameEntry.writable (h e List.mem_cons_self))).trans
        (FrameEntry.foldlM_fields _ e)
    have hadd : Message.add room (⟨sequence, before⟩ : Frame) (listedField 2 (write e.fields)) =
        some ⟨sequence, before ++ [e]⟩ := by
      change (readNested room Message.empty (write e.fields)).map _ = _
      rw [hread]
      rfl
    have hrest := @ih (before ++ [e]) fun e' he' => h e' (List.mem_cons_of_mem _ he')
    rw [List.append_assoc, List.singleton_append] at hrest
    rw [List.map_cons, List.foldlM_cons, hadd]
    exact hrest

/-- A frame reads back from its bytes. -/
theorem decode?_bytes {f : Frame} (h : f.bytes.length < 2 ^ 64) : decode? f.bytes = some f := by
  have hentries : ∀ e ∈ f.entries, (write e.fields).length < 2 ^ 64 := by
    intro e he
    have hlisted : listedField 2 (write e.fields) ∈
        numberField 1 f.sequence ++ f.entries.map fun e => listedField 2 (write e.fields) :=
      List.mem_append_right _ (List.mem_map.2 ⟨e, he, rfl⟩)
    exact Nat.lt_of_le_of_lt (length_le_of_listed hlisted) h
  have hsequence : (numberField 1 f.sequence).foldlM (Message.add 100) Message.empty =
      some (⟨f.sequence, []⟩ : Frame) := foldlM_numberField rfl fun h0 => by rw [h0]; rfl
  rw [decode?, bytes, read?_write (writable h)]
  exact foldlM_append_trans hsequence (foldlM_entries hentries)

/-- A numbered frame is never empty. -/
theorem bytes_ne_nil {f : Frame} (h : f.sequence ≠ 0) : f.bytes ≠ [] := by
  have hfield : numberField 1 f.sequence = [⟨1, .number f.sequence⟩] := if_neg h
  rw [bytes, hfield, write_append]
  simp [write, Field.write, varint, varintIn_ne_nil]

/-- A frame of a change set has the change set; a value without bytes is
not taken for a deleted key. -/
theorem changes_ofChanges (sequence : UInt64) (changes : ChangeSet) :
    (ofChanges sequence changes).changes = changes := by
  have hentry (e : Bytes × Option Bytes) :
      ((entryOf e.1 e.2).key,
        if (entryOf e.1 e.2).deleted then none else some (entryOf e.1 e.2).value) = e := by
    obtain ⟨key, _ | value⟩ := e <;> rfl
  rw [Frame.changes, ofChanges, List.map_map]
  simp only [Function.comp_def, hentry, List.map_id']
  exact SortedMap.ofList_toList changes

end Frame

/-! ## Frames behind one another -/

/-- A frame is read off a string exactly if the string starts with the
length of the frame and its bytes. -/
theorem readFrame_iff {last : UInt64} {s rest : Bytes} {f : Frame} :
    readFrame last s = .ok (f, rest) ↔
      ∃ content, s = leBytes 4 content.length ++ content ++ rest ∧ content ≠ [] ∧
        content.length ≤ Frame.maxLength ∧ Frame.decode? content = some f := by
  constructor
  · intro h
    unfold readFrame at h
    split at h
    · cases h
    rename_i hlong
    dsimp only at h
    split at h
    · cases h
    rename_i hlength
    rw [not_or, Nat.not_lt] at hlength
    split at h
    · cases h
    rename_i content left hcut
    split at h
    · cases h
    rename_i frame hdecode
    cases h
    unfold cut at hcut
    split at hcut
    · rename_i hle
      cases hcut
      have hhead : (s.take 4).length = 4 := List.length_take_of_le (by omega)
      have hcontent := List.length_take_of_le hle
      refine ⟨_, ?_, ?_, ?_, hdecode⟩
      · have hbytes := leBytes_leValue (s.take 4)
        rw [hhead] at hbytes
        rw [hcontent, hbytes, List.append_assoc, List.take_append_drop, List.take_append_drop]
      · rw [← List.length_pos_iff, hcontent]
        omega
      · rw [hcontent]
        exact hlength.2
    · cases hcut
  · rintro ⟨content, rfl, hne, hle, hdecode⟩
    have hmax : Frame.maxLength < 256 ^ 4 := by decide
    have hpos : content.length ≠ 0 := fun h => hne (List.length_eq_zero_iff.1 h)
    have hvalue : leValue (leBytes 4 content.length) = content.length :=
      (leValue_leBytes 4 _).trans (Nat.mod_eq_of_lt (by omega))
    have htake : (leBytes 4 content.length ++ (content ++ rest)).take 4 =
        leBytes 4 content.length := List.take_left' (length_leBytes 4 _)
    have hdrop : (leBytes 4 content.length ++ (content ++ rest)).drop 4 = content ++ rest :=
      List.drop_left' (length_leBytes 4 _)
    have hcut : cut content.length (content ++ rest) = some (content, rest) := by
      rw [cut, if_pos (by simp), List.take_left, List.drop_left]
    unfold readFrame
    rw [List.append_assoc, if_neg (by simp [length_leBytes]), htake, hdrop, hvalue]
    dsimp only
    rw [if_neg (by omega), hcut]
    simp only [hdecode]

/-- A file that is made of some frames, each with its length before it. -/
inductive Holds : Bytes → List Frame → Prop
  | nil : Holds [] []
  | cons {content rest : Bytes} {f : Frame} {fs : List Frame} :
      content ≠ [] → content.length ≤ Frame.maxLength → Frame.decode? content = some f →
      Holds rest fs → Holds (leBytes 4 content.length ++ content ++ rest) (f :: fs)

theorem Holds.append {s t : Bytes} {fs gs : List Frame} (hs : Holds s fs) (ht : Holds t gs) :
    Holds (s ++ t) (fs ++ gs) := by
  induction hs with
  | nil => exact ht
  | cons hne hle hdecode _ ih =>
    rw [List.append_assoc, List.cons_append]
    exact .cons hne hle hdecode ih

/-- A frame that is written is read. -/
theorem Holds.framed {f : Frame} (h : f.sequence ≠ 0) (hle : f.bytes.length ≤ Frame.maxLength) :
    Holds f.framed [f] := by
  have hmax : Frame.maxLength < 2 ^ 64 := by decide
  have hframed := Holds.cons (Frame.bytes_ne_nil h) hle (Frame.decode?_bytes (by omega)) .nil
  rwa [List.append_nil] at hframed

theorem readFramesIn_of_holds {left : Nat} {s : Bytes} {fs : List Frame} (h : Holds s fs)
    (hleft : s.length ≤ left) (last : UInt64) : readFramesIn left last s = .ok fs := by
  induction h generalizing left last with
  | nil => cases left <;> rfl
  | @cons content rest f fs hne hle hdecode _ ih =>
    have hread : readFrame last (leBytes 4 content.length ++ content ++ rest) = .ok (f, rest) :=
      readFrame_iff.2 ⟨content, rfl, hne, hle, hdecode⟩
    have hlength : (leBytes 4 content.length ++ content ++ rest).length =
        4 + content.length + rest.length := by
      rw [List.length_append, List.length_append, length_leBytes]
    -- the head of a frame is not empty, so the reader has not come to the end
    generalize leBytes 4 content.length ++ content ++ rest = s at hread hlength hleft
    rcases s with _ | ⟨b, s⟩
    · simp only [List.length_nil] at hlength
      omega
    obtain ⟨left, rfl⟩ : ∃ n, left = n + 1 := ⟨left - 1, by omega⟩
    rw [readFramesIn, hread, ok_bind]
    dsimp only
    rw [ih (by omega), ok_bind]
    rfl

theorem holds_of_readFramesIn {left : Nat} {last : UInt64} {s : Bytes} {fs : List Frame}
    (h : readFramesIn left last s = .ok fs) : Holds s fs := by
  induction left generalizing last s fs with
  | zero =>
    rcases s with _ | ⟨b, s⟩ <;> cases h
    exact .nil
  | succ left ih =>
    rcases s with _ | ⟨b, s⟩
    · cases h
      exact .nil
    · rw [readFramesIn] at h
      obtain ⟨⟨f, rest⟩, hread, h⟩ := ok_of_bind h
      obtain ⟨gs, hrest, h⟩ := ok_of_bind h
      cases h
      obtain ⟨content, hs, hne, hle, hdecode⟩ := readFrame_iff.1 hread
      rw [hs]
      exact .cons hne hle hdecode (ih hrest)

/-- A file reads as some frames exactly if it is made of them. -/
theorem readFrames_iff {file : Bytes} {fs : List Frame} :
    readFrames file = .ok fs ↔ Holds file fs :=
  ⟨holds_of_readFramesIn, fun h => readFramesIn_of_holds h (Nat.le_refl _) 0⟩

/-! ## Commits -/

namespace Log

theorem toNat_of_checkSequence {last : UInt64} {f : Frame} (h : checkSequence last f = .ok ()) :
    f.sequence.toNat = last.toNat + 1 := by
  unfold checkSequence at h
  split at h
  · assumption
  · cases h

theorem ne_zero_of_checkSequence {last : UInt64} {f : Frame}
    (h : checkSequence last f = .ok ()) : f.sequence ≠ 0 := by
  intro h0
  have hnext := toNat_of_checkSequence h
  rw [h0] at hnext
  cases hnext

/-- An append puts the frame at the end of the file. -/
theorem append_ok {l l' : Log} {f : Frame} (h : l.append f = .ok l') :
    l'.file = l.file ++ f.framed ∧ l'.last = f.sequence ∧ l'.memory = l.memory ∧
      checkSequence l.last f = .ok () := by
  unfold append at h
  obtain ⟨u, hcheck, h⟩ := ok_of_bind h
  cases h
  exact ⟨rfl, rfl, rfl, hcheck⟩

/-- A commit appends the frame with the next number, and the store takes the
changes in. -/
theorem append_of_commit {l l' : Log} {changes : ChangeSet} (h : l.commit changes = .ok l') :
    ∃ l₁, l.append (.ofChanges (l.last + 1) changes) = .ok l₁ ∧
      l' = { l₁ with memory := l₁.memory.commit changes } := by
  unfold commit at h
  split at h
  · rename_i l₁ happend
    cases h
    exact ⟨l₁, happend, rfl⟩
  · cases h

/-- Frames behind one another are applied one after the other. -/
theorem applyFrames_append {last last' : UInt64} {memory memory' : Store} {fs : List Frame}
    (h : applyFrames last memory fs = .ok (last', memory')) (gs : List Frame) :
    applyFrames last memory (fs ++ gs) = applyFrames last' memory' gs := by
  induction fs generalizing last memory with
  | nil =>
    cases h
    rfl
  | cons f fs ih =>
    rw [applyFrames] at h
    obtain ⟨u, hcheck, h⟩ := ok_of_bind h
    rw [List.cons_append, applyFrames, hcheck, ok_bind]
    exact ih h

/-- A log whose file holds some frames that build up its store. -/
structure Sound (l : Log) (fs : List Frame) : Prop where
  holds : Holds l.file fs
  applied : applyFrames 0 .empty fs = .ok (l.last, l.memory)

theorem sound_of_load {file : Bytes} {l : Log} (h : load file = .ok l) : ∃ fs, l.Sound fs := by
  unfold load at h
  obtain ⟨fs, hread, h⟩ := ok_of_bind h
  obtain ⟨⟨last, memory⟩, happlied, h⟩ := ok_of_bind h
  cases h
  exact ⟨fs, readFrames_iff.1 hread, happlied⟩

theorem file_of_load {file : Bytes} {l : Log} (h : load file = .ok l) : l.file = file := by
  unfold load at h
  obtain ⟨fs, -, h⟩ := ok_of_bind h
  obtain ⟨⟨last, memory⟩, -, h⟩ := ok_of_bind h
  cases h
  rfl

namespace Sound

variable {l l' : Log} {fs : List Frame}

theorem frames (h : l.Sound fs) : l.frames = .ok fs := readFrames_iff.2 h.holds

/-- A log reopens as it is. -/
theorem load (h : l.Sound fs) : Log.load l.file = .ok l := by
  unfold Log.load
  rw [readFrames_iff.2 h.holds, ok_bind, h.applied, ok_bind]
  rfl

/-- A commit adds its frame to the file, unless the numbers have run out. -/
theorem commit (h : l.Sound fs) {changes : ChangeSet}
    (hle : (Frame.ofChanges (l.last + 1) changes).bytes.length ≤ Frame.maxLength)
    (hc : l.commit changes = .ok l') :
    l'.last = l.last + 1 ∧ l'.Sound (fs ++ [.ofChanges (l.last + 1) changes]) := by
  obtain ⟨l₁, happend, rfl⟩ := append_of_commit hc
  obtain ⟨hfile, hlast, hmemory, hcheck⟩ := append_ok happend
  refine ⟨hlast, ?_, ?_⟩
  · dsimp only
    rw [hfile]
    exact h.holds.append (.framed (ne_zero_of_checkSequence hcheck) hle)
  · rw [applyFrames_append h.applied, applyFrames, hcheck, ok_bind, applyFrames,
      Frame.changes_ofChanges, hlast, hmemory]

end Sound

theorem commit_ok {l : Log} (h : l.last.toNat + 1 < 2 ^ 64) (changes : ChangeSet) :
    ∃ l', l.commit changes = .ok l' ∧ l'.last = l.last + 1 := by
  have hnext : (l.last + 1).toNat = l.last.toNat + 1 := by
    rw [UInt64.toNat_add]
    exact Nat.mod_eq_of_lt h
  have hcheck : checkSequence l.last (.ofChanges (l.last + 1) changes) = .ok () := if_pos hnext
  unfold commit append
  rw [hcheck, ok_bind]
  exact ⟨_, rfl, rfl⟩

/-- The frames of commits, one after the other. -/
def framesOf (last : UInt64) : List ChangeSet → List Frame
  | [] => []
  | changes :: rest => .ofChanges (last + 1) changes :: framesOf (last + 1) rest

theorem map_changes_framesOf (last : UInt64) (commits : List ChangeSet) :
    (framesOf last commits).map Frame.changes = commits := by
  induction commits generalizing last with
  | nil => rfl
  | cons changes rest ih => rw [framesOf, List.map_cons, Frame.changes_ofChanges, ih]

theorem Sound.commits {l l' : Log} {fs : List Frame} {commits : List ChangeSet} (h : l.Sound fs)
    (hle : ∀ f ∈ framesOf l.last commits, f.bytes.length ≤ Frame.maxLength)
    (hc : commits.foldlM Log.commit l = .ok l') : l'.Sound (fs ++ framesOf l.last commits) := by
  induction commits generalizing l fs with
  | nil =>
    cases hc
    rwa [framesOf, List.append_nil]
  | cons changes rest ih =>
    rw [List.foldlM_cons] at hc
    obtain ⟨l₁, hfirst, hc⟩ := ok_of_bind hc
    obtain ⟨hlast, h₁⟩ := h.commit (hle _ List.mem_cons_self) hfirst
    have hrest := ih h₁ (fun f hf => hle f (List.mem_cons_of_mem _ (hlast ▸ hf))) hc
    rwa [hlast, List.append_assoc] at hrest

theorem commits_ok {l : Log} {commits : List ChangeSet}
    (h : l.last.toNat + commits.length < 2 ^ 64) :
    ∃ l', commits.foldlM Log.commit l = .ok l' := by
  induction commits generalizing l with
  | nil => exact ⟨l, rfl⟩
  | cons changes rest ih =>
    rw [List.length_cons] at h
    obtain ⟨l₁, hfirst, hlast⟩ := commit_ok (l := l) (by omega) changes
    have hnext : l₁.last.toNat = l.last.toNat + 1 := by
      rw [hlast, UInt64.toNat_add]
      exact Nat.mod_eq_of_lt (by change l.last.toNat + 1 < 2 ^ 64; omega)
    obtain ⟨l', hrest⟩ := ih (l := l₁) (by omega)
    exact ⟨l', by rw [List.foldlM_cons, hfirst]; exact hrest⟩

/-! ## The log and its file -/

/-- What commits leave of a log, in the store and in the file. -/
structure Endures (l l' : Log) (commits : List ChangeSet) : Prop where
  /-- The file opens as the very log: with the same number of its last
  frame and the same store. -/
  reopened : load l'.file = .ok l'
  /-- The file has the frames that it had and one more for each commit. -/
  frames : ∃ before, l.frames = .ok before ∧ l'.frames = .ok (before ++ framesOf l.last commits)
  changes : (framesOf l.last commits).map Frame.changes = commits

/-- Commits to a log that was opened succeed as long as there are numbers
for them, and whatever was committed is there when the log is opened
again. -/
theorem the_file_tells_the_store {file : Bytes} {l : Log} {commits : List ChangeSet}
    (h : load file = .ok l)
    (hle : ∀ f ∈ framesOf l.last commits, f.bytes.length ≤ Frame.maxLength) :
    (l.last.toNat + commits.length < 2 ^ 64 → ∃ l', commits.foldlM Log.commit l = .ok l') ∧
      ∀ l', commits.foldlM Log.commit l = .ok l' → Endures l l' commits := by
  obtain ⟨fs, hsound⟩ := sound_of_load h
  refine ⟨commits_ok, fun l' hc => ?_⟩
  have hsound' := hsound.commits hle hc
  exact
    { reopened := hsound'.load
      frames := ⟨fs, hsound.frames, hsound'.frames⟩
      changes := map_changes_framesOf l.last commits }

/-- An empty value under the empty key, then a deletion of the key, then
nothing at all. -/
def fewCommits : List ChangeSet :=
  [.insert .empty [] (some []), .insert .empty [] none, .empty]

theorem a_new_file_endures :
    ∃ l, load [] = .ok l ∧ ∃ l', fewCommits.foldlM Log.commit l = .ok l' ∧
      Endures l l' fewCommits := by
  have hload : load [] = .ok ⟨[], 0, .empty⟩ := rfl
  refine ⟨⟨[], 0, .empty⟩, hload, ?_⟩
  have hle : ∀ f ∈ framesOf 0 fewCommits, f.bytes.length ≤ Frame.maxLength := by decide +kernel
  obtain ⟨hsome, hall⟩ := the_file_tells_the_store hload hle
  obtain ⟨l', hc⟩ := hsome (by decide)
  exact ⟨l', hc, hall l' hc⟩

end Log
end BlockLedger
