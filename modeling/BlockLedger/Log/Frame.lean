-- Frames: the change sets of a log as they stand in its file. A frame
-- is written as its length in four bytes and its own bytes.
import BlockLedger.Draft
import BlockLedger.Store.Basic

namespace BlockLedger

open Wire

/-- One write of a frame. A deleted key has no value, whatever is given. -/
structure FrameEntry where
  key : Bytes
  value : Bytes
  deleted : Bool
deriving DecidableEq

/-- A change set with its number in the log. -/
structure Frame where
  sequence : UInt64
  entries : List FrameEntry
deriving DecidableEq

/-! ## Writing -/

def FrameEntry.fields (e : FrameEntry) : List Field :=
  bytesField 1 e.key ++ bytesField 2 e.value ++ numberField 3 (if e.deleted then 1 else 0)

namespace Frame

def bytes (f : Frame) : Bytes :=
  write (numberField 1 f.sequence ++ f.entries.map fun e => listedField 2 (write e.fields))

/-- A write of a change set as an entry. -/
def entryOf (key : Bytes) : Option Bytes → FrameEntry
  | some value => ⟨key, value, false⟩
  | none => ⟨key, [], true⟩

/-- A change set as a frame, in key order. -/
def ofChanges (sequence : UInt64) (changes : ChangeSet) : Frame :=
  ⟨sequence, changes.toList.map fun e => entryOf e.1 e.2⟩

/-- The change set of a frame; of two writes of a key the later counts. -/
def changes (f : Frame) : ChangeSet :=
  .ofList (f.entries.map fun e => (e.key, if e.deleted then none else some e.value))

/-- A frame as it stands in the file. -/
def framed (f : Frame) : Bytes := leBytes 4 f.bytes.length ++ f.bytes

end Frame

/-! ## Reading -/

instance : Message FrameEntry where
  empty := ⟨[], [], false⟩
  add _ e
    | ⟨1, .bytes b⟩ => some { e with key := b }
    | ⟨2, .bytes b⟩ => some { e with value := b }
    | ⟨3, .number n⟩ => some { e with deleted := n ≠ 0 }
    | field => ignore 3 e field

instance : Message Frame where
  empty := ⟨0, []⟩
  add room f
    | ⟨1, .number n⟩ => some { f with sequence := n }
    | ⟨2, .bytes b⟩ =>
      (readNested room Message.empty b).map fun e => { f with entries := f.entries ++ [e] }
    | field => ignore 2 f field

namespace Frame

def decode? (s : Bytes) : Option Frame := read? s

/-- The longest frame that is read, in bytes. -/
def maxLength : Nat := 64 * 1024 * 1024

end Frame

/-- Why a log cannot be read or continued. -/
inductive LogError where
  | outOfSequence (expected : Nat) (got : UInt64)
  | badLength (length : Nat)
  /-- The file ends inside the frame after this one. -/
  | truncated (last : UInt64)
  | malformed
deriving DecidableEq

def LogError.message : LogError → String
  | outOfSequence expected got =>
    "sequence violation: expected " ++ toString expected ++ ", got " ++ toString got.toNat
  | badLength length => "invalid frame length " ++ toString length
  | truncated last => "truncated frame after sequence " ++ toString last.toNat
  | malformed => "protobuf decode error"

/-- Reads one frame of a file that goes on. -/
def readFrame (last : UInt64) (s : Bytes) : Except LogError (Frame × Bytes) :=
  if s.length < 4 then .error (.truncated last)
  else
    let length := leValue (s.take 4)
    if length = 0 ∨ Frame.maxLength < length then .error (.badLength length)
    else
      match cut length (s.drop 4) with
      | none => .error (.truncated last)
      | some (content, rest) =>
        match Frame.decode? content with
        | none => .error .malformed
        | some frame => .ok (frame, rest)

/-- Reads at most `left` frames up to the end of the file. -/
def readFramesIn : (left : Nat) → (last : UInt64) → Bytes → Except LogError (List Frame)
  | _, _, [] => .ok []
  | 0, last, _ :: _ => .error (.truncated last)
  | left + 1, last, b :: s => do
    let (frame, rest) ← readFrame last (b :: s)
    let frames ← readFramesIn left frame.sequence rest
    return frame :: frames

/-- The frames of a file. Every frame has more than four bytes, so the
length of the file bounds their number. -/
def readFrames (file : Bytes) : Except LogError (List Frame) := readFramesIn file.length 0 file

end BlockLedger
