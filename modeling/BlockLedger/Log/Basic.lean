-- The log: a file of change sets, numbered from 1 on, beside the store
-- that they build up. A change set is written to the file before the
-- store takes it in.
import BlockLedger.Chain.Basic
import BlockLedger.Log.Frame

namespace BlockLedger

structure Log where
  /-- The content of the file. -/
  file : Bytes
  /-- The number of the last frame. -/
  last : UInt64
  /-- The store that the frames build up. -/
  memory : Store

namespace Log

/-- A frame must have the number after the last one. -/
def checkSequence (last : UInt64) (f : Frame) : Except LogError Unit :=
  if f.sequence.toNat = last.toNat + 1 then .ok ()
  else .error (.outOfSequence (last.toNat + 1) f.sequence)

/-- Applies frames in turn; their numbers go up one by one. -/
def applyFrames : (last : UInt64) → Store → List Frame → Except LogError (UInt64 × Store)
  | last, memory, [] => .ok (last, memory)
  | last, memory, f :: rest => do
    checkSequence last f
    applyFrames f.sequence (memory.commit f.changes) rest

/-- Opens the log in a file. -/
def load (file : Bytes) : Except LogError Log := do
  let frames ← readFrames file
  let (last, memory) ← applyFrames 0 .empty frames
  return ⟨file, last, memory⟩

/-- Writes the next frame to the file; the store stays as it is. -/
def append (l : Log) (f : Frame) : Except LogError Log := do
  checkSequence l.last f
  return { l with file := l.file ++ f.framed, last := f.sequence }

/-- Every frame of the file. -/
def frames (l : Log) : Except LogError (List Frame) := readFrames l.file

/-- Writes a change set to the file, and then to the store. -/
def commit (l : Log) (changes : ChangeSet) : Outcome Log :=
  match l.append (.ofChanges (l.last + 1) changes) with
  | .ok l => .ok { l with memory := l.memory.commit changes }
  | .error _ => .error (.storage .backend)

/-- A chain may be kept in a log. -/
instance : Keeper Log where
  content l := l.memory
  commit := Log.commit

end Log
end BlockLedger
