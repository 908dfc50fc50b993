-- The keys of the store. A key is the number of the contract that owns
-- it, the tag of a table of that contract, and the rest of the key in
-- that table. The first five bytes never depend on the rest.
import BlockLedger.Bytes

namespace BlockLedger

/-- The number of a built-in contract; the contracts count down from -1. -/
abbrev ContractId := Int32

/-- The four bytes of a contract's number. -/
def ContractId.bytes (id : ContractId) : Bytes := leBytes 4 id.toUInt32.toNat

structure Key where
  owner : ContractId
  tag : UInt8
  rest : Bytes
deriving DecidableEq

namespace Key

/-- The first five bytes of every key of a table. -/
def lead (owner : ContractId) (tag : UInt8) : Bytes := owner.bytes ++ [tag]

/-- The key as the store holds it. -/
def bytes (k : Key) : Bytes := lead k.owner k.tag ++ k.rest

/-- A key is shown as its owner and the hexadecimal text of the bytes
after the owner. -/
def toText (k : Key) : String := toString k.owner.toInt ++ ":" ++ hex (k.tag :: k.rest)

/-- Two keys are never stored under the same bytes. -/
theorem bytes_inj {a b : Key} : a.bytes = b.bytes ↔ a = b := by
  refine ⟨fun h => ?_, fun h => h ▸ rfl⟩
  obtain ⟨owner, tag, rest⟩ := a
  obtain ⟨owner', tag', rest'⟩ := b
  simp only [bytes, lead, ContractId.bytes, List.append_assoc] at h
  obtain ⟨hOwner, hRest⟩ := List.append_inj h (by simp only [length_leBytes])
  have hOwner : owner.toUInt32.toNat = owner'.toUInt32.toNat := by
    have hv := congrArg leValue hOwner
    rw [leValue_leBytes, leValue_leBytes] at hv
    have := owner.toUInt32.toNat_lt
    have := owner'.toUInt32.toNat_lt
    omega
  have hOwner : owner = owner' := by
    have h32 : owner.toUInt32 = owner'.toUInt32 := UInt32.toNat_inj.1 hOwner
    simpa using congrArg UInt32.toInt32 h32
  simp_all

end Key

/-- The owner of a stored key; bytes that are missing count as zero. -/
def ownerOf (key : Bytes) : ContractId := (leValue (key.take 4)).toUInt32.toInt32

/-- A stored key as a text; one too short to name an owner is shown whole. -/
def keyText (key : Bytes) : String :=
  if key.length < 4 then hex key else toString (ownerOf key).toInt ++ ":" ++ hex (key.drop 4)

end BlockLedger
