-- Amounts of the asset in its smallest unit. A stored amount fits 256
-- bits: a sum that does not fit, or a difference below zero, is a fault.
import BlockLedger.Failure

namespace BlockLedger

/-- An amount in the smallest unit of the asset. -/
abbrev Amount := Nat

namespace Amount

/-- The first number that no stored amount reaches. -/
def limit : Nat := 2 ^ 256

def add (a b : Amount) : Outcome Amount :=
  if a + b < limit then .ok (a + b) else raise (.amountOverflow a b)

def sub (a b : Amount) : Outcome Amount :=
  if b ≤ a then .ok (a - b) else raise (.amountUnderflow a b)

/-- The two fees of a transaction together; they always fit. -/
def ofFees (system network : UInt64) : Amount := system.toNat + network.toNat

/-- The fewest bytes of an amount, least significant first; none for zero. -/
def bytes (a : Amount) : Bytes := trimZeros (leBytes 32 a)

/-- The amount in at most 32 bytes. -/
def ofBytes? (s : Bytes) : Option Amount := if s.length ≤ 32 then some (leValue s) else none

/-- An amount as an integer of a script, if it is small enough for one. -/
def toItem (a : Amount) : Outcome StackItem :=
  if a ≤ StackItem.maxInteger then .ok (.integer a) else refuse (.amountTooLarge a)

end Amount

theorem leValue_bytes {a : Amount} (h : a < Amount.limit) : leValue a.bytes = a := by
  unfold Amount.bytes
  rw [leValue_trimZeros, leValue_leBytes]
  exact Nat.mod_eq_of_lt (by simpa [Amount.limit] using h)

theorem ofBytes?_bytes {a : Amount} (h : a < Amount.limit) : Amount.ofBytes? a.bytes = some a := by
  have hlen : a.bytes.length ≤ 32 :=
    Nat.le_trans (length_trimZeros_le _) (Nat.le_of_eq (length_leBytes 32 a))
  simp [Amount.ofBytes?, hlen, leValue_bytes h]

end BlockLedger
