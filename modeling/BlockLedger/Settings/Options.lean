-- The settings as they are written in JSON. Every field has a default;
-- an object gives fields by name, an array gives them in order.
import BlockLedger.Settings.Hardfork
import BlockLedger.Text.Json

namespace BlockLedger

open Text (Json)

structure Options where
  network : UInt32
  addressVersion : UInt8
  /-- The keys of the committee in hexadecimal. -/
  standbyCommittee : List String
  validatorsCount : Nat
  millisecondsPerBlock : UInt32
  maxTransactionsPerBlock : UInt32
  memoryPoolMaxTransactions : Nat
  maxTraceableBlocks : UInt32
  maxValidUntilBlockIncrement : UInt32
  hardforks : Schedule
  initialGasDistribution : UInt64

namespace Options

def default : Options where
  network := 0x334f454e
  addressVersion := 0x35
  standbyCommittee := []
  validatorsCount := 0
  millisecondsPerBlock := 15000
  maxTransactionsPerBlock := 512
  memoryPoolMaxTransactions := 50000
  maxTraceableBlocks := 2102400
  maxValidUntilBlockIncrement := 5760
  hardforks := fun _ => none
  initialGasDistribution := 5200000000000000

/-! ## Reading -/

def word8 (j : Json) : Option UInt8 := (j.number 0xff).map Nat.toUInt8
def word32 (j : Json) : Option UInt32 := (j.number 0xffffffff).map Nat.toUInt32
def word64 (j : Json) : Option UInt64 := (j.number 0xffffffffffffffff).map Nat.toUInt64
def count (j : Json) : Option Nat := j.number 0xffffffffffffffff

/-- The heights by the names of the hardforks; the last one of a name counts. -/
def schedule : Json → Option Schedule
  | .object members =>
    members.foldlM
      (fun s (name, value) => do
        let h ← Hardfork.ofName? (← name)
        let height ← word32 value
        return s.set h height)
      (fun _ => none)
  | _ => none

/-- A field: its name, and how its value is read. -/
structure FieldReader where
  name : String
  read : Options → Json → Option Options

/-- The fields in order. -/
def fields : List FieldReader :=
  [⟨"Network", fun o j => (word32 j).map fun v => { o with network := v }⟩,
   ⟨"AddressVersion", fun o j => (word8 j).map fun v => { o with addressVersion := v }⟩,
   ⟨"StandbyCommittee", fun o j => j.texts.map fun v => { o with standbyCommittee := v }⟩,
   ⟨"ValidatorsCount", fun o j => (count j).map fun v => { o with validatorsCount := v }⟩,
   ⟨"MillisecondsPerBlock",
     fun o j => (word32 j).map fun v => { o with millisecondsPerBlock := v }⟩,
   ⟨"MaxTransactionsPerBlock",
     fun o j => (word32 j).map fun v => { o with maxTransactionsPerBlock := v }⟩,
   ⟨"MemoryPoolMaxTransactions",
     fun o j => (count j).map fun v => { o with memoryPoolMaxTransactions := v }⟩,
   ⟨"MaxTraceableBlocks", fun o j => (word32 j).map fun v => { o with maxTraceableBlocks := v }⟩,
   ⟨"MaxValidUntilBlockIncrement",
     fun o j => (word32 j).map fun v => { o with maxValidUntilBlockIncrement := v }⟩,
   ⟨"Hardforks", fun o j => (schedule j).map fun v => { o with hardforks := v }⟩,
   ⟨"InitialGasDistribution",
     fun o j => (word64 j).map fun v => { o with initialGasDistribution := v }⟩]

/-- Takes the members of an object in; a member without a field is passed
over, and a field may stand once. -/
def ofMembers : (seen : List String) → Options → List (Option String × Json) → Option Options
  | _, o, [] => some o
  | seen, o, (name, value) :: rest => do
    let name ← name
    match fields.find? fun f => f.name = name with
    | none => ofMembers seen o rest
    | some field =>
      if name ∈ seen then none
      else
        let o ← field.read o value
        ofMembers (name :: seen) o rest

/-- Takes the items of an array in, each for the next field. -/
def ofItems : Options → List FieldReader → List Json → Option Options
  | o, _, [] => some o
  | _, [], _ :: _ => none
  | o, field :: fields, value :: rest => do
    let o ← field.read o value
    ofItems o fields rest

def ofJson? : Json → Option Options
  | .object members => ofMembers [] default members
  | .array items => ofItems default fields items
  | _ => none

def read? (text : String) : Option Options := (Json.read? text).bind ofJson?

/-! ## Writing -/

/-- A member of an object. -/
def member (name value : String) : String := Json.quoted name ++ ":" ++ value

def inBraces (members : List String) : String :=
  "\x7b" ++ ",".intercalate members ++ "\x7d"

/-- The settings as a JSON object without blanks. -/
def toJson (o : Options) : String :=
  inBraces
    [member "Network" (toString o.network.toNat),
     member "AddressVersion" (toString o.addressVersion.toNat),
     member "StandbyCommittee" ("[" ++ ",".intercalate (o.standbyCommittee.map Json.quoted) ++ "]"),
     member "ValidatorsCount" (toString o.validatorsCount),
     member "MillisecondsPerBlock" (toString o.millisecondsPerBlock.toNat),
     member "MaxTransactionsPerBlock" (toString o.maxTransactionsPerBlock.toNat),
     member "MemoryPoolMaxTransactions" (toString o.memoryPoolMaxTransactions),
     member "MaxTraceableBlocks" (toString o.maxTraceableBlocks.toNat),
     member "MaxValidUntilBlockIncrement" (toString o.maxValidUntilBlockIncrement.toNat),
     member "Hardforks"
       (inBraces (o.hardforks.toList.map fun (h, height) => member h.name (toString height.toNat))),
     member "InitialGasDistribution" (toString o.initialGasDistribution.toNat)]

end Options
end BlockLedger
