-- The settings of a network. Every node of one network has the same
-- ones; they are checked once, when they are read.
import BlockLedger.Amount
import BlockLedger.Settings.KeyText
import BlockLedger.Settings.Options

namespace BlockLedger

structure Settings where
  network : UInt32
  addressVersion : UInt8
  standbyCommittee : List PublicKey
  validatorsCount : Nat
  millisecondsPerBlock : UInt32
  maxTransactionsPerBlock : UInt32
  memoryPoolMaxTransactions : Nat
  maxTraceableBlocks : UInt32
  maxValidUntilBlockIncrement : UInt32
  hardforks : Schedule
  initialGasDistribution : UInt64

/-- Why settings are not accepted. -/
inductive SettingsError where
  /-- There is no file, or it is no text. -/
  | unreadable
  /-- The text is not in the form of settings. -/
  | malformed
  | badKey (error : KeyTextError)
  | noCommittee
  | validatorsOutOfRange (committee validators : Nat)
  | nothingTraceable
  | noPool
  | hardforkTooEarly (hardfork : Hardfork) (height last : UInt32)

def SettingsError.message : SettingsError → String
  | unreadable => "failed to read settings file"
  | malformed => "failed to parse settings"
  | badKey error => "invalid settings: " ++ error.message
  | noCommittee => "invalid settings: StandbyCommittee must not be empty"
  | validatorsOutOfRange committee validators =>
    "invalid settings: ValidatorsCount must be in 1..=" ++ toString committee ++ ", got " ++
      toString validators
  | nothingTraceable => "invalid settings: MaxTraceableBlocks must be positive"
  | noPool => "invalid settings: MemoryPoolMaxTransactions must be positive"
  | hardforkTooEarly hardfork height last =>
    "invalid settings: hardfork " ++ hardfork.name ++ " activates at " ++ toString height.toNat ++
      " before an earlier hardfork (" ++ toString last.toNat ++ ")"

namespace Settings

/-- The heights do not decrease along the order of the hardforks. -/
def checkHeights : (last : UInt32) → List (Hardfork × UInt32) → Except SettingsError Unit
  | _, [] => .ok ()
  | last, (h, height) :: rest =>
    if height < last then .error (.hardforkTooEarly h height last) else checkHeights height rest

/-- The keys of the committee, each a public key. -/
def committeeOf (o : Options) : Except SettingsError (List PublicKey) :=
  o.standbyCommittee.mapM fun text => (readPublicKey text).mapError .badKey

/-- The settings of checked options. -/
def ofOptions (o : Options) : Except SettingsError Settings := do
  let committee ← committeeOf o
  if committee = [] then throw .noCommittee
  if o.validatorsCount = 0 ∨ committee.length < o.validatorsCount then
    throw (.validatorsOutOfRange committee.length o.validatorsCount)
  if o.maxTraceableBlocks = 0 then throw .nothingTraceable
  if o.memoryPoolMaxTransactions = 0 then throw .noPool
  checkHeights 0 o.hardforks.toList
  return {
    network := o.network
    addressVersion := o.addressVersion
    standbyCommittee := committee
    validatorsCount := o.validatorsCount
    millisecondsPerBlock := o.millisecondsPerBlock
    maxTransactionsPerBlock := o.maxTransactionsPerBlock
    memoryPoolMaxTransactions := o.memoryPoolMaxTransactions
    maxTraceableBlocks := o.maxTraceableBlocks
    maxValidUntilBlockIncrement := o.maxValidUntilBlockIncrement
    hardforks := o.hardforks
    initialGasDistribution := o.initialGasDistribution }

/-- The settings that a JSON text gives. -/
def read (text : String) : Except SettingsError Settings :=
  match Options.read? text with
  | some o => ofOptions o
  | none => .error .malformed

/-- The settings in the content of a file, if there is one. -/
def load (content : Option Bytes) : Except SettingsError Settings :=
  match content with
  | none => .error .unreadable
  | some s =>
    match String.fromUTF8? ⟨s.toArray⟩ with
    | some text => read text
    | none => .error .unreadable

/-- The first members of the committee. -/
def validators (s : Settings) : List PublicKey := s.standbyCommittee.take s.validatorsCount

/-- The address that receives the first distribution; the committee must
have as many members as there are validators. -/
def genesisHolder (s : Settings) : Outcome Hash160 :=
  if s.standbyCommittee.length < s.validatorsCount then
    raise (.validatorsMissing s.validatorsCount s.standbyCommittee.length)
  else validatorsAddress s.validators

end Settings
end BlockLedger
