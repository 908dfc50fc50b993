-- Public keys, the scripts that they sign for, and addresses. Three
-- kinds of script end or begin with a tag of their own; an address is
-- the first 20 bytes of a script hashed twice.
import BlockLedger.Failure
import BlockLedger.Sha256

namespace BlockLedger

/-- A compressed public key. -/
abbrev PublicKey := Fixed 33

/-- A key from outside: 33 bytes, of which the first is 2 or 3. -/
def publicKey? (s : Bytes) : Option PublicKey :=
  if s.head? = some 2 ∨ s.head? = some 3 then Fixed.ofBytes? 33 s else none

/-- A text in UTF-8. -/
def utf8 (s : String) : Bytes := s.toUTF8.data.toList

/-- The first 20 bytes of the hash of the hash. -/
def hash160 (script : Bytes) : Hash160 :=
  let digest := sha256 (sha256 script).bytes
  ⟨digest.bytes.take 20, by simp [digest.length_eq]⟩

/-! ## Scripts -/

/-- The script that one key signs for. -/
def signatureScript (key : PublicKey) : Bytes := key.bytes ++ [0x41]

/-- The script that `threshold` of the keys sign for. The keys are put
in ascending order, so the order in which they are given is free. -/
def multisigScript (threshold : Nat) (keys : List PublicKey) : Outcome Bytes :=
  let count := keys.length
  if threshold = 0 ∨ count < threshold ∨ 255 < count then
    raise (.thresholdOutOfRange threshold count)
  else
    let sorted := keys.mergeSort fun a b => (compare a b).isLE
    .ok (threshold.toUInt8 :: sorted.flatMap (·.bytes) ++ [count.toUInt8, 0xae])

/-- The script of a built-in contract. -/
def contractScript (name : String) : Bytes := 0x00 :: utf8 name

/-! ## Addresses -/

def signatureAddress (key : PublicKey) : Hash160 := hash160 (signatureScript key)

/-- How many of `n` validators must sign: more than two thirds. -/
def byzantineThreshold (n : Nat) : Nat := n - (n - 1) / 3

/-- How many of `n` committee members must sign: more than half. -/
def majorityThreshold (n : Nat) : Nat := n - (n - 1) / 2

/-- The address of the validators together. -/
def validatorsAddress (keys : List PublicKey) : Outcome Hash160 :=
  (multisigScript (byzantineThreshold keys.length) keys).map hash160

/-- The address of the committee together. -/
def committeeAddress (keys : List PublicKey) : Outcome Hash160 :=
  (multisigScript (majorityThreshold keys.length) keys).map hash160

/-- The address of the built-in contract with a name. -/
def contractAddress (name : String) : Hash160 := hash160 (contractScript name)

/-! ## The hash of a whole store -/

/-- A key or value with its length in front. -/
def counted (s : Bytes) : Bytes := leBytes 4 s.length ++ s

/-- What is hashed for a list of pairs. -/
def stateStream (pairs : List (Bytes × Bytes)) : Bytes :=
  pairs.flatMap fun (key, value) => counted key ++ counted value

/-- The hash of a list of pairs, as a text. -/
def stateHash (pairs : List (Bytes × Bytes)) : String := hex (sha256 (stateStream pairs)).bytes

end BlockLedger
