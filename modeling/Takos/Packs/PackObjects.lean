import Takos.Foundation.Bits
import Takos.Git.Objects

/-!
# Objects of a pack

The ids of git objects as the platform's SHA-1 assigns them, in hexadecimal
text, and the numbers of the object types.  `digest` is the platform's SHA-1 on
bytes.
-/

namespace Takos.Packs

open Takos.Foundation Takos.Git

/-- `b.toString(16).padStart(2, "0")`. -/
def byteToHex (byte : UInt8) : Text :=
  Text.padStart 2 '0' (Nat.toDigits 16 byte.toNat)

def bytesToHex (bytes : List UInt8) : Text := bytes.flatMap byteToHex

def hexValue (char : Char) : Nat :=
  if char.toNat ≤ 57 then char.toNat - 48 else char.toNat - 87

/-- Only lower case digits occur: its argument is always `bytesToHex` of some
bytes. -/
def hexToBytes : Text → List UInt8
  | high :: low :: hex =>
    UInt8.ofNat (16 * hexValue high + hexValue low) :: hexToBytes hex
  | _ => []

theorem byteToHex_eq (byte : UInt8) :
    ∃ high low, byteToHex byte = [high, low] ∧
      UInt8.ofNat (16 * hexValue high + hexValue low) = byte := by
  have table : ∀ value : Fin 256,
      let hex := Text.padStart 2 '0' (Nat.toDigits 16 value.val)
      hex.length = 2 ∧
        16 * hexValue (hex.getD 0 '0') + hexValue (hex.getD 1 '0') =
          value.val := by
    decide +kernel
  obtain ⟨size, value⟩ := table ⟨byte.toNat, byte.toNat_lt⟩
  obtain ⟨high, low, pair⟩ := List.length_eq_two.mp size
  refine ⟨high, low, pair, ?_⟩
  simp only [pair] at value
  rw [show [high, low].getD 0 '0' = high from rfl,
    show [high, low].getD 1 '0' = low from rfl] at value
  rw [value, UInt8.ofNat_toNat]

theorem hexToBytes_bytesToHex (bytes : List UInt8) :
    hexToBytes (bytesToHex bytes) = bytes := by
  induction bytes with
  | nil => rfl
  | cons byte bytes ih =>
      obtain ⟨high, low, pair, value⟩ := byteToHex_eq byte
      rw [bytesToHex, List.flatMap_cons, pair]
      show UInt8.ofNat _ :: hexToBytes (bytesToHex bytes) = _
      rw [value, ih]

def typeName : GitObjectType → Text
  | .blob => ['b', 'l', 'o', 'b']
  | .tree => ['t', 'r', 'e', 'e']
  | .commit => ['c', 'o', 'm', 'm', 'i', 't']
  | .tag => ['t', 'a', 'g']

/-- `TEXT_ENCODER.encode` of text in which every character is one byte. -/
def encodeAscii (text : Text) : List UInt8 :=
  text.map fun char => UInt8.ofNat char.toNat

/-- The bytes that are hashed: the header before the NUL byte, the content
after it. -/
def objectBytes (type : GitObjectType) (content : List UInt8) : List UInt8 :=
  encodeAscii
      (typeName type ++ ' ' :: Nat.toDigits 10 content.length ++ ['\x00']) ++
    content

section

variable (digest : List UInt8 → List UInt8)

def sha1 (data : List UInt8) : Text := bytesToHex (digest data)

def hashObject (type : GitObjectType) (content : List UInt8) : Text :=
  sha1 digest (objectBytes type content)

end

def OBJ_COMMIT : Nat := 1
def OBJ_TREE : Nat := 2
def OBJ_BLOB : Nat := 3
def OBJ_TAG : Nat := 4
def OBJ_OFS_DELTA : Nat := 6
def OBJ_REF_DELTA : Nat := 7

def gitTypeToNumber : GitObjectType → Nat
  | .commit => OBJ_COMMIT
  | .tree => OBJ_TREE
  | .blob => OBJ_BLOB
  | .tag => OBJ_TAG

/-- `BASE_TYPE_BY_NUMBER`; absent keys are `none`. -/
def baseTypeByNumber (number : Nat) : Option GitObjectType :=
  if number = OBJ_COMMIT then some .commit
  else if number = OBJ_TREE then some .tree
  else if number = OBJ_BLOB then some .blob
  else if number = OBJ_TAG then some .tag
  else none

def ALL_TYPES : List GitObjectType := [.blob, .tree, .commit, .tag]

@[simp] theorem baseTypeByNumber_gitTypeToNumber (type : GitObjectType) :
    baseTypeByNumber (gitTypeToNumber type) = some type := by
  cases type <;> rfl

theorem gitTypeToNumber_ne_delta (type : GitObjectType) :
    gitTypeToNumber type ≠ OBJ_OFS_DELTA ∧
      gitTypeToNumber type ≠ OBJ_REF_DELTA := by
  cases type <;> decide

theorem gitTypeToNumber_lt (type : GitObjectType) :
    gitTypeToNumber type < 8 := by
  cases type <;> decide

end Takos.Packs

/-!
# The pack writer

`deflate` is the platform's compressor, `digest` its SHA-1.
-/

namespace Takos.Packs

open Takos.Foundation Takos.Git

/-- The `while (size > 0)` loop of `encodePackObjectHeader`, which divides the
size at least as often as there are rounds. -/
def sizeBytes : (rounds b size : Nat) → List UInt8
  | 0, b, _ => [UInt8.ofNat b]
  | rounds + 1, b, size =>
    if size = 0 then [UInt8.ofNat b]
    else
      UInt8.ofNat (b ||| 0x80) ::
        sizeBytes rounds (size &&& 0x7f) (size / 128)

def encodePackObjectHeader (type size : Nat) : List UInt8 :=
  sizeBytes (size / 16) ((type <<< 4) ||| (size &&& 0x0f)) (size / 16)

structure PackInputObject where
  type : GitObjectType
  content : List UInt8

/-- The count is written modulo `2 ^ 32`. -/
def packHeader (objectCount : Nat) : List UInt8 :=
  encodeAscii ['P', 'A', 'C', 'K'] ++ bigEndian 4 2 ++ bigEndian 4 objectCount

section

variable (digest deflate : List UInt8 → List UInt8)

/-- The chunks of the object loop. -/
def writeObjects (objects : List PackInputObject) : List UInt8 :=
  objects.flatMap fun obj =>
    encodePackObjectHeader (gitTypeToNumber obj.type) obj.content.length ++
      deflate obj.content

def writePack (objects : List PackInputObject) : List UInt8 :=
  let body := packHeader objects.length ++ writeObjects deflate objects
  let trailer := hexToBytes (sha1 digest body)
  body ++ trailer

end

end Takos.Packs
