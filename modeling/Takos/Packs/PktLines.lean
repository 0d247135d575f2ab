import Takos.Foundation.HexKeys
import Takos.Foundation.Utf8
import Mathlib.Data.List.Basic

/-!
# Pkt-lines

The lines of the smart protocol: four hexadecimal digits give the length of a
line with its digits, and the lengths 0, 1 and 2 mark a flush, a delimiter and
the end of a response.
-/

namespace Takos.Packs

open Takos.Foundation

/-- `parseInt(text, 16)` of a text of a few digits; `none` is `NaN`. -/
def parseHexNumber (text : Text) : Option Int :=
  match Text.trimStart text with
  | '-' :: rest => (magnitude rest).map fun number : Nat => -(number : Int)
  | '+' :: rest => (magnitude rest).map Int.ofNat
  | rest => (magnitude rest).map Int.ofNat
where
  magnitude (text : Text) : Option Nat :=
    match text with
    | '0' :: 'x' :: rest => digits rest
    | '0' :: 'X' :: rest => digits rest
    | rest => digits rest
  digits (text : Text) : Option Nat :=
    match (text.map Char.toLower).takeWhile HexKeys.isHexDigit with
    | [] => none
    | hex => some (HexKeys.value hex)

def toHex4 (number : Nat) : Text := HexKeys.padHex 4 number

/-- `none` where the payload is too large. -/
def pktLine (payload : List UInt8) : Option (List UInt8) :=
  let len := payload.length + 4
  if 0xffff < len then none
  else some (Utf8.encode (toHex4 len) ++ payload)

/-- The payload is `none` for a marker. -/
structure PktLine where
  payload : Option (List UInt8)
  deriving DecidableEq

inductive PktLineError where
  | notANumber (hex : Text)
  | tooShort (len : Int)
  | truncated
  deriving DecidableEq

def PktLineError.message : PktLineError → Text
  | .notANumber hex => "invalid pkt-line length: ".toList ++ hex
  | .tooShort len => "invalid pkt-line length: ".toList ++ (toString len).toList
  | .truncated => "truncated pkt-line".toList

def headerText (data : List UInt8) : Text := Utf8.decodeText (data.take 4)

/-- Each round of the loop takes at least four bytes. -/
def parseFrom : (rounds : Nat) → List UInt8 → Except PktLineError (List PktLine)
  | 0, _ => .ok []
  | rounds + 1, data =>
    if data.length < 4 then .ok []
    else
      match parseHexNumber (headerText data) with
      | none => .error (.notANumber (headerText data))
      | some len =>
        if len = 0 ∨ len = 1 ∨ len = 2 then
          (⟨none⟩ :: ·) <$> parseFrom rounds (data.drop 4)
        else if len < 4 then .error (.tooShort len)
        else if data.length < len then .error .truncated
        else
          (⟨some ((data.take len.toNat).drop 4)⟩ :: ·) <$>
            parseFrom rounds (data.drop len.toNat)

def parsePktLines (data : List UInt8) : Except PktLineError (List PktLine) :=
  parseFrom data.length data

/-- The characters of a header, in lower case. -/
def headerDigits (header : List UInt8) : Text :=
  header.map fun byte => (Char.ofNat byte.toNat).toLower

/-- Four hexadecimal digits that spell a number. -/
structure Spells (header : List UInt8) (number : Nat) : Prop where
  length : header.length = 4
  digits : ∀ char ∈ headerDigits header, HexKeys.isHexDigit char = true
  value : HexKeys.value (headerDigits header) = number

def largestPktLine : Nat := 65520

inductive LineBytes : PktLine → List UInt8 → Prop where
  | marker {header : List UInt8} {number : Nat} (spelled : Spells header number)
      (small : number ≤ 2) : LineBytes ⟨none⟩ header
  | payload {header payload : List UInt8}
      (spelled : Spells header (payload.length + 4))
      (fits : payload.length + 4 ≤ largestPktLine) :
      LineBytes ⟨some payload⟩ (header ++ payload)

inductive LinesBytes : List PktLine → List UInt8 → Prop where
  | nil : LinesBytes [] []
  | cons {line : PktLine} {lines : List PktLine} {front back : List UInt8}
      (first : LineBytes line front) (rest : LinesBytes lines back) :
      LinesBytes (line :: lines) (front ++ back)

theorem hexByte : ∀ byte < 256,
    HexKeys.isHexDigit (Char.ofNat byte).toLower = true →
      byte < 128 ∧ Text.isSpace (Char.ofNat byte) = false ∧
      Char.ofNat byte ≠ '-' ∧ Char.ofNat byte ≠ '+' ∧
      Char.ofNat byte ≠ 'x' ∧ Char.ofNat byte ≠ 'X' := by
  decide +kernel

theorem decode_ascii {bytes : List UInt8}
    (ascii : ∀ byte ∈ bytes, byte.toNat < 128) :
    Utf8.decodeText bytes = bytes.map fun byte => Char.ofNat byte.toNat := by
  have decoded : Utf8.decode bytes =
      bytes.map fun byte => Char.ofNat byte.toNat := by
    induction bytes with
    | nil => rfl
    | cons byte bytes induction =>
        have first := ascii byte List.mem_cons_self
        have rest := induction fun other member =>
          ascii other (List.mem_cons_of_mem _ member)
        rw [Utf8.decode_cons, Utf8.decodeChar, if_pos first, rest]
        rfl
  unfold Utf8.decodeText
  split
  · have first := ascii 0xEF List.mem_cons_self
    exact absurd first (by decide)
  · exact decoded

section Headers

variable {header : List UInt8} {number : Nat}

theorem Spells.hexByte (spelled : Spells header number) {byte : UInt8}
    (member : byte ∈ header) :
    byte.toNat < 128 ∧ Text.isSpace (Char.ofNat byte.toNat) = false ∧
      Char.ofNat byte.toNat ≠ '-' ∧ Char.ofNat byte.toNat ≠ '+' ∧
      Char.ofNat byte.toNat ≠ 'x' ∧ Char.ofNat byte.toNat ≠ 'X' :=
  Packs.hexByte byte.toNat byte.toNat_lt
    (spelled.digits _ (List.mem_map_of_mem member))

theorem Spells.decoded (spelled : Spells header number) :
    Utf8.decodeText header = header.map fun byte => Char.ofNat byte.toNat :=
  decode_ascii fun _ member => (spelled.hexByte member).1

theorem digits_of_hex {text : Text} (nonempty : text ≠ [])
    (hex : ∀ char ∈ text.map Char.toLower, HexKeys.isHexDigit char = true) :
    parseHexNumber.digits text =
      some (HexKeys.value (text.map Char.toLower)) := by
  have whole : (text.map Char.toLower).takeWhile HexKeys.isHexDigit =
      text.map Char.toLower := List.takeWhile_eq_self_iff.mpr hex
  unfold parseHexNumber.digits
  rw [whole]
  cases text with
  | nil => exact absurd rfl nonempty
  | cons char text => rfl

theorem Spells.read (spelled : Spells header number) :
    parseHexNumber (Utf8.decodeText header) = some (number : Int) := by
  have visible := @Spells.hexByte header number spelled
  have lower : (header.map fun byte => Char.ofNat byte.toNat).map Char.toLower =
      headerDigits header := List.map_map
  have value := spelled.value
  have digits := spelled.digits
  have length := spelled.length
  rw [← lower] at value digits
  rw [spelled.decoded]
  cases header with
  | nil => cases length
  | cons byte bytes =>
      obtain ⟨_, space, minus, plus, _⟩ := visible List.mem_cons_self
      have read : parseHexNumber.digits
          ((byte :: bytes).map fun byte => Char.ofNat byte.toNat) =
            some number :=
        (digits_of_hex (List.cons_ne_nil _ _) digits).trans
          (congrArg some value)
      have magnitude : parseHexNumber.magnitude
          ((byte :: bytes).map fun byte => Char.ofNat byte.toNat) =
            some number := by
        unfold parseHexNumber.magnitude
        split
        · rename_i rest shape
          cases bytes with
          | nil => cases length
          | cons second bytes =>
              obtain ⟨_, _, _, _, small, _⟩ := visible
                (List.mem_cons_of_mem _ List.mem_cons_self)
              exact absurd (List.cons.inj (List.cons.inj shape).2).1 small
        · rename_i rest shape
          cases bytes with
          | nil => cases length
          | cons second bytes =>
              obtain ⟨_, _, _, _, _, large⟩ := visible
                (List.mem_cons_of_mem _ List.mem_cons_self)
              exact absurd (List.cons.inj (List.cons.inj shape).2).1 large
        · exact read
      have untrimmed : Text.trimStart
          ((byte :: bytes).map fun byte => Char.ofNat byte.toNat) =
            (byte :: bytes).map fun byte => Char.ofNat byte.toNat := by
        rw [List.map_cons, Text.trimStart, List.dropWhile_cons, space]
        rfl
      unfold parseHexNumber
      rw [untrimmed]
      split
      · rename_i rest shape
        exact absurd (List.cons.inj shape).1 minus
      · rename_i rest shape
        exact absurd (List.cons.inj shape).1 plus
      · rw [magnitude]
        rfl

end Headers

end Takos.Packs
