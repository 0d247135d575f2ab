import Takos.Foundation.Text

/-!
# UTF-8

Encoding a string and decoding bytes, where bytes that are no encoding of a
character become the replacement character.  A decoder of texts drops a byte
order mark at the front.
-/

namespace Takos.Foundation

namespace Utf8

def encodeChar (char : Char) : List UInt8 :=
  let code := char.toNat
  if code < 0x80 then [UInt8.ofNat code]
  else if code < 0x800 then
    [UInt8.ofNat (0xC0 + code / 64), UInt8.ofNat (0x80 + code % 64)]
  else if code < 0x10000 then
    [UInt8.ofNat (0xE0 + code / 4096), UInt8.ofNat (0x80 + code / 64 % 64),
      UInt8.ofNat (0x80 + code % 64)]
  else
    [UInt8.ofNat (0xF0 + code / 262144), UInt8.ofNat (0x80 + code / 4096 % 64),
      UInt8.ofNat (0x80 + code / 64 % 64), UInt8.ofNat (0x80 + code % 64)]

def encode (text : Text) : List UInt8 := text.flatMap encodeChar

/-- `U+FFFD`. -/
def replacement : Char := Char.ofNat 0xFFFD

/-- The further bytes of a character, with the bounds of the next one. -/
def continuation :
    (needed code lower upper : Nat) → List UInt8 → Char × List UInt8
  | 0, code, _, _, bytes => (Char.ofNat code, bytes)
  | _ + 1, _, _, _, [] => (replacement, [])
  | needed + 1, code, lower, upper, byte :: bytes =>
    if lower ≤ byte.toNat ∧ byte.toNat ≤ upper then
      continuation needed (64 * code + (byte.toNat - 0x80)) 0x80 0xBF bytes
    else (replacement, byte :: bytes)

/-- A character from its first byte on, and the bytes after it. -/
def decodeChar (byte : UInt8) (bytes : List UInt8) : Char × List UInt8 :=
  let first := byte.toNat
  if first < 0x80 then (Char.ofNat first, bytes)
  else if 0xC2 ≤ first ∧ first ≤ 0xDF then
    continuation 1 (first - 0xC0) 0x80 0xBF bytes
  else if 0xE0 ≤ first ∧ first ≤ 0xEF then
    continuation 2 (first - 0xE0) (if first = 0xE0 then 0xA0 else 0x80)
      (if first = 0xED then 0x9F else 0xBF) bytes
  else if 0xF0 ≤ first ∧ first ≤ 0xF4 then
    continuation 3 (first - 0xF0) (if first = 0xF0 then 0x90 else 0x80)
      (if first = 0xF4 then 0x8F else 0xBF) bytes
  else (replacement, bytes)

def decodeFrom : (rounds : Nat) → List UInt8 → Text
  | 0, _ => []
  | _ + 1, [] => []
  | rounds + 1, byte :: bytes =>
    (decodeChar byte bytes).1 :: decodeFrom rounds (decodeChar byte bytes).2

def decode (bytes : List UInt8) : Text := decodeFrom bytes.length bytes

/-- `new TextDecoder().decode(bytes)`. -/
def decodeText : List UInt8 → Text
  | 0xEF :: 0xBB :: 0xBF :: bytes => decode bytes
  | bytes => decode bytes

theorem continuation_length (needed code lower upper : Nat)
    (bytes : List UInt8) :
    (continuation needed code lower upper bytes).2.length ≤ bytes.length := by
  induction needed generalizing code lower upper bytes with
  | zero => exact Nat.le_refl _
  | succ needed ih =>
      cases bytes with
      | nil => exact Nat.le_refl _
      | cons byte bytes =>
          rw [continuation]
          split
          · exact (ih _ _ _ bytes).trans (Nat.le_succ _)
          · exact Nat.le_refl _

theorem decodeChar_length (byte : UInt8) (bytes : List UInt8) :
    (decodeChar byte bytes).2.length ≤ bytes.length := by
  simp only [decodeChar]
  split
  · exact Nat.le_refl _
  split
  · exact continuation_length _ _ _ _ _
  split
  · exact continuation_length _ _ _ _ _
  split
  · exact continuation_length _ _ _ _ _
  · exact Nat.le_refl _

theorem decodeFrom_rounds (rounds : Nat) {bytes : List UInt8}
    (enough : bytes.length ≤ rounds) : decodeFrom rounds bytes = decode bytes := by
  have same : ∀ rounds more (bytes : List UInt8), bytes.length ≤ rounds →
      bytes.length ≤ more → decodeFrom rounds bytes = decodeFrom more bytes := by
    intro rounds
    induction rounds with
    | zero =>
        intro more bytes few _
        obtain rfl : bytes = [] := List.length_eq_zero_iff.mp (by omega)
        cases more <;> rfl
    | succ rounds ih =>
        intro more bytes few enough
        cases bytes with
        | nil => cases more <;> rfl
        | cons byte bytes =>
            cases more with
            | zero => simp at enough
            | succ more =>
                have shorter := decodeChar_length byte bytes
                simp only [List.length_cons] at few enough
                rw [decodeFrom, decodeFrom,
                  ih more _ (by omega) (by omega)]
  exact same rounds bytes.length bytes enough (Nat.le_refl _)

@[simp] theorem decode_nil : decode [] = [] := rfl

theorem decode_cons (byte : UInt8) (bytes : List UInt8) :
    decode (byte :: bytes) =
      (decodeChar byte bytes).1 :: decode (decodeChar byte bytes).2 := by
  rw [decode, List.length_cons, decodeFrom,
    decodeFrom_rounds _ (decodeChar_length byte bytes)]

theorem toNat_ofNat {value : Nat} (small : value < 256) :
    (UInt8.ofNat value).toNat = value := by
  rw [UInt8.toNat_ofNat']
  omega

theorem char_range (char : Char) :
    char.toNat < 0xD800 ∨ 0xDFFF < char.toNat ∧ char.toNat < 0x110000 :=
  char.valid

theorem continuation_step {needed code lower upper value : Nat}
    {bytes : List UInt8} (low : lower ≤ value) (high : value ≤ upper)
    (byte : value < 256) :
    continuation (needed + 1) code lower upper (UInt8.ofNat value :: bytes) =
      continuation needed (64 * code + (value - 0x80)) 0x80 0xBF bytes := by
  rw [continuation, toNat_ofNat byte, if_pos ⟨low, high⟩]

theorem decodeChar_encodeChar (char : Char) (rest : List UInt8) :
    ∃ byte bytes, encodeChar char ++ rest = byte :: bytes ∧
      decodeChar byte bytes = (char, rest) := by
  have range := char_range char
  have whole : Char.ofNat char.toNat = char := Char.ofNat_toNat char
  generalize codeEq : char.toNat = code at range whole
  unfold encodeChar
  simp only [codeEq]
  by_cases one : code < 0x80
  · refine ⟨UInt8.ofNat code, rest, by simp [one], ?_⟩
    rw [decodeChar, toNat_ofNat (by omega), if_pos one, whole]
  by_cases two : code < 0x800
  · refine ⟨UInt8.ofNat (0xC0 + code / 64),
      UInt8.ofNat (0x80 + code % 64) :: rest, by simp [one, two], ?_⟩
    have assembled : 64 * (0xC0 + code / 64 - 0xC0) +
        (0x80 + code % 64 - 0x80) = code := by omega
    rw [decodeChar, toNat_ofNat (by omega), if_neg (by omega),
      if_pos ⟨by omega, by omega⟩,
      continuation_step (by omega) (by omega) (by omega), assembled,
      continuation, whole]
  by_cases three : code < 0x10000
  · refine ⟨UInt8.ofNat (0xE0 + code / 4096),
      UInt8.ofNat (0x80 + code / 64 % 64) :: UInt8.ofNat (0x80 + code % 64) ::
        rest, by simp [one, two, three], ?_⟩
    have assembled : 64 * (64 * (0xE0 + code / 4096 - 0xE0) +
        (0x80 + code / 64 % 64 - 0x80)) + (0x80 + code % 64 - 0x80) = code := by
      omega
    rw [decodeChar, toNat_ofNat (by omega), if_neg (by omega),
      if_neg (by omega), if_pos ⟨by omega, by omega⟩,
      continuation_step (by split <;> omega) (by split <;> omega) (by omega),
      continuation_step (by omega) (by omega) (by omega), assembled,
      continuation, whole]
  · refine ⟨UInt8.ofNat (0xF0 + code / 262144),
      UInt8.ofNat (0x80 + code / 4096 % 64) ::
        UInt8.ofNat (0x80 + code / 64 % 64) ::
          UInt8.ofNat (0x80 + code % 64) :: rest,
      by simp [one, two, three], ?_⟩
    have assembled : 64 * (64 * (64 * (0xF0 + code / 262144 - 0xF0) +
        (0x80 + code / 4096 % 64 - 0x80)) + (0x80 + code / 64 % 64 - 0x80)) +
          (0x80 + code % 64 - 0x80) = code := by
      omega
    rw [decodeChar, toNat_ofNat (by omega), if_neg (by omega),
      if_neg (by omega), if_neg (by omega), if_pos ⟨by omega, by omega⟩,
      continuation_step (by split <;> omega) (by split <;> omega) (by omega),
      continuation_step (by omega) (by omega) (by omega),
      continuation_step (by omega) (by omega) (by omega), assembled,
      continuation, whole]

theorem decode_encodeChar_append (char : Char) (rest : List UInt8) :
    decode (encodeChar char ++ rest) = char :: decode rest := by
  obtain ⟨byte, bytes, split, decoded⟩ := decodeChar_encodeChar char rest
  rw [split, decode_cons, decoded]

@[simp] theorem encode_nil : encode [] = [] := rfl

@[simp] theorem encode_cons (char : Char) (text : Text) :
    encode (char :: text) = encodeChar char ++ encode text := by
  simp [encode]

@[simp] theorem encode_append (left right : Text) :
    encode (left ++ right) = encode left ++ encode right := by
  simp [encode]

theorem decode_encode_append (text : Text) (rest : List UInt8) :
    decode (encode text ++ rest) = text ++ decode rest := by
  induction text with
  | nil => rfl
  | cons char text ih =>
      rw [encode_cons, List.append_assoc, decode_encodeChar_append, ih,
        List.cons_append]

theorem decode_encode (text : Text) : decode (encode text) = text := by
  have decoded := decode_encode_append text []
  rwa [List.append_nil, decode_nil, List.append_nil] at decoded

def charBytes (char : Char) : List Nat :=
  (encodeChar char).map UInt8.toNat

theorem charBytes_eq (char : Char) :
    charBytes char =
      let code := char.toNat
      if code < 0x80 then [code]
      else if code < 0x800 then [0xC0 + code / 64, 0x80 + code % 64]
      else if code < 0x10000 then
        [0xE0 + code / 4096, 0x80 + code / 64 % 64, 0x80 + code % 64]
      else
        [0xF0 + code / 262144, 0x80 + code / 4096 % 64, 0x80 + code / 64 % 64,
          0x80 + code % 64] := by
  have range := char_range char
  unfold charBytes encodeChar
  dsimp only
  split
  · rw [List.map_singleton, toNat_ofNat (by omega)]
  split
  · simp only [List.map_cons, List.map_nil]
    rw [toNat_ofNat (by omega), toNat_ofNat (by omega)]
  split
  · simp only [List.map_cons, List.map_nil]
    rw [toNat_ofNat (by omega), toNat_ofNat (by omega),
      toNat_ofNat (by omega)]
  · simp only [List.map_cons, List.map_nil]
    rw [toNat_ofNat (by omega), toNat_ofNat (by omega),
      toNat_ofNat (by omega), toNat_ofNat (by omega)]

theorem toNat_of_mem_encodeChar {char : Char} {byte : UInt8}
    (member : byte ∈ encodeChar char) (ascii : byte.toNat < 0x80) :
    char.toNat = byte.toNat := by
  have range := char_range char
  have inside : byte.toNat ∈ charBytes char := List.mem_map_of_mem member
  rw [charBytes_eq] at inside
  dsimp only at inside
  split at inside
  · exact (List.mem_singleton.mp inside).symm
  split at inside
  · simp only [List.mem_cons, List.not_mem_nil, or_false] at inside
    omega
  split at inside
  · simp only [List.mem_cons, List.not_mem_nil, or_false] at inside
    omega
  · simp only [List.mem_cons, List.not_mem_nil, or_false] at inside
    omega

theorem not_mem_encode {text : Text} {char : Char} (ascii : char.toNat < 0x80)
    (absent : char ∉ text) : UInt8.ofNat char.toNat ∉ encode text := by
  intro member
  obtain ⟨other, inside, byte⟩ := List.mem_flatMap.mp member
  have value : (UInt8.ofNat char.toNat).toNat = char.toNat :=
    toNat_ofNat (by omega)
  have same := toNat_of_mem_encodeChar byte (by omega)
  rw [value] at same
  rw [Char.toNat_inj.mp same] at inside
  exact absent inside

/-- `U+FEFF`. -/
def byteOrderMark : Char := Char.ofNat 0xFEFF

theorem encodeChar_byteOrderMark :
    encodeChar byteOrderMark = [0xEF, 0xBB, 0xBF] := by
  decide

theorem decodeText_encode {text : Text}
    (unmarked : text.head? ≠ some byteOrderMark) :
    decodeText (encode text) = text := by
  have decoded := decode_encode text
  unfold decodeText
  split
  · rename_i bytes marked
    rw [marked] at decoded
    have front := decode_encodeChar_append byteOrderMark bytes
    rw [encodeChar_byteOrderMark] at front
    rw [← decoded] at unmarked
    exact absurd (congrArg List.head? front) unmarked
  · exact decoded

end Utf8

end Takos.Foundation
