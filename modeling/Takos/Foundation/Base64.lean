import Takos.Foundation.Utf8

/-!
# Base64

Three bytes are written with four digits.  A decoder reads the digits up to the
first equals sign, in either alphabet, and passes over everything else.
-/

namespace Takos.Foundation

namespace Base64

def alphabet : Text :=
  "ABCDEFGHIJKLMNOPQRSTUVWXYZabcdefghijklmnopqrstuvwxyz0123456789+/".toList

def digit (sextet : Nat) : Char := alphabet.getD sextet '='

def digitValue (char : Char) : Option Nat :=
  if char.isUpper then some (char.toNat - 'A'.toNat)
  else if char.isLower then some (char.toNat - 'a'.toNat + 26)
  else if char.isDigit then some (char.toNat - '0'.toNat + 52)
  else if char = '+' ∨ char = '-' then some 62
  else if char = '/' ∨ char = '_' then some 63
  else none

def encode : List UInt8 → Text
  | [] => []
  | [first] =>
    [digit (first.toNat / 4), digit (first.toNat % 4 * 16), '=', '=']
  | [first, second] =>
    [digit (first.toNat / 4),
      digit (first.toNat % 4 * 16 + second.toNat / 16),
      digit (second.toNat % 16 * 4), '=']
  | first :: second :: third :: rest =>
    digit (first.toNat / 4) ::
      digit (first.toNat % 4 * 16 + second.toNat / 16) ::
      digit (second.toNat % 16 * 4 + third.toNat / 64) ::
      digit (third.toNat % 64) :: encode rest

def join : List Nat → List UInt8
  | first :: second :: third :: fourth :: rest =>
    .ofNat (first * 4 + second / 16) ::
      .ofNat (second % 16 * 16 + third / 4) ::
      .ofNat (third % 4 * 64 + fourth) :: join rest
  | [first, second, third] =>
    [.ofNat (first * 4 + second / 16), .ofNat (second % 16 * 16 + third / 4)]
  | [first, second] => [.ofNat (first * 4 + second / 16)]
  | _ => []

def decode (text : Text) : List UInt8 :=
  join ((text.takeWhile (· ≠ '=')).filterMap digitValue)

theorem digitValue_digit {sextet : Nat} (small : sextet < 64) :
    digitValue (digit sextet) = some sextet := by
  have every : ∀ sextet : Fin 64,
      digitValue (digit sextet) = some sextet.val := by decide +kernel
  exact every ⟨sextet, small⟩

theorem digit_ne_pad {sextet : Nat} (small : sextet < 64) :
    digit sextet ≠ '=' := by
  have every : ∀ sextet : Fin 64, digit sextet ≠ '=' := by decide +kernel
  exact every ⟨sextet, small⟩

theorem sextets_cons {sextet : Nat} (small : sextet < 64) (rest : Text) :
    ((digit sextet :: rest).takeWhile (· ≠ '=')).filterMap digitValue =
      sextet :: (rest.takeWhile (· ≠ '=')).filterMap digitValue := by
  rw [List.takeWhile_cons_of_pos (by simp [digit_ne_pad small]),
    List.filterMap_cons_some (digitValue_digit small)]

theorem ofNat_of_eq (byte : UInt8) {value : Nat} (same : value = byte.toNat) :
    UInt8.ofNat value = byte := by
  rw [same, UInt8.ofNat_toNat]

theorem decode_encode (bytes : List UInt8) : decode (encode bytes) = bytes := by
  have range : ∀ byte : UInt8, byte.toNat < 256 := fun byte => byte.toNat_lt
  fun_induction encode bytes with
  | case1 => rfl
  | case2 first =>
      have := range first
      unfold decode
      rw [sextets_cons (by omega), sextets_cons (by omega)]
      simp only [List.takeWhile_cons_of_neg, List.filterMap_nil, join, ne_eq,
        not_true_eq_false, decide_false, Bool.false_eq_true, not_false_eq_true]
      rw [ofNat_of_eq first (by omega)]
  | case3 first second =>
      have := range first
      have := range second
      unfold decode
      rw [sextets_cons (by omega), sextets_cons (by omega),
        sextets_cons (by omega)]
      simp only [List.takeWhile_cons_of_neg, List.filterMap_nil, join, ne_eq,
        not_true_eq_false, decide_false, Bool.false_eq_true, not_false_eq_true]
      rw [ofNat_of_eq first (by omega), ofNat_of_eq second (by omega)]
  | case4 first second third rest ih =>
      have := range first
      have := range second
      have := range third
      unfold decode at ih ⊢
      rw [sextets_cons (by omega), sextets_cons (by omega),
        sextets_cons (by omega), sextets_cons (by omega), join, ih]
      rw [ofNat_of_eq first (by omega), ofNat_of_eq second (by omega),
        ofNat_of_eq third (by omega)]

end Base64

end Takos.Foundation
