import Takos.Foundation.Text
import Mathlib.Data.Nat.Log
import Mathlib.Tactic.Ring

/-!
# Natural numbers as doubles

A natural number below `2 ^ 53` is a double.  A larger one is rounded to 53
bits, a tie to the even side.
-/

namespace Takos.Foundation

/-- Largest value of `Number.isSafeInteger`. -/
def maxSafeInteger : Nat := 2 ^ 53 - 1

/-- Numbers from here on are infinite. -/
def doubleLimit : Nat := 2 ^ 1024

/-- Distance between the doubles near a number of at least `2 ^ 53`. -/
def doubleSpacing (number : Nat) : Nat := 2 ^ (Nat.log 2 number - 52)

def roundDouble (number : Nat) : Nat :=
  if number < 2 ^ 53 then number
  else
    let spacing := doubleSpacing number
    let quotient := number / spacing
    let remainder := number % spacing
    if 2 * remainder < spacing ∨ 2 * remainder = spacing ∧ quotient % 2 = 0 then
      quotient * spacing
    else (quotient + 1) * spacing

/-- The number is itself a double. -/
def IsDouble (number : Nat) : Prop := roundDouble number = number

variable {number : Nat}

theorem isDouble_of_lt (small : number < 2 ^ 53) :
    IsDouble number := if_pos small

theorem isDouble_of_dvd (large : 2 ^ 53 ≤ number)
    (aligned : doubleSpacing number ∣ number) : IsDouble number := by
  have positive : 0 < doubleSpacing number := Nat.two_pow_pos _
  rw [IsDouble, roundDouble, if_neg (Nat.not_lt.mpr large)]
  dsimp only
  rw [Nat.mod_eq_zero_of_dvd aligned, if_pos (.inl positive),
    Nat.div_mul_cancel aligned]

theorem log_of_scaled {quotient exponent : Nat} (low : 2 ^ 52 ≤ quotient)
    (high : quotient < 2 ^ 53) :
    Nat.log 2 (quotient * 2 ^ exponent) = 52 + exponent := by
  apply Nat.log_eq_of_pow_le_of_lt_pow
  · rw [Nat.pow_add]
    exact Nat.mul_le_mul_right _ low
  · rw [show 52 + exponent + 1 = 53 + exponent by omega, Nat.pow_add]
    exact Nat.mul_lt_mul_of_pos_right high (Nat.two_pow_pos _)

theorem isDouble_scaled {quotient exponent : Nat} (low : 2 ^ 52 ≤ quotient)
    (high : quotient ≤ 2 ^ 53) (positive : 0 < exponent) :
    IsDouble (quotient * 2 ^ exponent) := by
  have two : 2 ≤ 2 ^ exponent := by
    calc
      2 = 2 ^ 1 := rfl
      _ ≤ 2 ^ exponent := Nat.pow_le_pow_right (by decide) positive
  have large : 2 ^ 53 ≤ quotient * 2 ^ exponent := by
    calc
      2 ^ 53 = 2 ^ 52 * 2 := rfl
      _ ≤ quotient * 2 ^ exponent := Nat.mul_le_mul low two
  apply isDouble_of_dvd large
  rcases Nat.lt_or_ge quotient (2 ^ 53) with below | above
  · rw [doubleSpacing, log_of_scaled low below, Nat.add_sub_cancel_left]
    exact Nat.dvd_mul_left _ _
  · have whole : quotient * 2 ^ exponent = 2 ^ 52 * 2 ^ (exponent + 1) := by
      have same : quotient = 2 ^ 53 := Nat.le_antisymm high above
      rw [same]
      ring
    rw [whole, doubleSpacing, log_of_scaled (Nat.le_refl _) (by decide),
      Nat.add_sub_cancel_left]
    exact Nat.dvd_mul_left _ _

theorem div_doubleSpacing (large : 2 ^ 53 ≤ number) :
    2 ^ 52 ≤ number / doubleSpacing number ∧
      number / doubleSpacing number < 2 ^ 53 ∧ 53 ≤ Nat.log 2 number := by
  have nonzero : number ≠ 0 := by
    intro zero
    rw [zero] at large
    exact absurd large (by decide)
  have exponent : 53 ≤ Nat.log 2 number :=
    Nat.le_log_of_pow_le (by decide) large
  have low := Nat.pow_log_le_self 2 nonzero
  have high := Nat.lt_pow_succ_log_self (b := 2) (by decide) number
  refine ⟨?_, ?_, exponent⟩
  · rw [doubleSpacing, Nat.le_div_iff_mul_le (Nat.two_pow_pos _), ← Nat.pow_add,
      show 52 + (Nat.log 2 number - 52) = Nat.log 2 number by omega]
    exact low
  · rw [doubleSpacing, Nat.div_lt_iff_lt_mul (Nat.two_pow_pos _), ← Nat.pow_add,
      show 53 + (Nat.log 2 number - 52) = Nat.log 2 number + 1 by omega]
    exact high

theorem isDouble_roundDouble (number : Nat) : IsDouble (roundDouble number) := by
  rcases Nat.lt_or_ge number (2 ^ 53) with small | large
  · rw [roundDouble, if_pos small]
    exact isDouble_of_lt small
  · obtain ⟨low, high, exponent⟩ := div_doubleSpacing large
    rw [roundDouble, if_neg (Nat.not_lt.mpr large)]
    dsimp only
    split
    · exact isDouble_scaled low (Nat.le_of_lt high) (by omega)
    · exact isDouble_scaled (by omega) high (by omega)

theorem IsDouble.dvd (double : IsDouble number) (large : 2 ^ 53 ≤ number) :
    doubleSpacing number ∣ number := by
  rw [IsDouble, roundDouble, if_neg (Nat.not_lt.mpr large)] at double
  dsimp only at double
  split at double
  · exact ⟨_, double.symm.trans (Nat.mul_comm _ _)⟩
  · exact ⟨_, double.symm.trans (Nat.mul_comm _ _)⟩

theorem roundDouble_succ (double : IsDouble number) (large : 2 ^ 53 ≤ number) :
    roundDouble (number + 1) =
      if number < 2 ^ 54 ∧ number % 4 = 2 then number + 2 else number := by
  obtain ⟨low, high, exponent⟩ := div_doubleSpacing large
  obtain ⟨quotient, whole⟩ := double.dvd large
  have two : 2 ∣ doubleSpacing number := by
    rw [doubleSpacing]
    exact dvd_pow_self 2 (by omega)
  have even : 2 ∣ number := Nat.dvd_trans two (double.dvd large)
  have same : Nat.log 2 (number + 1) = Nat.log 2 number := by
    have nonzero : number ≠ 0 := by
      intro zero
      rw [zero] at large
      exact absurd large (by decide)
    apply Nat.log_eq_of_pow_le_of_lt_pow
    · exact Nat.le_succ_of_le (Nat.pow_log_le_self 2 nonzero)
    · have below := Nat.lt_pow_succ_log_self (b := 2) (by decide) number
      have next : 2 ∣ 2 ^ (Nat.log 2 number + 1) := dvd_pow_self 2 (by omega)
      omega
  have spacing : doubleSpacing (number + 1) = doubleSpacing number := by
    rw [doubleSpacing, doubleSpacing, same]
  have positive : 0 < doubleSpacing number := Nat.two_pow_pos _
  have above : 1 < doubleSpacing number :=
    Nat.lt_of_lt_of_le (by decide) (Nat.le_of_dvd positive two)
  have division : (number + 1) / doubleSpacing number = quotient := by
    nth_rewrite 1 [whole]
    rw [Nat.mul_add_div positive, Nat.div_eq_of_lt above, Nat.add_zero]
  have remainder : (number + 1) % doubleSpacing number = 1 := by
    nth_rewrite 1 [whole]
    rw [Nat.mul_add_mod, Nat.mod_eq_of_lt above]
  rw [roundDouble, if_neg (by omega)]
  dsimp only
  rw [spacing, division, remainder]
  rcases Nat.lt_or_ge number (2 ^ 54) with near | far
  · have log : Nat.log 2 number = 53 := by
      apply Nat.log_eq_of_pow_le_of_lt_pow large near
    have value : doubleSpacing number = 2 := by
      rw [doubleSpacing, log]
      rfl
    rw [value] at whole ⊢
    split <;> split <;> omega
  · have log : 54 ≤ Nat.log 2 number := Nat.le_log_of_pow_le (by decide) far
    have wide : 4 ≤ doubleSpacing number := by
      rw [doubleSpacing]
      calc
        4 = 2 ^ 2 := rfl
        _ ≤ _ := Nat.pow_le_pow_right (by decide) (by omega)
    rw [if_pos (.inl (by omega)), if_neg (by omega), Nat.mul_comm]
    exact whole.symm

/-- Where adding one to a double gives a larger double. -/
theorem lt_roundDouble_succ_iff (double : IsDouble number) :
    number < roundDouble (number + 1) ↔
      number < 2 ^ 53 ∨ number < 2 ^ 54 ∧ number % 4 = 2 := by
  rcases Nat.lt_or_ge number (2 ^ 53) with small | large
  · refine ⟨fun _ => .inl small, fun _ => ?_⟩
    rcases Nat.lt_or_ge (number + 1) (2 ^ 53) with below | reached
    · rw [roundDouble, if_pos below]
      exact Nat.lt_succ_self number
    · have edge : number + 1 = 1 * 2 ^ 53 := by omega
      have double : IsDouble (number + 1) := by
        rw [edge, show 1 * 2 ^ 53 = 2 ^ 52 * 2 ^ 1 by rfl]
        exact isDouble_scaled (Nat.le_refl _) (by decide) (by decide)
      rw [double]
      exact Nat.lt_succ_self number
  · rw [roundDouble_succ double large]
    split <;> omega

end Takos.Foundation

/-!
# Decimal numbers

A whole number in a text and the number that `parseInt` reads at the front of
a text, rounded to a double.
-/

namespace Takos.Foundation

/-- The decimal value of a row of digits, rounded; `none` is `NaN`. -/
def parseDigits (text : Text) : Option Nat :=
  match text.takeWhile Char.isDigit with
  | [] => none
  | digits => some (roundDouble (digits.foldl
      (fun value digit => 10 * value + (digit.toNat - '0'.toNat)) 0))

/-- `parseInt(text, 10)`. -/
def parseInt (text : Text) : Option Int :=
  match Text.trimStart text with
  | '-' :: rest => (parseDigits rest).map fun digits : Nat => -(digits : Int)
  | '+' :: rest => (parseDigits rest).map Int.ofNat
  | rest => (parseDigits rest).map Int.ofNat

def decimal : Int → Text
  | .ofNat number => Nat.toDigits 10 number
  | .negSucc number => '-' :: Nat.toDigits 10 (number + 1)

theorem parseDigits_double {text : Text} {number : Nat}
    (parsed : parseDigits text = some number) : IsDouble number := by
  unfold parseDigits at parsed
  split at parsed
  · cases parsed
  · rw [← Option.some.inj parsed]
    exact isDouble_roundDouble _

theorem digit_visible {char : Char} (digit : char.isDigit = true) :
    Text.isSpace char = false := by
  have range := Char.isDigit_iff_toNat.mp digit
  have low : 48 ≤ char.toNat := range.1
  have high : char.toNat ≤ 57 := range.2
  simp only [Text.isSpace, Bool.or_eq_false_iff, Bool.and_eq_false_iff,
    decide_eq_false_iff_not]
  omega

theorem mem_decimal {number : Int} {char : Char}
    (member : char ∈ decimal number) : char = '-' ∨ char.isDigit = true := by
  cases number with
  | ofNat number =>
      exact .inr (Nat.isDigit_of_mem_toDigits (by decide) (by decide) member)
  | negSucc number =>
      cases List.mem_cons.mp member with
      | inl sign => exact .inl sign
      | inr digit =>
          exact .inr (Nat.isDigit_of_mem_toDigits (by decide) (by decide) digit)

theorem decimal_visible {number : Int} {char : Char}
    (member : char ∈ decimal number) : Text.isSpace char = false := by
  cases mem_decimal member with
  | inl sign =>
      rw [sign]
      rfl
  | inr digit => exact digit_visible digit

theorem decimal_ne_nil (number : Int) : decimal number ≠ [] := by
  cases number with
  | ofNat number => exact Nat.toDigits_ne_nil
  | negSucc number => exact List.cons_ne_nil _ _

theorem parseDigits_toDigits {number : Nat} (small : number < 2 ^ 53) :
    parseDigits (Nat.toDigits 10 number) = some number := by
  have digits : ∀ char ∈ Nat.toDigits 10 number, char.isDigit = true :=
    fun char member =>
      Nat.isDigit_of_mem_toDigits (by decide) (by decide) member
  have whole := List.takeWhile_eq_self_iff.mpr digits
  have value := Nat.ofDigitChars_ten_toDigits (n := number)
  rw [Nat.ofDigitChars_eq_foldl] at value
  unfold parseDigits
  rw [whole]
  split
  · rename_i empty
    exact absurd empty Nat.toDigits_ne_nil
  · rw [value, isDouble_of_lt small]

theorem parseInt_decimal {number : Int} (small : number.natAbs < 2 ^ 53) :
    parseInt (decimal number) = some number := by
  cases number with
  | ofNat number =>
      have start : Text.trimStart (Nat.toDigits 10 number) =
          Nat.toDigits 10 number := by
        apply List.dropWhile_eq_self_iff.mpr
        intro nonempty
        have visible : Text.isSpace (Nat.toDigits 10 number)[0] = false :=
          digit_visible (Nat.isDigit_of_mem_toDigits (by decide) (by decide)
            (List.getElem_mem nonempty))
        simp [visible]
      have first : ∀ sign rest, Nat.toDigits 10 number = sign :: rest →
          sign.isDigit = true := by
        intro sign rest shape
        apply Nat.isDigit_of_mem_toDigits (b := 10) (by decide) (by decide)
        rw [shape]
        exact List.mem_cons_self
      unfold parseInt decimal
      dsimp only
      rw [start]
      split
      · rename_i rest shape
        exact absurd (first '-' rest shape) (by decide)
      · rename_i rest shape
        exact absurd (first '+' rest shape) (by decide)
      · have read : parseDigits (Nat.toDigits 10 number) = some number :=
          parseDigits_toDigits small
        rw [read]
        rfl
  | negSucc number =>
      have start : Text.trimStart ('-' :: Nat.toDigits 10 (number + 1)) =
          '-' :: Nat.toDigits 10 (number + 1) := rfl
      have read : parseDigits (Nat.toDigits 10 (number + 1)) =
          some (number + 1) := parseDigits_toDigits small
      unfold parseInt decimal
      rw [start]
      change (parseDigits (Nat.toDigits 10 (number + 1))).map _ = _
      rw [read]
      rfl

end Takos.Foundation
