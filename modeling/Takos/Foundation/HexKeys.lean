import Takos.Foundation.Text
import Mathlib.Data.Char
import Mathlib.Data.List.Lex
import Mathlib.Tactic.Ring

/-!
# Hexadecimal numbers of a fixed width

Written with leading zeros, numbers compare as texts the way they compare as
numbers, also when other text follows them.
-/

namespace Takos.Foundation.HexKeys

/-- The digits that `toString(16)` writes. -/
def isHexDigit (char : Char) : Bool :=
  char.isDigit || ('a' ≤ char && char ≤ 'f')

def digitValue (char : Char) : Nat :=
  if char.isDigit then char.toNat - 48 else char.toNat - 87

def value (digits : Text) : Nat :=
  digits.foldl (fun number digit => 16 * number + digitValue digit) 0

def padHex (width number : Nat) : Text :=
  Text.padStart width '0' (Nat.toDigits 16 number)

theorem digitChar_hex : ∀ digit < 16,
    isHexDigit (Nat.digitChar digit) = true ∧
      digitValue (Nat.digitChar digit) = digit := by
  decide

theorem toDigits_hex (number : Nat) :
    (∀ char ∈ Nat.toDigits 16 number, isHexDigit char = true) ∧
      value (Nat.toDigits 16 number) = number := by
  induction number using Nat.strongRecOn with
  | ind number ih =>
      rw [Nat.toDigits_eq_if (by decide)]
      split
      · rename_i small
        obtain ⟨digit, back⟩ := digitChar_hex number small
        refine ⟨?_, ?_⟩
        · intro char member
          rw [List.mem_singleton.mp member]
          exact digit
        · rw [value, List.foldl_cons, List.foldl_nil, back, Nat.mul_zero,
            Nat.zero_add]
      · rename_i large
        obtain ⟨digits, front⟩ := ih (number / 16) (by omega)
        obtain ⟨digit, back⟩ :=
          digitChar_hex (number % 16) (Nat.mod_lt _ (by decide))
        refine ⟨?_, ?_⟩
        · intro char member
          rcases List.mem_append.mp member with earlier | last
          · exact digits char earlier
          · rw [List.mem_singleton.mp last]
            exact digit
        · rw [value] at front ⊢
          rw [List.foldl_append, front, List.foldl_cons, List.foldl_nil, back]
          exact Nat.div_add_mod number 16

theorem hexDigit_toNat {char : Char} (digit : isHexDigit char = true) :
    48 ≤ char.toNat ∧ char.toNat ≤ 57 ∧ digitValue char = char.toNat - 48 ∨
      97 ≤ char.toNat ∧ char.toNat ≤ 102 ∧
        digitValue char = char.toNat - 87 := by
  unfold digitValue
  by_cases decimal : char.isDigit = true
  · have range := decimal
    simp only [Char.isDigit, Bool.and_eq_true, decide_eq_true_eq] at range
    exact .inl ⟨range.1, range.2, if_pos decimal⟩
  · rw [isHexDigit, Bool.or_eq_true] at digit
    rcases digit with old | letter
    · exact absurd old decimal
    · rw [Bool.and_eq_true, decide_eq_true_eq, decide_eq_true_eq] at letter
      exact .inr ⟨letter.1, letter.2, if_neg decimal⟩

theorem digitValue_lt {char : Char} (digit : isHexDigit char = true) :
    digitValue char < 16 := by
  rcases hexDigit_toNat digit with ⟨_, _, _⟩ | ⟨_, _, _⟩ <;> omega

theorem digitValue_lt_of_lt {left right : Char}
    (leftDigit : isHexDigit left = true) (rightDigit : isHexDigit right = true)
    (less : left < right) : digitValue left < digitValue right := by
  have order : left.toNat < right.toNat := less
  rcases hexDigit_toNat leftDigit with ⟨_, _, _⟩ | ⟨_, _, _⟩ <;>
    rcases hexDigit_toNat rightDigit with ⟨_, _, _⟩ | ⟨_, _, _⟩ <;> omega

theorem foldl_value (digits : Text) (start : Nat) :
    digits.foldl (fun number digit => 16 * number + digitValue digit) start =
      start * 16 ^ digits.length + value digits := by
  induction digits generalizing start with
  | nil => simp [value]
  | cons digit rest ih =>
      rw [value, List.foldl_cons, List.foldl_cons, ih, ih, List.length_cons,
        Nat.pow_succ]
      ring

theorem value_cons (digit : Char) (rest : Text) :
    value (digit :: rest) = digitValue digit * 16 ^ rest.length + value rest := by
  rw [value, List.foldl_cons, foldl_value, Nat.mul_zero, Nat.zero_add]

theorem value_lt {digits : Text}
    (hex : ∀ char ∈ digits, isHexDigit char = true) :
    value digits < 16 ^ digits.length := by
  induction digits with
  | nil => exact Nat.one_pos
  | cons digit rest ih =>
      have later := ih fun char member =>
        hex char (List.mem_cons_of_mem _ member)
      have first := digitValue_lt (hex digit List.mem_cons_self)
      rw [value_cons, List.length_cons, Nat.pow_succ]
      calc
        digitValue digit * 16 ^ rest.length + value rest <
            digitValue digit * 16 ^ rest.length + 16 ^ rest.length :=
          Nat.add_lt_add_left later _
        _ = (digitValue digit + 1) * 16 ^ rest.length := by ring
        _ ≤ 16 * 16 ^ rest.length := Nat.mul_le_mul_right _ first
        _ = 16 ^ rest.length * 16 := Nat.mul_comm _ _

theorem cons_le_cases {first other : Char} {rest more : Text}
    (less : first :: rest ≤ other :: more) :
    first < other ∨ first = other ∧ rest ≤ more := by
  rcases lt_trichotomy first other with before | same | after
  · exact .inl before
  · subst same
    refine .inr ⟨rfl, not_lt.mp ?_⟩
    intro greater
    exact absurd (List.Lex.cons greater) (not_lt.mpr less)
  · exact absurd (List.Lex.rel after) (not_lt.mpr less)

theorem le_of_cons_le_cons {first : Char} {rest more : Text}
    (less : first :: rest ≤ first :: more) : rest ≤ more := by
  rcases cons_le_cases less with before | ⟨_, later⟩
  · exact absurd before (lt_irrefl first)
  · exact later

/-- Keys that begin with numbers of one width compare like the numbers. -/
theorem value_le_of_le {left right leftRest rightRest : Text}
    (leftHex : ∀ char ∈ left, isHexDigit char = true)
    (rightHex : ∀ char ∈ right, isHexDigit char = true)
    (width : left.length = right.length)
    (less : left ++ leftRest ≤ right ++ rightRest) :
    value left ≤ value right := by
  induction left generalizing right with
  | nil =>
      rw [List.length_nil] at width
      rw [List.length_eq_zero_iff.mp width.symm]
  | cons first rest ih =>
      cases right with
      | nil => cases width
      | cons other more =>
          have lengths : rest.length = more.length := by
            simpa using width
          have restHex : ∀ char ∈ rest, isHexDigit char = true :=
            fun char member => leftHex char (List.mem_cons_of_mem _ member)
          have moreHex : ∀ char ∈ more, isHexDigit char = true :=
            fun char member => rightHex char (List.mem_cons_of_mem _ member)
          rw [List.cons_append, List.cons_append] at less
          rw [value_cons, value_cons, lengths]
          rcases cons_le_cases less with before | ⟨same, later⟩
          · have digits := digitValue_lt_of_lt
              (leftHex first List.mem_cons_self)
              (rightHex other List.mem_cons_self) before
            have bound := value_lt restHex
            rw [lengths] at bound
            calc
              digitValue first * 16 ^ more.length + value rest ≤
                  (digitValue first + 1) * 16 ^ more.length := by
                rw [Nat.succ_mul]
                omega
              _ ≤ digitValue other * 16 ^ more.length :=
                Nat.mul_le_mul_right _ digits
              _ ≤ _ := Nat.le_add_right _ _
          · rw [same]
            exact Nat.add_le_add_left (ih restHex moreHex lengths later) _

theorem size_of_hex {digits : Text}
    (hex : ∀ char ∈ digits, isHexDigit char = true) :
    Text.size digits = digits.length := by
  rw [Text.size, Text.codeUnits]
  induction digits with
  | nil => rfl
  | cons digit rest ih =>
      have small : digit.toNat < 0x10000 := by
        rcases hexDigit_toNat (hex digit List.mem_cons_self) with
          ⟨_, _, _⟩ | ⟨_, _, _⟩ <;> omega
      rw [List.flatMap_cons, if_pos small, List.length_append,
        ih fun char member => hex char (List.mem_cons_of_mem _ member)]
      exact Nat.add_comm 1 _

theorem padHex_hex (width number : Nat) :
    ∀ char ∈ padHex width number, isHexDigit char = true := by
  intro char member
  rcases List.mem_append.mp member with zero | digit
  · rw [List.eq_of_mem_replicate zero]
    rfl
  · exact (toDigits_hex number).1 char digit

theorem length_padHex {width number : Nat} (positive : 0 < width)
    (small : number < 16 ^ width) : (padHex width number).length = width := by
  have fits := (Nat.length_toDigits_le_iff (by decide) positive).mpr small
  rw [padHex, Text.padStart, size_of_hex (toDigits_hex number).1,
    List.length_append, List.length_replicate]
  omega

theorem value_padHex (width number : Nat) :
    value (padHex width number) = number := by
  have zeros : ∀ count : Nat, (List.replicate count '0').foldl
      (fun number digit => 16 * number + digitValue digit) 0 = 0 := by
    intro count
    induction count with
    | zero => rfl
    | succ count ih => exact ih
  have read := (toDigits_hex number).2
  rw [value] at read ⊢
  rw [padHex, Text.padStart, List.foldl_append, zeros, read]

end Takos.Foundation.HexKeys
