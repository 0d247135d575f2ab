import Takos.Foundation.Bits
import Mathlib.Data.List.Count

/-!
# Canonical prefix codes

A canonical code is given by the code length of every symbol, zero for a symbol
without a code.  Codes of one length are consecutive and ordered by symbol, and
they start where the codes of the shorter lengths stop.
-/

namespace Takos.Foundation

/-- The first code of a length. -/
def firstCode (lengths : List Nat) : Nat → Nat
  | 0 => 0
  | length + 1 =>
    2 * (firstCode lengths length +
      if length = 0 then 0 else lengths.count length)

/-- `word` is the code of `symbol`, most significant bit first. -/
structure IsCode (lengths : List Nat) (symbol : Nat) (word : List Bool) :
    Prop where
  assigned : lengths[symbol]? = some word.length
  nonempty : word ≠ []
  value : codeOf word =
    firstCode lengths word.length + (lengths.take symbol).count word.length

instance (lengths : List Nat) (symbol : Nat) (word : List Bool) :
    Decidable (IsCode lengths symbol word) :=
  decidable_of_iff
    (lengths[symbol]? = some word.length ∧ word ≠ [] ∧
      codeOf word = firstCode lengths word.length +
        (lengths.take symbol).count word.length)
    ⟨fun ⟨assigned, nonempty, value⟩ => ⟨assigned, nonempty, value⟩,
      fun code => ⟨code.assigned, code.nonempty, code.value⟩⟩

namespace IsCode

variable {lengths : List Nat} {symbol : Nat} {word : List Bool}

theorem length_pos (code : IsCode lengths symbol word) : 0 < word.length :=
  List.length_pos_iff.mpr code.nonempty

theorem length_mem (code : IsCode lengths symbol word) :
    word.length ∈ lengths :=
  List.mem_of_getElem? code.assigned

end IsCode

theorem count_take_lt_count {lengths : List Nat} {symbol length : Nat}
    (assigned : lengths[symbol]? = some length) :
    (lengths.take symbol).count length < lengths.count length := by
  obtain ⟨inside, found⟩ := List.getElem?_eq_some_iff.mp assigned
  have split : lengths.take symbol ++ length :: lengths.drop (symbol + 1) =
      lengths := by
    rw [← found, ← List.drop_eq_getElem_cons inside, List.take_append_drop]
  have counted := congrArg (List.count length) split
  rw [List.count_append, List.count_cons_self] at counted
  omega

/-- A code word is above all codes that are as long as one of its prefixes. -/
theorem firstCode_add_count_le {lengths : List Nat} {symbol : Nat}
    {word : List Bool} (code : IsCode lengths symbol word)
    {seen : List Bool} (left : List Bool) (split : word = seen ++ left)
    (proper : left ≠ []) :
    firstCode lengths seen.length +
        (if seen.length = 0 then 0 else lengths.count seen.length) ≤
      codeOf seen := by
  induction left generalizing seen with
  | nil => exact absurd rfl proper
  | cons bit left ih =>
      have longer : word = (seen ++ [bit]) ++ left := by simpa using split
      have above : firstCode lengths (seen ++ [bit]).length ≤
          codeOf (seen ++ [bit]) := by
        cases left with
        | nil =>
            rw [List.append_nil] at longer
            rw [← longer, code.value]
            exact Nat.le_add_right _ _
        | cons next left =>
            have := ih longer (List.cons_ne_nil _ _)
            exact Nat.le_trans (Nat.le_add_right _ _) this
      rw [List.length_append, List.length_singleton, firstCode,
        codeOf_append_singleton] at above
      have := bit.toNat_le
      omega

/-- How many symbols have a shorter code than `length`. -/
def shorterCodes (lengths : List Nat) (length : Nat) : Nat :=
  lengths.countP fun other => decide (0 < other) && decide (other < length)

/-- The place of a symbol among those with a code, by length and number. -/
def codeSlot (lengths : List Nat) (symbol length : Nat) : Nat :=
  shorterCodes lengths length + (lengths.take symbol).count length

theorem shorterCodes_one (lengths : List Nat) : shorterCodes lengths 1 = 0 := by
  rw [shorterCodes, List.countP_eq_zero]
  intro other _
  simp only [Bool.and_eq_true, decide_eq_true_eq, not_and]
  omega

theorem shorterCodes_succ (lengths : List Nat) {length : Nat}
    (positive : 0 < length) :
    shorterCodes lengths (length + 1) =
      shorterCodes lengths length + lengths.count length := by
  induction lengths with
  | nil => rfl
  | cons other rest ih =>
      simp only [shorterCodes, List.countP_cons, List.count_cons,
        Bool.and_eq_true, decide_eq_true_eq, beq_iff_eq] at ih ⊢
      by_cases same : other = length
      · rw [if_pos ⟨by omega, by omega⟩, if_neg (by omega), if_pos same]
        omega
      · by_cases shorter : 0 < other ∧ other < length
        · rw [if_pos ⟨by omega, by omega⟩, if_pos shorter, if_neg same]
          omega
        · rw [if_neg (by omega), if_neg shorter, if_neg same]
          omega

theorem shorterCodes_mono (lengths : List Nat) {length longer : Nat}
    (below : length ≤ longer) :
    shorterCodes lengths length ≤ shorterCodes lengths longer := by
  apply List.countP_mono_left
  intro other _
  simp only [Bool.and_eq_true, decide_eq_true_eq, and_imp]
  omega

theorem codeSlot_lt_shorterCodes {lengths : List Nat} {symbol length : Nat}
    (assigned : lengths[symbol]? = some length) (used : length ≠ 0) :
    codeSlot lengths symbol length < shorterCodes lengths (length + 1) := by
  rw [shorterCodes_succ lengths (Nat.pos_of_ne_zero used), codeSlot]
  exact Nat.add_lt_add_left (count_take_lt_count assigned) _

theorem codeSlot_lt_length {lengths : List Nat} {symbol length : Nat}
    (assigned : lengths[symbol]? = some length) (used : length ≠ 0) :
    codeSlot lengths symbol length < lengths.length :=
  Nat.lt_of_lt_of_le (codeSlot_lt_shorterCodes assigned used)
    List.countP_le_length

theorem count_take_lt_of_lt {lengths : List Nat} {first second length : Nat}
    (assigned : lengths[first]? = some length) (before : first < second) :
    (lengths.take first).count length < (lengths.take second).count length := by
  have kept : (lengths.take second)[first]? = some length := by
    rw [List.getElem?_take_of_lt before, assigned]
  have counted := count_take_lt_count kept
  rwa [List.take_take, Nat.min_eq_left before.le] at counted

theorem codeSlot_lt_of_shorter {lengths : List Nat} {first second : Nat}
    {length longer : Nat} (assigned : lengths[first]? = some length)
    (used : length ≠ 0) (shorter : length < longer) :
    codeSlot lengths first length < codeSlot lengths second longer :=
  calc codeSlot lengths first length
      < shorterCodes lengths (length + 1) :=
        codeSlot_lt_shorterCodes assigned used
    _ ≤ shorterCodes lengths longer := shorterCodes_mono lengths shorter
    _ ≤ codeSlot lengths second longer := Nat.le_add_right _ _

theorem codeSlot_ne {lengths : List Nat} {first second : Nat}
    {firstLength secondLength : Nat}
    (assignedFirst : lengths[first]? = some firstLength)
    (assignedSecond : lengths[second]? = some secondLength)
    (usedFirst : firstLength ≠ 0) (usedSecond : secondLength ≠ 0)
    (before : first < second) :
    codeSlot lengths first firstLength ≠
      codeSlot lengths second secondLength := by
  rcases Nat.lt_trichotomy firstLength secondLength with less | same | more
  · exact (codeSlot_lt_of_shorter assignedFirst usedFirst less).ne
  · subst same
    have := count_take_lt_of_lt assignedFirst before
    simp only [codeSlot]
    omega
  · exact (codeSlot_lt_of_shorter assignedSecond usedSecond more).ne'

end Takos.Foundation
