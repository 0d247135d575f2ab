import Takos.Foundation.Utf8
import Mathlib.Data.List.Lex

/-!
# Orders of texts

Texts are compared unit by unit, over UTF-16 code units or over UTF-8 bytes.
A code whose units keep the order of a key makes both the lexicographic order
of the keys.  The two orders agree unless two texts first differ in a character
outside the basic plane and one of its last 8192 characters.
-/

namespace Takos.Foundation

section Code

variable {Item : Type}

/-- A code of items by words that compares like the keys of the items. -/
structure OrderedCode (code : Item → List Nat) (key : Item → Nat) : Prop where
  key_injective : Function.Injective key
  code_ne_nil : ∀ item, code item ≠ []
  ordered : ∀ {left right}, key left < key right →
    code left < code right ∧ ¬ code left <+: code right

theorem append_lt_append {left right : List Nat} (before : left < right)
    (apart : ¬ left <+: right) (leftMore rightMore : List Nat) :
    left ++ leftMore < right ++ rightMore := by
  induction left generalizing right with
  | nil => exact absurd List.nil_prefix apart
  | cons first left ih =>
      cases right with
      | nil => exact absurd before (List.not_lt_nil _)
      | cons other right =>
          rw [List.cons_append, List.cons_append, List.cons_lt_cons_iff]
          cases List.cons_lt_cons_iff.mp before with
          | inl less => exact .inl less
          | inr later =>
              obtain ⟨rfl, less⟩ := later
              refine .inr ⟨rfl, ih less ?_⟩
              intro front
              exact apart ((List.prefix_cons_inj first).mpr front)

theorem append_lt_append_left_iff (front : List Nat) {left right : List Nat} :
    front ++ left < front ++ right ↔ left < right := by
  induction front with
  | nil => rfl
  | cons first front ih =>
      rw [List.cons_append, List.cons_append, List.cons_lt_cons_iff]
      simp [ih]

variable {code : Item → List Nat} {key : Item → Nat}

theorem OrderedCode.flatMap_lt_iff (ordered : OrderedCode code key)
    (left right : List Item) :
    left.flatMap code < right.flatMap code ↔ left.map key < right.map key := by
  induction left generalizing right with
  | nil =>
      cases right with
      | nil => simp
      | cons item right =>
          obtain ⟨first, others, shape⟩ :=
            List.exists_cons_of_ne_nil (ordered.code_ne_nil item)
          simp [shape]
  | cons item left ih =>
      cases right with
      | nil => simp
      | cons other right =>
          rw [List.flatMap_cons, List.flatMap_cons, List.map_cons,
            List.map_cons, List.cons_lt_cons_iff]
          rcases Nat.lt_trichotomy (key item) (key other) with
            less | same | greater
          · obtain ⟨before, apart⟩ := ordered.ordered less
            have decided := append_lt_append before apart
              (left.flatMap code) (right.flatMap code)
            simp [decided, less]
          · obtain rfl := ordered.key_injective same
            rw [append_lt_append_left_iff, ih]
            simp
          · obtain ⟨before, apart⟩ := ordered.ordered greater
            have decided := append_lt_append before apart
              (right.flatMap code) (left.flatMap code)
            have different : key item ≠ key other := Nat.ne_of_gt greater
            have notLess : ¬ key item < key other := Nat.lt_asymm greater
            have opposite := List.lt_asymm decided
            simp [opposite, different, notLess]

theorem OrderedCode.flatMap_injective (ordered : OrderedCode code key) :
    Function.Injective fun items : List Item => items.flatMap code := by
  intro left right same
  have keys : left.map key = right.map key := by
    apply le_antisymm
    · rw [← not_lt, ← ordered.flatMap_lt_iff]
      exact fun less => absurd (lt_of_lt_of_eq less same) (lt_irrefl _)
    · rw [← not_lt, ← ordered.flatMap_lt_iff]
      exact fun less => absurd (lt_of_lt_of_eq less same.symm) (lt_irrefl _)
  exact List.map_injective_iff.mpr ordered.key_injective keys

end Code

namespace Utf8

theorem encodeChar_not_prefix {left right : Char} (different : left ≠ right) :
    ¬ encodeChar left <+: encodeChar right := by
  rintro ⟨rest, whole⟩
  have read := decode_encodeChar_append left rest
  have other := decode_encodeChar_append right []
  rw [List.append_nil, ← whole, read] at other
  exact different (List.cons.inj other).1

/-- A longer word starts with a larger byte; words of one length compare like
the codes that they spell. -/
theorem charBytes_lt {left right : Char} (less : left.toNat < right.toNat) :
    charBytes left < charBytes right := by
  have range := char_range right
  rw [charBytes_eq, charBytes_eq]
  dsimp only
  split
  · split
    · exact List.cons_lt_cons_iff.mpr (.inl less)
    split
    · exact List.cons_lt_cons_iff.mpr (.inl (by omega))
    split
    · exact List.cons_lt_cons_iff.mpr (.inl (by omega))
    · exact List.cons_lt_cons_iff.mpr (.inl (by omega))
  split
  · rw [if_neg (by omega)]
    split
    · simp only [List.cons_lt_cons_iff]
      omega
    split
    · exact List.cons_lt_cons_iff.mpr (.inl (by omega))
    · exact List.cons_lt_cons_iff.mpr (.inl (by omega))
  split
  · rw [if_neg (by omega), if_neg (by omega)]
    split
    · simp only [List.cons_lt_cons_iff]
      omega
    · exact List.cons_lt_cons_iff.mpr (.inl (by omega))
  · rw [if_neg (by omega), if_neg (by omega), if_neg (by omega)]
    simp only [List.cons_lt_cons_iff]
    omega

theorem toNat_injective : Function.Injective Char.toNat :=
  fun _ _ same => Char.toNat_inj.mp same

theorem orderedCode : OrderedCode charBytes Char.toNat where
  key_injective := toNat_injective
  code_ne_nil char := by
    obtain ⟨byte, bytes, shape, _⟩ := decodeChar_encodeChar char []
    rw [List.append_nil] at shape
    rw [charBytes, shape]
    exact List.cons_ne_nil _ _
  ordered := by
    intro left right less
    refine ⟨charBytes_lt less, fun front => ?_⟩
    have different : left ≠ right := fun same => by simp [same] at less
    exact encodeChar_not_prefix different
      ((List.prefix_map_iff_of_injective
        fun _ _ same => UInt8.toNat_inj.mp same).mp front)

def units (text : Text) : List Nat := (encode text).map UInt8.toNat

theorem units_eq (text : Text) : units text = text.flatMap charBytes := by
  rw [units, encode, List.map_flatMap]
  rfl

theorem units_lt_iff (left right : Text) :
    units left < units right ↔ left.map Char.toNat < right.map Char.toNat := by
  rw [units_eq, units_eq]
  exact orderedCode.flatMap_lt_iff left right

theorem units_injective : Function.Injective units := by
  intro left right same
  apply orderedCode.flatMap_injective
  rwa [units_eq, units_eq] at same

end Utf8

namespace Text

def charUnits (char : Char) : List Nat :=
  if char.toNat < 0x10000 then [char.toNat]
  else
    [0xD800 + (char.toNat - 0x10000) / 0x400,
      0xDC00 + (char.toNat - 0x10000) % 0x400]

/-- Surrogates put the characters outside the basic plane before its last 8192
characters. -/
def unitKey (char : Char) : Nat :=
  if char.toNat < 0xD800 then char.toNat
  else if char.toNat < 0x10000 then char.toNat + 0x100000
  else char.toNat - 0x10000 + 0xD800

theorem unitKey_cases (char : Char) :
    char.toNat < 0xD800 ∧ unitKey char = char.toNat ∨
      0xE000 ≤ char.toNat ∧ char.toNat < 0x10000 ∧
        unitKey char = char.toNat + 0x100000 ∨
      0x10000 ≤ char.toNat ∧ char.toNat < 0x110000 ∧
        unitKey char = char.toNat - 0x10000 + 0xD800 := by
  have range := Utf8.char_range char
  unfold unitKey
  split
  · omega
  · split <;> omega

theorem orderedCode : OrderedCode charUnits unitKey where
  key_injective := by
    intro left right same
    have leftKey := unitKey_cases left
    have rightKey := unitKey_cases right
    apply Utf8.toNat_injective
    omega
  code_ne_nil char := by
    unfold charUnits
    split <;> exact List.cons_ne_nil _ _
  ordered := by
    intro left right less
    have leftKey := unitKey_cases left
    have rightKey := unitKey_cases right
    unfold charUnits
    by_cases leftBasic : left.toNat < 0x10000
    · rw [if_pos leftBasic]
      by_cases rightBasic : right.toNat < 0x10000
      · have smaller : left.toNat < right.toNat := by omega
        rw [if_pos rightBasic]
        refine ⟨List.cons_lt_cons_iff.mpr (.inl smaller), fun front => ?_⟩
        have same := (List.cons_prefix_cons.mp front).1
        omega
      · have smaller : left.toNat < 0xD800 := by omega
        rw [if_neg rightBasic]
        refine ⟨List.cons_lt_cons_iff.mpr (.inl (by omega)), fun front => ?_⟩
        have same := (List.cons_prefix_cons.mp front).1
        omega
    · rw [if_neg leftBasic]
      by_cases rightBasic : right.toNat < 0x10000
      · have larger : 0xE000 ≤ right.toNat := by omega
        rw [if_pos rightBasic]
        refine ⟨List.cons_lt_cons_iff.mpr (.inl (by omega)), fun front => ?_⟩
        have same := (List.cons_prefix_cons.mp front).1
        omega
      · have smaller : left.toNat < right.toNat := by omega
        rw [if_neg rightBasic]
        refine ⟨?_, fun front => ?_⟩
        · simp only [List.cons_lt_cons_iff]
          omega
        · have high := List.cons_prefix_cons.mp front
          have low := (List.cons_prefix_cons.mp high.2).1
          have same := high.1
          omega

theorem unitsLt_iff {left right : List Nat} :
    unitsLt left right = true ↔ left < right := by
  induction left generalizing right with
  | nil => cases right <;> simp [unitsLt]
  | cons first left ih =>
      cases right with
      | nil => simp [unitsLt]
      | cons other right =>
          rw [unitsLt, List.cons_lt_cons_iff]
          split
          · rename_i less
            simp [less]
          · rename_i notLess
            split
            · rename_i greater
              have different : first ≠ other := Nat.ne_of_gt greater
              simp [notLess, different]
            · have same : first = other := by omega
              simp [same, ih]

theorem lt_iff_keys (left right : Text) :
    lt left right = true ↔ left.map unitKey < right.map unitKey := by
  rw [lt, unitsLt_iff]
  exact orderedCode.flatMap_lt_iff left right

theorem size_eq_length {text : Text}
    (basic : ∀ char ∈ text, char.toNat < 0x10000) :
    text.size = text.length := by
  induction text with
  | nil => rfl
  | cons char text ih =>
      have first : size [char] = 1 := by
        simp only [size, codeUnits, List.flatMap_singleton]
        rw [if_pos (basic char List.mem_cons_self)]
        rfl
      have rest := ih fun char member => basic char (List.mem_cons_of_mem _ member)
      have whole := size_append [char] text
      rw [List.singleton_append, first, rest] at whole
      rw [whole, List.length_cons, Nat.add_comm]

/-- The texts first differ where the one has a character outside the basic plane
and the other one of the last characters of the plane. -/
def Crossing (left right : Text) : Prop :=
  ∃ common char other leftRest rightRest,
    left = common ++ char :: leftRest ∧ right = common ++ other :: rightRest ∧
      0x10000 ≤ char.toNat ∧ 0xE000 ≤ other.toNat ∧ other.toNat < 0x10000

theorem Crossing.cons {left right : Text} (first : Char)
    (crossing : Crossing left right) :
    Crossing (first :: left) (first :: right) := by
  obtain ⟨common, char, other, leftRest, rightRest, rfl, rfl, range⟩ := crossing
  exact ⟨first :: common, char, other, leftRest, rightRest, rfl, rfl, range⟩

theorem unitKey_lt_iff {left right : Char}
    (plain : ¬(0x10000 ≤ left.toNat ∧ 0xE000 ≤ right.toNat ∧
      right.toNat < 0x10000))
    (reversed : ¬(0x10000 ≤ right.toNat ∧ 0xE000 ≤ left.toNat ∧
      left.toNat < 0x10000)) :
    unitKey left < unitKey right ↔ left.toNat < right.toNat := by
  have leftKey := unitKey_cases left
  have rightKey := unitKey_cases right
  omega

/-- Elsewhere code units and bytes give the same order. -/
theorem lt_iff_units {left right : Text} (plain : ¬Crossing left right)
    (reversed : ¬Crossing right left) :
    lt left right = true ↔ Utf8.units left < Utf8.units right := by
  rw [lt_iff_keys, Utf8.units_lt_iff]
  induction left generalizing right with
  | nil => cases right <;> simp
  | cons first left ih =>
      cases right with
      | nil => simp
      | cons other right =>
          rw [List.map_cons, List.map_cons, List.map_cons, List.map_cons,
            List.cons_lt_cons_iff, List.cons_lt_cons_iff]
          by_cases same : first = other
          · rw [same] at plain reversed ⊢
            have rest := ih (fun crossing => plain (crossing.cons other))
              (fun crossing => reversed (crossing.cons other))
            simp [rest]
          · have keys : unitKey first ≠ unitKey other :=
              fun equal => same (orderedCode.key_injective equal)
            have codes : first.toNat ≠ other.toNat :=
              fun equal => same (Utf8.toNat_injective equal)
            have first := unitKey_lt_iff
              (fun range => plain
                ⟨[], first, other, left, right, rfl, rfl, range⟩)
              (fun range => reversed
                ⟨[], other, first, right, left, rfl, rfl, range⟩)
            simp [keys, codes, first]

end Text

end Takos.Foundation
