import Takos.Foundation.Text

/-!
# Patterns of the operator `LIKE`

`%` stands for any text, `_` for one character, and a character after the
escape character for itself.  Letters of ASCII are compared without case.
-/

namespace Takos.Foundation

/-- Two texts agree up to the case of ASCII letters on the length of the
first. -/
def SamePrefix (front text : Text) : Prop :=
  front.map Char.toLower <+: text.map Char.toLower

instance (front text : Text) : Decidable (SamePrefix front text) :=
  inferInstanceAs (Decidable (_ <+: _))

/-- `SUBSTR(text, start)` for a positive start. -/
def substr (text : Text) (start : Nat) : Text := text.drop (start - 1)

namespace LikePattern

inductive Sign where
  | anyText
  | anyChar
  | literal (char : Char)
  | dangling

def plainSign (char : Char) : Sign :=
  if char = '%' then .anyText
  else if char = '_' then .anyChar
  else .literal char

def signs (escape : Char) : Text → List Sign
  | [] => []
  | [last] => if last = escape then [.dangling] else [plainSign last]
  | char :: next :: rest =>
    if char = escape then .literal next :: signs escape rest
    else plainSign char :: signs escape (next :: rest)

def matchSigns : List Sign → Text → Bool
  | [], text => text.isEmpty
  | .anyText :: signs, text => text.tails.any (matchSigns signs)
  | .anyChar :: _, [] => false
  | .anyChar :: signs, _ :: text => matchSigns signs text
  | .literal _ :: _, [] => false
  | .literal char :: signs, other :: text =>
    char.toLower == other.toLower && matchSigns signs text
  | .dangling :: _, _ => false

/-- `text LIKE pattern ESCAPE escape`. -/
def like (escape : Char) (text pattern : Text) : Bool :=
  matchSigns (signs escape pattern) text

theorem signs_escaped (escape char : Char) (rest : Text) :
    signs escape (escape :: char :: rest) =
      .literal char :: signs escape rest := by
  simp [signs]

theorem signs_plain {escape char : Char} (plain : char ≠ escape)
    (rest : Text) :
    signs escape (char :: rest) = plainSign char :: signs escape rest := by
  cases rest with
  | nil | cons => simp [signs, plain]

theorem matchSigns_anyText (text : Text) :
    matchSigns [.anyText] text = true := by
  rw [matchSigns, List.any_eq_true]
  exact ⟨[], by simp, rfl⟩

theorem matchSigns_literals (front text : Text) :
    matchSigns (front.map .literal ++ [.anyText]) text = true ↔
      SamePrefix front text := by
  induction front generalizing text with
  | nil => simp [matchSigns_anyText, SamePrefix]
  | cons char front ih =>
      cases text with
      | nil => simp [matchSigns, SamePrefix]
      | cons other text =>
          have tail := ih text
          simp only [SamePrefix] at tail
          simp [matchSigns, SamePrefix, List.cons_prefix_cons, tail]

end LikePattern

namespace SamePrefix

theorem of_prefix {front text : Text} (starts : front <+: text) :
    SamePrefix front text :=
  starts.map Char.toLower

theorem length_le {front text : Text} (same : SamePrefix front text) :
    front.length ≤ text.length := by
  have shorter := List.IsPrefix.length_le same
  simpa using shorter

end SamePrefix

end Takos.Foundation
