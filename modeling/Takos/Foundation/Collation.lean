import Takos.Foundation.Text
import Mathlib.Data.List.Sort
import Mathlib.Data.List.Lex
import Mathlib.Data.Char

/-!
# Locale comparison of strings

`localeCompare` belongs to the host.  A collation is any total preorder in
which a text comes before every text that extends it by a slash.
-/

namespace Takos.Foundation

structure Collation where
  localeCompare : Text → Text → Ordering
  swap : ∀ left right, localeCompare right left = (localeCompare left right).swap
  trans : ∀ first second third, localeCompare first second ≠ .gt →
    localeCompare second third ≠ .gt → localeCompare first third ≠ .gt
  slash : ∀ front back, localeCompare front (front ++ '/' :: back) = .lt

namespace Collation

variable {Item : Type}

/-- `items.sort((a, b) => key(a).localeCompare(key(b)))`, which is stable. -/
def sortBy (collation : Collation) (key : Item → Text) (items : List Item) :
    List Item :=
  items.insertionSort fun left right =>
    collation.localeCompare (key left) (key right) ≠ .gt

theorem sortBy_perm (collation : Collation) (key : Item → Text)
    (items : List Item) : (collation.sortBy key items).Perm items :=
  List.perm_insertionSort _ items

theorem sortBy_sorted (collation : Collation) (key : Item → Text)
    (items : List Item) :
    (collation.sortBy key items).Pairwise fun left right =>
      collation.localeCompare (key left) (key right) ≠ .gt := by
  let before : Item → Item → Prop := fun left right =>
    collation.localeCompare (key left) (key right) ≠ .gt
  have total : Std.Total before := by
    constructor
    intro left right
    by_cases less : collation.localeCompare (key left) (key right) = .gt
    · right
      simp only [before, collation.swap (key left) (key right), less]
      decide
    · exact .inl less
  have transitive : IsTrans Item before :=
    ⟨fun _ _ _ => collation.trans _ _ _⟩
  exact List.pairwise_insertionSort before items

theorem slash_not_after (collation : Collation) {left : Text} {back : Text} :
    collation.localeCompare (left ++ '/' :: back) left = .gt := by
  rw [collation.swap left, collation.slash]
  rfl

section Order

variable [LinearOrder Item]

/-- Comparison in a linear order. -/
def orderCompare (left right : Item) : Ordering := cmp left right

theorem orderCompare_swap (left right : Item) :
    orderCompare right left = (orderCompare left right).swap :=
  (cmp_swap left right).symm

theorem orderCompare_ne_gt_iff (left right : Item) :
    orderCompare left right ≠ .gt ↔ left ≤ right := by
  rw [← not_lt, orderCompare, ne_eq, cmp_eq_gt_iff]

theorem orderCompare_eq_lt_iff (left right : Item) :
    orderCompare left right = .lt ↔ left < right :=
  cmp_eq_lt_iff left right

end Order

end Collation

open Collation in
/-- Comparison character by character. -/
def charCollation : Collation where
  localeCompare left right := orderCompare left right
  swap := orderCompare_swap
  trans := by
    intro first second third before after
    rw [orderCompare_ne_gt_iff] at before after ⊢
    exact before.trans after
  slash := by
    intro front back
    rw [orderCompare_eq_lt_iff]
    have shorter : List.Lex (· < ·) ([] : Text) ('/' :: back) := .nil
    have below := List.Lex.append_left (· < ·) shorter front
    rw [List.append_nil] at below
    exact below

end Takos.Foundation
