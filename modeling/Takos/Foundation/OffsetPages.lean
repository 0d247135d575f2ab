import Mathlib.Data.List.Sort
import Mathlib.Data.List.Infix
import Mathlib.Order.Defs.LinearOrder

/-!
# Pages by offset

A list is sorted anew for every page, and a page begins at the number of items
that were listed before.  What was listed stays in front of the list as long as
it changes only after these items.
-/

namespace Takos.Foundation

variable {Item : Type*}

/-- The place of a position, which counts from the end when it is negative. -/
def relativeIndex (length : Nat) (position : Int) : Nat :=
  if position < 0 then (length + position).toNat else min position.toNat length

/-- `items.slice(start, stop)`. -/
def slice (items : List Item) (start stop : Int) : List Item :=
  (items.drop (relativeIndex items.length start)).take
    (relativeIndex items.length stop - relativeIndex items.length start)

theorem slice_sublist (items : List Item) (start stop : Int) :
    (slice items start stop).Sublist items :=
  (List.take_sublist _ _).trans (List.drop_sublist _ _)

theorem drop_relativeIndex (items : List Item) (start : Nat) :
    items.drop (relativeIndex items.length start) = items.drop start := by
  unfold relativeIndex
  rw [if_neg (by omega), Int.toNat_natCast]
  rcases Nat.le_total start items.length with within | beyond
  · rw [Nat.min_eq_left within]
  · rw [Nat.min_eq_right beyond, List.drop_length,
      List.drop_eq_nil_of_le beyond]

theorem front_slice {items front : List Item} (listed : front <+: items)
    (stop : Int) : front ++ slice items front.length stop <+: items := by
  obtain ⟨rest, whole⟩ := listed
  unfold slice
  rw [drop_relativeIndex, ← whole, List.drop_left]
  exact (List.prefix_append_right_inj front).mpr (List.take_prefix _ _)

theorem slice_within (items : List Item) {start stop : Nat}
    (order : stop ≤ items.length) :
    slice items start stop = (items.drop start).take (stop - start) := by
  unfold slice
  rw [drop_relativeIndex]
  unfold relativeIndex
  rw [if_neg (by omega), if_neg (by omega), Int.toNat_natCast,
    Int.toNat_natCast, Nat.min_eq_left order]
  rcases Nat.le_total start items.length with within | beyond
  · rw [Nat.min_eq_left within]
  · rw [List.drop_eq_nil_of_le beyond, List.take_nil, List.take_nil]

section Sorting

variable {before : Item → Item → Prop} [DecidableRel before]

theorem filter_orderedInsert [IsTrans Item before] (kept : Item → Bool)
    (item : Item) {items : List Item} (sorted : items.Pairwise before) :
    (items.orderedInsert before item).filter kept =
      if kept item then (items.filter kept).orderedInsert before item
      else items.filter kept := by
  induction items with
  | nil =>
      rw [List.orderedInsert_nil, List.filter_cons]
      rfl
  | cons first items ih =>
      obtain ⟨least, later⟩ := List.pairwise_cons.mp sorted
      by_cases less : before item first
      · rw [List.orderedInsert_cons_of_le before items less]
        by_cases staying : kept item = true
        · rw [List.filter_cons_of_pos staying, if_pos staying]
          cases shape : (first :: items).filter kept with
          | nil => rfl
          | cons next rest =>
              have member : next ∈ first :: items := by
                apply List.mem_of_mem_filter (p := kept)
                rw [shape]
                exact List.mem_cons_self
              have order : before item next := by
                rcases List.mem_cons.mp member with same | member
                · rw [same]
                  exact less
                · exact IsTrans.trans _ _ _ less (least next member)
              exact (List.orderedInsert_cons_of_le before rest order).symm
        · rw [List.filter_cons_of_neg staying, if_neg staying]
      · rw [List.orderedInsert_of_not_le before items less, List.filter_cons,
          List.filter_cons, ih later]
        by_cases first_kept : kept first = true
        · rw [if_pos first_kept, if_pos first_kept]
          split
          · exact (List.orderedInsert_of_not_le before _ less).symm
          · rfl
        · rw [if_neg first_kept, if_neg first_kept]

theorem filter_insertionSort [Std.Total before] [IsTrans Item before]
    (kept : Item → Bool) (items : List Item) :
    (items.insertionSort before).filter kept =
      (items.filter kept).insertionSort before := by
  induction items with
  | nil => rfl
  | cons item items ih =>
      rw [List.insertionSort_cons, filter_orderedInsert kept item
        (List.pairwise_insertionSort before items), ih, List.filter_cons]
      split <;> rfl

omit [DecidableRel before] in
/-- What is left out of a sorted list and comes after its front does not move
the front. -/
theorem front_of_filter {items front : List Item} {kept : Item → Bool}
    (sorted : items.Pairwise before) (listed : front <+: items.filter kept)
    (later : ∀ known ∈ front, ∀ item, ¬kept item = true →
      ¬before item known) : front <+: items := by
  induction items generalizing front with
  | nil => exact listed
  | cons item items ih =>
      obtain ⟨least, rest⟩ := List.pairwise_cons.mp sorted
      cases front with
      | nil => exact List.nil_prefix
      | cons known front =>
          by_cases staying : kept item = true
          · rw [List.filter_cons_of_pos staying] at listed
            obtain ⟨same, listed⟩ := List.cons_prefix_cons.mp listed
            rw [same]
            apply (List.prefix_cons_inj item).mpr
            apply ih rest listed
            exact fun other member => later other (List.mem_cons_of_mem _ member)
          · rw [List.filter_cons_of_neg staying] at listed
            have member : known ∈ items.filter kept :=
              listed.subset List.mem_cons_self
            have order := least known (List.mem_of_mem_filter member)
            exact absurd order (later known List.mem_cons_self item staying)

theorem front_stays [Std.Total before] [IsTrans Item before]
    {items changed front : List Item} {kept : Item → Bool}
    (same : items.filter kept = changed.filter kept)
    (listed : front <+: items.insertionSort before)
    (later : ∀ known ∈ front, ∀ item, ¬kept item = true →
      ¬before item known) : front <+: changed.insertionSort before := by
  apply front_of_filter (List.pairwise_insertionSort before changed) _ later
  rw [filter_insertionSort, ← same, ← filter_insertionSort]
  have untouched : front.filter kept = front := by
    apply List.filter_eq_self.mpr
    intro known member
    by_contra touched
    have reflexive : before known known :=
      (Std.Total.total known known).elim id id
    exact later known member known touched reflexive
  have kept := listed.filter kept
  rwa [untouched] at kept

end Sorting

end Takos.Foundation
