import Mathlib.Algebra.Order.Group.Basic
import Mathlib.Data.List.Basic

/-!
# Sliding windows over a log of times

A log admits a new time when fewer than `limit` of its times lie in the window
that ends there.  No interval shorter than the window then holds more than
`limit` times.  A pruned log serves as well as the full one as long as both
have the same times in every window that is still to come.
-/

namespace Takos.Foundation.SlidingWindow

variable {Time : Type*} [AddCommGroup Time] [LinearOrder Time]

/-- The times of the log after `now - window`. -/
def live (window now : Time) (log : List Time) : List Time :=
  log.filter fun time => now - window < time

theorem live_append (window now : Time) (log added : List Time) :
    live window now (log ++ added) =
      live window now log ++ live window now added :=
  List.filter_append log added

/-- The kept times and the full log agree in the window that ends `now`. -/
def Covers (window now : Time) (kept log : List Time) : Prop :=
  live window now kept = live window now log

section Pruning

variable [IsOrderedAddMonoid Time]

theorem live_live {window earlier later : Time} (order : earlier ≤ later)
    (log : List Time) :
    live window later (live window earlier log) = live window later log := by
  rw [live, live, live, List.filter_filter]
  apply List.filter_congr
  intro time _
  rw [Bool.and_eq_left_iff_imp, decide_eq_true_eq, decide_eq_true_eq]
  intro after
  exact lt_of_le_of_lt (sub_le_sub_right order window) after

theorem Covers.later {window earlier later : Time} {kept log : List Time}
    (order : earlier ≤ later) (covers : Covers window earlier kept log) :
    Covers window later kept log := by
  rw [Covers, ← live_live order kept, covers, live_live order log]

end Pruning

variable {log : List Time} {window : Time}

theorem Covers.append {now : Time} {kept : List Time}
    (covers : Covers window now kept log) (added : List Time) :
    Covers window now (kept ++ added) (log ++ added) := by
  rw [Covers, live_append, live_append, covers]

theorem Covers.prune {now : Time} {kept : List Time}
    (covers : Covers window now kept log) (keep : Time → Bool)
    (spared : ∀ time ∈ kept, now - window < time → keep time = true) :
    Covers window now (kept.filter keep) log := by
  rw [Covers, ← covers, live, live, List.filter_filter]
  apply List.filter_congr
  intro time member
  rw [Bool.and_eq_left_iff_imp, decide_eq_true_eq]
  exact spared time member

/-- Every time of the log found fewer than `limit` times in its window. -/
inductive Admitted (limit : Nat) (window : Time) : List Time → Prop where
  | nil : Admitted limit window []
  | snoc {log : List Time} {now : Time} :
      Admitted limit window log → (∀ time ∈ log, time ≤ now) →
      (live window now log).length < limit →
      Admitted limit window (log ++ [now])

/-- A set of times that lie less than a window apart holds at most `limit`
admitted times. -/
theorem Admitted.length_le {limit : Nat}
    (admitted : Admitted limit window log) (inside : Time → Bool)
    (short : ∀ left right, inside left = true → inside right = true →
      right - window < left) : (log.filter inside).length ≤ limit := by
  induction admitted with
  | nil => exact Nat.zero_le limit
  | @snoc log now admitted before few ih =>
      rw [List.filter_append]
      by_cases last : inside now = true
      · have within : (log.filter inside).length ≤
            (live window now log).length := by
          apply List.Sublist.length_le
          apply List.monotone_filter_right
          intro time found
          exact decide_eq_true (short time now found last)
        rw [List.filter_cons_of_pos last, List.filter_nil, List.length_append,
          List.length_singleton]
        omega
      · rw [List.filter_cons_of_neg last, List.filter_nil, List.append_nil]
        exact ih

variable [IsOrderedAddMonoid Time]

theorem Admitted.from_le {limit : Nat} (admitted : Admitted limit window log)
    (start : Time) :
    (log.filter fun time => start ≤ time ∧ time < start + window).length ≤
      limit := by
  apply admitted.length_le
  intro left right first second
  simp only [decide_eq_true_eq] at first second
  exact lt_of_lt_of_le (sub_lt_iff_lt_add.mpr second.2) first.1

theorem Admitted.until_le {limit : Nat} (admitted : Admitted limit window log)
    (start : Time) :
    (log.filter fun time => start < time ∧ time ≤ start + window).length ≤
      limit := by
  apply admitted.length_le
  intro left right first second
  simp only [decide_eq_true_eq] at first second
  exact lt_of_le_of_lt (sub_le_iff_le_add.mpr second.2) first.1

end Takos.Foundation.SlidingWindow
