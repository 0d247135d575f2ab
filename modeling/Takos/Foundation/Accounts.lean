import Takos.Foundation.Interleaving
import Mathlib.Algebra.BigOperators.Group.List.Basic
import Mathlib.Algebra.Order.Group.Int
import Mathlib.Tactic.Linarith

/-!
# Accounts of interleaved calls

An account gives a number to the shared state, to each call in progress and to
each result.  A balance that no step lowers is never below its start, and one
that no step changes stays as it was.
-/

namespace Takos.Foundation

namespace Program

universe u v w

variable {Shared : Type u} {Call : Type v} {Result : Type w}

structure Account (Shared : Type u) (Call : Type v) (Result : Type w) where
  shared : Shared → ℤ
  call : Call → ℤ
  result : Result → ℤ

namespace Account

variable (account : Account Shared Call Result)

def balance (config : Config Shared Call Result) : ℤ :=
  account.shared config.shared + (config.calls.map account.call).sum +
    (config.results.map account.result).sum

def outcome : Outcome Call Result → ℤ
  | .next rest => account.call rest
  | .done result => account.result result

def negated : Account Shared Call Result where
  shared state := -account.shared state
  call call := -account.call call
  result result := -account.result result

theorem sum_map_neg {Item : Type v} (value : Item → ℤ) (items : List Item) :
    (items.map fun item => -value item).sum = -(items.map value).sum := by
  induction items with
  | nil => rfl
  | cons item rest ih =>
      rw [List.map_cons, List.sum_cons, ih, List.map_cons, List.sum_cons,
        neg_add]

theorem balance_negated (config : Config Shared Call Result) :
    account.negated.balance config = -account.balance config := by
  have calls := sum_map_neg account.call config.calls
  have results := sum_map_neg account.result config.results
  simp only [balance, negated]
  rw [calls, results, neg_add, neg_add]

theorem outcome_negated (left : Outcome Call Result) :
    account.negated.outcome left = -account.outcome left := by
  cases left <;> rfl

variable {account} {program : Program Shared Call Result}
  {allowed : Shared → Event Call → List Call → Prop}
  {initial reached : Config Shared Call Result}

theorem balance_le_of_run (run : Run program allowed initial reached)
    (started : ∀ call, program.starts call → 0 ≤ account.call call)
    (kept : ∀ before call others, Run program allowed initial before →
      call ∈ before.calls → allowed before.shared (.run call) others →
      account.shared before.shared + account.call call ≤
        account.shared (program.statement call before.shared).1 +
          account.outcome (program.statement call before.shared).2)
    (failed : ∀ before call others, Run program allowed initial before →
      call ∈ before.calls → allowed before.shared (.fail call) others →
      account.call call ≤ 0) :
    account.balance initial ≤ account.balance reached := by
  induction run with
  | here => exact le_rfl
  | step earlier permitted step ih =>
      apply ih.trans
      cases step with
      | start starts =>
          have entry := started _ starts
          simp only [balance, List.map_cons, List.sum_cons]
          linarith
      | next executed =>
          have step := kept _ _ _ earlier (by simp) permitted
          rw [executed] at step
          simp only [balance, outcome, List.map_append, List.map_cons,
            List.sum_append, List.sum_cons] at step ⊢
          linarith
      | done executed =>
          have step := kept _ _ _ earlier (by simp) permitted
          rw [executed] at step
          simp only [balance, outcome, List.map_append, List.map_cons,
            List.sum_append, List.sum_cons] at step ⊢
          linarith
      | fail =>
          have dropped := failed _ _ _ earlier (by simp) permitted
          simp only [balance, List.map_append, List.map_cons, List.sum_append,
            List.sum_cons]
          linarith

theorem balance_eq_of_run (run : Run program allowed initial reached)
    (started : ∀ call, program.starts call → account.call call = 0)
    (kept : ∀ before call others, Run program allowed initial before →
      call ∈ before.calls → allowed before.shared (.run call) others →
      account.shared before.shared + account.call call =
        account.shared (program.statement call before.shared).1 +
          account.outcome (program.statement call before.shared).2)
    (failed : ∀ before call others, Run program allowed initial before →
      call ∈ before.calls → allowed before.shared (.fail call) others →
      account.call call = 0) :
    account.balance initial = account.balance reached := by
  apply le_antisymm
  · apply balance_le_of_run run
    · exact fun call starts => (started call starts).symm.le
    · exact fun before call others earlier member permitted =>
        (kept before call others earlier member permitted).le
    · exact fun before call others earlier member permitted =>
        (failed before call others earlier member permitted).le
  · have lower : account.negated.balance initial ≤
        account.negated.balance reached := by
      apply balance_le_of_run run
      · intro call starts
        simp only [negated, started call starts, neg_zero, le_refl]
      · intro before call others earlier member permitted
        have same := kept before call others earlier member permitted
        rw [outcome_negated]
        simp only [negated]
        linarith
      · intro before call others earlier member permitted
        simp only [negated, failed before call others earlier member permitted,
          neg_zero, le_refl]
    rw [balance_negated, balance_negated] at lower
    linarith

end Account

end Program

end Takos.Foundation
