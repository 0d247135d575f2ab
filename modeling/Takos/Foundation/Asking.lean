import Mathlib.Logic.Basic

/-!
# Computations that ask

A computation asks one question at a time and continues with the answer.
Answering all its questions from one source gives the result that it has when
nothing else runs in between.
-/

namespace Takos.Foundation

universe u v w x

inductive Asking (Query : Type u) (Answer : Type v) (Result : Type w) where
  | done (result : Result)
  | ask (query : Query) (next : Answer → Asking Query Answer Result)

namespace Asking

variable {Query : Type u} {Answer : Type v} {Result : Type w} {Other : Type x}

def bind (first : Asking Query Answer Result)
    (rest : Result → Asking Query Answer Other) : Asking Query Answer Other :=
  match first with
  | .done result => rest result
  | .ask query next => .ask query fun answer => (next answer).bind rest

/-- The result when every question is answered by `source`. -/
def answered (source : Query → Answer) : Asking Query Answer Result → Result
  | .done result => result
  | .ask query next => (next (source query)).answered source

theorem answered_bind (source : Query → Answer)
    (first : Asking Query Answer Result)
    (rest : Result → Asking Query Answer Other) :
    (first.bind rest).answered source =
      (rest (first.answered source)).answered source := by
  induction first with
  | done result => rfl
  | ask query next ih => exact ih (source query)

/-- As long as both get the same answers, two computations ask the same
questions and end the same. -/
inductive Alike (Same : Answer → Answer → Prop) (Ends : Result → Other → Prop) :
    Asking Query Answer Result → Asking Query Answer Other → Prop where
  | done {result : Result} {other : Other} (ends : Ends result other) :
      Alike Same Ends (.done result) (.done other)
  | ask (query : Query) {next : Answer → Asking Query Answer Result}
      {following : Answer → Asking Query Answer Other}
      (alike : ∀ left right, Same left right →
        Alike Same Ends (next left) (following right)) :
      Alike Same Ends (.ask query next) (.ask query following)

variable {Same : Answer → Answer → Prop} {Ends : Result → Other → Prop}

theorem Alike.answered {first : Asking Query Answer Result}
    {second : Asking Query Answer Other} (alike : Alike Same Ends first second)
    {left right : Query → Answer} (same : ∀ query, Same (left query) (right query)) :
    Ends (first.answered left) (second.answered right) := by
  induction alike with
  | done ends => exact ends
  | ask query _ induction => exact induction _ _ (same query)

end Asking

end Takos.Foundation
