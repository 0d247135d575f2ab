import Mathlib.Data.List.Basic

/-!
# Savepoints of one SQL session

A session keeps its content and, innermost first, the marks of the transaction
and of the savepoints that are open in it, each with the content at the time it
was set.  Nothing is durable while a mark is open.
-/

namespace Takos.Foundation

/-- The mark of a transaction has no name. -/
structure Mark (Name Store : Type) where
  name : Option Name
  before : Store

structure SqlSession (Name Store : Type) where
  content : Store
  marks : List (Mark Name Store)

inductive SqlStatement (Name Store : Type) where
  | begin
  | commit
  | rollback
  | savepoint (name : Name)
  | release (name : Name)
  | rollbackTo (name : Name)
  | write (change : Store → Store)

namespace SqlSession

variable {Name Store : Type} [DecidableEq Name]

/-- The marks from the innermost of that name on. -/
def findMark? (name : Name) (marks : List (Mark Name Store)) :
    Option (Mark Name Store × List (Mark Name Store)) :=
  match marks with
  | [] => none
  | mark :: outer => if mark.name = some name then some (mark, outer)
    else findMark? name outer

/-- Nothing where the session refuses the statement. -/
def execute (session : SqlSession Name Store) :
    SqlStatement Name Store → Option (SqlSession Name Store)
  | .begin =>
    if session.marks.isEmpty then
      some ⟨session.content, [⟨none, session.content⟩]⟩
    else none
  | .commit =>
    if session.marks.isEmpty then none else some ⟨session.content, []⟩
  | .rollback => session.marks.getLast?.map fun mark => ⟨mark.before, []⟩
  | .savepoint name =>
    some ⟨session.content, ⟨some name, session.content⟩ :: session.marks⟩
  | .release name => (findMark? name session.marks).map fun found =>
      ⟨session.content, found.2⟩
  | .rollbackTo name => (findMark? name session.marks).map fun found =>
      ⟨found.1.before, found.1 :: found.2⟩
  | .write change => some ⟨change session.content, session.marks⟩

theorem findMark?_append {name : Name} {inner : List (Mark Name Store)}
    (others : ∀ mark ∈ inner, mark.name ≠ some name) (before : Store)
    (outer : List (Mark Name Store)) :
    findMark? name (inner ++ ⟨some name, before⟩ :: outer) =
      some (⟨some name, before⟩, outer) := by
  induction inner with
  | nil => exact if_pos rfl
  | cons mark inner ih =>
      have other := others mark List.mem_cons_self
      rw [List.cons_append, findMark?, if_neg other]
      apply ih
      intro later member
      exact others later (List.mem_cons_of_mem mark member)

theorem release_append {name : Name} {inner : List (Mark Name Store)}
    (others : ∀ mark ∈ inner, mark.name ≠ some name) (content before : Store)
    (outer : List (Mark Name Store)) :
    execute ⟨content, inner ++ ⟨some name, before⟩ :: outer⟩ (.release name) =
      some ⟨content, outer⟩ := by
  rw [execute, findMark?_append others]
  rfl

theorem rollbackTo_append {name : Name} {inner : List (Mark Name Store)}
    (others : ∀ mark ∈ inner, mark.name ≠ some name) (content before : Store)
    (outer : List (Mark Name Store)) :
    execute ⟨content, inner ++ ⟨some name, before⟩ :: outer⟩
        (.rollbackTo name) =
      some ⟨before, ⟨some name, before⟩ :: outer⟩ := by
  rw [execute, findMark?_append others]
  rfl

theorem commit_append (content before : Store)
    (inner : List (Mark Name Store)) :
    execute ⟨content, inner ++ [⟨none, before⟩]⟩ .commit =
      some ⟨content, []⟩ := by
  cases inner with
  | nil | cons => rfl

theorem rollback_append (content before : Store)
    (inner : List (Mark Name Store)) :
    execute ⟨content, inner ++ [⟨none, before⟩]⟩ .rollback =
      some ⟨before, []⟩ := by
  rw [execute, List.getLast?_concat]
  rfl

end SqlSession

end Takos.Foundation
