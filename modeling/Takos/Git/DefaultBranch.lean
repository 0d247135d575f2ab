import Takos.Git.Refs
import Takos.Git.Objects

/-!
# The default branch across interleaved calls

`setDefaultBranch` first clears the flag of every branch and then sets one.
A call between these two updates is open.  While no call is open exactly one
branch is the default, provided the last open call closes properly and no other
statement touches the default in the meantime.
-/

namespace Takos.Git

open Takos.Foundation

variable {Sha : Type}

namespace BranchTable

def isDefaultOf (repoId : Text) (row : BranchRow Sha) : Bool :=
  row.repoId = repoId && row.isDefault

def defaultCount (table : BranchTable Sha) (repoId : Text) : Nat :=
  table.countP (isDefaultOf repoId)

theorem defaultCount_insert {table inserted : BranchTable Sha}
    {row : BranchRow Sha} {repoId : Text}
    (success : table.insert row = some inserted)
    (plain : isDefaultOf repoId row = false) :
    inserted.defaultCount repoId = table.defaultCount repoId := by
  simp only [insert] at success
  split at success
  · cases success
  · cases success
    simp [defaultCount, plain]

theorem defaultCount_map {table : BranchTable Sha} {repoId : Text}
    (update : BranchRow Sha → BranchRow Sha)
    (kept : ∀ row, isDefaultOf repoId (update row) = isDefaultOf repoId row) :
    defaultCount (table.map update) repoId = table.defaultCount repoId := by
  rw [defaultCount, List.countP_map]
  apply List.countP_congr
  intro row _
  simp [kept]

theorem defaultCount_deleteRow {table : BranchTable Sha}
    {repoId otherRepo name : Text}
    (plain : ∀ row ∈ table, matchesName otherRepo name row = true →
      isDefaultOf repoId row = false) :
    (table.deleteRow otherRepo name).defaultCount repoId =
      table.defaultCount repoId := by
  rw [defaultCount, deleteRow, List.countP_filter]
  apply List.countP_congr
  intro row member
  have untouched := plain row member
  cases matched : matchesName otherRepo name row with
  | false => simp
  | true => simp [untouched matched]

theorem defaultCount_markDefault {table : BranchTable Sha}
    {repoId name : Text} (unique : table.UniqueNames)
    (present : ∃ row ∈ table, matchesName repoId name row = true)
    (alone : ∀ row ∈ table, isDefaultOf repoId row = true → row.name = name) :
    (table.markDefault repoId name).defaultCount repoId = 1 := by
  have counted : (table.markDefault repoId name).defaultCount repoId =
      table.countP (matchesName repoId name) := by
    rw [defaultCount, markDefault, List.countP_map]
    apply List.countP_congr
    intro row member
    have only := alone row member
    cases matched : matchesName repoId name row with
    | true =>
        have same := (matchesName_iff repoId name row).mp matched
        simp [matched, isDefaultOf, same.1]
    | false =>
        have notDefault : isDefaultOf repoId row = false := by
          cases default : isDefaultOf repoId row with
          | false => rfl
          | true =>
              have sameRepo : row.repoId = repoId := by
                simp only [isDefaultOf, Bool.and_eq_true,
                  decide_eq_true_eq] at default
                exact default.1
              have matches' := (matchesName_iff repoId name row).mpr
                ⟨sameRepo, only default⟩
              rw [matched] at matches'
              cases matches'
        simp [matched, notDefault]
  rw [counted]
  clear counted alone
  induction table with
  | nil =>
      obtain ⟨row, member, _⟩ := present
      cases member
  | cons first rest ih =>
      obtain ⟨front, back⟩ := List.pairwise_cons.mp unique
      cases matched : matchesName repoId name first with
      | true =>
          have noneLater : rest.countP (matchesName repoId name) = 0 := by
            apply List.countP_eq_zero.mpr
            intro row member matchedLater
            have same := (matchesName_iff repoId name first).mp matched
            have sameLater := (matchesName_iff repoId name row).mp matchedLater
            exact front row member
              ⟨same.1.trans sameLater.1.symm, same.2.trans sameLater.2.symm⟩
          rw [List.countP_cons_of_pos matched, noneLater]
      | false =>
          rw [List.countP_cons_of_neg (by simp [matched])]
          apply ih back
          obtain ⟨row, member, rowMatched⟩ := present
          rcases List.mem_cons.mp member with here | later
          · rw [here, matched] at rowMatched
            cases rowMatched
          · exact ⟨row, later, rowMatched⟩

theorem exists_default_of_defaultCount {table : BranchTable Sha}
    {repoId : Text} (one : table.defaultCount repoId = 1) :
    ∃ row, table.selectDefault repoId = some row ∧ row ∈ table := by
  have positive : 0 < table.countP (isDefaultOf repoId) := by
    have counted : table.countP (isDefaultOf repoId) = 1 := one
    omega
  obtain ⟨row, member, default⟩ := List.countP_pos_iff.mp positive
  cases selected : table.selectDefault repoId with
  | none =>
      have never := List.find?_eq_none.mp selected row member
      exact absurd default never
  | some chosen => exact ⟨chosen, rfl, List.mem_of_find?_eq_some selected⟩

end BranchTable

open BranchTable

/-- A call between the two updates of `setDefaultBranch`. -/
def RefCall.Open (repoId : Text) (call : RefCall Sha) : Prop :=
  ∃ name, call = .markDefault repoId name

/-- The steps that keep one default branch: unless another call is open, the
second update finds its branch and no other default, no default branch is
inserted or deleted, and no open call is dropped. -/
def KeepsDefault (repoId : Text) (table : BranchTable Sha)
    (event : Program.Event (RefCall Sha)) (others : List (RefCall Sha)) :
    Prop :=
  (∃ call ∈ others, call.Open repoId) ∨
    match event with
    | .run (.markDefault otherRepo name) =>
      otherRepo = repoId →
        (∃ row ∈ table, matchesName repoId name row = true) ∧
          ∀ row ∈ table, isDefaultOf repoId row = true → row.name = name
    | .run (.deleteRow otherRepo name) =>
      ∀ row ∈ table, matchesName otherRepo name row = true →
        isDefaultOf repoId row = false
    | .run (.insertBranch row) =>
      isDefaultOf repoId row = true → table.insert row = none
    | .fail (.markDefault otherRepo _) =>
      otherRepo = repoId → table.defaultCount repoId = 1
    | _ => True

/-- One default branch while no call is open. -/
structure DefaultInvariant (repoId : Text)
    (config : Program.Config (BranchTable Sha) (RefCall Sha)
      (RefOutcome Sha)) : Prop where
  unique : config.shared.UniqueNames
  settled : (∀ call ∈ config.calls, ¬call.Open repoId) →
    config.shared.defaultCount repoId = 1

variable [DecidableEq Sha]

/-- While no other call is open, an allowed statement leaves one default branch
unless it opens its own call. -/
theorem defaultCount_statement {repoId : Text} {call : RefCall Sha}
    {table : BranchTable Sha} {others : List (RefCall Sha)}
    (unique : table.UniqueNames)
    (allowed : KeepsDefault repoId table (.run call) others)
    (noneOpen : ∀ other ∈ others, ¬other.Open repoId)
    (settled : ¬call.Open repoId → table.defaultCount repoId = 1) :
    (∃ rest, (call.statement table).2 = .next rest ∧ rest.Open repoId) ∨
      (call.statement table).1.defaultCount repoId = 1 := by
  have condition := allowed.resolve_left (by
    intro ⟨other, member, otherOpen⟩
    exact noneOpen other member otherOpen)
  have counted : (∀ name, call ≠ .markDefault repoId name) →
      table.defaultCount repoId = 1 := by
    intro different
    apply settled
    intro ⟨name, same⟩
    exact different name same
  cases call with
  | insertBranch row =>
      right
      have one := counted (by simp)
      simp only [RefCall.statement]
      cases inserted : table.insert row with
      | none => exact one
      | some after =>
          have plain : isDefaultOf repoId row = false := by
            cases default : isDefaultOf repoId row with
            | false => rfl
            | true =>
                rw [condition default] at inserted
                cases inserted
          exact (defaultCount_insert inserted plain).trans one
  | readExisting | readCurrent | checkExists =>
      right
      simp only [RefCall.statement]
      split <;> exact counted (by simp)
  | swapCommit otherRepo name oldSha newSha timestamp =>
      right
      have one := counted (by simp)
      simp only [RefCall.statement]
      split
      · refine (defaultCount_map _ ?_).trans one
        intro row
        split <;> rfl
      · exact one
  | checkDeletable otherRepo name =>
      right
      have one := counted (by simp)
      simp only [RefCall.statement]
      split
      · exact one
      · split
        · exact one
        · split <;> exact one
  | deleteRow otherRepo name =>
      right
      exact (defaultCount_deleteRow condition).trans (counted (by simp))
  | clearDefault otherRepo name =>
      by_cases same : otherRepo = repoId
      · left
        exact ⟨.markDefault otherRepo name, rfl, name, by rw [same]⟩
      · right
        refine (defaultCount_map _ ?_).trans (counted (by simp))
        intro row
        split
        · rename_i rowRepo
          simp [isDefaultOf, rowRepo, same]
        · rfl
  | markDefault otherRepo name =>
      right
      by_cases same : otherRepo = repoId
      · obtain ⟨present, alone⟩ := condition same
        subst same
        exact defaultCount_markDefault unique present alone
      · refine (defaultCount_map _ ?_).trans (counted (by simp [same]))
        intro row
        split
        · rename_i matched
          have rowRepo := ((matchesName_iff otherRepo name row).mp matched).1
          simp [isDefaultOf, rowRepo, same]
        · rfl

omit [DecidableEq Sha] in
theorem closed_insert {repoId : Text} {front back : List (RefCall Sha)}
    {call : RefCall Sha}
    (othersClosed : ∀ other ∈ front ++ back, ¬other.Open repoId)
    (closed : ¬call.Open repoId) :
    ∀ other ∈ front ++ call :: back, ¬other.Open repoId := by
  intro other member
  rcases List.mem_append.mp member with ahead | behind
  · exact othersClosed other (List.mem_append_left _ ahead)
  · rcases List.mem_cons.mp behind with moving | behind
    · rw [moving]
      exact closed
    · exact othersClosed other (List.mem_append_right _ behind)

theorem DefaultInvariant.step {ids : ObjectIds Sha} {repoId : Text}
    {before after : Program.Config (BranchTable Sha) (RefCall Sha)
      (RefOutcome Sha)}
    {event : Program.Event (RefCall Sha)} {others : List (RefCall Sha)}
    (holds : DefaultInvariant repoId before)
    (allowed : KeepsDefault repoId before.shared event others)
    (step : (refProgram ids).Step before event others after) :
    DefaultInvariant repoId after := by
  cases step with
  | start _ =>
      refine ⟨holds.unique, ?_⟩
      intro noneOpen
      apply holds.settled
      intro call member
      exact noneOpen call (.tail _ member)
  | @next shared after front back results call rest executed =>
      have statement : call.statement shared = (after, .next rest) := executed
      have uniqueAfter := uniqueNames_statement call holds.unique
      rw [statement] at uniqueAfter
      refine ⟨uniqueAfter, ?_⟩
      intro noneOpen
      have othersClosed : ∀ other ∈ front ++ back, ¬other.Open repoId := by
        intro other member
        apply noneOpen
        simp only [List.mem_append, List.mem_cons] at member ⊢
        exact member.imp_right .inr
      have settled : ¬call.Open repoId →
          BranchTable.defaultCount shared repoId = 1 := by
        intro closed
        exact holds.settled (closed_insert othersClosed closed)
      rcases defaultCount_statement holds.unique allowed othersClosed settled
        with ⟨opened, continued, isOpen⟩ | one
      · rw [statement] at continued
        cases continued
        exact absurd isOpen (noneOpen _ (by simp))
      · rw [statement] at one
        exact one
  | @done shared after front back results call result executed =>
      have statement : call.statement shared = (after, .done result) := executed
      have uniqueAfter := uniqueNames_statement call holds.unique
      rw [statement] at uniqueAfter
      refine ⟨uniqueAfter, ?_⟩
      intro othersClosed
      have settled : ¬call.Open repoId →
          BranchTable.defaultCount shared repoId = 1 := by
        intro closed
        exact holds.settled (closed_insert othersClosed closed)
      rcases defaultCount_statement holds.unique allowed othersClosed settled
        with ⟨opened, continued, _⟩ | one
      · rw [statement] at continued
        cases continued
      · rw [statement] at one
        exact one
  | @fail shared front back results call =>
      refine ⟨holds.unique, ?_⟩
      intro othersClosed
      have condition := allowed.resolve_left (by
        intro ⟨other, member, otherOpen⟩
        exact othersClosed other member otherOpen)
      by_cases wasOpen : call.Open repoId
      · obtain ⟨name, same⟩ := wasOpen
        subst same
        exact condition rfl
      · exact holds.settled (closed_insert othersClosed wasOpen)

/-- In a run that keeps the default branch, the repository has exactly one
whenever no call is between the two updates, in particular when none runs. -/
theorem setDefaultBranch_keepsDefault (ids : ObjectIds Sha) (repoId : Text)
    (table : BranchTable Sha)
    (config : Program.Config (BranchTable Sha) (RefCall Sha) (RefOutcome Sha))
    (unique : table.UniqueNames) (one : table.defaultCount repoId = 1)
    (run : (refProgram ids).Run (KeepsDefault repoId) ⟨table, [], []⟩ config)
    (closed : ∀ call ∈ config.calls, ¬call.Open repoId) :
    config.shared.defaultCount repoId = 1 ∧
      ∃ row, config.shared.selectDefault repoId = some row ∧
        row ∈ config.shared := by
  have holds : DefaultInvariant repoId config := by
    apply run.invariant
    · exact ⟨unique, fun _ => one⟩
    · intro before event others after holds allowed step
      exact holds.step allowed step
  have counted := holds.settled closed
  exact ⟨counted, exists_default_of_defaultCount counted⟩

namespace TwoBranches

def repo : Text := ['r']

def branch (id name : Text) (isDefault : Bool) : BranchRow Digest :=
  ⟨id, repo, name, .blob [], isDefault, false, [], []⟩

def table (onMain onDev : Bool) : BranchTable Digest :=
  [branch ['1'] ['m'] onMain, branch ['2'] ['d'] onDev]

def call (name : Text) : RefCall Digest := .checkExists repo name

theorem starts (name : Text) (valid : isValidRefName name = true) :
    (refProgram termIds).starts (call name) := by
  refine ⟨.setDefaultBranch repo name, [], [], ?_⟩
  have repoValid : isValidRepoId repo = true := by decide +kernel
  simp [RefRequest.begin, setDefaultBranch, repoValid, valid, call]

theorem checked (name : Text) (present : name = ['m'] ∨ name = ['d'])
    (onMain onDev : Bool) :
    (call name).statement (table onMain onDev) =
      (table onMain onDev, .next (.clearDefault repo name)) := by
  revert onMain onDev
  rcases present with here | here
  · subst here
    decide +kernel
  · subst here
    decide +kernel

theorem cleared (name : Text) (onMain onDev : Bool) :
    (RefCall.clearDefault repo name).statement (table onMain onDev) =
      (table false false, .next (.markDefault repo name)) :=
  rfl

theorem marked (onMain onDev : Bool) :
    (RefCall.markDefault repo ['m']).statement (table onMain onDev) =
        (table true onDev, .done (.returned .ok)) ∧
      (RefCall.markDefault repo ['d']).statement (table onMain onDev) =
        (table onMain true, .done (.returned .ok)) :=
  ⟨rfl, rfl⟩

end TwoBranches

open TwoBranches in
/-- Changing the default from `m` to `d`. -/
theorem setDefaultBranch_keepsDefault_changed :
    defaultCount (table false true) repo = 1 ∧
      ∃ row, (table false true).selectDefault repo = some row ∧
        row ∈ table false true := by
  apply setDefaultBranch_keepsDefault termIds repo (table true false)
    ⟨table false true, [], [.returned .ok]⟩
  · simp [UniqueNames, table, branch]
  · decide +kernel
  · have started : (refProgram termIds).Run (KeepsDefault repo)
        ⟨table true false, [], []⟩ ⟨table true false, [call ['d']], []⟩ :=
      Program.Run.here.starting _ (starts _ (by decide +kernel)) (.inr trivial)
    have found := started.continuing [] [] (checked _ (.inr rfl) true false)
      (.inr trivial)
    have emptied := found.continuing [] [] (cleared _ true false) (.inr trivial)
    apply emptied.finishing [] [] (marked false false).2
    right
    intro _
    decide +kernel
  · intro call member
    cases member

open TwoBranches in
/-- A failure between the two updates leaves no default branch; two calls that
alternate leave two. -/
theorem setDefaultBranch_interleaved :
    defaultCount (table true false) repo = 1 ∧
      (refProgram termIds).Run (fun _ _ _ => True) ⟨table true false, [], []⟩
        ⟨table false false, [], []⟩ ∧
      defaultCount (table false false) repo = 0 ∧
      (refProgram termIds).Run (fun _ _ _ => True) ⟨table true false, [], []⟩
        ⟨table true true, [], [.returned .ok, .returned .ok]⟩ ∧
      defaultCount (table true true) repo = 2 := by
  have started : (refProgram termIds).Run (fun _ _ _ => True)
      ⟨table true false, [], []⟩ ⟨table true false, [call ['d']], []⟩ :=
    Program.Run.here.starting _ (starts _ (by decide +kernel)) trivial
  have found := started.continuing [] [] (checked _ (.inr rfl) true false)
    trivial
  refine ⟨by decide +kernel, ?_, by decide +kernel, ?_, by decide +kernel⟩
  · have emptied := found.continuing [] [] (cleared _ true false) trivial
    exact emptied.failing [] [] trivial
  · have joined := found.starting (call ['m']) (starts _ (by decide +kernel))
      trivial
    have bothFound := joined.continuing [] _ (checked _ (.inl rfl) true false)
      trivial
    have emptied := bothFound.continuing [] _ (cleared _ true false) trivial
    have bothEmptied := emptied.continuing [_] [] (cleared _ false false)
      trivial
    have markedMain := bothEmptied.finishing [] _ (marked false false).1 trivial
    exact markedMain.finishing [] [] (marked true false).2 trivial

end Takos.Git
