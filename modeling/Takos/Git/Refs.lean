import Takos.Git.Objects
import Takos.Foundation.Interleaving

/-!
# Branch rows and their statements

The branch table with the single statements that the ref functions issue.
Each ref function is a sequence of these statements; the modules on
interleavings schedule them one by one.
-/

namespace Takos.Git

open Takos.Foundation

/-- `^[a-z0-9_-]+$` with the `i` flag, on a trimmed id of at most 128 units. -/
def isRepoIdChar (char : Char) : Bool :=
  char.isAlphanum || char = '_' || char = '-'

def isValidRepoId (repoId : Text) : Bool :=
  let value := Text.trim repoId
  !value.isEmpty && Text.size value ≤ 128 && value.all isRepoIdChar

/-- `^[\x21-\x7E]+$`. -/
def isAsciiPrintable (char : Char) : Bool :=
  0x21 ≤ char.toNat && char.toNat ≤ 0x7E

/-- Characters of `INVALID_REF_CHARS_PATTERN`. -/
def invalidRefChars : Text := ['~', '^', ':', '?', '*', '[', '\\']

def isValidRefName (name : Text) : Bool :=
  let value := Text.trim name
  !value.isEmpty && Text.size value ≤ 255 &&
    value.all isAsciiPrintable &&
    value.all (fun char => !invalidRefChars.contains char) &&
    !(Text.includes value ['.', '.'] || Text.includes value ['@', '{']) &&
    !(Text.endsWith value ['.'] ||
      Text.endsWith value ['.', 'l', 'o', 'c', 'k']) &&
    !(Text.startsWith value ['/'] || Text.endsWith value ['/'] ||
      Text.includes value ['/', '/'])

structure BranchRow (Sha : Type) where
  id : Text
  repoId : Text
  name : Text
  commitSha : Sha
  isDefault : Bool
  isProtected : Bool
  createdAt : Text
  updatedAt : Text
  deriving DecidableEq

abbrev BranchTable (Sha : Type) := List (BranchRow Sha)

/-- Failure reasons of the ref functions. -/
inductive RefError where
  | invalidBranchName
  | invalidCommitSha
  | branchAlreadyExists
  | branchNotFound
  | refConflict
  | cannotDeleteDefault
  | cannotDeleteProtected
  deriving DecidableEq

def RefError.message : RefError → String
  | .invalidBranchName => "Invalid branch name"
  | .invalidCommitSha => "Invalid commit SHA"
  | .branchAlreadyExists => "Branch already exists"
  | .branchNotFound => "Branch not found"
  | .refConflict => "Ref conflict: branch was modified by another process"
  | .cannotDeleteDefault => "Cannot delete default branch"
  | .cannotDeleteProtected => "Cannot delete protected branch"

structure RefUpdateResult (Sha : Type) where
  success : Bool
  current : Option Sha
  error : Option RefError
  deriving DecidableEq

namespace RefUpdateResult

def ok {Sha : Type} : RefUpdateResult Sha := ⟨true, none, none⟩

def failure {Sha : Type} (error : RefError) : RefUpdateResult Sha :=
  ⟨false, none, some error⟩

end RefUpdateResult

namespace BranchTable

variable {Sha : Type}

/-- The `WHERE repo_id = ? AND name = ?` clause. -/
def matchesName (repoId name : Text) (row : BranchRow Sha) : Bool :=
  row.repoId = repoId && row.name = name

def select (table : BranchTable Sha) (repoId name : Text) :
    Option (BranchRow Sha) :=
  table.find? (matchesName repoId name)

def selectDefault (table : BranchTable Sha) (repoId : Text) :
    Option (BranchRow Sha) :=
  table.find? (fun row => row.repoId = repoId && row.isDefault)

/-- Rejected by the primary key or by the unique index on `(repo_id, name)`. -/
def insert (table : BranchTable Sha) (row : BranchRow Sha) :
    Option (BranchTable Sha) :=
  if table.any (fun other =>
      other.id = row.id || matchesName row.repoId row.name other) then
    none
  else some (table ++ [row])

/-- `UPDATE … SET commit_sha = new WHERE repo_id, name, commit_sha = old`. -/
def compareAndSwap [DecidableEq Sha] (table : BranchTable Sha)
    (repoId name : Text) (oldSha newSha : Sha) (timestamp : Text) :
    BranchTable Sha :=
  table.map fun row =>
    if matchesName repoId name row && row.commitSha = oldSha then
      { row with commitSha := newSha, updatedAt := timestamp }
    else row

/-- Whether that update touches a row. -/
def swaps [DecidableEq Sha] (table : BranchTable Sha) (repoId name : Text)
    (oldSha : Sha) : Bool :=
  table.any fun row => matchesName repoId name row && row.commitSha = oldSha

def deleteRow (table : BranchTable Sha) (repoId name : Text) :
    BranchTable Sha :=
  table.filter fun row => !matchesName repoId name row

/-- First update of `setDefaultBranch`. -/
def clearDefault (table : BranchTable Sha) (repoId : Text) :
    BranchTable Sha :=
  table.map fun row =>
    if row.repoId = repoId then { row with isDefault := false } else row

/-- Second update of `setDefaultBranch`. -/
def markDefault (table : BranchTable Sha) (repoId name : Text) :
    BranchTable Sha :=
  table.map fun row =>
    if matchesName repoId name row then { row with isDefault := true } else row

end BranchTable

/-- `getBranch`. -/
def getBranch {Sha : Type} (table : BranchTable Sha) (repoId name : Text) :
    Option (BranchRow Sha) :=
  if isValidRepoId repoId && isValidRefName name then
    table.select repoId name
  else none

/-- `getDefaultBranch`. -/
def getDefaultBranch {Sha : Type} (table : BranchTable Sha) (repoId : Text) :
    Option (BranchRow Sha) :=
  if isValidRepoId repoId then table.selectDefault repoId else none

structure TagRow (Sha : Type) where
  id : Text
  repoId : Text
  name : Text
  commitSha : Sha
  message : Option Text
  taggerName : Option Text
  taggerEmail : Option Text
  createdAt : Text

inductive RefType where
  | branch
  | tag
  | remote

/-- An element of the list that `listAllRefs` returns. -/
structure ListedRef (Sha : Type) where
  name : Text
  target : Sha
  type : RefType

section Lists

variable {Sha : Type}

/-- Rows in table order; the `ORDER BY` only fixes the order of the answer. -/
def listBranches (table : BranchTable Sha) (repoId : Text) :
    List (BranchRow Sha) :=
  if isValidRepoId repoId then table.filter fun row => row.repoId = repoId
  else []

def listTags (tags : List (TagRow Sha)) (repoId : Text) : List (TagRow Sha) :=
  if isValidRepoId repoId then tags.filter fun row => row.repoId = repoId
  else []

def listAllRefs (table : BranchTable Sha) (tags : List (TagRow Sha))
    (repoId : Text) : List (ListedRef Sha) :=
  (listBranches table repoId).map (fun row =>
    let isRemote := Text.startsWith row.name
      ['r', 'e', 'm', 'o', 't', 'e', 's', '/']
    { name :=
        if isRemote then ['r', 'e', 'f', 's', '/'] ++ row.name
        else ['r', 'e', 'f', 's', '/', 'h', 'e', 'a', 'd', 's', '/'] ++ row.name
      target := row.commitSha
      type := if isRemote then .remote else .branch }) ++
  (listTags tags repoId).map (fun row =>
    { name := ['r', 'e', 'f', 's', '/', 't', 'a', 'g', 's', '/'] ++ row.name
      target := row.commitSha
      type := .tag })

end Lists

end Takos.Git

/-!
# The ref functions statement by statement

`createBranch`, `updateBranch`, `deleteBranch` and `setDefaultBranch` check
their arguments and then issue single statements on the branch table.  None of
them runs in a transaction.
-/

namespace Takos.Git

open Takos.Foundation

inductive RefRequest (Sha : Type) where
  | createBranch (repoId name : Text) (commitSha : Sha) (isDefault : Bool)
  | updateBranch (repoId name : Text) (oldSha : Option Sha) (newSha : Sha)
  | deleteBranch (repoId name : Text)
  | setDefaultBranch (repoId name : Text)

/-- The statement that a call executes next. -/
inductive RefCall (Sha : Type) where
  | insertBranch (row : BranchRow Sha)
  | readExisting (repoId name : Text) (commitSha : Sha)
  | swapCommit (repoId name : Text) (oldSha newSha : Sha) (timestamp : Text)
  | readCurrent (repoId name : Text)
  | checkDeletable (repoId name : Text)
  | deleteRow (repoId name : Text)
  | checkExists (repoId name : Text)
  | clearDefault (repoId name : Text)
  | markDefault (repoId name : Text)
  deriving DecidableEq

/-- How a call ends; `createFailed` is the error `Failed to create branch …`. -/
inductive RefOutcome (Sha : Type) where
  | returned (result : RefUpdateResult Sha)
  | createFailed (repoId name : Text) (commitSha : Sha)
  deriving DecidableEq

section Requests

variable {Sha : Type} (ids : ObjectIds Sha) (id timestamp : Text)

def createBranch (repoId name : Text) (commitSha : Sha) (isDefault : Bool) :
    Outcome (RefCall Sha) (RefOutcome Sha) :=
  if !isValidRepoId repoId || !isValidRefName name then
    .done (.returned (.failure .invalidBranchName))
  else if !ids.isValidCommitSha commitSha then
    .done (.returned (.failure .invalidCommitSha))
  else
    .next (.insertBranch
      { id := id
        repoId := repoId
        name := name
        commitSha := commitSha
        isDefault := isDefault
        isProtected := false
        createdAt := timestamp
        updatedAt := timestamp })

def updateBranch (repoId name : Text) (oldSha : Option Sha) (newSha : Sha) :
    Outcome (RefCall Sha) (RefOutcome Sha) :=
  if !isValidRepoId repoId || !isValidRefName name then
    .done (.returned (.failure .invalidBranchName))
  else if oldSha.any (fun sha => !ids.isValidCommitSha sha) ||
      !ids.isValidCommitSha newSha then
    .done (.returned (.failure .invalidCommitSha))
  else
    match oldSha with
    | none => createBranch ids id timestamp repoId name newSha false
    | some oldSha => .next (.swapCommit repoId name oldSha newSha timestamp)

def deleteBranch (repoId name : Text) :
    Outcome (RefCall Sha) (RefOutcome Sha) :=
  if !isValidRepoId repoId || !isValidRefName name then
    .done (.returned (.failure .invalidBranchName))
  else .next (.checkDeletable repoId name)

def setDefaultBranch (repoId name : Text) :
    Outcome (RefCall Sha) (RefOutcome Sha) :=
  if !isValidRepoId repoId || !isValidRefName name then
    .done (.returned (.failure .invalidBranchName))
  else .next (.checkExists repoId name)

/-- The start of a call, with the row id and the time it generates. -/
def RefRequest.begin : RefRequest Sha → Outcome (RefCall Sha) (RefOutcome Sha)
  | .createBranch repoId name commitSha isDefault =>
    Git.createBranch ids id timestamp repoId name commitSha isDefault
  | .updateBranch repoId name oldSha newSha =>
    Git.updateBranch ids id timestamp repoId name oldSha newSha
  | .deleteBranch repoId name => Git.deleteBranch repoId name
  | .setDefaultBranch repoId name => Git.setDefaultBranch repoId name

end Requests

variable {Sha : Type} [DecidableEq Sha]

/-- One statement of a call, and what its function does with the result. -/
def RefCall.statement (call : RefCall Sha) (table : BranchTable Sha) :
    BranchTable Sha × Outcome (RefCall Sha) (RefOutcome Sha) :=
  match call with
  | .insertBranch row =>
    match table.insert row with
    | some inserted => (inserted, .done (.returned .ok))
    | none => (table, .next (.readExisting row.repoId row.name row.commitSha))
  | .readExisting repoId name commitSha =>
    match getBranch table repoId name with
    | some existing =>
      (table, .done (.returned
        ⟨false, some existing.commitSha, some .branchAlreadyExists⟩))
    | none => (table, .done (.createFailed repoId name commitSha))
  | .swapCommit repoId name oldSha newSha timestamp =>
    if table.swaps repoId name oldSha then
      (table.compareAndSwap repoId name oldSha newSha timestamp,
        .done (.returned .ok))
    else (table, .next (.readCurrent repoId name))
  | .readCurrent repoId name =>
    match getBranch table repoId name with
    | none => (table, .done (.returned (.failure .branchNotFound)))
    | some current =>
      (table, .done (.returned
        ⟨false, some current.commitSha, some .refConflict⟩))
  | .checkDeletable repoId name =>
    match getBranch table repoId name with
    | none => (table, .done (.returned (.failure .branchNotFound)))
    | some branch =>
      if branch.isDefault then
        (table, .done (.returned (.failure .cannotDeleteDefault)))
      else if branch.isProtected then
        (table, .done (.returned (.failure .cannotDeleteProtected)))
      else (table, .next (.deleteRow repoId name))
  | .deleteRow repoId name =>
    (table.deleteRow repoId name, .done (.returned .ok))
  | .checkExists repoId name =>
    match getBranch table repoId name with
    | none => (table, .done (.returned (.failure .branchNotFound)))
    | some _ => (table, .next (.clearDefault repoId name))
  | .clearDefault repoId name =>
    (table.clearDefault repoId, .next (.markDefault repoId name))
  | .markDefault repoId name =>
    (table.markDefault repoId name, .done (.returned .ok))

def refProgram (ids : ObjectIds Sha) :
    Program (BranchTable Sha) (RefCall Sha) (RefOutcome Sha) where
  starts call := ∃ (request : RefRequest Sha) (id timestamp : Text),
    request.begin ids id timestamp = .next call
  statement := RefCall.statement

namespace BranchTable

omit [DecidableEq Sha]

/-- The unique index on `(repo_id, name)`. -/
def UniqueNames (table : BranchTable Sha) : Prop :=
  table.Pairwise fun left right =>
    ¬(left.repoId = right.repoId ∧ left.name = right.name)

theorem matchesName_iff (repoId name : Text) (row : BranchRow Sha) :
    matchesName repoId name row = true ↔
      row.repoId = repoId ∧ row.name = name := by
  simp [matchesName]

theorem UniqueNames.map {table : BranchTable Sha} (unique : table.UniqueNames)
    (update : BranchRow Sha → BranchRow Sha)
    (keyed : ∀ row, (update row).repoId = row.repoId ∧
      (update row).name = row.name) :
    UniqueNames (table.map update) := by
  apply List.pairwise_map.mpr
  apply unique.imp
  intro left right different same
  rw [(keyed left).1, (keyed left).2, (keyed right).1, (keyed right).2] at same
  exact different same

theorem uniqueNames_insert {table inserted : BranchTable Sha}
    {row : BranchRow Sha} (unique : table.UniqueNames)
    (success : table.insert row = some inserted) : inserted.UniqueNames := by
  simp only [insert] at success
  split at success
  · cases success
  · rename_i free
    cases success
    apply List.pairwise_append.mpr
    refine ⟨unique, List.pairwise_singleton _ _, ?_⟩
    intro other member last lastMember same
    have lastEq : last = row := List.mem_singleton.mp lastMember
    subst lastEq
    apply free
    apply List.any_eq_true.mpr
    refine ⟨other, member, ?_⟩
    simp [matchesName, same.1, same.2]

theorem uniqueNames_deleteRow {table : BranchTable Sha}
    (unique : table.UniqueNames) (repoId name : Text) :
    (table.deleteRow repoId name).UniqueNames :=
  unique.sublist List.filter_sublist

theorem UniqueNames.eq_of_key {table : BranchTable Sha}
    (unique : table.UniqueNames) {left right : BranchRow Sha}
    (leftMember : left ∈ table) (rightMember : right ∈ table)
    (same : left.repoId = right.repoId ∧ left.name = right.name) :
    left = right := by
  induction table with
  | nil => cases leftMember
  | cons first rest ih =>
      obtain ⟨apart, restUnique⟩ := List.pairwise_cons.mp unique
      rcases List.mem_cons.mp leftMember with leftHere | leftLater
      · rcases List.mem_cons.mp rightMember with rightHere | rightLater
        · exact leftHere.trans rightHere.symm
        · exact absurd (leftHere ▸ same) (apart right rightLater)
      · rcases List.mem_cons.mp rightMember with rightHere | rightLater
        · have turned := apart left leftLater
          rw [← rightHere] at turned
          exact absurd ⟨same.1.symm, same.2.symm⟩ turned
        · exact ih restUnique leftLater rightLater

end BranchTable

open BranchTable

theorem uniqueNames_statement (call : RefCall Sha) {table : BranchTable Sha}
    (unique : table.UniqueNames) : (call.statement table).1.UniqueNames := by
  cases call with
  | insertBranch row =>
      simp only [RefCall.statement]
      cases inserted : table.insert row with
      | none => exact unique
      | some after => exact uniqueNames_insert unique inserted
  | readExisting | readCurrent | checkExists =>
      simp only [RefCall.statement]
      split <;> exact unique
  | swapCommit repoId name oldSha newSha timestamp =>
      simp only [RefCall.statement]
      split
      · apply unique.map
        intro row
        split <;> exact ⟨rfl, rfl⟩
      · exact unique
  | checkDeletable repoId name =>
      simp only [RefCall.statement]
      split
      · exact unique
      · split
        · exact unique
        · split <;> exact unique
  | deleteRow repoId name => exact uniqueNames_deleteRow unique repoId name
  | clearDefault | markDefault =>
      apply unique.map
      intro row
      split <;> exact ⟨rfl, rfl⟩

end Takos.Git
