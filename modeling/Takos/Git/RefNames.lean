import Takos.Git.Refs

/-!
# The names of refs

The names that the branch and tag functions store.  The grammar is checked on
the trimmed name and the name is stored as it was given, so what is stored
keeps the grammar as long as no name has white space around it.
-/

namespace Takos.Git

open Takos.Foundation

inductive TagError where
  | invalidTagName
  | invalidCommitSha
  | tagAlreadyExists
  | tagNotFound

def TagError.message : TagError → String
  | .invalidTagName => "Invalid tag name"
  | .invalidCommitSha => "Invalid commit SHA"
  | .tagAlreadyExists => "Tag already exists"
  | .tagNotFound => "Tag not found"

structure TagUpdateResult (Sha : Type) where
  success : Bool
  current : Option Sha
  error : Option TagError

/-- `createFailed` is the error `Failed to create tag …`. -/
inductive TagOutcome (Sha : Type) where
  | returned (result : TagUpdateResult Sha)
  | createFailed (repoId name : Text) (commitSha : Sha)

inductive TagRequest (Sha : Type) where
  | createTag (repoId name : Text) (commitSha : Sha)
      (message taggerName taggerEmail : Option Text)
  | deleteTag (repoId name : Text)

inductive TagCall (Sha : Type) where
  | readTag (row : TagRow Sha)
  | insertTag (row : TagRow Sha)
  | readExistingNow (repoId name : Text) (commitSha : Sha)
  | checkTag (repoId name : Text)
  | deleteTagRow (repoId name : Text)

abbrev TagTable (Sha : Type) := List (TagRow Sha)

namespace TagTable

variable {Sha : Type}

def matchesName (repoId name : Text) (row : TagRow Sha) : Bool :=
  row.repoId = repoId && row.name = name

/-- Rejected by the primary key or by the unique index on `(repo_id, name)`. -/
def insert (table : TagTable Sha) (row : TagRow Sha) : Option (TagTable Sha) :=
  if table.any (fun other =>
      other.id = row.id || matchesName row.repoId row.name other) then
    none
  else some (table ++ [row])

def deleteRow (table : TagTable Sha) (repoId name : Text) : TagTable Sha :=
  table.filter fun row => !matchesName repoId name row

end TagTable

section Tags

variable {Sha : Type}

def getTag (table : TagTable Sha) (repoId name : Text) : Option (TagRow Sha) :=
  if isValidRepoId repoId && isValidRefName name then
    table.find? (TagTable.matchesName repoId name)
  else none

def TagUpdateResult.failure (error : TagError) : TagUpdateResult Sha :=
  ⟨false, none, some error⟩

variable (ids : ObjectIds Sha) (id timestamp : Text)

def createTag (repoId name : Text) (commitSha : Sha)
    (message taggerName taggerEmail : Option Text) :
    Outcome (TagCall Sha) (TagOutcome Sha) :=
  if !isValidRepoId repoId || !isValidRefName name then
    .done (.returned (.failure .invalidTagName))
  else if !ids.isValidCommitSha commitSha then
    .done (.returned (.failure .invalidCommitSha))
  else
    .next (.readTag
      { id := id
        repoId := repoId
        name := name
        commitSha := commitSha
        message := message.filter (· ≠ [])
        taggerName := taggerName.filter (· ≠ [])
        taggerEmail := taggerEmail.filter (· ≠ [])
        createdAt := timestamp })

def deleteTag (repoId name : Text) : Outcome (TagCall Sha) (TagOutcome Sha) :=
  if !isValidRepoId repoId || !isValidRefName name then
    .done (.returned (.failure .invalidTagName))
  else .next (.checkTag repoId name)

def TagRequest.begin : TagRequest Sha → Outcome (TagCall Sha) (TagOutcome Sha)
  | .createTag repoId name commitSha message taggerName taggerEmail =>
    Git.createTag ids id timestamp repoId name commitSha message taggerName
      taggerEmail
  | .deleteTag repoId name => Git.deleteTag repoId name

def TagCall.statement (call : TagCall Sha) (table : TagTable Sha) :
    TagTable Sha × Outcome (TagCall Sha) (TagOutcome Sha) :=
  match call with
  | .readTag row =>
    match getTag table row.repoId row.name with
    | some existing =>
      (table, .done (.returned
        ⟨false, some existing.commitSha, some .tagAlreadyExists⟩))
    | none => (table, .next (.insertTag row))
  | .insertTag row =>
    match table.insert row with
    | some inserted => (inserted, .done (.returned ⟨true, none, none⟩))
    | none =>
      (table, .next (.readExistingNow row.repoId row.name row.commitSha))
  | .readExistingNow repoId name commitSha =>
    match getTag table repoId name with
    | some existing =>
      (table, .done (.returned
        ⟨false, some existing.commitSha, some .tagAlreadyExists⟩))
    | none => (table, .done (.createFailed repoId name commitSha))
  | .checkTag repoId name =>
    match getTag table repoId name with
    | none => (table, .done (.returned (.failure .tagNotFound)))
    | some _ => (table, .next (.deleteTagRow repoId name))
  | .deleteTagRow repoId name =>
    (table.deleteRow repoId name, .done (.returned ⟨true, none, none⟩))

end Tags

structure RefStore (Sha : Type) where
  branches : BranchTable Sha
  tags : TagTable Sha

def RefStore.empty {Sha : Type} : RefStore Sha := ⟨[], []⟩

inductive RefStoreCall (Sha : Type) where
  | branch (call : RefCall Sha)
  | tag (call : TagCall Sha)

inductive RefStoreOutcome (Sha : Type) where
  | branch (outcome : RefOutcome Sha)
  | tag (outcome : TagOutcome Sha)

section Program

variable {Sha : Type} [DecidableEq Sha]

def RefStoreCall.statement (call : RefStoreCall Sha) (store : RefStore Sha) :
    RefStore Sha × Outcome (RefStoreCall Sha) (RefStoreOutcome Sha) :=
  match call with
  | .branch call =>
    ({ store with branches := (call.statement store.branches).1 },
      (call.statement store.branches).2.map .branch .branch)
  | .tag call =>
    ({ store with tags := (call.statement store.tags).1 },
      (call.statement store.tags).2.map .tag .tag)

def refStoreProgram (ids : ObjectIds Sha) :
    Program (RefStore Sha) (RefStoreCall Sha) (RefStoreOutcome Sha) where
  starts
    | .branch call => ∃ (request : RefRequest Sha) (id timestamp : Text),
        request.begin ids id timestamp = .next call
    | .tag call => ∃ (request : TagRequest Sha) (id timestamp : Text),
        request.begin ids id timestamp = .next call
  statement := RefStoreCall.statement

end Program

/-- The grammar of a ref name, with nothing around the name. -/
structure WellFormedRefName (name : Text) : Prop where
  untrimmed : Text.trim name = name
  nonempty : name ≠ []
  size : Text.size name ≤ 255
  printable : ∀ char ∈ name, isAsciiPrintable char = true
  allowed : ∀ char ∈ name, char ∉ invalidRefChars
  dots : Text.includes name ['.', '.'] = false
  reflog : Text.includes name ['@', '{'] = false
  ending : Text.endsWith name ['.'] = false
  lock : Text.endsWith name ['.', 'l', 'o', 'c', 'k'] = false
  front : Text.startsWith name ['/'] = false
  back : Text.endsWith name ['/'] = false
  slashes : Text.includes name ['/', '/'] = false

theorem wellFormed_of_valid {name : Text} (valid : isValidRefName name = true)
    (untrimmed : Text.trim name = name) : WellFormedRefName name := by
  unfold isValidRefName at valid
  simp only [untrimmed, Bool.and_eq_true, Bool.not_eq_true',
    Bool.or_eq_false_iff, decide_eq_true_eq, List.all_eq_true,
    List.isEmpty_eq_false_iff, List.contains_eq_mem,
    decide_eq_false_iff_not] at valid
  obtain ⟨⟨⟨⟨⟨⟨nonempty, size⟩, printable⟩, allowed⟩, dots, reflog⟩, ending,
    lock⟩, ⟨front, back⟩, slashes⟩ := valid
  exact { untrimmed, nonempty, size, printable, allowed, dots, reflog, ending,
          lock, front, back, slashes }

end Takos.Git
