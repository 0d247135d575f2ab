import Takos.Git.Refs

/-!
# Fetching the refs of a remote

`fetchRemoteUpdates` replaces all stored refs of a repository by the advertised
ones: two deletions, one insertion for each ref, and then the update of the
repository row.  No transaction holds these statements together, so a failing
statement leaves what the earlier ones did.
-/

namespace Takos.Source

open Takos.Foundation Takos.Git

structure RemoteRef (Sha : Type) where
  name : Text
  target : Sha

structure RepositoryRow where
  id : Text
  defaultBranch : Text
  remoteCloneUrl : Option Text
  updatedAt : Text

structure RepoRemoteRow where
  id : Text
  repoId : Text
  name : Text
  lastFetchedAt : Option Text

/-- The database statements of one call, in their order.  Failures of the
commit index are caught where they occur. -/
inductive FetchStatement where
  | readRepository
  | readBranches
  | readTags
  | readRemote
  | indexCommit (index : Nat)
  | deleteBranches
  | deleteTags
  | insertBranch (index : Nat)
  | insertTag (index : Nat)
  | updateRepository
  | updateRemote
  deriving DecidableEq

structure ImportTables (Sha : Type) where
  repositories : List RepositoryRow
  remotes : List RepoRemoteRow
  branches : BranchTable Sha
  tags : List (TagRow Sha)

/-- Row ids that no stored row has. -/
structure FreshIds {Sha : Type} (tables : ImportTables Sha) where
  generateId : Nat → Text
  injective : ∀ left right, generateId left = generateId right → left = right
  branches_fresh : ∀ row ∈ tables.branches, ∀ index, row.id ≠ generateId index
  tags_fresh : ∀ row ∈ tables.tags, ∀ index, row.id ≠ generateId index

def headPrefix : Text := "refs/heads/".toList

def tagPrefix : Text := "refs/tags/".toList

section Refs

variable {Sha : Type}

def branchRefs (refs : List (RemoteRef Sha)) : List (RemoteRef Sha) :=
  refs.filter fun ref => Text.startsWith ref.name headPrefix

def tagRefs (refs : List (RemoteRef Sha)) : List (RemoteRef Sha) :=
  refs.filter fun ref => Text.startsWith ref.name tagPrefix &&
    !Text.endsWith ref.name "^{}".toList

/-- `ref.name.slice("refs/heads/".length)`. -/
def branchName (ref : RemoteRef Sha) : Text := ref.name.drop headPrefix.length

def tagName (ref : RemoteRef Sha) : Text := ref.name.drop tagPrefix.length

/-- The advertised name counts unless it is empty. -/
def resolveDefaultBranch (refs : List (RemoteRef Sha))
    (advertised : Option Text) : Text :=
  match advertised with
  | some (char :: rest) => char :: rest
  | _ =>
    let heads := (branchRefs refs).map branchName
    if "main".toList ∈ heads then "main".toList
    else if "master".toList ∈ heads then "master".toList
    else heads.head?.getD "main".toList

def branchRow (generateId : Nat → Text) (repoId defaultBranch timestamp : Text)
    (index : Nat) (ref : RemoteRef Sha) : BranchRow Sha where
  id := generateId index
  repoId := repoId
  name := branchName ref
  commitSha := ref.target
  isDefault := branchName ref = defaultBranch
  isProtected := false
  createdAt := timestamp
  updatedAt := timestamp

def tagRow (generateId : Nat → Text) (repoId timestamp : Text) (index : Nat)
    (ref : RemoteRef Sha) : TagRow Sha where
  id := generateId index
  repoId := repoId
  name := tagName ref
  commitSha := ref.target
  message := none
  taggerName := none
  taggerEmail := none
  createdAt := timestamp

/-- Rejected by the primary key or by the unique index on `(repo_id, name)`. -/
def insertTag (tags : List (TagRow Sha)) (row : TagRow Sha) :
    Option (List (TagRow Sha)) :=
  if tags.any (fun other => other.id = row.id ||
      (other.repoId = row.repoId && other.name = row.name)) then
    none
  else some (tags ++ [row])

/-- A loop that inserts one row for each ref and stops at the first failure. -/
def insertRefs {Row : Type} (fails : Nat → Bool)
    (insert : List Row → Row → Option (List Row))
    (row : Nat → RemoteRef Sha → Row) :
    Nat → List (RemoteRef Sha) → List Row → List Row × Bool
  | _, [], table => (table, true)
  | index, ref :: rest, table =>
    if fails index then (table, false)
    else
      match insert table (row index ref) with
      | none => (table, false)
      | some inserted =>
        insertRefs fails insert row (index + 1) rest inserted

end Refs

section Calls

variable {Sha : Type} (failing : Option FetchStatement)
  (generateId : Nat → Text) (repoId timestamp : Text)

/-- The tables afterwards, and whether every statement succeeded. -/
def replaceStoredRefs (refs : List (RemoteRef Sha)) (defaultBranch : Text)
    (tables : ImportTables Sha) : ImportTables Sha × Bool :=
  if failing = some .deleteBranches then (tables, false)
  else
    let tables := { tables with
      branches := tables.branches.filter fun row => row.repoId ≠ repoId }
    if failing = some .deleteTags then (tables, false)
    else
      let tables := { tables with
        tags := tables.tags.filter fun row => row.repoId ≠ repoId }
      let (branches, inserted) :=
        insertRefs (fun index => failing = some (.insertBranch index))
          BranchTable.insert
          (branchRow generateId repoId defaultBranch timestamp) 0
          (branchRefs refs) tables.branches
      let tables := { tables with branches }
      if !inserted then (tables, false)
      else
        let (tags, inserted) :=
          insertRefs (fun index => failing = some (.insertTag index)) insertTag
            (tagRow generateId repoId timestamp) 0 (tagRefs refs) tables.tags
        ({ tables with tags }, inserted)

/-- The two updates after the refs are replaced. -/
def recordFetch (defaultBranch : Text) (tables : ImportTables Sha) :
    ImportTables Sha × Bool :=
  if failing = some .updateRepository then (tables, false)
  else
    let updated := { tables with
      repositories := tables.repositories.map fun row =>
        if row.id = repoId then
          { row with defaultBranch := defaultBranch, updatedAt := timestamp }
        else row }
    match tables.remotes.find? (fun row =>
        row.repoId = repoId && row.name = "origin".toList) with
    | none => (updated, true)
    | some remote =>
      if failing = some .updateRemote then (updated, false)
      else
        ({ updated with
            remotes := updated.remotes.map fun row =>
              if row.id = remote.id then
                { row with lastFetchedAt := some timestamp }
              else row }, true)

/-- `fetchRemoteUpdates`; `refs` and `advertised` are what the remote answers.
Objects and the commit index are written before and touch no ref. -/
def fetchRemoteUpdates (refs : List (RemoteRef Sha)) (advertised : Option Text)
    (tables : ImportTables Sha) : ImportTables Sha × Bool :=
  if failing ∈ [some .readRepository, some .readBranches, some .readTags,
      some .readRemote] then (tables, false)
  else
    match (tables.repositories.find? fun row => row.id = repoId).bind
        RepositoryRow.remoteCloneUrl with
    | none | some [] => (tables, false)
    | some _ =>
      let defaultBranch := resolveDefaultBranch refs advertised
      let (tables, replaced) := replaceStoredRefs failing generateId repoId
        timestamp refs defaultBranch tables
      if !replaced then (tables, false)
      else recordFetch failing repoId timestamp defaultBranch tables

end Calls

end Takos.Source
