import Takos.Foundation.QueueSearch
import Takos.Git.Refs
import Takos.Git.TreeChanges
import Takos.Git.TreeSteps
import Mathlib.Data.Set.Card

/-!
# Commit index and history traversal

Commits are read from the index table first and from the object store
otherwise.  Ancestry tests, merge bases and commit counts are queue-driven
walks along parent links; an unreadable commit has no parents.
-/

namespace Takos.Git

open Takos.Foundation

/-- A row of the commit index.  `parentShas` is the parsed JSON column, absent
when the column is null or does not parse; dates are in milliseconds. -/
structure CommitRow (Sha : Type) where
  repoId : Text
  sha : Sha
  treeSha : Sha
  parentShas : Option (List Sha)
  message : Text
  authorName : Text
  authorEmail : Text
  authorDate : Int
  committerName : Text
  committerEmail : Text
  commitDate : Int

def indexedToCommit {Sha : Type} (row : CommitRow Sha) : GitCommit Sha where
  sha := row.sha
  tree := row.treeSha
  parents := row.parentShas.getD []
  message := row.message
  author :=
    { name := row.authorName
      email := row.authorEmail
      timestamp := row.authorDate / 1000
      tzOffset := ['+', '0', '0', '0', '0'] }
  committer :=
    { name := row.committerName
      email := row.committerEmail
      timestamp := row.commitDate / 1000
      tzOffset := ['+', '0', '0', '0', '0'] }

/-- The commit index table together with the object store behind it. -/
structure CommitStore {Sha : Type} (ids : ObjectIds Sha) where
  commits : List (CommitRow Sha)
  bucket : ObjectStore ids

namespace CommitStore

variable {Sha : Type} [DecidableEq Sha] {ids : ObjectIds Sha}

def getCommitFromIndex (store : CommitStore ids) (repoId : Text) (sha : Sha) :
    Option (GitCommit Sha) :=
  (store.commits.find? fun row => row.repoId = repoId && row.sha = sha).map
    indexedToCommit

def getCommit (store : CommitStore ids) (repoId : Text) (sha : Sha) :
    Option (GitCommit Sha) :=
  match store.getCommitFromIndex repoId sha with
  | some commit => some commit
  | none => store.bucket.getCommitData sha

/-- Parents that a walk follows from `sha`. -/
def parentsOf (store : CommitStore ids) (repoId : Text) (sha : Sha) :
    List Sha :=
  match store.getCommit repoId sha with
  | some commit => commit.parents
  | none => []

/-- Ids under which a commit can be readable. -/
def knownShas (store : CommitStore ids) : List Sha :=
  store.commits.map CommitRow.sha ++ store.bucket.objects.map Prod.fst

theorem parentsOf_unknown (store : CommitStore ids) (repoId : Text) (sha : Sha)
    (unknown : sha ∉ store.knownShas) : store.parentsOf repoId sha = [] := by
  simp only [knownShas, List.mem_append, List.mem_map, not_or] at unknown
  have notIndexed : store.getCommitFromIndex repoId sha = none := by
    cases found : store.commits.find? fun row =>
        row.repoId = repoId && row.sha = sha with
    | none => simp [getCommitFromIndex, found]
    | some row =>
        have matched := List.find?_some found
        have member := List.mem_of_find?_eq_some found
        simp only [Bool.and_eq_true, decide_eq_true_eq] at matched
        exact absurd ⟨row, member, matched.2⟩ unknown.1
  have notStored : store.bucket.getCommitData sha = none := by
    have missing : store.bucket.getObject sha = none := by
      cases found : store.bucket.find? sha with
      | none => simp [ObjectStore.getObject, found]
      | some object =>
          have member := ObjectStore.mem_objects_of_find? found
          exact absurd ⟨(sha, object), member, rfl⟩ unknown.2
    simp [ObjectStore.getCommitData, missing]
  simp [parentsOf, getCommit, notIndexed, notStored]

/-- The loop `while (queue.length > 0)` that every traversal below runs. -/
def parentWalk (store : CommitStore ids) (repoId : Text)
    (skip stop : Sha → Bool) (prune : Bool) : QueueSearch Sha where
  next := store.parentsOf repoId
  support := store.knownShas
  next_nil := store.parentsOf_unknown repoId
  skip := skip
  stop := stop
  prune := prune

/-- The set `ancestors1` that `findMergeBase` collects from its first tip. -/
def ancestors (store : CommitStore ids) (repoId : Text) (sha : Sha) :
    List Sha :=
  ((store.parentWalk repoId (fun _ => false) (fun _ => false) false).search
    sha).1

def isAncestor (store : CommitStore ids) (repoId : Text)
    (ancestorSha descendantSha : Sha) : Bool :=
  if ancestorSha = descendantSha then true
  else
    ((store.parentWalk repoId (fun _ => false) (fun sha => sha = ancestorSha)
      true).search descendantSha).2.isSome

def findMergeBase (store : CommitStore ids) (repoId : Text) (sha1 sha2 : Sha) :
    Option Sha :=
  let ancestors1 := store.ancestors repoId sha1
  ((store.parentWalk repoId (fun _ => false) (fun sha => ancestors1.contains sha)
    false).search sha2).2

def countCommitsTo (store : CommitStore ids) (repoId : Text)
    (fromSha stopAtSha : Sha) : Nat :=
  ((store.parentWalk repoId (fun sha => sha = stopAtSha) (fun _ => false)
    false).search fromSha).1.length

end CommitStore

structure CommitCounts where
  ahead : Nat
  behind : Nat
  has_merge_base : Bool
  deriving DecidableEq

structure SyncStatus where
  can_sync : Bool
  can_fast_forward : Bool
  commits_behind : Nat
  commits_ahead : Nat
  has_merge_base : Bool
  has_conflict : Bool
  upstream_repo_id : Option Text

structure ForkRow where
  forkRepoId : Text
  upstreamRepoId : Text

namespace CommitStore

variable {Sha : Type} [DecidableEq Sha] {ids : ObjectIds Sha}

def countCommitsBetween (store : CommitStore ids) (repoId : Text)
    (baseSha headSha : Sha) : CommitCounts :=
  match store.findMergeBase repoId baseSha headSha with
  | none => ⟨0, 0, false⟩
  | some mergeBase =>
    ⟨store.countCommitsTo repoId headSha mergeBase,
      store.countCommitsTo repoId baseSha mergeBase, true⟩

/-- `branchName || (await getDefaultBranch(…))?.name || "main"`. -/
def syncBranchName (table : BranchTable Sha) (forkRepoId : Text)
    (branchName : Option Text) : Text :=
  match branchName with
  | some (char :: rest) => char :: rest
  | _ =>
    match (getDefaultBranch table forkRepoId).map BranchRow.name with
    | some (char :: rest) => char :: rest
    | _ => ['m', 'a', 'i', 'n']

/-- The last two returns of `checkSyncStatus`, once both heads are known. -/
def syncStatusOf (upstreamRepoId : Text) (counts : CommitCounts) : SyncStatus :=
  if counts.has_merge_base = false then
    ⟨false, false, 0, 0, false, true, some upstreamRepoId⟩
  else
    ⟨0 < counts.behind, counts.ahead = 0 && 0 < counts.behind, counts.behind,
      counts.ahead, true, 0 < counts.ahead && 0 < counts.behind,
      some upstreamRepoId⟩

def checkSyncStatus (store : CommitStore ids) (forks : List ForkRow)
    (table : BranchTable Sha) (forkRepoId : Text) (branchName : Option Text) :
    SyncStatus :=
  match forks.find? (fun fork => fork.forkRepoId = forkRepoId) with
  | none => ⟨false, false, 0, 0, true, false, none⟩
  | some fork =>
    let defaultBranchName := syncBranchName table forkRepoId branchName
    match getBranch table forkRepoId defaultBranchName,
      getBranch table fork.upstreamRepoId defaultBranchName with
    | some forkBranch, some upstreamBranch =>
      syncStatusOf fork.upstreamRepoId
        (store.countCommitsBetween forkRepoId upstreamBranch.commitSha
          forkBranch.commitSha)
    | _, _ => ⟨false, false, 0, 0, true, false, some fork.upstreamRepoId⟩

end CommitStore

end Takos.Git

/-!
# `commitFile` statement by statement

A call reads the head of the branch and its commit, writes a blob and the trees
of the changed tree, writes and indexes the commit, and then moves the branch
with `updateBranch`.  An object put is one step: objects are immutable, so the
check that the key is free and the write cannot be told apart from outside.
-/

namespace Takos.Git

open Takos.Foundation

/-- The arguments of a call with the times that it reads: `now` in seconds for
`makeSignature` and `timestamp` for `updateBranch`.  The empty branch stands for
an absent one. -/
structure FileRequest where
  repoId : Text
  path : Text
  content : Text
  message : Text
  branch : Text
  author : Option GitSignature
  now : Int
  timestamp : Text

inductive FileError (Sha : Type) where
  | branchNotFound (branchName : Text)
  | commitNotFound
  | tree (failure : TreeError)
  | invalidTime
  | duplicateCommit
  | createBranchFailed (branchName repoId : Text)
  | updateFailed (branchName repoId : Text) (oldSha newSha : Sha)
      (error : Option RefError)

/-- The error texts; those of a duplicate row are the database's. -/
def FileError.message {Sha : Type} (hex : Sha → String) :
    FileError Sha → String
  | .branchNotFound branchName =>
    "Branch '" ++ String.ofList branchName ++ "' not found"
  | .commitNotFound => "Current commit not found"
  | .tree failure => failure.message
  | .invalidTime => "Invalid time value"
  | .duplicateCommit => "UNIQUE constraint failed: commits.repo_id, commits.sha"
  | .createBranchFailed branchName repoId =>
    "Failed to create branch '" ++ String.ofList branchName ++ "' on repo " ++
      String.ofList repoId
  | .updateFailed branchName repoId oldSha newSha error =>
    "Failed to update branch '" ++ String.ofList branchName ++ "' on repo " ++
      String.ofList repoId ++ " from " ++ hex oldSha ++ " to " ++ hex newSha ++
      ": " ++ (error.map RefError.message).getD "unknown reason"

def makeSignature (sig : Option GitSignature) (now : Int) : GitSignature :=
  sig.getD
    { name := "System".toList
      email := "system@takos.jp".toList
      timestamp := now
      tzOffset := "+0000".toList }

/-- Whether `sigTimestampToIso` returns: dates end 8.64e15 ms from the epoch. -/
def hasIsoDate (sig : GitSignature) : Bool :=
  sig.timestamp.natAbs ≤ 8640000000000

namespace FileRequest

/-- `options.branch || "main"`. -/
def branchName (request : FileRequest) : Text :=
  if request.branch.isEmpty then "main".toList else request.branch

def contentBytes (request : FileRequest) : List UInt8 :=
  (String.ofList request.content).toUTF8.data.toList

def signature (request : FileRequest) : GitSignature :=
  makeSignature request.author request.now

variable {Sha : Type} (ids : ObjectIds Sha)

def blobSha (request : FileRequest) : Sha :=
  ids.hashObject (.blob request.contentBytes)

def change (request : FileRequest) : TreeChange Sha :=
  ⟨request.path, .add, some (request.blobSha ids), []⟩

def commitContent (request : FileRequest) (oldSha treeSha : Sha) :
    CommitContent Sha where
  tree := treeSha
  parents := [oldSha]
  author := request.signature
  committer := request.signature
  message := request.message

end FileRequest

/-- The row that `createCommit` inserts. -/
def commitRow {Sha : Type} (repoId : Text) (commit : GitCommit Sha) :
    CommitRow Sha where
  repoId := repoId
  sha := commit.sha
  treeSha := commit.tree
  parentShas :=
    if commit.parents.isEmpty then none else some commit.parents
  message := commit.message
  authorName := commit.author.name
  authorEmail := commit.author.email
  authorDate := commit.author.timestamp * 1000
  committerName := commit.committer.name
  committerEmail := commit.committer.email
  commitDate := commit.committer.timestamp * 1000

/-- Rejected by the unique index on `(repo_id, sha)`. -/
def insertCommitRow {Sha : Type} [DecidableEq Sha]
    (commits : List (CommitRow Sha)) (row : CommitRow Sha) :
    Option (List (CommitRow Sha)) :=
  if commits.any (fun other =>
      other.repoId = row.repoId && other.sha = row.sha) then
    none
  else some (commits ++ [row])

/-- The statement that a call executes next, with what it holds in its local
variables: the head it read, the files of its tree and its commit. -/
inductive FileCall (Sha : Type) where
  | readBranch (request : FileRequest)
  | readCommit (request : FileRequest) (oldSha : Sha)
  | putBlob (request : FileRequest) (oldSha baseTreeSha : Sha)
  | readTrees (request : FileRequest) (oldSha : Sha)
      (reads : TreeReads Sha (List (FileEntry Sha)))
  | putTrees (request : FileRequest) (oldSha : Sha)
      (files : List (FileEntry Sha)) (treeSha : Sha)
      (pending : List (List (TreeEntry Sha)))
  | putCommit (request : FileRequest) (oldSha : Sha)
      (files : List (FileEntry Sha)) (treeSha : Sha)
  | insertCommit (request : FileRequest) (oldSha : Sha)
      (files : List (FileEntry Sha)) (commit : GitCommit Sha)
  | updateBranch (request : FileRequest) (oldSha : Sha)
      (files : List (FileEntry Sha)) (commit : GitCommit Sha)
      (statement : RefCall Sha)

/-- How a call ends.  It returns `commit`; `oldSha` and `files` record the head
it read and the files it found below that head. -/
inductive FileOutcome (Sha : Type) where
  | committed (request : FileRequest) (oldSha : Sha)
      (files : List (FileEntry Sha)) (commit : GitCommit Sha)
  | failed (request : FileRequest) (error : FileError Sha)

/-- The branch table and the commit store behind it. -/
structure Repositories {Sha : Type} (ids : ObjectIds Sha) where
  branches : BranchTable Sha
  store : CommitStore ids

namespace FileCall

variable {Sha : Type}

/-- What `commitFile` does with an outcome of its `updateBranch`. -/
def finishUpdate (request : FileRequest) (oldSha : Sha)
    (files : List (FileEntry Sha)) (commit : GitCommit Sha) :
    Outcome (RefCall Sha) (RefOutcome Sha) →
      Outcome (FileCall Sha) (FileOutcome Sha)
  | .next statement => .next (.updateBranch request oldSha files commit statement)
  | .done (.returned result) =>
    if result.success then .done (.committed request oldSha files commit)
    else
      .done (.failed request (.updateFailed request.branchName request.repoId
        oldSha commit.sha result.error))
  | .done (.createFailed repoId name _) =>
    .done (.failed request (.createBranchFailed name repoId))

variable [DecidableEq Sha] (ids : ObjectIds Sha)

/-- The rest of `applyTreeChanges` once the files are read, up to its writes. -/
def afterReads (request : FileRequest) (oldSha : Sha) :
    Except TreeError (List (FileEntry Sha)) →
      Outcome (FileCall Sha) (FileOutcome Sha)
  | .error failure => .done (.failed request (.tree failure))
  | .ok files =>
    match updateFileMap [request.change ids] (toFileMap files) with
    | .error failure => .done (.failed request (.tree failure))
    | .ok fileMap =>
      match insertFiles fileMap.files .empty with
      | .error failure => .done (.failed request (.tree failure))
      | .ok root =>
        .next (.putTrees request oldSha files
          (treeShaOf ids (plannedEntries ids root)) (plannedTrees ids root))

variable {ids}

def statement (call : FileCall Sha) (repositories : Repositories ids) :
    Repositories ids × Outcome (FileCall Sha) (FileOutcome Sha) :=
  match call with
  | .readBranch request =>
    match getBranch repositories.branches request.repoId request.branchName with
    | none =>
      (repositories,
        .done (.failed request (.branchNotFound request.branchName)))
    | some branch =>
      (repositories, .next (.readCommit request branch.commitSha))
  | .readCommit request oldSha =>
    match repositories.store.bucket.getCommitData oldSha with
    | none => (repositories, .done (.failed request .commitNotFound))
    | some current =>
      (repositories, .next (.putBlob request oldSha current.tree))
  | .putBlob request oldSha baseTreeSha =>
    let (_, bucket) := repositories.store.bucket.putBlob request.contentBytes
    ({ repositories with store := { repositories.store with bucket := bucket } },
      .next (.readTrees request oldSha (flattenReads baseTreeSha)))
  | .readTrees request oldSha (.ask treeSha next) =>
    (repositories,
      .next (.readTrees request oldSha
        (next (repositories.store.bucket.getTreeEntries treeSha))))
  | .readTrees request oldSha (.done result) =>
    (repositories, afterReads ids request oldSha result)
  | .putTrees request oldSha files treeSha (entries :: pending) =>
    let (_, bucket) := repositories.store.bucket.putTree entries
    ({ repositories with store := { repositories.store with bucket := bucket } },
      .next (.putTrees request oldSha files treeSha pending))
  | .putTrees request oldSha files treeSha [] =>
    (repositories, .next (.putCommit request oldSha files treeSha))
  | .putCommit request oldSha files treeSha =>
    let content := request.commitContent oldSha treeSha
    let (sha, bucket) := repositories.store.bucket.putCommit content
    ({ repositories with store := { repositories.store with bucket := bucket } },
      if hasIsoDate request.signature then
        .next (.insertCommit request oldSha files { content with sha := sha })
      else .done (.failed request .invalidTime))
  | .insertCommit request oldSha files commit =>
    match insertCommitRow repositories.store.commits
        (commitRow request.repoId commit) with
    | none => (repositories, .done (.failed request .duplicateCommit))
    | some commits =>
      ({ repositories with
          store := { repositories.store with commits := commits } },
        finishUpdate request oldSha files commit
          (Git.updateBranch ids [] request.timestamp request.repoId
            request.branchName (some oldSha) commit.sha))
  | .updateBranch request oldSha files commit statement =>
    let (branches, outcome) := statement.statement repositories.branches
    ({ repositories with branches := branches },
      finishUpdate request oldSha files commit outcome)

end FileCall

/-- Calls of `commitFile` and of `updateBranch`. -/
inductive CommitCall (Sha : Type) where
  | file (call : FileCall Sha)
  | ref (call : RefCall Sha)

inductive CommitOutcome (Sha : Type) where
  | file (outcome : FileOutcome Sha)
  | ref (outcome : RefOutcome Sha)

variable {Sha : Type} [DecidableEq Sha]

def CommitCall.statement {ids : ObjectIds Sha} (call : CommitCall Sha)
    (repositories : Repositories ids) :
    Repositories ids × Outcome (CommitCall Sha) (CommitOutcome Sha) :=
  match call with
  | .file call =>
    let (after, outcome) := call.statement repositories
    (after, outcome.map .file .file)
  | .ref call =>
    let (branches, outcome) := call.statement repositories.branches
    ({ repositories with branches := branches }, outcome.map .ref .ref)

/-- A call of `commitFile`, or one of `updateBranch` that passes its checks. -/
def CommitCall.Starts (ids : ObjectIds Sha) : CommitCall Sha → Prop
  | .file call => ∃ request, call = .readBranch request
  | .ref call => ∃ repoId name oldSha newSha id timestamp,
      Git.updateBranch ids id timestamp repoId name oldSha newSha = .next call

def commitProgram (ids : ObjectIds Sha) :
    Program (Repositories ids) (CommitCall Sha) (CommitOutcome Sha) where
  starts := CommitCall.Starts ids
  statement := CommitCall.statement

end Takos.Git
