import Takos.PullRequests.MergeCalls

/-!
# Synchronising a fork with its upstream

`syncWithUpstream` asks for the status of the fork, which reads both branches,
then reads both branches again and swaps the fork's.  The route reads each
branch once, and merges where the branches have parted.  Objects are immutable,
so a walk through commits is a single statement.

The state also records the swaps of synchronisations, which no call reads.
-/

namespace Takos.Forks

open Takos.Foundation Takos.Git
open Takos.PullRequests (User buildUserSignature createCommit mergeCleanly)

structure RepositoryRow where
  id : Text
  forkedFromId : Option Text
  defaultBranch : Option Text

/-- `branch` is the option `target_ref` of the one function and the field
`branch` of the other's body. -/
structure SyncRequest where
  repoId : Text
  branch : Option Text
  remote : Option Text
  merges : Bool
  permitted : Bool
  user : User
  now : Int
  timestamp : Text
  branchId : Text

/-- A branch that a synchronisation has moved. -/
structure SyncMove (Sha : Type) where
  repoId : Text
  name : Text
  before : Option Sha
  after : Sha

structure SyncState {Sha : Type} (ids : ObjectIds Sha) where
  repositories : Repositories ids
  rows : List RepositoryRow
  forks : List ForkRow
  moves : List (SyncMove Sha)

structure SyncResult (Sha : Type) where
  success : Bool
  commits_synced : Nat
  new_head : Option Sha
  conflict : Bool
  message : Text

/-- The body of an answer of the route with status 200. -/
inductive SyncResponse (Sha : Type) where
  | counted (synced : Bool) (commits_behind commits_ahead new_commits : Nat)
      (conflict : Bool) (message : Option Text)
  | merged (ref : Text) (mergeCommit : Sha) (parents : List Sha)

inductive SyncOutcome (Sha : Type) where
  | returned (result : SyncResult Sha)
  | responded (response : SyncResponse Sha)
  | thrown (status : Nat) (message : Text)

/-- Whether a call reports success. -/
def SyncOutcome.success {Sha : Type} : SyncOutcome Sha → Bool
  | returned result => result.success
  | responded (.counted synced _ _ _ _ _) => synced
  | responded (.merged _ _ _) => true
  | thrown _ _ => false

/-- What a call knows once it has read both repositories. -/
structure SyncContext where
  request : SyncRequest
  upstreamId : Text
  branchName : Text

/-- Calls by the statement that they execute next. -/
inductive SyncCall (Sha : Type) where
  | findRepository (request : SyncRequest)
  | findUpstream (request : SyncRequest) (repo : RepositoryRow)
      (upstreamId : Text)
  | findFork (context : SyncContext)
  | readForkHead (context : SyncContext) (upstreamRepoId : Text)
  | readUpstreamHead (context : SyncContext) (upstreamRepoId : Text)
      (forkBranch : Option (BranchRow Sha))
  | checkStatus (context : SyncContext) (upstreamRepoId : Text)
      (forkSha upstreamSha : Sha)
  | rereadUpstream (context : SyncContext) (status : SyncStatus)
  | rereadFork (context : SyncContext) (status : SyncStatus)
      (upstreamSha : Sha)
  | update (context : SyncContext) (status : SyncStatus) (upstreamSha : Sha)
      (statement : RefCall Sha)
  | findRouteRepository (request : SyncRequest)
  | findRouteUpstream (request : SyncRequest) (repo : RepositoryRow)
      (upstreamId : Text)
  | readRouteFork (context : SyncContext)
  | readRouteUpstream (context : SyncContext) (forkSha : Sha)
  | countRoute (context : SyncContext) (forkSha upstreamSha : Sha)
  | fastForwardRoute (context : SyncContext) (counts : CommitCounts)
      (upstreamSha : Sha) (statement : RefCall Sha)
  | findMergeBase (context : SyncContext) (forkSha upstreamSha : Sha)
  | mergeRoute (context : SyncContext) (forkSha upstreamSha mergeBase : Sha)
  | updateMerged (context : SyncContext) (forkSha upstreamSha : Sha)
      (mergeCommit : GitCommit Sha) (statement : RefCall Sha)

abbrev SyncStep (Sha : Type) := Outcome (SyncCall Sha) (SyncOutcome Sha)

section Texts

/-- `Synced ${count} commit(s) from upstream`. -/
def syncedMessage (count : Nat) : Text :=
  "Synced ".toList ++ Nat.toDigits 10 count ++
    " commit(s) from upstream".toList

def divergedMessage : Text :=
  "Cannot fast-forward. Fork has diverged from upstream. ".toList ++
    "Manual merge required.".toList

def upToDateMessage : Text := "Already up to date".toList

/-- `first || second || …`. -/
def firstText (texts : List (Option Text)) : Text :=
  ((texts.filterMap id).find? fun text => text ≠ []).getD []

def normalizeBranchName (input : Text) : Text :=
  if Text.startsWith input "refs/heads/".toList then
    input.drop "refs/heads/".toList.length
  else input

end Texts

section Steps

variable {Sha : Type} [DecidableEq Sha]

def thrown (status : Nat) (message : String) : SyncStep Sha :=
  .done (.thrown status message.toList)

def findRow (rows : List RepositoryRow) (id : Text) : Option RepositoryRow :=
  rows.find? fun row => row.id = id

/-- The decision of `syncWithUpstream` on the status. -/
def afterStatus (context : SyncContext) (status : SyncStatus) : SyncStep Sha :=
  if status.has_conflict then
    .done (.returned ⟨false, 0, none, true, divergedMessage⟩)
  else if !status.can_sync then
    .done (.returned ⟨true, 0, none, false, upToDateMessage⟩)
  else .next (.rereadUpstream context status)

/-- What `syncWithUpstream` does with an outcome of its `updateBranch`. -/
def finishUpdate (context : SyncContext) (status : SyncStatus)
    (upstreamSha : Sha) :
    Outcome (RefCall Sha) (RefOutcome Sha) → SyncStep Sha
  | .next statement => .next (.update context status upstreamSha statement)
  | .done (.returned result) =>
    if result.success then
      .done (.returned ⟨true, status.commits_behind, some upstreamSha, false,
        syncedMessage status.commits_behind⟩)
    else
      .done (.returned ⟨false, 0, none, false, "Failed to update branch".toList⟩)
  | .done (.createFailed _ _ _) => thrown 500 "Failed to create branch"

def finishFastForward (context : SyncContext) (counts : CommitCounts)
    (upstreamSha : Sha) :
    Outcome (RefCall Sha) (RefOutcome Sha) → SyncStep Sha
  | .next statement =>
    .next (.fastForwardRoute context counts upstreamSha statement)
  | .done (.returned result) =>
    if result.success then
      .done (.responded (.counted true 0 counts.ahead counts.behind false none))
    else thrown 500 "Failed to update branch"
  | .done (.createFailed _ _ _) => thrown 500 "Failed to sync with upstream"

def finishMerged (context : SyncContext) (forkSha upstreamSha : Sha)
    (mergeCommit : GitCommit Sha) :
    Outcome (RefCall Sha) (RefOutcome Sha) → SyncStep Sha
  | .next statement =>
    .next (.updateMerged context forkSha upstreamSha mergeCommit statement)
  | .done (.returned result) =>
    if result.success then
      .done (.responded (.merged ("refs/heads/".toList ++ context.branchName)
        mergeCommit.sha [forkSha, upstreamSha]))
    else thrown 409 "Failed to update branch after merge"
  | .done (.createFailed _ _ _) => thrown 500 "Failed to sync with upstream"

variable {ids : ObjectIds Sha}

/-- The `updateBranch` of a call on the fork's branch. -/
def updateFork (ids : ObjectIds Sha) (context : SyncContext)
    (oldSha : Option Sha) (newSha : Sha) :
    Outcome (RefCall Sha) (RefOutcome Sha) :=
  Git.updateBranch ids context.request.branchId context.request.timestamp
    context.request.repoId context.branchName oldSha newSha

/-- The decision of the route on the counts. -/
def afterCounts (ids : ObjectIds Sha) (context : SyncContext)
    (forkSha upstreamSha : Sha) (counts : CommitCounts) : SyncStep Sha :=
  if !counts.has_merge_base then
    thrown 409 "No merge base between fork and upstream"
  else
    let canSync := 0 < counts.behind
    let canFastForward := counts.ahead = 0 ∧ 0 < counts.behind
    if ¬ canSync then
      .done (.responded (.counted false 0 counts.ahead 0 false
        (some upToDateMessage)))
    else if ¬ canFastForward ∧ !context.request.merges then
      .done (.responded (.counted false counts.behind counts.ahead 0 true
        (some
          "Cannot fast-forward. Fork has diverged from upstream.".toList)))
    else if canFastForward then
      finishFastForward context counts upstreamSha
        (updateFork ids context (some forkSha) upstreamSha)
    else .next (.findMergeBase context forkSha upstreamSha)

def mergeContent (context : SyncContext) (forkSha upstreamSha treeSha : Sha) :
    CommitContent Sha :=
  let signature := buildUserSignature context.request.user context.request.now
  { tree := treeSha
    parents := [forkSha, upstreamSha]
    message := "Merge upstream/".toList ++ context.branchName ++
      " into ".toList ++ context.branchName
    author := signature
    committer := signature }

/-- The three commits, the merge of their trees, and the commit of the result. -/
def mergeHeads (collation : Collation) (context : SyncContext)
    (forkSha upstreamSha mergeBase : Sha) (store : CommitStore ids) :
    CommitStore ids × SyncStep Sha :=
  match store.bucket.getCommitData mergeBase,
    store.bucket.getCommitData forkSha,
    store.bucket.getCommitData upstreamSha with
  | some baseCommit, some localCommit, some incomingCommit =>
    match mergeCleanly collation store.bucket baseCommit.tree localCommit.tree
        incomingCommit.tree mergeBase none with
    | .error (.conflict _ _ _) => (store, thrown 409 "Merge conflict")
    | .error _ => (store, thrown 500 "Failed to sync with upstream")
    | .ok (treeSha, bucket) =>
      match createCommit { store with bucket } context.request.repoId
          (mergeContent context forkSha upstreamSha treeSha) with
      | (later, none) => (later, thrown 500 "Failed to sync with upstream")
      | (later, some mergeCommit) =>
        (later, finishMerged context forkSha upstreamSha mergeCommit
          (updateFork ids context (some forkSha) mergeCommit.sha))
  | _, _, _ => (store, thrown 500 "Failed to load commits for merge")

namespace SyncState

/-- The branch table after a statement of an `updateBranch`, and the move if it
has succeeded. -/
def updated (state : SyncState ids) (context : SyncContext) (newSha : Sha)
    (statement : RefCall Sha) : SyncState ids :=
  let branches := state.repositories.branches
  let executed := statement.statement branches
  { state with
    repositories := { state.repositories with branches := executed.1 }
    moves :=
      match executed.2 with
      | .done (.returned result) =>
        if result.success then
          ⟨context.request.repoId, context.branchName,
            (branches.select context.request.repoId context.branchName).map
              BranchRow.commitSha, newSha⟩ :: state.moves
        else state.moves
      | _ => state.moves }

def withStore (state : SyncState ids) (store : CommitStore ids) :
    SyncState ids :=
  { state with repositories := { state.repositories with store } }

end SyncState

namespace SyncCall

def statement (collation : Collation) (call : SyncCall Sha)
    (state : SyncState ids) : SyncState ids × SyncStep Sha :=
  let branches := state.repositories.branches
  let store := state.repositories.store
  match call with
  | .findRepository request =>
    (state,
      match findRow state.rows request.repoId with
      | none => thrown 500 "Repository not found"
      | some repo =>
        match repo.forkedFromId with
        | none => thrown 500 "Repository is not a fork"
        | some upstreamId => .next (.findUpstream request repo upstreamId))
  | .findUpstream request repo upstreamId =>
    (state,
      match findRow state.rows upstreamId with
      | none => thrown 500 "Upstream repository not found"
      | some upstream =>
        .next (.findFork ⟨request, upstream.id,
          firstText [request.branch, repo.defaultBranch,
            some "main".toList]⟩))
  | .findFork context =>
    (state,
      match state.forks.find? fun fork =>
          fork.forkRepoId = context.request.repoId with
      | none => afterStatus context ⟨false, false, 0, 0, true, false, none⟩
      | some fork => .next (.readForkHead context fork.upstreamRepoId))
  | .readForkHead context upstreamRepoId =>
    (state, .next (.readUpstreamHead context upstreamRepoId
      (getBranch branches context.request.repoId context.branchName)))
  | .readUpstreamHead context upstreamRepoId forkBranch =>
    (state,
      match forkBranch,
        getBranch branches upstreamRepoId context.branchName with
      | some forkBranch, some upstreamBranch =>
        .next (.checkStatus context upstreamRepoId forkBranch.commitSha
          upstreamBranch.commitSha)
      | _, _ =>
        afterStatus context
          ⟨false, false, 0, 0, true, false, some upstreamRepoId⟩)
  | .checkStatus context upstreamRepoId forkSha upstreamSha =>
    (state, afterStatus context (CommitStore.syncStatusOf upstreamRepoId
      (store.countCommitsBetween context.request.repoId upstreamSha forkSha)))
  | .rereadUpstream context status =>
    (state,
      match getBranch branches context.upstreamId context.branchName with
      | none => thrown 500 "Upstream branch not found"
      | some upstreamBranch =>
        .next (.rereadFork context status upstreamBranch.commitSha))
  | .rereadFork context status upstreamSha =>
    (state, finishUpdate context status upstreamSha
      (updateFork ids context
        ((getBranch branches context.request.repoId context.branchName).map
          BranchRow.commitSha) upstreamSha))
  | .update context status upstreamSha statement =>
    (state.updated context upstreamSha statement,
      finishUpdate context status upstreamSha (statement.statement branches).2)
  | .findRouteRepository request =>
    (state,
      if request.remote.getD "upstream".toList ≠ "upstream".toList then
        .done (.thrown 400
          ("Unsupported remote: ".toList ++ request.remote.getD []))
      else
        match findRow state.rows request.repoId with
        | none => thrown 404 "Repository not found"
        | some repo =>
          if !request.permitted then thrown 403 "Permission denied"
          else
            match repo.forkedFromId with
            | none => thrown 400 "Repository is not a fork"
            | some upstreamId =>
              .next (.findRouteUpstream request repo upstreamId))
  | .findRouteUpstream request repo upstreamId =>
    (state,
      match findRow state.rows upstreamId with
      | none => thrown 404 "Upstream repository not found"
      | some upstream =>
        let branchName := normalizeBranchName
          (firstText [request.branch.map Text.trim, repo.defaultBranch,
            some "main".toList])
        if branchName = [] then thrown 400 "Invalid branch name"
        else .next (.readRouteFork ⟨request, upstream.id, branchName⟩))
  | .readRouteFork context =>
    (state,
      match getBranch branches context.request.repoId context.branchName with
      | none => thrown 404 "Fork branch not found"
      | some forkBranch =>
        .next (.readRouteUpstream context forkBranch.commitSha))
  | .readRouteUpstream context forkSha =>
    (state,
      match getBranch branches context.upstreamId context.branchName with
      | none => thrown 404 "Upstream branch not found"
      | some upstreamBranch =>
        .next (.countRoute context forkSha upstreamBranch.commitSha))
  | .countRoute context forkSha upstreamSha =>
    (state, afterCounts ids context forkSha upstreamSha
      (store.countCommitsBetween context.request.repoId upstreamSha forkSha))
  | .fastForwardRoute context counts upstreamSha statement =>
    (state.updated context upstreamSha statement,
      finishFastForward context counts upstreamSha
        (statement.statement branches).2)
  | .findMergeBase context forkSha upstreamSha =>
    (state,
      match store.findMergeBase context.request.repoId forkSha upstreamSha with
      | none => thrown 409 "No merge base between fork and upstream"
      | some mergeBase =>
        .next (.mergeRoute context forkSha upstreamSha mergeBase))
  | .mergeRoute context forkSha upstreamSha mergeBase =>
    let merged := mergeHeads collation context forkSha upstreamSha mergeBase
      store
    (state.withStore merged.1, merged.2)
  | .updateMerged context forkSha upstreamSha mergeCommit statement =>
    (state.updated context mergeCommit.sha statement,
      finishMerged context forkSha upstreamSha mergeCommit
        (statement.statement branches).2)

end SyncCall

end Steps

section Program

variable {Sha : Type}

/-- A synchronisation, a statement of another ref function, or a commit that is
stored for a push. -/
inductive ForkCall (Sha : Type) where
  | sync (call : SyncCall Sha)
  | ref (call : RefCall Sha)
  | commit (repoId : Text) (content : CommitContent Sha)

inductive ForkOutcome (Sha : Type) where
  | sync (outcome : SyncOutcome Sha)
  | ref (outcome : RefOutcome Sha)
  | commit (commit : Option (GitCommit Sha))

variable [DecidableEq Sha] {ids : ObjectIds Sha}

def ForkCall.statement (collation : Collation) (call : ForkCall Sha)
    (state : SyncState ids) :
    SyncState ids × Outcome (ForkCall Sha) (ForkOutcome Sha) :=
  match call with
  | .sync call =>
    let (after, outcome) := call.statement collation state
    (after, outcome.map .sync .sync)
  | .ref call =>
    let (branches, outcome) := call.statement state.repositories.branches
    ({ state with repositories := { state.repositories with branches } },
      outcome.map .ref .ref)
  | .commit repoId content =>
    let (later, created) := createCommit state.repositories.store repoId content
    (state.withStore later, .done (.commit created))

def ForkCall.Starts (ids : ObjectIds Sha) : ForkCall Sha → Prop
  | .sync call => ∃ request,
      call = .findRepository request ∨ call = .findRouteRepository request
  | .ref call => ∃ (request : RefRequest Sha) (id timestamp : Text),
      request.begin ids id timestamp = .next call
  | .commit _ _ => True

def forkProgram (ids : ObjectIds Sha) (collation : Collation) :
    Program (SyncState ids) (ForkCall Sha) (ForkOutcome Sha) where
  starts := ForkCall.Starts ids
  statement := ForkCall.statement collation

end Program

end Takos.Forks
