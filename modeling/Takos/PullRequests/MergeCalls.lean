import Takos.Git.CommitFile
import Takos.Git.Merge

/-!
# Merging a pull request statement by statement

`performPullRequestMerge` reads both branches, computes the merge target, swaps
the base branch and then updates the pull request.  The close route and the
functions that move branches run in between.  Objects are immutable, so all
reads and writes of one round of the merge computation are a single statement.

The state also records every swap of a merge call and every merge of an already
contained head; no call reads that record.
-/

namespace Takos.PullRequests

open Takos.Foundation Takos.Git

/-- The constructor `opened` stands for the text `open`. -/
inductive PullRequestStatus where
  | opened
  | merged
  | closed
  deriving DecidableEq

structure PullRequestRow where
  id : Text
  repoId : Text
  number : Nat
  headBranch : Text
  baseBranch : Text
  status : PullRequestStatus
  mergedAt : Option Text
  updatedAt : Text

inductive MergeMethod where
  | merge
  | squash
  | rebase
  deriving DecidableEq

structure User where
  name : Text
  email : Text

/-- The arguments of the merge route with the time that it reads: `now` in
seconds for signatures, `timestamp` for the rows. -/
structure MergeRequest where
  repoId : Text
  prNumber : Nat
  mergeMethod : MergeMethod
  commitMessage : Text
  user : User
  now : Int
  timestamp : Text

/-- The failures, with the values that their bodies show. -/
inductive MergeFailure (Sha : Type) where
  | pullRequestNotFound
  | notOpen
  | branchNotFound
  | noMergeBase
  | conflict (conflicts : List MergeConflict) (mergeBase : Sha)
      (atCommitSha : Option Sha)
  | rebaseCommits
  | mergeCommits
  | mergeCommitsUnsupported
  | rebaseTooLarge
  | refConflict (current : Sha)
  | thrown

def MergeFailure.status {Sha : Type} : MergeFailure Sha → Nat
  | .pullRequestNotFound | .branchNotFound => 404
  | .notOpen => 400
  | .noMergeBase | .conflict .. | .refConflict _ => 409
  | .rebaseCommits | .mergeCommits | .thrown => 500
  | .mergeCommitsUnsupported => 501
  | .rebaseTooLarge => 413

def MergeFailure.error {Sha : Type} : MergeFailure Sha → String
  | .pullRequestNotFound => "Pull request not found"
  | .notOpen => "Pull request is already closed or merged"
  | .branchNotFound => "Branch not found"
  | .noMergeBase | .conflict .. => "conflict"
  | .rebaseCommits => "Failed to load commits for rebase"
  | .mergeCommits => "Failed to load commits for merge"
  | .mergeCommitsUnsupported => "Rebase merge does not support merge commits yet"
  | .rebaseTooLarge => "Rebase merge is too large"
  | .refConflict _ => "REF_CONFLICT"
  | .thrown => "Failed to perform merge"

/-- What a merge call holds after it has read both branches. -/
structure MergeContext (Sha : Type) where
  request : MergeRequest
  pullRequest : PullRequestRow
  baseSha : Sha
  headSha : Sha

/-- The statement that a merge call executes next. -/
inductive MergeCall (Sha : Type) where
  | findPullRequest (request : MergeRequest)
  | readBaseBranch (request : MergeRequest) (pullRequest : PullRequestRow)
  | readHeadBranch (request : MergeRequest) (pullRequest : PullRequestRow)
      (baseBranch : Option (BranchRow Sha))
  | checkContained (context : MergeContext Sha)
  | markContained (context : MergeContext Sha)
  | checkFastForward (context : MergeContext Sha)
  | planRebase (context : MergeContext Sha)
  | rebaseCommit (context : MergeContext Sha) (mergeBase : Sha)
      (commitsToRebase : List (GitCommit Sha))
      (currentParentSha currentTreeOid : Sha)
  | createTarget (context : MergeContext Sha) (canFastForward : Bool)
  | advanceBase (context : MergeContext Sha) (newBaseSha : Sha)
  | readCurrent (context : MergeContext Sha)
  | markMerged (context : MergeContext Sha) (newBaseSha : Sha)

/-- How a merge call ends; `pushBefore` is the base head it replaced. -/
inductive MergeOutcome (Sha : Type) where
  | success (context : MergeContext Sha) (mergeCommit : Sha)
      (pushBefore : Option Sha)
  | failed (request : MergeRequest) (failure : MergeFailure Sha)

/-- A merge that took effect on the refs, or needed none. -/
structure MergeRecord (Sha : Type) where
  context : MergeContext Sha
  mergeCommit : Sha
  pushBefore : Option Sha

structure MergeState {Sha : Type} (ids : ObjectIds Sha) where
  repositories : Repositories ids
  pullRequests : List PullRequestRow
  merges : List (MergeRecord Sha)

def buildUserSignature (user : User) (now : Int) : GitSignature where
  name := if user.name.isEmpty then "User".toList else user.name
  email := if user.email.isEmpty then "user@takos.jp".toList else user.email
  timestamp := now
  tzOffset := "+0000".toList

/-- `UPDATE pull_requests SET status = … WHERE id = ?`. -/
def setStatus (rows : List PullRequestRow) (id : Text)
    (status : PullRequestStatus) (mergedAt : Option Text) (timestamp : Text) :
    List PullRequestRow :=
  rows.map fun row =>
    if row.id = id then
      { row with
        status
        mergedAt := mergedAt.or row.mergedAt
        updatedAt := timestamp }
    else row

section Commits

variable {Sha : Type} [DecidableEq Sha] {ids : ObjectIds Sha}

/-- `createCommit`: the object, and then its row in the commit index. -/
def createCommit (store : CommitStore ids) (repoId : Text)
    (content : CommitContent Sha) :
    CommitStore ids × Option (GitCommit Sha) :=
  let (sha, bucket) := store.bucket.putCommit content
  let commit : GitCommit Sha := { content with sha := sha }
  if hasIsoDate content.author && hasIsoDate content.committer then
    match insertCommitRow store.commits (commitRow repoId commit) with
    | none => ({ store with bucket }, none)
    | some commits => (⟨commits, bucket⟩, some commit)
  else ({ store with bucket }, none)

def GIT_REBASE_MAX_COMMITS : Nat := 200

/-- The loop `while (cursorSha !== mergeBase)`; `room` is what is left of
`MAX_REBASE_COMMITS`.  The list is kept newest last, as after `reverse()`. -/
def collectRebase (bucket : ObjectStore ids) (mergeBase : Sha) :
    Nat → Sha → List (GitCommit Sha) →
      Except (MergeFailure Sha) (List (GitCommit Sha))
  | room, cursorSha, commitsToRebase =>
    if cursorSha = mergeBase then .ok commitsToRebase
    else
      match bucket.getCommitData cursorSha with
      | none => .error .rebaseCommits
      | some commit =>
        match commit.parents, room with
        | [parent], room + 1 =>
          collectRebase bucket mergeBase room parent (commit :: commitsToRebase)
        | [_], 0 => .error .rebaseTooLarge
        | _, _ => .error .mergeCommitsUnsupported

/-- `mergeTrees3Way` and the test of its result; an error is thrown. -/
def mergeCleanly (collation : Collation) (bucket : ObjectStore ids)
    (baseTree localTree incomingTree mergeBase : Sha) (atCommitSha : Option Sha) :
    Except (MergeFailure Sha) (Sha × ObjectStore ids) :=
  match mergeTrees3Way collation bucket baseTree localTree incomingTree with
  | .error _ => .error .thrown
  | .ok (⟨some treeSha, []⟩, bucket) => .ok (treeSha, bucket)
  | .ok (result, _) => .error (.conflict result.conflicts mergeBase atCommitSha)

/-- One round of the loop over `commitsToRebase`: the commit on top of
`currentParentSha` that takes over the change of `original`. -/
def rebaseOne (collation : Collation) (context : MergeContext Sha)
    (store : CommitStore ids) (mergeBase : Sha) (original : GitCommit Sha)
    (currentParentSha currentTreeOid : Sha) :
    CommitStore ids × Except (MergeFailure Sha) (GitCommit Sha) :=
  match original.parents.head?.bind store.bucket.getCommitData with
  | none => (store, .error .rebaseCommits)
  | some originalParentCommit =>
    match mergeCleanly collation store.bucket originalParentCommit.tree
        currentTreeOid original.tree mergeBase (some original.sha) with
    | .error failure => (store, .error failure)
    | .ok (treeSha, bucket) =>
      let (store, commit) := createCommit { store with bucket }
        context.request.repoId
        { tree := treeSha
          parents := [currentParentSha]
          message := original.message
          author := original.author
          committer :=
            buildUserSignature context.request.user context.request.now }
      match commit with
      | none => (store, .error .thrown)
      | some commit => (store, .ok commit)

/-- The tree that `createMergeOrSquashTarget` commits. -/
def targetTree (collation : Collation) (context : MergeContext Sha)
    (store : CommitStore ids) (canFastForward : Bool) :
    Except (MergeFailure Sha) (Sha × ObjectStore ids) :=
  if canFastForward then
    match store.bucket.getCommitData context.headSha with
    | none => .error .mergeCommits
    | some headCommit => .ok (headCommit.tree, store.bucket)
  else
    match store.findMergeBase context.request.repoId context.baseSha
        context.headSha with
    | none => .error .noMergeBase
    | some mergeBase =>
      match store.bucket.getCommitData mergeBase,
        store.bucket.getCommitData context.baseSha,
        store.bucket.getCommitData context.headSha with
      | some baseCommit, some localCommit, some incomingCommit =>
        mergeCleanly collation store.bucket baseCommit.tree localCommit.tree
          incomingCommit.tree mergeBase none
      | _, _, _ => .error .mergeCommits

/-- `commitMessage || …`. -/
def mergeMessage (context : MergeContext Sha) : Text :=
  if context.request.commitMessage.isEmpty then
    (if context.request.mergeMethod = .squash then "Squash merge ".toList
      else "Merge ".toList) ++
      context.pullRequest.headBranch ++ " into ".toList ++
      context.pullRequest.baseBranch
  else context.request.commitMessage

def createMergeOrSquashTarget (collation : Collation)
    (context : MergeContext Sha) (store : CommitStore ids)
    (canFastForward : Bool) :
    CommitStore ids × Except (MergeFailure Sha) (GitCommit Sha) :=
  match targetTree collation context store canFastForward with
  | .error failure => (store, .error failure)
  | .ok (treeOid, bucket) =>
    let signature := buildUserSignature context.request.user context.request.now
    let (store, commit) := createCommit { store with bucket }
      context.request.repoId
      { tree := treeOid
        parents :=
          if context.request.mergeMethod = .squash then [context.baseSha]
          else [context.baseSha, context.headSha]
        message := mergeMessage context
        author := signature
        committer := signature }
    match commit with
    | none => (store, .error .thrown)
    | some commit => (store, .ok commit)

end Commits

namespace MergeState

variable {Sha : Type} {ids : ObjectIds Sha}

def setStore (state : MergeState ids) (store : CommitStore ids) :
    MergeState ids :=
  { state with repositories := { state.repositories with store } }

def setBranches (state : MergeState ids) (branches : BranchTable Sha) :
    MergeState ids :=
  { state with repositories := { state.repositories with branches } }

end MergeState

namespace MergeCall

variable {Sha : Type} [DecidableEq Sha] {ids : ObjectIds Sha}

/-- The choice of the merge method once both ancestry tests have run. -/
def chooseTarget (context : MergeContext Sha) (canFastForward : Bool) :
    MergeCall Sha :=
  if canFastForward && context.request.mergeMethod ≠ .squash then
    .advanceBase context context.headSha
  else if context.request.mergeMethod = .rebase then .planRebase context
  else .createTarget context canFastForward

def statement (collation : Collation) (call : MergeCall Sha)
    (state : MergeState ids) :
    MergeState ids × Outcome (MergeCall Sha) (MergeOutcome Sha) :=
  let store := state.repositories.store
  let branches := state.repositories.branches
  match call with
  | .findPullRequest request =>
    match state.pullRequests.find? (fun row =>
        row.repoId = request.repoId && row.number = request.prNumber) with
    | none => (state, .done (.failed request .pullRequestNotFound))
    | some pullRequest =>
      if pullRequest.status ≠ .opened then
        (state, .done (.failed request .notOpen))
      else (state, .next (.readBaseBranch request pullRequest))
  | .readBaseBranch request pullRequest =>
    (state, .next (.readHeadBranch request pullRequest
      (getBranch branches request.repoId pullRequest.baseBranch)))
  | .readHeadBranch request pullRequest baseBranch =>
    match baseBranch, getBranch branches request.repoId
        pullRequest.headBranch with
    | some baseBranch, some headBranch =>
      (state, .next (.checkContained
        ⟨request, pullRequest, baseBranch.commitSha, headBranch.commitSha⟩))
    | _, _ => (state, .done (.failed request .branchNotFound))
  | .checkContained context =>
    if store.isAncestor context.request.repoId context.headSha
        context.baseSha then
      (state, .next (.markContained context))
    else (state, .next (.checkFastForward context))
  | .markContained context =>
    if state.pullRequests.any (fun row => row.id = context.pullRequest.id) then
      ({ state with
          pullRequests := setStatus state.pullRequests context.pullRequest.id
            .merged (some context.request.timestamp) context.request.timestamp
          merges := ⟨context, context.baseSha, none⟩ :: state.merges },
        .done (.success context context.baseSha none))
    else (state, .done (.failed context.request .thrown))
  | .checkFastForward context =>
    (state, .next (chooseTarget context
      (store.isAncestor context.request.repoId context.baseSha
        context.headSha)))
  | .planRebase context =>
    match store.findMergeBase context.request.repoId context.baseSha
        context.headSha with
    | none => (state, .done (.failed context.request .noMergeBase))
    | some mergeBase =>
      match collectRebase store.bucket mergeBase GIT_REBASE_MAX_COMMITS
          context.headSha [],
        store.bucket.getCommitData context.baseSha with
      | .error failure, _ => (state, .done (.failed context.request failure))
      | .ok _, none => (state, .done (.failed context.request .rebaseCommits))
      | .ok commitsToRebase, some baseCommit =>
        (state, .next (.rebaseCommit context mergeBase commitsToRebase
          context.baseSha baseCommit.tree))
  | .rebaseCommit context _ [] currentParentSha _ =>
    (state, .next (.advanceBase context currentParentSha))
  | .rebaseCommit context mergeBase (original :: rest) currentParentSha
      currentTreeOid =>
    match rebaseOne collation context store mergeBase original
        currentParentSha currentTreeOid with
    | (later, .error failure) =>
      (state.setStore later, .done (.failed context.request failure))
    | (later, .ok commit) =>
      (state.setStore later,
        .next (.rebaseCommit context mergeBase rest commit.sha commit.tree))
  | .createTarget context canFastForward =>
    match createMergeOrSquashTarget collation context store canFastForward with
    | (later, .error failure) =>
      (state.setStore later, .done (.failed context.request failure))
    | (later, .ok commit) =>
      (state.setStore later, .next (.advanceBase context commit.sha))
  | .advanceBase context newBaseSha =>
    if branches.swaps context.request.repoId context.pullRequest.baseBranch
        context.baseSha then
      ({ state.setBranches (branches.compareAndSwap context.request.repoId
            context.pullRequest.baseBranch context.baseSha newBaseSha
            context.request.timestamp) with
          merges := ⟨context, newBaseSha, some context.baseSha⟩ :: state.merges },
        .next (.markMerged context newBaseSha))
    else (state, .next (.readCurrent context))
  | .readCurrent context =>
    match branches.select context.request.repoId
        context.pullRequest.baseBranch with
    | none => (state, .done (.failed context.request .branchNotFound))
    | some current =>
      (state, .done (.failed context.request (.refConflict current.commitSha)))
  | .markMerged context newBaseSha =>
    if state.pullRequests.any (fun row => row.id = context.pullRequest.id) then
      ({ state with
          pullRequests := setStatus state.pullRequests context.pullRequest.id
            .merged (some context.request.timestamp)
            context.request.timestamp },
        .done (.success context newBaseSha (some context.baseSha)))
    else (state, .done (.failed context.request .thrown))

end MergeCall

structure CloseRequest where
  repoId : Text
  prNumber : Nat
  timestamp : Text

inductive CloseCall where
  | findPullRequest (request : CloseRequest)
  | markClosed (request : CloseRequest) (pullRequest : PullRequestRow)

inductive CloseOutcome where
  | closed (request : CloseRequest) (pullRequest : PullRequestRow)
  | notFound (request : CloseRequest)
  | notOpen (request : CloseRequest)

def CloseCall.statement (call : CloseCall) (rows : List PullRequestRow) :
    List PullRequestRow × Outcome CloseCall CloseOutcome :=
  match call with
  | .findPullRequest request =>
    match rows.find? (fun row =>
        row.repoId = request.repoId && row.number = request.prNumber) with
    | none => (rows, .done (.notFound request))
    | some pullRequest =>
      if pullRequest.status ≠ .opened then (rows, .done (.notOpen request))
      else (rows, .next (.markClosed request pullRequest))
  | .markClosed request pullRequest =>
    (setStatus rows pullRequest.id .closed none request.timestamp,
      .done (.closed request pullRequest))

section Program

variable {Sha : Type}

/-- A merge, a close, or a push: the commit it stores and its `updateBranch`. -/
inductive PullCall (Sha : Type) where
  | merge (call : MergeCall Sha)
  | close (call : CloseCall)
  | commit (repoId : Text) (content : CommitContent Sha)
  | push (call : RefCall Sha)

inductive PullOutcome (Sha : Type) where
  | merge (outcome : MergeOutcome Sha)
  | close (outcome : CloseOutcome)
  | commit (commit : Option (GitCommit Sha))
  | push (outcome : RefOutcome Sha)

variable [DecidableEq Sha] {ids : ObjectIds Sha}

def PullCall.statement (collation : Collation) (call : PullCall Sha)
    (state : MergeState ids) :
    MergeState ids × Outcome (PullCall Sha) (PullOutcome Sha) :=
  match call with
  | .merge call =>
    let (after, outcome) := call.statement collation state
    (after, outcome.map .merge .merge)
  | .close call =>
    let (pullRequests, outcome) := call.statement state.pullRequests
    ({ state with pullRequests }, outcome.map .close .close)
  | .commit repoId content =>
    let (later, created) := createCommit state.repositories.store repoId content
    (state.setStore later, .done (.commit created))
  | .push call =>
    let (branches, outcome) := call.statement state.repositories.branches
    (state.setBranches branches, outcome.map .push .push)

/-- Calls of the routes, and of `updateBranch` once it passed its checks. -/
def PullCall.Starts (ids : ObjectIds Sha) : PullCall Sha → Prop
  | .merge call => ∃ request, call = .findPullRequest request
  | .close call => ∃ request, call = .findPullRequest request
  | .commit _ _ => True
  | .push call => ∃ repoId name oldSha newSha id timestamp,
      Git.updateBranch ids id timestamp repoId name oldSha newSha = .next call

def pullProgram (ids : ObjectIds Sha) (collation : Collation) :
    Program (MergeState ids) (PullCall Sha) (PullOutcome Sha) where
  starts := PullCall.Starts ids
  statement := PullCall.statement collation

end Program

end Takos.PullRequests
