import Takos.Git.CommitFileRuns
import Takos.PullRequests.MergeCalls

/-!
# Concurrent merges of pull requests

A merge call moves its base branch only by the compare-and-swap from the head
that its target was computed against.  The base head and, unless the method
rewrites commits, the merged head stay ancestors of the target.  A pull request
is marked as merged after such a swap, or because its head was contained in the
base head already.
-/

namespace Takos.PullRequests

open Takos.Foundation Takos.Git ObjectStore Relation

variable {Sha : Type} [DecidableEq Sha] {ids : ObjectIds Sha}

theorem createCommit_grows (store : CommitStore ids) (repoId : Text)
    (content : CommitContent Sha) :
    CommitStore.Grows store (createCommit store repoId content).1 := by
  have put : CommitStore.Grows store
      { store with bucket := (store.bucket.putCommit content).2 } :=
    CommitStore.grows_bucket _ (putObject_extends _ _)
  simp only [createCommit]
  split
  · cases inserted : insertCommitRow store.commits
        (commitRow repoId
          { content with sha := (store.bucket.putCommit content).1 }) with
    | none => exact put
    | some commits =>
        apply put.trans
        exact CommitStore.grows_index
          (putObject_fst store.bucket (.commit content)) inserted
  · exact put

theorem createCommit_parent {store : CommitStore ids} {repoId : Text}
    {content : CommitContent Sha} {commit : GitCommit Sha}
    (created : (createCommit store repoId content).2 = some commit)
    {parent : Sha} (member : parent ∈ content.parents) :
    (createCommit store repoId content).1.ParentOf repoId commit.sha parent := by
  simp only [createCommit] at created ⊢
  split at created
  · rename_i dated
    rw [if_pos dated]
    cases inserted : insertCommitRow store.commits
        (commitRow repoId
          { content with sha := (store.bucket.putCommit content).1 }) with
    | none =>
        rw [inserted] at created
        cases created
    | some commits =>
        rw [inserted] at created
        cases created
        exact @CommitStore.parentOf_indexed _ _ _
          { store with bucket := (store.bucket.putCommit content).2 } _ _ _
          inserted _ member
  · cases created

theorem mergeTrees3Way_extends {collation : Collation}
    {bucket later : ObjectStore ids} {baseTree localTree incomingTree : Sha}
    {result : MergeResult Sha}
    (merged : mergeTrees3Way collation bucket baseTree localTree incomingTree =
      .ok (result, later)) : Extends bucket later := by
  simp only [mergeTrees3Way, bind, Except.bind] at merged
  split at merged
  · cases merged
  · split at merged
    · cases merged
    · split at merged
      · cases merged
      · split at merged
        · cases merged
          exact .refl _
        · split at merged
          · cases merged
          · rename_i built
            cases merged
            exact buildTreeFromPaths_extends built

theorem mergeCleanly_extends {collation : Collation}
    {bucket later : ObjectStore ids}
    {baseTree localTree incomingTree mergeBase treeSha : Sha}
    {atCommitSha : Option Sha}
    (merged : mergeCleanly collation bucket baseTree localTree incomingTree
      mergeBase atCommitSha = .ok (treeSha, later)) : Extends bucket later := by
  simp only [mergeCleanly] at merged
  split at merged
  · cases merged
  · rename_i found
    cases merged
    exact mergeTrees3Way_extends found
  · cases merged

theorem targetTree_extends {collation : Collation}
    {context : MergeContext Sha} {store : CommitStore ids}
    {canFastForward : Bool} {treeSha : Sha} {bucket : ObjectStore ids}
    (found : targetTree collation context store canFastForward =
      .ok (treeSha, bucket)) : Extends store.bucket bucket := by
  simp only [targetTree] at found
  split at found
  · split at found
    · cases found
    · cases found
      exact .refl _
  · split at found
    · cases found
    · split at found
      · exact mergeCleanly_extends found
      · cases found

theorem rebaseOne_grows (collation : Collation) (context : MergeContext Sha)
    (store : CommitStore ids) (mergeBase : Sha) (original : GitCommit Sha)
    (currentParentSha currentTreeOid : Sha) :
    CommitStore.Grows store (rebaseOne collation context store mergeBase
        original currentParentSha currentTreeOid).1 ∧
      ∀ commit, (rebaseOne collation context store mergeBase original
          currentParentSha currentTreeOid).2 = .ok commit →
        (rebaseOne collation context store mergeBase original currentParentSha
          currentTreeOid).1.ParentOf context.request.repoId commit.sha
            currentParentSha := by
  simp only [rebaseOne]
  split
  · exact ⟨.refl _, by simp⟩
  · split
    · exact ⟨.refl _, by simp⟩
    · rename_i treeSha bucket merged
      have stored := CommitStore.grows_bucket store (mergeCleanly_extends merged)
      have grown := createCommit_grows { store with bucket }
        context.request.repoId
        { tree := treeSha
          parents := [currentParentSha]
          message := original.message
          author := original.author
          committer :=
            buildUserSignature context.request.user context.request.now }
      split
      · exact ⟨stored.trans grown, by simp⟩
      · rename_i created
        refine ⟨stored.trans grown, ?_⟩
        intro commit same
        cases same
        exact createCommit_parent created List.mem_cons_self

theorem createMergeOrSquashTarget_grows (collation : Collation)
    (context : MergeContext Sha) (store : CommitStore ids)
    (canFastForward : Bool) :
    CommitStore.Grows store (createMergeOrSquashTarget collation context store
        canFastForward).1 ∧
      ∀ commit, (createMergeOrSquashTarget collation context store
          canFastForward).2 = .ok commit →
        (createMergeOrSquashTarget collation context store
            canFastForward).1.ParentOf context.request.repoId commit.sha
              context.baseSha ∧
          (context.request.mergeMethod = .merge →
            (createMergeOrSquashTarget collation context store
              canFastForward).1.ParentOf context.request.repoId commit.sha
                context.headSha) := by
  simp only [createMergeOrSquashTarget]
  split
  · exact ⟨.refl _, by simp⟩
  · rename_i treeOid bucket found
    have stored := CommitStore.grows_bucket store (targetTree_extends found)
    have grown := createCommit_grows { store with bucket }
      context.request.repoId
      { tree := treeOid
        parents :=
          if context.request.mergeMethod = .squash then [context.baseSha]
          else [context.baseSha, context.headSha]
        message := mergeMessage context
        author := buildUserSignature context.request.user context.request.now
        committer :=
          buildUserSignature context.request.user context.request.now }
    split
    · exact ⟨stored.trans grown, by simp⟩
    · rename_i created
      refine ⟨stored.trans grown, ?_⟩
      intro commit same
      cases same
      constructor
      · apply createCommit_parent created
        dsimp only
        split <;> simp
      · intro method
        apply createCommit_parent created
        simp [method]

/-- A commit that the base branch may be moved to. -/
structure MergeTarget (store : CommitStore ids) (context : MergeContext Sha)
    (newBaseSha : Sha) : Prop where
  base : store.Reachable context.request.repoId newBaseSha context.baseSha
  head : context.request.mergeMethod = .merge ∨ newBaseSha = context.headSha →
    store.Reachable context.request.repoId newBaseSha context.headSha

theorem MergeTarget.grow {earlier later : CommitStore ids}
    (grown : CommitStore.Grows earlier later) {context : MergeContext Sha}
    {newBaseSha : Sha} (target : MergeTarget earlier context newBaseSha) :
    MergeTarget later context newBaseSha where
  base := grown.reachable target.base
  head := fun condition => grown.reachable (target.head condition)

def MergeRecord.Sound (store : CommitStore ids) (record : MergeRecord Sha) :
    Prop :=
  match record.pushBefore with
  | some before =>
    before = record.context.baseSha ∧
      MergeTarget store record.context record.mergeCommit
  | none =>
    record.mergeCommit = record.context.baseSha ∧
      store.Reachable record.context.request.repoId record.context.baseSha
        record.context.headSha

theorem MergeRecord.Sound.grow {earlier later : CommitStore ids}
    (grown : CommitStore.Grows earlier later) {record : MergeRecord Sha}
    (sound : record.Sound earlier) : record.Sound later := by
  unfold MergeRecord.Sound at sound ⊢
  split
  · rename_i before same
    rw [same] at sound
    exact ⟨sound.1, sound.2.grow grown⟩
  · rename_i same
    rw [same] at sound
    exact ⟨sound.1, grown.reachable sound.2⟩

def MergeCall.Sound (state : MergeState ids) : MergeCall Sha → Prop
  | .markContained context =>
    state.repositories.store.Reachable context.request.repoId context.baseSha
      context.headSha
  | .planRebase context => context.request.mergeMethod = .rebase
  | .rebaseCommit context _ _ currentParentSha _ =>
    context.request.mergeMethod = .rebase ∧
      state.repositories.store.Reachable context.request.repoId
        currentParentSha context.baseSha
  | .advanceBase context newBaseSha =>
    MergeTarget state.repositories.store context newBaseSha
  | .markMerged context newBaseSha =>
    ⟨context, newBaseSha, some context.baseSha⟩ ∈ state.merges
  | _ => True

variable {call : MergeCall Sha} {before after : MergeState ids}
  {state : MergeState ids} {forward : Prop} {initialRows : List PullRequestRow}

theorem MergeCall.Sound.later
    (grown : CommitStore.Grows before.repositories.store
      after.repositories.store)
    (recorded : ∀ record ∈ before.merges, record ∈ after.merges)
    (sound : call.Sound before) : call.Sound after := by
  cases call with
  | markContained context => exact grown.reachable sound
  | planRebase context => exact sound
  | rebaseCommit context mergeBase rest current tree =>
      exact ⟨sound.1, grown.reachable sound.2⟩
  | advanceBase context newBaseSha => exact sound.grow grown
  | markMerged context newBaseSha => exact recorded _ sound
  | _ => trivial

def MergeOutcomeSound (state : MergeState ids) :
    Outcome (MergeCall Sha) (MergeOutcome Sha) → Prop
  | .next rest => rest.Sound state
  | .done (.success context mergeCommit pushBefore) =>
    ⟨context, mergeCommit, pushBefore⟩ ∈ state.merges
  | .done (.failed _ _) => True

/-- The effects that a statement of a merge call can have. -/
inductive MergeEffect (before after : MergeState ids) : MergeCall Sha → Prop
    where
  | quiet {call : MergeCall Sha} :
      after.repositories.branches = before.repositories.branches →
      after.pullRequests = before.pullRequests →
      after.merges = before.merges → MergeEffect before after call
  | advanced {context : MergeContext Sha} {newBaseSha : Sha} :
      before.repositories.branches.swaps context.request.repoId
        context.pullRequest.baseBranch context.baseSha = true →
      MergeTarget before.repositories.store context newBaseSha →
      after = { before with
        repositories := { before.repositories with
          branches := before.repositories.branches.compareAndSwap
            context.request.repoId context.pullRequest.baseBranch
            context.baseSha newBaseSha context.request.timestamp }
        merges :=
          ⟨context, newBaseSha, some context.baseSha⟩ :: before.merges } →
      MergeEffect before after (.advanceBase context newBaseSha)
  | contained {context : MergeContext Sha} :
      before.repositories.store.Reachable context.request.repoId
        context.baseSha context.headSha →
      after = { before with
        pullRequests := setStatus before.pullRequests context.pullRequest.id
          .merged (some context.request.timestamp) context.request.timestamp
        merges := ⟨context, context.baseSha, none⟩ :: before.merges } →
      MergeEffect before after (.markContained context)
  | marked {context : MergeContext Sha} {newBaseSha : Sha} :
      ⟨context, newBaseSha, some context.baseSha⟩ ∈ before.merges →
      after = { before with
        pullRequests := setStatus before.pullRequests context.pullRequest.id
          .merged (some context.request.timestamp) context.request.timestamp } →
      MergeEffect before after (.markMerged context newBaseSha)

theorem merge_statement (collation : Collation) (sound : call.Sound state) :
    CommitStore.Grows state.repositories.store
        (call.statement collation state).1.repositories.store ∧
      MergeOutcomeSound (call.statement collation state).1
        (call.statement collation state).2 ∧
      MergeEffect state (call.statement collation state).1 call := by
  cases call with
  | findPullRequest request =>
      simp only [MergeCall.statement]
      split
      · exact ⟨.refl _, trivial, .quiet rfl rfl rfl⟩
      · split <;> exact ⟨.refl _, trivial, .quiet rfl rfl rfl⟩
  | readBaseBranch request pullRequest =>
      exact ⟨.refl _, trivial, .quiet rfl rfl rfl⟩
  | readHeadBranch | readCurrent =>
      simp only [MergeCall.statement]
      split <;> exact ⟨.refl _, trivial, .quiet rfl rfl rfl⟩
  | checkContained context =>
      simp only [MergeCall.statement]
      split
      · rename_i contained
        exact ⟨.refl _, (CommitStore.isAncestor_iff _ _ _ _).mp contained,
          .quiet rfl rfl rfl⟩
      · exact ⟨.refl _, trivial, .quiet rfl rfl rfl⟩
  | markContained context =>
      simp only [MergeCall.statement]
      split
      · exact ⟨.refl _, List.mem_cons_self, .contained sound rfl⟩
      · exact ⟨.refl _, trivial, .quiet rfl rfl rfl⟩
  | checkFastForward context =>
      refine ⟨.refl _, ?_, .quiet rfl rfl rfl⟩
      simp only [MergeCall.statement, MergeOutcomeSound, MergeCall.chooseTarget]
      split
      · rename_i forward
        rw [Bool.and_eq_true] at forward
        exact
          { base := (CommitStore.isAncestor_iff _ _ _ _).mp forward.1
            head := fun _ => .refl }
      · split
        · rename_i method
          exact method
        · trivial
  | planRebase context =>
      simp only [MergeCall.statement]
      split
      · exact ⟨.refl _, trivial, .quiet rfl rfl rfl⟩
      · split
        · exact ⟨.refl _, trivial, .quiet rfl rfl rfl⟩
        · exact ⟨.refl _, trivial, .quiet rfl rfl rfl⟩
        · exact ⟨.refl _, ⟨sound, .refl⟩, .quiet rfl rfl rfl⟩
  | rebaseCommit context mergeBase commitsToRebase current tree =>
      obtain ⟨method, reached⟩ := sound
      cases commitsToRebase with
      | nil =>
          refine ⟨.refl _, ?_, .quiet rfl rfl rfl⟩
          refine ⟨reached, ?_⟩
          rintro (other | same)
          · rw [method] at other
            cases other
          · subst same
            exact .refl
      | cons original rest =>
          have built := rebaseOne_grows collation context
            state.repositories.store mergeBase original current tree
          simp only [MergeCall.statement]
          split
          · rename_i later failure ran
            rw [ran] at built
            exact ⟨built.1, trivial, .quiet rfl rfl rfl⟩
          · rename_i later commit ran
            rw [ran] at built
            refine ⟨built.1, ⟨method, ?_⟩, .quiet rfl rfl rfl⟩
            have parent := built.2 commit rfl
            exact .head parent (built.1.reachable reached)
  | createTarget context canFastForward =>
      have built := createMergeOrSquashTarget_grows collation context
        state.repositories.store canFastForward
      simp only [MergeCall.statement]
      split
      · rename_i later failure ran
        rw [ran] at built
        exact ⟨built.1, trivial, .quiet rfl rfl rfl⟩
      · rename_i later commit ran
        rw [ran] at built
        obtain ⟨base, head⟩ := built.2 commit rfl
        refine ⟨built.1, ⟨.single base, ?_⟩, .quiet rfl rfl rfl⟩
        rintro (method | same)
        · exact .single (head method)
        · rw [same]
          exact .refl
  | advanceBase context newBaseSha =>
      simp only [MergeCall.statement]
      split
      · rename_i matched
        exact ⟨.refl _, List.mem_cons_self,
          .advanced matched sound rfl⟩
      · exact ⟨.refl _, trivial, .quiet rfl rfl rfl⟩
  | markMerged context newBaseSha =>
      simp only [MergeCall.statement]
      split
      · exact ⟨.refl _, sound, .marked sound rfl⟩
      · exact ⟨.refl _, trivial, .quiet rfl rfl rfl⟩

/-- The base head that a merge call holds lies below the branch. -/
def MergeCall.Above (repositories : Repositories ids) : MergeCall Sha → Prop
  | .readHeadBranch request pullRequest (some baseBranch) =>
    HeadAbove repositories request.repoId pullRequest.baseBranch
      baseBranch.commitSha
  | .checkContained context | .markContained context =>
    HeadAbove repositories context.request.repoId
      context.pullRequest.baseBranch context.baseSha
  | _ => True

theorem MergeCall.Above.later {before after : Repositories ids}
    (heads : ∀ repoId name sha, HeadAbove before repoId name sha →
      HeadAbove after repoId name sha) (above : call.Above before) :
    call.Above after := by
  cases call with
  | readHeadBranch request pullRequest baseBranch =>
      cases baseBranch with
      | none => trivial
      | some baseBranch => exact heads _ _ _ above
  | checkContained | markContained => exact heads _ _ _ above
  | _ => trivial

theorem headAbove_of_getBranch {repositories : Repositories ids}
    (unique : repositories.branches.UniqueNames) {repoId name : Text}
    {row : BranchRow Sha}
    (found : getBranch repositories.branches repoId name = some row) :
    HeadAbove repositories repoId name row.commitSha := by
  simp only [getBranch] at found
  split at found
  · have member := List.mem_of_find?_eq_some found
    have matched := List.find?_some found
    refine ⟨⟨row, member, matched⟩, ?_⟩
    intro other otherMember otherMatched
    have named := (BranchTable.matchesName_iff _ _ _).mp matched
    have otherNamed := (BranchTable.matchesName_iff _ _ _).mp otherMatched
    rw [unique.eq_of_key otherMember member
      ⟨otherNamed.1.trans named.1.symm, otherNamed.2.trans named.2.symm⟩]
    exact .refl
  · cases found

theorem merge_above (collation : Collation) {call rest : MergeCall Sha}
    (unique : state.repositories.branches.UniqueNames)
    (above : call.Above state.repositories)
    (reached : (call.statement collation state).2 = .next rest) :
    rest.Above (call.statement collation state).1.repositories := by
  cases call with
  | readBaseBranch request pullRequest =>
      cases reached
      cases found : getBranch state.repositories.branches request.repoId
          pullRequest.baseBranch with
      | none => trivial
      | some baseBranch => exact headAbove_of_getBranch unique found
  | readHeadBranch request pullRequest baseBranch =>
      simp only [MergeCall.statement] at reached ⊢
      split at reached
      · cases reached
        exact above
      · cases reached
  | checkContained context =>
      simp only [MergeCall.statement] at reached ⊢
      split at reached
      · rename_i contained
        cases reached
        rw [if_pos contained]
        exact above
      · cases reached
        trivial
  | checkFastForward context =>
      cases reached
      simp only [MergeCall.chooseTarget]
      split
      · trivial
      · split <;> trivial
  | findPullRequest | planRebase =>
      simp only [MergeCall.statement] at reached
      split at reached
      · cases reached
      · split at reached <;> cases reached
        trivial
  | rebaseCommit context mergeBase commitsToRebase current tree =>
      cases commitsToRebase with
      | nil =>
          cases reached
          trivial
      | cons original rest =>
          simp only [MergeCall.statement] at reached
          split at reached <;> cases reached
          trivial
  | _ =>
      simp only [MergeCall.statement] at reached
      split at reached <;> cases reached
      all_goals trivial

theorem MergeEffect.heads (effect : MergeEffect before after call)
    (grown : CommitStore.Grows before.repositories.store
      after.repositories.store) {repoId name : Text} {sha : Sha}
    (above : HeadAbove before.repositories repoId name sha) :
    HeadAbove after.repositories repoId name sha := by
  cases effect with
  | quiet branches _ _ =>
      have same : after.repositories =
          ⟨before.repositories.branches, after.repositories.store⟩ := by
        rw [← branches]
      rw [same]
      exact above.grow grown
  | advanced _ target same =>
      subst same
      exact above.swap target.base
  | contained _ same =>
      subst same
      exact above
  | marked _ same =>
      subst same
      exact above

omit [DecidableEq Sha] in
theorem mem_setStatus {rows : List PullRequestRow} {id timestamp : Text}
    {status : PullRequestStatus} {mergedAt : Option Text}
    {row : PullRequestRow}
    (member : row ∈ setStatus rows id status mergedAt timestamp) :
    ∃ old ∈ rows, old.id = row.id ∧
      (old.status = row.status ∨ row.id = id ∧ row.status = status) := by
  obtain ⟨old, oldMember, same⟩ := List.mem_map.mp member
  refine ⟨old, oldMember, ?_⟩
  split at same
  · rename_i named
    subst same
    exact ⟨rfl, .inr ⟨named, rfl⟩⟩
  · subst same
    exact ⟨rfl, .inl rfl⟩

/-- A pull request that is merged was so from the start or has a record. -/
def MarkedSoundly (initialRows : List PullRequestRow)
    (rows : List PullRequestRow) (merges : List (MergeRecord Sha)) : Prop :=
  ∀ row ∈ rows, row.status = .merged →
    (∃ old ∈ initialRows, old.id = row.id ∧ old.status = .merged) ∨
      ∃ record ∈ merges, record.context.pullRequest.id = row.id

omit [DecidableEq Sha] in
theorem MarkedSoundly.setStatus {initialRows rows : List PullRequestRow}
    {merges later : List (MergeRecord Sha)} {id timestamp : Text}
    {status : PullRequestStatus} {mergedAt : Option Text}
    (marked : MarkedSoundly initialRows rows merges)
    (kept : ∀ record ∈ merges, record ∈ later)
    (recorded : status = .merged →
      ∃ record ∈ later, record.context.pullRequest.id = id) :
    MarkedSoundly initialRows
      (PullRequests.setStatus rows id status mergedAt timestamp) later := by
  intro row member merged
  obtain ⟨old, oldMember, sameId, same | ⟨named, given⟩⟩ := mem_setStatus member
  · rcases marked old oldMember (same.trans merged) with
      ⟨first, firstMember, firstId, firstMerged⟩ | ⟨record, held, recordId⟩
    · exact .inl ⟨first, firstMember, firstId.trans sameId, firstMerged⟩
    · exact .inr ⟨record, kept record held, recordId.trans sameId⟩
  · obtain ⟨record, held, recordId⟩ := recorded (given.symm.trans merged)
    exact .inr ⟨record, held, recordId.trans named.symm⟩

omit [DecidableEq Sha] in
theorem MarkedSoundly.record {initialRows rows : List PullRequestRow}
    {merges later : List (MergeRecord Sha)}
    (marked : MarkedSoundly initialRows rows merges)
    (kept : ∀ record ∈ merges, record ∈ later) :
    MarkedSoundly initialRows rows later := by
  intro row member merged
  rcases marked row member merged with old | ⟨record, held, same⟩
  · exact .inl old
  · exact .inr ⟨record, kept record held, same⟩

/-- A swap of a push that succeeds moves the branch to a descendant. -/
def PushForward (repositories : Repositories ids) (call : RefCall Sha) : Prop :=
  ∀ repoId name oldSha newSha timestamp,
    call = .swapCommit repoId name oldSha newSha timestamp →
    repositories.branches.swaps repoId name oldSha = true →
    repositories.store.Reachable repoId newSha oldSha

/-- The condition on pushes, as a condition on runs. -/
def PushesForward (state : MergeState ids) :
    Program.Event (PullCall Sha) → List (PullCall Sha) → Prop
  | .run (.push call), _ => PushForward state.repositories call
  | _, _ => True

/-- The invariant of the shared state; its last part needs that pushes move
branches forward. -/
structure MergesSound (initialRows : List PullRequestRow) (forward : Prop)
    (state : MergeState ids) : Prop where
  unique : state.repositories.branches.UniqueNames
  records : ∀ record ∈ state.merges, record.Sound state.repositories.store
  marked : MarkedSoundly initialRows state.pullRequests state.merges
  above : forward → ∀ record ∈ state.merges,
    HeadAbove state.repositories record.context.request.repoId
      record.context.pullRequest.baseBranch record.mergeCommit

def PullCall.Sound (forward : Prop) (state : MergeState ids) :
    PullCall Sha → Prop
  | .merge call => call.Sound state ∧ (forward → call.Above state.repositories)
  | .push call => call.OfUpdate
  | _ => True

def PullOutcome.Sound (state : MergeState ids) : PullOutcome Sha → Prop
  | .merge (.success context mergeCommit pushBefore) =>
    ⟨context, mergeCommit, pushBefore⟩ ∈ state.merges
  | _ => True

variable (ids) in
def pullAssertions (initialRows : List PullRequestRow) (forward : Prop) :
    Program.Assertions (MergeState ids) (PullCall Sha) (PullOutcome Sha) where
  shared := MergesSound initialRows forward
  call := PullCall.Sound forward
  result := PullOutcome.Sound

theorem pull_others {forward : Prop} {before after : MergeState ids}
    (grown : CommitStore.Grows before.repositories.store
      after.repositories.store)
    (kept : ∀ record ∈ before.merges, record ∈ after.merges)
    (heads : forward → ∀ repoId name sha,
      HeadAbove before.repositories repoId name sha →
        HeadAbove after.repositories repoId name sha) :
    (∀ other : PullCall Sha, other.Sound forward before →
      other.Sound forward after) ∧
    ∀ result : PullOutcome Sha, result.Sound before → result.Sound after := by
  constructor
  · intro other sound
    cases other with
    | merge call =>
        exact ⟨sound.1.later grown kept,
          fun condition => (sound.2 condition).later (heads condition)⟩
    | push call => exact sound
    | close | commit => trivial
  · intro result sound
    cases result with
    | merge outcome =>
        cases outcome with
        | success context mergeCommit pushBefore => exact kept _ sound
        | failed request failure => trivial
    | _ => trivial

theorem MergesSound.effect (sound : MergesSound initialRows forward before)
    (effect : MergeEffect before after call)
    (grown : CommitStore.Grows before.repositories.store
      after.repositories.store)
    (callAbove : forward → call.Above before.repositories) :
    MergesSound initialRows forward after := by
  have heads : ∀ repoId name sha,
      HeadAbove before.repositories repoId name sha →
        HeadAbove after.repositories repoId name sha :=
    fun repoId name sha => effect.heads grown
  cases effect with
  | quiet branches pullRequests merges =>
      constructor
      · rw [branches]
        exact sound.unique
      · rw [merges]
        exact fun record member => (sound.records record member).grow grown
      · rw [pullRequests, merges]
        exact sound.marked
      · rw [merges]
        exact fun condition record member =>
          heads _ _ _ (sound.above condition record member)
  | @advanced context newBaseSha matched target same =>
      subst same
      constructor
      · apply sound.unique.map
        intro row
        split <;> exact ⟨rfl, rfl⟩
      · intro record member
        rcases List.mem_cons.mp member with rfl | old
        · exact ⟨rfl, target⟩
        · exact sound.records record old
      · exact sound.marked.record fun record => .tail _
      · intro condition record member
        rcases List.mem_cons.mp member with rfl | old
        · exact headAbove_swapped sound.unique matched
        · exact heads _ _ _ (sound.above condition record old)
  | @contained context reached same =>
      subst same
      constructor
      · exact sound.unique
      · intro record member
        rcases List.mem_cons.mp member with rfl | old
        · exact ⟨rfl, reached⟩
        · exact sound.records record old
      · exact sound.marked.setStatus (fun record => .tail _)
          fun _ => ⟨_, List.mem_cons_self, rfl⟩
      · intro condition record member
        rcases List.mem_cons.mp member with rfl | old
        · exact callAbove condition
        · exact sound.above condition record old
  | @marked context newBaseSha recorded same =>
      subst same
      exact
        { unique := sound.unique
          records := sound.records
          marked := sound.marked.setStatus (fun _ held => held)
            fun _ => ⟨_, recorded, rfl⟩
          above := sound.above }

theorem kept_merge (collation : Collation)
    (shared : MergesSound initialRows forward state)
    (sound : (PullCall.merge call).Sound forward state) :
    (pullAssertions ids initialRows forward).Kept (pullProgram ids collation)
      state (.merge call) := by
  obtain ⟨grown, outcome, effect⟩ := merge_statement collation sound.1
  have kept : ∀ record ∈ state.merges,
      record ∈ (call.statement collation state).1.merges := by
    intro record member
    cases effect with
    | quiet _ _ merges =>
        rw [merges]
        exact member
    | advanced _ _ same =>
        rw [same]
        exact .tail _ member
    | contained _ same =>
        rw [same]
        exact .tail _ member
    | marked _ same =>
        rw [same]
        exact member
  have others := @pull_others _ _ _ forward _ _ grown kept
    fun _ repoId name sha => effect.heads grown
  refine ⟨shared.effect effect grown sound.2, ?_, others.1, others.2⟩
  change (pullAssertions ids initialRows forward).HoldAfter
    (call.statement collation state).1
    ((call.statement collation state).2.map .merge .merge)
  cases reached : (call.statement collation state).2 with
  | next rest =>
      rw [reached] at outcome
      exact ⟨outcome, fun condition =>
        merge_above collation shared.unique (sound.2 condition) reached⟩
  | done result =>
      rw [reached] at outcome
      cases result with
      | success context mergeCommit pushBefore => exact outcome
      | failed request failure => trivial

theorem kept_close (collation : Collation) (call : CloseCall)
    (shared : MergesSound initialRows forward state) :
    (pullAssertions ids initialRows forward).Kept (pullProgram ids collation)
      state (.close call) := by
  have grown : CommitStore.Grows state.repositories.store
      ((PullCall.close call : PullCall Sha).statement collation
        state).1.repositories.store := .refl _
  have others := @pull_others _ _ _ forward _ _ grown
    (fun _ member => member) fun _ _ _ _ above => above
  refine ⟨⟨shared.unique, shared.records, ?_, shared.above⟩, ?_, others.1,
    others.2⟩
  · change MarkedSoundly initialRows (call.statement state.pullRequests).1
      state.merges
    cases call with
    | findPullRequest request =>
        simp only [CloseCall.statement]
        split
        · exact shared.marked
        · split <;> exact shared.marked
    | markClosed request pullRequest =>
        exact shared.marked.setStatus (fun _ held => held)
          fun impossible => by cases impossible
  · change (pullAssertions ids initialRows forward).HoldAfter _
      ((call.statement state.pullRequests).2.map .close .close)
    cases (call.statement state.pullRequests).2 <;> trivial

theorem kept_commit (collation : Collation) (repoId : Text)
    (content : CommitContent Sha)
    (shared : MergesSound initialRows forward state) :
    (pullAssertions ids initialRows forward).Kept (pullProgram ids collation)
      state (.commit repoId content) := by
  have grown := createCommit_grows state.repositories.store repoId content
  have others := @pull_others _ _ _ forward state (state.setStore _) grown
    (fun _ member => member) fun _ _ _ _ above => above.grow grown
  refine ⟨⟨shared.unique, ?_, shared.marked, ?_⟩, trivial, others.1, others.2⟩
  · exact fun record member => (shared.records record member).grow grown
  · exact fun condition record member =>
      (shared.above condition record member).grow grown

theorem kept_push (collation : Collation) {call : RefCall Sha}
    (shared : MergesSound initialRows forward state)
    (ofUpdate : call.OfUpdate)
    (moves : forward → PushForward state.repositories call) :
    (pullAssertions ids initialRows forward).Kept (pullProgram ids collation)
      state (.push call) := by
  have heads : forward → ∀ repoId name sha,
      HeadAbove state.repositories repoId name sha →
        HeadAbove { state.repositories with
          branches := (call.statement state.repositories.branches).1 } repoId
            name sha :=
    fun condition repoId name sha above => above.ref ofUpdate (moves condition)
  have others := @pull_others _ _ _ forward state
    (state.setBranches (call.statement state.repositories.branches).1)
    (.refl _) (fun _ member => member) heads
  refine ⟨⟨uniqueNames_statement call shared.unique, shared.records,
    shared.marked, ?_⟩, ?_, others.1, others.2⟩
  · exact fun condition record member =>
      heads condition _ _ _ (shared.above condition record member)
  · change (pullAssertions ids initialRows forward).HoldAfter _
      ((call.statement state.repositories.branches).2.map .push .push)
    cases reached : (call.statement state.repositories.branches).2 with
    | next rest => exact ofUpdate.continues reached
    | done result => trivial

theorem pull_starts {call : PullCall Sha} (starts : call.Starts ids) :
    call.Sound forward state := by
  cases call with
  | merge call =>
      obtain ⟨request, same⟩ := starts
      subst same
      exact ⟨trivial, fun _ => trivial⟩
  | close | commit => trivial
  | push call =>
      obtain ⟨repoId, name, oldSha, newSha, id, timestamp, begun⟩ := starts
      exact updateBranch_ofUpdate begun

section Run

variable {collation : Collation}
  {allowed : MergeState ids → Program.Event (PullCall Sha) →
    List (PullCall Sha) → Prop}
  {initial : MergeState ids}
  {reached : Program.Config (MergeState ids) (PullCall Sha) (PullOutcome Sha)}

theorem pull_run (forward : Prop)
    (moves : forward → ∀ state call others,
      allowed state (.run (.push call)) others →
        PushForward state.repositories call)
    (unique : initial.repositories.branches.UniqueNames)
    (unmerged : initial.merges = [])
    (run : (pullProgram ids collation).Run allowed ⟨initial, [], []⟩ reached) :
    (pullAssertions ids initial.pullRequests forward).Hold reached := by
  have start : MergesSound initial.pullRequests forward initial :=
    { unique := unique
      records := by simp [unmerged]
      marked := fun row member merged => .inl ⟨row, member, rfl, merged⟩
      above := by simp [unmerged] }
  apply Program.Assertions.hold_of_run _ run ⟨start, by simp, by simp⟩
  · intro state call starts
    exact pull_starts starts
  · intro state call others shared sound permitted
    cases call with
    | merge call => exact kept_merge collation shared sound
    | close call => exact kept_close collation call shared
    | commit repoId content => exact kept_commit collation repoId content shared
    | push call =>
        exact kept_push collation shared sound fun condition =>
          moves condition state call others permitted

/-- Over every interleaving of merges, pushes and closes.  A statement of a
merge call either swaps the base branch from the head that its target was
computed against, or leaves the branches alone.  A merged pull request, and
every reported merge, has a record: the base head is an ancestor of the merge
commit, and so is the head for merges and fast-forwards, or the head was
contained in the base head and the base stayed.  While pushes only move
branches forward, every recorded merge commit stays on its base branch. -/
theorem merges_recorded
    (unique : initial.repositories.branches.UniqueNames)
    (unmerged : initial.merges = [])
    (run : (pullProgram ids collation).Run allowed ⟨initial, [], []⟩ reached) :
    (∀ call, .merge call ∈ reached.calls →
      MergeEffect reached.shared (call.statement collation reached.shared).1
        call) ∧
    (∀ context mergeCommit pushBefore,
      .merge (.success context mergeCommit pushBefore) ∈ reached.results →
        ⟨context, mergeCommit, pushBefore⟩ ∈ reached.shared.merges) ∧
    MarkedSoundly initial.pullRequests reached.shared.pullRequests
      reached.shared.merges ∧
    (∀ record ∈ reached.shared.merges,
      record.Sound reached.shared.repositories.store) ∧
    ((∀ state call others, allowed state (.run (.push call)) others →
        PushForward state.repositories call) →
      ∀ record ∈ reached.shared.merges,
        HeadAbove reached.shared.repositories record.context.request.repoId
          record.context.pullRequest.baseBranch record.mergeCommit) := by
  obtain ⟨shared, calls, results⟩ :=
    pull_run False (fun impossible => impossible.elim) unique unmerged run
  refine ⟨?_, ?_, shared.marked, shared.records, ?_⟩
  · intro call member
    exact (merge_statement collation (calls _ member).1).2.2
  · intro context mergeCommit pushBefore member
    exact results _ member
  · intro moves
    have held := pull_run True (fun _ => moves) unique unmerged run
    exact held.1.above trivial

end Run

namespace ContainedHead

def signature : GitSignature := ⟨['a'], ['m'], 0, "+0000".toList⟩

def rootCommit (message : Text) : CommitContent Digest :=
  { tree := .ofObject (.tree []), parents := [], author := signature
    committer := signature, message := message }

def shared : Digest := .ofObject (.commit (rootCommit ['c']))

def unrelated : Digest := .ofObject (.commit (rootCommit ['d']))

def store : CommitStore termIds where
  commits := []
  bucket :=
    { objects :=
        [(.ofObject (.tree []), .tree []),
          (shared, .commit (rootCommit ['c'])),
          (unrelated, .commit (rootCommit ['d']))]
      sound := by
        intro entry member
        simp only [List.mem_cons, List.not_mem_nil, or_false] at member
        rcases member with rfl | rfl | rfl <;> rfl }

def branch (name : Text) (head : Digest) : BranchRow Digest :=
  { id := name, repoId := ['r'], name := name, commitSha := head
    isDefault := false, isProtected := false, createdAt := [], updatedAt := [] }

def pullRequest (status : PullRequestStatus) (mergedAt : Option Text) :
    PullRequestRow :=
  { id := ['p'], repoId := ['r'], number := 1, headBranch := ['t']
    baseBranch := ['m'], status := status, mergedAt := mergedAt
    updatedAt := [] }

def initial : MergeState termIds where
  repositories := ⟨[branch ['m'] shared, branch ['t'] shared], store⟩
  pullRequests := [pullRequest .opened none]
  merges := []

def request : MergeRequest :=
  { repoId := ['r'], prNumber := 1, mergeMethod := .merge, commitMessage := []
    user := ⟨['u'], ['m']⟩, now := 0, timestamp := [] }

def context : MergeContext Digest :=
  ⟨request, pullRequest .opened none, shared, shared⟩

def marked : MergeState termIds :=
  { initial with
    pullRequests := [pullRequest .merged (some [])]
    merges := [⟨context, shared, none⟩] }

def pushed : MergeState termIds :=
  marked.setBranches [branch ['m'] unrelated, branch ['t'] shared]

def success : PullOutcome Digest := .merge (.success context shared none)

variable (collation : Collation)

/-- Runs that begin with the open pull request. -/
abbrev RunTo (allowed : MergeState termIds → Program.Event (PullCall Digest) →
      List (PullCall Digest) → Prop)
    (state : MergeState termIds) (calls : List (PullCall Digest))
    (results : List (PullOutcome Digest)) : Prop :=
  (pullProgram termIds collation).Run allowed ⟨initial, [], []⟩
    ⟨state, calls, results⟩

theorem run_marked {allowed : MergeState termIds →
      Program.Event (PullCall Digest) → List (PullCall Digest) → Prop}
    (starts : ∀ state call, allowed state (.start (.merge call)) [])
    (permitted : ∀ state call, allowed state (.run (.merge call)) []) :
    RunTo collation allowed marked [] [success] := by
  have nothing : RunTo collation allowed initial [] [] := .here
  have run := nothing.play [.start (.merge (.findPullRequest request)), .run 0,
    .run 0, .run 0, .run 0, .run 0] (by
      with_unfolding_all
        repeat' first
          | exact trivial
          | exact ⟨request, rfl⟩
          | exact starts _ _
          | exact permitted _ _
          | apply And.intro)
  with_unfolding_all exact run

theorem run_pushed :
    RunTo collation (fun _ _ _ => True) pushed []
      [.push (.returned .ok), success] := by
  have merged : RunTo collation (fun _ _ _ => True) marked [] [success] :=
    run_marked collation (fun _ _ => trivial) fun _ _ => trivial
  have run := merged.play
    [.start (.push (.swapCommit ['r'] ['m'] shared unrelated [])), .run 0] (by
      with_unfolding_all
        repeat' first
          | exact trivial
          | exact ⟨['r'], ['m'], some shared, unrelated, [], [], by rfl⟩
          | apply And.intro)
  with_unfolding_all exact run

theorem unreached : ¬store.Reachable ['r'] unrelated shared := by
  intro reached
  rcases ReflTransGen.cases_head reached with same | ⟨parent, link, _⟩
  · cases same
  · have parents : store.parentsOf ['r'] unrelated = [] := rfl
    rw [CommitStore.ParentOf, parents] at link
    cases link

theorem unique : initial.repositories.branches.UniqueNames := by
  simp [BranchTable.UniqueNames, initial, branch]

end ContainedHead

open ContainedHead in
/-- The merge of a contained head. -/
theorem merges_recorded_contained :
    HeadAbove marked.repositories ['r'] ['m'] shared := by
  have run : RunTo charCollation PushesForward marked [] [success] :=
    run_marked _ (fun _ _ => trivial) fun _ _ => trivial
  have recorded := merges_recorded unique rfl run
  exact recorded.2.2.2.2 (fun _ _ _ forward => forward)
    ⟨context, shared, none⟩ List.mem_cons_self

open ContainedHead in
/-- The pull request is merged without any change of a branch.  A later push
that does not move forward leaves its merge commit off the base branch. -/
theorem contained_head_merged :
    RunTo charCollation (fun _ _ _ => True) marked [] [success] ∧
      initial.pullRequests.map PullRequestRow.status = [.opened] ∧
      marked.pullRequests.map PullRequestRow.status = [.merged] ∧
      marked.repositories.branches = initial.repositories.branches ∧
      RunTo charCollation (fun _ _ _ => True) pushed []
        [.push (.returned .ok), success] ∧
      pushed.pullRequests.map PullRequestRow.status = [.merged] ∧
      (pushed.repositories.branches.select ['r'] ['m']).map BranchRow.commitSha =
        some unrelated ∧
      ¬pushed.repositories.store.Reachable ['r'] unrelated shared :=
  ⟨run_marked charCollation (fun _ _ => trivial) fun _ _ => trivial, rfl, rfl,
    rfl, run_pushed charCollation, rfl, rfl, unreached⟩

end Takos.PullRequests
