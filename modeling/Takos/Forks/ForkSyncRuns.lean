import Takos.Forks.ForkSync
import Takos.Git.CommitCounts
import Takos.PullRequests.MergeRuns

/-!
# Synchronisations among pushes

A synchronisation moves the fork's branch only by a swap from a head that its
new commit has as an ancestor.  The route swaps the heads that it has counted;
`syncWithUpstream` swaps heads that it reads after the status, so they have to
stand as the status found the heads before.
-/

namespace Takos.Forks

open Takos.Foundation Takos.Git Relation
open Takos.PullRequests (createCommit createCommit_grows createCommit_parent
  mergeCleanly mergeCleanly_extends)

variable {Sha : Type} [DecidableEq Sha] {ids : ObjectIds Sha}

/-- The test of a fast-forward. -/
def FastForwards (store : CommitStore ids) (repoId : Text)
    (upstreamSha forkSha : Sha) : Prop :=
  let counts := store.countCommitsBetween repoId upstreamSha forkSha
  counts.has_merge_base = true ∧ counts.ahead = 0

/-- `syncWithUpstream` finds a head of the fork, when it reads the branch again,
that passes the test against the head of the upstream that it has read again. -/
def StillBehind (state : SyncState ids) (event : Program.Event (ForkCall Sha))
    (_ : List (ForkCall Sha)) : Prop :=
  match event with
  | .run (.sync (.rereadFork context _ upstreamSha)) =>
    ∀ branch, getBranch state.repositories.branches context.request.repoId
        context.branchName = some branch →
      FastForwards state.repositories.store context.request.repoId upstreamSha
        branch.commitSha
  | _ => True

theorem FastForwards.reachable {store : CommitStore ids} {repoId : Text}
    {upstreamSha forkSha : Sha}
    (forwards : FastForwards store repoId upstreamSha forkSha) :
    store.Reachable repoId upstreamSha forkSha := by
  obtain ⟨related, ahead⟩ := forwards
  cases found : store.findMergeBase repoId upstreamSha forkSha with
  | none =>
      rw [CommitStore.countCommitsBetween_none found] at related
      cases related
  | some mergeBase =>
      exact (CommitStore.countCommitsBetween_around found).aheadZero.mp ahead

section Heads

open BranchTable

omit [DecidableEq Sha] in
theorem select_of_unique {table : BranchTable Sha} (unique : table.UniqueNames)
    {row : BranchRow Sha} (member : row ∈ table) :
    table.select row.repoId row.name = some row := by
  cases found : table.select row.repoId row.name with
  | none =>
      have missed := List.find?_eq_none.mp found row member
      exact absurd ((matchesName_iff _ _ row).mpr ⟨rfl, rfl⟩) missed
  | some other =>
      have matched := List.find?_some found
      have within := List.mem_of_find?_eq_some found
      rw [unique.eq_of_key within member ((matchesName_iff _ _ other).mp matched)]

theorem select_compareAndSwap {table : BranchTable Sha}
    (unique : table.UniqueNames) {repoId name timestamp : Text}
    {oldSha newSha : Sha} (matched : table.swaps repoId name oldSha = true) :
    (table.select repoId name).map BranchRow.commitSha = some oldSha ∧
      ((table.compareAndSwap repoId name oldSha newSha timestamp).select repoId
        name).map BranchRow.commitSha = some newSha := by
  obtain ⟨row, member, condition⟩ := List.any_eq_true.mp matched
  have holds := condition
  simp only [Bool.and_eq_true, decide_eq_true_eq] at holds
  obtain ⟨rfl, rfl⟩ := (matchesName_iff _ _ row).mp holds.1
  constructor
  · rw [select_of_unique unique member, Option.map_some, holds.2]
  · have uniqueAfter : (table.compareAndSwap row.repoId row.name oldSha newSha
        timestamp).UniqueNames := by
      apply unique.map
      intro other
      split <;> exact ⟨rfl, rfl⟩
    have swapped : { row with commitSha := newSha, updatedAt := timestamp } ∈
        table.compareAndSwap row.repoId row.name oldSha newSha timestamp :=
      List.mem_map.mpr ⟨row, member, if_pos condition⟩
    have found := select_of_unique uniqueAfter swapped
    dsimp only at found
    rw [found]
    rfl

omit [DecidableEq Sha] in
theorem select_insert {table inserted : BranchTable Sha} {row : BranchRow Sha}
    (success : table.insert row = some inserted) :
    table.select row.repoId row.name = none ∧
      inserted.select row.repoId row.name = some row := by
  simp only [BranchTable.insert] at success
  split at success
  · cases success
  · rename_i free
    cases success
    have absent : table.select row.repoId row.name = none := by
      apply List.find?_eq_none.mpr
      intro other member matched
      apply free
      apply List.any_eq_true.mpr
      exact ⟨other, member, by simp [matched]⟩
    refine ⟨absent, ?_⟩
    have last : matchesName row.repoId row.name row = true :=
      (matchesName_iff _ _ row).mpr ⟨rfl, rfl⟩
    have whole : (table ++ [row]).find? (matchesName row.repoId row.name) =
        some row := by
      rw [List.find?_append, show table.find? _ = none from absent]
      simp [last]
    exact whole

end Heads

/-- What a call may still do to the fork's branch. -/
def Pending (store : CommitStore ids) (context : SyncContext) (newSha : Sha) :
    RefCall Sha → Prop
  | .swapCommit repoId name oldSha swapped _ =>
    repoId = context.request.repoId ∧ name = context.branchName ∧
      swapped = newSha ∧ store.Reachable repoId newSha oldSha
  | .insertBranch row =>
    row.repoId = context.request.repoId ∧ row.name = context.branchName ∧
      row.commitSha = newSha
  | .readExisting _ _ _ => True
  | .readCurrent _ _ => True
  | _ => False

variable {call : RefCall Sha} {newSha : Sha} {earlier later : CommitStore ids}
  {state : SyncState ids}

theorem Pending.grow (grown : CommitStore.Grows earlier later)
    {context : SyncContext} (pending : Pending earlier context newSha call) :
    Pending later context newSha call := by
  cases call with
  | swapCommit repoId name oldSha swapped timestamp =>
      obtain ⟨repo, branch, same, reached⟩ := pending
      exact ⟨repo, branch, same, grown.reachable reached⟩
  | _ => exact pending

theorem updateFork_pending {store : CommitStore ids} {context : SyncContext}
    {oldSha : Option Sha}
    (begun : updateFork ids context oldSha newSha = .next call)
    (above : ∀ sha, oldSha = some sha →
      store.Reachable context.request.repoId newSha sha) :
    Pending store context newSha call := by
  simp only [updateFork, updateBranch, createBranch] at begun
  split at begun
  · cases begun
  · split at begun
    · cases begun
    · split at begun
      · split at begun
        · cases begun
        · cases begun
          exact ⟨rfl, rfl, rfl⟩
      · cases begun
        exact ⟨rfl, rfl, rfl, above _ rfl⟩

/-- The move drops no commit of the branch. -/
def SyncMove.Sound (store : CommitStore ids) (move : SyncMove Sha) : Prop :=
  ∀ sha, move.before = some sha → store.Reachable move.repoId move.after sha

structure Moved (before after : SyncState ids) (context : SyncContext)
    (move : SyncMove Sha) : Prop where
  recorded : after.moves = move :: before.moves
  repo : move.repoId = context.request.repoId
  name : move.name = context.branchName
  sound : move.Sound before.repositories.store
  old : (before.repositories.branches.select move.repoId move.name).map
    BranchRow.commitSha = move.before
  new : (after.repositories.branches.select move.repoId move.name).map
    BranchRow.commitSha = some move.after

/-- A statement of the update moves the branch and succeeds, or does nothing
and does not. -/
theorem updated_cases (unique : state.repositories.branches.UniqueNames)
    {context : SyncContext}
    (pending : Pending state.repositories.store context newSha call) :
    (state.updated context newSha call = state ∧
      ∀ result, (call.statement state.repositories.branches).2 =
        .done (.returned result) → result.success = false) ∨
    ((∃ move, Moved state (state.updated context newSha call) context move) ∧
      (call.statement state.repositories.branches).2 =
        .done (.returned .ok)) := by
  cases call with
  | swapCommit repoId name oldSha swapped timestamp =>
      obtain ⟨rfl, rfl, rfl, reached⟩ := pending
      cases matched : state.repositories.branches.swaps context.request.repoId
          context.branchName oldSha with
      | false =>
          left
          simp [SyncState.updated, RefCall.statement, matched]
      | true =>
          right
          obtain ⟨old, new⟩ := select_compareAndSwap unique matched
          refine ⟨⟨⟨context.request.repoId, context.branchName, some oldSha,
            swapped⟩, ?_⟩, by simp [RefCall.statement, matched]⟩
          constructor
          · simp [SyncState.updated, RefCall.statement, matched, old,
              RefUpdateResult.ok]
          · rfl
          · rfl
          · rintro sha ⟨⟩
            exact reached
          · exact old
          · simpa [SyncState.updated, RefCall.statement, matched] using new
  | insertBranch row =>
      obtain ⟨repo, name, rfl⟩ := pending
      cases inserted : state.repositories.branches.insert row with
      | none =>
          left
          simp [SyncState.updated, RefCall.statement, inserted]
      | some branches =>
          right
          obtain ⟨old, new⟩ := select_insert inserted
          rw [repo, name] at old new
          refine ⟨⟨⟨context.request.repoId, context.branchName, none,
            row.commitSha⟩, ?_⟩, by simp [RefCall.statement, inserted]⟩
          constructor
          · simp [SyncState.updated, RefCall.statement, inserted, old,
              RefUpdateResult.ok]
          · rfl
          · rfl
          · rintro sha ⟨⟩
          · simp [old]
          · simp [SyncState.updated, RefCall.statement, inserted, new]
  | readExisting repoId name commitSha =>
      left
      cases found : getBranch state.repositories.branches repoId name <;>
        simp [SyncState.updated, RefCall.statement, found]
  | readCurrent repoId name =>
      left
      cases found : getBranch state.repositories.branches repoId name <;>
        simp [SyncState.updated, RefCall.statement, found,
          RefUpdateResult.failure]
  | _ => exact pending.elim

theorem Pending.continues {store : CommitStore ids} {context : SyncContext}
    {call rest : RefCall Sha} {table : BranchTable Sha}
    (pending : Pending store context newSha call)
    (executed : (call.statement table).2 = .next rest) :
    Pending store context newSha rest := by
  cases call with
  | swapCommit | insertBranch =>
      simp only [RefCall.statement] at executed
      split at executed
      · cases executed
      · cases executed
        trivial
  | readExisting | readCurrent =>
      simp only [RefCall.statement] at executed
      split at executed <;> cases executed
  | _ => exact pending.elim

/-- What holds before the next statement of a synchronisation. -/
def SyncCall.Sound (store : CommitStore ids) : SyncCall Sha → Prop
  | .update context _ upstreamSha statement =>
    Pending store context upstreamSha statement
  | .fastForwardRoute context _ upstreamSha statement =>
    Pending store context upstreamSha statement
  | .updateMerged context _ _ mergeCommit statement =>
    Pending store context mergeCommit.sha statement
  | _ => True

theorem SyncCall.Sound.grow (grown : CommitStore.Grows earlier later)
    {call : SyncCall Sha} (sound : call.Sound earlier) : call.Sound later := by
  cases call with
  | update | fastForwardRoute | updateMerged =>
      exact Pending.grow grown sound
  | _ => trivial

theorem SyncMove.Sound.grow (grown : CommitStore.Grows earlier later)
    {move : SyncMove Sha} (sound : move.Sound earlier) : move.Sound later :=
  fun sha before => grown.reachable (sound sha before)

def StepSound (store : CommitStore ids) : SyncStep Sha → Prop
  | .next rest => rest.Sound store
  | .done _ => True

/-- The branches stay, or the statement ends the call with success and moves the
branch. -/
def SyncEffect (before after : SyncState ids) (outcome : SyncStep Sha) : Prop :=
  (after.repositories.branches = before.repositories.branches ∧
    after.moves = before.moves) ∨
  ∃ context move result, Moved before after context move ∧
    outcome = .done result ∧ result.success = true

section Finish

variable {store : CommitStore ids} {context : SyncContext}
  {outcome : Outcome (RefCall Sha) (RefOutcome Sha)}

theorem finishUpdate_sound {status : SyncStatus} {upstreamSha : Sha}
    (pending : ∀ call, outcome = .next call →
      Pending store context upstreamSha call) :
    StepSound store (finishUpdate context status upstreamSha outcome) := by
  cases outcome with
  | next call => exact pending call rfl
  | done result =>
      cases result with
      | returned result =>
          simp only [finishUpdate]
          split <;> trivial
      | createFailed repoId name commitSha => trivial

theorem finishFastForward_sound {counts : CommitCounts} {upstreamSha : Sha}
    (pending : ∀ call, outcome = .next call →
      Pending store context upstreamSha call) :
    StepSound store (finishFastForward context counts upstreamSha outcome) := by
  cases outcome with
  | next call => exact pending call rfl
  | done result =>
      cases result with
      | returned result =>
          simp only [finishFastForward]
          split <;> trivial
      | createFailed repoId name commitSha => trivial

theorem finishMerged_sound {forkSha upstreamSha : Sha}
    {mergeCommit : GitCommit Sha}
    (pending : ∀ call, outcome = .next call →
      Pending store context mergeCommit.sha call) :
    StepSound store
      (finishMerged context forkSha upstreamSha mergeCommit outcome) := by
  cases outcome with
  | next call => exact pending call rfl
  | done result =>
      cases result with
      | returned result =>
          simp only [finishMerged]
          split <;> trivial
      | createFailed repoId name commitSha => trivial

end Finish

theorem afterStatus_sound (store : CommitStore ids) (context : SyncContext)
    (status : SyncStatus) :
    StepSound store (afterStatus context status : SyncStep Sha) := by
  simp only [afterStatus]
  split
  · trivial
  · split <;> trivial

theorem afterCounts_sound {store : CommitStore ids} {context : SyncContext}
    {forkSha upstreamSha : Sha} :
    StepSound store (afterCounts ids context forkSha upstreamSha
      (store.countCommitsBetween context.request.repoId upstreamSha
        forkSha)) := by
  unfold afterCounts
  split
  · trivial
  · rename_i related
    dsimp only
    split
    · trivial
    · split
      · trivial
      · split
        · rename_i forwards
          apply finishFastForward_sound
          intro call begun
          apply updateFork_pending begun
          rintro sha ⟨⟩
          have holds : FastForwards store context.request.repoId upstreamSha
              forkSha := ⟨by simpa using related, forwards.1⟩
          exact holds.reachable
        · trivial

theorem mergeHeads_sound (collation : Collation) (context : SyncContext)
    (forkSha upstreamSha mergeBase : Sha) (store : CommitStore ids) :
    CommitStore.Grows store
        (mergeHeads collation context forkSha upstreamSha mergeBase store).1 ∧
      StepSound
        (mergeHeads collation context forkSha upstreamSha mergeBase store).1
        (mergeHeads collation context forkSha upstreamSha mergeBase store).2 := by
  unfold mergeHeads
  split
  · split
    · exact ⟨.refl _, trivial⟩
    · exact ⟨.refl _, trivial⟩
    · rename_i treeSha bucket merged
      have stored := CommitStore.grows_bucket store (mergeCleanly_extends merged)
      have grown := createCommit_grows { store with bucket }
        context.request.repoId
        (mergeContent context forkSha upstreamSha treeSha)
      split
      · rename_i later created
        rw [created] at grown
        exact ⟨stored.trans grown, trivial⟩
      · rename_i later mergeCommit created
        have parent := createCommit_parent (congrArg Prod.snd created)
          (show forkSha ∈ (mergeContent context forkSha upstreamSha
            treeSha).parents from List.mem_cons_self)
        rw [created] at grown parent
        refine ⟨stored.trans grown, ?_⟩
        apply finishMerged_sound
        intro call begun
        apply updateFork_pending begun
        rintro sha ⟨⟩
        exact .single parent
  · exact ⟨.refl _, trivial⟩

theorem updated_effect (unique : state.repositories.branches.UniqueNames)
    {context : SyncContext}
    (pending : Pending state.repositories.store context newSha call)
    (finish : Outcome (RefCall Sha) (RefOutcome Sha) → SyncStep Sha)
    (succeeds : ∃ result, finish (.done (.returned .ok)) = .done result ∧
      result.success = true) :
    SyncEffect state (state.updated context newSha call)
      (finish (call.statement state.repositories.branches).2) := by
  rcases updated_cases unique pending with ⟨same, _⟩ | ⟨⟨move, moved⟩, ended⟩
  · rw [same]
    exact .inl ⟨rfl, rfl⟩
  · right
    obtain ⟨result, finished, success⟩ := succeeds
    rw [ended]
    exact ⟨context, move, result, moved, finished, success⟩

/-- What a statement of a synchronisation does, and what holds before the next. -/
structure SyncStatement (before after : SyncState ids)
    (outcome : SyncStep Sha) : Prop where
  grown : CommitStore.Grows before.repositories.store after.repositories.store
  next : StepSound after.repositories.store outcome
  effect : SyncEffect before after outcome

theorem SyncStatement.quiet {outcome : SyncStep Sha}
    (next : StepSound state.repositories.store outcome) :
    SyncStatement state state outcome :=
  ⟨.refl _, next, .inl ⟨rfl, rfl⟩⟩

theorem sync_statement (collation : Collation) {call : SyncCall Sha}
    (unique : state.repositories.branches.UniqueNames)
    (sound : call.Sound state.repositories.store)
    (behind : StillBehind state (.run (.sync call)) []) :
    SyncStatement state (call.statement collation state).1
      (call.statement collation state).2 := by
  cases call with
  | findRepository | findRouteUpstream =>
      apply SyncStatement.quiet
      simp only [SyncCall.statement]
      split
      · trivial
      · split <;> trivial
  | findUpstream | rereadUpstream | readRouteFork | readRouteUpstream
  | findMergeBase =>
      apply SyncStatement.quiet
      simp only [SyncCall.statement]
      split <;> trivial
  | findFork context =>
      apply SyncStatement.quiet
      simp only [SyncCall.statement]
      split
      · apply afterStatus_sound
      · trivial
  | readForkHead context upstreamRepoId =>
      exact SyncStatement.quiet trivial
  | readUpstreamHead context upstreamRepoId forkBranch =>
      apply SyncStatement.quiet
      simp only [SyncCall.statement]
      split
      · trivial
      · apply afterStatus_sound
  | checkStatus context upstreamRepoId forkSha upstreamSha =>
      apply SyncStatement.quiet
      apply afterStatus_sound
  | rereadFork context status upstreamSha =>
      apply SyncStatement.quiet
      apply finishUpdate_sound
      intro call begun
      apply updateFork_pending begun
      intro sha read
      obtain ⟨branch, found, rfl⟩ := Option.map_eq_some_iff.mp read
      exact (behind branch found).reachable
  | update context status upstreamSha statement =>
      refine ⟨.refl _, ?_, ?_⟩
      · apply finishUpdate_sound
        intro rest executed
        exact Pending.continues sound executed
      · exact updated_effect unique sound
          (finishUpdate context status upstreamSha)
          ⟨_, rfl, rfl⟩
  | findRouteRepository request =>
      apply SyncStatement.quiet
      simp only [SyncCall.statement]
      split
      · trivial
      · split
        · trivial
        · split
          · trivial
          · split <;> trivial
  | countRoute context forkSha upstreamSha =>
      apply SyncStatement.quiet
      apply afterCounts_sound
  | fastForwardRoute context counts upstreamSha statement =>
      refine ⟨.refl _, ?_, ?_⟩
      · apply finishFastForward_sound
        intro rest executed
        exact Pending.continues sound executed
      · exact updated_effect unique sound
          (finishFastForward context counts upstreamSha)
          ⟨_, rfl, rfl⟩
  | mergeRoute context forkSha upstreamSha mergeBase =>
      have merged := mergeHeads_sound collation context forkSha upstreamSha
        mergeBase state.repositories.store
      exact ⟨merged.1, merged.2, .inl ⟨rfl, rfl⟩⟩
  | updateMerged context forkSha upstreamSha mergeCommit statement =>
      refine ⟨.refl _, ?_, ?_⟩
      · apply finishMerged_sound
        intro rest executed
        exact Pending.continues sound executed
      · exact updated_effect unique sound
          (finishMerged context forkSha upstreamSha mergeCommit)
          ⟨_, rfl, rfl⟩

/-- The index is unique, and no move has dropped a commit. -/
structure MovesSound (state : SyncState ids) : Prop where
  unique : state.repositories.branches.UniqueNames
  moves : ∀ move ∈ state.moves, move.Sound state.repositories.store

def ForkCall.Sound (store : CommitStore ids) : ForkCall Sha → Prop
  | .sync call => call.Sound store
  | _ => True

theorem ForkCall.Sound.grow (grown : CommitStore.Grows earlier later)
    {call : ForkCall Sha} (sound : call.Sound earlier) : call.Sound later := by
  cases call with
  | sync call => exact SyncCall.Sound.grow grown sound
  | _ => trivial

def forkAssertions (ids : ObjectIds Sha) :
    Program.Assertions (SyncState ids) (ForkCall Sha) (ForkOutcome Sha) where
  shared := MovesSound
  call := fun state call => call.Sound state.repositories.store
  result := fun _ _ => True

theorem SyncEffect.moves {before after : SyncState ids}
    {outcome : SyncStep Sha} (effect : SyncEffect before after outcome)
    (grown : CommitStore.Grows before.repositories.store
      after.repositories.store)
    (sound : ∀ move ∈ before.moves, move.Sound before.repositories.store) :
    ∀ move ∈ after.moves, move.Sound after.repositories.store := by
  rcases effect with ⟨_, same⟩ | ⟨context, added, result, moved, _, _⟩
  · intro move member
    rw [same] at member
    exact (sound move member).grow grown
  · intro move member
    rw [moved.recorded] at member
    rcases List.mem_cons.mp member with rfl | old
    · exact moved.sound.grow grown
    · exact (sound move old).grow grown

theorem updated_unique (context : SyncContext) (newSha : Sha)
    (call : RefCall Sha) (unique : state.repositories.branches.UniqueNames) :
    (state.updated context newSha
      call).repositories.branches.UniqueNames :=
  uniqueNames_statement call unique

theorem sync_unique (collation : Collation) (call : SyncCall Sha)
    (unique : state.repositories.branches.UniqueNames) :
    (call.statement collation
      state).1.repositories.branches.UniqueNames := by
  cases call with
  | update context status upstreamSha statement =>
      exact updated_unique context upstreamSha statement unique
  | fastForwardRoute context counts upstreamSha statement =>
      exact updated_unique context upstreamSha statement unique
  | updateMerged context forkSha upstreamSha mergeCommit statement =>
      exact updated_unique context mergeCommit.sha statement unique
  | _ => exact unique

theorem fork_kept (collation : Collation) {call : ForkCall Sha}
    (shared : MovesSound state) (sound : call.Sound state.repositories.store)
    (behind : StillBehind state (.run call) []) :
    (forkAssertions ids).Kept (forkProgram ids collation) state call := by
  cases call with
  | sync call =>
      have executed := sync_statement collation shared.unique sound behind
      refine ⟨⟨sync_unique collation call shared.unique,
        executed.effect.moves executed.grown shared.moves⟩, ?_,
        fun other held => ForkCall.Sound.grow executed.grown held,
        fun _ _ => trivial⟩
      change (forkAssertions ids).HoldAfter (call.statement collation state).1
        ((call.statement collation state).2.map .sync .sync)
      have next := executed.next
      cases reached : (call.statement collation state).2 with
      | next rest =>
          rw [reached] at next
          exact next
      | done result => trivial
  | ref call =>
      refine ⟨⟨uniqueNames_statement call shared.unique, shared.moves⟩, ?_,
        fun _ held => held, fun _ _ => trivial⟩
      change (forkAssertions ids).HoldAfter _
        ((call.statement state.repositories.branches).2.map .ref .ref)
      cases (call.statement state.repositories.branches).2 <;> trivial
  | commit repoId content =>
      have grown := createCommit_grows state.repositories.store repoId content
      refine ⟨⟨shared.unique, ?_⟩, trivial,
        fun _ held => ForkCall.Sound.grow grown held, fun _ _ => trivial⟩
      exact fun move member => (shared.moves move member).grow grown

/-- Every synchronisation of a run finds the fork's head still behind: then no
move has dropped a commit, and the next statement of each synchronisation in
progress leaves the branches alone, or moves the fork's branch to a commit above
its head and ends with success. -/
theorem syncs_forward {collation : Collation} {initial : SyncState ids}
    {reached : Program.Config (SyncState ids) (ForkCall Sha) (ForkOutcome Sha)}
    (unique : initial.repositories.branches.UniqueNames)
    (unmoved : initial.moves = [])
    (run : (forkProgram ids collation).Run StillBehind ⟨initial, [], []⟩
      reached) :
    (∀ move ∈ reached.shared.moves,
      move.Sound reached.shared.repositories.store) ∧
    ∀ call, .sync call ∈ reached.calls →
      StillBehind reached.shared (.run (.sync call)) [] →
      SyncEffect reached.shared (call.statement collation reached.shared).1
        (call.statement collation reached.shared).2 := by
  have held : (forkAssertions ids).Hold reached := by
    apply Program.Assertions.hold_of_run _ run
    · exact ⟨⟨unique, by simp [unmoved]⟩, by simp, by simp⟩
    · intro state call starts
      cases call with
      | sync call =>
          obtain ⟨request, rfl | rfl⟩ := starts <;> trivial
      | _ => trivial
    · intro state call others shared sound behind
      exact fork_kept collation shared sound behind
  obtain ⟨shared, calls, _⟩ := held
  refine ⟨shared.moves, ?_⟩
  intro call member behind
  exact (sync_statement collation shared.unique (calls _ member) behind).effect

namespace OnePush

def signature : GitSignature := ⟨['a'], ['m'], 0, "+0000".toList⟩

def content (message : Text) (parents : List Digest) : CommitContent Digest :=
  { tree := .ofObject (.tree []), parents, author := signature
    committer := signature, message }

def root : Digest := .ofObject (.commit (content ['r'] []))

def upstream : Digest := .ofObject (.commit (content ['u'] [root]))

def pushed : Digest := .ofObject (.commit (content ['p'] [root]))

def store : CommitStore termIds where
  commits := []
  bucket :=
    { objects :=
        [(.ofObject (.tree []), .tree []),
          (root, .commit (content ['r'] [])),
          (upstream, .commit (content ['u'] [root])),
          (pushed, .commit (content ['p'] [root]))]
      sound := by
        intro entry member
        simp only [List.mem_cons, List.not_mem_nil, or_false] at member
        rcases member with rfl | rfl | rfl | rfl <;> rfl }

def branch (repoId : Text) (head : Digest) : BranchRow Digest :=
  { id := repoId, repoId, name := ['m'], commitSha := head, isDefault := true
    isProtected := false, createdAt := [], updatedAt := [] }

def stateAt (head : Digest) (moves : List (SyncMove Digest)) :
    SyncState termIds where
  repositories := ⟨[branch ['f'] head, branch ['u'] upstream], store⟩
  rows := [⟨['f'], some ['u'], some ['m']⟩, ⟨['u'], none, some ['m']⟩]
  forks := [⟨['f'], ['u']⟩]
  moves := moves

def initial : SyncState termIds := stateAt root []

def request : SyncRequest :=
  { repoId := ['f'], branch := none, remote := none, merges := false
    permitted := true, user := ⟨['u'], ['m']⟩, now := 0, timestamp := []
    branchId := [] }

def context : SyncContext := ⟨request, ['u'], ['m']⟩

def status : SyncStatus := ⟨true, true, 1, 0, true, false, some ['u']⟩

abbrev RunTo (allowed : SyncState termIds → Program.Event (ForkCall Digest) →
      List (ForkCall Digest) → Prop)
    (state : SyncState termIds) (calls : List (ForkCall Digest))
    (results : List (ForkOutcome Digest)) : Prop :=
  (forkProgram termIds charCollation).Run allowed ⟨initial, [], []⟩
    ⟨state, calls, results⟩

def synced : ForkOutcome Digest :=
  .sync (.returned ⟨true, 1, some upstream, false, syncedMessage 1⟩)

/-- Without a push the branch is moved from its counted head. -/
theorem run_synced :
    RunTo StillBehind (stateAt upstream [⟨['f'], ['m'], some root, upstream⟩]) []
      [synced] := by
  have nothing : RunTo StillBehind initial [] [] := .here
  have behind : StillBehind initial
      (.run (.sync (.rereadFork context status upstream))) [] := by
    intro found read
    cases read
    exact ⟨by with_unfolding_all rfl, by with_unfolding_all rfl⟩
  have run := nothing.play [.start (.sync (.findRepository request)), .run 0,
    .run 0, .run 0, .run 0, .run 0, .run 0, .run 0, .run 0, .run 0] (by
      with_unfolding_all
        repeat' first
          | exact trivial
          | exact ⟨request, .inl rfl⟩
          | exact behind
          | apply And.intro)
  with_unfolding_all exact run

/-- The push comes after the heads are read for the status, and before the
fork's head is read again. -/
theorem run_dropped :
    RunTo (fun _ _ _ => True)
      (stateAt upstream [⟨['f'], ['m'], some pushed, upstream⟩]) []
      [synced, .ref (.returned .ok)] := by
  have nothing : RunTo (fun _ _ _ => True) initial [] [] := .here
  have run := nothing.play [.start (.sync (.findRepository request)), .run 0,
    .run 0, .run 0, .run 0, .run 0, .run 0, .run 0,
    .start (.ref (.swapCommit ['f'] ['m'] root pushed [])), .run 0, .run 0,
    .run 0] (by
      with_unfolding_all
        repeat' first
          | exact trivial
          | exact ⟨request, .inl rfl⟩
          | exact ⟨.updateBranch ['f'] ['m'] (some root) pushed, [], [], rfl⟩
          | apply And.intro)
  with_unfolding_all exact run

theorem unreached : ¬store.Reachable ['f'] upstream pushed := by
  intro reached
  rcases ReflTransGen.cases_head reached with same | ⟨parent, link, further⟩
  · cases same
  · have parents : store.parentsOf ['f'] upstream = [root] := rfl
    rw [CommitStore.ParentOf, parents, List.mem_singleton] at link
    subst link
    rcases ReflTransGen.cases_head further with same | ⟨parent, link, _⟩
    · cases same
    · have none : store.parentsOf ['f'] root = [] := rfl
      rw [CommitStore.ParentOf, none] at link
      cases link

theorem unique : initial.repositories.branches.UniqueNames := by
  simp [BranchTable.UniqueNames, initial, stateAt, branch]

end OnePush

open OnePush in
theorem syncs_forward_root : store.Reachable ['f'] upstream root := by
  have forward := syncs_forward unique rfl run_synced
  exact forward.1 ⟨['f'], ['m'], some root, upstream⟩ List.mem_cons_self root rfl

open OnePush in
/-- A synchronisation that reports success drops a commit that was pushed after
its status. -/
theorem push_dropped :
    ¬ ∀ (collation : Collation) (initial : SyncState termIds)
        (reached : Program.Config (SyncState termIds) (ForkCall Digest)
          (ForkOutcome Digest)),
      initial.repositories.branches.UniqueNames → initial.moves = [] →
      (forkProgram termIds collation).Run (fun _ _ _ => True)
        ⟨initial, [], []⟩ reached →
      ∀ move ∈ reached.shared.moves,
        move.Sound reached.shared.repositories.store := by
  intro every
  have sound := every charCollation initial _ unique rfl run_dropped
    ⟨['f'], ['m'], some pushed, upstream⟩ List.mem_cons_self pushed rfl
  exact unreached sound

end Takos.Forks
