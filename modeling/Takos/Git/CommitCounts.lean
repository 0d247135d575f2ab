import Takos.Git.CommitAncestry

/-!
# Ahead and behind counts

The counting walk leaves out one commit, the merge base that was found.  It
counts the commits reachable around that one, which is at least the number of
commits missing on the other side.
-/

namespace Takos.Git

open Takos.Foundation Takos.Foundation.Ancestry Relation

namespace CommitStore

variable {Sha : Type} [DecidableEq Sha] {ids : ObjectIds Sha}

/-- Commits reachable from `start` without passing `mergeBase`. -/
def Around (store : CommitStore ids) (repoId : Text) (mergeBase start : Sha) :
    Set Sha :=
  {sha | Avoids (store.ParentOf repoId) mergeBase start sha}

/-- Commits reachable from `start` and not from `other`. -/
def MissingFrom (store : CommitStore ids) (repoId : Text)
    (other start : Sha) : Set Sha :=
  Unshared (store.ParentOf repoId) other start

theorem countCommitsTo_finite (store : CommitStore ids) (repoId : Text)
    (fromSha stopAtSha : Sha) :
    (store.Around repoId stopAtSha fromSha).Finite ∧
    store.countCommitsTo repoId fromSha stopAtSha =
      (store.Around repoId stopAtSha fromSha).ncard := by
  obtain ⟨visited, outcome⟩ := store.parentWalk_exhausts repoId
    (fun sha => sha = stopAtSha) false fromSha
  obtain ⟨nodup, members, _⟩ := QueueSearch.search_none _ outcome
  have same : store.Around repoId stopAtSha fromSha = ↑visited.toFinset := by
    apply Set.ext
    intro sha
    have member := members sha
    rw [parentWalk_avoids_iff] at member
    simpa [Around] using member.symm
  have counted : store.countCommitsTo repoId fromSha stopAtSha =
      visited.length := by
    simp only [countCommitsTo, outcome]
  constructor
  · rw [same]
    exact Finset.finite_toSet _
  · rw [counted, same, Set.ncard_coe_finset, List.toFinset_card_of_nodup nodup]

theorem countCommitsTo_eq_zero_iff (store : CommitStore ids) (repoId : Text)
    (fromSha stopAtSha : Sha) :
    store.countCommitsTo repoId fromSha stopAtSha = 0 ↔
      fromSha = stopAtSha := by
  obtain ⟨finite, counted⟩ :=
    store.countCommitsTo_finite repoId fromSha stopAtSha
  rw [counted, Set.ncard_eq_zero finite]
  constructor
  · intro empty
    by_contra different
    have member : fromSha ∈ store.Around repoId stopAtSha fromSha :=
      ⟨different, .refl⟩
    rw [empty] at member
    exact member
  · intro same
    apply Set.eq_empty_of_forall_notMem
    intro sha avoids
    exact avoids.1 same

/-- What one side's count says about the commits missing on the other. -/
theorem countCommitsTo_missing (store : CommitStore ids) (repoId : Text)
    {other mergeBase : Sha} (start : Sha)
    (shared : store.Reachable repoId other mergeBase) :
    (store.MissingFrom repoId other start).ncard ≤
      store.countCommitsTo repoId start mergeBase ∧
    (store.countCommitsTo repoId start mergeBase =
        (store.MissingFrom repoId other start).ncard ↔
      ∀ sha, store.Reachable repoId other sha →
        sha ∉ store.Around repoId mergeBase start) := by
  obtain ⟨finite, counted⟩ :=
    store.countCommitsTo_finite repoId start mergeBase
  rw [counted]
  constructor
  · exact Set.ncard_le_ncard (unshared_subset_avoids shared) finite
  · exact ncard_avoids_eq_iff shared finite

/-- The second tip is the merge base exactly when the first descends from it:
the search meets it before anything else. -/
theorem findMergeBase_eq_right_iff (store : CommitStore ids) (repoId : Text)
    (sha1 sha2 : Sha) :
    store.findMergeBase repoId sha1 sha2 = some sha2 ↔
      store.Reachable repoId sha1 sha2 := by
  constructor
  · intro found
    exact (store.findMergeBase_some repoId found).1.1
  · intro reached
    cases found : store.findMergeBase repoId sha1 sha2 with
    | none =>
        have unrelated := (store.findMergeBase_none_iff repoId sha1 sha2).mp found
        exact absurd ⟨sha2, reached, .refl⟩ unrelated
    | some mergeBase =>
        obtain ⟨_, distance, path, least⟩ :=
          store.findMergeBase_some repoId found
        have close := least 0 sha2 ⟨reached, .refl⟩ (.here sha2)
        have zero : distance = 0 := by omega
        subst zero
        cases path with
        | here => rfl

variable {store : CommitStore ids} {repoId : Text}
  {baseSha headSha mergeBase : Sha}

theorem findMergeBase_eq_left {sha1 sha2 : Sha}
    (found : store.findMergeBase repoId sha1 sha2 = some sha1) :
    store.Reachable repoId sha2 sha1 :=
  (store.findMergeBase_some repoId found).1.2

theorem countCommitsBetween_none {baseSha headSha : Sha}
    (found : store.findMergeBase repoId baseSha headSha = none) :
    store.countCommitsBetween repoId baseSha headSha = ⟨0, 0, false⟩ := by
  simp only [countCommitsBetween, found]

theorem countCommitsBetween_some
    (found : store.findMergeBase repoId baseSha headSha = some mergeBase) :
    store.countCommitsBetween repoId baseSha headSha =
      ⟨store.countCommitsTo repoId headSha mergeBase,
        store.countCommitsTo repoId baseSha mergeBase, true⟩ := by
  simp only [countCommitsBetween, found]

/-- Counts around `mergeBase`, each exact when no shared commit is reachable
around it. -/
structure CountsAround (store : CommitStore ids) (repoId : Text)
    (baseSha headSha mergeBase : Sha) (counts : CommitCounts) : Prop where
  related : counts.has_merge_base = true
  ahead : counts.ahead = (store.Around repoId mergeBase headSha).ncard
  behind : counts.behind = (store.Around repoId mergeBase baseSha).ncard
  aheadLe : (store.MissingFrom repoId baseSha headSha).ncard ≤ counts.ahead
  behindLe : (store.MissingFrom repoId headSha baseSha).ncard ≤ counts.behind
  aheadExact : counts.ahead = (store.MissingFrom repoId baseSha headSha).ncard ↔
    ∀ sha, store.Reachable repoId baseSha sha →
      sha ∉ store.Around repoId mergeBase headSha
  behindExact :
    counts.behind = (store.MissingFrom repoId headSha baseSha).ncard ↔
      ∀ sha, store.Reachable repoId headSha sha →
        sha ∉ store.Around repoId mergeBase baseSha
  aheadZero : counts.ahead = 0 ↔ store.Reachable repoId baseSha headSha
  behindZero : counts.behind = 0 ↔ baseSha = mergeBase

theorem countCommitsBetween_around
    (found : store.findMergeBase repoId baseSha headSha = some mergeBase) :
    store.CountsAround repoId baseSha headSha mergeBase
      (store.countCommitsBetween repoId baseSha headSha) := by
  have common := (store.findMergeBase_some repoId found).1
  have headSide := store.countCommitsTo_missing repoId headSha common.1
  have baseSide := store.countCommitsTo_missing repoId baseSha common.2
  rw [countCommitsBetween_some found]
  exact
    { related := rfl
      ahead := (store.countCommitsTo_finite repoId headSha mergeBase).2
      behind := (store.countCommitsTo_finite repoId baseSha mergeBase).2
      aheadLe := headSide.1
      behindLe := baseSide.1
      aheadExact := headSide.2
      behindExact := baseSide.2
      aheadZero := by
        rw [store.countCommitsTo_eq_zero_iff,
          ← store.findMergeBase_eq_right_iff, found]
        simp [eq_comm]
      behindZero := store.countCommitsTo_eq_zero_iff repoId baseSha mergeBase }

/-- What the status of a fork says, `headSha` being the fork's branch and
`baseSha` the upstream's. -/
structure StatusAround (store : CommitStore ids) (repoId : Text)
    (baseSha headSha mergeBase : Sha) (status : SyncStatus) : Prop where
  related : status.has_merge_base = true
  ahead : status.commits_ahead =
    (store.countCommitsBetween repoId baseSha headSha).ahead
  behind : status.commits_behind =
    (store.countCommitsBetween repoId baseSha headSha).behind
  upToDate : status.can_sync = false ↔ baseSha = mergeBase
  upToDateSound : status.can_sync = false →
    store.Reachable repoId headSha baseSha
  fastForward : status.can_fast_forward = true ↔
    store.Reachable repoId baseSha headSha ∧ headSha ≠ baseSha
  diverged : status.has_conflict = true ↔
    ¬store.Reachable repoId baseSha headSha ∧ baseSha ≠ mergeBase

theorem syncStatusOf_around (upstreamRepoId : Text)
    (found : store.findMergeBase repoId baseSha headSha = some mergeBase) :
    store.StatusAround repoId baseSha headSha mergeBase
      (syncStatusOf upstreamRepoId
        (store.countCommitsBetween repoId baseSha headSha)) := by
  have counted := countCommitsBetween_around found
  have nonzero : 0 < (store.countCommitsBetween repoId baseSha headSha).behind ↔
      baseSha ≠ mergeBase := by
    rw [Nat.pos_iff_ne_zero, ne_eq, counted.behindZero]
  have unreached : 0 < (store.countCommitsBetween repoId baseSha headSha).ahead ↔
      ¬store.Reachable repoId baseSha headSha := by
    rw [Nat.pos_iff_ne_zero, ne_eq, counted.aheadZero]
  have status : syncStatusOf upstreamRepoId
      (store.countCommitsBetween repoId baseSha headSha) =
      ⟨0 < (store.countCommitsBetween repoId baseSha headSha).behind,
        (store.countCommitsBetween repoId baseSha headSha).ahead = 0 &&
          0 < (store.countCommitsBetween repoId baseSha headSha).behind,
        (store.countCommitsBetween repoId baseSha headSha).behind,
        (store.countCommitsBetween repoId baseSha headSha).ahead, true,
        0 < (store.countCommitsBetween repoId baseSha headSha).ahead &&
          0 < (store.countCommitsBetween repoId baseSha headSha).behind,
        some upstreamRepoId⟩ := by
    simp only [syncStatusOf, counted.related, Bool.true_eq_false, if_false]
  have tip : store.Reachable repoId baseSha headSha → mergeBase = headSha := by
    intro reached
    have base := (store.findMergeBase_eq_right_iff repoId baseSha headSha).mpr
      reached
    exact Option.some.inj (found.symm.trans base)
  rw [status]
  exact
    { related := rfl
      ahead := rfl
      behind := rfl
      upToDate := by
        simp only [decide_eq_false_iff_not, nonzero, ne_eq, not_not]
      upToDateSound := by
        intro idle
        simp only [decide_eq_false_iff_not, nonzero, ne_eq, not_not] at idle
        exact (findMergeBase_eq_left (idle ▸ found))
      fastForward := by
        simp only [Bool.and_eq_true, decide_eq_true_eq, nonzero,
          counted.aheadZero]
        apply and_congr_right
        intro reached
        rw [tip reached, ne_comm]
      diverged := by
        simp only [Bool.and_eq_true, decide_eq_true_eq, nonzero, unreached] }

/-- Unrelated commits count as nothing and are reported as a conflict; related
ones are counted around the merge base that was found, and the status of a fork
with both branches is read off these counts. -/
theorem checkSyncStatus_around (store : CommitStore ids) (repoId : Text)
    (baseSha headSha : Sha) :
    ((¬∃ sha, Common (store.ParentOf repoId) baseSha headSha sha) →
      store.countCommitsBetween repoId baseSha headSha = ⟨0, 0, false⟩) ∧
    (∀ mergeBase, store.findMergeBase repoId baseSha headSha = some mergeBase →
      store.CountsAround repoId baseSha headSha mergeBase
        (store.countCommitsBetween repoId baseSha headSha)) ∧
    ∀ forks table branchName fork upstreamBranch forkBranch,
      forks.find? (fun fork => fork.forkRepoId = repoId) = some fork →
      getBranch table repoId (syncBranchName table repoId branchName) =
        some forkBranch →
      getBranch table fork.upstreamRepoId
        (syncBranchName table repoId branchName) = some upstreamBranch →
      upstreamBranch.commitSha = baseSha → forkBranch.commitSha = headSha →
      ((¬∃ sha, Common (store.ParentOf repoId) baseSha headSha sha) →
        store.checkSyncStatus forks table repoId branchName =
          ⟨false, false, 0, 0, false, true, some fork.upstreamRepoId⟩) ∧
      ∀ mergeBase,
        store.findMergeBase repoId baseSha headSha = some mergeBase →
        store.StatusAround repoId baseSha headSha mergeBase
          (store.checkSyncStatus forks table repoId branchName) := by
  have unrelatedCounts :
      (¬∃ sha, Common (store.ParentOf repoId) baseSha headSha sha) →
      store.countCommitsBetween repoId baseSha headSha = ⟨0, 0, false⟩ := by
    intro unrelated
    apply countCommitsBetween_none
    exact (store.findMergeBase_none_iff repoId baseSha headSha).mpr unrelated
  refine ⟨unrelatedCounts, fun mergeBase => countCommitsBetween_around, ?_⟩
  intro forks table branchName fork upstreamBranch forkBranch forkFound
    forkRead upstreamRead baseEq headEq
  have status : store.checkSyncStatus forks table repoId branchName =
      syncStatusOf fork.upstreamRepoId
        (store.countCommitsBetween repoId baseSha headSha) := by
    simp only [checkSyncStatus, forkFound, forkRead, upstreamRead, baseEq,
      headEq]
  rw [status]
  constructor
  · intro unrelated
    rw [unrelatedCounts unrelated]
    rfl
  · intro mergeBase found
    exact syncStatusOf_around fork.upstreamRepoId found

open Shortcut in
/-- In the same history `shortcut` contains `main`, so nothing is missing from
it, and yet it is counted as one commit behind and diverged. -/
theorem countCommitsBetween_overcounts :
    (history.MissingFrom [] shortcut main).ncard = 0 ∧
    history.countCommitsBetween [] main shortcut = ⟨2, 1, true⟩ ∧
    (syncStatusOf [] (history.countCommitsBetween [] main shortcut)).has_conflict
      = true := by
  refine ⟨?_, by decide +kernel, by decide +kernel⟩
  have contained : history.Reachable [] shortcut main := by decide +kernel
  have nothing : history.MissingFrom [] shortcut main = ∅ := by
    apply Set.eq_empty_of_forall_notMem
    intro sha missing
    exact missing.2 (contained.trans missing.1)
  rw [nothing, Set.ncard_empty]

end CommitStore

end Takos.Git
