import Takos.Git.CollectedObjects
import Takos.Git.Objects

/-!
# What a garbage collection keeps

`collectReachableObjectShas` marks commits and trees in sets of their own, so
it follows every id in each place in which it meets it.  Neither this walk nor
the one for upload-pack reads a tag object, and both take the commit of a
submodule entry for an object of the repository.
-/

namespace Takos.Git

open Takos.Foundation

variable {Sha : Type} [DecidableEq Sha] {ids : ObjectIds Sha}

/-- The links of `objectGraph`, none of them from a blank id. -/
def liveGraph (store : CommitStore ids) (repoId : Text) (blank : Sha → Bool) :
    RoleGraph ObjectRole Sha where
  follow role sha :=
    if blank sha then [] else (objectGraph store repoId).follow role sha

theorem liveGraph_unblanked (store : CommitStore ids) (repoId : Text) :
    liveGraph store repoId (fun _ => false) = objectGraph store repoId := by
  simp [liveGraph]

section Walk

variable (store : CommitStore ids) (repoId : Text) (blank : Sha → Bool)
  (roots : List Sha)

/-- The ids met from the refs; no id is excluded. -/
abbrev MeetsLive : ObjectRole → Sha → Prop :=
  (liveGraph store repoId blank).Meets (fun _ => False) (commitRoots roots)

/-- An id that a link or a ref leads to: listed, and visited or queued in the
place in which it was met. -/
def Tracked (commitQueue treeQueue : List Sha) (sets : LiveSets Sha)
    (role : ObjectRole) (sha : Sha) : Prop :=
  sha ∈ sets.reachable ∧
    match role with
    | .commit => blank sha = true ∨ sha ∈ sets.visitedCommits ∨ sha ∈ commitQueue
    | .tree => blank sha = true ∨ sha ∈ sets.visitedTrees ∨ sha ∈ treeQueue
    | .leaf => True

/-- The invariant of both loops. -/
structure Living (commitQueue treeQueue : List Sha) (sets : LiveSets Sha) :
    Prop where
  met : ∀ sha ∈ sets.reachable, ∃ role, MeetsLive store repoId blank roots role sha
  commitMet : ∀ sha ∈ commitQueue, MeetsLive store repoId blank roots .commit sha
  treeMet : ∀ sha ∈ treeQueue, MeetsLive store repoId blank roots .tree sha
  rootTracked : ∀ root ∈ roots,
    Tracked blank commitQueue treeQueue sets .commit root
  commitTracked : ∀ sha ∈ sets.visitedCommits,
    ∀ link ∈ (objectGraph store repoId).follow .commit sha,
      Tracked blank commitQueue treeQueue sets link.1 link.2
  treeTracked : ∀ sha ∈ sets.visitedTrees,
    ∀ link ∈ (objectGraph store repoId).follow .tree sha,
      Tracked blank commitQueue treeQueue sets link.1 link.2

variable {store repoId blank roots}

omit [DecidableEq Sha] in
theorem Tracked.mono {commitQueue laterCommits treeQueue laterTrees : List Sha}
    {sets later : LiveSets Sha}
    (listed : ∀ sha ∈ sets.reachable, sha ∈ later.reachable)
    (commits : ∀ sha, sha ∈ sets.visitedCommits ∨ sha ∈ commitQueue →
      blank sha = true ∨ sha ∈ later.visitedCommits ∨ sha ∈ laterCommits)
    (trees : ∀ sha, sha ∈ sets.visitedTrees ∨ sha ∈ treeQueue →
      blank sha = true ∨ sha ∈ later.visitedTrees ∨ sha ∈ laterTrees)
    {role : ObjectRole} {sha : Sha}
    (tracked : Tracked blank commitQueue treeQueue sets role sha) :
    Tracked blank laterCommits laterTrees later role sha := by
  obtain ⟨member, placed⟩ := tracked
  refine ⟨listed sha member, ?_⟩
  cases role with
  | commit =>
      rcases placed with empty | held
      · exact .inl empty
      · exact commits sha held
  | tree =>
      rcases placed with empty | held
      · exact .inl empty
      · exact trees sha held
  | leaf => trivial

theorem MeetsLive.follow {role next : ObjectRole} {sha target : Sha}
    (met : MeetsLive store repoId blank roots role sha)
    (filled : blank sha = false)
    (followed : (next, target) ∈ (objectGraph store repoId).follow role sha) :
    MeetsLive store repoId blank roots next target := by
  apply RoleGraph.Meets.link met _ (fun impossible => impossible)
  simpa [liveGraph, filled] using followed

variable {sets : LiveSets Sha}

/-- One round: what was tracked stays tracked, and what is new is met and
leads to tracked ids. -/
theorem Living.advance
    {commitQueue laterCommits treeQueue laterTrees : List Sha}
    {later : LiveSets Sha}
    (living : Living store repoId blank roots commitQueue treeQueue sets)
    (kept : ∀ sha ∈ sets.reachable, sha ∈ later.reachable)
    (commits : ∀ sha, sha ∈ sets.visitedCommits ∨ sha ∈ commitQueue →
      blank sha = true ∨ sha ∈ later.visitedCommits ∨ sha ∈ laterCommits)
    (trees : ∀ sha, sha ∈ sets.visitedTrees ∨ sha ∈ treeQueue →
      blank sha = true ∨ sha ∈ later.visitedTrees ∨ sha ∈ laterTrees)
    (met : ∀ sha ∈ later.reachable, sha ∈ sets.reachable ∨
      ∃ role, MeetsLive store repoId blank roots role sha)
    (commitMet : ∀ sha ∈ laterCommits,
      MeetsLive store repoId blank roots .commit sha)
    (treeMet : ∀ sha ∈ laterTrees, MeetsLive store repoId blank roots .tree sha)
    (commitTracked : ∀ sha ∈ later.visitedCommits, sha ∈ sets.visitedCommits ∨
      ∀ link ∈ (objectGraph store repoId).follow .commit sha,
        Tracked blank laterCommits laterTrees later link.1 link.2)
    (treeTracked : ∀ sha ∈ later.visitedTrees, sha ∈ sets.visitedTrees ∨
      ∀ link ∈ (objectGraph store repoId).follow .tree sha,
        Tracked blank laterCommits laterTrees later link.1 link.2) :
    Living store repoId blank roots laterCommits laterTrees later where
  met := fun sha member => (met sha member).elim (living.met sha) id
  commitMet := commitMet
  treeMet := treeMet
  rootTracked := fun root member =>
    (living.rootTracked root member).mono kept commits trees
  commitTracked := by
    intro sha member
    rcases commitTracked sha member with old | fresh
    · exact fun link inside =>
        (living.commitTracked sha old link inside).mono kept commits trees
    · exact fresh
  treeTracked := by
    intro sha member
    rcases treeTracked sha member with old | fresh
    · exact fun link inside =>
        (living.treeTracked sha old link inside).mono kept commits trees
    · exact fresh

omit [DecidableEq Sha] in
theorem placed_behind {first : Sha} {visited later queue laterQueue : List Sha}
    (placed : blank first = true ∨ first ∈ later ∨ first ∈ laterQueue)
    (kept : visited ⊆ later) (behind : queue ⊆ laterQueue) (sha : Sha)
    (held : sha ∈ visited ∨ sha ∈ first :: queue) :
    blank sha = true ∨ sha ∈ later ∨ sha ∈ laterQueue := by
  rcases held with old | waiting
  · exact .inr (.inl (kept old))
  · rcases List.mem_cons.mp waiting with rfl | waiting
    · exact placed
    · exact .inr (.inr (behind waiting))

theorem follow_tree (treeSha : Sha) (link : ObjectRole × Sha) :
    link ∈ (objectGraph store repoId).follow .tree treeSha ↔
      ∃ entry ∈ (store.bucket.getTreeEntries treeSha).getD [],
        (entryRole entry.mode, entry.sha) = link := by
  cases read : store.bucket.getTreeEntries treeSha <;> simp [objectGraph, read]

variable (repoId) in
theorem mem_directoryShas (treeSha sha : Sha) :
    sha ∈ directoryShas store.bucket treeSha ↔
      (ObjectRole.tree, sha) ∈ (objectGraph store repoId).follow .tree treeSha := by
  cases read : store.bucket.getTreeEntries treeSha with
  | none => simp [directoryShas, objectGraph, read]
  | some entries =>
      simp only [directoryShas, objectGraph, read, List.mem_map,
        List.mem_filter, entryRole, Prod.mk.injEq]
      constructor
      · rintro ⟨entry, ⟨member, directory⟩, rfl⟩
        exact ⟨entry, member, by simp [directory], rfl⟩
      · rintro ⟨entry, member, role, rfl⟩
        refine ⟨entry, ⟨member, ?_⟩, rfl⟩
        by_contra plain
        simp [plain] at role

theorem Living.visitTree {commitQueue treeQueue : List Sha} {treeSha : Sha}
    (living : Living store repoId blank roots commitQueue
      (treeSha :: treeQueue) sets)
    (filled : blank treeSha = false) :
    Living store repoId blank roots commitQueue
      (treeQueue ++ (directoryShas store.bucket treeSha).filter
        fun sha => sha ∉ treeSha :: sets.visitedTrees)
      { sets with
        visitedTrees := treeSha :: sets.visitedTrees
        reachable := ((store.bucket.getTreeEntries treeSha).getD
          []).map TreeEntry.sha ∪ sets.reachable } := by
  have met := living.treeMet treeSha List.mem_cons_self
  refine living.advance ?_ ?_ ?_ ?_ living.commitMet ?_ ?_ ?_
  · exact fun _ listed => List.mem_union_right _ listed
  · exact fun _ held => .inr held
  · exact placed_behind (.inr (.inl List.mem_cons_self))
      (List.subset_cons_self _ _) (List.subset_append_left _ _)
  · intro sha member
    rcases List.mem_union_iff.mp member with fresh | old
    · obtain ⟨entry, inside, rfl⟩ := List.mem_map.mp fresh
      exact .inr ⟨_, met.follow filled
        ((follow_tree _ _).mpr ⟨entry, inside, rfl⟩)⟩
    · exact .inl old
  · intro sha member
    rcases List.mem_append.mp member with behind | fresh
    · exact living.treeMet sha (.tail _ behind)
    · exact met.follow filled ((mem_directoryShas _ _ _).mp
        (List.mem_filter.mp fresh).1)
  · exact fun _ old => .inl old
  · intro sha member
    refine (List.mem_cons.mp member).symm.imp_right ?_
    rintro rfl ⟨role, target⟩ followed
    obtain ⟨entry, inside, same⟩ := (follow_tree _ _).mp followed
    cases same
    refine ⟨List.mem_union_left
      (List.mem_map.mpr ⟨entry, inside, rfl⟩) _, ?_⟩
    cases place : entryRole entry.mode with
    | commit =>
        unfold entryRole at place
        split at place <;> cases place
    | leaf => trivial
    | tree =>
        rw [place] at followed
        by_cases old : entry.sha ∈ sha :: sets.visitedTrees
        · exact .inr (.inl old)
        · exact .inr (.inr (List.mem_append_right _
            (List.mem_filter.mpr ⟨(mem_directoryShas _ _ _).mpr
              followed, by simpa using old⟩)))

theorem walkTrees_living (fuel : Nat) (commitQueue treeQueue : List Sha)
    (sets : LiveSets Sha)
    (living : Living store repoId blank roots commitQueue treeQueue sets)
    (fueled : (treeLinks store.bucket).pending sets.visitedTrees +
      treeQueue.length ≤ fuel) :
    ∃ walked, walkTrees store blank fuel treeQueue sets = some walked ∧
      Living store repoId blank roots commitQueue [] walked ∧
      walked.visitedCommits = sets.visitedCommits := by
  induction fuel generalizing treeQueue sets with
  | zero =>
      cases treeQueue with
      | nil => exact ⟨sets, by rw [walkTrees], living, rfl⟩
      | cons treeSha treeQueue =>
          simp only [List.length_cons] at fueled
          omega
  | succ fuel ih =>
      cases treeQueue with
      | nil => exact ⟨sets, by rw [walkTrees], living, rfl⟩
      | cons treeSha treeQueue =>
          simp only [List.length_cons] at fueled
          by_cases dropped : blank treeSha = true ∨ treeSha ∈ sets.visitedTrees
          · rw [walkTrees, if_pos dropped]
            apply ih treeQueue sets _ (by omega)
            apply living.advance (fun _ listed => listed)
              (fun _ held => .inr held) _ (fun _ listed => .inl listed)
              living.commitMet
              (fun sha member => living.treeMet sha (.tail _ member))
              (fun _ old => .inl old) (fun _ old => .inl old)
            exact placed_behind (dropped.imp_right .inl)
              (List.Subset.refl _) (List.Subset.refl _)
          · have round : walkTrees store blank (fuel + 1)
                  (treeSha :: treeQueue) sets =
                walkTrees store blank fuel
                  (treeQueue ++ (directoryShas store.bucket treeSha).filter
                    fun sha => sha ∉ treeSha :: sets.visitedTrees)
                  { sets with
                    visitedTrees := treeSha :: sets.visitedTrees
                    reachable := ((store.bucket.getTreeEntries treeSha).getD
                      []).map TreeEntry.sha ∪ sets.reachable } := by
              rw [walkTrees, if_neg dropped]
              cases read : store.bucket.getTreeEntries treeSha with
              | none =>
                  simp only [directoryShas, read, List.filter_nil,
                    List.append_nil]
                  rfl
              | some entries => rfl
            rw [round]
            rw [not_or, Bool.not_eq_true] at dropped
            apply ih _ _ (living.visitTree dropped.1)
            have paid := (treeLinks store.bucket).pending_expand dropped.2
            have pushed : (treeLinks store.bucket).pushed sets.visitedTrees
              treeSha = directoryShas store.bucket treeSha := rfl
            have shorter := List.length_filter_le
              (fun sha => decide (sha ∉ treeSha :: sets.visitedTrees))
              (directoryShas store.bucket treeSha)
            rw [pushed] at paid
            simp only [List.length_append]
            omega

theorem follow_commit {commitSha : Sha} {commit : GitCommit Sha}
    (read : store.getCommit repoId commitSha = some commit)
    (link : ObjectRole × Sha) :
    link ∈ (objectGraph store repoId).follow .commit commitSha ↔
      link = (.tree, commit.tree) ∨
        ∃ parent ∈ commit.parents, (.commit, parent) = link := by
  simp [objectGraph, read]

theorem Living.visitCommit {commitQueue : List Sha} {commitSha : Sha}
    {commit : GitCommit Sha}
    (living : Living store repoId blank roots (commitSha :: commitQueue) [] sets)
    (filled : blank commitSha = false)
    (read : store.getCommit repoId commitSha = some commit) :
    Living store repoId blank roots
      (commitQueue ++ commit.parents.filter fun parent =>
        parent ∉ commitSha :: sets.visitedCommits)
      [commit.tree]
      { sets with
        visitedCommits := commitSha :: sets.visitedCommits
        reachable := commit.parents ∪ sets.reachable.insert commit.tree } := by
  have met := living.commitMet commitSha List.mem_cons_self
  have links := follow_commit read
  refine living.advance ?_ (placed_behind
    (.inr (.inl List.mem_cons_self))
    (List.subset_cons_self _ _) (List.subset_append_left _ _))
    (fun _ held => .inr (held.imp_right (by simp))) ?_ ?_ ?_ ?_
    (fun _ old => .inl old)
  · intro sha listed
    exact List.mem_union_right _ (List.mem_insert_of_mem listed)
  · intro sha member
    rcases List.mem_union_iff.mp member with parent | inserted
    · exact .inr ⟨.commit, met.follow filled
        ((links _).mpr (.inr ⟨sha, parent, rfl⟩))⟩
    · rcases List.mem_insert_iff.mp inserted with rfl | old
      · exact .inr ⟨.tree, met.follow filled
          ((links _).mpr (.inl rfl))⟩
      · exact .inl old
  · intro sha member
    rcases List.mem_append.mp member with behind | fresh
    · exact living.commitMet sha (.tail _ behind)
    · exact met.follow filled ((links _).mpr
        (.inr ⟨sha, (List.mem_filter.mp fresh).1, rfl⟩))
  · intro sha member
    rw [List.mem_singleton.mp member]
    exact met.follow filled ((links _).mpr (.inl rfl))
  · intro sha member
    refine (List.mem_cons.mp member).symm.imp_right ?_
    rintro rfl link followed
    rcases (links _).mp followed with rfl | ⟨parent, inside, rfl⟩
    · exact ⟨List.mem_union_right _ List.mem_insert_self,
        .inr (.inr List.mem_cons_self)⟩
    · refine ⟨List.mem_union_left inside _, ?_⟩
      by_cases old : parent ∈ sha :: sets.visitedCommits
      · exact .inr (.inl old)
      · exact .inr (.inr (List.mem_append_right _
          (List.mem_filter.mpr ⟨inside, by simpa using old⟩)))

theorem walkRefs_living (fuel : Nat) (commitQueue : List Sha)
    (sets : LiveSets Sha)
    (living : Living store repoId blank roots commitQueue [] sets)
    (fueled : (parentLinks store repoId).pending sets.visitedCommits +
      commitQueue.length ≤ fuel) :
    ∃ walked, walkRefs store repoId blank fuel commitQueue sets = some walked ∧
      Living store repoId blank roots [] [] walked := by
  induction fuel generalizing commitQueue sets with
  | zero =>
      cases commitQueue with
      | nil => exact ⟨sets, by rw [walkRefs], living⟩
      | cons commitSha commitQueue =>
          simp only [List.length_cons] at fueled
          omega
  | succ fuel ih =>
      cases commitQueue with
      | nil => exact ⟨sets, by rw [walkRefs], living⟩
      | cons commitSha commitQueue =>
          simp only [List.length_cons] at fueled
          rw [walkRefs]
          by_cases dropped :
              blank commitSha = true ∨ commitSha ∈ sets.visitedCommits
          · rw [if_pos dropped]
            apply ih commitQueue sets _ (by omega)
            apply living.advance (fun _ listed => listed) _
              (fun _ held => .inr held) (fun _ listed => .inl listed)
              (fun sha member => living.commitMet sha (.tail _ member))
              living.treeMet (fun _ old => .inl old) (fun _ old => .inl old)
            exact placed_behind (dropped.imp_right .inl)
              (List.Subset.refl _) (List.Subset.refl _)
          · rw [if_neg dropped]
            rw [not_or, Bool.not_eq_true] at dropped
            have paid := (parentLinks store repoId).pending_expand dropped.2
            have pushed : (parentLinks store repoId).pushed sets.visitedCommits
                commitSha = store.parentsOf repoId commitSha := rfl
            rw [pushed] at paid
            cases read : store.getCommit repoId commitSha with
            | none =>
                refine ih commitQueue _ (living.advance
                  (fun _ listed => listed) ?_ (fun _ held => .inr held)
                  (fun _ listed => .inl listed)
                  (fun sha member => living.commitMet sha (.tail _ member))
                  living.treeMet ?_ fun _ old => .inl old) (by simp only; omega)
                · exact placed_behind (.inr (.inl List.mem_cons_self))
                    (List.subset_cons_self _ _) (List.Subset.refl _)
                · intro sha member
                  refine (List.mem_cons.mp member).symm.imp_right ?_
                  rintro rfl
                  simp [objectGraph, read]
            | some commit =>
                have parents : store.parentsOf repoId commitSha =
                    commit.parents := by
                  simp [CommitStore.parentsOf, read]
                rw [parents] at paid
                have shorter := List.length_filter_le
                  (fun parent => decide (parent ∉ commitSha :: sets.visitedCommits))
                  commit.parents
                have next := living.visitCommit dropped.1 read
                have rounds : (treeLinks store.bucket).pending sets.visitedTrees +
                    [commit.tree].length ≤ treeRounds store := by
                  have below : (treeLinks store.bucket).pending
                      sets.visitedTrees ≤ (treeLinks store.bucket).pending [] :=
                    QueueSearch.pending_le _ (by simp)
                  simp only [treeRounds, List.length_singleton]
                  omega
                obtain ⟨walked, ran, next, sameCommits⟩ :=
                  walkTrees_living _ _ _ _ next rounds
                simp only [ran]
                apply ih _ walked next
                rw [sameCommits]
                simp only [List.length_append]
                omega

theorem mem_rootRefs (refs : List (ListedRef Sha)) (queue : List Sha)
    (sha : Sha) :
    sha ∈ rootRefs refs queue ↔
      sha ∈ queue ∨ sha ∈ refs.map ListedRef.target := by
  induction refs generalizing queue with
  | nil => simp [rootRefs]
  | cons ref rest ih =>
      rw [rootRefs, List.map_cons, List.mem_cons]
      by_cases old : ref.target ∈ queue
      · rw [if_pos old, ih]
        constructor
        · exact Or.imp_right .inr
        · rintro (member | rfl | found)
          · exact .inl member
          · exact .inl old
          · exact .inr found
      · rw [if_neg old, ih]
        simp only [List.mem_append, List.mem_singleton, or_assoc]

variable (store repoId blank) in
/-- The walk ends and lists exactly the ids that it meets. -/
theorem collectReachableObjectShas_spec (table : BranchTable Sha)
    (tags : List (TagRow Sha)) :
    ∃ live, collectReachableObjectShas store repoId blank table tags =
        some live ∧
      ∀ sha, sha ∈ live ↔ ∃ role, MeetsLive store repoId blank
        ((listAllRefs table tags repoId).map ListedRef.target) role sha := by
  have roots : ∀ sha, sha ∈ rootRefs (listAllRefs table tags repoId) [] ↔
      sha ∈ (listAllRefs table tags repoId).map ListedRef.target := by
    intro sha
    simp [mem_rootRefs]
  have rootMet : ∀ sha ∈ rootRefs (listAllRefs table tags repoId) [],
      MeetsLive store repoId blank
        ((listAllRefs table tags repoId).map ListedRef.target) .commit sha := by
    intro sha member
    apply RoleGraph.Meets.root _ (fun impossible => impossible)
    exact List.mem_map.mpr ⟨sha, (roots sha).mp member, rfl⟩
  have start : Living store repoId blank
      ((listAllRefs table tags repoId).map ListedRef.target)
      (rootRefs (listAllRefs table tags repoId) []) []
      ⟨rootRefs (listAllRefs table tags repoId) [], [], []⟩ :=
    { met := fun sha member => ⟨.commit, rootMet sha member⟩
      commitMet := rootMet
      treeMet := by simp
      rootTracked := fun root member =>
        ⟨(roots root).mpr member, .inr (.inr ((roots root).mpr member))⟩
      commitTracked := by simp
      treeTracked := by simp }
  obtain ⟨walked, ran, living⟩ := walkRefs_living _ _ _ start (Nat.le_refl _)
  refine ⟨walked.reachable, ?_, ?_⟩
  · simp only [collectReachableObjectShas]
    rw [commitRounds, ran]
    rfl
  · intro sha
    constructor
    · exact living.met sha
    · rintro ⟨role, met⟩
      have tracked : Tracked blank [] [] walked role sha := by
        apply met.marked_of_settled
        · intro root member
          obtain ⟨target, listed, rfl⟩ := List.mem_map.mp member
          exact .inl (living.rootTracked target listed)
        · intro place target held link followed
          left
          cases empty : blank target with
          | true => simp [liveGraph, empty] at followed
          | false =>
              simp only [liveGraph, empty, Bool.false_eq_true, if_false]
                at followed
              cases place with
              | commit =>
                  apply living.commitTracked target _ link followed
                  simpa [Tracked, empty] using held.2
              | tree =>
                  apply living.treeTracked target _ link followed
                  simpa [Tracked, empty] using held.2
              | leaf => simp [objectGraph] at followed
      exact tracked.1

end Walk

end Takos.Git
