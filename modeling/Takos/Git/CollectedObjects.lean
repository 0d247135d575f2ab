import Takos.Git.ReachableObjects

/-!
# What the upload-pack walk collects

The walk marks ids without the place in which it met them.  Each marked id is
settled in one such place: every link followed from there ends in a marked id
or in a `have`.
-/

namespace Takos.Git

open Takos.Foundation

variable {Sha : Type} [DecidableEq Sha] {ids : ObjectIds Sha}

def entryRole (mode : Text) : ObjectRole :=
  if isDirectoryMode mode then .tree else .leaf

/-- Links that the walks follow from an id, by the place of the id. -/
def objectGraph (store : CommitStore ids) (repoId : Text) :
    RoleGraph ObjectRole Sha where
  follow
    | .commit, sha =>
      match store.getCommit repoId sha with
      | none => []
      | some commit =>
        (.tree, commit.tree) :: commit.parents.map fun parent => (.commit, parent)
    | .tree, sha =>
      match store.bucket.getTreeEntries sha with
      | none => []
      | some entries =>
        entries.map fun entry => (entryRole entry.mode, entry.sha)
    | .leaf, _ => []

/-- The wanted ids, each in the place of a commit. -/
def commitRoots (shas : List Sha) : List (ObjectRole × Sha) :=
  shas.map fun sha => (.commit, sha)

/-- Stored ids that are not marked yet. -/
def unmarked (bucket : ObjectStore ids) (seen : List Sha) : Nat :=
  bucket.objects.countP fun object => object.1 ∉ seen

theorem unmarked_le (bucket : ObjectStore ids) {seen grown : List Sha}
    (kept : ∀ sha ∈ seen, sha ∈ grown) :
    unmarked bucket grown ≤ unmarked bucket seen := by
  apply List.countP_mono_left
  intro object _ fresh
  simp only [decide_eq_true_eq] at fresh ⊢
  exact fun old => fresh (kept _ old)

private theorem countP_lt {Item : Type} {small large : Item → Bool}
    {items : List Item} {item : Item} (member : item ∈ items)
    (below : ∀ other ∈ items, small other = true → large other = true)
    (dropped : small item = false) (held : large item = true) :
    items.countP small < items.countP large := by
  obtain ⟨front, back, rfl⟩ := List.append_of_mem member
  have frontLe : front.countP small ≤ front.countP large :=
    List.countP_mono_left fun other inside =>
      below other (List.mem_append_left _ inside)
  have backLe : back.countP small ≤ back.countP large :=
    List.countP_mono_left fun other inside =>
      below other (List.mem_append_right _ (.tail _ inside))
  simp only [List.countP_append, List.countP_cons, dropped, held]
  simp only [Bool.false_eq_true, if_false, if_true]
  omega

theorem unmarked_lt {bucket : ObjectStore ids} {seen : List Sha} {sha : Sha}
    (stored : sha ∈ bucket.objects.map Prod.fst) (fresh : sha ∉ seen) :
    unmarked bucket (seen ++ [sha]) < unmarked bucket seen := by
  obtain ⟨object, member, rfl⟩ := List.mem_map.mp stored
  apply countP_lt member
  · intro other _ apart
    simp only [List.mem_append, not_or, decide_eq_true_eq] at apart ⊢
    exact apart.1
  · simp
  · simpa using fresh

theorem unmarked_lt_treeDepth (store : CommitStore ids) (seen : List Sha) :
    unmarked store.bucket seen < treeDepth store :=
  Nat.lt_succ_of_le List.countP_le_length

section Walk

variable (store : CommitStore ids) (repoId : Text) (haves : List Sha)
  (roots : List (ObjectRole × Sha))

/-- A part of the walk that leads from `seen` to `grown`. -/
structure Marks (seen grown : List Sha) : Prop where
  kept : ∀ sha ∈ seen, sha ∈ grown
  nodup : grown.Nodup
  added : ∀ sha ∈ grown, sha ∉ seen → ∃ role,
    (objectGraph store repoId).Meets (· ∈ haves) roots role sha ∧
      (objectGraph store repoId).Settled (· ∈ haves) (· ∈ grown) role sha

variable {store repoId haves roots}

theorem Marks.refl {seen : List Sha} (nodup : seen.Nodup) :
    Marks store repoId haves roots seen seen where
  kept := fun _ member => member
  nodup := nodup
  added := fun _ member fresh => absurd member fresh

theorem Marks.trans {first second third : List Sha}
    (left : Marks store repoId haves roots first second)
    (right : Marks store repoId haves roots second third) :
    Marks store repoId haves roots first third where
  kept := fun sha member => right.kept sha (left.kept sha member)
  nodup := right.nodup
  added := by
    intro sha member fresh
    by_cases old : sha ∈ second
    · obtain ⟨role, met, settled⟩ := left.added sha old fresh
      exact ⟨role, met, settled.mono right.kept⟩
    · exact right.added sha member old

theorem Marks.cons {seen grown : List Sha} {sha : Sha} {role : ObjectRole}
    (met : (objectGraph store repoId).Meets (· ∈ haves) roots role sha)
    (rest : Marks store repoId haves roots (seen ++ [sha]) grown)
    (settled : (objectGraph store repoId).Settled (· ∈ haves) (· ∈ grown)
      role sha) :
    Marks store repoId haves roots seen grown where
  kept := fun other member => rest.kept other (List.mem_append_left _ member)
  nodup := rest.nodup
  added := by
    intro other member fresh
    by_cases same : other = sha
    · subst same
      exact ⟨role, met, settled⟩
    · apply rest.added other member
      simp [fresh, same]

omit [DecidableEq Sha] in
theorem nodup_mark {seen : List Sha} {sha : Sha} (nodup : seen.Nodup)
    (fresh : sha ∉ seen) : (seen ++ [sha]).Nodup := by
  rw [List.nodup_append]
  refine ⟨nodup, List.nodup_singleton _, ?_⟩
  intro other member last lastMember same
  rw [List.mem_singleton] at lastMember
  exact fresh (lastMember ▸ same ▸ member)

theorem settled_leaf (seen : Sha → Prop) (sha : Sha) :
    (objectGraph store repoId).Settled (· ∈ haves) seen .leaf sha := by
  intro link member
  simp [objectGraph] at member

variable (store repoId haves roots) in
/-- What a call of `collectTreeObjects` does while it has fuel. -/
def Collects (collectTree : Sha → List Sha → Option (List Sha)) (bound : Nat) :
    Prop :=
  ∀ sha seen,
    (sha ∉ haves →
      (objectGraph store repoId).Meets (· ∈ haves) roots .tree sha) →
    seen.Nodup → unmarked store.bucket seen < bound →
    ∃ grown, collectTree sha seen = some grown ∧
      Marks store repoId haves roots seen grown ∧
      (sha ∈ grown ∨ sha ∈ haves)

theorem collectEntries_marks
    {collectTree : Sha → List Sha → Option (List Sha)} {bound : Nat}
    (collects : Collects store repoId haves roots collectTree bound)
    (entries : List (TreeEntry Sha)) (seen : List Sha)
    (met : ∀ entry ∈ entries, entry.sha ∉ haves →
      (objectGraph store repoId).Meets (· ∈ haves) roots
        (entryRole entry.mode) entry.sha)
    (nodup : seen.Nodup) (fueled : unmarked store.bucket seen < bound) :
    ∃ grown, collectEntries haves collectTree entries seen = some grown ∧
      Marks store repoId haves roots seen grown ∧
      ∀ entry ∈ entries, entry.sha ∈ grown ∨ entry.sha ∈ haves := by
  induction entries generalizing seen with
  | nil => exact ⟨seen, rfl, Marks.refl nodup, by simp⟩
  | cons entry rest ih =>
      have restMet := fun other inside => met other (List.mem_cons_of_mem _ inside)
      -- The tail runs from `middle`, in which the head entry is accounted for.
      have resume : ∀ middle, Marks store repoId haves roots seen middle →
          (entry.sha ∈ middle ∨ entry.sha ∈ haves) →
          ∃ grown, collectEntries haves collectTree rest middle = some grown ∧
            Marks store repoId haves roots seen grown ∧
            ∀ other ∈ entry :: rest, other.sha ∈ grown ∨ other.sha ∈ haves := by
        intro middle marks settled
        obtain ⟨grown, ran, restMarks, covered⟩ := ih middle restMet marks.nodup
          (Nat.lt_of_le_of_lt (unmarked_le _ marks.kept) fueled)
        refine ⟨grown, ran, marks.trans restMarks, ?_⟩
        intro other member
        rcases List.mem_cons.mp member with rfl | inside
        · exact settled.imp_left (restMarks.kept _)
        · exact covered other inside
      rw [collectEntries]
      by_cases dropped : entry.sha ∈ seen ∨ entry.sha ∈ haves
      · rw [if_pos dropped]
        exact resume seen (Marks.refl nodup) dropped
      · rw [if_neg dropped]
        rw [not_or] at dropped
        have headMet := met entry List.mem_cons_self dropped.2
        by_cases directory : isDirectoryMode entry.mode = true
        · rw [if_pos directory]
          rw [entryRole, if_pos directory] at headMet
          obtain ⟨middle, ran, marks, settled⟩ :=
            collects entry.sha seen (fun _ => headMet) nodup fueled
          rw [ran]
          exact resume middle marks settled
        · rw [if_neg directory]
          rw [entryRole, if_neg directory] at headMet
          apply resume
          · exact Marks.cons headMet (Marks.refl (nodup_mark nodup dropped.1))
              (settled_leaf _ _)
          · simp

theorem collectTreeObjects_collects (fuel : Nat) :
    Collects store repoId haves roots
      (collectTreeObjects store.bucket haves fuel) fuel := by
  induction fuel with
  | zero =>
      intro sha seen _ _ fueled
      omega
  | succ fuel ih =>
      intro sha seen reached nodup fueled
      rw [collectTreeObjects]
      by_cases dropped : sha ∈ seen ∨ sha ∈ haves
      · rw [if_pos dropped]
        exact ⟨seen, rfl, Marks.refl nodup, dropped⟩
      · rw [if_neg dropped]
        rw [not_or] at dropped
        have met := reached dropped.2
        have nodupMarked := nodup_mark nodup dropped.1
        cases read : store.bucket.getTreeEntries sha with
        | none =>
            refine ⟨seen ++ [sha], rfl, ?_, by simp⟩
            apply Marks.cons met (Marks.refl nodupMarked)
            intro link member
            simp [objectGraph, read] at member
        | some entries =>
            have entryMet : ∀ entry ∈ entries, entry.sha ∉ haves →
                (objectGraph store repoId).Meets (· ∈ haves) roots
                  (entryRole entry.mode) entry.sha := by
              intro entry member kept
              apply RoleGraph.Meets.link met _ kept
              simp only [objectGraph, read]
              exact List.mem_map.mpr ⟨entry, member, rfl⟩
            have fewer := unmarked_lt (getTreeEntries_key read) dropped.1
            obtain ⟨grown, ran, marks, covered⟩ :=
              collectEntries_marks ih entries (seen ++ [sha]) entryMet
                nodupMarked (by omega)
            refine ⟨grown, ran, ?_, .inl (marks.kept _ (by simp))⟩
            apply Marks.cons met marks
            intro link member
            simp only [objectGraph, read] at member
            obtain ⟨entry, inside, rfl⟩ := List.mem_map.mp member
            exact covered entry inside

end Walk

section Commits

variable (store : CommitStore ids) (repoId : Text) (haves wants : List Sha)

/-- The loop invariant of `collectReachableObjects`. -/
structure Walking (commitQueue seen : List Sha) : Prop where
  nodup : seen.Nodup
  settled : ∀ sha ∈ seen, ∃ role,
    (objectGraph store repoId).Meets (· ∈ haves) (commitRoots wants) role sha ∧
      (objectGraph store repoId).Settled (· ∈ haves)
        (fun other => other ∈ seen ∨ other ∈ commitQueue) role sha
  queued : ∀ sha ∈ commitQueue, sha ∉ haves →
    (objectGraph store repoId).Meets (· ∈ haves) (commitRoots wants) .commit sha
  started : ∀ want ∈ wants,
    (want ∈ seen ∨ want ∈ commitQueue) ∨ want ∈ haves

variable {store repoId haves wants}

theorem Walking.initial : Walking store repoId haves wants wants [] where
  nodup := List.nodup_nil
  settled := by simp
  queued := by
    intro sha member kept
    exact .root (List.mem_map.mpr ⟨sha, member, rfl⟩) kept
  started := fun want member => .inl (.inr member)

omit [DecidableEq Sha] in
/-- What the invariant asked of `sha :: commitQueue` in `seen` still holds of
`later` in `grown`. -/
private theorem carried {sha : Sha} {commitQueue later seen grown : List Sha}
    (kept : ∀ other ∈ seen, other ∈ grown)
    (waiting : ∀ other ∈ commitQueue, other ∈ later)
    (shifted : sha ∈ grown ∨ sha ∈ haves) {other : Sha}
    (held : other ∈ seen ∨ other ∈ sha :: commitQueue) :
    (other ∈ grown ∨ other ∈ later) ∨ other ∈ haves := by
  rcases held with old | queued
  · exact .inl (.inl (kept _ old))
  · rcases List.mem_cons.mp queued with rfl | behind
    · exact shifted.imp_left .inl
    · exact .inl (.inr (waiting _ behind))

theorem Walking.discard {sha : Sha} {commitQueue seen : List Sha}
    (walking : Walking store repoId haves wants (sha :: commitQueue) seen)
    (dropped : sha ∈ seen ∨ sha ∈ haves) :
    Walking store repoId haves wants commitQueue seen where
  nodup := walking.nodup
  settled := by
    intro other member
    obtain ⟨role, met, settled⟩ := walking.settled other member
    refine ⟨role, met, fun link inside => ?_⟩
    rcases settled link inside with held | excluded
    · exact carried (fun _ old => old) (fun _ behind => behind) dropped held
    · exact .inr excluded
  queued := fun other member => walking.queued other (.tail _ member)
  started := by
    intro want member
    rcases walking.started want member with held | excluded
    · exact carried (fun _ old => old) (fun _ behind => behind) dropped held
    · exact .inr excluded

theorem Walking.expand {sha : Sha} {commitQueue appended seen grown : List Sha}
    (walking : Walking store repoId haves wants (sha :: commitQueue) seen)
    (kept : sha ∉ haves)
    (marks : Marks store repoId haves (commitRoots wants) (seen ++ [sha]) grown)
    (followed : ∀ link ∈ (objectGraph store repoId).follow .commit sha,
      (link.2 ∈ grown ∨ link.2 ∈ appended) ∨ link.2 ∈ haves)
    (parents : ∀ other ∈ appended,
      (ObjectRole.commit, other) ∈
        (objectGraph store repoId).follow .commit sha) :
    Walking store repoId haves wants (commitQueue ++ appended) grown := by
  have met := walking.queued sha List.mem_cons_self kept
  have marked : sha ∈ grown := marks.kept _ (by simp)
  have older : ∀ other ∈ seen, other ∈ grown := fun other member =>
    marks.kept _ (List.mem_append_left _ member)
  have carry : ∀ other, other ∈ seen ∨ other ∈ sha :: commitQueue →
      (other ∈ grown ∨ other ∈ commitQueue ++ appended) ∨ other ∈ haves :=
    fun other => carried older
      (fun _ behind => List.mem_append_left _ behind) (.inl marked)
  exact
    { nodup := marks.nodup
      settled := by
        intro other member
        by_cases old : other ∈ seen
        · obtain ⟨role, otherMet, settled⟩ := walking.settled other old
          refine ⟨role, otherMet, fun link inside => ?_⟩
          rcases settled link inside with held | excluded
          · exact carry _ held
          · exact .inr excluded
        · by_cases same : other = sha
          · subst same
            refine ⟨.commit, met, fun link inside => ?_⟩
            rcases followed link inside with (present | queued) | excluded
            · exact .inl (.inl present)
            · exact .inl (.inr (List.mem_append_right _ queued))
            · exact .inr excluded
          · obtain ⟨role, otherMet, settled⟩ :=
              marks.added other member (by simp [old, same])
            exact ⟨role, otherMet, settled.mono fun _ => .inl⟩
      queued := by
        intro other member otherKept
        rcases List.mem_append.mp member with later | fresh
        · exact walking.queued other (.tail _ later) otherKept
        · exact .link met (parents other fresh) otherKept
      started := by
        intro want member
        rcases walking.started want member with held | excluded
        · exact carry want held
        · exact .inr excluded }

variable (store repoId) in
theorem pending_parents {seen grown : List Sha} {sha : Sha}
    (fresh : sha ∉ seen) (kept : ∀ other ∈ seen ++ [sha], other ∈ grown) :
    (parentLinks store repoId).pending grown +
        (store.parentsOf repoId sha).length <
      (parentLinks store repoId).pending seen + 1 := by
  have paid := (parentLinks store repoId).pending_expand fresh
  have below : (parentLinks store repoId).pending grown ≤
      (parentLinks store repoId).pending (sha :: seen) := by
    apply QueueSearch.pending_le
    intro other member
    apply kept
    simpa [or_comm] using member
  have pushed : (parentLinks store repoId).pushed seen sha =
      store.parentsOf repoId sha := rfl
  rw [pushed] at paid
  omega

theorem collectCommitTree_marks {commit : GitCommit Sha} {sha : Sha}
    {seen : List Sha} (read : store.getCommit repoId sha = some commit)
    (met : (objectGraph store repoId).Meets (· ∈ haves) (commitRoots wants)
      .commit sha)
    (nodup : (seen ++ [sha]).Nodup) :
    ∃ grown,
      collectCommitTree store haves commit (seen ++ [sha]) = some grown ∧
      Marks store repoId haves (commitRoots wants) (seen ++ [sha]) grown ∧
      (commit.tree ∈ grown ∨ commit.tree ∈ haves) := by
  unfold collectCommitTree
  by_cases walked : commit.tree ∉ seen ++ [sha] ∧ commit.tree ∉ haves
  · rw [if_pos walked]
    apply collectTreeObjects_collects (treeDepth store) commit.tree _ _ nodup
      (unmarked_lt_treeDepth store _)
    intro kept
    exact .link met (by simp [objectGraph, read]) kept
  · rw [if_neg walked]
    refine ⟨_, rfl, Marks.refl nodup, ?_⟩
    by_contra apart
    exact walked (not_or.mp apart)

theorem Walking.visitCommit {sha : Sha} {commitQueue seen grown : List Sha}
    {commit : GitCommit Sha}
    (walking : Walking store repoId haves wants (sha :: commitQueue) seen)
    (wanted : sha ∉ haves)
    (read : store.getCommit repoId sha = some commit)
    (marks : Marks store repoId haves (commitRoots wants) (seen ++ [sha]) grown)
    (treeHeld : commit.tree ∈ grown ∨ commit.tree ∈ haves) :
    Walking store repoId haves wants
      (commitQueue ++ commit.parents.filter fun parent =>
        parent ∉ grown ∧ parent ∉ haves) grown := by
  apply walking.expand wanted marks
  · intro link member
    simp only [objectGraph, read, List.mem_cons,
      List.mem_map] at member
    rcases member with rfl | ⟨parent, inside, rfl⟩
    · exact treeHeld.imp_left .inl
    · by_cases waiting : parent ∉ grown ∧ parent ∉ haves
      · left
        right
        exact List.mem_filter.mpr ⟨inside, by simpa using waiting⟩
      · simp only [List.mem_filter]
        tauto
  · intro parent member
    simp only [objectGraph, read]
    exact .tail _ (List.mem_map.mpr
      ⟨parent, (List.mem_filter.mp member).1, rfl⟩)

theorem collectCommits_walks (fuel : Nat) (commitQueue seen : List Sha)
    (walking : Walking store repoId haves wants commitQueue seen)
    (fueled : (parentLinks store repoId).pending seen + commitQueue.length ≤
      fuel) :
    ∃ result, collectCommits store repoId haves fuel commitQueue seen =
        some result ∧
      Walking store repoId haves wants [] result := by
  induction fuel generalizing commitQueue seen with
  | zero =>
      cases commitQueue with
      | nil => exact ⟨seen, by rw [collectCommits], walking⟩
      | cons sha commitQueue =>
          simp only [List.length_cons] at fueled
          omega
  | succ fuel ih =>
      cases commitQueue with
      | nil => exact ⟨seen, by rw [collectCommits], walking⟩
      | cons sha commitQueue =>
          simp only [List.length_cons] at fueled
          rw [collectCommits]
          by_cases dropped : sha ∈ seen ∨ sha ∈ haves
          · rw [if_pos dropped]
            exact ih commitQueue seen (walking.discard dropped) (by omega)
          · rw [if_neg dropped]
            rw [not_or] at dropped
            have met := walking.queued sha List.mem_cons_self dropped.2
            have nodup := nodup_mark walking.nodup dropped.1
            cases read : store.getCommit repoId sha with
            | none =>
                have marks : Marks store repoId haves (commitRoots wants)
                    (seen ++ [sha]) (seen ++ [sha]) := Marks.refl nodup
                have paid := pending_parents store repoId dropped.1
                  (fun _ member => member)
                have next : Walking store repoId haves wants (commitQueue ++ [])
                    (seen ++ [sha]) := by
                  apply walking.expand dropped.2 marks
                  · simp [objectGraph, read]
                  · simp
                rw [List.append_nil] at next
                exact ih commitQueue _ next (by omega)
            | some commit =>
                obtain ⟨grown, ran, marks, treeHeld⟩ :=
                  collectCommitTree_marks read met nodup
                have paid := pending_parents store repoId dropped.1
                  marks.kept
                have parents : store.parentsOf repoId sha = commit.parents := by
                  simp [CommitStore.parentsOf, read]
                rw [parents] at paid
                have shorter := List.length_filter_le
                  (fun parent => decide (parent ∉ grown ∧ parent ∉ haves))
                  commit.parents
                have next := walking.visitCommit dropped.2 read marks treeHeld
                simp only [ran]
                apply ih _ grown next
                simp only [List.length_append]
                omega

variable (store repoId haves wants) in
theorem collectReachableObjects_walks :
    ∃ result, collectReachableObjects store repoId haves wants = some result ∧
      Walking store repoId haves wants [] result :=
  collectCommits_walks _ wants [] Walking.initial (Nat.le_refl _)

variable (store repoId haves wants) in
theorem collectReachableObjects_spec :
    ∃ result, collectReachableObjects store repoId haves wants = some result ∧
      result.Nodup ∧
      (∀ sha ∈ result, ∃ role, (objectGraph store repoId).Meets (· ∈ haves)
        (commitRoots wants) role sha) ∧
      ((objectGraph store repoId).Unambiguous (· ∈ haves) (commitRoots wants) →
        ∀ role sha, (objectGraph store repoId).Meets (· ∈ haves)
          (commitRoots wants) role sha → sha ∈ result) := by
  obtain ⟨result, ran, walked⟩ :=
    collectReachableObjects_walks store repoId haves wants
  refine ⟨result, ran, walked.nodup, ?_, ?_⟩
  · intro sha member
    obtain ⟨role, met, _⟩ := walked.settled sha member
    exact ⟨role, met⟩
  · intro unambiguous role sha met
    apply met.seen_of_settled unambiguous
    · intro root member
      obtain ⟨want, wanted, rfl⟩ := List.mem_map.mp member
      simpa using walked.started want wanted
    · intro other member
      obtain ⟨otherRole, otherMet, settled⟩ := walked.settled other member
      exact ⟨otherRole, otherMet, by simpa using settled⟩

end Commits

end Takos.Git
