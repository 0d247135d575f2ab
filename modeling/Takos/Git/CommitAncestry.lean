import Takos.Foundation.Ancestry
import Takos.Git.CommitFile
import Takos.Git.Objects

/-!
# What the commit walks compute

The walks of `CommitIndex` are instances of the queue search, so their results
are read off its invariant.  `findMergeBase` answers with a nearest common
ancestor, and the ahead and behind counts are relative to that commit.
-/

namespace Takos.Git

open Takos.Foundation Takos.Foundation.Ancestry Relation

namespace CommitStore

variable {Sha : Type} [DecidableEq Sha] {ids : ObjectIds Sha}

/-- The parent link that a walk of the repository follows. -/
def ParentOf (store : CommitStore ids) (repoId : Text)
    (child parent : Sha) : Prop :=
  parent ∈ store.parentsOf repoId child

/-- Ancestry: `ancestor` is `descendant` or reached from it by parent links. -/
def Reachable (store : CommitStore ids) (repoId : Text)
    (descendant ancestor : Sha) : Prop :=
  ReflTransGen (store.ParentOf repoId) descendant ancestor

section Walks

variable (store : CommitStore ids) (repoId : Text)

theorem parentWalk_hops_iff (stop : Sha → Bool) (prune : Bool)
    {count : Nat} {start target : Sha} :
    (store.parentWalk repoId (fun _ => false) stop prune).Hops count start
        target ↔
      Path (store.ParentOf repoId) count start target := by
  constructor
  · intro hops
    induction hops with
    | here _ => exact .here _
    | step _ link ih => exact .step ih link.1
  · intro path
    induction path with
    | here node => exact .here rfl
    | step _ link ih => exact .step ih ⟨link, rfl⟩

theorem parentWalk_reaches_iff (stop : Sha → Bool) (prune : Bool)
    {start target : Sha} :
    (store.parentWalk repoId (fun _ => false) stop prune).Reaches start
        target ↔
      store.Reachable repoId start target := by
  have paths : (∃ count, Path (store.ParentOf repoId) count start target) ↔
      store.Reachable repoId start target := exists_path_iff
  simp only [QueueSearch.Reaches, parentWalk_hops_iff]
  exact paths

theorem parentWalk_avoids_iff (stopAtSha : Sha) (stop : Sha → Bool)
    (prune : Bool) {start target : Sha} :
    (store.parentWalk repoId (fun sha => sha = stopAtSha) stop prune).Reaches
        start target ↔
      Avoids (store.ParentOf repoId) stopAtSha start target := by
  rw [QueueSearch.reaches_iff]
  have sameStep :
      (store.parentWalk repoId (fun sha => sha = stopAtSha) stop prune).Step =
        fun child next => store.ParentOf repoId child next ∧ next ≠ stopAtSha := by
    funext child next
    simp [QueueSearch.Step, parentWalk, ParentOf]
  rw [sameStep]
  simp [Avoids, parentWalk]

end Walks

theorem parentWalk_exhausts (store : CommitStore ids) (repoId : Text)
    (skip : Sha → Bool) (prune : Bool) (start : Sha) :
    ∃ visited,
      (store.parentWalk repoId skip (fun _ => false) prune).search start =
        (visited, none) := by
  cases outcome :
      (store.parentWalk repoId skip (fun _ => false) prune).search start with
  | mk visited found =>
      cases found with
      | none => exact ⟨visited, rfl⟩
      | some target =>
          obtain ⟨_, _, stopped, _⟩ := QueueSearch.search_some _ outcome
          exact absurd stopped (by simp [parentWalk])

theorem mem_ancestors_iff (store : CommitStore ids) (repoId : Text)
    {start target : Sha} :
    target ∈ store.ancestors repoId start ↔
      store.Reachable repoId start target := by
  obtain ⟨visited, outcome⟩ :=
    store.parentWalk_exhausts repoId (fun _ => false) false start
  have exact := (QueueSearch.search_none _ outcome).2.1 target
  rw [parentWalk_reaches_iff] at exact
  simpa [ancestors, outcome] using exact

instance (store : CommitStore ids) (repoId : Text) (start target : Sha) :
    Decidable (store.Reachable repoId start target) :=
  decidable_of_iff (target ∈ store.ancestors repoId start)
    (store.mem_ancestors_iff repoId)

theorem isAncestor_iff (store : CommitStore ids) (repoId : Text)
    (ancestorSha descendantSha : Sha) :
    store.isAncestor repoId ancestorSha descendantSha = true ↔
      store.Reachable repoId descendantSha ancestorSha := by
  by_cases same : ancestorSha = descendantSha
  · subst same
    simp only [isAncestor, if_true, true_iff]
    exact .refl
  · simp only [isAncestor, same, if_false]
    cases outcome : (store.parentWalk repoId (fun _ => false)
        (fun sha => sha = ancestorSha) true).search descendantSha with
    | mk visited found =>
        cases found with
        | none =>
            have unstopped := (QueueSearch.search_none _ outcome).2.2 ancestorSha
            rw [parentWalk_reaches_iff] at unstopped
            simp only [Option.isSome_none, Bool.false_eq_true, false_iff]
            intro reached
            have impossible := unstopped reached
            simp [parentWalk] at impossible
        | some target =>
            obtain ⟨distance, hops, stopped, _⟩ :=
              QueueSearch.search_some _ outcome
            have hit : target = ancestorSha := by
              simpa [parentWalk] using stopped
            subst hit
            rw [parentWalk_hops_iff] at hops
            simp only [Option.isSome_some, true_iff]
            exact exists_path_iff.mp ⟨distance, hops⟩

theorem findMergeBase_none_iff (store : CommitStore ids) (repoId : Text)
    (sha1 sha2 : Sha) :
    store.findMergeBase repoId sha1 sha2 = none ↔
      ¬∃ sha, Common (store.ParentOf repoId) sha1 sha2 sha := by
  cases outcome : (store.parentWalk repoId (fun _ => false)
      (fun sha => (store.ancestors repoId sha1).contains sha) false).search
      sha2 with
  | mk visited found =>
      cases found with
      | none =>
          have result : store.findMergeBase repoId sha1 sha2 = none := by
            simp only [findMergeBase, outcome]
          simp only [result, true_iff]
          intro shared
          obtain ⟨sha, left, right⟩ := shared
          have unstopped := (QueueSearch.search_none _ outcome).2.2 sha
            ((store.parentWalk_reaches_iff repoId _ _).mpr right)
          have member := (store.mem_ancestors_iff repoId).mpr left
          simp [parentWalk, member] at unstopped
      | some target =>
          have result : store.findMergeBase repoId sha1 sha2 = some target := by
            simp only [findMergeBase, outcome]
          obtain ⟨distance, hops, stopped, _⟩ :=
            QueueSearch.search_some _ outcome
          have left : store.Reachable repoId sha1 target := by
            apply (store.mem_ancestors_iff repoId).mp
            simpa [parentWalk] using stopped
          rw [parentWalk_hops_iff] at hops
          simp only [result, reduceCtorEq, false_iff, not_not]
          exact ⟨target, left, exists_path_iff.mp ⟨distance, hops⟩⟩

theorem findMergeBase_some (store : CommitStore ids) (repoId : Text)
    {sha1 sha2 mergeBase : Sha}
    (found : store.findMergeBase repoId sha1 sha2 = some mergeBase) :
    Nearest (store.ParentOf repoId) sha1 sha2 mergeBase := by
  cases outcome : (store.parentWalk repoId (fun _ => false)
      (fun sha => (store.ancestors repoId sha1).contains sha) false).search
      sha2 with
  | mk visited hit =>
      have hitEq : hit = some mergeBase := by
        simpa only [findMergeBase, outcome] using found
      subst hitEq
      obtain ⟨distance, hops, stopped, least⟩ :=
        QueueSearch.search_some _ outcome
      have left : store.Reachable repoId sha1 mergeBase := by
        apply (store.mem_ancestors_iff repoId).mp
        simpa [parentWalk] using stopped
      rw [parentWalk_hops_iff] at hops
      refine ⟨⟨left, exists_path_iff.mp ⟨distance, hops⟩⟩, distance, hops, ?_⟩
      intro count other common path
      apply least count other
      · rw [parentWalk_hops_iff]
        exact path
      · have member := (store.mem_ancestors_iff repoId).mpr common.1
        simpa [parentWalk] using member

/-- `findMergeBase` answers null exactly for unrelated commits, and otherwise a
common ancestor at the least number of parent links from its second argument;
that one is a best common ancestor wherever a common ancestor lies farther away
than those descending from it. -/
theorem findMergeBase_nearest (store : CommitStore ids) (repoId : Text)
    (sha1 sha2 : Sha) :
    (store.findMergeBase repoId sha1 sha2 = none ↔
      ¬∃ sha, Common (store.ParentOf repoId) sha1 sha2 sha) ∧
    ∀ mergeBase, store.findMergeBase repoId sha1 sha2 = some mergeBase →
      Nearest (store.ParentOf repoId) sha1 sha2 mergeBase ∧
      ((∀ upper lower, Common (store.ParentOf repoId) sha1 sha2 upper →
          Common (store.ParentOf repoId) sha1 sha2 lower →
          TransGen (store.ParentOf repoId) upper lower →
          ∀ count, Path (store.ParentOf repoId) count sha2 lower →
            ∃ fewer, fewer < count ∧
              Path (store.ParentOf repoId) fewer sha2 upper) →
        Best (store.ParentOf repoId) sha1 sha2 mergeBase) := by
  refine ⟨store.findMergeBase_none_iff repoId sha1 sha2, ?_⟩
  intro mergeBase found
  have nearest := store.findMergeBase_some repoId found
  exact ⟨nearest, fun graded => nearest.best graded⟩

/-! ### A merge whose parents are related

`shortcut` merges `main` directly with the root below it, so the root is as
close to it as `main` is. -/

namespace Shortcut

def signature : GitSignature :=
  ⟨['t'], ['t', '@', 't'], 0, ['+', '0', '0', '0', '0']⟩

def commitOn (parents : List Digest) (message : Text) : CommitContent Digest :=
  { tree := Digest.tree Digest.noEntries
    parents := parents
    author := signature
    committer := signature
    message := message }

def root : Digest := Digest.ofObject (.commit (commitOn [] ['r']))
def main : Digest := Digest.ofObject (.commit (commitOn [root] ['m']))
def topic : Digest := Digest.ofObject (.commit (commitOn [main] ['t']))
def shortcut : Digest :=
  Digest.ofObject (.commit (commitOn [root, main] ['s']))

def bucket : ObjectStore termIds :=
  let first := ((ObjectStore.empty termIds).putCommit (commitOn [] ['r'])).2
  let second := (first.putCommit (commitOn [root] ['m'])).2
  let third := (second.putCommit (commitOn [main] ['t'])).2
  (third.putCommit (commitOn [root, main] ['s'])).2

def history : CommitStore termIds := ⟨[], bucket⟩

end Shortcut

open Shortcut in
/-- In a four-commit history the answer is the root although both tips descend
from `main`, which descends from the root. -/
theorem findMergeBase_not_best :
    history.knownShas = [shortcut, topic, main, root] ∧
    history.parentsOf [] shortcut = [root, main] ∧
    history.parentsOf [] topic = [main] ∧
    history.parentsOf [] main = [root] ∧
    history.parentsOf [] root = [] ∧
    history.findMergeBase [] topic shortcut = some root ∧
    ¬Best (history.ParentOf []) topic shortcut root := by
  refine ⟨by decide +kernel, by decide +kernel, by decide +kernel,
    by decide +kernel, by decide +kernel, by decide +kernel, ?_⟩
  intro best
  have link : history.ParentOf [] main root := by
    have member : root ∈ history.parentsOf [] main := by decide +kernel
    exact member
  have left : history.Reachable [] topic main := by decide +kernel
  have right : history.Reachable [] shortcut main := by decide +kernel
  exact best.2 main ⟨left, right⟩ (.single link)

end CommitStore

end Takos.Git

/-!
# Growing commit stores

Objects are only added and a commit is indexed under its own hash, so whatever
is readable stays readable and ancestry is never lost.
-/

namespace Takos.Git

open Takos.Foundation ObjectStore Relation

variable {Sha : Type} [DecidableEq Sha] {ids : ObjectIds Sha}

theorem blob_extends {bucket later : ObjectStore ids}
    (grown : Extends bucket later) {sha : Sha} {content : List UInt8}
    (read : bucket.getBlob sha = some content) :
    later.getBlob sha = some content := by
  unfold getBlob at read ⊢
  split at read
  · rename_i stored fetched
    rw [getObject_extends grown fetched]
    exact read
  · simp at read

theorem getCommitData_hash {bucket : ObjectStore ids} {sha : Sha}
    {commit : GitCommit Sha} (read : bucket.getCommitData sha = some commit) :
    sha = ids.hashObject (.commit commit.toCommitContent) := by
  simp only [getCommitData] at read
  split at read
  · rename_i object content fetched
    cases read
    simp only [getObject] at fetched
    split at fetched
    · exact (hash_of_find? fetched).symm
    · cases fetched
  · cases read

namespace CommitStore

/-- Objects stay readable and no commit loses a parent. -/
structure Grows (earlier later : CommitStore ids) : Prop where
  objects : Extends earlier.bucket later.bucket
  parents : ∀ repoId child parent, earlier.ParentOf repoId child parent →
    later.ParentOf repoId child parent

theorem Grows.refl (store : CommitStore ids) : Grows store store :=
  ⟨Extends.refl _, fun _ _ _ link => link⟩

theorem Grows.trans {first second third : CommitStore ids}
    (left : Grows first second) (right : Grows second third) :
    Grows first third :=
  ⟨left.objects.trans right.objects, fun repoId child parent link =>
    right.parents repoId child parent (left.parents repoId child parent link)⟩

theorem Grows.reachable {earlier later : CommitStore ids}
    (grown : Grows earlier later) {repoId : Text} {descendant ancestor : Sha}
    (reached : earlier.Reachable repoId descendant ancestor) :
    later.Reachable repoId descendant ancestor :=
  ReflTransGen.mono (grown.parents repoId) _ _ reached

theorem parentsOf_indexed {store : CommitStore ids} {repoId : Text} {sha : Sha}
    {commit : GitCommit Sha}
    (found : store.getCommitFromIndex repoId sha = some commit) :
    store.parentsOf repoId sha = commit.parents := by
  simp [parentsOf, getCommit, found]

theorem parentsOf_stored {store : CommitStore ids} {repoId : Text} {sha : Sha}
    (missing : store.getCommitFromIndex repoId sha = none) :
    store.parentsOf repoId sha =
      ((store.bucket.getCommitData sha).map
        fun commit => commit.parents).getD [] := by
  simp only [parentsOf, getCommit, missing]
  cases store.bucket.getCommitData sha <;> rfl

theorem grows_bucket (store : CommitStore ids) {bucket : ObjectStore ids}
    (grown : Extends store.bucket bucket) :
    Grows store { store with bucket := bucket } := by
  refine ⟨grown, ?_⟩
  intro repoId child parent link
  cases found : store.getCommitFromIndex repoId child with
  | some commit =>
      have later : getCommitFromIndex { store with bucket := bucket } repoId
          child = some commit := found
      simp only [ParentOf, parentsOf_indexed found] at link
      simpa only [ParentOf, parentsOf_indexed later] using link
  | none =>
      have later : getCommitFromIndex { store with bucket := bucket } repoId
          child = none := found
      simp only [ParentOf, parentsOf_stored found] at link
      simp only [ParentOf, parentsOf_stored later]
      cases read : store.bucket.getCommitData child with
      | none => simp [read] at link
      | some commit =>
          rw [getCommitData_extends grown read]
          rw [read] at link
          exact link

theorem getCommitFromIndex_insert {store : CommitStore ids}
    {row : CommitRow Sha} {commits : List (CommitRow Sha)}
    (inserted : insertCommitRow store.commits row = some commits)
    (repoId : Text) (sha : Sha) :
    getCommitFromIndex { store with commits := commits } repoId sha =
      (store.getCommitFromIndex repoId sha).orElse fun _ =>
        if row.repoId = repoId ∧ row.sha = sha then some (indexedToCommit row)
        else none := by
  simp only [insertCommitRow] at inserted
  split at inserted
  · cases inserted
  · cases inserted
    simp only [getCommitFromIndex, List.find?_append]
    cases store.commits.find? _ with
    | some older => rfl
    | none =>
        by_cases same : row.repoId = repoId ∧ row.sha = sha
        · simp [same]
        · simp only [Option.none_or, Option.map_none, Option.orElse_none,
            if_neg same]
          have unmatched :
              (row.repoId = repoId && row.sha = sha : Bool) = false := by
            simpa using same
          simp [unmatched]

omit [DecidableEq Sha] in
theorem indexedToCommit_commitRow_parents (repoId : Text)
    (commit : GitCommit Sha) :
    (indexedToCommit (commitRow repoId commit)).parents = commit.parents := by
  simp only [indexedToCommit, commitRow]
  cases commit.parents <;> rfl

theorem grows_index {store : CommitStore ids} {repoId : Text}
    {commit : GitCommit Sha} {commits : List (CommitRow Sha)}
    (hashed : commit.sha = ids.hashObject (.commit commit.toCommitContent))
    (inserted : insertCommitRow store.commits (commitRow repoId commit) =
      some commits) :
    Grows store { store with commits := commits } := by
  refine ⟨Extends.refl _, ?_⟩
  intro otherRepo child parent link
  have lookup := getCommitFromIndex_insert inserted otherRepo child
  cases found : store.getCommitFromIndex otherRepo child with
  | some older =>
      rw [found] at lookup
      simp only [ParentOf, parentsOf_indexed found] at link
      simpa only [ParentOf, parentsOf_indexed lookup] using link
  | none =>
      simp only [ParentOf, parentsOf_stored found] at link
      by_cases same : repoId = otherRepo ∧ commit.sha = child
      · rw [found] at lookup
        have indexed : getCommitFromIndex { store with commits := commits }
            otherRepo child = some (indexedToCommit (commitRow repoId commit)) :=
          lookup.trans (if_pos same)
        simp only [ParentOf, parentsOf_indexed indexed,
          indexedToCommit_commitRow_parents]
        cases read : store.bucket.getCommitData child with
        | none => simp [read] at link
        | some stored =>
            rw [read] at link
            have content : stored.toCommitContent = commit.toCommitContent := by
              have hash := getCommitData_hash read
              rw [← same.2, hashed] at hash
              exact (GitObject.commit.inj (ids.hash_injective hash)).symm
            have sameParents : stored.parents = commit.parents := by
              rw [content]
            simpa [sameParents] using link
      · rw [found] at lookup
        have missing : getCommitFromIndex { store with commits := commits }
            otherRepo child = none := lookup.trans (if_neg same)
        simpa only [ParentOf, parentsOf_stored missing] using link

theorem parentOf_indexed {store : CommitStore ids} {repoId : Text}
    {commit : GitCommit Sha} {commits : List (CommitRow Sha)}
    (inserted : insertCommitRow store.commits (commitRow repoId commit) =
      some commits) {parent : Sha} (member : parent ∈ commit.parents) :
    ParentOf { store with commits := commits } repoId commit.sha parent := by
  have lookup := getCommitFromIndex_insert inserted repoId commit.sha
  have free : store.getCommitFromIndex repoId commit.sha = none := by
    simp only [insertCommitRow] at inserted
    split at inserted
    · cases inserted
    · rename_i unused
      simp only [getCommitFromIndex, Option.map_eq_none_iff]
      apply List.find?_eq_none.mpr
      intro row rowMember matched
      apply unused
      exact List.any_eq_true.mpr ⟨row, rowMember, matched⟩
  rw [free] at lookup
  have indexed : getCommitFromIndex { store with commits := commits } repoId
      commit.sha = some (indexedToCommit (commitRow repoId commit)) :=
    lookup.trans (if_pos ⟨rfl, rfl⟩)
  simp only [ParentOf, parentsOf_indexed indexed,
    indexedToCommit_commitRow_parents]
  exact member

end CommitStore

end Takos.Git
