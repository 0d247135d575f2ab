import Takos.Git.CommitFile
import Takos.Foundation.RoleGraph

/-!
# The two object walks

`collectReachableObjects` answers an upload-pack request and
`collectReachableObjectShas` lists what a garbage collection keeps.  Both read
every queued id with `getCommit` and every tree id with `getTreeEntries`, and
both follow each entry of a tree, whatever its mode.
-/

namespace Takos.Git

open Takos.Foundation

/-- The place in which a walk meets an id. -/
inductive ObjectRole where
  | commit
  | tree
  | leaf

variable {Sha : Type} [DecidableEq Sha] {ids : ObjectIds Sha}

theorem getTreeEntries_key {bucket : ObjectStore ids} {sha : Sha}
    {entries : List (TreeEntry Sha)}
    (read : bucket.getTreeEntries sha = some entries) :
    sha ∈ bucket.objects.map Prod.fst := by
  unfold ObjectStore.getTreeEntries at read
  split at read
  · rename_i stored found
    unfold ObjectStore.getObject at found
    split at found
    · exact List.mem_map.mpr
        ⟨_, ObjectStore.mem_objects_of_find? found, rfl⟩
    · cases found
  · cases read

/-- The parent walk, whose measure bounds the rounds of both outer loops. -/
abbrev parentLinks (store : CommitStore ids) (repoId : Text) :
    QueueSearch Sha :=
  store.parentWalk repoId (fun _ => false) (fun _ => false) false

section Upload

variable (bucket : ObjectStore ids) (haves : List Sha)

/-- The `for` loop of `collectTreeObjects`.  `visited` and `result` receive the
same ids in the same order, so `seen` stands for both. -/
def collectEntries (collectTree : Sha → List Sha → Option (List Sha)) :
    List (TreeEntry Sha) → List Sha → Option (List Sha)
  | [], seen => some seen
  | entry :: rest, seen =>
    if entry.sha ∈ seen ∨ entry.sha ∈ haves then
      collectEntries collectTree rest seen
    else if isDirectoryMode entry.mode then do
      let grown ← collectTree entry.sha seen
      collectEntries collectTree rest grown
    else collectEntries collectTree rest (seen ++ [entry.sha])

/-- `collectTreeObjects`; the fuel bounds the depth of the recursion. -/
def collectTreeObjects : Nat → Sha → List Sha → Option (List Sha)
  | 0, _, _ => none
  | fuel + 1, treeSha, seen =>
    if treeSha ∈ seen ∨ treeSha ∈ haves then some seen
    else
      match bucket.getTreeEntries treeSha with
      | none => some (seen ++ [treeSha])
      | some entries =>
        collectEntries haves (collectTreeObjects fuel) entries
          (seen ++ [treeSha])

end Upload

section UploadCommits

variable (store : CommitStore ids) (repoId : Text) (haves : List Sha)

/-- More levels than there are stored trees. -/
def treeDepth : Nat := store.bucket.objects.length + 1

/-- `if (!visited.has(commit.tree) && !haves.has(commit.tree))` and its body. -/
def collectCommitTree (commit : GitCommit Sha) (seen : List Sha) :
    Option (List Sha) :=
  if commit.tree ∉ seen ∧ commit.tree ∉ haves then
    collectTreeObjects store.bucket haves (treeDepth store) commit.tree seen
  else some seen

/-- The `while` loop of `collectReachableObjects`. -/
def collectCommits : Nat → List Sha → List Sha → Option (List Sha)
  | _, [], seen => some seen
  | 0, _ :: _, _ => none
  | fuel + 1, sha :: commitQueue, seen =>
    if sha ∈ seen ∨ sha ∈ haves then collectCommits fuel commitQueue seen
    else
      match store.getCommit repoId sha with
      | none => collectCommits fuel commitQueue (seen ++ [sha])
      | some commit => do
        let grown ← collectCommitTree store haves commit (seen ++ [sha])
        collectCommits fuel
          (commitQueue ++ commit.parents.filter fun parent =>
            parent ∉ grown ∧ parent ∉ haves)
          grown

/-- Rounds that a walk along parent links from `count` ids can take. -/
def commitRounds (count : Nat) : Nat :=
  (parentLinks store repoId).pending [] + count

def collectReachableObjects (wants : List Sha) : Option (List Sha) :=
  collectCommits store repoId haves (commitRounds store repoId wants.length)
    wants []

end UploadCommits

/-- The sets of `collectReachableObjectShas`. -/
structure LiveSets (Sha : Type) where
  reachable : List Sha
  visitedCommits : List Sha
  visitedTrees : List Sha

/-- Entries that `treeQueue` receives. -/
def directoryShas (bucket : ObjectStore ids) (treeSha : Sha) : List Sha :=
  match bucket.getTreeEntries treeSha with
  | none => []
  | some entries =>
    (entries.filter fun entry => isDirectoryMode entry.mode).map TreeEntry.sha

theorem directoryShas_unknown (bucket : ObjectStore ids) (treeSha : Sha)
    (unknown : treeSha ∉ bucket.objects.map Prod.fst) :
    directoryShas bucket treeSha = [] := by
  unfold directoryShas
  split
  · rfl
  · rename_i entries read
    exact absurd (getTreeEntries_key read) unknown

/-- The walk along directory entries, whose measure bounds the inner loop. -/
def treeLinks (bucket : ObjectStore ids) : QueueSearch Sha where
  next := directoryShas bucket
  support := bucket.objects.map Prod.fst
  next_nil := directoryShas_unknown bucket
  skip := fun _ => false
  stop := fun _ => false
  prune := false

section Live

variable (store : CommitStore ids) (repoId : Text)
  -- the test `!sha`, true of the empty text only
  (blank : Sha → Bool)

/-- The `while` loop over `treeQueue`. -/
def walkTrees : Nat → List Sha → LiveSets Sha → Option (LiveSets Sha)
  | _, [], sets => some sets
  | 0, _ :: _, _ => none
  | fuel + 1, treeSha :: treeQueue, sets =>
    if blank treeSha ∨ treeSha ∈ sets.visitedTrees then
      walkTrees fuel treeQueue sets
    else
      let visitedTrees := treeSha :: sets.visitedTrees
      match store.bucket.getTreeEntries treeSha with
      | none => walkTrees fuel treeQueue { sets with visitedTrees }
      | some entries =>
        walkTrees fuel
          (treeQueue ++ (directoryShas store.bucket treeSha).filter fun sha =>
            sha ∉ visitedTrees)
          { sets with
            visitedTrees
            reachable := entries.map TreeEntry.sha ∪ sets.reachable }

/-- Rounds that the loop over `treeQueue` can take for one commit. -/
def treeRounds : Nat := (treeLinks store.bucket).pending [] + 1

/-- The `while` loop over `commitQueue`. -/
def walkRefs : Nat → List Sha → LiveSets Sha → Option (LiveSets Sha)
  | _, [], sets => some sets
  | 0, _ :: _, _ => none
  | fuel + 1, commitSha :: commitQueue, sets =>
    if blank commitSha ∨ commitSha ∈ sets.visitedCommits then
      walkRefs fuel commitQueue sets
    else
      let visitedCommits := commitSha :: sets.visitedCommits
      match store.getCommit repoId commitSha with
      | none => walkRefs fuel commitQueue { sets with visitedCommits }
      | some commit => do
        let walked ← walkTrees store blank (treeRounds store) [commit.tree]
          { sets with
            visitedCommits
            reachable :=
              commit.parents ∪ sets.reachable.insert commit.tree }
        walkRefs fuel
          (commitQueue ++ commit.parents.filter fun parent =>
            parent ∉ visitedCommits)
          walked

/-- The `for` loop over the refs: `reachable` and `commitQueue`. -/
def rootRefs : List (ListedRef Sha) → List Sha → List Sha
  | [], queue => queue
  | ref :: rest, queue =>
    if ref.target ∈ queue then rootRefs rest queue
    else rootRefs rest (queue ++ [ref.target])

def collectReachableObjectShas (table : BranchTable Sha)
    (tags : List (TagRow Sha)) : Option (List Sha) :=
  let roots := rootRefs (listAllRefs table tags repoId) []
  (walkRefs store repoId blank (commitRounds store repoId roots.length) roots
    ⟨roots, [], []⟩).map LiveSets.reachable

end Live

end Takos.Git
