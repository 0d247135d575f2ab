import Takos.Foundation.Asking
import Takos.Git.TreeRebuild

/-!
# Tree operations one object at a time

`flattenTree` reads the trees one by one and `createTreeFromNode` writes them
one by one.  Here each read and each write is a step of its own, so that other
calls can run in between.
-/

namespace Takos.Git

open Takos.Foundation ObjectStore

variable {Sha : Type} [DecidableEq Sha]

/-- A computation that reads trees. -/
abbrev TreeReads (Sha Result : Type) :=
  Asking Sha (Option (List (TreeEntry Sha))) (Except TreeError Result)

/-- Continue after a success. -/
def TreeReads.andThen {Result Other : Type} (first : TreeReads Sha Result)
    (rest : Result → TreeReads Sha Other) : TreeReads Sha Other :=
  first.bind fun
    | .ok result => rest result
    | .error failure => .done (.error failure)

omit [DecidableEq Sha] in
theorem TreeReads.answered_andThen {Result Other : Type}
    (source : Sha → Option (List (TreeEntry Sha)))
    (first : TreeReads Sha Result) (rest : Result → TreeReads Sha Other) :
    (first.andThen rest).answered source =
      (first.answered source).bind fun result =>
        (rest result).answered source := by
  rw [TreeReads.andThen, Asking.answered_bind]
  cases first.answered source with
  | error | ok => rfl

/-- `walkEntries` with its reads left open. -/
def walkEntriesReads (options : FlattenOptions)
    (descend : Sha → Text → Nat →
      TreeReads Sha (List (FileEntry Sha) × Nat))
    (basePath : Text) :
    List (TreeEntry Sha) → Nat → TreeReads Sha (List (FileEntry Sha) × Nat)
  | [], counter => .done (.ok ([], counter))
  | entry :: rest, counter =>
    if options.maxEntries < counter + 1 then
      .done (.error (.entryLimit options.maxEntries))
    else
      let fullPath := childPath basePath entry.name
      if isDirectoryMode entry.mode then
        (descend entry.sha fullPath (counter + 1)).andThen fun inside =>
          (walkEntriesReads options descend basePath rest inside.2).andThen
            fun later => .done (.ok (inside.1 ++ later.1, later.2))
      else if entry.mode = FILE_MODES.SYMLINK then
        if options.skipSymlinks then
          walkEntriesReads options descend basePath rest (counter + 1)
        else .done (.error (.symlink fullPath))
      else
        (walkEntriesReads options descend basePath rest (counter + 1)).andThen
          fun later =>
            .done (.ok (⟨fullPath, entry.sha, entry.mode⟩ :: later.1, later.2))

/-- `walk` with its reads left open. -/
def walkReads (options : FlattenOptions) :
    Nat → List Sha → Sha → Text → Nat →
      TreeReads Sha (List (FileEntry Sha) × Nat)
  | 0, _, _, _, _ => .done (.error (.depthLimit options.maxDepth))
  | levels + 1, visited, currentTreeSha, currentBasePath, counter =>
    if currentTreeSha ∈ visited then .done (.ok ([], counter))
    else
      .ask currentTreeSha fun
        | none => .done (.ok ([], counter))
        | some entries =>
          walkEntriesReads options
            (walkReads options levels (currentTreeSha :: visited))
            currentBasePath entries counter

/-- `flattenTree` with its reads left open. -/
def flattenReads (treeSha : Sha) : TreeReads Sha (List (FileEntry Sha)) :=
  (walkReads defaultFlattenOptions (defaultFlattenOptions.maxDepth + 1) []
    treeSha [] 0).andThen fun result => .done (.ok result.1)

omit [DecidableEq Sha] in
theorem answered_walkEntriesReads (options : FlattenOptions)
    (source : Sha → Option (List (TreeEntry Sha)))
    (descend : Sha → Text → Nat →
      TreeReads Sha (List (FileEntry Sha) × Nat))
    (basePath : Text) (entries : List (TreeEntry Sha)) (counter : Nat) :
    (walkEntriesReads options descend basePath entries counter).answered
        source =
      walkEntries options
        (fun sha path count => (descend sha path count).answered source)
        basePath entries counter := by
  induction entries generalizing counter with
  | nil => rfl
  | cons entry rest ih =>
      simp only [walkEntriesReads, walkEntries]
      split
      · rfl
      · split
        · rw [TreeReads.answered_andThen]
          simp only [bind, Except.bind]
          split
          · rfl
          · rw [TreeReads.answered_andThen, ih]
            rfl
        · split
          · split
            · exact ih (counter + 1)
            · rfl
          · rw [TreeReads.answered_andThen, ih]
            rfl

variable {ids : ObjectIds Sha}

theorem answered_walkReads (bucket : ObjectStore ids)
    (options : FlattenOptions) (levels : Nat) (visited : List Sha)
    (treeSha : Sha) (basePath : Text) (counter : Nat) :
    (walkReads options levels visited treeSha basePath counter).answered
        bucket.getTreeEntries =
      walk bucket options levels visited treeSha basePath counter := by
  induction levels generalizing visited treeSha basePath counter with
  | zero => rfl
  | succ levels ih =>
      simp only [walkReads, walk]
      split
      · rfl
      · simp only [Asking.answered]
        cases bucket.getTreeEntries treeSha with
        | none => rfl
        | some entries =>
            simp only [answered_walkEntriesReads]
            congr
            funext sha path count
            exact ih (treeSha :: visited) sha path count

/-- When nothing runs in between, the reads are those of `flattenTree`. -/
theorem answered_flattenReads (bucket : ObjectStore ids) (treeSha : Sha) :
    (flattenReads treeSha).answered bucket.getTreeEntries =
      flattenTree bucket treeSha := by
  rw [flattenReads, TreeReads.answered_andThen, answered_walkReads]
  rfl

/-- Entries that `nodeEntries` returns; they do not depend on the store. -/
def plannedEntries (ids : ObjectIds Sha) :
    TreeNode Sha → List (TreeEntry Sha)
  | .empty => []
  | .file _ entry rest => entry :: plannedEntries ids rest
  | .dir name child rest =>
    ⟨FILE_MODES.DIRECTORY, name,
      ids.hashObject (.tree (storedEntries (plannedEntries ids child)))⟩ ::
      plannedEntries ids rest

/-- Subtrees that `nodeEntries` writes, in order. -/
def plannedSubtrees (ids : ObjectIds Sha) :
    TreeNode Sha → List (List (TreeEntry Sha))
  | .empty => []
  | .file _ _ rest => plannedSubtrees ids rest
  | .dir _ child rest =>
    plannedSubtrees ids child ++
      plannedEntries ids child :: plannedSubtrees ids rest

/-- Trees that `createTreeFromNode` writes, in order. -/
def plannedTrees (ids : ObjectIds Sha) (node : TreeNode Sha) :
    List (List (TreeEntry Sha)) :=
  plannedSubtrees ids node ++ [plannedEntries ids node]

def treeShaOf (ids : ObjectIds Sha) (entries : List (TreeEntry Sha)) : Sha :=
  ids.hashObject (.tree (storedEntries entries))

/-- The writes of a list of trees. -/
def putTrees (bucket : ObjectStore ids)
    (trees : List (List (TreeEntry Sha))) : ObjectStore ids :=
  trees.foldl (fun bucket entries => (bucket.putTree entries).2) bucket

theorem nodeEntries_eq_planned (node : TreeNode Sha)
    (bucket : ObjectStore ids) :
    nodeEntries node bucket =
      (plannedEntries ids node, putTrees bucket (plannedSubtrees ids node)) := by
  induction node generalizing bucket with
  | empty => rfl
  | file _ entry rest ih =>
      simp only [nodeEntries, ih, plannedEntries, plannedSubtrees]
  | dir name child rest childIh restIh =>
      simp only [nodeEntries, childIh, restIh, plannedEntries, plannedSubtrees,
        putTree, putObject_fst, putTrees, List.foldl_append, List.foldl_cons]

/-- A tree holds an entry below a path of names. -/
inductive HoldsFile (bucket : ObjectStore ids) :
    Sha → List Text → TreeEntry Sha → Prop where
  | here {treeSha : Sha} {entries : List (TreeEntry Sha)}
      {entry : TreeEntry Sha} :
      bucket.getTreeEntries treeSha = some entries → entry ∈ entries →
      isDirectoryMode entry.mode = false →
      HoldsFile bucket treeSha [entry.name] entry
  | inside {treeSha : Sha} {entries : List (TreeEntry Sha)}
      {directory entry : TreeEntry Sha} {parts : List Text} :
      bucket.getTreeEntries treeSha = some entries → directory ∈ entries →
      isDirectoryMode directory.mode = true →
      HoldsFile bucket directory.sha parts entry →
      HoldsFile bucket treeSha (directory.name :: parts) entry

theorem HoldsFile.extend {bucket later : ObjectStore ids}
    (grown : Extends bucket later) {treeSha : Sha} {parts : List Text}
    {entry : TreeEntry Sha} (holds : HoldsFile bucket treeSha parts entry) :
    HoldsFile later treeSha parts entry := by
  induction holds with
  | here stored member plain =>
      exact .here (getTreeEntries_extends grown stored) member plain
  | inside stored member isDir _ ih =>
      exact .inside (getTreeEntries_extends grown stored) member isDir ih

/-- The tree with these entries has been written. -/
def TreeStored (bucket : ObjectStore ids) (entries : List (TreeEntry Sha)) :
    Prop :=
  bucket.getTreeEntries (treeShaOf ids entries) = some (storedEntries entries)

variable {entries : List (TreeEntry Sha)}

theorem TreeStored.extend {bucket later : ObjectStore ids}
    (grown : Extends bucket later) (stored : TreeStored bucket entries) :
    TreeStored later entries :=
  getTreeEntries_extends grown stored

theorem treeStored_putTree (bucket : ObjectStore ids)
    (entries : List (TreeEntry Sha)) :
    TreeStored (bucket.putTree entries).2 entries := by
  have written := getTreeEntries_putTree bucket entries
  rw [putTree, putObject_fst] at written
  exact written

omit [DecidableEq Sha] in
theorem storedEntry_mem {entry : TreeEntry Sha} (member : entry ∈ entries) :
    storedEntry entry ∈ storedEntries entries :=
  (storedEntries_perm entries).symm.subset
    (List.mem_map.mpr ⟨entry, member, rfl⟩)

/-- A node whose own entries are part of a stored tree, and whose subtrees are
all stored, is found there with all its leaves. -/
theorem holdsFile_of_entries {bucket : ObjectStore ids} {treeSha : Sha}
    (stored : bucket.getTreeEntries treeSha = some entries)
    (node : TreeNode Sha)
    (listed : ∀ entry ∈ plannedEntries ids node, storedEntry entry ∈ entries)
    (subtrees : ∀ tree ∈ plannedSubtrees ids node, TreeStored bucket tree)
    {leaf : List Text × TreeEntry Sha} (member : leaf ∈ node.leaves)
    (named : leaf.2.name = leaf.1.getLastD [])
    (plain : isDirectoryMode (storedMode leaf.2.mode) = false) :
    HoldsFile bucket treeSha leaf.1 (storedEntry leaf.2) := by
  induction node generalizing treeSha entries leaf with
  | empty => cases member
  | file name entry rest ih =>
      rcases List.mem_cons.mp member with here | later
      · subst here
        have placed := listed entry List.mem_cons_self
        have nameEq : entry.name = name := named
        have holds := HoldsFile.here stored placed plain
        rw [← nameEq]
        exact holds
      · exact ih stored
          (fun other otherMember => listed other (.tail _ otherMember))
          subtrees later named plain
  | dir name child rest childIh restIh =>
      rcases List.mem_append.mp member with below | later
      · obtain ⟨inner, innerMember, shape⟩ := List.mem_map.mp below
        subst shape
        let directory : TreeEntry Sha :=
          ⟨FILE_MODES.DIRECTORY, name, treeShaOf ids (plannedEntries ids child)⟩
        have placed : storedEntry directory ∈ entries :=
          listed directory List.mem_cons_self
        have isDir : isDirectoryMode (storedEntry directory).mode = true := by
          simp [storedEntry, directory, isDirectoryMode]
        have childStored : TreeStored bucket (plannedEntries ids child) :=
          subtrees _ (List.mem_append_right _ List.mem_cons_self)
        have innerNamed : inner.2.name = inner.1.getLastD [] := by
          obtain ⟨first, _, beneath, shape⟩ := PathTree.head_mem_names innerMember
          simp only [shape, List.getLastD_cons] at named ⊢
          exact named
        have holds := childIh childStored (fun _ => storedEntry_mem)
          (fun tree treeMember =>
            subtrees tree (List.mem_append_left _ treeMember))
          innerMember innerNamed plain
        exact .inside stored placed isDir holds
      · exact restIh stored
          (fun other otherMember => listed other (.tail _ otherMember))
          (fun tree treeMember =>
            subtrees tree (List.mem_append_right _ (.tail _ treeMember)))
          later named plain

theorem holdsFile_of_written {bucket : ObjectStore ids} (node : TreeNode Sha)
    (written : ∀ tree ∈ plannedTrees ids node, TreeStored bucket tree)
    {leaf : List Text × TreeEntry Sha} (member : leaf ∈ node.leaves)
    (named : leaf.2.name = leaf.1.getLastD [])
    (plain : isDirectoryMode (storedMode leaf.2.mode) = false) :
    HoldsFile bucket (treeShaOf ids (plannedEntries ids node)) leaf.1
      (storedEntry leaf.2) := by
  have root : TreeStored bucket (plannedEntries ids node) :=
    written _ (List.mem_append_right _ (List.mem_singleton_self _))
  exact holdsFile_of_entries root node (fun _ => storedEntry_mem)
    (fun tree treeMember => written tree (List.mem_append_left _ treeMember))
    member named plain

end Takos.Git
