import Takos.Git.TreeContents
import Mathlib.Data.List.DropRight

/-!
# What `buildTreeFromPaths` stores

The nodes of the in-memory tree are written bottom up, each directory under the
hash of its own entries, so the stored tree flattens to the leaves of the
in-memory one with their modes as they read back.
-/

namespace Takos.Git

open Takos.Foundation Relation

variable {Sha : Type} [DecidableEq Sha] {ids : ObjectIds Sha}

namespace ObjectStore

theorem storedMode_idem (mode : Text) :
    storedMode (storedMode mode) = storedMode mode := by
  have stripped : (storedMode mode).dropWhile (· = '0') =
      mode.dropWhile (· = '0') := by
    have drop : ∀ (count : Nat) (rest : Text),
        (List.replicate count '0' ++ rest).dropWhile (· = '0') =
          rest.dropWhile (· = '0') := by
      intro count rest
      induction count with
      | zero => simp
      | succ count ih => simp [List.replicate_succ, ih]
    simp only [storedMode, Text.padStart, drop]
    exact List.dropWhile_idempotent (· = '0') mode
  simp only [storedMode] at stripped ⊢
  rw [stripped]

end ObjectStore

open ObjectStore

/-- The entry that a written entry reads back as. -/
def storedEntry (entry : TreeEntry Sha) : TreeEntry Sha :=
  { entry with mode := storedMode entry.mode }

/-- Files of an in-memory tree, as they will read back. -/
def nodeFiles (basePath : Text) : TreeNode Sha → List (FileEntry Sha)
  | .empty => []
  | .file _ entry rest =>
    ⟨childPath basePath entry.name, entry.sha, storedMode entry.mode⟩ ::
      nodeFiles basePath rest
  | .dir name child rest =>
    nodeFiles (childPath basePath name) child ++ nodeFiles basePath rest

/-- A mode that is read back as that of a regular entry. -/
def PlainMode (mode : Text) : Prop :=
  isDirectoryMode (storedMode mode) = false ∧
    storedMode mode ≠ FILE_MODES.SYMLINK

theorem nodeEntries_extends (node : TreeNode Sha) (bucket : ObjectStore ids) :
    Extends bucket (nodeEntries node bucket).2 := by
  induction node generalizing bucket with
  | empty => exact Extends.refl bucket
  | file _ _ _ ih => exact ih bucket
  | dir _ child rest childIh restIh =>
      have inside := childIh bucket
      have written :=
        (nodeEntries child bucket).2.putTree_extends (nodeEntries child bucket).1
      exact (inside.trans written).trans (restIh _)

theorem createTreeFromNode_extends (node : TreeNode Sha)
    (bucket : ObjectStore ids) :
    Extends bucket (createTreeFromNode node bucket).2 :=
  (nodeEntries_extends node bucket).trans (putTree_extends _ _)

theorem dir_written {child rest : TreeNode Sha} {bucket later : ObjectStore ids}
    (grown : Extends (nodeEntries rest ((nodeEntries child bucket).2.putTree
      (nodeEntries child bucket).1).2).2 later) :
    Extends (nodeEntries child bucket).2 later ∧
      later.getTreeEntries ((nodeEntries child bucket).2.putTree
        (nodeEntries child bucket).1).1 =
          some (storedEntries (nodeEntries child bucket).1) := by
  have written := (nodeEntries_extends rest _).trans grown
  exact ⟨(putTree_extends _ _).trans written,
    getTreeEntries_extends written (getTreeEntries_putTree _ _)⟩

/-- Writing a node whose files all have plain modes gives entries that flatten
to its files, in this store and in every later one. -/
theorem nodeEntries_flattens (node : TreeNode Sha) (bucket : ObjectStore ids)
    (plain : ∀ leaf ∈ node.leaves, PlainMode leaf.2.mode)
    {later : ObjectStore ids}
    (grown : Extends (nodeEntries node bucket).2 later) (basePath : Text) :
    ∃ files, Flattens later basePath
        ((nodeEntries node bucket).1.map storedEntry) files ∧
      files.Perm (nodeFiles basePath node) := by
  induction node generalizing bucket basePath with
  | empty => exact ⟨[], .nil basePath, .refl _⟩
  | file name entry rest ih =>
      obtain ⟨files, flattens, perm⟩ := ih bucket
        (fun leaf member => plain leaf (.tail _ member)) grown basePath
      have mode := plain ([name], entry) List.mem_cons_self
      have first : Flattens later basePath
          (storedEntry entry :: (nodeEntries rest bucket).1.map storedEntry) _ :=
        .file mode.1 mode.2 flattens
      exact ⟨_, first, perm.cons _⟩
  | dir name child rest childIh restIh =>
      have childPlain : ∀ leaf ∈ child.leaves, PlainMode leaf.2.mode := by
        intro leaf member
        exact plain (name :: leaf.1, leaf.2)
          (List.mem_append_left _ (List.mem_map.mpr ⟨leaf, member, rfl⟩))
      have restPlain : ∀ leaf ∈ rest.leaves, PlainMode leaf.2.mode :=
        fun leaf member => plain leaf (List.mem_append_right _ member)
      obtain ⟨childGrown, stored⟩ := @dir_written _ _ _ child _ _ _ grown
      obtain ⟨childFiles, childFlattens, childPerm⟩ :=
        childIh bucket childPlain childGrown (childPath basePath name)
      obtain ⟨restFiles, restFlattens, restPerm⟩ :=
        restIh _ restPlain grown basePath
      obtain ⟨sortedFiles, sortedFlattens, sortedPerm⟩ :=
        childFlattens.perm (storedEntries_perm _).symm
      refine ⟨sortedFiles ++ restFiles, ?_, ?_⟩
      · have isDir : isDirectoryMode
            (storedMode FILE_MODES.DIRECTORY) = true := by decide
        exact .dir isDir stored sortedFlattens restFlattens
      · exact (sortedPerm.symm.trans childPerm).append restPerm

theorem createTreeFromNode_files (node : TreeNode Sha)
    (bucket : ObjectStore ids)
    (plain : ∀ leaf ∈ node.leaves, PlainMode leaf.2.mode) :
    ∃ files, TreeFiles (createTreeFromNode node bucket).2
        (createTreeFromNode node bucket).1 files ∧
      files.Perm (nodeFiles [] node) := by
  let inside := nodeEntries node bucket
  obtain ⟨files, flattens, perm⟩ := nodeEntries_flattens node bucket plain
    (putTree_extends inside.2 inside.1) []
  obtain ⟨sortedFiles, sortedFlattens, sortedPerm⟩ :=
    flattens.perm (storedEntries_perm inside.1).symm
  exact ⟨sortedFiles, ⟨_, getTreeEntries_putTree inside.2 inside.1,
    sortedFlattens⟩, sortedPerm.symm.trans perm⟩

/-- A leaf names its entry after the last part of its path, and no part of the
path is empty. -/
def NamedLeaf (leaf : List Text × TreeEntry Sha) : Prop :=
  leaf.2.name = leaf.1.getLastD [] ∧ ∀ part ∈ leaf.1, part ≠ []

/-- The file that a leaf reads back as. -/
def leafFile (basePath : Text) (leaf : List Text × TreeEntry Sha) :
    FileEntry Sha :=
  ⟨leaf.1.foldl childPath basePath, leaf.2.sha, storedMode leaf.2.mode⟩

omit [DecidableEq Sha] in
theorem NamedLeaf.below {name : Text} {leaf : List Text × TreeEntry Sha}
    (named : NamedLeaf (name :: leaf.1, leaf.2)) (nonempty : leaf.1 ≠ []) :
    NamedLeaf leaf := by
  constructor
  · rw [named.1]
    cases shape : leaf.1 with
    | nil => exact absurd shape nonempty
    | cons first rest => simp [List.getLastD_eq_getLast?]
  · intro part member
    exact named.2 part (.tail _ member)

omit [DecidableEq Sha] in
theorem nodeFiles_eq_map (node : TreeNode Sha)
    (named : ∀ leaf ∈ node.leaves, NamedLeaf leaf) (basePath : Text) :
    nodeFiles basePath node = node.leaves.map (leafFile basePath) := by
  induction node generalizing basePath with
  | empty => rfl
  | file name entry rest ih =>
      have here := (named ([name], entry) List.mem_cons_self).1
      have later := ih (fun leaf member => named leaf (.tail _ member)) basePath
      have same : entry.name = name := by simpa using here
      simp [nodeFiles, PathTree.leaves, leafFile, later, same]
  | dir name child rest childIh restIh =>
      have inside := childIh (fun leaf member =>
        (named (name :: leaf.1, leaf.2) (List.mem_append_left _
          (List.mem_map.mpr ⟨leaf, member, rfl⟩))).below
            (PathTree.leaf_ne_nil member)) (childPath basePath name)
      have later := restIh
        (fun leaf member => named leaf (List.mem_append_right _ member)) basePath
      simp only [nodeFiles, PathTree.leaves, List.map_append, List.map_map,
        inside, later]
      rfl

/-- The file is the leaf, or lies below a leaf whose mode reads back as a
directory's. -/
def LeafOrigin (basePath : Text) (file : FileEntry Sha)
    (leaf : List Text × TreeEntry Sha) : Prop :=
  file = leafFile basePath leaf ∨
    isDirectoryMode (storedMode leaf.2.mode) = true ∧
      ∃ rest, file.path = leaf.1.foldl childPath basePath ++ '/' :: rest

theorem nodeEntries_origin (node : TreeNode Sha) (bucket : ObjectStore ids)
    (named : ∀ leaf ∈ node.leaves, NamedLeaf leaf)
    {later : ObjectStore ids}
    (grown : Extends (nodeEntries node bucket).2 later) {basePath : Text}
    {files : List (FileEntry Sha)}
    (flattens : Flattens later basePath
      ((nodeEntries node bucket).1.map storedEntry) files) :
    (∀ leaf ∈ node.leaves, storedMode leaf.2.mode ≠ FILE_MODES.SYMLINK) ∧
    ∀ file ∈ files, ∃ leaf ∈ node.leaves, LeafOrigin basePath file leaf := by
  induction node generalizing bucket basePath files with
  | empty =>
      cases flattens
      simp [PathTree.leaves]
  | file name entry rest ih =>
      have here := named ([name], entry) List.mem_cons_self
      have same : entry.name = name := by simpa using here.1
      have nonempty : name ≠ [] := here.2 name List.mem_cons_self
      have restNamed := fun leaf member =>
        named leaf (List.mem_cons_of_mem ([name], entry) member)
      have lift : ∀ {file : FileEntry Sha},
          (∃ leaf ∈ rest.leaves, LeafOrigin basePath file leaf) →
          ∃ leaf ∈ (PathTree.file name entry rest).leaves,
            LeafOrigin basePath file leaf := by
        rintro file ⟨leaf, member, origin⟩
        exact ⟨leaf, .tail _ member, origin⟩
      cases flattens with
      | file plain notLink restFlattens =>
          obtain ⟨links, origins⟩ := ih bucket restNamed grown restFlattens
          refine ⟨List.forall_mem_cons.mpr ⟨notLink, links⟩, ?_⟩
          intro file member
          rcases List.mem_cons.mp member with first | others
          · refine ⟨([name], entry), List.mem_cons_self, .inl ?_⟩
            simp [first, leafFile, storedEntry, same]
          · exact lift (origins file others)
      | dir isDir stored inside restFlattens =>
          obtain ⟨links, origins⟩ := ih bucket restNamed grown restFlattens
          refine ⟨List.forall_mem_cons.mpr ⟨?_, links⟩, ?_⟩
          · intro link
            have mode : (storedEntry entry).mode = FILE_MODES.SYMLINK := link
            rw [mode] at isDir
            exact absurd isDir (by decide)
          · intro file member
            rcases List.mem_append.mp member with first | others
            · have below := inside.path_below (by
                simp only [storedEntry, same, childPath]
                split <;> simp [nonempty]) file first
              refine ⟨([name], entry), List.mem_cons_self, .inr ⟨isDir, ?_⟩⟩
              simpa [storedEntry, same] using below
            · exact lift (origins file others)
  | dir name child rest childIh restIh =>
      obtain ⟨childGrown, written⟩ := @dir_written _ _ _ child _ _ _ grown
      have raise : ∀ leaf ∈ child.leaves,
          (name :: leaf.1, leaf.2) ∈ (PathTree.dir name child rest).leaves :=
        fun leaf member =>
          List.mem_append_left _ (List.mem_map.mpr ⟨leaf, member, rfl⟩)
      have childNamed : ∀ leaf ∈ child.leaves, NamedLeaf leaf :=
        fun leaf member => (named _ (raise leaf member)).below
          (PathTree.leaf_ne_nil member)
      have restNamed : ∀ leaf ∈ rest.leaves, NamedLeaf leaf :=
        fun leaf member => named leaf (List.mem_append_right _ member)
      cases flattens with
      | file plain _ _ =>
          have isDirectory : isDirectoryMode
              (storedMode FILE_MODES.DIRECTORY) = true := by decide
          cases isDirectory.symm.trans plain
      | dir isDir stored insideFlattens restFlattens =>
          cases written.symm.trans stored
          obtain ⟨childFiles, childFlattens, childPerm⟩ :=
            insideFlattens.perm (storedEntries_perm _)
          obtain ⟨childLinks, childOrigins⟩ :=
            childIh bucket childNamed childGrown childFlattens
          obtain ⟨restLinks, restOrigins⟩ :=
            restIh _ restNamed grown restFlattens
          constructor
          · intro leaf member
            rcases List.mem_append.mp member with below | others
            · obtain ⟨inner, innerMember, rfl⟩ := List.mem_map.mp below
              exact childLinks inner innerMember
            · exact restLinks leaf others
          · intro file member
            rcases List.mem_append.mp member with below | others
            · obtain ⟨leaf, leafMember, origin⟩ :=
                childOrigins file (childPerm.subset below)
              exact ⟨_, raise leaf leafMember, origin⟩
            · obtain ⟨leaf, leafMember, origin⟩ := restOrigins file others
              exact ⟨leaf, List.mem_append_right _ leafMember, origin⟩

end Takos.Git
