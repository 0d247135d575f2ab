import Takos.Git.TreeBuild

/-!
# Building a tree from a list of files

Which lists `buildTreeFromPaths` rejects, and for which lists the tree it
stores holds exactly the files of the list.  Paths are compared part by part,
after trimming.
-/

namespace Takos.Git

open Takos.Foundation ObjectStore

variable {Sha : Type}

/-- Parts of the path under which a file is inserted. -/
def pathParts (file : FileEntry Sha) : List Text :=
  Text.split '/' (Text.trim file.path)

def leafOf (file : FileEntry Sha) : List Text × TreeEntry Sha :=
  fileLeaf (pathParts file) file

/-- Every path passes `assertValidGitPath`. -/
def ValidPaths (files : List (FileEntry Sha)) : Prop :=
  ∀ file ∈ files, isValidGitPath (Text.trim file.path) = true

/-- No path lies below an earlier one. -/
def UnblockedPaths (files : List (FileEntry Sha)) : Prop :=
  files.Pairwise fun earlier later =>
    pathParts earlier <+: pathParts later →
      pathParts earlier = pathParts later

/-- No path equals an earlier one or is a directory above it. -/
def UnreplacedPaths (files : List (FileEntry Sha)) : Prop :=
  files.Pairwise fun earlier later => ¬pathParts later <+: pathParts earlier

/-- A mode that a written entry keeps, of a file that is not a symlink. -/
def KeptMode (mode : Text) : Prop :=
  storedMode (modeOrRegular mode) = mode ∧ isDirectoryMode mode = false ∧
    mode ≠ FILE_MODES.SYMLINK

/-- The conditions under which a list of files survives being written. -/
structure Survives (files : List (FileEntry Sha)) : Prop where
  trimmed : ∀ file ∈ files, Text.trim file.path = file.path
  modes : ∀ file ∈ files, KeptMode file.mode
  unreplaced : UnreplacedPaths files

/-- A file as it reads back when nothing replaces it. -/
def rebuilt (file : FileEntry Sha) : FileEntry Sha :=
  ⟨Text.trim file.path, file.sha, storedMode (modeOrRegular file.mode)⟩

theorem part_ne_nil {file : FileEntry Sha}
    (valid : isValidGitPath (Text.trim file.path) = true) :
    ∀ part ∈ pathParts file, part ≠ [] := by
  intro part member empty
  simp only [isValidGitPath, Bool.and_eq_true, List.all_eq_true] at valid
  have segment := valid.2 part member
  simp [isValidGitPathSegment, empty] at segment

theorem pathParts_ne_nil (file : FileEntry Sha) : pathParts file ≠ [] :=
  List.splitOn_ne_nil _ _

theorem join_pathParts (file : FileEntry Sha) :
    Text.join '/' (pathParts file) = Text.trim file.path :=
  Text.join_split '/' _

theorem foldl_childPath (parts : List Text) (named : ∀ part ∈ parts, part ≠ []) :
    parts.foldl childPath [] = Text.join '/' parts := by
  induction parts using List.reverseRecOn with
  | nil => rfl
  | append_singleton front last ih =>
      have frontNamed : ∀ part ∈ front, part ≠ [] := by
        intro part member
        exact named part (List.mem_append_left _ member)
      rw [List.foldl_append, List.foldl_cons, List.foldl_nil, ih frontNamed]
      by_cases empty : front = []
      · subst empty
        simp [childPath]
      · have joined : Text.join '/' front ≠ [] := by
          cases front with
          | nil => exact absurd rfl empty
          | cons first rest =>
              have visible := frontNamed first List.mem_cons_self
              cases rest with
              | nil => simpa using visible
              | cons next rest => simp [Text.join_cons_cons]
        rw [childPath_of_nonempty joined, Text.join_append_singleton '/' empty]

theorem leafOf_named {file : FileEntry Sha}
    (valid : isValidGitPath (Text.trim file.path) = true) :
    NamedLeaf (leafOf file) :=
  ⟨rfl, part_ne_nil valid⟩

theorem leafFile_leafOf {file : FileEntry Sha}
    (valid : isValidGitPath (Text.trim file.path) = true) :
    leafFile [] (leafOf file) = rebuilt file := by
  have path : (leafOf file).1.foldl childPath [] = Text.trim file.path :=
    (foldl_childPath _ (part_ne_nil valid)).trans (join_pathParts file)
  simp only [leafFile, path]
  rfl

private theorem map_leafFile {files : List (FileEntry Sha)}
    (valid : ValidPaths files) :
    (files.map leafOf).map (leafFile []) = files.map rebuilt := by
  rw [List.map_map]
  apply List.map_congr_left
  intro file member
  exact leafFile_leafOf (valid file member)

theorem storedMode_ne_nil (mode : Text) : storedMode mode ≠ [] := by
  simp only [storedMode, Text.padStart]
  cases mode.dropWhile (· = '0') with
  | nil => simp [Text.size, Text.codeUnits]
  | cons char rest => simp

theorem modeOrRegular_stored (mode : Text) :
    modeOrRegular (storedMode mode) = storedMode mode := by
  simp [modeOrRegular, storedMode_ne_nil]

theorem rebuilt_idem (file : FileEntry Sha) :
    rebuilt (rebuilt file) = rebuilt file := by
  simp [rebuilt, Text.trim_idem, modeOrRegular_stored, storedMode_idem]

theorem insertFiles_of_valid {files : List (FileEntry Sha)}
    (valid : ValidPaths files) (root : TreeNode Sha) :
    insertFiles files root =
      (PathTree.insertAll (files.map leafOf) root).mapError
        (fun blocking => .pathConflict (Text.join '/' blocking)) := by
  induction files generalizing root with
  | nil => rfl
  | cons file rest ih =>
      have checked : assertValidGitPath file.path =
          .ok (Text.trim file.path) := by
        simp [assertValidGitPath, valid file List.mem_cons_self]
      have later := ih fun other member => valid other (.tail _ member)
      have leaf : fileLeaf (Text.split '/' (Text.trim file.path)) file =
          leafOf file := rfl
      simp only [insertFiles, checked, bind, Except.bind, leaf, List.map_cons,
        PathTree.insertAll]
      cases PathTree.insert (leafOf file).1 (leafOf file).2 root with
      | error blocking => rfl
      | ok changed => exact later changed

theorem validPaths_of_insertFiles {files : List (FileEntry Sha)}
    {root result : TreeNode Sha}
    (inserted : insertFiles files root = .ok result) : ValidPaths files := by
  induction files generalizing root with
  | nil => simp [ValidPaths]
  | cons file rest ih =>
      by_cases valid : isValidGitPath (Text.trim file.path) = true
      · have checked : assertValidGitPath file.path =
            .ok (Text.trim file.path) := by
          simp [assertValidGitPath, valid]
        simp only [insertFiles, checked, bind, Except.bind] at inserted
        split at inserted
        · intro other member
          rcases List.mem_cons.mp member with here | later
          · exact here ▸ valid
          · exact ih inserted other later
        · cases inserted
      · have refused : assertValidGitPath file.path =
            .error (.invalidPath file.path) := by
          simp [assertValidGitPath, valid]
        simp only [insertFiles, refused, bind, Except.bind] at inserted
        cases inserted

theorem unblocked_leaves_iff (files : List (FileEntry Sha)) :
    PathTree.Unblocked (files.map leafOf) ↔ UnblockedPaths files :=
  List.pairwise_map

theorem unreplaced_leaves_iff (files : List (FileEntry Sha)) :
    PathTree.Unreplaced (files.map leafOf) ↔ UnreplacedPaths files :=
  List.pairwise_map

theorem leaves_ne_nil (files : List (FileEntry Sha)) :
    ∀ leaf ∈ files.map leafOf, leaf.1 ≠ [] := by
  intro leaf member
  obtain ⟨file, _, same⟩ := List.mem_map.mp member
  exact same ▸ pathParts_ne_nil file

theorem insertFiles_ok_iff (files : List (FileEntry Sha)) :
    (∃ root, insertFiles files .empty = .ok root) ↔
      ValidPaths files ∧ UnblockedPaths files := by
  have insertable := PathTree.insertAll_ok_iff (leaves_ne_nil files)
  rw [unblocked_leaves_iff] at insertable
  constructor
  · intro success
    obtain ⟨root, inserted⟩ := success
    have valid := validPaths_of_insertFiles inserted
    refine ⟨valid, insertable.mp ?_⟩
    rw [insertFiles_of_valid valid] at inserted
    cases outcome : PathTree.insertAll (files.map leafOf) PathTree.empty with
    | ok tree => exact ⟨tree, rfl⟩
    | error blocking =>
        rw [outcome] at inserted
        cases inserted
  · intro accepted
    obtain ⟨valid, unblocked⟩ := accepted
    obtain ⟨tree, inserted⟩ := insertable.mpr unblocked
    refine ⟨tree, ?_⟩
    rw [insertFiles_of_valid valid, inserted]
    rfl

theorem insertFiles_leaves {files : List (FileEntry Sha)}
    {root : TreeNode Sha} (inserted : insertFiles files .empty = .ok root) :
    root.leaves.Perm (PathTree.placeAll [] (files.map leafOf)) := by
  have valid := validPaths_of_insertFiles inserted
  rw [insertFiles_of_valid valid] at inserted
  cases outcome : PathTree.insertAll (files.map leafOf) PathTree.empty with
  | error blocking =>
      rw [outcome] at inserted
      cases inserted
  | ok tree =>
      rw [outcome] at inserted
      cases inserted
      have start : (PathTree.empty : TreeNode Sha).Distinct := trivial
      exact (PathTree.insertAll_ok start (leaves_ne_nil files) outcome).2

variable [DecidableEq Sha] {ids : ObjectIds Sha}

theorem buildTreeFromPaths_ok_iff (bucket : ObjectStore ids)
    (files : List (FileEntry Sha)) :
    (∃ built, buildTreeFromPaths bucket files = .ok built) ↔
      ValidPaths files ∧ UnblockedPaths files := by
  rw [← insertFiles_ok_iff]
  cases outcome : insertFiles files PathTree.empty with
  | ok root => simp [buildTreeFromPaths, outcome, bind, Except.bind, pure,
      Except.pure]
  | error failure => simp [buildTreeFromPaths, outcome, bind, Except.bind]

/-- A list of valid paths is rejected with the path of a file that another
path of the list needs as a directory. -/
theorem buildTreeFromPaths_error {bucket : ObjectStore ids}
    {files : List (FileEntry Sha)} (valid : ValidPaths files)
    {failure : TreeError}
    (failed : buildTreeFromPaths bucket files = .error failure) :
    ∃ file ∈ files, ∃ later ∈ files,
      failure = .pathConflict (Text.trim file.path) ∧
      pathParts file <+: pathParts later ∧
      pathParts file ≠ pathParts later := by
  cases outcome : PathTree.insertAll (files.map leafOf) PathTree.empty with
  | ok tree =>
      have inserted := insertFiles_of_valid valid PathTree.empty
      rw [outcome] at inserted
      simp [buildTreeFromPaths, inserted, Except.mapError, bind,
        Except.bind, pure, Except.pure] at failed
  | error blocking =>
      have inserted := insertFiles_of_valid valid PathTree.empty
      rw [outcome] at inserted
      have failureEq : failure = .pathConflict (Text.join '/' blocking) := by
        simpa [buildTreeFromPaths, inserted, Except.mapError, bind,
          Except.bind, eq_comm] using failed
      obtain ⟨leaf, member, other, otherMember, same, below, proper⟩ :=
        PathTree.insertAll_error (leaves_ne_nil files) outcome
      obtain ⟨file, fileMember, fileLeaf⟩ := List.mem_map.mp member
      obtain ⟨later, laterMember, laterLeaf⟩ := List.mem_map.mp otherMember
      subst fileLeaf laterLeaf
      refine ⟨file, fileMember, later, laterMember, ?_, below, proper⟩
      rw [failureEq, ← same]
      exact congrArg TreeError.pathConflict (join_pathParts file)

theorem buildTreeFromPaths_node {bucket later : ObjectStore ids}
    {files : List (FileEntry Sha)} {treeSha : Sha}
    (built : buildTreeFromPaths bucket files = .ok (treeSha, later)) :
    ValidPaths files ∧ ∃ root : TreeNode Sha,
      createTreeFromNode root bucket = (treeSha, later) ∧
      root.leaves.Perm (PathTree.placeAll [] (files.map leafOf)) := by
  cases outcome : insertFiles files PathTree.empty with
  | error failure =>
      simp [buildTreeFromPaths, outcome, bind, Except.bind] at built
  | ok root =>
      refine ⟨validPaths_of_insertFiles outcome, root, ?_,
        insertFiles_leaves outcome⟩
      simpa [buildTreeFromPaths, outcome, bind, Except.bind, pure,
        Except.pure] using built

theorem buildTreeFromPaths_extends {bucket later : ObjectStore ids}
    {files : List (FileEntry Sha)} {treeSha : Sha}
    (built : buildTreeFromPaths bucket files = .ok (treeSha, later)) :
    Extends bucket later := by
  obtain ⟨_, root, created, _⟩ := buildTreeFromPaths_node built
  have grown := createTreeFromNode_extends root bucket
  rw [created] at grown
  exact grown

omit [DecidableEq Sha] in
private theorem leaf_source {files : List (FileEntry Sha)}
    {root : TreeNode Sha}
    (perm : root.leaves.Perm (PathTree.placeAll [] (files.map leafOf)))
    {leaf : List Text × TreeEntry Sha} (member : leaf ∈ root.leaves) :
    ∃ file ∈ files, leafOf file = leaf := by
  obtain none | listed := PathTree.mem_placeAll (perm.subset member)
  · cases none
  · exact List.mem_map.mp listed

omit [DecidableEq Sha] in
private theorem nodeFiles_perm {files : List (FileEntry Sha)}
    (valid : ValidPaths files) {root : TreeNode Sha}
    (perm : root.leaves.Perm (PathTree.placeAll [] (files.map leafOf))) :
    (nodeFiles [] root).Perm
      ((PathTree.placeAll [] (files.map leafOf)).map (leafFile [])) := by
  rw [nodeFiles_eq_map]
  · exact perm.map _
  · intro leaf member
    obtain ⟨file, fileMember, same⟩ := leaf_source perm member
    exact same ▸ leafOf_named (valid file fileMember)

theorem buildTreeFromPaths_survives {bucket later : ObjectStore ids}
    {files : List (FileEntry Sha)} {treeSha : Sha}
    (built : buildTreeFromPaths bucket files = .ok (treeSha, later))
    (survives : Survives files) :
    ∃ newFiles, TreeFiles later treeSha newFiles ∧ newFiles.Perm files := by
  obtain ⟨valid, root, created, perm⟩ := buildTreeFromPaths_node built
  have plain : ∀ leaf ∈ root.leaves, PlainMode leaf.2.mode := by
    intro leaf member
    obtain ⟨file, fileMember, same⟩ := leaf_source perm member
    obtain ⟨stored, notDir, notLink⟩ := survives.modes file fileMember
    have mode : storedMode leaf.2.mode = file.mode := by
      rw [← same]
      exact stored
    exact ⟨mode ▸ notDir, mode ▸ notLink⟩
  obtain ⟨newFiles, treeFiles, newPerm⟩ :=
    createTreeFromNode_files root bucket plain
  rw [created] at treeFiles
  have placed : (PathTree.placeAll [] (files.map leafOf)).Perm
      (files.map leafOf) :=
    PathTree.placeAll_nil_of_unreplaced
      ((unreplaced_leaves_iff files).mpr survives.unreplaced)
  have unchanged : files.map rebuilt = files := by
    have each : ∀ file ∈ files, rebuilt file = file := by
      intro file member
      simp only [rebuilt, survives.trimmed file member,
        (survives.modes file member).1]
    have mapped := List.map_congr_left each
    simpa using mapped
  have final := (newPerm.trans (nodeFiles_perm valid perm)).trans
    (placed.map (leafFile []))
  rw [map_leafFile valid, unchanged] at final
  exact ⟨newFiles, treeFiles, final⟩

omit [DecidableEq Sha] in
/-- No file of a list that reads back has a mode that reads back as a
directory's.  Of the files with such a mode, the one with the shortest path
would have to lie below another one. -/
private theorem no_hidden_directory {files newFiles : List (FileEntry Sha)}
    (same : newFiles.Perm files)
    (modes : ∀ file ∈ newFiles, isDirectoryMode file.mode = false)
    (origins : ∀ file ∈ newFiles,
      (∃ source ∈ files, file = rebuilt source) ∨
      ∃ source ∈ files,
        isDirectoryMode (storedMode (modeOrRegular source.mode)) = true ∧
        Text.trim source.path ≠ [] ∧
        ∃ rest, file.path = Text.trim source.path ++ '/' :: rest) :
    ∀ file ∈ files,
      isDirectoryMode (storedMode (modeOrRegular file.mode)) = false := by
  have smaller : ∀ bound, ∀ file ∈ files,
      (Text.trim file.path).length = bound →
      isDirectoryMode (storedMode (modeOrRegular file.mode)) = false := by
    intro bound
    induction bound using Nat.strongRecOn with
    | ind bound ih =>
        intro file member size
        have newMember : file ∈ newFiles := same.symm.subset member
        obtain ⟨source, _, shape⟩ | ⟨source, sourceMember, isDir, visible,
          rest, path⟩ := origins file newMember
        · have mode : storedMode (modeOrRegular file.mode) = file.mode := by
            rw [shape]
            simp only [rebuilt, modeOrRegular_stored, storedMode_idem]
          rw [mode]
          exact modes file newMember
        · have shorter : (Text.trim source.path).length <
              (Text.trim file.path).length := by
            rw [path]
            exact Text.length_lt_trim_append rest (Text.trim_idem source.path)
              visible (by decide)
          have contradiction := ih (Text.trim source.path).length
            (by omega) source sourceMember rfl
          rw [isDir] at contradiction
          cases contradiction
  intro file member
  exact smaller _ file member rfl

theorem survives_of_buildTreeFromPaths {bucket later : ObjectStore ids}
    {files newFiles : List (FileEntry Sha)} {treeSha : Sha}
    (built : buildTreeFromPaths bucket files = .ok (treeSha, later))
    (treeFiles : TreeFiles later treeSha newFiles)
    (same : newFiles.Perm files) : Survives files := by
  obtain ⟨valid, root, created, perm⟩ := buildTreeFromPaths_node built
  have named : ∀ leaf ∈ root.leaves, NamedLeaf leaf := by
    intro leaf member
    obtain ⟨file, fileMember, leafEq⟩ := leaf_source perm member
    exact leafEq ▸ leafOf_named (valid file fileMember)
  obtain ⟨entries, stored, flattens⟩ := treeFiles
  -- The entries of the new tree, in the order in which they were written.
  let inside := nodeEntries root bucket
  have writtenEq : inside.2.putTree inside.1 = (treeSha, later) := created
  have storedAgain : later.getTreeEntries treeSha =
      some (storedEntries inside.1) := by
    have read := getTreeEntries_putTree inside.2 inside.1
    rw [writtenEq] at read
    exact read
  have entriesEq : entries = storedEntries inside.1 :=
    Option.some.inj (stored.symm.trans storedAgain)
  have grown : Extends inside.2 later := by
    have step := putTree_extends inside.2 inside.1
    rw [writtenEq] at step
    exact step
  obtain ⟨files', flattens', filesPerm⟩ :=
    (entriesEq ▸ flattens).perm (storedEntries_perm inside.1)
  obtain ⟨notLinks, origins⟩ :=
    nodeEntries_origin root bucket named grown flattens'
  have modes := flattens.modes
  have noDirectory := no_hidden_directory same
    (fun file member => (modes file member).1) (by
      intro file member
      obtain ⟨leaf, leafMember, origin⟩ :=
        origins file (filesPerm.subset member)
      obtain ⟨source, sourceMember, rfl⟩ := leaf_source perm leafMember
      rcases origin with shape | ⟨isDir, rest, path⟩
      · left
        refine ⟨source, sourceMember, ?_⟩
        rw [shape, leafFile_leafOf (valid source sourceMember)]
      · have sourceValid := valid source sourceMember
        have joined : (leafOf source).1.foldl childPath [] =
            Text.trim source.path :=
          (foldl_childPath _ (part_ne_nil sourceValid)).trans
            (join_pathParts source)
        right
        refine ⟨source, sourceMember, isDir, ?_, rest, joined ▸ path⟩
        intro empty
        simp [isValidGitPath, empty] at sourceValid)
  have plain : ∀ leaf ∈ root.leaves, PlainMode leaf.2.mode := by
    intro leaf member
    obtain ⟨source, sourceMember, leafEq⟩ := leaf_source perm member
    refine ⟨?_, notLinks leaf member⟩
    have mode := noDirectory source sourceMember
    rw [← leafEq]
    exact mode
  obtain ⟨expected, expectedFiles, expectedPerm⟩ :=
    createTreeFromNode_files root bucket plain
  rw [created] at expectedFiles
  have sameFiles : newFiles = expected :=
    TreeFiles.functional ⟨entries, stored, flattens⟩ expectedFiles
  have whole : files.Perm
      ((PathTree.placeAll [] (files.map leafOf)).map (leafFile [])) :=
    (same.symm.trans (sameFiles ▸ expectedPerm)).trans
      (nodeFiles_perm valid perm)
  have unreplaced : PathTree.Unreplaced (files.map leafOf) := by
    apply PathTree.unreplaced_of_placeAll_length
    have size := whole.length_eq
    simp only [List.length_map] at size ⊢
    omega
  have placed := PathTree.placeAll_nil_of_unreplaced unreplaced
  have rewritten : files.Perm (files.map rebuilt) := by
    have step := whole.trans (placed.map (leafFile []))
    rw [map_leafFile valid] at step
    exact step
  have fixed : ∀ file ∈ files, rebuilt file = file := by
    intro file member
    obtain ⟨source, _, shape⟩ := List.mem_map.mp (rewritten.subset member)
    rw [← shape, rebuilt_idem]
  constructor
  · intro file member
    exact congrArg FileEntry.path (fixed file member)
  · intro file member
    have mode := modes file (same.symm.subset member)
    exact ⟨congrArg FileEntry.mode (fixed file member), mode.1, mode.2⟩
  · exact (unreplaced_leaves_iff files).mp unreplaced

end Takos.Git
