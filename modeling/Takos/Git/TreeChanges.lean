import Takos.Git.TreeRebuild
import Takos.Git.Objects

/-!
# Applying changes to a tree

`applyTreeChanges` flattens the base, updates the file map and rebuilds the
whole tree.  It is compared with updating the files that the base really holds.
-/

namespace Takos.Git

open Takos.Foundation ObjectStore

variable {Sha : Type}

/-- One change on a file map; a change without its object id changes nothing. -/
def TreeChange.apply (change : TreeChange Sha) (fileMap : FileMap Sha) :
    FileMap Sha :=
  if change.operation = .delete then fileMap.delete change.path
  else
    match change.sha with
    | none => fileMap
    | some sha =>
      fileMap.set change.path ⟨change.path, sha, modeOrRegular change.mode⟩

/-- The file map of `files` updated by the changes in order. -/
def updatedFiles (files : List (FileEntry Sha))
    (changes : List (TreeChange Sha)) : List (FileEntry Sha) :=
  FileMap.files
    (changes.foldl (fun fileMap change => change.apply fileMap)
      (toFileMap files))

/-- Every change that needs an object id has one. -/
def ShasGiven (changes : List (TreeChange Sha)) : Prop :=
  ∀ change ∈ changes, change.operation ≠ .delete → change.sha ≠ none

variable {changes : List (TreeChange Sha)}

theorem updateFileMap_given (given : ShasGiven changes)
    (fileMap : FileMap Sha) :
    updateFileMap changes fileMap =
      .ok (changes.foldl (fun fileMap change => change.apply fileMap)
        fileMap) := by
  induction changes generalizing fileMap with
  | nil => rfl
  | cons change rest ih =>
      have later := ih fun other member => given other (.tail _ member)
      by_cases deletes : change.operation = .delete
      · simp only [updateFileMap, deletes, if_true, later, List.foldl_cons,
          TreeChange.apply]
      · cases sha : change.sha with
        | none => exact absurd sha (given change List.mem_cons_self deletes)
        | some sha' =>
            simp only [updateFileMap, deletes, if_false, sha, later,
              List.foldl_cons, TreeChange.apply]

theorem updateFileMap_missing (missing : ¬ShasGiven changes)
    (fileMap : FileMap Sha) :
    ∃ failure, updateFileMap changes fileMap = .error failure := by
  induction changes generalizing fileMap with
  | nil => exact absurd (by simp [ShasGiven]) missing
  | cons change rest ih =>
      by_cases deletes : change.operation = .delete
      · simp only [updateFileMap, deletes, if_true]
        apply ih
        intro given
        apply missing
        intro other member needs
        rcases List.mem_cons.mp member with here | later
        · exact absurd (here ▸ deletes) needs
        · exact given other later needs
      · cases sha : change.sha with
        | none =>
            exact ⟨.shaRequired change.operation, by
              simp only [updateFileMap, deletes, if_false, sha]⟩
        | some sha' =>
            simp only [updateFileMap, deletes, if_false, sha]
            apply ih
            intro given
            apply missing
            intro other member needs
            rcases List.mem_cons.mp member with here | later
            · simp [here, sha]
            · exact given other later needs

variable [DecidableEq Sha] {ids : ObjectIds Sha}

/-- The call is turned down: a limit or a symlink stops the flattening, a change
lacks its object id, or an updated path is invalid or below an earlier file. -/
def Rejects (bucket : ObjectStore ids) (baseTreeSha : Sha)
    (changes : List (TreeChange Sha)) : Prop :=
  match flattenTree bucket baseTreeSha with
  | .error _ => True
  | .ok files =>
    ¬ShasGiven changes ∨ ¬ValidPaths (updatedFiles files changes) ∨
      ¬UnblockedPaths (updatedFiles files changes)

/-- Either the call throws, or the tree it returns holds the files of the base
updated by the changes. -/
def ChangesApplied (bucket : ObjectStore ids) (baseTreeSha : Sha)
    (changes : List (TreeChange Sha)) : Prop :=
  match applyTreeChanges bucket baseTreeSha changes with
  | .error _ => True
  | .ok (treeSha, later) =>
    ∃ baseFiles newFiles, TreeFiles bucket baseTreeSha baseFiles ∧
      TreeFiles later treeSha newFiles ∧
      newFiles.Perm (updatedFiles baseFiles changes)

theorem applyTreeChanges_of_flattened {bucket : ObjectStore ids}
    {baseTreeSha : Sha} {files : List (FileEntry Sha)}
    (flattened : flattenTree bucket baseTreeSha = .ok files)
    (given : ShasGiven changes) :
    applyTreeChanges bucket baseTreeSha changes =
      buildTreeFromPaths bucket (updatedFiles files changes) := by
  simp only [applyTreeChanges, flattened, bind, Except.bind,
    updateFileMap_given given, updatedFiles]

theorem applyTreeChanges_error_iff (bucket : ObjectStore ids)
    (baseTreeSha : Sha) (changes : List (TreeChange Sha)) :
    (∃ failure, applyTreeChanges bucket baseTreeSha changes =
      .error failure) ↔ Rejects bucket baseTreeSha changes := by
  cases flattened : flattenTree bucket baseTreeSha with
  | error failure =>
      simp [Rejects, applyTreeChanges, flattened, bind, Except.bind]
  | ok files =>
      simp only [Rejects, flattened]
      by_cases given : ShasGiven changes
      · rw [applyTreeChanges_of_flattened flattened given]
        have accepted := buildTreeFromPaths_ok_iff bucket
          (updatedFiles files changes)
        cases built : buildTreeFromPaths bucket (updatedFiles files changes) with
        | error failure =>
            rw [built] at accepted
            simp only [reduceCtorEq, exists_false, false_iff,
              not_and_or] at accepted
            simp [given, accepted]
        | ok result =>
            have both := accepted.mp ⟨result, built⟩
            simp [given, both]
      · obtain ⟨failure, failed⟩ := updateFileMap_missing given (toFileMap files)
        simp [applyTreeChanges, flattened, bind, Except.bind, failed, given]

namespace CoveredDirectory

def blob : Digest := Digest.blob [1]
def subtreeEntries : List (TreeEntry Digest) :=
  [⟨FILE_MODES.REGULAR_FILE, ['y'], blob⟩]

def withSubtree : Digest × ObjectStore termIds :=
  (ObjectStore.empty termIds).putTree subtreeEntries

def base : Digest × ObjectStore termIds :=
  withSubtree.2.putTree [⟨FILE_MODES.DIRECTORY, ['x'], withSubtree.1⟩]

def change : TreeChange Digest := ⟨['x'], .add, some blob, []⟩

end CoveredDirectory

end Takos.Git
