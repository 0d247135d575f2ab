import Takos.SpaceStorage.StorageMoves

/-!
# Renaming, moving and deleting items

A call reads the row of the item and the row of the new parent, checks the new
path, and writes.  The calls of this module run alone.
-/

namespace Takos.SpaceStorage

open Takos.Foundation Takos.Foundation.SlashPath

/-- `constraint` is an error of the table that is passed on as it is, and
`unloaded` the error of a row that is gone when it is loaded again. -/
inductive StorageFailure where
  | storage (error : StorageError)
  | constraint
  | unloaded

def requireStorageItemResponse (table : StorageTable)
    (spaceId fileId : Text) : Except StorageError StorageFile :=
  match table.findStorageRowById spaceId fileId with
  | some file => .ok file
  | none => .error ⟨"File or folder not found", .notFound⟩

def loadStorageItemResponse (table : StorageTable) (spaceId fileId : Text) :
    Except StorageFailure StorageFile :=
  match table.findStorageRowById spaceId fileId with
  | some file => .ok file
  | none => .error .unloaded

def resolveParentId (table : StorageTable)
    (spaceId normalizedParentPath : Text) (errorMessage : String) :
    Except StorageError (Option Text) :=
  if normalizedParentPath = ['/'] then .ok none
  else
    match table.find? (fun row => row.accountId = spaceId &&
        row.path = normalizedParentPath && row.type = .folder) with
    | none => .error ⟨errorMessage, .notFound⟩
    | some parent => .ok (some parent.id)

structure ParentContext where
  normalizedParentPath : Text
  parentId : Option Text

def resolveStorageParentContext (table : StorageTable)
    (spaceId parentPath : Text) (errorMessage : String) :
    Except StorageError ParentContext := do
  let normalizedParentPath := normalizePath parentPath
  validateFullPath normalizedParentPath
  let parentId ← resolveParentId table spaceId normalizedParentPath errorMessage
  return ⟨normalizedParentPath, parentId⟩

/-- The place that a rename gives to the item. -/
def renamePlace (file : StorageFile) (name : Text) :
    Except StorageError Place := do
  let newPath := buildFullPath (getParentPath file.path) name
  validateFullPath newPath
  return ⟨name, newPath, file.parentId⟩

/-- The place that a move gives to the item under its new parent. -/
def movePlace (file : StorageFile) (name : Text) (context : ParentContext) :
    Except StorageError Place := do
  let newPath := buildFullPath context.normalizedParentPath name
  validateFullPath newPath
  if file.type = .folder ∧ (context.normalizedParentPath = file.path ∨
      Text.startsWith context.normalizedParentPath (file.path ++ ['/']) = true)
  then .error ⟨"Cannot move a folder into itself", .validation⟩
  else .ok ⟨name, newPath, context.parentId⟩

inductive Relocation where
  | rename (name : Text)
  | move (parentPath : Text)
  | moveAndRename (parentPath name : Text)

/-- What a call reads and checks before it writes. -/
def relocationTarget (table : StorageTable) (spaceId fileId : Text) :
    Relocation → Except StorageError (StorageFile × Place)
  | .rename name => do
    let name ← ensureValidStorageName name "Invalid name"
    let file ← requireStorageItemResponse table spaceId fileId
    let place ← renamePlace file name
    return (file, place)
  | .move parentPath => do
    let file ← requireStorageItemResponse table spaceId fileId
    let context ← resolveStorageParentContext table spaceId parentPath
      "Destination folder not found"
    let place ← movePlace file file.name context
    return (file, place)
  | .moveAndRename parentPath name => do
    let file ← requireStorageItemResponse table spaceId fileId
    let name ← ensureValidStorageName name "Invalid name"
    let context ← resolveStorageParentContext table spaceId parentPath
      "Destination folder not found"
    let place ← movePlace file name context
    return (file, place)

def conflict : StorageFailure :=
  .storage ⟨"A file or folder with this name already exists", .conflict⟩

/-- `revertParentUpdate`; its failure is only logged. -/
def revertParentUpdate (table : StorageTable) (spaceId : Text)
    (file : StorageFile) : StorageTable :=
  (table.updatePlace spaceId file.id ⟨file.name, file.path, file.parentId⟩
    file.updatedAt).getD table

def applyStoragePathMutation (table : StorageTable) (spaceId : Text)
    (file : StorageFile) (place : Place) (now : Nat) :
    Except StorageFailure StorageFile × StorageTable :=
  match table.updatePlace spaceId file.id place now with
  | none => (.error conflict, table)
  | some moved =>
    if file.type = .folder then
      match moved.updateDescendantPaths spaceId file.path place.path now with
      | none => (.error .constraint, revertParentUpdate moved spaceId file)
      | some rebased => (loadStorageItemResponse rebased spaceId file.id, rebased)
    else (loadStorageItemResponse moved spaceId file.id, moved)

def relocateStorageItem (table : StorageTable) (spaceId fileId : Text)
    (relocation : Relocation) (now : Nat) :
    Except StorageFailure StorageFile × StorageTable :=
  match relocationTarget table spaceId fileId relocation with
  | .error error => (.error (.storage error), table)
  | .ok (file, place) => applyStoragePathMutation table spaceId file place now

def renameStorageItem (table : StorageTable) (spaceId fileId name : Text)
    (now : Nat) : Except StorageFailure StorageFile × StorageTable :=
  relocateStorageItem table spaceId fileId (.rename name) now

def moveStorageItem (table : StorageTable) (spaceId fileId parentPath : Text)
    (now : Nat) : Except StorageFailure StorageFile × StorageTable :=
  relocateStorageItem table spaceId fileId (.move parentPath) now

def moveAndRenameStorageItem (table : StorageTable)
    (spaceId fileId parentPath name : Text) (now : Nat) :
    Except StorageFailure StorageFile × StorageTable :=
  relocateStorageItem table spaceId fileId (.moveAndRename parentPath name) now

/-- Keys of the objects to delete, and the table. -/
def deleteStorageItem (table : StorageTable) (spaceId fileId : Text) :
    Except StorageError (List Text) × StorageTable :=
  match requireStorageItemResponse table spaceId fileId with
  | .error error => (.error error, table)
  | .ok file =>
    if file.type = .folder then
      (.ok (table.listDescendantFileR2Keys spaceId file.path),
        (table.deleteStorageRowsByDescendantPath spaceId file.path).deleteRow
          spaceId fileId)
    else
      (.ok ((table.findStorageFileR2KeyById spaceId fileId).toList.filter
          (· ≠ [])),
        table.deleteRow spaceId fileId)

variable {table : StorageTable} {file : StorageFile} {context : ParentContext}
  {name : Text}

theorem requireStorageItemResponse_ok {spaceId fileId : Text}
    (ok : requireStorageItemResponse table spaceId fileId = .ok file) :
    file ∈ table ∧ file.id = fileId ∧ file.accountId = spaceId := by
  unfold requireStorageItemResponse at ok
  split at ok
  · rename_i found
    cases ok
    exact ⟨List.mem_of_find?_eq_some found,
      StorageTable.isItem_iff.mp (List.find?_some found)⟩
  · cases ok

theorem TableKeys.findStorageRowById (keys : TableKeys table)
    (member : file ∈ table) :
    table.findStorageRowById file.accountId file.id = some file := by
  cases found : table.findStorageRowById file.accountId file.id with
  | none =>
      have missing := List.find?_eq_none.mp found file member
      simp [StorageFile.isItem] at missing
  | some other =>
      have same := StorageTable.isItem_iff.mp (List.find?_some found)
      rw [keys.eq_of_id (List.mem_of_find?_eq_some found) member same.1]

/-- The parent that a call has found. -/
structure ContextFits (table : StorageTable) (spaceId : Text)
    (context : ParentContext) : Prop where
  root : context.parentId = none → context.normalizedParentPath = ['/']
  folder : ∀ parent ∈ table, context.parentId = some parent.id →
    parent.accountId = spaceId ∧ parent.type = .folder ∧
      parent.path = context.normalizedParentPath
  named : context.parentId ≠ none → context.normalizedParentPath ≠ ['/']

theorem resolveStorageParentContext_ok (keys : TableKeys table)
    {spaceId parentPath : Text} {message : String}
    (ok : resolveStorageParentContext table spaceId parentPath message =
      .ok context) :
    ContextFits table spaceId context ∧
      context.normalizedParentPath = normalizePath parentPath ∧
      ∀ id, context.parentId = some id → ∃ parent ∈ table, parent.id = id := by
  simp only [resolveStorageParentContext, bind, Except.bind] at ok
  split at ok
  · cases ok
  · split at ok
    · cases ok
    · rename_i parentId resolved
      cases ok
      unfold resolveParentId at resolved
      split at resolved
      · rename_i root
        cases resolved
        exact ⟨⟨fun _ => root, by simp, by simp⟩, rfl, by simp⟩
      · rename_i named
        split at resolved
        · cases resolved
        · rename_i parent found
          cases resolved
          have member := List.mem_of_find?_eq_some found
          have shape := List.find?_some found
          simp only [Bool.and_eq_true, decide_eq_true_eq] at shape
          refine ⟨⟨by simp, ?_, fun _ => named⟩, rfl, ?_⟩
          · intro other otherMember same
            have equal := keys.eq_of_id otherMember member
              (Option.some.inj same).symm
            subst equal
            exact ⟨shape.1.1, shape.2, shape.1.2⟩
          · intro id same
            exact ⟨parent, member, Option.some.inj same⟩

theorem movePlace_ok {place : Place}
    (ok : movePlace file name context = .ok place) :
    place = ⟨name, buildFullPath context.normalizedParentPath name,
      context.parentId⟩ ∧
      (file.type = .folder → context.normalizedParentPath ≠ file.path ∧
        ¬ file.path ++ ['/'] <+: context.normalizedParentPath) := by
  simp only [movePlace, bind, Except.bind] at ok
  split at ok
  · cases ok
  · split at ok
    · cases ok
    · rename_i outside
      cases ok
      refine ⟨rfl, fun isFolder => ?_⟩
      simp only [isFolder, true_and, not_or] at outside
      refine ⟨outside.1, fun inside => outside.2 ?_⟩
      simpa [Text.startsWith] using inside

theorem ContextFits.place {spaceId name : Text}
    (fits : ContextFits table spaceId context)
    (valid : validatePathSegment name = true) :
    PlaceFits table spaceId ⟨name,
      buildFullPath context.normalizedParentPath name, context.parentId⟩ := by
  refine ⟨valid, ?_, ?_⟩
  · intro root
    simp [buildFullPath, fits.root root]
  · intro parent member child
    obtain ⟨space, isFolder, path⟩ := fits.folder parent member child
    have named := fits.named (by
      intro none
      rw [none] at child
      cases child)
    refine ⟨space, isFolder, ?_⟩
    simp only [buildFullPath, if_neg named, path]

theorem movePlace_notInside {place : Place} (isFolder : file.type = .folder)
    (nonempty : file.path ≠ []) (isName : IsName name)
    (ok : movePlace file name context = .ok place) :
    ¬ file.path ++ ['/'] <+: place.path := by
  obtain ⟨rfl, outside⟩ := movePlace_ok ok
  intro inside
  unfold buildFullPath at inside
  dsimp only at inside
  split at inside
  · rw [← List.nil_append ('/' :: name), prefix_child isName.noSlash]
      at inside
    simp [nonempty] at inside
  · rw [prefix_child isName.noSlash] at inside
    rcases inside with same | inside
    · exact (outside isFolder).1 same.symm
    · exact (outside isFolder).2 inside

theorem renamePlace_ok {place : Place}
    (ok : renamePlace file name = .ok place) :
    place = ⟨name, buildFullPath (getParentPath file.path) name,
      file.parentId⟩ := by
  simp only [renamePlace, bind, Except.bind] at ok
  split at ok
  · cases ok
  · cases ok
    rfl

theorem StoredTree.renamePlace (tree : StoredTree table)
    (member : file ∈ table) (valid : validatePathSegment name = true)
    {place : Place} (ok : renamePlace file name = .ok place) :
    PlaceFits table file.accountId place ∧
      ¬ file.path ++ ['/'] <+: place.path := by
  have isName := isName_of_valid valid
  obtain ⟨names, areNames, path, parent⟩ := tree.path_names member
  have newPath : buildFullPath (getParentPath file.path) name =
      pathOf names ++ '/' :: name := by
    rw [path, getParentPath_pathOf areNames (tree.isName member),
      buildFullPath_rootedPath areNames]
    simp
  rw [renamePlace_ok ok, newPath]
  refine ⟨⟨valid, ?_, ?_⟩, ?_⟩
  · intro root
    rcases parent with ⟨_, rfl⟩ | ⟨parent, _, child, _⟩
    · rfl
    · rw [child] at root
      cases root
  · intro other otherMember child
    rcases parent with ⟨root, _⟩ | ⟨parent, parentMember, isParent, parentPath⟩
    · rw [root] at child
      cases child
    · have same := tree.eq_of_id parentMember otherMember
        (Option.some.inj (isParent.symm.trans child))
      subst same
      obtain ⟨found, foundMember, sameId, space, isFolder⟩ :=
        tree.parents file member parent.id isParent
      have equal := tree.eq_of_id foundMember parentMember sameId
      subst equal
      exact ⟨space, isFolder, by rw [parentPath]⟩
  · rw [prefix_child isName.noSlash, path]
    rintro (same | inside)
    · have length := congrArg List.length same
      simp at length
    · have length := inside.length_le
      simp only [pathOf_append, pathOf_cons, pathOf_nil, List.append_nil,
        List.length_append, List.length_cons, List.length_nil] at length
      omega

/-- What a call knows when it starts to write. -/
structure TargetFits (table : StorageTable) (spaceId fileId : Text)
    (file : StorageFile) (place : Place) : Prop where
  member : file ∈ table
  id : file.id = fileId
  space : file.accountId = spaceId
  fits : PlaceFits table spaceId place
  parent : ∀ id, place.parentId = some id → ∃ row ∈ table, row.id = id
  notInside : file.type = .folder → ¬ file.path ++ ['/'] <+: place.path

theorem StoredTree.movePlace (tree : StoredTree table) (member : file ∈ table)
    {name parentPath : Text} {place : Place} {message : String}
    (valid : validatePathSegment name = true)
    (resolved : resolveStorageParentContext table file.accountId parentPath
      message = .ok context) (ok : movePlace file name context = .ok place) :
    TargetFits table file.accountId file.id file place := by
  obtain ⟨fits, _, present⟩ :=
    resolveStorageParentContext_ok tree.toTableKeys resolved
  have shape := (movePlace_ok ok).1
  refine ⟨member, rfl, rfl, ?_, ?_, ?_⟩
  · rw [shape]
    exact fits.place valid
  · rw [shape]
    exact present
  · intro isFolder
    exact movePlace_notInside isFolder (tree.path_ne_nil member)
      (isName_of_valid valid) ok

theorem StoredTree.relocationTarget (tree : StoredTree table)
    {spaceId fileId : Text} {relocation : Relocation} {place : Place}
    (ok : relocationTarget table spaceId fileId relocation =
      .ok (file, place)) : TargetFits table spaceId fileId file place := by
  cases relocation with
  | rename name =>
      simp only [SpaceStorage.relocationTarget, bind, Except.bind] at ok
      split at ok
      · cases ok
      · rename_i valid checked
        obtain ⟨rfl, accepted⟩ := ensureValidStorageName_ok checked
        split at ok
        · cases ok
        · rename_i found required
          split at ok
          · cases ok
          · rename_i renamed
            cases ok
            obtain ⟨member, rfl, rfl⟩ := requireStorageItemResponse_ok required
            obtain ⟨fits, notInside⟩ := tree.renamePlace member accepted renamed
            refine ⟨member, rfl, rfl, fits, ?_, fun _ => notInside⟩
            intro id parentId
            rw [renamePlace_ok renamed] at parentId
            obtain ⟨parent, parentMember, same, _⟩ :=
              tree.parents file member id parentId
            exact ⟨parent, parentMember, same⟩
  | move parentPath =>
      simp only [SpaceStorage.relocationTarget, bind, Except.bind] at ok
      split at ok
      · cases ok
      · rename_i found required
        obtain ⟨member, rfl, rfl⟩ := requireStorageItemResponse_ok required
        split at ok
        · cases ok
        · rename_i context resolved
          split at ok
          · cases ok
          · rename_i moved
            cases ok
            exact tree.movePlace member (tree.named file member) resolved moved
  | moveAndRename parentPath name =>
      simp only [SpaceStorage.relocationTarget, bind, Except.bind] at ok
      split at ok
      · cases ok
      · rename_i found required
        obtain ⟨member, rfl, rfl⟩ := requireStorageItemResponse_ok required
        split at ok
        · cases ok
        · rename_i valid checked
          obtain ⟨rfl, accepted⟩ := ensureValidStorageName_ok checked
          split at ok
          · cases ok
          · rename_i context resolved
            split at ok
            · cases ok
            · rename_i moved
              cases ok
              exact tree.movePlace member accepted resolved moved

end Takos.SpaceStorage
