import Takos.SpaceStorage.StoragePaths
import Mathlib.Data.List.Nodup

/-!
# The table of stored files

Rows of all spaces and the statements on them.  The table refuses two rows with
one id or one path in a space, and a row whose parent is missing; deleting a
row deletes the rows under it.
-/

namespace Takos.SpaceStorage

open Takos.Foundation Takos.Foundation.SlashPath

inductive SpaceStorageFileType where
  | file
  | folder
  deriving DecidableEq

structure StorageFile where
  id : Text
  accountId : Text
  parentId : Option Text
  name : Text
  path : Text
  type : SpaceStorageFileType
  size : Nat
  r2Key : Option Text
  createdAt : Nat
  updatedAt : Nat
  deriving DecidableEq

abbrev StorageTable := List StorageFile

/-- What a rename or a move writes to the row of the item. -/
structure Place where
  name : Text
  path : Text
  parentId : Option Text
  deriving DecidableEq

namespace StorageFile

def placedAt (file : StorageFile) (place : Place) (now : Nat) : StorageFile :=
  { file with
    name := place.name, parentId := place.parentId, path := place.path,
    updatedAt := now }

def withPath (file : StorageFile) (path : Text) (now : Nat) : StorageFile :=
  { file with path := path, updatedAt := now }

/-- The columns of the unique index. -/
def key (file : StorageFile) : Text × Text := (file.accountId, file.path)

def isItem (spaceId fileId : Text) (file : StorageFile) : Bool :=
  file.id = fileId && file.accountId = spaceId

end StorageFile

namespace StorageTable

def hasId (table : StorageTable) (id : Text) : Bool :=
  table.any fun row => row.id = id

/-- The foreign key of `parent_id`. -/
def hasParent (table : StorageTable) (parentId : Option Text) : Bool :=
  parentId.all table.hasId

def findStorageRowById (table : StorageTable) (spaceId fileId : Text) :
    Option StorageFile :=
  table.find? (StorageFile.isItem spaceId fileId)

def insertRow (table : StorageTable) (row : StorageFile) :
    Option StorageTable :=
  if table.hasId row.id || table.any (fun other => other.key = row.key) then
    none
  else if hasParent (row :: table) row.parentId then some (table ++ [row])
  else none

/-- `UPDATE … SET name, parent_id, path, updated_at WHERE id AND account_id`. -/
def updatePlace (table : StorageTable) (spaceId fileId : Text) (place : Place)
    (now : Nat) : Option StorageTable :=
  if table.any (StorageFile.isItem spaceId fileId) &&
      (table.any (fun other => !other.isItem spaceId fileId &&
          decide (other.key = (spaceId, place.path))) ||
        !table.hasParent place.parentId) then
    none
  else
    some (table.map fun row =>
      if row.isItem spaceId fileId then row.placedAt place now else row)

/-- An `UPDATE` checks the unique index row after row. -/
def rewriteRows (selected : StorageFile → Bool)
    (rewrite : StorageFile → StorageFile) :
    StorageTable → StorageTable → Option StorageTable
  | done, [] => some done
  | done, row :: rest =>
    if selected row then
      if (done ++ rest).any (fun other => other.key = (rewrite row).key) then
        none
      else rewriteRows selected rewrite (done ++ [rewrite row]) rest
    else rewriteRows selected rewrite (done ++ [row]) rest

/-- `account_id = ? AND path LIKE ? ESCAPE '\'`. -/
def isUnder (spaceId folderPath : Text) (row : StorageFile) : Bool :=
  row.accountId = spaceId &&
    LikePattern.like '\\' row.path (buildDescendantPathPattern folderPath)

def updateDescendantPaths (table : StorageTable)
    (spaceId oldPath newPath : Text) (now : Nat) : Option StorageTable :=
  rewriteRows (isUnder spaceId oldPath)
    (fun row => row.withPath
      (newPath ++ ['/'] ++ substr row.path ((oldPath ++ ['/']).size + 1)) now)
    [] table

/-- Rows whose parent is gone are deleted, and the rows under them. -/
def cascade : Nat → StorageTable → StorageTable
  | 0, table => table
  | rounds + 1, table =>
    cascade rounds (table.filter fun row => table.hasParent row.parentId)

def deleteRows (table : StorageTable) (selected : StorageFile → Bool) :
    StorageTable :=
  cascade table.length (table.filter fun row => !selected row)

def listDescendantFileR2Keys (table : StorageTable)
    (spaceId folderPath : Text) : List Text :=
  ((table.filter fun row =>
    isUnder spaceId folderPath row && row.type = .file).filterMap
      StorageFile.r2Key).filter (· ≠ [])

def deleteStorageRowsByDescendantPath (table : StorageTable)
    (spaceId folderPath : Text) : StorageTable :=
  table.deleteRows (isUnder spaceId folderPath)

def deleteRow (table : StorageTable) (spaceId fileId : Text) : StorageTable :=
  table.deleteRows (StorageFile.isItem spaceId fileId)

def findStorageFileR2KeyById (table : StorageTable) (spaceId fileId : Text) :
    Option Text :=
  (table.find? fun row => row.isItem spaceId fileId && row.type = .file).bind
    StorageFile.r2Key

theorem isUnder_iff {spaceId folderPath : Text} {row : StorageFile} :
    isUnder spaceId folderPath row = true ↔
      row.accountId = spaceId ∧ SamePrefix (folderPath ++ ['/']) row.path := by
  simp only [isUnder, Bool.and_eq_true, decide_eq_true_eq,
    like_descendantPattern]

theorem isItem_iff {spaceId fileId : Text} {row : StorageFile} :
    row.isItem spaceId fileId = true ↔
      row.id = fileId ∧ row.accountId = spaceId := by
  simp [StorageFile.isItem]

theorem hasId_iff {table : StorageTable} {id : Text} :
    table.hasId id = true ↔ ∃ row ∈ table, row.id = id := by
  simp [hasId]

theorem hasParent_iff {table : StorageTable} {parentId : Option Text} :
    table.hasParent parentId = true ↔
      ∀ id, parentId = some id → ∃ row ∈ table, row.id = id := by
  cases parentId with
  | none => simp [hasParent]
  | some id => simp [hasParent, hasId]

end StorageTable

end Takos.SpaceStorage

/-!
# Trees of stored files

The rows of a space form a tree by their parents, and every path is the path of
the parent, a slash and the name.  While a folder is being moved its children
still show its old path; `shown` is the path that the children of a row show.
-/

namespace Takos.SpaceStorage

open Takos.Foundation Takos.Foundation.SlashPath

/-- What the indexes of the table keep. -/
structure TableKeys (table : StorageTable) : Prop where
  distinctIds : (table.map StorageFile.id).Nodup
  distinctPaths : (table.map StorageFile.key).Nodup
  parents : ∀ row ∈ table, ∀ id, row.parentId = some id →
    ∃ parent ∈ table, parent.id = id ∧ parent.accountId = row.accountId ∧
      parent.type = .folder

structure TableTree (shown : StorageFile → Text) (table : StorageTable) : Prop
    extends TableKeys table where
  named : ∀ row ∈ table, validatePathSegment row.name = true
  rooted : ∀ row ∈ table, row.parentId = none → row.path = '/' :: row.name
  placed : ∀ row ∈ table, ∀ parent ∈ table, row.parentId = some parent.id →
    row.path = shown parent ++ '/' :: row.name

instance (table : StorageTable) : Decidable (TableKeys table) :=
  decidable_of_iff
    ((table.map StorageFile.id).Nodup ∧ (table.map StorageFile.key).Nodup ∧
      ∀ row ∈ table, ∀ id ∈ row.parentId, ∃ parent ∈ table,
        parent.id = id ∧ parent.accountId = row.accountId ∧
          parent.type = .folder)
    ⟨fun facts => ⟨facts.1, facts.2.1, facts.2.2⟩,
      fun keys => ⟨keys.distinctIds, keys.distinctPaths, keys.parents⟩⟩

instance (shown : StorageFile → Text) (table : StorageTable) :
    Decidable (TableTree shown table) :=
  decidable_of_iff
    (TableKeys table ∧
      (∀ row ∈ table, validatePathSegment row.name = true) ∧
      (∀ row ∈ table, row.parentId = none → row.path = '/' :: row.name) ∧
      ∀ row ∈ table, ∀ parent ∈ table, row.parentId = some parent.id →
        row.path = shown parent ++ '/' :: row.name)
    ⟨fun facts => ⟨facts.1, facts.2.1, facts.2.2.1, facts.2.2.2⟩,
      fun tree => ⟨tree.toTableKeys, tree.named, tree.rooted, tree.placed⟩⟩

/-- A row lies under the item with the given id. -/
inductive Descends (table : StorageTable) (top : Text) : StorageFile → Prop where
  | child {row : StorageFile} :
      row ∈ table → row.parentId = some top → Descends table top row
  | deeper {parent row : StorageFile} :
      Descends table top parent → row ∈ table →
      row.parentId = some parent.id → Descends table top row

namespace Descends

theorem mem {table : StorageTable} {top : Text} {row : StorageFile}
    (under : Descends table top row) : row ∈ table := by
  cases under with
  | child member _ => exact member
  | deeper _ member _ => exact member

end Descends

namespace TableKeys

variable {table : StorageTable}

theorem eq_of_id (keys : TableKeys table) {row other : StorageFile}
    (member : row ∈ table) (otherMember : other ∈ table)
    (same : row.id = other.id) : row = other :=
  List.inj_on_of_nodup_map keys.distinctIds member otherMember same

theorem eq_of_path (keys : TableKeys table) {row other : StorageFile}
    (member : row ∈ table) (otherMember : other ∈ table)
    (space : row.accountId = other.accountId) (same : row.path = other.path) :
    row = other :=
  List.inj_on_of_nodup_map keys.distinctPaths member otherMember
    (Prod.ext space same)

end TableKeys

namespace TableTree

variable {shown : StorageFile → Text} {table : StorageTable}

variable {row : StorageFile}

theorem parent_cases (tree : TableTree shown table) (member : row ∈ table) :
    (row.parentId = none ∧ row.path = '/' :: row.name) ∨
      ∃ parent ∈ table, row.parentId = some parent.id ∧
        parent.accountId = row.accountId ∧ parent.type = .folder ∧
        row.path = shown parent ++ '/' :: row.name := by
  cases parentId : row.parentId with
  | none => exact Or.inl ⟨rfl, tree.rooted row member parentId⟩
  | some id =>
      obtain ⟨parent, parentMember, rfl, space, isFolder⟩ :=
        tree.parents row member id parentId
      exact Or.inr ⟨parent, parentMember, rfl, space, isFolder,
        tree.placed row member parent parentMember parentId⟩

theorem isName (tree : TableTree shown table) (member : row ∈ table) :
    IsName row.name :=
  isName_of_valid (tree.named row member)

theorem path_ne_nil (tree : TableTree shown table) (member : row ∈ table) :
    row.path ≠ [] := by
  rcases tree.parent_cases member with ⟨_, path⟩ |
    ⟨parent, _, _, _, _, path⟩
  · rw [path]
    simp
  · rw [path]
    simp

end TableTree

/-- The tree of a space at rest. -/
abbrev StoredTree (table : StorageTable) : Prop :=
  TableTree StorageFile.path table

namespace StoredTree

variable {table : StorageTable}

variable {row : StorageFile}

theorem path_names (tree : StoredTree table) (member : row ∈ table) :
    ∃ names, (∀ name ∈ names, IsName name) ∧
      row.path = pathOf (names ++ [row.name]) ∧
      ((row.parentId = none ∧ names = []) ∨
        ∃ parent ∈ table, row.parentId = some parent.id ∧
          parent.path = pathOf names) := by
  induction length : row.path.length using Nat.strong_induction_on
    generalizing row with
  | h size ih =>
      rcases tree.parent_cases member with ⟨root, path⟩ |
        ⟨parent, parentMember, child, _, _, path⟩
      · exact ⟨[], by simp, by simp [path], Or.inl ⟨root, rfl⟩⟩
      · have shorter : parent.path.length < size := by
          rw [← length, path, List.length_append, List.length_cons]
          omega
        obtain ⟨names, areNames, parentPath, _⟩ :=
          ih _ shorter parentMember rfl
        refine ⟨names ++ [parent.name], ?_, ?_,
          Or.inr ⟨parent, parentMember, child, parentPath⟩⟩
        · intro name nameMember
          rcases List.mem_append.mp nameMember with nameMember | nameMember
          · exact areNames name nameMember
          · exact List.mem_singleton.mp nameMember ▸ tree.isName parentMember
        · rw [path, parentPath]
          simp

theorem exists_at_prefix (tree : StoredTree table) (member : row ∈ table)
    {path : Text} (nonempty : path ≠ []) (starts : path ++ ['/'] <+: row.path) :
    ∃ above ∈ table, above.accountId = row.accountId ∧ above.path = path ∧
      Descends table above.id row := by
  induction length : row.path.length using Nat.strong_induction_on
    generalizing row with
  | h size ih =>
      rcases tree.parent_cases member with ⟨_, rowPath⟩ |
        ⟨parent, parentMember, child, space, _, rowPath⟩
      · rw [rowPath, ← List.nil_append ('/' :: row.name),
          prefix_child (tree.isName member).noSlash] at starts
        simp [nonempty] at starts
      · rw [rowPath, prefix_child (tree.isName member).noSlash] at starts
        rcases starts with same | starts
        · exact ⟨parent, parentMember, space, same.symm,
            .child member child⟩
        · have shorter : parent.path.length < size := by
            rw [← length, rowPath, List.length_append, List.length_cons]
            omega
          obtain ⟨above, aboveMember, aboveSpace, abovePath, under⟩ :=
            ih _ shorter parentMember starts rfl
          exact ⟨above, aboveMember, aboveSpace.trans space, abovePath,
            .deeper under member child⟩

/-- The rows under a folder are those of its space whose path starts with the
path of the folder and a slash. -/
theorem descends_iff (tree : StoredTree table) {folder row : StorageFile}
    (folderMember : folder ∈ table) (member : row ∈ table) :
    Descends table folder.id row ↔
      row.accountId = folder.accountId ∧ folder.path ++ ['/'] <+: row.path := by
  constructor
  · intro under
    clear member
    induction under with
    | child rowMember child =>
        obtain ⟨parent, parentMember, same, space, _⟩ :=
          tree.parents _ rowMember _ child
        have isFolder := tree.eq_of_id parentMember folderMember same
        subst isFolder
        rw [tree.placed _ rowMember parent parentMember child]
        exact ⟨space.symm,
          (prefix_child (tree.isName rowMember).noSlash).mpr (Or.inl rfl)⟩
    | deeper above rowMember child ih =>
        obtain ⟨parent, parentMember, same, space, _⟩ :=
          tree.parents _ rowMember _ child
        have isAbove := tree.eq_of_id parentMember above.mem same
        subst isAbove
        rw [tree.placed _ rowMember parent parentMember child]
        exact ⟨space.symm.trans ih.1,
          (prefix_child (tree.isName rowMember).noSlash).mpr (Or.inr ih.2)⟩
  · rintro ⟨space, starts⟩
    obtain ⟨above, aboveMember, aboveSpace, abovePath, under⟩ :=
      tree.exists_at_prefix member (tree.path_ne_nil folderMember) starts
    have same := tree.eq_of_path aboveMember folderMember
      (aboveSpace.trans space) abovePath
    exact same ▸ under

theorem not_descends_self (tree : StoredTree table) (member : row ∈ table) :
    ¬ Descends table row.id row := by
  intro cycle
  have starts := ((tree.descends_iff member member).mp cycle).2.length_le
  simp only [List.length_append, List.length_singleton] at starts
  omega

end StoredTree

end Takos.SpaceStorage
