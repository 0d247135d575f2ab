import Takos.SpaceStorage.StorageItems

/-!
# Operations on folders touch their subtrees

A rename or a move of a folder changes its row and the rows under it, and a
deletion removes them.  The rows are selected by a pattern that ignores the
case of letters and cut at a length in code units, so the operations are exact
on the folders where neither makes a difference.
-/

namespace Takos.SpaceStorage

open Takos.Foundation Takos.Foundation.SlashPath StorageTable

/-- The files of all spaces: the rows of each form a tree, and the objects
belong to files. -/
structure SpaceFiles where
  table : StorageTable
  tree : StoredTree table
  folderKeys : ∀ row ∈ table, row.type = .folder → row.r2Key = none
  fileKeys : ∀ row ∈ table, row.r2Key ≠ some []

/-- `within` tells the rows under the folder. -/
def IsSubtree (table : StorageTable) (folder : StorageFile)
    (within : StorageFile → Bool) : Prop :=
  ∀ row ∈ table, within row = true ↔ Descends table folder.id row

/-- The row after its folder got a new place. -/
def relocatedRow (folder : StorageFile) (place : Place) (now : Nat)
    (within : StorageFile → Bool) (row : StorageFile) : StorageFile :=
  if row.id = folder.id then row.placedAt place now
  else if within row then
    row.withPath (place.path ++ row.path.drop folder.path.length) now
  else row

/-- The call answers, and exactly the rows of the folder and under it have
changed. -/
def RelocatesSubtree (table : StorageTable) (folder : StorageFile)
    (place : Place) (now : Nat)
    (result : Except StorageFailure StorageFile × StorageTable) : Prop :=
  ∃ within, IsSubtree table folder within ∧
    result = (.ok (folder.placedAt place now),
      table.map (relocatedRow folder place now within))

/-- The call answers with the keys of the folder and what is under it, and
exactly these rows are gone. -/
def DeletesSubtree (table : StorageTable) (folder : StorageFile)
    (result : Except StorageError (List Text) × StorageTable) : Prop :=
  ∃ within, IsSubtree table folder within ∧
    result = (.ok ((table.filter fun row =>
        row.id = folder.id || within row).filterMap StorageFile.r2Key),
      table.filter fun row => !(row.id = folder.id || within row))

/-- The path of the new place is taken by another item. -/
def PlaceTaken (table : StorageTable) (folder : StorageFile) (place : Place) :
    Prop :=
  ∃ other ∈ table, other.id ≠ folder.id ∧
    other.key = (folder.accountId, place.path)

instance (table : StorageTable) (folder : StorageFile) (place : Place) :
    Decidable (PlaceTaken table folder place) :=
  inferInstanceAs (Decidable (∃ _ ∈ _, _))

/-- No path in the space, and not the new one, differs from the paths under the
folder only in the case of letters, and a folder that is not empty has no
character of two code units in its path. -/
structure RelocationExact (table : StorageTable) (folder : StorageFile)
    (place : Place) : Prop where
  clear : NoCaseVariant folder.accountId folder.path table
  outside : ¬ SamePrefix (folder.path ++ ['/']) place.path
  cut : (∃ row, Descends table folder.id row) →
    folder.path.size = folder.path.length

namespace SpaceFiles

variable {files : SpaceFiles} {folder : StorageFile}

theorem require (member : folder ∈ files.table) :
    requireStorageItemResponse files.table folder.accountId folder.id =
      .ok folder := by
  unfold requireStorageItemResponse
  rw [files.tree.toTableKeys.findStorageRowById member]

theorem path_not_under (row : StorageFile) :
    ¬ SamePrefix (row.path ++ ['/']) row.path := by
  intro same
  have length := same.length_le
  simp only [List.length_append, List.length_singleton] at length
  omega

/-- The pattern selects the subtree of a folder without case variants. -/
theorem isSubtree_isUnder (member : folder ∈ files.table)
    (clear : NoCaseVariant folder.accountId folder.path files.table) :
    IsSubtree files.table folder (isUnder folder.accountId folder.path) := by
  intro row rowMember
  rw [HalfMoved.selected_iff clear rowMember,
    files.tree.descends_iff member rowMember]

variable {row : StorageFile} {place : Place}

theorem not_within {within : StorageFile → Bool}
    (member : folder ∈ files.table) (rowMember : row ∈ files.table)
    (subtree : IsSubtree files.table folder within)
    (same : SamePrefix (folder.path ++ ['/']) row.path)
    (other : ¬ folder.path ++ ['/'] <+: row.path) :
    row.id ≠ folder.id ∧ within row = false := by
  constructor
  · intro item
    have equal := files.tree.eq_of_id rowMember member item
    exact path_not_under folder (equal ▸ same)
  · by_contra inside
    have under := (subtree row rowMember).mp (by simpa using inside)
    exact other ((files.tree.descends_iff member rowMember).mp under).2

theorem free_of_not_taken (free : ¬ PlaceTaken files.table folder place) :
    ∀ other ∈ files.table,
      other.isItem folder.accountId folder.id = false →
        other.key ≠ (folder.accountId, place.path) := by
  intro other otherMember notItem same
  apply free
  refine ⟨other, otherMember, fun item => ?_, same⟩
  have space : other.accountId = folder.accountId := congrArg Prod.fst same
  simp [StorageFile.isItem, item, space] at notItem

theorem refused_of_taken (member : folder ∈ files.table)
    (taken : PlaceTaken files.table folder place) (now : Nat) :
    applyStoragePathMutation files.table folder.accountId folder place now =
      (.error conflict, files.table) := by
  obtain ⟨other, otherMember, different, same⟩ := taken
  have found : files.table.any
      (StorageFile.isItem folder.accountId folder.id) = true :=
    List.any_eq_true.mpr ⟨folder, member, by simp [StorageFile.isItem]⟩
  have clash : (files.table.any fun other =>
      !other.isItem folder.accountId folder.id &&
        decide (other.key = (folder.accountId, place.path))) = true :=
    List.any_eq_true.mpr
      ⟨other, otherMember, by simp [StorageFile.isItem, different, same]⟩
  simp [applyStoragePathMutation, updatePlace, found, clash]

/-- The table after the row of the folder is written. -/
def placed (files : SpaceFiles) (folder : StorageFile) (place : Place)
    (now : Nat) : StorageTable :=
  rewritten (StorageFile.isItem folder.accountId folder.id)
    (fun row => row.placedAt place now) files.table

/-- What happens to one row in the two statements. -/
def writtenRow (folder : StorageFile) (place : Place) (now : Nat)
    (rewrite : StorageFile → StorageFile) (row : StorageFile) : StorageFile :=
  let moved := if row.isItem folder.accountId folder.id then
    row.placedAt place now else row
  if isUnder folder.accountId folder.path moved then rewrite moved else moved

theorem rewritten_placed (folder : StorageFile) (place : Place) (now : Nat)
    (rewrite : StorageFile → StorageFile) :
    rewritten (isUnder folder.accountId folder.path) rewrite
        (files.placed folder place now) =
      files.table.map (writtenRow folder place now rewrite) := by
  rw [rewritten, placed, rewritten, List.map_map]
  rfl

theorem writtenRow_folder (folder : StorageFile) (place : Place) (now : Nat)
    (rewrite : StorageFile → StorageFile) :
    writtenRow folder place now rewrite folder =
      if isUnder folder.accountId folder.path (folder.placedAt place now) then
        rewrite (folder.placedAt place now)
      else folder.placedAt place now := by
  simp [writtenRow, StorageFile.isItem]

theorem writtenRow_other (different : row.id ≠ folder.id) (place : Place)
    (now : Nat) (rewrite : StorageFile → StorageFile) :
    writtenRow folder place now rewrite row =
      if isUnder folder.accountId folder.path row then rewrite row
      else row := by
  simp [writtenRow, StorageFile.isItem, different]

theorem not_under_placed (now : Nat)
    (outside : ¬ SamePrefix (folder.path ++ ['/']) place.path) :
    isUnder folder.accountId folder.path (folder.placedAt place now) =
      false := by
  by_contra under
  exact outside (isUnder_iff.mp (by simpa using under)).2

theorem relocates_of_exact (now : Nat) (member : folder ∈ files.table)
    (isFolder : folder.type = .folder)
    (target : TargetFits files.table folder.accountId folder.id folder place)
    (free : ¬ PlaceTaken files.table folder place)
    (exact : RelocationExact files.table folder place) :
    RelocatesSubtree files.table folder place now
      (applyStoragePathMutation files.table folder.accountId folder place
        now) := by
  have accepted := updatePlace_accepted now (free_of_not_taken free)
    target.parent
  have half := files.tree.halfMoved member target.fits
    (target.notInside isFolder) accepted
  have unmoved := not_under_placed now exact.outside
  have cases := fun row =>
    (files.tree.mem_placed member place now row).mp
  have clear : NoCaseVariant folder.accountId folder.path
      (files.placed folder place now) := by
    intro row rowMember space same
    rcases cases row rowMember with rfl | ⟨old, _⟩
    · exact absurd same exact.outside
    · exact exact.clear row old space same
  have cut : (∃ row ∈ files.placed folder place now,
      row.accountId = folder.accountId ∧ folder.path ++ ['/'] <+: row.path) →
        folder.path.size = folder.path.length := by
    rintro ⟨row, rowMember, space, starts⟩
    rcases cases row rowMember with rfl | ⟨old, _⟩
    · exact absurd starts (target.notInside isFolder)
    · exact exact.cut
        ⟨row, (files.tree.descends_iff member old).mpr ⟨space, starts⟩⟩
  have rebased := half.updateDescendantPaths_eq clear cut now
  have stays : folder.placedAt place now ∈ HalfMoved.rebased folder.accountId
      folder.path place.path now (files.placed folder place now) := by
    refine (HalfMoved.mem_rebased clear).mpr (Or.inr ⟨?_, ?_⟩)
    · exact (files.tree.mem_placed member place now _).mpr (Or.inl rfl)
    · exact fun under => target.notInside isFolder under.2
  have loaded := (half.storedTree clear now).toTableKeys.findStorageRowById
    stays
  refine ⟨isUnder folder.accountId folder.path,
    isSubtree_isUnder member exact.clear, ?_⟩
  have result : HalfMoved.rebased folder.accountId folder.path place.path now
      (files.placed folder place now) = files.table.map (relocatedRow folder
        place now (isUnder folder.accountId folder.path)) := by
    rw [HalfMoved.rebased, rewritten_placed]
    apply List.map_congr_left
    intro row rowMember
    by_cases item : row.id = folder.id
    · have same := files.tree.eq_of_id rowMember member item
      subst same
      rw [writtenRow_folder, unmoved, relocatedRow, if_pos rfl]
      rfl
    · rw [writtenRow_other item, relocatedRow, if_neg item]
  unfold applyStoragePathMutation
  rw [accepted]
  dsimp only
  rw [if_pos isFolder, rebased]
  dsimp only
  rw [← result]
  have load : loadStorageItemResponse (HalfMoved.rebased folder.accountId
      folder.path place.path now (files.placed folder place now))
      folder.accountId folder.id = .ok (folder.placedAt place now) := by
    unfold loadStorageItemResponse
    rw [show (HalfMoved.rebased folder.accountId folder.path place.path now
      (files.placed folder place now)).findStorageRowById folder.accountId
        folder.id = some (folder.placedAt place now) from loaded]
  exact Prod.ext load rfl

theorem rows_of_relocates {now : Nat} (isFolder : folder.type = .folder)
    (target : TargetFits files.table folder.accountId folder.id folder place)
    (free : ¬ PlaceTaken files.table folder place)
    (relocates : RelocatesSubtree files.table folder place now
      (applyStoragePathMutation files.table folder.accountId folder place
        now)) :
    ∃ within, IsSubtree files.table folder within ∧
      ∀ row ∈ files.table,
        writtenRow folder place now (fun row => row.withPath
            (place.path ++ ['/'] ++
              substr row.path ((folder.path ++ ['/']).size + 1)) now) row =
          relocatedRow folder place now within row := by
  obtain ⟨within, subtree, result⟩ := relocates
  refine ⟨within, subtree, ?_⟩
  unfold applyStoragePathMutation at result
  rw [updatePlace_accepted now (free_of_not_taken free) target.parent] at result
  dsimp only at result
  rw [if_pos isFolder] at result
  split at result
  · cases congrArg Prod.fst result
  · rename_i after written
    have shape := rewriteRows_some written
    rw [List.nil_append] at shape
    have table := congrArg Prod.snd result
    dsimp only at table
    rw [shape] at table
    exact List.map_inj_left.mp
      ((rewritten_placed folder place now _).symm.trans table)

theorem rest_nonempty (member : folder ∈ files.table)
    (under : Descends files.table folder.id row) :
    ∃ rest, row.path = folder.path ++ '/' :: rest ∧ rest ≠ [] := by
  obtain ⟨space, rest, path⟩ :=
    (files.tree.descends_iff member under.mem).mp under
  refine ⟨rest, by simp [← path], ?_⟩
  rintro rfl
  have isName := files.tree.isName under.mem
  have ends : ∀ front : Text, front ++ '/' :: row.name ≠ row.path := by
    intro front shape
    rw [← path, List.append_nil] at shape
    exact isName.nonempty (last_slash (by simp) isName.noSlash shape).2
  rcases files.tree.parent_cases under.mem with ⟨_, rowPath⟩ |
    ⟨parent, _, _, _, _, rowPath⟩
  · exact ends [] rowPath.symm
  · exact ends parent.path rowPath.symm

theorem exact_of_relocates {now : Nat} (member : folder ∈ files.table)
    (isFolder : folder.type = .folder)
    (target : TargetFits files.table folder.accountId folder.id folder place)
    (free : ¬ PlaceTaken files.table folder place)
    (relocates : RelocatesSubtree files.table folder place now
      (applyStoragePathMutation files.table folder.accountId folder place
        now)) : RelocationExact files.table folder place := by
  obtain ⟨within, subtree, rows⟩ :=
    rows_of_relocates isFolder target free relocates
  have accepted := updatePlace_accepted now (free_of_not_taken free)
    target.parent
  have half := files.tree.halfMoved member target.fits
    (target.notInside isFolder) accepted
  refine ⟨?_, ?_, ?_⟩
  · intro row rowMember space same
    by_contra other
    obtain ⟨different, outside⟩ := not_within member rowMember subtree same
      other
    have written := rows row rowMember
    rw [writtenRow_other different, if_pos (isUnder_iff.mpr ⟨space, same⟩),
      relocatedRow, if_neg different, outside] at written
    have path := congrArg StorageFile.path written
    obtain ⟨above, aboveMember, aboveSpace, abovePath, under⟩ :=
      files.tree.exists_at_prefix rowMember half.newNonempty
        ⟨_, by simpa [StorageFile.withPath] using path⟩
    have isAbove : above.id = folder.id := by
      by_contra elsewhere
      exact free ⟨above, aboveMember, elsewhere,
        Prod.ext (aboveSpace.trans space) abovePath⟩
    rw [isAbove] at under
    exact other ((files.tree.descends_iff member rowMember).mp under).2
  · intro same
    have written := rows folder member
    have under : isUnder folder.accountId folder.path
        (folder.placedAt place now) = true := isUnder_iff.mpr ⟨rfl, same⟩
    rw [writtenRow_folder, if_pos under, relocatedRow, if_pos rfl] at written
    have length := congrArg (fun row => row.path.length) written
    simp [StorageFile.withPath, StorageFile.placedAt] at length
  · rintro ⟨row, under⟩
    obtain ⟨rest, path, nonempty⟩ := rest_nonempty member under
    have inside := (subtree row under.mem).mpr under
    obtain ⟨space, starts⟩ :=
      (files.tree.descends_iff member under.mem).mp under
    have different : row.id ≠ folder.id := by
      intro item
      have same := files.tree.eq_of_id under.mem member item
      subst same
      exact files.tree.not_descends_self member under
    have written := rows row under.mem
    rw [writtenRow_other different,
      if_pos (isUnder_iff.mpr ⟨space, SamePrefix.of_prefix starts⟩),
      relocatedRow, if_neg different, if_pos inside] at written
    have tail := congrArg (fun row => row.path.length) written
    have single : Text.size ['/'] = 1 := rfl
    simp only [StorageFile.withPath, substr, Text.size_append, single, path,
      List.length_append, List.length_drop, List.length_cons,
      List.length_nil] at tail
    have positive := List.length_pos_iff.mpr nonempty
    have longer := Text.length_le_size folder.path
    omega

theorem deletes_of_clear (member : folder ∈ files.table)
    (isFolder : folder.type = .folder)
    (clear : NoCaseVariant folder.accountId folder.path files.table) :
    DeletesSubtree files.table folder
      (deleteStorageItem files.table folder.accountId folder.id) := by
  have subtree := isSubtree_isUnder member clear
  refine ⟨isUnder folder.accountId folder.path, subtree, ?_⟩
  have below : files.table.deleteStorageRowsByDescendantPath folder.accountId
      folder.path = files.table.filter fun row =>
        !isUnder folder.accountId folder.path row := by
    apply deleteRows_eq_filter
    intro row rowMember kept id parentId
    obtain ⟨parent, parentMember, rfl, _⟩ :=
      files.tree.parents row rowMember id parentId
    refine ⟨parent, parentMember, ?_, rfl⟩
    by_contra inside
    have under := Descends.deeper
      ((subtree parent parentMember).mp (by simpa using inside)) rowMember
      parentId
    rw [(subtree row rowMember).mpr under] at kept
    cases kept
  have whole : deleteRow (files.table.filter fun row =>
        !isUnder folder.accountId folder.path row) folder.accountId
          folder.id =
      files.table.filter fun row => !(row.id = folder.id ||
        isUnder folder.accountId folder.path row) := by
    unfold deleteRow
    rw [deleteRows_eq_filter, List.filter_filter]
    · apply List.filter_congr
      intro row rowMember
      by_cases item : row.id = folder.id
      · have same := files.tree.eq_of_id rowMember member item
        subst same
        simp [StorageFile.isItem]
      · simp [StorageFile.isItem, item]
    · intro row rowMember kept id parentId
      rw [List.mem_filter, Bool.not_eq_true'] at rowMember
      obtain ⟨parent, parentMember, rfl, _⟩ :=
        files.tree.parents row rowMember.1 id parentId
      have outside : ¬ Descends files.table folder.id row := by
        intro under
        rw [(subtree row rowMember.1).mpr under] at rowMember
        cases rowMember.2
      refine ⟨parent, List.mem_filter.mpr ⟨parentMember, ?_⟩, ?_, rfl⟩
      · rw [Bool.not_eq_true']
        by_contra inside
        exact outside (.deeper
          ((subtree parent parentMember).mp (by simpa using inside))
          rowMember.1 parentId)
      · by_contra item
        have isItem := isItem_iff.mp (by simpa using item)
        exact outside (.child rowMember.1 (isItem.1 ▸ parentId))
  have keys : files.table.listDescendantFileR2Keys folder.accountId
      folder.path = (files.table.filter fun row => row.id = folder.id ||
        isUnder folder.accountId folder.path row).filterMap
          StorageFile.r2Key := by
    unfold listDescendantFileR2Keys
    rw [List.filter_eq_self.mpr, List.filterMap_filter, List.filterMap_filter]
    · apply List.filterMap_congr
      intro row rowMember
      by_cases item : row.id = folder.id
      · have same := files.tree.eq_of_id rowMember member item
        subst same
        have noKey := files.folderKeys row member isFolder
        simp [noKey]
      · cases kind : row.type with
        | file => simp [item]
        | folder =>
            have noKey := files.folderKeys row rowMember kind
            simp [noKey]
    · intro key keyMember
      rw [List.mem_filterMap] at keyMember
      obtain ⟨row, rowMember, rowKey⟩ := keyMember
      have nonempty := files.fileKeys row (List.mem_filter.mp rowMember).1
      rw [rowKey] at nonempty
      simpa using nonempty
  unfold deleteStorageItem
  rw [require member]
  dsimp only
  rw [if_pos isFolder, below, whole, keys]

theorem clear_of_deletes (member : folder ∈ files.table)
    (isFolder : folder.type = .folder)
    (deletes : DeletesSubtree files.table folder
      (deleteStorageItem files.table folder.accountId folder.id)) :
    NoCaseVariant folder.accountId folder.path files.table := by
  obtain ⟨within, subtree, result⟩ := deletes
  intro row rowMember space same
  by_contra other
  obtain ⟨different, outside⟩ := not_within member rowMember subtree same other
  unfold deleteStorageItem at result
  rw [require member] at result
  dsimp only at result
  rw [if_pos isFolder, Prod.mk.injEq] at result
  have kept : row ∈ files.table.filter fun row =>
      !(row.id = folder.id || within row) :=
    List.mem_filter.mpr ⟨rowMember, by simp [different, outside]⟩
  rw [← result.2] at kept
  exact not_mem_deleteRows (isUnder_iff.mpr ⟨space, same⟩)
    ((deleteRows_sublist _ _).subset kept)

end SpaceFiles

/-- Every rename, move and deletion of every folder: a refused call changes
nothing, and an accepted one touches exactly the subtree if and only if letters
of other case and characters of two code units play no part. -/
theorem folder_operations (files : SpaceFiles) (folder : StorageFile)
    (member : folder ∈ files.table) (isFolder : folder.type = .folder) :
    (∀ relocation now,
      (∀ error, relocationTarget files.table folder.accountId folder.id
          relocation = .error error →
        relocateStorageItem files.table folder.accountId folder.id relocation
          now = (.error (.storage error), files.table)) ∧
      (∀ file place, relocationTarget files.table folder.accountId folder.id
          relocation = .ok (file, place) →
        (PlaceTaken files.table folder place →
          relocateStorageItem files.table folder.accountId folder.id relocation
            now = (.error conflict, files.table)) ∧
        (¬ PlaceTaken files.table folder place →
          (RelocatesSubtree files.table folder place now
            (relocateStorageItem files.table folder.accountId folder.id
              relocation now) ↔
            RelocationExact files.table folder place)))) ∧
    (DeletesSubtree files.table folder
        (deleteStorageItem files.table folder.accountId folder.id) ↔
      NoCaseVariant folder.accountId folder.path files.table) := by
  refine ⟨fun relocation now => ⟨?_, ?_⟩, ?_⟩
  · intro error refused
    simp only [relocateStorageItem, refused]
  · intro file place found
    have target := files.tree.relocationTarget found
    have same := files.tree.eq_of_id target.member member target.id
    subst same
    simp only [relocateStorageItem, found]
    refine ⟨fun taken => SpaceFiles.refused_of_taken member taken now,
      fun free => ⟨?_, ?_⟩⟩
    · exact SpaceFiles.exact_of_relocates member isFolder target free
    · exact SpaceFiles.relocates_of_exact now member isFolder target free
  · exact ⟨SpaceFiles.clear_of_deletes member isFolder,
      SpaceFiles.deletes_of_clear member isFolder⟩

namespace OneFolder

def folder (id : Char) (path name : Text) : StorageFile :=
  ⟨[id], ['s'], none, name, path, .folder, 0, none, 5, 5⟩

def file (id parent : Char) (path name : Text) : StorageFile :=
  ⟨[id], ['s'], some [parent], name, path, .file, 3, some [id, 'k'], 5, 5⟩

def photos : StorageFile := folder '1' ['/', 'p'] ['p']

def files : SpaceFiles where
  table := [photos, file '2' '1' ['/', 'p', '/', 'x'] ['x']]
  tree := by decide
  folderKeys := by decide
  fileKeys := by decide

/-- Renaming `p` and deleting it. -/
theorem photos_operations :
    RelocatesSubtree files.table photos ⟨['q'], ['/', 'q'], none⟩ 9
        (renameStorageItem files.table ['s'] ['1'] ['q'] 9) ∧
      DeletesSubtree files.table photos
        (deleteStorageItem files.table ['s'] ['1']) := by
  have operations := folder_operations files photos (by decide) rfl
  have clear : NoCaseVariant ['s'] ['/', 'p'] files.table := by decide
  refine ⟨?_, operations.2.mpr clear⟩
  have free : ¬ PlaceTaken files.table photos ⟨['q'], ['/', 'q'], none⟩ := by
    decide
  apply ((operations.1 (.rename ['q']) 9).2 photos ⟨['q'], ['/', 'q'], none⟩
    (by decide)).2 free |>.mpr
  exact ⟨clear, by decide, fun _ => by decide⟩

end OneFolder

namespace SiblingFolders

open OneFolder (folder file)

def small : StorageFile := folder '1' ['/', 'a'] ['a']

def smile : StorageFile := folder '5' ['/', '😀'] ['😀']

/-- Folders `a`, `A` and `😀` with a file in each. -/
def files : SpaceFiles where
  table := [small, folder '2' ['/', 'A'] ['A'],
    file '3' '1' ['/', 'a', '/', 'x'] ['x'],
    file '4' '2' ['/', 'A', '/', 'y'] ['y'],
    smile, file '6' '5' ['/', '😀', '/', 'z', '!'] ['z', '!']]
  tree := by decide
  folderKeys := by decide
  fileKeys := by decide

/-- Renaming `a` takes the file of `A` along, deleting it removes that file,
and renaming `😀` cuts the name of its file. -/
theorem siblings_touched :
    ((renameStorageItem files.table ['s'] ['1'] ['b'] 9).2.map
        StorageFile.path)[3]? = some ['/', 'b', '/', 'y'] ∧
      ¬ RelocatesSubtree files.table small ⟨['b'], ['/', 'b'], none⟩ 9
        (renameStorageItem files.table ['s'] ['1'] ['b'] 9) ∧
      (deleteStorageItem files.table ['s'] ['1']).1 =
        .ok [['3', 'k'], ['4', 'k']] ∧
      ¬ DeletesSubtree files.table small
        (deleteStorageItem files.table ['s'] ['1']) ∧
      ((renameStorageItem files.table ['s'] ['5'] ['c'] 9).2.map
        StorageFile.path)[5]? = some ['/', 'c', '/', '!'] ∧
      ¬ RelocatesSubtree files.table smile ⟨['c'], ['/', 'c'], none⟩ 9
        (renameStorageItem files.table ['s'] ['5'] ['c'] 9) := by
  have variant : ¬ NoCaseVariant ['s'] ['/', 'a'] files.table := by decide
  have smallMember : small ∈ files.table := by decide
  have smileMember : smile ∈ files.table := by decide
  have smallTarget : relocationTarget files.table ['s'] ['1']
      (.rename ['b']) = .ok (small, ⟨['b'], ['/', 'b'], none⟩) := by decide
  have smileTarget : relocationTarget files.table ['s'] ['5']
      (.rename ['c']) = .ok (smile, ⟨['c'], ['/', 'c'], none⟩) := by decide
  refine ⟨by decide, ?_, by decide, ?_, by decide, ?_⟩
  · intro relocates
    simp only [renameStorageItem, relocateStorageItem, smallTarget]
      at relocates
    exact variant (SpaceFiles.exact_of_relocates smallMember rfl
      (files.tree.relocationTarget smallTarget) (by decide) relocates).clear
  · intro deletes
    exact variant (SpaceFiles.clear_of_deletes smallMember rfl deletes)
  · intro relocates
    simp only [renameStorageItem, relocateStorageItem, smileTarget]
      at relocates
    have cut := (SpaceFiles.exact_of_relocates smileMember rfl
      (files.tree.relocationTarget smileTarget) (by decide) relocates).cut
    have under : Descends files.table smile.id
        (file '6' '5' ['/', '😀', '/', 'z', '!'] ['z', '!']) :=
      .child (by decide) rfl
    exact absurd (cut ⟨_, under⟩) (by decide)

end SiblingFolders

end Takos.SpaceStorage
