import Takos.SpaceStorage.StorageStatements

/-!
# Trees under moving items

A rename or a move first writes the row of the item and then, for a folder,
rewrites the paths of the rows under it.  Between the two statements the rows
under the folder still show its old path.
-/

namespace Takos.SpaceStorage

open Takos.Foundation Takos.Foundation.SlashPath

/-- A place whose path belongs to its name and its parent, as long as the parent
is there. -/
structure PlaceFits (table : StorageTable) (spaceId : Text) (place : Place) :
    Prop where
  named : validatePathSegment place.name = true
  rooted : place.parentId = none → place.path = '/' :: place.name
  placed : ∀ parent ∈ table, place.parentId = some parent.id →
    parent.accountId = spaceId ∧ parent.type = .folder ∧
      place.path = parent.path ++ '/' :: place.name

/-- The path that the children of a row show while an item is moving. -/
def shownAs (itemId oldPath : Text) (row : StorageFile) : Text :=
  if row.id = itemId then oldPath else row.path

/-- A tree between the two statements that move a folder. -/
structure HalfMoved (spaceId folderId oldPath newPath : Text)
    (table : StorageTable) : Prop
    extends TableTree (shownAs folderId oldPath) table where
  folderAt : ∀ row ∈ table, row.id = folderId →
    row.accountId = spaceId ∧ row.path = newPath
  oldOwner : ∀ row ∈ table, row.accountId = spaceId → row.path = oldPath →
    row.id = folderId
  newOwner : ∀ row ∈ table, row.accountId = spaceId → row.path = newPath →
    row.id = folderId
  oldNonempty : oldPath ≠ []
  newNonempty : newPath ≠ []
  notInside : ¬ oldPath ++ ['/'] <+: newPath
  notAbove : ¬ newPath ++ ['/'] <+: oldPath

/-- No path agrees with the prefix of the rows under a folder only up to the
case of letters. -/
def NoCaseVariant (spaceId folderPath : Text) (table : StorageTable) : Prop :=
  ∀ row ∈ table, row.accountId = spaceId →
    SamePrefix (folderPath ++ ['/']) row.path →
      folderPath ++ ['/'] <+: row.path

instance (spaceId folderPath : Text) (table : StorageTable) :
    Decidable (NoCaseVariant spaceId folderPath table) :=
  inferInstanceAs (Decidable (∀ _ ∈ _, _))

open StorageTable

theorem StoredTree.updatePlace {table after : StorageTable}
    {place : Place} {now : Nat} {file : StorageFile}
    (tree : StoredTree table) (member : file ∈ table)
    (fits : PlaceFits table file.accountId place)
    (elsewhere : place.parentId ≠ some file.id)
    (accepted : StorageTable.updatePlace table file.accountId file.id place
      now = some after) :
    TableTree (shownAs file.id file.path) after := by
  have isItem : file.isItem file.accountId file.id = true := by
    simp [StorageFile.isItem]
  have known : ParentKnown table file.accountId place.parentId :=
    fun parent parentMember child =>
      ⟨(fits.placed parent parentMember child).1,
        (fits.placed parent parentMember child).2.1⟩
  have shape := (updatePlace_some member isItem accepted).1
  subst shape
  have cases := fun row => (tree.mem_placed member place now row).mp
  refine ⟨tree.toTableKeys.updatePlace member known accepted, ?_, ?_, ?_⟩
  · intro row rowMember
    rcases cases row rowMember with rfl | ⟨old, _⟩
    · exact fits.named
    · exact tree.named row old
  · intro row rowMember root
    rcases cases row rowMember with rfl | ⟨old, _⟩
    · exact fits.rooted root
    · exact tree.rooted row old root
  · intro row rowMember parent parentMember parentId
    unfold shownAs
    rcases cases row rowMember with rfl | ⟨old, _⟩
    · rcases cases parent parentMember with rfl | ⟨parentOld, other⟩
      · exact absurd parentId elsewhere
      · rw [if_neg other]
        exact (fits.placed parent parentOld parentId).2.2
    · rcases cases parent parentMember with rfl | ⟨parentOld, other⟩
      · exact (tree.placed row old file member parentId).trans (by
          simp [StorageFile.placedAt])
      · rw [if_neg other]
        exact tree.placed row old parent parentOld parentId

theorem TableTree.of_file {itemId oldPath : Text} {table : StorageTable}
    (tree : TableTree (shownAs itemId oldPath) table)
    (isFile : ∀ row ∈ table, row.id = itemId → row.type = .file) :
    StoredTree table := by
  refine { tree with placed := ?_ }
  intro row member parent parentMember parentId
  obtain ⟨folder, folderMember, same, _, isFolder⟩ :=
    tree.parents row member parent.id parentId
  have equal := tree.eq_of_id folderMember parentMember same
  subst equal
  have other : folder.id ≠ itemId := by
    intro item
    have clash := isFile folder parentMember item
    rw [isFolder] at clash
    cases clash
  have path := tree.placed row member folder parentMember parentId
  rwa [shownAs, if_neg other] at path

theorem StoredTree.halfMoved {table after : StorageTable} {place : Place}
    {now : Nat} {folder : StorageFile} (tree : StoredTree table)
    (member : folder ∈ table)
    (fits : PlaceFits table folder.accountId place)
    (notInside : ¬ folder.path ++ ['/'] <+: place.path)
    (accepted : StorageTable.updatePlace table folder.accountId folder.id
      place now = some after) :
    HalfMoved folder.accountId folder.id folder.path place.path after := by
  have isItem : folder.isItem folder.accountId folder.id = true := by
    simp [StorageFile.isItem]
  have elsewhere : place.parentId ≠ some folder.id := by
    intro inside
    apply notInside
    rw [(fits.placed folder member inside).2.2]
    exact ⟨place.name, by simp⟩
  have moved := tree.updatePlace member fits elsewhere accepted
  obtain ⟨rfl, free, present⟩ := updatePlace_some member isItem accepted
  have owner : ∀ row ∈ table, row.accountId = folder.accountId →
      row.path = place.path → row.id = folder.id := by
    intro row rowMember space path
    by_contra other
    exact free row rowMember (by simp [StorageFile.isItem, other])
      (Prod.ext space path)
  have newNonempty : place.path ≠ [] := by
    cases parentId : place.parentId with
    | none =>
        rw [fits.rooted parentId]
        simp
    | some id =>
        obtain ⟨parent, parentMember, rfl⟩ := present id parentId
        rw [(fits.placed parent parentMember parentId).2.2]
        simp
  have cases := fun row => (tree.mem_placed member place now row).mp
  refine { moved with
    folderAt := ?_, oldOwner := ?_, newOwner := ?_
    oldNonempty := tree.path_ne_nil member
    newNonempty := newNonempty
    notInside := notInside, notAbove := ?_ }
  · intro row rowMember item
    rcases cases row rowMember with rfl | ⟨_, other⟩
    · exact ⟨rfl, rfl⟩
    · exact absurd item other
  · intro row rowMember space path
    rcases cases row rowMember with rfl | ⟨old, _⟩
    · rfl
    · rw [tree.eq_of_path old member space path]
  · intro row rowMember space path
    rcases cases row rowMember with rfl | ⟨old, _⟩
    · rfl
    · exact owner row old space path
  · intro above
    obtain ⟨row, rowMember, space, path, under⟩ :=
      tree.exists_at_prefix member newNonempty above
    have same := tree.eq_of_id rowMember member (owner row rowMember space path)
    subst same
    exact tree.not_descends_self member under

namespace HalfMoved

variable {spaceId folderId oldPath newPath : Text} {table : StorageTable}

variable {row : StorageFile}

theorem selected_iff (clear : NoCaseVariant spaceId oldPath table)
    (member : row ∈ table) :
    isUnder spaceId oldPath row = true ↔
      row.accountId = spaceId ∧ oldPath ++ ['/'] <+: row.path := by
  rw [isUnder_iff]
  constructor
  · rintro ⟨space, same⟩
    exact ⟨space, clear row member space same⟩
  · rintro ⟨space, starts⟩
    exact ⟨space, SamePrefix.of_prefix starts⟩

theorem paths_eq (half : HalfMoved spaceId folderId oldPath newPath table)
    (member : row ∈ table) (space : row.accountId = spaceId)
    (starts : newPath ++ ['/'] <+: row.path) : oldPath = newPath := by
  induction length : row.path.length using Nat.strong_induction_on
    generalizing row with
  | h size ih =>
      rcases half.parent_cases member with ⟨_, rowPath⟩ |
        ⟨parent, parentMember, _, parentSpace, _, rowPath⟩
      · rw [rowPath, ← List.nil_append ('/' :: row.name),
          prefix_child (half.isName member).noSlash] at starts
        simp [half.newNonempty] at starts
      · rw [rowPath, prefix_child (half.isName member).noSlash] at starts
        unfold shownAs at starts rowPath
        by_cases item : parent.id = folderId
        · rw [if_pos item] at starts
          rcases starts with same | above
          · exact same.symm
          · exact absurd above half.notAbove
        · rw [if_neg item] at starts rowPath
          rcases starts with same | starts
          · exact absurd (half.newOwner parent parentMember
              (parentSpace.trans space) same.symm) item
          · have shorter : parent.path.length < size := by
              rw [← length, rowPath, List.length_append, List.length_cons]
              omega
            exact ih _ shorter parentMember (parentSpace.trans space) starts
              rfl

/-- The rows under a folder with the new path in front. -/
def rebased (spaceId oldPath newPath : Text) (now : Nat)
    (table : StorageTable) : StorageTable :=
  rewritten (isUnder spaceId oldPath)
    (fun row => row.withPath (newPath ++ row.path.drop oldPath.length) now)
    table

theorem drop_prefix {path : Text} (starts : oldPath ++ ['/'] <+: path) :
    ∃ rest, path = oldPath ++ '/' :: rest ∧
      path.drop oldPath.length = '/' :: rest := by
  obtain ⟨rest, rfl⟩ := starts
  exact ⟨rest, by simp, by simp⟩

theorem rebased_key_eq
    (half : HalfMoved spaceId folderId oldPath newPath table)
    {other : StorageFile} (member : row ∈ table) (otherMember : other ∈ table)
    (space : row.accountId = spaceId) (starts : oldPath ++ ['/'] <+: row.path)
    (same : other.key =
      (row.accountId, newPath ++ row.path.drop oldPath.length)) :
    other = row := by
  obtain ⟨rest, path, dropped⟩ := drop_prefix starts
  have otherSpace : other.accountId = row.accountId := congrArg Prod.fst same
  have otherPath : other.path = newPath ++ '/' :: rest := by
    rw [← dropped]
    exact congrArg Prod.snd same
  have unmoved := half.paths_eq otherMember (otherSpace.trans space)
    ⟨rest, by simp [otherPath]⟩
  apply half.eq_of_path otherMember member otherSpace
  rw [otherPath, path, unmoved]

theorem rebased_keys
    (half : HalfMoved spaceId folderId oldPath newPath table)
    (clear : NoCaseVariant spaceId oldPath table) (now : Nat) :
    ((rebased spaceId oldPath newPath now table).map
      StorageFile.key).Nodup := by
  apply rewritten_keys (List.Nodup.of_map _ half.distinctIds)
  intro row member other otherMember same
  by_cases chosen : isUnder spaceId oldPath row = true
  · obtain ⟨space, starts⟩ := (selected_iff clear member).mp chosen
    by_cases otherChosen : isUnder spaceId oldPath other = true
    · obtain ⟨_, otherStarts⟩ :=
        (selected_iff clear otherMember).mp otherChosen
      rw [if_pos chosen, if_pos otherChosen, withPath_key, withPath_key,
        Prod.mk.injEq, List.append_cancel_left_eq] at same
      obtain ⟨rest, path, dropped⟩ := drop_prefix starts
      obtain ⟨otherRest, otherPath, otherDropped⟩ := drop_prefix otherStarts
      apply half.eq_of_path member otherMember same.1
      rw [path, otherPath, ← dropped, ← otherDropped, same.2]
    · rw [if_pos chosen, if_neg otherChosen] at same
      exact (half.rebased_key_eq member otherMember space starts
        same.symm).symm
  · by_cases otherChosen : isUnder spaceId oldPath other = true
    · obtain ⟨space, starts⟩ := (selected_iff clear otherMember).mp otherChosen
      rw [if_neg chosen, if_pos otherChosen] at same
      exact half.rebased_key_eq otherMember member space starts same
    · rw [if_neg chosen, if_neg otherChosen] at same
      exact List.inj_on_of_nodup_map half.distinctPaths member otherMember same

/-- The statement on the rows under a folder when only these agree with its
pattern, and no character of its path takes two code units. -/
theorem updateDescendantPaths_eq
    (half : HalfMoved spaceId folderId oldPath newPath table)
    (clear : NoCaseVariant spaceId oldPath table)
    (cut : (∃ row ∈ table, row.accountId = spaceId ∧
      oldPath ++ ['/'] <+: row.path) → oldPath.size = oldPath.length)
    (now : Nat) :
    updateDescendantPaths table spaceId oldPath newPath now =
      some (rebased spaceId oldPath newPath now table) := by
  have written : ∀ row ∈ table, isUnder spaceId oldPath row = true →
      row.withPath (newPath ++ ['/'] ++
          substr row.path ((oldPath ++ ['/']).size + 1)) now =
        row.withPath (newPath ++ row.path.drop oldPath.length) now := by
    intro row member chosen
    obtain ⟨space, starts⟩ := (selected_iff clear member).mp chosen
    have length := cut ⟨row, member, space, starts⟩
    obtain ⟨rest, path, dropped⟩ := drop_prefix starts
    have tail : substr row.path ((oldPath ++ ['/']).size + 1) = rest := by
      have single : Text.size ['/'] = 1 := rfl
      rw [substr, Text.size_append, single, length, Nat.add_sub_cancel, path,
        ← List.drop_drop]
      simp
    rw [tail, dropped, List.append_assoc, List.singleton_append]
  have result := rewritten_congr written
  unfold updateDescendantPaths
  rw [rewriteRows_accepted, List.nil_append, result]
  · rfl
  · rw [List.nil_append, result]
    exact half.rebased_keys clear now
  · exact List.Nodup.of_map _ half.distinctIds
  · intro row member chosen other otherMember same
    obtain ⟨space, starts⟩ := (selected_iff clear member).mp chosen
    rw [written row member chosen] at same
    exact half.rebased_key_eq member otherMember space starts same

theorem mem_rebased {now : Nat} (clear : NoCaseVariant spaceId oldPath table) :
    row ∈ rebased spaceId oldPath newPath now table ↔
      (∃ rest, ∃ old ∈ table, old.accountId = spaceId ∧
        old.path = oldPath ++ '/' :: rest ∧
        row = old.withPath (newPath ++ '/' :: rest) now) ∨
      (row ∈ table ∧
        ¬ (row.accountId = spaceId ∧ oldPath ++ ['/'] <+: row.path)) := by
  unfold rebased
  rw [mem_rewritten]
  constructor
  · rintro (⟨old, member, chosen, rfl⟩ | ⟨member, unchosen⟩)
    · obtain ⟨space, starts⟩ := (selected_iff clear member).mp chosen
      obtain ⟨rest, path, dropped⟩ := drop_prefix starts
      exact Or.inl ⟨rest, old, member, space, path, by rw [dropped]⟩
    · refine Or.inr ⟨member, fun under => ?_⟩
      rw [(selected_iff clear member).mpr under] at unchosen
      cases unchosen
  · rintro (⟨rest, old, member, space, path, rfl⟩ | ⟨member, other⟩)
    · refine Or.inl ⟨old, member, ?_, by simp [path]⟩
      exact (selected_iff clear member).mpr
        ⟨space, ⟨rest, by simp [path]⟩⟩
    · refine Or.inr ⟨member, ?_⟩
      by_contra chosen
      exact other ((selected_iff clear member).mp (by simpa using chosen))

theorem space_of_parent
    (half : HalfMoved spaceId folderId oldPath newPath table)
    {parent : StorageFile} (member : row ∈ table)
    (parentMember : parent ∈ table) (child : row.parentId = some parent.id) :
    parent.accountId = row.accountId := by
  obtain ⟨found, foundMember, same, space, _⟩ :=
    half.parents row member parent.id child
  exact half.eq_of_id foundMember parentMember same ▸ space

theorem ne_folder (half : HalfMoved spaceId folderId oldPath newPath table)
    (member : row ∈ table) {rest : Text}
    (path : row.path = oldPath ++ '/' :: rest) : row.id ≠ folderId := by
  intro item
  apply half.notInside
  rw [← (half.folderAt row member item).2, path]
  exact ⟨rest, by simp⟩

theorem placed_under (half : HalfMoved spaceId folderId oldPath newPath table)
    {parent : StorageFile} (member : row ∈ table)
    (parentMember : parent ∈ table) (child : row.parentId = some parent.id)
    {rest above : Text} (path : row.path = oldPath ++ '/' :: rest)
    (parentPath : parent.path = oldPath ++ '/' :: above) :
    newPath ++ '/' :: rest = (newPath ++ '/' :: above) ++ '/' :: row.name := by
  have rowPath := half.placed row member parent parentMember child
  rw [shownAs, if_neg (half.ne_folder parentMember parentPath), path,
    parentPath, List.append_assoc, List.append_cancel_left_eq,
    List.cons_append, List.cons.injEq] at rowPath
  rw [rowPath.2]
  simp

theorem placed_below (half : HalfMoved spaceId folderId oldPath newPath table)
    {parent : StorageFile} (member : row ∈ table)
    (parentMember : parent ∈ table) (child : row.parentId = some parent.id)
    (space : row.accountId = spaceId) {rest : Text}
    (path : row.path = oldPath ++ '/' :: rest)
    (other : ¬ (parent.accountId = spaceId ∧
      oldPath ++ ['/'] <+: parent.path)) :
    newPath ++ '/' :: rest = parent.path ++ '/' :: row.name := by
  have parentSpace := (half.space_of_parent member parentMember child).trans
    space
  have rowPath := half.placed row member parent parentMember child
  unfold shownAs at rowPath
  by_cases item : parent.id = folderId
  · rw [if_pos item, path, List.append_cancel_left_eq, List.cons.injEq]
      at rowPath
    rw [rowPath.2, (half.folderAt parent parentMember item).2]
  · rw [if_neg item] at rowPath
    exfalso
    have starts : oldPath ++ ['/'] <+: parent.path ++ '/' :: row.name := by
      rw [← rowPath, path]
      exact ⟨rest, by simp⟩
    rw [prefix_child (half.isName member).noSlash] at starts
    rcases starts with same | starts
    · exact item (half.oldOwner parent parentMember parentSpace same.symm)
    · exact other ⟨parentSpace, starts⟩

theorem storedTree
    (half : HalfMoved spaceId folderId oldPath newPath table)
    (clear : NoCaseVariant spaceId oldPath table) (now : Nat) :
    StoredTree (rebased spaceId oldPath newPath now table) := by
  refine ⟨half.toTableKeys.rewritten (fun _ => ⟨rfl, rfl, rfl⟩)
    (half.rebased_keys clear now)
    (fun row member _ => half.parents row member), ?_, ?_, ?_⟩
  · intro row member
    rcases (mem_rebased clear).mp member with ⟨rest, old, oldMember, _, _, rfl⟩ |
      ⟨member, _⟩
    · exact half.named old oldMember
    · exact half.named row member
  · intro row member root
    rcases (mem_rebased clear).mp member with
      ⟨rest, old, oldMember, _, path, rfl⟩ | ⟨member, _⟩
    · exfalso
      have rootPath := half.rooted old oldMember root
      have starts : oldPath ++ ['/'] <+: [] ++ '/' :: old.name := by
        rw [List.nil_append, ← rootPath, path]
        exact ⟨rest, by simp⟩
      rw [prefix_child (half.isName oldMember).noSlash] at starts
      simp [half.oldNonempty] at starts
    · exact half.rooted row member root
  · intro row member parent parentMember parentId
    rcases (mem_rebased clear).mp member with
      ⟨rest, old, oldMember, space, path, rfl⟩ | ⟨member, other⟩
    · rcases (mem_rebased clear).mp parentMember with
        ⟨above, parentOld, parentOldMember, _, parentPath, rfl⟩ |
          ⟨parentMember, parentOther⟩
      · exact half.placed_under oldMember parentOldMember parentId path
          parentPath
      · exact half.placed_below oldMember parentMember parentId space path
          parentOther
    · rcases (mem_rebased clear).mp parentMember with
        ⟨above, parentOld, parentOldMember, parentSpace, parentPath, rfl⟩ |
          ⟨parentMember, parentOther⟩
      · have sameSpace := half.space_of_parent member parentOldMember parentId
        have rowPath := half.placed row member parentOld parentOldMember
          parentId
        rw [shownAs, if_neg (half.ne_folder parentOldMember parentPath),
          parentPath] at rowPath
        refine absurd ⟨sameSpace.symm.trans parentSpace, ?_⟩ other
        rw [rowPath]
        exact ⟨above ++ '/' :: row.name, by simp⟩
      · have sameSpace := half.space_of_parent member parentMember parentId
        have rowPath := half.placed row member parent parentMember parentId
        unfold shownAs at rowPath
        by_cases item : parent.id = folderId
        · rw [if_pos item] at rowPath
          refine absurd ⟨sameSpace.symm.trans
            (half.folderAt parent parentMember item).1, ?_⟩ other
          rw [rowPath]
          exact ⟨row.name, by simp⟩
        · rwa [if_neg item] at rowPath

end HalfMoved

end Takos.SpaceStorage
