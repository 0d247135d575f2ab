import Takos.SpaceStorage.StorageRuns

/-!
# Trees under interleaved calls

The rows stay a tree in every run in which no other call creates, renames or
moves an item while a folder is being renamed or moved.  Deletions may come
between all statements, and calls that create items or move files between each
other.
-/

namespace Takos.SpaceStorage

open Takos.Foundation Takos.Foundation.Program StorageTable

/-- Calls that create, rename or move an item. -/
def StorageCall.writes : StorageCall → Prop
  | .creating .. | .inserting .. | .relocating .. | .resolving .. |
    .placing .. | .rebasing .. | .reverting .. => True
  | _ => False

/-- Calls that have read the row of a folder to rename or move it. -/
def StorageCall.movesFolder : StorageCall → Prop
  | .resolving _ file _ _ _ | .placing _ file _ _ | .rebasing _ file _ _ |
    .reverting _ file => file.type = .folder
  | _ => False

/-- The paths under a folder are those that its pattern selects, and are cut at
their prefix. -/
def PathsExact (table : StorageTable) : StorageCall → Prop
  | .rebasing spaceId file _ _ =>
    NoCaseVariant spaceId file.path table ∧
      ((∃ row ∈ table, row.accountId = spaceId ∧
        file.path ++ ['/'] <+: row.path) → file.path.size = file.path.length)
  | _ => True

/-- A statement runs while no other call moves a folder, or does not disturb
one that does. -/
structure Undisturbed (call : StorageCall) (others : List StorageCall) :
    Prop where
  writer : call.writes → ∀ other ∈ others, ¬ other.movesFolder
  mover : call.movesFolder → ∀ other ∈ others, ¬ other.writes

/-- Calls run to their end, and folders move undisturbed. -/
def UndisturbedRun (state : StoreState) :
    Event StorageCall → List StorageCall → Prop
  | .start _, _ => True
  | .run call, others =>
    FreshIds state (.run call) others ∧ Undisturbed call others ∧
      PathsExact state.table call
  | .fail _, _ => False

/-- The item that a call has read, whatever became of it. -/
structure ItemKept (state : StoreState) (spaceId : Text)
    (file : StorageFile) : Prop where
  space : file.accountId = spaceId
  issued : file.id ∈ state.issued
  nonempty : file.path ≠ []
  same : ∀ row ∈ state.table, row.id = file.id →
    row.accountId = file.accountId ∧ row.type = file.type

/-- A folder that is read for a move is not changed by others. -/
structure FolderKept (table : StorageTable) (file : StorageFile) : Prop where
  same : ∀ row ∈ table, row.id = file.id → row = file
  owner : ∀ row ∈ table, row.accountId = file.accountId →
    row.path = file.path → row.id = file.id

/-- Nothing is left under the old path of a folder. -/
structure NothingUnder (table : StorageTable) (spaceId oldPath : Text) :
    Prop where
  tree : StoredTree table
  none : ∀ row ∈ table, row.accountId = spaceId →
    ¬ oldPath ++ ['/'] <+: row.path

def CallFits (state : StoreState) : StorageCall → Prop
  | .inserting row =>
    PlaceFits state.table row.accountId ⟨row.name, row.path, row.parentId⟩
  | .resolving spaceId file name _ _ =>
    validatePathSegment name = true ∧ ItemKept state spaceId file ∧
      (file.type = .folder → FolderKept state.table file)
  | .placing spaceId file place _ =>
    PlaceFits state.table spaceId place ∧ ItemKept state spaceId file ∧
      (file.type = .folder → FolderKept state.table file ∧
        ¬ file.path ++ ['/'] <+: place.path)
  | .rebasing spaceId file place _ =>
    file.type = .folder ∧
      (HalfMoved spaceId file.id file.path place.path state.table ∨
        NothingUnder state.table spaceId file.path)
  | .reverting _ _ => False
  | _ => True

/-- Folders are as they were, and files may have moved. -/
structure FoldersStay (before after : StoreState) : Prop where
  issued : before.issued ⊆ after.issued
  rows : ∀ row ∈ after.table, row.id ∈ before.issued →
    ∃ old ∈ before.table, SameItem old row ∧
      (row.type = .folder → row = old)

theorem FoldersStay.refl (state : StoreState) : FoldersStay state state :=
  ⟨List.Subset.refl _, fun row member _ =>
    ⟨row, member, ⟨rfl, rfl, rfl⟩, fun _ => rfl⟩⟩

variable {table : StorageTable} {before after : StoreState}
  {others : List StorageCall}

theorem FoldersStay.of_sublist {state : StoreState}
    (sublist : table.Sublist state.table) :
    FoldersStay state (state.withTable table) :=
  ⟨List.Subset.refl _, fun row member _ =>
    ⟨row, sublist.subset member, ⟨rfl, rfl, rfl⟩, fun _ => rfl⟩⟩

theorem PlaceFits.stays {spaceId : Text} {place : Place}
    (fits : PlaceFits before.table spaceId place)
    (known : Known before spaceId place.parentId)
    (stay : FoldersStay before after) :
    PlaceFits after.table spaceId place := by
  refine ⟨fits.named, fits.rooted, ?_⟩
  intro parent member child
  obtain ⟨old, oldMember, same, kept⟩ :=
    stay.rows parent member (known.issued parent.id child)
  have facts := fits.placed old oldMember (same.id ▸ child)
  have equal := kept (same.type.trans facts.2.1)
  subst equal
  exact facts

theorem ItemKept.stays {spaceId : Text} {file : StorageFile}
    (kept : ItemKept before spaceId file) (stay : FoldersStay before after) :
    ItemKept after spaceId file := by
  refine ⟨kept.space, stay.issued kept.issued, kept.nonempty, ?_⟩
  intro row member item
  obtain ⟨old, oldMember, same, _⟩ :=
    stay.rows row member (item ▸ kept.issued)
  have facts := kept.same old oldMember (same.id.symm.trans item)
  exact ⟨same.space.trans facts.1, same.type.trans facts.2⟩

theorem FolderKept.sublist {before after : StorageTable} {file : StorageFile}
    (kept : FolderKept before file) (sublist : after.Sublist before) :
    FolderKept after file :=
  ⟨fun row member => kept.same row (sublist.subset member),
    fun row member => kept.owner row (sublist.subset member)⟩

theorem CallFits.stays {call : StorageCall} (fits : CallFits before call)
    (known : CallKnown before call) (quiet : ¬ call.movesFolder)
    (stay : FoldersStay before after) : CallFits after call := by
  cases call with
  | inserting row => exact PlaceFits.stays fits known stay
  | resolving spaceId file name parentPath now =>
      obtain ⟨valid, kept, _⟩ := fits
      exact ⟨valid, kept.stays stay, fun isFolder => absurd isFolder quiet⟩
  | placing spaceId file place now =>
      obtain ⟨place, kept, _⟩ := fits
      exact ⟨place.stays known.1 stay, kept.stays stay,
        fun isFolder => absurd isFolder quiet⟩
  | rebasing spaceId file place now => exact absurd fits.1 quiet
  | reverting spaceId file => exact fits.elim
  | _ => trivial

theorem TableTree.deleteRows {shown : StorageFile → Text}
    (tree : TableTree shown table) (selected : StorageFile → Bool) :
    TableTree shown (table.deleteRows selected) := by
  have subset := (deleteRows_sublist table selected).subset
  exact {
    tree.toTableKeys.deleteRows selected with
    named := fun row member => tree.named row (subset member)
    rooted := fun row member => tree.rooted row (subset member)
    placed := fun row member parent parentMember =>
      tree.placed row (subset member) parent (subset parentMember) }

theorem HalfMoved.deleteRows {spaceId folderId oldPath newPath : Text}
    (half : HalfMoved spaceId folderId oldPath newPath table)
    (selected : StorageFile → Bool) :
    HalfMoved spaceId folderId oldPath newPath
      (table.deleteRows selected) := by
  have subset := (deleteRows_sublist table selected).subset
  exact {
    half.toTableTree.deleteRows selected with
    folderAt := fun row member => half.folderAt row (subset member)
    oldOwner := fun row member => half.oldOwner row (subset member)
    newOwner := fun row member => half.newOwner row (subset member)
    oldNonempty := half.oldNonempty
    newNonempty := half.newNonempty
    notInside := half.notInside
    notAbove := half.notAbove }

theorem CallFits.deleteRows {state : StoreState} {call : StorageCall}
    (fits : CallFits state call) (known : CallKnown state call)
    (selected : StorageFile → Bool) :
    CallFits (state.withTable (state.table.deleteRows selected)) call := by
  have sublist := deleteRows_sublist state.table selected
  have stay := FoldersStay.of_sublist sublist
  cases call with
  | inserting row => exact PlaceFits.stays fits known stay
  | resolving spaceId file name parentPath now =>
      obtain ⟨valid, kept, folder⟩ := fits
      exact ⟨valid, kept.stays stay,
        fun isFolder => (folder isFolder).sublist sublist⟩
  | placing spaceId file place now =>
      obtain ⟨place, kept, folder⟩ := fits
      exact ⟨place.stays known.1 stay, kept.stays stay, fun isFolder =>
        ⟨(folder isFolder).1.sublist sublist, (folder isFolder).2⟩⟩
  | rebasing spaceId file place now =>
      obtain ⟨isFolder, half | nothing⟩ := fits
      · exact ⟨isFolder, Or.inl (half.deleteRows selected)⟩
      · exact ⟨isFolder, Or.inr ⟨nothing.tree.deleteRows selected,
          fun row member => nothing.none row (sublist.subset member)⟩⟩
  | reverting spaceId file => exact fits.elim
  | _ => trivial

/-- What a statement of a writer leaves of a tree. -/
structure TreeAfter (before : StoreState) (call : StorageCall)
    (result : StoreState × Outcome StorageCall StorageAnswer) : Prop where
  tree : StoredTree result.1.table ∨
    ∃ spaceId file place now,
      result.2 = .next (.rebasing spaceId file place now)
  stay : call.movesFolder ∨ FoldersStay before result.1
  next : ∀ rest, result.2 = .next rest → CallFits result.1 rest

namespace TreeAfter

variable {state : StoreState} {call : StorageCall}

theorem idle (tree : StoredTree state.table)
    {outcome : Outcome StorageCall StorageAnswer}
    (next : ∀ rest, outcome = .next rest → CallFits state rest) :
    TreeAfter state call (state, outcome) :=
  ⟨Or.inl tree, Or.inr (FoldersStay.refl state), next⟩

theorem continueWith (tree : StoredTree state.table)
    {checked : Except StorageError StorageCall}
    (fits : ∀ rest, checked = .ok rest → CallFits state rest) :
    TreeAfter state call (state.continueWith checked) := by
  cases checked with
  | ok rest =>
      apply idle tree
      intro next same
      cases same
      exact fits rest rfl
  | error error => exact idle tree nofun

variable {spaceId : Text} {now : Nat} {rest : StorageCall} {file : StorageFile}
  {table : StorageTable}

theorem creating (tree : StoredTree state.table) {maxFileSize : Nat}
    {request : CreateRequest} {id : Text}
    (ok : startCreation maxFileSize state.table spaceId request id now =
      .ok rest) : CallFits state rest := by
  obtain ⟨place, created, rfl⟩ := startCreation_ok ok
  have columns := StateKeys.row_columns request spaceId id now place
  have fits := (createPlace_ok tree.toTableKeys created).1
  simpa only [CallFits, columns.1, columns.2.1, columns.2.2.1,
    columns.2.2.2] using fits

theorem itemKept (keys : StateKeys state) (tree : StoredTree state.table)
    (member : file ∈ state.table) : ItemKept state file.accountId file := by
  refine ⟨rfl, keys.issuedIds file member, tree.path_ne_nil member, ?_⟩
  intro row rowMember item
  rw [tree.eq_of_id rowMember member item]
  exact ⟨rfl, rfl⟩

theorem folderKept (tree : StoredTree state.table)
    (member : file ∈ state.table) : FolderKept state.table file := by
  refine ⟨fun row rowMember item => tree.eq_of_id rowMember member item, ?_⟩
  intro row rowMember space path
  rw [tree.eq_of_path rowMember member space path]

theorem relocating (keys : StateKeys state) (tree : StoredTree state.table)
    {spaceId fileId : Text} {relocation : Relocation}
    (ok : startRelocation state.table spaceId fileId now relocation =
      .ok rest) : CallFits state rest := by
  obtain ⟨file, member, rfl, ⟨name, place, accepted, renamed, rfl⟩ |
    ⟨name, parentPath, named, rfl⟩⟩ := startRelocation_ok ok
  · obtain ⟨fits, notInside⟩ := tree.renamePlace member accepted renamed
    exact ⟨fits, itemKept keys tree member,
      fun _ => ⟨folderKept tree member, notInside⟩⟩
  · have valid : validatePathSegment name = true := by
      rcases named with rfl | accepted
      · exact tree.named file member
      · exact accepted
    exact ⟨valid, itemKept keys tree member, fun _ => folderKept tree member⟩

theorem resolving (tree : StoredTree state.table) {name parentPath : Text}
    (fits : CallFits state (.resolving spaceId file name parentPath now))
    (ok : resolveRelocation state.table spaceId file name parentPath now =
      .ok rest) : CallFits state rest := by
  obtain ⟨valid, kept, folder⟩ := fits
  obtain ⟨context, place, resolved, moved, rfl⟩ := resolveRelocation_ok ok
  refine ⟨?_, kept, fun isFolder => ⟨folder isFolder, ?_⟩⟩
  · rw [(movePlace_ok moved).1]
    exact (resolveStorageParentContext_ok tree.toTableKeys
      resolved).1.place valid
  · exact movePlace_notInside isFolder kept.nonempty (isName_of_valid valid)
      moved

theorem inserting (keys : StateKeys state) (tree : StoredTree state.table)
    {row : StorageFile} (known : CallKnown state (.inserting row))
    (fits : CallFits state (.inserting row)) (fresh : row.id ∉ state.issued)
    (accepted : state.table.insertRow row = some table)
    {outcome : Outcome StorageCall StorageAnswer}
    (next : ∀ rest, outcome = .next rest →
      CallFits ⟨table, row.id :: state.issued⟩ rest) :
    TreeAfter state call (⟨table, row.id :: state.issued⟩, outcome) := by
  have after : StateKeys.KeysAfter state
      (⟨table, row.id :: state.issued⟩, .done (.keys (.ok []))) :=
    keys.inserted known fresh accepted nofun
  have shape := (insertRow_some accepted).1
  have cases : ∀ other ∈ table, other ∈ state.table ∨ other = row := by
    intro other member
    rw [shape] at member
    simpa using member
  refine ⟨Or.inl ?_, Or.inr ⟨List.subset_cons_self _ _, ?_⟩, next⟩
  · refine ⟨after.keys.toTableKeys, ?_, ?_, ?_⟩
    · intro other member
      rcases cases other member with old | rfl
      · exact tree.named other old
      · exact fits.named
    · intro other member root
      rcases cases other member with old | rfl
      · exact tree.rooted other old root
      · exact fits.rooted root
    · intro other member parent parentMember child
      rcases cases parent parentMember with parentOld | rfl
      · rcases cases other member with old | rfl
        · exact tree.placed other old parent parentOld child
        · exact (fits.placed parent parentOld child).2.2
      · rcases cases other member with old | rfl
        · obtain ⟨found, foundMember, same, _⟩ :=
            tree.parents other old parent.id child
          exact absurd (same ▸ keys.issuedIds found foundMember) fresh
        · exact absurd (known.issued other.id child) fresh
  · intro other member issued
    rcases cases other member with old | rfl
    · exact ⟨other, old, ⟨rfl, rfl, rfl⟩, fun _ => rfl⟩
    · exact absurd issued fresh

theorem placing_file (tree : StoredTree state.table) {place : Place}
    (isFile : file.type ≠ .folder)
    (fits : CallFits state (.placing spaceId file place now))
    (accepted : state.table.updatePlace spaceId file.id place now =
      some table) :
    StoredTree table ∧ FoldersStay state (state.withTable table) := by
  obtain ⟨placeFits, kept, _⟩ := fits
  by_cases found : ∃ row ∈ state.table, row.isItem spaceId file.id = true
  · obtain ⟨row, member, isItem⟩ := found
    obtain ⟨item, space⟩ := isItem_iff.mp isItem
    have rowFile : row.type ≠ .folder := (kept.same row member item).2 ▸ isFile
    rw [← item, ← space] at accepted
    rw [← space] at placeFits
    have elsewhere : place.parentId ≠ some row.id :=
      fun inside => rowFile (placeFits.placed row member inside).2.1
    have moved := tree.updatePlace member placeFits elsewhere accepted
    have shape := updatePlace_shape accepted
    have cases : ∀ other ∈ table, other = row.placedAt place now ∨
        (other ∈ state.table ∧ other.id ≠ row.id) := by
      intro other otherMember
      rw [shape] at otherMember
      exact (tree.mem_placed member place now other).mp otherMember
    constructor
    · apply moved.of_file
      intro other otherMember same
      rcases cases other otherMember with rfl | ⟨_, different⟩
      · cases kind : row.type with
        | file => exact kind
        | folder => exact absurd kind rowFile
      · exact absurd same different
    · refine ⟨List.Subset.refl _, ?_⟩
      intro other otherMember _
      rcases cases other otherMember with rfl | ⟨old, _⟩
      · exact ⟨row, member, ⟨rfl, rfl, rfl⟩,
          fun isFolder => absurd isFolder rowFile⟩
      · exact ⟨other, old, ⟨rfl, rfl, rfl⟩, fun _ => rfl⟩
  · rw [updatePlace_absent accepted found]
    exact ⟨tree, FoldersStay.refl state⟩

theorem placing_folder (tree : StoredTree state.table) {place : Place}
    (isFolder : file.type = .folder)
    (fits : CallFits state (.placing spaceId file place now))
    (accepted : state.table.updatePlace spaceId file.id place now =
      some table) :
    CallFits (state.withTable table) (.rebasing spaceId file place now) := by
  obtain ⟨placeFits, kept, folder⟩ := fits
  obtain ⟨folderKept, notInside⟩ := folder isFolder
  have space := kept.space
  subst space
  refine ⟨isFolder, ?_⟩
  by_cases found : ∃ row ∈ state.table,
      row.isItem file.accountId file.id = true
  · obtain ⟨row, member, isItem⟩ := found
    have same := folderKept.same row member (isItem_iff.mp isItem).1
    subst same
    exact Or.inl (tree.halfMoved member placeFits notInside accepted)
  · rw [updatePlace_absent accepted found]
    refine Or.inr ⟨tree, ?_⟩
    intro row member rowSpace starts
    obtain ⟨above, aboveMember, aboveSpace, path, _⟩ :=
      tree.exists_at_prefix member kept.nonempty starts
    have space := aboveSpace.trans rowSpace
    exact found ⟨above, aboveMember, isItem_iff.mpr
      ⟨folderKept.owner above aboveMember space path, space⟩⟩

theorem rebasing {place : Place}
    (fits : CallFits state (.rebasing spaceId file place now))
    (exact : PathsExact state.table (.rebasing spaceId file place now)) :
    ∃ table, state.table.updateDescendantPaths spaceId file.path place.path
      now = some table ∧ StoredTree table := by
  obtain ⟨clear, cut⟩ := exact
  rcases fits.2 with half | nothing
  · exact ⟨_, half.updateDescendantPaths_eq clear cut now,
      half.storedTree clear now⟩
  · have unselected : ∀ row ∈ state.table,
        isUnder spaceId file.path row = false := by
      intro row member
      by_contra under
      obtain ⟨space, same⟩ := isUnder_iff.mp (by simpa using under)
      exact nothing.none row member space (clear row member space same)
    refine ⟨state.table, ?_, nothing.tree⟩
    unfold updateDescendantPaths
    rw [rewriteRows_accepted, List.nil_append, rewritten_eq_self unselected]
    · rw [List.nil_append, rewritten_eq_self unselected]
      exact nothing.tree.distinctPaths
    · exact List.Nodup.of_map _ nothing.tree.distinctIds
    · intro row member chosen
      rw [unselected row member] at chosen
      cases chosen

/-- Every statement of a writer on a tree, other than on the rows under a
moving folder. -/
theorem statement (keys : StateKeys state) (tree : StoredTree state.table)
    (maxFileSize : Nat) (known : CallKnown state call)
    (fits : CallFits state call) (writes : call.writes)
    (fresh : ∀ row, call = .inserting row → row.id ∉ state.issued)
    (notRebasing : ∀ spaceId file place now,
      call ≠ .rebasing spaceId file place now) :
    TreeAfter state call (call.statement maxFileSize state) := by
  cases call with
  | creating spaceId request id now =>
      exact continueWith tree fun _ ok => creating tree ok
  | inserting row =>
      simp only [StorageCall.statement]
      split
      · exact idle tree (by rintro _ ⟨⟩)
      · rename_i table accepted
        apply inserting keys tree known fits (fresh row rfl) accepted
        intro rest same
        cases same
        trivial
  | relocating spaceId fileId relocation now =>
      exact continueWith tree fun _ ok => relocating keys tree ok
  | resolving spaceId file name parentPath now =>
      exact continueWith tree fun _ ok => resolving tree fits ok
  | placing spaceId file place now =>
      simp only [StorageCall.statement]
      split
      · exact idle tree (by rintro _ ⟨⟩)
      · rename_i table accepted
        by_cases isFolder : file.type = .folder
        · simp only [if_pos isFolder]
          refine ⟨Or.inr ⟨spaceId, file, place, now, rfl⟩,
            Or.inl isFolder, ?_⟩
          intro rest same
          cases same
          exact placing_folder tree isFolder fits accepted
        · simp only [if_neg isFolder]
          have placed := placing_file tree isFolder fits accepted
          refine ⟨Or.inl placed.1, Or.inr placed.2, ?_⟩
          intro rest same
          cases same
          trivial
  | rebasing spaceId file place now =>
      exact absurd rfl (notRebasing spaceId file place now)
  | reverting spaceId file => exact fits.elim
  | _ => exact writes.elim

end TreeAfter

def StorageCall.rebases : StorageCall → Prop
  | .rebasing .. => True
  | _ => False

theorem CallFits.of_not_writes {call : StorageCall} (state : StoreState)
    (reads : ¬ call.writes) : CallFits state call := by
  cases call with
  | creating | inserting | relocating | resolving | placing | rebasing
  | reverting => exact absurd trivial reads
  | _ => trivial

theorem deletes_only {call : StorageCall} (reads : ¬ call.writes)
    (maxFileSize : Nat) (state : StoreState) :
    ((call.statement maxFileSize state).1 = state ∨
      ∃ selected, (call.statement maxFileSize state).1 =
        state.withTable (state.table.deleteRows selected)) ∧
      ∀ rest, (call.statement maxFileSize state).2 = .next rest →
        ¬ rest.writes := by
  cases call with
  | loading spaceId fileId => exact ⟨Or.inl rfl, by rintro _ ⟨⟩⟩
  | deleting spaceId fileId =>
      simp only [StorageCall.statement]
      split
      · exact ⟨Or.inl rfl, by rintro _ ⟨⟩⟩
      · refine ⟨Or.inl rfl, ?_⟩
        intro rest same
        cases same
        split
        · exact id
        · exact id
  | listing | findingKey =>
      refine ⟨Or.inl rfl, ?_⟩
      intro rest same
      cases same
      exact id
  | deletingUnder spaceId file keys =>
      refine ⟨Or.inr ⟨_, rfl⟩, ?_⟩
      intro rest same
      cases same
      exact id
  | deletingRow spaceId fileId keys => exact ⟨Or.inr ⟨_, rfl⟩, by rintro _ ⟨⟩⟩
  | _ => exact absurd trivial reads

/-- The rows form a tree but for a folder that is being moved. -/
structure TreeInvariant (state : StoreState) (calls : List StorageCall) :
    Prop where
  fits : ∀ call ∈ calls, CallFits state call
  tree : StoredTree state.table ∨ ∃ call ∈ calls, call.rebases

/-- What one statement of a call keeps, with the other calls in progress. -/
structure TreeStep (after : StoreState) (others : List StorageCall)
    (outcome : Outcome StorageCall StorageAnswer) : Prop where
  kept : ∀ other ∈ others, CallFits after other
  next : ∀ rest, outcome = .next rest → CallFits after rest
  tree : StoredTree after.table ∨ (∃ other ∈ others, other.rebases) ∨
    ∃ rest, outcome = .next rest ∧ rest.rebases

theorem TreeStep.statement {state : StoreState} {call : StorageCall}
    (maxFileSize : Nat) (keys : StateKeys state)
    (known : ∀ other ∈ call :: others, CallKnown state other)
    (before : TreeInvariant state (call :: others))
    (allowed : UndisturbedRun state (.run call) others) :
    TreeStep (call.statement maxFileSize state).1 others
      (call.statement maxFileSize state).2 := by
  obtain ⟨permitted, undisturbed, exact⟩ := allowed
  have fits := before.fits call List.mem_cons_self
  have othersFit : ∀ other ∈ others, CallFits state other :=
    fun other member => before.fits other (List.mem_cons_of_mem _ member)
  have othersKnown : ∀ other ∈ others, CallKnown state other :=
    fun other member => known other (List.mem_cons_of_mem _ member)
  by_cases writes : call.writes
  · by_cases rebases : call.rebases
    · cases call with
      | rebasing spaceId file place now =>
          obtain ⟨table, written, tree⟩ := TreeAfter.rebasing fits exact
          simp only [StorageCall.statement, written]
          refine ⟨?_, ?_, Or.inl tree⟩
          · intro other member
            exact CallFits.of_not_writes _
              (undisturbed.mover fits.1 other member)
          · intro rest same
            cases same
            trivial
      | _ => exact rebases.elim
    · -- another call cannot be between the two statements of its move
      have tree : StoredTree state.table := by
        rcases before.tree with tree | ⟨other, member, half⟩
        · exact tree
        · rcases List.mem_cons.mp member with rfl | member
          · exact absurd half rebases
          · have quiet := undisturbed.writer writes other member
            cases other with
            | rebasing spaceId file place now =>
                exact absurd (othersFit _ member).1 quiet
            | _ => exact half.elim
      have fresh : ∀ row, call = .inserting row → row.id ∉ state.issued := by
        rintro row rfl
        exact permitted
      have after := TreeAfter.statement keys tree maxFileSize
        (known call List.mem_cons_self) fits writes fresh (by
          rintro spaceId file place now rfl
          exact rebases trivial)
      refine ⟨?_, after.next, ?_⟩
      · intro other member
        rcases after.stay with moves | stay
        · exact CallFits.of_not_writes _ (undisturbed.mover moves other member)
        · exact (othersFit other member).stays (othersKnown other member)
            (undisturbed.writer writes other member) stay
      · rcases after.tree with tree | ⟨spaceId, file, place, now, rebasing⟩
        · exact Or.inl tree
        · exact Or.inr (Or.inr ⟨_, rebasing, trivial⟩)
  · obtain ⟨shape, next⟩ := deletes_only writes maxFileSize state
    have halfway : (∃ other ∈ call :: others, other.rebases) →
        ∃ other ∈ others, other.rebases := by
      rintro ⟨other, member, rebases⟩
      rcases List.mem_cons.mp member with rfl | member
      · cases other with
        | rebasing spaceId file place now => exact absurd trivial writes
        | _ => exact rebases.elim
      · exact ⟨other, member, rebases⟩
    rcases shape with same | ⟨selected, same⟩
    · rw [same]
      refine ⟨othersFit, fun rest continued =>
        CallFits.of_not_writes _ (next rest continued), ?_⟩
      rcases before.tree with tree | rebases
      · exact Or.inl tree
      · exact Or.inr (Or.inl (halfway rebases))
    · rw [same]
      refine ⟨fun other member =>
        (othersFit other member).deleteRows (othersKnown other member) selected,
        fun rest continued => CallFits.of_not_writes _ (next rest continued),
        ?_⟩
      rcases before.tree with tree | rebases
      · exact Or.inl (tree.deleteRows selected)
      · exact Or.inr (Or.inl (halfway rebases))

theorem TreeInvariant.perm {state : StoreState}
    {calls others : List StorageCall} (invariant : TreeInvariant state calls)
    (perm : calls.Perm others) : TreeInvariant state others := by
  refine ⟨fun call member => invariant.fits call (perm.mem_iff.mpr member), ?_⟩
  rcases invariant.tree with tree | ⟨call, member, rebases⟩
  · exact Or.inl tree
  · exact Or.inr ⟨call, perm.mem_iff.mp member, rebases⟩

theorem TreeStep.next_calls {state : StoreState} {rest : StorageCall}
    (step : TreeStep state others (.next rest)) :
    TreeInvariant state (rest :: others) := by
  refine ⟨?_, ?_⟩
  · intro call member
    rcases List.mem_cons.mp member with rfl | member
    · exact step.next call rfl
    · exact step.kept call member
  · rcases step.tree with tree | ⟨other, member, rebases⟩ |
      ⟨next, same, rebases⟩
    · exact Or.inl tree
    · exact Or.inr ⟨other, List.mem_cons_of_mem _ member, rebases⟩
    · cases same
      exact Or.inr ⟨rest, List.mem_cons_self, rebases⟩

theorem TreeStep.done_calls {state : StoreState} {answer : StorageAnswer}
    (step : TreeStep state others (.done answer)) :
    TreeInvariant state others := by
  refine ⟨step.kept, ?_⟩
  rcases step.tree with tree | halfway | ⟨_, same, _⟩
  · exact Or.inl tree
  · exact Or.inr halfway
  · cases same

theorem UndisturbedRun.fresh {state : StoreState} {event : Event StorageCall}
    (allowed : UndisturbedRun state event others) :
    FreshIds state event others := by
  cases event with
  | start call => trivial
  | run call => exact allowed.1
  | fail call => exact allowed.elim

theorem tree_of_run {maxFileSize : Nat}
    {initial reached : Config StoreState StorageCall StorageAnswer}
    (run : Run (storageProgram maxFileSize) UndisturbedRun initial reached)
    (keys : StateKeys initial.shared) (tree : StoredTree initial.shared.table)
    (idle : initial.calls = []) :
    TreeInvariant reached.shared reached.calls := by
  apply @Run.invariant_reached _ _ _ _ _ _ _ (fun config =>
    TreeInvariant config.shared config.calls) run
  · rw [idle]
    exact ⟨nofun, Or.inl tree⟩
  · intro before event others after earlier invariant allowed step
    have hold := keys_of_run (earlier.mono fun _ _ _ => UndisturbedRun.fresh)
      keys idle
    have moved : ∀ {front call back state outcome},
        before.calls = front ++ call :: back →
        UndisturbedRun before.shared (.run call) (front ++ back) →
        StorageCall.statement maxFileSize call before.shared =
          (state, outcome) → TreeStep state (front ++ back) outcome := by
      intro front call back state outcome within allowed executed
      have first : before.calls.Perm (call :: (front ++ back)) :=
        within ▸ List.perm_middle
      have known := fun other member =>
        hold.2.1 other (first.mem_iff.mpr member)
      have step := TreeStep.statement maxFileSize hold.1 known
        (invariant.perm first) allowed
      rwa [executed] at step
    cases step with
    | start starts =>
        refine ⟨?_, ?_⟩
        · intro call member
          rcases List.mem_cons.mp member with rfl | member
          · rcases starts with ⟨_, _, _, _, rfl⟩ | ⟨_, _, _, _, rfl⟩ |
              ⟨_, _, rfl⟩
            · trivial
            · trivial
            · trivial
          · exact invariant.fits call member
        · rcases invariant.tree with tree | ⟨call, member, rebases⟩
          · exact Or.inl tree
          · exact Or.inr ⟨call, List.mem_cons_of_mem _ member, rebases⟩
    | next executed =>
        exact (moved rfl allowed executed).next_calls.perm
          List.perm_middle.symm
    | done executed => exact (moved rfl allowed executed).done_calls
    | fail => exact allowed.elim

end Takos.SpaceStorage
