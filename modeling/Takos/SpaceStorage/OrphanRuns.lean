import Takos.SpaceStorage.StorageCalls
import Takos.SpaceStorage.StorageRuns

/-!
# The cleanup over whole histories

An orphan is recognised by its size and by two equal times, so a completed
record is safe as long as nothing leaves it empty with the time of its creation
as the time of its update, and nothing completes it after a cleanup has selected
it.
-/

namespace Takos.SpaceStorage

open Takos.Foundation Takos.Foundation.Program StorageTable

/-- Records that a cleanup has selected and not deleted yet. -/
def UploadCall.doomed : UploadCall → List Text
  | .deletingOrphans _ _ _ _ _ left => left.map Orphan.id
  | _ => []

def UploadCall.cleans : UploadCall → Prop
  | .selecting .. | .deletingOrphans .. | .deletingObjects .. => True
  | _ => False

/-- No completed empty record of the rows was created at the given time. -/
def NotStamped (state : UploadState) (rows : StorageFile → Bool) (now : Nat) :
    Prop :=
  ∀ row ∈ state.store.table, rows row = true → row.id ∈ state.completed →
    row.size = 0 → row.createdAt ≠ now

/-- A rename or a move does not write to a completed empty record the time of
its creation. -/
def TreeCareful (state : UploadState) : StorageCall → Prop
  | .placing spaceId file place now =>
    state.store.table.updatePlace spaceId file.id place now ≠ none →
      NotStamped state (StorageFile.isItem spaceId file.id) now
  | .rebasing spaceId file place now =>
    state.store.table.updateDescendantPaths spaceId file.path place.path
        now ≠ none →
      NotStamped state (isUnder spaceId file.path) now
  | _ => True

/-- A record that becomes complete does not look like an orphan, and no cleanup
has selected it. -/
structure UpdateCareful (state : UploadState) (spaceId fileId : Text)
    (size now : Nat) (others : List UploadCall) : Prop where
  stamped : size = 0 → ∀ row ∈ state.store.table,
    row.isItem spaceId fileId = true → row.createdAt ≠ now
  selected : (∃ row ∈ state.store.table, row.isItem spaceId fileId = true) →
    ∀ other ∈ others, fileId ∉ other.doomed

/-- Ids are new, files are not created with empty content, and no record is
completed or touched as said above. -/
def Careful (state : UploadState) :
    Event UploadCall → List UploadCall → Prop
  | .run (.tree call), _ =>
    FreshIds state.store (.run call) [] ∧ TreeCareful state call
  | .run (.insertingNew row), _ =>
    row.id ∉ state.store.issued ∧
      (state.store.table.insertRow row ≠ none → row.size ≠ 0)
  | .run (.updating spaceId fileId size now), others =>
    UpdateCareful state spaceId fileId size now others
  | _, _ => True

/-- Completed records are files, and none looks like an orphan. -/
structure UploadKept (state : UploadState) : Prop where
  keys : StateKeys state.store
  issued : ∀ id ∈ state.completed, id ∈ state.store.issued
  files : ∀ row ∈ state.store.table, row.id ∈ state.completed →
    row.type = .file
  stored : ∀ row ∈ state.store.table, row.id ∈ state.completed →
    row.size = 0 → row.createdAt ≠ row.updatedAt

/-- The type of a row that a call has read. -/
structure TypeKept (store : StoreState) (id : Text)
    (type : SpaceStorageFileType) : Prop where
  issued : id ∈ store.issued
  same : ∀ row ∈ store.table, row.id = id → row.type = type

def TreeTyped (store : StoreState) : StorageCall → Prop
  | .resolving _ file _ _ _ | .placing _ file _ _ =>
    TypeKept store file.id file.type
  | .rebasing _ file _ _ | .reverting _ file => TypeKept store file.id .folder
  | _ => True

def CallSafe (state : UploadState) : UploadCall → Prop
  | .tree call => CallKnown state.store call ∧ TreeTyped state.store call
  | .puttingNew row | .insertingNew row =>
    Known state.store row.accountId row.parentId ∧ row.type = .file
  | .putting _ _ fileId _ _ | .heading _ _ fileId _ | .updating _ fileId _ _ =>
    TypeKept state.store fileId .file
  | .deletingOrphans _ _ _ _ _ left =>
    ∀ orphan ∈ left, orphan.id ∉ state.completed ∧
      TypeKept state.store orphan.id .file
  | _ => True

theorem TypeKept.follows {before after : StoreState} {id : Text}
    {type : SpaceStorageFileType} (kept : TypeKept before id type)
    (follows : Follows before after) : TypeKept after id type := by
  refine ⟨follows.issued kept.issued, ?_⟩
  intro row member item
  obtain ⟨old, oldMember, same⟩ :=
    follows.rows row member (item ▸ kept.issued)
  exact same.type.trans (kept.same old oldMember (same.id.symm.trans item))

theorem TypeKept.of_member {store : StoreState} (keys : StateKeys store)
    {row : StorageFile} (member : row ∈ store.table) :
    TypeKept store row.id row.type := by
  refine ⟨keys.issuedIds row member, ?_⟩
  intro other otherMember same
  rw [keys.eq_of_id otherMember member same]

theorem TreeTyped.follows {before after : StoreState} {call : StorageCall}
    (typed : TreeTyped before call) (follows : Follows before after) :
    TreeTyped after call := by
  cases call with
  | resolving | placing | rebasing | reverting =>
      exact TypeKept.follows typed follows
  | _ => trivial

/-- A call stays safe when the rows follow and nothing that it has selected is
completed. -/
theorem CallSafe.follows {before after : UploadState} {call : UploadCall}
    (safe : CallSafe before call) (follows : Follows before.store after.store)
    (apart : ∀ id ∈ call.doomed, id ∉ before.completed →
      id ∉ after.completed) : CallSafe after call := by
  cases call with
  | tree call => exact ⟨safe.1.follows follows, safe.2.follows follows⟩
  | puttingNew | insertingNew => exact ⟨safe.1.follows follows, safe.2⟩
  | putting | heading | updating =>
      exact TypeKept.follows safe follows
  | deletingOrphans spaceId maxAge now cleaned batch left =>
      intro orphan member
      obtain ⟨waiting, kept⟩ := safe orphan member
      exact ⟨apart orphan.id (List.mem_map_of_mem member) waiting,
        kept.follows follows⟩
  | _ => trivial

namespace UploadKept

variable {state : UploadState}

theorem rewritten (kept : UploadKept state) {selected : StorageFile → Bool}
    {rewrite : StorageFile → StorageFile}
    (same : ∀ row, SameItem row (rewrite row))
    (keys : TableKeys
      (StorageTable.rewritten selected rewrite state.store.table))
    (stored : ∀ row ∈ state.store.table, selected row = true →
      row.id ∈ state.completed → (rewrite row).size = 0 →
        (rewrite row).createdAt ≠ (rewrite row).updatedAt) :
    UploadKept (state.withStore (state.store.withTable
      (StorageTable.rewritten selected rewrite state.store.table))) := by
  refine ⟨kept.keys.withTable keys (inherits_rewritten same), kept.issued,
    ?_, ?_⟩
  · intro row member completed
    rcases mem_rewritten.mp member with ⟨old, oldMember, _, rfl⟩ |
      ⟨member, _⟩
    · rw [(same old).type]
      exact kept.files old oldMember ((same old).id ▸ completed)
    · exact kept.files row member completed
  · intro row member completed
    rcases mem_rewritten.mp member with ⟨old, oldMember, chosen, rfl⟩ |
      ⟨member, _⟩
    · exact stored old oldMember chosen ((same old).id ▸ completed)
    · exact kept.stored row member completed

theorem deleteRows (kept : UploadKept state)
    (selected : StorageFile → Bool) :
    UploadKept (state.withStore (state.store.withTable
      (state.store.table.deleteRows selected))) := by
  have sublist := deleteRows_sublist state.store.table selected
  exact ⟨kept.keys.withTable (kept.keys.toTableKeys.deleteRows selected)
      (Inherits.of_sublist sublist), kept.issued,
    fun row member => kept.files row (sublist.subset member),
    fun row member => kept.stored row (sublist.subset member)⟩

/-- What a statement on the tree of files keeps. -/
structure TreeKept (state : UploadState)
    (result : StoreState × Outcome StorageCall StorageAnswer) : Prop where
  kept : UploadKept (state.withStore result.1)
  typed : ∀ rest, result.2 = .next rest → TreeTyped result.1 rest

theorem continueWith (kept : UploadKept state)
    {checked : Except StorageError StorageCall}
    (typed : ∀ rest, checked = .ok rest → TreeTyped state.store rest) :
    TreeKept state (state.store.continueWith checked) := by
  cases checked with
  | ok call =>
      refine ⟨kept, ?_⟩
      intro rest same
      cases same
      exact typed call rfl
  | error error => exact ⟨kept, nofun⟩

variable {now : Nat} {call : StorageCall} {spaceId : Text}
  {table : StorageTable}

theorem startRelocation_typed (keys : StateKeys state.store)
    {spaceId fileId : Text} {relocation : Relocation}
    (ok : startRelocation state.store.table spaceId fileId now relocation =
      .ok call) : TreeTyped state.store call := by
  obtain ⟨file, member, rfl, ⟨_, _, _, _, rfl⟩ | ⟨_, _, _, rfl⟩⟩ :=
    startRelocation_ok ok
  · exact TypeKept.of_member keys member
  · exact TypeKept.of_member keys member

theorem resolveRelocation_typed {file : StorageFile} {name parentPath : Text}
    (typed : TypeKept state.store file.id file.type)
    (ok : resolveRelocation state.store.table spaceId file name parentPath
      now = .ok call) : TreeTyped state.store call := by
  obtain ⟨_, _, _, _, rfl⟩ := resolveRelocation_ok ok
  exact typed

theorem startCreation_typed {maxFileSize : Nat} {request : CreateRequest}
    {id : Text}
    (ok : startCreation maxFileSize state.store.table spaceId request id now =
      .ok call) : TreeTyped state.store call := by
  obtain ⟨_, _, rfl⟩ := startCreation_ok ok
  trivial

theorem inserting (kept : UploadKept state) {row : StorageFile}
    (known : Known state.store row.accountId row.parentId)
    (fresh : row.id ∉ state.store.issued)
    (accepted : state.store.table.insertRow row = some table) :
    StateKeys ⟨table, row.id :: state.store.issued⟩ ∧
      Follows state.store ⟨table, row.id :: state.store.issued⟩ ∧
      ∀ other ∈ table, other ∈ state.store.table ∨ other = row := by
  have after : StateKeys.KeysAfter state.store
      (⟨table, row.id :: state.store.issued⟩, .done (.keys (.ok []))) :=
    kept.keys.inserted known fresh accepted nofun
  refine ⟨after.keys, after.follows, ?_⟩
  intro other member
  rw [(insertRow_some accepted).1] at member
  simpa using member

/-- The row of an item is written at a time at which no completed empty record
of the item was created. -/
theorem placing (kept : UploadKept state) {fileId : Text} {place : Place}
    (known : ParentKnown state.store.table spaceId place.parentId)
    (accepted : state.store.table.updatePlace spaceId fileId place now =
      some table)
    (stamped : NotStamped state (StorageFile.isItem spaceId fileId) now) :
    UploadKept (state.withStore (state.store.withTable table)) := by
  have keys := (kept.keys.toTableKeys.updateItem known accepted).1
  have shape := updatePlace_shape accepted
  subst shape
  have same : ∀ row, SameItem row (StorageFile.placedAt row place now) :=
    fun _ => ⟨rfl, rfl, rfl⟩
  exact kept.rewritten same keys stamped

theorem rebasing (kept : UploadKept state) {spaceId oldPath newPath : Text}
    (accepted : state.store.table.updateDescendantPaths spaceId oldPath
      newPath now = some table)
    (stamped : NotStamped state (isUnder spaceId oldPath) now) :
    UploadKept (state.withStore (state.store.withTable table)) := by
  have keys := (kept.keys.toTableKeys.updateDescendantPaths accepted).1
  have shape := rewriteRows_some accepted
  rw [List.nil_append] at shape
  subst shape
  have same : ∀ row, SameItem row (StorageFile.withPath row
      (newPath ++ ['/'] ++
        substr row.path ((oldPath ++ ['/']).size + 1)) now) :=
    fun _ => ⟨rfl, rfl, rfl⟩
  exact kept.rewritten same keys stamped

theorem reverting (kept : UploadKept state) {file : StorageFile}
    (known : ParentKnown state.store.table spaceId file.parentId)
    (typed : TypeKept state.store file.id .folder) :
    UploadKept (state.withStore (state.store.withTable
      (revertParentUpdate state.store.table spaceId file))) := by
  unfold revertParentUpdate
  cases accepted : state.store.table.updatePlace spaceId file.id
      ⟨file.name, file.path, file.parentId⟩ file.updatedAt with
  | none => exact kept
  | some table =>
      apply kept.placing _ accepted
      · intro row member item completed
        have isFile := kept.files row member completed
        have isFolder := typed.same row member (isItem_iff.mp item).1
        rw [isFile] at isFolder
        cases isFolder
      · exact known

theorem tree (kept : UploadKept state) (maxFileSize : Nat)
    (known : CallKnown state.store call) (typed : TreeTyped state.store call)
    (fresh : ∀ row, call = .inserting row → row.id ∉ state.store.issued)
    (careful : TreeCareful state call) :
    TreeKept state (call.statement maxFileSize state.store) := by
  have after := kept.keys.statement maxFileSize known fresh
  cases call with
  | creating spaceId request id now =>
      exact kept.continueWith fun _ ok => startCreation_typed ok
  | inserting row =>
      simp only [StorageCall.statement]
      split
      · exact ⟨kept, by rintro _ ⟨⟩⟩
      · rename_i table accepted
        obtain ⟨keys, _, cases⟩ :=
          kept.inserting known (fresh row rfl) accepted
        refine ⟨⟨keys, ?_, ?_, ?_⟩, ?_⟩
        · intro id completed
          exact List.mem_cons_of_mem _ (kept.issued id completed)
        · intro other member completed
          rcases cases other member with old | rfl
          · exact kept.files other old completed
          · exact absurd (kept.issued _ completed) (fresh _ rfl)
        · intro other member completed
          rcases cases other member with old | rfl
          · exact kept.stored other old completed
          · exact absurd (kept.issued _ completed) (fresh _ rfl)
        · intro rest same
          cases same
          trivial
  | relocating spaceId fileId relocation now =>
      exact kept.continueWith fun _ ok => startRelocation_typed kept.keys ok
  | resolving spaceId file name parentPath now =>
      exact kept.continueWith fun _ ok => resolveRelocation_typed typed ok
  | placing spaceId file place now =>
      simp only [StorageCall.statement] at after ⊢
      split
      · exact ⟨kept, by rintro _ ⟨⟩⟩
      · rename_i table accepted
        rw [accepted] at after
        refine ⟨kept.placing known.1.parent accepted
          (careful (by simp [accepted])), ?_⟩
        intro rest same
        cases same
        split
        · rename_i isFolder
          have followed := TypeKept.follows typed after.follows
          rw [isFolder] at followed
          exact followed
        · trivial
  | rebasing spaceId file place now =>
      simp only [StorageCall.statement]
      split
      · refine ⟨kept, ?_⟩
        intro rest same
        cases same
        exact typed
      · rename_i table accepted
        refine ⟨kept.rebasing accepted (careful (by simp [accepted])), ?_⟩
        intro rest same
        cases same
        trivial
  | reverting spaceId file =>
      exact ⟨kept.reverting (Known.parent known) typed, by rintro _ ⟨⟩⟩
  | loading spaceId fileId => exact ⟨kept, by rintro _ ⟨⟩⟩
  | deleting spaceId fileId =>
      simp only [StorageCall.statement]
      split
      · exact ⟨kept, by rintro _ ⟨⟩⟩
      · refine ⟨kept, ?_⟩
        intro rest same
        cases same
        split
        · trivial
        · trivial
  | listing | findingKey =>
      refine ⟨kept, ?_⟩
      intro rest same
      cases same
      trivial
  | deletingUnder spaceId file keys =>
      refine ⟨kept.deleteRows _, ?_⟩
      intro rest same
      cases same
      trivial
  | deletingRow spaceId fileId keys => exact ⟨kept.deleteRows _, by rintro _ ⟨⟩⟩

end UploadKept

theorem CallSafe.doomed_issued {state : UploadState} {call : UploadCall}
    (safe : CallSafe state call) {id : Text} (doomed : id ∈ call.doomed) :
    id ∈ state.store.issued := by
  cases call with
  | deletingOrphans spaceId maxAge now cleaned batch left =>
      obtain ⟨orphan, member, rfl⟩ := List.mem_map.mp doomed
      exact (safe orphan member).2.issued
  | _ => cases doomed

/-- What a statement keeps, with the other calls in progress. -/
structure UploadStep (state : UploadState) (others : List UploadCall)
    (result : UploadState × Outcome UploadCall UploadAnswer) : Prop where
  kept : UploadKept result.1
  follows : Follows state.store result.1.store
  grown : ∀ id ∈ result.1.completed, id ∉ state.completed →
    id ∉ state.store.issued ∨ ∀ other ∈ others, id ∉ other.doomed
  next : ∀ rest, result.2 = .next rest → CallSafe result.1 rest

namespace UploadStep

variable {state : UploadState} {others : List UploadCall}

theorem quiet (kept : UploadKept state) (objects : List (Text × Nat))
    {outcome : Outcome UploadCall UploadAnswer}
    (next : ∀ rest, outcome = .next rest →
      CallSafe { state with objects := objects } rest) :
    UploadStep state others ({ state with objects := objects }, outcome) :=
  ⟨⟨kept.keys, kept.issued, kept.files, kept.stored⟩, Follows.refl _,
    fun _ completed fresh => absurd completed fresh, next⟩

theorem continueWith (kept : UploadKept state)
    {checked : Except StorageError UploadCall}
    (safe : ∀ rest, checked = .ok rest → CallSafe state rest) :
    UploadStep state others (state.continueWith checked) := by
  cases checked with
  | ok call =>
      apply quiet kept state.objects
      intro rest same
      cases same
      exact safe call rfl
  | error error => exact quiet kept state.objects nofun

theorem tree (kept : UploadKept state) (maxFileSize : Nat)
    {call : StorageCall} (safe : CallSafe state (.tree call))
    (careful : Careful state (.run (.tree call)) others) :
    UploadStep state others
      (UploadCall.statement maxFileSize (.tree call) state) := by
  have fresh : ∀ row, call = .inserting row → row.id ∉ state.store.issued := by
    rintro row rfl
    exact careful.1
  have keys := kept.keys.statement maxFileSize safe.1 fresh
  have files := kept.tree maxFileSize safe.1 safe.2 fresh careful.2
  refine ⟨files.kept, keys.follows,
    fun _ completed fresh => absurd completed fresh, ?_⟩
  intro rest continued
  simp only [UploadCall.statement] at continued ⊢
  cases outcome : (call.statement maxFileSize state.store).2 with
  | next after =>
      rw [outcome] at continued
      cases continued
      exact ⟨keys.next after outcome, files.typed after outcome⟩
  | done answer =>
      rw [outcome] at continued
      cases continued

variable {spaceId fileId : Text} {rest : UploadCall}

theorem findFileRow_typed (keys : StateKeys state.store) {row : StorageFile}
    (found : state.store.table.findFileRow spaceId fileId = some row) :
    TypeKept state.store fileId .file := by
  have member := List.mem_of_find?_eq_some found
  have facts := List.find?_some found
  simp only [Bool.and_eq_true, decide_eq_true_eq] at facts
  have typed := TypeKept.of_member keys member
  rw [(isItem_iff.mp facts.1).1, facts.2] at typed
  exact typed

theorem requireStorageFileRowById_typed (keys : StateKeys state.store)
    {spaceId fileId key : Text}
    (ok : state.store.table.requireStorageFileRowById spaceId fileId =
      .ok key) : TypeKept state.store fileId .file := by
  unfold requireStorageFileRowById at ok
  split at ok
  · cases ok
  · rename_i row found
    exact findFileRow_typed keys found

theorem startUpload_safe (keys : StateKeys state.store) {maxFileSize : Nat}
    {size declaredSize now : Nat}
    (ok : startUpload maxFileSize state.store.table spaceId fileId size
      declaredSize now = .ok rest) : CallSafe state rest := by
  simp only [startUpload, bind, Except.bind] at ok
  split at ok
  · cases ok
  · rename_i key required
    split at ok
    · cases ok
    · cases ok
      exact requireStorageFileRowById_typed keys required

theorem startWrite_safe (keys : StateKeys state.store) {size now : Nat}
    (ok : startWrite state.store.table spaceId fileId size now = .ok rest) :
    CallSafe state rest := by
  simp only [startWrite, bind, Except.bind] at ok
  split at ok
  · cases ok
  · rename_i key required
    split at ok
    · cases ok
    · cases ok
      exact requireStorageFileRowById_typed keys required

theorem startStoring_safe (keys : StateKeys state.store) {maxFileSize : Nat}
    {spaceId path : Text} {size : Nat} {id : Text} {now : Nat}
    (ok : startStoring maxFileSize state.store.table spaceId path size id now =
      .ok rest) : CallSafe state rest := by
  simp only [startStoring, bind, Except.bind] at ok
  split at ok
  · cases ok
  · rename_i place created
    cases ok
    exact ⟨keys.createPlace created, rfl⟩

theorem insertingNew (kept : UploadKept state) {row : StorageFile}
    (safe : CallSafe state (.insertingNew row))
    (fresh : row.id ∉ state.store.issued) {table : StorageTable}
    (accepted : state.store.table.insertRow row = some table)
    (sized : row.size ≠ 0) :
    UploadStep state others
      ({ state with
          store := ⟨table, row.id :: state.store.issued⟩,
          completed := row.id :: state.completed },
        .next (.tree (.loading row.accountId row.id))) := by
  obtain ⟨keys, follows, cases⟩ := kept.inserting safe.1 fresh accepted
  have others : ∀ other ∈ table, other.id ∈ row.id :: state.completed →
      other = row ∨ (other ∈ state.store.table ∧
        other.id ∈ state.completed) := by
    intro other member completed
    rcases cases other member with old | same
    · rcases List.mem_cons.mp completed with same | completed
      · exact absurd (same ▸ kept.keys.issuedIds other old) fresh
      · exact Or.inr ⟨old, completed⟩
    · exact Or.inl same
  refine ⟨⟨keys, ?_, ?_, ?_⟩, follows, ?_, ?_⟩
  · intro id completed
    rcases List.mem_cons.mp completed with rfl | completed
    · exact List.mem_cons_self
    · exact List.mem_cons_of_mem _ (kept.issued id completed)
  · intro other member completed
    rcases others other member completed with rfl | ⟨old, completed⟩
    · exact safe.2
    · exact kept.files other old completed
  · intro other member completed
    rcases others other member completed with rfl | ⟨old, completed⟩
    · exact fun empty => absurd empty sized
    · exact kept.stored other old completed
  · intro id completed new
    rcases List.mem_cons.mp completed with rfl | completed
    · exact Or.inl fresh
    · exact absurd completed new
  · intro rest same
    cases same
    exact ⟨trivial, trivial⟩

/-- A record is completed with a size, or at a time that is not that of its
creation. -/
theorem updating (kept : UploadKept state) (maxFileSize : Nat)
    {size now : Nat} (typed : TypeKept state.store fileId .file)
    (careful : UpdateCareful state spaceId fileId size now others) :
    UploadStep state others (UploadCall.statement maxFileSize
      (.updating spaceId fileId size now) state) := by
  have same : ∀ row : StorageFile, SameItem row
      { row with size := size, updatedAt := now } := fun _ => ⟨rfl, rfl, rfl⟩
  have keys : TableKeys
      (state.store.table.updateStoredFileMetadata spaceId fileId size now) := by
    apply kept.keys.toTableKeys.rewritten same
    · apply rewritten_keys (List.Nodup.of_map _ kept.keys.distinctIds)
      have unchanged : ∀ row : StorageFile,
          (if row.isItem spaceId fileId then
            { row with size := size, updatedAt := now } else row).key =
          row.key := by
        intro row
        split
        · rfl
        · rfl
      intro row member other otherMember equal
      rw [unchanged, unchanged] at equal
      exact List.inj_on_of_nodup_map kept.keys.distinctPaths member
        otherMember equal
    · exact fun row member _ => kept.keys.parents row member
  have inherits : Inherits state.store.table
      (state.store.table.updateStoredFileMetadata spaceId fileId size now) :=
    inherits_rewritten same
  have follows := Follows.of_inherits inherits
  have typedAfter := typed.follows follows
  have completed : ∀ id,
      id ∈ (if state.store.table.any (·.isItem spaceId fileId) then
          fileId :: state.completed
        else state.completed) →
      (id = fileId ∧ ∃ row ∈ state.store.table,
        row.isItem spaceId fileId = true) ∨ id ∈ state.completed := by
    intro id member
    split at member
    · rename_i present
      rcases List.mem_cons.mp member with same | member
      · exact Or.inl ⟨same, List.any_eq_true.mp present⟩
      · exact Or.inr member
    · exact Or.inr member
  refine ⟨⟨kept.keys.withTable keys inherits, ?_, ?_, ?_⟩, follows, ?_, ?_⟩
  · intro id member
    rcases completed id member with ⟨rfl, _⟩ | old
    · exact typed.issued
    · exact kept.issued id old
  · intro row member done
    rcases completed row.id done with ⟨item, _⟩ | old
    · exact typedAfter.same row member item
    · obtain ⟨before, beforeMember, equal⟩ := inherits row member
      exact equal.type.trans
        (kept.files before beforeMember (equal.id ▸ old))
  · intro row member done
    rcases mem_rewritten.mp member with ⟨old, oldMember, item, rfl⟩ |
      ⟨old, notItem⟩
    · exact fun empty => careful.stamped empty old oldMember item
    · rcases completed row.id done with ⟨same, found, foundMember, item⟩ |
        earlier
      · have equal := kept.keys.eq_of_id old foundMember
          (same.trans (isItem_iff.mp item).1.symm)
        rw [equal, item] at notItem
        cases notItem
      · exact kept.stored row old earlier
  · intro id done new
    rcases completed id done with ⟨rfl, present⟩ | old
    · exact Or.inr (careful.selected present)
    · exact absurd old new
  · intro rest continued
    cases continued
    exact ⟨trivial, trivial⟩

theorem selecting (kept : UploadKept state) (spaceId : Text)
    (maxAge now : Nat) :
    ∀ orphan ∈ state.store.table.selectOrphans spaceId maxAge now,
      orphan.id ∉ state.completed ∧ TypeKept state.store orphan.id .file := by
  intro orphan member
  obtain ⟨row, selected, rfl⟩ := List.mem_map.mp member
  have found := List.mem_of_mem_take selected
  rw [List.mem_filter] at found
  have facts := found.2
  simp only [isOrphan, Bool.and_eq_true, decide_eq_true_eq] at facts
  obtain ⟨⟨⟨⟨_, isFile⟩, empty⟩, _⟩, untouched⟩ := facts
  have typed := TypeKept.of_member kept.keys found.1
  rw [isFile] at typed
  exact ⟨fun completed => kept.stored row found.1 completed empty untouched,
    typed⟩

theorem statement (kept : UploadKept state) (maxFileSize : Nat)
    {call : UploadCall} (safe : CallSafe state call)
    (careful : Careful state (.run call) others) :
    UploadStep state others (call.statement maxFileSize state) := by
  cases call with
  | tree call => exact tree kept maxFileSize safe careful
  | storing spaceId path size id now =>
      exact continueWith kept fun _ ok => startStoring_safe kept.keys ok
  | puttingNew | putting =>
      apply quiet kept
      intro rest same
      cases same
      exact safe
  | insertingNew row =>
      simp only [UploadCall.statement]
      split
      · apply quiet kept state.objects
        intro rest same
        cases same
        trivial
      · rename_i table accepted
        exact insertingNew kept safe careful.1 accepted
          (careful.2 (by simp [accepted]))
  | removingNew row => exact quiet kept _ nofun
  | uploading spaceId fileId size declaredSize now =>
      exact continueWith kept fun _ ok => startUpload_safe kept.keys ok
  | writing spaceId fileId size now =>
      exact continueWith kept fun _ ok => startWrite_safe kept.keys ok
  | confirming spaceId fileId now =>
      simp only [UploadCall.statement]
      cases found : state.store.table.findFileRow spaceId fileId with
      | none => exact quiet kept state.objects nofun
      | some row =>
          split
          · exact quiet kept state.objects nofun
          · exact quiet kept state.objects nofun
          · apply quiet kept state.objects
            intro rest same
            cases same
            exact findFileRow_typed kept.keys found
  | heading key spaceId fileId now =>
      simp only [UploadCall.statement]
      split
      · exact quiet kept state.objects nofun
      · apply quiet kept state.objects
        intro rest same
        cases same
        exact safe
  | updating spaceId fileId size now =>
      exact updating kept maxFileSize safe careful
  | selecting spaceId maxAge now cleaned =>
      have orphans := selecting kept spaceId maxAge now
      simp only [UploadCall.statement]
      split
      · exact quiet kept state.objects nofun
      · rename_i orphan rest selected
        apply quiet kept state.objects
        intro next same
        cases same
        rw [selected] at orphans
        exact orphans
  | deletingOrphans spaceId maxAge now cleaned batch left =>
      cases left with
      | nil =>
          apply quiet kept state.objects
          intro rest same
          cases same
          trivial
      | cons orphan left =>
          have sublist := deleteRows_sublist state.store.table
            (StorageFile.isItem spaceId orphan.id)
          have follows : Follows state.store (state.store.withTable
              (state.store.table.deleteRow spaceId orphan.id)) :=
            Follows.of_inherits (Inherits.of_sublist sublist)
          refine ⟨kept.deleteRows _, follows,
            fun _ completed fresh => absurd completed fresh, ?_⟩
          intro rest same
          cases same
          intro other member
          obtain ⟨waiting, typed⟩ :=
            safe other (List.mem_cons_of_mem _ member)
          exact ⟨waiting, typed.follows follows⟩
  | deletingObjects spaceId maxAge now cleaned batch =>
      apply quiet kept
      intro rest same
      split at same
      · cases same
      · cases same
        trivial

end UploadStep

def uploadAssertions : Assertions UploadState UploadCall UploadAnswer where
  shared := UploadKept
  call := CallSafe
  result _ _ := True

/-- No file and no upload yet. -/
def noUploads : Config UploadState UploadCall UploadAnswer :=
  ⟨⟨⟨[], []⟩, [], []⟩, [], []⟩

theorem uploads_of_run {maxFileSize : Nat}
    {reached : Config UploadState UploadCall UploadAnswer}
    (run : Run (uploadProgram maxFileSize) Careful noUploads reached) :
    uploadAssertions.Hold reached := by
  refine (@Assertions.hold_of_run_apart _ _ _ _ _ _ _ uploadAssertions
    (fun _ _ => True) ?_ run ?_ ?_ ?_ ?_ ?_).1
  · exact fun _ _ _ => trivial
  · refine ⟨⟨⟨⟨List.nodup_nil, List.nodup_nil, nofun⟩, nofun⟩, nofun, nofun,
      nofun⟩, nofun, nofun⟩
  · exact List.Pairwise.nil
  · intro shared call starts
    cases starts with
    | createFolder | createFileRecord | relocate | delete =>
        exact ⟨trivial, trivial⟩
    | _ => trivial
  · exact fun _ _ _ => trivial
  · intro shared call others kept safe careful
    have step := UploadStep.statement kept maxFileSize safe careful
    refine ⟨step.kept, ?_, ?_, fun _ _ _ _ _ _ => trivial,
      fun _ _ => trivial⟩
    · cases result : ((uploadProgram maxFileSize).statement call shared).2 with
      | next rest => exact step.next rest result
      | done answer => trivial
    · intro other member otherSafe _
      apply otherSafe.follows step.follows
      intro id doomed waiting completed
      rcases step.grown id completed waiting with fresh | apart
      · exact fresh (otherSafe.doomed_issued doomed)
      · exact apart other member doomed

end Takos.SpaceStorage
