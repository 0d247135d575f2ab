import Takos.SpaceStorage.StorageCalls

/-!
# Parents and paths under any interleaving

In every run of the calls, whatever statements come between those of one call,
no two rows share a path and the parent of a row is a folder of its space.  The
only assumption is that a new row has an id that no row had before.
-/

namespace Takos.SpaceStorage

open Takos.Foundation Takos.Foundation.Program StorageTable

/-- `crypto.randomUUID()` gives ids that no row has had. -/
def FreshIds (state : StoreState) :
    Event StorageCall → List StorageCall → Prop
  | .run (.inserting row), _ => row.id ∉ state.issued
  | _, _ => True

structure StateKeys (state : StoreState) : Prop
    extends TableKeys state.table where
  issuedIds : ∀ row ∈ state.table, row.id ∈ state.issued

/-- What a call knows of a parent. -/
structure Known (state : StoreState) (spaceId : Text)
    (parentId : Option Text) : Prop where
  issued : ∀ id, parentId = some id → id ∈ state.issued
  parent : ParentKnown state.table spaceId parentId

def CallKnown (state : StoreState) : StorageCall → Prop
  | .inserting row => Known state row.accountId row.parentId
  | .resolving spaceId file _ _ _ => Known state spaceId file.parentId
  | .placing spaceId file place _ =>
    Known state spaceId place.parentId ∧ Known state spaceId file.parentId
  | .rebasing spaceId file _ _ => Known state spaceId file.parentId
  | .reverting spaceId file => Known state spaceId file.parentId
  | _ => True

/-- A later state: ids stay issued, and a row with an old id is an old row. -/
structure Follows (before after : StoreState) : Prop where
  issued : before.issued ⊆ after.issued
  rows : ∀ row ∈ after.table, row.id ∈ before.issued →
    ∃ old ∈ before.table, SameItem old row

theorem Follows.refl (state : StoreState) : Follows state state :=
  ⟨List.Subset.refl _, fun row member _ => ⟨row, member, rfl, rfl, rfl⟩⟩

theorem Follows.of_inherits {state : StoreState} {table : StorageTable}
    (inherits : Inherits state.table table) :
    Follows state (state.withTable table) :=
  ⟨List.Subset.refl _, fun row member _ => inherits row member⟩

theorem Known.follows {before after : StoreState} {spaceId : Text}
    {parentId : Option Text} (known : Known before spaceId parentId)
    (follows : Follows before after) : Known after spaceId parentId := by
  refine ⟨fun id same => follows.issued (known.issued id same), ?_⟩
  intro parent member child
  obtain ⟨old, oldMember, same⟩ :=
    follows.rows parent member (known.issued parent.id child)
  have facts := known.parent old oldMember (same.id ▸ child)
  exact ⟨same.space.trans facts.1, same.type.trans facts.2⟩

theorem CallKnown.follows {before after : StoreState} {call : StorageCall}
    (known : CallKnown before call) (follows : Follows before after) :
    CallKnown after call := by
  cases call with
  | inserting | resolving | rebasing | reverting =>
      exact Known.follows known follows
  | placing spaceId file place now =>
      exact ⟨known.1.follows follows, known.2.follows follows⟩
  | _ => trivial

section Reads

variable {table : StorageTable} {spaceId : Text} {now : Nat}
  {call : StorageCall}

theorem startRelocation_ok {fileId : Text} {relocation : Relocation}
    (ok : startRelocation table spaceId fileId now relocation = .ok call) :
    ∃ file ∈ table, file.accountId = spaceId ∧
      ((∃ name place, validatePathSegment name = true ∧
          renamePlace file name = .ok place ∧
          call = .placing spaceId file place now) ∨
        ∃ name parentPath,
          (name = file.name ∨ validatePathSegment name = true) ∧
          call = .resolving spaceId file name parentPath now) := by
  cases relocation with
  | rename name =>
      simp only [startRelocation, bind, Except.bind] at ok
      split at ok
      · cases ok
      · rename_i valid checked
        obtain ⟨rfl, accepted⟩ := ensureValidStorageName_ok checked
        split at ok
        · cases ok
        · rename_i file required
          obtain ⟨member, _, space⟩ := requireStorageItemResponse_ok required
          split at ok
          · cases ok
          · rename_i place renamed
            cases ok
            exact ⟨file, member, space,
              .inl ⟨valid, place, accepted, renamed, rfl⟩⟩
  | move parentPath =>
      simp only [startRelocation, bind, Except.bind] at ok
      split at ok
      · cases ok
      · rename_i file required
        obtain ⟨member, _, space⟩ := requireStorageItemResponse_ok required
        cases ok
        exact ⟨file, member, space, .inr ⟨_, _, .inl rfl, rfl⟩⟩
  | moveAndRename parentPath name =>
      simp only [startRelocation, bind, Except.bind] at ok
      split at ok
      · cases ok
      · rename_i file required
        obtain ⟨member, _, space⟩ := requireStorageItemResponse_ok required
        split at ok
        · cases ok
        · rename_i valid checked
          obtain ⟨rfl, accepted⟩ := ensureValidStorageName_ok checked
          cases ok
          exact ⟨file, member, space, .inr ⟨_, _, .inr accepted, rfl⟩⟩

theorem resolveRelocation_ok {file : StorageFile} {name parentPath : Text}
    (ok : resolveRelocation table spaceId file name parentPath now = .ok call) :
    ∃ context place, resolveStorageParentContext table spaceId parentPath
        "Destination folder not found" = .ok context ∧
      movePlace file name context = .ok place ∧
      call = .placing spaceId file place now := by
  simp only [resolveRelocation, bind, Except.bind] at ok
  split at ok
  · cases ok
  · rename_i context resolved
    split at ok
    · cases ok
    · rename_i place moved
      cases ok
      exact ⟨context, place, resolved, moved, rfl⟩

theorem startCreation_ok {maxFileSize : Nat} {request : CreateRequest}
    {id : Text}
    (ok : startCreation maxFileSize table spaceId request id now = .ok call) :
    ∃ place, createPlace maxFileSize table spaceId request = .ok place ∧
      call = .inserting (request.row spaceId id now place) := by
  simp only [startCreation, bind, Except.bind] at ok
  split at ok
  · cases ok
  · rename_i place created
    cases ok
    exact ⟨place, created, rfl⟩

/-- The place of a new item fits, and its parent was there. -/
def NewPlace (table : StorageTable) (spaceId : Text) (place : Place) : Prop :=
  PlaceFits table spaceId place ∧
    ∀ id, place.parentId = some id → ∃ parent ∈ table, parent.id = id

theorem resolveStorageCreateContext_ok (keys : TableKeys table)
    {name : Text} {parentPath : Option Text}
    {invalidName missingParent : String} {place : Place}
    (ok : resolveStorageCreateContext table spaceId name parentPath
      invalidName missingParent = .ok place) :
    NewPlace table spaceId place := by
  simp only [resolveStorageCreateContext, bind, Except.bind] at ok
  split at ok
  · cases ok
  · rename_i prepared checked
    split at ok
    · cases ok
    · rename_i context resolved
      cases ok
      obtain ⟨valid, parent, full⟩ := prepareStorageChildPath_ok checked
      obtain ⟨fits, normal, present⟩ :=
        resolveStorageParentContext_ok keys resolved
      rw [parent, normalizePath_idem, ← parent] at normal
      refine ⟨?_, present⟩
      rw [full, ← normal]
      exact fits.place valid

theorem createPlace_ok (keys : TableKeys table) {maxFileSize : Nat}
    {request : CreateRequest} {place : Place}
    (ok : createPlace maxFileSize table spaceId request = .ok place) :
    NewPlace table spaceId place := by
  cases request with
  | createFolder name parentPath => exact resolveStorageCreateContext_ok keys ok
  | createFileRecord name parentPath size =>
      simp only [createPlace] at ok
      split at ok
      · cases ok
      · exact resolveStorageCreateContext_ok keys ok
  | createFileWithContent path size =>
      simp only [createPlace, bind, Except.bind] at ok
      split at ok
      · cases ok
      · rename_i parsed checked
        split at ok
        · cases ok
        · rename_i context resolved
          split at ok
          · cases ok
          · cases ok
            obtain ⟨valid, parent, full⟩ := parseStorageFilePath_ok checked
            obtain ⟨fits, normal, present⟩ :=
              resolveStorageParentContext_ok keys resolved
            rw [parent] at normal
            refine ⟨?_, present⟩
            rw [full, ← normal]
            exact fits.place valid

end Reads

namespace StateKeys

variable {state : StoreState}

variable {table : StorageTable} {spaceId : Text} {call : StorageCall}
  {outcome : Outcome StorageCall StorageAnswer}

theorem withTable (keys : StateKeys state) (tableKeys : TableKeys table)
    (inherits : Inherits state.table table) :
    StateKeys (state.withTable table) := by
  refine ⟨tableKeys, ?_⟩
  intro row member
  obtain ⟨old, oldMember, same⟩ := inherits row member
  exact same.id ▸ keys.issuedIds old oldMember

theorem known (keys : StateKeys state) {parentId : Option Text}
    (known : ParentKnown state.table spaceId parentId)
    (present : ∀ id, parentId = some id → ∃ row ∈ state.table, row.id = id) :
    Known state spaceId parentId := by
  refine ⟨fun id same => ?_, known⟩
  obtain ⟨row, member, rfl⟩ := present id same
  exact keys.issuedIds row member

theorem known_parent (keys : StateKeys state) {file : StorageFile}
    (member : file ∈ state.table) :
    Known state file.accountId file.parentId := by
  apply keys.known
  · intro parent parentMember child
    obtain ⟨found, foundMember, same, facts⟩ :=
      keys.parents file member parent.id child
    exact keys.eq_of_id foundMember parentMember same ▸ facts
  · intro id child
    obtain ⟨parent, parentMember, same, _⟩ := keys.parents file member id child
    exact ⟨parent, parentMember, same⟩

theorem known_context (keys : StateKeys state) {spaceId parentPath : Text}
    {message : String} {context : ParentContext}
    (resolved : resolveStorageParentContext state.table spaceId parentPath
      message = .ok context) : Known state spaceId context.parentId := by
  obtain ⟨fits, _, present⟩ :=
    resolveStorageParentContext_ok keys.toTableKeys resolved
  apply keys.known _ present
  intro parent member child
  exact ⟨(fits.folder parent member child).1,
    (fits.folder parent member child).2.1⟩

theorem startRelocation (keys : StateKeys state) {spaceId fileId : Text}
    {now : Nat} {relocation : Relocation}
    (ok : startRelocation state.table spaceId fileId now relocation =
      .ok call) : CallKnown state call := by
  obtain ⟨file, member, rfl, ⟨name, place, _, renamed, rfl⟩ |
    ⟨name, parentPath, _, rfl⟩⟩ := startRelocation_ok ok
  · have known := keys.known_parent member
    refine ⟨?_, known⟩
    rw [renamePlace_ok renamed]
    exact known
  · exact keys.known_parent member

theorem resolveRelocation (keys : StateKeys state) {file : StorageFile}
    {name parentPath : Text} {now : Nat}
    (known : Known state spaceId file.parentId)
    (ok : resolveRelocation state.table spaceId file name parentPath now =
      .ok call) : CallKnown state call := by
  obtain ⟨context, place, resolved, moved, rfl⟩ := resolveRelocation_ok ok
  refine ⟨?_, known⟩
  rw [(movePlace_ok moved).1]
  exact keys.known_context resolved

theorem createPlace (keys : StateKeys state) {maxFileSize : Nat}
    {request : CreateRequest} {place : Place}
    (ok : createPlace maxFileSize state.table spaceId request = .ok place) :
    Known state spaceId place.parentId := by
  obtain ⟨fits, present⟩ := createPlace_ok keys.toTableKeys ok
  apply keys.known _ present
  intro parent member child
  have facts := fits.placed parent member child
  exact ⟨facts.1, facts.2.1⟩

theorem row_columns (request : CreateRequest) (spaceId id : Text) (now : Nat)
    (place : Place) :
    (request.row spaceId id now place).accountId = spaceId ∧
      (request.row spaceId id now place).parentId = place.parentId ∧
      (request.row spaceId id now place).name = place.name ∧
      (request.row spaceId id now place).path = place.path := by
  cases request with
  | createFolder | createFileRecord | createFileWithContent =>
      exact ⟨rfl, rfl, rfl, rfl⟩

theorem startCreation (keys : StateKeys state) {maxFileSize : Nat}
    {request : CreateRequest} {id : Text} {now : Nat}
    (ok : startCreation maxFileSize state.table spaceId request id now =
      .ok call) : CallKnown state call := by
  obtain ⟨place, created, rfl⟩ := startCreation_ok ok
  have columns := row_columns request spaceId id now place
  have known := keys.createPlace created
  simpa only [CallKnown, columns.1, columns.2.1] using known

/-- What a statement leaves of the shared state and of its call. -/
structure KeysAfter (before : StoreState)
    (result : StoreState × Outcome StorageCall StorageAnswer) : Prop where
  keys : StateKeys result.1
  follows : Follows before result.1
  next : ∀ call, result.2 = .next call → CallKnown result.1 call

theorem idle (keys : StateKeys state)
    (next : ∀ call, outcome = .next call → CallKnown state call) :
    KeysAfter state (state, outcome) :=
  ⟨keys, Follows.refl state, next⟩

theorem continueWith (keys : StateKeys state)
    {checked : Except StorageError StorageCall}
    (known : ∀ call, checked = .ok call → CallKnown state call) :
    KeysAfter state (state.continueWith checked) := by
  cases checked with
  | ok call =>
      apply keys.idle
      intro next same
      cases same
      exact known call rfl
  | error error => exact keys.idle nofun

theorem written (keys : StateKeys state) (tableKeys : TableKeys table)
    (inherits : Inherits state.table table)
    (next : ∀ call, outcome = .next call →
      CallKnown (state.withTable table) call) :
    KeysAfter state (state.withTable table, outcome) :=
  ⟨keys.withTable tableKeys inherits, Follows.of_inherits inherits, next⟩

theorem deleted (keys : StateKeys state) (selected : StorageFile → Bool)
    (next : ∀ call, outcome = .next call →
      CallKnown (state.withTable (state.table.deleteRows selected)) call) :
    KeysAfter state
      (state.withTable (state.table.deleteRows selected), outcome) :=
  keys.written (keys.toTableKeys.deleteRows selected)
    (Inherits.of_sublist (deleteRows_sublist _ _)) next

theorem inserted (keys : StateKeys state) {row : StorageFile}
    (known : Known state row.accountId row.parentId)
    (fresh : row.id ∉ state.issued)
    (accepted : state.table.insertRow row = some table)
    (next : ∀ call, outcome = .next call →
      CallKnown ⟨table, row.id :: state.issued⟩ call) :
    KeysAfter state (⟨table, row.id :: state.issued⟩, outcome) := by
  have parent : ParentKnown (row :: state.table) row.accountId
      row.parentId := by
    intro parent member child
    rcases List.mem_cons.mp member with rfl | member
    · exact absurd (known.issued parent.id child) fresh
    · exact known.parent parent member child
  have shape := (insertRow_some accepted).1
  have cases : ∀ other ∈ table, other ∈ state.table ∨ other = row := by
    intro other member
    rw [shape] at member
    simpa using member
  refine ⟨⟨keys.toTableKeys.insertRow parent accepted, ?_⟩, ⟨?_, ?_⟩, next⟩
  · intro other member
    rcases cases other member with old | rfl
    · exact List.mem_cons_of_mem _ (keys.issuedIds other old)
    · exact List.mem_cons_self
  · exact List.subset_cons_self _ _
  · intro other member issued
    rcases cases other member with old | rfl
    · exact ⟨other, old, rfl, rfl, rfl⟩
    · exact absurd issued fresh

theorem statement (keys : StateKeys state) (maxFileSize : Nat)
    (known : CallKnown state call)
    (fresh : ∀ row, call = .inserting row → row.id ∉ state.issued) :
    KeysAfter state (call.statement maxFileSize state) := by
  cases call with
  | creating spaceId request id now =>
      exact keys.continueWith fun _ ok => keys.startCreation ok
  | inserting row =>
      simp only [StorageCall.statement]
      split
      · exact keys.idle nofun
      · rename_i table accepted
        apply keys.inserted known (fresh row rfl) accepted
        intro call same
        cases same
        trivial
  | relocating spaceId fileId relocation now =>
      exact keys.continueWith fun _ ok => keys.startRelocation ok
  | resolving spaceId file name parentPath now =>
      exact keys.continueWith fun _ ok => keys.resolveRelocation known ok
  | placing spaceId file place now =>
      simp only [StorageCall.statement]
      split
      · exact keys.idle nofun
      · rename_i table accepted
        obtain ⟨tableKeys, inherits⟩ :=
          keys.toTableKeys.updateItem known.1.parent accepted
        apply keys.written tableKeys inherits
        intro call same
        cases same
        split
        · exact known.2.follows (Follows.of_inherits inherits)
        · trivial
  | rebasing spaceId file place now =>
      simp only [StorageCall.statement]
      split
      · apply keys.idle
        intro call same
        cases same
        exact known
      · rename_i table accepted
        obtain ⟨tableKeys, inherits⟩ :=
          keys.toTableKeys.updateDescendantPaths accepted
        apply keys.written tableKeys inherits
        intro call same
        cases same
        trivial
  | reverting spaceId file =>
      have reverted : TableKeys
            (revertParentUpdate state.table spaceId file) ∧
          Inherits state.table
            (revertParentUpdate state.table spaceId file) := by
        unfold revertParentUpdate
        cases accepted : state.table.updatePlace spaceId file.id
            ⟨file.name, file.path, file.parentId⟩ file.updatedAt with
        | none => exact ⟨keys.toTableKeys, Inherits.refl _⟩
        | some table =>
            apply keys.toTableKeys.updateItem _ accepted
            exact Known.parent known
      exact keys.written reverted.1 reverted.2 nofun
  | loading spaceId fileId => exact keys.idle nofun
  | deleting spaceId fileId =>
      simp only [StorageCall.statement]
      split
      · exact keys.idle nofun
      · apply keys.idle
        intro call same
        cases same
        split
        · trivial
        · trivial
  | listing | findingKey =>
      apply keys.idle
      intro call same
      cases same
      trivial
  | deletingUnder spaceId file deleted =>
      apply keys.deleted
      intro call same
      cases same
      trivial
  | deletingRow spaceId fileId deleted => exact keys.deleted _ nofun

end StateKeys

def keyAssertions : Assertions StoreState StorageCall StorageAnswer where
  shared := StateKeys
  call := CallKnown
  result _ _ := True

theorem keys_of_run {maxFileSize : Nat}
    {initial reached : Config StoreState StorageCall StorageAnswer}
    (run : Run (storageProgram maxFileSize) FreshIds initial reached)
    (keys : StateKeys initial.shared) (none : initial.calls = []) :
    keyAssertions.Hold reached := by
  apply keyAssertions.hold_of_run run
  · refine ⟨keys, ?_, fun _ _ => trivial⟩
    rw [none]
    nofun
  · rintro shared call (⟨_, _, _, _, rfl⟩ | ⟨_, _, _, _, rfl⟩ | ⟨_, _, rfl⟩)
    · trivial
    · trivial
    · trivial
  · intro shared call others keys known permitted
    have fresh : ∀ row, call = .inserting row → row.id ∉ shared.issued := by
      rintro row rfl
      exact permitted
    have after := keys.statement maxFileSize known fresh
    refine ⟨after.keys, ?_, fun other known => known.follows after.follows,
      fun _ _ => trivial⟩
    cases result : ((storageProgram maxFileSize).statement call shared).2 with
    | next rest => exact after.next rest result
    | done answer => trivial

end Takos.SpaceStorage
