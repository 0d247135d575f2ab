import Takos.Foundation.Interleaving
import Takos.SpaceStorage.StorageItems

/-!
# Calls on the stored files

Creating, renaming, moving and deleting items statement by statement.  Beside
the table, the state keeps the ids that rows have ever had.
-/

namespace Takos.SpaceStorage

open Takos.Foundation Takos.Foundation.Program

def MAX_CONTENT_SIZE : Nat := 50 * 1024 * 1024

def R2_KEY_PREFIX : Text := ['w', 's', '-', 's', 't', 'o', 'r', 'a', 'g', 'e']

def buildR2Key (spaceId fileId : Text) : Text :=
  R2_KEY_PREFIX ++ '/' :: (spaceId ++ '/' :: fileId)

/-- The size of a file with content is the length of the encoded text. -/
inductive CreateRequest where
  | createFolder (name : Text) (parentPath : Option Text)
  | createFileRecord (name : Text) (parentPath : Option Text) (size : Nat)
  | createFileWithContent (path : Text) (size : Nat)

def resolveStorageCreateContext (table : StorageTable) (spaceId name : Text)
    (parentPath : Option Text)
    (invalidNameMessage missingParentMessage : String) :
    Except StorageError Place := do
  let prepared ← prepareStorageChildPath name parentPath invalidNameMessage
  let context ← resolveStorageParentContext table spaceId prepared.parentPath
    missingParentMessage
  return ⟨name, prepared.fullPath, context.parentId⟩

/-- Everything that a call checks and reads before it inserts. -/
def createPlace (maxFileSize : Nat) (table : StorageTable) (spaceId : Text) :
    CreateRequest → Except StorageError Place
  | .createFolder name parentPath =>
    resolveStorageCreateContext table spaceId name parentPath
      "Invalid folder name" "Parent folder not found"
  | .createFileRecord name parentPath size =>
    if size > maxFileSize then
      .error ⟨"File size exceeds maximum of " ++
        toString (maxFileSize / 1024 / 1024) ++ "MB", .tooLarge⟩
    else
      resolveStorageCreateContext table spaceId name parentPath
        "Invalid file name" "Parent folder not found"
  | .createFileWithContent path size => do
    let parsed ← parseStorageFilePath path
    let context ← resolveStorageParentContext table spaceId parsed.parentPath
      "Parent folder not found"
    if size > MAX_CONTENT_SIZE then
      .error ⟨"Content too large (" ++ toString size ++ " bytes, max " ++
        toString MAX_CONTENT_SIZE ++ ")", .tooLarge⟩
    else return ⟨parsed.fileName, parsed.normalizedPath, context.parentId⟩

/-- The row that a call inserts. -/
def CreateRequest.row (spaceId id : Text) (now : Nat) (place : Place) :
    CreateRequest → StorageFile
  | .createFolder _ _ =>
    ⟨id, spaceId, place.parentId, place.name, place.path, .folder, 0, none,
      now, now⟩
  | .createFileRecord _ _ size | .createFileWithContent _ size =>
    ⟨id, spaceId, place.parentId, place.name, place.path, .file, size,
      some (buildR2Key spaceId id), now, now⟩

inductive StorageCall where
  | creating (spaceId : Text) (request : CreateRequest) (id : Text) (now : Nat)
  | inserting (row : StorageFile)
  | relocating (spaceId fileId : Text) (relocation : Relocation) (now : Nat)
  | resolving (spaceId : Text) (file : StorageFile) (name parentPath : Text)
      (now : Nat)
  | placing (spaceId : Text) (file : StorageFile) (place : Place) (now : Nat)
  | rebasing (spaceId : Text) (file : StorageFile) (place : Place) (now : Nat)
  | reverting (spaceId : Text) (file : StorageFile)
  | loading (spaceId fileId : Text)
  | deleting (spaceId fileId : Text)
  | listing (spaceId : Text) (file : StorageFile)
  | findingKey (spaceId fileId : Text)
  | deletingUnder (spaceId : Text) (file : StorageFile) (keys : List Text)
  | deletingRow (spaceId fileId : Text) (keys : List Text)

inductive StorageAnswer where
  | item (result : Except StorageFailure StorageFile)
  | keys (result : Except StorageError (List Text))

structure StoreState where
  table : StorageTable
  issued : List Text

namespace StoreState

def withTable (state : StoreState) (table : StorageTable) : StoreState :=
  { state with table := table }

/-- Goes on with a call, or answers with the error of its checks. -/
def continueWith (state : StoreState) :
    Except StorageError StorageCall →
      StoreState × Outcome StorageCall StorageAnswer
  | .ok call => (state, .next call)
  | .error error => (state, .done (.item (.error (.storage error))))

end StoreState

/-- The first read of a rename or a move. -/
def startRelocation (table : StorageTable) (spaceId fileId : Text)
    (now : Nat) : Relocation → Except StorageError StorageCall
  | .rename name => do
    let name ← ensureValidStorageName name "Invalid name"
    let file ← requireStorageItemResponse table spaceId fileId
    let place ← renamePlace file name
    return .placing spaceId file place now
  | .move parentPath => do
    let file ← requireStorageItemResponse table spaceId fileId
    return .resolving spaceId file file.name parentPath now
  | .moveAndRename parentPath name => do
    let file ← requireStorageItemResponse table spaceId fileId
    let name ← ensureValidStorageName name "Invalid name"
    return .resolving spaceId file name parentPath now

/-- The second read of a move. -/
def resolveRelocation (table : StorageTable) (spaceId : Text)
    (file : StorageFile) (name parentPath : Text) (now : Nat) :
    Except StorageError StorageCall := do
  let context ← resolveStorageParentContext table spaceId parentPath
    "Destination folder not found"
  let place ← movePlace file name context
  return .placing spaceId file place now

def startCreation (maxFileSize : Nat) (table : StorageTable) (spaceId : Text)
    (request : CreateRequest) (id : Text) (now : Nat) :
    Except StorageError StorageCall := do
  let place ← createPlace maxFileSize table spaceId request
  return .inserting (request.row spaceId id now place)

def StorageCall.statement (maxFileSize : Nat) (call : StorageCall)
    (state : StoreState) : StoreState × Outcome StorageCall StorageAnswer :=
  match call with
  | .creating spaceId request id now =>
    state.continueWith
      (startCreation maxFileSize state.table spaceId request id now)
  | .inserting row =>
    match state.table.insertRow row with
    | none => (state, .done (.item (.error conflict)))
    | some table =>
      (⟨table, row.id :: state.issued⟩, .next (.loading row.accountId row.id))
  | .relocating spaceId fileId relocation now =>
    state.continueWith
      (startRelocation state.table spaceId fileId now relocation)
  | .resolving spaceId file name parentPath now =>
    state.continueWith
      (resolveRelocation state.table spaceId file name parentPath now)
  | .placing spaceId file place now =>
    match state.table.updatePlace spaceId file.id place now with
    | none => (state, .done (.item (.error conflict)))
    | some table =>
      (state.withTable table,
        .next (if file.type = .folder then .rebasing spaceId file place now
          else .loading spaceId file.id))
  | .rebasing spaceId file place now =>
    match state.table.updateDescendantPaths spaceId file.path place.path
        now with
    | none => (state, .next (.reverting spaceId file))
    | some table => (state.withTable table, .next (.loading spaceId file.id))
  | .reverting spaceId file =>
    (state.withTable (revertParentUpdate state.table spaceId file),
      .done (.item (.error .constraint)))
  | .loading spaceId fileId =>
    (state, .done (.item (loadStorageItemResponse state.table spaceId fileId)))
  | .deleting spaceId fileId =>
    match requireStorageItemResponse state.table spaceId fileId with
    | .error error => (state, .done (.keys (.error error)))
    | .ok file =>
      (state, .next (if file.type = .folder then .listing spaceId file
        else .findingKey spaceId fileId))
  | .listing spaceId file =>
    (state, .next (.deletingUnder spaceId file
      (state.table.listDescendantFileR2Keys spaceId file.path)))
  | .findingKey spaceId fileId =>
    (state, .next (.deletingRow spaceId fileId
      ((state.table.findStorageFileR2KeyById spaceId fileId).toList.filter
        (· ≠ []))))
  | .deletingUnder spaceId file keys =>
    (state.withTable
        (state.table.deleteStorageRowsByDescendantPath spaceId file.path),
      .next (.deletingRow spaceId file.id keys))
  | .deletingRow spaceId fileId keys =>
    (state.withTable (state.table.deleteRow spaceId fileId),
      .done (.keys (.ok keys)))

def storageProgram (maxFileSize : Nat) :
    Program StoreState StorageCall StorageAnswer where
  starts call :=
    (∃ spaceId request id now, call = .creating spaceId request id now) ∨
    (∃ spaceId fileId relocation now,
      call = .relocating spaceId fileId relocation now) ∨
    ∃ spaceId fileId, call = .deleting spaceId fileId
  statement := StorageCall.statement maxFileSize

end Takos.SpaceStorage

/-!
# Uploads and their cleanup

The calls that store the content of files, statement by statement, and the
cleanup that deletes the records of uploads that were never completed.  A record
counts as completed when its content is stored by the call that creates or
overwrites it, or when its upload is stored or confirmed.
-/

namespace Takos.SpaceStorage

open Takos.Foundation Takos.Foundation.Program

def CLEANUP_BATCH_SIZE : Nat := 500

structure Orphan where
  id : Text
  r2Key : Option Text

/-- `cleaned` and `batch` count what a cleanup has deleted and is deleting. -/
inductive UploadCall where
  | tree (call : StorageCall)
  | storing (spaceId path : Text) (size : Nat) (id : Text) (now : Nat)
  | puttingNew (row : StorageFile)
  | insertingNew (row : StorageFile)
  | removingNew (row : StorageFile)
  | uploading (spaceId fileId : Text) (size declaredSize now : Nat)
  | writing (spaceId fileId : Text) (size now : Nat)
  | confirming (spaceId fileId : Text) (now : Nat)
  | putting (key spaceId fileId : Text) (size now : Nat)
  | heading (key spaceId fileId : Text) (now : Nat)
  | updating (spaceId fileId : Text) (size now : Nat)
  | selecting (spaceId : Text) (maxAge now cleaned : Nat)
  | deletingOrphans (spaceId : Text) (maxAge now cleaned : Nat)
      (batch left : List Orphan)
  | deletingObjects (spaceId : Text) (maxAge now cleaned : Nat)
      (batch : List Orphan)

/-- `unknown` answers the confirmation of a file that is not there. -/
inductive UploadAnswer where
  | tree (answer : StorageAnswer)
  | failed (error : StorageError)
  | unknown
  | cleaned (count : Nat)

/-- `objects` holds the sizes of the stored objects. -/
structure UploadState where
  store : StoreState
  objects : List (Text × Nat)
  completed : List Text

namespace UploadState

def withStore (state : UploadState) (store : StoreState) : UploadState :=
  { state with store := store }

def removeObjects (state : UploadState) (keys : List Text) : UploadState :=
  { state with
    objects := state.objects.filter fun object => !keys.contains object.1 }

def putObject (state : UploadState) (key : Text) (size : Nat) : UploadState :=
  { state with
    objects := (key, size) :: (state.removeObjects [key]).objects }

def headObject (state : UploadState) (key : Text) : Option Nat :=
  (state.objects.find? fun object => object.1 = key).map Prod.snd

end UploadState

namespace StorageTable

def findFileRow (table : StorageTable) (spaceId fileId : Text) :
    Option StorageFile :=
  table.find? fun row => row.isItem spaceId fileId && row.type = .file

/-- The object key of a file, absent when it is missing or empty. -/
def requireStorageFileRowById (table : StorageTable)
    (spaceId fileId : Text) : Except StorageError Text :=
  match table.findFileRow spaceId fileId with
  | none => .error ⟨"File not found", .notFound⟩
  | some row =>
    match row.r2Key with
    | none | some [] => .error ⟨"File has no storage key", .storageError⟩
    | some key => .ok key

def updateStoredFileMetadata (table : StorageTable) (spaceId fileId : Text)
    (size now : Nat) : StorageTable :=
  table.map fun row =>
    if row.isItem spaceId fileId then
      { row with size := size, updatedAt := now }
    else row

/-- Files of size zero that are older than `maxAge` and were not updated. -/
def isOrphan (spaceId : Text) (maxAge now : Nat) (row : StorageFile) : Bool :=
  row.accountId = spaceId && row.type = .file && row.size = 0 &&
    decide (row.createdAt + maxAge < now) && row.createdAt = row.updatedAt

def selectOrphans (table : StorageTable) (spaceId : Text)
    (maxAge now : Nat) : List Orphan :=
  ((table.filter (isOrphan spaceId maxAge now)).take CLEANUP_BATCH_SIZE).map
    fun row => ⟨row.id, row.r2Key⟩

end StorageTable

/-- The checks of an upload before it is stored. -/
def checkUpload (maxFileSize size declaredSize : Nat) :
    Except StorageError Unit :=
  if size ≤ 0 then .error ⟨"Uploaded content is empty", .validation⟩
  else if size > maxFileSize then
    .error ⟨"File size exceeds maximum of " ++
      toString (maxFileSize / 1024 / 1024) ++ "MB", .tooLarge⟩
  else if declaredSize > 0 ∧ size ≠ declaredSize then
    .error ⟨"Upload size mismatch: declared " ++ toString declaredSize ++
      " bytes but received " ++ toString size ++ " bytes", .validation⟩
  else .ok ()

/-- The check of an overwrite. -/
def checkContent (size : Nat) : Except StorageError Unit :=
  if size > MAX_CONTENT_SIZE then
    .error ⟨"Content too large (" ++ toString size ++ " bytes, max " ++
      toString MAX_CONTENT_SIZE ++ ")", .tooLarge⟩
  else .ok ()

def startUpload (maxFileSize : Nat) (table : StorageTable)
    (spaceId fileId : Text) (size declaredSize now : Nat) :
    Except StorageError UploadCall := do
  let key ← table.requireStorageFileRowById spaceId fileId
  checkUpload maxFileSize size declaredSize
  return .putting key spaceId fileId size now

def startWrite (table : StorageTable) (spaceId fileId : Text)
    (size now : Nat) : Except StorageError UploadCall := do
  let key ← table.requireStorageFileRowById spaceId fileId
  checkContent size
  return .putting key spaceId fileId size now

def startStoring (maxFileSize : Nat) (table : StorageTable)
    (spaceId path : Text) (size : Nat) (id : Text) (now : Nat) :
    Except StorageError UploadCall := do
  let request := CreateRequest.createFileWithContent path size
  let place ← createPlace maxFileSize table spaceId request
  return .puttingNew (request.row spaceId id now place)

def UploadState.continueWith (state : UploadState) :
    Except StorageError UploadCall →
      UploadState × Outcome UploadCall UploadAnswer
  | .ok call => (state, .next call)
  | .error error => (state, .done (.failed error))

def UploadCall.statement (maxFileSize : Nat) (call : UploadCall)
    (state : UploadState) : UploadState × Outcome UploadCall UploadAnswer :=
  match call with
  | .tree call =>
    let (store, outcome) := call.statement maxFileSize state.store
    (state.withStore store, outcome.map .tree .tree)
  | .storing spaceId path size id now =>
    state.continueWith
      (startStoring maxFileSize state.store.table spaceId path size id now)
  | .puttingNew row =>
    (state.putObject (row.r2Key.getD []) row.size, .next (.insertingNew row))
  | .insertingNew row =>
    match state.store.table.insertRow row with
    | none => (state, .next (.removingNew row))
    | some table =>
      ({ state with
          store := ⟨table, row.id :: state.store.issued⟩,
          completed := row.id :: state.completed },
        .next (.tree (.loading row.accountId row.id)))
  | .removingNew row =>
    (state.removeObjects row.r2Key.toList,
      .done (.tree (.item (.error conflict))))
  | .uploading spaceId fileId size declaredSize now =>
    state.continueWith (startUpload maxFileSize state.store.table spaceId
      fileId size declaredSize now)
  | .writing spaceId fileId size now =>
    state.continueWith
      (startWrite state.store.table spaceId fileId size now)
  | .confirming spaceId fileId now =>
    match (state.store.table.findFileRow spaceId fileId).bind
        StorageFile.r2Key with
    | none | some [] => (state, .done .unknown)
    | some key => (state, .next (.heading key spaceId fileId now))
  | .putting key spaceId fileId size now =>
    (state.putObject key size, .next (.updating spaceId fileId size now))
  | .heading key spaceId fileId now =>
    match state.headObject key with
    | none =>
      (state, .done (.failed
        ⟨"File content not uploaded to storage", .storageError⟩))
    | some size => (state, .next (.updating spaceId fileId size now))
  | .updating spaceId fileId size now =>
    ({ state with
        store := state.store.withTable
          (state.store.table.updateStoredFileMetadata spaceId fileId size now),
        completed := if state.store.table.any (·.isItem spaceId fileId) then
            fileId :: state.completed
          else state.completed },
      .next (.tree (.loading spaceId fileId)))
  | .selecting spaceId maxAge now cleaned =>
    match state.store.table.selectOrphans spaceId maxAge now with
    | [] => (state, .done (.cleaned cleaned))
    | orphan :: rest =>
      (state, .next (.deletingOrphans spaceId maxAge now cleaned
        (orphan :: rest) (orphan :: rest)))
  | .deletingOrphans spaceId maxAge now cleaned batch left =>
    match left with
    | [] => (state, .next (.deletingObjects spaceId maxAge now cleaned batch))
    | orphan :: rest =>
      (state.withStore (state.store.withTable
          (state.store.table.deleteRow spaceId orphan.id)),
        .next (.deletingOrphans spaceId maxAge now cleaned batch rest))
  | .deletingObjects spaceId maxAge now cleaned batch =>
    (state.removeObjects (batch.filterMap Orphan.r2Key),
      if batch.length < CLEANUP_BATCH_SIZE then
        .done (.cleaned (cleaned + batch.length))
      else .next (.selecting spaceId maxAge now (cleaned + batch.length)))

/-- The calls that begin; a file with content is stored by `storing`. -/
inductive UploadStart : UploadCall → Prop where
  | createFolder (spaceId name : Text) (parentPath : Option Text) (id : Text)
      (now : Nat) :
      UploadStart (.tree
        (.creating spaceId (.createFolder name parentPath) id now))
  | createFileRecord (spaceId name : Text) (parentPath : Option Text)
      (size : Nat) (id : Text) (now : Nat) :
      UploadStart (.tree
        (.creating spaceId (.createFileRecord name parentPath size) id now))
  | relocate (spaceId fileId : Text) (relocation : Relocation) (now : Nat) :
      UploadStart (.tree (.relocating spaceId fileId relocation now))
  | delete (spaceId fileId : Text) :
      UploadStart (.tree (.deleting spaceId fileId))
  | createFileWithContent (spaceId path : Text) (size : Nat) (id : Text)
      (now : Nat) : UploadStart (.storing spaceId path size id now)
  | uploadPendingFileContent (spaceId fileId : Text)
      (size declaredSize now : Nat) :
      UploadStart (.uploading spaceId fileId size declaredSize now)
  | writeFileContent (spaceId fileId : Text) (size now : Nat) :
      UploadStart (.writing spaceId fileId size now)
  | confirmUpload (spaceId fileId : Text) (now : Nat) :
      UploadStart (.confirming spaceId fileId now)
  | cleanupOrphanedUploads (spaceId : Text) (maxAge now : Nat) :
      UploadStart (.selecting spaceId maxAge now 0)

def uploadProgram (maxFileSize : Nat) :
    Program UploadState UploadCall UploadAnswer where
  starts := UploadStart
  statement := UploadCall.statement maxFileSize

end Takos.SpaceStorage
