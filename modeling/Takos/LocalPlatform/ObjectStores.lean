import Takos.Foundation.Base64
import Takos.Foundation.Collation
import Takos.Foundation.Decimals
import Takos.Foundation.OffsetPages
import Takos.Foundation.OrderedMap

/-!
# Local object stores

The object store in memory keeps two maps.  The file-backed store keeps plain
objects, in a cache that every operation fills from its file and every change
writes back, with contents in Base64.  Keys and upload ids are those that name
no inherited property of a plain object.
-/

namespace Takos.LocalPlatform

open Takos.Foundation

abbrev Bytes := List UInt8

abbrev Metadata := OrderedMap Text Text

def objectPrototypeNames : List Text :=
  ["constructor", "__defineGetter__", "__defineSetter__", "hasOwnProperty",
    "__lookupGetter__", "__lookupSetter__", "isPrototypeOf",
    "propertyIsEnumerable", "toString", "valueOf", "__proto__",
    "toLocaleString"].map String.toList

abbrev PropertyName := { text : Text // text ∉ objectPrototypeNames }

instance : LawfulBEq PropertyName := inferInstance

inductive BodyValue where
  | null
  | text (value : Text)
  | bytes (value : Bytes)

def BodyValue.toBuffer : BodyValue → Bytes
  | .null => []
  | .text value => Utf8.encode value
  | .bytes value => value

structure ByteRange where
  offset : Option Int
  length : Option Int
  suffix : Option Int

structure PutOptions where
  customMetadata : Option Metadata
  httpMetadata : Option Metadata
  storageClass : Option Text

/-- No local store reads the delimiter. -/
structure ListOptions where
  keyPrefix : Option Text
  limit : Option Int
  cursor : Option Text
  delimiter : Option Text

structure UploadedPart where
  partNumber : Int
  etag : Text

/-- A multipart upload is resumed by key and id; the methods of its handle carry
both.  The id of a new upload is drawn with it. -/
inductive Operation where
  | head (key : PropertyName)
  | get (key : PropertyName) (range : Option ByteRange)
  | put (key : PropertyName) (value : BodyValue) (options : PutOptions)
  | delete (keys : List PropertyName)
  | list (options : ListOptions)
  | createMultipartUpload (key : PropertyName) (options : PutOptions)
      (uploadId : PropertyName)
  | resumeMultipartUpload (key uploadId : PropertyName)
  | uploadPart (key uploadId : PropertyName) (partNumber : Int)
      (value : BodyValue)
  | abort (key uploadId : PropertyName)
  | complete (key uploadId : PropertyName) (uploadedParts : List UploadedPart)

/-- `ObjectStoreObjectBody`; `uploaded` is a reading of the clock. -/
structure ObjectView where
  key : PropertyName
  bytes : Bytes
  size : Nat
  etag : Text
  uploaded : Nat
  customMetadata : Metadata
  httpMetadata : Metadata
  storageClass : Text

inductive StoreAnswer (View : Type) where
  | missing
  | object (view : View)
  | done
  | listing (objects : List View) (truncated : Bool) (cursor : Option Text)
      (delimitedPrefixes : List Text)
  | upload (uploadId : PropertyName)
  | part (partNumber : Int) (etag : Text)
  | error (text : Text)

/-- The range of a `get`; a suffix of zero counts as none. -/
def readRange (bytes : Bytes) (range : ByteRange) : Bytes :=
  let size : Int := bytes.length
  let offset :=
    match range.suffix with
    | some suffix =>
      if suffix ≠ 0 then max 0 (size - suffix) else range.offset.getD 0
    | none => range.offset.getD 0
  let stop :=
    match range.length with
    | some length => min size (offset + length)
    | none => size
  slice bytes offset stop

/-- `Number.parseInt(options.cursor, 10) || 0`. -/
def ListOptions.offset (options : ListOptions) : Int :=
  match options.cursor with
  | none | some [] => 0
  | some cursor => (parseInt cursor).getD 0

def ListOptions.page {Key : Type} (options : ListOptions) (keys : List Key) :
    List Key :=
  slice keys options.offset (options.offset + options.limit.getD 1000)

def ListOptions.nextOffset {Key : Type} (options : ListOptions)
    (keys : List Key) : Int :=
  options.offset + (options.page keys).length

def ListOptions.selects (options : ListOptions) (key : PropertyName) : Bool :=
  Text.startsWith key.val (options.keyPrefix.getD [])

/-- The answer of a `list` with these objects on its page. -/
def ListOptions.listing {Key View : Type} (options : ListOptions)
    (keys : List Key) (objects : List View) : StoreAnswer View :=
  let nextOffset := options.nextOffset keys
  .listing objects (nextOffset < keys.length)
    (if nextOffset < keys.length then some (decimal nextOffset) else none) []

def quoted (text : Text) : Text := '"' :: text ++ ['"']

variable (sha256 : Bytes → Text)

def toPartEtag (bytes : Bytes) : Text := quoted (sha256 bytes)

def notActive (uploadId : PropertyName) : Text :=
  "Multipart upload ".toList ++ uploadId.val ++ " is not active".toList

def otherKey (uploadId : PropertyName) : Text :=
  "Multipart upload ".toList ++ uploadId.val ++
    " belongs to a different key".toList

/-- The loop of `toUploadedBytes` over the parts in order; `find` reads a stored
part and its etag. -/
def joinParts (find : Int → Option (Bytes × Text)) :
    List Int → List UploadedPart → Except Text Bytes
  | _, [] => .ok []
  | seen, part :: rest =>
    let named := decimal part.partNumber
    if part.partNumber ∈ seen then
      .error ("Multipart upload has duplicate part ".toList ++ named)
    else
      match find part.partNumber with
      | none => .error ("Multipart upload is missing part ".toList ++ named)
      | some (bytes, etag) =>
        if etag ≠ part.etag then
          .error ("Multipart upload part ".toList ++ named ++
            " etag mismatch".toList)
        else
          match joinParts find (part.partNumber :: seen) rest with
          | .ok more => .ok (bytes ++ more)
          | .error text => .error text

def toUploadedBytes (find : Int → Option (Bytes × Text))
    (parts : List UploadedPart) : Except Text Bytes :=
  joinParts find []
    (parts.insertionSort fun left right => left.partNumber ≤ right.partNumber)

structure StoredObject where
  bytes : Bytes
  customMetadata : Metadata
  httpMetadata : Metadata
  storageClass : Text

structure MultipartUpload where
  key : PropertyName
  customMetadata : Metadata
  httpMetadata : Metadata
  storageClass : Text
  parts : OrderedMap Int (Bytes × Text)

structure MemoryStore where
  objects : OrderedMap PropertyName StoredObject
  multipartUploads : OrderedMap PropertyName MultipartUpload

namespace MemoryStore

def createObjectStoreObject (now : Nat) (key : PropertyName)
    (record : StoredObject) : ObjectView where
  key := key
  bytes := record.bytes
  size := record.bytes.length
  etag := quoted (key.val ++ '-' :: Nat.toDigits 10 record.bytes.length)
  uploaded := now
  customMetadata := record.customMetadata
  httpMetadata := record.httpMetadata
  storageClass := record.storageClass

variable (now : Nat) (store : MemoryStore)

def head (key : PropertyName) : Option ObjectView :=
  (store.objects.get? key).map (createObjectStoreObject now key)

def put (key : PropertyName) (record : StoredObject) :
    MemoryStore × StoreAnswer ObjectView :=
  let store := { store with objects := store.objects.set key record }
  match store.head now key with
  | some view => (store, .object view)
  | none =>
    (store, .error
      ("in-memory object store head returned null right after put for key=".toList
        ++ key.val))

def requireMultipartUpload (uploadId key : PropertyName) :
    Except Text MultipartUpload :=
  match store.multipartUploads.get? uploadId with
  | none => .error (notActive uploadId)
  | some upload =>
    if upload.key ≠ key then .error (otherKey uploadId) else .ok upload

/-- The keys of a `list`, in the order of their code units. -/
def listed (options : ListOptions) : List PropertyName :=
  (store.objects.keys.filter options.selects).insertionSort
    fun left right => Text.lt right.val left.val = false

def list (options : ListOptions) : StoreAnswer ObjectView :=
  let keys := store.listed options
  let page := options.page keys
  match page.find? fun key => (store.head now key).isNone with
  | some key =>
    .error ("in-memory object store head returned null for listed key=".toList
      ++ key.val)
  | none => options.listing keys (page.filterMap (store.head now))

def step : Operation → MemoryStore × StoreAnswer ObjectView
  | .head key =>
    match store.head now key with
    | none => (store, .missing)
    | some view => (store, .object view)
  | .get key range =>
    match store.objects.get? key with
    | none => (store, .missing)
    | some record =>
      let bytes :=
        match range with
        | some range => readRange record.bytes range
        | none => record.bytes
      (store, .object
        (createObjectStoreObject now key { record with bytes := bytes }))
  | .put key value options =>
    store.put now key
      { bytes := value.toBuffer
        customMetadata := options.customMetadata.getD .empty
        httpMetadata := options.httpMetadata.getD .empty
        storageClass := options.storageClass.getD "Standard".toList }
  | .delete keys =>
    ({ store with objects := keys.foldl OrderedMap.delete store.objects }, .done)
  | .list options => (store, store.list now options)
  | .createMultipartUpload key options uploadId =>
    ({ store with
        multipartUploads := store.multipartUploads.set uploadId
          { key := key
            customMetadata := options.customMetadata.getD .empty
            httpMetadata := options.httpMetadata.getD .empty
            storageClass := options.storageClass.getD "Standard".toList
            parts := .empty } },
      .upload uploadId)
  | .resumeMultipartUpload key uploadId =>
    match store.requireMultipartUpload uploadId key with
    | .error text => (store, .error text)
    | .ok _ => (store, .upload uploadId)
  | .uploadPart key uploadId partNumber value =>
    let bytes := value.toBuffer
    let etag := toPartEtag sha256 bytes
    match store.requireMultipartUpload uploadId key with
    | .error text => (store, .error text)
    | .ok upload =>
      ({ store with
          multipartUploads := store.multipartUploads.set uploadId
            { upload with parts := upload.parts.set partNumber (bytes, etag) } },
        .part partNumber etag)
  | .abort key uploadId =>
    match store.requireMultipartUpload uploadId key with
    | .error text => (store, .error text)
    | .ok _ =>
      ({ store with
          multipartUploads := store.multipartUploads.delete uploadId },
        .done)
  | .complete key uploadId uploadedParts =>
    match store.requireMultipartUpload uploadId key with
    | .error text => (store, .error text)
    | .ok upload =>
      match toUploadedBytes upload.parts.get? uploadedParts with
      | .error text => (store, .error text)
      | .ok bytes =>
        let store :=
          { store with
            multipartUploads := store.multipartUploads.delete uploadId }
        store.put now key
          { bytes := bytes
            customMetadata := upload.customMetadata
            httpMetadata := upload.httpMetadata
            storageClass := upload.storageClass }

end MemoryStore

structure BucketRecord where
  key : PropertyName
  bodyBase64 : Text
  uploadedAt : Nat
  customMetadata : Metadata
  httpMetadata : Metadata
  storageClass : Text

structure MultipartPartRecord where
  bodyBase64 : Text
  etag : Text

/-- The parts are properties named by their numbers. -/
structure MultipartUploadRecord where
  key : PropertyName
  customMetadata : Metadata
  httpMetadata : Metadata
  storageClass : Text
  parts : OrderedMap Text MultipartPartRecord

structure BucketState where
  objects : OrderedMap PropertyName BucketRecord
  uploads : OrderedMap PropertyName MultipartUploadRecord

/-- The value of a property name that is an array index. -/
def arrayIndex (name : Text) : Option Nat :=
  let value := Nat.ofDigitChars 10 name 0
  if name = Nat.toDigits 10 value ∧ value < 2 ^ 32 - 1 then some value else none

/-- The order of `Object.keys`: array indices by their values, then the others
as they were added. -/
def propertyOrder (names : List PropertyName) : List PropertyName :=
  (names.filter fun name => (arrayIndex name.val).isSome).insertionSort
      (fun left right =>
        (arrayIndex left.val).getD 0 ≤ (arrayIndex right.val).getD 0) ++
    names.filter fun name => (arrayIndex name.val).isNone

/-- The file, which is empty before the first write, and the cache. -/
structure FileStore where
  file : BucketState
  cache : Option BucketState

namespace FileStore

def hashKey (key : PropertyName) : Text := sha256 (Utf8.encode key.val)

def createObjectStoreObject (record : BucketRecord) (bytes : Bytes) :
    ObjectView where
  key := record.key
  bytes := bytes
  size := bytes.length
  etag :=
    quoted (hashKey sha256 record.key ++ '-' :: Nat.toDigits 10 bytes.length)
  uploaded := record.uploadedAt
  customMetadata := record.customMetadata
  httpMetadata := record.httpMetadata
  storageClass := record.storageClass

def loadState (store : FileStore) : BucketState := store.cache.getD store.file

def loaded (store : FileStore) : FileStore :=
  { store with cache := some store.loadState }

/-- The store after `flushState`. -/
def flushed (state : BucketState) : FileStore := ⟨state, some state⟩

variable (now : Nat)

def head (state : BucketState) (key : PropertyName) : Option ObjectView :=
  (state.objects.get? key).map fun record =>
    createObjectStoreObject sha256 record (Base64.decode record.bodyBase64)

def putObject (state : BucketState) (key : PropertyName) (bytes : Bytes)
    (customMetadata httpMetadata : Metadata) (storageClass : Text) :
    FileStore × StoreAnswer ObjectView :=
  let state :=
    { state with
      objects := state.objects.set key
        { key := key
          bodyBase64 := Base64.encode bytes
          uploadedAt := now
          customMetadata := customMetadata
          httpMetadata := httpMetadata
          storageClass := storageClass } }
  match head sha256 state key with
  | some view => (flushed state, .object view)
  | none =>
    (flushed state, .error
      ("persistent object store head returned null right after put for key=".toList
        ++ key.val))

def requireMultipartUpload (state : BucketState) (uploadId key : PropertyName) :
    Except Text MultipartUploadRecord :=
  match state.uploads.get? uploadId with
  | none => .error (notActive uploadId)
  | some upload =>
    if upload.key ≠ key then .error (otherKey uploadId) else .ok upload

def storedPart (upload : MultipartUploadRecord) (partNumber : Int) :
    Option (Bytes × Text) :=
  (upload.parts.get? (decimal partNumber)).map fun part =>
    (Base64.decode part.bodyBase64, part.etag)

variable (collation : Collation)

/-- The keys of a `list`, in the order of the locale. -/
def listed (state : BucketState) (options : ListOptions) : List PropertyName :=
  collation.sortBy Subtype.val
    ((propertyOrder state.objects.keys).filter options.selects)

def list (state : BucketState) (options : ListOptions) : StoreAnswer ObjectView :=
  let keys := listed collation state options
  let page := options.page keys
  match page.find? fun key => (head sha256 state key).isNone with
  | some key =>
    .error ("persistent object store head returned null for listed key=".toList
      ++ key.val)
  | none => options.listing keys (page.filterMap (head sha256 state))

def step (store : FileStore) : Operation → FileStore × StoreAnswer ObjectView
  | .head key =>
    match head sha256 store.loadState key with
    | none => (store.loaded, .missing)
    | some view => (store.loaded, .object view)
  | .get key range =>
    match store.loadState.objects.get? key with
    | none => (store.loaded, .missing)
    | some record =>
      let bytes := Base64.decode record.bodyBase64
      let bytes :=
        match range with
        | some range => readRange bytes range
        | none => bytes
      (store.loaded, .object (createObjectStoreObject sha256 record bytes))
  | .put key value options =>
    putObject sha256 now store.loadState key value.toBuffer
      (options.customMetadata.getD .empty) (options.httpMetadata.getD .empty)
      (options.storageClass.getD "Standard".toList)
  | .delete keys =>
    let state := store.loadState
    (flushed
      { state with objects := keys.foldl OrderedMap.delete state.objects },
      .done)
  | .list options =>
    (store.loaded, list sha256 collation store.loadState options)
  | .createMultipartUpload key options uploadId =>
    let state := store.loadState
    (flushed
      { state with
        uploads := state.uploads.set uploadId
          { key := key
            customMetadata := options.customMetadata.getD .empty
            httpMetadata := options.httpMetadata.getD .empty
            storageClass := options.storageClass.getD "Standard".toList
            parts := .empty } },
      .upload uploadId)
  | .resumeMultipartUpload key uploadId =>
    -- the file is not read here
    match store.cache with
    | none => (store, .upload uploadId)
    | some state =>
      match requireMultipartUpload state uploadId key with
      | .error text => (store, .error text)
      | .ok _ => (store, .upload uploadId)
  | .uploadPart key uploadId partNumber value =>
    let state := store.loadState
    let bytes := value.toBuffer
    match requireMultipartUpload state uploadId key with
    | .error text => (store.loaded, .error text)
    | .ok upload =>
      let etag := toPartEtag sha256 bytes
      (flushed
        { state with
          uploads := state.uploads.set uploadId
            { upload with
              parts := upload.parts.set (decimal partNumber)
                ⟨Base64.encode bytes, etag⟩ } },
        .part partNumber etag)
  | .abort key uploadId =>
    let state := store.loadState
    match requireMultipartUpload state uploadId key with
    | .error text => (store.loaded, .error text)
    | .ok _ =>
      (flushed { state with uploads := state.uploads.delete uploadId }, .done)
  | .complete key uploadId uploadedParts =>
    let state := store.loadState
    match requireMultipartUpload state uploadId key with
    | .error text => (store.loaded, .error text)
    | .ok upload =>
      match toUploadedBytes (storedPart upload) uploadedParts with
      | .error text => (store.loaded, .error text)
      | .ok bytes =>
        putObject sha256 now
          { state with uploads := state.uploads.delete uploadId } key bytes
          upload.customMetadata upload.httpMetadata upload.storageClass

end FileStore

/-- A store, and how it answers an operation at a reading of the clock. -/
structure ObjectStore where
  State : Type
  initial : State
  step : Nat → Operation → State → State × StoreAnswer ObjectView

def createInMemoryObjectStore : ObjectStore where
  State := MemoryStore
  initial := ⟨.empty, .empty⟩
  step now operation store := store.step sha256 now operation

def createPersistentObjectStore (collation : Collation) : ObjectStore where
  State := FileStore
  initial := ⟨⟨.empty, .empty⟩, none⟩
  step now operation store := store.step sha256 now collation operation

namespace ObjectStore

variable (store : ObjectStore)

def after : List (Nat × Operation) → store.State → store.State
  | [], state => state
  | (now, operation) :: rest, state =>
    after rest (store.step now operation state).1

def answers : List (Nat × Operation) → store.State → List (StoreAnswer ObjectView)
  | [], _ => []
  | (now, operation) :: rest, state =>
    (store.step now operation state).2 ::
      answers rest (store.step now operation state).1

end ObjectStore

end Takos.LocalPlatform
