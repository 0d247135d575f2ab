import Takos.LocalPlatform.ObjectStores
import Mathlib.Logic.Function.Basic

/-!
# Object stores as maps

Both local stores answer like one map from keys to objects and one map from ids
to uploads.  They differ in the order of their listings, in the etags of
objects and in the times that they show, and the file-backed store checks a
resumed upload only once it has read its file.
-/

namespace Takos.LocalPlatform

open Takos.Foundation

structure Upload where
  key : PropertyName
  customMetadata : Metadata
  httpMetadata : Metadata
  storageClass : Text
  parts : Int → Option (Bytes × Text)

structure ObjectMap where
  objects : PropertyName → Option StoredObject
  uploads : PropertyName → Option Upload

/-- What an answer shows of an object, apart from its etag and its time. -/
structure Seen where
  key : PropertyName
  object : StoredObject
  size : Nat

def StoredObject.seen (key : PropertyName) (object : StoredObject) : Seen :=
  ⟨key, object, object.bytes.length⟩

def ObjectView.seen (view : ObjectView) : Seen where
  key := view.key
  object :=
    { bytes := view.bytes
      customMetadata := view.customMetadata
      httpMetadata := view.httpMetadata
      storageClass := view.storageClass }
  size := view.size

def StoreAnswer.map {View Other : Type} (image : View → Other) :
    StoreAnswer View → StoreAnswer Other
  | .missing => .missing
  | .object view => .object (image view)
  | .done => .done
  | .listing objects truncated cursor delimitedPrefixes =>
    .listing (objects.map image) truncated cursor delimitedPrefixes
  | .upload uploadId => .upload uploadId
  | .part partNumber etag => .part partNumber etag
  | .error text => .error text

/-- An operation after which the file has been read. -/
def Operation.loads : Operation → Bool
  | .resumeMultipartUpload _ _ => false
  | _ => true

namespace ObjectMap

def empty : ObjectMap := ⟨fun _ => none, fun _ => none⟩

variable (sha256 : Bytes → Text) (map : ObjectMap)

/-- An upload of this key that is neither aborted nor completed. -/
def active (uploadId key : PropertyName) : Except Text Upload :=
  match map.uploads uploadId with
  | none => .error (notActive uploadId)
  | some upload =>
    if upload.key ≠ key then .error (otherKey uploadId) else .ok upload

def stored (bytes : Bytes) (options : PutOptions) : StoredObject where
  bytes := bytes
  customMetadata := options.customMetadata.getD .empty
  httpMetadata := options.httpMetadata.getD .empty
  storageClass := options.storageClass.getD "Standard".toList

/-- The object that an upload makes of these parts. -/
def assembled (key uploadId : PropertyName) (parts : List UploadedPart) :
    Except Text StoredObject :=
  match map.active uploadId key with
  | .error text => .error text
  | .ok upload =>
    match toUploadedBytes upload.parts parts with
    | .error text => .error text
    | .ok bytes =>
      .ok
        { bytes := bytes
          customMetadata := upload.customMetadata
          httpMetadata := upload.httpMetadata
          storageClass := upload.storageClass }

def after : Operation → ObjectMap
  | .put key value options =>
    { map with
      objects := Function.update map.objects key
        (some (stored value.toBuffer options)) }
  | .delete keys =>
    { map with
      objects := fun key => if key ∈ keys then none else map.objects key }
  | .createMultipartUpload key options uploadId =>
    let begun := stored [] options
    { map with
      uploads := Function.update map.uploads uploadId
        (some ⟨key, begun.customMetadata, begun.httpMetadata,
          begun.storageClass, fun _ => none⟩) }
  | .uploadPart key uploadId partNumber value =>
    match map.active uploadId key with
    | .error _ => map
    | .ok upload =>
      let bytes := value.toBuffer
      { map with
        uploads := Function.update map.uploads uploadId
          (some { upload with
            parts := Function.update upload.parts partNumber
              (some (bytes, toPartEtag sha256 bytes)) }) }
  | .abort key uploadId =>
    match map.active uploadId key with
    | .error _ => map
    | .ok _ =>
      { map with uploads := Function.update map.uploads uploadId none }
  | .complete key uploadId parts =>
    match map.assembled key uploadId parts with
    | .error _ => map
    | .ok object =>
      { objects := Function.update map.objects key (some object)
        uploads := Function.update map.uploads uploadId none }
  | .head _ | .get _ _ | .list _ | .resumeMultipartUpload _ _ => map

/-- The answer of an operation other than a listing. -/
def answer : Operation → StoreAnswer Seen
  | .head key =>
    match map.objects key with
    | none => .missing
    | some object => .object (object.seen key)
  | .get key range =>
    match map.objects key with
    | none => .missing
    | some object =>
      let bytes :=
        match range with
        | some range => readRange object.bytes range
        | none => object.bytes
      .object (StoredObject.seen key { object with bytes := bytes })
  | .put key value options =>
    .object ((stored value.toBuffer options).seen key)
  | .delete _ | .list _ => .done
  | .createMultipartUpload _ _ uploadId => .upload uploadId
  | .resumeMultipartUpload key uploadId =>
    match map.active uploadId key with
    | .error text => .error text
    | .ok _ => .upload uploadId
  | .uploadPart key uploadId partNumber value =>
    match map.active uploadId key with
    | .error text => .error text
    | .ok _ => .part partNumber (toPartEtag sha256 value.toBuffer)
  | .abort key uploadId =>
    match map.active uploadId key with
    | .error text => .error text
    | .ok _ => .done
  | .complete key uploadId parts =>
    match map.assembled key uploadId parts with
    | .error text => .error text
    | .ok object => .object (object.seen key)

variable (ordered : PropertyName → PropertyName → Prop)

/-- The keys of a listing: those of the map, each once and in order. -/
structure Lists (options : ListOptions) (keys : List PropertyName) : Prop where
  nodup : keys.Nodup
  mem_iff : ∀ key,
    key ∈ keys ↔ (map.objects key).isSome ∧ options.selects key = true
  sorted : keys.Pairwise ordered

/-- A store answers like the map; `loaded` tells whether resumed uploads are
checked. -/
def Answers (loaded : Bool) (operation : Operation)
    (given : StoreAnswer Seen) : Prop :=
  match operation with
  | .list options =>
    ∃ keys, map.Lists ordered options keys ∧
      given = options.listing keys ((options.page keys).filterMap fun key =>
        (map.objects key).map (StoredObject.seen key))
  | .resumeMultipartUpload _ uploadId =>
    given = if loaded then map.answer sha256 operation else .upload uploadId
  | _ => given = map.answer sha256 operation

/-- A row of answers to a row of operations. -/
def Follows : Bool → ObjectMap → List (Nat × Operation) →
    List (StoreAnswer Seen) → Prop
  | _, _, [], given => given = []
  | _, _, _ :: _, [] => False
  | loaded, map, (_, operation) :: rest, given :: others =>
    map.Answers sha256 ordered loaded operation given ∧
      Follows (loaded || operation.loads) (map.after sha256 operation) rest
        others

end ObjectMap

section Simulation

variable {sha256 : Bytes → Text} {ordered : PropertyName → PropertyName → Prop}

/-- A store that stays related to the map, and answers like it, at every
operation does so in every run. -/
theorem follows_of_simulation {store : ObjectStore}
    {related : store.State → Bool → ObjectMap → Prop}
    (simulates : ∀ now operation state loaded map, related state loaded map →
      related (store.step now operation state).1 (loaded || operation.loads)
        (map.after sha256 operation) ∧
      map.Answers sha256 ordered loaded operation
        ((store.step now operation state).2.map ObjectView.seen))
    (operations : List (Nat × Operation)) {state : store.State} {loaded : Bool}
    {map : ObjectMap} (start : related state loaded map) :
    ObjectMap.Follows sha256 ordered loaded map operations
      ((store.answers operations state).map (StoreAnswer.map ObjectView.seen))
    := by
  induction operations generalizing state loaded map with
  | nil => rfl
  | cons first rest ih =>
      obtain ⟨now, operation⟩ := first
      obtain ⟨related, answered⟩ :=
        simulates now operation state loaded map start
      exact ⟨answered, ih related⟩

end Simulation

section Keyed

variable {Key Value : Type} [DecidableEq Key]

theorem get?_set_eq_update (map : OrderedMap Key Value) (key : Key)
    (value : Value) :
    (map.set key value).get? = Function.update map.get? key (some value) := by
  funext other
  rw [OrderedMap.get?_set, Function.update_apply]

theorem get?_delete_eq_update (map : OrderedMap Key Value) (key : Key) :
    (map.delete key).get? = Function.update map.get? key none := by
  funext other
  rw [OrderedMap.get?_delete, Function.update_apply]

theorem get?_foldl_delete (keys : List Key) (map : OrderedMap Key Value)
    (key : Key) :
    (keys.foldl OrderedMap.delete map).get? key =
      if key ∈ keys then none else map.get? key := by
  induction keys generalizing map with
  | nil => rw [List.foldl_nil, if_neg List.not_mem_nil]
  | cons first keys ih =>
      rw [List.foldl_cons, ih, OrderedMap.get?_delete]
      by_cases later : key ∈ keys
      · rw [if_pos later, if_pos (List.mem_cons_of_mem _ later)]
      · rw [if_neg later]
        simp only [List.mem_cons, later, or_false]

theorem map_update {Image : Type} (image : Value → Image)
    (values : Key → Option Value) (key : Key) (value : Option Value) :
    (fun other => (Function.update values key value other).map image) =
      Function.update (fun other => (values other).map image) key
        (value.map image) := by
  funext other
  rw [Function.update_apply, Function.update_apply]
  split <;> rfl

end Keyed

theorem keys_of_views {keys : List PropertyName}
    {views : PropertyName → Option ObjectView}
    (shown : ∀ key ∈ keys, ∃ view, views key = some view ∧ view.key = key) :
    (keys.filterMap views).map ObjectView.key = keys := by
  induction keys with
  | nil => rfl
  | cons key keys ih =>
      obtain ⟨view, found, same⟩ := shown key List.mem_cons_self
      rw [List.filterMap_cons_some found, List.map_cons, same,
        ih fun other member => shown other (List.mem_cons_of_mem _ member)]

theorem selected_objects {objects : PropertyName → Option StoredObject}
    {keys : List PropertyName} {views : PropertyName → Option ObjectView}
    (seen : ∀ key, (views key).map ObjectView.seen =
      (objects key).map (StoredObject.seen key)) :
    (keys.filterMap views).map ObjectView.seen =
      keys.filterMap fun key => (objects key).map (StoredObject.seen key) := by
  rw [List.map_filterMap]
  congr 1
  funext key
  exact seen key

end Takos.LocalPlatform
