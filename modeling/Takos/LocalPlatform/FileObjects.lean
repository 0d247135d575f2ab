import Takos.Foundation.UnitOrder
import Takos.LocalPlatform.ObjectMaps

/-!
# The object store in memory as a map

Its listings are in the order of code units, and every resumed upload is
checked at once.
-/

namespace Takos.LocalPlatform

open Takos.Foundation

def MultipartUpload.upload (upload : MultipartUpload) : Upload where
  key := upload.key
  customMetadata := upload.customMetadata
  httpMetadata := upload.httpMetadata
  storageClass := upload.storageClass
  parts := upload.parts.get?

def unitOrdered (left right : PropertyName) : Prop :=
  Text.lt right.val left.val = false

instance : DecidableRel unitOrdered := fun left right =>
  inferInstanceAs (Decidable (Text.lt right.val left.val = false))

theorem unitOrdered_iff (left right : PropertyName) :
    unitOrdered left right ↔
      left.val.map Text.unitKey ≤ right.val.map Text.unitKey := by
  rw [unitOrdered, Bool.eq_false_iff, ne_eq, Text.lt_iff_keys, not_lt]

instance : Std.Total unitOrdered where
  total left right := by
    rw [unitOrdered_iff, unitOrdered_iff]
    exact le_total _ _

instance : IsTrans PropertyName unitOrdered where
  trans first second third := by
    rw [unitOrdered_iff, unitOrdered_iff, unitOrdered_iff]
    exact le_trans

namespace MemoryStore

variable {sha256 : Bytes → Text} (store : MemoryStore)

def map : ObjectMap where
  objects := store.objects.get?
  uploads uploadId :=
    (store.multipartUploads.get? uploadId).map MultipartUpload.upload

theorem put_eq (now : Nat) (key : PropertyName) (record : StoredObject) :
    store.put now key record =
      ({ store with objects := store.objects.set key record },
        .object (createObjectStoreObject now key record)) := by
  have found : head now
      { store with objects := store.objects.set key record } key =
      some (createObjectStoreObject now key record) := by
    simp [head]
  simp only [put, found]

theorem active_map (uploadId key : PropertyName) :
    store.map.active uploadId key =
      match store.requireMultipartUpload uploadId key with
      | .error text => .error text
      | .ok upload => .ok upload.upload := by
  cases found : store.multipartUploads.get? uploadId with
  | none => simp only [ObjectMap.active, requireMultipartUpload, map, found,
      Option.map_none]
  | some upload =>
      simp only [ObjectMap.active, requireMultipartUpload, map, found,
        Option.map_some, MultipartUpload.upload]
      split <;> rfl

theorem head_seen (now : Nat) (key : PropertyName) :
    (store.head now key).map ObjectView.seen =
      (store.map.objects key).map (StoredObject.seen key) := by
  rw [head, Option.map_map]
  rfl

theorem lists_listed (options : ListOptions) :
    store.map.Lists unitOrdered options (store.listed options) := by
  have same := List.perm_insertionSort unitOrdered
    (store.objects.keys.filter options.selects)
  constructor
  · exact same.nodup_iff.mpr (store.objects.nodup.filter _)
  · intro key
    have member := same.mem_iff (a := key)
    refine member.trans ?_
    rw [List.mem_filter]
    apply and_congr_left
    intro _
    change _ ↔ (store.objects.get? key).isSome
    rw [Option.isSome_iff_ne_none, ne_eq, OrderedMap.get?_eq_none_iff, not_not]
  · exact List.pairwise_insertionSort unitOrdered _

theorem listed_shown (now : Nat) {options : ListOptions} {key : PropertyName}
    (listed : key ∈ store.listed options) :
    ∃ view, store.head now key = some view ∧ view.key = key := by
  have found := ((store.lists_listed options).mem_iff key).mp listed
  obtain ⟨record, present⟩ := Option.isSome_iff_exists.mp found.1
  have stored : store.objects.get? key = some record := present
  refine ⟨createObjectStoreObject now key record, ?_, rfl⟩
  rw [head, stored, Option.map_some]

theorem list_shows (now : Nat) (options : ListOptions) :
    store.list now options =
      options.listing (store.listed options)
        ((options.page (store.listed options)).filterMap (store.head now)) := by
  have present : (options.page (store.listed options)).find?
      (fun key => (store.head now key).isNone) = none := by
    apply List.find?_eq_none.mpr
    intro key member
    obtain ⟨view, shown, _⟩ :=
      store.listed_shown now ((slice_sublist _ _ _).subset member)
    rw [shown]
    exact Bool.false_ne_true
  simp only [list, present]

theorem list_eq (now : Nat) (options : ListOptions) :
    (store.list now options).map ObjectView.seen =
      options.listing (store.listed options)
        ((options.page (store.listed options)).filterMap fun key =>
          (store.map.objects key).map (StoredObject.seen key)) := by
  rw [list_shows, ← selected_objects (store.head_seen now)]
  rfl

theorem map_put (key : PropertyName) (record : StoredObject) :
    MemoryStore.map { store with objects := store.objects.set key record } =
      { store.map with
        objects := Function.update store.map.objects key (some record) } := by
  unfold map
  rw [get?_set_eq_update]

theorem map_upload (uploadId : PropertyName) (upload : MultipartUpload) :
    MemoryStore.map
        { store with
          multipartUploads := store.multipartUploads.set uploadId upload } =
      { store.map with
        uploads := Function.update store.map.uploads uploadId
          (some upload.upload) } := by
  unfold map
  rw [get?_set_eq_update, map_update]
  rfl

theorem map_close (uploadId : PropertyName) :
    MemoryStore.map
        { store with
          multipartUploads := store.multipartUploads.delete uploadId } =
      { store.map with
        uploads := Function.update store.map.uploads uploadId none } := by
  unfold map
  rw [get?_delete_eq_update, map_update]
  rfl

theorem simulates (now : Nat) (operation : Operation) (loaded : Bool)
    (checks : loaded = true) :
    (store.step sha256 now operation).1.map = store.map.after sha256 operation ∧
      store.map.Answers sha256 unitOrdered loaded operation
        ((store.step sha256 now operation).2.map ObjectView.seen) := by
  cases operation with
  | head key =>
      have seen := store.head_seen now key
      simp only [step, ObjectMap.after, ObjectMap.Answers, ObjectMap.answer]
      cases shown : store.head now key with
      | none =>
          rw [shown] at seen
          rw [Option.map_eq_none_iff.mp seen.symm]
          exact ⟨rfl, rfl⟩
      | some view =>
          rw [shown] at seen
          obtain ⟨object, found, same⟩ := Option.map_eq_some_iff.mp seen.symm
          rw [found]
          exact ⟨rfl, congrArg StoreAnswer.object same.symm⟩
  | get key range =>
      simp only [step, ObjectMap.after, ObjectMap.Answers, ObjectMap.answer, map]
      cases store.objects.get? key with
      | none => exact ⟨rfl, rfl⟩
      | some record => exact ⟨rfl, rfl⟩
  | put key value options =>
      simp only [step, put_eq]
      exact ⟨store.map_put key _, rfl⟩
  | delete keys =>
      refine ⟨?_, rfl⟩
      simp only [step, ObjectMap.after, map]
      congr 1
      funext key
      rw [get?_foldl_delete]
      by_cases member : key ∈ keys
      · rw [if_pos member, if_pos member]
      · rw [if_neg member, if_neg member]
  | list options =>
      exact ⟨rfl, _, store.lists_listed options, store.list_eq now options⟩
  | createMultipartUpload key options uploadId =>
      exact ⟨store.map_upload uploadId _, rfl⟩
  | resumeMultipartUpload key uploadId =>
      rw [checks]
      simp only [step, ObjectMap.after, ObjectMap.Answers, ObjectMap.answer,
        active_map]
      cases store.requireMultipartUpload uploadId key with
      | error text => exact ⟨rfl, rfl⟩
      | ok upload => exact ⟨rfl, rfl⟩
  | uploadPart key uploadId partNumber value =>
      simp only [step, ObjectMap.after, ObjectMap.Answers, ObjectMap.answer,
        active_map]
      cases store.requireMultipartUpload uploadId key with
      | error text => exact ⟨rfl, rfl⟩
      | ok upload =>
          refine ⟨?_, rfl⟩
          rw [map_upload]
          simp only [MultipartUpload.upload, get?_set_eq_update]
  | abort key uploadId =>
      simp only [step, ObjectMap.after, ObjectMap.Answers, ObjectMap.answer,
        active_map]
      cases store.requireMultipartUpload uploadId key with
      | error text => exact ⟨rfl, rfl⟩
      | ok upload => exact ⟨store.map_close uploadId, rfl⟩
  | complete key uploadId uploadedParts =>
      simp only [step, ObjectMap.after, ObjectMap.Answers, ObjectMap.answer,
        ObjectMap.assembled, active_map]
      cases store.requireMultipartUpload uploadId key with
      | error text => exact ⟨rfl, rfl⟩
      | ok upload =>
          simp only [MultipartUpload.upload]
          cases toUploadedBytes upload.parts.get? uploadedParts with
          | error text => exact ⟨rfl, rfl⟩
          | ok bytes =>
              simp only [put_eq]
              refine ⟨?_, rfl⟩
              refine (map_put { store with
                multipartUploads := store.multipartUploads.delete uploadId }
                key _).trans ?_
              rw [map_close]

end MemoryStore

end Takos.LocalPlatform

/-!
# The file-backed object store as a map

Its listings are in the order of the locale.  A resumed upload is checked once
the store has read its file, and Base64 gives back the contents.
-/

namespace Takos.LocalPlatform

open Takos.Foundation

def BucketRecord.object (record : BucketRecord) : StoredObject where
  bytes := Base64.decode record.bodyBase64
  customMetadata := record.customMetadata
  httpMetadata := record.httpMetadata
  storageClass := record.storageClass

def MultipartUploadRecord.upload (upload : MultipartUploadRecord) : Upload where
  key := upload.key
  customMetadata := upload.customMetadata
  httpMetadata := upload.httpMetadata
  storageClass := upload.storageClass
  parts := FileStore.storedPart upload

theorem decimal_injective : Function.Injective decimal := by
  have digits : ∀ {left right : Nat},
      Nat.toDigits 10 left = Nat.toDigits 10 right → left = right := by
    intro left right same
    have values := congrArg (fun text => Nat.ofDigitChars 10 text 0) same
    simpa [Nat.ofDigitChars_ten_toDigits] using values
  have unsigned : ∀ number rest, Nat.toDigits 10 number ≠ '-' :: rest := by
    intro number rest shape
    have digit : '-'.isDigit = true := by
      apply Nat.isDigit_of_mem_toDigits (b := 10) (n := number) (by decide)
        (by decide)
      rw [shape]
      exact List.mem_cons_self
    exact absurd digit (by decide)
  intro left right same
  cases left with
  | ofNat left =>
      cases right with
      | ofNat right => exact congrArg Int.ofNat (digits same)
      | negSucc right => exact absurd same (unsigned left _)
  | negSucc left =>
      cases right with
      | ofNat right => exact absurd same.symm (unsigned right _)
      | negSucc right =>
          have next := digits (List.cons.inj same).2
          rw [Nat.succ.inj next]

namespace BucketState

variable (state : BucketState)

def map : ObjectMap where
  objects key := (state.objects.get? key).map BucketRecord.object
  uploads uploadId :=
    (state.uploads.get? uploadId).map MultipartUploadRecord.upload

/-- Every record has the key that it is kept under. -/
def Named : Prop :=
  ∀ key record, state.objects.get? key = some record → record.key = key

variable {state}

theorem map_put (key : PropertyName) (record : BucketRecord) :
    map { state with objects := state.objects.set key record } =
      { state.map with
        objects := Function.update state.map.objects key
          (some record.object) } := by
  unfold map
  rw [get?_set_eq_update, map_update]
  rfl

theorem map_upload (uploadId : PropertyName) (upload : MultipartUploadRecord) :
    map { state with uploads := state.uploads.set uploadId upload } =
      { state.map with
        uploads := Function.update state.map.uploads uploadId
          (some upload.upload) } := by
  unfold map
  rw [get?_set_eq_update, map_update]
  rfl

theorem map_close (uploadId : PropertyName) :
    map { state with uploads := state.uploads.delete uploadId } =
      { state.map with
        uploads := Function.update state.map.uploads uploadId none } := by
  unfold map
  rw [get?_delete_eq_update, map_update]
  rfl

theorem map_delete (keys : List PropertyName) :
    map { state with objects := keys.foldl OrderedMap.delete state.objects } =
      { state.map with
        objects := fun key =>
          if key ∈ keys then none else state.map.objects key } := by
  unfold map
  congr 1
  funext key
  rw [get?_foldl_delete]
  by_cases member : key ∈ keys
  · rw [if_pos member, if_pos member, Option.map_none]
  · rw [if_neg member, if_neg member]

theorem Named.put (named : state.Named) {key : PropertyName}
    {record : BucketRecord} (same : record.key = key) :
    Named { state with objects := state.objects.set key record } := by
  intro other found present
  change (state.objects.set key record).get? other = some found at present
  rw [OrderedMap.get?_set] at present
  split at present
  · rename_i own
    cases present
    rw [own, same]
  · exact named other found present

theorem Named.delete (named : state.Named) (keys : List PropertyName) :
    Named { state with
      objects := keys.foldl OrderedMap.delete state.objects } := by
  intro other found present
  change (keys.foldl OrderedMap.delete state.objects).get? other =
    some found at present
  rw [get?_foldl_delete] at present
  split at present
  · cases present
  · exact named other found present

end BucketState

theorem propertyOrder_perm (names : List PropertyName) :
    (propertyOrder names).Perm names := by
  have parts := List.filter_append_perm
    (fun name : PropertyName => (arrayIndex name.val).isSome) names
  have others : (fun name : PropertyName => (arrayIndex name.val).isNone) =
      fun name => !(arrayIndex name.val).isSome := by
    funext name
    cases arrayIndex name.val <;> rfl
  unfold propertyOrder
  rw [others]
  exact ((List.perm_insertionSort _ _).append_right _).trans parts

section Locale

variable (collation : Collation)

def localeOrdered (left right : PropertyName) : Prop :=
  collation.localeCompare left.val right.val ≠ .gt

instance : DecidableRel (localeOrdered collation) := fun left right =>
  inferInstanceAs (Decidable (collation.localeCompare left.val right.val ≠ .gt))

instance : Std.Total (localeOrdered collation) where
  total left right := by
    by_cases greater : collation.localeCompare left.val right.val = .gt
    · right
      unfold localeOrdered
      rw [collation.swap left.val right.val, greater]
      decide
    · exact .inl greater

instance : IsTrans PropertyName (localeOrdered collation) where
  trans _ _ _ := collation.trans _ _ _

end Locale

namespace FileStore

variable {sha256 : Bytes → Text} {collation : Collation} {state : BucketState}

theorem active_map (uploadId key : PropertyName) :
    state.map.active uploadId key =
      match requireMultipartUpload state uploadId key with
      | .error text => .error text
      | .ok upload => .ok upload.upload := by
  cases found : state.uploads.get? uploadId with
  | none => simp only [ObjectMap.active, requireMultipartUpload,
      BucketState.map, found, Option.map_none]
  | some upload =>
      simp only [ObjectMap.active, requireMultipartUpload, BucketState.map,
        found, Option.map_some, MultipartUploadRecord.upload]
      split <;> rfl

theorem head_seen (named : state.Named) (key : PropertyName) :
    (head sha256 state key).map ObjectView.seen =
      (state.map.objects key).map (StoredObject.seen key) := by
  rw [head, Option.map_map, BucketState.map, Option.map_map]
  cases found : state.objects.get? key with
  | none => rfl
  | some record =>
      simp only [Option.map_some, Function.comp_apply, ObjectView.seen,
        createObjectStoreObject, StoredObject.seen, BucketRecord.object,
        named key record found]

theorem lists_listed (options : ListOptions) :
    state.map.Lists (localeOrdered collation) options
      (listed collation state options) := by
  have names := propertyOrder_perm state.objects.keys
  have same := collation.sortBy_perm Subtype.val
    ((propertyOrder state.objects.keys).filter options.selects)
  constructor
  · apply same.nodup_iff.mpr
    exact (names.nodup_iff.mpr state.objects.nodup).filter _
  · intro key
    refine same.mem_iff.trans ?_
    rw [List.mem_filter, names.mem_iff]
    apply and_congr_left
    intro _
    change _ ↔ ((state.objects.get? key).map BucketRecord.object).isSome
    rw [Option.isSome_map, Option.isSome_iff_ne_none, ne_eq,
      OrderedMap.get?_eq_none_iff, not_not]
  · exact collation.sortBy_sorted Subtype.val _

theorem listed_shown (sha256 : Bytes → Text) (named : state.Named)
    {options : ListOptions} {key : PropertyName}
    (member : key ∈ listed collation state options) :
    ∃ view, head sha256 state key = some view ∧ view.key = key := by
  have found := ((lists_listed options).mem_iff key).mp member
  obtain ⟨object, present⟩ := Option.isSome_iff_exists.mp found.1
  obtain ⟨record, stored, _⟩ := Option.map_eq_some_iff.mp present
  refine ⟨createObjectStoreObject sha256 record
    (Base64.decode record.bodyBase64), ?_, named key record stored⟩
  rw [head, stored, Option.map_some]

theorem list_shows (named : state.Named) (options : ListOptions) :
    list sha256 collation state options =
      options.listing (listed collation state options)
        ((options.page (listed collation state options)).filterMap
          (head sha256 state)) := by
  have present : (options.page (listed collation state options)).find?
      (fun key => (head sha256 state key).isNone) = none := by
    apply List.find?_eq_none.mpr
    intro key member
    obtain ⟨view, shown, _⟩ :=
      listed_shown sha256 named ((slice_sublist _ _ _).subset member)
    rw [shown]
    exact Bool.false_ne_true
  simp only [list, present]

theorem list_eq (named : state.Named) (options : ListOptions) :
    (list sha256 collation state options).map ObjectView.seen =
      options.listing (listed collation state options)
        ((options.page (listed collation state options)).filterMap fun key =>
          (state.map.objects key).map (StoredObject.seen key)) := by
  rw [list_shows named, ← selected_objects (head_seen named)]
  rfl

theorem putObject_eq (now : Nat) (key : PropertyName) (bytes : Bytes)
    (customMetadata httpMetadata : Metadata) (storageClass : Text) :
    putObject sha256 now state key bytes customMetadata httpMetadata
        storageClass =
      (flushed { state with
          objects := state.objects.set key ⟨key, Base64.encode bytes, now,
            customMetadata, httpMetadata, storageClass⟩ },
        .object (createObjectStoreObject sha256 ⟨key, Base64.encode bytes, now,
          customMetadata, httpMetadata, storageClass⟩
          (Base64.decode (Base64.encode bytes)))) := by
  have found : head sha256 { state with
      objects := state.objects.set key ⟨key, Base64.encode bytes, now,
        customMetadata, httpMetadata, storageClass⟩ } key =
      some (createObjectStoreObject sha256 ⟨key, Base64.encode bytes, now,
        customMetadata, httpMetadata, storageClass⟩
        (Base64.decode (Base64.encode bytes))) := by
    simp [head]
  simp only [putObject, found]

theorem upload_part (upload : MultipartUploadRecord) (partNumber : Int)
    (bytes : Bytes) (etag : Text) :
    MultipartUploadRecord.upload { upload with
        parts := upload.parts.set (decimal partNumber)
          ⟨Base64.encode bytes, etag⟩ } =
      { upload.upload with
        parts := Function.update upload.upload.parts partNumber
          (some (bytes, etag)) } := by
  unfold MultipartUploadRecord.upload
  congr 1
  funext other
  rw [Function.update_apply]
  unfold storedPart
  rw [OrderedMap.get?_set]
  by_cases same : other = partNumber
  · rw [if_pos (congrArg decimal same), if_pos same]
    simp only [Option.map_some, Base64.decode_encode]
  · rw [if_neg (fun named => same (decimal_injective named)), if_neg same]

/-- The store stands for the map, and knows whether its file has been read. -/
structure Related (store : FileStore) (loaded : Bool) (map : ObjectMap) :
    Prop where
  loaded : store.cache.isSome = loaded
  named : store.loadState.Named
  map : store.loadState.map = map

theorem related_loaded {store : FileStore} {loaded : Bool} {map : ObjectMap}
    (related : Related store loaded map) :
    Related store.loaded (loaded || true) map := by
  rw [Bool.or_true]
  exact ⟨rfl, related.named, related.map⟩

theorem related_flushed {loaded : Bool} {map : ObjectMap}
    (named : state.Named) (same : state.map = map) :
    Related (flushed state) (loaded || true) map := by
  rw [Bool.or_true]
  exact ⟨rfl, named, same⟩

theorem simulates (now : Nat) (operation : Operation) (store : FileStore)
    (loaded : Bool) (map : ObjectMap) (related : Related store loaded map) :
    Related (store.step sha256 now collation operation).1
        (loaded || operation.loads) (map.after sha256 operation) ∧
      map.Answers sha256 (localeOrdered collation) loaded operation
        ((store.step sha256 now collation operation).2.map ObjectView.seen) := by
  have reading := related_loaded related
  obtain ⟨read, named, rfl⟩ := related
  cases operation with
  | head key =>
      have seen : (head sha256 store.loadState key).map ObjectView.seen = _ :=
        head_seen named key
      simp only [step, ObjectMap.after, ObjectMap.Answers, ObjectMap.answer]
      cases shown : head sha256 store.loadState key with
      | none =>
          rw [shown] at seen
          rw [Option.map_eq_none_iff.mp seen.symm]
          exact ⟨reading, rfl⟩
      | some view =>
          rw [shown] at seen
          obtain ⟨object, found, same⟩ := Option.map_eq_some_iff.mp seen.symm
          rw [found]
          exact ⟨reading, congrArg StoreAnswer.object same.symm⟩
  | get key range =>
      simp only [step, ObjectMap.after, ObjectMap.Answers, ObjectMap.answer,
        BucketState.map]
      cases found : store.loadState.objects.get? key with
      | none => exact ⟨reading, rfl⟩
      | some record =>
          refine ⟨reading, ?_⟩
          cases range <;>
            simp only [StoreAnswer.map, createObjectStoreObject, ObjectView.seen,
              StoredObject.seen, Option.map_some, BucketRecord.object,
              named key record found]
  | put key value options =>
      simp only [step, putObject_eq]
      refine ⟨related_flushed (named.put rfl) ?_, ?_⟩
      · rw [BucketState.map_put]
        simp only [ObjectMap.after, BucketRecord.object, ObjectMap.stored,
          Base64.decode_encode]
      · simp only [ObjectMap.Answers, ObjectMap.answer, StoreAnswer.map,
          createObjectStoreObject, ObjectView.seen, StoredObject.seen,
          ObjectMap.stored, Base64.decode_encode]
  | delete keys =>
      exact ⟨related_flushed (named.delete keys) (BucketState.map_delete keys),
        rfl⟩
  | list options =>
      exact ⟨reading, _, lists_listed options, list_eq named options⟩
  | createMultipartUpload key options uploadId =>
      exact ⟨related_flushed named (BucketState.map_upload uploadId _), rfl⟩
  | resumeMultipartUpload key uploadId =>
      simp only [step, ObjectMap.after, ObjectMap.Answers, ObjectMap.answer,
        Operation.loads, Bool.or_false]
      cases cached : store.cache with
      | none =>
          rw [cached] at read
          subst read
          exact ⟨⟨by rw [cached], named, rfl⟩, rfl⟩
      | some state =>
          rw [cached] at read
          subst read
          have current : store.loadState = state := by
            simp [loadState, cached]
          have kept : Related store true store.loadState.map :=
            ⟨by rw [cached]; rfl, named, rfl⟩
          rw [active_map, current]
          rw [current] at kept
          dsimp only
          cases requireMultipartUpload state uploadId key with
          | error text => exact ⟨kept, rfl⟩
          | ok upload => exact ⟨kept, rfl⟩
  | uploadPart key uploadId partNumber value =>
      simp only [step, ObjectMap.after, ObjectMap.Answers, ObjectMap.answer,
        active_map]
      cases requireMultipartUpload store.loadState uploadId key with
      | error text => exact ⟨reading, rfl⟩
      | ok upload =>
          refine ⟨related_flushed named ?_, rfl⟩
          rw [BucketState.map_upload, upload_part]
  | abort key uploadId =>
      simp only [step, ObjectMap.after, ObjectMap.Answers, ObjectMap.answer,
        active_map]
      cases requireMultipartUpload store.loadState uploadId key with
      | error text => exact ⟨reading, rfl⟩
      | ok upload =>
          exact ⟨related_flushed named (BucketState.map_close uploadId), rfl⟩
  | complete key uploadId uploadedParts =>
      simp only [step, ObjectMap.after, ObjectMap.Answers, ObjectMap.answer,
        ObjectMap.assembled, active_map]
      cases requireMultipartUpload store.loadState uploadId key with
      | error text => exact ⟨reading, rfl⟩
      | ok upload =>
          simp only [MultipartUploadRecord.upload]
          cases toUploadedBytes (storedPart upload) uploadedParts with
          | error text => exact ⟨reading, rfl⟩
          | ok bytes =>
              simp only [putObject_eq]
              refine ⟨related_flushed (BucketState.Named.put named rfl) ?_, ?_⟩
              · refine (@BucketState.map_put { store.loadState with
                  uploads := store.loadState.uploads.delete uploadId }
                  key _).trans ?_
                rw [BucketState.map_close]
                simp only [BucketRecord.object, Base64.decode_encode]
              · simp only [StoreAnswer.map, createObjectStoreObject,
                  ObjectView.seen, StoredObject.seen, Base64.decode_encode]

end FileStore

end Takos.LocalPlatform
