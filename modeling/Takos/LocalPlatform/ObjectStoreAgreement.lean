import Takos.LocalPlatform.FileObjects

/-!
# Pages of a listing

Every page is cut from a new listing at the number of keys that were listed
before.  As long as the keys written or deleted between two pages come after
those that were listed, the pages list every key once.  A key that was listed
and is deleted before the next page hides one of the later keys.
-/

namespace Takos.LocalPlatform

open Takos.Foundation

/-- The keys that an operation may write or delete. -/
def Operation.touches : Operation → List PropertyName
  | .put key _ _ | .complete key _ _ => [key]
  | .delete keys => keys
  | _ => []

/-- The keys listed so far and the cursor of the next page, over pages between
which only keys after the listed ones are written or deleted.  A page and the
ones before it have the length of an array. -/
inductive Paging (store : ObjectStore)
    (ordered : PropertyName → PropertyName → Prop) (keyPrefix : Option Text)
    (limit : Option Int) :
    store.State → List PropertyName → Option Text → Prop where
  | start (operations : List (Nat × Operation)) :
      Paging store ordered keyPrefix limit
        (store.after operations store.initial) [] none
  | next {state shown : store.State} {listed : List PropertyName}
      {cursor delimiter following : Option Text} {now : Nat}
      {objects : List ObjectView} {operations : List (Nat × Operation)} :
      Paging store ordered keyPrefix limit state listed cursor →
      store.step now (.list ⟨keyPrefix, limit, cursor, delimiter⟩) state =
        (shown, .listing objects true following []) →
      (listed ++ objects.map ObjectView.key).length < 2 ^ 32 →
      (∀ step ∈ operations, ∀ touched ∈ step.2.touches,
        ∀ known ∈ listed ++ objects.map ObjectView.key,
          ¬ordered touched known) →
      Paging store ordered keyPrefix limit (store.after operations shown)
        (listed ++ objects.map ObjectView.key) following

/-- When the last page is not truncated, every key of the store has been listed
once. -/
def PagesListOnce (store : ObjectStore)
    (ordered : PropertyName → PropertyName → Prop) : Prop :=
  ∀ keyPrefix limit state listed cursor delimiter now shown objects following,
    Paging store ordered keyPrefix limit state listed cursor →
    store.step now (.list ⟨keyPrefix, limit, cursor, delimiter⟩) state =
      (shown, .listing objects false following []) →
    (listed ++ objects.map ObjectView.key).Nodup ∧
      ∀ key, key ∈ listed ++ objects.map ObjectView.key ↔
        (store.step now (.head key) state).2 ≠ .missing ∧
          Text.startsWith key.val (keyPrefix.getD []) = true

/-- A store that lists its keys in an order that operations keep up to the first
key that they touch. -/
structure SortedStore (store : ObjectStore)
    (ordered : PropertyName → PropertyName → Prop) where
  Sound : store.State → Prop
  listed : store.State → Option Text → List PropertyName
  initial : Sound store.initial
  step : ∀ now operation state, Sound state →
    Sound (store.step now operation state).1
  nodup : ∀ state keyPrefix, (listed state keyPrefix).Nodup
  mem_iff : ∀ now state keyPrefix key, Sound state →
    (key ∈ listed state keyPrefix ↔
      (store.step now (.head key) state).2 ≠ .missing ∧
        Text.startsWith key.val (keyPrefix.getD []) = true)
  answer : ∀ now options state, Sound state →
    ∃ objects, (store.step now (.list options) state).2 =
        options.listing (listed state options.keyPrefix) objects ∧
      objects.map ObjectView.key =
        options.page (listed state options.keyPrefix)
  stays : ∀ now operation state keyPrefix front, Sound state →
    front <+: listed state keyPrefix →
    (∀ touched ∈ operation.touches, ∀ known ∈ front, ¬ordered touched known) →
    front <+: listed (store.step now operation state).1 keyPrefix

namespace SortedStore

variable {store : ObjectStore} {ordered : PropertyName → PropertyName → Prop}
  (sorted : SortedStore store ordered)

variable {state : store.State} {keyPrefix : Option Text}

theorem sound_after (operations : List (Nat × Operation))
    (sound : sorted.Sound state) :
    sorted.Sound (store.after operations state) := by
  induction operations generalizing state with
  | nil => exact sound
  | cons first rest ih => exact ih (sorted.step first.1 first.2 state sound)

theorem stays_after (operations : List (Nat × Operation))
    {front : List PropertyName} (sound : sorted.Sound state)
    (listed : front <+: sorted.listed state keyPrefix)
    (later : ∀ step ∈ operations, ∀ touched ∈ step.2.touches,
      ∀ known ∈ front, ¬ordered touched known) :
    front <+: sorted.listed (store.after operations state) keyPrefix := by
  induction operations generalizing state with
  | nil => exact listed
  | cons first rest ih =>
      apply ih (sorted.step first.1 first.2 state sound)
      · apply sorted.stays first.1 first.2 state keyPrefix front sound listed
        exact later first List.mem_cons_self
      · exact fun step member => later step (List.mem_cons_of_mem _ member)

/-- What was listed is in front, and the cursor tells how much it is. -/
structure Along (keyPrefix limit) (state : store.State)
    (listed : List PropertyName) (cursor : Option Text) : Prop where
  sound : sorted.Sound state
  front : listed <+: sorted.listed state keyPrefix
  offset : ∀ delimiter, ListOptions.offset ⟨keyPrefix, limit, cursor, delimiter⟩ =
    listed.length

theorem page_front {sorted : SortedStore store ordered} {limit : Option Int}
    {listed : List PropertyName} {cursor : Option Text}
    (along : sorted.Along keyPrefix limit state listed cursor)
    {delimiter : Option Text} {now : Nat} {shown : store.State}
    {objects : List ObjectView} {truncated : Bool} {following : Option Text}
    (page : store.step now (.list ⟨keyPrefix, limit, cursor, delimiter⟩) state =
      (shown, .listing objects truncated following [])) :
    listed ++ objects.map ObjectView.key <+: sorted.listed state keyPrefix ∧
      truncated = decide ((listed ++ objects.map ObjectView.key).length <
        (sorted.listed state keyPrefix).length) ∧
      following = if truncated then
        some (decimal (listed ++ objects.map ObjectView.key).length)
      else none := by
  obtain ⟨views, answered, keys⟩ := sorted.answer now
    ⟨keyPrefix, limit, cursor, delimiter⟩ state along.sound
  rw [page] at answered
  simp only [ListOptions.listing, StoreAnswer.listing.injEq, and_true] at answered
  obtain ⟨rfl, cut, next⟩ := answered
  have start := along.offset delimiter
  rw [ListOptions.page, start] at keys
  have offset : ListOptions.nextOffset
      ⟨keyPrefix, limit, cursor, delimiter⟩
      (sorted.listed state keyPrefix) =
      ((listed ++ objects.map ObjectView.key).length : Nat) := by
    rw [ListOptions.nextOffset, ListOptions.page, start, ← keys,
      List.length_append]
    rfl
  refine ⟨?_, ?_, ?_⟩
  · rw [keys]
    exact front_slice along.front _
  · rw [cut, offset]
    apply decide_eq_decide.mpr
    exact Nat.cast_lt
  · rw [next, offset, cut, offset]
    simp only [decide_eq_true_eq]

theorem along_of_paging (sorted : SortedStore store ordered)
    {limit : Option Int} {listed : List PropertyName} {cursor : Option Text}
    (paging : Paging store ordered keyPrefix limit state listed cursor) :
    sorted.Along keyPrefix limit state listed cursor := by
  induction paging with
  | start operations =>
      exact ⟨sorted.sound_after operations sorted.initial, List.nil_prefix,
        fun _ => rfl⟩
  | @next state shown listed cursor delimiter following now objects operations
      earlier page small later ih =>
      obtain ⟨front, _, next⟩ := page_front ih page
      rw [if_pos rfl] at next
      have sound : sorted.Sound shown := by
        have kept := sorted.step now (.list ⟨keyPrefix, limit, cursor, delimiter⟩)
          state ih.sound
        rwa [page] at kept
      have shownFront : listed ++ objects.map ObjectView.key <+:
          sorted.listed shown keyPrefix := by
        have kept := sorted.stays now (.list ⟨keyPrefix, limit, cursor, delimiter⟩)
          state keyPrefix _ ih.sound front (fun _ touched => nomatch touched)
        rwa [page] at kept
      refine ⟨sorted.sound_after operations sound,
        sorted.stays_after operations sound shownFront later, ?_⟩
      intro delimiter
      generalize size : (listed ++ objects.map ObjectView.key).length = count
        at next small
      have read : parseInt (decimal count) = some (count : Int) := by
        apply parseInt_decimal
        rw [Int.natAbs_natCast]
        exact lt_trans small (by decide)
      cases shape : decimal count with
      | nil => exact absurd shape (decimal_ne_nil _)
      | cons char rest =>
          rw [shape] at next read
          simp only [ListOptions.offset, next, read, Option.getD_some]

theorem pagesListOnce (sorted : SortedStore store ordered) :
    PagesListOnce store ordered := by
  intro keyPrefix limit state listed cursor delimiter now shown objects
    following paging page
  have along := along_of_paging sorted paging
  obtain ⟨front, cut, _⟩ := page_front along page
  have whole : listed ++ objects.map ObjectView.key =
      sorted.listed state keyPrefix := by
    apply front.eq_of_length_le
    have ended := of_decide_eq_false cut.symm
    omega
  rw [whole]
  refine ⟨sorted.nodup state keyPrefix, ?_⟩
  intro key
  exact sorted.mem_iff now state keyPrefix key along.sound

end SortedStore

section Untouched

variable {Value : Type} {kept : PropertyName → Bool}
  {map : OrderedMap PropertyName Value}

theorem keys_set_untouched {key : PropertyName} (out : kept key = false)
    (value : Value) :
    (map.set key value).keys.filter kept = map.keys.filter kept := by
  rw [OrderedMap.keys_set]
  split
  · rfl
  · rw [List.filter_append, List.filter_cons, out]
    simp

theorem keys_delete_untouched {key : PropertyName} (out : kept key = false) :
    (map.delete key).keys.filter kept = map.keys.filter kept := by
  rw [OrderedMap.keys_delete, List.filter_filter]
  apply List.filter_congr
  intro other _
  by_cases same : other = key
  · rw [same, out, Bool.false_and]
  · simp [same]

theorem keys_foldl_untouched (keys : List PropertyName)
    {map : OrderedMap PropertyName Value}
    (out : ∀ key ∈ keys, kept key = false) :
    (keys.foldl OrderedMap.delete map).keys.filter kept =
      map.keys.filter kept := by
  induction keys generalizing map with
  | nil => rfl
  | cons key keys ih =>
      rw [List.foldl_cons,
        ih fun other member => out other (List.mem_cons_of_mem _ member),
        keys_delete_untouched (out key List.mem_cons_self)]

end Untouched

def Operation.leaves (operation : Operation) (key : PropertyName) : Bool :=
  decide (key ∉ operation.touches)

theorem Operation.leaves_touched {operation : Operation} {key : PropertyName}
    (touched : key ∈ operation.touches) : operation.leaves key = false := by
  simp [Operation.leaves, touched]

theorem Operation.touched_of_leaves {operation : Operation}
    {key : PropertyName} (left : ¬operation.leaves key = true) :
    key ∈ operation.touches := by
  simpa [Operation.leaves] using left

theorem MemoryStore.untouched (store : MemoryStore) (sha256 : Bytes → Text)
    (now : Nat) (operation : Operation) :
    (store.step sha256 now operation).1.objects.keys.filter operation.leaves =
      store.objects.keys.filter operation.leaves := by
  cases operation with
  | put key value options =>
      simp only [step, put_eq]
      exact keys_set_untouched (Operation.leaves_touched List.mem_cons_self) _
  | delete keys =>
      exact keys_foldl_untouched keys fun key member =>
        Operation.leaves_touched member
  | complete key uploadId uploadedParts =>
      simp only [step]
      split
      · rfl
      · split
        · rfl
        · simp only [put_eq]
          exact keys_set_untouched
            (Operation.leaves_touched List.mem_cons_self) _
  | head | get | resumeMultipartUpload | uploadPart | abort =>
      simp only [step]
      split <;> rfl
  | list | createMultipartUpload => rfl

/-- The options of a listing that its sorted keys depend on. -/
def selecting (keyPrefix : Option Text) : ListOptions :=
  ⟨keyPrefix, none, none, none⟩

theorem MemoryStore.head_ne_missing (store : MemoryStore)
    (sha256 : Bytes → Text) (now : Nat) (key : PropertyName) :
    (store.step sha256 now (.head key)).2 ≠ .missing ↔
      (store.map.objects key).isSome = true := by
  simp only [step, head, map]
  cases store.objects.get? key with
  | none | some => simp

def sortedMemory (sha256 : Bytes → Text) :
    SortedStore (createInMemoryObjectStore sha256) unitOrdered where
  Sound _ := True
  listed state keyPrefix := MemoryStore.listed state (selecting keyPrefix)
  initial := trivial
  step _ _ _ _ := trivial
  nodup state keyPrefix :=
    (MemoryStore.lists_listed state (selecting keyPrefix)).nodup
  mem_iff now state keyPrefix key _ := by
    have shown := MemoryStore.head_ne_missing state sha256 now key
    have listed := (MemoryStore.lists_listed state (selecting keyPrefix)).mem_iff
    exact (listed key).trans (and_congr_left' shown.symm)
  answer now options state _ := by
    refine ⟨_, MemoryStore.list_shows state now options, ?_⟩
    apply keys_of_views
    intro key member
    exact MemoryStore.listed_shown state now
      ((slice_sublist _ _ _).subset member)
  stays now operation state keyPrefix front _ listed later := by
    have same := MemoryStore.untouched state sha256 now operation
    refine @front_stays _ unitOrdered _ _ _ _ _ _ operation.leaves ?_ listed ?_
    · rw [List.filter_comm, ← same, List.filter_comm]
      rfl
    · intro known member key left
      exact later key (Operation.touched_of_leaves left) known member

theorem FileStore.head_ne_missing (store : FileStore) (sha256 : Bytes → Text)
    (collation : Collation) (now : Nat) (key : PropertyName) :
    (store.step sha256 now collation (.head key)).2 ≠ .missing ↔
      (store.loadState.map.objects key).isSome = true := by
  simp only [step, head, BucketState.map]
  cases store.loadState.objects.get? key with
  | none | some => simp

theorem FileStore.untouched (store : FileStore) (sha256 : Bytes → Text)
    (collation : Collation) (now : Nat) (operation : Operation) :
    (store.step sha256 now collation operation).1.loadState.objects.keys.filter
        operation.leaves =
      store.loadState.objects.keys.filter operation.leaves := by
  cases operation with
  | put key value options =>
      simp only [step, putObject_eq]
      exact keys_set_untouched (Operation.leaves_touched List.mem_cons_self) _
  | delete keys =>
      exact keys_foldl_untouched keys fun key member =>
        Operation.leaves_touched member
  | complete key uploadId uploadedParts =>
      simp only [step]
      split
      · rfl
      · split
        · rfl
        · simp only [putObject_eq]
          exact keys_set_untouched
            (Operation.leaves_touched List.mem_cons_self) _
  | head | get | uploadPart | abort =>
      simp only [step]
      split <;> rfl
  | list | createMultipartUpload => rfl
  | resumeMultipartUpload key uploadId =>
      simp only [step]
      split
      · rfl
      · split <;> rfl

theorem filter_propertyOrder (kept : PropertyName → Bool)
    (names : List PropertyName) :
    (propertyOrder names).filter kept = propertyOrder (names.filter kept) := by
  have total : Std.Total fun left right : PropertyName =>
      (arrayIndex left.val).getD 0 ≤ (arrayIndex right.val).getD 0 :=
    ⟨fun _ _ => Nat.le_total _ _⟩
  have transitive : IsTrans PropertyName fun left right =>
      (arrayIndex left.val).getD 0 ≤ (arrayIndex right.val).getD 0 :=
    ⟨fun _ _ _ => Nat.le_trans⟩
  unfold propertyOrder
  rw [List.filter_append, filter_insertionSort, List.filter_comm,
    List.filter_comm kept]

def sortedFile (sha256 : Bytes → Text) (collation : Collation) :
    SortedStore (createPersistentObjectStore sha256 collation)
      (localeOrdered collation) where
  Sound state := (FileStore.loadState state).Named
  listed state keyPrefix :=
    FileStore.listed collation (FileStore.loadState state) (selecting keyPrefix)
  initial key record found := by
    change (OrderedMap.empty : OrderedMap PropertyName BucketRecord).get? key =
      some record at found
    cases found
  step now operation state named := by
    have related : FileStore.Related state _ (FileStore.loadState state).map :=
      ⟨rfl, named, rfl⟩
    have after := @FileStore.simulates sha256 collation now operation state _ _
      related
    exact after.1.named
  nodup state keyPrefix :=
    (FileStore.lists_listed (selecting keyPrefix)).nodup
  mem_iff now state keyPrefix key _ := by
    have shown := FileStore.head_ne_missing state sha256 collation now key
    have listed := @FileStore.lists_listed collation
      (FileStore.loadState state) (selecting keyPrefix)
    exact (listed.mem_iff key).trans (and_congr_left' shown.symm)
  answer now options state named := by
    refine ⟨_, FileStore.list_shows named options, ?_⟩
    apply keys_of_views
    intro key member
    exact FileStore.listed_shown sha256 named
      ((slice_sublist _ _ _).subset member)
  stays now operation state keyPrefix front _ listed later := by
    have same := FileStore.untouched state sha256 collation now operation
    refine @front_stays _ (localeOrdered collation) _ _ _ _ _ _
      operation.leaves ?_ listed ?_
    · rw [List.filter_comm, filter_propertyOrder, ← same,
        ← filter_propertyOrder, List.filter_comm]
      rfl
    · intro known member key left
      exact later key (Operation.touched_of_leaves left) known member

end Takos.LocalPlatform

/-!
# Agreement of the local object stores

Both stores follow one map through every row of operations, an upload that is
not completed leaves its objects alone, and pages list every key once as long as
changes come after the listed keys.
-/

namespace Takos.LocalPlatform

open Takos.Foundation

section Ranges

variable (bytes : Bytes)

theorem readRange_between (offset length : Nat) :
    readRange bytes ⟨some offset, some length, none⟩ =
      (bytes.drop offset).take length := by
  have stop : min (bytes.length : Int) (offset + length) =
      (min bytes.length (offset + length) : Nat) := by omega
  simp only [readRange, Option.getD_some]
  rw [stop, slice_within bytes (Nat.min_le_left _ _), List.take_eq_take_iff,
    List.length_drop]
  omega

theorem readRange_from (offset : Nat) :
    readRange bytes ⟨some offset, none, none⟩ = bytes.drop offset := by
  simp only [readRange, Option.getD_some]
  rw [slice_within bytes (Nat.le_refl _), ← List.length_drop, List.take_length]

theorem readRange_suffix (offset : Option Int) {suffix : Nat}
    (positive : 0 < suffix) :
    readRange bytes ⟨offset, none, some suffix⟩ =
      bytes.drop (bytes.length - suffix) := by
  have given : (suffix : Int) ≠ 0 := by omega
  have start : max 0 ((bytes.length : Int) - suffix) =
      (bytes.length - suffix : Nat) := by omega
  simp only [readRange, if_pos given]
  rw [start, slice_within bytes (Nat.le_refl _), ← List.length_drop,
    List.take_length]

end Ranges

/-- The operations on an upload before it is completed. -/
def Operation.prepares : Operation → Bool
  | .createMultipartUpload _ _ _ | .resumeMultipartUpload _ _
  | .uploadPart _ _ _ _ | .abort _ _ => true
  | _ => false

theorem objects_of_prepares (sha256 : Bytes → Text) (map : ObjectMap)
    {operation : Operation} (prepares : operation.prepares = true) :
    (map.after sha256 operation).objects = map.objects := by
  cases operation with
  | createMultipartUpload | resumeMultipartUpload => rfl
  | uploadPart | abort =>
      simp only [ObjectMap.after]
      split <;> rfl
  | _ => cases prepares

theorem after_failed_complete {sha256 : Bytes → Text} {map : ObjectMap}
    {key uploadId : PropertyName} {parts : List UploadedPart} {text : Text}
    (failed : map.answer sha256 (.complete key uploadId parts) = .error text) :
    map.after sha256 (.complete key uploadId parts) = map := by
  simp only [ObjectMap.answer, ObjectMap.after] at failed ⊢
  cases made : map.assembled key uploadId parts with
  | error text => rfl
  | ok object =>
      rw [made] at failed
      cases failed

section Stores

variable (sha256 : Bytes → Text)

/-- How a store answers rows of operations and lists pages. -/
structure Faithful (store : ObjectStore)
    (ordered : PropertyName → PropertyName → Prop) (loaded : Bool) : Prop where
  follows : ∀ operations, ObjectMap.Follows sha256 ordered loaded .empty
    operations ((store.answers operations store.initial).map
      (StoreAnswer.map ObjectView.seen))
  pages : PagesListOnce store ordered

/-- What the map says of ranges and uploads. -/
structure MapLaws : Prop where
  between : ∀ (bytes : Bytes) (offset length : Nat),
    readRange bytes ⟨some offset, some length, none⟩ =
      (bytes.drop offset).take length
  fromOffset : ∀ (bytes : Bytes) (offset : Nat),
    readRange bytes ⟨some offset, none, none⟩ = bytes.drop offset
  suffix : ∀ (bytes : Bytes) (offset : Option Int) (suffix : Nat), 0 < suffix →
    readRange bytes ⟨offset, none, some suffix⟩ =
      bytes.drop (bytes.length - suffix)
  prepared : ∀ (map : ObjectMap) (operation : Operation),
    operation.prepares = true →
      (map.after sha256 operation).objects = map.objects
  failed : ∀ (map : ObjectMap) (key uploadId : PropertyName)
    (parts : List UploadedPart) (text : Text),
    map.answer sha256 (.complete key uploadId parts) = .error text →
      map.after sha256 (.complete key uploadId parts) = map

theorem memory_faithful :
    Faithful sha256 (createInMemoryObjectStore sha256) unitOrdered true where
  follows operations := by
    apply @follows_of_simulation sha256 unitOrdered
      (createInMemoryObjectStore sha256)
      (fun state loaded map => loaded = true ∧ MemoryStore.map state = map)
    · rintro now operation state loaded map ⟨checks, rfl⟩
      obtain ⟨after, answered⟩ :=
        MemoryStore.simulates state now operation loaded checks
      refine ⟨⟨?_, after⟩, answered⟩
      rw [checks, Bool.true_or]
    · exact ⟨rfl, rfl⟩
  pages := (sortedMemory sha256).pagesListOnce

theorem file_faithful (collation : Collation) :
    Faithful sha256 (createPersistentObjectStore sha256 collation)
      (localeOrdered collation) false where
  follows operations := by
    apply @follows_of_simulation sha256 (localeOrdered collation)
      (createPersistentObjectStore sha256 collation) FileStore.Related
    · intro now operation state loaded map related
      exact FileStore.simulates now operation state loaded map related
    · refine ⟨rfl, ?_, rfl⟩
      intro key record found
      change (OrderedMap.empty : OrderedMap PropertyName BucketRecord).get? key =
        some record at found
      cases found
  pages := (sortedFile sha256 collation).pagesListOnce

/-- The object store in memory and the file-backed one answer like one map, up to
the order of listings, etags and times. -/
theorem objectStores_agree (collation : Collation) :
    Faithful sha256 (createInMemoryObjectStore sha256) unitOrdered true ∧
      Faithful sha256 (createPersistentObjectStore sha256 collation)
        (localeOrdered collation) false ∧
      MapLaws sha256 :=
  ⟨memory_faithful sha256, file_faithful sha256 collation, readRange_between,
    readRange_from, fun bytes offset _ => readRange_suffix bytes offset,
    fun map _ => objects_of_prepares sha256 map,
    fun _ _ _ _ _ => after_failed_complete⟩

end Stores

namespace HiddenKey

def first : PropertyName := ⟨['a'], by decide⟩

def second : PropertyName := ⟨['b'], by decide⟩

def page (cursor : Option Text) : Operation :=
  .list ⟨none, some 1, cursor, none⟩

def operations : List (Nat × Operation) :=
  [(0, .put first .null ⟨none, none, none⟩),
    (1, .put second .null ⟨none, none, none⟩), (2, page none),
    (3, .delete [first]), (4, page (some ['1'])), (5, .head second)]

/-- The keys that an answer shows, and the cursor of a listing. -/
def shown : StoreAnswer ObjectView → List Text × Option Text
  | .object view => ([view.key.val], none)
  | .listing objects _ cursor _ =>
    (objects.map fun view => view.key.val, cursor)
  | _ => ([], none)

def expected : List (List Text × Option Text) :=
  [([['a']], none), ([['b']], none), ([['a']], some ['1']), ([], none),
    ([], none), ([['b']], none)]

end HiddenKey

open HiddenKey in
/-- The second key is in both stores throughout and on neither page. -/
theorem paging_hides_a_key :
    ((createInMemoryObjectStore fun _ => []).answers operations
      ⟨.empty, .empty⟩).map shown = expected ∧
    ((createPersistentObjectStore (fun _ => []) charCollation).answers operations
      ⟨⟨.empty, .empty⟩, none⟩).map shown = expected := by
  constructor
  · rfl
  · rfl

end Takos.LocalPlatform
