import Takos.DurableObjects.Routing
import Takos.DurableObjects.RoutingAlarms
import Mathlib.Data.Option.Basic

/-!
# Cached routing values

What the key-value store holds for a hostname: a target with two stamps, or a
tombstone.  Reading a written value gives the target back with its stamps.
-/

namespace Takos.HostnameRouting

open Takos.Foundation Takos.DurableObjects

/-- Functions of the language on texts; `number` and `date` give finite
numbers. -/
structure TextFunctions where
  toLowerCase : Text → Text
  number : Text → Option ℚ
  date : Text → Option ℚ

/-- A target by its declared fields; the entries are JSON values. -/
inductive RoutingTarget where
  | deployments (entries : List (Json ℚ))
  | httpEndpointSet (endpoints : List (Json ℚ))

def RoutingTarget.json : RoutingTarget → Json ℚ
  | .deployments entries =>
    .object [("type".toList, .string "deployments".toList),
      ("deployments".toList, .array entries)]
  | .httpEndpointSet endpoints =>
    .object [("type".toList, .string "http-endpoint-set".toList),
      ("endpoints".toList, .array endpoints)]

def toSingleDeploymentTarget (routeRef : Text) : RoutingTarget :=
  .deployments [.object [("routeRef".toList, .string routeRef),
    ("weight".toList, .number 100), ("status".toList, .string "active".toList)]]

inductive RawFormat where
  | empty | json | unknown

structure ParsedRoutingValue where
  target : Option (Json ℚ)
  version : Option ℚ
  updatedAt : Option ℚ
  tombstoneUntil : Option ℚ
  rawFormat : RawFormat

/-- A stored text: the JSON value that it holds, or a text that holds none. -/
inductive KvText where
  | json (value : Json ℚ)
  | other (text : Text)

section Reading

variable (texts : TextFunctions)

def positiveNumber (number : Option ℚ) : Option ℚ :=
  number.filter fun value => 0 < value

def parseEpochMillis : Option (Json ℚ) → Option ℚ
  | some (.number raw) => positiveNumber (some raw)
  | some (.string raw) =>
    if raw.trim = [] then none
    else
      match positiveNumber (texts.number raw) with
      | some number => some number
      | none => positiveNumber (texts.date raw)
  | _ => none

def versionNumber : Option (Json ℚ) → Option ℚ
  | some (.number version) => some version
  | _ => none

def isTrue : Option (Json ℚ) → Bool
  | some (.bool true) => true
  | _ => false

def unknownValue : ParsedRoutingValue := ⟨none, none, none, none, .unknown⟩

/-- The branch for objects, which arrays enter too. -/
def parseRoutingObject (obj : Json ℚ) : ParsedRoutingValue :=
  let tombstoneUntil := parseEpochMillis texts (obj.field "tombstoneUntil".toList)
  let updatedAt := parseEpochMillis texts (obj.field "updatedAt".toList)
  let version := versionNumber (obj.field "version".toList)
  if isTrue (obj.field "tombstone".toList) || tombstoneUntil.isSome then
    ⟨none, version, updatedAt, tombstoneUntil, .json⟩
  else if isRoutingTarget obj then
    ⟨some obj, version, updatedAt, tombstoneUntil, .json⟩
  else unknownValue

def parseRoutingValue : Option KvText → ParsedRoutingValue
  | none => ⟨none, none, none, none, .empty⟩
  | some (.other text) =>
    if text = [] then ⟨none, none, none, none, .empty⟩ else unknownValue
  | some (.json (.string routeRef)) =>
    if routeRef = [] then unknownValue
    else
      ⟨some (toSingleDeploymentTarget routeRef).json, none, none, none, .json⟩
  | some (.json (.object fields)) => parseRoutingObject texts (.object fields)
  | some (.json (.array items)) => parseRoutingObject texts (.array items)
  | some (.json _) => unknownValue

end Reading

def l2MaxAge : ℚ := 90000

def shouldUseKvValue (parsed : ParsedRoutingValue) (now : ClockReading) :
    Bool :=
  match parsed.target, parsed.updatedAt with
  | some _, some updatedAt =>
    updatedAt ≠ 0 && decide ((now.ms : ℚ) - updatedAt ≤ l2MaxAge)
  | _, _ => false

/-- A field of an object literal after a spread; a field that is `undefined`
is not written. -/
def assignField (fields : List (Text × Json ℚ)) (key : Text)
    (value : Option ℚ) : List (Text × Json ℚ) :=
  match value with
  | none => fields.filter fun entry => entry.1 ≠ key
  | some number =>
    if fields.any fun entry => entry.1 = key then
      fields.map fun entry =>
        if entry.1 = key then (key, .number number) else entry
    else fields ++ [(key, .number number)]

def spreadFields : Json ℚ → List (Text × Json ℚ)
  | .object fields => fields
  | _ => []

def buildKVPayload (target : Option (Json ℚ)) (updatedAt : ℚ)
    (version tombstoneUntil : Option ℚ) : KvText :=
  match target with
  | none =>
    let fields := assignField [("tombstone".toList, .bool true)]
      "tombstoneUntil".toList tombstoneUntil
    let stamped := assignField fields "updatedAt".toList (some updatedAt)
    .json (.object (assignField stamped "version".toList version))
  | some target =>
    let stamped := assignField (spreadFields target) "updatedAt".toList
      (some updatedAt)
    .json (.object (assignField stamped "version".toList version))

/-- Equal in all fields but the two stamps of a written value. -/
def SameTarget (stored returned : Json ℚ) : Prop :=
  ∀ key, key ≠ "updatedAt".toList → key ≠ "version".toList →
    returned.field key = stored.field key

theorem SameTarget.refl (target : Json ℚ) : SameTarget target target :=
  fun _ _ _ => rfl

theorem positiveNumber_of_pos {number : ℚ} (positive : 0 < number) :
    positiveNumber (some number) = some number := by
  simp [positiveNumber, Option.filter, positive]

theorem assignField_fresh {fields : List (Text × Json ℚ)} {key : Text}
    (fresh : key ∉ fields.map Prod.fst) (value : Option ℚ) :
    assignField fields key value = fields ++
      (value.map fun number => (key, Json.number number)).toList := by
  have other : ∀ entry ∈ fields, entry.1 ≠ key := by
    intro entry member same
    exact fresh (same ▸ List.mem_map_of_mem member)
  cases value with
  | none =>
      simp only [assignField, Option.map_none, Option.toList_none,
        List.append_nil]
      exact List.filter_eq_self.mpr fun entry member => by
        simpa using other entry member
  | some number =>
      have absent : (fields.any fun entry => entry.1 = key) = false := by
        apply List.any_eq_false.mpr
        intro entry member
        simpa using other entry member
      simp only [assignField, absent, Bool.false_eq_true, if_false,
        Option.map_some, Option.toList_some]

/-- The stamps of a written value, behind its other fields. -/
def stamps (updatedAt : ℚ) (version : Option ℚ) : List (Text × Json ℚ) :=
  [("updatedAt".toList, .number updatedAt)] ++
    (version.map fun number => ("version".toList, Json.number number)).toList

theorem assign_stamps {fields : List (Text × Json ℚ)}
    (unstamped : "updatedAt".toList ∉ fields.map Prod.fst)
    (unversioned : "version".toList ∉ fields.map Prod.fst) (updatedAt : ℚ)
    (version : Option ℚ) :
    assignField (assignField fields "updatedAt".toList (some updatedAt))
      "version".toList version = fields ++ stamps updatedAt version := by
  rw [assignField_fresh unstamped, assignField_fresh]
  · simp only [stamps, Option.map_some, Option.toList_some, List.append_assoc]
  · intro member
    rw [List.map_append, List.mem_append] at member
    rcases member with old | new
    · exact unversioned old
    · rw [Option.map_some, Option.toList_some, List.map_singleton,
        List.mem_singleton] at new
      exact absurd new (show "version".toList ≠ "updatedAt".toList by decide)

theorem field_spread (target : RoutingTarget)
    (more : List (Text × Json ℚ)) (key : Text) :
    (Json.object (spreadFields target.json ++ more)).field key =
      (target.json.field key).or ((Json.object more).field key) := by
  cases target <;>
    simp only [RoutingTarget.json, spreadFields, Json.field,
      List.lookup_append]

theorem field_stamps {key : Text} (noStamp : key ≠ "updatedAt".toList)
    (noVersion : key ≠ "version".toList) (updatedAt : ℚ)
    (version : Option ℚ) :
    (Json.object (stamps updatedAt version)).field key = none := by
  have first : (key == "updatedAt".toList) = false := beq_false_of_ne noStamp
  have second : (key == "version".toList) = false := beq_false_of_ne noVersion
  cases version <;>
    simp only [stamps, Json.field, List.lookup_append, List.lookup_cons,
      List.lookup_nil, Option.map, Option.toList, first, second,
      Option.or_none]

theorem sameTarget_stamped (target : RoutingTarget) (updatedAt : ℚ)
    (version : Option ℚ) :
    SameTarget target.json
      (.object (spreadFields target.json ++ stamps updatedAt version)) := by
  intro key noStamp noVersion
  rw [field_spread, field_stamps noStamp noVersion, Option.or_none]

theorem isRoutingTarget_congr {stored returned : Json ℚ}
    (same : SameTarget stored returned) :
    isRoutingTarget returned = isRoutingTarget stored := by
  unfold isRoutingTarget
  rw [same _ (by decide) (by decide), same _ (by decide) (by decide),
    same _ (by decide) (by decide)]

theorem field_unstamped (target : RoutingTarget) {key : Text}
    (noType : key ≠ "type".toList) (noDeployments : key ≠ "deployments".toList)
    (noEndpoints : key ≠ "endpoints".toList) :
    target.json.field key = none := by
  cases target <;>
    simp only [RoutingTarget.json, Json.field, List.lookup_cons,
      List.lookup_nil, beq_false_of_ne noType, beq_false_of_ne noDeployments,
      beq_false_of_ne noEndpoints]

theorem buildKVPayload_target (target : RoutingTarget) (updatedAt : ℚ)
    (version tombstoneUntil : Option ℚ) :
    buildKVPayload (some target.json) updatedAt version tombstoneUntil =
      .json (.object (spreadFields target.json ++ stamps updatedAt version)) := by
  unfold buildKVPayload
  dsimp only
  rw [assign_stamps]
  · cases target <;>
      simp only [RoutingTarget.json, spreadFields, List.map_cons, List.map_nil] <;>
      decide
  · cases target <;>
      simp only [RoutingTarget.json, spreadFields, List.map_cons, List.map_nil] <;>
      decide

theorem parse_target (texts : TextFunctions) {target : RoutingTarget}
    (valid : isRoutingTarget target.json = true) {updatedAt : ℚ}
    (positive : 0 < updatedAt) (version tombstoneUntil : Option ℚ) :
    ∃ returned parsedVersion, SameTarget target.json returned ∧
      parseRoutingValue texts (some (buildKVPayload (some target.json) updatedAt
        version tombstoneUntil)) =
          ⟨some returned, parsedVersion, some updatedAt, none, .json⟩ := by
  have same := sameTarget_stamped target updatedAt version
  refine ⟨_, versionNumber ((Json.object (spreadFields target.json ++
    stamps updatedAt version)).field "version".toList), same, ?_⟩
  rw [buildKVPayload_target]
  have live : (Json.object (spreadFields target.json ++
      stamps updatedAt version)).field "tombstone".toList = none := by
    rw [same _ (by decide) (by decide)]
    exact field_unstamped target (by decide) (by decide) (by decide)
  have forever : (Json.object (spreadFields target.json ++
      stamps updatedAt version)).field "tombstoneUntil".toList = none := by
    rw [same _ (by decide) (by decide)]
    exact field_unstamped target (by decide) (by decide) (by decide)
  have stamped : (Json.object (spreadFields target.json ++
      stamps updatedAt version)).field "updatedAt".toList =
        some (.number updatedAt) := by
    rw [field_spread, field_unstamped target (by decide) (by decide)
      (by decide), Option.none_or]
    rfl
  simp only [parseRoutingValue, parseRoutingObject, live, forever, stamped,
    parseEpochMillis, isTrue, Option.isSome_none, Bool.or_self,
    Bool.false_eq_true, if_false, isRoutingTarget_congr same, valid, if_true,
    positiveNumber_of_pos positive]

theorem parse_tombstone (texts : TextFunctions) (updatedAt : ℚ)
    (version tombstoneUntil : Option ℚ) :
    ∃ parsedVersion parsedUpdatedAt, parseRoutingValue texts
      (some (buildKVPayload none updatedAt version tombstoneUntil)) =
        ⟨none, parsedVersion, parsedUpdatedAt, positiveNumber tombstoneUntil,
          .json⟩ := by
  refine ⟨version, positiveNumber (some updatedAt), ?_⟩
  cases version <;> cases tombstoneUntil <;> rfl

end Takos.HostnameRouting

/-!
# The records of the routing object

A record holds a valid target or a tombstone with an end.  Only a put and a
deletion write a record; a get and the alarm take away tombstones.
-/

namespace Takos.HostnameRouting

open Takos.Foundation Takos.DurableObjects

/-- A target that was checked, or a tombstone that ends within a limit. -/
inductive RecordSound (limit : ℚ) : StoredRoutingRecord ℚ → Prop where
  | tombstone {version : Nat} {updatedAt tombstoneUntil : ℚ} :
      tombstoneUntil ≤ limit →
      RecordSound limit ⟨none, version, updatedAt, some tombstoneUntil⟩
  | route {target : RoutingTarget} {version : Nat} {updatedAt : ℚ} :
      isRoutingTarget target.json = true →
      RecordSound limit ⟨some target.json, version, updatedAt, none⟩

theorem RecordSound.later {limit later : ℚ} {record : StoredRoutingRecord ℚ}
    (sound : RecordSound limit record) (order : limit ≤ later) :
    RecordSound later record := by
  cases sound with
  | tombstone ends => exact .tombstone (ends.trans order)
  | route valid => exact .route valid

def RoutesSound (limit : ℚ) (storage : RoutingStorage ℚ) : Prop :=
  ∀ host record, storage.load host = some record → RecordSound limit record

/-- Every record was there before. -/
def FewerRoutes (after before : RoutingStorage ℚ) : Prop :=
  ∀ host record, after.load host = some record → before.load host = some record

theorem FewerRoutes.of_eq {after before : RoutingStorage ℚ}
    (same : after.routes = before.routes) : FewerRoutes after before := by
  intro host record found
  rw [RoutingStorage.load, same] at found
  exact found

theorem FewerRoutes.trans {first second third : RoutingStorage ℚ}
    (right : FewerRoutes third second) (left : FewerRoutes second first) :
    FewerRoutes third first :=
  fun host record found => left host record (right host record found)

theorem FewerRoutes.sound {limit : ℚ} {after before : RoutingStorage ℚ}
    (fewer : FewerRoutes after before) (sound : RoutesSound limit before) :
    RoutesSound limit after :=
  fun host record found => sound host record (fewer host record found)

theorem RoutesSound.later {limit later : ℚ} {storage : RoutingStorage ℚ}
    (sound : RoutesSound limit storage) (order : limit ≤ later) :
    RoutesSound later storage :=
  fun host record found => (sound host record found).later order

theorem routes_scheduled (storage : RoutingStorage ℚ) (now : ClockReading) :
    (storage.scheduleNextCleanupAlarm now).routes = storage.routes := by
  unfold RoutingStorage.scheduleNextCleanupAlarm
  split
  · rfl
  · split <;> rfl

theorem routes_deleteTombstoneIndex (storage : RoutingStorage ℚ)
    (hostname : Text) (prev : Option (StoredRoutingRecord ℚ)) :
    (storage.deleteTombstoneIndex hostname prev).routes = storage.routes := by
  unfold RoutingStorage.deleteTombstoneIndex
  split
  · split <;> rfl
  · rfl

theorem fewer_deleteRecord (storage : RoutingStorage ℚ) (hostname : Text) :
    FewerRoutes (storage.deleteRecord hostname) storage := by
  intro host record found
  simp only [RoutingStorage.load, RoutingStorage.deleteRecord,
    OrderedMap.get?_delete] at found
  split at found
  · cases found
  · exact found

theorem fewer_dropTombstone (storage : RoutingStorage ℚ) (key : Text)
    (parsed : Option (Nat × Text)) :
    FewerRoutes (storage.dropTombstone key parsed) storage := by
  unfold RoutingStorage.dropTombstone
  split
  · exact .of_eq rfl
  · split
    · exact .of_eq rfl
    · split
      · exact fewer_deleteRecord storage _
      · exact .of_eq rfl

theorem fewer_cleanupBatch (now : ClockReading) (batch : List Text)
    (storage : RoutingStorage ℚ) :
    FewerRoutes (RoutingStorage.cleanupBatch now storage batch).1 storage := by
  induction batch generalizing storage with
  | nil => exact .of_eq rfl
  | cons key rest ih =>
      unfold RoutingStorage.cleanupBatch
      split
      · split
        · exact .of_eq rfl
        · exact (ih _).trans (fewer_dropTombstone storage _ _)
      · exact (ih _).trans (fewer_dropTombstone storage _ _)

theorem fewer_cleanup (now : ClockReading) (storage : RoutingStorage ℚ) :
    FewerRoutes (RoutingStorage.cleanupExpiredTombstones now storage)
      storage := by
  induction storage using
      RoutingStorage.cleanupExpiredTombstones.induct now with
  | case1 storage listed =>
      rw [RoutingStorage.cleanupExpiredTombstones]
      split
      · exact .of_eq rfl
      · rename_i other
        rw [listed] at other
        cases other
  | case2 storage first rest listed next round =>
      rw [RoutingStorage.cleanup_of_stop listed round]
      have batch := fewer_cleanupBatch now (first :: rest.take 127) storage
      rw [round] at batch
      exact batch
  | case3 storage first rest listed next round ih =>
      rw [RoutingStorage.cleanup_of_round listed round]
      have batch := fewer_cleanupBatch now (first :: rest.take 127) storage
      rw [round] at batch
      exact ih.trans batch

theorem fewer_alarm (storage : RoutingStorage ℚ)
    (now cleaned scheduled : ClockReading) :
    FewerRoutes (storage.handleAlarm now cleaned scheduled) storage := by
  have advanced : (RoutingStorage.advanceRollout
      { storage with alarm := none } now).routes = storage.routes := by
    unfold RoutingStorage.advanceRollout
    split
    · split <;> rfl
    · rfl
  unfold RoutingStorage.handleAlarm
  apply FewerRoutes.trans (.of_eq (routes_scheduled _ scheduled))
  exact (fewer_cleanup cleaned _).trans (.of_eq advanced)

section Handlers

variable (toLowerCase : Text → Text) {storage : RoutingStorage ℚ}

/-- The name under which the object keeps a hostname. -/
def objectName (hostname : Text) : Option Text :=
  DurableObjects.normalizeHostname toLowerCase (.text hostname)

theorem named_eq (hostname : Text) :
    DurableObjects.normalizeHostname toLowerCase (.text hostname) =
      objectName toLowerCase hostname := rfl

def storedTarget (storage : RoutingStorage ℚ) (hostname : Text) :
    Option (Json ℚ) :=
  ((objectName toLowerCase hostname).bind storage.load).bind
    StoredRoutingRecord.target

theorem get_cases (storage : RoutingStorage ℚ) (hostname : Text)
    (now : ClockReading) :
    FewerRoutes
        (storage.handleGet toLowerCase (.text hostname) now now).1 storage ∧
      ((storage.handleGet toLowerCase (.text hostname) now now).2 = .noRecord ∧
          ((objectName toLowerCase hostname).bind (storage.handleGet toLowerCase
            (.text hostname) now now).1.load) = none ∨
        ∃ host record, (storage.handleGet toLowerCase (.text hostname)
            now now).2 = .record host record ∧
          (objectName toLowerCase hostname).bind (storage.handleGet toLowerCase
            (.text hostname) now now).1.load = some record) := by
  unfold RoutingStorage.handleGet
  rw [named_eq]
  cases named : objectName toLowerCase hostname with
  | none => exact ⟨.of_eq rfl, .inl ⟨rfl, rfl⟩⟩
  | some host =>
      cases loaded : storage.load host with
      | none =>
          simp only
          rw [loaded]
          exact ⟨.of_eq rfl, .inl ⟨rfl, loaded⟩⟩
      | some record =>
          simp only [loaded]
          split
          · split
            · refine ⟨?_, .inl ⟨rfl, ?_⟩⟩
              · apply FewerRoutes.trans (.of_eq (routes_scheduled _ now))
                exact fewer_deleteRecord _ _
              · rw [Option.bind_some, RoutingStorage.load, routes_scheduled]
                simp only [RoutingStorage.deleteRecord,
                  OrderedMap.get?_delete, if_true]
            · exact ⟨.of_eq rfl, .inr ⟨host, record, rfl, loaded⟩⟩
          · exact ⟨.of_eq rfl, .inr ⟨host, record, rfl, loaded⟩⟩

theorem put_cases (storage : RoutingStorage ℚ) (hostname : Text)
    (target : RoutingTarget) (updatedAt : ℚ) (now : ClockReading) :
    (∃ message, storage.handlePut toLowerCase (.text hostname) target.json
        (some updatedAt) now now = (storage, .error message)) ∨
    ∃ host record, objectName toLowerCase hostname = some host ∧
      isRoutingTarget target.json = true ∧
      (storage.handlePut toLowerCase (.text hostname) target.json
        (some updatedAt) now now).2 = .record host record ∧
      record.target = some target.json ∧ record.tombstoneUntil = none ∧
      ∀ other, (storage.handlePut toLowerCase (.text hostname) target.json
        (some updatedAt) now now).1.load other =
          if other = host then some record else storage.load other := by
  unfold RoutingStorage.handlePut
  rw [named_eq]
  cases named : objectName toLowerCase hostname with
  | none => exact .inl ⟨_, rfl⟩
  | some host =>
      cases valid : isRoutingTarget target.json with
      | false =>
          exact .inl ⟨_, rfl⟩
      | true =>
          simp only [Bool.not_true, Bool.false_eq_true, if_false]
          refine .inr ⟨host, _, rfl, trivial, rfl, rfl, rfl, ?_⟩
          intro other
          rw [RoutingStorage.load, routes_scheduled]
          simp only [RoutingStorage.save, routes_deleteTombstoneIndex,
            OrderedMap.get?_set]
          rfl

theorem delete_cases (storage : RoutingStorage ℚ) (hostname : Text)
    (tombstoneTtlMs updatedAt : Option ℚ) (now : ClockReading) :
    (∃ message, storage.handleDelete toLowerCase (.text hostname)
        tombstoneTtlMs updatedAt now now = (storage, .error message)) ∨
    ∃ host record, objectName toLowerCase hostname = some host ∧
      (storage.handleDelete toLowerCase (.text hostname) tombstoneTtlMs
        updatedAt now now).2 = .record host record ∧
      record.target = none ∧ record.tombstoneUntil =
        some (now.ms + RoutingStorage.tombstoneTtl tombstoneTtlMs) ∧
      ∀ other, (storage.handleDelete toLowerCase (.text hostname)
        tombstoneTtlMs updatedAt now now).1.load other =
          if other = host then some record else storage.load other := by
  unfold RoutingStorage.handleDelete
  rw [named_eq]
  cases named : objectName toLowerCase hostname with
  | none => exact .inl ⟨_, rfl⟩
  | some host =>
      refine .inr ⟨host, _, rfl, rfl, rfl, rfl, ?_⟩
      intro other
      rw [RoutingStorage.load, routes_scheduled]
      simp only [RoutingStorage.putTombstoneKey, RoutingStorage.save,
        routes_deleteTombstoneIndex, OrderedMap.get?_set]
      rfl

theorem tombstoneTtl_le {tombstoneTtlMs lifetime : ℚ}
    (within : tombstoneTtlMs ≤ lifetime) :
    RoutingStorage.tombstoneTtl (some tombstoneTtlMs) ≤ max l2MaxAge lifetime := by
  unfold RoutingStorage.tombstoneTtl l2MaxAge
  apply max_le
  · exact le_max_of_le_left (by norm_num)
  · exact (min_le_left _ _).trans (le_max_of_le_right within)

end Handlers

end Takos.HostnameRouting
