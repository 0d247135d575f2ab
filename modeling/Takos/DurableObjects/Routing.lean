import Takos.Foundation.Decimals
import Takos.Foundation.HexKeys
import Takos.Foundation.Json
import Takos.Foundation.OrderedMap
import Takos.DurableObjects.RunNotifier
import Mathlib.Algebra.Order.Floor.Semiring
import Mathlib.Data.Rat.Floor

/-!
# The routing object

Route records, an index of tombstones by expiry, one rollout alarm record and
the one alarm slot of the object.  Requests and the alarm run one at a time.
-/

namespace Takos.DurableObjects

open Takos.Foundation

/-- A reading of `Date.now()`, in milliseconds. -/
structure ClockReading where
  ms : Nat
  positive : 0 < ms
  bounded : ms ≤ 8640000000000000

variable {Number : Type}

structure StoredRoutingRecord (Number : Type) where
  target : Option (Json Number)
  version : Nat
  updatedAt : ℚ
  tombstoneUntil : Option ℚ

structure RolloutAlarm where
  hostname : Text
  alarmAt : ℚ
  deriving DecidableEq

structure PendingAdvance where
  hostname : Text
  triggeredAt : Nat

/-- Records by hostname, index keys, the two rollout entries and the alarm. -/
structure RoutingStorage (Number : Type) where
  routes : OrderedMap Text (StoredRoutingRecord Number)
  tombstones : List Text
  rolloutAlarm : Option RolloutAlarm
  pendingAdvance : Option PendingAdvance
  alarm : Option ℚ

def padExpiryHex (expiryMs : ℚ) : Text := HexKeys.padHex 16 ⌊expiryMs⌋₊

def tombstonePrefix : Text := "t:".toList

def tombstoneKey (tombstoneUntilMs : ℚ) (hostname : Text) : Text :=
  tombstonePrefix ++ padExpiryHex tombstoneUntilMs ++ ':' :: hostname

/-- `parseInt(text, 16)` without its sign; `none` where it is not positive. -/
def parseHexInt (text : Text) : Option Nat :=
  match Text.trimStart text with
  | '-' :: _ => none
  | '+' :: rest => magnitude rest
  | rest => magnitude rest
where
  magnitude (text : Text) : Option Nat :=
    match text with
    | '0' :: 'x' :: rest => digits rest
    | '0' :: 'X' :: rest => digits rest
    | rest => digits rest
  digits (text : Text) : Option Nat :=
    let hex := (text.map Char.toLower).takeWhile HexKeys.isHexDigit
    let number := roundDouble (HexKeys.value hex)
    if hex ≠ [] ∧ number < doubleLimit ∧ 0 < number then some number else none

/-- The expiry and the hostname of an index key. -/
def parseTombstoneKey (key : Text) : Option (Nat × Text) :=
  if !Text.startsWith key tombstonePrefix then none
  else
    let rest := key.drop tombstonePrefix.length
    let hex := rest.takeWhile fun char => char ≠ ':'
    match rest.drop hex.length with
    | [] => none
    | _ :: hostname =>
      if hostname = [] then none
      else (parseHexInt hex).map fun expiry => (expiry, hostname)

def isAlnum (char : Char) : Bool :=
  char.isDigit || ('a' ≤ char && char ≤ 'z')

/-- `/^[a-z0-9](?:[a-z0-9-]{0,61}[a-z0-9])?$/`. -/
def isLabel (label : Text) : Bool :=
  label.length ≤ 63 && label.all (fun char => isAlnum char || char = '-') &&
    label.head?.any isAlnum && label.getLast?.any isAlnum

def normalizeHostname (toLowerCase : Text → Text) : BodyField → Option Text
  | .text raw =>
    let hostname := toLowerCase raw.trim
    if hostname = [] ∨ 253 < hostname.size then none
    else if (Text.split '.' hostname).all isLabel then some hostname
    else none
  | _ => none

def isDeploymentEntry (entry : Json Number) : Bool :=
  match (entry.field "routeRef".toList).bind Json.text with
  | some routeRef => routeRef ≠ []
  | none => false

def isRoutingTarget (value : Json Number) : Bool :=
  match (value.field "type".toList).bind Json.text with
  | some type =>
    if type = "deployments".toList then
      match value.field "deployments".toList with
      | some (.array deployments) => deployments.any isDeploymentEntry
      | _ => false
    else if type = "http-endpoint-set".toList then
      match value.field "endpoints".toList with
      | some (.array endpoints) => endpoints ≠ []
      | _ => false
    else false
  | none => false

inductive RoutingResponse (Number : Type) where
  | noRecord
  | record (hostname : Text) (record : StoredRoutingRecord Number)
  | error (message : Text)
  | scheduled (alarmAt : ℚ)
  | cancelled
  | pending (advance : Option PendingAdvance)

namespace RoutingStorage

def empty : RoutingStorage Number := ⟨.empty, [], none, none, none⟩

variable (storage : RoutingStorage Number)

/-- `storage.list` with the prefix of the index: keys in their order. -/
def listTombstones : List Text := storage.tombstones.mergeSort (· ≤ ·)

def load (hostname : Text) : Option (StoredRoutingRecord Number) :=
  storage.routes.get? hostname

def save (hostname : Text) (record : StoredRoutingRecord Number) :
    RoutingStorage Number :=
  { storage with routes := storage.routes.set hostname record }

def deleteRecord (hostname : Text) : RoutingStorage Number :=
  { storage with routes := storage.routes.delete hostname }

def putTombstoneKey (key : Text) : RoutingStorage Number :=
  { storage with tombstones := storage.tombstones.insert key }

def deleteTombstoneKey (key : Text) : RoutingStorage Number :=
  { storage with tombstones := storage.tombstones.filter fun other =>
      other ≠ key }

/-- `if (prev?.tombstoneUntil)` and the deletion of its index key. -/
def deleteTombstoneIndex (hostname : Text)
    (prev : Option (StoredRoutingRecord Number)) : RoutingStorage Number :=
  match prev.bind StoredRoutingRecord.tombstoneUntil with
  | some tombstoneUntil =>
    if tombstoneUntil = 0 then storage
    else storage.deleteTombstoneKey (tombstoneKey tombstoneUntil hostname)
  | none => storage

def scheduleNextCleanupAlarm (now : ClockReading) : RoutingStorage Number :=
  match storage.listTombstones with
  | [] => { storage with alarm := none }
  | key :: _ =>
    match parseTombstoneKey key with
    | none =>
      { storage.deleteTombstoneKey key with alarm := some (now.ms + 60000) }
    | some (expiry, _) =>
      { storage with alarm := some (max (now.ms + 1000 : ℚ) expiry) }

/-- An index key that is due or corrupt: its record goes if it still has the
expiry of the key. -/
def dropTombstone (key : Text) (parsed : Option (Nat × Text)) :
    RoutingStorage Number :=
  match parsed with
  | none => storage.deleteTombstoneKey key
  | some (expiry, hostname) =>
    match storage.load hostname with
    | none => storage.deleteTombstoneKey key
    | some record =>
      if record.tombstoneUntil = some (expiry : ℚ) then
        (storage.deleteRecord hostname).deleteTombstoneKey key
      else storage.deleteTombstoneKey key

/-- One batch; the flag tells to return, at a key of the future. -/
def cleanupBatch (now : ClockReading) :
    RoutingStorage Number → List Text → RoutingStorage Number × Bool
  | storage, [] => (storage, false)
  | storage, key :: rest =>
    match parseTombstoneKey key with
    | some (expiry, hostname) =>
      if now.ms < expiry then (storage, true)
      else cleanupBatch now
        (storage.dropTombstone key (some (expiry, hostname))) rest
    | none => cleanupBatch now (storage.dropTombstone key none) rest

theorem tombstones_dropTombstone (key : Text) (parsed : Option (Nat × Text)) :
    (storage.dropTombstone key parsed).tombstones =
      storage.tombstones.filter fun other => other ≠ key := by
  unfold dropTombstone
  split
  · rfl
  · split
    · rfl
    · split <;> rfl

theorem length_cleanupBatch (now : ClockReading) (batch : List Text)
    (storage : RoutingStorage Number) :
    (cleanupBatch now storage batch).1.tombstones.length ≤
      storage.tombstones.length := by
  induction batch generalizing storage with
  | nil => exact Nat.le_refl _
  | cons key rest ih =>
      have shorter : ∀ parsed, (storage.dropTombstone key
          parsed).tombstones.length ≤ storage.tombstones.length := by
        intro parsed
        rw [tombstones_dropTombstone]
        exact List.length_filter_le _ _
      unfold cleanupBatch
      split
      · split
        · exact Nat.le_refl _
        · exact (ih _).trans (shorter _)
      · exact (ih _).trans (shorter _)

theorem length_cleanupBatch_lt {now : ClockReading} {key : Text}
    {rest : List Text} {storage : RoutingStorage Number}
    (listed : key ∈ storage.tombstones)
    (ended : (cleanupBatch now storage (key :: rest)).2 = false) :
    (cleanupBatch now storage (key :: rest)).1.tombstones.length <
      storage.tombstones.length := by
  have shorter : ∀ parsed, (storage.dropTombstone key
      parsed).tombstones.length < storage.tombstones.length := by
    intro parsed
    rw [tombstones_dropTombstone]
    apply List.length_filter_lt_length_iff_exists.mpr
    exact ⟨key, listed, by simp⟩
  unfold cleanupBatch at ended ⊢
  split at ended
  · split at ended
    · cases ended
    · rename_i due
      rw [if_neg due]
      exact Nat.lt_of_le_of_lt (length_cleanupBatch now rest _) (shorter _)
  · exact Nat.lt_of_le_of_lt (length_cleanupBatch now rest _) (shorter _)

theorem mem_listTombstones {key : Text} :
    key ∈ storage.listTombstones ↔ key ∈ storage.tombstones :=
  (List.mergeSort_perm _ _).mem_iff

/-- The batches of `cleanupExpiredTombstones`, of 128 keys each. -/
def cleanupExpiredTombstones (now : ClockReading)
    (storage : RoutingStorage Number) : RoutingStorage Number :=
  match _batch : storage.listTombstones with
  | [] => storage
  | key :: rest =>
    match _round : cleanupBatch now storage (key :: rest.take 127) with
    | (next, true) => next
    | (next, false) => cleanupExpiredTombstones now next
termination_by storage.tombstones.length
decreasing_by
  have listed : key ∈ storage.tombstones := by
    rw [← mem_listTombstones, _batch]
    exact List.mem_cons_self
  have shorter := length_cleanupBatch_lt listed (congrArg Prod.snd _round)
  rw [_round] at shorter
  exact shorter

section Handlers

variable (toLowerCase : Text → Text)

def handleGet (hostname : BodyField) (now scheduled : ClockReading) :
    RoutingStorage Number × RoutingResponse Number :=
  match normalizeHostname toLowerCase hostname with
  | none => (storage, .noRecord)
  | some hostname =>
    match storage.load hostname with
    | none => (storage, .noRecord)
    | some record =>
      match record.tombstoneUntil with
      | some tombstoneUntil =>
        if 0 < tombstoneUntil ∧ tombstoneUntil ≤ now.ms then
          ((((storage.deleteTombstoneKey
            (tombstoneKey tombstoneUntil hostname)).deleteRecord
              hostname)).scheduleNextCleanupAlarm scheduled, .noRecord)
        else (storage, .record hostname record)
      | none => (storage, .record hostname record)

def handlePut (hostname : BodyField) (target : Json Number)
    (updatedAt : Option ℚ) (now scheduled : ClockReading) :
    RoutingStorage Number × RoutingResponse Number :=
  match normalizeHostname toLowerCase hostname with
  | none => (storage, .error "Invalid hostname".toList)
  | some hostname =>
    if !isRoutingTarget target then (storage, .error "Invalid target".toList)
    else
      let prev := storage.load hostname
      let record : StoredRoutingRecord Number :=
        { target := some target
          version := (prev.map StoredRoutingRecord.version).getD 0 + 1
          updatedAt := updatedAt.getD now.ms
          tombstoneUntil := none }
      (((storage.deleteTombstoneIndex hostname prev).save hostname
        record).scheduleNextCleanupAlarm scheduled, .record hostname record)

/-- The lifetime of a tombstone, from one second to thirty minutes. -/
def tombstoneTtl (tombstoneTtlMs : Option ℚ) : ℚ :=
  match tombstoneTtlMs with
  | some ttl => max 1000 (min ttl (30 * 60000))
  | none => 2 * 60000

def handleDelete (hostname : BodyField) (tombstoneTtlMs updatedAt : Option ℚ)
    (now scheduled : ClockReading) :
    RoutingStorage Number × RoutingResponse Number :=
  match normalizeHostname toLowerCase hostname with
  | none => (storage, .error "Invalid hostname".toList)
  | some hostname =>
    let tombstoneUntil : ℚ := now.ms + tombstoneTtl tombstoneTtlMs
    let prev := storage.load hostname
    let record : StoredRoutingRecord Number :=
      { target := none
        version := (prev.map StoredRoutingRecord.version).getD 0 + 1
        updatedAt := updatedAt.getD now.ms
        tombstoneUntil := some tombstoneUntil }
    ((((storage.deleteTombstoneIndex hostname prev).save hostname
      record).putTombstoneKey
        (tombstoneKey tombstoneUntil hostname)).scheduleNextCleanupAlarm
          scheduled, .record hostname record)

end Handlers

def handleRolloutSchedule (hostname : Text) (delayMs : ℚ)
    (now : ClockReading) : RoutingStorage Number × RoutingResponse Number :=
  let alarmAt : ℚ := now.ms + max 0 delayMs
  let recorded := { storage with rolloutAlarm := some ⟨hostname, alarmAt⟩ }
  (match recorded.alarm with
    | some currentAlarm =>
      if currentAlarm = 0 ∨ alarmAt < currentAlarm then
        { recorded with alarm := some alarmAt }
      else recorded
    | none => { recorded with alarm := some alarmAt },
  .scheduled alarmAt)

def handleRolloutCancel :
    RoutingStorage Number × RoutingResponse Number :=
  ({ storage with rolloutAlarm := none }, .cancelled)

def takePendingAdvance :
    RoutingStorage Number × RoutingResponse Number :=
  ({ storage with pendingAdvance := none }, .pending storage.pendingAdvance)

/-- The rollout part of `alarm`. -/
def advanceRollout (now : ClockReading) : RoutingStorage Number :=
  match storage.rolloutAlarm with
  | some rollout =>
    if rollout.alarmAt ≤ now.ms then
      { storage with
        rolloutAlarm := none
        pendingAdvance := some ⟨rollout.hostname, now.ms⟩ }
    else storage
  | none => storage

/-- The handler runs when the alarm is due, and the slot is empty by then. -/
def handleAlarm (now cleaned scheduled : ClockReading) :
    RoutingStorage Number :=
  (cleanupExpiredTombstones cleaned
    (advanceRollout { storage with alarm := none } now)).scheduleNextCleanupAlarm
      scheduled

end RoutingStorage

end Takos.DurableObjects
