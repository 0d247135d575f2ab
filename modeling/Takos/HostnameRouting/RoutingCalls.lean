import Takos.Foundation.Interleaving
import Takos.HostnameRouting.RoutingRecords

/-!
# Resolving, upserting and deleting hostnames

Every isolate has a memory of its own; the key-value store and the objects are
shared.  A call goes from one request to the next, and the clock may advance
between them.  A write to the store is under way until it lands or is lost.
-/

namespace Takos.HostnameRouting

open Takos.Foundation Takos.DurableObjects

structure RoutingRecord extends StoredRoutingRecord ℚ where
  hostname : Text

inductive ResolutionSource where
  | l1 | kv | object | kvFallback

/-- `record` is absent outside the object's answers, `some none` where the
object has none. -/
structure ResolvedRouting where
  target : Option (Json ℚ)
  tombstone : Bool
  source : ResolutionSource
  kv : Option ParsedRoutingValue
  record : Option (Option RoutingRecord)

def l1Ttl : ℚ := 10000

def l1MaxEntries : Nat := 2048

structure L1Entry where
  expiresAt : ℚ
  value : ResolvedRouting

abbrev L1Cache := OrderedMap Text L1Entry

def putL1 (cache : L1Cache) (hostname : Text) (value : ResolvedRouting)
    (now : ClockReading) : L1Cache :=
  (if l1MaxEntries ≤ cache.entries.length then OrderedMap.empty
    else cache).set hostname ⟨now.ms + l1Ttl, value⟩

def deleteL1 (cache : L1Cache) (hostname : Text) : L1Cache :=
  cache.delete hostname

def getL1 (cache : L1Cache) (hostname : Text) (now : ClockReading) :
    L1Cache × Option ResolvedRouting :=
  match cache.get? hostname with
  | none => (cache, none)
  | some cached =>
    if cached.expiresAt ≤ now.ms then (cache.delete hostname, none)
    else (cache, some cached.value)

def codeUnits (char : Char) : List Nat :=
  if char.toNat < 0x10000 then [char.toNat]
  else
    [0xD800 + (char.toNat - 0x10000) / 0x400,
      0xDC00 + (char.toNat - 0x10000) % 0x400]

def hashUnit (hash unit : Nat) : Nat := (hash ^^^ unit) * 0x01000193 % 2 ^ 32

def getHostnameShardId (texts : TextFunctions) (hostname : Text) : Nat :=
  ((texts.toLowerCase hostname).flatMap codeUnits).foldl hashUnit 0x811c9dc5 %
    16

/-- What the clock read and what the objects held at some point of a run. -/
structure Moment where
  time : Nat
  objects : Nat → RoutingStorage ℚ

/-- The objects by their shards, whether they answer, the store with the writes
under way, the memories of the isolates, and all moments, newest first, which
no call reads. -/
structure RoutingSystem where
  clock : ClockReading
  objects : Nat → RoutingStorage ℚ
  reachable : Bool
  kv : OrderedMap Text KvText
  writes : List (Text × KvText)
  isolates : Nat → L1Cache
  history : List Moment

namespace RoutingSystem

def initial (clock : ClockReading) : RoutingSystem where
  clock := clock
  objects := fun _ => .empty
  reachable := true
  kv := .empty
  writes := []
  isolates := fun _ => .empty
  history := [⟨clock.ms, fun _ => .empty⟩]

variable (system : RoutingSystem)

def setIsolate (isolate : Nat) (cache : L1Cache) : RoutingSystem :=
  { system with isolates := Function.update system.isolates isolate cache }

def setObject (shard : Nat) (storage : RoutingStorage ℚ) : RoutingSystem :=
  { system with objects := Function.update system.objects shard storage }

def startWrite (hostname : Text) (payload : KvText) : RoutingSystem :=
  { system with writes := (hostname, payload) :: system.writes }

def remember (isolate : Nat) (hostname : Text) (value : ResolvedRouting)
    (now : ClockReading) : RoutingSystem :=
  system.setIsolate isolate
    (putL1 (system.isolates isolate) hostname value now)

def observed : RoutingSystem :=
  { system with
    history := ⟨system.clock.ms, system.objects⟩ :: system.history }

end RoutingSystem

inductive ObjectRequest where
  | schedule (hostname : Text) (delayMs : ℚ)
  | cancel
  | pending
  | alarm

def ObjectRequest.event (request : ObjectRequest) (now : ClockReading) :
    RoutingEvent ℚ :=
  match request with
  | schedule hostname delayMs => .schedule hostname delayMs now
  | cancel => .cancel
  | pending => .pending
  | alarm => .alarm now now now

/-- Calls by the request that they make next; the last ones are the doings of
the store, the objects, the network and the clock. -/
inductive RoutingCall where
  | resolve (isolate : Nat) (hostname : Text)
  | readKv (isolate : Nat) (hostname : Text) (now : ClockReading)
  | useKv (isolate : Nat) (hostname : Text) (now : ClockReading)
      (kvRaw : Option KvText)
  | getRecord (isolate : Nat) (hostname : Text) (now : ClockReading)
      (kv : ParsedRoutingValue)
  | useRecord (isolate : Nat) (hostname : Text) (now : ClockReading)
      (kv : ParsedRoutingValue) (record : Option RoutingRecord)
  | upsert (isolate : Nat) (hostname : Text) (target : RoutingTarget)
  | putRecord (hostname : Text) (target : RoutingTarget) (now : ClockReading)
  | cacheTarget (hostname : Text) (target : RoutingTarget) (now : ClockReading)
  | delete (isolate : Nat) (hostname : Text) (tombstoneTtlMs : Option ℚ)
  | deleteRecord (hostname : Text) (tombstoneTtlMs : ℚ) (now : ClockReading)
  | cacheTombstone (hostname : Text) (tombstoneTtlMs : ℚ) (now : ClockReading)
  | land (index : Nat)
  | lose (index : Nat)
  | expire (hostname : Text)
  | object (shard : Nat) (request : ObjectRequest)
  | connect (reachable : Bool)
  | elapse (later : ClockReading)

inductive RoutingResult where
  | resolved (hostname : Text) (started returned : ClockReading)
      (routing : ResolvedRouting)
  | written
  | failed
  | noted

abbrev RoutingOutcome := Outcome RoutingCall RoutingResult

def defaultTombstoneTtl : ℚ := 120000

section Statements

variable (texts : TextFunctions)

def normalizeHostname (hostname : Text) : Text :=
  texts.toLowerCase hostname.trim

def runResolve (isolate : Nat) (raw : Text) (system : RoutingSystem) :
    RoutingSystem × RoutingOutcome :=
  let hostname := normalizeHostname texts raw
  let (cache, l1) := getL1 (system.isolates isolate) hostname system.clock
  match l1 with
  | some value =>
    (system.setIsolate isolate cache,
      .done (.resolved hostname system.clock system.clock
        { value with source := .l1 }))
  | none =>
    (system.setIsolate isolate cache,
      .next (.readKv isolate hostname system.clock))

def isKvTombstone (kv : ParsedRoutingValue) (now : ClockReading) : Bool :=
  kv.tombstoneUntil.any fun tombstoneUntil => (now.ms : ℚ) < tombstoneUntil

/-- The store's value decides, or the object is asked. -/
def runUseKv (isolate : Nat) (hostname : Text) (now : ClockReading)
    (kvRaw : Option KvText) (system : RoutingSystem) :
    RoutingSystem × RoutingOutcome :=
  let kv := parseRoutingValue texts kvRaw
  if isKvTombstone kv now then
    let tombstone : ResolvedRouting := ⟨none, true, .kv, some kv, none⟩
    (system.remember isolate hostname tombstone now,
      .done (.resolved hostname now system.clock tombstone))
  else if shouldUseKvValue kv now then
    let resolved : ResolvedRouting := ⟨kv.target, false, .kv, some kv, none⟩
    (system.remember isolate hostname resolved now,
      .done (.resolved hostname now system.clock resolved))
  else (system, .next (.getRecord isolate hostname now kv))

def fallBack (isolate : Nat) (hostname : Text) (now : ClockReading)
    (kv : ParsedRoutingValue) (system : RoutingSystem) :
    RoutingSystem × RoutingOutcome :=
  match kv.target with
  | some target =>
    let fallback : ResolvedRouting :=
      ⟨some target, false, .kvFallback, some kv, none⟩
    (system.remember isolate hostname fallback now,
      .done (.resolved hostname now system.clock fallback))
  | none =>
    (system, .done (.resolved hostname now system.clock
      ⟨none, false, .kv, some kv, none⟩))

def recordOf : RoutingResponse ℚ → Option RoutingRecord
  | .record hostname record => some ⟨record, hostname⟩
  | _ => none

def runGetRecord (isolate : Nat) (hostname : Text) (now : ClockReading)
    (kv : ParsedRoutingValue) (system : RoutingSystem) :
    RoutingSystem × RoutingOutcome :=
  if system.reachable then
    let shard := getHostnameShardId texts hostname
    let (storage, response) := (system.objects shard).handleGet
      texts.toLowerCase (.text hostname) system.clock system.clock
    (system.setObject shard storage,
      .next (.useRecord isolate hostname now kv (recordOf response)))
  else fallBack isolate hostname now kv system

def isRecordTombstone (record : RoutingRecord) (now : ClockReading) : Bool :=
  record.tombstoneUntil.any fun tombstoneUntil => (now.ms : ℚ) < tombstoneUntil

/-- The object's answer; a record is written to the store in passing. -/
def runUseRecord (isolate : Nat) (hostname : Text) (now : ClockReading)
    (kv : ParsedRoutingValue) (answer : Option RoutingRecord)
    (system : RoutingSystem) : RoutingSystem × RoutingOutcome :=
  if system.reachable then
    match answer with
    | none =>
      let resolved : ResolvedRouting :=
        ⟨none, false, .object, some kv, some none⟩
      (system.remember isolate hostname resolved now,
        .done (.resolved hostname now system.clock resolved))
    | some record =>
      let tombstone := isRecordTombstone record now
      let target := if tombstone then none else record.target
      let resolved : ResolvedRouting :=
        ⟨target, tombstone, .object, some kv, some (some record)⟩
      let payload := buildKVPayload target now.ms (some record.version)
        record.tombstoneUntil
      ((system.startWrite hostname payload).remember isolate hostname resolved
          now,
        .done (.resolved hostname now system.clock resolved))
  else fallBack isolate hostname now kv system

def runUpsert (isolate : Nat) (raw : Text) (target : RoutingTarget)
    (system : RoutingSystem) : RoutingSystem × RoutingOutcome :=
  let hostname := normalizeHostname texts raw
  (system.setIsolate isolate (deleteL1 (system.isolates isolate) hostname),
    .next (.putRecord hostname target system.clock))

def runPutRecord (hostname : Text) (target : RoutingTarget)
    (now : ClockReading) (system : RoutingSystem) :
    RoutingSystem × RoutingOutcome :=
  if system.reachable then
    let shard := getHostnameShardId texts hostname
    let (storage, response) := (system.objects shard).handlePut
      texts.toLowerCase (.text hostname) target.json (some now.ms) system.clock
      system.clock
    (system.setObject shard storage,
      match recordOf response with
      | some _ => .next (.cacheTarget hostname target now)
      | none => .done .failed)
  else (system, .done .failed)

def runCacheTarget (hostname : Text) (target : RoutingTarget)
    (now : ClockReading) (system : RoutingSystem) :
    RoutingSystem × RoutingOutcome :=
  if system.reachable then
    (system.startWrite hostname
      (buildKVPayload (some target.json) now.ms none none), .done .written)
  else (system, .done .failed)

def runDelete (isolate : Nat) (raw : Text) (tombstoneTtlMs : Option ℚ)
    (system : RoutingSystem) : RoutingSystem × RoutingOutcome :=
  let hostname := normalizeHostname texts raw
  (system.setIsolate isolate (deleteL1 (system.isolates isolate) hostname),
    .next (.deleteRecord hostname (tombstoneTtlMs.getD defaultTombstoneTtl)
      system.clock))

def runDeleteRecord (hostname : Text) (tombstoneTtlMs : ℚ)
    (now : ClockReading) (system : RoutingSystem) :
    RoutingSystem × RoutingOutcome :=
  if system.reachable then
    let shard := getHostnameShardId texts hostname
    let (storage, response) := (system.objects shard).handleDelete
      texts.toLowerCase (.text hostname) (some tombstoneTtlMs) (some now.ms)
      system.clock system.clock
    (system.setObject shard storage,
      match recordOf response with
      | some _ => .next (.cacheTombstone hostname tombstoneTtlMs now)
      | none => .done .failed)
  else (system, .done .failed)

def runCacheTombstone (hostname : Text) (tombstoneTtlMs : ℚ)
    (now : ClockReading) (system : RoutingSystem) :
    RoutingSystem × RoutingOutcome :=
  if system.reachable then
    (system.startWrite hostname (buildKVPayload none now.ms none
      (some (now.ms + tombstoneTtlMs))), .done .written)
  else (system, .done .failed)

def runLand (index : Nat) (system : RoutingSystem) : RoutingSystem :=
  match system.writes[index]? with
  | some (hostname, payload) =>
    { system with
      kv := system.kv.set hostname payload
      writes := system.writes.eraseIdx index }
  | none => system

def runElapse (later : ClockReading) (system : RoutingSystem) : RoutingSystem :=
  if system.clock.ms ≤ later.ms then { system with clock := later }
  else system

def execute (call : RoutingCall) (system : RoutingSystem) :
    RoutingSystem × RoutingOutcome :=
  match call with
  | .resolve isolate hostname => runResolve texts isolate hostname system
  | .readKv isolate hostname now =>
    (system, .next (.useKv isolate hostname now (system.kv.get? hostname)))
  | .useKv isolate hostname now kvRaw =>
    runUseKv texts isolate hostname now kvRaw system
  | .getRecord isolate hostname now kv =>
    runGetRecord texts isolate hostname now kv system
  | .useRecord isolate hostname now kv record =>
    runUseRecord isolate hostname now kv record system
  | .upsert isolate hostname target =>
    runUpsert texts isolate hostname target system
  | .putRecord hostname target now =>
    runPutRecord texts hostname target now system
  | .cacheTarget hostname target now =>
    runCacheTarget hostname target now system
  | .delete isolate hostname tombstoneTtlMs =>
    runDelete texts isolate hostname tombstoneTtlMs system
  | .deleteRecord hostname tombstoneTtlMs now =>
    runDeleteRecord texts hostname tombstoneTtlMs now system
  | .cacheTombstone hostname tombstoneTtlMs now =>
    runCacheTombstone hostname tombstoneTtlMs now system
  | .land index => (runLand index system, .done .noted)
  | .lose index =>
    ({ system with writes := system.writes.eraseIdx index }, .done .noted)
  | .expire hostname =>
    ({ system with kv := system.kv.delete hostname }, .done .noted)
  | .object shard request =>
    (system.setObject shard ((system.objects shard).step texts.toLowerCase
      (request.event system.clock)), .done .noted)
  | .connect reachable =>
    ({ system with reachable := reachable }, .done .noted)
  | .elapse later => (runElapse later system, .done .noted)

def statement (call : RoutingCall) (system : RoutingSystem) :
    RoutingSystem × RoutingOutcome :=
  ((execute texts call system).1.observed, (execute texts call system).2)

/-- Tombstones are to last a lifetime at most. -/
def Starts (lifetime : ℚ) : RoutingCall → Prop
  | .resolve _ _ => True
  | .upsert _ _ _ => True
  | .delete _ _ tombstoneTtlMs =>
    tombstoneTtlMs.getD defaultTombstoneTtl ≤ lifetime
  | .land _ => True
  | .lose _ => True
  | .expire _ => True
  | .object _ _ => True
  | .connect _ => True
  | .elapse _ => True
  | _ => False

def program (lifetime : ℚ) :
    Program RoutingSystem RoutingCall RoutingResult where
  starts := Starts lifetime
  statement := statement texts

end Statements

/-- A resolution that needs the object gets its answer. -/
def ObjectAnswers (system : RoutingSystem) (event : Program.Event RoutingCall)
    (_ : List RoutingCall) : Prop :=
  match event with
  | .run (.getRecord _ _ _ _) => system.reachable = true
  | .run (.useRecord _ _ _ _ _) => system.reachable = true
  | _ => True

end Takos.HostnameRouting
