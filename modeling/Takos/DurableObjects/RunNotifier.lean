import Takos.Offload.RunEvents
import Takos.Offload.UsageEvents

/-!
# The run notifier object

Emits are serialised by the object.  Each one takes the next event id, puts the
event into the segment buffer and may flush the buffer to the offload bucket.
The ring buffer, the broadcast, the usage segments and the row of the run play
no part in the archive and are left out.
-/

namespace Takos.DurableObjects

open Takos.Foundation Takos.Offload

/-- How one write to the bucket ends.  An unconfirmed write has stored the
object although it throws. -/
inductive WriteOutcome where
  | stored
  | rejected
  | unconfirmed
  deriving DecidableEq

/-- A field of the request body. -/
inductive BodyField where
  | absent
  | text (value : Text)
  | other

/-- The payload: its JSON text, and the string itself where it is one. -/
structure EmitData where
  serialized : Text
  string : Option Text
  deriving DecidableEq

structure EmitInput where
  type : BodyField
  data : EmitData
  runId : BodyField
  preferredEventId : Option Nat
  dedupKey : BodyField

inductive EmitResponse where
  | failure (error : Text)
  | duplicate
  | emitted (event : PersistedRunEvent)

/-- `RUN_TERMINAL_EVENT_TYPES`. -/
def runTerminalEventTypes : List Text :=
  ["completed".toList, "error".toList, "cancelled".toList,
    "run.failed".toList]

structure RunNotifier (Object : Type) where
  offloadBucket : Option (OffloadBucket Object)
  eventIdCounter : Nat
  runId : Option Text
  segmentIndex : Nat
  segmentBuffer : List PersistedRunEvent
  lastFlushedSegmentIndex : Nat
  emitDedupKeys : OrderedMap Text Int

namespace RunNotifier

variable {Object : Type}

def maxSegmentBufferSize : Nat := 10000

def emitDedupTtlMs : Int := 60 * 60 * 1000

def maxEmitDedupKeys : Nat := 10000

def fresh (offloadBucket : Option (OffloadBucket Object)) :
    RunNotifier Object where
  offloadBucket
  eventIdCounter := 0
  runId := none
  segmentIndex := 1
  segmentBuffer := []
  lastFlushedSegmentIndex := 0
  emitDedupKeys := .empty

def isRunIdChar (char : Char) : Bool :=
  char.isAlphanum || char = '_' || char = '-'

/-- `/^[a-zA-Z0-9_-]+$/` and at most 64 characters. -/
def validRunId : BodyField → Bool
  | .absent => true
  | .text value => value.size ≤ 64 && value ≠ [] && value.all isRunIdChar
  | .other => false

def readDedupKey : BodyField → Option Text
  | .text value =>
    let trimmed := value.trim
    if trimmed = [] ∨ trimmed.size > 512 then none else some trimmed
  | _ => none

def cleanupEmitDedupKeys (keys : OrderedMap Text Int) (nowMs : Int) :
    OrderedMap Text Int :=
  let live := keys.filterMap fun seenAt =>
    if nowMs - seenAt > emitDedupTtlMs then none else some seenAt
  live.drop (live.entries.length - maxEmitDedupKeys)

def stringifyPersistedData (data : EmitData) : Text :=
  data.string.getD data.serialized

def isSegmentBoundaryOrTerminal (eventId : Nat) (type : Text) : Bool :=
  if eventId = 0 then false
  else eventId % runEventSegmentSize = 0 || runTerminalEventTypes.contains type

def enforceSegmentBufferCap (buffer : List PersistedRunEvent) :
    List PersistedRunEvent :=
  if buffer.length ≤ maxSegmentBufferSize then buffer
  else buffer.drop (buffer.length - maxSegmentBufferSize)

section Flush

variable (codec : SegmentCodec Object)

/-- The flag tells that nothing was thrown, also where nothing was written. -/
def flushR2Segment (notifier : RunNotifier Object) (outcome : WriteOutcome)
    (segmentIndex : Nat) (events : List PersistedRunEvent) :
    RunNotifier Object × Bool :=
  match notifier.offloadBucket, notifier.runId with
  | some bucket, some runId =>
    if events = [] then (notifier, true)
    else if segmentIndex ≤ notifier.lastFlushedSegmentIndex then
      (notifier, true)
    else
      let written :=
        writeRunEventSegmentToR2 codec bucket runId segmentIndex events
      match outcome with
      | .stored =>
        ({ notifier with
            offloadBucket := some written
            lastFlushedSegmentIndex :=
              max notifier.lastFlushedSegmentIndex segmentIndex }, true)
      | .rejected => (notifier, false)
      | .unconfirmed => ({ notifier with offloadBucket := some written }, false)
  | _, _ => (notifier, true)

/-- The buffer leaves when the event belongs to another segment. -/
def rollSegment (notifier : RunNotifier Object) (outcome : WriteOutcome)
    (segmentIndex : Nat) : RunNotifier Object :=
  if segmentIndex = notifier.segmentIndex then notifier
  else
    let (flushed, success) := notifier.flushR2Segment codec outcome
      notifier.segmentIndex notifier.segmentBuffer
    { flushed with
      segmentBuffer :=
        if success then [] else enforceSegmentBufferCap notifier.segmentBuffer
      segmentIndex }

/-- The buffer leaves at the end of a segment and after a terminal event. -/
def flushBoundary (notifier : RunNotifier Object) (outcome : WriteOutcome)
    (eventId : Nat) : RunNotifier Object :=
  let (flushed, success) := notifier.flushR2Segment codec outcome
    notifier.segmentIndex notifier.segmentBuffer
  if success then
    { flushed with
      segmentBuffer := []
      segmentIndex := max (segmentIndexForEventId (eventId + 1))
        (flushed.lastFlushedSegmentIndex + 1) }
  else
    { flushed with
      segmentBuffer := enforceSegmentBufferCap notifier.segmentBuffer }

def pushEvent (notifier : RunNotifier Object) (event : PersistedRunEvent) :
    RunNotifier Object :=
  { notifier with segmentBuffer := notifier.segmentBuffer ++ [event] }

def handleR2Offload (notifier : RunNotifier Object)
    (first second : WriteOutcome) (event : PersistedRunEvent) :
    RunNotifier Object :=
  let rolled := notifier.rollSegment codec first
    (segmentIndexForEventId event.eventId)
  let pushed := rolled.pushEvent event
  let flushed :=
    if isSegmentBoundaryOrTerminal event.eventId event.type then
      pushed.flushBoundary codec second event.eventId
    else pushed
  { flushed with
    segmentBuffer := enforceSegmentBufferCap flushed.segmentBuffer }

/-- The part of `processEmit` before the archive. -/
def recordEmit (notifier : RunNotifier Object) (input : EmitInput)
    (now : Int) : RunNotifier Object :=
  let runId := match notifier.runId, input.runId with
    | none, .text value => if value.trim = [] then none else some value.trim
    | known, _ => known
  let emitDedupKeys := match readDedupKey input.dedupKey with
    | some key => cleanupEmitDedupKeys (notifier.emitDedupKeys.set key now) now
    | none => notifier.emitDedupKeys
  { notifier with runId, emitDedupKeys }

def processEmit (notifier : RunNotifier Object) (input : EmitInput)
    (now : Int) (first second : WriteOutcome) (event : PersistedRunEvent) :
    RunNotifier Object :=
  let recorded := notifier.recordEmit input now
  match recorded.offloadBucket with
  | none => recorded
  | some _ => recorded.handleR2Offload codec first second event

/-- `addToRingBuffer`: a preferred id counts if it advances the counter. -/
def nextEventId (counter : Nat) (preferred : Option Nat) : Nat :=
  match preferred with
  | some eventId => if eventId > counter then eventId else counter + 1
  | none => counter + 1

def handleEmit (notifier : RunNotifier Object) (input : EmitInput)
    (now : Int) (emittedAt : Text) (first second : WriteOutcome) :
    RunNotifier Object × EmitResponse :=
  match input.type with
  | .text type =>
    if type = [] ∨ type.size > 256 then
      (notifier, .failure "Invalid type".toList)
    else if input.data.serialized.size ≥ 1048576 then
      (notifier, .failure "Data too large".toList)
    else if !validRunId input.runId then
      (notifier, .failure "Invalid runId".toList)
    else
      let notifier := { notifier with
        emitDedupKeys := cleanupEmitDedupKeys notifier.emitDedupKeys now }
      match readDedupKey input.dedupKey with
      | some key =>
        if key ∈ notifier.emitDedupKeys.keys then (notifier, .duplicate)
        else emit notifier type
      | none => emit notifier type
  | _ => (notifier, .failure "Invalid type".toList)
where
  emit (notifier : RunNotifier Object) (type : Text) :
      RunNotifier Object × EmitResponse :=
    let eventId := nextEventId notifier.eventIdCounter input.preferredEventId
    let event : PersistedRunEvent :=
      ⟨eventId, type, stringifyPersistedData input.data, emittedAt⟩
    let counted := { notifier with eventIdCounter := eventId }
    (counted.processEmit codec input now first second event, .emitted event)

end Flush

end RunNotifier

end Takos.DurableObjects

/-!
# The usage buffer of the run notifier

Reports are buffered and leave as a segment when enough of them are there, and
after a terminal event.  The buffer, the number of the next segment and the
last archived one are saved at the end of each request.  A request that cannot
save resets the object to the state saved before; what it wrote to the bucket
stays there.
-/

namespace Takos.DurableObjects

open Takos.Foundation Takos.Offload

/-- A number of the body, infinite or not, or the text that `String` gives for
any other value. -/
inductive UnitsField where
  | number (value : Option ℚ)
  | rendered (text : Text)

structure UsageInput where
  runId : BodyField
  meterType : BodyField
  units : UnitsField
  referenceType : BodyField
  metadata : Option EmitData

inductive UsageAnswer where
  | failure (error : Text)
  | success (event : PersistedUsageEvent)

/-- The fields that `handleUsage` and `flushUsageSegment` use. -/
structure UsageMemory where
  runId : Option Text
  usageSegmentIndex : Nat
  usageSegmentBuffer : List PersistedUsageEvent
  usageLastFlushedSegmentIndex : Nat

def UsageMemory.initial : UsageMemory := ⟨none, 1, [], 0⟩

/-- The units as a finite number; `parseFloat` gives none for `NaN` and for an
infinite value. -/
def readUnits (parseFloat : Text → Option ℚ) : UnitsField → Option ℚ
  | .number value => value
  | .rendered text => parseFloat text

def readMeterType : BodyField → Text
  | .text value => value.trim
  | _ => []

/-- The checks of `handleUsage` and the event that passes them. -/
def readReport (parseFloat : Text → Option ℚ) (input : UsageInput)
    (createdAt : Text) : Except Text PersistedUsageEvent :=
  let meterType := readMeterType input.meterType
  if meterType = [] then .error "meter_type is required".toList
  else
    match readUnits parseFloat input.units with
    | none => .error "units must be positive".toList
    | some units =>
      if units ≤ 0 then .error "units must be positive".toList
      else .ok
        { meterType
          units
          referenceType :=
            match input.referenceType with
            | .text value => some value
            | _ => none
          metadata := input.metadata.map RunNotifier.stringifyPersistedData
          createdAt }

namespace UsageMemory

/-- The first request that names a run fixes it. -/
def learnRunId (memory : UsageMemory) (runId : BodyField) : UsageMemory :=
  match memory.runId, runId with
  | none, .text value =>
    { memory with runId := if value.trim = [] then none else some value.trim }
  | _, _ => memory

def pushUsage (memory : UsageMemory) (event : PersistedUsageEvent) :
    UsageMemory :=
  { memory with usageSegmentBuffer := memory.usageSegmentBuffer ++ [event] }

def enforceSegmentBufferCap (buffer : List PersistedUsageEvent) :
    List PersistedUsageEvent :=
  if buffer.length ≤ RunNotifier.maxSegmentBufferSize then buffer
  else buffer.drop (buffer.length - RunNotifier.maxSegmentBufferSize)

end UsageMemory

structure UsageObject (Object : Type) where
  offloadBucket : Option (OffloadBucket Object)
  memory : UsageMemory
  bufferState : Option UsageMemory

namespace UsageObject

variable {Object : Type}

def initial (offloadBucket : Option (OffloadBucket Object)) :
    UsageObject Object := ⟨offloadBucket, .initial, none⟩

def reload (object : UsageObject Object) : UsageObject Object :=
  { object with memory := object.bufferState.getD .initial }

/-- `persistState`; a write that throws resets the object. -/
def persistState (object : UsageObject Object) (outcome : WriteOutcome) :
    UsageObject Object :=
  match outcome with
  | .stored => { object with bufferState := some object.memory }
  | .rejected => object.reload
  | .unconfirmed => reload { object with bufferState := some object.memory }

section Flush

variable (codec : UsageCodec Object)

/-- The flag tells that nothing was thrown, also where nothing was written. -/
def flushUsageSegment (object : UsageObject Object) (outcome : WriteOutcome)
    (segmentIndex : Nat) (events : List PersistedUsageEvent) :
    UsageObject Object × Bool :=
  match object.offloadBucket, object.memory.runId with
  | some bucket, some runId =>
    if events = [] then (object, true)
    else if segmentIndex ≤ object.memory.usageLastFlushedSegmentIndex then
      (object, true)
    else
      let written :=
        writeUsageEventSegmentToR2 codec bucket runId segmentIndex events
      match outcome with
      | .stored =>
        ({ object with
            offloadBucket := some written
            memory := { object.memory with
              usageLastFlushedSegmentIndex :=
                max object.memory.usageLastFlushedSegmentIndex
                  segmentIndex } }, true)
      | .rejected => (object, false)
      | .unconfirmed => ({ object with offloadBucket := some written }, false)
  | _, _ => (object, true)

/-- The `try` around a flush of the buffer. -/
def flushBuffer (object : UsageObject Object) (outcome : WriteOutcome) :
    UsageObject Object :=
  let (flushed, success) := object.flushUsageSegment codec outcome
    object.memory.usageSegmentIndex object.memory.usageSegmentBuffer
  { flushed with
    memory :=
      if success then
        { flushed.memory with
          usageSegmentBuffer := []
          usageSegmentIndex := object.memory.usageSegmentIndex + 1 }
      else
        { flushed.memory with
          usageSegmentBuffer := UsageMemory.enforceSegmentBufferCap
            object.memory.usageSegmentBuffer } }

/-- The object when a report has been buffered. -/
def bufferUsage (object : UsageObject Object) (input : UsageInput)
    (event : PersistedUsageEvent) : UsageObject Object :=
  { object with
    memory := (object.memory.learnRunId input.runId).pushUsage event }

def flushFull (object : UsageObject Object) (outcome : WriteOutcome) :
    UsageObject Object :=
  if usageEventSegmentSize ≤ object.memory.usageSegmentBuffer.length then
    object.flushBuffer codec outcome
  else object

def handleUsage (parseFloat : Text → Option ℚ) (object : UsageObject Object)
    (input : UsageInput) (createdAt : Text) (flush save : WriteOutcome) :
    UsageObject Object × UsageAnswer :=
  match readReport parseFloat input createdAt with
  | .error error =>
    ({ object with memory := object.memory.learnRunId input.runId },
      .failure error)
  | .ok event =>
    (((object.bufferUsage input event).flushFull codec flush).persistState
      save, .success event)

/-- The usage part of `processEmit`. -/
def flushTerminal (object : UsageObject Object) (type : Text)
    (outcome : WriteOutcome) : UsageObject Object :=
  if runTerminalEventTypes.contains type ∧
      object.memory.usageSegmentBuffer ≠ [] then
    object.flushBuffer codec outcome
  else object

/-- An accepted emit, as far as the usage buffer is concerned. -/
def handleEmit (object : UsageObject Object) (runId : BodyField) (type : Text)
    (flush save : WriteOutcome) : UsageObject Object :=
  (flushTerminal codec
    { object with memory := object.memory.learnRunId runId } type
      flush).persistState save

end Flush

end UsageObject

end Takos.DurableObjects
