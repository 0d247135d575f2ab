import Takos.Foundation.Decimals
import Takos.DurableObjects.RunNotifier
import Mathlib.Algebra.Order.Floor.Semiring
import Mathlib.Data.Rat.Floor

/-!
# The ring buffer of a notifier

Every accepted emit goes into a buffer of the last hundred events, from which
clients that come back are served.  Event ids are doubles: they come from the
counter of the object or with the emit.  The buffer, the counter and the keys
of recent emits are saved at the end of each request and read back when the
object starts.
-/

namespace Takos.DurableObjects

open Takos.Foundation

/-- A finite number of a JSON body. -/
structure BodyNumber where
  value : ℚ
  floor_double : IsDouble ⌊value⌋₊

inductive EventIdField where
  | absent
  | number (value : BodyNumber)
  | text (value : Text)
  | other

def parseEventId : EventIdField → Option Nat
  | .number number => if 0 < number.value then some ⌊number.value⌋₊ else none
  | .text value =>
    match parseInt value with
    | some parsed =>
      if parsed.natAbs < doubleLimit ∧ 0 < parsed then some parsed.toNat
      else none
    | none => none
  | _ => none

/-- An absent cursor and an empty one stand for zero. -/
def parseReplayCursor : Option Text → Option Nat
  | none | some [] => some 0
  | some value =>
    if value.all Char.isDigit then
      match parseDigits value with
      | some parsed => if parsed ≤ maxSafeInteger then some parsed else none
      | none => none
    else none

structure RingBufferEvent where
  id : Nat
  type : Text
  data : EmitData
  timestamp : Int
  deriving DecidableEq

def ringBufferSize : Nat := 100

/-- A preferred id counts if it advances the counter; zero never does. -/
def nextEventNumber (counter : Nat) (preferredEventId : Option Nat) : Nat :=
  match preferredEventId with
  | some preferred =>
    if preferred ≠ 0 ∧ counter < preferred then preferred
    else roundDouble (counter + 1)
  | none => roundDouble (counter + 1)

def pushToRing (buffer : List RingBufferEvent) (event : RingBufferEvent) :
    List RingBufferEvent :=
  let pushed := buffer ++ [event]
  if ringBufferSize < pushed.length then pushed.tail else pushed

def getEventsAfter (buffer : List RingBufferEvent) (lastEventId : Nat) :
    List RingBufferEvent :=
  buffer.filter fun event => lastEventId < event.id

/-- The fields of the object that replay and duplicates depend on. -/
structure NotifierMemory where
  eventBuffer : List RingBufferEvent
  eventIdCounter : Nat
  emitDedupKeys : OrderedMap Text Int

def NotifierMemory.initial : NotifierMemory := ⟨[], 0, .empty⟩

/-- An emit as it arrives. -/
structure EmitBody where
  type : BodyField
  data : EmitData
  runId : BodyField
  eventId : EventIdField
  dedupKey : BodyField

inductive EmitAnswer where
  | failure (error : Text)
  | duplicate
  | emitted (event : RingBufferEvent)

namespace NotifierMemory

/-- `addToRingBuffer` and the counter. -/
def addEvent (memory : NotifierMemory) (body : EmitBody) (type : Text)
    (now : Int) : NotifierMemory × RingBufferEvent :=
  let eventId :=
    nextEventNumber memory.eventIdCounter (parseEventId body.eventId)
  let event : RingBufferEvent := ⟨eventId, type, body.data, now⟩
  ({ memory with
      eventBuffer := pushToRing memory.eventBuffer event
      eventIdCounter := eventId }, event)

def rememberKey (memory : NotifierMemory) (body : EmitBody) (now : Int) :
    NotifierMemory :=
  match RunNotifier.readDedupKey body.dedupKey with
  | some key =>
    { memory with
      emitDedupKeys := RunNotifier.cleanupEmitDedupKeys
        (memory.emitDedupKeys.set key now) now }
  | none => memory

def cleanupKeys (memory : NotifierMemory) (now : Int) : NotifierMemory :=
  { memory with
    emitDedupKeys :=
      RunNotifier.cleanupEmitDedupKeys memory.emitDedupKeys now }

def isDuplicate (memory : NotifierMemory) (body : EmitBody) : Bool :=
  match RunNotifier.readDedupKey body.dedupKey with
  | some key => key ∈ memory.emitDedupKeys.keys
  | none => false

/-- `handleEmit` up to the point where the state is saved. -/
def handleEmit (memory : NotifierMemory) (body : EmitBody) (now : Int) :
    NotifierMemory × EmitAnswer :=
  match body.type with
  | .text type =>
    if type = [] ∨ type.size > 256 then
      (memory, .failure "Invalid type".toList)
    else if body.data.serialized.size ≥ 1048576 then
      (memory, .failure "Data too large".toList)
    else if !RunNotifier.validRunId body.runId then
      (memory, .failure "Invalid runId".toList)
    else
      let cleaned := memory.cleanupKeys now
      if cleaned.isDuplicate body then (cleaned, .duplicate)
      else
        let (added, event) := cleaned.addEvent body type now
        (added.rememberKey body now, .emitted event)
  | _ => (memory, .failure "Invalid type".toList)

end NotifierMemory

/-- The memory of the running object and the saved `bufferState`. -/
structure ReplayObject where
  memory : NotifierMemory
  bufferState : Option NotifierMemory

def ReplayObject.initial : ReplayObject := ⟨.initial, none⟩

inductive ReplayResponse where
  | invalidCursor
  | events (events : List RingBufferEvent) (lastEventId : Nat)
  | connected (lastEventId : Nat) (replay : Option (List RingBufferEvent))

def ReplayResponse.received : ReplayResponse → List RingBufferEvent
  | .invalidCursor => []
  | .events found _ => found
  | .connected _ replay => replay.getD []

namespace ReplayObject

/-- The object starts again: eviction, a crash, or a request that throws. -/
def reload (object : ReplayObject) : ReplayObject :=
  { object with memory := object.bufferState.getD .initial }

/-- `persistState`; a write that throws resets the object. -/
def persistState (object : ReplayObject) (outcome : WriteOutcome)
    (memory : NotifierMemory) : ReplayObject :=
  match outcome with
  | .stored => ⟨memory, some memory⟩
  | .rejected => object.reload
  | .unconfirmed => reload ⟨memory, some memory⟩

def emit (object : ReplayObject) (body : EmitBody) (now : Int)
    (outcome : WriteOutcome) : ReplayObject × EmitAnswer :=
  let (memory, answer) := object.memory.handleEmit body now
  match answer with
  | .emitted _ => (object.persistState outcome memory, answer)
  | _ => ({ object with memory }, answer)

def handleEventsEndpoint (object : ReplayObject) (after : Option Text) :
    ReplayResponse :=
  match parseReplayCursor after with
  | none => .invalidCursor
  | some after => .events (getEventsAfter object.memory.eventBuffer after)
      object.memory.eventIdCounter

/-- `handleWebSocket` once the client is admitted. -/
def handleWebSocket (object : ReplayObject) (lastEventIdRaw : Option Text) :
    ReplayResponse :=
  match parseReplayCursor lastEventIdRaw with
  | none => .invalidCursor
  | some lastEventId =>
    let missedEvents := getEventsAfter object.memory.eventBuffer lastEventId
    .connected object.memory.eventIdCounter
      (if 0 < lastEventId ∧ missedEvents ≠ [] then some missedEvents else none)

end ReplayObject

theorem parseEventId_double {field : EventIdField} {number : Nat}
    (parsed : parseEventId field = some number) : IsDouble number := by
  have signed : ∀ text value, parseInt text = some value → 0 < value →
      IsDouble value.toNat := by
    intro text value read positive
    unfold parseInt at read
    split at read
    · obtain ⟨digits, _, rfl⟩ := Option.map_eq_some_iff.mp read
      have negative : 0 < -(digits : Int) := positive
      omega
    all_goals
      obtain ⟨digits, digitsRead, rfl⟩ := Option.map_eq_some_iff.mp read
      exact parseDigits_double digitsRead
  cases field with
  | absent | other => cases parsed
  | number value =>
      simp only [parseEventId] at parsed
      split at parsed
      · rw [← Option.some.inj parsed]
        exact value.floor_double
      · cases parsed
  | text value =>
      simp only [parseEventId] at parsed
      split at parsed
      · rename_i number read
        split at parsed
        · rename_i range
          rw [← Option.some.inj parsed]
          exact signed value number read range.2
        · cases parsed
      · cases parsed

/-- The next id advances the counter: it comes with the emit, or adding one to
the counter is not rounded away. -/
def CanAdvance (counter : Nat) (preferredEventId : Option Nat) : Prop :=
  counter < 2 ^ 53 ∨ counter < 2 ^ 54 ∧ counter % 4 = 2 ∨
    ∃ preferred, preferredEventId = some preferred ∧ counter < preferred

theorem lt_nextEventNumber_iff {counter : Nat} (double : IsDouble counter)
    (preferredEventId : Option Nat) :
    counter < nextEventNumber counter preferredEventId ↔
      CanAdvance counter preferredEventId := by
  have counted := lt_roundDouble_succ_iff double
  unfold nextEventNumber CanAdvance
  cases preferredEventId with
  | none => simp [counted]
  | some preferred =>
      dsimp only
      split
      · rename_i advances
        exact ⟨fun _ => .inr (.inr ⟨preferred, rfl, advances.2⟩),
          fun _ => advances.2⟩
      · rename_i stale
        have low : ¬counter < preferred := by omega
        rw [counted]
        constructor
        · rintro (small | wide)
          · exact .inl small
          · exact .inr (.inl wide)
        · rintro (small | wide | ⟨other, same, advances⟩)
          · exact .inl small
          · exact .inr wide
          · rw [Option.some.inj same] at low
            exact absurd advances low

/-- The counter stays in place where one is rounded away. -/
example : nextEventNumber (2 ^ 53) none = 2 ^ 53 := by decide

theorem nextEventNumber_double (counter : Nat) {preferredEventId : Option Nat}
    (double : ∀ preferred, preferredEventId = some preferred →
      IsDouble preferred) :
    IsDouble (nextEventNumber counter preferredEventId) := by
  unfold nextEventNumber
  split
  · rename_i preferred
    split
    · exact double preferred rfl
    · exact isDouble_roundDouble _
  · exact isDouble_roundDouble _

theorem nextEventNumber_eq_nextEventId {counter : Nat}
    (small : counter + 1 < 2 ^ 53) (preferredEventId : Option Nat) :
    nextEventNumber counter preferredEventId =
      RunNotifier.nextEventId counter preferredEventId := by
  have counted : roundDouble (counter + 1) = counter + 1 := if_pos small
  unfold nextEventNumber RunNotifier.nextEventId
  cases preferredEventId with
  | none => exact counted
  | some preferred =>
      dsimp only
      rw [counted]
      split <;> split <;> omega

end Takos.DurableObjects
