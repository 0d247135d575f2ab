import Takos.DurableObjects.EventReplay

/-!
# Runs of emits and restarts

The buffer is compared with the list of all accepted events, which no step
reads.  Every step keeps the last hundred of them in the memory and in the
saved state alike, so that a restart changes nothing.
-/

namespace Takos.DurableObjects

open Takos.Foundation

inductive ReplayEvent where
  | emit (body : EmitBody) (now : Int) (outcome : WriteOutcome)
  | save (outcome : WriteOutcome)
  | reload

/-- The object beside the events whose emits were accepted. -/
structure ReplayRun where
  object : ReplayObject
  accepted : List RingBufferEvent

namespace ReplayRun

def initial : ReplayRun := ⟨.initial, []⟩

/-- An emit is accepted when its event is saved. -/
def step (run : ReplayRun) : ReplayEvent → ReplayRun
  | .emit body now outcome =>
    let (object, answer) := run.object.emit body now outcome
    match answer with
    | .emitted event =>
      { object
        accepted :=
          if outcome = .rejected then run.accepted
          else run.accepted ++ [event] }
    | _ => { run with object }
  | .save outcome =>
    { run with object := run.object.persistState outcome run.object.memory }
  | .reload => { run with object := run.object.reload }

def after (run : ReplayRun) (events : List ReplayEvent) : ReplayRun :=
  events.foldl step run

/-- Every emit finds a counter that it can advance. -/
def Advances (run : ReplayRun) : List ReplayEvent → Prop
  | [] => True
  | event :: rest =>
    (∀ body now outcome, event = .emit body now outcome →
      CanAdvance run.object.memory.eventIdCounter
        (parseEventId body.eventId)) ∧
    (run.step event).Advances rest

end ReplayRun

def lastEvents (accepted : List RingBufferEvent) : List RingBufferEvent :=
  accepted.drop (accepted.length - ringBufferSize)

/-- A memory in which the accepted events are accounted for. -/
structure Serves (memory : NotifierMemory)
    (accepted : List RingBufferEvent) : Prop where
  buffer : memory.eventBuffer = lastEvents accepted
  counted : ∀ event ∈ accepted, event.id ≤ memory.eventIdCounter
  double : IsDouble memory.eventIdCounter

structure RunServes (run : ReplayRun) : Prop where
  memory : Serves run.object.memory run.accepted
  saved : Serves (run.object.bufferState.getD .initial) run.accepted
  ascending : run.accepted.Pairwise fun left right => left.id < right.id

theorem length_lastEvents (accepted : List RingBufferEvent) :
    (lastEvents accepted).length ≤ ringBufferSize := by
  rw [lastEvents, List.length_drop]
  omega

theorem pushToRing_lastEvents (accepted : List RingBufferEvent)
    (event : RingBufferEvent) :
    pushToRing (lastEvents accepted) event =
      lastEvents (accepted ++ [event]) := by
  have pushed : lastEvents accepted ++ [event] =
      (accepted ++ [event]).drop (accepted.length - ringBufferSize) := by
    rw [lastEvents, List.drop_append_of_le_length (by omega)]
  have size : (lastEvents accepted).length =
      min accepted.length ringBufferSize := by
    rw [lastEvents, List.length_drop]
    omega
  unfold pushToRing
  dsimp only
  rw [List.length_append, List.length_singleton, size]
  split
  · rename_i full
    have room : ringBufferSize ≤ accepted.length := by omega
    rw [pushed, List.tail_drop, lastEvents, List.length_append,
      List.length_singleton]
    congr 1
    omega
  · rename_i room
    have few : accepted.length < ringBufferSize := by omega
    rw [pushed, lastEvents, List.length_append, List.length_singleton]
    congr 1
    omega

theorem Serves.initial : Serves .initial [] := by
  constructor
  · rfl
  · intro event member
    exact absurd member List.not_mem_nil
  · exact isDouble_of_lt (by decide)

theorem Serves.of_same {memory other : NotifierMemory}
    {accepted : List RingBufferEvent} (serves : Serves memory accepted)
    (buffer : other.eventBuffer = memory.eventBuffer)
    (counter : other.eventIdCounter = memory.eventIdCounter) :
    Serves other accepted := by
  constructor
  · rw [buffer]
    exact serves.buffer
  · rw [counter]
    exact serves.counted
  · rw [counter]
    exact serves.double

theorem handleEmit_cases (memory : NotifierMemory) (body : EmitBody)
    (now : Int) :
    (∃ keys, (memory.handleEmit body now).1 =
        { memory with emitDedupKeys := keys } ∧
      ∀ event, (memory.handleEmit body now).2 ≠ .emitted event) ∨
    ∃ type, body.type = .text type ∧
      (memory.cleanupKeys now).isDuplicate body = false ∧
      (memory.handleEmit body now).1 =
        ((memory.cleanupKeys now).addEvent body type now).1.rememberKey body
          now ∧
      (memory.handleEmit body now).2 =
        .emitted ((memory.cleanupKeys now).addEvent body type now).2 := by
  unfold NotifierMemory.handleEmit
  cases body.type with
  | absent | other => exact .inl ⟨memory.emitDedupKeys, rfl, by simp⟩
  | text type =>
      dsimp only
      split
      · exact .inl ⟨memory.emitDedupKeys, rfl, by simp⟩
      split
      · exact .inl ⟨memory.emitDedupKeys, rfl, by simp⟩
      split
      · exact .inl ⟨memory.emitDedupKeys, rfl, by simp⟩
      split
      · exact .inl ⟨_, rfl, by simp⟩
      · rename_i fresh
        exact .inr ⟨type, rfl, by simpa using fresh, rfl, rfl⟩

theorem withKeys_same (memory : NotifierMemory) (keys : OrderedMap Text Int) :
    { memory with emitDedupKeys := keys }.eventBuffer = memory.eventBuffer ∧
      { memory with emitDedupKeys := keys }.eventIdCounter =
        memory.eventIdCounter :=
  ⟨rfl, rfl⟩

theorem cleanupKeys_same (memory : NotifierMemory) (now : Int) :
    (memory.cleanupKeys now).eventBuffer = memory.eventBuffer ∧
      (memory.cleanupKeys now).eventIdCounter = memory.eventIdCounter := by
  rw [NotifierMemory.cleanupKeys]
  exact withKeys_same memory _

theorem rememberKey_same (memory : NotifierMemory) (body : EmitBody)
    (now : Int) :
    (memory.rememberKey body now).eventBuffer = memory.eventBuffer ∧
      (memory.rememberKey body now).eventIdCounter =
        memory.eventIdCounter := by
  unfold NotifierMemory.rememberKey
  split
  · exact ⟨rfl, rfl⟩
  · exact ⟨rfl, rfl⟩

theorem Serves.addEvent {memory : NotifierMemory}
    {accepted : List RingBufferEvent} (serves : Serves memory accepted)
    (body : EmitBody) (type : Text) (now : Int)
    (advance : CanAdvance memory.eventIdCounter (parseEventId body.eventId)) :
    Serves (memory.addEvent body type now).1
        (accepted ++ [(memory.addEvent body type now).2]) ∧
      ∀ event ∈ accepted,
        event.id < (memory.addEvent body type now).2.id := by
  have larger :=
    (lt_nextEventNumber_iff serves.double (parseEventId body.eventId)).mpr
      advance
  have above : ∀ event ∈ accepted,
      event.id < (memory.addEvent body type now).2.id := by
    intro event member
    exact Nat.lt_of_le_of_lt (serves.counted event member) larger
  refine ⟨?_, above⟩
  constructor
  · show pushToRing memory.eventBuffer _ = _
    rw [serves.buffer]
    exact pushToRing_lastEvents accepted _
  · intro event member
    rcases List.mem_append.mp member with old | new
    · exact Nat.le_of_lt (above event old)
    · exact Nat.le_of_eq (congrArg _ (List.mem_singleton.mp new))
  · exact nextEventNumber_double _ fun _ => parseEventId_double

theorem RunServes.initial : RunServes .initial :=
  ⟨Serves.initial, Serves.initial, List.Pairwise.nil⟩

theorem persistState_serves {object : ReplayObject} {memory : NotifierMemory}
    {before accepted : List RingBufferEvent} (outcome : WriteOutcome)
    (old : Serves (object.bufferState.getD .initial) before)
    (new : Serves memory accepted)
    (kept : outcome = .rejected → accepted = before) :
    Serves (object.persistState outcome memory).memory accepted ∧
      Serves ((object.persistState outcome memory).bufferState.getD .initial)
        accepted := by
  cases outcome with
  | stored | unconfirmed => exact ⟨new, new⟩
  | rejected =>
      rw [kept rfl]
      exact ⟨old, old⟩

theorem RunServes.step {run : ReplayRun} (serves : RunServes run)
    (event : ReplayEvent)
    (advance : ∀ body now outcome, event = .emit body now outcome →
      CanAdvance run.object.memory.eventIdCounter
        (parseEventId body.eventId)) : RunServes (run.step event) := by
  cases event with
  | reload => exact ⟨serves.saved, serves.saved, serves.ascending⟩
  | save outcome =>
      obtain ⟨memory, saved⟩ := persistState_serves outcome serves.saved
        serves.memory fun _ => rfl
      exact ⟨memory, saved, serves.ascending⟩
  | emit body now outcome =>
      rcases handleEmit_cases run.object.memory body now with
        ⟨keys, sameMemory, refused⟩ | ⟨type, _, _, grown, answered⟩
      · have shape : run.step (.emit body now outcome) =
            { run with
              object := { run.object with
                memory := { run.object.memory with emitDedupKeys := keys } } } := by
          unfold ReplayRun.step ReplayObject.emit
          dsimp only
          rw [sameMemory]
          cases answer : (run.object.memory.handleEmit body now).2 with
          | emitted event => exact absurd answer (refused event)
          | failure error => rfl
          | duplicate => rfl
        rw [shape]
        exact ⟨serves.memory.of_same rfl rfl, serves.saved, serves.ascending⟩
      · have cleaned : Serves (run.object.memory.cleanupKeys now)
            run.accepted := serves.memory.of_same
              (cleanupKeys_same run.object.memory now).1
              (cleanupKeys_same run.object.memory now).2
        have advanced := advance body now outcome rfl
        rw [← (cleanupKeys_same run.object.memory now).2] at advanced
        obtain ⟨added, above⟩ := cleaned.addEvent body type now advanced
        have remembered := rememberKey_same
          ((run.object.memory.cleanupKeys now).addEvent body type now).1
          body now
        have served := added.of_same remembered.1 remembered.2
        have shape : run.step (.emit body now outcome) =
            { object := run.object.persistState outcome
                (run.object.memory.handleEmit body now).1
              accepted :=
                if outcome = .rejected then run.accepted
                else run.accepted ++
                  [((run.object.memory.cleanupKeys now).addEvent body type
                    now).2] } := by
          unfold ReplayRun.step ReplayObject.emit
          dsimp only
          rw [answered]
        rw [shape, grown]
        by_cases rejected : outcome = .rejected
        · subst rejected
          exact ⟨serves.saved, serves.saved, serves.ascending⟩
        · obtain ⟨memory, saved⟩ := persistState_serves outcome serves.saved
            served fun failed => absurd failed rejected
          rw [if_neg rejected]
          refine ⟨memory, saved, ?_⟩
          apply List.pairwise_append.mpr
          refine ⟨serves.ascending, List.pairwise_singleton _ _, ?_⟩
          intro older member last new
          rw [List.mem_singleton.mp new]
          exact above older member

theorem RunServes.after {run : ReplayRun} (serves : RunServes run)
    (events : List ReplayEvent) (advances : run.Advances events) :
    RunServes (run.after events) := by
  induction events generalizing run with
  | nil => exact serves
  | cons event rest ih =>
      exact ih (serves.step event advances.1) advances.2

theorem emit_duplicate (object : ReplayObject) (body : EmitBody) (now : Int)
    (outcome : WriteOutcome)
    (repeated : (object.memory.cleanupKeys now).isDuplicate body = true) :
    (∀ event, (object.emit body now outcome).2 ≠ .emitted event) ∧
      (object.emit body now outcome).1.memory.eventBuffer =
        object.memory.eventBuffer ∧
      (object.emit body now outcome).1.memory.eventIdCounter =
        object.memory.eventIdCounter ∧
      (object.emit body now outcome).1.bufferState = object.bufferState := by
  rcases handleEmit_cases object.memory body now with
    ⟨keys, sameMemory, refused⟩ | ⟨type, _, fresh, _, _⟩
  · have shape : object.emit body now outcome =
        ({ object with
            memory := { object.memory with emitDedupKeys := keys } },
          (object.memory.handleEmit body now).2) := by
      unfold ReplayObject.emit
      dsimp only
      rw [sameMemory]
      cases answer : (object.memory.handleEmit body now).2 with
      | emitted event => exact absurd answer (refused event)
      | failure | duplicate => rfl
    rw [shape]
    exact ⟨refused, rfl, rfl, rfl⟩
  · rw [repeated] at fresh
    cases fresh

theorem cleanup_newest {keys : OrderedMap Text Int}
    {older : List (Text × Int)} {key : Text} {seenAt now : Int}
    (newest : keys.entries = older ++ [(key, seenAt)])
    (recent : now - seenAt ≤ RunNotifier.emitDedupTtlMs) :
    ∃ kept, (RunNotifier.cleanupEmitDedupKeys keys now).entries =
      kept ++ [(key, seenAt)] := by
  rw [RunNotifier.cleanupEmitDedupKeys]
  generalize liveEq : (keys.filterMap fun seen =>
    if now - seen > RunNotifier.emitDedupTtlMs then none
    else some seen) = live
  have last : ∃ before, live.entries = before ++ [(key, seenAt)] := by
    rw [← liveEq]
    simp only [OrderedMap.filterMap, newest, List.filterMap_append]
    refine ⟨_, congrArg _ ?_⟩
    simp [Int.not_lt.mpr recent]
  obtain ⟨before, entries⟩ := last
  have cap : 0 < RunNotifier.maxEmitDedupKeys := by decide
  have room : live.entries.length - RunNotifier.maxEmitDedupKeys ≤
      before.length := by
    rw [entries, List.length_append, List.length_singleton]
    omega
  refine ⟨before.drop (live.entries.length - RunNotifier.maxEmitDedupKeys), ?_⟩
  rw [OrderedMap.drop]
  dsimp only
  rw [entries] at room ⊢
  rw [List.drop_append_of_le_length room]

theorem rememberKey_isDuplicate {memory : NotifierMemory} {body : EmitBody}
    {key : Text} {seenAt now : Int}
    (named : RunNotifier.readDedupKey body.dedupKey = some key)
    (fresh : key ∉ memory.emitDedupKeys.keys)
    (recent : now - seenAt ≤ RunNotifier.emitDedupTtlMs) :
    ((memory.rememberKey body seenAt).cleanupKeys now).isDuplicate body =
      true := by
  have added := OrderedMap.entries_set_of_fresh memory.emitDedupKeys fresh
    seenAt
  obtain ⟨saved, savedEq⟩ := cleanup_newest added
    (show seenAt - seenAt ≤ RunNotifier.emitDedupTtlMs by
      rw [Int.sub_self]; decide)
  obtain ⟨kept, keptEq⟩ := cleanup_newest savedEq recent
  have member : key ∈ (RunNotifier.cleanupEmitDedupKeys
      (RunNotifier.cleanupEmitDedupKeys
        (memory.emitDedupKeys.set key seenAt) seenAt) now).keys := by
    rw [OrderedMap.keys, keptEq]
    simp
  unfold NotifierMemory.isDuplicate NotifierMemory.cleanupKeys
    NotifierMemory.rememberKey
  rw [named]
  exact decide_eq_true member

theorem emit_remembered {object : ReplayObject} {body : EmitBody} {now : Int}
    {outcome : WriteOutcome} {event : RingBufferEvent}
    (accepted : (object.emit body now outcome).2 = .emitted event)
    (saved : outcome ≠ .rejected) {key : Text}
    (named : RunNotifier.readDedupKey body.dedupKey = some key) {later : Int}
    (recent : later - now ≤ RunNotifier.emitDedupTtlMs) :
    ((object.emit body now outcome).1.memory.cleanupKeys later).isDuplicate
      body = true := by
  have answer : (object.emit body now outcome).2 =
      (object.memory.handleEmit body now).2 := by
    unfold ReplayObject.emit
    dsimp only
    split <;> rfl
  rw [answer] at accepted
  rcases handleEmit_cases object.memory body now with
    ⟨_, _, refused⟩ | ⟨type, _, fresh, grown, _⟩
  · exact absurd accepted (refused event)
  · have memory : (object.emit body now outcome).1.memory =
        (object.memory.handleEmit body now).1 := by
      unfold ReplayObject.emit
      dsimp only
      rw [accepted]
      cases outcome with
      | stored | unconfirmed => rfl
      | rejected => exact absurd rfl saved
    rw [memory, grown]
    apply rememberKey_isDuplicate named _ recent
    intro known
    rw [NotifierMemory.isDuplicate, named] at fresh
    exact of_decide_eq_false fresh known

/-- What holds between two requests. -/
structure ServesClients (run : ReplayRun) : Prop where
  buffer : run.object.memory.eventBuffer = lastEvents run.accepted
  bounded : run.object.memory.eventBuffer.length ≤ ringBufferSize
  ascending : run.accepted.Pairwise fun left right => left.id < right.id
  next : ∀ preferred,
    CanAdvance run.object.memory.eventIdCounter preferred →
      ∀ event ∈ run.accepted,
        event.id < nextEventNumber run.object.memory.eventIdCounter preferred
  remembered : ∀ body now outcome event,
    (run.object.emit body now outcome).2 = .emitted event →
      outcome ≠ .rejected →
        ∀ key, RunNotifier.readDedupKey body.dedupKey = some key →
          ∀ later, later - now ≤ RunNotifier.emitDedupTtlMs →
            ((run.object.emit body now outcome).1.memory.cleanupKeys
              later).isDuplicate body = true
  repeated : ∀ body now outcome,
    (run.object.memory.cleanupKeys now).isDuplicate body = true →
      (run.step (.emit body now outcome)).accepted = run.accepted ∧
        (run.object.emit body now outcome).1.memory.eventBuffer =
          run.object.memory.eventBuffer ∧
        (run.object.emit body now outcome).1.memory.eventIdCounter =
          run.object.memory.eventIdCounter
  polled : ∀ raw cursor, parseReplayCursor raw = some cursor →
    (run.object.handleEventsEndpoint raw).received =
      getEventsAfter run.object.memory.eventBuffer cursor
  reconnected : ∀ raw cursor, parseReplayCursor raw = some cursor →
    0 < cursor →
      (run.object.handleWebSocket raw).received =
        getEventsAfter run.object.memory.eventBuffer cursor
  refused : ∀ raw, parseReplayCursor raw = none →
    run.object.handleEventsEndpoint raw = .invalidCursor ∧
      run.object.handleWebSocket raw = .invalidCursor

theorem handleWebSocket_received (object : ReplayObject) {raw : Option Text}
    {cursor : Nat} (parsed : parseReplayCursor raw = some cursor)
    (positive : 0 < cursor) :
    (object.handleWebSocket raw).received =
      getEventsAfter object.memory.eventBuffer cursor := by
  unfold ReplayObject.handleWebSocket
  rw [parsed]
  dsimp only
  split
  · rfl
  · rename_i nothing
    have empty : getEventsAfter object.memory.eventBuffer cursor = [] := by
      by_contra missed
      exact nothing ⟨positive, missed⟩
    rw [empty]
    rfl

theorem RunServes.servesClients {run : ReplayRun} (serves : RunServes run) :
    ServesClients run := by
  constructor
  · exact serves.memory.buffer
  · rw [serves.memory.buffer]
    exact length_lastEvents run.accepted
  · exact serves.ascending
  · intro preferred advance event member
    exact Nat.lt_of_le_of_lt (serves.memory.counted event member)
      ((lt_nextEventNumber_iff serves.memory.double preferred).mpr advance)
  · intro body now outcome event accepted saved key named later recent
    exact emit_remembered accepted saved named recent
  · intro body now outcome repeated
    obtain ⟨refused, buffer, counter, _⟩ :=
      emit_duplicate run.object body now outcome repeated
    refine ⟨?_, buffer, counter⟩
    unfold ReplayRun.step
    dsimp only
    split
    · rename_i event answered
      exact absurd answered (refused event)
    · rfl
  · intro raw cursor parsed
    unfold ReplayObject.handleEventsEndpoint
    rw [parsed]
    rfl
  · intro raw cursor parsed positive
    exact handleWebSocket_received run.object parsed positive
  · intro raw invalid
    unfold ReplayObject.handleEventsEndpoint ReplayObject.handleWebSocket
    rw [invalid]
    exact ⟨rfl, rfl⟩

namespace KeyedEmit

def body : EmitBody where
  type := .text "message".toList
  data := ⟨"1".toList, none⟩
  runId := .text "run".toList
  eventId := .text "7".toList
  dedupKey := .text "first".toList

def events : List ReplayEvent :=
  [.emit body 0 .stored, .reload, .emit body 1 .stored]

end KeyedEmit

end Takos.DurableObjects
