import Takos.DurableObjects.RunArchive

/-!
# Runs of the notifier

A run is a list of emits, each with the outcomes of the writes it may cause.
-/

namespace Takos.DurableObjects

open Takos.Foundation Takos.Offload

variable {Object : Type}

/-- One request with its clock readings and the ends of its writes. -/
structure EmitCall where
  input : EmitInput
  now : Int
  emittedAt : Text
  first : WriteOutcome
  second : WriteOutcome

namespace RunNotifier

variable (codec : SegmentCodec Object)

def answer (notifier : RunNotifier Object) (call : EmitCall) :
    RunNotifier Object × EmitResponse :=
  notifier.handleEmit codec call.input call.now call.emittedAt call.first
    call.second

def after (notifier : RunNotifier Object) (calls : List EmitCall) :
    RunNotifier Object :=
  calls.foldl (fun notifier call => (notifier.answer codec call).1) notifier

def emittedEvents (notifier : RunNotifier Object) :
    List EmitCall → List PersistedRunEvent
  | [] => []
  | call :: rest =>
    let done := notifier.answer codec call
    let later := emittedEvents done.1 rest
    match done.2 with
    | .emitted event => event :: later
    | _ => later

/-- The notifier when an accepted event reaches the archive. -/
def beforeOffload (notifier : RunNotifier Object) (call : EmitCall) :
    RunNotifier Object :=
  RunNotifier.recordEmit
    { notifier with
      emitDedupKeys := cleanupEmitDedupKeys notifier.emitDedupKeys call.now
      eventIdCounter :=
        nextEventId notifier.eventIdCounter call.input.preferredEventId }
    call.input call.now

end RunNotifier

section Runs

variable (codec : SegmentCodec Object)

/-- The emit loses nothing on its way to the archive. -/
def EmitKeeps (notifier : RunNotifier Object) (call : EmitCall) : Prop :=
  ∀ event, (notifier.answer codec call).2 = .emitted event →
    OffloadKeeps codec (notifier.beforeOffload call) call.first call.second
      event

def RunKeeps (notifier : RunNotifier Object) : List EmitCall → Prop
  | [] => True
  | call :: rest => EmitKeeps codec notifier call ∧
    RunKeeps (notifier.answer codec call).1 rest

end Runs

section Emits

variable {codec : SegmentCodec Object} {notifier : RunNotifier Object}
  {call : EmitCall}

theorem lt_nextEventId (counter : Nat) (preferred : Option Nat) :
    counter < RunNotifier.nextEventId counter preferred := by
  cases preferred with
  | none => exact Nat.lt_succ_self counter
  | some eventId =>
      rw [RunNotifier.nextEventId]
      split
      · assumption
      · exact Nat.lt_succ_self counter

/-- An emit is refused with nothing but the keys cleaned up, or it takes the
next id and passes its event to the archive. -/
theorem answer_cases (codec : SegmentCodec Object)
    (notifier : RunNotifier Object) (call : EmitCall) :
    (∃ keys, (notifier.answer codec call).1 =
        { notifier with emitDedupKeys := keys } ∧
      ∀ event, (notifier.answer codec call).2 ≠ .emitted event) ∨
    ∃ event, (notifier.answer codec call).2 = .emitted event ∧
      event.eventId = RunNotifier.nextEventId notifier.eventIdCounter
        call.input.preferredEventId ∧
      (notifier.answer codec call).1 =
        match notifier.offloadBucket with
        | none => notifier.beforeOffload call
        | some _ => (notifier.beforeOffload call).handleR2Offload codec
            call.first call.second event := by
  unfold RunNotifier.answer RunNotifier.handleEmit
  cases call.input.type with
  | absent | other => exact Or.inl ⟨notifier.emitDedupKeys, rfl, by simp⟩
  | text type =>
      dsimp only
      split
      · exact Or.inl ⟨notifier.emitDedupKeys, rfl, by simp⟩
      · split
        · exact Or.inl ⟨notifier.emitDedupKeys, rfl, by simp⟩
        · split
          · exact Or.inl ⟨notifier.emitDedupKeys, rfl, by simp⟩
          · split
            · split
              · exact Or.inl ⟨_, rfl, by simp⟩
              · exact Or.inr ⟨_, rfl, rfl, rfl⟩
            · exact Or.inr ⟨_, rfl, rfl, rfl⟩

theorem beforeOffload_runId (notifier : RunNotifier Object)
    (call : EmitCall) :
    (notifier.beforeOffload call).runId = notifier.runId ∨
      notifier.runId = none := by
  cases known : notifier.runId with
  | none => exact Or.inr rfl
  | some runId =>
      left
      simp only [RunNotifier.beforeOffload, RunNotifier.recordEmit, known]

theorem not_archivedIn_of_unknown {index : Nat}
    {events : List PersistedRunEvent} (unknown : notifier.runId = none) :
    ¬ArchivedIn codec notifier index events := by
  rintro ⟨bucket, runId, _, known, _⟩
  rw [unknown] at known
  exact absurd known (by simp)

theorem Untouched.not_archived {bucket : OffloadBucket Object} {runId : Text}
    (untouched : Untouched bucket runId) {index : Nat}
    {events : List PersistedRunEvent} :
    ¬Archived codec bucket runId index events := by
  intro archived
  have key := OrderedMap.mem_keys_iff.mpr
    ⟨_, OrderedMap.get?_eq_some_iff.mp archived⟩
  have outside := untouched _ key
  rw [startsWith_key] at outside
  exact Bool.false_ne_true outside.symm

theorem beforeOffload_sound (sound : ArchiveSound codec notifier)
    (call : EmitCall) :
    ArchiveSound codec (notifier.beforeOffload call) ∧
      Grows codec notifier (notifier.beforeOffload call) := by
  have counter : notifier.eventIdCounter ≤
      (notifier.beforeOffload call).eventIdCounter :=
    Nat.le_of_lt (lt_nextEventId _ _)
  cases beforeOffload_runId notifier call with
  | inl same =>
      exact ⟨sound.of_same rfl same rfl counter rfl,
        Grows.of_same rfl same⟩
  | inr unknown =>
      have untouched := sound.unknown unknown
      constructor
      · constructor
        · exact sound.ascending
        · intro event member
          have counted := sound.counted event member
          exact ⟨counted.1, Nat.le_trans counted.2 counter⟩
        · intro _
          exact untouched
        · intro bucket runId stored _ key member starts
          have outside := untouched bucket stored runId key member
          rw [starts] at outside
          exact absurd outside (by decide)
        · rintro index events ⟨bucket, runId, stored, _, archived⟩
          exact absurd archived (untouched bucket stored runId).not_archived
      · intro index events archived
        exact absurd archived (not_archivedIn_of_unknown unknown)

theorem Retained.of_same {before after : RunNotifier Object}
    {event : PersistedRunEvent} (retained : Retained codec before event)
    (grows : Grows codec before after)
    (buffer : after.segmentBuffer = before.segmentBuffer) :
    Retained codec after event := by
  apply retained.later grows
  intro event member
  left
  rw [buffer]
  exact member

theorem answer_sound (sound : ArchiveSound codec notifier)
    {bucket : OffloadBucket Object}
    (stored : notifier.offloadBucket = some bucket)
    (keeps : EmitKeeps codec notifier call) :
    ArchiveSound codec (notifier.answer codec call).1 ∧
      Grows codec notifier (notifier.answer codec call).1 ∧
      (∀ event, Retained codec notifier event →
        Retained codec (notifier.answer codec call).1 event) ∧
      (∀ event, (notifier.answer codec call).2 = .emitted event →
        Retained codec (notifier.answer codec call).1 event) ∧
      ∃ bucket, (notifier.answer codec call).1.offloadBucket =
        some bucket := by
  obtain ⟨keys, refused, silent⟩ | ⟨event, response, taken, passed⟩ :=
    answer_cases codec notifier call
  · rw [refused]
    have grows : Grows codec notifier
        { notifier with emitDedupKeys := keys } := Grows.of_same rfl rfl
    exact ⟨sound.of_same rfl rfl rfl (Nat.le_refl _) rfl, grows,
      fun _ retained => retained.of_same grows rfl,
      fun event emitted => absurd emitted (silent event), bucket, stored⟩
  · rw [stored] at passed
    have order := lt_nextEventId notifier.eventIdCounter
      call.input.preferredEventId
    obtain ⟨recorded, recordedGrows⟩ := beforeOffload_sound sound call
    obtain ⟨sounds, grows, kept, bucketed⟩ :=
      @offload_sound _ _ _ recorded _ stored _ _ event (by omega)
        (Nat.le_of_eq taken)
        (fun older member => by
          have counted := (sound.counted older member).2
          omega)
        (keeps event response)
    rw [passed]
    refine ⟨sounds, recordedGrows.trans grows, ?_, ?_, bucketed⟩
    · intro older retained
      apply (retained.of_same recordedGrows rfl).later grows
      intro buffered member
      exact kept buffered (List.mem_append_left _ member)
    · intro other same
      rw [response, EmitResponse.emitted.injEq] at same
      rw [← same]
      exact kept event (List.mem_append_right _ (List.mem_singleton.mpr rfl))

end Emits

section Runs

variable {codec : SegmentCodec Object} {notifier : RunNotifier Object}

theorem run_sound (calls : List EmitCall)
    (sound : ArchiveSound codec notifier) {bucket : OffloadBucket Object}
    (stored : notifier.offloadBucket = some bucket)
    (keeps : RunKeeps codec notifier calls) :
    ArchiveSound codec (notifier.after codec calls) ∧
      Grows codec notifier (notifier.after codec calls) ∧
      (∀ event, Retained codec notifier event →
        Retained codec (notifier.after codec calls) event) ∧
      (∀ event ∈ notifier.emittedEvents codec calls,
        Retained codec (notifier.after codec calls) event) ∧
      ∃ bucket, (notifier.after codec calls).offloadBucket = some bucket := by
  induction calls generalizing notifier bucket with
  | nil =>
      exact ⟨sound, Grows.refl _, fun _ retained => retained,
        fun event member => absurd member List.not_mem_nil, bucket, stored⟩
  | cons call rest ih =>
      obtain ⟨sounds, grows, kept, own, middle, middleStored⟩ :=
        answer_sound sound stored keeps.1
      obtain ⟨last, growsMore, keptMore, others, bucketed⟩ :=
        ih sounds middleStored keeps.2
      refine ⟨last, grows.trans growsMore,
        fun event retained => keptMore event (kept event retained), ?_,
        bucketed⟩
      intro event member
      rw [RunNotifier.emittedEvents] at member
      cases response : (notifier.answer codec call).2 with
      | failure error =>
          rw [response] at member
          exact others event member
      | duplicate =>
          rw [response] at member
          exact others event member
      | emitted first =>
          rw [response] at member
          cases List.mem_cons.mp member with
          | inl same =>
              rw [same]
              exact keptMore first (own first response)
          | inr later => exact others event later

theorem RunKeeps.append {earlier later : List EmitCall}
    (keeps : RunKeeps codec notifier (earlier ++ later)) :
    RunKeeps codec notifier earlier ∧
      RunKeeps codec (notifier.after codec earlier) later := by
  induction earlier generalizing notifier with
  | nil => exact ⟨trivial, keeps⟩
  | cons call earlier ih =>
      obtain ⟨first, rest⟩ := ih keeps.2
      exact ⟨⟨keeps.1, first⟩, rest⟩

theorem fresh_sound {bucket : OffloadBucket Object}
    (untouched : ∀ runId, Untouched bucket runId) :
    ArchiveSound codec (RunNotifier.fresh (some bucket)) := by
  constructor
  · exact List.Pairwise.nil
  · intro event member
    exact absurd member List.not_mem_nil
  · intro _ other stored
    rw [← Option.some.inj stored]
    exact untouched
  · intro other runId _ known
    exact absurd known (by simp [RunNotifier.fresh])
  · intro index events archived
    exact absurd archived (not_archivedIn_of_unknown rfl)

theorem reads_archive (sound : ArchiveSound codec notifier) :
    ReadsArchive codec notifier := by
  intro bucket runId stored known readable afterEventId limit positive
  have inside : ∀ index events, ArchivedIn codec notifier index events ↔
      Archived codec bucket runId index events := by
    intro index events
    constructor
    · rintro ⟨other, run, hasBucket, hasRun, archived⟩
      rw [stored, Option.some.injEq] at hasBucket
      rw [known, Option.some.injEq] at hasRun
      rw [hasBucket, hasRun]
      exact archived
    · intro archived
      exact ⟨bucket, runId, stored, known, archived⟩
  simp only [inside] at readable ⊢
  exact getRunEventsAfterFromR2_eq (sound.well bucket runId stored known)
    readable afterEventId limit positive

end Runs

namespace EventRuns

open NumberedEvents (codec)

def emit (type : Text) (runId : BodyField) (outcome : WriteOutcome) :
    EmitCall where
  input := ⟨.text type, ⟨"{}".toList, none⟩, runId, none, .absent⟩
  now := 0
  emittedAt := "t".toList
  first := outcome
  second := outcome

def start : RunNotifier Text := RunNotifier.fresh (some .empty)

def known : BodyField := .text "r".toList

/-- The terminal event closes the first segment. -/
def finished : List EmitCall :=
  [emit "a".toList known .stored, emit "completed".toList known .stored]

theorem untouched (runId : Text) :
    Untouched (OrderedMap.empty : OffloadBucket Text) runId :=
  fun _ member => absurd member List.not_mem_nil

end EventRuns

namespace LostEvents

open NumberedEvents (codec)
open EventRuns (emit start known)

/-- The run is unknown when its first segment is flushed. -/
def unknownRun : List EmitCall := [emit "completed".toList .absent .stored]

/-- A second event follows the terminal one in the same segment. -/
def afterTerminal : List EmitCall :=
  [emit "completed".toList known .stored,
    emit "completed".toList known .stored]

/-- No write succeeds, and the buffer comes to its cap. -/
def rejectedRun (count : Nat) : List EmitCall :=
  List.replicate count (emit "a".toList known .rejected)

def event (type : Text) (eventId : Nat) : PersistedRunEvent :=
  ⟨eventId, type, "{}".toList, "t".toList⟩

theorem unknownRun_lost :
    event "completed".toList 1 ∈ start.emittedEvents codec unknownRun ∧
      ¬Retained codec (start.after codec unknownRun)
        (event "completed".toList 1) := by
  constructor
  · exact List.mem_cons_self
  · rintro (buffered | ⟨events, archived, _⟩)
    · exact List.not_mem_nil buffered
    · exact not_archivedIn_of_unknown rfl archived

theorem afterTerminal_lost :
    event "completed".toList 2 ∈ start.emittedEvents codec afterTerminal ∧
      ¬Retained codec (start.after codec afterTerminal)
        (event "completed".toList 2) := by
  constructor
  · exact List.mem_cons_of_mem _ List.mem_cons_self
  · have bucket : (start.after codec afterTerminal).offloadBucket =
        some (writeRunEventSegmentToR2 codec .empty "r".toList 1
          [event "completed".toList 1]) := rfl
    have runId : (start.after codec afterTerminal).runId =
        some "r".toList := rfl
    rintro (buffered | ⟨events, ⟨stored, run, hasBucket, hasRun, archived⟩,
      member⟩)
    · exact List.not_mem_nil buffered
    · rw [bucket, Option.some.injEq] at hasBucket
      rw [runId, Option.some.injEq] at hasRun
      subst hasBucket hasRun
      cases archived_write archived with
      | inl own =>
          rw [own.2] at member
          revert member
          decide
      | inr old => exact absurd rfl old.1

theorem cap_length (buffer : List PersistedRunEvent) :
    (RunNotifier.enforceSegmentBufferCap buffer).length ≤
      RunNotifier.maxSegmentBufferSize := by
  rw [RunNotifier.enforceSegmentBufferCap]
  split
  · assumption
  · rw [List.length_drop]
    omega

theorem segmentIndex_pos (eventId : Nat) :
    0 < segmentIndexForEventId eventId := by
  rw [segmentIndexForEventId]
  split
  · exact Nat.zero_lt_one
  · exact Nat.succ_pos _

abbrev stuck (runId : Option Text) (count index : Nat)
    (buffer : List PersistedRunEvent) : RunNotifier Text :=
  ⟨some .empty, count, runId, index, buffer, 0, .empty⟩

theorem flush_stuck (count : Nat) {index : Nat} (open_ : 0 < index)
    (buffer : List PersistedRunEvent) :
    (stuck (some "r".toList) count index buffer).flushR2Segment codec .rejected
        index buffer =
      (stuck (some "r".toList) count index buffer, decide (buffer = [])) := by
  simp only [RunNotifier.flushR2Segment, Nat.not_le.mpr open_, if_false]
  by_cases empty : buffer = []
  · rw [if_pos empty, decide_eq_true empty]
  · rw [if_neg empty, decide_eq_false empty]

theorem roll_stuck (count : Nat) {index : Nat} (open_ : 0 < index)
    {buffer : List PersistedRunEvent}
    (room : buffer.length ≤ RunNotifier.maxSegmentBufferSize) (next : Nat) :
    (stuck (some "r".toList) count index buffer).rollSegment codec .rejected
        next = stuck (some "r".toList) count next buffer := by
  rw [RunNotifier.rollSegment]
  split
  · rename_i same
    rw [same]
  · dsimp only
    rw [flush_stuck count open_, cap_of_room room]
    by_cases empty : buffer = []
    · simp only [empty, decide_true, if_true]
    · simp only [empty, decide_false, Bool.false_eq_true, if_false]

theorem emit_stuck {runId : Option Text} (first : runId = none ∨
      runId = some "r".toList) (count : Nat) {index : Nat} (open_ : 0 < index)
    {buffer : List PersistedRunEvent}
    (room : buffer.length ≤ RunNotifier.maxSegmentBufferSize) :
    ((stuck runId count index buffer).answer codec
        (emit "a".toList known .rejected)).1 =
      stuck (some "r".toList) (count + 1) (segmentIndexForEventId (count + 1))
        (RunNotifier.enforceSegmentBufferCap
          (buffer ++ [event "a".toList (count + 1)])) := by
  have prepared : (stuck runId count index buffer).beforeOffload
      (emit "a".toList known .rejected) =
        stuck (some "r".toList) (count + 1) index buffer := by
    cases first with
    | inl unknown =>
        simp only [RunNotifier.beforeOffload, RunNotifier.recordEmit, unknown]
        rfl
    | inr held =>
        simp only [RunNotifier.beforeOffload, RunNotifier.recordEmit, held]
        rfl
  have recorded : ((stuck runId count index buffer).answer codec
        (emit "a".toList known .rejected)).1 =
      (stuck (some "r".toList) (count + 1) index buffer).handleR2Offload codec
        .rejected .rejected (event "a".toList (count + 1)) := by
    have accepted : ((stuck runId count index buffer).answer codec
        (emit "a".toList known .rejected)).2 =
          .emitted (event "a".toList (count + 1)) := rfl
    obtain ⟨_, _, silent⟩ | ⟨stored, response, _, passed⟩ := answer_cases codec
      (stuck runId count index buffer) (emit "a".toList known .rejected)
    · exact absurd accepted (silent _)
    · rw [accepted, EmitResponse.emitted.injEq] at response
      rw [passed, ← response, prepared]
      rfl
  rw [recorded, RunNotifier.handleR2Offload, roll_stuck _ open_ room]
  dsimp only [RunNotifier.pushEvent]
  split
  · rw [RunNotifier.flushBoundary]
    dsimp only [event]
    rw [flush_stuck _ (segmentIndex_pos (count + 1))]
    simp only [List.append_eq_nil_iff, List.cons_ne_nil, and_false,
      decide_false, Bool.false_eq_true, if_false, cap_of_room (cap_length _)]
  · rfl

theorem rejectedRun_succ (count : Nat) :
    start.after codec (rejectedRun (count + 1)) =
      ((start.after codec (rejectedRun count)).answer codec
        (emit "a".toList known .rejected)).1 := by
  rw [rejectedRun, List.replicate_succ', RunNotifier.after, List.foldl_append]
  rfl

theorem rejectedRun_stuck (count : Nat)
    (bound : count ≤ RunNotifier.maxSegmentBufferSize) :
    ∃ runId, (runId = none ∨ runId = some "r".toList) ∧
      start.after codec (rejectedRun count) =
        stuck runId count (segmentIndexForEventId count)
          ((List.range count).map fun older => event "a".toList (older + 1)) := by
  induction count with
  | zero => exact ⟨none, .inl rfl, rfl⟩
  | succ count ih =>
      obtain ⟨runId, first, reached⟩ := ih (by omega)
      have room : ((List.range count).map fun older =>
          event "a".toList (older + 1)).length = count := by
        rw [List.length_map, List.length_range]
      refine ⟨_, .inr rfl, ?_⟩
      rw [rejectedRun_succ, reached, emit_stuck first count
        (segmentIndex_pos count) (by omega), cap_of_room, List.range_succ,
        List.map_append, List.map_singleton]
      rw [List.length_append, room, List.length_singleton]
      exact bound

theorem oldest_dropped (count : Nat) :
    event "a".toList 1 ∉ ((List.range (count + 1)).map
      (fun older => event "a".toList (older + 1)) ++
        [event "a".toList (count + 2)]).drop 1 := by
  rw [List.range_succ_eq_map, List.map_cons, List.cons_append, List.drop_one,
    List.tail_cons, List.map_map]
  intro member
  cases List.mem_append.mp member with
  | inl old =>
      obtain ⟨older, _, same⟩ := List.mem_map.mp old
      have eventIds := congrArg PersistedRunEvent.eventId same
      simp [event] at eventIds
  | inr last =>
      have eventIds := congrArg PersistedRunEvent.eventId
        (List.mem_singleton.mp last)
      simp [event] at eventIds

theorem rejectedRun_lost :
    event "a".toList 1 ∈ start.emittedEvents codec
        (rejectedRun (RunNotifier.maxSegmentBufferSize + 1)) ∧
      ¬Retained codec (start.after codec
          (rejectedRun (RunNotifier.maxSegmentBufferSize + 1)))
        (event "a".toList 1) := by
  obtain ⟨runId, first, reached⟩ :=
    rejectedRun_stuck RunNotifier.maxSegmentBufferSize (Nat.le_refl _)
  have full : ((List.range RunNotifier.maxSegmentBufferSize).map fun older =>
      event "a".toList (older + 1)).length =
      RunNotifier.maxSegmentBufferSize := by
    rw [List.length_map, List.length_range]
  have last := emit_stuck first RunNotifier.maxSegmentBufferSize
    (segmentIndex_pos RunNotifier.maxSegmentBufferSize) (Nat.le_of_eq full)
  rw [← reached, ← rejectedRun_succ] at last
  constructor
  · rw [rejectedRun, List.replicate_succ, RunNotifier.emittedEvents]
    exact List.mem_cons_self
  · rintro (buffered | ⟨events, ⟨bucket, runId, stored, _, archived⟩, _⟩)
    · rw [last, RunNotifier.enforceSegmentBufferCap, List.length_append,
        full, List.length_singleton, if_neg (by omega),
        Nat.add_sub_cancel_left] at buffered
      dsimp only [stuck] at buffered
      exact oldest_dropped 9999 buffered
    · rw [last, Option.some.injEq] at stored
      subst stored
      exact absurd archived (by simp [Archived])

end LostEvents

end Takos.DurableObjects
