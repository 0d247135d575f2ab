import Takos.DurableObjects.RunNotifier
import Takos.Offload.RunEvents

/-!
# The archive of a run

No emitted event is lost as long as every flush of a non-empty buffer knows the
run, comes to a segment that is still open and finds only events of that
segment: every event is then in the buffer or in its segment, and segments only
grow.
-/

namespace Takos.DurableObjects

open Takos.Foundation Takos.Offload

variable {Object : Type}

section Property

variable (codec : SegmentCodec Object)

/-- The bucket holds these events as the segment of the run. -/
def ArchivedIn (notifier : RunNotifier Object) (index : Nat)
    (events : List PersistedRunEvent) : Prop :=
  ∃ bucket runId, notifier.offloadBucket = some bucket ∧
    notifier.runId = some runId ∧ Archived codec bucket runId index events

def Retained (notifier : RunNotifier Object) (event : PersistedRunEvent) :
    Prop :=
  event ∈ notifier.segmentBuffer ∨
    ∃ events, ArchivedIn codec notifier
      (segmentIndexForEventId event.eventId) events ∧ event ∈ events

/-- No archived segment loses an event. -/
def Grows (before after : RunNotifier Object) : Prop :=
  ∀ index events, ArchivedIn codec before index events →
    ∃ more, ArchivedIn codec after index more ∧ events ⊆ more

/-- Reading after an id gives the archived events with later ids in order, as
far as the limit and the size of the segments allow. -/
def ReadsArchive (notifier : RunNotifier Object) : Prop :=
  ∀ bucket runId, notifier.offloadBucket = some bucket →
    notifier.runId = some runId →
    (∀ index events, ArchivedIn codec notifier index events →
      Text.encodedSize (segmentText codec events) ≤ maxDecompressedBytes) →
    ∀ (afterEventId : Int) (limit : Nat), 0 < limit →
      ∃ all : List PersistedRunEvent,
        getRunEventsAfterFromR2 codec bucket runId afterEventId limit =
          .ok (all.take limit) ∧
        all.Pairwise (fun left right => left.eventId < right.eventId) ∧
        ∀ event, event ∈ all ↔ afterEventId < event.eventId ∧
          ∃ index events, ArchivedIn codec notifier index events ∧
            event ∈ events

end Property

section Keeps

variable (codec : SegmentCodec Object)

/-- The flush writes what it clears, to the segment of the events. -/
def FlushKeeps (notifier : RunNotifier Object) (outcome : WriteOutcome)
    (index : Nat) (events : List PersistedRunEvent) : Prop :=
  events = [] ∨
    notifier.runId ≠ none ∧ notifier.lastFlushedSegmentIndex < index ∧
      (outcome = .rejected ∨
        ∀ event ∈ events, segmentIndexForEventId event.eventId = index)

structure OffloadKeeps (notifier : RunNotifier Object)
    (first second : WriteOutcome) (event : PersistedRunEvent) : Prop where
  roll : segmentIndexForEventId event.eventId ≠ notifier.segmentIndex →
    FlushKeeps notifier first notifier.segmentIndex notifier.segmentBuffer
  boundary : RunNotifier.isSegmentBoundaryOrTerminal event.eventId
      event.type = true →
    let rolled := notifier.rollSegment codec first
      (segmentIndexForEventId event.eventId)
    FlushKeeps rolled second rolled.segmentIndex
      (rolled.segmentBuffer ++ [event])
  room : notifier.segmentBuffer.length < RunNotifier.maxSegmentBufferSize

end Keeps

/-- No object under the prefix of the run. -/
def Untouched (bucket : OffloadBucket Object) (runId : Text) : Prop :=
  ∀ key ∈ bucket.keys, Text.startsWith key (eventsPrefix runId) = false

/-- What holds between emits, but for the events that are retained. -/
structure ArchiveSound (codec : SegmentCodec Object)
    (notifier : RunNotifier Object) : Prop where
  ascending : notifier.segmentBuffer.Pairwise
    fun left right => left.eventId < right.eventId
  counted : ∀ event ∈ notifier.segmentBuffer,
    0 < event.eventId ∧ event.eventId ≤ notifier.eventIdCounter
  unknown : notifier.runId = none → ∀ bucket,
    notifier.offloadBucket = some bucket → ∀ runId, Untouched bucket runId
  well : ∀ bucket runId, notifier.offloadBucket = some bucket →
    notifier.runId = some runId → WellArchived codec bucket runId
  pending : ∀ index events, ArchivedIn codec notifier index events →
    notifier.lastFlushedSegmentIndex < index →
    events ⊆ notifier.segmentBuffer

section Flush

variable {codec : SegmentCodec Object} {notifier : RunNotifier Object}

variable {events : List PersistedRunEvent} {index : Nat}
  {before after : RunNotifier Object} {bucket : OffloadBucket Object}
  {runId : Text}

theorem ArchivedIn.of_same
    (bucket : after.offloadBucket = before.offloadBucket)
    (runId : after.runId = before.runId)
    (archived : ArchivedIn codec before index events) :
    ArchivedIn codec after index events := by
  rw [ArchivedIn, bucket, runId]
  exact archived

theorem Grows.refl (notifier : RunNotifier Object) :
    Grows codec notifier notifier :=
  fun _ events archived => ⟨events, archived, List.Subset.refl events⟩

theorem Grows.of_same (bucket : after.offloadBucket = before.offloadBucket)
    (runId : after.runId = before.runId) : Grows codec before after :=
  fun _ events archived =>
    ⟨events, archived.of_same bucket runId, List.Subset.refl events⟩

theorem Grows.trans {first second third : RunNotifier Object}
    (early : Grows codec first second) (late : Grows codec second third) :
    Grows codec first third := by
  intro index events archived
  obtain ⟨more, kept, covered⟩ := early index events archived
  obtain ⟨most, still, whole⟩ := late index more kept
  exact ⟨most, still, List.Subset.trans covered whole⟩

theorem ArchivedIn.segment (sound : ArchiveSound codec notifier)
    (archived : ArchivedIn codec notifier index events) :
    Segment index events := by
  obtain ⟨bucket, runId, stored, known, archived⟩ := archived
  have well := sound.well bucket runId stored known
  have key := OrderedMap.mem_keys_iff.mpr
    ⟨_, OrderedMap.get?_eq_some_iff.mp archived⟩
  obtain ⟨other, held, shape, _, again, segment⟩ :=
    well _ key (startsWith_key runId index)
  have same := key_injective shape
  subst same
  rw [archived.unique again]
  exact segment

theorem wellArchived_write (well : WellArchived codec bucket runId)
    (positive : 0 < index) (segment : Segment index events) :
    WellArchived codec
      (writeRunEventSegmentToR2 codec bucket runId index events) runId := by
  intro key member starts
  by_cases own : key = buildRunEventSegmentKey runId index
  · exact ⟨index, events, own, positive, OrderedMap.get?_set_self _ _ _,
      segment⟩
  · cases OrderedMap.mem_keys_set.mp member with
    | inl same => exact absurd same own
    | inr old =>
        obtain ⟨other, held, shape, above, archived, whole⟩ :=
          well key old starts
        refine ⟨other, held, shape, above, ?_, whole⟩
        rw [Archived, writeRunEventSegmentToR2,
          OrderedMap.get?_set_of_ne _ (by rwa [← shape])]
        exact archived

theorem archived_write {index other : Nat}
    {events held : List PersistedRunEvent}
    (archived : Archived codec
      (writeRunEventSegmentToR2 codec bucket runId index events) runId other
      held) :
    other = index ∧ held = events ∨
      other ≠ index ∧ Archived codec bucket runId other held := by
  have written : Archived codec
      (writeRunEventSegmentToR2 codec bucket runId index events) runId index
      events := OrderedMap.get?_set_self _ _ _
  by_cases same : other = index
  · subst same
    exact Or.inl ⟨rfl, archived.unique written⟩
  · right
    refine ⟨same, ?_⟩
    rw [Archived, writeRunEventSegmentToR2, OrderedMap.get?_set_of_ne _
      fun keys => same (key_injective keys)] at archived
    exact archived

theorem archived_write_other {index other : Nat}
    {events held : List PersistedRunEvent} (different : other ≠ index)
    (archived : Archived codec bucket runId other held) :
    Archived codec
      (writeRunEventSegmentToR2 codec bucket runId index events) runId other
      held := by
  rw [Archived, writeRunEventSegmentToR2, OrderedMap.get?_set_of_ne _
    fun keys => different (key_injective keys)]
  exact archived

theorem flush_cases {bucket : OffloadBucket Object}
    (stored : notifier.offloadBucket = some bucket) {outcome : WriteOutcome}
    {index : Nat} {events : List PersistedRunEvent}
    (keeps : FlushKeeps notifier outcome index events) :
    (events = [] ∧ notifier.flushR2Segment codec outcome index events =
        (notifier, true)) ∨
      (notifier.flushR2Segment codec outcome index events =
        (notifier, false)) ∨
      ∃ runId lastFlushed success, notifier.runId = some runId ∧
        notifier.lastFlushedSegmentIndex < index ∧ events ≠ [] ∧
        (∀ event ∈ events, segmentIndexForEventId event.eventId = index) ∧
        notifier.flushR2Segment codec outcome index events =
          ({ notifier with
              offloadBucket := some
                (writeRunEventSegmentToR2 codec bucket runId index events)
              lastFlushedSegmentIndex := lastFlushed }, success) ∧
        (success = true ∧ lastFlushed = index ∨
          success = false ∧
            lastFlushed = notifier.lastFlushedSegmentIndex) := by
  by_cases empty : events = []
  · left
    refine ⟨empty, ?_⟩
    rw [RunNotifier.flushR2Segment, stored]
    cases notifier.runId with
    | none => rfl
    | some runId => exact if_pos empty
  · right
    obtain ⟨known, past, home⟩ := keeps.resolve_left empty
    obtain ⟨runId, run⟩ := Option.ne_none_iff_exists'.mp known
    have later : ¬index ≤ notifier.lastFlushedSegmentIndex :=
      Nat.not_le.mpr past
    cases outcome with
    | rejected =>
        left
        simp only [RunNotifier.flushR2Segment, stored, run, if_neg empty,
          if_neg later]
    | stored =>
        right
        refine ⟨runId, _, true, run, past, empty,
          home.resolve_left (by decide), ?_, Or.inl ⟨rfl, rfl⟩⟩
        simp only [RunNotifier.flushR2Segment, stored, run, if_neg empty,
          if_neg later, Nat.max_eq_right (Nat.le_of_lt past)]
    | unconfirmed =>
        right
        refine ⟨runId, _, false, run, past, empty,
          home.resolve_left (by decide), ?_, Or.inr ⟨rfl, rfl⟩⟩
        simp only [RunNotifier.flushR2Segment, stored, run, if_neg empty,
          if_neg later]

theorem ArchiveSound.of_same {next : RunNotifier Object}
    (sound : ArchiveSound codec notifier)
    (bucket : next.offloadBucket = notifier.offloadBucket)
    (runId : next.runId = notifier.runId)
    (flushed : next.lastFlushedSegmentIndex = notifier.lastFlushedSegmentIndex)
    (counter : notifier.eventIdCounter ≤ next.eventIdCounter)
    (buffer : next.segmentBuffer = notifier.segmentBuffer) :
    ArchiveSound codec next := by
  constructor
  · rw [buffer]
    exact sound.ascending
  · rw [buffer]
    intro event member
    have counted := sound.counted event member
    exact ⟨counted.1, Nat.le_trans counted.2 counter⟩
  · rw [bucket, runId]
    exact sound.unknown
  · rw [bucket, runId]
    exact sound.well
  · intro index events archived past
    rw [buffer]
    rw [flushed] at past
    exact sound.pending index events (archived.of_same bucket.symm runId.symm)
      past

theorem ArchiveSound.bufferSegment (sound : ArchiveSound codec notifier)
    (nonempty : notifier.segmentBuffer ≠ [])
    (home : ∀ event ∈ notifier.segmentBuffer,
      segmentIndexForEventId event.eventId = index) :
    Segment index notifier.segmentBuffer :=
  ⟨nonempty, sound.ascending, fun event member =>
    ⟨(sound.counted event member).1, home event member⟩⟩

theorem write_grows (sound : ArchiveSound codec notifier)
    (stored : notifier.offloadBucket = some bucket)
    (known : notifier.runId = some runId)
    (past : notifier.lastFlushedSegmentIndex < index)
    {next : RunNotifier Object}
    (written : next.offloadBucket = some (writeRunEventSegmentToR2 codec
      bucket runId index notifier.segmentBuffer))
    (same : next.runId = some runId) : Grows codec notifier next := by
  intro other events archived
  have held := archived
  obtain ⟨old, run, hasBucket, hasRun, archived⟩ := archived
  rw [stored, Option.some.injEq] at hasBucket
  rw [known, Option.some.injEq] at hasRun
  subst hasBucket hasRun
  by_cases own : other = index
  · subst own
    exact ⟨notifier.segmentBuffer,
      ⟨_, _, written, same, OrderedMap.get?_set_self _ _ _⟩,
      sound.pending other events held past⟩
  · exact ⟨events, ⟨_, _, written, same, archived_write_other own archived⟩,
      List.Subset.refl events⟩

/-- A step that loses no event of the buffer. -/
structure Flushes (codec : SegmentCodec Object)
    (before after : RunNotifier Object) : Prop where
  sound : ArchiveSound codec after
  grows : Grows codec before after
  kept : ∀ event ∈ before.segmentBuffer, Retained codec after event
  runId : after.runId = before.runId
  counter : after.eventIdCounter = before.eventIdCounter
  stored : ∃ bucket, after.offloadBucket = some bucket
  shorter : after.segmentBuffer.Sublist before.segmentBuffer

/-- A flushed buffer may be cleared, and a kept one may stay. -/
theorem flush_sound (sound : ArchiveSound codec notifier)
    (stored : notifier.offloadBucket = some bucket) {outcome : WriteOutcome}
    (keeps : FlushKeeps notifier outcome index notifier.segmentBuffer)
    (segmentIndex : Nat) (next : RunNotifier Object)
    (shape : next =
      { (notifier.flushR2Segment codec outcome index
          notifier.segmentBuffer).1 with
        segmentBuffer :=
          if (notifier.flushR2Segment codec outcome index
            notifier.segmentBuffer).2 then [] else notifier.segmentBuffer
        segmentIndex := segmentIndex }) :
    Flushes codec notifier next := by
  obtain ⟨empty, flushed⟩ | flushed |
    ⟨runId, lastFlushed, success, known, past, nonempty, home, flushed,
      ending⟩ := @flush_cases _ codec _ _ stored _ _ _ keeps
  · rw [flushed, if_pos rfl] at shape
    subst shape
    refine ⟨?_, Grows.of_same rfl rfl, ?_, rfl, rfl, ⟨bucket, stored⟩,
      List.nil_sublist _⟩
    · exact sound.of_same rfl rfl rfl (Nat.le_refl _) empty.symm
    · intro event member
      rw [empty] at member
      exact absurd member List.not_mem_nil
  · rw [flushed, if_neg Bool.false_ne_true] at shape
    subst shape
    exact ⟨sound.of_same rfl rfl rfl (Nat.le_refl _) rfl, Grows.of_same rfl rfl,
      fun event member => Or.inl member, rfl, rfl, ⟨bucket, stored⟩,
      List.Sublist.refl _⟩
  · rw [flushed] at shape
    dsimp only at shape
    have segment := sound.bufferSegment nonempty home
    have grown : Grows codec notifier next :=
      write_grows sound stored known past (by rw [shape]) (by rw [shape, known])
    have held : ArchivedIn codec next index notifier.segmentBuffer := by
      refine ⟨_, runId, by rw [shape], by rw [shape, known], ?_⟩
      exact OrderedMap.get?_set_self _ _ _
    have earlier : ∀ other events, ArchivedIn codec next other events →
        other = index ∧ events = notifier.segmentBuffer ∨
          other ≠ index ∧ ArchivedIn codec notifier other events := by
      rintro other events ⟨written, run, hasBucket, hasRun, archived⟩
      rw [shape, Option.some.injEq] at hasBucket
      rw [shape, known, Option.some.injEq] at hasRun
      subst hasBucket hasRun
      cases archived_write archived with
      | inl own => exact Or.inl own
      | inr old => exact Or.inr ⟨old.1, bucket, runId, stored, known, old.2⟩
    refine ⟨?_, grown, ?_, by rw [shape], by rw [shape], ⟨_, by rw [shape]⟩, ?_⟩
    · constructor
      · rw [shape]
        cases success with
        | true => exact List.Pairwise.nil
        | false => exact sound.ascending
      · rw [shape]
        cases success with
        | true => simp
        | false => exact sound.counted
      · intro missing
        rw [shape, known] at missing
        exact absurd missing (by simp)
      · intro written run hasBucket hasRun
        rw [shape, Option.some.injEq] at hasBucket
        rw [shape, known, Option.some.injEq] at hasRun
        subst hasBucket hasRun
        exact wellArchived_write (sound.well bucket runId stored known)
          (by omega) segment
      · intro other events archived beyond
        rw [shape] at beyond ⊢
        cases ending with
        | inl written =>
            obtain ⟨rfl, rfl⟩ := written
            cases earlier other events archived with
            | inl own => exact absurd own.1 (by dsimp only at beyond; omega)
            | inr old =>
                have open_ := sound.pending other events old.2
                  (by dsimp only at beyond; omega)
                have whole := old.2.segment sound
                obtain ⟨event, rest, list⟩ :=
                  List.exists_cons_of_ne_nil whole.nonempty
                have first : event ∈ events := by
                  rw [list]
                  exact List.mem_cons_self
                have other := (whole.home event first).2
                have here := home event (open_ first)
                exact absurd (other.symm.trans here) old.1
        | inr unsure =>
            obtain ⟨rfl, rfl⟩ := unsure
            cases earlier other events archived with
            | inl own =>
                rw [own.2]
                exact List.Subset.refl _
            | inr old => exact sound.pending other events old.2 beyond
    · intro event member
      right
      rw [home event member]
      exact ⟨_, held, member⟩
    · rw [shape]
      cases success with
      | true => exact List.nil_sublist _
      | false => exact List.Sublist.refl _

theorem Retained.later {event : PersistedRunEvent}
    (retained : Retained codec before event)
    (grows : Grows codec before after)
    (buffered : ∀ event ∈ before.segmentBuffer, Retained codec after event) :
    Retained codec after event := by
  cases retained with
  | inl member => exact buffered event member
  | inr archived =>
      obtain ⟨events, held, member⟩ := archived
      obtain ⟨more, kept, covered⟩ := grows _ events held
      exact Or.inr ⟨more, kept, covered member⟩

end Flush

section Steps

variable {codec : SegmentCodec Object} {notifier : RunNotifier Object}

theorem cap_of_room {buffer : List PersistedRunEvent}
    (room : buffer.length ≤ RunNotifier.maxSegmentBufferSize) :
    RunNotifier.enforceSegmentBufferCap buffer = buffer :=
  if_pos room

theorem roll_sound (sound : ArchiveSound codec notifier)
    {bucket : OffloadBucket Object}
    (stored : notifier.offloadBucket = some bucket) {outcome : WriteOutcome}
    {segmentIndex : Nat}
    (keeps : segmentIndex ≠ notifier.segmentIndex →
      FlushKeeps notifier outcome notifier.segmentIndex notifier.segmentBuffer)
    (room : notifier.segmentBuffer.length ≤ RunNotifier.maxSegmentBufferSize) :
    Flushes codec notifier (notifier.rollSegment codec outcome segmentIndex) := by
  by_cases same : segmentIndex = notifier.segmentIndex
  · rw [RunNotifier.rollSegment, if_pos same]
    exact ⟨sound, Grows.refl _, fun event member => Or.inl member, rfl, rfl,
      ⟨bucket, stored⟩, List.Sublist.refl _⟩
  · apply flush_sound sound stored (keeps same) segmentIndex
    rw [RunNotifier.rollSegment, if_neg same, cap_of_room room]

theorem push_sound (sound : ArchiveSound codec notifier)
    {event : PersistedRunEvent} (positive : 0 < event.eventId)
    (counted : event.eventId ≤ notifier.eventIdCounter)
    (fresh : ∀ older ∈ notifier.segmentBuffer,
      older.eventId < event.eventId) :
    ArchiveSound codec (notifier.pushEvent event) := by
  constructor
  · rw [RunNotifier.pushEvent, List.pairwise_append]
    refine ⟨sound.ascending, List.pairwise_singleton _ _, ?_⟩
    intro older member last new
    rw [List.mem_singleton.mp new]
    exact fresh older member
  · intro other member
    cases List.mem_append.mp member with
    | inl old => exact sound.counted other old
    | inr new =>
        rw [List.mem_singleton.mp new]
        exact ⟨positive, counted⟩
  · exact sound.unknown
  · exact sound.well
  · intro index events archived past
    exact List.Subset.trans (sound.pending index events archived past)
      (List.subset_append_left _ _)

theorem boundary_sound (eventId : Nat) (sound : ArchiveSound codec notifier)
    {bucket : OffloadBucket Object}
    (stored : notifier.offloadBucket = some bucket) {outcome : WriteOutcome}
    (keeps : FlushKeeps notifier outcome notifier.segmentIndex
      notifier.segmentBuffer)
    (room : notifier.segmentBuffer.length ≤ RunNotifier.maxSegmentBufferSize) :
    Flushes codec notifier (notifier.flushBoundary codec outcome eventId) := by
  apply flush_sound sound stored keeps
    (notifier.flushBoundary codec outcome eventId).segmentIndex
  rw [RunNotifier.flushBoundary, cap_of_room room]
  obtain ⟨flushed, success⟩ := notifier.flushR2Segment codec outcome
    notifier.segmentIndex notifier.segmentBuffer
  cases success with
  | true | false => rfl

theorem offload_sound (sound : ArchiveSound codec notifier)
    {bucket : OffloadBucket Object}
    (stored : notifier.offloadBucket = some bucket)
    {first second : WriteOutcome} {event : PersistedRunEvent}
    (positive : 0 < event.eventId)
    (counted : event.eventId ≤ notifier.eventIdCounter)
    (fresh : ∀ older ∈ notifier.segmentBuffer, older.eventId < event.eventId)
    (keeps : OffloadKeeps codec notifier first second event) :
    let next := notifier.handleR2Offload codec first second event
    ArchiveSound codec next ∧ Grows codec notifier next ∧
      (∀ kept ∈ notifier.segmentBuffer ++ [event], Retained codec next kept) ∧
      ∃ bucket, next.offloadBucket = some bucket := by
  have rolled := roll_sound sound stored keeps.roll (Nat.le_of_lt keeps.room)
  obtain ⟨rolledBucket, rolledStored⟩ := rolled.stored
  have pushed := push_sound rolled.sound positive
    (by rw [rolled.counter]; exact counted)
    fun older member => fresh older (rolled.shorter.subset member)
  have size : ((notifier.rollSegment codec first
      (segmentIndexForEventId event.eventId)).pushEvent
        event).segmentBuffer.length ≤ RunNotifier.maxSegmentBufferSize := by
    have room := keeps.room
    have less := rolled.shorter.length_le
    simp only [RunNotifier.pushEvent, List.length_append,
      List.length_singleton]
    omega
  have boundary := @boundary_sound _ codec _ event.eventId pushed _ rolledStored
    second
  simp only [RunNotifier.handleR2Offload]
  generalize both : (notifier.rollSegment codec first
    (segmentIndexForEventId event.eventId)).pushEvent event = next
    at pushed size boundary ⊢
  have same : Grows codec (notifier.rollSegment codec first
      (segmentIndexForEventId event.eventId)) next := by
    rw [← both]
    exact Grows.of_same rfl rfl
  have pushedAll : ∀ kept ∈ notifier.segmentBuffer ++ [event],
      Retained codec next kept := by
    intro one member
    rcases List.mem_append.mp member with old | new
    · apply (rolled.kept one old).later same
      intro buffered held
      rw [← both]
      exact .inl (List.mem_append_left _ held)
    · rw [← both]
      exact .inl (List.mem_append_right _ new)
  have grown := rolled.grows.trans same
  by_cases ends : RunNotifier.isSegmentBoundaryOrTerminal event.eventId
      event.type = true
  · have kept := keeps.boundary ends
    dsimp only at kept
    have flushed := boundary (by rw [← both]; exact kept) size
    rw [if_pos ends, cap_of_room (flushed.shorter.length_le.trans size)]
    exact ⟨flushed.sound, grown.trans flushed.grows,
      fun one member => (pushedAll one member).later flushed.grows flushed.kept,
      flushed.stored⟩
  · rw [if_neg ends, cap_of_room size]
    exact ⟨pushed, grown, pushedAll, rolledBucket, by rw [← both]; exact rolledStored⟩

end Steps

end Takos.DurableObjects
