import Takos.DurableObjects.RunNotifier
import Mathlib.Algebra.Order.Ring.Rat
import Mathlib.Data.Nat.Cast.Order.Ring

/-!
# Usage over runs of the notifier

Every accepted report is in a confirmed segment or in the buffer, once and in
its place, as long as each flush of a non-empty buffer has a bucket and a run
and a failing one finds no more events than the buffer may hold.
-/

namespace Takos.DurableObjects

open Takos.Foundation Takos.Offload

variable {Object : Type}

inductive UsageStep where
  | report (input : UsageInput) (createdAt : Text) (flush save : WriteOutcome)
  | emit (runId : BodyField) (type : Text) (flush save : WriteOutcome)
  | reload

/-- The object beside the reports that were accepted. -/
structure UsageRun (Object : Type) where
  object : UsageObject Object
  accepted : List PersistedUsageEvent

section Runs

variable (codec : UsageCodec Object) (parseFloat : Text → Option ℚ)

namespace UsageRun

def initial (bucket : Option (OffloadBucket Object)) : UsageRun Object :=
  ⟨.initial bucket, []⟩

/-- A report is accepted when its event is saved. -/
def step (run : UsageRun Object) : UsageStep → UsageRun Object
  | .report input createdAt flush save =>
    let (object, answer) :=
      run.object.handleUsage codec parseFloat input createdAt flush save
    match answer with
    | .success event =>
      { object
        accepted :=
          if save = .rejected then run.accepted else run.accepted ++ [event] }
    | .failure _ => { run with object }
  | .emit runId type flush save =>
    { run with object := run.object.handleEmit codec runId type flush save }
  | .reload => { run with object := run.object.reload }

def after (run : UsageRun Object) (steps : List UsageStep) : UsageRun Object :=
  steps.foldl (step codec parseFloat) run

end UsageRun

/-- The flush of a non-empty buffer writes it, or fails with room to spare. -/
def UsageFlushKeeps (object : UsageObject Object) (outcome : WriteOutcome) :
    Prop :=
  object.memory.usageSegmentBuffer = [] ∨
    object.offloadBucket ≠ none ∧ object.memory.runId ≠ none ∧
      (outcome = .stored ∨ object.memory.usageSegmentBuffer.length ≤
        RunNotifier.maxSegmentBufferSize)

/-- The flush that a step causes, if it causes one, keeps what it clears. -/
def UsageStepKeeps (run : UsageRun Object) : UsageStep → Prop
  | .report input createdAt flush _ =>
    ∀ event, readReport parseFloat input createdAt = .ok event →
      usageEventSegmentSize ≤ (run.object.bufferUsage input
        event).memory.usageSegmentBuffer.length →
      UsageFlushKeeps (run.object.bufferUsage input event) flush
  | .emit runId type flush _ =>
    runTerminalEventTypes.contains type = true →
      UsageFlushKeeps
        { run.object with memory := run.object.memory.learnRunId runId } flush
  | .reload => True

def UsageRun.Keeps (run : UsageRun Object) : List UsageStep → Prop
  | [] => True
  | step :: rest => UsageStepKeeps parseFloat run step ∧
    (run.step codec parseFloat step).Keeps rest

end Runs

/-- The confirmed segments and the buffer make up the accepted reports. -/
structure Accounts (codec : UsageCodec Object)
    (bucket : Option (OffloadBucket Object)) (memory : UsageMemory)
    (segments : List (List PersistedUsageEvent))
    (accepted : List PersistedUsageEvent) : Prop where
  confirmed : memory.usageLastFlushedSegmentIndex = segments.length
  next : memory.usageSegmentIndex = segments.length + 1
  archived : ∀ index events, segments[index]? = some events →
    ∃ stored runId, bucket = some stored ∧ memory.runId = some runId ∧
      ArchivedUsage codec stored runId (index + 1) events
  all : segments.flatten ++ memory.usageSegmentBuffer = accepted

/-- The memory is the saved state, where it has not learnt its run since. -/
structure Learned (saved memory : UsageMemory) : Prop where
  runId : ∀ runId, saved.runId = some runId → memory.runId = some runId
  index : memory.usageSegmentIndex = saved.usageSegmentIndex
  buffer : memory.usageSegmentBuffer = saved.usageSegmentBuffer
  flushed : memory.usageLastFlushedSegmentIndex =
    saved.usageLastFlushedSegmentIndex

structure RunAccounts (codec : UsageCodec Object) (run : UsageRun Object) :
    Prop where
  saved : ∃ segments, Accounts codec run.object.offloadBucket
    (run.object.bufferState.getD .initial) segments run.accepted
  learned : Learned (run.object.bufferState.getD .initial) run.object.memory

variable {codec : UsageCodec Object} {parseFloat : Text → Option ℚ}

theorem Learned.refl (memory : UsageMemory) : Learned memory memory :=
  ⟨fun _ known => known, rfl, rfl, rfl⟩

variable {saved memory : UsageMemory} {accepted : List PersistedUsageEvent}
  {segments : List (List PersistedUsageEvent)} {object : UsageObject Object}
  {run : UsageRun Object}

theorem Learned.learnRunId (learned : Learned saved memory)
    (runId : BodyField) : Learned saved (memory.learnRunId runId) := by
  unfold UsageMemory.learnRunId
  split
  · rename_i unknown
    refine ⟨?_, learned.index, learned.buffer, learned.flushed⟩
    intro known savedKnown
    rw [learned.runId known savedKnown] at unknown
    cases unknown
  · exact learned

theorem Accounts.learned {bucket : Option (OffloadBucket Object)}
    (accounts : Accounts codec bucket saved segments accepted)
    (learned : Learned saved memory) :
    Accounts codec bucket memory segments accepted := by
  constructor
  · rw [learned.flushed, accounts.confirmed]
  · rw [learned.index, accounts.next]
  · intro index events found
    obtain ⟨stored, runId, has, known, archived⟩ :=
      accounts.archived index events found
    exact ⟨stored, runId, has, learned.runId runId known, archived⟩
  · rw [learned.buffer, accounts.all]

theorem Accounts.push {bucket : Option (OffloadBucket Object)}
    (accounts : Accounts codec bucket memory segments accepted)
    (event : PersistedUsageEvent) :
    Accounts codec bucket (memory.pushUsage event) segments
      (accepted ++ [event]) := by
  refine ⟨accounts.confirmed, accounts.next, accounts.archived, ?_⟩
  rw [← accounts.all, List.append_assoc]
  rfl

theorem Accounts.write {stored : OffloadBucket Object} {runId : Text}
    (accounts : Accounts codec (some stored) saved segments accepted)
    (learned : ∀ runId, saved.runId = some runId → memory.runId = some runId)
    (known : memory.runId = some runId) (events : List PersistedUsageEvent) :
    Accounts codec (some (writeUsageEventSegmentToR2 codec stored runId
      (segments.length + 1) events)) saved segments accepted := by
  refine ⟨accounts.confirmed, accounts.next, ?_, accounts.all⟩
  intro index others found
  obtain ⟨bucket, run, has, savedKnown, archived⟩ :=
    accounts.archived index others found
  have sameRun : run = runId := by
    have read := learned run savedKnown
    rw [known] at read
    exact (Option.some.inj read).symm
  subst sameRun
  rw [← Option.some.inj has] at archived
  have inside : index < segments.length := by
    obtain ⟨bound, _⟩ := List.getElem?_eq_some_iff.mp found
    exact bound
  exact ⟨_, run, rfl, savedKnown,
    archivedUsage_write_other (by omega) archived⟩

inductive Flushed (codec : UsageCodec Object) (object : UsageObject Object) :
    UsageObject Object → Prop where
  | kept : Flushed codec object object
  | unconfirmed {stored : OffloadBucket Object} {runId : Text} :
      object.offloadBucket = some stored →
      object.memory.runId = some runId →
      Flushed codec object
        { object with
          offloadBucket := some (writeUsageEventSegmentToR2 codec stored runId
            object.memory.usageSegmentIndex
            object.memory.usageSegmentBuffer) }
  | stored {stored : OffloadBucket Object} {runId : Text} :
      object.offloadBucket = some stored →
      object.memory.runId = some runId →
      object.memory.usageSegmentBuffer ≠ [] →
      Flushed codec object
        { object with
          offloadBucket := some (writeUsageEventSegmentToR2 codec stored runId
            object.memory.usageSegmentIndex
            object.memory.usageSegmentBuffer)
          memory :=
            { object.memory with
              usageLastFlushedSegmentIndex := object.memory.usageSegmentIndex
              usageSegmentBuffer := []
              usageSegmentIndex := object.memory.usageSegmentIndex + 1 } }

theorem flushBuffer_flushed (codec : UsageCodec Object)
    {outcome : WriteOutcome}
    (nonempty : object.memory.usageSegmentBuffer ≠ [])
    (keeps : UsageFlushKeeps object outcome)
    (open_ : object.memory.usageLastFlushedSegmentIndex <
      object.memory.usageSegmentIndex) :
    Flushed codec object (object.flushBuffer codec outcome) := by
  rcases keeps with empty | ⟨hasBucket, hasRun, room⟩
  · exact absurd empty nonempty
  · obtain ⟨stored, bucket⟩ := Option.ne_none_iff_exists'.mp hasBucket
    obtain ⟨runId, known⟩ := Option.ne_none_iff_exists'.mp hasRun
    have cap : outcome ≠ .stored → UsageMemory.enforceSegmentBufferCap
        object.memory.usageSegmentBuffer =
          object.memory.usageSegmentBuffer := by
      intro failed
      rcases room with success | small
      · exact absurd success failed
      · exact if_pos small
    unfold UsageObject.flushBuffer UsageObject.flushUsageSegment
    rw [bucket, known]
    dsimp only
    rw [if_neg nonempty, if_neg (Nat.not_le.mpr open_)]
    cases outcome with
    | stored =>
        dsimp only
        rw [if_pos rfl, Nat.max_eq_right (Nat.le_of_lt open_)]
        exact .stored bucket known nonempty
    | rejected =>
        dsimp only
        rw [if_neg Bool.false_ne_true, cap (by decide)]
        exact .kept
    | unconfirmed =>
        dsimp only
        rw [if_neg Bool.false_ne_true, cap (by decide)]
        exact .unconfirmed bucket known

theorem flushBuffer_rejected {stored : OffloadBucket Object} {runId : Text}
    (bucket : object.offloadBucket = some stored)
    (known : object.memory.runId = some runId)
    (nonempty : object.memory.usageSegmentBuffer ≠ [])
    (open_ : object.memory.usageLastFlushedSegmentIndex <
      object.memory.usageSegmentIndex) :
    object.flushBuffer codec .rejected =
      { object with
        memory := { object.memory with
          usageSegmentBuffer := UsageMemory.enforceSegmentBufferCap
            object.memory.usageSegmentBuffer } } := by
  unfold UsageObject.flushBuffer UsageObject.flushUsageSegment
  rw [bucket, known]
  dsimp only
  rw [if_neg nonempty, if_neg (Nat.not_le.mpr open_)]
  dsimp only
  rw [if_neg Bool.false_ne_true, bucket, known]

/-- A flush moves the buffer into the next segment or leaves it in place, and
the saved state still accounts for what it did. -/
theorem Flushed.accounts {after : UsageObject Object}
    (flushed : Flushed codec object after)
    {buffered : List PersistedUsageEvent}
    (old : Accounts codec object.offloadBucket saved segments accepted)
    (learned : ∀ runId, saved.runId = some runId →
      object.memory.runId = some runId)
    (new : Accounts codec object.offloadBucket object.memory segments
      buffered) :
    Accounts codec after.offloadBucket saved segments accepted ∧
      ∃ more, Accounts codec after.offloadBucket after.memory more
        buffered := by
  cases flushed with
  | kept => exact ⟨old, segments, new⟩
  | @unconfirmed stored runId bucket known =>
      rw [bucket] at old new
      rw [new.next]
      exact ⟨old.write learned known _, segments,
        new.write (fun _ same => same) known _⟩
  | @stored stored runId bucket known nonempty =>
      rw [bucket] at old new
      rw [new.next]
      refine ⟨old.write learned known _,
        segments ++ [object.memory.usageSegmentBuffer], ?_⟩
      constructor
      · simp
      · simp
      · intro index events found
        rcases Nat.lt_or_ge index segments.length with inside | outside
        · rw [List.getElem?_append_left inside] at found
          exact (new.write (fun _ same => same) known _).archived index events
            found
        · rw [List.getElem?_append_right outside,
            List.getElem?_singleton] at found
          split at found
          · have last : index = segments.length := by omega
            rw [last, ← Option.some.inj found]
            exact ⟨_, runId, rfl, known, archivedUsage_write nonempty⟩
          · cases found
      · rw [List.flatten_append, List.flatten_singleton, ← new.all]
        exact List.append_nil _

theorem Accounts.initial (bucket : Option (OffloadBucket Object)) :
    Accounts codec bucket .initial [] [] := by
  refine ⟨rfl, rfl, ?_, rfl⟩
  intro index events found
  cases found

theorem RunAccounts.initial (bucket : Option (OffloadBucket Object)) :
    RunAccounts codec (UsageRun.initial bucket) :=
  ⟨⟨[], Accounts.initial bucket⟩, Learned.refl _⟩

theorem Accounts.openSegment {bucket : Option (OffloadBucket Object)}
    (accounts : Accounts codec bucket memory segments accepted) :
    memory.usageLastFlushedSegmentIndex < memory.usageSegmentIndex := by
  rw [accounts.confirmed, accounts.next]
  exact Nat.lt_succ_self _

theorem persistState_accounts {before : List PersistedUsageEvent}
    {more : List (List PersistedUsageEvent)}
    (old : Accounts codec object.offloadBucket
      (object.bufferState.getD .initial) segments before)
    (new : Accounts codec object.offloadBucket object.memory more accepted)
    (outcome : WriteOutcome) :
    RunAccounts codec
      { object := object.persistState outcome
        accepted := if outcome = .rejected then before else accepted } := by
  cases outcome with
  | stored | unconfirmed => exact ⟨⟨more, new⟩, Learned.refl _⟩
  | rejected => exact ⟨⟨segments, old⟩, Learned.refl _⟩

theorem flushFull_bufferState (object : UsageObject Object)
    (outcome : WriteOutcome) :
    (object.flushBuffer codec outcome).bufferState = object.bufferState := by
  unfold UsageObject.flushBuffer UsageObject.flushUsageSegment
  dsimp only
  split
  · split
    · rfl
    split
    · rfl
    · cases outcome <;> rfl
  · rfl

theorem flush_accounts {object : UsageObject Object} {saved : UsageMemory}
    {segments : List (List PersistedUsageEvent)}
    {accepted buffered : List PersistedUsageEvent} {outcome : WriteOutcome}
    {condition : Prop} [Decidable condition]
    (old : Accounts codec object.offloadBucket saved segments accepted)
    (learned : ∀ runId, saved.runId = some runId →
      object.memory.runId = some runId)
    (new : Accounts codec object.offloadBucket object.memory segments
      buffered)
    (nonempty : condition → object.memory.usageSegmentBuffer ≠ [])
    (keeps : condition → UsageFlushKeeps object outcome) :
    Accounts codec
        (if condition then object.flushBuffer codec outcome
          else object).offloadBucket saved segments accepted ∧
      (∃ more, Accounts codec
        (if condition then object.flushBuffer codec outcome
          else object).offloadBucket
        (if condition then object.flushBuffer codec outcome
          else object).memory more buffered) ∧
      (if condition then object.flushBuffer codec outcome
        else object).bufferState = object.bufferState := by
  by_cases flushes : condition
  · rw [if_pos flushes]
    have flushed := flushBuffer_flushed codec (nonempty flushes)
      (keeps flushes) new.openSegment
    obtain ⟨kept, moved⟩ := flushed.accounts old learned new
    exact ⟨kept, moved, flushFull_bufferState object outcome⟩
  · rw [if_neg flushes]
    exact ⟨old, ⟨segments, new⟩, rfl⟩

theorem step_report_error {input : UsageInput} {createdAt : Text}
    {flush save : WriteOutcome} {error : Text}
    (read : readReport parseFloat input createdAt = .error error) :
    run.step codec parseFloat (.report input createdAt flush save) =
      { run with
        object := { run.object with
          memory := run.object.memory.learnRunId input.runId } } := by
  simp only [UsageRun.step, UsageObject.handleUsage, read]

theorem step_report_ok {input : UsageInput} {createdAt : Text}
    {flush save : WriteOutcome} {event : PersistedUsageEvent}
    (read : readReport parseFloat input createdAt = .ok event) :
    run.step codec parseFloat (.report input createdAt flush save) =
      { object := ((run.object.bufferUsage input event).flushFull codec
          flush).persistState save
        accepted :=
          if save = .rejected then run.accepted
          else run.accepted ++ [event] } := by
  simp only [UsageRun.step, UsageObject.handleUsage, read]

theorem RunAccounts.report (accounts : RunAccounts codec run)
    (input : UsageInput) (createdAt : Text) (flush save : WriteOutcome)
    (keeps : UsageStepKeeps parseFloat run
      (.report input createdAt flush save)) :
    RunAccounts codec
      (run.step codec parseFloat (.report input createdAt flush save)) := by
  obtain ⟨segments, old⟩ := accounts.saved
  have learned := accounts.learned.learnRunId input.runId
  cases read : readReport parseFloat input createdAt with
  | error error =>
      rw [step_report_error read]
      exact ⟨⟨segments, old⟩, learned⟩
  | ok event =>
      rw [step_report_ok read]
      have new := (old.learned learned).push event
      have step := @flush_accounts _ codec (run.object.bufferUsage input event)
        _ _ _ _ flush (usageEventSegmentSize ≤ (run.object.bufferUsage input
          event).memory.usageSegmentBuffer.length) _ old learned.runId new
        (by
          intro full empty
          rw [empty] at full
          exact absurd full (by decide))
        (keeps event read)
      obtain ⟨kept, ⟨more, moved⟩, state⟩ := step
      have saved : Accounts codec ((run.object.bufferUsage input
          event).flushFull codec flush).offloadBucket
          (((run.object.bufferUsage input event).flushFull codec
            flush).bufferState.getD .initial) segments run.accepted := by
        unfold UsageObject.flushFull
        rw [state]
        exact kept
      exact persistState_accounts saved moved save

theorem RunAccounts.emit (accounts : RunAccounts codec run)
    (runId : BodyField) (type : Text) (flush save : WriteOutcome)
    (keeps : UsageStepKeeps parseFloat run (.emit runId type flush save)) :
    RunAccounts codec
      (run.step codec parseFloat (.emit runId type flush save)) := by
  obtain ⟨segments, old⟩ := accounts.saved
  have learned := accounts.learned.learnRunId runId
  have new := old.learned learned
  have step := @flush_accounts _ codec
    { run.object with memory := run.object.memory.learnRunId runId }
    _ _ _ _ flush
    (runTerminalEventTypes.contains type ∧
      (run.object.memory.learnRunId runId).usageSegmentBuffer ≠ []) _ old
    learned.runId new And.right (fun flushes => keeps flushes.1)
  obtain ⟨kept, ⟨more, moved⟩, state⟩ := step
  unfold UsageRun.step UsageObject.handleEmit
  have persisted := persistState_accounts
    (by rw [state]; exact kept) moved save
  rw [ite_self] at persisted
  exact persisted

theorem RunAccounts.step {run : UsageRun Object}
    (accounts : RunAccounts codec run) (step : UsageStep)
    (keeps : UsageStepKeeps parseFloat run step) :
    RunAccounts codec (run.step codec parseFloat step) := by
  cases step with
  | report input createdAt flush save =>
      exact accounts.report input createdAt flush save keeps
  | emit runId type flush save => exact accounts.emit runId type flush save keeps
  | reload => exact ⟨accounts.saved, Learned.refl _⟩

theorem RunAccounts.after (accounts : RunAccounts codec run)
    (steps : List UsageStep) (keeps : run.Keeps codec parseFloat steps) :
    RunAccounts codec (run.after codec parseFloat steps) := by
  induction steps generalizing run with
  | nil => exact accounts
  | cons step rest ih => exact ih (accounts.step step keeps.1) keeps.2

def unitsOf (meterType : Text) (events : List PersistedUsageEvent) : ℚ :=
  ((events.filter fun event => event.meterType = meterType).map
    PersistedUsageEvent.units).sum

theorem unitsOf_append (meterType : Text)
    (left right : List PersistedUsageEvent) :
    unitsOf meterType (left ++ right) =
      unitsOf meterType left + unitsOf meterType right := by
  rw [unitsOf, List.filter_append, List.map_append, List.sum_append]
  rfl

theorem unitsOf_flatten (meterType : Text)
    (segments : List (List PersistedUsageEvent)) :
    unitsOf meterType segments.flatten =
      (segments.map (unitsOf meterType)).sum := by
  induction segments with
  | nil => rfl
  | cons segment rest ih =>
      rw [List.flatten_cons, unitsOf_append, ih]
      rfl

namespace MeteredRun

def noFloats (_ : Text) : Option ℚ := none

def input : UsageInput where
  runId := .text "run".toList
  meterType := .text "tokens".toList
  units := .number (some 1)
  referenceType := .absent
  metadata := none

def event : PersistedUsageEvent where
  meterType := "tokens".toList
  units := 1
  referenceType := none
  metadata := none
  createdAt := "now".toList

def bucket : Option (OffloadBucket Text) := some .empty

def start : UsageStep :=
  .emit (.text "run".toList) "started".toList .stored .stored

def finish : UsageStep :=
  .emit (.text "run".toList) "completed".toList .stored .stored

def report (flush : WriteOutcome) : UsageStep :=
  .report input "now".toList flush .stored

def failing (buffer : List PersistedUsageEvent) : UsageMemory :=
  ⟨some "run".toList, 1, buffer, 0⟩

def stuck (buffer accepted : List PersistedUsageEvent) : UsageRun Text :=
  ⟨⟨bucket, failing buffer, some (failing buffer)⟩, accepted⟩

theorem flushFull_stuck (buffer state : List PersistedUsageEvent) :
    UsageObject.flushFull NumberedUsage.codec
        ⟨bucket, failing buffer, some (failing state)⟩ .rejected =
      ⟨bucket, failing (UsageMemory.enforceSegmentBufferCap buffer),
        some (failing state)⟩ := by
  unfold UsageObject.flushFull
  split
  · rename_i full
    have nonempty : (failing buffer).usageSegmentBuffer ≠ [] := by
      intro empty
      rw [empty] at full
      exact absurd full (by decide)
    exact flushBuffer_rejected rfl rfl nonempty Nat.zero_lt_one
  · rename_i few
    have room : buffer.length ≤ RunNotifier.maxSegmentBufferSize := by
      have size : usageEventSegmentSize < RunNotifier.maxSegmentBufferSize := by
        decide
      have short : ¬usageEventSegmentSize ≤ buffer.length := few
      omega
    rw [UsageMemory.enforceSegmentBufferCap, if_pos room]

theorem report_stuck (buffer accepted : List PersistedUsageEvent) :
    (stuck buffer accepted).step NumberedUsage.codec noFloats
        (report .rejected) =
      stuck (UsageMemory.enforceSegmentBufferCap (buffer ++ [event]))
        (accepted ++ [event]) := by
  have read : readReport noFloats input "now".toList = .ok event := by
    decide +kernel
  have buffered : (stuck buffer accepted).object.bufferUsage input event =
      ⟨bucket, failing (buffer ++ [event]), some (failing buffer)⟩ := rfl
  rw [report, step_report_ok read, buffered, flushFull_stuck,
    if_neg (by decide)]
  rfl

theorem enforceSegmentBufferCap_replicate (count : Nat) :
    UsageMemory.enforceSegmentBufferCap (List.replicate
        (min count RunNotifier.maxSegmentBufferSize) event ++ [event]) =
      List.replicate (min (count + 1) RunNotifier.maxSegmentBufferSize)
        event := by
  rw [← List.replicate_succ', UsageMemory.enforceSegmentBufferCap,
    List.length_replicate]
  split
  · rename_i room
    have length : min count RunNotifier.maxSegmentBufferSize + 1 =
        min (count + 1) RunNotifier.maxSegmentBufferSize := by
      omega
    rw [length]
  · rename_i full
    have length : min count RunNotifier.maxSegmentBufferSize + 1 -
        (min count RunNotifier.maxSegmentBufferSize + 1 -
          RunNotifier.maxSegmentBufferSize) =
        min (count + 1) RunNotifier.maxSegmentBufferSize := by
      omega
    rw [List.drop_replicate, length]

theorem reports_stuck (count : Nat) :
    (UsageRun.initial bucket).after NumberedUsage.codec noFloats
      (start :: List.replicate count (report .rejected)) =
        stuck (List.replicate
          (min count RunNotifier.maxSegmentBufferSize) event)
          (List.replicate count event) := by
  have started : (UsageRun.initial bucket).step NumberedUsage.codec noFloats
      start = stuck [] [] := rfl
  rw [UsageRun.after, List.foldl_cons, started]
  induction count with
  | zero => rw [Nat.zero_min]; rfl
  | succ count ih =>
      rw [List.replicate_succ', List.foldl_append, ih, List.foldl_cons,
        List.foldl_nil, report_stuck, enforceSegmentBufferCap_replicate,
        List.replicate_succ']

theorem unitsOf_replicate (count : Nat) :
    unitsOf "tokens".toList (List.replicate count event) = count := by
  induction count with
  | zero => rfl
  | succ count ih =>
      have last : unitsOf "tokens".toList [event] = 1 := by decide +kernel
      rw [List.replicate_succ', unitsOf_append, ih, Nat.cast_add, last,
        Nat.cast_one]

end MeteredRun

end Takos.DurableObjects
