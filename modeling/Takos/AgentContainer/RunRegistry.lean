import Takos.Foundation.Interleaving
import Takos.Foundation.OrderedMap
import Takos.Foundation.Text

/-!
# The run registry of an agent container

A container keeps the runs that it executes in a registry behind a lock.  A
start request is admitted under the lock, unless shutdown was seen there; the
run that it registers is executed by a task of its own, whose slot guard
releases the registration at the end.  Registrations are compared by the
service id and the version of the lease.
-/

namespace Takos.AgentContainer

open Takos.Foundation

/-- The fields of a start request that admission reads. -/
structure StartPayload where
  runId : Text
  workerId : Text
  serviceId : Option Text
  leaseVersion : Option UInt32

/-- An absent or empty service id is the worker's. -/
def StartPayload.resolvedServiceId (payload : StartPayload) : Text :=
  match payload.serviceId.filter (fun value => !value.isEmpty) with
  | some value => value
  | none => payload.workerId

structure RunLeaseIdentity where
  serviceId : Text
  leaseVersion : Option UInt32
  deriving DecidableEq

def RunLeaseIdentity.fromPayload (payload : StartPayload) : RunLeaseIdentity where
  serviceId := payload.resolvedServiceId
  leaseVersion := payload.leaseVersion

/-- A registration with the number of its cancellation token. -/
structure ActiveRun where
  identity : RunLeaseIdentity
  cancellationToken : Nat
  deriving DecidableEq

inductive RunAdmission where
  | registered (identity : RunLeaseIdentity) (cancellationToken : Nat)
      (replaced : Bool)
  | duplicate
  | atCapacity (active max : Nat)
  | shuttingDown

/-- The state of the service.  Tokens are numbered in the order of their
creation; `cancelled` lists those that were cancelled. -/
structure ServiceState where
  activeRuns : OrderedMap Text ActiveRun
  locked : Bool
  shuttingDown : Bool
  maxConcurrentRuns : Nat
  nextToken : Nat
  cancelled : List Nat

namespace ServiceState

def new (maxConcurrentRuns : Nat) : ServiceState where
  activeRuns := .empty
  locked := false
  shuttingDown := false
  maxConcurrentRuns := maxConcurrentRuns
  nextToken := 0
  cancelled := []

def activeRunCount (state : ServiceState) : Nat :=
  state.activeRuns.entries.length

/-- A fresh token is entered for the run. -/
def insertRun (state : ServiceState) (runId : Text)
    (identity : RunLeaseIdentity) : ServiceState :=
  { state with
    activeRuns := state.activeRuns.set runId ⟨identity, state.nextToken⟩
    nextToken := state.nextToken + 1 }

/-- `try_register_run` once it holds the lock and shutdown was not seen. -/
def tryRegisterRun (state : ServiceState) (payload : StartPayload) :
    ServiceState × RunAdmission :=
  let identity := RunLeaseIdentity.fromPayload payload
  match state.activeRuns.get? payload.runId with
  | some existing =>
    if existing.identity = identity then (state, .duplicate)
    else
      ({ state with cancelled := existing.cancellationToken :: state.cancelled }.insertRun
          payload.runId identity,
        .registered identity state.nextToken true)
  | none =>
    if state.maxConcurrentRuns ≤ state.activeRunCount then
      (state, .atCapacity state.activeRunCount state.maxConcurrentRuns)
    else
      (state.insertRun payload.runId identity,
        .registered identity state.nextToken false)

def finishRun (state : ServiceState) (runId : Text)
    (identity : RunLeaseIdentity) : ServiceState :=
  match state.activeRuns.get? runId with
  | some active =>
    if active.identity = identity then
      { state with activeRuns := state.activeRuns.delete runId }
    else state
  | none => state

end ServiceState

/-- The task of a registered run, with what its slot guard holds. -/
structure RunTask where
  runId : Text
  identity : RunLeaseIdentity
  cancellationToken : Nat
  deriving DecidableEq

/-- A start request before its first check, waiting for the lock and holding it
after the second check; a task until its guard is dropped; the shutdown. -/
inductive AgentCall where
  | arriving (payload : StartPayload)
  | locking (payload : StartPayload)
  | admitting (payload : StartPayload)
  | running (task : RunTask)
  | beginShutdown

inductive AgentResult where
  | refused (admission : RunAdmission)
  | finished (task : RunTask)
  | shutdownBegun

def statement (call : AgentCall) (state : ServiceState) :
    ServiceState × Outcome AgentCall AgentResult :=
  match call with
  | .arriving payload =>
    if state.shuttingDown = true then (state, .done (.refused .shuttingDown))
    else (state, .next (.locking payload))
  | .locking payload =>
    if state.locked = true then (state, .next (.locking payload))
    else if state.shuttingDown = true then
      (state, .done (.refused .shuttingDown))
    else ({ state with locked := true }, .next (.admitting payload))
  | .admitting payload =>
    match state.tryRegisterRun payload with
    | (after, .registered identity cancellationToken _) =>
      ({ after with locked := false },
        .next (.running ⟨payload.runId, identity, cancellationToken⟩))
    | (after, refused) =>
      ({ after with locked := false }, .done (.refused refused))
  | .running task =>
    if state.locked = true then (state, .next (.running task))
    else (state.finishRun task.runId task.identity, .done (.finished task))
  | .beginShutdown =>
    ({ state with shuttingDown := true }, .done .shutdownBegun)

/-- Start requests come at any time, and so does the shutdown. -/
inductive Starts : AgentCall → Prop where
  | request (payload : StartPayload) : Starts (.arriving payload)
  | shutdown : Starts .beginShutdown

def agent : Program ServiceState AgentCall AgentResult where
  starts := Starts
  statement := statement

abbrev AgentConfig := Program.Config ServiceState AgentCall AgentResult

def initial (maxConcurrentRuns : Nat) : AgentConfig where
  shared := .new maxConcurrentRuns
  calls := []
  results := []

def registered (state : ServiceState) (payload : StartPayload)
    (cancelled : List Nat) : ServiceState :=
  { state.insertRun payload.runId (.fromPayload payload) with
    cancelled := cancelled, locked := false }

def startedTask (state : ServiceState) (payload : StartPayload) : RunTask where
  runId := payload.runId
  identity := .fromPayload payload
  cancellationToken := state.nextToken

/-- Admission only gives the lock back, takes the place of another lease of the
run, or takes a free slot. -/
theorem admitting_cases (state : ServiceState) (payload : StartPayload) :
    (∃ refused, statement (.admitting payload) state =
      ({ state with locked := false }, .done (.refused refused))) ∨
    (∃ existing, state.activeRuns.get? payload.runId = some existing ∧
      existing.identity ≠ .fromPayload payload ∧
      statement (.admitting payload) state =
        (registered state payload
          (existing.cancellationToken :: state.cancelled),
          .next (.running (startedTask state payload)))) ∨
    (state.activeRuns.get? payload.runId = none ∧
      state.activeRunCount < state.maxConcurrentRuns ∧
      statement (.admitting payload) state =
        (registered state payload state.cancelled,
          .next (.running (startedTask state payload)))) := by
  unfold statement ServiceState.tryRegisterRun
  dsimp only
  cases found : state.activeRuns.get? payload.runId with
  | some existing =>
      by_cases same : existing.identity = .fromPayload payload
      · refine .inl ⟨.duplicate, ?_⟩
        simp only [if_pos same]
      · refine .inr (.inl ⟨existing, rfl, same, ?_⟩)
        simp only [if_neg same]
        rfl
  | none =>
      by_cases full : state.maxConcurrentRuns ≤ state.activeRunCount
      · refine .inl ⟨.atCapacity state.activeRunCount state.maxConcurrentRuns, ?_⟩
        simp only [if_pos full]
      · refine .inr (.inr ⟨rfl, by omega, ?_⟩)
        simp only [if_neg full]
        rfl

/-- A finishing task waits for the lock, or releases a registration of its own
lease, or finds none. -/
theorem running_cases (state : ServiceState) (task : RunTask) :
    statement (.running task) state = (state, .next (.running task)) ∨
    (∃ active, state.activeRuns.get? task.runId = some active ∧
      active.identity = task.identity ∧
      statement (.running task) state =
        ({ state with activeRuns := state.activeRuns.delete task.runId },
          .done (.finished task))) ∨
    statement (.running task) state = (state, .done (.finished task)) := by
  unfold statement ServiceState.finishRun
  dsimp only
  by_cases locked : state.locked = true
  · exact .inl (if_pos locked)
  · rw [if_neg locked]
    cases found : state.activeRuns.get? task.runId with
    | none => exact .inr (.inr rfl)
    | some active =>
        by_cases same : active.identity = task.identity
        · refine .inr (.inl ⟨active, rfl, same, ?_⟩)
          simp only [if_pos same]
        · refine .inr (.inr ?_)
          simp only [if_neg same]

end Takos.AgentContainer
