import Takos.Foundation.Text

/-!
# The run row and its writers

Every update of a run row that touches its status, its owner or its lease is
one `UPDATE … SET … WHERE …` statement.  Each writer is given here as its
condition and its assignment; the `id = ?` conjunct is left out because there
is one row.
-/

namespace Takos.Runs

open Takos.Foundation

inductive RunStatus where
  | pending
  | queued
  | running
  | completed
  | failed
  | cancelled
  deriving DecidableEq, Repr

/-- `RUN_TERMINAL_STATUSES`. -/
def RunStatus.isTerminal : RunStatus → Bool
  | .completed | .failed | .cancelled => true
  | .pending | .queued | .running => false

/-- Timestamps are ISO texts, `usage` is the serialised usage. -/
structure RunRow where
  status : RunStatus
  serviceId : Option Text
  leaseVersion : Nat
  serviceHeartbeat : Option Text
  createdAt : Text
  startedAt : Option Text
  completedAt : Option Text
  completionKey : Option Text
  engineCheckpoint : Option Text
  engineCheckpointUpdatedAt : Option Text
  model : Option Text
  usage : Text
  output : Option Text
  error : Option Text

/-- The row that `createPendingRun` inserts. -/
def createPendingRun (model : Option Text) (createdAt : Text) : RunRow where
  status := .pending
  serviceId := none
  leaseVersion := 0
  serviceHeartbeat := none
  createdAt := createdAt
  startedAt := none
  completedAt := none
  completionKey := none
  engineCheckpoint := none
  engineCheckpointUpdatedAt := none
  model := model
  usage := ['{', '}']
  output := none
  error := none

structure RowUpdate where
  condition : RunRow → Bool
  assign : RunRow → RunRow

/-- Rows affected are one or none. -/
def RowUpdate.apply (update : RowUpdate) (row : RunRow) : RunRow :=
  if update.condition row then update.assign row else row

/-- `lt(runs.serviceHeartbeat, threshold)`; a null heartbeat never matches. -/
def RunRow.heartbeatBefore (row : RunRow) (threshold : Text) : Bool :=
  row.serviceHeartbeat.any fun heartbeat => Text.lt heartbeat threshold

/-- The lease conjuncts that a writer adds when it has the values. -/
def RunRow.hasLease (row : RunRow) (serviceId : Option Text)
    (leaseVersion : Option Nat) : Bool :=
  serviceId.all (fun service => row.serviceId = some service) &&
    leaseVersion.all (fun version => row.leaseVersion = version)

namespace RowUpdate

def recoverStale (staleThreshold : Text) : RowUpdate where
  condition row := row.status = .running && row.heartbeatBefore staleThreshold
  assign row :=
    { row with
      status := .queued
      serviceId := none
      serviceHeartbeat := none
      completionKey := none }

def claim (serviceId now : Text) : RowUpdate where
  condition row := row.status = .queued && row.serviceId = none
  assign row :=
    { row with
      status := .running
      startedAt := some now
      serviceId := some serviceId
      serviceHeartbeat := some now
      leaseVersion := row.leaseVersion + 1 }

def freezeModel (serviceId : Text) (leaseVersion : Nat) (model : Text) :
    RowUpdate where
  condition row :=
    row.status = .running && row.serviceId = some serviceId &&
      row.leaseVersion = leaseVersion && row.model = none
  assign row := { row with model := some model }

/-- The resets after a failed dispatch and in the catch block. -/
def resetClaim (serviceId : Text) (error : Option Text) : RowUpdate where
  condition row := row.status = .running && row.serviceId = some serviceId
  assign row :=
    { row with
      status := .queued
      serviceId := none
      serviceHeartbeat := none
      error := error
      completedAt := none
      completionKey := none }

def resetStaleRunning (staleThreshold : Text) : RowUpdate where
  condition row := row.status = .running && row.heartbeatBefore staleThreshold
  assign row :=
    { row with
      status := .queued
      serviceId := none
      serviceHeartbeat := none
      completionKey := none
      completedAt := none }

/-- After a failed send; `epoch` is `new Date(0).toISOString()`. -/
def revertToRunning (epoch : Text) : RowUpdate where
  condition row := row.status = .queued
  assign row :=
    { row with
      status := .running
      serviceHeartbeat := some epoch }

def resetUnclaimed (staleThreshold recoveryHeartbeat : Text) : RowUpdate where
  condition row :=
    (row.status = .pending || row.status = .queued) &&
      row.serviceId = none && Text.lt row.createdAt staleThreshold &&
      (row.serviceHeartbeat = none || row.heartbeatBefore staleThreshold)
  assign row :=
    { row with
      status := .queued
      serviceId := none
      serviceHeartbeat := some recoveryHeartbeat }

def heartbeat (serviceId : Text) (leaseVersion : Option Nat) (now : Text) :
    RowUpdate where
  condition row :=
    row.hasLease (some serviceId) leaseVersion && row.status = .running
  assign row := { row with serviceHeartbeat := some now }

def runFail (serviceId : Text) (leaseVersion : Option Nat)
    (error completedAt : Text) : RowUpdate where
  condition row :=
    row.hasLease (some serviceId) leaseVersion && row.status = .running
  assign row :=
    { row with
      status := .failed
      error := some error
      completedAt := some completedAt }

def runReset (serviceId : Text) (leaseVersion : Option Nat) : RowUpdate where
  condition row :=
    row.hasLease (some serviceId) leaseVersion && row.status = .running
  assign row :=
    { row with
      status := .queued
      serviceId := none
      serviceHeartbeat := none
      completionKey := none
      completedAt := none }

end RowUpdate

/-- `CompleteRunInput` with its completion key, less the transcript. -/
structure CompleteRunInput where
  serviceId : Text
  leaseVersion : Nat
  status : RunStatus
  usage : Text
  output : Option Text
  error : Option Text
  completionKey : Text
  completedAt : Text

/-- `ControlTerminalTransitionInput` with its completion key.  The outer options
are absent properties. -/
structure TransitionInput where
  status : RunStatus
  expectedStatuses : List RunStatus
  expectedServiceId : Option Text
  expectedLeaseVersion : Option Nat
  completedAt : Text
  usage : Option Text
  error : Option (Option Text)
  output : Option (Option Text)
  completionKey : Text

/-- The arguments of `updateRunStatusImpl`. -/
structure StatusUpdate where
  status : RunStatus
  usage : Text
  output : Option Text
  error : Option Text
  serviceId : Option Text
  leaseVersion : Option Nat
  now : Text

/-- `activeRunPredicate`. -/
def TransitionInput.matches (input : TransitionInput) (row : RunRow) : Bool :=
  input.expectedStatuses.contains row.status &&
    row.hasLease input.expectedServiceId input.expectedLeaseVersion

/-- The lease of an update counts only when it names a service. -/
def StatusUpdate.fence (update : StatusUpdate) : Option (Text × Option Nat) :=
  match update.serviceId with
  | some (char :: rest) => some (char :: rest, update.leaseVersion)
  | _ => none

/-- Whether the row has the lease that the update is fenced to. -/
def StatusUpdate.holds (update : StatusUpdate) (row : RunRow) : Bool :=
  match update.fence with
  | none => true
  | some (serviceId, leaseVersion) =>
    row.hasLease (some serviceId) leaseVersion

/-- The row already shows this outcome. -/
def StatusUpdate.shown (update : StatusUpdate) (row : RunRow) : Bool :=
  row.status = update.status && row.usage = update.usage &&
    (update.output = none || row.output = update.output) &&
    (update.error = none || row.error = update.error)

namespace RowUpdate

/-- The leading statement of `completeRunAtomically`; the outer option is an
absent `expectedEngineCheckpoint`. -/
def completeRun (input : CompleteRunInput)
    (expectedEngineCheckpoint : Option (Option Text)) : RowUpdate where
  condition row :=
    row.status = .running &&
      row.hasLease (some input.serviceId) (some input.leaseVersion) &&
      expectedEngineCheckpoint.all (fun expected =>
        row.engineCheckpoint = expected)
  assign row :=
    { row with
      status := input.status
      usage := input.usage
      output := input.output
      error := input.error
      completedAt := some input.completedAt
      completionKey := some input.completionKey
      engineCheckpoint := none
      engineCheckpointUpdatedAt := none }

/-- The leading statement of `transitionRunTerminalAtomically`. -/
def transitionRun (input : TransitionInput)
    (expectedEngineCheckpoint : Option Text) : RowUpdate where
  condition row :=
    input.matches row && row.engineCheckpoint = expectedEngineCheckpoint
  assign row :=
    { row with
      status := input.status
      completedAt := some input.completedAt
      completionKey := some input.completionKey
      engineCheckpoint := none
      engineCheckpointUpdatedAt := none
      error := input.error.getD row.error
      output := input.output.getD row.output
      usage := input.usage.getD row.usage }

/-- The update of `updateRunStatusImpl`. -/
def statusUpdate (update : StatusUpdate) : RowUpdate where
  condition row :=
    (if update.status.isTerminal then row.status = .running
      else !row.status.isTerminal) && update.holds row
  assign row :=
    { row with
      status := update.status
      usage := update.usage
      startedAt :=
        if update.status = .running then some update.now else row.startedAt
      completedAt :=
        if update.status.isTerminal then some update.now else row.completedAt
      output := update.output.orElse fun _ => row.output
      error := update.error.orElse fun _ => row.error }

/-- `updateRunStatus`, which has no condition but the id. -/
def updateRunStatus (status : RunStatus) (error : Option Text) :
    RowUpdate where
  condition _ := true
  assign row := { row with status := status, error := error }

/-- A writer that matches only active rows and leaves the lease to its owner:
it keeps the version, and keeps the owner or removes it. -/
structure Active (update : RowUpdate) : Prop where
  active : ∀ row, update.condition row = true → row.status.isTerminal = false
  version : ∀ row, (update.assign row).leaseVersion = row.leaseVersion
  owner : ∀ row, (update.assign row).serviceId = row.serviceId ∨
    (update.assign row).serviceId = none

theorem active_of_status {update : RowUpdate} (status : RunStatus)
    (ongoing : status.isTerminal = false)
    (matched : ∀ row, update.condition row = true → row.status = status)
    (version : ∀ row, (update.assign row).leaseVersion = row.leaseVersion)
    (owner : ∀ row, (update.assign row).serviceId = row.serviceId ∨
      (update.assign row).serviceId = none) : update.Active where
  active row condition := by rw [matched row condition, ongoing]
  version := version
  owner := owner

theorem active_recoverStale (staleThreshold : Text) :
    (recoverStale staleThreshold).Active := by
  apply active_of_status .running rfl
  · intro row condition
    simp only [recoverStale, Bool.and_eq_true, decide_eq_true_eq] at condition
    exact condition.1
  · intro row
    rfl
  · intro row
    exact .inr rfl

theorem active_freezeModel (serviceId : Text) (leaseVersion : Nat)
    (model : Text) : (freezeModel serviceId leaseVersion model).Active := by
  apply active_of_status .running rfl
  · intro row condition
    simp only [freezeModel, Bool.and_eq_true, decide_eq_true_eq] at condition
    exact condition.1.1.1
  · intro row
    rfl
  · intro row
    exact .inl rfl

theorem active_resetClaim (serviceId : Text) (error : Option Text) :
    (resetClaim serviceId error).Active := by
  apply active_of_status .running rfl
  · intro row condition
    simp only [resetClaim, Bool.and_eq_true, decide_eq_true_eq] at condition
    exact condition.1
  · intro row
    rfl
  · intro row
    exact .inr rfl

theorem active_resetStaleRunning (staleThreshold : Text) :
    (resetStaleRunning staleThreshold).Active := by
  apply active_of_status .running rfl
  · intro row condition
    simp only [resetStaleRunning, Bool.and_eq_true,
      decide_eq_true_eq] at condition
    exact condition.1
  · intro row
    rfl
  · intro row
    exact .inr rfl

theorem active_revertToRunning (epoch : Text) :
    (revertToRunning epoch).Active := by
  apply active_of_status .queued rfl
  · intro row condition
    simp only [revertToRunning, decide_eq_true_eq] at condition
    exact condition
  · intro row
    rfl
  · intro row
    exact .inl rfl

theorem active_resetUnclaimed (staleThreshold recoveryHeartbeat : Text) :
    (resetUnclaimed staleThreshold recoveryHeartbeat).Active where
  active row condition := by
    simp only [resetUnclaimed, Bool.and_eq_true, Bool.or_eq_true,
      decide_eq_true_eq] at condition
    rcases condition.1.1.1 with pending | queued
    · rw [pending]
      rfl
    · rw [queued]
      rfl
  version _ := rfl
  owner _ := .inr rfl

theorem active_heartbeat (serviceId : Text) (leaseVersion : Option Nat)
    (now : Text) : (heartbeat serviceId leaseVersion now).Active := by
  apply active_of_status .running rfl
  · intro row condition
    simp only [heartbeat, Bool.and_eq_true, decide_eq_true_eq] at condition
    exact condition.2
  · intro row
    rfl
  · intro row
    exact .inl rfl

theorem active_runFail (serviceId : Text) (leaseVersion : Option Nat)
    (error completedAt : Text) :
    (runFail serviceId leaseVersion error completedAt).Active := by
  apply active_of_status .running rfl
  · intro row condition
    simp only [runFail, Bool.and_eq_true, decide_eq_true_eq] at condition
    exact condition.2
  · intro row
    rfl
  · intro row
    exact .inl rfl

theorem active_runReset (serviceId : Text) (leaseVersion : Option Nat) :
    (runReset serviceId leaseVersion).Active := by
  apply active_of_status .running rfl
  · intro row condition
    simp only [runReset, Bool.and_eq_true, decide_eq_true_eq] at condition
    exact condition.2
  · intro row
    rfl
  · intro row
    exact .inr rfl

theorem active_completeRun (input : CompleteRunInput)
    (expectedEngineCheckpoint : Option (Option Text)) :
    (completeRun input expectedEngineCheckpoint).Active := by
  apply active_of_status .running rfl
  · intro row condition
    simp only [completeRun, Bool.and_eq_true, decide_eq_true_eq] at condition
    exact condition.1.1
  · intro row
    rfl
  · intro row
    exact .inl rfl

theorem active_transitionRun {input : TransitionInput}
    (ongoing : ∀ status ∈ input.expectedStatuses, status.isTerminal = false)
    (expectedEngineCheckpoint : Option Text) :
    (transitionRun input expectedEngineCheckpoint).Active where
  active row condition := by
    simp only [transitionRun, TransitionInput.matches, Bool.and_eq_true,
      List.contains_iff_mem] at condition
    exact ongoing row.status condition.1.1
  version _ := rfl
  owner _ := .inl rfl

theorem active_statusUpdate (update : StatusUpdate) :
    (statusUpdate update).Active where
  active row condition := by
    simp only [statusUpdate, Bool.and_eq_true] at condition
    obtain ⟨guard, _⟩ := condition
    split at guard
    · rw [of_decide_eq_true guard]
      rfl
    · simpa using guard
  version _ := rfl
  owner _ := .inl rfl

end RowUpdate

end Takos.Runs
