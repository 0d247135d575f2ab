import Takos.Foundation.Interleaving
import Takos.Runs.RunRow

/-!
# The calls that write a run row

The queue consumer, the cron, the executor's RPCs, the control transitions and
the run creation, one database statement at a time.  What a call learns from
outside the row (whether access was revoked, how the executor host answered,
whether a send succeeded) is part of the call from its start.

Beside the row the ledger records every lease that was ever claimed; no call
reads that record.
-/

namespace Takos.Runs

open Takos.Foundation

structure Lease where
  serviceId : Text
  version : Nat

structure RunLedger where
  row : RunRow
  claims : List Lease

/-- What a statement that updates the row leaves. -/
def RunLedger.update {Result : Type} (ledger : RunLedger) (update : RowUpdate)
    (matched missed : Result) : RunLedger × Result :=
  if update.condition ledger.row then
    ({ ledger with row := update.assign ledger.row }, matched)
  else (ledger, missed)

/-- What follows the claim of a delivery. -/
inductive DispatchOutcome where
  | accessRevoked
  | failedBefore
  | threw (error : Text)
  | rejected (status : Text) (body : Text)
  | unavailable (status : Text) (body : Text)
  | atCapacity
  | accepted

/-- One message of the run queue; `resolvedModel` is the model for a row that
has none, and the completion keys are those of its two transitions. -/
structure Delivery where
  serviceId : Text
  staleThreshold : Text
  now : Text
  resolvedModel : Text
  outcome : DispatchOutcome
  completedAt : Text
  completionKey : Text

/-- The request of an executor.  `holder` is the lease its token was issued for;
the ids of the body are those of the token or absent. -/
structure ExecutorBody where
  holder : Lease
  serviceId : Option Text
  leaseVersion : Option Nat
  service_bound : ∀ service, serviceId = some service →
    service = holder.serviceId
  service_nonempty : serviceId ≠ some []
  version_bound : ∀ version, leaseVersion = some version →
    version = holder.version

/-- `handleUpdateRunStatus` and `handleCompleteRun` after their checks. -/
inductive LeasedRpc where
  | updateStatus (update : StatusUpdate) (completionKey : Text)
  | completeRun (input : CompleteRunInput)

/-- The request of a terminal transition.  `writer` is the executor that it is
made for. -/
structure Transition where
  input : TransitionInput
  writer : Option ExecutorBody
  active : ∀ status ∈ input.expectedStatuses, status.isTerminal = false

/-- What the caller of a transition does with a failure.  A cancellation has one
completion key for each status it may observe. -/
inductive TransitionCaller where
  | plain
  | cancel (attempts : Nat) (completedAt : Text)
      (completionKey : RunStatus → Text)
  | updateStatus (update : StatusUpdate)

inductive RunReply where
  | acked
  | retried
  | requeued
  | done
  | updated
  | replayed
  | leaseLost
  | committed
  | notCommitted
  | alreadyFinished
  | conflict
  | noExpectedStatus

/-- The statement that a call executes next. -/
inductive RunCall where
  | recoverStale (delivery : Delivery)
  | claim (delivery : Delivery)
  | readLease (delivery : Delivery)
  | freezeModel (delivery : Delivery) (leaseVersion : Nat)
  | resetClaim (serviceId : Text) (error : Option Text) (reply : RunReply)
  | selectStale (staleThreshold epoch : Text) (sent : Bool)
  | resetStaleRunning (staleThreshold epoch : Text) (sent : Bool)
  | revertToRunning (epoch : Text)
  | selectUnclaimed (staleThreshold recoveryHeartbeat : Text)
  | resetUnclaimed (staleThreshold recoveryHeartbeat : Text)
  | heartbeat (body : ExecutorBody) (serviceId now : Text)
  | runFail (body : ExecutorBody) (serviceId error completedAt : Text)
  | runReset (body : ExecutorBody) (serviceId : Text)
  | ensureRunLease (body : ExecutorBody) (rpc : LeasedRpc)
  | readCompletion (body : ExecutorBody) (input : CompleteRunInput)
  | completeRun (body : ExecutorBody) (input : CompleteRunInput)
      (expectedEngineCheckpoint : Option (Option Text))
  | confirmCompletion (input : CompleteRunInput)
  | readEngineCheckpoint (transition : Transition) (caller : TransitionCaller)
  | transitionRun (transition : Transition) (checkpoint : Option Text)
      (caller : TransitionCaller)
  | confirmStatus (update : StatusUpdate)
  | readCancelled (attempts : Nat) (completedAt : Text)
      (completionKey : RunStatus → Text)
  | readExisting (body : ExecutorBody) (update : StatusUpdate)
  | statusUpdate (body : ExecutorBody) (update : StatusUpdate)
  | confirmLease (update : StatusUpdate)
  | updateRunStatus (status : RunStatus) (error : Option Text)

/-- `${status} ${text.slice(0, 500)}` after `Dispatch rejected: `. -/
def dispatchRejected (status body : Text) : Text :=
  "Dispatch rejected: ".toList ++ status ++ [' '] ++ body.take 500

/-- A failed delivery, under the lease it claimed. -/
def Delivery.failure (delivery : Delivery) (leaseVersion : Nat)
    (error : Text) : Transition where
  input :=
    { status := .failed
      expectedStatuses := [.running]
      expectedServiceId := some delivery.serviceId
      expectedLeaseVersion := some leaseVersion
      completedAt := delivery.completedAt
      usage := none
      error := some (some error)
      output := none
      completionKey := delivery.completionKey }
  writer := none
  active := by simp [RunStatus.isTerminal]

/-- `POST /runs/:id/cancel` for the status that was observed. -/
def cancellation (observed : RunStatus) (ongoing : observed.isTerminal = false)
    (completedAt completionKey : Text) : Transition where
  input :=
    { status := .cancelled
      expectedStatuses := [observed]
      expectedServiceId := none
      expectedLeaseVersion := none
      completedAt := completedAt
      usage := none
      error := some none
      output := none
      completionKey := completionKey }
  writer := none
  active := by simp [ongoing]

/-- The terminal branch of `handleUpdateRunStatus`. -/
def ExecutorBody.terminal (body : ExecutorBody) (update : StatusUpdate)
    (completionKey : Text) : Transition where
  input :=
    { status := update.status
      expectedStatuses := [.running]
      expectedServiceId := body.serviceId
      expectedLeaseVersion := body.leaseVersion
      completedAt := update.now
      usage := some update.usage
      error := update.error.map some
      output := update.output.map some
      completionKey := completionKey }
  writer := some body
  active := by simp [RunStatus.isTerminal]

/-- The dispatch of a claimed run. -/
def Delivery.dispatch (delivery : Delivery) (leaseVersion : Nat) :
    Outcome RunCall RunReply :=
  match delivery.outcome with
  | .accessRevoked =>
    .next (.readEngineCheckpoint (delivery.failure leaseVersion
      "Run requester no longer has access to this Workspace".toList) .plain)
  | .failedBefore =>
    .next (.resetClaim delivery.serviceId
      (some "Run queue handler failed before container dispatch completed".toList)
      .retried)
  | .threw error =>
    .next (.resetClaim delivery.serviceId
      (some ("Dispatch exception: ".toList ++ error.take 500)) .retried)
  | .rejected status body =>
    .next (.readEngineCheckpoint (delivery.failure leaseVersion
      (dispatchRejected status body)) .plain)
  | .unavailable status body =>
    .next (.resetClaim delivery.serviceId
      (some (dispatchRejected status body)) .retried)
  | .atCapacity => .next (.resetClaim delivery.serviceId none .requeued)
  | .accepted => .done .acked

/-- Whether the access check or the side-effect fence ends the delivery before
its model is frozen. -/
def Delivery.stops (delivery : Delivery) : Bool :=
  match delivery.outcome with
  | .accessRevoked | .failedBefore => true
  | _ => false

/-- `ensureRunLease`: whether the row refuses the body. -/
def refusesLease (row : RunRow) (body : ExecutorBody)
    (allowTerminalRetry : Bool) : Bool :=
  match body.serviceId with
  | none => false
  | some serviceId =>
    !row.hasLease (some serviceId) body.leaseVersion ||
      (row.status ≠ .running && !allowTerminalRetry)

/-- What follows a transition that did not commit. -/
def TransitionCaller.missed : TransitionCaller → Outcome RunCall RunReply
  | .plain => .done .notCommitted
  | .cancel attempts completedAt completionKey =>
    .next (.readCancelled attempts completedAt completionKey)
  | .updateStatus update => .next (.confirmStatus update)

/-- One statement of a call, and what its function does with the result. -/
def RunCall.statement (call : RunCall) (ledger : RunLedger) :
    RunLedger × Outcome RunCall RunReply :=
  match call with
  | .recoverStale delivery =>
    ledger.update (.recoverStale delivery.staleThreshold)
      (.next (.claim delivery)) (.next (.claim delivery))
  | .claim delivery =>
    let claim := RowUpdate.claim delivery.serviceId delivery.now
    if claim.condition ledger.row then
      let row := claim.assign ledger.row
      (⟨row, ⟨delivery.serviceId, row.leaseVersion⟩ :: ledger.claims⟩,
        .next (.readLease delivery))
    else (ledger, .done .acked)
  | .readLease delivery =>
    if ledger.row.serviceId = some delivery.serviceId then
      if delivery.stops then
        (ledger, delivery.dispatch ledger.row.leaseVersion)
      else
        match ledger.row.model with
        | some (_ :: _) => (ledger, delivery.dispatch ledger.row.leaseVersion)
        | _ => (ledger, .next (.freezeModel delivery ledger.row.leaseVersion))
    else (ledger, .done .acked)
  | .freezeModel delivery leaseVersion =>
    ledger.update
      (.freezeModel delivery.serviceId leaseVersion delivery.resolvedModel)
      (delivery.dispatch leaseVersion) (.done .retried)
  | .resetClaim serviceId error reply =>
    ledger.update (.resetClaim serviceId error) (.done reply) (.done reply)
  | .selectStale staleThreshold epoch sent =>
    if ledger.row.status = .running &&
        ledger.row.heartbeatBefore staleThreshold then
      (ledger, .next (.resetStaleRunning staleThreshold epoch sent))
    else (ledger, .done .done)
  | .resetStaleRunning staleThreshold epoch sent =>
    ledger.update (.resetStaleRunning staleThreshold)
      (if sent then .done .done else .next (.revertToRunning epoch))
      (.done .done)
  | .revertToRunning epoch =>
    ledger.update (.revertToRunning epoch) (.done .done) (.done .done)
  | .selectUnclaimed staleThreshold recoveryHeartbeat =>
    if (RowUpdate.resetUnclaimed staleThreshold
        recoveryHeartbeat).condition ledger.row then
      (ledger, .next (.resetUnclaimed staleThreshold recoveryHeartbeat))
    else (ledger, .done .done)
  | .resetUnclaimed staleThreshold recoveryHeartbeat =>
    ledger.update (.resetUnclaimed staleThreshold recoveryHeartbeat)
      (.done .done) (.done .done)
  | .heartbeat body serviceId now =>
    ledger.update (.heartbeat serviceId body.leaseVersion now)
      (.done .updated) (.done .leaseLost)
  | .runFail body serviceId error completedAt =>
    ledger.update (.runFail serviceId body.leaseVersion error completedAt)
      (.done .updated) (.done .leaseLost)
  | .runReset body serviceId =>
    ledger.update (.runReset serviceId body.leaseVersion)
      (.done .updated) (.done .leaseLost)
  | .ensureRunLease body (.updateStatus update completionKey) =>
    if refusesLease ledger.row body update.status.isTerminal then
      (ledger, .done .leaseLost)
    else if update.status.isTerminal then
      (ledger,
        .next (.readEngineCheckpoint (body.terminal update completionKey)
          (.updateStatus update)))
    else (ledger, .next (.readExisting body update))
  | .ensureRunLease body (.completeRun input) =>
    if refusesLease ledger.row body true then (ledger, .done .leaseLost)
    else (ledger, .next (.readCompletion body input))
  | .readCompletion body input =>
    (ledger,
      .next (.completeRun body input (some ledger.row.engineCheckpoint)))
  | .completeRun _ input expectedEngineCheckpoint =>
    ledger.update (.completeRun input expectedEngineCheckpoint)
      (.done .committed) (.next (.confirmCompletion input))
  | .confirmCompletion input =>
    let row := ledger.row
    if row.status = input.status && row.usage = input.usage &&
        row.output = input.output && row.error = input.error &&
        row.hasLease (some input.serviceId) (some input.leaseVersion) &&
        row.completionKey = some input.completionKey then
      (ledger, .done .replayed)
    else (ledger, .done .leaseLost)
  | .readEngineCheckpoint transition caller =>
    if transition.input.expectedStatuses.isEmpty then
      (ledger, .done .noExpectedStatus)
    else if transition.input.matches ledger.row then
      (ledger,
        .next (.transitionRun transition ledger.row.engineCheckpoint caller))
    else (ledger, caller.missed)
  | .transitionRun transition checkpoint caller =>
    ledger.update (.transitionRun transition.input checkpoint)
      (.done .committed) caller.missed
  | .confirmStatus update =>
    if update.shown ledger.row &&
        ledger.row.hasLease update.serviceId update.leaseVersion &&
        ledger.row.completionKey.any (fun key => !key.isEmpty) then
      (ledger, .done .replayed)
    else (ledger, .done .leaseLost)
  | .readCancelled attempts completedAt completionKey =>
    match attempts with
    | 0 => (ledger, .done .conflict)
    | attempts + 1 =>
      if ongoing : ledger.row.status.isTerminal = false then
        (ledger,
          .next (.readEngineCheckpoint
            (cancellation ledger.row.status ongoing completedAt
              (completionKey ledger.row.status))
            (.cancel attempts completedAt completionKey)))
      else (ledger, .done .alreadyFinished)
  | .readExisting body update =>
    if update.status.isTerminal then
      if !update.holds ledger.row then (ledger, .done .leaseLost)
      else if update.shown ledger.row then (ledger, .done .updated)
      else (ledger, .next (.statusUpdate body update))
    else (ledger, .next (.statusUpdate body update))
  | .statusUpdate _ update =>
    ledger.update (.statusUpdate update) (.done .updated)
      (if update.fence = none then .done .notCommitted
        else .next (.confirmLease update))
  | .confirmLease update =>
    (ledger,
      .done (if update.holds ledger.row then .notCommitted else .leaseLost))
  | .updateRunStatus status error =>
    ledger.update (.updateRunStatus status error) (.done .done) (.done .done)

/-- The ids of a body as `updateRunStatusImpl` takes them. -/
def StatusUpdate.From (update : StatusUpdate) (body : ExecutorBody) : Prop :=
  update.serviceId = body.serviceId ∧ update.leaseVersion = body.leaseVersion

/-- Both ids are required of a `CompleteRunInput`. -/
def CompleteRunInput.From (input : CompleteRunInput) (body : ExecutorBody) :
    Prop :=
  body.serviceId = some input.serviceId ∧
    body.leaseVersion = some input.leaseVersion

/-- How calls start.  A delivery that fails anywhere continues with the reset of
its catch block. -/
inductive RunCall.Starts : RunCall → Prop where
  | delivery (delivery : Delivery) : Starts (.recoverStale delivery)
  | caught (serviceId : Text) (error : Option Text) :
      Starts (.resetClaim serviceId error .retried)
  | reenqueueStaleRunningRuns (staleThreshold epoch : Text) (sent : Bool) :
      Starts (.selectStale staleThreshold epoch sent)
  | reenqueueStaleUnclaimedRuns (staleThreshold recoveryHeartbeat : Text) :
      Starts (.selectUnclaimed staleThreshold recoveryHeartbeat)
  | handleHeartbeat (body : ExecutorBody) (serviceId now : Text) :
      body.serviceId = some serviceId → Starts (.heartbeat body serviceId now)
  | handleRunFail (body : ExecutorBody) (serviceId error completedAt : Text) :
      body.serviceId = some serviceId → Text.trim error ≠ [] →
      Starts (.runFail body serviceId error completedAt)
  | handleRunReset (body : ExecutorBody) (serviceId : Text) :
      body.serviceId = some serviceId → Starts (.runReset body serviceId)
  | handleUpdateRunStatus (body : ExecutorBody) (update : StatusUpdate)
      (completionKey : Text) : update.From body →
      Starts (.ensureRunLease body (.updateStatus update completionKey))
  | handleCompleteRun (body : ExecutorBody) (input : CompleteRunInput) :
      input.From body → Starts (.ensureRunLease body (.completeRun input))
  | completeRunAtomically (body : ExecutorBody) (input : CompleteRunInput)
      (expectedEngineCheckpoint : Option (Option Text)) : input.From body →
      Starts (.completeRun body input expectedEngineCheckpoint)
  | transitionRunTerminalAtomically (transition : Transition) :
      transition.writer = none →
      Starts (.readEngineCheckpoint transition .plain)
  | cancel (completedAt : Text) (completionKey : RunStatus → Text) :
      Starts (.readCancelled 3 completedAt completionKey)
  | updateRunStatusImpl (body : ExecutorBody) (update : StatusUpdate) :
      update.From body → Starts (.readExisting body update)
  | updateRunStatus (status : RunStatus) (error : Option Text) :
      Starts (.updateRunStatus status error)

def runProgram : Program RunLedger RunCall RunReply where
  starts := RunCall.Starts
  statement := RunCall.statement

end Takos.Runs
