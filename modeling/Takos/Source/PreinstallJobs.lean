import Takos.Foundation.Interleaving
import Takos.Foundation.OrderedMap
import Takos.Foundation.Text
import Mathlib.Data.List.Sort

/-!
# The jobs that preinstall featured apps

A pass selects the due jobs, claims each by a conditional update on the status
and the lease that it read, does the work, and writes the outcome.  The update
of the outcome names the job only.  Beside the passes jobs are entered for new
spaces, and a change of the catalog queues the blocked ones again.
-/

namespace Takos.Source

open Takos.Foundation

inductive PreinstallJobStatus where
  | queued
  | inProgress
  | blockedByConfig
  | pausedByOperator
  | completed
  | failed
  deriving DecidableEq

structure PreinstallJob where
  spaceId : Text
  status : PreinstallJobStatus
  attempts : Nat
  nextAttemptAt : Option Nat
  lockedAt : Option Nat
  lastError : Option Text
  catalogJson : Option Text
  createdAt : Nat

/-- A selected row: the id of the job and its columns. -/
abbrev JobRow := Text × PreinstallJob

/-- The table.  `leases` counts for each job the leases that were granted; the
code has no such counter. -/
structure PreinstallState where
  jobs : OrderedMap Text PreinstallJob
  leases : Text → Nat

def nextRetryAt (timestamp attempts : Nat) : Nat :=
  timestamp + min 60 (max 1 (2 ^ (attempts - 1))) * 60000

def staleLeaseBefore (timestamp leaseMs : Nat) : Nat := timestamp - leaseMs

structure PassOptions where
  limit : Nat
  spaceId : Option Text
  timestamp : Nat
  maxAttempts : Nat
  leaseMs : Nat

/-- `duePredicate`, and the same test again on the rows that were read. -/
def due (options : PassOptions) (job : PreinstallJob) : Bool :=
  match job.status with
  | .queued | .blockedByConfig | .pausedByOperator =>
    match job.nextAttemptAt with
    | none => true
    | some time => time ≤ options.timestamp
  | .inProgress =>
    match job.lockedAt with
    | none => false
    | some time =>
      time ≤ staleLeaseBefore options.timestamp (max 1 options.leaseMs)
  | .completed | .failed => false

/-- Ascending by the next attempt, missing times first, and then by creation. -/
def selectsBefore (left right : JobRow) : Prop :=
  match left.2.nextAttemptAt, right.2.nextAttemptAt with
  | none, some _ => True
  | some _, none => False
  | none, none => left.2.createdAt ≤ right.2.createdAt
  | some time, some other =>
    time < other ∨ time = other ∧ left.2.createdAt ≤ right.2.createdAt

instance : DecidableRel selectsBefore := by
  intro left right
  unfold selectsBefore
  split <;> infer_instance

def selectDue (options : PassOptions) (jobs : OrderedMap Text PreinstallJob) :
    List JobRow :=
  ((jobs.entries.filter fun row => due options row.2 &&
      (match options.spaceId with
        | none => true
        | some spaceId => row.2.spaceId = spaceId)).insertionSort
    selectsBefore).take (max 1 options.limit)

inductive JobErrorKind where
  | config
  | conflict
  | other
  deriving DecidableEq

structure JobError where
  kind : JobErrorKind
  message : Text

/-- What the work on a claimed job comes to; `refreshed` is the catalog to be
stored when the job had none. -/
inductive JobOutcome where
  | paused
  | completed (refreshed : Option Text)
  | failed (error : JobError)

/-- What becomes of a write: it succeeds, fails without effect, or takes effect
although an error is reported. -/
inductive WriteReport where
  | done
  | refused
  | lost

/-- The course of the work on one job: its outcome, what becomes of writing it,
and of writing the failure that a failed write leads to. -/
structure JobWork where
  outcome : JobOutcome
  report : WriteReport
  failureReport : WriteReport

def JobError.blocked (error : JobError) : Bool := error.kind = .config

def JobError.terminal (error : JobError) (attempts maxAttempts : Nat) : Bool :=
  error.kind = .conflict || (!error.blocked && maxAttempts ≤ attempts)

def pausedMessage : Text :=
  "featured app preinstall is disabled by operator".toList

/-- The columns that the outcome of an attempt sets. -/
def writeOutcome (options : PassOptions) (row : JobRow) (outcome : JobOutcome)
    (job : PreinstallJob) : PreinstallJob :=
  let attempts := row.2.attempts + 1
  match outcome with
  | .paused =>
    { job with
      status := .pausedByOperator
      nextAttemptAt := some (nextRetryAt options.timestamp attempts)
      lockedAt := none
      lastError := some pausedMessage }
  | .completed refreshed =>
    { job with
      status := .completed
      nextAttemptAt := none
      lockedAt := none
      lastError := none
      catalogJson :=
        match refreshed with
        | some catalog => some catalog
        | none => row.2.catalogJson }
  | .failed error =>
    let terminal := error.terminal attempts (max 1 options.maxAttempts)
    { job with
      status :=
        if error.blocked = true then .blockedByConfig
        else if terminal = true then .failed
        else .queued
      nextAttemptAt :=
        if terminal = true then none
        else some (nextRetryAt options.timestamp attempts)
      lockedAt := none
      lastError := some error.message
      catalogJson := if error.blocked = true then none else job.catalogJson }

/-- Claiming: the row gets the time of the pass as its lease. -/
def claimColumns (options : PassOptions) (row : JobRow) (job : PreinstallJob) :
    PreinstallJob :=
  { job with
    status := .inProgress
    attempts := row.2.attempts + 1
    lockedAt := some options.timestamp }

structure JobSummary where
  scanned : Nat := 0
  processed : Nat := 0
  completed : Nat := 0
  blocked : Nat := 0
  paused : Nat := 0
  requeued : Nat := 0
  failed : Nat := 0

def JobSummary.count (summary : JobSummary) (options : PassOptions)
    (row : JobRow) : JobOutcome → JobSummary
  | .paused => { summary with paused := summary.paused + 1 }
  | .completed _ => { summary with completed := summary.completed + 1 }
  | .failed error =>
    if error.blocked = true then { summary with blocked := summary.blocked + 1 }
    else if error.terminal (row.2.attempts + 1)
        (max 1 options.maxAttempts) = true then
      { summary with failed := summary.failed + 1 }
    else { summary with requeued := summary.requeued + 1 }

/-- The rows that a pass has still to try and how the work on each job goes. -/
structure Pass where
  options : PassOptions
  rows : List JobRow
  work : Text → JobWork
  summary : JobSummary

/-- The pass after its rows were selected. -/
def openPass (options : PassOptions) (work : Text → JobWork)
    (jobs : OrderedMap Text PreinstallJob) : Pass :=
  let rows := selectDue options jobs
  { options := options
    rows := rows.filter fun row => due options row.2
    work := work
    summary := { scanned := rows.length } }

def Pass.claimed (pass : Pass) : Pass :=
  { pass with
    summary := { pass.summary with processed := pass.summary.processed + 1 } }

/-- The statement that comes next.  A pass that writes an outcome carries the
number of the lease that it was granted. -/
inductive PreinstallCall where
  | select (options : PassOptions) (work : Text → JobWork)
  | claim (pass : Pass) (row : JobRow)
  | write (pass : Pass) (row : JobRow) (lease : Nat) (outcome : JobOutcome)
      (report : WriteReport)
  | enqueue (id : Text) (job : PreinstallJob)
  | requeueBlocked (timestamp : Nat)

inductive PreinstallResult where
  | summary (counts : JobSummary)
  | thrown
  | enqueued
  | requeued

def nextRow (pass : Pass) : Outcome PreinstallCall PreinstallResult :=
  match pass.rows with
  | [] => .done (.summary pass.summary)
  | row :: rows => .next (.claim { pass with rows := rows } row)

/-- The `catch` block: the error of a failed write is written, an error of that
leaves the pass. -/
def afterFailedWrite (pass : Pass) (row : JobRow) (lease : Nat) :
    JobOutcome → Outcome PreinstallCall PreinstallResult
  | .failed _ => .done .thrown
  | _ => .next (.write pass row lease (.failed ⟨.other, "database".toList⟩)
      (pass.work row.1).failureReport)

/-- `UPDATE … WHERE id = …`. -/
def updateJob (jobs : OrderedMap Text PreinstallJob) (id : Text)
    (columns : PreinstallJob → PreinstallJob) :
    OrderedMap Text PreinstallJob :=
  match jobs.get? id with
  | none => jobs
  | some job => jobs.set id (columns job)

/-- The columns of a blocked job after the catalog was changed. -/
def requeueColumns (timestamp : Nat) (job : PreinstallJob) : PreinstallJob :=
  if job.status = .blockedByConfig then
    { job with
      status := .queued, nextAttemptAt := some timestamp, lockedAt := none
      lastError := none, catalogJson := none }
  else job

/-- The row that `enqueueFeaturedAppPreinstallJob` inserts: queued, or blocked
where the configuration is invalid. -/
def EnqueuedJob (job : PreinstallJob) : Prop :=
  (job.status = .queued ∨ job.status = .blockedByConfig) ∧
    job.attempts = 0 ∧ job.lockedAt = none ∧ job.catalogJson = none

/-- Whether the conditional update of a claim finds its row. -/
def claimMatches (row : JobRow) (job : PreinstallJob) : Prop :=
  job.status = row.2.status ∧ job.lockedAt = row.2.lockedAt

instance (row : JobRow) (job : PreinstallJob) :
    Decidable (claimMatches row job) := by
  unfold claimMatches
  infer_instance

def grantLease (state : PreinstallState) (options : PassOptions) (row : JobRow)
    (job : PreinstallJob) : PreinstallState where
  jobs := state.jobs.set row.1 (claimColumns options row job)
  leases := fun id =>
    if id = row.1 then state.leases id + 1 else state.leases id

def statement (call : PreinstallCall) (state : PreinstallState) :
    PreinstallState × Outcome PreinstallCall PreinstallResult :=
  match call with
  | .select options work =>
    (state, nextRow (openPass options work state.jobs))
  | .claim pass row =>
    match state.jobs.get? row.1 with
    | none => (state, nextRow pass)
    | some job =>
      if claimMatches row job then
        (grantLease state pass.options row job,
          .next (.write pass.claimed row (state.leases row.1 + 1)
            (pass.work row.1).outcome (pass.work row.1).report))
      else (state, nextRow pass)
  | .write pass row lease outcome report =>
    let written := { state with
      jobs := updateJob state.jobs row.1 (writeOutcome pass.options row outcome) }
    match report with
    | .done =>
      (written, nextRow
        { pass with summary := pass.summary.count pass.options row outcome })
    | .refused => (state, afterFailedWrite pass row lease outcome)
    | .lost => (written, afterFailedWrite pass row lease outcome)
  | .enqueue id job =>
    match state.jobs.get? id with
    | some _ => (state, .done .enqueued)
    | none => ({ state with jobs := state.jobs.set id job }, .done .enqueued)
  | .requeueBlocked timestamp =>
    ({ state with
        jobs := state.jobs.filterMap fun job =>
          some (requeueColumns timestamp job) }, .done .requeued)

inductive Starts : PreinstallCall → Prop where
  | process (options : PassOptions) (work : Text → JobWork) :
      Starts (.select options work)
  | enqueue (id : Text) {job : PreinstallJob} :
      EnqueuedJob job → Starts (.enqueue id job)
  | requeueBlocked (timestamp : Nat) : Starts (.requeueBlocked timestamp)

def preinstall : Program PreinstallState PreinstallCall PreinstallResult where
  starts := Starts
  statement := statement

abbrev PreinstallConfig :=
  Program.Config PreinstallState PreinstallCall PreinstallResult

def initial : PreinstallConfig where
  shared := { jobs := .empty, leases := fun _ => 0 }
  calls := []
  results := []

end Takos.Source
