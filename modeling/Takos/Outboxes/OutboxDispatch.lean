import Mathlib.Logic.Function.Basic

/-!
# Dispatching the outboxes

The index jobs, the notifications of terminal runs and the push events wait in
three tables.  A dispatcher selects rows, claims each by a conditional update,
hands it off, and then finishes or gives back exactly its claim.  The three
dispatchers are one machine with different statuses.
-/

namespace Takos.Outboxes

variable {Status Answer Outside : Type}

/-- `claimedAt` is the column `started_at` of an index job. -/
structure OutboxRow (Status : Type) where
  status : Status
  claimToken : Option Nat
  claimedAt : Option Nat

/-- What became of a hand-off that returned. -/
inductive Handoff where
  | accepted
  | unnecessary
  | failed
  deriving DecidableEq

/-- A dispatcher: its statuses, how it reads the answer of a hand-off, and the
writes of others to its table. -/
structure OutboxPlan (Status Answer Outside : Type) where
  queued : Status
  claimed : Status
  /-- Statuses whose old claims may be taken over. -/
  recoverable : Status → Bool
  handoff : Answer → Handoff
  /-- What the holder of a claim writes after the hand-off, if anything. -/
  finalized : Option (OutboxRow Status → OutboxRow Status)
  /-- An error of that write is treated like a failed hand-off. -/
  revertsAfterError : Bool
  /-- What becomes of a selected row that lacks the data to be sent. -/
  unsendable : Option (OutboxRow Status → OutboxRow Status)
  outside : Outside → Option (OutboxRow Status) → Option (OutboxRow Status)

inductive IndexJobStatus where
  | queued
  | enqueued
  | running
  | completed
  | failed
  deriving DecidableEq

/-- `dispatchTerminalIndexOutbox`; `true` is a `send` that resolved. -/
def terminalIndexOutbox : OutboxPlan IndexJobStatus Bool Empty where
  queued := .queued
  claimed := .enqueued
  recoverable status := status = .enqueued
  handoff sent := if sent then .accepted else .failed
  finalized := none
  revertsAfterError := false
  unsendable := none
  outside write := nomatch write

inductive RunNotificationStatus where
  | queued
  | dispatching
  | done
  deriving DecidableEq

inductive NotificationPushHandoff where
  | notRequested
  | queued
  | delivered
  | failed
  | deferred
  deriving DecidableEq

/-- `notificationCreated` tells that `notification_id` is not null. -/
structure CreateNotificationResult where
  notificationCreated : Bool
  pushHandoff : NotificationPushHandoff

/-- The answer of `createRunTerminalNotification`, or an error. -/
def notificationHandoff : Option CreateNotificationResult → Handoff
  | none => .failed
  | some result =>
    if result.pushHandoff = .failed ∨ result.pushHandoff = .deferred then
      .failed
    else if result.notificationCreated then .accepted
    else .unnecessary

/-- `dispatchRunNotificationOutbox`. -/
def runNotificationOutbox : OutboxPlan RunNotificationStatus
    (Option CreateNotificationResult) Empty where
  queued := .queued
  claimed := .dispatching
  recoverable status := status = .dispatching
  handoff := notificationHandoff
  finalized := some fun _ => ⟨.done, none, none⟩
  revertsAfterError := true
  unsendable := none
  outside write := nomatch write

inductive NotificationPushOutboxStatus where
  | queued
  | dispatching
  | enqueued
  | done
  deriving DecidableEq

/-- The statements of the push queue's consumers and of a direct delivery. -/
inductive PushWrite where
  | insertEnqueued (enqueuedAt : Nat)
  | recordEnqueued (enqueuedAt : Nat)
  | markDone
  | reopenFromDlq

def markNotificationPushOutboxDone
    (_row : OutboxRow NotificationPushOutboxStatus) :
    OutboxRow NotificationPushOutboxStatus := ⟨.done, none, none⟩

def PushWrite.apply (write : PushWrite)
    (row : Option (OutboxRow NotificationPushOutboxStatus)) :
    Option (OutboxRow NotificationPushOutboxStatus) :=
  match write, row with
  | .insertEnqueued enqueuedAt, none => some ⟨.enqueued, none, some enqueuedAt⟩
  | .insertEnqueued _, some row => some row
  | .recordEnqueued enqueuedAt, some row =>
    if row.status ≠ .done then some ⟨.enqueued, none, some enqueuedAt⟩
    else some row
  | .markDone, some row => some (markNotificationPushOutboxDone row)
  | .reopenFromDlq, some row =>
    if row.status ≠ .done then some ⟨.queued, none, none⟩ else some row
  | _, none => none

/-- `dispatchNotificationPushOutbox`. -/
def notificationPushOutbox :
    OutboxPlan NotificationPushOutboxStatus Bool PushWrite where
  queued := .queued
  claimed := .dispatching
  recoverable status := status = .dispatching || status = .enqueued
  handoff sent := if sent then .accepted else .failed
  finalized := some fun row => ⟨.enqueued, none, row.claimedAt⟩
  revertsAfterError := false
  unsendable := some markNotificationPushOutboxDone
  outside := PushWrite.apply

/-- `claimedAt` is null or before the limit. -/
def isStale (row : OutboxRow Status) (staleBefore : Nat) : Bool :=
  row.claimedAt.all fun claimedAt => claimedAt < staleBefore

structure Claim where
  row : Nat
  token : Nat
  claimedAt : Nat

inductive Attempt (Status : Type) where
  | selected (row : Nat) (status : Status) (staleBefore : Option Nat)
      (sendable : Bool)
  | claimed (claim : Claim)
  | accepted (claim : Claim)
  | failed (claim : Claim)
  | closed

def Attempt.claim? : Attempt Status → Option Claim
  | .claimed claim => some claim
  | .accepted claim => some claim
  | .failed claim => some claim
  | .selected _ _ _ _ => none
  | .closed => none

/-- The table, the dispatchers at work, and a record of the hand-offs. -/
structure OutboxState (Status : Type) where
  rows : Nat → Option (OutboxRow Status)
  attempts : Nat → Option (Attempt Status)
  nextToken : Nat
  handed : List (Claim × Handoff)

/-- A call that is lost before or after its effect is a crash before or after
its step; an error of the last write is seen by the dispatcher. -/
inductive OutboxEvent (Answer Outside : Type) where
  | insert (row : Nat)
  | select (attempt row : Nat) (staleBefore : Option Nat) (sendable : Bool)
  | claim (attempt now : Nat)
  | handoff (attempt : Nat) (answer : Answer)
  | finalize (attempt : Nat)
  | finalizeFails (attempt : Nat) (applied : Bool)
  | revert (attempt : Nat)
  | crash (attempt : Nat)
  | outside (row : Nat) (write : Outside)

def OutboxEvent.attempt : OutboxEvent Answer Outside → Option Nat
  | .select attempt _ _ _ => some attempt
  | .claim attempt _ => some attempt
  | .handoff attempt _ => some attempt
  | .finalize attempt => some attempt
  | .finalizeFails attempt _ => some attempt
  | .revert attempt => some attempt
  | .crash attempt => some attempt
  | .insert _ => none
  | .outside _ _ => none

namespace OutboxPlan

variable [DecidableEq Status] (plan : OutboxPlan Status Answer Outside)

/-- The predicate of the selection. -/
def selects (staleBefore : Option Nat) (row : OutboxRow Status) : Bool :=
  row.status = plan.queued ||
    staleBefore.any fun limit => plan.recoverable row.status && isStale row limit

/-- `expectedStatus`, from the status that was selected. -/
def expects (status : Status) (staleBefore : Option Nat)
    (row : OutboxRow Status) : Bool :=
  if status = plan.queued then row.status = plan.queued
  else staleBefore.any fun limit =>
    plan.recoverable row.status && isStale row limit

/-- The guard of every later write: the row still has exactly this claim. -/
def holds (claim : Claim) (row : OutboxRow Status) : Bool :=
  row.status = plan.claimed && row.claimToken = some claim.token &&
    row.claimedAt = some claim.claimedAt

end OutboxPlan

namespace OutboxState

variable [DecidableEq Status] (plan : OutboxPlan Status Answer Outside)

def empty : OutboxState Status := ⟨fun _ => none, fun _ => none, 0, []⟩

variable (state : OutboxState Status)

def setRow (row : Nat) (value : Option (OutboxRow Status)) :
    OutboxState Status :=
  { state with rows := Function.update state.rows row value }

def setAttempt (attempt : Nat) (value : Attempt Status) : OutboxState Status :=
  { state with attempts := Function.update state.attempts attempt value }

/-- An update of a row with a guard, as one statement. -/
def updateWhere (row : Nat) (guard : OutboxRow Status → Bool)
    (write : OutboxRow Status → OutboxRow Status) : OutboxState Status :=
  match state.rows row with
  | some current =>
    if guard current then state.setRow row (some (write current)) else state
  | none => state

def claimRow (attempt row : Nat) (status : Status) (staleBefore : Option Nat)
    (now : Nat) : OutboxState Status :=
  match state.rows row with
  | some current =>
    if plan.expects status staleBefore current then
      { (state.setRow row
          (some ⟨plan.claimed, some state.nextToken, some now⟩)).setAttempt
            attempt (.claimed ⟨row, state.nextToken, now⟩) with
        nextToken := state.nextToken + 1 }
    else state.setAttempt attempt .closed
  | none => state.setAttempt attempt .closed

def step : OutboxEvent Answer Outside → OutboxState Status
  | .insert row =>
    match state.rows row with
    | some _ => state
    | none => state.setRow row (some ⟨plan.queued, none, none⟩)
  | .select attempt row staleBefore sendable =>
    match state.attempts attempt, state.rows row with
    | none, some current =>
      if plan.selects staleBefore current then
        state.setAttempt attempt
          (.selected row current.status staleBefore sendable)
      else state
    | _, _ => state
  | .claim attempt now =>
    match state.attempts attempt with
    | some (.selected row status staleBefore true) =>
      state.claimRow plan attempt row status staleBefore now
    | some (.selected row _ _ false) =>
      match plan.unsendable with
      | some mark =>
        (state.updateWhere row (fun _ => true) mark).setAttempt attempt .closed
      | none => state.setAttempt attempt .closed
    | _ => state
  | .handoff attempt answer =>
    match state.attempts attempt with
    | some (.claimed claim) =>
      if plan.handoff answer = .failed then
        state.setAttempt attempt (.failed claim)
      else
        { state.setAttempt attempt
            (if plan.finalized.isSome then .accepted claim else .closed) with
          handed := (claim, plan.handoff answer) :: state.handed }
    | _ => state
  | .finalize attempt =>
    match state.attempts attempt, plan.finalized with
    | some (.accepted claim), some write =>
      (state.updateWhere claim.row (plan.holds claim) write).setAttempt attempt
        .closed
    | _, _ => state
  | .finalizeFails attempt applied =>
    match state.attempts attempt, plan.finalized with
    | some (.accepted claim), some write =>
      (if applied then state.updateWhere claim.row (plan.holds claim) write
        else state).setAttempt attempt
          (if plan.revertsAfterError then .failed claim else .closed)
    | _, _ => state
  | .revert attempt =>
    match state.attempts attempt with
    | some (.failed claim) =>
      (state.updateWhere claim.row (plan.holds claim) fun _ =>
        ⟨plan.queued, none, none⟩).setAttempt attempt .closed
    | _ => state
  | .crash attempt =>
    match state.attempts attempt with
    | some _ => state.setAttempt attempt .closed
    | none => state
  | .outside row write =>
    state.setRow row (plan.outside write (state.rows row))

/-- The dispatcher has made this claim and still works on it. -/
def Carries (attempt : Nat) (claim : Claim) : Prop :=
  (state.attempts attempt).bind Attempt.claim? = some claim

def after (events : List (OutboxEvent Answer Outside)) : OutboxState Status :=
  events.foldl (step plan) .empty

end OutboxState

end Takos.Outboxes
