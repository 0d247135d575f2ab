import Takos.Foundation.Text
import Takos.Outboxes.OutboxDispatch

/-!
# One index job

A row of the job table, the messages about it that the queue and its dead
letter queue still hold, the consumers at work on deliveries of them, and the
dispatchers of the outbox.  Every database call is one step, together with what
its caller does up to the next call.
-/

namespace Takos.Indexer

open Takos.Foundation Takos.Outboxes

inductive IndexJobQueueType where
  | vectorize
  | infoUnit
  | threadContext
  | repoCodeIndex
  | memoryBuildPaths
  deriving DecidableEq

structure JobIdentity where
  spaceId : Text
  type : IndexJobQueueType
  targetId : Option Text
  deriving DecidableEq

def isTerminalIndexJobType (type : IndexJobQueueType) : Bool :=
  type = .infoUnit || type = .threadContext

/-- The outbox sends rows of its two types that have a target. -/
def JobIdentity.dispatchable (identity : JobIdentity) : Bool :=
  isTerminalIndexJobType identity.type &&
    identity.targetId.any fun target => target ≠ []

/-- `row.claimedAt` is the column `started_at`. -/
structure IndexJob where
  identity : JobIdentity
  row : OutboxRow IndexJobStatus

structure IndexJobQueueMessage where
  identity : JobIdentity
  deliveryId : Option Nat

/-- `deliveryId ?? message.id`. -/
def IndexJobQueueMessage.token (body : IndexJobQueueMessage) (id : Nat) : Nat :=
  body.deliveryId.getD id

/-- A message that was sent.  It is live until someone acknowledges it. -/
structure QueueMessage where
  body : IndexJobQueueMessage
  deadLettered : Bool
  acknowledged : Bool

inductive ConsumerPhase where
  | received
  | ensured
  | seen (existing : OutboxRow IndexJobStatus)
  | handling (claimedAt : Nat)
  | closed

/-- The consumer of one delivery of a message. -/
structure Consumer where
  message : Nat
  body : IndexJobQueueMessage
  phase : ConsumerPhase

def Consumer.token (consumer : Consumer) : Nat :=
  consumer.body.token consumer.message

inductive HandlerOutcome where
  | processed
  | failed
  /-- A retryable outcome or an exception. -/
  | retryable

inductive Dispatch where
  | selected (status : IndexJobStatus) (staleBefore : Option Nat)
  | claimed (token claimedAt : Nat)
  | failed (token claimedAt : Nat)
  | closed

/-- A handler of a dead letter that found no fresh claim of its own; `started`
is its first clock reading. -/
structure DeadLetter where
  message : Nat
  body : IndexJobQueueMessage
  started : Nat

structure IndexerState where
  job : Option IndexJob
  messages : Nat → Option QueueMessage
  consumers : Nat → Option Consumer
  dispatches : Nat → Option Dispatch
  deadLetters : Nat → Option DeadLetter

/-- `answered` tells that the answer of the last write arrived; without it the
message is not acknowledged. -/
inductive IndexerEvent where
  | produce (id : Nat) (body : IndexJobQueueMessage)
  | insertOutbox (identity : JobIdentity)
  | deliver (consumer id : Nat)
  | ensure (consumer : Nat)
  | look (consumer now : Nat)
  | claim (consumer now : Nat)
  | finish (consumer : Nat) (outcome : HandlerOutcome) (answered : Bool)
  | crash (consumer : Nat)
  | select (dispatch : Nat) (staleBefore : Option Nat)
  | dispatch (dispatch token now : Nat)
  | send (dispatch id : Nat) (reached resolved : Bool)
  | revert (dispatch : Nat)
  | deadLetter (id : Nat)
  | lookDead (handler id started now : Nat)
  | failDead (handler : Nat) (answered : Bool)

/-- The latest clock reading of an event. -/
def IndexerEvent.reading : IndexerEvent → Nat
  | .look _ now => now
  | .claim _ now => now
  | .dispatch _ _ now => now
  | .lookDead _ _ started now => max started now
  | _ => 0

def latestReading (events : List IndexerEvent) : Nat :=
  events.foldl (fun latest event => max latest event.reading) 0

def INDEX_JOB_CLAIM_STALE_MS : Nat := 15 * 60 * 1000

/-- `startedAtMs < now - INDEX_JOB_CLAIM_STALE_MS`, also for null. -/
def claimIsStale (startedAt : Option Nat) (now : Nat) : Bool :=
  startedAt.all fun started => started + INDEX_JOB_CLAIM_STALE_MS < now

def isTerminal (status : IndexJobStatus) : Bool :=
  status = .completed || status = .failed

/-- What the consumer does after reading the row. -/
inductive ConsumerChoice where
  | acknowledge
  | retry
  | claim

def consumerChoice (job : IndexJob) (body : IndexJobQueueMessage)
    (token now : Nat) : ConsumerChoice :=
  if job.identity ≠ body.identity then .acknowledge
  else if isTerminal job.row.status then .acknowledge
  else if job.row.status = .running then
    if job.row.claimToken ≠ some token then .acknowledge
    else if claimIsStale job.row.claimedAt now then .claim
    else .retry
  else if job.row.status = .enqueued ∧ job.row.claimToken ≠ none ∧
      job.row.claimToken ≠ some token then .acknowledge
  else .claim

/-- `exactPriorState`. -/
def exactPriorState (existing row : OutboxRow IndexJobStatus) (token : Nat) :
    Bool :=
  if existing.status = .running then
    row.status = .running && row.claimToken = some token &&
      row.claimedAt = existing.claimedAt
  else
    row.status = existing.status &&
      (existing.status ≠ .enqueued || existing.claimToken = none ||
        row.claimToken = some token)

/-- The guard of the consumer's claim. -/
def claimGuard (job : IndexJob) (body : IndexJobQueueMessage)
    (existing : OutboxRow IndexJobStatus) (token : Nat) : Bool :=
  job.identity = body.identity && exactPriorState existing job.row token

/-- The guard of the consumer's later writes. -/
def ownsRunning (row : OutboxRow IndexJobStatus) (token : Nat) : Bool :=
  row.status = .running && row.claimToken = some token

/-- The identity columns that the dead letter handler compares. -/
def sameAccountAndType (left right : JobIdentity) : Bool :=
  left.spaceId = right.spaceId && left.type = right.type

def deadGuard (job : IndexJob) (letter : DeadLetter) : Bool :=
  sameAccountAndType job.identity letter.body.identity &&
    (job.row.status = .queued || job.row.status = .enqueued ||
      ownsRunning job.row (letter.body.token letter.message) &&
        claimIsStale job.row.claimedAt letter.started)

/-- The claim of the dead letter's own delivery is still fresh. -/
def deadIsFresh (job : IndexJob) (body : IndexJobQueueMessage)
    (id now : Nat) : Bool :=
  sameAccountAndType job.identity body.identity &&
    ownsRunning job.row (body.token id) && !claimIsStale job.row.claimedAt now

namespace IndexerState

def empty : IndexerState :=
  ⟨none, fun _ => none, fun _ => none, fun _ => none, fun _ => none⟩

variable (state : IndexerState)

def setRow (job : IndexJob) (row : OutboxRow IndexJobStatus) : IndexerState :=
  { state with job := some { job with row } }

def setMessage (id : Nat) (message : QueueMessage) : IndexerState :=
  { state with messages := Function.update state.messages id (some message) }

def ackMessage (messages : Nat → Option QueueMessage) (id : Nat) :
    Nat → Option QueueMessage :=
  Function.update messages id
    ((messages id).map fun message => { message with acknowledged := true })

def acknowledge (id : Nat) : IndexerState :=
  { state with messages := ackMessage state.messages id }

def setConsumer (index : Nat) (consumer : Consumer) (phase : ConsumerPhase) :
    IndexerState :=
  { state with
    consumers :=
      Function.update state.consumers index (some { consumer with phase }) }

def setDispatch (index : Nat) (value : Dispatch) : IndexerState :=
  { state with
    dispatches := Function.update state.dispatches index (some value) }

def setDeadLetter (index : Nat) (value : Option DeadLetter) : IndexerState :=
  { state with
    deadLetters := Function.update state.deadLetters index value }

/-- The insert with `onConflictDoNothing`. -/
def ensureJob (identity : JobIdentity) (status : IndexJobStatus) :
    IndexerState :=
  match state.job with
  | some _ => state
  | none => { state with job := some ⟨identity, status, none, none⟩ }

def look (index : Nat) (consumer : Consumer) (now : Nat) : IndexerState :=
  match state.job with
  | none => state.setConsumer index consumer .closed
  | some job =>
    match consumerChoice job consumer.body consumer.token now with
    | .acknowledge =>
      (state.acknowledge consumer.message).setConsumer index consumer .closed
    | .retry => state.setConsumer index consumer .closed
    | .claim => state.setConsumer index consumer (.seen job.row)

def claim (index : Nat) (consumer : Consumer)
    (existing : OutboxRow IndexJobStatus) (now : Nat) : IndexerState :=
  match state.job with
  | none => (state.acknowledge consumer.message).setConsumer index consumer .closed
  | some job =>
    if claimGuard job consumer.body existing consumer.token then
      (state.setRow job
        ⟨.running, some consumer.token, some now⟩).setConsumer index consumer
          (.handling now)
    else (state.acknowledge consumer.message).setConsumer index consumer .closed

/-- What the consumer writes at the end, and whether it acknowledges. -/
def finishedRow (row : OutboxRow IndexJobStatus) :
    HandlerOutcome → OutboxRow IndexJobStatus × Bool
  | .processed => (⟨.completed, none, row.claimedAt⟩, true)
  | .failed => (⟨.failed, none, row.claimedAt⟩, true)
  | .retryable => (⟨.enqueued, none, none⟩, false)

def finish (index : Nat) (consumer : Consumer) (outcome : HandlerOutcome)
    (answered : Bool) : IndexerState :=
  match state.job with
  | none => state.setConsumer index consumer .closed
  | some job =>
    if ownsRunning job.row consumer.token then
      let (row, acknowledged) := finishedRow job.row outcome
      let written := state.setRow job row
      (if acknowledged && answered then written.acknowledge consumer.message
        else written).setConsumer index consumer .closed
    else state.setConsumer index consumer .closed

def dispatchJob (index : Nat) (status : IndexJobStatus)
    (staleBefore : Option Nat) (token now : Nat) : IndexerState :=
  match state.job with
  | none => state.setDispatch index .closed
  | some job =>
    if terminalIndexOutbox.expects status staleBefore job.row then
      (state.setRow job ⟨.enqueued, some token, some now⟩).setDispatch index
        (.claimed token now)
    else state.setDispatch index .closed

def revertDispatch (index token claimedAt : Nat) : IndexerState :=
  match state.job with
  | none => state.setDispatch index .closed
  | some job =>
    if terminalIndexOutbox.holds ⟨0, token, claimedAt⟩ job.row then
      (state.setRow job ⟨.queued, none, none⟩).setDispatch index .closed
    else state.setDispatch index .closed

def failDead (index : Nat) (letter : DeadLetter) (answered : Bool) :
    IndexerState :=
  let written :=
    match state.job with
    | none => state
    | some job =>
      if deadGuard job letter then
        state.setRow job ⟨.failed, none, job.row.claimedAt⟩
      else state
  (if answered then written.acknowledge letter.message
    else written).setDeadLetter index none

def step : IndexerEvent → IndexerState
  | .produce id body =>
    match state.messages id with
    | some _ => state
    | none => state.setMessage id ⟨body, false, false⟩
  | .insertOutbox identity =>
    if identity.dispatchable then state.ensureJob identity .queued else state
  | .deliver index id =>
    match state.consumers index, state.messages id with
    | none, some ⟨body, false, false⟩ =>
      state.setConsumer index ⟨id, body, .received⟩ .received
    | _, _ => state
  | .ensure index =>
    match state.consumers index with
    | some consumer@⟨_, _, .received⟩ =>
      (state.ensureJob consumer.body.identity .enqueued).setConsumer index
        consumer .ensured
    | _ => state
  | .look index now =>
    match state.consumers index with
    | some consumer@⟨_, _, .ensured⟩ =>
      state.look index consumer now
    | _ => state
  | .claim index now =>
    match state.consumers index with
    | some consumer@⟨_, _, .seen existing⟩ =>
      state.claim index consumer existing now
    | _ => state
  | .finish index outcome answered =>
    match state.consumers index with
    | some consumer@⟨_, _, .handling _⟩ =>
      state.finish index consumer outcome answered
    | _ => state
  | .crash index =>
    match state.consumers index with
    | some consumer => state.setConsumer index consumer .closed
    | none => state
  | .select index staleBefore =>
    match state.dispatches index, state.job with
    | none, some job =>
      if job.identity.dispatchable &&
          terminalIndexOutbox.selects staleBefore job.row then
        state.setDispatch index (.selected job.row.status staleBefore)
      else state
    | _, _ => state
  | .dispatch index token now =>
    match state.dispatches index with
    | some (.selected status staleBefore) =>
      state.dispatchJob index status staleBefore token now
    | _ => state
  | .send index id reached resolved =>
    match state.dispatches index, state.job, state.messages id with
    | some (.claimed token claimedAt), some job, none =>
      (if reached then
        state.setMessage id ⟨⟨job.identity, some token⟩, false, false⟩
      else state).setDispatch index
        (if resolved then .closed else .failed token claimedAt)
    | _, _, _ => state
  | .revert index =>
    match state.dispatches index with
    | some (.failed token claimedAt) =>
      state.revertDispatch index token claimedAt
    | _ => state
  | .deadLetter id =>
    match state.messages id with
    | some message =>
      state.setMessage id { message with deadLettered := true }
    | none => state
  | .lookDead index id started now =>
    match state.deadLetters index, state.messages id with
    | none, some ⟨body, true, false⟩ =>
      match state.job with
      | some job =>
        if deadIsFresh job body id now then state
        else state.setDeadLetter index (some ⟨id, body, started⟩)
      | none => state.setDeadLetter index (some ⟨id, body, started⟩)
    | _, _ => state
  | .failDead index answered =>
    match state.deadLetters index with
    | some letter => state.failDead index letter answered
    | none => state

def Live (id : Nat) (message : QueueMessage) : Prop :=
  state.messages id = some message ∧ message.acknowledged = false

def after (events : List IndexerEvent) : IndexerState :=
  events.foldl step .empty

end IndexerState

end Takos.Indexer
