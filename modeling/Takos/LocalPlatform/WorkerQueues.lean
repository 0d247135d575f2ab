import Takos.Foundation.Interleaving
import Mathlib.Logic.Function.Basic

/-!
# The worker loop and its queues

A file, a Redis list or an SQS queue holds the records.  An iteration of the
worker loop takes a record off its queue before the handler runs; afterwards it
sends the record again, hands it to the dead-letter handler, or leaves it.
-/

namespace Takos.LocalPlatform

open Takos.Foundation

inductive LocalQueueName where
  | run | index
  deriving DecidableEq

namespace LocalQueueName

/-- `LOCAL_DLQ_QUEUE_NAMES`. -/
def deadLetterName : LocalQueueName → String
  | run => "takos-runs-dlq"
  | index => "takos-index-jobs-dlq"

/-- `LOCAL_QUEUE_RETRY_LIMITS`. -/
def retryLimit : LocalQueueName → Nat
  | run => 3
  | index => 2

end LocalQueueName

variable {Body Options : Type}

structure LocalQueueRecord (Body Options : Type) where
  body : Body
  options : Option Options
  attempts : Option Nat

/-- The attempts that a record counts for. -/
def LocalQueueRecord.tries (record : LocalQueueRecord Body Options) : Nat :=
  max 1 (record.attempts.getD 1)

/-- A message of the service: its body, unless that is no JSON text, and how
often it was received. -/
structure SqsMessage (Body : Type) where
  body : Option Body
  receiveCount : Nat

inductive Queue (Body Options : Type) where
  | file (messages : List (LocalQueueRecord Body Options))
  | redis (records : List (LocalQueueRecord Body Options))
  | sqs (messages : List (SqsMessage Body))

namespace Queue

/-- An SQS message carries the body alone. -/
def push (record : LocalQueueRecord Body Options) :
    Queue Body Options → Queue Body Options
  | file messages => file (messages ++ [record])
  | redis records => redis (records ++ [record])
  | sqs messages => sqs (messages ++ [⟨some record.body, 0⟩])

def send (message : Body) (options : Option Options)
    (queue : Queue Body Options) : Queue Body Options :=
  queue.push ⟨message, options, none⟩

def sendBatch (records : List (LocalQueueRecord Body Options))
    (queue : Queue Body Options) : Queue Body Options :=
  records.foldl (fun held record => held.push record) queue

/-- Files and lists give their first record; SQS gives any message, or none,
and a message without a JSON body is dropped. -/
def receive (pick : Nat) :
    Queue Body Options →
      Queue Body Options × Option (LocalQueueRecord Body Options)
  | file [] => (file [], none)
  | file (record :: rest) => (file rest, some record)
  | redis [] => (redis [], none)
  | redis (record :: rest) => (redis rest, some record)
  | sqs messages =>
    match messages[pick]? with
    | none => (sqs messages, none)
    | some message =>
      (sqs (messages.eraseIdx pick), message.body.map fun body =>
        ⟨body, none, some (message.receiveCount + 1)⟩)

/-- SQS gives a message out whose deletion then fails. -/
def expose (pick : Nat) : Queue Body Options → Queue Body Options
  | sqs messages => sqs (messages.modify pick fun message =>
      { message with receiveCount := message.receiveCount + 1 })
  | queue => queue

/-- A message that no sender of the program wrote. -/
def poison : Queue Body Options → Queue Body Options
  | sqs messages => sqs (messages ++ [⟨none, 0⟩])
  | queue => queue

def isSqs : Queue Body Options → Bool
  | sqs _ => true
  | _ => false

/-- The record as it is received next, in its turn. -/
def kept (record : LocalQueueRecord Body Options)
    (queue : Queue Body Options) : LocalQueueRecord Body Options :=
  if queue.isSqs then ⟨record.body, none, some 1⟩ else record

def records : Queue Body Options → List (LocalQueueRecord Body Options)
  | file messages => messages
  | redis records => records
  | sqs messages => messages.filterMap fun message =>
      message.body.map fun body =>
        ⟨body, none, some (message.receiveCount + 1)⟩

end Queue

abbrev WorkerQueues (Body Options : Type) :=
  LocalQueueName → Queue Body Options

/-- What the handler does: it may acknowledge, ask for a retry and throw; the
dead-letter handler may throw. -/
structure HandlerOutcome where
  acked : Bool
  retried : Bool
  threw : Bool
  deadLetterThrew : Bool

inductive Effect (Body Options : Type) where
  | acknowledged
  | requeued (record : LocalQueueRecord Body Options)
  | deadLettered (queueName : String) (record : LocalQueueRecord Body Options)

/-- Calls by what they do next; the last three are a send by the program and
what else may happen to a queue of the service. -/
inductive WorkerCall (Body Options : Type) where
  | iterate (queues : List LocalQueueName) (pick : Nat)
      (outcome : HandlerOutcome)
  | handle (queue : LocalQueueName) (record : LocalQueueRecord Body Options)
      (outcome : HandlerOutcome)
  | deadLetter (queue : LocalQueueName)
      (record next : LocalQueueRecord Body Options) (outcome : HandlerOutcome)
  | requeue (queue : LocalQueueName)
      (record next : LocalQueueRecord Body Options) (outcome : HandlerOutcome)
  | send (queue : LocalQueueName) (message : Body) (options : Option Options)
  | expose (queue : LocalQueueName) (pick : Nat)
  | poison (queue : LocalQueueName)

/-- `idle` is the answer `false`; an iteration that dispatched a record answers
`true` or throws. -/
inductive WorkerResult (Body Options : Type) where
  | idle
  | dispatched (queue : LocalQueueName)
      (record : LocalQueueRecord Body Options)
      (effects : List (Effect Body Options)) (threw : Bool)
  | sent (queue : LocalQueueName) (message : Body)
  | noted

abbrev WorkerOutcome (Body Options : Type) :=
  Outcome (WorkerCall Body Options) (WorkerResult Body Options)

/-- `ack()` during the handler. -/
def HandlerOutcome.effects (outcome : HandlerOutcome) :
    List (Effect Body Options) :=
  if outcome.acked then [.acknowledged] else []

def nextAttempts (record : LocalQueueRecord Body Options) : Nat :=
  record.tries + 1

/-- `dispatchRecord`, up to the dead-letter handler or the send. -/
def dispatchRecord (queue : LocalQueueName)
    (record : LocalQueueRecord Body Options) (outcome : HandlerOutcome) :
    WorkerOutcome Body Options :=
  if outcome.threw then
    .done (.dispatched queue record outcome.effects true)
  else if !outcome.retried then
    .done (.dispatched queue record outcome.effects false)
  else
    let next := { record with attempts := some (nextAttempts record) }
    if queue.retryLimit < nextAttempts record then
      .next (.deadLetter queue record next outcome)
    else .next (.requeue queue record next outcome)

def statement (call : WorkerCall Body Options)
    (queues : WorkerQueues Body Options) :
    WorkerQueues Body Options × WorkerOutcome Body Options :=
  match call with
  | .iterate [] _ _ => (queues, .done .idle)
  | .iterate (queue :: rest) pick outcome =>
    let (left, received) := (queues queue).receive pick
    (Function.update queues queue left,
      match received with
      | some record => .next (.handle queue record outcome)
      | none => .next (.iterate rest pick outcome))
  | .handle queue record outcome =>
    (queues, dispatchRecord queue record outcome)
  | .deadLetter queue record next outcome =>
    (queues, .done (.dispatched queue record
      (outcome.effects ++ [.deadLettered queue.deadLetterName next])
      outcome.deadLetterThrew))
  | .requeue queue record next outcome =>
    (Function.update queues queue ((queues queue).sendBatch [next]),
      .done (.dispatched queue record
        (outcome.effects ++ [.requeued ((queues queue).kept next)]) false))
  | .send queue message options =>
    (Function.update queues queue ((queues queue).send message options),
      .done (.sent queue message))
  | .expose queue pick =>
    (Function.update queues queue ((queues queue).expose pick), .done .noted)
  | .poison queue =>
    (Function.update queues queue (queues queue).poison, .done .noted)

def Starts : WorkerCall Body Options → Prop
  | .iterate _ _ _ => True
  | .send _ _ _ => True
  | .expose _ _ => True
  | .poison _ => True
  | _ => False

def workerLoop : Program (WorkerQueues Body Options) (WorkerCall Body Options)
    (WorkerResult Body Options) where
  starts := Starts
  statement := statement

/-- No process stops on its way. -/
def Uninterrupted (_ : WorkerQueues Body Options)
    (event : Program.Event (WorkerCall Body Options))
    (_ : List (WorkerCall Body Options)) : Prop :=
  ∀ call, event ≠ .fail call

/-- The handler settles the record in one way that its queue can keep: it
acknowledges, or it asks for a retry and the record goes to the dead-letter
handler or back into a queue that stores its attempts. -/
def Settles (queue : LocalQueueName) (held : Queue Body Options)
    (record : LocalQueueRecord Body Options) (outcome : HandlerOutcome) :
    Prop :=
  if outcome.acked then outcome.threw = true ∨ outcome.retried = false
  else outcome.threw = false ∧ outcome.retried = true ∧
    (held.isSqs = true → queue.retryLimit < nextAttempts record)

def Settling (queues : WorkerQueues Body Options)
    (event : Program.Event (WorkerCall Body Options))
    (others : List (WorkerCall Body Options)) : Prop :=
  Uninterrupted queues event others ∧
    match event with
    | .run (.handle queue record outcome) =>
      Settles queue (queues queue) record outcome
    | _ => True

end Takos.LocalPlatform
