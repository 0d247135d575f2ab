import Takos.Threads.RetrievalIndex
import Takos.Foundation.Text

/-!
# Stored messages

The calls of `persistMessage` and `createMessage` on one thread.  A call
reserves a sequence number, may write the message to the object store, and
inserts its row; every call of the database or of the object store is one step.
The id of a message with an idempotency key is a hash of the key.
-/

namespace Takos.Threads

open Takos.Foundation Takos.Runs

/-- The loop of `stableIdHash`, on 64 bits. -/
def hashUnits (units : List Nat) : Nat :=
  units.foldl (fun hash unit => (hash ^^^ unit) * 0x100000001b3 % 2 ^ 64)
    0xcbf29ce484222325

def base36Digit (digit : Nat) : Char :=
  Char.ofNat (if digit < 10 then 48 + digit else 87 + digit)

/-- A number of 64 bits in base 36. -/
def toBase36 (number : Nat) : Text :=
  let digits := ((List.range 13).reverse.map fun place =>
    number / 36 ^ place % 36).dropWhile (· = 0)
  if digits = [] then ['0'] else digits.map base36Digit

def stableIdHash (value : Text) : Text := toBase36 (hashUnits value.codeUnits)

/-- `fresh` is the random id of a message without a key. -/
def messageId (threadId : Text) (idempotencyKey : Option Text) (fresh : Text) :
    Text :=
  let key := Text.trim (idempotencyKey.getD [])
  if key = [] then fresh
  else "msg_idem_".toList ++ stableIdHash (threadId ++ '\x00' :: key)

structure MessageInput where
  role : MessageRole
  content : Text
  toolCalls : Option Text
  toolCallId : Option Text
  metadata : Text

structure PersistedMessage where
  id : Text
  role : MessageRole
  content : Text
  toolCalls : Option Text
  toolCallId : Option Text
  metadata : Text
  sequence : Nat
  createdAt : Text
  deriving DecidableEq

def PersistedMessage.input (payload : PersistedMessage) : MessageInput :=
  ⟨payload.role, payload.content, payload.toolCalls, payload.toolCallId,
    payload.metadata⟩

structure StoredMessageRow where
  id : Text
  role : MessageRole
  content : Text
  r2Key : Option Text
  toolCalls : Option Text
  toolCallId : Option Text
  metadata : Text
  sequence : Nat
  createdAt : Text
  deriving DecidableEq

def MESSAGE_OFFLOAD_CONTENT_THRESHOLD_CHARS : Nat := 4000

def MESSAGE_PREVIEW_MAX_CHARS : Nat := 800

def messageR2Key (threadId messageId : Text) : Text :=
  "threads/".toList ++ threadId ++ "/messages/".toList ++ messageId ++
    ".json".toList

def shouldOffloadMessage (role : MessageRole) (content : Text) : Bool :=
  role = .tool ||
    MESSAGE_OFFLOAD_CONTENT_THRESHOLD_CHARS < Text.size content

/-- `content.slice(0, size)`, without half a surrogate pair at the end. -/
def sliceUnits (size : Nat) : Text → Text
  | [] => []
  | char :: rest =>
    let width := if char.toNat < 0x10000 then 1 else 2
    if width ≤ size then char :: sliceUnits (size - width) rest else []

def makeMessagePreview (content : Text) : Text :=
  if Text.size content ≤ MESSAGE_PREVIEW_MAX_CHARS then content
  else sliceUnits MESSAGE_PREVIEW_MAX_CHARS content ++ "...".toList

inductive MessageCallKind where
  | persist
  | create
  deriving DecidableEq

inductive MessagePhase where
  /-- The look for a row with the id. -/
  | looking
  | reserving
  | storing (sequence : Nat)
  | inserting (sequence : Nat) (r2Key : Option Text)
  /-- The look after an error of a unique constraint. -/
  | checking (retryable : Bool)
  | returned
  | thrown
  deriving DecidableEq

structure MessageCall where
  kind : MessageCallKind
  id : Text
  message : MessageInput
  createdAt : Text
  attempt : Nat
  phase : MessagePhase

def maxRetries : Nat := 16

def MessageCall.payload (call : MessageCall) (sequence : Nat) :
    PersistedMessage :=
  ⟨call.id, call.message.role, call.message.content, call.message.toolCalls,
    call.message.toolCallId, call.message.metadata, sequence, call.createdAt⟩

/-- An offloaded row keeps a preview; `createMessage` leaves the metadata. -/
def MessageCall.row (call : MessageCall) (sequence : Nat)
    (r2Key : Option Text) : StoredMessageRow :=
  let inline := r2Key.isNone
  { id := call.id
    role := call.message.role
    content := if inline then call.message.content
      else makeMessagePreview call.message.content
    r2Key := r2Key
    toolCalls := if inline then call.message.toolCalls else none
    toolCallId := call.message.toolCallId
    metadata := if inline || call.kind = .create then call.message.metadata
      else "{}".toList
    sequence := sequence
    createdAt := call.createdAt }

/-- Calls stay when they are over. -/
structure MessageStore where
  nextMessageSequence : Nat
  rows : List StoredMessageRow
  objects : Text → Option PersistedMessage
  calls : Nat → Option MessageCall

/-- `unique` and `retryable` tell how the text of an error is classified. -/
inductive MessageEvent where
  | persist (call : Nat) (idempotencyKey : Option Text) (fresh : Text)
      (message : MessageInput) (now : Text)
  | create (call : Nat) (id : Text) (message : MessageInput) (now : Text)
  | look (call : Nat) (answered unique retryable : Bool)
  | reserve (call : Nat) (answer : CallAnswer) (unique retryable : Bool)
  | put (call : Nat) (answer : CallAnswer)
  | insert (call : Nat) (answer : CallAnswer) (unique retryable : Bool)
  | check (call : Nat) (answered : Bool)

namespace MessageStore

def empty : MessageStore := ⟨0, [], fun _ => none, fun _ => none⟩

variable (state : MessageStore)

def setCall (index : Nat) (call : MessageCall) : MessageStore :=
  { state with calls := Function.update state.calls index (some call) }

def setPhase (index : Nat) (call : MessageCall) (phase : MessagePhase) :
    MessageStore :=
  state.setCall index { call with phase }

def start (index : Nat) (call : MessageCall) : MessageStore :=
  match state.calls index with
  | some _ => state
  | none => state.setCall index call

def hasRow (id : Text) : Bool := state.rows.any fun row => row.id = id

/-- The next attempt, or the error. -/
def retry (index : Nat) (call : MessageCall) (retryable : Bool) :
    MessageStore :=
  if retryable && call.attempt + 1 < maxRetries then
    state.setCall index
      { call with
        attempt := call.attempt + 1
        phase := match call.kind with
          | .persist => .looking
          | .create => .reserving }
  else state.setPhase index call .thrown

/-- The `catch` of `persistMessage`, and of the insert in `createMessage`. -/
def caught (index : Nat) (call : MessageCall) (unique retryable : Bool) :
    MessageStore :=
  match call.kind with
  | .persist =>
    if unique then state.setPhase index call (.checking retryable)
    else state.retry index call retryable
  | .create => state.retry index call retryable

def look (index : Nat) (call : MessageCall) (answered unique retryable : Bool) :
    MessageStore :=
  if !answered then state.caught index call unique retryable
  else if state.hasRow call.id then state.setPhase index call .returned
  else state.setPhase index call .reserving

/-- `bucket` tells that `env.TAKOS_OFFLOAD` is there. -/
def reserve (bucket : Bool) (index : Nat) (call : MessageCall)
    (answer : CallAnswer) (unique retryable : Bool) : MessageStore :=
  let sequence := state.nextMessageSequence
  let reserved :=
    if answer = .failed then state
    else { state with nextMessageSequence := sequence + 1 }
  if answer = .done then
    reserved.setPhase index call
      (if bucket && shouldOffloadMessage call.message.role call.message.content
        then .storing sequence else .inserting sequence none)
  else
    match call.kind with
    | .persist => reserved.caught index call unique retryable
    | .create => reserved.setPhase index call .thrown

def put (threadId : Text) (index : Nat) (call : MessageCall) (sequence : Nat)
    (answer : CallAnswer) : MessageStore :=
  let key := messageR2Key threadId call.id
  let written :=
    if answer = .failed then state
    else { state with
      objects := Function.update state.objects key
        (some (call.payload sequence)) }
  written.setPhase index call
    (.inserting sequence (if answer = .done then some key else none))

def insert (index : Nat) (call : MessageCall) (sequence : Nat)
    (r2Key : Option Text) (answer : CallAnswer) (unique retryable : Bool) :
    MessageStore :=
  if state.rows.any fun row => row.id = call.id || row.sequence = sequence then
    state.caught index call true retryable
  else if answer = .failed then state.caught index call unique retryable
  else
    let inserted :=
      { state with rows := state.rows ++ [call.row sequence r2Key] }
    if answer = .done then inserted.setPhase index call .returned
    else inserted.caught index call unique retryable

def check (index : Nat) (call : MessageCall) (retryable answered : Bool) :
    MessageStore :=
  if !answered then state.setPhase index call .thrown
  else if state.hasRow call.id then state.setPhase index call .returned
  else state.retry index call retryable

def step (threadId : Text) (bucket : Bool) : MessageEvent → MessageStore
  | .persist index idempotencyKey fresh message now =>
    state.start index ⟨.persist, messageId threadId idempotencyKey fresh,
      message, now, 0, .looking⟩
  | .create index id message now =>
    state.start index ⟨.create, id, message, now, 0, .reserving⟩
  | .look index answered unique retryable =>
    match state.calls index with
    | some call@⟨_, _, _, _, _, .looking⟩ =>
      state.look index call answered unique retryable
    | _ => state
  | .reserve index answer unique retryable =>
    match state.calls index with
    | some call@⟨_, _, _, _, _, .reserving⟩ =>
      state.reserve bucket index call answer unique retryable
    | _ => state
  | .put index answer =>
    match state.calls index with
    | some call@⟨_, _, _, _, _, .storing sequence⟩ =>
      state.put threadId index call sequence answer
    | _ => state
  | .insert index answer unique retryable =>
    match state.calls index with
    | some call@⟨_, _, _, _, _, .inserting sequence r2Key⟩ =>
      state.insert index call sequence r2Key answer unique retryable
    | _ => state
  | .check index answered =>
    match state.calls index with
    | some call@⟨_, _, _, _, _, .checking retryable⟩ =>
      state.check index call retryable answered
    | _ => state

def after (threadId : Text) (bucket : Bool) (events : List MessageEvent) :
    MessageStore :=
  events.foldl (fun state event => state.step threadId bucket event) .empty

end MessageStore

end Takos.Threads
