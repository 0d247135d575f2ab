import Mathlib.Logic.Function.Basic

/-!
# The transaction gate of the Postgres adapters

One adapter with its pool, and its callers.  A caller does one thing at a time:
it runs a statement through the adapter, or a `withTransaction` block whose
callback does.  Every answer of the pool or of the server is one step, together
with what the adapter does up to its next call.
-/

namespace Takos.LocalPlatform

/-- `classifyTransactionSql` of a statement that is exactly transaction
control; every other statement is plain. -/
inductive StatementKind where
  | begin
  | commit
  | rollback
  | plain
  deriving DecidableEq

/-- The answer of the server.  A statement that fails aborts the transaction;
a failure may also end it, as a failed commit or a lost connection do. -/
inductive Answer where
  | done
  | failed
  | ended
  deriving DecidableEq

structure Transaction where
  opener : Nat
  aborted : Bool

structure PoolClient where
  transaction : Option Transaction
  pooled : Bool

def transactionAfter (issuer : Nat) (kind : StatementKind) (answer : Answer)
    (transaction : Option Transaction) : Option Transaction :=
  match answer, kind with
  | .ended, _ => none
  | .failed, _ => transaction.map fun before => { before with aborted := true }
  | .done, .begin => some (transaction.getD ⟨issuer, false⟩)
  | .done, .commit => none
  | .done, .rollback => none
  | .done, .plain => transaction

/-- What a caller waits for at the gate. -/
inductive Request where
  | statement (kind : StatementKind)
  | transaction

/-- It will bind the client that it gets. -/
def Request.binds : Request → Bool
  | .statement .begin => true
  | .statement _ => false
  | .transaction => true

/-- A call of `runQuery`, or the start of a `withTransaction` block.  `left`
counts the session statements still to run on a client before the own one. -/
inductive Call where
  | idle
  | waiting (request : Request) (ticket : Nat)
  | connecting (request : Request) (ticket : Nat)
  | sent (kind : StatementKind) (ticket client left : Nat)
  | routed (kind : StatementKind) (client : Nat)
  /-- The `ROLLBACK` after a failed commit. -/
  | rescuing (client : Nat)

inductive BlockPhase where
  | opening (left : Nat)
  | body
  | querying (kind : StatementKind)
  | committing
  | unwinding

/-- A `withTransaction` block past the gate. -/
structure Block where
  ticket : Nat
  client : Nat
  phase : BlockPhase

structure Caller where
  call : Call
  block : Option Block

def Caller.atRest : Caller := ⟨.idle, none⟩

/-- One statement of an issuer that ran on a client, with the opener of the
transaction that was on it. -/
structure Execution where
  issuer : Nat
  opener : Option Nat
  deriving DecidableEq

/-- `gate` holds the tickets that are not released, the ready one first, and
`rejected` the callers whose statement or block was rejected. -/
structure AdapterState where
  gate : List Nat
  nextTicket : Nat
  activeTransactionClient : Option Nat
  releaseGate : Option Nat
  inExplicitTx : Bool
  clients : Nat → PoolClient
  callers : Nat → Caller
  executed : List Execution
  rejected : List Nat

inductive AdapterEvent where
  | query (caller : Nat) (kind : StatementKind)
  | withTransaction (caller : Nat)
  /-- The gate lets the caller pass. -/
  | acquired (caller : Nat)
  /-- The pool gives a client, or none. -/
  | connected (caller : Nat) (client : Option Nat)
  | answered (caller : Nat) (answer : Answer)
  | txQuery (caller : Nat) (kind : StatementKind)
  /-- The callback returns or throws. -/
  | leave (caller : Nat) (returned : Bool)

namespace AdapterState

def initial : AdapterState :=
  ⟨[], 0, none, none, false, fun _ => ⟨none, true⟩, fun _ => .atRest, [], []⟩

variable (state : AdapterState)

def setCaller (index : Nat) (caller : Caller) : AdapterState :=
  { state with callers := Function.update state.callers index caller }

def setCall (index : Nat) (call : Call) : AdapterState :=
  state.setCaller index { state.callers index with call }

def setPhase (index : Nat) (block : Block) (phase : BlockPhase) :
    AdapterState :=
  state.setCaller index ⟨.idle, some { block with phase }⟩

/-- The call throws; inside a block the callback sees it. -/
def reject (index : Nat) : AdapterState :=
  { state.setCall index .idle with
    rejected := if (state.callers index).block.isNone then
      state.rejected ++ [index] else state.rejected }

def acquire (index : Nat) (request : Request) : AdapterState :=
  { state.setCall index (.waiting request state.nextTicket) with
    gate := state.gate ++ [state.nextTicket]
    nextTicket := state.nextTicket + 1 }

def releaseTicket (ticket : Nat) : AdapterState :=
  { state with gate := state.gate.filter (· ≠ ticket) }

def setPooled (client : Nat) (pooled : Bool) : AdapterState :=
  { state with
    clients := Function.update state.clients client
      { state.clients client with pooled } }

def execute (issuer client : Nat) (kind : StatementKind) (answer : Answer) :
    AdapterState :=
  let transaction := (state.clients client).transaction
  { state with
    clients := Function.update state.clients client
      { state.clients client with
        transaction := transactionAfter issuer kind answer transaction }
    executed := state.executed ++ [⟨issuer, transaction.map (·.opener)⟩] }

/-- Releasing a client twice throws. -/
def releasable : Bool :=
  state.activeTransactionClient.all fun client =>
    !(state.clients client).pooled

/-- A release that throws leaves the gate closed. -/
def finishTransaction : AdapterState :=
  let unbound :=
    { state with activeTransactionClient := none, releaseGate := none }
  let released :=
    match state.releaseGate with
    | some ticket => unbound.releaseTicket ticket
    | none => unbound
  match state.activeTransactionClient with
  | some client =>
    if (state.clients client).pooled then unbound
    else released.setPooled client true
  | none => released

/-- The `finally` of a block. -/
def finishBlock (index : Nat) (block : Block) (committed : Bool) :
    AdapterState :=
  let unbound :=
    { state with
      inExplicitTx := false, activeTransactionClient := none,
      releaseGate := none }
  if (state.clients block.client).pooled then
    (unbound.setCaller index .atRest).reject index
  else
    let released :=
      ((unbound.setPooled block.client true).releaseTicket
        block.ticket).setCaller index .atRest
    if committed then released else released.reject index

def runQuery (index : Nat) (kind : StatementKind) : AdapterState :=
  if state.inExplicitTx ∧ kind ≠ .plain then state.reject index
  else if kind = .begin then state.acquire index (.statement .begin)
  else
    match state.activeTransactionClient with
    | some client => state.setCall index (.routed kind client)
    | none => state.acquire index (.statement kind)

def pass (index : Nat) (request : Request) (ticket : Nat) : AdapterState :=
  if request.binds ∧ state.activeTransactionClient.isSome then
    (state.releaseTicket ticket).reject index
  else state.setCall index (.connecting request ticket)

def bind (ticket client : Nat) : AdapterState :=
  { state with
    activeTransactionClient := some client, releaseGate := some ticket }

/-- `session` counts the statements of `applyScopedSession`. -/
def connect (session : Nat) (index : Nat) (request : Request)
    (ticket client : Nat) : AdapterState :=
  let taken := state.setPooled client false
  match request with
  | .statement .begin =>
    (taken.bind ticket client).setCall index
      (.sent .begin ticket client session)
  | .statement kind => taken.setCall index (.sent kind ticket client session)
  | .transaction =>
    ({ taken.bind ticket client with inExplicitTx := true }).setCaller index
      ⟨.idle, some ⟨ticket, client, .opening session⟩⟩

def settle (kind : StatementKind) (ticket client : Nat) : AdapterState :=
  if kind = .begin then state.finishTransaction
  else (state.setPooled client true).releaseTicket ticket

def answerSent (index : Nat) (kind : StatementKind)
    (ticket client left : Nat) (answer : Answer) : AdapterState :=
  match left with
  | left + 1 =>
    let ran := state.execute index client .plain answer
    if answer = .done then ran.setCall index (.sent kind ticket client left)
    else (ran.settle kind ticket client).reject index
  | 0 =>
    let ran := state.execute index client kind answer
    if answer = .done then
      if kind = .begin then ran.setCall index .idle
      else (ran.settle kind ticket client).setCall index .idle
    else (ran.settle kind ticket client).reject index

def answerRouted (index : Nat) (kind : StatementKind) (client : Nat)
    (answer : Answer) : AdapterState :=
  let ran := state.execute index client kind answer
  let ends := kind = .commit ∨ kind = .rollback
  if answer = .done ∧ ¬ends then ran.setCall index .idle
  else if answer = .done ∧ ran.releasable then
    ran.finishTransaction.setCall index .idle
  else
    let caught := if answer = .done then ran.finishTransaction else ran
    if kind = .commit then caught.setCall index (.rescuing client)
    else caught.finishTransaction.reject index

def answerBlock (index : Nat) (block : Block) (answer : Answer) :
    AdapterState :=
  match block.phase with
  | .opening (left + 1) =>
    (state.execute index block.client .plain answer).setPhase index block
      (if answer = .done then .opening left else .unwinding)
  | .opening 0 =>
    (state.execute index block.client .begin answer).setPhase index block
      (if answer = .done then .body else .unwinding)
  | .body => state
  | .querying kind =>
    (state.execute index block.client kind answer).setPhase index block .body
  | .committing =>
    let ran := state.execute index block.client .commit answer
    if answer = .done then ran.finishBlock index block true
    else ran.setPhase index block .unwinding
  | .unwinding =>
    (state.execute index block.client .rollback answer).finishBlock index
      block false

/-- `session` is zero for `createPostgresSqlDatabase` and two for its
schema-scoped variant. -/
def step (session : Nat) : AdapterEvent → AdapterState
  | .query index kind =>
    match state.callers index with
    | ⟨.idle, none⟩ => state.runQuery index kind
    | ⟨.idle, some ⟨_, _, .body⟩⟩ => state.runQuery index kind
    | _ => state
  | .withTransaction index =>
    match state.callers index with
    | ⟨.idle, none⟩ => state.acquire index .transaction
    | _ => state
  | .acquired index =>
    match (state.callers index).call with
    | .waiting request ticket =>
      if state.gate.head? = some ticket then state.pass index request ticket
      else state
    | _ => state
  | .connected index answer =>
    match (state.callers index).call, answer with
    | .connecting request ticket, some client =>
      if (state.clients client).pooled then
        state.connect session index request ticket client
      else state
    | .connecting _ ticket, none =>
      (state.releaseTicket ticket).reject index
    | _, _ => state
  | .answered index answer =>
    match state.callers index with
    | ⟨.sent kind ticket client left, _⟩ =>
      state.answerSent index kind ticket client left answer
    | ⟨.routed kind client, _⟩ => state.answerRouted index kind client answer
    | ⟨.rescuing client, _⟩ =>
      (state.execute index client .rollback answer).finishTransaction.reject
        index
    | ⟨.idle, some block⟩ => state.answerBlock index block answer
    | _ => state
  | .txQuery index kind =>
    match state.callers index with
    | ⟨.idle, some block@⟨_, _, .body⟩⟩ =>
      state.setPhase index block (.querying kind)
    | _ => state
  | .leave index returned =>
    match state.callers index with
    | ⟨.idle, some block@⟨_, _, .body⟩⟩ =>
      state.setPhase index block (if returned then .committing else .unwinding)
    | _ => state

def after (session : Nat) (events : List AdapterEvent) : AdapterState :=
  events.foldl (fun state event => state.step session event) .initial

end AdapterState

/-- No statement runs in the transaction of another caller. -/
def Isolated (state : AdapterState) : Prop :=
  ∀ execution ∈ state.executed, ∀ opener,
    execution.opener = some opener → execution.issuer = opener

/-- Clients in the pool have no transaction, open or aborted. -/
def CleanPool (state : AdapterState) : Prop :=
  ∀ client, (state.clients client).pooled = true →
    (state.clients client).transaction = none

/-- The ticket of a call or block in flight. -/
def Caller.ticket (caller : Caller) : Option Nat :=
  match caller.call with
  | .waiting _ ticket => some ticket
  | .connecting _ ticket => some ticket
  | .sent _ ticket _ _ => some ticket
  | .rescuing _ => none
  | .routed _ _ => caller.block.map (·.ticket)
  | .idle => caller.block.map (·.ticket)

/-- The caller has a transaction open between a `BEGIN` and its end. -/
def RawOpen (state : AdapterState) (index : Nat) : Prop :=
  state.inExplicitTx = false ∧ ∃ client transaction,
    state.activeTransactionClient = some client ∧
      (state.clients client).transaction = some transaction ∧
      transaction.opener = index

/-- The caller rolls back after a failed commit. -/
def Rescuing (state : AdapterState) (index : Nat) : Prop :=
  ∃ client, (state.callers index).call = .rescuing client ∧
    state.activeTransactionClient = some client

/-- The caller has the ticket for something that is not over. -/
def Holds (state : AdapterState) (index ticket : Nat) : Prop :=
  (state.callers index).ticket = some ticket ∨
    state.releaseGate = some ticket ∧
      (RawOpen state index ∨ Rescuing state index)

/-- Every ticket at the gate belongs to someone who is not finished. -/
def GateHeld (state : AdapterState) : Prop :=
  ∀ ticket ∈ state.gate, ∃ index, Holds state index ticket

/-- A caller that has just been rejected holds no ticket. -/
def FailureStep (state next : AdapterState) : Prop :=
  ∀ index, next.rejected = state.rejected ++ [index] →
    ∀ ticket, ¬Holds next index ticket

end Takos.LocalPlatform
