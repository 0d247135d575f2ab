import Takos.Foundation.OrderedMap
import Takos.Runs.RunCalls

/-!
# Engine checkpoints

A checkpoint is kept in its run row, or, when it is large, in an object of the
bucket that the row points to.  A save writes the object, swaps the row and
deletes the object it replaced, one statement each.  Completions and terminal
transitions clear the row and then delete the object they read there.

Beside the row and the bucket the store records the ids that were drawn for
object keys and the pointers that saves have installed; no call reads these
records.
-/

namespace Takos.Runs

open Takos.Foundation

/-- The texts of `crypto.randomUUID()`. -/
abbrev Uuid := { text : Text // text.length = 36 }

def maxInlineEngineCheckpointBytes : Nat := 512 * 1024

def engineCheckpointR2Prefix : Text := "r2:".toList

def engineCheckpointR2Key (runId serviceId : Text) (leaseVersion : Nat)
    (uuid : Uuid) : Text :=
  "agent-checkpoints/".toList ++ Text.encodeURIComponent runId ++ ['/'] ++
    Text.encodeURIComponent serviceId ++ ['/'] ++
    Nat.toDigits 10 leaseVersion ++ ['/'] ++ uuid.val ++ ".json".toList

/-- Also `engineCheckpointObjectKey`, which is written out a second time. -/
def engineCheckpointR2KeyFromStored (stored : Option Text) : Option Text :=
  match stored with
  | none => none
  | some text =>
    if Text.startsWith text engineCheckpointR2Prefix then
      match text.drop engineCheckpointR2Prefix.length with
      | [] => none
      | key => some key
    else none

/-- A save request after the checks of its payload.  `serialized` is the text
of an object, `offload` tells whether there is a bucket. -/
structure SaveRequest where
  body : ExecutorBody
  serialized : Text
  now : Text
  offload : Bool
  uuid : Uuid
  object : serialized.head? = some '{'
  version_given : body.serviceId.isSome → body.leaseVersion.isSome

namespace RowUpdate

/-- The swap of a save: the row still runs under the lease of the request and
still has the checkpoint that was read. -/
def saveCheckpoint (save : SaveRequest) (current : Option Text)
    (stored : Text) : RowUpdate where
  condition row :=
    row.status = .running &&
      row.hasLease save.body.serviceId save.body.leaseVersion &&
      row.engineCheckpoint = current
  assign row :=
    { row with
      engineCheckpoint := some stored
      engineCheckpointUpdatedAt := some save.now }

end RowUpdate

structure CheckpointStore where
  ledger : RunLedger
  bucket : OrderedMap Text Text
  issued : List Uuid
  installed : List (Text × Text)

/-- The statement that a call executes next.  A run call remembers whether its
function has a bucket, and the checkpoint that it read. -/
inductive CheckpointCall where
  | run (call : RunCall) (offload : Bool) (observed : Option Text)
  | cleanup (key : Text) (reply : RunReply)
  | ensureRunLease (save : SaveRequest)
  | readCheckpoint (save : SaveRequest)
  | stage (save : SaveRequest) (serviceId : Text) (leaseVersion : Nat)
      (current : Option Text)
  | install (save : SaveRequest) (stagedKey current : Option Text)
  | dropStaged (key : Text)
  | dropPrevious (key : Text)

inductive CheckpointReply where
  | run (reply : RunReply)
  | saved
  | leaseLost
  | offloadRequired

/-- The checkpoint that a run call has read when it is about to write. -/
def RunCall.observes : RunCall → Option Text → Option Text
  | .completeRun _ _ (some checkpoint), _ => checkpoint
  | .transitionRun _ checkpoint _, _ => checkpoint
  | _, observed => observed

/-- The statements after which a function goes on to the cleanup, when they
end the call with this reply. -/
def RunCall.cleansAfter : RunCall → RunReply → Bool
  | .completeRun _ _ (some _), .committed => true
  | .confirmCompletion _, .replayed => true
  | .transitionRun _ _ _, .committed => true
  | _, _ => false

def afterRun (call : RunCall) (offload : Bool) (observed : Option Text) :
    Outcome RunCall RunReply → Outcome CheckpointCall CheckpointReply
  | .next rest => .next (.run rest offload observed)
  | .done reply =>
    if call.cleansAfter reply && offload then
      match engineCheckpointR2KeyFromStored observed with
      | some key => .next (.cleanup key reply)
      | none => .done (.run reply)
    else .done (.run reply)

/-- The value that a save writes into the row. -/
def SaveRequest.stored (save : SaveRequest) : Option Text → Text
  | some key => engineCheckpointR2Prefix ++ key
  | none => save.serialized

def SaveRequest.fits (save : SaveRequest) (row : RunRow) : Bool :=
  row.status = .running &&
    row.hasLease save.body.serviceId save.body.leaseVersion

variable (runId : Text)

def CheckpointCall.statement (call : CheckpointCall)
    (store : CheckpointStore) :
    CheckpointStore × Outcome CheckpointCall CheckpointReply :=
  match call with
  | .run call offload observed =>
    let (ledger, outcome) := call.statement store.ledger
    ({ store with ledger := ledger },
      afterRun call offload (call.observes observed) outcome)
  | .cleanup key reply =>
    ({ store with bucket := store.bucket.delete key }, .done (.run reply))
  | .ensureRunLease save =>
    if refusesLease store.ledger.row save.body false then
      (store, .done .leaseLost)
    else (store, .next (.readCheckpoint save))
  | .readCheckpoint save =>
    if save.fits store.ledger.row then
      let current := store.ledger.row.engineCheckpoint
      if Text.encodedSize save.serialized > maxInlineEngineCheckpointBytes then
        match save.offload, save.body.serviceId, save.body.leaseVersion with
        | true, some serviceId, some leaseVersion =>
          (store, .next (.stage save serviceId leaseVersion current))
        | _, _, _ => (store, .done .offloadRequired)
      else (store, .next (.install save none current))
    else (store, .done .leaseLost)
  | .stage save serviceId leaseVersion current =>
    let key := engineCheckpointR2Key runId serviceId leaseVersion save.uuid
    ({ store with
        bucket := store.bucket.set key save.serialized
        issued := save.uuid :: store.issued },
      .next (.install save (some key) current))
  | .install save stagedKey current =>
    let update := RowUpdate.saveCheckpoint save current (save.stored stagedKey)
    if update.condition store.ledger.row then
      ({ store with
          ledger := { store.ledger with row := update.assign store.ledger.row }
          installed :=
            match stagedKey with
            | some key => (key, save.serialized) :: store.installed
            | none => store.installed },
        match engineCheckpointR2KeyFromStored current with
        | some previous =>
          if some previous ≠ stagedKey ∧ save.offload = true then
            .next (.dropPrevious previous)
          else .done .saved
        | none => .done .saved)
    else
      match stagedKey with
      | some key => (store, .next (.dropStaged key))
      | none => (store, .done .leaseLost)
  | .dropStaged key =>
    ({ store with bucket := store.bucket.delete key }, .done .leaseLost)
  | .dropPrevious key =>
    ({ store with bucket := store.bucket.delete key }, .done .saved)

/-- How calls start: saves, and the calls that write the row as far as they
respect its status.  A transition and a completion end the run. -/
inductive CheckpointCall.Starts : CheckpointCall → Prop where
  | handleEngineCheckpointSave (save : SaveRequest) :
      Starts (.ensureRunLease save)
  | run (call : RunCall) (offload : Bool) :
      call.Starts → (∀ status error, call ≠ .updateRunStatus status error) →
      (∀ transition caller, call = .readEngineCheckpoint transition caller →
        transition.input.status.isTerminal = true) →
      (∀ body input, call = .ensureRunLease body (.completeRun input) →
        input.status.isTerminal = true) →
      (∀ body input expected, call = .completeRun body input expected →
        input.status.isTerminal = true ∧ expected = none) →
      Starts (.run call offload none)

def checkpointProgram :
    Program CheckpointStore CheckpointCall CheckpointReply where
  starts := CheckpointCall.Starts
  statement := CheckpointCall.statement runId

end Takos.Runs

/-!
# Checkpoint saves of the container

The container saves its checkpoints one after another, each with up to three
attempts of the same payload.  An attempt that the client no longer waits for
may still be executing in the Worker, and its answer is not read.

The state records beside the store which saves were acknowledged and what the
attempts of each save have written into the row; no call reads these records.
-/

namespace Takos.Runs

open Takos.Foundation

inductive ControlRpcErrorKind where
  | leaseLost
  | conflict
  | notFound
  | network
  | responseAmbiguous
  | other
  deriving DecidableEq

structure ControlRpcError where
  kind : ControlRpcErrorKind
  status : Option Nat

def finalizationMaxAttempts : Nat := 3

/-- `is_server_error`, `REQUEST_TIMEOUT` or `TOO_MANY_REQUESTS`. -/
def isRetryableStatus (status : Nat) : Bool :=
  (500 ≤ status && status < 600) || status = 408 || status = 429

/-- `is_retryable_control_rpc_error`. -/
def ControlRpcError.isRetryable (error : ControlRpcError) : Bool :=
  match error.kind with
  | .network => error.status.all isRetryableStatus
  | .responseAmbiguous => true
  | .other => error.status.any isRetryableStatus
  | .leaseLost | .conflict | .notFound => false

/-- How the client decodes the answer of a save. -/
def CheckpointReply.error : CheckpointReply → Option ControlRpcError
  | .leaseLost => some ⟨.leaseLost, some 409⟩
  | .offloadRequired => some ⟨.other, some 503⟩
  | .saved | .run _ => none

/-- The lease under which the container posts its saves. -/
structure HeldLease where
  body : ExecutorBody
  version_given : body.serviceId.isSome → body.leaseVersion.isSome

/-- A checkpoint to be saved, and what the Worker finds and draws when it
handles each attempt. -/
structure EngineSave where
  serialized : Text
  object : serialized.head? = some '{'
  now : Nat → Text
  offload : Nat → Bool
  uuid : Nat → Uuid

/-- Every attempt has the same payload. -/
def EngineSave.request (save : EngineSave) (lease : HeldLease) (attempt : Nat) :
    SaveRequest where
  body := lease.body
  serialized := save.serialized
  now := save.now attempt
  offload := save.offload attempt
  uuid := save.uuid attempt
  object := save.object
  version_given := lease.version_given

/-- Between two saves, waiting for the answer of an attempt, or told that the
lease is lost. -/
inductive Holder where
  | idle
  | awaiting (number attempt : Nat) (save : EngineSave)
  | abandoned

def Holder.awaits (holder : Holder) (number attempt : Nat) : Prop :=
  ∃ save, holder = .awaiting number attempt save

instance (holder : Holder) (number attempt : Nat) :
    Decidable (holder.awaits number attempt) :=
  match holder with
  | .idle => isFalse (fun ⟨_, shape⟩ => nomatch shape)
  | .abandoned => isFalse (fun ⟨_, shape⟩ => nomatch shape)
  | .awaiting current latest save =>
    if same : current = number ∧ latest = attempt then
      isTrue ⟨save, by rw [same.1, same.2]⟩
    else isFalse (fun ⟨_, shape⟩ => same (by cases shape; exact ⟨rfl, rfl⟩))

structure SaveState where
  lease : HeldLease
  store : CheckpointStore
  holder : Holder
  issued : Nat
  acknowledged : List Nat
  written : List (Nat × Text)

/-- A save that begins, a failure that the client notices by itself, an attempt
in the Worker, its answer on the way to the client, and any other call on the
run. -/
inductive SaveCall where
  | saveEngineCheckpoint (save : EngineSave)
  | failing (error : ControlRpcError)
  | attempt (number attempt : Nat) (call : CheckpointCall)
  | answer (number attempt : Nat) (reply : CheckpointReply)
  | other (call : CheckpointCall)

/-- The next statement of an attempt, or its answer. -/
def SaveCall.following (number turn : Nat) :
    Outcome CheckpointCall CheckpointReply → SaveCall
  | .next rest => .attempt number turn rest
  | .done reply => .answer number turn reply

namespace SaveState

variable (state : SaveState)

/-- `post_checkpoint_with_retry` posts the payload. -/
def post (number attempt : Nat) (save : EngineSave) :
    SaveState × Outcome SaveCall Unit :=
  ({ state with holder := .awaiting number attempt save },
    .next (.attempt number attempt
      (.ensureRunLease (save.request state.lease attempt))))

/-- An attempt is repeated or its error is returned. -/
def failed (error : ControlRpcError) : SaveState × Outcome SaveCall Unit :=
  match state.holder with
  | .awaiting number attempt save =>
    if attempt < finalizationMaxAttempts && error.isRetryable then
      state.post number (attempt + 1) save
    else
      ({ state with
          holder := if error.kind = .leaseLost then .abandoned else .idle },
        .done ())
  | .idle | .abandoned => (state, .done ())

/-- A swap is recorded with the save that it belongs to. -/
def record (number : Nat) (call : CheckpointCall) : List (Nat × Text) :=
  match call with
  | .install save stagedKey current =>
    let stored := save.stored stagedKey
    if (RowUpdate.saveCheckpoint save current stored).condition
        state.store.ledger.row then
      (number, stored) :: state.written
    else state.written
  | _ => state.written

end SaveState

variable (runId : Text)

def SaveCall.statement (call : SaveCall) (state : SaveState) :
    SaveState × Outcome SaveCall Unit :=
  match call with
  | .saveEngineCheckpoint save =>
    match state.holder with
    | .idle =>
      { state with issued := state.issued + 1 }.post (state.issued + 1) 1 save
    | .awaiting _ _ _ | .abandoned => (state, .done ())
  | .failing error => state.failed error
  | .attempt number turn call =>
    let (store, outcome) := call.statement runId state.store
    ({ state with store := store, written := state.record number call },
      .next (SaveCall.following number turn outcome))
  | .answer number turn reply =>
    if state.holder.awaits number turn then
      match reply.error with
      | none =>
        ({ state with
            holder := .idle
            acknowledged := number :: state.acknowledged },
          .done ())
      | some error => state.failed error
    else (state, .done ())
  | .other call =>
    let (store, outcome) := call.statement runId state.store
    ({ state with store := store },
      match outcome with
      | .next rest => .next (.other rest)
      | .done _ => .done ())

/-- How calls start.  A failure that the client notices by itself is no answer
of the Worker; the other calls on the run are no saves. -/
inductive SaveCall.Starts : SaveCall → Prop where
  | saveEngineCheckpoint (save : EngineSave) :
      Starts (.saveEngineCheckpoint save)
  | failing (error : ControlRpcError) : error.kind ≠ .leaseLost →
      Starts (.failing error)
  | other (call : RunCall) (offload : Bool) :
      CheckpointCall.Starts (.run call offload none) →
      Starts (.other (.run call offload none))

def saveProgram : Program SaveState SaveCall Unit where
  starts := SaveCall.Starts
  statement := SaveCall.statement runId

end Takos.Runs
