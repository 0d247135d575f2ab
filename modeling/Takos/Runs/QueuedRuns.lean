import Takos.Runs.CheckpointRuns

/-!
# Queued runs without an owner

The claim of a delivery takes a queued row that nobody owns.  All writers that
queue a run also remove its owner, except the two status updates, which write
the status alone.
-/

namespace Takos.Runs

open Takos.Foundation

/-- A queued row has no owner. -/
def QueuedFree (row : RunRow) : Prop :=
  row.status = .queued → row.serviceId = none

theorem claim_condition {row : RunRow} (free : QueuedFree row)
    (queued : row.status = .queued) (serviceId now : Text) :
    (RowUpdate.claim serviceId now).condition row = true := by
  simp only [RowUpdate.claim, queued, free queued, decide_true, Bool.and_true]

namespace RowUpdate

/-- The update leaves no queued row with an owner. -/
def QueuesFree (update : RowUpdate) : Prop :=
  ∀ row, QueuedFree row → QueuedFree (update.assign row)

theorem queuesFree_of_removed {update : RowUpdate}
    (removed : ∀ row, (update.assign row).serviceId = none) :
    update.QueuesFree :=
  fun row _ _ => removed row

theorem queuesFree_of_status {update : RowUpdate}
    (other : ∀ row, (update.assign row).status ≠ .queued) :
    update.QueuesFree :=
  fun row _ queued => absurd queued (other row)

theorem queuesFree_of_kept {update : RowUpdate}
    (status : ∀ row, (update.assign row).status = row.status)
    (owner : ∀ row, (update.assign row).serviceId = row.serviceId) :
    update.QueuesFree := by
  intro row free queued
  rw [owner row]
  exact free (status row ▸ queued)

theorem queuesFree_of_terminal {update : RowUpdate}
    (ended : ∀ row, (update.assign row).status.isTerminal = true) :
    update.QueuesFree := by
  apply queuesFree_of_status
  intro row queued
  have terminal := ended row
  rw [queued] at terminal
  exact absurd terminal (by decide)

end RowUpdate

theorem queuedFree_update {Result : Type} {ledger : RunLedger}
    {update : RowUpdate} (kept : update.QueuesFree)
    (free : QueuedFree ledger.row) (matched missed : Result) :
    QueuedFree (ledger.update update matched missed).1.row := by
  simp only [RunLedger.update]
  split
  · exact kept ledger.row free
  · exact free

/-- The status of a completion or a transition is one of its type. -/
def RunCall.OfType (call : RunCall) : Prop :=
  call.Ends ∨ ∃ status error, call = .updateRunStatus status error

/-- The calls of a run with the statuses that their types allow. -/
def typedRunProgram : Program RunLedger RunCall RunReply where
  starts call := call.Starts ∧ call.OfType
  statement := RunCall.statement

/-- A status update that queues the run finds it without an owner. -/
def QueuesUnowned (ledger : RunLedger) (event : Program.Event RunCall)
    (_ : List RunCall) : Prop :=
  (∀ body update, event = .run (.statusUpdate body update) →
    update.status = .queued →
    (RowUpdate.statusUpdate update).condition ledger.row = true →
      ledger.row.serviceId = none) ∧
  ∀ error, event = .run (.updateRunStatus .queued error) →
    ledger.row.serviceId = none

open RowUpdate in
theorem statement_queuedFree {call : RunCall} {ledger : RunLedger}
    {others : List RunCall} (typed : call.OfType)
    (free : QueuedFree ledger.row)
    (allowed : QueuesUnowned ledger (.run call) others) :
    QueuedFree (call.statement ledger).1.row := by
  cases call with
  | recoverStale | resetClaim | resetStaleRunning | resetUnclaimed | runReset =>
      exact queuedFree_update (queuesFree_of_removed fun _ => rfl) free _ _
  | claim delivery =>
      simp only [RunCall.statement]
      split
      · intro queued
        cases queued
      · exact free
  | readLease | readExisting =>
      simp only [RunCall.statement]
      split
      · split
        · exact free
        · split <;> exact free
      · exact free
  | freezeModel | heartbeat =>
      exact queuedFree_update
        (queuesFree_of_kept (fun _ => rfl) fun _ => rfl) free _ _
  | selectStale | selectUnclaimed | confirmCompletion | confirmStatus =>
      simp only [RunCall.statement]
      split <;> exact free
  | revertToRunning epoch =>
      apply queuedFree_update _ free
      apply queuesFree_of_status
      intro row queued
      cases queued
  | runFail body serviceId error completedAt =>
      exact queuedFree_update (queuesFree_of_terminal fun _ => rfl) free _ _
  | ensureRunLease body rpc =>
      cases rpc with
      | updateStatus update completionKey =>
          simp only [RunCall.statement]
          split
          · exact free
          · split <;> exact free
      | completeRun input =>
          simp only [RunCall.statement]
          split <;> exact free
  | readCompletion | confirmLease => exact free
  | completeRun | transitionRun =>
      rcases typed with ended | ⟨_, _, other⟩
      · apply queuedFree_update _ free
        exact queuesFree_of_terminal fun _ => ended
      · cases other
  | readEngineCheckpoint transition caller =>
      simp only [RunCall.statement]
      split
      · exact free
      · split <;> exact free
  | readCancelled attempts completedAt completionKey =>
      cases attempts with
      | zero => exact free
      | succ attempts =>
          simp only [RunCall.statement]
          split <;> exact free
  | statusUpdate body update =>
      simp only [RunCall.statement, RunLedger.update]
      split
      · next condition =>
          intro queued
          exact allowed.1 body update rfl queued condition
      · exact free
  | updateRunStatus status error =>
      intro queued
      have same : status = .queued := queued
      subst same
      exact allowed.2 error rfl

def queuedAssertions : Program.Assertions RunLedger RunCall RunReply where
  shared ledger := QueuedFree ledger.row
  call _ call := call.OfType
  result _ _ := True

theorem statement_ofType {call : RunCall} {ledger : RunLedger} {rest : RunCall}
    (typed : call.OfType)
    (continued : (call.statement ledger).2 = .next rest) : rest.OfType := by
  rcases typed with ends | ⟨status, error, rfl⟩
  · exact .inl (statement_ends ends continued)
  · rcases update_next continued with same | same <;> cases same

/-- In a run whose status updates queue unowned rows only, every queued row can
be claimed. -/
theorem queued_claimable (model : Option Text) (createdAt : Text)
    {reached : Program.Config RunLedger RunCall RunReply}
    (run : typedRunProgram.Run QueuesUnowned
      ⟨⟨createPendingRun model createdAt, []⟩, [], []⟩ reached)
    (queued : reached.shared.row.status = .queued) :
    reached.shared.row.serviceId = none ∧
      ∀ serviceId now,
        (RowUpdate.claim serviceId now).condition reached.shared.row =
          true := by
  have initial : queuedAssertions.Hold
      ⟨⟨createPendingRun model createdAt, []⟩, [], []⟩ :=
    ⟨fun _ => rfl, by simp, by simp⟩
  have holds : queuedAssertions.Hold reached := by
    apply queuedAssertions.hold_of_run run initial
    · intro ledger call starts
      exact starts.2
    · intro ledger call others free typed allowed
      refine ⟨statement_queuedFree typed free allowed, ?_, fun _ held => held,
        fun _ held => held⟩
      cases shape : (typedRunProgram.statement call ledger).2 with
      | next rest => exact statement_ofType typed shape
      | done reply => trivial
  have free : QueuedFree reached.shared.row := holds.1
  exact ⟨free queued, claim_condition free queued⟩

namespace RequeuedRun

open ShortRuns

/-- The executor reports that its run is queued. -/
def update : StatusUpdate where
  status := .queued
  usage := ['{', '}']
  output := none
  error := none
  serviceId := some ['s']
  leaseVersion := some 1
  now := ['2']

def requeued : RunRow := (RowUpdate.statusUpdate update).assign claimed

abbrev RunTo (allowed : RunLedger → Program.Event RunCall → List RunCall → Prop)
    (row : RunRow) (claims : List Lease) (calls : List RunCall)
    (results : List RunReply) : Prop :=
  typedRunProgram.Run allowed ⟨⟨created, []⟩, [], []⟩
    ⟨⟨row, claims⟩, calls, results⟩

theorem run_queued : RunTo QueuesUnowned queued [] [] [.done] := by
  have opened : RunTo QueuesUnowned created [] [.updateRunStatus .queued none]
      [] :=
    Program.Run.here.starting _
      ⟨.updateRunStatus .queued none, .inr ⟨_, _, rfl⟩⟩
      ⟨by rintro _ _ ⟨⟩, by rintro _ ⟨⟩⟩
  exact opened.finishing [] [] rfl ⟨by rintro _ _ ⟨⟩, fun _ _ => rfl⟩

/-- A created run is claimed, and its executor sends the status it had
before. -/
theorem run_requeued :
    RunTo (fun _ _ _ => True) requeued [⟨['s'], 1⟩] []
      [.updated, .acked, .done] := by
  have nothing : RunTo (fun _ _ _ => True) created [] [] [] := .here
  exact nothing.play [.start (.updateRunStatus .queued none), .run 0,
    .start (.recoverStale delivery), .run 0, .run 0, .run 0,
    .start (.ensureRunLease body (.updateStatus update ['k'])), .run 0, .run 0,
    .run 0] (by
      repeat' first
        | exact trivial
        | exact ⟨.updateRunStatus .queued none, .inr ⟨_, _, rfl⟩⟩
        | exact ⟨.delivery delivery, .inl trivial⟩
        | exact ⟨.handleUpdateRunStatus body update ['k'] ⟨rfl, rfl⟩,
            .inl trivial⟩
        | apply And.intro)

end RequeuedRun

open RequeuedRun ShortRuns in
/-- The run that creation has queued. -/
theorem queued_claimable_created :
    queued.serviceId = none ∧ ∀ serviceId now,
      (RowUpdate.claim serviceId now).condition queued = true :=
  queued_claimable (some ['m']) ['0'] run_queued rfl

open RequeuedRun ShortRuns in
/-- The run is queued, keeps its owner, and no delivery can claim it. -/
theorem requeued_unclaimable :
    typedRunProgram.Run (fun _ _ _ => True) ⟨⟨created, []⟩, [], []⟩
      ⟨⟨requeued, [⟨['s'], 1⟩]⟩, [], [.updated, .acked, .done]⟩ ∧
    requeued.status = .queued ∧ requeued.serviceId = some ['s'] ∧
    ∀ serviceId now,
      (RowUpdate.claim serviceId now).condition requeued = false :=
  ⟨run_requeued, rfl, rfl, fun _ _ => rfl⟩

end Takos.Runs
