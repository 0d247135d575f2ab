import Takos.Foundation.Text

/-!
# Tool calls and their operation records

One call of the executor, with the record of its operation key, the fate of every
read and write on the record, and the outcome of the handler.
-/

namespace Takos.Tools

open Takos.Foundation

inductive OperationStatus where
  | pending | completed | failed | uncertain
  deriving DecidableEq

structure ToolOperation where
  id : Text
  toolName : Text
  status : OperationStatus
  resultOutput : Option Text
  resultError : Option Text
  createdAt : Int

/-- A write that throws may still have reached the database. -/
inductive WriteFate where
  | applied | lost | unconfirmed

def WriteFate.throws : WriteFate → Bool
  | applied => false
  | lost | unconfirmed => true

def WriteFate.onto (fate : WriteFate)
    (change : Option ToolOperation → Option ToolOperation)
    (record : Option ToolOperation) : Option ToolOperation :=
  match fate with
  | lost => record
  | applied | unconfirmed => change record

/-- `uncertain` for a `ToolExecutionUncertainError`. -/
structure ToolError where
  message : Text
  uncertain : Bool

structure ToolResult where
  output : Text
  error : Option Text
  outcomeUncertain : Bool

/-- What happens around a call: the clock, the id that is drawn, the record that
another request inserts first, and the fate of each access to the database. -/
structure CallFates where
  now : Int
  operationId : Text
  raced : Option ToolOperation
  selectFails : Bool
  reselectFails : Bool
  deletion : WriteFate
  staleMark : WriteFate
  insertion : WriteFate
  completion : WriteFate
  failure : WriteFate
  databaseError : Text

def CallFates.error (fates : CallFates) : ToolError :=
  ⟨fates.databaseError, false⟩

inductive IdempotencyResult where
  | cached (output : Option Text) (error : Option Text) (outcomeUncertain : Bool)
  | inProgress
  | execute (operationId : Text)

abbrev Checked :=
  Except ToolError IdempotencyResult × Option ToolOperation

def STALE_PENDING_THRESHOLD_MS : Int := 30 * 60 * 1000

def keyConflictResult (expectedToolName actualToolName : Text) :
    IdempotencyResult :=
  .cached (some []) (some ("The operation key for ".toList ++
    expectedToolName ++ " was already used by ".toList ++ actualToolName ++
    (". Automatic execution is blocked because the checkpoint identity is " ++
      "inconsistent.").toList)) true

/-- The answer that a settled record gives. -/
def settledResult (toolName uncertainError : Text) (row : ToolOperation) :
    Option IdempotencyResult :=
  if row.toolName ≠ toolName then
    some (keyConflictResult toolName row.toolName)
  else
    match row.status with
    | .completed => some (.cached row.resultOutput row.resultError false)
    | .uncertain =>
      some (.cached (some []) (some (row.resultError.getD uncertainError)) true)
    | .failed | .pending => none

/-- `INSERT OR IGNORE`, and a second look where another request came first. -/
def insertPending (fates : CallFates) (toolName : Text) : Checked :=
  match fates.raced with
  | none =>
    let pending := fates.insertion.onto (fun _ => some
      ⟨fates.operationId, toolName, .pending, none, none, fates.now⟩) none
    if fates.insertion.throws then (.error fates.error, pending)
    else (.ok (.execute fates.operationId), pending)
  | some row =>
    if fates.insertion.throws || fates.reselectFails then
      (.error fates.error, some row)
    else
      (.ok ((settledResult toolName ("The previous ".toList ++ toolName ++
        (" call has an unknown outcome; automatic replay is " ++
          "blocked.").toList) row).getD .inProgress), some row)

def staleError (toolName : Text) : Text :=
  "The previous ".toList ++ toolName ++
    (" call lost its executor before an outcome was recorded. Automatic " ++
      "replay is blocked to avoid duplicating a side effect; verify the " ++
      "remote system before issuing a new operation.").toList

def checkIdempotencyForOperationKey (fates : CallFates) (toolName : Text)
    (record : Option ToolOperation) : Checked :=
  if fates.selectFails then (.error fates.error, record)
  else
    match record with
    | none => insertPending fates toolName
    | some row =>
      match settledResult toolName ("The previous ".toList ++ toolName ++
        (" call may have completed, but Takos could not confirm its outcome. " ++
          "Automatic replay is blocked to avoid duplicating a side effect. " ++
          "Verify the remote system and use a new explicit operation if " ++
          "needed.").toList) row with
      | some result => (.ok result, record)
      | none =>
        if row.status = .failed then
          if fates.deletion.throws then
            (.error fates.error, fates.deletion.onto (fun _ => none) record)
          else insertPending fates toolName
        else if STALE_PENDING_THRESHOLD_MS < fates.now - row.createdAt then
          let marked := fates.staleMark.onto (Option.map fun row =>
            { row with
              status := .uncertain, resultError := some (staleError toolName) })
            record
          if fates.staleMark.throws then (.error fates.error, marked)
          else (.ok (.cached (some []) (some (staleError toolName)) true), marked)
        else (.ok .inProgress, record)

/-- The update of a pending record. -/
def settlePending (operationId : Text) (status : OperationStatus)
    (output : Text) (error : Option Text) :
    Option ToolOperation → Option ToolOperation :=
  Option.map fun row =>
    if row.id = operationId ∧ row.status = .pending then
      { row with
        status := status, resultOutput := some output, resultError := error }
    else row

/-- An empty error counts as none. -/
def completeOperation (operationId output : Text) (error : Option Text) :
    Option ToolOperation → Option ToolOperation :=
  settlePending operationId
    (if error.getD [] = [] then .completed else .failed) output error

def markOperationUncertain (operationId error : Text) :
    Option ToolOperation → Option ToolOperation :=
  settlePending operationId .uncertain [] (some error)

inductive HandlerOutcome where
  | returns (output : Text)
  | throws (error : ToolError)
  /-- Still running when the time is over. -/
  | timesOut
  /-- Rejects because the call has been aborted. -/
  | aborted (error : ToolError)

/-- What stands before and around the handler: the verdict of the circuit
breaker, whether the tool is known, and the error of the permission check or of
the argument validation. -/
structure CallSetting where
  name : Text
  blocked : Option ToolResult
  known : Bool
  refused : Option ToolError
  sideEffect : Bool
  hasDb : Bool
  timeoutError : Text
  truncateToolOutput : Text → Text
  truncateToolError : Text → Text
  describe : ToolError → Text

/-- `withTimeout`. -/
def settles (setting : CallSetting) : HandlerOutcome → Except ToolError Text
  | .returns output => .ok output
  | .throws error => .error error
  | .timesOut => .error ⟨setting.timeoutError, true⟩
  | .aborted error => .error error

/-- The outer `catch`. -/
def thrown (setting : CallSetting) (error : ToolError) : ToolResult :=
  ⟨[], some (setting.describe error), setting.sideEffect && error.uncertain⟩

/-- The handler and the write of its outcome stand in one `try`. -/
def runRecorded (setting : CallSetting) (fates : CallFates)
    (handler : HandlerOutcome) (operationId : Text)
    (record : Option ToolOperation) : ToolResult × Option ToolOperation :=
  let attempt : Except ToolError Text × Option ToolOperation :=
    match settles setting handler with
    | .error error => (.error error, record)
    | .ok raw =>
      let output := setting.truncateToolOutput raw
      let written := fates.completion.onto
        (completeOperation operationId output none) record
      if fates.completion.throws then (.error fates.error, written)
      else (.ok output, written)
  match attempt.1 with
  | .ok output => (⟨output, none, false⟩, attempt.2)
  | .error error =>
    let errMsg := setting.truncateToolError error.message
    (thrown setting error, fates.failure.onto
      (if error.uncertain then markOperationUncertain operationId errMsg
        else completeOperation operationId [] (some errMsg)) attempt.2)

/-- `ToolExecutor.execute`. -/
def execute (setting : CallSetting) (fates : CallFates)
    (handler : HandlerOutcome) (record : Option ToolOperation) :
    ToolResult × Option ToolOperation :=
  match setting.blocked with
  | some result => (result, record)
  | none =>
    if setting.known = false then
      (⟨[], some ("Unknown tool: ".toList ++ setting.name), false⟩, record)
    else
      match setting.refused with
      | some error => (thrown setting error, record)
      | none =>
        if setting.sideEffect && setting.hasDb then
          match checkIdempotencyForOperationKey fates setting.name record with
          | (.error error, record) => (thrown setting error, record)
          | (.ok (.cached output error outcomeUncertain), record) =>
            (⟨output.getD [], error, outcomeUncertain⟩, record)
          | (.ok .inProgress, record) =>
            (⟨[], some ("Tool \"".toList ++ setting.name ++
              ("\" is already executing with the same parameters. Please " ++
                "wait.").toList), true⟩, record)
          | (.ok (.execute operationId), record) =>
            runRecorded setting fates handler operationId record
        else
          match settles setting handler with
          | .ok raw => (⟨setting.truncateToolOutput raw, none, false⟩, record)
          | .error error => (thrown setting error, record)

section Outcomes

variable {setting : CallSetting} {fates : CallFates} {handler : HandlerOutcome}
  {record : Option ToolOperation} {operationId : Text}

/-- The call runs the handler, under the record of that operation if any. -/
inductive Starts (setting : CallSetting) (fates : CallFates)
    (record : Option ToolOperation) :
    Option Text → Option ToolOperation → Prop where
  | recorded {operationId : Text} {pending : Option ToolOperation}
      (unblocked : setting.blocked = none) (known : setting.known = true)
      (admitted : setting.refused = none) (stored : setting.hasDb = true)
      (checked : checkIdempotencyForOperationKey fates setting.name record =
        (.ok (.execute operationId), pending)) :
      Starts setting fates record (some operationId) pending
  | unrecorded (unblocked : setting.blocked = none)
      (known : setting.known = true) (admitted : setting.refused = none)
      (unstored : setting.hasDb = false) :
      Starts setting fates record none record

def HandlerOutcome.unknown : HandlerOutcome → Prop
  | .returns _ | .throws _ => False
  | .timesOut | .aborted _ => True

/-- The call says that its handler has failed, in the record or in its result. -/
def SaysFailed (result : ToolResult) (record : Option ToolOperation) : Prop :=
  (∃ row, record = some row ∧ row.status = .failed) ∨
    (result.error.isSome = true ∧ result.outcomeUncertain = false)

def SaysUncertain (result : ToolResult) (record : Option ToolOperation) :
    Prop :=
  (∃ row, record = some row ∧ row.status = .uncertain) ∨
    result.outcomeUncertain = true

/-- Without a database there is no record. -/
def told (setting : CallSetting) (record : Option ToolOperation) :
    Option ToolOperation :=
  if setting.hasDb then record else none

/-- Of a handler that it runs, the call does not say that it failed where it
returned, and says that it is uncertain where its outcome is unknown. -/
def Truthful (setting : CallSetting) (fates : CallFates)
    (handler : HandlerOutcome) (record : Option ToolOperation)
    (result : ToolResult × Option ToolOperation) : Prop :=
  ∀ operation pending, Starts setting fates record operation pending →
    ((∃ output, handler = .returns output) →
      ¬ SaysFailed result.1 (told setting result.2)) ∧
    (handler.unknown → SaysUncertain result.1 (told setting result.2) ∧
      ¬ SaysFailed result.1 (told setting result.2))

/-- The completion of a handler is recorded, and a handler that is aborted
rejects with an error of its own for unknown outcomes. -/
def Classified (setting : CallSetting) (fates : CallFates) :
    HandlerOutcome → Prop
  | .returns _ => setting.hasDb = true → fates.completion.throws = false
  | .aborted error => error.uncertain = true
  | .throws _ | .timesOut => True

variable {pending : Option ToolOperation}

theorem insertPending_execute {toolName : Text}
    (executes : insertPending fates toolName =
      (.ok (.execute operationId), pending)) :
    ∃ row, pending = some row ∧ row.id = operationId ∧
      row.status = .pending := by
  unfold insertPending at executes
  cases raced : fates.raced with
  | none =>
      cases fate : fates.insertion <;>
        simp only [raced, fate, WriteFate.throws, WriteFate.onto, if_true,
          Bool.false_eq_true, if_false] at executes
      · cases executes
        exact ⟨_, rfl, rfl, rfl⟩
      · cases executes
      · cases executes
  | some row =>
      exfalso
      have executed := congrArg Prod.fst executes
      simp only [raced] at executed
      by_cases fails : (fates.insertion.throws || fates.reselectFails) = true
      · rw [if_pos fails] at executed
        cases executed
      · rw [if_neg fails] at executed
        unfold settledResult keyConflictResult at executed
        split at executed
        · cases executed
        · cases status : row.status <;> simp [status] at executed

theorem check_execute {toolName : Text}
    (executes : checkIdempotencyForOperationKey fates toolName record =
      (.ok (.execute operationId), pending)) :
    ∃ row, pending = some row ∧ row.id = operationId ∧
      row.status = .pending := by
  unfold checkIdempotencyForOperationKey at executes
  by_cases unread : fates.selectFails = true
  · rw [if_pos unread] at executes
    cases executes
  · rw [if_neg unread] at executes
    cases record with
    | none => exact insertPending_execute executes
    | some row =>
        simp only [settledResult, keyConflictResult] at executes
        by_cases conflict : row.toolName ≠ toolName
        · simp only [if_pos conflict] at executes
          cases executes
        · simp only [if_neg conflict] at executes
          cases status : row.status with
          | completed =>
              simp only [status] at executes
              cases executes
          | uncertain =>
              simp only [status] at executes
              cases executes
          | failed =>
              simp only [status, if_true] at executes
              by_cases stuck : fates.deletion.throws = true
              · rw [if_pos stuck] at executes
                cases executes
              · rw [if_neg stuck] at executes
                exact insertPending_execute executes
          | pending =>
              simp only [status, reduceCtorEq, if_false] at executes
              split at executes
              · split at executes
                · cases executes
                · cases executes
              · cases executes

theorem execute_of_starts (sideEffect : setting.sideEffect = true)
    {operation : Option Text}
    (starts : Starts setting fates record operation pending) :
    execute setting fates handler record =
      match operation with
      | some operationId =>
        runRecorded setting fates handler operationId pending
      | none =>
        match settles setting handler with
        | .ok raw => (⟨setting.truncateToolOutput raw, none, false⟩, record)
        | .error error => (thrown setting error, record) := by
  cases starts with
  | recorded unblocked known admitted stored checked =>
      simp [execute, unblocked, known, admitted, sideEffect, stored, checked]
  | unrecorded unblocked known admitted unstored =>
      simp [execute, unblocked, known, admitted, unstored]

theorem thrown_definite {error : ToolError} (definite : error.uncertain = false)
    (record : Option ToolOperation) :
    SaysFailed (thrown setting error) record := by
  right
  simp [thrown, definite]

theorem thrown_uncertain (sideEffect : setting.sideEffect = true)
    {error : ToolError} (uncertain : error.uncertain = true)
    (unfailed : ∀ row, record = some row → row.status ≠ .failed) :
    SaysUncertain (thrown setting error) record ∧
      ¬ SaysFailed (thrown setting error) record := by
  constructor
  · right
    simp [thrown, sideEffect, uncertain]
  · rintro (⟨row, found, failed⟩ | ⟨_, certain⟩)
    · exact unfailed row found failed
    · simp [thrown, sideEffect, uncertain] at certain

theorem settled_unfailed {row : ToolOperation} (named : row.id = operationId)
    (open_ : row.status = .pending) {status : OperationStatus}
    (unfailed : status ≠ .failed) (fate : WriteFate) (output : Text)
    (error : Option Text) :
    ∀ after, fate.onto (settlePending operationId status output error)
      (some row) = some after → after.status ≠ .failed := by
  intro after settled
  cases fate with
  | lost =>
      cases settled
      rw [open_]
      decide
  | applied | unconfirmed =>
      simp only [WriteFate.onto, settlePending, named, open_, Option.map_some,
        and_self, if_true] at settled
      cases settled
      exact unfailed

theorem runRecorded_returns {output : Text} {row : ToolOperation}
    (named : row.id = operationId) (open_ : row.status = .pending) :
    SaysFailed
        (runRecorded setting fates (.returns output) operationId (some row)).1
        (runRecorded setting fates (.returns output) operationId
          (some row)).2 ↔
      fates.completion.throws = true := by
  by_cases throws : fates.completion.throws = true
  · simp only [runRecorded, settles, throws, if_true, iff_true]
    exact thrown_definite rfl _
  · simp only [runRecorded, settles, throws, if_false, Bool.false_eq_true,
      iff_false]
    rintro (⟨after, found, failed⟩ | ⟨error, _⟩)
    · exact settled_unfailed named open_ (by decide) _ _ _ after found failed
    · cases error

theorem runRecorded_error {error : ToolError}
    (raises : settles setting handler = .error error) :
    runRecorded setting fates handler operationId record =
      (thrown setting error, fates.failure.onto
        (if error.uncertain then
          markOperationUncertain operationId
            (setting.truncateToolError error.message)
        else completeOperation operationId []
          (some (setting.truncateToolError error.message))) record) := by
  simp only [runRecorded, raises]

theorem raised_truthful (sideEffect : setting.sideEffect = true)
    {error : ToolError} (raises : settles setting handler = .error error)
    {operation : Option Text}
    (starts : Starts setting fates record operation pending) :
    (SaysUncertain (execute setting fates handler record).1
        (told setting (execute setting fates handler record).2) ∧
      ¬ SaysFailed (execute setting fates handler record).1
        (told setting (execute setting fates handler record).2)) ↔
      error.uncertain = true := by
  have result : (execute setting fates handler record).1 =
      thrown setting error := by
    rw [execute_of_starts sideEffect starts]
    cases operation with
    | none => simp only [raises]
    | some operationId => simp only [runRecorded_error raises]
  rw [result]
  cases uncertain : error.uncertain with
  | false =>
      simp only [Bool.false_eq_true, iff_false, not_and, not_not]
      intro _
      exact thrown_definite uncertain _
  | true =>
      simp only [iff_true]
      apply thrown_uncertain sideEffect uncertain
      rw [execute_of_starts sideEffect starts]
      cases starts with
      | unrecorded _ _ _ unstored =>
          rw [told, unstored]
          rintro row ⟨⟩
      | recorded _ _ _ stored checked =>
          obtain ⟨row, rfl, named, open_⟩ := check_execute checked
          simp only [told, stored, if_true, runRecorded_error raises, uncertain]
          exact settled_unfailed named open_ (by decide) _ _ _

theorem returned_truthful (sideEffect : setting.sideEffect = true)
    {output : Text} {operation : Option Text}
    (starts : Starts setting fates record operation pending) :
    ¬ SaysFailed (execute setting fates (.returns output) record).1
        (told setting (execute setting fates (.returns output) record).2) ↔
      (setting.hasDb = true → fates.completion.throws = false) := by
  rw [execute_of_starts sideEffect starts]
  cases starts with
  | unrecorded _ _ _ unstored =>
      simp only [told, unstored, Bool.false_eq_true, if_false, false_implies,
        iff_true, settles]
      rintro (⟨row, ⟨⟩, _⟩ | ⟨⟨⟩, _⟩)
  | recorded _ _ _ stored checked =>
      obtain ⟨row, rfl, named, open_⟩ := check_execute checked
      simp only [told, stored, if_true, true_implies]
      rw [runRecorded_returns named open_, Bool.not_eq_true]

/-- A call tells of its handler truly exactly where the outcome is classified. -/
theorem execute_truthful_iff (setting : CallSetting)
    (sideEffect : setting.sideEffect = true) (fates : CallFates)
    (handler : HandlerOutcome) (record : Option ToolOperation) :
    Truthful setting fates handler record
        (execute setting fates handler record) ↔
      ((∃ operation pending, Starts setting fates record operation pending) →
        Classified setting fates handler) := by
  constructor
  · rintro truthful ⟨operation, pending, starts⟩
    obtain ⟨completed, unknown⟩ := truthful operation pending starts
    cases handler with
    | returns output =>
        exact (returned_truthful sideEffect starts).mp (completed ⟨output, rfl⟩)
    | throws | timesOut => trivial
    | aborted error =>
        exact (raised_truthful sideEffect rfl starts).mp (unknown trivial)
  · intro classified operation pending starts
    have meets := classified ⟨operation, pending, starts⟩
    constructor
    · rintro ⟨output, rfl⟩
      exact (returned_truthful sideEffect starts).mpr meets
    · intro unknown
      cases handler with
      | returns | throws => exact unknown.elim
      | timesOut => exact (raised_truthful sideEffect rfl starts).mpr rfl
      | aborted error =>
          exact (raised_truthful sideEffect rfl starts).mpr meets

end Outcomes

def plainSetting : CallSetting :=
  ⟨['t'], none, true, none, true, true, [], id, id, ToolError.message⟩

/-- The write of the completion is lost. -/
def lostCompletion : CallFates :=
  ⟨0, ['i'], none, false, false, .applied, .applied, .applied, .lost, .applied,
    ['d']⟩

theorem lostCompletion_starts : Starts plainSetting lostCompletion none
    (some ['i']) (some ⟨['i'], ['t'], .pending, none, none, 0⟩) :=
  .recorded rfl rfl rfl rfl rfl

/-- The handler has returned, and its operation is recorded as failed. -/
theorem completion_recorded_failed :
    ¬ ∀ (fates : CallFates) (handler : HandlerOutcome),
      Truthful plainSetting fates handler none
        (execute plainSetting fates handler none) := by
  intro truthful
  apply (truthful lostCompletion (.returns []) _ _ lostCompletion_starts).1
    ⟨[], rfl⟩
  left
  exact ⟨_, rfl, rfl⟩

theorem execute_truthful_timesOut :
    plainSetting.sideEffect = true ∧
      (Truthful plainSetting lostCompletion .timesOut none
          (execute plainSetting lostCompletion .timesOut none) ↔
        ((∃ operation pending, Starts plainSetting lostCompletion none operation
          pending) → Classified plainSetting lostCompletion .timesOut)) :=
  ⟨rfl, execute_truthful_iff plainSetting rfl lostCompletion .timesOut none⟩

end Takos.Tools
