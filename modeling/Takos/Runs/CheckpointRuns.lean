import Takos.Runs.CheckpointCalls
import Takos.Runs.RunLifecycle

/-!
# Object keys and the run row

The key of an object ends in the id that was drawn for it.  A statement of a
run call leaves the checkpoint of the row alone, or clears it and ends the run;
a row with a completion key therefore has no checkpoint.
-/

namespace Takos.Runs

open Takos.Foundation

/-- The key ends in this id. -/
def KeyOf (uuid : Uuid) (key : Text) : Prop :=
  ∃ front, key = front ++ (uuid.val ++ ".json".toList)

theorem keyOf_engineCheckpointR2Key (runId serviceId : Text)
    (leaseVersion : Nat) (uuid : Uuid) :
    KeyOf uuid (engineCheckpointR2Key runId serviceId leaseVersion uuid) :=
  ⟨_, List.append_assoc _ _ _⟩

theorem KeyOf.unique {left right : Uuid} {key : Text}
    (fromLeft : KeyOf left key) (fromRight : KeyOf right key) :
    left = right := by
  obtain ⟨front, shape⟩ := fromLeft
  obtain ⟨other, same⟩ := fromRight
  rw [shape] at same
  have lengths : (left.val ++ ".json".toList).length =
      (right.val ++ ".json".toList).length := by
    rw [List.length_append, List.length_append, left.property, right.property]
  have tails := (List.append_inj' same lengths).2
  exact Subtype.ext (List.append_cancel_right tails)

theorem KeyOf.ne_nil {uuid : Uuid} {key : Text} (drawn : KeyOf uuid key) :
    key ≠ [] := by
  obtain ⟨front, shape⟩ := drawn
  rw [shape]
  simp

theorem keyFromStored_pointer {key : Text} (nonempty : key ≠ []) :
    engineCheckpointR2KeyFromStored
      (some (engineCheckpointR2Prefix ++ key)) = some key := by
  cases key with
  | nil => exact absurd rfl nonempty
  | cons char rest => rfl

theorem keyFromStored_serialized (save : SaveRequest) :
    engineCheckpointR2KeyFromStored (some save.serialized) = none := by
  have object := save.object
  cases shape : save.serialized with
  | nil => rfl
  | cons char rest =>
      rw [shape] at object
      rw [Option.some.inj object]
      rfl

/-- The call ends the run if it writes a completion. -/
def RunCall.Ends : RunCall → Prop
  | .ensureRunLease _ (.completeRun input) | .readCompletion _ input
  | .completeRun _ input _ => input.status.isTerminal = true
  | .readEngineCheckpoint transition _ | .transitionRun transition _ _ =>
    transition.input.status.isTerminal = true
  | .updateRunStatus _ _ => False
  | _ => True

/-- The checkpoint stays, or is cleared together with the end of the run. -/
def CheckpointKept (before after : RunRow) : Prop :=
  (after.engineCheckpoint = before.engineCheckpoint ∧
      (after.completionKey = before.completionKey ∨
        after.completionKey = none)) ∨
    (after.engineCheckpoint = none ∧ after.status.isTerminal = true)

/-- A statement leaves the row, or changes a row that has not ended. -/
def RowMoves (before after : RunRow) : Prop :=
  after = before ∨
    (before.status.isTerminal = false ∧ CheckpointKept before after)

variable {ledger : RunLedger} {call : RunCall} {rest : RunCall}

theorem moves_update {Result : Type} {update : RowUpdate}
    (active : update.Active)
    (kept : ∀ row, CheckpointKept row (update.assign row))
    (matched missed : Result) :
    RowMoves ledger.row (ledger.update update matched missed).1.row := by
  simp only [RunLedger.update]
  split
  · next condition => exact .inr ⟨active.active _ condition, kept _⟩
  · exact .inl rfl

theorem statement_moves (ends : call.Ends) (ledger : RunLedger) :
    RowMoves ledger.row (call.statement ledger).1.row := by
  cases call with
  | recoverStale delivery =>
      exact moves_update (RowUpdate.active_recoverStale _)
        (fun _ => .inl ⟨rfl, .inr rfl⟩) _ _
  | claim delivery =>
      simp only [RunCall.statement]
      split
      · next condition =>
          simp only [RowUpdate.claim, Bool.and_eq_true,
            decide_eq_true_eq] at condition
          refine .inr ⟨?_, .inl ⟨rfl, .inl rfl⟩⟩
          rw [condition.1]
          rfl
      · exact .inl rfl
  | readLease | readExisting =>
      simp only [RunCall.statement]
      split
      · split
        · exact .inl rfl
        · split <;> exact .inl rfl
      · exact .inl rfl
  | freezeModel delivery leaseVersion =>
      exact moves_update (RowUpdate.active_freezeModel _ _ _)
        (fun _ => .inl ⟨rfl, .inl rfl⟩) _ _
  | resetClaim serviceId error reply =>
      exact moves_update (RowUpdate.active_resetClaim _ _)
        (fun _ => .inl ⟨rfl, .inr rfl⟩) _ _
  | selectStale | selectUnclaimed | confirmCompletion | confirmStatus =>
      simp only [RunCall.statement]
      split <;> exact .inl rfl
  | resetStaleRunning staleThreshold epoch sent =>
      exact moves_update (RowUpdate.active_resetStaleRunning _)
        (fun _ => .inl ⟨rfl, .inr rfl⟩) _ _
  | revertToRunning epoch =>
      exact moves_update (RowUpdate.active_revertToRunning _)
        (fun _ => .inl ⟨rfl, .inl rfl⟩) _ _
  | resetUnclaimed staleThreshold recoveryHeartbeat =>
      exact moves_update (RowUpdate.active_resetUnclaimed _ _)
        (fun _ => .inl ⟨rfl, .inl rfl⟩) _ _
  | heartbeat body serviceId now =>
      exact moves_update (RowUpdate.active_heartbeat _ _ _)
        (fun _ => .inl ⟨rfl, .inl rfl⟩) _ _
  | runFail body serviceId error completedAt =>
      exact moves_update (RowUpdate.active_runFail _ _ _ _)
        (fun _ => .inl ⟨rfl, .inl rfl⟩) _ _
  | runReset body serviceId =>
      exact moves_update (RowUpdate.active_runReset _ _)
        (fun _ => .inl ⟨rfl, .inr rfl⟩) _ _
  | ensureRunLease body rpc =>
      cases rpc with
      | updateStatus update completionKey =>
          simp only [RunCall.statement]
          split
          · exact .inl rfl
          · split <;> exact .inl rfl
      | completeRun input =>
          simp only [RunCall.statement]
          split <;> exact .inl rfl
  | readCompletion | confirmLease => exact .inl rfl
  | completeRun body input expectedEngineCheckpoint =>
      exact moves_update (RowUpdate.active_completeRun _ _)
        (fun _ => .inr ⟨rfl, ends⟩) _ _
  | readEngineCheckpoint transition caller =>
      simp only [RunCall.statement]
      split
      · exact .inl rfl
      · split <;> exact .inl rfl
  | transitionRun transition checkpoint caller =>
      exact moves_update (RowUpdate.active_transitionRun transition.active _)
        (fun _ => .inr ⟨rfl, ends⟩) _ _
  | readCancelled attempts completedAt completionKey =>
      cases attempts with
      | zero => exact .inl rfl
      | succ attempts =>
          simp only [RunCall.statement]
          split <;> exact .inl rfl
  | statusUpdate body update =>
      exact moves_update (RowUpdate.active_statusUpdate _)
        (fun _ => .inl ⟨rfl, .inl rfl⟩) _ _
  | updateRunStatus status error => exact absurd ends (fun never => never)

/-- A row with a completion key has ended and has no checkpoint. -/
def Finished (row : RunRow) : Prop :=
  row.completionKey ≠ none →
    row.status.isTerminal = true ∧ row.engineCheckpoint = none

theorem RowMoves.finished {before after : RunRow} (moves : RowMoves before after)
    (finished : Finished before) : Finished after := by
  rcases moves with same | ⟨active, ⟨checkpoint, key⟩ | ⟨cleared, ended⟩⟩
  · rw [same]
    exact finished
  · intro completed
    rcases key with same | removed
    · rw [same] at completed
      rw [(finished completed).1] at active
      exact absurd active (by decide)
    · exact absurd removed completed
  · exact fun _ => ⟨ended, cleared⟩

theorem RowMoves.checkpoint {before after : RunRow}
    (moves : RowMoves before after) :
    after.engineCheckpoint = before.engineCheckpoint ∨
      after.engineCheckpoint = none := by
  rcases moves with same | ⟨_, ⟨checkpoint, _⟩ | ⟨cleared, _⟩⟩
  · exact .inl (by rw [same])
  · exact .inl checkpoint
  · exact .inr cleared

theorem dispatch_ends (delivery : Delivery) (leaseVersion : Nat)
    (continued : delivery.dispatch leaseVersion = .next rest) : rest.Ends := by
  simp only [Delivery.dispatch] at continued
  split at continued <;> cases continued
  all_goals first
    | exact rfl
    | exact trivial

theorem missed_ends (caller : TransitionCaller)
    (continued : caller.missed = .next rest) : rest.Ends := by
  cases caller <;> cases continued <;> trivial

theorem statement_ends (ends : call.Ends)
    (continued : (call.statement ledger).2 = .next rest) : rest.Ends := by
  cases statement_next continued with
  | dispatched delivery dispatched => exact dispatch_ends delivery _ dispatched
  | frozen delivery _ dispatched => exact dispatch_ends delivery _ dispatched
  | terminal _ _ _ ended => exact ended
  | readCompletion | completeRun | transitionRun => exact ends
  | unmatched _ caller missed => exact missed_ends caller missed
  | missed _ _ caller missed => exact missed_ends caller missed
  | cancel => rfl
  | _ => trivial

theorem dispatch_observes (delivery : Delivery) (leaseVersion : Nat)
    (continued : delivery.dispatch leaseVersion = .next rest)
    (observed : Option Text) : rest.observes observed = observed := by
  simp only [Delivery.dispatch] at continued
  split at continued <;> cases continued <;> rfl

theorem missed_observes (caller : TransitionCaller)
    (continued : caller.missed = .next rest) (observed : Option Text) :
    rest.observes observed = observed := by
  cases caller <;> cases continued <;> rfl

theorem statement_observes
    (continued : (call.statement ledger).2 = .next rest)
    (observed : Option Text) :
    rest.observes observed = observed ∨
      rest.observes observed = ledger.row.engineCheckpoint := by
  cases statement_next continued with
  | dispatched delivery dispatched =>
      exact .inl (dispatch_observes delivery _ dispatched observed)
  | frozen delivery _ dispatched =>
      exact .inl (dispatch_observes delivery _ dispatched observed)
  | completeRun | transitionRun => exact .inr rfl
  | unmatched _ caller missed =>
      exact .inl (missed_observes caller missed observed)
  | missed _ _ caller missed =>
      exact .inl (missed_observes caller missed observed)
  | _ => exact .inl rfl

theorem missed_done (caller : TransitionCaller) :
    caller.missed ≠ .done .committed := by
  cases caller <;> simp [TransitionCaller.missed]

theorem cleansAfter_cleared {reply : RunReply}
    (finished : Finished ledger.row) (cleans : call.cleansAfter reply = true)
    (ended : (call.statement ledger).2 = .done reply) :
    (call.statement ledger).1.row.engineCheckpoint = none := by
  cases call with
  | completeRun body input expectedEngineCheckpoint =>
      simp only [RunCall.statement, RunLedger.update] at ended ⊢
      split at ended
      · next condition =>
          rw [if_pos condition]
          rfl
      · cases ended
  | confirmCompletion input =>
      simp only [RunCall.statement] at ended ⊢
      split at ended
      · next same =>
          rw [if_pos same]
          simp only [Bool.and_eq_true, decide_eq_true_eq] at same
          have completed : ledger.row.completionKey ≠ none := by
            rw [same.2]
            exact Option.some_ne_none _
          exact (finished completed).2
      · cases ended
        exact absurd cleans Bool.false_ne_true
  | transitionRun transition checkpoint caller =>
      simp only [RunCall.statement, RunLedger.update] at ended ⊢
      split at ended
      · next condition =>
          rw [if_pos condition]
          rfl
      · cases reply <;> first
          | exact absurd ended (missed_done caller)
          | exact absurd cleans Bool.false_ne_true
  | _ => exact absurd cleans Bool.false_ne_true

end Takos.Runs
