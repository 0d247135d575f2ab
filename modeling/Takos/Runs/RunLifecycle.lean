import Takos.Runs.RunCalls

/-!
# The life of a run row

All writers but one match active rows only, and only a claim sets an owner and
raises the lease version.  The exception is `updateRunStatus`, which filters by
id alone and can revive a finished run.
-/

namespace Takos.Runs

open Takos.Foundation

/-- The effect of one statement. -/
inductive RunEffect (call : RunCall) (ledger : RunLedger) : RunLedger → Prop
    where
  | same : RunEffect call ledger ledger
  | active (update : RowUpdate) :
      update.Active → update.condition ledger.row = true →
      RunEffect call ledger { ledger with row := update.assign ledger.row }
  | claimed (delivery : Delivery) :
      call = .claim delivery → ledger.row.status = .queued →
      RunEffect call ledger
        ⟨(RowUpdate.claim delivery.serviceId delivery.now).assign ledger.row,
          ⟨delivery.serviceId, ledger.row.leaseVersion + 1⟩ :: ledger.claims⟩
  | unconditional (status : RunStatus) (error : Option Text) :
      call = .updateRunStatus status error →
      RunEffect call ledger
        { ledger with row := { ledger.row with status := status, error := error } }

variable {ledger : RunLedger} {call : RunCall} {update : RowUpdate}
  {before after : RunLedger} {rest : RunCall}

theorem effect_update {Result : Type} (active : update.Active)
    (matched missed : Result) :
    RunEffect call ledger (ledger.update update matched missed).1 := by
  simp only [RunLedger.update]
  split
  · rename_i condition
    exact .active update active condition
  · exact .same

theorem statement_effect (call : RunCall) (ledger : RunLedger) :
    RunEffect call ledger (call.statement ledger).1 := by
  cases call with
  | recoverStale delivery =>
      exact effect_update (RowUpdate.active_recoverStale _) _ _
  | claim delivery =>
      simp only [RunCall.statement]
      split
      · rename_i condition
        simp only [RowUpdate.claim, Bool.and_eq_true,
          decide_eq_true_eq] at condition
        exact .claimed delivery rfl condition.1
      · exact .same
  | readLease | readExisting =>
      simp only [RunCall.statement]
      split
      · split
        · exact .same
        · split <;> exact .same
      · exact .same
  | freezeModel delivery leaseVersion =>
      exact effect_update (RowUpdate.active_freezeModel _ _ _) _ _
  | resetClaim serviceId error reply =>
      exact effect_update (RowUpdate.active_resetClaim _ _) _ _
  | selectStale | selectUnclaimed | confirmCompletion | confirmStatus =>
      simp only [RunCall.statement]
      split <;> exact .same
  | resetStaleRunning staleThreshold epoch sent =>
      exact effect_update (RowUpdate.active_resetStaleRunning _) _ _
  | revertToRunning epoch =>
      exact effect_update (RowUpdate.active_revertToRunning _) _ _
  | resetUnclaimed staleThreshold recoveryHeartbeat =>
      exact effect_update (RowUpdate.active_resetUnclaimed _ _) _ _
  | heartbeat body serviceId now =>
      exact effect_update (RowUpdate.active_heartbeat _ _ _) _ _
  | runFail body serviceId error completedAt =>
      exact effect_update (RowUpdate.active_runFail _ _ _ _) _ _
  | runReset body serviceId =>
      exact effect_update (RowUpdate.active_runReset _ _) _ _
  | ensureRunLease body rpc =>
      cases rpc with
      | updateStatus update completionKey =>
          simp only [RunCall.statement]
          split
          · exact .same
          · split <;> exact .same
      | completeRun input =>
          simp only [RunCall.statement]
          split <;> exact .same
  | readCompletion | confirmLease => exact .same
  | completeRun body input expectedEngineCheckpoint =>
      exact effect_update (RowUpdate.active_completeRun _ _) _ _
  | readEngineCheckpoint transition caller =>
      simp only [RunCall.statement]
      split
      · exact .same
      · split <;> exact .same
  | transitionRun transition checkpoint caller =>
      exact effect_update (RowUpdate.active_transitionRun transition.active _)
        _ _
  | readCancelled attempts completedAt completionKey =>
      cases attempts with
      | zero => exact .same
      | succ attempts =>
          simp only [RunCall.statement]
          split <;> exact .same
  | statusUpdate body update =>
      exact effect_update (RowUpdate.active_statusUpdate _) _ _
  | updateRunStatus status error => exact .unconditional status error rfl

/-- The current owner holds a lease that was claimed. -/
def RunLedger.Owned (ledger : RunLedger) : Prop :=
  ∀ serviceId, ledger.row.serviceId = some serviceId →
    ⟨serviceId, ledger.row.leaseVersion⟩ ∈ ledger.claims

theorem RunEffect.owned (effect : RunEffect call before after)
    (owned : before.Owned) : after.Owned := by
  cases effect with
  | same | unconditional => exact owned
  | active update active matched =>
      intro serviceId owner
      have version := active.version before.row
      rcases active.owner before.row with kept | removed
      · have ownedBefore := owned serviceId (kept ▸ owner)
        simpa only [version] using ownedBefore
      · rw [removed] at owner
        cases owner
  | claimed delivery _ _ =>
      intro serviceId owner
      have same : delivery.serviceId = serviceId := Option.some.inj owner
      subst same
      exact List.mem_cons_self

theorem RunEffect.version_le (effect : RunEffect call before after) :
    before.row.leaseVersion ≤ after.row.leaseVersion := by
  cases effect with
  | same => exact le_refl _
  | active update active _ => exact (active.version before.row).ge
  | claimed delivery _ _ => exact Nat.le_succ _
  | unconditional status error _ => exact le_refl _

/-- The executor that a call runs for. -/
def RunCall.executor : RunCall → Option ExecutorBody
  | .heartbeat body _ _ | .runFail body _ _ _ | .runReset body _
  | .ensureRunLease body _ | .readCompletion body _ | .completeRun body _ _
  | .readExisting body _ | .statusUpdate body _ => some body
  | .readEngineCheckpoint transition _ | .transitionRun transition _ _ =>
    transition.writer
  | _ => none

/-- The next statement writes a terminal status if it matches. -/
def RunCall.Finishes : RunCall → Prop
  | .runFail _ _ _ _ | .completeRun _ _ _ | .transitionRun _ _ _ => True
  | .statusUpdate _ update => update.status.isTerminal = true
  | _ => False

/-- The arguments of an executor's call are those of its body. -/
def RunCall.Bound : RunCall → Prop
  | .runFail body serviceId _ _ => body.serviceId = some serviceId
  | .ensureRunLease body (.updateStatus update _)
  | .readExisting body update | .statusUpdate body update => update.From body
  | .ensureRunLease body (.completeRun input) | .readCompletion body input
  | .completeRun body input _ => input.From body
  | .readEngineCheckpoint transition _ | .transitionRun transition _ _ =>
    ∀ body, transition.writer = some body →
      transition.input.expectedServiceId = body.serviceId ∧
        transition.input.expectedLeaseVersion = body.leaseVersion
  | _ => True

theorem starts_bound (starts : call.Starts) : call.Bound := by
  cases starts with
  | handleRunFail _ _ _ _ bound _ => exact bound
  | handleUpdateRunStatus _ _ _ bound => exact bound
  | handleCompleteRun _ _ bound => exact bound
  | completeRunAtomically _ _ _ bound => exact bound
  | transitionRunTerminalAtomically _ control =>
      intro body writer
      rw [control] at writer
      cases writer
  | updateRunStatusImpl _ _ bound => exact bound
  | _ => trivial

theorem dispatch_bound (delivery : Delivery) (leaseVersion : Nat)
    (continued : delivery.dispatch leaseVersion = .next rest) : rest.Bound := by
  simp only [Delivery.dispatch] at continued
  split at continued <;> cases continued
  case h_1 =>
    intro body writer
    cases writer
  case h_4 =>
    intro body writer
    cases writer
  all_goals trivial

theorem missed_bound (caller : TransitionCaller)
    (continued : caller.missed = .next rest) : rest.Bound := by
  cases caller <;> cases continued <;> trivial

theorem update_next {matched missed : Outcome RunCall RunReply}
    (continued : (ledger.update update matched missed).2 = .next rest) :
    matched = .next rest ∨ missed = .next rest := by
  simp only [RunLedger.update] at continued
  split at continued
  · exact .inl continued
  · exact .inr continued

/-- What a call does next; the ledger is the one its statement finds. -/
inductive RunNext (ledger : RunLedger) : RunCall → RunCall → Prop where
  | claim (delivery : Delivery) :
      RunNext ledger (.recoverStale delivery) (.claim delivery)
  | readLease (delivery : Delivery) :
      RunNext ledger (.claim delivery) (.readLease delivery)
  | dispatched (delivery : Delivery) {rest : RunCall} :
      delivery.dispatch ledger.row.leaseVersion = .next rest →
      RunNext ledger (.readLease delivery) rest
  | freezeModel (delivery : Delivery) :
      RunNext ledger (.readLease delivery)
        (.freezeModel delivery ledger.row.leaseVersion)
  | frozen (delivery : Delivery) (leaseVersion : Nat) {rest : RunCall} :
      delivery.dispatch leaseVersion = .next rest →
      RunNext ledger (.freezeModel delivery leaseVersion) rest
  | resetStaleRunning (staleThreshold epoch : Text) (sent : Bool) :
      RunNext ledger (.selectStale staleThreshold epoch sent)
        (.resetStaleRunning staleThreshold epoch sent)
  | revertToRunning (staleThreshold epoch : Text) (sent : Bool) :
      RunNext ledger (.resetStaleRunning staleThreshold epoch sent)
        (.revertToRunning epoch)
  | resetUnclaimed (staleThreshold recoveryHeartbeat : Text) :
      RunNext ledger (.selectUnclaimed staleThreshold recoveryHeartbeat)
        (.resetUnclaimed staleThreshold recoveryHeartbeat)
  | terminal (body : ExecutorBody) (update : StatusUpdate)
      (completionKey : Text) : update.status.isTerminal = true →
      RunNext ledger (.ensureRunLease body (.updateStatus update completionKey))
        (.readEngineCheckpoint (body.terminal update completionKey)
          (.updateStatus update))
  | readExisting (body : ExecutorBody) (update : StatusUpdate)
      (completionKey : Text) :
      RunNext ledger (.ensureRunLease body (.updateStatus update completionKey))
        (.readExisting body update)
  | readCompletion (body : ExecutorBody) (input : CompleteRunInput) :
      RunNext ledger (.ensureRunLease body (.completeRun input))
        (.readCompletion body input)
  | completeRun (body : ExecutorBody) (input : CompleteRunInput) :
      RunNext ledger (.readCompletion body input)
        (.completeRun body input (some ledger.row.engineCheckpoint))
  | confirmCompletion (body : ExecutorBody) (input : CompleteRunInput)
      (expectedEngineCheckpoint : Option (Option Text)) :
      RunNext ledger (.completeRun body input expectedEngineCheckpoint)
        (.confirmCompletion input)
  | transitionRun (transition : Transition) (caller : TransitionCaller) :
      RunNext ledger (.readEngineCheckpoint transition caller)
        (.transitionRun transition ledger.row.engineCheckpoint caller)
  | unmatched (transition : Transition) (caller : TransitionCaller)
      {rest : RunCall} : caller.missed = .next rest →
      RunNext ledger (.readEngineCheckpoint transition caller) rest
  | missed (transition : Transition) (checkpoint : Option Text)
      (caller : TransitionCaller) {rest : RunCall} :
      caller.missed = .next rest →
      RunNext ledger (.transitionRun transition checkpoint caller) rest
  | cancel (attempts : Nat) (completedAt : Text)
      (completionKey : RunStatus → Text)
      (ongoing : ledger.row.status.isTerminal = false) :
      RunNext ledger (.readCancelled (attempts + 1) completedAt completionKey)
        (.readEngineCheckpoint
          (cancellation ledger.row.status ongoing completedAt
            (completionKey ledger.row.status))
          (.cancel attempts completedAt completionKey))
  | statusUpdate (body : ExecutorBody) (update : StatusUpdate) :
      RunNext ledger (.readExisting body update) (.statusUpdate body update)
  | confirmLease (body : ExecutorBody) (update : StatusUpdate) :
      RunNext ledger (.statusUpdate body update) (.confirmLease update)

theorem statement_next (continued : (call.statement ledger).2 = .next rest) :
    RunNext ledger call rest := by
  cases call with
  | recoverStale delivery =>
      rcases update_next continued with same | same <;> cases same <;>
        exact .claim delivery
  | claim delivery =>
      simp only [RunCall.statement] at continued
      split at continued <;> cases continued
      exact .readLease delivery
  | readLease delivery =>
      simp only [RunCall.statement] at continued
      split at continued
      · split at continued
        · exact .dispatched delivery continued
        · split at continued
          · exact .dispatched delivery continued
          · cases continued
            exact .freezeModel delivery
      · cases continued
  | freezeModel delivery leaseVersion =>
      rcases update_next continued with dispatched | missed
      · exact .frozen delivery leaseVersion dispatched
      · cases missed
  | resetStaleRunning staleThreshold epoch sent =>
      rcases update_next continued with matched | missed
      · cases sent <;> cases matched
        exact .revertToRunning staleThreshold epoch false
      · cases missed
  | selectStale staleThreshold epoch sent =>
      simp only [RunCall.statement] at continued
      split at continued <;> cases continued
      exact .resetStaleRunning staleThreshold epoch sent
  | selectUnclaimed staleThreshold recoveryHeartbeat =>
      simp only [RunCall.statement] at continued
      split at continued <;> cases continued
      exact .resetUnclaimed staleThreshold recoveryHeartbeat
  | ensureRunLease body rpc =>
      cases rpc with
      | updateStatus update completionKey =>
          simp only [RunCall.statement] at continued
          split at continued
          · cases continued
          · split at continued
            · next ended =>
                cases continued
                exact .terminal body update completionKey ended
            · cases continued
              exact .readExisting body update completionKey
      | completeRun input =>
          simp only [RunCall.statement] at continued
          split at continued <;> cases continued
          exact .readCompletion body input
  | readCompletion body input =>
      cases continued
      exact .completeRun body input
  | completeRun body input expectedEngineCheckpoint =>
      rcases update_next continued with matched | missed
      · cases matched
      · cases missed
        exact .confirmCompletion body input expectedEngineCheckpoint
  | confirmCompletion | confirmStatus =>
      simp only [RunCall.statement] at continued
      split at continued <;> cases continued
  | readEngineCheckpoint transition caller =>
      simp only [RunCall.statement] at continued
      split at continued
      · cases continued
      · split at continued
        · cases continued
          exact .transitionRun transition caller
        · exact .unmatched transition caller continued
  | transitionRun transition checkpoint caller =>
      rcases update_next continued with matched | missed
      · cases matched
      · exact .missed transition checkpoint caller missed
  | readCancelled attempts completedAt completionKey =>
      cases attempts with
      | zero => cases continued
      | succ attempts =>
          simp only [RunCall.statement] at continued
          split at continued
          · next ongoing =>
              cases continued
              exact .cancel attempts completedAt completionKey ongoing
          · cases continued
  | readExisting body update =>
      simp only [RunCall.statement] at continued
      split at continued
      · split at continued
        · cases continued
        · split at continued <;> cases continued
          exact .statusUpdate body update
      · cases continued
        exact .statusUpdate body update
  | statusUpdate body update =>
      rcases update_next continued with matched | missed
      · cases matched
      · split at missed <;> cases missed
        exact .confirmLease body update
  | confirmLease update => cases continued
  | _ => rcases update_next continued with same | same <;> cases same

theorem statement_bound (bound : call.Bound)
    (continued : (call.statement ledger).2 = .next rest) : rest.Bound := by
  cases statement_next continued with
  | dispatched delivery dispatched => exact dispatch_bound delivery _ dispatched
  | frozen delivery _ dispatched => exact dispatch_bound delivery _ dispatched
  | terminal body update completionKey _ =>
      intro writer same
      cases same
      exact ⟨rfl, rfl⟩
  | readExisting | readCompletion | completeRun | transitionRun
  | statusUpdate => exact bound
  | unmatched _ caller missed => exact missed_bound caller missed
  | missed _ _ caller missed => exact missed_bound caller missed
  | cancel =>
      intro body writer
      cases writer
  | _ => trivial

theorem update_changed {Result : Type} {matched missed : Result}
    (changed : (ledger.update update matched missed).1.row.status ≠
      ledger.row.status) : update.condition ledger.row = true := by
  by_contra unmatched
  apply changed
  simp only [RunLedger.update, if_neg unmatched]

theorem update_status {Result : Type} (matched missed : Result)
    (condition : update.condition ledger.row = true) :
    (ledger.update update matched missed).1.row.status =
      (update.assign ledger.row).status := by
  simp only [RunLedger.update, if_pos condition]

/-- Only a finishing statement that found the ids of its body in the row writes
a terminal status for an executor. -/
theorem finish_lease {body : ExecutorBody}
    (executor : call.executor = some body) (bound : call.Bound)
    (changed : (call.statement ledger).1.row.status ≠ ledger.row.status)
    (finished : (call.statement ledger).1.row.status.isTerminal = true) :
    call.Finishes ∧ (body.serviceId = none ∨
      ledger.row.hasLease body.serviceId body.leaseVersion = true) := by
  cases call with
  | heartbeat writer serviceId now =>
      have condition := update_changed changed
      exact absurd (update_status _ _ condition) changed
  | runFail writer serviceId error completedAt =>
      cases executor
      have condition := update_changed changed
      simp only [RowUpdate.runFail, Bool.and_eq_true] at condition
      have service : body.serviceId = some serviceId := bound
      rw [service]
      exact ⟨trivial, .inr condition.1⟩
  | runReset writer serviceId =>
      have condition := update_changed changed
      simp only [RunCall.statement, update_status _ _ condition] at finished
      cases finished
  | ensureRunLease writer rpc =>
      exfalso
      apply changed
      cases rpc with
      | updateStatus update completionKey =>
          simp only [RunCall.statement]
          split
          · rfl
          · split <;> rfl
      | completeRun input =>
          simp only [RunCall.statement]
          split <;> rfl
  | readCompletion writer input => exact absurd rfl changed
  | completeRun writer input expectedEngineCheckpoint =>
      cases executor
      have condition := update_changed changed
      simp only [RowUpdate.completeRun, Bool.and_eq_true] at condition
      obtain ⟨service, version⟩ : body.serviceId = some input.serviceId ∧
        body.leaseVersion = some input.leaseVersion := bound
      rw [service, version]
      exact ⟨trivial, .inr condition.1.2⟩
  | readEngineCheckpoint transition caller =>
      exfalso
      apply changed
      simp only [RunCall.statement]
      split
      · rfl
      · split <;> rfl
  | transitionRun transition checkpoint caller =>
      have condition := update_changed changed
      simp only [RowUpdate.transitionRun, TransitionInput.matches,
        Bool.and_eq_true] at condition
      obtain ⟨service, version⟩ := bound body executor
      rw [← service, ← version]
      exact ⟨trivial, .inr condition.1.2⟩
  | readExisting writer update =>
      exfalso
      apply changed
      simp only [RunCall.statement]
      split
      · split
        · rfl
        · split <;> rfl
      · rfl
  | statusUpdate writer update =>
      cases executor
      have condition := update_changed changed
      have written : update.status.isTerminal = true := by
        simp only [RunCall.statement, update_status _ _ condition] at finished
        exact finished
      refine ⟨written, ?_⟩
      simp only [RowUpdate.statusUpdate, Bool.and_eq_true] at condition
      obtain ⟨service, version⟩ : update.From body := bound
      cases carried : body.serviceId with
      | none => exact .inl rfl
      | some serviceId =>
          right
          cases serviceId with
          | nil => exact absurd carried body.service_nonempty
          | cons char rest =>
              have holds := condition.2
              rw [carried] at service
              simp only [StatusUpdate.holds, StatusUpdate.fence, service,
                version] at holds
              exact holds
  | _ => cases executor

/-- The lease fits the ids of the body. -/
def ExecutorBody.Carries (body : ExecutorBody) (lease : Lease) : Prop :=
  ∀ serviceId, body.serviceId = some serviceId →
    serviceId = lease.serviceId ∧
      ∀ version, body.leaseVersion = some version → version = lease.version

/-- No claimed lease fits the ids of the body but that of its token, and a body
without a service id meets a row that has an owner. -/
def ExecutorBody.Identified (body : ExecutorBody) (ledger : RunLedger) : Prop :=
  (body.serviceId = none → ledger.row.serviceId ≠ none) ∧
    ∀ lease ∈ ledger.claims, body.Carries lease → lease = body.holder

/-- The steps that keep the life cycle: `updateRunStatus` does not change a
terminal status, and an executor that finishes the run is identified. -/
def KeepsLifecycle (ledger : RunLedger) (event : Program.Event RunCall)
    (_ : List RunCall) : Prop :=
  match event with
  | .run call =>
    (∀ status error, call = .updateRunStatus status error →
      ledger.row.status.isTerminal = true → status = ledger.row.status) ∧
    ∀ body, call.executor = some body → call.Finishes → body.Identified ledger
  | _ => True

theorem identified_of_both {body : ExecutorBody} {serviceId : Text}
    {version : Nat} (service : body.serviceId = some serviceId)
    (lease : body.leaseVersion = some version) (ledger : RunLedger) :
    body.Identified ledger := by
  constructor
  · intro missing
    rw [service] at missing
    cases missing
  · intro claimed _ carries
    obtain ⟨sameService, sameVersion⟩ := carries serviceId service
    have holderService := body.service_bound serviceId service
    have holderVersion := body.version_bound version lease
    obtain ⟨claimedService, claimedVersion⟩ := claimed
    have versionEq : version = claimedVersion := sameVersion version lease
    have serviceEq : serviceId = claimedService := sameService
    cases holder : body.holder with
    | mk holderId holderNumber =>
        rw [holder] at holderService holderVersion
        have idEq : serviceId = holderId := holderService
        have numberEq : version = holderNumber := holderVersion
        rw [← serviceEq, ← versionEq, ← idEq, ← numberEq]

theorem holder_of_identified {body : ExecutorBody} (owned : ledger.Owned)
    (identified : body.Identified ledger)
    (found : body.serviceId = none ∨
      ledger.row.hasLease body.serviceId body.leaseVersion = true) :
    ledger.row.serviceId = some body.holder.serviceId ∧
      ledger.row.leaseVersion = body.holder.version := by
  obtain ⟨ownerKnown, only⟩ := identified
  obtain ⟨owner, ownerEq, carries⟩ : ∃ owner,
      ledger.row.serviceId = some owner ∧
        body.Carries ⟨owner, ledger.row.leaseVersion⟩ := by
    cases carried : body.serviceId with
    | none =>
        obtain ⟨owner, ownerEq⟩ :=
          Option.ne_none_iff_exists'.mp (ownerKnown carried)
        refine ⟨owner, ownerEq, ?_⟩
        intro serviceId some'
        rw [carried] at some'
        cases some'
    | some serviceId =>
        rcases found with missing | leased
        · rw [carried] at missing
          cases missing
        · rw [carried] at leased
          simp only [RunRow.hasLease, Bool.and_eq_true, Option.all_some,
            decide_eq_true_eq] at leased
          refine ⟨serviceId, leased.1, ?_⟩
          intro other same
          rw [carried] at same
          cases same
          refine ⟨rfl, ?_⟩
          intro version given
          have versionEq := leased.2
          rw [given] at versionEq
          simpa [eq_comm] using versionEq
  have holderEq := only _ (owned owner ownerEq) carries
  rw [← holderEq]
  exact ⟨ownerEq, rfl⟩

def lifecycleAssertions : Program.Assertions RunLedger RunCall RunReply where
  shared := RunLedger.Owned
  call _ call := call.Bound
  result _ _ := True

theorem lifecycle_kept (owned : ledger.Owned) (bound : call.Bound) :
    lifecycleAssertions.Kept runProgram ledger call where
  shared := (statement_effect call ledger).owned owned
  outcome := by
    change lifecycleAssertions.HoldAfter (call.statement ledger).1
      (call.statement ledger).2
    cases reached : (call.statement ledger).2 with
    | next rest => exact statement_bound bound reached
    | done reply => trivial
  others _ kept := kept
  results _ _ := trivial

theorem lifecycle_hold {initial config : Program.Config RunLedger RunCall
      RunReply}
    (run : runProgram.Run KeepsLifecycle initial config)
    (holds : lifecycleAssertions.Hold initial) :
    lifecycleAssertions.Hold config := by
  apply Program.Assertions.hold_of_run _ run holds
  · intro _ call starts
    exact starts_bound starts
  · intro ledger call _ owned bound _
    exact lifecycle_kept owned bound

theorem RunEffect.absorbs (effect : RunEffect call before after)
    (terminal : before.row.status.isTerminal = true)
    (guarded : ∀ status error, call = .updateRunStatus status error →
      before.row.status.isTerminal = true → status = before.row.status) :
    after.row.status = before.row.status := by
  cases effect with
  | same => rfl
  | active update active matched =>
      have ongoing := active.active before.row matched
      rw [terminal] at ongoing
      cases ongoing
  | claimed delivery _ queued =>
      rw [queued] at terminal
      cases terminal
  | unconditional status error same => exact guarded status error same terminal

/-- The row of `later` continues that of `earlier`. -/
structure Continues (earlier later : RunRow) : Prop where
  settled : earlier.status.isTerminal = true → later.status = earlier.status
  version : earlier.leaseVersion ≤ later.leaseVersion

theorem continues_of_run {middle config : Program.Config RunLedger RunCall
      RunReply}
    (run : runProgram.Run KeepsLifecycle middle config) :
    Continues middle.shared.row config.shared.row := by
  let invariant (reached : Program.Config RunLedger RunCall RunReply) : Prop :=
    Continues middle.shared.row reached.shared.row
  have initially : invariant middle := ⟨fun _ => rfl, le_refl _⟩
  apply run.invariant initially
  intro before event others after continues allowed step
  rcases step.shared_cases with ⟨call, _, moved, executed⟩ | ⟨_, same⟩
  · subst moved
    have effect : RunEffect call before.shared after.shared := by
      rw [executed]
      exact statement_effect call before.shared
    constructor
    · intro terminal
      have kept := continues.settled terminal
      have absorbed := effect.absorbs (kept ▸ terminal) allowed.1
      exact absorbed.trans kept
    · exact continues.version.trans effect.version_le
  · have sameRow : after.shared.row = before.shared.row := by rw [same]
    constructor
    · intro terminal
      exact sameRow ▸ continues.settled terminal
    · rw [sameRow]
      exact continues.version

/-- In a run whose steps keep the life cycle, from the creation of the row on: a
terminal status stays and the lease version never falls, whatever follows; a
claim raises the version and takes the row; and an executor that writes a
terminal status holds the row's lease. -/
theorem runRow_lifecycle (model : Option Text) (createdAt : Text)
    (middle config after : Program.Config RunLedger RunCall RunReply)
    (event : Program.Event RunCall) (others : List RunCall)
    (reached : runProgram.Run KeepsLifecycle
      ⟨⟨createPendingRun model createdAt, []⟩, [], []⟩ middle)
    (continued : runProgram.Run KeepsLifecycle middle config)
    (allowed : KeepsLifecycle config.shared event others)
    (step : runProgram.Step config event others after) :
    (middle.shared.row.status.isTerminal = true →
      after.shared.row.status = middle.shared.row.status) ∧
    middle.shared.row.leaseVersion ≤ after.shared.row.leaseVersion ∧
    (∀ delivery, event = .run (.claim delivery) →
      (RowUpdate.claim delivery.serviceId delivery.now).condition
        config.shared.row = true →
      after.shared.row.serviceId = some delivery.serviceId ∧
      config.shared.row.leaseVersion < after.shared.row.leaseVersion) ∧
    ∀ call body, event = .run call → call.executor = some body →
      after.shared.row.status ≠ config.shared.row.status →
      after.shared.row.status.isTerminal = true →
      config.shared.row.serviceId = some body.holder.serviceId ∧
        config.shared.row.leaseVersion = body.holder.version := by
  have continues := continues_of_run (continued.step allowed step)
  refine ⟨continues.settled, continues.version, ?_, ?_⟩
  · intro delivery moved condition
    subst moved
    rcases step.shared_cases with ⟨call, _, same, executed⟩ | ⟨none, _⟩
    · cases same
      have claimed : after.shared.row =
          (RowUpdate.claim delivery.serviceId delivery.now).assign
            config.shared.row := by
        rw [executed]
        simp only [runProgram, RunCall.statement, if_pos condition]
      rw [claimed]
      exact ⟨rfl, Nat.lt_succ_self _⟩
    · exact absurd rfl (none _)
  · intro call body moved executor changed finished
    subst moved
    rcases step.shared_cases with ⟨moving, member, same, executed⟩ | ⟨none, _⟩
    · cases same
      have holds : lifecycleAssertions.Hold config := by
        apply lifecycle_hold continued
        apply lifecycle_hold reached
        exact ⟨by simp [lifecycleAssertions, RunLedger.Owned,
          createPendingRun], by simp, by simp⟩
      obtain ⟨owned, bound, _⟩ := holds
      rw [executed] at changed finished
      obtain ⟨finishes, found⟩ :=
        finish_lease executor (bound call member) changed finished
      exact holder_of_identified owned (allowed.2 body executor finishes) found
    · exact absurd rfl (none _)

namespace ShortRuns

def created : RunRow := createPendingRun (some ['m']) ['0']

def queued : RunRow := { created with status := .queued }

def delivery : Delivery := ⟨['s'], ['0'], ['1'], ['m'], .accepted, [], []⟩

def claimed : RunRow := (RowUpdate.claim ['s'] ['1']).assign queued

def body : ExecutorBody where
  holder := ⟨['s'], 1⟩
  serviceId := some ['s']
  leaseVersion := some 1
  service_bound := by simp
  version_bound := by simp
  service_nonempty := by simp

def failing : RunCall := .runFail body ['s'] ['e'] ['2']

def failed : RunRow :=
  (RowUpdate.runFail ['s'] (some 1) ['e'] ['2']).assign claimed

def cancelled : RunRow :=
  (RowUpdate.transitionRun
    (cancellation .pending rfl ['1'] ['k']).input none).assign created

theorem control_allowed {call : RunCall} {ledger : RunLedger}
    {others : List RunCall} (control : call.executor = none)
    (guarded : ∀ status error, call ≠ .updateRunStatus status error) :
    KeepsLifecycle ledger (.run call) others := by
  refine ⟨fun status error same => absurd same (guarded status error), ?_⟩
  intro body executor
  rw [control] at executor
  cases executor

theorem run_claimed :
    runProgram.Run KeepsLifecycle ⟨⟨created, []⟩, [], []⟩
      ⟨⟨claimed, [⟨['s'], 1⟩]⟩, [failing], [.acked, .done]⟩ := by
  have opened : runProgram.Run KeepsLifecycle ⟨⟨created, []⟩, [], []⟩
      ⟨⟨created, []⟩, [.updateRunStatus .queued none], []⟩ :=
    Program.Run.here.starting _ (.updateRunStatus .queued none) trivial
  have sent : runProgram.Run KeepsLifecycle ⟨⟨created, []⟩, [], []⟩
      ⟨⟨queued, []⟩, [], [.done]⟩ := by
    apply opened.finishing [] [] rfl
    constructor
    · intro status error _ terminal
      cases terminal
    · intro writer executor
      cases executor
  have delivered := sent.starting _ (.delivery delivery) trivial
  have recovered : runProgram.Run KeepsLifecycle ⟨⟨created, []⟩, [], []⟩
      ⟨⟨queued, []⟩, [.claim delivery], [.done]⟩ :=
    delivered.continuing [] [] rfl (control_allowed rfl (by simp))
  have taken : runProgram.Run KeepsLifecycle ⟨⟨created, []⟩, [], []⟩
      ⟨⟨claimed, [⟨['s'], 1⟩]⟩, [.readLease delivery], [.done]⟩ :=
    recovered.continuing [] [] rfl (control_allowed rfl (by simp))
  have dispatched : runProgram.Run KeepsLifecycle ⟨⟨created, []⟩, [], []⟩
      ⟨⟨claimed, [⟨['s'], 1⟩]⟩, [], [.acked, .done]⟩ :=
    taken.finishing [] [] rfl (control_allowed rfl (by simp))
  exact dispatched.starting _
    (.handleRunFail body ['s'] ['e'] ['2'] rfl (by decide)) trivial

end ShortRuns

open ShortRuns in
/-- The executor of the claimed run fails it. -/
theorem runRow_lifecycle_failed :
    claimed.serviceId = some body.holder.serviceId ∧
      claimed.leaseVersion = body.holder.version := by
  have allowed : KeepsLifecycle ⟨claimed, [⟨['s'], 1⟩]⟩ (.run failing) [] := by
    constructor
    · intro status error same
      cases same
    · intro writer executor _
      cases executor
      exact identified_of_both rfl rfl _
  have step : runProgram.Step
      ⟨⟨claimed, [⟨['s'], 1⟩]⟩, [failing], [.acked, .done]⟩ (.run failing) []
      ⟨⟨failed, [⟨['s'], 1⟩]⟩, [], [.updated, .acked, .done]⟩ :=
    @Program.Step.done _ _ _ runProgram _ _ [] [] _ _ _ rfl
  exact (runRow_lifecycle (some ['m']) ['0'] _ _ _ _ _ run_claimed .here allowed
    step).2.2.2 failing body rfl rfl (by decide) rfl

open ShortRuns in
/-- A run cancelled between its creation and the update that queues it is
queued again. -/
theorem updateRunStatus_revives :
    runProgram.Run (fun _ _ _ => True) ⟨⟨created, []⟩, [], []⟩
      ⟨⟨cancelled, []⟩, [.updateRunStatus .queued none], [.committed]⟩ ∧
    cancelled.status = .cancelled ∧
    runProgram.Run (fun _ _ _ => True)
      ⟨⟨cancelled, []⟩, [.updateRunStatus .queued none], [.committed]⟩
      ⟨⟨{ cancelled with status := .queued }, []⟩, [], [.done, .committed]⟩ := by
  refine ⟨?_, rfl, ?_⟩
  · have opened : runProgram.Run (fun _ _ _ => True) ⟨⟨created, []⟩, [], []⟩
        ⟨⟨created, []⟩, [.updateRunStatus .queued none], []⟩ :=
      Program.Run.here.starting _ (.updateRunStatus .queued none) trivial
    have asked := opened.starting _ (.cancel ['1'] fun _ => ['k']) trivial
    have observed := asked.continuing [] _ rfl trivial
    have read := observed.continuing [] _ rfl trivial
    exact read.finishing [] _ rfl trivial
  · exact Program.Run.here.finishing [] [] rfl trivial

end Takos.Runs
