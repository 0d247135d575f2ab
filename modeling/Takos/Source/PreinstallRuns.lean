import Takos.Source.PreinstallJobs

/-!
# Runs of the preinstall passes

As long as a job is claimed only when no other pass is working on it and its
attempts are still those that were read, and no write that reports an error has
taken effect, a pass that writes an outcome holds the current lease of the job,
finished jobs stay as they are and the attempts count the leases.
-/

namespace Takos.Source

open Takos.Foundation

def WorksOn (id : Text) : PreinstallCall → Prop
  | .write _ row _ _ _ => row.1 = id
  | _ => False

/-- What the steps of a run may find: a claim that succeeds finds the attempts
that were read and no other pass at work on the job; an outcome whose write
reports an error was not written. -/
def InTurn (state : PreinstallState) :
    Program.Event PreinstallCall → List PreinstallCall → Prop
  | .run (.claim _ row), others =>
    ∀ job, state.jobs.get? row.1 = some job → claimMatches row job →
      job.attempts = row.2.attempts ∧ ∀ other ∈ others, ¬WorksOn row.1 other
  | .run (.write _ _ _ _ report), _ => report ≠ .lost
  | _, _ => True

def Finished (job : PreinstallJob) : Prop :=
  job.status = .completed ∨ job.status = .failed

def HoldsLease (state : PreinstallState) (pass : Pass) (row : JobRow)
    (lease : Nat) : Prop :=
  lease = state.leases row.1 ∧
    ∃ job, state.jobs.get? row.1 = some job ∧ job.status = .inProgress ∧
      job.lockedAt = some pass.options.timestamp

structure JobStepSound (before : PreinstallState)
    (event : Program.Event PreinstallCall) (after : PreinstallState) :
    Prop where
  absorbing : ∀ id job, before.jobs.get? id = some job → Finished job →
    after.jobs.get? id = some job
  written_by_holder : ∀ pass row lease outcome report,
    event = .run (.write pass row lease outcome report) →
    HoldsLease before pass row lease
  released_by_holder : ∀ id job later, before.jobs.get? id = some job →
    job.status = .inProgress → after.jobs.get? id = some later →
    later.status ≠ .inProgress →
    ∃ pass row lease outcome report,
      event = .run (.write pass row lease outcome report) ∧ row.1 = id

/-- Every lease was counted as an attempt. -/
def AttemptsCounted (state : PreinstallState) : Prop :=
  (∀ id job, state.jobs.get? id = some job →
    job.attempts = state.leases id) ∧
  ∀ id, state.jobs.get? id = none → state.leases id = 0

/-- The rows that a pass selected were not finished. -/
def Pending (pass : Pass) : Prop := ∀ row ∈ pass.rows, ¬Finished row.2

def CallHolds (state : PreinstallState) : PreinstallCall → Prop
  | .claim pass row => Pending pass ∧ ¬Finished row.2
  | .write pass row lease _ _ => Pending pass ∧ HoldsLease state pass row lease
  | .enqueue _ job => EnqueuedJob job
  | _ => True

def assertions :
    Program.Assertions PreinstallState PreinstallCall PreinstallResult where
  shared := AttemptsCounted
  call := CallHolds
  result _ _ := True

def Apart (left right : PreinstallCall) : Prop :=
  ∀ id, WorksOn id left → ¬WorksOn id right

theorem get?_updateJob (jobs : OrderedMap Text PreinstallJob) (id other : Text)
    (columns : PreinstallJob → PreinstallJob) :
    (updateJob jobs id columns).get? other =
      if other = id then (jobs.get? id).map columns else jobs.get? other := by
  unfold updateJob
  cases found : jobs.get? id with
  | none =>
      by_cases same : other = id
      · rw [if_pos same, same]
        exact found
      · rw [if_neg same]
  | some job => exact OrderedMap.get?_set jobs id other _

theorem nextRow_cases (pass : Pass) :
    (∃ result, nextRow pass = .done result) ∨
      ∃ later row, nextRow pass = .next (.claim later row) ∧
        pass.rows = row :: later.rows := by
  unfold nextRow
  split
  · exact .inl ⟨_, rfl⟩
  · rename_i row rows shape
    exact .inr ⟨_, row, rfl, shape⟩

theorem afterFailedWrite_cases (pass : Pass) (row : JobRow) (lease : Nat)
    (outcome : JobOutcome) :
    afterFailedWrite pass row lease outcome = .done .thrown ∨
      ∃ error report, afterFailedWrite pass row lease outcome =
        .next (.write pass row lease (.failed error) report) := by
  cases outcome with
  | paused | completed => exact .inr ⟨_, _, rfl⟩
  | failed error => exact .inl rfl

theorem claim_cases (state : PreinstallState) (pass : Pass) (row : JobRow) :
    statement (.claim pass row) state = (state, nextRow pass) ∨
    ∃ job, state.jobs.get? row.1 = some job ∧ claimMatches row job ∧
      statement (.claim pass row) state =
        (grantLease state pass.options row job,
          .next (.write pass.claimed row (state.leases row.1 + 1)
            (pass.work row.1).outcome (pass.work row.1).report)) := by
  cases found : state.jobs.get? row.1 with
  | none =>
      refine .inl ?_
      simp only [statement, found]
  | some job =>
      by_cases same : claimMatches row job
      · refine .inr ⟨job, rfl, same, ?_⟩
        simp only [statement, found, if_pos same]
      · refine .inl ?_
        simp only [statement, found, if_neg same]

/-- The table after the outcome of a row was written. -/
def writtenState (state : PreinstallState) (pass : Pass) (row : JobRow)
    (outcome : JobOutcome) : PreinstallState :=
  { state with
    jobs := updateJob state.jobs row.1 (writeOutcome pass.options row outcome) }

theorem writeOutcome_attempts (options : PassOptions) (row : JobRow)
    (outcome : JobOutcome) (job : PreinstallJob) :
    (writeOutcome options row outcome job).attempts = job.attempts := by
  cases outcome <;> rfl

theorem requeueColumns_cases (timestamp : Nat) (job : PreinstallJob) :
    (requeueColumns timestamp job).attempts = job.attempts ∧
      (job.status ≠ .blockedByConfig → requeueColumns timestamp job = job) := by
  unfold requeueColumns
  split
  · rename_i blocked
    exact ⟨rfl, fun different => absurd blocked different⟩
  · exact ⟨rfl, fun _ => rfl⟩

variable {state : PreinstallState} {job : PreinstallJob} {pass : Pass}
  {call : PreinstallCall} {others : List PreinstallCall}

theorem granted_counted {options : PassOptions} {row : JobRow}
    (counted : AttemptsCounted state)
    (found : state.jobs.get? row.1 = some job)
    (fresh : job.attempts = row.2.attempts) :
    AttemptsCounted (grantLease state options row job) := by
  obtain ⟨present, absent⟩ := counted
  constructor
  · intro id later read
    change (state.jobs.set row.1 (claimColumns options row job)).get? id =
      some later at read
    change later.attempts = if id = row.1 then state.leases id + 1
      else state.leases id
    rw [OrderedMap.get?_set] at read
    by_cases same : id = row.1
    · rw [if_pos same] at read ⊢
      rw [← Option.some.inj read, same, ← present row.1 job found, fresh]
      rfl
    · rw [if_neg same] at read ⊢
      exact present id later read
  · intro id missing
    change (state.jobs.set row.1 (claimColumns options row job)).get? id =
      none at missing
    change (if id = row.1 then state.leases id + 1 else state.leases id) = 0
    rw [OrderedMap.get?_set] at missing
    by_cases same : id = row.1
    · rw [if_pos same] at missing
      cases missing
    · rw [if_neg same] at missing ⊢
      exact absent id missing

theorem written_counted (pass : Pass) (row : JobRow) (outcome : JobOutcome)
    (counted : AttemptsCounted state) :
    AttemptsCounted (writtenState state pass row outcome) := by
  obtain ⟨present, absent⟩ := counted
  constructor
  · intro id later read
    change (updateJob state.jobs row.1 _).get? id = some later at read
    rw [get?_updateJob] at read
    by_cases same : id = row.1
    · rw [if_pos same] at read
      obtain ⟨job, found, rfl⟩ := Option.map_eq_some_iff.mp read
      rw [writeOutcome_attempts, same]
      exact present row.1 job found
    · rw [if_neg same] at read
      exact present id later read
  · intro id missing
    change (updateJob state.jobs row.1 _).get? id = none at missing
    rw [get?_updateJob] at missing
    by_cases same : id = row.1
    · rw [if_pos same, Option.map_eq_none_iff] at missing
      rw [same]
      exact absent row.1 missing
    · rw [if_neg same] at missing
      exact absent id missing

theorem enqueued_counted {id : Text} (counted : AttemptsCounted state)
    (free : state.jobs.get? id = none) (entered : EnqueuedJob job) :
    AttemptsCounted { state with jobs := state.jobs.set id job } := by
  obtain ⟨present, absent⟩ := counted
  constructor
  · intro other later read
    change (state.jobs.set id job).get? other = some later at read
    rw [OrderedMap.get?_set] at read
    by_cases same : other = id
    · rw [if_pos same] at read
      rw [← Option.some.inj read, entered.2.1, same]
      exact (absent id free).symm
    · rw [if_neg same] at read
      exact present other later read
  · intro other missing
    change (state.jobs.set id job).get? other = none at missing
    rw [OrderedMap.get?_set] at missing
    by_cases same : other = id
    · rw [if_pos same] at missing
      cases missing
    · rw [if_neg same] at missing
      exact absent other missing

theorem requeued_counted (timestamp : Nat) (counted : AttemptsCounted state) :
    AttemptsCounted { state with
      jobs := state.jobs.filterMap fun job =>
        some (requeueColumns timestamp job) } := by
  obtain ⟨present, absent⟩ := counted
  constructor
  · intro id later read
    change (state.jobs.filterMap _).get? id = some later at read
    rw [OrderedMap.get?_filterMap] at read
    obtain ⟨job, found, image⟩ := Option.bind_eq_some_iff.mp read
    rw [← Option.some.inj image, (requeueColumns_cases timestamp job).1]
    exact present id job found
  · intro id missing
    change (state.jobs.filterMap _).get? id = none at missing
    rw [OrderedMap.get?_filterMap] at missing
    cases found : state.jobs.get? id with
    | none => exact absent id found
    | some job =>
        rw [found] at missing
        cases missing

theorem HoldsLease.of_same {before after : PreinstallState} {row : JobRow}
    {lease : Nat} (held : HoldsLease before pass row lease)
    (jobs : after.jobs.get? row.1 = before.jobs.get? row.1)
    (leases : after.leases row.1 = before.leases row.1) :
    HoldsLease after pass row lease := by
  obtain ⟨current, job, found, columns⟩ := held
  exact ⟨current.trans leases.symm, job, jobs.trans found, columns⟩

theorem granted_holds (state : PreinstallState) (pass : Pass) (row : JobRow)
    (job : PreinstallJob) :
    HoldsLease (grantLease state pass.options row job) pass.claimed row
      (state.leases row.1 + 1) := by
  refine ⟨?_, claimColumns pass.options row job, ?_, rfl, rfl⟩
  · exact (if_pos rfl).symm
  · exact OrderedMap.get?_set_self _ _ _

theorem holds_elsewhere {before after : PreinstallState} {id : Text}
    (held : CallHolds before call) (elsewhere : ¬WorksOn id call)
    (jobs : ∀ other, other ≠ id → after.jobs.get? other = before.jobs.get? other)
    (leases : ∀ other, other ≠ id → after.leases other = before.leases other) :
    CallHolds after call := by
  cases call with
  | write pass row lease outcome report =>
      have different : row.1 ≠ id := elsewhere
      exact ⟨held.1, HoldsLease.of_same held.2 (jobs row.1 different)
        (leases row.1 different)⟩
  | enqueue | claim => exact held
  | select | requeueBlocked => exact trivial

theorem granted_elsewhere (state : PreinstallState) (options : PassOptions)
    (row : JobRow) (job : PreinstallJob) (held : CallHolds state call)
    (elsewhere : ¬WorksOn row.1 call) :
    CallHolds (grantLease state options row job) call := by
  apply holds_elsewhere held elsewhere
  · intro other different
    exact OrderedMap.get?_set_of_ne _ different _
  · intro other different
    exact if_neg different

theorem written_elsewhere (state : PreinstallState) (pass : Pass)
    (row : JobRow) (outcome : JobOutcome) (held : CallHolds state call)
    (elsewhere : ¬WorksOn row.1 call) :
    CallHolds (writtenState state pass row outcome) call := by
  apply holds_elsewhere held elsewhere
  · intro other different
    change (updateJob state.jobs row.1 _).get? other = _
    rw [get?_updateJob, if_neg different]
  · intros
    rfl

theorem enqueued_holds {id : Text} (job : PreinstallJob)
    (free : state.jobs.get? id = none) (held : CallHolds state call) :
    CallHolds { state with jobs := state.jobs.set id job } call := by
  have elsewhere : ¬WorksOn id call := by
    intro works
    cases call with
    | write pass row lease outcome report =>
        obtain ⟨_, _, other, found, _⟩ := held
        have same : row.1 = id := works
        rw [same, free] at found
        cases found
    | enqueue | select | claim | requeueBlocked => exact works
  apply holds_elsewhere held elsewhere
  · intro other different
    exact OrderedMap.get?_set_of_ne _ different _
  · intros
    rfl

theorem requeued_holds (timestamp : Nat) (held : CallHolds state call) :
    CallHolds { state with
      jobs := state.jobs.filterMap fun job =>
        some (requeueColumns timestamp job) } call := by
  cases call with
  | write pass row lease outcome report =>
      obtain ⟨pending, current, job, found, working, locked⟩ := held
      have different : job.status ≠ .blockedByConfig := by
        rw [working]
        decide
      refine ⟨pending, current, job, ?_, working, locked⟩
      change (state.jobs.filterMap _).get? row.1 = some job
      rw [OrderedMap.get?_filterMap, found]
      exact congrArg some ((requeueColumns_cases timestamp job).2 different)
  | enqueue | claim => exact held
  | select | requeueBlocked => exact trivial

theorem nextRow_held (pending : Pending pass) :
    assertions.HoldAfter state (nextRow pass) := by
  rcases nextRow_cases pass with
    ⟨result, finished⟩ | ⟨later, row, continued, shape⟩
  · rw [finished]
    exact trivial
  · rw [continued]
    unfold Pending at pending
    rw [shape] at pending
    exact ⟨fun other member => pending other (List.mem_cons_of_mem _ member),
      pending row List.mem_cons_self⟩

theorem openPass_pending (options : PassOptions) (work : Text → JobWork)
    (jobs : OrderedMap Text PreinstallJob) :
    Pending (openPass options work jobs) := by
  intro row member finished
  have dueRow := (List.mem_filter.mp member).2
  unfold due at dueRow
  cases finished with
  | inl completed =>
      rw [completed] at dueRow
      cases dueRow
  | inr failed =>
      rw [failed] at dueRow
      cases dueRow

theorem nextRow_apart {rest : PreinstallCall}
    (continued : nextRow pass = .next rest) (other : PreinstallCall) :
    Apart rest other := by
  rcases nextRow_cases pass with ⟨result, finished⟩ | ⟨later, row, claims, _⟩
  · rw [finished] at continued
    cases continued
  · rw [claims] at continued
    obtain rfl := Outcome.next.inj continued
    intro id works
    cases works

theorem kept_of_executed {state after : PreinstallState}
    {outcome : Outcome PreinstallCall PreinstallResult}
    (executed : statement call state = (after, outcome))
    (counted : AttemptsCounted after)
    (following : assertions.HoldAfter after outcome)
    (elsewhere : ∀ other ∈ others, CallHolds state other → Apart call other →
      CallHolds after other)
    (separate : ∀ rest, outcome = .next rest → ∀ other ∈ others,
      Apart call other → Apart rest other) :
    assertions.KeptAmong preinstall Apart state call others := by
  have stepped : preinstall.statement call state = (after, outcome) := executed
  constructor
  · rw [stepped]
    exact counted
  · rw [stepped]
    exact following
  · intro other member held apart
    rw [stepped]
    exact elsewhere other member held apart
  · intro rest continued other member _ apart
    rw [stepped] at continued
    exact separate rest continued other member apart
  · intros
    trivial

theorem write_kept {row : JobRow} {lease : Nat} {outcome : JobOutcome}
    {report : WriteReport} (others : List PreinstallCall)
    (counted : AttemptsCounted state)
    (held : Pending pass ∧ HoldsLease state pass row lease)
    (known : report ≠ .lost) :
    assertions.KeptAmong preinstall Apart state
      (.write pass row lease outcome report) others := by
  cases report with
  | lost => exact absurd rfl known
  | done =>
      have executed : statement (.write pass row lease outcome .done) state =
          (writtenState state pass row outcome, nextRow
            { pass with
              summary := pass.summary.count pass.options row outcome }) := rfl
      have pending : Pending { pass with
          summary := pass.summary.count pass.options row outcome } := held.1
      apply kept_of_executed executed (written_counted pass row outcome counted)
        (nextRow_held pending)
      · intro other _ otherHeld apart
        exact written_elsewhere state pass row outcome otherHeld
          (apart row.1 rfl)
      · intro rest continued other _ _
        exact nextRow_apart continued other
  | refused =>
      have executed : statement (.write pass row lease outcome .refused) state =
          (state, afterFailedWrite pass row lease outcome) := rfl
      apply kept_of_executed executed counted
      · rcases afterFailedWrite_cases pass row lease outcome with
          thrown | ⟨error, again, caught⟩
        · rw [thrown]
          exact trivial
        · rw [caught]
          exact held
      · intro other _ otherHeld _
        exact otherHeld
      · intro rest continued other _ apart
        rcases afterFailedWrite_cases pass row lease outcome with
          thrown | ⟨error, again, caught⟩
        · rw [thrown] at continued
          cases continued
        · rw [caught] at continued
          obtain rfl := Outcome.next.inj continued
          exact apart

theorem statement_kept (counted : AttemptsCounted state)
    (held : CallHolds state call) (turn : InTurn state (.run call) others) :
    assertions.KeptAmong preinstall Apart state call others := by
  cases call with
  | select options work =>
      have executed : statement (.select options work) state =
          (state, nextRow (openPass options work state.jobs)) := rfl
      apply kept_of_executed executed counted
        (nextRow_held (openPass_pending options work state.jobs))
      · intro other _ otherHeld _
        exact otherHeld
      · intro rest continued other _ _
        exact nextRow_apart continued other
  | claim pass row =>
      rcases claim_cases state pass row with
        executed | ⟨job, found, same, executed⟩
      · apply kept_of_executed executed counted (nextRow_held held.1)
        · intro other _ otherHeld _
          exact otherHeld
        · intro rest continued other _ _
          exact nextRow_apart continued other
      · obtain ⟨fresh, alone⟩ := turn job found same
        apply kept_of_executed executed (granted_counted counted found fresh)
        · exact ⟨held.1, granted_holds state pass row job⟩
        · intro other member otherHeld _
          exact granted_elsewhere state pass.options row job otherHeld
            (alone other member)
        · intro rest continued other member _
          obtain rfl := Outcome.next.inj continued
          intro id works
          have same : row.1 = id := works
          rw [← same]
          exact alone other member
  | write pass row lease outcome report =>
      exact write_kept others counted held turn
  | enqueue id job =>
      cases found : state.jobs.get? id with
      | some present =>
          have executed : statement (.enqueue id job) state =
              (state, .done .enqueued) := by
            simp only [statement, found]
          apply kept_of_executed executed counted trivial
          · intro other _ otherHeld _
            exact otherHeld
          · intro rest continued
            cases continued
      | none =>
          have executed : statement (.enqueue id job) state =
              ({ state with jobs := state.jobs.set id job },
                .done .enqueued) := by
            simp only [statement, found]
          apply kept_of_executed executed (enqueued_counted counted found held)
            trivial
          · intro other _ otherHeld _
            exact enqueued_holds job found otherHeld
          · intro rest continued
            cases continued
  | requeueBlocked timestamp =>
      have executed : statement (.requeueBlocked timestamp) state =
          ({ state with
              jobs := state.jobs.filterMap fun job =>
                some (requeueColumns timestamp job) }, .done .requeued) := rfl
      apply kept_of_executed executed (requeued_counted timestamp counted) trivial
      · intro other _ otherHeld _
        exact requeued_holds timestamp otherHeld
      · intro rest continued
        cases continued

theorem holds_of_run {reached : PreinstallConfig}
    (run : Program.Run preinstall InTurn initial reached) :
    assertions.Hold reached := by
  have empty : assertions.Hold initial := by
    refine ⟨⟨?_, fun _ _ => rfl⟩, ?_, ?_⟩
    · intro id job found
      cases found
    · intro call member
      cases member
    · intro result member
      cases member
  have symmetric : ∀ left right, Apart left right → Apart right left :=
    fun left right apart id works opposite => apart id opposite works
  apply (assertions.hold_of_run_apart symmetric run empty List.Pairwise.nil
    _ _ _).1
  · intro shared call starts
    cases starts with
    | process | requeueBlocked => exact trivial
    | enqueue id entered => exact entered
  · intro call other starts id works
    cases starts <;> cases works
  · intro shared call others counted held turn
    exact statement_kept counted held turn

theorem statement_jobs (held : CallHolds state call) {id : Text}
    (found : state.jobs.get? id = some job)
    (kept : Finished job ∨ job.status = .inProgress) :
    (statement call state).1.jobs.get? id = some job ∨
    job.status = .inProgress ∧
      (WorksOn id call ∨ ∃ later,
        (statement call state).1.jobs.get? id = some later ∧
          later.status = .inProgress) := by
  cases call with
  | select options work => exact .inl found
  | claim pass row =>
      rcases claim_cases state pass row with
        executed | ⟨claimed, read, same, executed⟩
      · rw [executed]
        exact .inl found
      · rw [executed]
        by_cases own : id = row.1
        · rw [own, read] at found
          obtain rfl := Option.some.inj found
          have unfinished : ¬Finished claimed := by
            intro finished
            apply held.2
            unfold Finished at finished ⊢
            rwa [← same.1]
          refine .inr ⟨kept.resolve_left unfinished, .inr
            ⟨claimColumns pass.options row claimed, ?_, rfl⟩⟩
          rw [own]
          exact OrderedMap.get?_set_self _ _ _
        · exact .inl ((OrderedMap.get?_set_of_ne _ own _).trans found)
  | write pass row lease outcome report =>
      by_cases own : row.1 = id
      · obtain ⟨_, _, current, read, working, _⟩ := held
        rw [own, found] at read
        obtain rfl := Option.some.inj read
        exact .inr ⟨working, .inl own⟩
      · have elsewhere : (updateJob state.jobs row.1
            (writeOutcome pass.options row outcome)).get? id = some job := by
          rw [get?_updateJob, if_neg (Ne.symm own)]
          exact found
        cases report with
        | done => exact .inl elsewhere
        | refused => exact .inl found
        | lost => exact .inl elsewhere
  | enqueue other entered =>
      cases present : state.jobs.get? other with
      | some old =>
          simp only [statement, present]
          exact .inl found
      | none =>
          simp only [statement, present]
          have different : id ≠ other := by
            rintro rfl
            rw [found] at present
            cases present
          exact .inl ((OrderedMap.get?_set_of_ne _ different _).trans found)
  | requeueBlocked timestamp =>
      have different : job.status ≠ .blockedByConfig := by
        intro blocked
        rcases kept with (completed | failed) | working
        · rw [blocked] at completed
          cases completed
        · rw [blocked] at failed
          cases failed
        · rw [blocked] at working
          cases working
      left
      change (state.jobs.filterMap _).get? id = some job
      rw [OrderedMap.get?_filterMap, found]
      exact congrArg some ((requeueColumns_cases timestamp job).2 different)

theorem step_sound {before after : PreinstallConfig}
    {event : Program.Event PreinstallCall} (holds : assertions.Hold before)
    (step : preinstall.Step before event others after) :
    JobStepSound before.shared event after.shared := by
  obtain ⟨_, calls, _⟩ := holds
  constructor
  · intro id job found finished
    rcases step.shared_cases with ⟨call, member, rfl, executed⟩ | ⟨_, same⟩
    · rw [executed]
      rcases statement_jobs (calls call member) found (.inl finished) with
        kept | ⟨working, _⟩
      · exact kept
      · unfold Finished at finished
        rw [working] at finished
        rcases finished with completed | failed
        · cases completed
        · cases failed
    · rwa [same]
  · rintro pass row lease outcome report rfl
    rcases step.shared_cases with ⟨call, member, same, _⟩ | ⟨other, _⟩
    · obtain rfl : PreinstallCall.write pass row lease outcome report = call := by
        injection same
      have held : CallHolds before.shared
        (.write pass row lease outcome report) := calls _ member
      exact held.2
    · exact absurd rfl (other _)
  · intro id job later found working read changed
    rcases step.shared_cases with ⟨call, member, rfl, executed⟩ | ⟨_, same⟩
    · rw [executed] at read
      change (statement call before.shared).1.jobs.get? id = some later at read
      rcases statement_jobs (calls call member) found (.inr working) with
        kept | ⟨_, works | ⟨claimed, kept, still⟩⟩
      · rw [kept] at read
        obtain rfl := Option.some.inj read
        exact absurd working changed
      · cases call with
        | write pass row lease outcome report =>
            exact ⟨pass, row, lease, outcome, report, rfl, works⟩
        | select | claim | enqueue | requeueBlocked => cases works
      · rw [kept] at read
        obtain rfl := Option.some.inj read
        exact absurd still changed
    · rw [same, found] at read
      obtain rfl := Option.some.inj read
      exact absurd working changed

/-- In a run whose steps are in turn the attempts count the leases, and every
further step keeps finished jobs and leaves outcomes to the holders of leases. -/
theorem preinstall_in_turn {reached : PreinstallConfig}
    (run : Program.Run preinstall InTurn initial reached) :
    (∀ id job, reached.shared.jobs.get? id = some job →
      job.attempts = reached.shared.leases id) ∧
    ∀ event others after, preinstall.Step reached event others after →
      JobStepSound reached.shared event after.shared := by
  have holds := holds_of_run run
  refine ⟨holds.1.1, ?_⟩
  intro event others after step
  exact step_sound holds step

def newJob : PreinstallJob where
  spaceId := ['s']
  status := .queued
  attempts := 0
  nextAttemptAt := some 0
  lockedAt := none
  lastError := none
  catalogJson := none
  createdAt := 0

def optionsAt (timestamp : Nat) : PassOptions where
  limit := 1
  spaceId := none
  timestamp := timestamp
  maxAttempts := 8
  leaseMs := 1

/-- Work that fails, and work that completes. -/
def failing : Text → JobWork := fun _ => ⟨.failed ⟨.other, []⟩, .done, .done⟩

def completing : Text → JobWork := fun _ => ⟨.completed none, .done, .done⟩

def entered : PreinstallState where
  jobs := OrderedMap.empty.set ['j'] newJob
  leases := fun _ => 0

def firstRow : JobRow := (['j'], newJob)

def firstPass : Pass where
  options := optionsAt 1000
  rows := []
  work := failing
  summary := { scanned := 1 }

def firstClaim : PreinstallCall := .claim firstPass firstRow

def firstWrite : PreinstallCall :=
  .write firstPass.claimed firstRow 1 (.failed ⟨.other, []⟩) .done

def firstLease : PreinstallState :=
  grantLease entered (optionsAt 1000) firstRow newJob

theorem firstClaim_reached :
    Program.Run preinstall InTurn initial
      ⟨entered, [firstClaim], [.enqueued]⟩ := by
  have nothing : Program.Run preinstall InTurn initial initial := .here
  exact nothing.play [.start (.enqueue ['j'] newJob), .run 0,
    .start (.select (optionsAt 1000) failing), .run 0] (by
      repeat' first
        | exact trivial
        | exact .enqueue ['j'] ⟨.inl rfl, rfl, rfl, rfl⟩
        | exact .process _ _
        | apply And.intro)

theorem firstLease_reached :
    Program.Run preinstall InTurn initial
      ⟨firstLease, [firstWrite], [.enqueued]⟩ := by
  apply firstClaim_reached.continuing [] [] rfl
  intro job found _
  obtain rfl := Option.some.inj found
  refine ⟨rfl, ?_⟩
  intro other member
  cases member

theorem preinstall_in_turn_leased :
    (grantLease entered (optionsAt 1000) firstRow newJob).leases ['j'] = 1 ∧
      ∀ id job, firstLease.jobs.get? id = some job →
        job.attempts = firstLease.leases id :=
  ⟨rfl, (preinstall_in_turn firstLease_reached).1⟩

def anyStep : PreinstallState → Program.Event PreinstallCall →
    List PreinstallCall → Prop := fun _ _ _ => True

theorem anyStep_of_turn {reached : PreinstallConfig}
    (run : Program.Run preinstall InTurn initial reached) :
    Program.Run preinstall anyStep initial reached :=
  run.mono fun _ _ _ _ => trivial

/-- Some step of a run overwrites a completed job although another pass was
granted the lease since, and in some run two leases count as one attempt. -/
theorem preinstall_out_of_turn :
    (∃ before after others,
      Program.Run preinstall anyStep initial before ∧
      preinstall.Step before (.run firstWrite) others after ∧
      (before.shared.jobs.get? ['j']).map (·.status) = some .completed ∧
      before.shared.leases ['j'] = 2 ∧
      (after.shared.jobs.get? ['j']).map (·.status) = some .queued) ∧
    ∃ reached, Program.Run preinstall anyStep initial reached ∧
      (reached.shared.jobs.get? ['j']).map (·.attempts) = some 1 ∧
      reached.shared.leases ['j'] = 2 := by
  constructor
  · have completed := (anyStep_of_turn firstLease_reached).play
      [.start (.select (optionsAt 2000) completing), .run 0, .run 0, .run 0]
      ⟨⟨.process _ _, trivial⟩, trivial, trivial, trivial, trivial⟩
    exact ⟨_, _, _, completed,
      @Program.Step.done _ _ _ preinstall _ _ [] [] _ _ _ rfl, rfl, rfl, rfl⟩
  · have requeued := (anyStep_of_turn firstClaim_reached).play
      [.start (.select (optionsAt 2000) failing), .run 0, .run 0, .run 0, .run 0]
      ⟨⟨.process _ _, trivial⟩, trivial, trivial, trivial, trivial, trivial⟩
    exact ⟨_, requeued, rfl, rfl⟩

end Takos.Source
