import Takos.Outboxes.OutboxDispatch
import Mathlib.Data.List.Induction

/-!
# Runs of dispatchers

What one step does to a row is said once.  Over whole runs a finished row stays
finished, a row leaves the outbox behind a hand-off, a claim is touched by its
holder or by a taker of an old claim, and an old claim can be taken.
-/

namespace Takos.Outboxes

variable {Status Answer Outside : Type}

namespace OutboxState

@[simp]
theorem setAttempt_rows (state : OutboxState Status) (attempt : Nat)
    (value : Attempt Status) :
    (state.setAttempt attempt value).rows = state.rows := rfl

theorem setRow_self (state : OutboxState Status) (row : Nat)
    (value : Option (OutboxRow Status)) :
    (state.setRow row value).rows row = value :=
  Function.update_self _ _ _

theorem setRow_of_ne (state : OutboxState Status) {row other : Nat}
    (apart : other ≠ row) (value : Option (OutboxRow Status)) :
    (state.setRow row value).rows other = state.rows other :=
  Function.update_of_ne apart _ _

theorem setAttempt_self (state : OutboxState Status) (attempt : Nat)
    (value : Attempt Status) :
    (state.setAttempt attempt value).attempts attempt = some value :=
  Function.update_self _ _ _

theorem updateWhere_frame (state : OutboxState Status) (row : Nat)
    (guard : OutboxRow Status → Bool)
    (write : OutboxRow Status → OutboxRow Status) :
    (state.updateWhere row guard write).attempts = state.attempts ∧
      (state.updateWhere row guard write).nextToken = state.nextToken ∧
      (state.updateWhere row guard write).handed = state.handed := by
  unfold updateWhere
  split
  · split <;> exact ⟨rfl, rfl, rfl⟩
  · exact ⟨rfl, rfl, rfl⟩

theorem updateWhere_cases (state : OutboxState Status) (row other : Nat)
    (guard : OutboxRow Status → Bool)
    (write : OutboxRow Status → OutboxRow Status)
    {before : OutboxRow Status} (stored : state.rows other = some before) :
    (state.updateWhere row guard write).rows other = some before ∨
      other = row ∧ guard before = true ∧
        (state.updateWhere row guard write).rows other =
          some (write before) := by
  by_cases same : other = row
  · subst same
    unfold updateWhere
    rw [stored]
    dsimp only
    by_cases allowed : guard before = true
    · rw [if_pos allowed, setRow_self]
      exact .inr ⟨rfl, allowed, rfl⟩
    · rw [if_neg allowed]
      exact .inl stored
  · apply Or.inl
    unfold updateWhere
    split
    · split
      · rw [setRow_of_ne state same]
        exact stored
      · exact stored
    · exact stored

/-- Tokens are new, one dispatcher has each, and an accepted hand-off is on
record. -/
structure ClaimsOk (state : OutboxState Status) : Prop where
  fresh : ∀ attempt claim, state.Carries attempt claim →
    claim.token < state.nextToken
  unique : ∀ attempt other claim another, state.Carries attempt claim →
    state.Carries other another → claim.token = another.token →
      attempt = other
  handed : ∀ attempt claim,
    state.attempts attempt = some (.accepted claim) →
      ∃ verdict, verdict ≠ .failed ∧ (claim, verdict) ∈ state.handed

theorem ClaimsOk.initial : ClaimsOk (empty : OutboxState Status) := by
  refine ⟨?_, ?_, ?_⟩
  · intro attempt claim carries
    cases carries
  · intro attempt other claim another carries
    cases carries
  · intro attempt claim phase
    cases phase

variable {state later : OutboxState Status}

theorem ClaimsOk.goOn (ok : ClaimsOk state) (attempt : Nat)
    {value : Attempt Status}
    (attempts : later.attempts =
      Function.update state.attempts attempt (some value))
    (tokens : later.nextToken = state.nextToken)
    (kept : ∀ claim, value.claim? = some claim → state.Carries attempt claim)
    (recorded : state.handed ⊆ later.handed)
    (accepted : ∀ claim, value = .accepted claim →
      ∃ verdict, verdict ≠ .failed ∧ (claim, verdict) ∈ later.handed) :
    ClaimsOk later := by
  have before : ∀ other claim, later.Carries other claim →
      state.Carries other claim := by
    intro other claim carries
    unfold Carries at carries
    rw [attempts] at carries
    by_cases same : other = attempt
    · subst same
      rw [Function.update_self] at carries
      exact kept claim carries
    · rw [Function.update_of_ne same] at carries
      exact carries
  refine ⟨?_, ?_, ?_⟩
  · intro other claim carries
    rw [tokens]
    exact ok.fresh other claim (before other claim carries)
  · intro one other claim another first second same
    exact ok.unique one other claim another (before one claim first)
      (before other another second) same
  · intro other claim phase
    rw [attempts] at phase
    by_cases same : other = attempt
    · subst same
      rw [Function.update_self] at phase
      exact accepted claim (Option.some.inj phase)
    · rw [Function.update_of_ne same] at phase
      obtain ⟨verdict, fine, old⟩ := ok.handed other claim phase
      exact ⟨verdict, fine, recorded old⟩

theorem ClaimsOk.giveUp (ok : ClaimsOk state) (attempt : Nat)
    (attempts : later.attempts =
      Function.update state.attempts attempt (some .closed))
    (tokens : later.nextToken = state.nextToken)
    (handed : later.handed = state.handed) : ClaimsOk later := by
  refine ok.goOn attempt attempts tokens ?_ ?_ ?_
  · intro claim carries
    cases carries
  · rw [handed]
    exact List.Subset.refl _
  · intro claim same
    cases same

theorem ClaimsOk.sameAttempts (ok : ClaimsOk state)
    (attempts : later.attempts = state.attempts)
    (tokens : later.nextToken = state.nextToken)
    (handed : later.handed = state.handed) : ClaimsOk later := by
  obtain ⟨rows, before, next, old⟩ := state
  obtain ⟨laterRows, after, laterNext, new⟩ := later
  cases attempts
  cases tokens
  cases handed
  exact ⟨ok.fresh, ok.unique, ok.handed⟩

end OutboxState

variable [DecidableEq Status] (plan : OutboxPlan Status Answer Outside)

/-- The cases of a step for a stored row. -/
inductive RowStep (state : OutboxState Status)
    (event : OutboxEvent Answer Outside) (row : Nat)
    (before : OutboxRow Status) : Option (OutboxRow Status) → Prop where
  | kept : RowStep state event row before (some before)
  | claimed (attempt now : Nat) (status : Status) (staleBefore : Option Nat)
      (same : event = .claim attempt now)
      (phase : state.attempts attempt =
        some (.selected row status staleBefore true))
      (expected : plan.expects status staleBefore before = true) :
      RowStep state event row before
        (some ⟨plan.claimed, some state.nextToken, some now⟩)
  | unsendable (attempt now : Nat) (status : Status)
      (staleBefore : Option Nat) (mark : OutboxRow Status → OutboxRow Status)
      (same : event = .claim attempt now)
      (phase : state.attempts attempt =
        some (.selected row status staleBefore false))
      (marks : plan.unsendable = some mark) :
      RowStep state event row before (some (mark before))
  | finalized (attempt : Nat) (claim : Claim)
      (write : OutboxRow Status → OutboxRow Status)
      (same : event = .finalize attempt ∨ event = .finalizeFails attempt true)
      (phase : state.attempts attempt = some (.accepted claim))
      (owned : claim.row = row) (writes : plan.finalized = some write)
      (held : plan.holds claim before = true) :
      RowStep state event row before (some (write before))
  | reverted (attempt : Nat) (claim : Claim) (same : event = .revert attempt)
      (phase : state.attempts attempt = some (.failed claim))
      (owned : claim.row = row) (held : plan.holds claim before = true) :
      RowStep state event row before (some ⟨plan.queued, none, none⟩)
  | outside (write : Outside) (same : event = .outside row write) :
      RowStep state event row before (plan.outside write (some before))

namespace OutboxState

theorem rowStep (state : OutboxState Status)
    (event : OutboxEvent Answer Outside) {row : Nat}
    {before : OutboxRow Status} (stored : state.rows row = some before) :
    RowStep plan state event row before ((state.step plan event).rows row) := by
  have kept : ∀ {later : OutboxState Status}, later.rows = state.rows →
      RowStep plan state event row before (later.rows row) := by
    intro later same
    rw [same, stored]
    exact .kept
  cases event with
  | insert other =>
      dsimp only [step]
      split
      · exact kept rfl
      · rename_i missing
        by_cases same : row = other
        · rw [← same, stored] at missing
          cases missing
        · rw [setRow_of_ne state same, stored]
          exact .kept
  | select | handoff =>
      dsimp only [step]
      split
      · split <;> exact kept rfl
      · exact kept rfl
  | claim attempt now =>
      dsimp only [step]
      split
      · rename_i other status staleBefore phase
        unfold claimRow
        split
        · rename_i current found
          split
          · rename_i expected
            by_cases same : row = other
            · subst same
              rw [stored] at found
              cases found
              show RowStep plan state _ row before
                ((state.setRow row _).rows row)
              rw [setRow_self]
              exact .claimed attempt now status staleBefore rfl phase expected
            · show RowStep plan state _ row before
                ((state.setRow other _).rows row)
              rw [setRow_of_ne state same, stored]
              exact .kept
          · exact kept rfl
        · exact kept rfl
      · rename_i other status staleBefore phase
        split
        · rename_i mark marks
          rw [setAttempt_rows]
          rcases state.updateWhere_cases other row (fun _ => true) mark
            stored with same | ⟨same, _, written⟩
          · rw [same]
            exact .kept
          · subst same
            rw [written]
            exact .unsendable attempt now status staleBefore mark rfl phase
              marks
        · exact kept rfl
      · exact kept rfl
  | finalize attempt =>
      dsimp only [step]
      split
      · rename_i claim write phase writes
        rw [setAttempt_rows]
        rcases state.updateWhere_cases claim.row row (plan.holds claim) write
          stored with same | ⟨same, held, written⟩
        · rw [same]
          exact .kept
        · rw [written]
          exact .finalized attempt claim write (.inl rfl) phase same.symm
            writes held
      · exact kept rfl
  | finalizeFails attempt applied =>
      dsimp only [step]
      split
      · rename_i claim write phase writes
        rw [setAttempt_rows]
        cases applied with
        | false => exact kept rfl
        | true =>
            rw [if_pos rfl]
            rcases state.updateWhere_cases claim.row row (plan.holds claim)
              write stored with same | ⟨same, held, written⟩
            · rw [same]
              exact .kept
            · rw [written]
              exact .finalized attempt claim write (.inr rfl) phase same.symm
                writes held
      · exact kept rfl
  | revert attempt =>
      dsimp only [step]
      split
      · rename_i claim phase
        rw [setAttempt_rows]
        rcases state.updateWhere_cases claim.row row (plan.holds claim)
          (fun _ => ⟨plan.queued, none, none⟩) stored with
            same | ⟨same, held, written⟩
        · rw [same]
          exact .kept
        · rw [written]
          exact .reverted attempt claim rfl phase same.symm held
      · exact kept rfl
  | crash attempt =>
      dsimp only [step]
      split <;> exact kept rfl
  | outside other write =>
      dsimp only [step]
      by_cases same : row = other
      · subst same
        rw [setRow_self, stored]
        exact .outside write rfl
      · rw [setRow_of_ne state same, stored]
        exact .kept

theorem ClaimsOk.claimRow {state : OutboxState Status} (ok : ClaimsOk state)
    (attempt row : Nat) (status : Status) (staleBefore : Option Nat)
    (now : Nat) :
    ClaimsOk (state.claimRow plan attempt row status staleBefore now) := by
  have lost : ClaimsOk (state.setAttempt attempt .closed) :=
    ok.giveUp _ rfl rfl rfl
  unfold OutboxState.claimRow
  split
  · split
    · -- the new claim has the next token
      have before : ∀ other claim,
          (Function.update state.attempts attempt
            (some (.claimed ⟨row, state.nextToken, now⟩)) other).bind
              Attempt.claim? = some claim →
          other = attempt ∧ claim.token = state.nextToken ∨
            other ≠ attempt ∧ state.Carries other claim := by
        intro other claim carries
        by_cases same : other = attempt
        · subst same
          rw [Function.update_self] at carries
          cases carries
          exact .inl ⟨rfl, rfl⟩
        · rw [Function.update_of_ne same] at carries
          exact .inr ⟨same, carries⟩
      refine ⟨?_, ?_, ?_⟩
      · intro other claim carries
        show claim.token < state.nextToken + 1
        rcases before other claim carries with ⟨_, new⟩ | ⟨_, old⟩
        · omega
        · have fresh := ok.fresh other claim old
          omega
      · intro one other claim another first second same
        rcases before one claim first with ⟨here, new⟩ | ⟨_, old⟩
        · rcases before other another second with ⟨there, _⟩ | ⟨_, older⟩
          · exact here.trans there.symm
          · have fresh := ok.fresh other another older
            omega
        · rcases before other another second with ⟨_, new⟩ | ⟨_, older⟩
          · have fresh := ok.fresh one claim old
            omega
          · exact ok.unique one other claim another old older same
      · intro other claim phase
        by_cases same : other = attempt
        · subst same
          have here : Function.update state.attempts other
              (some (.claimed ⟨row, state.nextToken, now⟩)) other =
                some (.accepted claim) := phase
          rw [Function.update_self] at here
          cases here
        · have there : Function.update state.attempts attempt
              (some (.claimed ⟨row, state.nextToken, now⟩)) other =
                some (.accepted claim) := phase
          rw [Function.update_of_ne same] at there
          exact ok.handed other claim there
    · exact lost
  · exact lost

theorem ClaimsOk.step {state : OutboxState Status} (ok : ClaimsOk state)
    (event : OutboxEvent Answer Outside) : ClaimsOk (state.step plan event) := by
  have closed : ∀ attempt, ClaimsOk (state.setAttempt attempt .closed) :=
    fun _ => ok.giveUp _ rfl rfl rfl
  have written : ∀ attempt row guard write,
      ClaimsOk ((state.updateWhere row guard write).setAttempt attempt
        .closed) := by
    intro attempt row guard write
    obtain ⟨attempts, tokens, handed⟩ :=
      state.updateWhere_frame row guard write
    apply ok.giveUp attempt
    · show Function.update _ _ _ = _
      rw [attempts]
    · exact tokens
    · exact handed
  cases event with
  | insert row =>
      dsimp only [OutboxState.step]
      split
      · exact ok
      · exact ok.sameAttempts rfl rfl rfl
  | select attempt row staleBefore sendable =>
      dsimp only [OutboxState.step]
      split
      · split
        · refine ok.goOn attempt rfl rfl ?_ ?_ ?_
          · intro claim carries
            cases carries
          · exact List.Subset.refl _
          · intro claim same
            cases same
        · exact ok
      · exact ok
  | claim attempt now =>
      dsimp only [OutboxState.step]
      split
      · exact ok.claimRow plan attempt _ _ _ now
      · split
        · exact written attempt _ _ _
        · exact closed attempt
      · exact ok
  | handoff attempt answer =>
      dsimp only [OutboxState.step]
      split
      · rename_i claim phase
        have carries : state.Carries attempt claim := by
          rw [Carries, phase]
          rfl
        split
        · refine ok.goOn attempt rfl rfl ?_ ?_ ?_
          · intro other same
            cases same
            exact carries
          · exact List.Subset.refl _
          · intro other same
            cases same
        · rename_i fine
          refine ok.goOn attempt rfl rfl ?_ ?_ ?_
          · intro other same
            split at same
            · cases same
              exact carries
            · cases same
          · exact List.subset_cons_self _ _
          · intro other same
            split at same
            · cases same
              exact ⟨_, fine, List.mem_cons_self⟩
            · cases same
      · exact ok
  | finalize attempt =>
      dsimp only [OutboxState.step]
      split
      · exact written attempt _ _ _
      · exact ok
  | finalizeFails attempt applied =>
      dsimp only [OutboxState.step]
      split
      · rename_i claim write phase writes
        have carries : state.Carries attempt claim := by
          rw [Carries, phase]
          rfl
        have frame : ∀ middle : OutboxState Status,
            middle.attempts = state.attempts →
            middle.nextToken = state.nextToken →
            middle.handed = state.handed →
            ClaimsOk (middle.setAttempt attempt
              (if plan.revertsAfterError = true then .failed claim
                else .closed)) := by
          intro middle attempts tokens handed
          apply ok.goOn attempt
          · show Function.update middle.attempts _ _ = _
            rw [attempts]
          · exact tokens
          · intro other same
            split at same
            · cases same
              exact carries
            · cases same
          · show state.handed ⊆ middle.handed
            rw [handed]
            exact List.Subset.refl _
          · intro other same
            split at same
            · cases same
            · cases same
        split
        · obtain ⟨attempts, tokens, handed⟩ :=
            state.updateWhere_frame claim.row (plan.holds claim) write
          exact frame _ attempts tokens handed
        · exact frame state rfl rfl rfl
      · exact ok
  | revert attempt =>
      dsimp only [OutboxState.step]
      split
      · exact written attempt _ _ _
      · exact ok
  | crash attempt =>
      dsimp only [OutboxState.step]
      split
      · exact closed attempt
      · exact ok
  | outside row write =>
      exact ok.sameAttempts rfl rfl rfl

theorem after_append (events : List (OutboxEvent Answer Outside))
    (event : OutboxEvent Answer Outside) :
    after plan (events ++ [event]) = (after plan events).step plan event := by
  rw [after, List.foldl_append]
  rfl

theorem claimsOk_after (events : List (OutboxEvent Answer Outside)) :
    ClaimsOk (after plan events) := by
  induction events using List.reverseRecOn with
  | nil => exact ClaimsOk.initial
  | append_singleton events event ih =>
      rw [after_append]
      exact ih.step plan event

end OutboxState

/-- The facts about a dispatcher's statuses that its laws rest on. -/
structure PlanOk (finished : Status → Bool) : Prop where
  claimed_ne_queued : plan.claimed ≠ plan.queued
  recoverable_claimed : plan.recoverable plan.claimed = true
  finished_queued : finished plan.queued = false
  finished_recoverable : ∀ status, plan.recoverable status = true →
    finished status = false
  unsendable_finished : ∀ mark, plan.unsendable = some mark → ∀ row,
    finished row.status = true → (mark row).status = row.status
  outside_finished : ∀ write row, finished row.status = true →
    ∃ later, plan.outside write (some row) = some later ∧
      later.status = row.status

/-- A row that waits for its hand-off or for the end of it. -/
def OutboxPlan.Waiting (row : OutboxRow Status) : Prop :=
  row.status = plan.queued ∨ row.status = plan.claimed

/-- A dispatcher that has no row to send marks it without a claim. -/
def MarksUnsendable (state : OutboxState Status)
    (event : OutboxEvent Answer Outside) (row : Nat) : Prop :=
  plan.unsendable.isSome = true ∧ ∃ attempt now status staleBefore,
    event = .claim attempt now ∧
      state.attempts attempt = some (.selected row status staleBefore false)

structure OutboxLaws (finished : Status → Bool) : Prop where
  /-- A finished row is never reopened. -/
  absorbing : ∀ events event row before,
    (OutboxState.after plan events).rows row = some before →
    finished before.status = true →
    ∃ later, (OutboxState.after plan (events ++ [event])).rows row =
      some later ∧ later.status = before.status
  /-- A row stops waiting behind a hand-off that did not fail. -/
  leaves : ∀ events event row before later,
    (OutboxState.after plan events).rows row = some before →
    (OutboxState.after plan (events ++ [event])).rows row = some later →
    plan.Waiting before → ¬plan.Waiting later →
    (∃ claim verdict, claim.row = row ∧ plan.holds claim before = true ∧
      verdict ≠ .failed ∧
        (claim, verdict) ∈ (OutboxState.after plan events).handed) ∨
      MarksUnsendable plan (OutboxState.after plan events) event row ∨
        ∃ write, event = .outside row write
  /-- A claim is ended by the one dispatcher that holds exactly this claim, or
  taken over when it is old. -/
  ends : ∀ events event row before token,
    (OutboxState.after plan events).rows row = some before →
    before.status = plan.claimed → before.claimToken = some token →
    (OutboxState.after plan (events ++ [event])).rows row ≠ some before →
    (∃ attempt claim, event.attempt = some attempt ∧
      (OutboxState.after plan events).Carries attempt claim ∧
      claim.row = row ∧ claim.token = token ∧
      before.claimedAt = some claim.claimedAt ∧
      ∀ other another, (OutboxState.after plan events).Carries other another →
        another.token = token → other = attempt) ∨
      (∃ attempt now status staleBefore, event = .claim attempt now ∧
        (OutboxState.after plan events).attempts attempt =
          some (.selected row status (some staleBefore) true) ∧
        isStale before staleBefore = true) ∨
      MarksUnsendable plan (OutboxState.after plan events) event row ∨
        ∃ write, event = .outside row write
  /-- A row with an old claim can be taken by a new dispatcher. -/
  taken : ∀ events row before staleBefore attempt now,
    (OutboxState.after plan events).rows row = some before →
    plan.recoverable before.status = true →
    isStale before staleBefore = true →
    (OutboxState.after plan events).attempts attempt = none →
    let later := OutboxState.after plan
      (events ++ [.select attempt row (some staleBefore) true] ++
        [.claim attempt now])
    ∃ token, later.rows row = some ⟨plan.claimed, some token, some now⟩ ∧
      later.attempts attempt = some (.claimed ⟨row, token, now⟩)

variable {plan}

variable {row : OutboxRow Status} {finished : Status → Bool}
  {after : Option (OutboxRow Status)} {before : OutboxRow Status}
  {state : OutboxState Status} {event : OutboxEvent Answer Outside}

theorem holds_iff {claim : Claim} :
    plan.holds claim row = true ↔ row.status = plan.claimed ∧
      row.claimToken = some claim.token ∧
        row.claimedAt = some claim.claimedAt := by
  simp only [OutboxPlan.holds, Bool.and_eq_true, decide_eq_true_eq, and_assoc]

theorem expects_cases {status : Status} {staleBefore : Option Nat}
    (expected : plan.expects status staleBefore row = true) :
    row.status = plan.queued ∨ ∃ limit, staleBefore = some limit ∧
      plan.recoverable row.status = true ∧ isStale row limit = true := by
  unfold OutboxPlan.expects at expected
  split at expected
  · exact .inl (of_decide_eq_true expected)
  · obtain ⟨limit, given, old⟩ :=
      (Option.any_eq_true _ _).mp expected
    rw [Bool.and_eq_true] at old
    exact .inr ⟨limit, given, old.1, old.2⟩

omit [DecidableEq Status] in
theorem PlanOk.finished_claimed (ok : PlanOk plan finished) :
    finished plan.claimed = false :=
  ok.finished_recoverable _ ok.recoverable_claimed

theorem PlanOk.finished_expects (ok : PlanOk plan finished) {status : Status}
    {staleBefore : Option Nat}
    (expected : plan.expects status staleBefore row = true) :
    finished row.status = false := by
  rcases expects_cases expected with queued | ⟨limit, _, old, _⟩
  · rw [queued]
    exact ok.finished_queued
  · exact ok.finished_recoverable _ old

theorem PlanOk.finished_holds (ok : PlanOk plan finished) {claim : Claim}
    (held : plan.holds claim row = true) : finished row.status = false := by
  rw [(holds_iff.mp held).1]
  exact ok.finished_claimed

theorem PlanOk.absorbing (ok : PlanOk plan finished) {row : Nat}
    (step : RowStep plan state event row before after)
    (done : finished before.status = true) :
    ∃ later, after = some later ∧ later.status = before.status := by
  cases step with
  | kept => exact ⟨before, rfl, rfl⟩
  | claimed attempt now status staleBefore same phase expected =>
      rw [ok.finished_expects expected] at done
      cases done
  | unsendable attempt now status staleBefore mark same phase marks =>
      exact ⟨_, rfl, ok.unsendable_finished mark marks before done⟩
  | finalized attempt claim write same phase owned writes held =>
      rw [ok.finished_holds held] at done
      cases done
  | reverted attempt claim same phase owned held =>
      rw [ok.finished_holds held] at done
      cases done
  | outside write same =>
      exact ok.outside_finished write before done

theorem rowStep_leaves (claims : state.ClaimsOk) {row : Nat}
    {before later : OutboxRow Status}
    (step : RowStep plan state event row before after)
    (found : after = some later) (waiting : plan.Waiting before)
    (left : ¬plan.Waiting later) :
    (∃ claim verdict, claim.row = row ∧ plan.holds claim before = true ∧
      verdict ≠ .failed ∧ (claim, verdict) ∈ state.handed) ∨
      MarksUnsendable plan state event row ∨
        ∃ write, event = .outside row write := by
  cases step with
  | kept =>
      cases found
      exact absurd waiting left
  | claimed attempt now status staleBefore same phase expected =>
      cases found
      exact absurd (.inr rfl) left
  | unsendable attempt now status staleBefore mark same phase marks =>
      refine .inr (.inl ⟨?_, attempt, now, status, staleBefore, same, phase⟩)
      rw [marks]
      rfl
  | finalized attempt claim write same phase owned writes held =>
      obtain ⟨verdict, fine, recorded⟩ := claims.handed attempt claim phase
      exact .inl ⟨claim, verdict, owned, held, fine, recorded⟩
  | reverted attempt claim same phase owned held =>
      cases found
      exact absurd (.inl rfl) left
  | outside write same => exact .inr (.inr ⟨write, same⟩)

theorem rowStep_ends (apart : plan.claimed ≠ plan.queued)
    (claims : state.ClaimsOk) {row : Nat}
    (step : RowStep plan state event row before after)
    (status : before.status = plan.claimed) {token : Nat}
    (owner : before.claimToken = some token) (changed : after ≠ some before) :
    (∃ attempt claim, event.attempt = some attempt ∧
      state.Carries attempt claim ∧ claim.row = row ∧ claim.token = token ∧
      before.claimedAt = some claim.claimedAt ∧
      ∀ other another, state.Carries other another →
        another.token = token → other = attempt) ∨
      (∃ attempt now status staleBefore, event = .claim attempt now ∧
        state.attempts attempt =
          some (.selected row status (some staleBefore) true) ∧
        isStale before staleBefore = true) ∨
      MarksUnsendable plan state event row ∨
        ∃ write, event = .outside row write := by
  have holder : ∀ attempt claim, event.attempt = some attempt →
      state.Carries attempt claim → claim.row = row →
      plan.holds claim before = true →
      ∃ attempt claim, event.attempt = some attempt ∧
        state.Carries attempt claim ∧ claim.row = row ∧
        claim.token = token ∧ before.claimedAt = some claim.claimedAt ∧
        ∀ other another, state.Carries other another →
          another.token = token → other = attempt := by
    intro attempt claim actor carries owned held
    obtain ⟨_, same, time⟩ := holds_iff.mp held
    rw [owner] at same
    have tokens : claim.token = token := (Option.some.inj same).symm
    refine ⟨attempt, claim, actor, carries, owned, tokens, time, ?_⟩
    intro other another second equal
    exact claims.unique other attempt another claim second carries
      (equal.trans tokens.symm)
  cases step with
  | kept => exact absurd rfl changed
  | claimed attempt now expected staleBefore same phase found =>
      rcases expects_cases found with queued | ⟨limit, given, _, old⟩
      · exact absurd (status.symm.trans queued) apart
      · subst given
        exact .inr (.inl ⟨attempt, now, expected, limit, same, phase, old⟩)
  | unsendable attempt now expected staleBefore mark same phase marks =>
      refine .inr (.inr (.inl
        ⟨?_, attempt, now, expected, staleBefore, same, phase⟩))
      rw [marks]
      rfl
  | finalized attempt claim write same phase owned writes held =>
      apply Or.inl
      apply holder attempt claim _ _ owned held
      · rcases same with same | same
        · rw [same]
          rfl
        · rw [same]
          rfl
      · rw [OutboxState.Carries, phase]
        rfl
  | reverted attempt claim same phase owned held =>
      apply Or.inl
      apply holder attempt claim _ _ owned held
      · rw [same]
        rfl
      · rw [OutboxState.Carries, phase]
        rfl
  | outside write same => exact .inr (.inr (.inr ⟨write, same⟩))

theorem select_claim_taken (state : OutboxState Status) {row : Nat}
    (stored : state.rows row = some before)
    (old : plan.recoverable before.status = true) {staleBefore : Nat}
    (stale : isStale before staleBefore = true) {attempt : Nat}
    (fresh : state.attempts attempt = none) (now : Nat) :
    let later := (state.step plan
      (.select attempt row (some staleBefore) true)).step plan
        (.claim attempt now)
    ∃ token, later.rows row = some ⟨plan.claimed, some token, some now⟩ ∧
      later.attempts attempt = some (.claimed ⟨row, token, now⟩) := by
  have selects : plan.selects (some staleBefore) before = true := by
    unfold OutboxPlan.selects
    rw [Option.any_some, old, stale, Bool.and_true, Bool.or_true]
  have selected : state.step plan
      (.select attempt row (some staleBefore) true) =
        state.setAttempt attempt
          (.selected row before.status (some staleBefore) true) := by
    simp only [OutboxState.step, fresh, stored, selects, if_true]
  have expected : plan.expects before.status (some staleBefore) before =
      true := by
    unfold OutboxPlan.expects
    split
    · rename_i same
      exact decide_eq_true same
    · rw [Option.any_some, old, stale, Bool.and_true]
  rw [selected]
  dsimp only [OutboxState.step]
  rw [OutboxState.setAttempt_self]
  dsimp only [OutboxState.claimRow]
  rw [OutboxState.setAttempt_rows, stored]
  dsimp only
  rw [if_pos expected]
  exact ⟨state.nextToken, Function.update_self _ _ _,
    Function.update_self _ _ _⟩

theorem outboxLaws (ok : PlanOk plan finished) : OutboxLaws plan finished := by
  refine ⟨?_, ?_, ?_, ?_⟩
  · intro events event row before stored done
    rw [OutboxState.after_append]
    exact ok.absorbing (OutboxState.rowStep plan _ event stored) done
  · intro events event row before later stored found waiting left
    rw [OutboxState.after_append] at found
    exact rowStep_leaves (OutboxState.claimsOk_after plan events)
      (OutboxState.rowStep plan _ event stored) found waiting left
  · intro events event row before token stored status owner changed
    rw [OutboxState.after_append] at changed
    exact rowStep_ends ok.claimed_ne_queued
      (OutboxState.claimsOk_after plan events)
      (OutboxState.rowStep plan _ event stored) status owner changed
  · intro events row before staleBefore attempt now stored old stale fresh
    dsimp only
    rw [OutboxState.after_append, OutboxState.after_append]
    exact select_claim_taken _ stored old stale fresh now

theorem terminalIndexOutbox_ok : PlanOk terminalIndexOutbox fun status =>
    status ≠ .queued && status ≠ .enqueued := by
  refine ⟨by decide, rfl, rfl, ?_, ?_, ?_⟩
  · intro status old
    cases status <;> first | rfl | cases old
  · intro mark marks
    cases marks
  · intro write
    cases write

theorem runNotificationOutbox_ok :
    PlanOk runNotificationOutbox fun status => status = .done := by
  refine ⟨by decide, rfl, rfl, ?_, ?_, ?_⟩
  · intro status old
    cases status <;> first | rfl | cases old
  · intro mark marks
    cases marks
  · intro write
    cases write

theorem notificationPushOutbox_ok :
    PlanOk notificationPushOutbox fun status => status = .done := by
  refine ⟨by decide, rfl, rfl, ?_, ?_, ?_⟩
  · intro status old
    cases status <;> first | rfl | cases old
  · intro mark marks row done
    cases marks
    exact (of_decide_eq_true done).symm
  · intro write row done
    have isDone := of_decide_eq_true done
    cases write with
    | insertEnqueued enqueuedAt => exact ⟨row, rfl, rfl⟩
    | recordEnqueued | reopenFromDlq =>
        refine ⟨row, ?_, rfl⟩
        exact if_neg fun other => other isDone
    | markDone => exact ⟨_, rfl, isDone.symm⟩

namespace UnneededHandoffs

def unnoticed : List (OutboxEvent (Option CreateNotificationResult) Empty) :=
  [.insert 0, .select 0 0 none true, .claim 0 5,
    .handoff 0 (some ⟨false, .notRequested⟩)]

/-- One dispatcher selects the row with its recipient, another without. -/
def orphaned : List (OutboxEvent Bool PushWrite) :=
  [.insert 0, .select 0 0 none true, .select 1 0 none false, .claim 0 5]

end UnneededHandoffs

end Takos.Outboxes
