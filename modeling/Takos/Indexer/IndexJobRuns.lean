import Takos.Indexer.IndexJobSteps
import Mathlib.Data.List.Induction

/-!
# Runs over an index job

Completed and failed jobs stay so, and a running claim ends by its own token,
in every run.  Where no step meets one of four races, at most one consumer
works under a fresh claim, only settled or foreign messages are acknowledged,
and a job that is not settled has a message or an outbox row behind it.
-/

namespace Takos.Indexer

open Takos.Foundation Takos.Outboxes

/-- Why a message may be acknowledged: the job is settled, it is another job,
or another delivery owns it. -/
def AckAllowed (job : IndexJob) (body : IndexJobQueueMessage) (token : Nat) :
    Prop :=
  isTerminal job.row.status = true ∨ job.identity ≠ body.identity ∨
    ∃ owner, job.row.claimToken = some owner ∧ owner ≠ token

def AbsorbingStep (state next : IndexerState) : Prop :=
  ∀ job, state.job = some job → isTerminal job.row.status = true →
    ∃ later, next.job = some later ∧ later.row.status = job.row.status

/-- A running claim is ended by a delivery with its token. -/
def HolderStep (state : IndexerState) (event : IndexerEvent)
    (next : IndexerState) : Prop :=
  ∀ job token later, state.job = some job → job.row.status = .running →
    job.row.claimToken = some token → next.job = some later →
    later.row.status ≠ .running →
    (∃ index consumer outcome answered,
      event = .finish index outcome answered ∧
        state.consumers index = some consumer ∧ consumer.token = token) ∨
      ∃ index letter answered, event = .failDead index answered ∧
        state.deadLetters index = some letter ∧
          letter.body.token letter.message = token

def AckStep (state next : IndexerState) : Prop :=
  ∀ id message, state.Live id message → (∀ later, ¬next.Live id later) →
    ∀ job, next.job = some job →
      AckAllowed job message.body (message.body.token id)

/-- At most one consumer handles the job under a claim that is not stale. -/
def OneWorker (latest : Nat) (state : IndexerState) : Prop :=
  ∀ index other consumer another claimedAt later,
    state.consumers index = some consumer →
    state.consumers other = some another →
    consumer.phase = .handling claimedAt → another.phase = .handling later →
    claimIsStale (some claimedAt) latest = false →
    claimIsStale (some later) latest = false → index = other

/-- An unsettled job has a live message, or the outbox can send its row. -/
def Backed (state : IndexerState) : Prop :=
  ∀ job, state.job = some job → isTerminal job.row.status = false →
    (∃ id message, state.Live id message ∧
      message.body.identity = job.identity) ∨
      job.identity.dispatchable = true ∧
        (job.row.status = .queued ∨ job.row.status = .enqueued)

/-- The step meets none of the races. -/
def StepSound (state : IndexerState) : IndexerEvent → Prop
  /- A delivery makes the row only while some message of the job is live. -/
  | .ensure index => ∀ consumer, state.consumers index = some consumer →
      state.job = none → ∃ id message, state.Live id message ∧
        message.body.identity = consumer.body.identity
  /- A claim that succeeds has a live message with its token, and one that
  fails may be acknowledged. -/
  | .claim index _ => ∀ consumer existing job,
      state.consumers index = some consumer →
      consumer.phase = .seen existing → state.job = some job →
      if claimGuard job consumer.body existing consumer.token then
        ∃ id message, state.Live id message ∧
          message.body.identity = job.identity ∧
            message.body.token id = consumer.token
      else AckAllowed job consumer.body consumer.token
  /- A consumer gives back the claim that it has made itself. -/
  | .finish index .retryable _ => ∀ consumer claimedAt job,
      state.consumers index = some consumer →
      consumer.phase = .handling claimedAt → state.job = some job →
      ownsRunning job.row consumer.token = true →
        job.row.claimedAt = some claimedAt
  /- A dead letter that changes nothing may be acknowledged. -/
  | .failDead index true => ∀ letter job,
      state.deadLetters index = some letter → state.job = some job →
      deadGuard job letter = false →
        AckAllowed job letter.body (letter.body.token letter.message)
  | _ => True

def Sound (state : IndexerState) : List IndexerEvent → Prop
  | [] => True
  | event :: rest => StepSound state event ∧ Sound (state.step event) rest

theorem claimIsStale_mono {startedAt : Option Nat} {now later : Nat}
    (order : now ≤ later) (stale : claimIsStale startedAt now = true) :
    claimIsStale startedAt later = true := by
  cases startedAt with
  | none => rfl
  | some started =>
      rw [claimIsStale, Option.all_some] at stale ⊢
      have before : started + INDEX_JOB_CLAIM_STALE_MS < now :=
        of_decide_eq_true stale
      exact decide_eq_true (Nat.lt_of_lt_of_le before order)

variable {row : OutboxRow IndexJobStatus} {body : IndexJobQueueMessage}
  {job : IndexJob} {existing : OutboxRow IndexJobStatus}
  {messages : Nat → Option QueueMessage} {event : IndexerEvent}
  {after : Option IndexJob} {state : IndexerState} {consumer : Consumer}
  {latest : Nat}

theorem ownsRunning_iff {token : Nat} :
    ownsRunning row token = true ↔
      row.status = .running ∧ row.claimToken = some token := by
  simp only [ownsRunning, Bool.and_eq_true, decide_eq_true_eq]

theorem running_not_terminal {status : IndexJobStatus}
    (running : status = .running) : isTerminal status = false := by
  rw [running]
  rfl

theorem choice_acknowledge {token now : Nat}
    (choice : consumerChoice job body token now = .acknowledge) :
    job.identity ≠ body.identity ∨ isTerminal job.row.status = true ∨
      (job.row.status = .running ∧ job.row.claimToken ≠ some token) ∨
      (job.row.claimToken ≠ none ∧ job.row.claimToken ≠ some token) := by
  unfold consumerChoice at choice
  split at choice
  · rename_i differs
    exact .inl differs
  · split at choice
    · rename_i settled
      exact .inr (.inl settled)
    · split at choice
      · rename_i running
        split at choice
        · rename_i foreign
          exact .inr (.inr (.inl ⟨running, foreign⟩))
        · split at choice <;> cases choice
      · split at choice
        · rename_i foreign
          exact .inr (.inr (.inr foreign.2))
        · cases choice

theorem choice_claim {token now : Nat}
    (choice : consumerChoice job body token now = .claim) :
    isTerminal job.row.status = false ∧ (job.row.status = .running →
      claimIsStale job.row.claimedAt now = true) := by
  unfold consumerChoice at choice
  split at choice
  · cases choice
  · split at choice
    · cases choice
    · rename_i unsettled
      refine ⟨Bool.eq_false_iff.mpr unsettled, ?_⟩
      intro running
      rw [if_pos running] at choice
      split at choice
      · cases choice
      · split at choice
        · assumption
        · cases choice

theorem claimGuard_cases {token : Nat}
    (guard : claimGuard job body existing token = true) :
    job.identity = body.identity ∧ job.row.status = existing.status ∧
      (existing.status = .running →
        job.row.claimedAt = existing.claimedAt) := by
  simp only [claimGuard, Bool.and_eq_true, decide_eq_true_eq] at guard
  obtain ⟨identity, prior⟩ := guard
  unfold exactPriorState at prior
  split at prior
  · rename_i running
    simp only [Bool.and_eq_true, decide_eq_true_eq] at prior
    exact ⟨identity, prior.1.1.trans running.symm, fun _ => prior.2⟩
  · rename_i other
    simp only [Bool.and_eq_true, decide_eq_true_eq] at prior
    exact ⟨identity, prior.1, fun running => absurd running other⟩

theorem expects_status {status : IndexJobStatus} {staleBefore : Option Nat}
    (expected : terminalIndexOutbox.expects status staleBefore row = true) :
    row.status = .queued ∨ row.status = .enqueued := by
  unfold OutboxPlan.expects at expected
  split at expected
  · exact .inl (of_decide_eq_true expected)
  · obtain ⟨limit, _, old⟩ := (Option.any_eq_true _ _).mp expected
    rw [Bool.and_eq_true] at old
    exact .inr (of_decide_eq_true old.1)

theorem holds_status {claim : Claim}
    (held : terminalIndexOutbox.holds claim row = true) :
    row.status = .enqueued := by
  simp only [OutboxPlan.holds, Bool.and_eq_true, decide_eq_true_eq] at held
  exact held.1.1

theorem deadGuard_cases {letter : DeadLetter}
    (guard : deadGuard job letter = true) :
    job.row.status = .queued ∨ job.row.status = .enqueued ∨
      ownsRunning job.row (letter.body.token letter.message) = true := by
  simp only [deadGuard, Bool.and_eq_true, Bool.or_eq_true,
    decide_eq_true_eq] at guard
  rcases guard.2 with (queued | enqueued) | ⟨owns, _⟩
  · exact .inl queued
  · exact .inr (.inl enqueued)
  · exact .inr (.inr owns)

theorem ackMessage_self (messages : Nat → Option QueueMessage) (id : Nat)
    {message : QueueMessage} (stored : messages id = some message) :
    IndexerState.ackMessage messages id id =
      some { message with acknowledged := true } := by
  rw [IndexerState.ackMessage, Function.update_self, stored]
  rfl

theorem ackMessage_of_ne (messages : Nat → Option QueueMessage)
    {id other : Nat} (apart : other ≠ id) :
    IndexerState.ackMessage messages id other = messages other :=
  Function.update_of_ne apart _ _

theorem ackMessage_body {id other : Nat} {message : QueueMessage}
    (stored : messages other = some message) :
    ∃ later, IndexerState.ackMessage messages id other = some later ∧
      later.body = message.body := by
  by_cases same : other = id
  · subst same
    exact ⟨_, ackMessage_self messages other stored, rfl⟩
  · rw [ackMessage_of_ne messages same]
    exact ⟨message, stored, rfl⟩

theorem Effect.message {state : IndexerState} {event : IndexerEvent}
    {job : Option IndexJob} {messages : Nat → Option QueueMessage}
    (effect : Effect state event job messages) {id : Nat}
    {message : QueueMessage} (stored : state.messages id = some message) :
    ∃ later, messages id = some later ∧ later.body = message.body := by
  have added : ∀ {other fresh}, state.messages other = none →
      ∃ later, Function.update state.messages other (some fresh) id =
        some later ∧ later.body = message.body := by
    intro other fresh free
    have apart : id ≠ other := by
      intro same
      rw [same, free] at stored
      cases stored
    rw [Function.update_of_ne apart]
    exact ⟨message, stored, rfl⟩
  cases effect with
  | produced other body free => exact added free
  | sent index other token claimedAt reached resolved job phase found free =>
      exact added free
  | deadLettered other current live =>
      by_cases same : id = other
      · subst same
        rw [stored] at live
        cases live
        rw [Function.update_self]
        exact ⟨_, rfl, rfl⟩
      · rw [Function.update_of_ne same]
        exact ⟨message, stored, rfl⟩
  | declined | lost | spared => exact ackMessage_body stored
  | finished | buried =>
      split
      · exact ackMessage_body stored
      · exact ⟨message, stored, rfl⟩
  | quiet | outboxed | ensured | claimed | dispatched | reverted =>
      exact ⟨message, stored, rfl⟩

/-- The writes of a stored job. -/
inductive JobWrite (state : IndexerState) (job : IndexJob) :
    IndexerEvent → OutboxRow IndexJobStatus → Prop where
  | claimed {index now : Nat} {consumer : Consumer}
      {existing : OutboxRow IndexJobStatus}
      (phase : state.consumers index = some consumer)
      (seen : consumer.phase = .seen existing)
      (guard : claimGuard job consumer.body existing consumer.token = true) :
      JobWrite state job (.claim index now)
        ⟨.running, some consumer.token, some now⟩
  | finished {index claimedAt : Nat} {outcome : HandlerOutcome}
      {answered : Bool} {consumer : Consumer}
      (phase : state.consumers index = some consumer)
      (handling : consumer.phase = .handling claimedAt)
      (owns : ownsRunning job.row consumer.token = true) :
      JobWrite state job (.finish index outcome answered)
        (IndexerState.finishedRow job.row outcome).1
  | dispatched {index token now : Nat}
      (waiting : job.row.status = .queued ∨ job.row.status = .enqueued) :
      JobWrite state job (.dispatch index token now)
        ⟨.enqueued, some token, some now⟩
  | reverted {index : Nat} (waiting : job.row.status = .enqueued) :
      JobWrite state job (.revert index) ⟨.queued, none, none⟩
  | buried {index : Nat} {answered : Bool} {letter : DeadLetter}
      (phase : state.deadLetters index = some letter)
      (guard : deadGuard job letter = true) :
      JobWrite state job (.failDead index answered)
        ⟨.failed, none, job.row.claimedAt⟩

theorem Effect.write (effect : Effect state event after messages)
    (stored : state.job = some job) :
    after = some job ∨ ∃ row, after = some { job with row := row } ∧
      JobWrite state job event row := by
  have same : ∀ {other}, state.job = some other → other = job :=
    fun found => Option.some.inj (found.symm.trans stored)
  cases effect with
  | outboxed identity dispatchable missing =>
      exact absurd (missing.symm.trans stored) nofun
  | ensured index consumer phase missing =>
      exact absurd (missing.symm.trans stored) nofun
  | claimed index now consumer existing other phase seen found guard =>
      cases same found
      exact .inr ⟨_, rfl, .claimed phase seen guard⟩
  | finished index claimedAt outcome answered consumer other phase handling
      found owns =>
      cases same found
      exact .inr ⟨_, rfl, .finished phase handling owns⟩
  | dispatched index token now status staleBefore other phase found expected =>
      cases same found
      exact .inr ⟨_, rfl, .dispatched (expects_status expected)⟩
  | reverted index token claimedAt other phase found held =>
      cases same found
      exact .inr ⟨_, rfl, .reverted (holds_status held)⟩
  | buried index answered letter other phase found guard =>
      cases same found
      exact .inr ⟨_, rfl, .buried phase guard⟩
  | quiet | produced | sent | deadLettered | declined | lost | spared =>
      exact .inl stored

theorem Effect.identity (effect : Effect state event after messages)
    (stored : state.job = some job) :
    ∃ later, after = some later ∧ later.identity = job.identity := by
  rcases effect.write stored with same | ⟨row, same, _⟩
  · exact ⟨job, same, rfl⟩
  · exact ⟨_, same, rfl⟩

/-- What the parties remember is true of the messages and of the job. -/
structure PartiesOk (latest : Nat) (state : IndexerState) : Prop where
  seen : ∀ index consumer existing,
    state.consumers index = some consumer →
    consumer.phase = .seen existing →
      isTerminal existing.status = false ∧ (existing.status = .running →
        claimIsStale existing.claimedAt latest = true)
  consumers : ∀ index consumer, state.consumers index = some consumer →
    ∃ message, state.messages consumer.message = some message ∧
      message.body = consumer.body
  letters : ∀ index letter, state.deadLetters index = some letter →
    ∃ message, state.messages letter.message = some message ∧
      message.body = letter.body
  dispatches : ∀ index dispatch, state.dispatches index = some dispatch →
    ∃ job, state.job = some job ∧ job.identity.dispatchable = true

theorem PartiesOk.initial : PartiesOk 0 .empty := by
  refine ⟨?_, ?_, ?_, ?_⟩
  · intro index consumer existing stored
    cases stored
  · intro index consumer stored
    cases stored
  · intro index letter stored
    cases stored
  · intro index dispatch stored
    cases stored

theorem PartiesOk.step {latest : Nat} {state : IndexerState}
    (ok : PartiesOk latest state) (event : IndexerEvent) :
    PartiesOk (max latest event.reading) (state.step event) := by
  have effect := state.effect event
  refine ⟨?_, ?_, ?_, ?_⟩
  · intro index consumer existing found phase
    cases state.consumerEffect event found with
    | kept _ before unfinished =>
        obtain ⟨unsettled, stale⟩ :=
          ok.seen index consumer existing before phase
        refine ⟨unsettled, ?_⟩
        intro running
        exact claimIsStale_mono (Nat.le_max_left _ _) (stale running)
    | delivered | ensured | closed | handling => cases phase
    | seen now before job same stored read choice =>
        cases phase
        obtain ⟨unsettled, stale⟩ := choice_claim choice
        refine ⟨unsettled, ?_⟩
        intro running
        apply claimIsStale_mono _ (stale running)
        rw [same]
        exact Nat.le_max_right _ _
  · intro index consumer found
    have persist : ∀ before : Consumer, state.consumers index = some before →
        ∃ message, (state.step event).messages before.message =
          some message ∧ message.body = before.body := by
      intro before stored
      obtain ⟨message, live, same⟩ := ok.consumers index before stored
      obtain ⟨later, kept, body⟩ := effect.message live
      exact ⟨later, kept, body.trans same⟩
    cases state.consumerEffect event found with
    | kept _ before unfinished => exact persist _ before
    | delivered id message stored => exact effect.message stored
    | ensured before stored => exact persist before stored
    | closed before stored => exact persist before stored
    | seen now before job same stored read choice =>
        exact persist before stored
    | handling now before other job same stored seen read guard written =>
        exact persist before stored
  · intro index letter found
    rcases state.deadLetter_origin event found with before | ⟨message, live, same⟩
    · obtain ⟨message, live, same⟩ := ok.letters index letter before
      obtain ⟨later, kept, body⟩ := effect.message live
      exact ⟨later, kept, body.trans same⟩
    · obtain ⟨later, kept, body⟩ := effect.message live
      exact ⟨later, kept, body.trans same⟩
  · intro index dispatch found
    have kept : ∀ job, state.job = some job →
        job.identity.dispatchable = true →
        ∃ later, (state.step event).job = some later ∧
          later.identity.dispatchable = true := by
      intro job stored dispatchable
      obtain ⟨later, after, same⟩ := effect.identity stored
      exact ⟨later, after, same ▸ dispatchable⟩
    rcases state.dispatch_origin event found with ⟨before, stored⟩ |
        ⟨job, stored, dispatchable⟩
    · obtain ⟨job, known, dispatchable⟩ := ok.dispatches index before stored
      exact kept job known dispatchable
    · exact kept job stored dispatchable

theorem PartiesOk.guard_unsettled (ok : PartiesOk latest state) {index : Nat}
    (phase : state.consumers index = some consumer)
    (seen : consumer.phase = .seen existing)
    (guard : claimGuard job consumer.body existing consumer.token = true) :
    isTerminal job.row.status = false := by
  rw [(claimGuard_cases guard).2.1]
  exact (ok.seen index consumer existing phase seen).1

theorem waiting_not_terminal {status : IndexJobStatus}
    (waiting : status = .queued ∨ status = .enqueued) :
    isTerminal status = false := by
  rcases waiting with rfl | rfl <;> rfl

theorem Effect.settled (effect : Effect state event after messages)
    (ok : PartiesOk latest state) (stored : state.job = some job)
    (settled : isTerminal job.row.status = true) : after = some job := by
  rcases effect.write stored with same | ⟨row, _, write⟩
  · exact same
  · have unsettled : isTerminal job.row.status = false := by
      cases write with
      | claimed phase seen guard => exact ok.guard_unsettled phase seen guard
      | finished phase handling owns =>
          exact running_not_terminal (ownsRunning_iff.mp owns).1
      | dispatched waiting => exact waiting_not_terminal waiting
      | reverted waiting => exact waiting_not_terminal (.inr waiting)
      | buried phase guard =>
          rcases deadGuard_cases guard with queued | enqueued | owns
          · exact waiting_not_terminal (.inl queued)
          · exact waiting_not_terminal (.inr enqueued)
          · exact running_not_terminal (ownsRunning_iff.mp owns).1
    rw [settled] at unsettled
    cases unsettled

theorem absorbingStep (ok : PartiesOk latest state) (event : IndexerEvent) :
    AbsorbingStep state (state.step event) := by
  intro job stored settled
  exact ⟨job, (state.effect event).settled ok stored settled, rfl⟩

theorem Effect.holder (effect : Effect state event after messages)
    {job later : IndexJob} {token : Nat} (stored : state.job = some job)
    (running : job.row.status = .running)
    (held : job.row.claimToken = some token) (found : after = some later)
    (ended : later.row.status ≠ .running) :
    (∃ index consumer outcome answered,
      event = .finish index outcome answered ∧
        state.consumers index = some consumer ∧ consumer.token = token) ∨
      ∃ index letter answered, event = .failDead index answered ∧
        state.deadLetters index = some letter ∧
          letter.body.token letter.message = token := by
  have awake : ¬(job.row.status = .queued ∨ job.row.status = .enqueued) := by
    rw [running]
    rintro (same | same) <;> cases same
  have owner : ∀ {mine}, ownsRunning job.row mine = true → mine = token := by
    intro mine owns
    have same := (ownsRunning_iff.mp owns).2
    rw [held] at same
    exact (Option.some.inj same).symm
  rcases effect.write stored with same | ⟨row, same, write⟩
  · cases found.symm.trans same
    exact absurd running ended
  · cases found.symm.trans same
    cases write with
    | claimed => exact absurd rfl ended
    | finished phase handling owns =>
        exact .inl ⟨_, _, _, _, rfl, phase, owner owns⟩
    | dispatched waiting => exact absurd waiting awake
    | reverted waiting => exact absurd (.inr waiting) awake
    | buried phase guard =>
        rcases deadGuard_cases guard with queued | enqueued | owns
        · exact absurd (.inl queued) awake
        · exact absurd (.inr enqueued) awake
        · exact .inr ⟨_, _, _, rfl, phase, owner owns⟩

theorem holderStep (state : IndexerState) (event : IndexerEvent) :
    HolderStep state event (state.step event) := by
  intro job token later stored running held found ended
  exact (state.effect event).holder stored running held found ended

/-- A fresh claim under which a consumer works is the claim of the row. -/
structure Workers (latest : Nat) (state : IndexerState) : Prop where
  one : OneWorker latest state
  owned : ∀ index consumer claimedAt,
    state.consumers index = some consumer →
    consumer.phase = .handling claimedAt →
    claimIsStale (some claimedAt) latest = false →
      ∃ job, state.job = some job ∧ (isTerminal job.row.status = true ∨
        job.row.status = .running ∧ job.row.claimedAt = some claimedAt)

theorem Workers.initial : Workers 0 .empty := by
  refine ⟨?_, ?_⟩
  · intro index other consumer another claimedAt later stored
    cases stored
  · intro index consumer claimedAt stored
    cases stored

theorem fresh_before {startedAt : Option Nat} {now later : Nat}
    (order : now ≤ later) (fresh : claimIsStale startedAt later = false) :
    claimIsStale startedAt now = false := by
  apply Bool.eq_false_iff.mpr
  intro stale
  rw [claimIsStale_mono order stale] at fresh
  cases fresh

theorem PartiesOk.claim_stale (ok : PartiesOk latest state) {index : Nat}
    (phase : state.consumers index = some consumer)
    (seen : consumer.phase = .seen existing)
    (guard : claimGuard job consumer.body existing consumer.token = true)
    (running : job.row.status = .running) :
    claimIsStale job.row.claimedAt latest = true := by
  obtain ⟨_, status, claimedAt⟩ := claimGuard_cases guard
  have before : existing.status = .running := status.symm.trans running
  rw [claimedAt before]
  exact (ok.seen index consumer existing phase seen).2 before

theorem Effect.owned (effect : Effect state event after messages)
    (ok : PartiesOk latest state) {claimedAt : Nat}
    (stored : state.job = some job)
    (owned : isTerminal job.row.status = true ∨
      job.row.status = .running ∧ job.row.claimedAt = some claimedAt)
    (fresh : claimIsStale (some claimedAt) latest = false)
    (unreleased : ∀ index answered consumer own,
      event = .finish index .retryable answered →
      state.consumers index = some consumer →
      consumer.phase = .handling own →
      ownsRunning job.row consumer.token = true → False) :
    ∃ later, after = some later ∧ (isTerminal later.row.status = true ∨
      later.row.status = .running ∧
        later.row.claimedAt = some claimedAt) := by
  rcases owned with settled | ⟨running, mine⟩
  · exact ⟨job, effect.settled ok stored settled, .inl settled⟩
  have awake : ¬(job.row.status = .queued ∨ job.row.status = .enqueued) := by
    rw [running]
    rintro (same | same) <;> cases same
  rcases effect.write stored with same | ⟨row, same, write⟩
  · exact ⟨job, same, .inr ⟨running, mine⟩⟩
  · refine ⟨_, same, ?_⟩
    cases write with
    | claimed phase seen guard =>
        have stale := ok.claim_stale phase seen guard running
        rw [mine, fresh] at stale
        cases stale
    | @finished index own outcome answered consumer phase handling owns =>
        cases outcome with
        | processed => exact .inl rfl
        | failed => exact .inl rfl
        | retryable =>
            exact (unreleased index answered consumer own rfl phase handling
              owns).elim
    | dispatched waiting => exact absurd waiting awake
    | reverted waiting => exact absurd (.inr waiting) awake
    | buried => exact .inl rfl

theorem handling_origin (state : IndexerState) (event : IndexerEvent)
    {index claimedAt : Nat}
    (found : (state.step event).consumers index = some consumer)
    (handling : consumer.phase = .handling claimedAt) :
    (state.consumers index = some consumer ∧ ∀ outcome answered,
        event ≠ .finish index outcome answered) ∨
      ∃ before existing job, event = .claim index claimedAt ∧
        state.consumers index = some before ∧
        before.phase = .seen existing ∧ state.job = some job ∧
        claimGuard job before.body existing before.token = true ∧
        (state.step event).job = some { job with
          row := ⟨.running, some before.token, some claimedAt⟩ } := by
  cases state.consumerEffect event found with
  | kept _ before unfinished =>
      refine .inl ⟨before, ?_⟩
      intro outcome answered same
      exact unfinished outcome answered same claimedAt handling
  | delivered | ensured | closed | seen => cases handling
  | handling now before existing job same stored seen read guard written =>
      cases handling
      exact .inr ⟨before, existing, job, same, stored, seen, read, guard,
        written⟩

theorem Workers.idle (workers : Workers latest state)
    (ok : PartiesOk latest state) {index other claimedAt : Nat}
    {consumer another : Consumer}
    (phase : state.consumers index = some consumer)
    (seen : consumer.phase = .seen existing) (stored : state.job = some job)
    (guard : claimGuard job consumer.body existing consumer.token = true)
    (found : state.consumers other = some another)
    (handling : another.phase = .handling claimedAt) :
    claimIsStale (some claimedAt) latest = true := by
  by_contra stale
  have fresh := Bool.eq_false_iff.mpr stale
  obtain ⟨same, again, owned⟩ :=
    workers.owned other another claimedAt found handling fresh
  rw [stored] at again
  cases again
  rcases owned with settled | ⟨running, mine⟩
  · rw [ok.guard_unsettled phase seen guard] at settled
    cases settled
  · have old := ok.claim_stale phase seen guard running
    rw [mine, fresh] at old
    cases old

theorem Workers.step {latest : Nat} {state : IndexerState}
    (workers : Workers latest state) (ok : PartiesOk latest state)
    {event : IndexerEvent} (sound : StepSound state event) :
    Workers (max latest event.reading) (state.step event) := by
  have earlier : ∀ {claimedAt}, claimIsStale (some claimedAt)
      (max latest event.reading) = false →
      claimIsStale (some claimedAt) latest = false := by
    intro claimedAt fresh
    exact fresh_before (Nat.le_max_left _ _) fresh
  refine ⟨?_, ?_⟩
  · intro index other consumer another claimedAt later found there handling
      handled fresh young
    rcases handling_origin state event found handling with
        ⟨before, _⟩ | ⟨before, existing, job, same, phase, seen, stored,
          guard, _⟩
    · rcases handling_origin state event there handled with
          ⟨past, _⟩ | ⟨past, existing, job, same, phase, seen, stored, guard,
            _⟩
      · exact workers.one index other consumer another claimedAt later before
          past handling handled (earlier fresh) (earlier young)
      · have stale :=
          workers.idle ok phase seen stored guard before handling
        rw [earlier fresh] at stale
        cases stale
    · rcases handling_origin state event there handled with
          ⟨past, _⟩ | ⟨past, existing, job, again, _⟩
      · have stale := workers.idle ok phase seen stored guard past handled
        rw [earlier young] at stale
        cases stale
      · rw [same] at again
        cases again
        rfl
  · intro index consumer claimedAt found handling fresh
    rcases handling_origin state event found handling with
        ⟨before, unfinished⟩ | ⟨before, existing, job, same, phase, seen,
          stored, guard, written⟩
    · obtain ⟨job, stored, owned⟩ :=
        workers.owned index consumer claimedAt before handling (earlier fresh)
      apply (state.effect event).owned ok stored owned (earlier fresh)
      intro other answered another own same there handled owns
      rw [same] at sound
      have mine := sound another own job there handled stored owns
      rcases owned with settled | ⟨_, held⟩
      · rw [running_not_terminal (ownsRunning_iff.mp owns).1] at settled
        cases settled
      · rw [held] at mine
        cases mine
        have alike := workers.one index other consumer another claimedAt
          claimedAt before there handling handled (earlier fresh)
          (earlier fresh)
        rw [alike] at unfinished
        exact unfinished _ _ same
    · exact ⟨_, written, .inr ⟨rfl, rfl⟩⟩

end Takos.Indexer
