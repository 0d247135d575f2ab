import Takos.Indexer.IndexJobRuns

/-!
# What stands behind an index job

Only messages that have nothing to do with the job are acknowledged, and a job
that is not settled keeps a live message or an outbox row, as long as no step
meets a race.  The last part loses a job by a race of two messages.
-/

namespace Takos.Indexer

open Takos.Foundation Takos.Outboxes

/-- A running job has the live message of its claim; another unsettled job can
be sent by the outbox, or is free and has a live message. -/
structure Standing (messages : Nat → Option QueueMessage) (job : IndexJob) :
    Prop where
  running : job.row.status = .running → ∃ id message,
    messages id = some message ∧ message.acknowledged = false ∧
      message.body.identity = job.identity ∧
      job.row.claimToken = some (message.body.token id)
  waiting : job.row.status ≠ .running →
    isTerminal job.row.status = false →
    job.identity.dispatchable = true ∨
      job.row.claimToken = none ∧ ∃ id message,
        messages id = some message ∧ message.acknowledged = false ∧
          message.body.identity = job.identity

def Backing (state : IndexerState) : Prop :=
  ∀ job, state.job = some job → Standing state.messages job

theorem Backing.initial : Backing .empty := by
  intro job stored
  cases stored

variable {messages : Nat → Option QueueMessage} {state : IndexerState}
  {event : IndexerEvent} {latest : Nat}

theorem Standing.settled {job : IndexJob}
    (settled : isTerminal job.row.status = true) : Standing messages job := by
  refine ⟨?_, ?_⟩
  · intro running
    rw [running_not_terminal running] at settled
    cases settled
  · intro _ unsettled
    rw [settled] at unsettled
    cases unsettled

theorem Standing.dispatchable {job : IndexJob}
    (dispatchable : job.identity.dispatchable = true)
    (waiting : job.row.status ≠ .running) : Standing messages job :=
  ⟨fun running => absurd running waiting, fun _ _ => .inl dispatchable⟩

theorem unsettled_cases {status : IndexJobStatus}
    (unsettled : isTerminal status = false) :
    status = .running ∨ status = .queued ∨ status = .enqueued := by
  cases status with
  | queued => exact .inr (.inl rfl)
  | enqueued => exact .inr (.inr rfl)
  | running => exact .inl rfl
  | completed | failed => cases unsettled

theorem Backing.backed (backing : Backing state) : Backed state := by
  intro job stored unsettled
  obtain ⟨running, waiting⟩ := backing job stored
  by_cases active : job.row.status = .running
  · obtain ⟨id, message, live, unread, same, _⟩ := running active
    exact .inl ⟨id, message, ⟨live, unread⟩, same⟩
  · rcases waiting active unsettled with
      dispatchable | ⟨_, id, message, live, unread, same⟩
    · refine .inr ⟨dispatchable, ?_⟩
      rcases unsettled_cases unsettled with same | rest
      · exact absurd same active
      · exact rest
    · exact .inl ⟨id, message, ⟨live, unread⟩, same⟩

theorem ackMessage_live {id other : Nat} {message : QueueMessage}
    (stored : messages other = some message)
    (unread : message.acknowledged = false)
    (gone : ∀ later, IndexerState.ackMessage messages id other = some later →
      later.acknowledged = true) : other = id := by
  by_contra apart
  rw [ackMessage_of_ne messages apart] at gone
  have read := gone message stored
  rw [unread] at read
  cases read

theorem message_of_ack {id other : Nat} {message : QueueMessage}
    {body : IndexJobQueueMessage}
    (stored : state.messages other = some message)
    (unread : message.acknowledged = false)
    (gone : ∀ later,
      IndexerState.ackMessage state.messages id other = some later →
        later.acknowledged = true)
    (known : ∃ current, state.messages id = some current ∧
      current.body = body) : message.body = body ∧ other = id := by
  have same := ackMessage_live stored unread gone
  subst same
  obtain ⟨current, found, alike⟩ := known
  rw [stored] at found
  cases found
  exact ⟨alike, rfl⟩

theorem Standing.token {job : IndexJob} (standing : Standing messages job)
    (running : job.row.status = .running) :
    ∃ owner, job.row.claimToken = some owner := by
  obtain ⟨id, message, _, _, _, held⟩ := standing.running running
  exact ⟨_, held⟩

theorem ackAllowed_of_choice {job : IndexJob} {body : IndexJobQueueMessage}
    {token now : Nat} (standing : Standing messages job)
    (choice : consumerChoice job body token now = .acknowledge) :
    AckAllowed job body token := by
  rcases choice_acknowledge choice with differs | settled |
      ⟨running, foreign⟩ | ⟨present, foreign⟩
  · exact .inr (.inl differs)
  · exact .inl settled
  · obtain ⟨owner, held⟩ := standing.token running
    refine .inr (.inr ⟨owner, held, ?_⟩)
    intro same
    rw [held, same] at foreign
    exact foreign rfl
  · obtain ⟨owner, held⟩ := Option.ne_none_iff_exists'.mp present
    refine .inr (.inr ⟨owner, held, ?_⟩)
    intro same
    rw [held, same] at foreign
    exact foreign rfl

theorem Effect.acked {after : Option IndexJob}
    (effect : Effect state event after messages) (ok : PartiesOk latest state)
    (backing : Backing state) (sound : StepSound state event) {id : Nat}
    {message : QueueMessage} (stored : state.messages id = some message)
    (unread : message.acknowledged = false)
    (gone : ∀ later, messages id = some later → later.acknowledged = true)
    {job : IndexJob} (found : after = some job) :
    AckAllowed job message.body (message.body.token id) := by
  have unchanged : (∀ later, state.messages id = some later →
      later.acknowledged = true) →
      AckAllowed job message.body (message.body.token id) := by
    intro read
    have same := read message stored
    rw [unread] at same
    cases same
  have added : ∀ {other fresh}, state.messages other = none →
      (∀ later, Function.update state.messages other (some fresh) id =
        some later → later.acknowledged = true) →
      AckAllowed job message.body (message.body.token id) := by
    intro other fresh free read
    have apart : id ≠ other := by
      intro same
      rw [same, free] at stored
      cases stored
    rw [Function.update_of_ne apart] at read
    exact unchanged read
  cases effect with
  | produced other body free => exact added free gone
  | sent index other token claimedAt reached resolved job phase known free =>
      exact added free gone
  | deadLettered other current live =>
      by_cases same : id = other
      · subst same
        rw [stored] at live
        cases live
        rw [Function.update_self] at gone
        have read := gone _ rfl
        rw [unread] at read
        cases read
      · rw [Function.update_of_ne same] at gone
        exact unchanged gone
  | declined index now consumer other phase known choice =>
      obtain ⟨body, same⟩ := message_of_ack stored unread gone
        (ok.consumers index consumer phase)
      rw [known] at found
      cases found
      rw [body, same]
      exact ackAllowed_of_choice (backing _ known) choice
  | lost index now consumer existing phase seen guard =>
      obtain ⟨body, same⟩ := message_of_ack stored unread gone
        (ok.consumers index consumer phase)
      have allowed := sound consumer existing job phase seen found
      rw [guard job found] at allowed
      rw [body, same]
      exact allowed
  | finished index claimedAt outcome answered consumer other phase handling
      known owns =>
      cases found
      cases outcome with
      | processed | failed => exact .inl rfl
      | retryable => exact unchanged gone
  | buried index answered letter other phase known guard =>
      cases found
      exact .inl rfl
  | spared index letter phase guard =>
      obtain ⟨body, same⟩ := message_of_ack stored unread gone
        (ok.letters index letter phase)
      rw [body, same]
      exact sound letter job phase found (guard job found)
  | quiet | outboxed | ensured | claimed | dispatched | reverted =>
      exact unchanged gone

theorem Effect.live {after : Option IndexJob}
    (effect : Effect state event after messages) (ok : PartiesOk latest state)
    (backing : Backing state) (sound : StepSound state event) {id : Nat}
    {message : QueueMessage} (stored : state.messages id = some message)
    (unread : message.acknowledged = false) {job : IndexJob}
    (found : after = some job)
    (needed : ¬AckAllowed job message.body (message.body.token id)) :
    ∃ later, messages id = some later ∧ later.acknowledged = false ∧
      later.body = message.body := by
  obtain ⟨later, kept, body⟩ := effect.message stored
  refine ⟨later, kept, ?_, body⟩
  by_contra read
  apply needed
  apply effect.acked ok backing sound stored unread _ found
  intro other again
  rw [kept] at again
  cases again
  exact eq_true_of_ne_false read

theorem ackStep (ok : PartiesOk latest state) (backing : Backing state)
    (sound : StepSound state event) : AckStep state (state.step event) := by
  intro id message live gone job found
  apply (state.effect event).acked ok backing sound live.1 live.2 _ found
  intro later kept
  by_contra unread
  exact gone later ⟨kept, Bool.eq_false_iff.mpr unread⟩

theorem Effect.kept {after : Option IndexJob}
    (effect : Effect state event after messages) (ok : PartiesOk latest state)
    (backing : Backing state) (sound : StepSound state event)
    (same : after = state.job) {job : IndexJob} (found : after = some job) :
    Standing messages job := by
  obtain ⟨running, waiting⟩ := backing job (same ▸ found)
  refine ⟨?_, ?_⟩
  · intro active
    obtain ⟨id, message, stored, unread, identity, held⟩ := running active
    have needed : ¬AckAllowed job message.body (message.body.token id) := by
      rintro (settled | differs | ⟨owner, token, foreign⟩)
      · rw [running_not_terminal active] at settled
        cases settled
      · exact differs identity.symm
      · rw [held] at token
        exact foreign (Option.some.inj token).symm
    obtain ⟨later, kept, fresh, body⟩ :=
      effect.live ok backing sound stored unread found needed
    refine ⟨id, later, kept, fresh, ?_, ?_⟩
    · rw [body]
      exact identity
    · rw [body]
      exact held
  · intro inactive unsettled
    rcases waiting inactive unsettled with
      dispatchable | ⟨free, id, message, stored, unread, identity⟩
    · exact .inl dispatchable
    · have needed : ¬AckAllowed job message.body (message.body.token id) := by
        rintro (settled | differs | ⟨owner, token, _⟩)
        · rw [unsettled] at settled
          cases settled
        · exact differs identity.symm
        · rw [free] at token
          cases token
      obtain ⟨later, kept, fresh, body⟩ :=
        effect.live ok backing sound stored unread found needed
      refine .inr ⟨free, id, later, kept, fresh, ?_⟩
      rw [body]
      exact identity

theorem Effect.standing {after : Option IndexJob}
    (effect : Effect state event after messages) (ok : PartiesOk latest state)
    (backing : Backing state) (sound : StepSound state event) {job : IndexJob}
    (found : after = some job) : Standing messages job := by
  have unwritten : after = state.job → Standing messages job := by
    intro same
    exact effect.kept ok backing sound same found
  have sendable : ∀ {index dispatch other}, state.job = some other →
      state.dispatches index = some dispatch →
      other.identity.dispatchable = true := by
    intro index dispatch other stored phase
    obtain ⟨current, known, dispatchable⟩ :=
      ok.dispatches index dispatch phase
    rw [stored] at known
    cases known
    exact dispatchable
  cases effect with
  | outboxed identity dispatchable missing =>
      cases found
      exact .dispatchable dispatchable IndexJobStatus.noConfusion
  | ensured index consumer phase missing =>
      cases found
      obtain ⟨id, message, ⟨stored, unread⟩, same⟩ :=
        sound consumer phase missing
      refine ⟨fun running => IndexJobStatus.noConfusion running, ?_⟩
      intro _ _
      exact .inr ⟨rfl, id, message, stored, unread, same⟩
  | claimed index now consumer existing other phase seen stored guard =>
      cases found
      have live := sound consumer existing other phase seen stored
      rw [if_pos guard] at live
      obtain ⟨id, message, ⟨stored, unread⟩, same, token⟩ := live
      refine ⟨?_, fun inactive => absurd rfl inactive⟩
      intro _
      refine ⟨id, message, stored, unread, same, ?_⟩
      rw [token]
  | finished index claimedAt outcome answered consumer other phase handling
      stored owns =>
      cases found
      cases outcome with
      | processed | failed => exact .settled rfl
      | retryable =>
          obtain ⟨id, message, live, unread, same, _⟩ :=
            (backing other stored).running (ownsRunning_iff.mp owns).1
          refine ⟨fun running => IndexJobStatus.noConfusion running, ?_⟩
          intro _ _
          exact .inr ⟨rfl, id, message, live, unread, same⟩
  | dispatched index token now status staleBefore other phase stored
      expected =>
      have dispatchable := sendable stored phase
      cases found
      exact .dispatchable dispatchable IndexJobStatus.noConfusion
  | reverted index token claimedAt other phase stored held =>
      have dispatchable := sendable stored phase
      cases found
      exact .dispatchable dispatchable IndexJobStatus.noConfusion
  | buried index answered letter other phase stored guard =>
      cases found
      exact .settled rfl
  | quiet | produced | sent | deadLettered | declined | lost | spared =>
      exact unwritten rfl

/-- The invariant of a run without races. -/
structure JobInvariant (latest : Nat) (state : IndexerState) : Prop where
  parties : PartiesOk latest state
  workers : Workers latest state
  backing : Backing state

theorem JobInvariant.initial : JobInvariant 0 .empty :=
  ⟨.initial, .initial, .initial⟩

theorem JobInvariant.step {latest : Nat} {state : IndexerState}
    (invariant : JobInvariant latest state) {event : IndexerEvent}
    (sound : StepSound state event) :
    JobInvariant (max latest event.reading) (state.step event) := by
  obtain ⟨parties, workers, backing⟩ := invariant
  refine ⟨parties.step event, workers.step parties sound, ?_⟩
  intro job found
  exact (state.effect event).standing parties backing sound found

theorem JobInvariant.run {latest : Nat} {state : IndexerState}
    (invariant : JobInvariant latest state) (events : List IndexerEvent)
    (sound : Sound state events) :
    JobInvariant
      (events.foldl (fun latest event => max latest event.reading) latest)
      (events.foldl IndexerState.step state) := by
  induction events generalizing latest state with
  | nil => exact invariant
  | cons event rest hypothesis =>
      exact hypothesis (invariant.step sound.1) sound.2

theorem Sound.split {state : IndexerState} {before after : List IndexerEvent}
    (sound : Sound state (before ++ after)) :
    Sound state before ∧ Sound (before.foldl IndexerState.step state) after := by
  induction before generalizing state with
  | nil => exact ⟨trivial, sound⟩
  | cons event rest hypothesis =>
      obtain ⟨first, others⟩ := sound
      obtain ⟨left, right⟩ := hypothesis others
      exact ⟨⟨first, left⟩, right⟩

theorem JobInvariant.after {events : List IndexerEvent}
    (sound : Sound .empty events) :
    JobInvariant (latestReading events) (IndexerState.after events) :=
  JobInvariant.initial.run events sound

/-- In a run that meets no race, settled jobs stay settled, a running claim
ends by its own token, only messages that the job does not need are
acknowledged, one consumer at most works under a fresh claim, and an unsettled
job has a live message or can be sent by the outbox. -/
theorem index_job_safe (before after : List IndexerEvent)
    (sound : Sound .empty (before ++ after)) :
    (∀ event rest, after = event :: rest →
      AbsorbingStep (IndexerState.after before)
          ((IndexerState.after before).step event) ∧
        HolderStep (IndexerState.after before) event
          ((IndexerState.after before).step event) ∧
        AckStep (IndexerState.after before)
          ((IndexerState.after before).step event)) ∧
      OneWorker (latestReading before) (IndexerState.after before) ∧
      Backed (IndexerState.after before) := by
  obtain ⟨past, future⟩ := sound.split
  obtain ⟨parties, workers, backing⟩ := JobInvariant.after past
  refine ⟨?_, workers.one, backing.backed⟩
  intro event rest next
  rw [next] at future
  exact ⟨absorbingStep parties event, holderStep _ event,
    ackStep parties backing future.1⟩

namespace OneDelivery

def identity : JobIdentity := ⟨['s'], .vectorize, some ['t']⟩

def events : List IndexerEvent :=
  [.produce 0 ⟨identity, none⟩, .deliver 0 0, .ensure 0, .look 0 5,
    .claim 0 6, .finish 0 .processed true]

def message : QueueMessage := ⟨⟨identity, none⟩, false, false⟩

theorem events_sound : Sound .empty events := by
  refine ⟨trivial, trivial, ?_, trivial, ?_, trivial, trivial⟩
  · intro consumer found _
    have known : some consumer = some ⟨0, ⟨identity, none⟩, .received⟩ :=
      found.symm
    cases known
    exact ⟨0, message, ⟨rfl, rfl⟩, rfl⟩
  · intro consumer existing job found seen stored
    have known : some consumer =
        some ⟨0, ⟨identity, none⟩, .seen ⟨.enqueued, none, none⟩⟩ :=
      found.symm
    have row : some job = some ⟨identity, ⟨.enqueued, none, none⟩⟩ :=
      stored.symm
    cases known
    cases row
    cases seen
    exact ⟨0, message, ⟨rfl, rfl⟩, rfl, rfl⟩

/-- One message is produced, delivered and handled. -/
theorem delivery_safe : Backed (IndexerState.after events) :=
  (index_job_safe events [] events_sound).2.2

end OneDelivery

namespace RacingDeliveries

open OneDelivery (identity)

/-- Two deliveries of one message read the row before either claims it. -/
def events : List IndexerEvent :=
  [.produce 0 ⟨identity, none⟩, .deliver 0 0, .deliver 1 0, .ensure 0,
    .ensure 1, .look 0 5, .look 1 5, .claim 0 6, .claim 1 7, .crash 0]

def job : IndexJob := ⟨identity, ⟨.running, some 0, some 6⟩⟩

theorem no_message (id : Nat) (message : QueueMessage) :
    ¬(IndexerState.after events).Live id message := by
  intro ⟨stored, unread⟩
  by_cases first : id = 0
  · subst first
    cases stored
    cases unread
  · have missing : (IndexerState.after events).messages id = none := by
      have written : (IndexerState.after events).messages =
          IndexerState.ackMessage (Function.update (fun _ => none) 0
            (some OneDelivery.message)) 0 := rfl
      rw [written, ackMessage_of_ne _ first, Function.update_of_ne first]
    rw [missing] at stored
    cases stored

/-- The delivery that loses the claim acknowledges the message of the one that
wins it and then crashes. -/
theorem job_lost : ¬Backed (IndexerState.after events) := by
  intro backed
  rcases backed job rfl rfl with
    ⟨id, message, live, _⟩ | ⟨dispatchable, _⟩
  · exact no_message id message live
  · cases dispatchable

end RacingDeliveries

end Takos.Indexer
