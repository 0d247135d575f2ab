import Takos.Indexer.IndexJob

/-!
# The steps of an index job

Said once: what a step does to the row and to the messages, under which guard,
and where the phases of the consumers come from.
-/

namespace Takos.Indexer

open Takos.Foundation Takos.Outboxes

/-- The cases of a step, by the row and the messages that it leaves. -/
inductive Effect (state : IndexerState) :
    IndexerEvent → Option IndexJob → (Nat → Option QueueMessage) → Prop where
  | quiet (event : IndexerEvent) : Effect state event state.job state.messages
  | produced (id : Nat) (body : IndexJobQueueMessage)
      (free : state.messages id = none) :
      Effect state (.produce id body) state.job
        (Function.update state.messages id (some ⟨body, false, false⟩))
  | sent (index id token claimedAt : Nat) (reached resolved : Bool)
      (job : IndexJob)
      (phase : state.dispatches index = some (.claimed token claimedAt))
      (stored : state.job = some job) (free : state.messages id = none) :
      Effect state (.send index id reached resolved) state.job
        (Function.update state.messages id
          (some ⟨⟨job.identity, some token⟩, false, false⟩))
  | deadLettered (id : Nat) (message : QueueMessage)
      (live : state.messages id = some message) :
      Effect state (.deadLetter id) state.job
        (Function.update state.messages id
          (some { message with deadLettered := true }))
  | outboxed (identity : JobIdentity)
      (dispatchable : identity.dispatchable = true)
      (none : state.job = none) :
      Effect state (.insertOutbox identity)
        (some ⟨identity, .queued, .none, .none⟩) state.messages
  | ensured (index : Nat) (consumer : Consumer)
      (phase : state.consumers index = some consumer)
      (none : state.job = none) :
      Effect state (.ensure index)
        (some ⟨consumer.body.identity, .enqueued, .none, .none⟩)
        state.messages
  | declined (index now : Nat) (consumer : Consumer) (job : IndexJob)
      (phase : state.consumers index = some consumer)
      (stored : state.job = some job)
      (choice : consumerChoice job consumer.body consumer.token now =
        .acknowledge) :
      Effect state (.look index now) state.job
        (IndexerState.ackMessage state.messages consumer.message)
  | claimed (index now : Nat) (consumer : Consumer)
      (existing : OutboxRow IndexJobStatus) (job : IndexJob)
      (phase : state.consumers index = some consumer)
      (seen : consumer.phase = .seen existing)
      (stored : state.job = some job)
      (guard : claimGuard job consumer.body existing consumer.token = true) :
      Effect state (.claim index now)
        (some { job with row := ⟨.running, some consumer.token, some now⟩ })
        state.messages
  | lost (index now : Nat) (consumer : Consumer)
      (existing : OutboxRow IndexJobStatus)
      (phase : state.consumers index = some consumer)
      (seen : consumer.phase = .seen existing)
      (guard : ∀ job, state.job = some job →
        claimGuard job consumer.body existing consumer.token = false) :
      Effect state (.claim index now) state.job
        (IndexerState.ackMessage state.messages consumer.message)
  | finished (index claimedAt : Nat) (outcome : HandlerOutcome)
      (answered : Bool) (consumer : Consumer) (job : IndexJob)
      (phase : state.consumers index = some consumer)
      (handling : consumer.phase = .handling claimedAt)
      (stored : state.job = some job)
      (owns : ownsRunning job.row consumer.token = true) :
      Effect state (.finish index outcome answered)
        (some { job with
          row := (IndexerState.finishedRow job.row outcome).1 })
        (if (IndexerState.finishedRow job.row outcome).2 && answered then
          IndexerState.ackMessage state.messages consumer.message
        else state.messages)
  | dispatched (index token now : Nat) (status : IndexJobStatus)
      (staleBefore : Option Nat) (job : IndexJob)
      (phase : state.dispatches index = some (.selected status staleBefore))
      (stored : state.job = some job)
      (expected : terminalIndexOutbox.expects status staleBefore job.row =
        true) :
      Effect state (.dispatch index token now)
        (some { job with row := ⟨.enqueued, some token, some now⟩ })
        state.messages
  | reverted (index token claimedAt : Nat) (job : IndexJob)
      (phase : state.dispatches index = some (.failed token claimedAt))
      (stored : state.job = some job)
      (held : terminalIndexOutbox.holds ⟨0, token, claimedAt⟩ job.row =
        true) :
      Effect state (.revert index)
        (some { job with row := ⟨.queued, none, none⟩ }) state.messages
  | buried (index : Nat) (answered : Bool) (letter : DeadLetter)
      (job : IndexJob) (phase : state.deadLetters index = some letter)
      (stored : state.job = some job) (guard : deadGuard job letter = true) :
      Effect state (.failDead index answered)
        (some { job with row := ⟨.failed, none, job.row.claimedAt⟩ })
        (if answered then IndexerState.ackMessage state.messages letter.message
        else state.messages)
  | spared (index : Nat) (letter : DeadLetter)
      (phase : state.deadLetters index = some letter)
      (guard : ∀ job, state.job = some job → deadGuard job letter = false) :
      Effect state (.failDead index true) state.job
        (IndexerState.ackMessage state.messages letter.message)

namespace IndexerState

theorem effect_ensureJob (state : IndexerState) (identity : JobIdentity)
    (status : IndexJobStatus) :
    state.ensureJob identity status = state ∨
      state.job = none ∧ state.ensureJob identity status =
        { state with job := some ⟨identity, status, none, none⟩ } := by
  unfold ensureJob
  split
  · exact .inl rfl
  · rename_i missing
    exact .inr ⟨missing, rfl⟩

theorem effect (state : IndexerState) (event : IndexerEvent) :
    Effect state event (state.step event).job (state.step event).messages := by
  cases event with
  | produce id body =>
      dsimp only [step]
      split
      · exact .quiet _
      · rename_i free
        exact .produced id body free
  | insertOutbox identity =>
      dsimp only [step]
      split
      · rename_i dispatchable
        rcases state.effect_ensureJob identity .queued with
          same | ⟨missing, same⟩
        · rw [same]
          exact .quiet _
        · rw [same]
          exact .outboxed identity dispatchable missing
      · exact .quiet _
  | deliver | crash =>
      dsimp only [step]
      split <;> exact .quiet _
  | ensure index =>
      dsimp only [step]
      split
      · rename_i consumer message body phase
        rcases state.effect_ensureJob body.identity .enqueued with
          same | ⟨missing, same⟩
        · rw [same]
          exact .quiet _
        · rw [same]
          exact .ensured index _ phase missing
      · exact .quiet _
  | look index now =>
      dsimp only [step]
      split
      · rename_i consumer message body phase
        dsimp only [look]
        split
        · exact .quiet _
        · rename_i job stored
          split
          · rename_i choice
            exact .declined index now _ job phase stored choice
          · exact .quiet _
          · exact .quiet _
      · exact .quiet _
  | claim index now =>
      dsimp only [step]
      split
      · rename_i consumer message body existing phase
        dsimp only [claim]
        split
        · rename_i missing
          apply Effect.lost index now _ existing phase rfl
          intro job stored
          rw [missing] at stored
          cases stored
        · rename_i job stored
          split
          · rename_i guard
            exact .claimed index now _ existing job phase rfl stored guard
          · rename_i guard
            apply Effect.lost index now _ existing phase rfl
            intro other again
            rw [stored] at again
            cases again
            exact Bool.eq_false_iff.mpr guard
      · exact .quiet _
  | finish index outcome answered =>
      dsimp only [step]
      split
      · rename_i consumer message body claimedAt phase
        dsimp only [finish]
        split
        · exact .quiet _
        · rename_i job stored
          split
          · rename_i owns
            have ended := Effect.finished index claimedAt outcome answered _
              job phase rfl stored owns
            cases outcome <;> cases answered <;> exact ended
          · exact .quiet _
      · exact .quiet _
  | select index staleBefore =>
      dsimp only [step]
      split
      · split <;> exact .quiet _
      · exact .quiet _
  | dispatch index token now =>
      dsimp only [step]
      split
      · rename_i status staleBefore phase
        dsimp only [dispatchJob]
        split
        · exact .quiet _
        · rename_i job stored
          split
          · rename_i expected
            exact .dispatched index token now status staleBefore job phase
              stored expected
          · exact .quiet _
      · exact .quiet _
  | send index id reached resolved =>
      dsimp only [step]
      split
      · rename_i token claimedAt job phase stored free
        cases reached with
        | false => exact .quiet _
        | true =>
            exact .sent index id token claimedAt true resolved job phase
              stored free
      · exact .quiet _
  | revert index =>
      dsimp only [step]
      split
      · rename_i token claimedAt phase
        dsimp only [revertDispatch]
        split
        · exact .quiet _
        · rename_i job stored
          split
          · rename_i held
            exact .reverted index token claimedAt job phase stored held
          · exact .quiet _
      · exact .quiet _
  | deadLetter id =>
      dsimp only [step]
      split
      · rename_i message live
        exact .deadLettered id message live
      · exact .quiet _
  | lookDead index id started now =>
      dsimp only [step]
      split
      · split
        · split <;> exact .quiet _
        · exact .quiet _
      · exact .quiet _
  | failDead index answered =>
      dsimp only [step]
      split
      · rename_i letter phase
        dsimp only [failDead]
        cases stored : state.job with
        | none =>
            cases answered with
            | false =>
                show Effect state _ state.job state.messages
                exact .quiet _
            | true =>
                have spared := Effect.spared index letter phase (by
                  intro job found
                  rw [stored] at found
                  cases found)
                exact spared
        | some job =>
            dsimp only
            by_cases guard : deadGuard job letter = true
            · rw [if_pos guard]
              have buried :=
                Effect.buried index answered letter job phase stored guard
              cases answered <;> exact buried
            · rw [if_neg guard]
              cases answered with
              | false => exact .quiet _
              | true =>
                  apply Effect.spared index letter phase
                  intro other found
                  rw [stored] at found
                  cases found
                  exact Bool.eq_false_iff.mpr guard
      · exact .quiet _

end IndexerState

/-- Where the phase of a consumer after a step comes from. -/
inductive ConsumerEffect (state : IndexerState) (event : IndexerEvent)
    (index : Nat) : Consumer → Prop where
  | kept (consumer : Consumer)
      (phase : state.consumers index = some consumer)
      (unfinished : ∀ outcome answered, event = .finish index outcome answered →
        ∀ claimedAt, consumer.phase ≠ .handling claimedAt) :
      ConsumerEffect state event index consumer
  | delivered (id : Nat) (message : QueueMessage)
      (stored : state.messages id = some message) :
      ConsumerEffect state event index ⟨id, message.body, .received⟩
  | ensured (consumer : Consumer)
      (phase : state.consumers index = some consumer) :
      ConsumerEffect state event index { consumer with phase := .ensured }
  | closed (consumer : Consumer)
      (phase : state.consumers index = some consumer) :
      ConsumerEffect state event index { consumer with phase := .closed }
  | seen (now : Nat) (consumer : Consumer) (job : IndexJob)
      (same : event = .look index now)
      (phase : state.consumers index = some consumer)
      (stored : state.job = some job)
      (choice : consumerChoice job consumer.body consumer.token now =
        .claim) :
      ConsumerEffect state event index
        { consumer with phase := .seen job.row }
  | handling (now : Nat) (consumer : Consumer)
      (existing : OutboxRow IndexJobStatus) (job : IndexJob)
      (same : event = .claim index now)
      (phase : state.consumers index = some consumer)
      (seen : consumer.phase = .seen existing)
      (stored : state.job = some job)
      (guard : claimGuard job consumer.body existing consumer.token = true)
      (written : (state.step event).job = some { job with
        row := ⟨.running, some consumer.token, some now⟩ }) :
      ConsumerEffect state event index
        { consumer with phase := .handling now }

namespace IndexerState

theorem setConsumer_cases (state : IndexerState) {index other : Nat}
    {consumer after : Consumer} {phase : ConsumerPhase}
    (found : (state.setConsumer index consumer phase).consumers other =
      some after) :
    other = index ∧ after = { consumer with phase } ∨
      other ≠ index ∧ state.consumers other = some after := by
  by_cases same : other = index
  · subst same
    have here : (state.setConsumer other consumer phase).consumers other =
        some { consumer with phase } := Function.update_self _ _ _
    rw [here] at found
    exact .inl ⟨rfl, (Option.some.inj found).symm⟩
  · have there : (state.setConsumer index consumer phase).consumers other =
        state.consumers other := Function.update_of_ne same _ _
    rw [there] at found
    exact .inr ⟨same, found⟩

inductive Party where
  | consumer
  | dispatch
  | deadLetter
  | sender

/-- Whose part of the state an event may change. -/
def party : IndexerEvent → Party
  | .deliver _ _ | .ensure _ | .look _ _ | .claim _ _ | .finish _ _ _
  | .crash _ => .consumer
  | .select _ _ | .dispatch _ _ _ | .send _ _ _ _ | .revert _ => .dispatch
  | .lookDead _ _ _ _ | .failDead _ _ => .deadLetter
  | .produce _ _ | .insertOutbox _ | .deadLetter _ => .sender

structure OthersKept (state : IndexerState) (party : Party)
    (after : IndexerState) : Prop where
  consumers : party ≠ .consumer → after.consumers = state.consumers
  dispatches : party ≠ .dispatch → after.dispatches = state.dispatches
  deadLetters : party ≠ .deadLetter → after.deadLetters = state.deadLetters

theorem OthersKept.refl (state : IndexerState) (party : Party) :
    OthersKept state party state :=
  ⟨fun _ => rfl, fun _ => rfl, fun _ => rfl⟩

theorem OthersKept.ofConsumer {state after : IndexerState}
    (dispatches : after.dispatches = state.dispatches)
    (deadLetters : after.deadLetters = state.deadLetters) :
    OthersKept state .consumer after :=
  ⟨fun other => absurd rfl other, fun _ => dispatches, fun _ => deadLetters⟩

theorem OthersKept.ofDispatch {state after : IndexerState}
    (consumers : after.consumers = state.consumers)
    (deadLetters : after.deadLetters = state.deadLetters) :
    OthersKept state .dispatch after :=
  ⟨fun _ => consumers, fun other => absurd rfl other, fun _ => deadLetters⟩

theorem OthersKept.ofDeadLetter {state after : IndexerState}
    (consumers : after.consumers = state.consumers)
    (dispatches : after.dispatches = state.dispatches) :
    OthersKept state .deadLetter after :=
  ⟨fun _ => consumers, fun _ => dispatches, fun other => absurd rfl other⟩

theorem othersKept_ensureJob (state : IndexerState) (identity : JobIdentity)
    (status : IndexJobStatus) (party : Party) :
    OthersKept state party (state.ensureJob identity status) := by
  rcases state.effect_ensureJob identity status with same | ⟨_, same⟩
  · rw [same]
    exact .refl state party
  · rw [same]
    exact ⟨fun _ => rfl, fun _ => rfl, fun _ => rfl⟩

theorem othersKept (state : IndexerState) (event : IndexerEvent) :
    OthersKept state (party event) (state.step event) := by
  cases event with
  | produce id body =>
      dsimp only [step]
      split
      · exact .refl _ _
      · exact ⟨fun _ => rfl, fun _ => rfl, fun _ => rfl⟩
  | insertOutbox identity =>
      dsimp only [step]
      split
      · exact state.othersKept_ensureJob identity .queued _
      · exact .refl _ _
  | deliver | crash =>
      dsimp only [step]
      split
      · exact .ofConsumer rfl rfl
      · exact .refl _ _
  | ensure index =>
      dsimp only [step]
      split
      · rename_i consumer message body phase
        have kept := state.othersKept_ensureJob body.identity .enqueued .consumer
        exact .ofConsumer (kept.dispatches nofun) (kept.deadLetters nofun)
      · exact .refl _ _
  | look index now =>
      dsimp only [step]
      split
      · dsimp only [look]
        split
        · exact .ofConsumer rfl rfl
        · split <;> exact .ofConsumer rfl rfl
      · exact .refl _ _
  | claim index now =>
      dsimp only [step]
      split
      · dsimp only [claim]
        split
        · exact .ofConsumer rfl rfl
        · split <;> exact .ofConsumer rfl rfl
      · exact .refl _ _
  | finish index outcome answered =>
      dsimp only [step]
      split
      · dsimp only [finish]
        split
        · exact .ofConsumer rfl rfl
        · split
          · cases outcome <;> cases answered <;> exact .ofConsumer rfl rfl
          · exact .ofConsumer rfl rfl
      · exact .refl _ _
  | select index staleBefore =>
      dsimp only [step]
      split
      · split
        · exact .ofDispatch rfl rfl
        · exact .refl _ _
      · exact .refl _ _
  | dispatch index token now =>
      dsimp only [step]
      split
      · dsimp only [dispatchJob]
        split
        · exact .ofDispatch rfl rfl
        · split <;> exact .ofDispatch rfl rfl
      · exact .refl _ _
  | send index id reached resolved =>
      dsimp only [step]
      split
      · cases reached <;> exact .ofDispatch rfl rfl
      · exact .refl _ _
  | revert index =>
      dsimp only [step]
      split
      · dsimp only [revertDispatch]
        split
        · exact .ofDispatch rfl rfl
        · split <;> exact .ofDispatch rfl rfl
      · exact .refl _ _
  | deadLetter id =>
      dsimp only [step]
      split
      · exact ⟨fun _ => rfl, fun _ => rfl, fun _ => rfl⟩
      · exact .refl _ _
  | lookDead index id started now =>
      dsimp only [step]
      split
      · split
        · split
          · exact .refl _ _
          · exact .ofDeadLetter rfl rfl
        · exact .ofDeadLetter rfl rfl
      · exact .refl _ _
  | failDead index answered =>
      dsimp only [step]
      split
      · rename_i letter phase
        dsimp only [failDead]
        cases state.job with
        | none => cases answered <;> exact .ofDeadLetter rfl rfl
        | some job =>
            by_cases guard : deadGuard job letter = true
            · simp only [guard, if_true]
              cases answered <;> exact .ofDeadLetter rfl rfl
            · simp only [guard]
              cases answered <;> exact .ofDeadLetter rfl rfl
      · exact .refl _ _

theorem consumerEffect_ofSet {state middle : IndexerState}
    {event : IndexerEvent} {index other : Nat} {consumer after : Consumer}
    {phase : ConsumerPhase}
    (found : (middle.setConsumer index consumer phase).consumers other =
      some after)
    (same : middle.consumers = state.consumers)
    (own : ConsumerEffect state event index { consumer with phase })
    (rest : other ≠ index → state.consumers other = some after →
      ConsumerEffect state event other after) :
    ConsumerEffect state event other after := by
  rcases setConsumer_cases _ found with ⟨here, set⟩ | ⟨unlike, before⟩
  · subst here
    rw [set]
    exact own
  · rw [same] at before
    exact rest unlike before

theorem consumerEffect (state : IndexerState) (event : IndexerEvent)
    {other : Nat} {after : Consumer}
    (found : (state.step event).consumers other = some after) :
    ConsumerEffect state event other after := by
  -- all but the end of a handler keeps the consumers it does not name
  have kept : (∀ index outcome answered,
        event ≠ .finish index outcome answered) →
      state.consumers other = some after →
      ConsumerEffect state event other after := by
    intro unlike before
    apply ConsumerEffect.kept after before
    intro outcome answered same
    exact absurd same (unlike _ _ _)
  have others := (state.othersKept event).consumers
  cases event with
  | deliver index id =>
      have rest := kept nofun
      dsimp only [step] at found
      split at found
      · rename_i body free stored
        exact consumerEffect_ofSet found rfl (.delivered id _ stored) fun _ => rest
      · exact rest found
  | ensure index =>
      have rest := kept nofun
      dsimp only [step] at found
      split at found
      · rename_i consumer message body phase
        have same : (state.ensureJob body.identity .enqueued).consumers =
            state.consumers := by
          rcases state.effect_ensureJob body.identity .enqueued with
            same | ⟨_, same⟩
          · rw [same]
          · rw [same]
        exact consumerEffect_ofSet found same (.ensured _ phase) fun _ => rest
      · exact rest found
  | look index now =>
      have rest := kept nofun
      dsimp only [step] at found
      split at found
      · rename_i consumer message body phase
        have closed := @ConsumerEffect.closed _ (.look index now) _ _
          phase
        dsimp only [look] at found
        split at found
        · exact consumerEffect_ofSet found rfl closed fun _ => rest
        · rename_i job stored
          split at found
          · exact consumerEffect_ofSet found rfl closed fun _ => rest
          · exact consumerEffect_ofSet found rfl closed fun _ => rest
          · rename_i choice
            exact consumerEffect_ofSet found rfl (.seen now _ job rfl phase stored choice)
              fun _ => rest
      · exact rest found
  | claim index now =>
      have rest := kept nofun
      dsimp only [step] at found
      split at found
      · rename_i consumer message body existing phase
        have closed := @ConsumerEffect.closed _ (.claim index now) _ _
          phase
        dsimp only [claim] at found
        split at found
        · exact consumerEffect_ofSet found rfl closed fun _ => rest
        · rename_i job stored
          split at found
          · rename_i guard
            refine consumerEffect_ofSet found
              (rfl : _ = state.consumers) ?_ fun _ => rest
            apply ConsumerEffect.handling now _ existing job rfl phase rfl
              stored guard
            dsimp only [step]
            rw [phase]
            dsimp only [claim]
            rw [stored]
            dsimp only
            rw [if_pos guard]
            rfl
          · exact consumerEffect_ofSet found rfl closed fun _ => rest
      · exact rest found
  | finish index outcome answered =>
      -- a consumer that handles is over when its handler has ended
      have apart : other ≠ index → state.consumers other = some after →
          ConsumerEffect state (.finish index outcome answered) other
            after := by
        intro unlike before
        apply ConsumerEffect.kept after before
        intro _ _ same
        cases same
        exact absurd rfl unlike
      dsimp only [step] at found
      split at found
      · rename_i consumer message body claimedAt phase
        have closed := @ConsumerEffect.closed _
          (.finish index outcome answered) _ _ phase
        dsimp only [finish] at found
        split at found
        · exact consumerEffect_ofSet found rfl closed apart
        · split at found
          · refine consumerEffect_ofSet found ?_ closed apart
            cases outcome <;> cases answered <;> rfl
          · exact consumerEffect_ofSet found rfl closed apart
      · rename_i unlike
        by_cases same : other = index
        · subst same
          apply ConsumerEffect.kept after found
          intro _ _ _ claimedAt handling
          obtain ⟨message, body, phase⟩ := after
          subst handling
          exact unlike _ _ _ found
        · exact apart same found
  | crash index =>
      have rest := kept nofun
      dsimp only [step] at found
      split at found
      · rename_i consumer phase
        exact consumerEffect_ofSet found rfl (.closed _ phase) fun _ => rest
      · exact rest found
  | _ =>
      rw [others nofun] at found
      exact kept nofun found

theorem setDispatch_origin {state middle : IndexerState}
    (same : middle.dispatches = state.dispatches) {index other : Nat}
    {value before after : Dispatch}
    (stored : state.dispatches index = some before)
    (found : (middle.setDispatch index value).dispatches other = some after) :
    ∃ earlier, state.dispatches other = some earlier := by
  by_cases here : other = index
  · rw [here]
    exact ⟨before, stored⟩
  · have there : (middle.setDispatch index value).dispatches other =
        middle.dispatches other := Function.update_of_ne here _ _
    rw [there, same] at found
    exact ⟨after, found⟩

theorem dispatch_origin (state : IndexerState) (event : IndexerEvent)
    {other : Nat} {after : Dispatch}
    (found : (state.step event).dispatches other = some after) :
    (∃ before, state.dispatches other = some before) ∨
      ∃ job, state.job = some job ∧ job.identity.dispatchable = true := by
  have others := (state.othersKept event).dispatches
  cases event with
  | select index staleBefore =>
      dsimp only [step] at found
      split at found
      · rename_i job free stored
        split at found
        · rename_i selected
          rw [Bool.and_eq_true] at selected
          exact .inr ⟨job, stored, selected.1⟩
        · exact .inl ⟨after, found⟩
      · exact .inl ⟨after, found⟩
  | dispatch index token now =>
      dsimp only [step] at found
      split at found
      · rename_i status staleBefore phase
        dsimp only [dispatchJob] at found
        split at found
        · exact .inl (setDispatch_origin rfl phase found)
        · split at found
          · refine .inl (setDispatch_origin ?_ phase found)
            rfl
          · exact .inl (setDispatch_origin rfl phase found)
      · exact .inl ⟨after, found⟩
  | send index id reached resolved =>
      dsimp only [step] at found
      split at found
      · rename_i token claimedAt job phase stored free
        refine .inl (setDispatch_origin ?_ phase found)
        cases reached <;> rfl
      · exact .inl ⟨after, found⟩
  | revert index =>
      dsimp only [step] at found
      split at found
      · rename_i token claimedAt phase
        dsimp only [revertDispatch] at found
        split at found
        · exact .inl (setDispatch_origin rfl phase found)
        · split at found
          · refine .inl (setDispatch_origin ?_ phase found)
            rfl
          · exact .inl (setDispatch_origin rfl phase found)
      · exact .inl ⟨after, found⟩
  | _ =>
      rw [others nofun] at found
      exact .inl ⟨after, found⟩

theorem deadLetter_origin (state : IndexerState) (event : IndexerEvent)
    {other : Nat} {after : DeadLetter}
    (found : (state.step event).deadLetters other = some after) :
    state.deadLetters other = some after ∨ ∃ message,
      state.messages after.message = some message ∧
        message.body = after.body := by
  have others := (state.othersKept event).deadLetters
  cases event with
  | lookDead index id started now =>
      dsimp only [step] at found
      split at found
      · rename_i body free stored
        have written : (state.setDeadLetter index
              (some ⟨id, body, started⟩)).deadLetters other = some after →
            state.deadLetters other = some after ∨ ∃ message,
              state.messages after.message = some message ∧
                message.body = after.body := by
          intro found
          by_cases here : other = index
          · have same : (state.setDeadLetter index
                (some ⟨id, body, started⟩)).deadLetters other =
                  some ⟨id, body, started⟩ := by
              rw [here]
              exact Function.update_self _ _ _
            rw [same] at found
            cases found
            exact .inr ⟨_, stored, rfl⟩
          · have there : (state.setDeadLetter index
                (some ⟨id, body, started⟩)).deadLetters other =
                  state.deadLetters other := Function.update_of_ne here _ _
            rw [there] at found
            exact .inl found
        split at found
        · split at found
          · exact .inl found
          · exact written found
        · exact written found
      · exact .inl found
  | failDead index answered =>
      dsimp only [step] at found
      split at found
      · rename_i letter phase
        have written : ∀ middle : IndexerState,
            middle.deadLetters = state.deadLetters →
            ((if answered = true then middle.acknowledge letter.message
              else middle).setDeadLetter index none).deadLetters other =
                some after →
            state.deadLetters other = some after := by
          intro middle same found
          have updated : Function.update middle.deadLetters index none other =
              some after := by
            cases answered <;> exact found
          by_cases here : other = index
          · rw [here, Function.update_self] at updated
            cases updated
          · rw [Function.update_of_ne here, same] at updated
            exact updated
        dsimp only [failDead] at found
        apply Or.inl
        refine written _ ?_ found
        split
        · rfl
        · split <;> rfl
      · exact .inl found
  | _ =>
      rw [others nofun] at found
      exact .inl found

end IndexerState

end Takos.Indexer
