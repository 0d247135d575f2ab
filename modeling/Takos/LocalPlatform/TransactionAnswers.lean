import Takos.LocalPlatform.TransactionRuns

/-!
# Answers of the server

Every answer keeps the adapter at a stage, so every run does in which nobody
uses the transaction of another caller and no failure leaves a transaction on
a released client.  The last part shows both ways out.
-/

namespace Takos.LocalPlatform

variable {state : AdapterState} {kind : StatementKind} {rest : List Nat}
  {index ticket client : Nat} {stage : Stage}

theorem setCall_eq {block : Option Block}
    (same : (state.callers index).block = block) (call : Call) :
    state.setCall index call = state.setCaller index ⟨call, block⟩ := by
  show state.setCaller index ⟨call, (state.callers index).block⟩ = _
  rw [same]

theorem transactionAfter_none {kind : StatementKind} (other : kind ≠ .begin)
    (issuer : Nat) (answer : Answer) :
    transactionAfter issuer kind answer none = none := by
  cases answer with
  | failed | ended => rfl
  | done =>
      cases kind with
      | begin => exact absurd rfl other
      | commit => rfl
      | rollback => rfl
      | plain => rfl

theorem transactionAfter_opener {issuer : Nat} {answer : Answer}
    {before : Option Transaction}
    (mine : ∀ transaction, before = some transaction →
      transaction.opener = issuer) :
    ∀ transaction, transactionAfter issuer kind answer before =
      some transaction → transaction.opener = issuer := by
  intro transaction found
  cases answer with
  | ended => cases found
  | failed =>
      obtain ⟨old, held, same⟩ := Option.map_eq_some_iff.mp found
      rw [← same]
      exact mine old held
  | done =>
      cases kind with
      | begin =>
          cases before with
          | none =>
              cases found
              rfl
          | some old =>
              cases found
              exact mine old rfl
      | commit => cases found
      | rollback => cases found
      | plain => exact mine transaction found

theorem transactionAfter_failure {issuer : Nat} {answer : Answer}
    {before : Option Transaction} (failure : answer ≠ .done)
    (empty : answer = .failed → before = none) :
    transactionAfter issuer kind answer before = none := by
  cases answer with
  | done => exact absurd rfl failure
  | ended => rfl
  | failed =>
      rw [empty rfl]
      rfl

theorem pooled_passes {left : Nat}
    (frame : Frame (.pooled index ticket client) rest state)
    (here : state.callers index = ⟨.sent kind ticket client left, none⟩)
    (other : kind ≠ .begin) (answer : Answer) :
    Passes state (state.answerSent index kind ticket client left answer) := by
  have empty := (frame.busy client rfl).2
  have runs : ∀ statement, statement ≠ .begin →
      Frame (.pooled index ticket client) rest
        (state.execute index client statement answer) := by
    intro statement plain
    apply frame.execute rfl rfl
    rw [empty]
    exact transactionAfter_none plain index answer
  have before : NotWaiting (state.callers index).call := by
    rw [here]
    exact fun _ _ => Call.noConfusion
  have outside : (state.callers index).block = none := by rw [here]
  have settles : ∀ statement, statement ≠ .begin →
      Lawful .free rest (((state.execute index client statement answer).settle
        kind ticket client).setCall index .idle) := by
    intro statement plain
    rw [AdapterState.settle, if_neg other]
    exact (runs statement plain).settled before outside
  have unrejected : ∀ statement, ((state.execute index client statement
      answer).settle kind ticket client).rejected = state.rejected := by
    intro statement
    rw [AdapterState.settle, if_neg other]
    rfl
  have out : ∀ statement, (((state.execute index client statement
      answer).settle kind ticket client).callers index).block = none := by
    intro statement
    rw [AdapterState.settle, if_neg other]
    exact outside
  unfold AdapterState.answerSent
  cases left with
  | succ left =>
      dsimp only
      split
      · have still : ((state.execute index client .plain answer).callers
            index).block = none := outside
        rw [setCall_eq still]
        apply Passes.quiet
          (Lawful.place (runs .plain nofun) rfl before _ _) rfl
        · exact fun _ _ => Call.noConfusion
        · exact .pooled _ _ _ kind left _ other
      · exact .rejects (settles .plain nofun) nofun (out .plain)
          (unrejected .plain)
  | zero =>
      dsimp only
      split
      · exact .quiet (settles kind other) (unrejected kind)
      · exact .rejects (settles kind other) nofun (out kind) (unrejected kind)

theorem Frame.relabel {owner : Nat}
    (frame : Frame (.begun owner ticket client) rest state) :
    Frame (.raw owner ticket client) rest state := by
  refine { frame with
    gate := frame.gate, slot := frame.slot, release := frame.release,
    explicit := frame.explicit, busy := ?_, others := frame.others }
  intro other has
  obtain ⟨unpooled, empty⟩ := frame.busy other has
  refine ⟨unpooled, ?_⟩
  intro transaction found
  rw [empty] at found
  cases found

theorem finishTransaction_frame (state : AdapterState) :
    state.finishTransaction.callers = state.callers ∧
      state.finishTransaction.rejected = state.rejected := by
  unfold AdapterState.finishTransaction
  dsimp only
  cases state.releaseGate with
  | none | some =>
      split
      · split <;> exact ⟨rfl, rfl⟩
      · exact ⟨rfl, rfl⟩

theorem begun_passes {left : Nat}
    (frame : Frame (.begun index ticket client) rest state)
    (here : state.callers index = ⟨.sent .begin ticket client left, none⟩)
    (answer : Answer) :
    Passes state (state.answerSent index .begin ticket client left answer) := by
  have empty := (frame.busy client rfl).2
  have before : NotWaiting (state.callers index).call := by
    rw [here]
    exact fun _ _ => Call.noConfusion
  have outside : (state.callers index).block = none := by rw [here]
  have runs : ∀ kind, Frame (.raw index ticket client) rest
      (state.execute index client kind answer) := by
    intro kind
    apply frame.relabel.execute rfl rfl
    exact transactionAfter_opener (frame.relabel.busy client rfl).2
  have fails : ∀ kind, answer ≠ .done →
      Passes state (((state.execute index client kind answer).settle .begin
        ticket client).reject index) := by
    intro kind failure
    have none : ((state.execute index client kind answer).clients
        client).transaction = none := by
      rw [clients_execute]
      exact transactionAfter_failure failure fun _ => empty
    have finished := (runs kind).finish rfl rfl before outside frame.explicit
      none
    obtain ⟨callers, log⟩ :=
      finishTransaction_frame (state.execute index client kind answer)
    rw [AdapterState.settle, if_pos rfl]
    refine .rejects finished nofun ?_ log
    rw [callers]
    exact outside
  unfold AdapterState.answerSent
  cases left with
  | succ left =>
      dsimp only
      split
      · rename_i done
        have plain : Frame (.begun index ticket client) rest
            (state.execute index client .plain answer) := by
          apply frame.execute rfl rfl
          rw [empty]
          exact @transactionAfter_none .plain nofun index answer
        have still : ((state.execute index client .plain answer).callers
            index).block = none := outside
        rw [setCall_eq still]
        apply Passes.quiet (Lawful.place plain rfl before _ _) rfl
        · exact fun _ _ => Call.noConfusion
        · exact .begun _ _ _ left _
      · rename_i failure
        exact fails .plain failure
  | zero =>
      dsimp only
      split
      · rename_i done
        rw [if_pos rfl]
        have still : ((state.execute index client .begin answer).callers
            index).block = none := outside
        rw [setCall_eq still]
        apply Passes.quiet (Lawful.place (runs .begin) rfl before _ _) rfl
        · exact fun _ _ => Call.noConfusion
        · have opened : Stage.transaction (.raw index ticket client)
              (state.execute index client .begin answer) =
              some ⟨index, false⟩ := by
            show ((state.execute index client .begin answer).clients
              client).transaction = _
            rw [clients_execute, done, empty]
            rfl
          rw [opened]
          exact .idle _ _ _ _
      · rename_i failure
        exact fails .begin failure

theorem Frame.finish_raw (frame : Frame (.raw index ticket client) rest state)
    (before : NotWaiting (state.callers index).call)
    (outside : (state.callers index).block = none) (kind : StatementKind)
    (answer : Answer)
    (none : transactionAfter index kind answer
      (state.clients client).transaction = none) :
    Passes state ((state.execute index client kind
        answer).finishTransaction.setCall index .idle) ∧
      Passes state ((state.execute index client kind
        answer).finishTransaction.reject index) := by
  have ran : Frame (.raw index ticket client) rest
      (state.execute index client kind answer) := by
    apply frame.execute rfl rfl
    exact transactionAfter_opener (frame.busy client rfl).2
  have empty : ((state.execute index client kind answer).clients
      client).transaction = .none := by
    rw [clients_execute]
    exact none
  have finished := ran.finish rfl rfl before outside frame.explicit empty
  obtain ⟨callers, log⟩ :=
    finishTransaction_frame (state.execute index client kind answer)
  refine ⟨.quiet finished log, .rejects finished nofun ?_ log⟩
  rw [callers]
  exact outside

theorem raw_passes (frame : Frame (.raw index ticket client) rest state)
    (here : state.callers index = ⟨.routed kind client, none⟩)
    (other : kind ≠ .begin)
    (opened : (state.clients client).transaction.isSome = true)
    (answer : Answer)
    (sound : answer ≠ .done → kind ≠ .commit → answer = .failed →
      (state.clients client).transaction = none) :
    Passes state (state.answerRouted index kind client answer) := by
  have before : NotWaiting (state.callers index).call := by
    rw [here]
    exact fun _ _ => Call.noConfusion
  have outside : (state.callers index).block = none := by rw [here]
  have ran : Frame (.raw index ticket client) rest
      (state.execute index client kind answer) := by
    apply frame.execute rfl rfl
    exact transactionAfter_opener (frame.busy client rfl).2
  have still : ((state.execute index client kind answer).callers
      index).block = none := outside
  have releasable : (state.execute index client kind answer).releasable =
      true := by
    have slot : (state.execute index client kind
        answer).activeTransactionClient = some client := ran.slot
    rw [AdapterState.releasable, slot, Option.all_some,
      (ran.busy client rfl).1]
    rfl
  unfold AdapterState.answerRouted
  dsimp only
  split
  · rename_i stays
    obtain ⟨done, inner⟩ := stays
    have plain : kind = .plain := by
      cases kind with
      | begin => exact absurd rfl other
      | commit => exact absurd (.inl rfl) inner
      | rollback => exact absurd (.inr rfl) inner
      | plain => rfl
    rw [setCall_eq still]
    apply Passes.quiet (Lawful.place ran rfl before _ _) rfl
    · exact fun _ _ => Call.noConfusion
    · have kept : Stage.transaction (.raw index ticket client)
          (state.execute index client kind answer) =
          (state.clients client).transaction := by
        show ((state.execute index client kind answer).clients
          client).transaction = _
        rw [clients_execute, done, plain]
        rfl
      rw [kept]
      obtain ⟨transaction, found⟩ := Option.isSome_iff_exists.mp opened
      rw [found]
      exact .idle _ _ _ _
  · rename_i moves
    split
    · rename_i done
      apply (frame.finish_raw before outside kind answer _).1
      rw [done.1]
      cases kind with
      | begin => exact absurd rfl other
      | commit | rollback => rfl
      | plain =>
          refine absurd ⟨done.1, ?_⟩ moves
          rintro (same | same) <;> cases same
    · rename_i unfinished
      have failure : answer ≠ .done := by
        intro done
        exact unfinished ⟨done, releasable⟩
      rw [if_neg failure]
      split
      · rw [setCall_eq still]
        apply Passes.quiet (Lawful.place ran rfl before _ _) rfl
        · exact fun _ _ => Call.noConfusion
        · exact .rescuing _ _ _ _
      · rename_i unlike
        apply (frame.finish_raw before outside kind answer _).2
        exact transactionAfter_failure failure (sound failure unlike)

theorem Frame.execute_block
    (frame : Frame (.block index ticket client) rest state)
    (kind : StatementKind) (answer : Answer) :
    Frame (.block index ticket client) rest
      (state.execute index client kind answer) := by
  apply frame.execute rfl rfl
  exact transactionAfter_opener (frame.busy client rfl).2

theorem nested_passes (frame : Frame (.block index ticket client) rest state)
    (here : state.callers index =
      ⟨.routed .plain client, some ⟨ticket, client, .body⟩⟩) :
    Passes state (state.answerRouted index .plain client .done) := by
  have before : NotWaiting (state.callers index).call := by
    rw [here]
    exact fun _ _ => Call.noConfusion
  have inner : ((state.execute index client .plain .done).callers
      index).block = some ⟨ticket, client, .body⟩ := by
    show (state.callers index).block = _
    rw [here]
  have same : state.answerRouted index .plain client .done =
      (state.execute index client .plain .done).setCall index .idle := rfl
  rw [same, setCall_eq inner]
  apply Passes.quiet
    (Lawful.place (frame.execute_block .plain .done) rfl before _ _) rfl
  · exact fun _ _ => Call.noConfusion
  · exact .block _ _ _ _ _

theorem block_passes {inner : Block}
    (frame : Frame (.block index inner.ticket inner.client) rest state)
    (here : state.callers index = ⟨.idle, some inner⟩) (answer : Answer)
    (sound : answer ≠ .done → inner.phase = .unwinding → answer = .failed →
      (state.clients inner.client).transaction = none) :
    Passes state (state.answerBlock index inner answer) := by
  have before : NotWaiting (state.callers index).call := by
    rw [here]
    exact fun _ _ => Call.noConfusion
  have moves : ∀ kind phase, Passes state
      ((state.execute index inner.client kind answer).setPhase index inner
        phase) := by
    intro kind phase
    apply Passes.quiet
      (Lawful.place (frame.execute_block kind answer) rfl before _ _) rfl
    · exact fun _ _ => Call.noConfusion
    · exact .block _ _ _ _ _
  have closes : ∀ kind committed, transactionAfter index kind answer
      (state.clients inner.client).transaction = none →
      Passes state ((state.execute index inner.client kind
        answer).finishBlock index inner committed) := by
    intro kind committed none
    have ran := frame.execute_block kind answer
    have empty : ((state.execute index inner.client kind answer).clients
        inner.client).transaction = .none := by
      rw [clients_execute]
      exact none
    exact ran.closed before inner.phase committed empty
  obtain ⟨ticket, client, phase⟩ := inner
  unfold AdapterState.answerBlock
  cases phase with
  | opening left =>
      cases left with
      | zero => exact moves .begin _
      | succ left => exact moves .plain _
  | body => exact .quiet ⟨frame, fun owner held => by
      cases held
      rw [here]
      exact .block _ _ _ _ _⟩ rfl
  | querying kind => exact moves kind .body
  | committing =>
      dsimp only
      split
      · rename_i done
        apply closes
        rw [done]
        rfl
      · exact moves .commit .unwinding
  | unwinding =>
      apply closes
      cases answer with
      | done => rfl
      | ended => rfl
      | failed =>
          rw [sound nofun rfl rfl]
          rfl

theorem answered_passes (lawful : Lawful stage rest state)
    (session index : Nat) (answer : Answer)
    (sound : StepSound state (.answered index answer)) :
    Passes state (state.step session (.answered index answer)) := by
  dsimp only [AdapterState.step, StepSound] at sound ⊢
  split
  · rename_i kind ticket client left block here
    rcases lawful.cases here with parked | ⟨found, held, _, owns⟩
    · cases parked
    · cases owns with
      | pooled owner ticket client kind left found other =>
          cases held
          exact pooled_passes lawful.frame here other answer
      | begun owner ticket client left found =>
          cases held
          exact begun_passes lawful.frame here answer
  · rename_i kind client block here
    rw [here] at sound
    rcases lawful.cases here with parked | ⟨found, held, same, owns⟩
    · cases parked
    · cases owns with
      | routed owner ticket client transaction kind other =>
          cases held
          apply raw_passes lawful.frame here other
          · have opened : (state.clients client).transaction =
                some transaction := same
            rw [opened]
            rfl
          · intro failure unlike failed
            cases kind with
            | begin => exact absurd rfl other
            | commit => exact absurd rfl unlike
            | rollback => exact (sound failure).2 failed
            | plain => exact (sound failure).2 failed
      | nested owner ticket client found =>
          cases held
          cases answer with
          | done => exact nested_passes lawful.frame here
          | failed => cases (sound nofun).1
          | ended => cases (sound nofun).1
  · rename_i client block here
    rw [here] at sound
    rcases lawful.cases here with parked | ⟨found, held, same, owns⟩
    · cases parked
    · cases owns with
      | rescuing owner ticket client found =>
          cases held
          have before : NotWaiting (state.callers index).call := by
            rw [here]
            exact fun _ _ => Call.noConfusion
          have outside : (state.callers index).block = none := by rw [here]
          apply (lawful.frame.finish_raw before outside .rollback answer _).2
          cases answer with
          | done => rfl
          | ended => rfl
          | failed =>
              rw [sound nofun rfl]
              rfl
  · rename_i inner here
    rw [here] at sound
    have same := lawful.of_block here
    subst same
    apply block_passes lawful.frame here
    intro failure unwinding failed
    obtain ⟨ticket, client, phase⟩ := inner
    cases unwinding
    exact sound failure failed
  · exact .quiet lawful rfl

theorem phase_passes (lawful : Lawful stage rest state) {inner : Block}
    (here : state.callers index = ⟨.idle, some inner⟩) (phase : BlockPhase) :
    Passes state (state.setPhase index inner phase) := by
  have same := lawful.of_block here
  subst same
  apply Passes.quiet (Lawful.place lawful.frame rfl _ _ _) rfl
  · rw [here]
    exact fun _ _ => Call.noConfusion
  · exact fun _ _ => Call.noConfusion
  · exact .block _ _ _ _ _

theorem step_passes (lawful : Lawful stage rest state) (session : Nat)
    (event : AdapterEvent) (sound : StepSound state event) :
    Passes state (state.step session event) := by
  cases event with
  | query index kind => exact query_passes lawful session index kind sound
  | withTransaction index => exact withTransaction_passes lawful session index
  | acquired index => exact acquired_passes lawful session index
  | connected index answer =>
      exact connected_passes lawful session index answer
  | answered index answer =>
      exact answered_passes lawful session index answer sound
  | txQuery | leave =>
      dsimp only [AdapterState.step]
      split
      · rename_i here
        exact phase_passes lawful here _
      · exact .quiet lawful rfl

theorem Lawful.gateHeld (lawful : Lawful stage rest state) :
    GateHeld state := by
  intro ticket member
  rw [lawful.frame.gate] at member
  rcases List.mem_append.mp member with first | queued
  · have release := lawful.frame.release
    have slot := lawful.frame.slot
    have explicit := lawful.frame.explicit
    have busy := lawful.frame.busy
    have owner := lawful.owner
    cases stage with
    | free => cases first
    | connecting index _ | pooled index _ _ | begun index _ _ | block index _ _ =>
        cases List.mem_singleton.mp first
        refine ⟨index, .inl ?_⟩
        have owns := owner index rfl
        generalize state.callers index = caller at owns ⊢
        cases owns <;> rfl
    | raw index token client =>
        cases List.mem_singleton.mp first
        refine ⟨index, .inr ⟨release, ?_⟩⟩
        have owns := owner index rfl
        have allows := (busy client rfl).2
        have opens : ∀ transaction,
            (state.clients client).transaction = some transaction →
              RawOpen state index := by
          intro transaction found
          exact ⟨explicit, client, transaction, slot, found,
            allows transaction found⟩
        have held : Stage.transaction (.raw index ticket client) state =
          (state.clients client).transaction := rfl
        rw [held] at owns
        generalize caller : state.callers index = here at owns
        generalize found : (state.clients client).transaction = left at owns
        cases owns with
        | idle owner token client transaction =>
            exact .inl (opens transaction found)
        | waiting owner token client transaction =>
            exact .inl (opens transaction found)
        | routed owner token client transaction =>
            exact .inl (opens transaction found)
        | rescuing owner token client found =>
            refine .inr ⟨client, ?_, slot⟩
            rw [caller]
  · obtain ⟨index, request, call⟩ := lawful.frame.queued ticket queued
    refine ⟨index, .inl ?_⟩
    rw [Caller.ticket, call]

theorem Passes.failureStep {next : AdapterState} (passes : Passes state next) :
    FailureStep state next := by
  intro index failed ticket holds
  obtain ⟨stage, rest, lawful, log⟩ := passes
  rcases log with same | ⟨other, log, out, apart⟩
  · rw [same] at failed
    exact absurd failed (by simp)
  · rw [log] at failed
    have alike : other = index := by
      simpa using List.append_cancel_left failed
    subst alike
    rcases holds with mine | ⟨_, ⟨explicit, client, transaction, slot, found,
        opener⟩ | ⟨client, rescuing, _⟩⟩
    · rw [out] at mine
      cases mine
    · have bound := lawful.frame.slot
      have block := lawful.frame.explicit
      rw [slot] at bound
      rw [explicit] at block
      have busy := lawful.frame.busy
      cases stage with
      | free | connecting | pooled => cases bound
      | begun owner token client =>
          cases bound
          have empty := (busy client rfl).2
          rw [found] at empty
          cases empty
      | raw owner token client =>
          cases bound
          have mine := (busy client rfl).2 transaction found
          apply apart
          show some owner = some other
          rw [← mine, opener]
      | block owner token client => cases block
    · rw [out] at rescuing
      cases rescuing

theorem Sound.lawful {session : Nat} {events : List AdapterEvent} :
    ∀ {state : AdapterState}, Sound session state events →
      (∃ stage rest, Lawful stage rest state) →
      ∃ stage rest, Lawful stage rest
        (events.foldl (fun state event => state.step session event) state) := by
  induction events with
  | nil => exact fun _ lawful => lawful
  | cons event others hypothesis =>
      intro state sound lawful
      obtain ⟨stage, rest, lawful⟩ := lawful
      obtain ⟨next, left, after, _⟩ :=
        step_passes lawful session event sound.1
      exact hypothesis sound.2 ⟨next, left, after⟩

theorem Sound.split {session : Nat} {before after : List AdapterEvent} :
    ∀ {state : AdapterState}, Sound session state (before ++ after) →
      Sound session state before ∧ Sound session
        (before.foldl (fun state event => state.step session event) state)
        after := by
  induction before with
  | nil => exact fun sound => ⟨trivial, sound⟩
  | cons event others hypothesis =>
      intro state sound
      obtain ⟨left, right⟩ := hypothesis sound.2
      exact ⟨⟨sound.1, left⟩, right⟩

/-- In a run in which every statement on the bound client comes from the owner
of its transaction, and no failure leaves a transaction on a released client,
transactions are isolated, the pool is clean, every ticket at the gate belongs
to someone, and a rejected caller holds none. -/
theorem transactions_isolated (session : Nat)
    (before after : List AdapterEvent)
    (sound : Sound session .initial (before ++ after)) :
    Isolated (AdapterState.after session before) ∧
      CleanPool (AdapterState.after session before) ∧
      GateHeld (AdapterState.after session before) ∧
      ∀ event rest, after = event :: rest →
        FailureStep (AdapterState.after session before)
          ((AdapterState.after session before).step session event) := by
  obtain ⟨past, future⟩ := sound.split
  obtain ⟨stage, rest, lawful⟩ := past.lawful ⟨_, _, Lawful.initial⟩
  refine ⟨lawful.frame.isolated, lawful.frame.clean, lawful.gateHeld, ?_⟩
  intro event others next
  rw [next] at future
  exact (step_passes lawful session event future.1).failureStep

namespace OneTransaction

/-- A transaction with one statement, and a query of another caller behind
it. -/
def events : List AdapterEvent :=
  [.query 0 .begin, .acquired 0, .connected 0 (some 0), .answered 0 .done,
    .query 0 .plain, .answered 0 .done, .query 0 .commit, .answered 0 .done,
    .query 1 .plain, .acquired 1, .connected 1 (some 0), .answered 1 .failed]

theorem owns_open (opened : (state.clients 0).transaction = some ⟨0, false⟩)
    (bound : state.activeTransactionClient = some 0) :
    state.activeTransactionClient = some client → Owns state 0 client := by
  intro slot
  rw [bound] at slot
  cases slot
  exact .inl ⟨_, opened, rfl⟩

theorem events_sound : Sound 0 .initial events := by
  refine ⟨?_, trivial, trivial, ?_, ?_, ?_, ?_, ?_, ?_, trivial, trivial, ?_,
    trivial⟩
  · intro _ _ other
    exact absurd rfl other
  · exact fun failure => absurd rfl failure
  · exact fun _ _ _ _ => owns_open rfl rfl
  · exact fun failure => absurd rfl failure
  · exact fun _ _ _ _ => owns_open rfl rfl
  · exact fun failure => absurd rfl failure
  · intro _ _ _ client slot
    cases slot
  · exact fun _ => trivial

/-- Even the last query, which fails, leaves the gate to the next caller. -/
theorem transaction_isolated :
    Isolated (AdapterState.after 0 events) ∧
      CleanPool (AdapterState.after 0 events) ∧
      GateHeld (AdapterState.after 0 events) := by
  have laws := transactions_isolated 0 events []
    (by
      rw [List.append_nil]
      exact events_sound)
  exact ⟨laws.1, laws.2.1, laws.2.2.1⟩

end OneTransaction

namespace SharedClient

/-- A query of another caller while a transaction is open. -/
def foreign : List AdapterEvent :=
  [.query 0 .begin, .acquired 0, .connected 0 (some 0), .answered 0 .done,
    .query 1 .plain, .answered 1 .done]

/-- A statement of the transaction fails. -/
def aborted : List AdapterEvent :=
  [.query 0 .begin, .acquired 0, .connected 0 (some 0), .answered 0 .done,
    .query 0 .plain, .answered 0 .failed]

theorem foreign_statement : ¬Isolated (AdapterState.after 0 foreign) := by
  intro isolated
  have same : (1 : Nat) = 0 :=
    isolated ⟨1, some 0⟩ (by decide) 0 rfl
  cases same

theorem aborted_released : ¬CleanPool (AdapterState.after 0 aborted) := by
  intro clean
  have empty : (some ⟨0, true⟩ : Option Transaction) = none := clean 0 rfl
  cases empty

/-- The adapter mixes callers, and releases clients in aborted transactions. -/
theorem transactions_shared :
    ¬Isolated (AdapterState.after 0 foreign) ∧
      ¬CleanPool (AdapterState.after 0 aborted) :=
  ⟨foreign_statement, aborted_released⟩

end SharedClient

end Takos.LocalPlatform
