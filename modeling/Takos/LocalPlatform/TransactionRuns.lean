import Takos.LocalPlatform.TransactionStages

/-!
# Runs of the transaction gate

One lemma for each way through the adapter, then the step, then the run.  The
last part shows the two ways in which the adapter leaves its stages.
-/

namespace Takos.LocalPlatform

/-- The adapter is at a stage after the step, and a caller that the step has
rejected is out. -/
def Passes (state next : AdapterState) : Prop :=
  ∃ stage rest, Lawful stage rest next ∧
    (next.rejected = state.rejected ∨ ∃ index,
      next.rejected = state.rejected ++ [index] ∧
        next.callers index = .atRest ∧ stage.owner ≠ some index)

variable {state : AdapterState} {rest : List Nat} {stage : Stage} {index : Nat}
  {owner ticket client : Nat}

theorem Lawful.rejected (lawful : Lawful stage rest state) (log : List Nat) :
    Lawful stage rest { state with rejected := log } := by
  obtain ⟨frame, owner⟩ := lawful
  exact ⟨⟨frame.gate, frame.nodup, frame.below, frame.queued, frame.waiting,
    frame.single, frame.slot, frame.release, frame.explicit, frame.clean,
    frame.busy, frame.others, frame.isolated⟩, owner⟩

theorem Passes.quiet {next : AdapterState} (lawful : Lawful stage rest next)
    (same : next.rejected = state.rejected) : Passes state next :=
  ⟨stage, rest, lawful, .inl same⟩

theorem Passes.rejects {middle : AdapterState}
    (lawful : Lawful stage rest (middle.setCall index .idle))
    (apart : stage.owner ≠ some index)
    (outside : (middle.callers index).block = none)
    (same : middle.rejected = state.rejected) :
    Passes state (middle.reject index) := by
  have log : (middle.reject index).rejected = state.rejected ++ [index] := by
    show (if (middle.callers index).block.isNone then _ else _) = _
    rw [outside, ← same]
    rfl
  refine ⟨stage, rest, ?_, .inr ⟨index, log, ?_, apart⟩⟩
  · exact lawful.rejected (middle.reject index).rejected
  · have self : (middle.reject index).callers index =
        ⟨.idle, (middle.callers index).block⟩ := Function.update_self _ _ _
    rw [self, outside]
    rfl

theorem Stage.of_bound (bound : stage.bound = some (ticket, client)) :
    stage.ticket = some ticket ∧ stage.client = some client := by
  cases stage <;> cases bound <;> exact ⟨rfl, rfl⟩

theorem setCall_idle (idle : (state.callers index).call = .idle) :
    state.setCall index .idle = state := by
  have same : (⟨.idle, (state.callers index).block⟩ : Caller) =
      state.callers index := by
    rw [← idle]
  unfold AdapterState.setCall AdapterState.setCaller
  rw [same, Function.update_eq_self]

theorem clients_setPooled (state : AdapterState) (client : Nat)
    (pooled : Bool) :
    (state.setPooled client pooled).clients client =
      ⟨(state.clients client).transaction, pooled⟩ :=
  Function.update_self _ _ _

theorem CleanPool.setPooled (clean : CleanPool state) {pooled : Bool}
    (empty : pooled = true → (state.clients client).transaction = none) :
    CleanPool (state.setPooled client pooled) := by
  intro other found
  by_cases same : other = client
  · subst same
    rw [clients_setPooled] at found ⊢
    exact empty found
  · have kept : (state.setPooled client pooled).clients other =
        state.clients other := Function.update_of_ne same _ _
    rw [kept] at found ⊢
    exact clean other found

theorem Frame.finish (frame : Frame stage rest state)
    (held : stage.owner = some owner)
    (bound : stage.bound = some (ticket, client))
    (before : NotWaiting (state.callers owner).call)
    (outside : (state.callers owner).block = none)
    (explicit : state.inExplicitTx = false)
    (empty : (state.clients client).transaction = none) :
    Lawful .free rest (state.finishTransaction.setCall owner .idle) := by
  obtain ⟨mine, has⟩ := Stage.of_bound bound
  have slot : state.activeTransactionClient = some client := by
    rw [frame.slot, bound]
    rfl
  have release : state.releaseGate = some ticket := by
    rw [frame.release, bound]
    rfl
  have same : state.finishTransaction =
      { state with
        activeTransactionClient := none
        releaseGate := none
        gate := state.gate.filter (· ≠ ticket)
        clients := (state.setPooled client true).clients } := by
    unfold AdapterState.finishTransaction
    rw [slot, release]
    dsimp only
    rw [(frame.busy client has).1, if_neg Bool.false_ne_true]
    rfl
  have callers : (state.finishTransaction.setCall owner .idle).callers =
      Function.update state.callers owner .atRest := by
    rw [same]
    show Function.update state.callers owner
      ⟨.idle, (state.callers owner).block⟩ = _
    rw [outside]
    rfl
  refine frame.freed held mine before ?_ ?_ ?_ ?_ ?_ callers ?_ ?_
  · rw [same]
    rfl
  · rw [same]
    rfl
  · rw [same]
    rfl
  · rw [same]
    rfl
  · rw [same]
    exact explicit
  · rw [same]
    exact frame.clean.setPooled fun _ => empty
  · rw [same]
    rfl

theorem Frame.settled (frame : Frame (.pooled owner ticket client) rest state)
    (before : NotWaiting (state.callers owner).call)
    (outside : (state.callers owner).block = none) :
    Lawful .free rest
      (((state.setPooled client true).releaseTicket ticket).setCall owner
        .idle) := by
  have callers : (((state.setPooled client true).releaseTicket ticket).setCall
      owner .idle).callers = Function.update state.callers owner .atRest := by
    show Function.update state.callers owner
      ⟨.idle, (state.callers owner).block⟩ = _
    rw [outside]
    rfl
  refine frame.freed rfl rfl before rfl rfl frame.slot frame.release
    frame.explicit callers ?_ rfl
  exact frame.clean.setPooled fun _ => (frame.busy client rfl).2

theorem Frame.closed (frame : Frame (.block owner ticket client) rest state)
    (before : NotWaiting (state.callers owner).call) (phase : BlockPhase)
    (committed : Bool) (empty : (state.clients client).transaction = none) :
    Passes state
      (state.finishBlock owner ⟨ticket, client, phase⟩ committed) := by
  have unpooled := (frame.busy client rfl).1
  let unbound : AdapterState :=
    { state with
      inExplicitTx := false, activeTransactionClient := none,
      releaseGate := none }
  let released := ((unbound.setPooled client true).releaseTicket
    ticket).setCaller owner .atRest
  have lawful : Lawful .free rest released := by
    refine frame.freed rfl rfl before rfl rfl rfl rfl rfl rfl ?_ rfl
    exact frame.clean.setPooled fun _ => empty
  have same : state.finishBlock owner ⟨ticket, client, phase⟩ committed =
      if committed then released else released.reject owner := by
    unfold AdapterState.finishBlock
    dsimp only
    rw [unpooled, if_neg Bool.false_ne_true]
  rw [same]
  cases committed with
  | true => exact .quiet lawful rfl
  | false =>
      have self : released.callers owner = .atRest := Function.update_self _ _ _
      have again : released.setCall owner .idle = released := by
        apply setCall_idle
        rw [self]
        rfl
      have outside : (released.callers owner).block = none := by
        rw [self]
        rfl
      have idle : Lawful .free rest (released.setCall owner .idle) := by
        rw [again]
        exact lawful
      exact .rejects idle nofun outside rfl

theorem Frame.taken {next : AdapterState} {caller : Caller}
    (frame : Frame (.connecting owner ticket) rest state)
    (held : stage.owner = some owner) (mine : stage.ticket = some ticket)
    (has : stage.client = some client)
    (allows : ∀ found, found = none → stage.Allows found)
    (pooled : (state.clients client).pooled = true)
    (before : NotWaiting (state.callers owner).call)
    (later : NotWaiting caller.call) (gate : next.gate = state.gate)
    (counter : next.nextTicket = state.nextTicket)
    (slot : next.activeTransactionClient = stage.bound.map Prod.snd)
    (release : next.releaseGate = stage.bound.map Prod.fst)
    (explicit : next.inExplicitTx = stage.isBlock)
    (clients : next.clients = (state.setPooled client false).clients)
    (callers : next.callers = Function.update state.callers owner caller)
    (log : next.executed = state.executed) : Frame stage rest next := by
  have waits := waits_update callers before later
  refine ⟨?_, ?_, ?_, ?_, ?_, ?_, slot, release, explicit, ?_, ?_, ?_, ?_⟩
  · rw [gate, frame.gate, mine]
    rfl
  · rw [gate]
    exact frame.nodup
  · intro token member
    rw [gate] at member
    rw [counter]
    exact frame.below token member
  · intro token member
    obtain ⟨index, found⟩ := frame.queued token member
    exact ⟨index, (waits index token).mpr found⟩
  · intro index token found
    exact frame.waiting index token ((waits index token).mp found)
  · intro index other token found again
    exact frame.single index other token ((waits index token).mp found)
      ((waits other token).mp again)
  · have clean : CleanPool (state.setPooled client false) :=
      frame.clean.setPooled fun impossible => Bool.noConfusion impossible
    intro other found
    rw [clients] at found ⊢
    exact clean other found
  · intro other again
    rw [has] at again
    cases again
    rw [clients, clients_setPooled]
    exact ⟨rfl, allows _ (frame.clean client pooled)⟩
  · intro index apart
    have unlike : index ≠ owner := by
      intro same
      rw [same] at apart
      exact apart held
    rw [callers, Function.update_of_ne unlike]
    apply frame.others
    intro again
    exact unlike (Option.some.inj again).symm
  · intro execution member
    rw [log] at member
    exact frame.isolated execution member

theorem Lawful.acquire (lawful : Lawful stage rest state) (request : Request)
    (here : state.callers index = ⟨.idle, none⟩) :
    Passes state (state.acquire index request) := by
  have idle : (state.callers index).call = .idle := by rw [here]
  have outside : (state.callers index).block = none := by rw [here]
  have frame := lawful.frame.acquire request idle outside
  refine .quiet ⟨frame, ?_⟩ rfl
  intro owner held
  have kept : stage.transaction (state.acquire index request) =
      stage.transaction state := rfl
  rw [kept]
  by_cases same : owner = index
  · subst same
    have owns := lawful.owner owner held
    have self : (state.acquire owner request).callers owner =
        ⟨.waiting request state.nextTicket, (state.callers owner).block⟩ :=
      Function.update_self _ _ _
    rw [self, outside]
    rw [here] at owns
    generalize stage.transaction state = found at owns
    cases owns with
    | idle other ticket client transaction =>
        exact .waiting _ ticket client transaction request _
  · have other : (state.acquire index request).callers owner =
        state.callers owner := Function.update_of_ne same _ _
    rw [other]
    exact lawful.owner owner held

theorem Lawful.place (frame : Frame stage rest state) {caller : Caller}
    (held : stage.owner = some owner)
    (before : NotWaiting (state.callers owner).call)
    (later : NotWaiting caller.call)
    (owns : stage.OwnerOk caller (stage.transaction state)) :
    Lawful stage rest (state.setCaller owner caller) := by
  refine ⟨frame.setCaller held before later, ?_⟩
  intro other again
  rw [held] at again
  cases again
  rw [callers_setCaller]
  exact owns

theorem routed_passes (lawful : Lawful stage rest state)
    {kind : StatementKind} {block : Option Block}
    (here : state.callers index = ⟨.idle, block⟩)
    (inside : ∀ inner, block = some inner → inner.phase = .body)
    (allowed : state.inExplicitTx = true → kind = .plain)
    (other : kind ≠ .begin)
    (slot : state.activeTransactionClient = some client)
    (owns : Owns state index client) :
    Passes state (state.setCall index (.routed kind client)) := by
  have idle : (state.callers index).call = .idle := by rw [here]
  have slotted := lawful.frame.slot
  rw [slot] at slotted
  obtain ⟨⟨ticket, _⟩, bound, rfl⟩ := Option.map_eq_some_iff.mp slotted.symm
  have has := (Stage.of_bound bound).2
  have held : stage.owner = some index := by
    rcases owns with ⟨transaction, found, opener⟩ | ⟨token, inside⟩
    · by_contra apart
      have allows := (lawful.frame.busy _ has).2
      cases stage with
      | free | connecting | pooled => cases bound
      | begun owner token client =>
          cases bound
          rw [found] at allows
          cases allows
      | raw | block =>
          cases bound
          rw [← opener, allows transaction found] at apart
          exact apart rfl
    · by_contra apart
      have outside := (lawful.frame.others index apart).outside
      rw [inside] at outside
      cases outside
  have owner := lawful.owner index held
  have explicit := lawful.frame.explicit
  apply Passes.quiet (Lawful.place lawful.frame held _ _ _) rfl
  · rw [idle]
    exact fun _ _ => Call.noConfusion
  · exact fun _ _ => Call.noConfusion
  · rw [here] at owner ⊢
    generalize stage.transaction state = found at owner
    cases owner with
    | idle owner token client transaction =>
        cases bound
        exact .routed _ _ _ transaction kind other
    | block owner token client phase =>
        cases bound
        rw [allowed explicit]
        cases inside _ rfl
        exact .nested _ _ _ found

theorem Lawful.of_block (lawful : Lawful stage rest state) {inner : Block}
    (here : state.callers index = ⟨.idle, some inner⟩) :
    stage = .block index inner.ticket inner.client := by
  rcases lawful.cases here with parked | ⟨found, held, _, owns⟩
  · cases parked
  · cases owns with
    | block owner ticket client phase =>
        cases held
        rfl

theorem runQuery_passes (lawful : Lawful stage rest state)
    {kind : StatementKind} {block : Option Block}
    (here : state.callers index = ⟨.idle, block⟩)
    (inside : ∀ inner, block = some inner → inner.phase = .body)
    (sound : (state.inExplicitTx = true → kind = .plain) → kind ≠ .begin →
      ∀ client, state.activeTransactionClient = some client →
        Owns state index client) :
    Passes state (state.runQuery index kind) := by
  have idle : (state.callers index).call = .idle := by rw [here]
  have outer : (state.callers index).block = block := by rw [here]
  have still : state.setCall index .idle = state := setCall_idle idle
  have explicit := lawful.frame.explicit
  unfold AdapterState.runQuery
  split
  · rename_i refused
    have lawful' : Lawful stage rest (state.setCall index .idle) := by
      rw [still]
      exact lawful
    cases block with
    | none =>
        refine .rejects lawful' ?_ outer rfl
        intro held
        have owns := lawful.owner index held
        rw [here] at owns
        rw [refused.1] at explicit
        generalize stage.transaction state = found at owns
        cases owns with
        | idle owner ticket client transaction => cases explicit
    | some inner =>
        refine .quiet (lawful'.rejected (state.reject index).rejected) ?_
        show (if (state.callers index).block.isNone then _ else _) = _
        rw [outer]
        rfl
  · rename_i accepted
    have allowed : state.inExplicitTx = true → kind = .plain := by
      intro running
      by_contra other
      exact accepted ⟨running, other⟩
    split
    · rename_i starts
      cases block with
      | none => exact lawful.acquire _ here
      | some inner =>
          rw [lawful.of_block here] at explicit
          rw [starts] at allowed
          cases allowed explicit
    · rename_i other
      split
      · rename_i client slot
        exact routed_passes lawful here inside allowed other slot
          (sound allowed other client slot)
      · rename_i slot
        cases block with
        | none => exact lawful.acquire _ here
        | some inner =>
            have bound := lawful.frame.slot
            rw [lawful.of_block here, slot] at bound
            cases bound

theorem query_passes (lawful : Lawful stage rest state) (session index : Nat)
    (kind : StatementKind) (sound : StepSound state (.query index kind)) :
    Passes state (state.step session (.query index kind)) := by
  dsimp only [AdapterState.step]
  split
  · rename_i here
    have inside : ∀ inner : Block, none = some inner → inner.phase = .body :=
      nofun
    apply runQuery_passes lawful here inside
    apply sound
    rw [Caller.Ready, here]
    exact ⟨rfl, inside⟩
  · rename_i ticket client here
    have inside : ∀ inner : Block,
        some ⟨ticket, client, .body⟩ = some inner → inner.phase = .body := by
      intro inner same
      cases same
      rfl
    apply runQuery_passes lawful here inside
    apply sound
    rw [Caller.Ready, here]
    exact ⟨rfl, inside⟩
  · exact .quiet lawful rfl

theorem withTransaction_passes (lawful : Lawful stage rest state)
    (session index : Nat) :
    Passes state (state.step session (.withTransaction index)) := by
  dsimp only [AdapterState.step]
  split
  · rename_i here
    exact lawful.acquire _ here
  · exact .quiet lawful rfl

theorem Frame.free_of_head (frame : Frame stage rest state)
    (waits : Waits state index ticket)
    (first : state.gate.head? = some ticket) :
    stage = .free ∧ ∃ others, rest = ticket :: others := by
  have member := frame.waiting index ticket waits
  have distinct := frame.nodup
  have gate := frame.gate
  cases mine : stage.ticket with
  | some other =>
      rw [gate, mine] at first distinct
      cases first
      exact absurd member (List.nodup_cons.mp distinct).1
  | none =>
      rw [gate, mine] at first
      refine ⟨?_, ?_⟩
      · cases stage <;> cases mine
        rfl
      · cases rest with
        | nil => cases first
        | cons head others =>
            cases first
            exact ⟨others, rfl⟩

theorem acquired_passes (lawful : Lawful stage rest state)
    (session index : Nat) :
    Passes state (state.step session (.acquired index)) := by
  dsimp only [AdapterState.step]
  split
  · rename_i request ticket call
    split
    · rename_i first
      obtain ⟨same, others, more⟩ :=
        lawful.frame.free_of_head ⟨request, call⟩ first
      subst same
      subst more
      have slot : state.activeTransactionClient = none := lawful.frame.slot
      unfold AdapterState.pass
      rw [slot, if_neg (fun both => Bool.noConfusion both.2)]
      exact .quiet (lawful.frame.pass call) rfl
    · exact .quiet lawful rfl
  · exact .quiet lawful rfl

theorem Lawful.of_connecting (lawful : Lawful stage rest state)
    {request : Request}
    (call : (state.callers index).call = .connecting request ticket) :
    stage = .connecting index ticket ∧
      (state.callers index).block = none := by
  obtain ⟨block, here⟩ : ∃ block, state.callers index =
      ⟨.connecting request ticket, block⟩ :=
    ⟨(state.callers index).block, by rw [← call]⟩
  rcases lawful.cases here with parked | ⟨found, held, _, owns⟩
  · cases parked
  · cases owns with
    | connecting owner ticket request found =>
        cases held
        rw [here]
        exact ⟨rfl, rfl⟩

theorem connect_passes {request : Request}
    (frame : Frame (.connecting index ticket) rest state)
    (call : (state.callers index).call = .connecting request ticket)
    (outside : (state.callers index).block = none)
    (pooled : (state.clients client).pooled = true) (session : Nat) :
    Passes state (state.connect session index request ticket client) := by
  have before : NotWaiting (state.callers index).call := by
    rw [call]
    exact fun _ _ => Call.noConfusion
  have slot := frame.slot
  have release := frame.release
  have explicit := frame.explicit
  have single : ∀ kind, kind ≠ .begin →
      Passes state ((state.setPooled client false).setCall index
        (.sent kind ticket client session)) := by
    intro kind other
    have callers : ((state.setPooled client false).setCall index
        (.sent kind ticket client session)).callers =
        Function.update state.callers index
          ⟨.sent kind ticket client session, none⟩ := by
      show Function.update state.callers index
        ⟨.sent kind ticket client session, (state.callers index).block⟩ = _
      rw [outside]
    have taken : Frame (.pooled index ticket client) rest
        ((state.setPooled client false).setCall index
          (.sent kind ticket client session)) :=
      frame.taken rfl rfl rfl (fun _ none => none) pooled before
        (fun _ _ => Call.noConfusion) rfl rfl slot release explicit rfl
        callers rfl
    refine .quiet ⟨taken, ?_⟩ rfl
    intro owner held
    cases held
    rw [callers, Function.update_self]
    exact .pooled _ _ _ kind session _ other
  unfold AdapterState.connect
  cases request with
  | transaction =>
      have taken : Frame (.block index ticket client) rest
          (({ (state.setPooled client false).bind ticket client with
            inExplicitTx := true }).setCaller index
              ⟨.idle, some ⟨ticket, client, .opening session⟩⟩) := by
        refine frame.taken rfl rfl rfl ?_ pooled before
          (fun _ _ => Call.noConfusion) rfl rfl rfl rfl rfl rfl rfl rfl
        intro found none transaction some
        rw [none] at some
        cases some
      refine .quiet ⟨taken, ?_⟩ rfl
      intro owner held
      cases held
      rw [callers_setCaller]
      exact .block _ _ _ _ _
  | statement kind =>
      cases kind with
      | begin =>
          have callers : (((state.setPooled client false).bind ticket
              client).setCall index
                (.sent .begin ticket client session)).callers =
              Function.update state.callers index
                ⟨.sent .begin ticket client session, none⟩ := by
            show Function.update state.callers index
              ⟨.sent .begin ticket client session,
                (state.callers index).block⟩ = _
            rw [outside]
          have taken : Frame (.begun index ticket client) rest
              (((state.setPooled client false).bind ticket client).setCall
                index (.sent .begin ticket client session)) :=
            frame.taken rfl rfl rfl (fun _ none => none) pooled before
              (fun _ _ => Call.noConfusion) rfl rfl rfl rfl explicit rfl
              callers rfl
          refine .quiet ⟨taken, ?_⟩ rfl
          intro owner held
          cases held
          rw [callers, Function.update_self]
          exact .begun _ _ _ session _
      | commit => exact single .commit nofun
      | rollback => exact single .rollback nofun
      | plain => exact single .plain nofun

theorem connected_passes (lawful : Lawful stage rest state)
    (session index : Nat) (answer : Option Nat) :
    Passes state (state.step session (.connected index answer)) := by
  dsimp only [AdapterState.step]
  split
  · rename_i request ticket client call
    obtain ⟨same, outside⟩ := lawful.of_connecting call
    subst same
    split
    · rename_i pooled
      exact connect_passes lawful.frame call outside pooled session
    · exact .quiet lawful rfl
  · rename_i request ticket call
    obtain ⟨same, outside⟩ := lawful.of_connecting call
    subst same
    have callers : ((state.releaseTicket ticket).setCall index .idle).callers =
        Function.update state.callers index .atRest := by
      show Function.update state.callers index
        ⟨.idle, (state.callers index).block⟩ = _
      rw [outside]
      rfl
    have before : NotWaiting (state.callers index).call := by
      rw [call]
      exact fun _ _ => Call.noConfusion
    have frame := lawful.frame
    have freed : Lawful .free rest
        ((state.releaseTicket ticket).setCall index .idle) :=
      frame.freed rfl rfl before rfl rfl frame.slot frame.release
        frame.explicit callers frame.clean rfl
    exact .rejects freed nofun outside rfl
  · exact .quiet lawful rfl

end Takos.LocalPlatform
