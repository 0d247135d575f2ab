import Takos.LocalPlatform.TransactionGate
import Mathlib.Data.List.Nodup

/-!
# Who is past the gate

In a run where only its owner uses an open transaction and nothing is released
with a transaction left, the adapter is at one of six stages.  The caller with
the first ticket is the only one past the gate.
-/

namespace Takos.LocalPlatform

/-- The statement of the caller belongs on the client. -/
def Owns (state : AdapterState) (index client : Nat) : Prop :=
  (∃ transaction, (state.clients client).transaction = some transaction ∧
    transaction.opener = index) ∨
    ∃ ticket, (state.callers index).block = some ⟨ticket, client, .body⟩

/-- The caller may start a statement of its own. -/
def Caller.Ready (caller : Caller) : Prop :=
  caller.call = .idle ∧
    ∀ block, caller.block = some block → block.phase = .body

/-- Only the owner of a transaction uses the bound client, and the failure
after which a client is released leaves no transaction on it. -/
def StepSound (state : AdapterState) : AdapterEvent → Prop
  | .query index kind =>
    (state.callers index).Ready → (state.inExplicitTx = true → kind = .plain) →
      kind ≠ .begin → ∀ client, state.activeTransactionClient = some client →
        Owns state index client
  | .answered index answer =>
    answer ≠ .done →
      match state.callers index with
      | ⟨.routed .commit _, block⟩ => block.isNone = true
      | ⟨.routed _ client, block⟩ =>
        block.isNone = true ∧
          (answer = .failed → (state.clients client).transaction = none)
      | ⟨.rescuing client, _⟩ =>
        answer = .failed → (state.clients client).transaction = none
      | ⟨.idle, some ⟨_, client, .unwinding⟩⟩ =>
        answer = .failed → (state.clients client).transaction = none
      | _ => True
  | _ => True

def Sound (session : Nat) (state : AdapterState) : List AdapterEvent → Prop
  | [] => True
  | event :: rest =>
    StepSound state event ∧ Sound session (state.step session event) rest

inductive Stage where
  | free
  | connecting (owner ticket : Nat)
  /-- A statement outside transactions, on a client of its own. -/
  | pooled (owner ticket client : Nat)
  /-- `BEGIN` is on its way. -/
  | begun (owner ticket client : Nat)
  | raw (owner ticket client : Nat)
  | block (owner ticket client : Nat)

namespace Stage

def owner : Stage → Option Nat
  | .free => none
  | .connecting owner _ => some owner
  | .pooled owner _ _ => some owner
  | .begun owner _ _ => some owner
  | .raw owner _ _ => some owner
  | .block owner _ _ => some owner

def ticket : Stage → Option Nat
  | .free => none
  | .connecting _ ticket => some ticket
  | .pooled _ ticket _ => some ticket
  | .begun _ ticket _ => some ticket
  | .raw _ ticket _ => some ticket
  | .block _ ticket _ => some ticket

def client : Stage → Option Nat
  | .pooled _ _ client => some client
  | .begun _ _ client => some client
  | .raw _ _ client => some client
  | .block _ _ client => some client
  | _ => none

/-- The stage binds the client and the release of the gate. -/
def bound : Stage → Option (Nat × Nat)
  | .begun _ ticket client => some (ticket, client)
  | .raw _ ticket client => some (ticket, client)
  | .block _ ticket client => some (ticket, client)
  | _ => none

def isBlock : Stage → Bool
  | .block _ _ _ => true
  | _ => false

def Allows : Stage → Option Transaction → Prop
  | .raw owner _ _, found =>
    ∀ transaction, found = some transaction → transaction.opener = owner
  | .block owner _ _, found =>
    ∀ transaction, found = some transaction → transaction.opener = owner
  | _, found => found = none

/-- What the owner of the stage does, with what is on its client. -/
inductive OwnerOk : Stage → Caller → Option Transaction → Prop where
  | connecting (owner ticket : Nat) (request : Request)
      (found : Option Transaction) :
      OwnerOk (.connecting owner ticket) ⟨.connecting request ticket, none⟩
        found
  | pooled (owner ticket client : Nat) (kind : StatementKind) (left : Nat)
      (found : Option Transaction) (other : kind ≠ .begin) :
      OwnerOk (.pooled owner ticket client)
        ⟨.sent kind ticket client left, none⟩ found
  | begun (owner ticket client left : Nat) (found : Option Transaction) :
      OwnerOk (.begun owner ticket client)
        ⟨.sent .begin ticket client left, none⟩ found
  | idle (owner ticket client : Nat) (transaction : Transaction) :
      OwnerOk (.raw owner ticket client) ⟨.idle, none⟩ (some transaction)
  | waiting (owner ticket client : Nat) (transaction : Transaction)
      (request : Request) (later : Nat) :
      OwnerOk (.raw owner ticket client) ⟨.waiting request later, none⟩
        (some transaction)
  | routed (owner ticket client : Nat) (transaction : Transaction)
      (kind : StatementKind) (other : kind ≠ .begin) :
      OwnerOk (.raw owner ticket client) ⟨.routed kind client, none⟩
        (some transaction)
  | rescuing (owner ticket client : Nat) (found : Option Transaction) :
      OwnerOk (.raw owner ticket client) ⟨.rescuing client, none⟩ found
  | block (owner ticket client : Nat) (phase : BlockPhase)
      (found : Option Transaction) :
      OwnerOk (.block owner ticket client)
        ⟨.idle, some ⟨ticket, client, phase⟩⟩ found
  | nested (owner ticket client : Nat) (found : Option Transaction) :
      OwnerOk (.block owner ticket client)
        ⟨.routed .plain client, some ⟨ticket, client, .body⟩⟩ found

end Stage

/-- The caller is not past the gate. -/
inductive Parked : Caller → Prop where
  | idle : Parked .atRest
  | waiting (request : Request) (ticket : Nat) :
      Parked ⟨.waiting request ticket, none⟩

variable {caller : Caller} {state : AdapterState} {rest : List Nat}
  {stage : Stage}

theorem Parked.outside (parked : Parked caller) : caller.block = none := by
  cases parked with
  | idle | waiting => rfl

def Waits (state : AdapterState) (index ticket : Nat) : Prop :=
  ∃ request, (state.callers index).call = .waiting request ticket

/-- The adapter at a stage, but for what the owner does; `rest` are the tickets
of the callers that wait. -/
structure Frame (stage : Stage) (rest : List Nat) (state : AdapterState) :
    Prop where
  gate : state.gate = stage.ticket.toList ++ rest
  nodup : state.gate.Nodup
  below : ∀ ticket ∈ state.gate, ticket < state.nextTicket
  queued : ∀ ticket ∈ rest, ∃ index, Waits state index ticket
  waiting : ∀ index ticket, Waits state index ticket → ticket ∈ rest
  single : ∀ index other ticket, Waits state index ticket →
    Waits state other ticket → index = other
  slot : state.activeTransactionClient = stage.bound.map Prod.snd
  release : state.releaseGate = stage.bound.map Prod.fst
  explicit : state.inExplicitTx = stage.isBlock
  clean : CleanPool state
  busy : ∀ client, stage.client = some client →
    (state.clients client).pooled = false ∧
      stage.Allows (state.clients client).transaction
  others : ∀ index, stage.owner ≠ some index → Parked (state.callers index)
  isolated : Isolated state

def Stage.transaction (stage : Stage) (state : AdapterState) :
    Option Transaction :=
  stage.client.bind fun client => (state.clients client).transaction

structure Lawful (stage : Stage) (rest : List Nat) (state : AdapterState) :
    Prop where
  frame : Frame stage rest state
  owner : ∀ owner, stage.owner = some owner →
    stage.OwnerOk (state.callers owner) (stage.transaction state)

theorem Lawful.initial : Lawful .free [] .initial := by
  refine ⟨⟨rfl, List.nodup_nil, ?_, ?_, ?_, ?_, rfl, rfl, rfl, ?_, ?_, ?_, ?_⟩,
    ?_⟩
  · intro ticket member
    cases member
  · intro ticket member
    cases member
  · intro index ticket waits
    obtain ⟨request, call⟩ := waits
    cases call
  · intro index other ticket waits
    obtain ⟨request, call⟩ := waits
    cases call
  · intro client pooled
    rfl
  · intro client held
    cases held
  · intro index apart
    exact .idle
  · intro execution member
    cases member
  · intro owner held
    cases held

theorem Lawful.cases (lawful : Lawful stage rest state) {index : Nat}
    (here : state.callers index = caller) :
    Parked caller ∨ ∃ found, stage.owner = some index ∧
      stage.transaction state = found ∧ stage.OwnerOk caller found := by
  by_cases held : stage.owner = some index
  · have owns := lawful.owner index held
    rw [here] at owns
    exact .inr ⟨_, held, rfl, owns⟩
  · have parked := lawful.frame.others index held
    rw [here] at parked
    exact .inl parked

theorem callers_setCaller (state : AdapterState) (index : Nat)
    (caller : Caller) :
    (state.setCaller index caller).callers index = caller :=
  Function.update_self _ _ _

def NotWaiting (call : Call) : Prop :=
  ∀ request ticket, call ≠ .waiting request ticket

theorem waits_update {next : AdapterState} {owner : Nat}
    (callers : next.callers = Function.update state.callers owner caller)
    (before : NotWaiting (state.callers owner).call)
    (later : NotWaiting caller.call) (index ticket : Nat) :
    Waits next index ticket ↔ Waits state index ticket := by
  rw [Waits, Waits, callers]
  by_cases same : index = owner
  · rw [same, Function.update_self]
    constructor
    · rintro ⟨request, call⟩
      exact absurd call (later request ticket)
    · rintro ⟨request, call⟩
      exact absurd call (before request ticket)
  · rw [Function.update_of_ne same]

theorem Frame.setCaller (frame : Frame stage rest state) {owner : Nat}
    (held : stage.owner = some owner)
    (before : NotWaiting (state.callers owner).call)
    (later : NotWaiting caller.call) :
    Frame stage rest (state.setCaller owner caller) := by
  have waits : ∀ index ticket,
      Waits (state.setCaller owner caller) index ticket ↔
        Waits state index ticket := waits_update rfl before later
  refine { frame with
    queued := ?_, waiting := ?_, single := ?_, others := ?_ }
  · intro ticket member
    obtain ⟨index, found⟩ := frame.queued ticket member
    exact ⟨index, (waits index ticket).mpr found⟩
  · intro index ticket found
    exact frame.waiting index ticket ((waits index ticket).mp found)
  · intro index other ticket found again
    exact frame.single index other ticket ((waits index ticket).mp found)
      ((waits other ticket).mp again)
  · intro index apart
    have unlike : index ≠ owner := by
      intro same
      rw [same] at apart
      exact apart held
    have kept : (state.setCaller owner caller).callers index =
        state.callers index := Function.update_of_ne unlike _ _
    rw [kept]
    exact frame.others index apart

theorem Stage.Allows.opener {found : Option Transaction}
    (allows : stage.Allows found) {owner : Nat}
    (held : stage.owner = some owner) {transaction : Transaction}
    (same : found = some transaction) : transaction.opener = owner := by
  cases stage with
  | raw | block =>
      cases held
      exact allows transaction same
  | free => cases held
  | connecting | pooled | begun =>
      rw [same] at allows
      cases allows

theorem clients_execute (state : AdapterState) (issuer client : Nat)
    (kind : StatementKind) (answer : Answer) :
    (state.execute issuer client kind answer).clients client =
      ⟨transactionAfter issuer kind answer
          (state.clients client).transaction,
        (state.clients client).pooled⟩ :=
  Function.update_self _ _ _

theorem Frame.execute (frame : Frame stage rest state) {owner client : Nat}
    (held : stage.owner = some owner) (mine : stage.client = some client)
    (kind : StatementKind) (answer : Answer)
    (allows : stage.Allows (transactionAfter owner kind answer
      (state.clients client).transaction)) :
    Frame stage rest (state.execute owner client kind answer) := by
  obtain ⟨unpooled, before⟩ := frame.busy client mine
  refine { frame with clean := ?_, busy := ?_, isolated := ?_ }
  · intro other pooled
    by_cases same : other = client
    · subst same
      rw [clients_execute] at pooled
      rw [unpooled] at pooled
      cases pooled
    · have kept : (state.execute owner client kind answer).clients other =
          state.clients other := Function.update_of_ne same _ _
      rw [kept] at pooled ⊢
      exact frame.clean other pooled
  · intro other again
    rw [mine] at again
    cases again
    rw [clients_execute]
    exact ⟨unpooled, allows⟩
  · intro execution member opener opened
    rcases List.mem_append.mp member with old | new
    · exact frame.isolated execution old opener opened
    · rw [List.mem_singleton.mp new] at opened ⊢
      obtain ⟨transaction, found, same⟩ := Option.map_eq_some_iff.mp opened
      rw [← same]
      exact (before.opener held found).symm

theorem Frame.ticket_apart (frame : Frame stage rest state) {ticket : Nat}
    (mine : stage.ticket = some ticket) :
    state.gate.filter (· ≠ ticket) = rest := by
  have distinct := frame.nodup
  rw [frame.gate, mine] at distinct ⊢
  have apart := (List.nodup_cons.mp distinct).1
  have keep : ∀ other ∈ rest, decide (other ≠ ticket) = true := by
    intro other member
    apply decide_eq_true
    intro same
    rw [same] at member
    exact apart member
  show List.filter (· ≠ ticket) (ticket :: rest) = rest
  rw [List.filter_cons_of_neg (by simp), List.filter_eq_self.mpr keep]

theorem Frame.freed {state next : AdapterState}
    (frame : Frame stage rest state) {owner ticket : Nat}
    (held : stage.owner = some owner) (mine : stage.ticket = some ticket)
    (before : NotWaiting (state.callers owner).call)
    (gate : next.gate = state.gate.filter (· ≠ ticket))
    (counter : next.nextTicket = state.nextTicket)
    (slot : next.activeTransactionClient = none)
    (release : next.releaseGate = none) (explicit : next.inExplicitTx = false)
    (callers : next.callers = Function.update state.callers owner .atRest)
    (clean : CleanPool next) (log : next.executed = state.executed) :
    Lawful .free rest next := by
  have gone : next.gate = rest := gate.trans (frame.ticket_apart mine)
  have inside : ∀ other ∈ rest, other ∈ state.gate := by
    intro other member
    rw [frame.gate]
    exact List.mem_append_right _ member
  have waits := waits_update callers before (by rintro request other ⟨⟩)
  refine ⟨⟨gone, ?_, ?_, ?_, ?_, ?_, slot, release, explicit, clean, ?_, ?_,
    ?_⟩, ?_⟩
  · rw [gate]
    exact frame.nodup.filter _
  · intro other member
    rw [counter]
    rw [gone] at member
    exact frame.below other (inside other member)
  · intro other member
    obtain ⟨index, found⟩ := frame.queued other member
    exact ⟨index, (waits index other).mpr found⟩
  · intro index other found
    exact frame.waiting index other ((waits index other).mp found)
  · intro index other token found again
    exact frame.single index other token ((waits index token).mp found)
      ((waits other token).mp again)
  · intro client has
    cases has
  · intro index _
    rw [callers]
    by_cases same : index = owner
    · rw [same, Function.update_self]
      exact .idle
    · rw [Function.update_of_ne same]
      apply frame.others
      intro again
      rw [held] at again
      exact same (Option.some.inj again).symm
  · intro execution member
    rw [log] at member
    exact frame.isolated execution member
  · intro other has
    cases has

theorem Frame.acquire (frame : Frame stage rest state) {index : Nat}
    (request : Request) (idle : (state.callers index).call = .idle)
    (outside : (state.callers index).block = none) :
    Frame stage (rest ++ [state.nextTicket]) (state.acquire index request) := by
  have self : (state.acquire index request).callers index =
      ⟨.waiting request state.nextTicket, none⟩ := by
    have same : (state.acquire index request).callers index =
        ⟨.waiting request state.nextTicket,
          (state.callers index).block⟩ := Function.update_self _ _ _
    rw [same, outside]
  have other : ∀ {other}, other ≠ index →
      (state.acquire index request).callers other = state.callers other :=
    fun apart => Function.update_of_ne apart _ _
  have fresh : ∀ ticket ∈ state.gate, ticket ≠ state.nextTicket :=
    fun ticket member => Nat.ne_of_lt (frame.below ticket member)
  have inside : ∀ ticket ∈ rest, ticket ∈ state.gate := by
    intro ticket member
    rw [frame.gate]
    exact List.mem_append_right _ member
  have waits : ∀ {who ticket}, Waits (state.acquire index request) who ticket →
      who = index ∧ ticket = state.nextTicket ∨
        who ≠ index ∧ Waits state who ticket := by
    intro who ticket found
    obtain ⟨asked, call⟩ := found
    by_cases same : who = index
    · subst same
      rw [self] at call
      cases call
      exact .inl ⟨rfl, rfl⟩
    · rw [other same] at call
      exact .inr ⟨same, asked, call⟩
  refine { frame with
    gate := ?_, nodup := ?_, below := ?_, queued := ?_, waiting := ?_,
    single := ?_, others := ?_ }
  · show state.gate ++ [state.nextTicket] = _
    rw [frame.gate, List.append_assoc]
  · show (state.gate ++ [state.nextTicket]).Nodup
    refine List.nodup_append.mpr ⟨frame.nodup, List.nodup_singleton _, ?_⟩
    intro ticket member last same
    rw [List.mem_singleton] at same
    rw [same]
    exact fresh ticket member
  · intro ticket member
    show ticket < state.nextTicket + 1
    rcases List.mem_append.mp member with old | new
    · exact Nat.lt_succ_of_lt (frame.below ticket old)
    · rw [List.mem_singleton.mp new]
      exact Nat.lt_succ_self _
  · intro ticket member
    rcases List.mem_append.mp member with old | new
    · obtain ⟨who, asked, call⟩ := frame.queued ticket old
      have apart : who ≠ index := by
        intro same
        rw [same, idle] at call
        cases call
      refine ⟨who, asked, ?_⟩
      rw [other apart]
      exact call
    · rw [List.mem_singleton.mp new]
      refine ⟨index, request, ?_⟩
      rw [self]
  · intro who ticket found
    rcases waits found with ⟨_, same⟩ | ⟨_, before⟩
    · rw [same]
      exact List.mem_append_right _ (List.mem_singleton_self _)
    · exact List.mem_append_left _ (frame.waiting who ticket before)
  · intro who another ticket found again
    rcases waits found with ⟨here, new⟩ | ⟨_, before⟩
    · rcases waits again with ⟨there, _⟩ | ⟨_, old⟩
      · rw [here, there]
      · have member := inside ticket (frame.waiting another ticket old)
        exact absurd new (fresh ticket member)
    · rcases waits again with ⟨there, new⟩ | ⟨_, old⟩
      · have member := inside ticket (frame.waiting who ticket before)
        exact absurd new (fresh ticket member)
      · exact frame.single who another ticket before old
  · intro who apart
    by_cases same : who = index
    · rw [same, self]
      exact .waiting request _
    · rw [other same]
      exact frame.others who apart

theorem Frame.pass {ticket : Nat} (frame : Frame .free (ticket :: rest) state)
    {index : Nat} {request : Request}
    (call : (state.callers index).call = .waiting request ticket) :
    Lawful (.connecting index ticket) rest
      (state.setCall index (.connecting request ticket)) := by
  have mine : Waits state index ticket := ⟨request, call⟩
  have parked := frame.others index nofun
  have self : (state.setCall index (.connecting request ticket)).callers
      index = ⟨.connecting request ticket, none⟩ := by
    have same : (state.setCall index (.connecting request ticket)).callers
        index = ⟨.connecting request ticket, (state.callers index).block⟩ :=
      Function.update_self _ _ _
    rw [same, parked.outside]
  have other : ∀ {other}, other ≠ index →
      (state.setCall index (.connecting request ticket)).callers other =
        state.callers other :=
    fun apart => Function.update_of_ne apart _ _
  have distinct : (ticket :: rest).Nodup := by
    have nodup := frame.nodup
    rw [frame.gate] at nodup
    exact nodup
  have waits : ∀ {who token},
      Waits (state.setCall index (.connecting request ticket)) who token →
        who ≠ index ∧ Waits state who token := by
    intro who token found
    obtain ⟨asked, found⟩ := found
    by_cases same : who = index
    · subst same
      rw [self] at found
      cases found
    · rw [other same] at found
      exact ⟨same, asked, found⟩
  refine ⟨{ frame with
    gate := frame.gate, queued := ?_, waiting := ?_, single := ?_,
    slot := frame.slot, release := frame.release, explicit := frame.explicit,
    busy := ?_, others := ?_ }, ?_⟩
  · intro token member
    obtain ⟨who, asked, found⟩ :=
      frame.queued token (List.mem_cons_of_mem _ member)
    have apart : who ≠ index := by
      intro same
      rw [same, call] at found
      cases found
      exact (List.nodup_cons.mp distinct).1 member
    refine ⟨who, asked, ?_⟩
    rw [other apart]
    exact found
  · intro who token found
    obtain ⟨apart, before⟩ := waits found
    rcases List.mem_cons.mp (frame.waiting who token before) with same | later
    · rw [same] at before
      exact absurd (frame.single who index ticket before mine) apart
    · exact later
  · intro who another token found again
    exact frame.single who another token (waits found).2 (waits again).2
  · intro client has
    cases has
  · intro who apart
    have unlike : who ≠ index := by
      intro same
      rw [same] at apart
      exact apart rfl
    rw [other unlike]
    exact frame.others who nofun
  · intro owner held
    cases held
    rw [self]
    exact .connecting index ticket request _

end Takos.LocalPlatform
