import Takos.Runs.CheckpointPointers
import Takos.Runs.CheckpointCalls

/-!
# Retried checkpoint saves

As long as the attempts that the client has given up come in turn with the one
it waits for, the stored checkpoint never goes back behind an acknowledged save
and the holder of the lease is not told that the lease is lost.  An attempt
that has been given up and swaps the row later can do either.
-/

namespace Takos.Runs

open Takos.Foundation

namespace SaveState

variable (state : SaveState)

def row : RunRow := state.store.ledger.row

/-- The run is held under the lease of the container. -/
def Held : Prop :=
  state.row.status = .running ∧
    state.row.hasLease state.lease.body.serviceId
      state.lease.body.leaseVersion = true

/-- The stored checkpoint is one that this save or a later one has written. -/
def Stands (number : Nat) : Prop :=
  ∃ later text, number ≤ later ∧ (later, text) ∈ state.written ∧
    state.row.engineCheckpoint = some text

/-- The stored checkpoint is not behind an acknowledged save, and the container
still works under its lease. -/
structure RetrySafe : Prop where
  kept : ∀ number ∈ state.acknowledged, state.Stands number
  holding : state.holder ≠ .abandoned

end SaveState

/-- The awaited attempt has read the checkpoint that it replaces. -/
def SaveCall.Reads (holder : Holder) : SaveCall → Prop
  | .attempt number turn (.stage _ _ _ _)
  | .attempt number turn (.install _ _ _)
  | .attempt number turn (.dropPrevious _)
  | .answer number turn .saved => holder.awaits number turn
  | _ => False

/-- The other calls on the run leave it to the holder of the lease. -/
def UnderLease (runId : Text) (state : SaveState) :
    Program.Event SaveCall → List SaveCall → Prop
  | .run (.other call), _ =>
    { state with store := (call.statement runId state.store).1 }.Held
  | _, _ => True

/-- An attempt swaps the row while the client waits for it, or for the text that
the row has, or neither behind an acknowledged save nor after the awaited
attempt has read the row. -/
def InTurn (state : SaveState) : Program.Event SaveCall → List SaveCall → Prop
  | .run (.attempt number turn (.install save stagedKey current)), others =>
    (RowUpdate.saveCheckpoint save current (save.stored stagedKey)).condition
        state.row = true →
      state.holder.awaits number turn ∨
      state.row.engineCheckpoint = some (save.stored stagedKey) ∨
      (∀ known ∈ state.acknowledged, known ≤ number) ∧
        ∀ other ∈ others, ¬other.Reads state.holder
  | _, _ => True

def SaveState.Posted (state : SaveState) (number turn : Nat) : Prop :=
  number ≤ state.issued ∧ ∀ current latest save,
    state.holder = .awaiting current latest save → number = current →
      turn ≤ latest

/-- An attempt executes the statements of a save under the lease. -/
def CheckpointCall.Saves (lease : HeldLease) : CheckpointCall → Prop
  | .ensureRunLease save | .readCheckpoint save | .stage save _ _ _
  | .install save _ _ => save.body = lease.body
  | .dropStaged _ | .dropPrevious _ => True
  | .run _ _ _ | .cleanup _ _ => False

/-- What the attempt relies on that the client waits for. -/
def CheckpointCall.Awaited (state : SaveState) (number : Nat) :
    CheckpointCall → Prop
  | .stage _ _ _ current | .install _ _ current =>
    state.row.engineCheckpoint = current
  | .dropPrevious _ => state.Stands number
  | .dropStaged _ => False
  | _ => True

def CheckpointReply.Awaited (state : SaveState) (number : Nat) :
    CheckpointReply → Prop
  | .saved => state.Stands number
  | .offloadRequired => True
  | .leaseLost | .run _ => False

def CheckpointCall.Elsewhere : CheckpointCall → Prop
  | .run call _ _ => call.Ends
  | .cleanup _ _ => True
  | _ => False

def SaveCall.Sound (state : SaveState) : SaveCall → Prop
  | .saveEngineCheckpoint _ => True
  | .failing error => error.kind ≠ .leaseLost
  | .attempt number turn call =>
    state.Posted number turn ∧ call.Saves state.lease ∧
      (state.holder.awaits number turn → call.Awaited state number)
  | .answer number turn reply =>
    state.Posted number turn ∧
      (state.holder.awaits number turn → reply.Awaited state number)
  | .other call => call.Elsewhere

structure SaveState.Sound (state : SaveState) : Prop where
  held : state.Held
  safe : state.RetrySafe
  known : ∀ number ∈ state.acknowledged, number ≤ state.issued
  newest : ∀ number turn save, state.holder = .awaiting number turn save →
    number = state.issued

def saveAssertions : Program.Assertions SaveState SaveCall Unit where
  shared := SaveState.Sound
  call := SaveCall.Sound
  result _ _ := True

def SaveCall.tag : SaveCall → Option (Nat × Nat)
  | .attempt number turn _ | .answer number turn _ => some (number, turn)
  | _ => none

def SaveCall.Apart (left right : SaveCall) : Prop :=
  ∀ tag, left.tag = some tag → right.tag ≠ some tag

/-- The stored checkpoint stays, and so does the record of what was written. -/
structure SameCheckpoint (before after : SaveState) : Prop where
  checkpoint : after.row.engineCheckpoint = before.row.engineCheckpoint
  written : ∀ entry ∈ before.written, entry ∈ after.written

variable {before after : SaveState}

theorem SameCheckpoint.stands {number : Nat}
    (same : SameCheckpoint before after) (stands : before.Stands number) :
    after.Stands number := by
  obtain ⟨later, text, order, member, stored⟩ := stands
  refine ⟨later, text, order, same.written _ member, ?_⟩
  rw [same.checkpoint]
  exact stored

theorem SameCheckpoint.callAwaited {number : Nat}
    (same : SameCheckpoint before after) {call : CheckpointCall}
    (awaited : call.Awaited before number) : call.Awaited after number := by
  cases call with
  | stage | install =>
      exact same.checkpoint.trans awaited
  | dropPrevious key => exact same.stands awaited
  | dropStaged key => exact awaited
  | run | cleanup | ensureRunLease | readCheckpoint => trivial

theorem SameCheckpoint.replyAwaited {number : Nat}
    (same : SameCheckpoint before after) {reply : CheckpointReply}
    (awaited : reply.Awaited before number) : reply.Awaited after number := by
  cases reply with
  | saved => exact same.stands awaited
  | offloadRequired => trivial
  | leaseLost | run => exact awaited

theorem Holder.awaits.unique {holder : Holder}
    {number turn other otherTurn : Nat} (one : holder.awaits number turn)
    (another : holder.awaits other otherTurn) :
    number = other ∧ turn = otherTurn := by
  obtain ⟨save, shape⟩ := one
  obtain ⟨otherSave, same⟩ := another
  rw [shape] at same
  cases same
  exact ⟨rfl, rfl⟩

/-- A call keeps what it relies on if it is not awaited anew, and if the
checkpoint stays where it has been read. -/
theorem SaveCall.Sound.moved {call : SaveCall} (sound : call.Sound before)
    (lease : after.lease = before.lease)
    (posted : ∀ number turn, call.tag = some (number, turn) →
      before.Posted number turn → after.Posted number turn)
    (waiting : ∀ number turn, call.tag = some (number, turn) →
      before.Posted number turn → after.holder.awaits number turn →
      before.holder.awaits number turn ∧
        (call.Reads before.holder → SameCheckpoint before after)) :
    call.Sound after := by
  cases call with
  | saveEngineCheckpoint save => trivial
  | failing | other => exact sound
  | attempt number turn call =>
      obtain ⟨known, saves, relies⟩ := sound
      refine ⟨posted number turn rfl known, lease ▸ saves, ?_⟩
      intro awaited
      obtain ⟨waited, same⟩ := waiting number turn rfl known awaited
      have held := relies waited
      cases call with
      | stage save serviceId leaseVersion current =>
          exact (same waited).callAwaited held
      | install save stagedKey current => exact (same waited).callAwaited held
      | dropPrevious key => exact (same waited).callAwaited held
      | dropStaged key => exact held
      | run call offload observed => trivial
      | cleanup key reply => trivial
      | ensureRunLease save => trivial
      | readCheckpoint save => trivial
  | answer number turn reply =>
      obtain ⟨known, relies⟩ := sound
      refine ⟨posted number turn rfl known, ?_⟩
      intro awaited
      obtain ⟨waited, same⟩ := waiting number turn rfl known awaited
      have held := relies waited
      cases reply with
      | saved => exact (same waited).replyAwaited held
      | offloadRequired => trivial
      | leaseLost => exact held
      | run reply => exact held

theorem SaveCall.Sound.of_same {call : SaveCall} (sound : call.Sound before)
    (lease : after.lease = before.lease)
    (holder : after.holder = before.holder)
    (issued : after.issued = before.issued)
    (same : call.Reads before.holder → SameCheckpoint before after) :
    call.Sound after := by
  apply sound.moved lease
  · intro number turn _ known
    unfold SaveState.Posted
    rw [holder, issued]
    exact known
  · intro number turn _ _ awaited
    rw [holder] at awaited
    exact ⟨awaited, same⟩

theorem SaveCall.Reads.tagged {holder : Holder} {call : SaveCall}
    (reads : call.Reads holder) :
    ∃ number turn, call.tag = some (number, turn) ∧
      holder.awaits number turn := by
  cases call with
  | attempt number turn call =>
      refine ⟨number, turn, rfl, ?_⟩
      cases call with
      | stage save serviceId leaseVersion current => exact reads
      | install save stagedKey current => exact reads
      | dropPrevious key => exact reads
      | _ => exact absurd reads (fun never => never)
  | answer number turn reply =>
      refine ⟨number, turn, rfl, ?_⟩
      cases reply with
      | saved => exact reads
      | _ => exact absurd reads (fun never => never)
  | _ => exact absurd reads (fun never => never)

theorem SaveState.Stands.earlier {state : SaveState} {number known : Nat}
    (stands : state.Stands number) (order : known ≤ number) :
    state.Stands known := by
  obtain ⟨later, text, after, member, stored⟩ := stands
  exact ⟨later, text, order.trans after, member, stored⟩

section Steps

variable {runId : Text} {state : SaveState} {call : SaveCall}
  {others : List SaveCall}

theorem kept_of_post (sound : state.Sound) {issued number turn : Nat}
    {save : EngineSave} (grown : state.issued ≤ issued)
    (newest : number = issued)
    (fresh : ∀ earlier old, state.Posted earlier old → earlier = number →
      old < turn)
    (executed : (saveProgram runId).statement call state =
      ({ state with
          issued := issued
          holder := .awaiting number turn save },
        .next (.attempt number turn
          (.ensureRunLease (save.request state.lease turn))))) :
    saveAssertions.KeptAmong (saveProgram runId) SaveCall.Apart state call
      others := by
  have posted : ∀ earlier old, state.Posted earlier old →
      SaveState.Posted { state with
        issued := issued
        holder := .awaiting number turn save } earlier old := by
    intro earlier old known
    refine ⟨known.1.trans grown, ?_⟩
    rintro current latest other ⟨rfl, rfl, rfl⟩ same
    exact (fresh earlier old known same).le
  have anew : ∀ earlier old, state.Posted earlier old →
      ¬(Holder.awaiting number turn save).awaits earlier old := by
    rintro earlier old known ⟨other, ⟨rfl, rfl, rfl⟩⟩
    exact absurd (fresh number turn known rfl) (lt_irrefl turn)
  constructor
  · rw [executed]
    refine ⟨sound.held, ⟨sound.safe.kept, ?_⟩, ?_, ?_⟩
    · intro abandoned
      cases abandoned
    · intro known member
      exact (sound.known known member).trans grown
    · rintro current latest other ⟨rfl, rfl, rfl⟩
      exact newest
  · rw [executed]
    refine ⟨⟨newest.le, ?_⟩, rfl, fun _ => trivial⟩
    rintro current latest other ⟨rfl, rfl, rfl⟩ _
    exact le_rfl
  · intro other _ holds _
    rw [executed]
    refine SaveCall.Sound.moved holds rfl ?_ ?_
    · intro earlier old _ known
      exact posted earlier old known
    · intro earlier old _ known awaited
      exact absurd awaited (anew earlier old known)
  · intro rest continued other _ holds _
    rw [executed] at continued
    cases continued
    intro tag shape same
    cases shape
    have known : state.Posted number turn := by
      cases other with
      | attempt | answer =>
          cases same
          exact holds.1
      | saveEngineCheckpoint | failing | other => cases same
    exact absurd (fresh number turn known rfl) (lt_irrefl turn)
  · exact fun _ _ => trivial

/-- The client returns an error other than a lost lease, or the result of a
save that the stored checkpoint stands for. -/
theorem kept_of_return (sound : state.Sound) (acknowledged : List Nat)
    (earlier : ∀ number ∈ acknowledged,
      number ≤ state.issued ∧ state.Stands number)
    (executed : (saveProgram runId).statement call state =
      ({ state with
          holder := .idle
          acknowledged := acknowledged }, .done ())) :
    saveAssertions.KeptAmong (saveProgram runId) SaveCall.Apart state call
      others := by
  constructor
  · rw [executed]
    refine ⟨sound.held, ⟨fun number member => (earlier number member).2, ?_⟩,
      fun number member => (earlier number member).1, ?_⟩
    · intro abandoned
      cases abandoned
    · intro number turn save awaiting
      cases awaiting
  · rw [executed]
    trivial
  · intro other _ holds _
    rw [executed]
    refine SaveCall.Sound.moved holds rfl ?_ ?_
    · intro number turn _ known
      refine ⟨known.1, ?_⟩
      intro current latest save awaiting
      cases awaiting
    · rintro number turn _ _ ⟨save, awaiting⟩
      cases awaiting
  · intro rest continued
    rw [executed] at continued
    cases continued
  · exact fun _ _ => trivial

theorem kept_of_nothing (sound : state.Sound)
    (executed : (saveProgram runId).statement call state = (state, .done ())) :
    saveAssertions.KeptAmong (saveProgram runId) SaveCall.Apart state call
      others := by
  constructor
  · rw [executed]
    exact sound
  · rw [executed]
    trivial
  · intro other _ holds _
    rw [executed]
    exact holds
  · intro rest continued
    rw [executed] at continued
    cases continued
  · exact fun _ _ => trivial

theorem kept_of_failed (sound : state.Sound) (error : ControlRpcError)
    (kind : error.kind ≠ .leaseLost)
    (executed : (saveProgram runId).statement call state =
      state.failed error) :
    saveAssertions.KeptAmong (saveProgram runId) SaveCall.Apart state call
      others := by
  have earlier : ∀ number ∈ state.acknowledged,
      number ≤ state.issued ∧ state.Stands number :=
    fun number member => ⟨sound.known number member, sound.safe.kept number member⟩
  cases shape : state.holder with
  | idle =>
      apply kept_of_nothing sound
      rw [executed]
      simp only [SaveState.failed, shape]
  | abandoned => exact absurd shape sound.safe.holding
  | awaiting number turn save =>
      simp only [SaveState.failed, shape] at executed
      split at executed
      · apply kept_of_post sound le_rfl (sound.newest number turn save shape) _
          executed
        intro previous old known same
        exact Nat.lt_succ_of_le (known.2 number turn save shape same)
      · exact kept_of_return sound state.acknowledged earlier executed

/-- The state after a statement of an attempt. -/
def SaveState.stepped (state : SaveState) (number : Nat)
    (attempt : CheckpointCall) (store : CheckpointStore) : SaveState :=
  { state with store := store, written := state.record number attempt }

variable {attempt : CheckpointCall} {number turn : Nat}
  {stagedKey current : Option Text}

theorem kept_of_attempt {store : CheckpointStore}
    {outcome : Outcome CheckpointCall CheckpointReply}
    (known : state.Posted number turn)
    (executed : attempt.statement runId state.store = (store, outcome))
    (shared : (state.stepped number attempt store).Sound)
    (continued : ∀ rest, outcome = .next rest →
      rest.Saves state.lease ∧ (state.holder.awaits number turn →
        rest.Awaited (state.stepped number attempt store) number))
    (ended : ∀ reply, outcome = .done reply →
      state.holder.awaits number turn →
        reply.Awaited (state.stepped number attempt store) number)
    (same : ∀ other ∈ others,
      SaveCall.Apart (.attempt number turn attempt) other →
      other.Reads state.holder →
      SameCheckpoint state (state.stepped number attempt store)) :
    saveAssertions.KeptAmong (saveProgram runId) SaveCall.Apart state
      (.attempt number turn attempt) others := by
  have moved : (saveProgram runId).statement (.attempt number turn attempt)
      state = (state.stepped number attempt store,
        .next (SaveCall.following number turn outcome)) := by
    simp only [saveProgram, SaveCall.statement, executed, SaveState.stepped]
  constructor
  · rw [moved]
    exact shared
  · rw [moved]
    cases outcome with
    | next rest =>
        exact ⟨known, (continued rest rfl).1, (continued rest rfl).2⟩
    | done reply => exact ⟨known, ended reply rfl⟩
  · intro other member holds apart
    rw [moved]
    exact SaveCall.Sound.of_same holds rfl rfl rfl (same other member apart)
  · intro rest next other _ _ apart
    rw [moved] at next
    cases outcome with
    | next | done =>
        cases next
        exact apart
  · exact fun _ _ => trivial

theorem kept_of_reading (sound : state.Sound) {store : CheckpointStore}
    {outcome : Outcome CheckpointCall CheckpointReply}
    (known : state.Posted number turn)
    (executed : attempt.statement runId state.store = (store, outcome))
    (row : store.ledger.row = state.row)
    (unrecorded : state.record number attempt = state.written)
    (continued : ∀ rest, outcome = .next rest →
      rest.Saves state.lease ∧
        (state.holder.awaits number turn → rest.Awaited state number))
    (ended : ∀ reply, outcome = .done reply →
      state.holder.awaits number turn → reply.Awaited state number) :
    saveAssertions.KeptAmong (saveProgram runId) SaveCall.Apart state
      (.attempt number turn attempt) others := by
  have stays : (state.stepped number attempt store).row = state.row := row
  have same : SameCheckpoint state (state.stepped number attempt store) := by
    constructor
    · rw [stays]
    · intro entry member
      change entry ∈ state.record number attempt
      rw [unrecorded]
      exact member
  apply kept_of_attempt known executed
  · refine ⟨?_, ⟨?_, sound.safe.holding⟩, sound.known, sound.newest⟩
    · unfold SaveState.Held
      rw [stays]
      exact sound.held
    · intro earlier member
      exact same.stands (sound.safe.kept earlier member)
  · intro rest next
    obtain ⟨saves, awaited⟩ := continued rest next
    exact ⟨saves, fun waiting => same.callAwaited (awaited waiting)⟩
  · intro reply done waiting
    exact same.replyAwaited (ended reply done waiting)
  · exact fun _ _ _ _ => same

theorem install_swaps (runId : Text) {store : CheckpointStore}
    {save : SaveRequest}
    (condition : (RowUpdate.saveCheckpoint save current
      (save.stored stagedKey)).condition store.ledger.row = true) :
    ∃ after outcome,
      (CheckpointCall.install save stagedKey current).statement runId store =
        (after, outcome) ∧
      after.ledger.row = (RowUpdate.saveCheckpoint save current
        (save.stored stagedKey)).assign store.ledger.row ∧
      (outcome = .done .saved ∨ ∃ key, outcome = .next (.dropPrevious key)) := by
  simp only [CheckpointCall.statement, if_pos condition]
  refine ⟨_, _, rfl, rfl, ?_⟩
  split
  · split
    · exact .inr ⟨_, rfl⟩
    · exact .inl rfl
  · exact .inl rfl

theorem install_misses (runId : Text) {store : CheckpointStore}
    {save : SaveRequest}
    (missed : ¬(RowUpdate.saveCheckpoint save current
      (save.stored stagedKey)).condition store.ledger.row = true) :
    ∃ outcome,
      (CheckpointCall.install save stagedKey current).statement runId store =
        (store, outcome) ∧
      (outcome = .done .leaseLost ∨ ∃ key, outcome = .next (.dropStaged key)) := by
  simp only [CheckpointCall.statement, if_neg missed]
  cases stagedKey with
  | none => exact ⟨_, rfl, .inl rfl⟩
  | some key => exact ⟨_, rfl, .inr ⟨key, rfl⟩⟩

/-- Under the lease a swap meets its condition as long as the checkpoint is the
one that was read. -/
theorem condition_of_held (held : state.Held) {save : SaveRequest}
    (lease : save.body = state.lease.body) {current : Option Text}
    (unchanged : state.row.engineCheckpoint = current) (stored : Text) :
    (RowUpdate.saveCheckpoint save current stored).condition state.row =
      true := by
  obtain ⟨running, leased⟩ := held
  rw [← lease] at leased
  simp only [RowUpdate.saveCheckpoint, running, leased, unchanged]
  simp

theorem kept_of_missed (sound : state.Sound) {save : SaveRequest}
    (known : state.Posted number turn) (lease : save.body = state.lease.body)
    (unchanged : state.holder.awaits number turn →
      state.row.engineCheckpoint = current)
    (missed : ¬(RowUpdate.saveCheckpoint save current
      (save.stored stagedKey)).condition state.row = true) :
    saveAssertions.KeptAmong (saveProgram runId) SaveCall.Apart state
      (.attempt number turn (.install save stagedKey current)) others := by
  obtain ⟨outcome, executed, replies⟩ :=
    install_misses runId missed
  have unawaited : ¬state.holder.awaits number turn := fun waiting =>
    missed (condition_of_held sound.held lease (unchanged waiting) _)
  apply kept_of_reading sound known executed rfl
  · exact if_neg missed
  · intro rest next
    rcases replies with lost | ⟨key, dropped⟩
    · rw [lost] at next
      cases next
    · rw [dropped] at next
      cases next
      exact ⟨trivial, unawaited⟩
  · exact fun _ _ waiting => absurd waiting unawaited

theorem kept_of_swap (sound : state.Sound) {save : SaveRequest}
    (known : state.Posted number turn)
    (condition : (RowUpdate.saveCheckpoint save current
      (save.stored stagedKey)).condition state.row = true)
    (inTurn : InTurn state (.run (.attempt number turn
      (.install save stagedKey current))) others) :
    saveAssertions.KeptAmong (saveProgram runId) SaveCall.Apart state
      (.attempt number turn (.install save stagedKey current)) others := by
  obtain ⟨store, outcome, executed, row, replies⟩ :=
    install_swaps runId condition
  generalize swapped : state.stepped number (.install save stagedKey current)
    store = after
  have recorded : after.written =
      (number, save.stored stagedKey) :: state.written := by
    rw [← swapped]
    exact if_pos condition
  have assigned : after.row = (RowUpdate.saveCheckpoint save current
      (save.stored stagedKey)).assign state.row := by
    rw [← swapped]
    exact row
  have stands : after.Stands number := by
    refine ⟨number, save.stored stagedKey, le_rfl, ?_, ?_⟩
    · rw [recorded]
      exact List.mem_cons_self
    · rw [assigned]
      rfl
  have held : after.Held := by
    unfold SaveState.Held
    rw [assigned, ← swapped]
    exact sound.held
  have rewritten : state.row.engineCheckpoint =
      some (save.stored stagedKey) → SameCheckpoint state after := by
    intro text
    constructor
    · rw [assigned, text]
      rfl
    · intro entry member
      rw [recorded]
      exact List.mem_cons_of_mem _ member
  have kept : ∀ earlier ∈ state.acknowledged, after.Stands earlier := by
    intro earlier member
    rcases inTurn condition with ⟨request, waiting⟩ | text | ⟨behind, _⟩
    · -- the awaited attempt belongs to the newest save
      apply stands.earlier
      rw [sound.newest number turn request waiting]
      exact sound.known earlier member
    · exact (rewritten text).stands (sound.safe.kept earlier member)
    · exact stands.earlier (behind earlier member)
  have same : ∀ other ∈ others,
      SaveCall.Apart (.attempt number turn (.install save stagedKey current))
        other →
      other.Reads state.holder → SameCheckpoint state after := by
    intro other member apart reads
    rcases inTurn condition with waiting | text | ⟨_, unread⟩
    · obtain ⟨latest, last, tag, awaited⟩ := reads.tagged
      obtain ⟨rfl, rfl⟩ := waiting.unique awaited
      exact absurd tag (apart _ rfl)
    · exact rewritten text
    · exact absurd reads (unread other member)
  apply kept_of_attempt known executed
  · rw [swapped]
    refine ⟨held, ⟨?_, ?_⟩, ?_, ?_⟩
    · intro earlier member
      rw [← swapped] at member
      exact kept earlier member
    · rw [← swapped]
      exact sound.safe.holding
    · rw [← swapped]
      exact sound.known
    · rw [← swapped]
      exact sound.newest
  · intro rest next
    rw [swapped]
    rcases replies with saved | ⟨key, dropping⟩
    · rw [saved] at next
      cases next
    · rw [dropping] at next
      cases next
      exact ⟨trivial, fun _ => stands⟩
  · intro reply done _
    rw [swapped]
    rcases replies with saved | ⟨key, dropping⟩
    · rw [saved] at done
      cases done
      exact stands
    · rw [dropping] at done
      cases done
  · rw [swapped]
    exact same

theorem refuses_held (held : state.Held) {save : SaveRequest}
    (lease : save.body = state.lease.body) :
    refusesLease state.row save.body false = false := by
  obtain ⟨running, leased⟩ := held
  rw [← lease] at leased
  unfold refusesLease
  cases service : save.body.serviceId with
  | none => rfl
  | some serviceId =>
      rw [service] at leased
      simp [running, leased]

theorem fits_held (held : state.Held) {save : SaveRequest}
    (lease : save.body = state.lease.body) : save.fits state.row = true := by
  obtain ⟨running, leased⟩ := held
  rw [← lease] at leased
  simp [SaveRequest.fits, running, leased]

/-- Under the lease the read goes on with the checkpoint of the row, unless the
payload needs a bucket. -/
theorem readCheckpoint_held (runId : Text) (held : state.Held) {save : SaveRequest}
    (lease : save.body = state.lease.body) :
    ∃ outcome, (CheckpointCall.readCheckpoint save).statement runId
        state.store = (state.store, outcome) ∧
      (outcome = .done .offloadRequired ∨
        (∃ serviceId leaseVersion, outcome = .next (.stage save serviceId
          leaseVersion state.row.engineCheckpoint)) ∨
        outcome = .next (.install save none state.row.engineCheckpoint)) := by
  have fits : save.fits state.store.ledger.row = true := fits_held held lease
  simp only [CheckpointCall.statement, if_pos fits]
  split
  · split
    · exact ⟨_, rfl, .inr (.inl ⟨_, _, rfl⟩)⟩
    · exact ⟨_, rfl, .inl rfl⟩
  · exact ⟨_, rfl, .inr (.inr rfl)⟩

theorem kept_of_attempting (sound : state.Sound)
    (own : SaveCall.Sound state (.attempt number turn attempt))
    (inTurn : InTurn state (.run (.attempt number turn attempt)) others) :
    saveAssertions.KeptAmong (saveProgram runId) SaveCall.Apart state
      (.attempt number turn attempt) others := by
  obtain ⟨known, lease, relies⟩ := own
  cases attempt with
  | run | cleanup => exact absurd lease (fun never => never)
  | ensureRunLease save =>
      have executed : (CheckpointCall.ensureRunLease save).statement runId
          state.store = (state.store, .next (.readCheckpoint save)) := by
        apply if_neg
        have accepted : refusesLease state.store.ledger.row save.body false =
          false := refuses_held sound.held lease
        rw [accepted]
        exact Bool.false_ne_true
      apply kept_of_reading sound known executed rfl rfl
      · rintro rest ⟨rfl⟩
        exact ⟨lease, fun _ => trivial⟩
      · intro reply done
        cases done
  | readCheckpoint save =>
      obtain ⟨outcome, executed, replies⟩ :=
        readCheckpoint_held runId sound.held lease
      apply kept_of_reading sound known executed rfl rfl
      · intro rest next
        rcases replies with rfl | ⟨serviceId, leaseVersion, rfl⟩ | rfl
        · cases next
        · cases next
          exact ⟨lease, fun _ => rfl⟩
        · cases next
          exact ⟨lease, fun _ => rfl⟩
      · intro reply done _
        rcases replies with rfl | ⟨serviceId, leaseVersion, rfl⟩ | rfl
        · cases done
          trivial
        · cases done
        · cases done
  | stage save serviceId leaseVersion current =>
      refine kept_of_reading sound known rfl rfl rfl ?_ ?_
      · rintro rest ⟨rfl⟩
        exact ⟨lease, relies⟩
      · intro reply done
        cases done
  | install save stagedKey current =>
      by_cases condition : (RowUpdate.saveCheckpoint save current
          (save.stored stagedKey)).condition state.row = true
      · exact kept_of_swap sound known condition inTurn
      · exact kept_of_missed sound known lease relies condition
  | dropStaged | dropPrevious =>
      refine kept_of_reading sound known rfl rfl rfl ?_ ?_
      · intro rest next
        cases next
      · rintro reply ⟨rfl⟩ waiting
        exact relies waiting

theorem afterRun_elsewhere {call : RunCall} {offload : Bool}
    {observed : Option Text} {ledger : RunLedger} {rest : CheckpointCall}
    (ends : call.Ends)
    (continued : afterRun call offload observed (call.statement ledger).2 =
      .next rest) : rest.Elsewhere := by
  cases shape : (call.statement ledger).2 with
  | next later =>
      rw [shape] at continued
      cases continued
      exact statement_ends ends shape
  | done reply =>
      rw [shape] at continued
      simp only [afterRun] at continued
      split at continued
      · split at continued <;> cases continued
        trivial
      · cases continued

theorem checkpoint_of_held {call : RunCall} (ends : call.Ends)
    (held : SaveState.Held
      { state with
        store := { state.store with
          ledger := (call.statement state.store.ledger).1 } }) :
    (call.statement state.store.ledger).1.row.engineCheckpoint =
      state.row.engineCheckpoint := by
  rcases statement_moves ends state.store.ledger with
    same | ⟨_, ⟨kept, _⟩ | ⟨_, ended⟩⟩
  · rw [same]
    rfl
  · exact kept
  · have running : (call.statement state.store.ledger).1.row.status = .running :=
      held.1
    rw [running] at ended
    cases ended

theorem kept_of_other (sound : state.Sound) {other : CheckpointCall}
    (elsewhere : other.Elsewhere)
    (leased : UnderLease runId state (.run (.other other)) others) :
    saveAssertions.KeptAmong (saveProgram runId) SaveCall.Apart state
      (.other other) others := by
  have moved : (saveProgram runId).statement (.other other) state =
      ({ state with store := (other.statement runId state.store).1 },
        (other.statement runId state.store).2.map .other fun _ => ()) := by
    cases executed : other.statement runId state.store with
    | mk store outcome =>
        simp only [saveProgram, SaveCall.statement, executed]
        cases outcome <;> rfl
  have same : SameCheckpoint state
      { state with store := (other.statement runId state.store).1 } := by
    refine ⟨?_, fun _ member => member⟩
    cases other with
    | run call offload observed => exact checkpoint_of_held elsewhere leased
    | cleanup key reply => rfl
    | _ => exact absurd elsewhere (fun never => never)
  constructor
  · rw [moved]
    refine ⟨leased, ⟨?_, sound.safe.holding⟩, sound.known, sound.newest⟩
    intro number member
    exact same.stands (sound.safe.kept number member)
  · rw [moved]
    cases shape : (other.statement runId state.store).2 with
    | done reply => trivial
    | next rest =>
        cases other with
        | run call offload observed => exact afterRun_elsewhere elsewhere shape
        | cleanup key reply => cases shape
        | _ => exact absurd elsewhere (fun never => never)
  · intro another _ holds _
    rw [moved]
    exact SaveCall.Sound.of_same holds rfl rfl rfl (fun _ => same)
  · intro rest continued another _ _ _ tag shape
    rw [moved] at continued
    cases outcome : (other.statement runId state.store).2 with
    | done reply =>
        rw [outcome] at continued
        cases continued
    | next later =>
        rw [outcome] at continued
        cases continued
        cases shape
  · exact fun _ _ => trivial

theorem kept_of_answer (sound : state.Sound) {reply : CheckpointReply}
    (own : SaveCall.Sound state (.answer number turn reply)) :
    saveAssertions.KeptAmong (saveProgram runId) SaveCall.Apart state
      (.answer number turn reply) others := by
  obtain ⟨known, relies⟩ := own
  by_cases waiting : state.holder.awaits number turn
  · have held := relies waiting
    cases reply with
    | saved =>
        apply kept_of_return sound (number :: state.acknowledged)
        · intro earlier member
          rcases List.mem_cons.mp member with same | member
          · rw [same]
            exact ⟨known.1, held⟩
          · exact ⟨sound.known earlier member, sound.safe.kept earlier member⟩
        · exact if_pos waiting
    | offloadRequired =>
        apply kept_of_failed sound ⟨.other, some 503⟩
        · intro lost
          cases lost
        · exact if_pos waiting
    | leaseLost | run => exact absurd held (fun never => never)
  · exact kept_of_nothing sound (if_neg waiting)

theorem kept_of_saving (sound : state.Sound) (save : EngineSave) :
    saveAssertions.KeptAmong (saveProgram runId) SaveCall.Apart state
      (.saveEngineCheckpoint save) others := by
  cases shape : state.holder with
  | idle =>
      have executed : (saveProgram runId).statement
          (.saveEngineCheckpoint save) state =
          { state with issued := state.issued + 1 }.post (state.issued + 1) 1
            save := by
        simp only [saveProgram, SaveCall.statement, shape]
      apply kept_of_post sound (Nat.le_succ state.issued) rfl _ executed
      rintro earlier old ⟨known, _⟩ same
      omega
  | awaiting number turn request =>
      apply kept_of_nothing sound
      simp only [saveProgram, SaveCall.statement, shape]
  | abandoned => exact absurd shape sound.safe.holding

theorem kept_of_call (sound : state.Sound) (own : call.Sound state)
    (leased : UnderLease runId state (.run call) others)
    (inTurn : InTurn state (.run call) others) :
    saveAssertions.KeptAmong (saveProgram runId) SaveCall.Apart state call
      others := by
  cases call with
  | saveEngineCheckpoint save => exact kept_of_saving sound save
  | failing error => exact kept_of_failed sound error own rfl
  | attempt number turn call => exact kept_of_attempting sound own inTurn
  | answer number turn reply => exact kept_of_answer sound own
  | other call => exact kept_of_other sound own leased

end Steps

theorem SaveCall.Starts.sound {call : SaveCall} (starts : call.Starts)
    (state : SaveState) : call.Sound state := by
  cases starts with
  | saveEngineCheckpoint save => trivial
  | failing error kind => exact kind
  | other call offload starts =>
      have holds : (CheckpointCall.run call offload none).Holds state.store :=
        starts_holds starts
      exact holds.1

theorem SaveCall.Starts.untagged {call : SaveCall} (starts : call.Starts) :
    call.tag = none := by
  cases starts <;> rfl

namespace RetryExample

def lease : HeldLease where
  body :=
    { holder := ⟨['s'], 1⟩
      serviceId := some ['s']
      leaseVersion := some 1
      service_bound := ShortRuns.body.service_bound
      service_nonempty := ShortRuns.body.service_nonempty
      version_bound := ShortRuns.body.version_bound }
  version_given _ := rfl

def save (mark : Char) : EngineSave where
  serialized := ['{', mark, '}']
  object := rfl
  now _ := []
  offload _ := false
  uuid _ := ⟨List.replicate 36 '0', rfl⟩

/-- The run is resumed from a checkpoint of its own. -/
def store (mark : Char) : CheckpointStore where
  ledger :=
    { row :=
        { createPendingRun none [] with
          status := .running
          serviceId := some ['s']
          leaseVersion := 1
          engineCheckpoint := some ['{', mark, '}']
          engineCheckpointUpdatedAt := some [] }
      claims := [⟨['s'], 1⟩] }
  bucket := .empty
  issued := []
  installed := []

def request (mark : Char) (attempt : Nat) : SaveRequest :=
  (save mark).request lease attempt

/-- The state with the checkpoint of a mark. -/
def stored (mark : Char) (holder : Holder) (issued : Nat)
    (acknowledged : List Nat) (written : List (Nat × Text)) : SaveState :=
  ⟨lease, store mark, holder, issued, acknowledged, written⟩

def begun : SaveState := stored '0' .idle 0 [] []

def timeout : ControlRpcError := ⟨.network, none⟩

end RetryExample

namespace RetryExample

abbrev Reaches (state : SaveState) (calls : List SaveCall)
    (results : List Unit) : Prop :=
  (saveProgram []).Run (UnderLease []) ⟨begun, [], []⟩ ⟨state, calls, results⟩

def waiting (number turn : Nat) (mark : Char) : Holder :=
  .awaiting number turn (save mark)

theorem nothing_saved : Reaches begun [] [] := .here

/-- The holder was told that its lease is lost: the first attempt swapped the
row after the second had read it. -/
theorem abandons : ∃ state results, Reaches state [] results ∧ state.Held ∧
    state.holder = .abandoned := by
  have ignored : Reaches (stored '1' .abandoned 1 [] [(1, "{1}".toList)])
      [] [(), ()] := by
    -- both attempts read, then the first one swaps the row
    apply nothing_saved.play [.start (.saveEngineCheckpoint (save '1')), .run 0,
      .run 0, .run 0, .start (.failing timeout), .run 0, .run 0, .run 0, .run 1,
      .run 0, .run 0, .run 0]
    repeat' first
      | exact trivial
      | exact .saveEngineCheckpoint _
      | exact .failing _ (by decide)
      | apply And.intro
  exact ⟨_, _, ignored, ⟨rfl, rfl⟩, rfl⟩

/-- The first attempt of the first save swaps the row after the second save was
acknowledged. -/
theorem rollsBack : ∃ state calls results, Reaches state calls results ∧
    state.Held ∧ 2 ∈ state.acknowledged ∧ ¬state.Stands 2 := by
  have late : Reaches
      (stored '1' .idle 2 [2, 1]
        [(1, "{1}".toList), (2, "{2}".toList), (1, "{1}".toList)])
      [.answer 1 1 .saved] [(), ()] := by
    -- the first attempt stays behind until both saves are through
    apply nothing_saved.play [.start (.saveEngineCheckpoint (save '1')), .run 0,
      .start (.failing timeout), .run 0, .run 0, .run 0, .run 0, .run 0,
      .start (.saveEngineCheckpoint (save '2')), .run 0, .run 0, .run 0, .run 0,
      .run 0, .run 0, .run 0, .run 0]
    repeat' first
      | exact trivial
      | exact .saveEngineCheckpoint _
      | exact .failing _ (by decide)
      | apply And.intro
  refine ⟨_, _, _, late, ⟨rfl, rfl⟩, List.mem_cons_self, ?_⟩
  rintro ⟨later, text, order, member, checkpoint⟩
  simp [stored, store, SaveState.row] at member checkpoint
  rcases member with ⟨rfl, _⟩ | ⟨_, shape⟩ | ⟨rfl, _⟩
  · omega
  · rw [shape] at checkpoint
    simp at checkpoint
  · omega

end RetryExample

end Takos.Runs
