import Takos.Threads.MessagePersistence

/-!
# Rows and objects of stored messages

In every run rows have their own sequence numbers and ids, a call that returns
has its row, and the object of an offloaded row was written by a call with the
same id.  It holds the message of the row when calls with one id carry one
message.
-/

namespace Takos.Threads

open Takos.Foundation Takos.Runs

theorem messageR2Key_injective {threadId left right : Text}
    (same : messageR2Key threadId left = messageR2Key threadId right) :
    left = right := by
  unfold messageR2Key at same
  exact List.append_cancel_left (List.append_cancel_right same)

/-- What the phase of a call tells about rows and objects. -/
def MessageCall.PhaseOk (threadId : Text) (state : MessageStore)
    (call : MessageCall) : Prop :=
  match call.phase with
  | .inserting _ (some key) =>
    key = messageR2Key threadId call.id ∧
      ∃ payload, state.objects key = some payload
  | .returned => ∃ row ∈ state.rows, row.id = call.id
  | _ => True

structure MessagesOk (threadId : Text) (state : MessageStore) : Prop where
  sequences : (state.rows.map StoredMessageRow.sequence).Nodup
  ids : (state.rows.map StoredMessageRow.id).Nodup
  authors : ∀ row ∈ state.rows, ∃ index call,
    state.calls index = some call ∧ row = call.row row.sequence row.r2Key
  pointers : ∀ row ∈ state.rows, ∀ key, row.r2Key = some key →
    key = messageR2Key threadId row.id ∧
      ∃ payload, state.objects key = some payload
  writers : ∀ key payload, state.objects key = some payload →
    ∃ index call sequence, state.calls index = some call ∧
      key = messageR2Key threadId call.id ∧ payload = call.payload sequence
  phases : ∀ index call, state.calls index = some call →
    call.PhaseOk threadId state

theorem MessagesOk.initial (threadId : Text) :
    MessagesOk threadId .empty := by
  refine ⟨List.nodup_nil, List.nodup_nil, ?_, ?_, ?_, ?_⟩
  · intro row member
    cases member
  · intro row member
    cases member
  · intro key payload stored
    cases stored
  · intro index call found
    cases found

def Keeps (state next : MessageStore) : Prop :=
  ∀ index call, state.calls index = some call →
    ∃ attempt phase, next.calls index = some { call with attempt, phase }

variable {call : MessageCall} {row : StoredMessageRow}

theorem MessageCall.PhaseOk.mono {threadId : Text} {state next : MessageStore}
    (ok : call.PhaseOk threadId state)
    (rows : ∀ row ∈ state.rows, row ∈ next.rows)
    (objects : ∀ key payload, state.objects key = some payload →
      ∃ later, next.objects key = some later) : call.PhaseOk threadId next := by
  unfold MessageCall.PhaseOk at ok ⊢
  split
  · rename_i sequence key phase
    rw [phase] at ok
    obtain ⟨same, payload, stored⟩ := ok
    exact ⟨same, objects key payload stored⟩
  · rename_i phase
    rw [phase] at ok
    obtain ⟨row, member, same⟩ := ok
    exact ⟨row, rows row member, same⟩
  · trivial

section Steps

variable {threadId : Text} {state : MessageStore}

variable {call : MessageCall} {index : Nat}

theorem setCall_keeps (found : state.calls index = some call) (attempt : Nat)
    (phase : MessagePhase) :
    Keeps state (state.setCall index { call with attempt, phase }) := by
  intro other before stored
  by_cases same : other = index
  · subst same
    rw [found] at stored
    cases stored
    exact ⟨attempt, phase, Function.update_self _ _ _⟩
  · refine ⟨before.attempt, before.phase, ?_⟩
    have kept : (state.setCall index { call with attempt, phase }).calls
        other = state.calls other := Function.update_of_ne same _ _
    rw [kept]
    exact stored

theorem MessagesOk.place (ok : MessagesOk threadId state)
    (found : state.calls index = some call) (attempt : Nat)
    (phase : MessagePhase)
    (right : MessageCall.PhaseOk threadId state { call with attempt, phase }) :
    MessagesOk threadId
      (state.setCall index { call with attempt, phase }) := by
  have keeps := setCall_keeps found attempt phase
  refine ⟨ok.sequences, ok.ids, ?_, ok.pointers, ?_, ?_⟩
  · intro row member
    obtain ⟨author, before, stored, same⟩ := ok.authors row member
    obtain ⟨later, next, kept⟩ := keeps author before stored
    exact ⟨author, _, kept, same⟩
  · intro key payload stored
    obtain ⟨writer, before, sequence, held, path, same⟩ :=
      ok.writers key payload stored
    obtain ⟨later, next, kept⟩ := keeps writer before held
    exact ⟨writer, _, sequence, kept, path, same⟩
  · intro other current stored
    by_cases same : other = index
    · subst same
      have here : (state.setCall other { call with attempt, phase }).calls
          other = some { call with attempt, phase } :=
        Function.update_self _ _ _
      rw [here] at stored
      cases stored
      exact right
    · have kept : (state.setCall index { call with attempt, phase }).calls
          other = state.calls other := Function.update_of_ne same _ _
      rw [kept] at stored
      exact ok.phases other current stored

theorem MessagesOk.setPhase (ok : MessagesOk threadId state)
    (found : state.calls index = some call) (phase : MessagePhase)
    (right : MessageCall.PhaseOk threadId state { call with phase }) :
    MessagesOk threadId (state.setPhase index call phase) :=
  ok.place found call.attempt phase right

theorem MessagesOk.start (ok : MessagesOk threadId state) (index : Nat)
    (right : call.PhaseOk threadId state) :
    MessagesOk threadId (state.start index call) := by
  unfold MessageStore.start
  split
  · exact ok
  · rename_i free
    have kept : ∀ {other before}, state.calls other = some before →
        (state.setCall index call).calls other = some before := by
      intro other before stored
      have apart : other ≠ index := by
        intro same
        rw [same, free] at stored
        cases stored
      have same : (state.setCall index call).calls other =
          state.calls other := Function.update_of_ne apart _ _
      rw [same]
      exact stored
    refine ⟨ok.sequences, ok.ids, ?_, ok.pointers, ?_, ?_⟩
    · intro row member
      obtain ⟨author, before, stored, same⟩ := ok.authors row member
      exact ⟨author, before, kept stored, same⟩
    · intro key payload stored
      obtain ⟨writer, before, sequence, held, path, same⟩ :=
        ok.writers key payload stored
      exact ⟨writer, before, sequence, kept held, path, same⟩
    · intro other current stored
      by_cases same : other = index
      · subst same
        have here : (state.setCall other call).calls other = some call :=
          Function.update_self _ _ _
        rw [here] at stored
        cases stored
        exact right
      · have before : (state.setCall index call).calls other =
            state.calls other := Function.update_of_ne same _ _
        rw [before] at stored
        exact ok.phases other current stored

theorem MessagesOk.retry (ok : MessagesOk threadId state)
    (found : state.calls index = some call) (retryable : Bool) :
    MessagesOk threadId (state.retry index call retryable) := by
  unfold MessageStore.retry
  split
  · apply ok.place found
    cases call.kind <;> trivial
  · exact ok.setPhase found .thrown trivial

theorem MessagesOk.caught (ok : MessagesOk threadId state)
    (found : state.calls index = some call) (unique retryable : Bool) :
    MessagesOk threadId (state.caught index call unique retryable) := by
  unfold MessageStore.caught
  split
  · split
    · exact ok.setPhase found (.checking retryable) trivial
    · exact ok.retry found retryable
  · exact ok.retry found retryable

theorem hasRow_iff {id : Text} :
    state.hasRow id = true ↔ ∃ row ∈ state.rows, row.id = id := by
  simp only [MessageStore.hasRow, List.any_eq_true, decide_eq_true_eq]

theorem MessagesOk.reserved (ok : MessagesOk threadId state)
    (sequence : Nat) :
    MessagesOk threadId { state with nextMessageSequence := sequence } := by
  refine ⟨ok.sequences, ok.ids, ok.authors, ok.pointers, ok.writers, ?_⟩
  intro index call found
  exact (ok.phases index call found).mono (fun _ member => member)
    (fun _ payload stored => ⟨payload, stored⟩)

theorem MessagesOk.reserve (ok : MessagesOk threadId state)
    (found : state.calls index = some call) (bucket : Bool)
    (answer : CallAnswer) (unique retryable : Bool) :
    MessagesOk threadId
      (state.reserve bucket index call answer unique retryable) := by
  have next := ok.reserved (state.nextMessageSequence + 1)
  unfold MessageStore.reserve
  cases answer with
  | done =>
      apply next.setPhase found
      split <;> trivial
  | failed =>
      dsimp only
      rw [if_pos rfl, if_neg nofun]
      cases call.kind with
      | persist => exact ok.caught found unique retryable
      | create => exact ok.setPhase found .thrown trivial
  | lost =>
      dsimp only
      rw [if_neg nofun, if_neg nofun]
      cases call.kind with
      | persist => exact next.caught found unique retryable
      | create => exact next.setPhase found .thrown trivial

theorem MessagesOk.written (ok : MessagesOk threadId state)
    (found : state.calls index = some call) (sequence : Nat) :
    MessagesOk threadId { state with
      objects := Function.update state.objects (messageR2Key threadId call.id)
        (some (call.payload sequence)) } := by
  have grows : ∀ key payload, state.objects key = some payload →
      ∃ later, Function.update state.objects (messageR2Key threadId call.id)
        (some (call.payload sequence)) key = some later := by
    intro key payload stored
    by_cases same : key = messageR2Key threadId call.id
    · rw [same, Function.update_self]
      exact ⟨_, rfl⟩
    · rw [Function.update_of_ne same]
      exact ⟨payload, stored⟩
  refine ⟨ok.sequences, ok.ids, ok.authors, ?_, ?_, ?_⟩
  · intro row member key pointer
    obtain ⟨path, payload, stored⟩ := ok.pointers row member key pointer
    exact ⟨path, grows key payload stored⟩
  · intro key payload stored
    have updated : Function.update state.objects
        (messageR2Key threadId call.id) (some (call.payload sequence)) key =
          some payload := stored
    by_cases same : key = messageR2Key threadId call.id
    · rw [same, Function.update_self] at updated
      cases updated
      exact ⟨index, call, sequence, found, same, rfl⟩
    · rw [Function.update_of_ne same] at updated
      exact ok.writers key payload updated
  · intro other current stored
    exact (ok.phases other current stored).mono (fun _ member => member) grows

theorem MessagesOk.put (ok : MessagesOk threadId state)
    (found : state.calls index = some call) (sequence : Nat)
    (answer : CallAnswer) :
    MessagesOk threadId
      (state.put threadId index call sequence answer) := by
  have next := ok.written found sequence
  unfold MessageStore.put
  cases answer with
  | done =>
      apply next.setPhase found
      exact ⟨rfl, _, Function.update_self _ _ _⟩
  | failed => exact ok.setPhase found (.inserting sequence none) trivial
  | lost => exact next.setPhase found (.inserting sequence none) trivial

theorem MessagesOk.inserted (ok : MessagesOk threadId state)
    (found : state.calls index = some call) {sequence : Nat}
    {r2Key : Option Text} (phase : call.phase = .inserting sequence r2Key)
    (free : (state.rows.any fun row =>
      row.id = call.id || row.sequence = sequence) = false) :
    MessagesOk threadId
      { state with rows := state.rows ++ [call.row sequence r2Key] } := by
  have apart : ∀ row ∈ state.rows,
      row.id ≠ call.id ∧ row.sequence ≠ sequence := by
    intro row member
    have clash := List.any_eq_false.mp free row member
    rw [Bool.or_eq_true, not_or] at clash
    exact ⟨fun same => clash.1 (decide_eq_true same),
      fun same => clash.2 (decide_eq_true same)⟩
  refine ⟨?_, ?_, ?_, ?_, ok.writers, ?_⟩
  · rw [List.map_append]
    refine List.nodup_append.mpr ⟨ok.sequences, List.nodup_singleton _, ?_⟩
    intro left member right last same
    obtain ⟨row, inside, rfl⟩ := List.mem_map.mp member
    rw [List.mem_singleton.mp last] at same
    exact (apart row inside).2 same
  · rw [List.map_append]
    refine List.nodup_append.mpr ⟨ok.ids, List.nodup_singleton _, ?_⟩
    intro left member right last same
    obtain ⟨row, inside, rfl⟩ := List.mem_map.mp member
    rw [List.mem_singleton.mp last] at same
    exact (apart row inside).1 same
  · intro row member
    rcases List.mem_append.mp member with old | new
    · exact ok.authors row old
    · rw [List.mem_singleton.mp new]
      exact ⟨index, call, found, rfl⟩
  · intro row member key pointer
    rcases List.mem_append.mp member with old | new
    · exact ok.pointers row old key pointer
    · rw [List.mem_singleton.mp new] at pointer ⊢
      have right := ok.phases index call found
      have given : r2Key = some key := pointer
      rw [MessageCall.PhaseOk, phase, given] at right
      exact right
  · intro other current stored
    exact (ok.phases other current stored).mono
      (fun _ member => List.mem_append_left _ member)
      (fun _ payload stored => ⟨payload, stored⟩)

theorem MessagesOk.insert (ok : MessagesOk threadId state)
    (found : state.calls index = some call) {sequence : Nat}
    {r2Key : Option Text} (phase : call.phase = .inserting sequence r2Key)
    (answer : CallAnswer) (unique retryable : Bool) :
    MessagesOk threadId
      (state.insert index call sequence r2Key answer unique retryable) := by
  unfold MessageStore.insert
  split
  · exact ok.caught found true retryable
  · rename_i free
    have next := ok.inserted found phase (Bool.eq_false_iff.mpr free)
    cases answer with
    | failed => exact ok.caught found unique retryable
    | lost => exact next.caught found unique retryable
    | done =>
        apply next.setPhase found
        exact ⟨_, List.mem_append_right _ (List.mem_singleton_self _), rfl⟩

end Steps

theorem MessagesOk.step {threadId : Text} {state : MessageStore}
    (ok : MessagesOk threadId state) (bucket : Bool) (event : MessageEvent) :
    MessagesOk threadId (state.step threadId bucket event) := by
  cases event with
  | persist index idempotencyKey fresh message now =>
      exact ok.start index trivial
  | create index id message now => exact ok.start index trivial
  | look index answered unique retryable =>
      dsimp only [MessageStore.step]
      split
      · rename_i found
        unfold MessageStore.look
        split
        · exact ok.caught found unique retryable
        · split
          · rename_i present
            exact ok.setPhase found .returned (hasRow_iff.mp present)
          · exact ok.setPhase found .reserving trivial
      · exact ok
  | reserve index answer unique retryable =>
      dsimp only [MessageStore.step]
      split
      · rename_i found
        exact ok.reserve found bucket answer unique retryable
      · exact ok
  | put index answer =>
      dsimp only [MessageStore.step]
      split
      · rename_i found
        exact ok.put found _ answer
      · exact ok
  | insert index answer unique retryable =>
      dsimp only [MessageStore.step]
      split
      · rename_i found
        exact ok.insert found rfl answer unique retryable
      · exact ok
  | check index answered =>
      dsimp only [MessageStore.step]
      split
      · rename_i found
        unfold MessageStore.check
        split
        · exact ok.setPhase found .thrown trivial
        · split
          · rename_i present
            exact ok.setPhase found .returned (hasRow_iff.mp present)
          · exact ok.retry found _
      · exact ok

theorem MessagesOk.after (threadId : Text) (bucket : Bool)
    (events : List MessageEvent) :
    MessagesOk threadId (MessageStore.after threadId bucket events) := by
  have run : ∀ state, MessagesOk threadId state →
      MessagesOk threadId (events.foldl
        (fun state event => state.step threadId bucket event) state) := by
    induction events with
    | nil => exact fun _ ok => ok
    | cons event rest hypothesis =>
        exact fun state ok => hypothesis _ (ok.step bucket event)
  exact run _ (.initial threadId)

/-- The row is what a call stores of the message. -/
def RowHolds (row : StoredMessageRow) (message : MessageInput) : Prop :=
  ∃ call : MessageCall, call.message = message ∧
    row = call.row row.sequence row.r2Key

def SameMessages (state : MessageStore) : Prop :=
  ∀ index other call another, state.calls index = some call →
    state.calls other = some another → call.id = another.id →
      call.message = another.message

theorem eq_of_id {rows : List StoredMessageRow}
    (distinct : (rows.map StoredMessageRow.id).Nodup)
    {row other : StoredMessageRow} (first : row ∈ rows)
    (second : other ∈ rows) (same : row.id = other.id) : row = other :=
  List.inj_on_of_nodup_map distinct first second same

theorem id_of_author (author : row = call.row row.sequence row.r2Key) :
    row.id = call.id := by
  rw [author]
  rfl

/-- A row that some call with the id has written holds the message of every
call with the id. -/
theorem MessagesOk.holds {threadId : Text} {state : MessageStore}
    (ok : MessagesOk threadId state) (same : SameMessages state)
    (member : row ∈ state.rows) {index : Nat}
    (found : state.calls index = some call) (alike : row.id = call.id) :
    RowHolds row call.message := by
  obtain ⟨author, before, stored, written⟩ := ok.authors row member
  refine ⟨before, ?_, written⟩
  apply same author index before call stored found
  rw [← alike]
  exact (id_of_author written).symm

theorem MessagesOk.object {threadId : Text} {state : MessageStore}
    (ok : MessagesOk threadId state) (same : SameMessages state)
    (member : row ∈ state.rows) :
    ∃ message, RowHolds row message ∧ ∀ key, row.r2Key = some key →
      ∃ payload, state.objects key = some payload ∧
        payload.input = message := by
  obtain ⟨author, before, stored, written⟩ := ok.authors row member
  refine ⟨before.message, ⟨before, rfl, written⟩, ?_⟩
  intro key pointer
  obtain ⟨path, payload, held⟩ := ok.pointers row member key pointer
  obtain ⟨writer, later, sequence, wrote, place, content⟩ :=
    ok.writers key payload held
  refine ⟨payload, held, ?_⟩
  have ids : later.id = row.id := by
    rw [path] at place
    exact (messageR2Key_injective place).symm
  have alike := same writer author later before wrote stored
    (ids.trans (id_of_author written))
  rw [content]
  exact alike

/-- Rows have their own sequence numbers, a call that returns has exactly one
row, and when calls with one id carry one message, that row holds the message
of the call and every object holds the message of its row. -/
theorem messages_agree (threadId : Text) (bucket : Bool)
    (events : List MessageEvent) :
    let state := MessageStore.after threadId bucket events
    (state.rows.map StoredMessageRow.sequence).Nodup ∧
      (∀ index call, state.calls index = some call →
        call.phase = .returned → ∃ row ∈ state.rows, row.id = call.id ∧
          ∀ other ∈ state.rows, other.id = call.id → other = row) ∧
      (SameMessages state →
        (∀ index call, state.calls index = some call →
          call.phase = .returned →
            ∃ row ∈ state.rows, row.id = call.id ∧
              RowHolds row call.message) ∧
        ∀ row ∈ state.rows, ∃ message, RowHolds row message ∧
          ∀ key, row.r2Key = some key →
            ∃ payload, state.objects key = some payload ∧
              payload.input = message) := by
  intro state
  have ok := MessagesOk.after threadId bucket events
  have kept : ∀ index call, state.calls index = some call →
      call.phase = .returned → ∃ row ∈ state.rows, row.id = call.id := by
    intro index call found phase
    have right := ok.phases index call found
    rw [MessageCall.PhaseOk, phase] at right
    exact right
  refine ⟨ok.sequences, ?_, ?_⟩
  · intro index call found phase
    obtain ⟨row, member, same⟩ := kept index call found phase
    refine ⟨row, member, same, ?_⟩
    intro other inside alike
    exact eq_of_id ok.ids inside member (alike.trans same.symm)
  · intro same
    refine ⟨?_, ?_⟩
    · intro index call found phase
      obtain ⟨row, member, alike⟩ := kept index call found phase
      exact ⟨row, member, alike, ok.holds same member found alike⟩
    · intro row member
      exact ok.object same member

namespace DroppedMessages

def thread : Text := ['t']

def firstKey : Text := "SG2Iq88:tkqf2Rky".toList

def secondKey : Text := "MW531dKGT.2S44ku".toList

def message (content : Text) : MessageInput :=
  ⟨.tool, content, none, none, "{}".toList⟩

def collision : List MessageEvent :=
  [.persist 0 (some firstKey) [] (message ['a']) [],
    .look 0 true false false, .reserve 0 .done false false,
    .insert 0 .done false false,
    .persist 1 (some secondKey) [] (message ['b']) [],
    .look 1 true false false]

/-- Both calls write the object before the first inserts its row. -/
def overwritten : List MessageEvent :=
  [.persist 0 (some firstKey) [] (message ['a']) [],
    .look 0 true false false, .reserve 0 .done false false, .put 0 .done,
    .persist 1 (some firstKey) [] (message ['b']) [],
    .look 1 true false false, .reserve 1 .done false false, .put 1 .done,
    .insert 0 .done false false, .insert 1 .done false false,
    .check 1 true]

/-- A message is dropped for another one with its hash, and an object holds
the message of the call that lost. -/
theorem message_dropped :
    (firstKey ≠ secondKey ∧
        ((MessageStore.after thread false collision).calls 1).map
          MessageCall.phase = some .returned ∧
        (MessageStore.after thread false collision).rows.map
          StoredMessageRow.content = [['a']]) ∧
      (MessageStore.after thread true overwritten).rows.map
          StoredMessageRow.content = [['a']] ∧
        (MessageStore.after thread true overwritten).rows.map
          (fun row => (row.r2Key.bind (MessageStore.after thread true
            overwritten).objects).map PersistedMessage.content) =
            [some ['b']] := by
  refine ⟨⟨?_, ?_, ?_⟩, ?_, ?_⟩ <;> decide +kernel

end DroppedMessages

end Takos.Threads
