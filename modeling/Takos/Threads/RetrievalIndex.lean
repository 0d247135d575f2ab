import Takos.Runs.CompletedMessages
import Mathlib.Data.List.Sort
import Mathlib.Logic.Function.Basic

/-!
# The retrieval index of a thread

A thread with its messages, the reserved sequence numbers that are not inserted
yet, and the calls of `indexThreadContext` at work on it.  Every call of the
database, of the model or of the vector store is one step.
-/

namespace Takos.Threads

open Takos.Runs

/-- What became of a call: it did nothing, its effect happened but the answer
was lost, or it was answered. -/
inductive CallAnswer where
  | failed
  | lost
  | done
  deriving DecidableEq

structure ThreadMessage where
  id : Nat
  sequence : Nat
  role : MessageRole
  deriving DecidableEq

/-- The roles that are embedded. -/
def isIndexedRole (role : MessageRole) : Bool :=
  role = .user || role = .assistant || role = .tool

def MAX_VECTOR_UPSERT_BATCH : Nat := 100

def DEFAULT_MAX_MESSAGES_PER_THREAD_INDEX_JOB : Nat := 200

/-- `Math.max(1, Math.min(maxMessages ?? DEFAULT, 500))`. -/
def clampMessages (maxMessages : Option Int) : Nat :=
  (max 1 (min (maxMessages.getD DEFAULT_MAX_MESSAGES_PER_THREAD_INDEX_JOB)
    500)).toNat

/-- `lastSeq` is the index that the call has read, and `position` counts the
messages of the batch that the phase is done with. -/
inductive IndexerPhase where
  | started (lastSeq : Int) (maxMessages : Nat) (bound : Bool)
  | embedding (lastSeq : Int) (batch : List ThreadMessage) (position : Nat)
  | upserting (lastSeq : Int) (batch : List ThreadMessage) (position : Nat)
  | advancing (lastSeq : Int) (batch : List ThreadMessage)

/-- `reserved` holds the sequence numbers that are taken and not inserted, and
`upserted` the messages whose vectors have reached the vector store. -/
structure ThreadState where
  nextMessageSequence : Nat
  retrievalIndex : Int
  reserved : List Nat
  messages : List ThreadMessage
  upserted : List ThreadMessage
  indexers : Nat → Option IndexerPhase

/-- `bound` tells that `env.AI` and `env.VECTORIZE` are there. -/
inductive ThreadEvent where
  | reserve (count : Nat)
  | insert (message : ThreadMessage)
  | start (indexer : Nat) (maxMessages : Option Int) (bound : Bool)
  | read (indexer : Nat)
  | embed (indexer : Nat) (answer : CallAnswer)
  | upsert (indexer : Nat) (answer : CallAnswer)
  | advance (indexer : Nat) (answer : CallAnswer)
  | crash (indexer : Nat)

/-- `newMessages[newMessages.length - 1].sequence`. -/
def lastSequence (lastSeq : Int) (batch : List ThreadMessage) : Int :=
  match batch.getLast? with
  | some message => message.sequence
  | none => lastSeq

namespace ThreadState

def empty : ThreadState := ⟨0, -1, [], [], [], fun _ => none⟩

variable (state : ThreadState)

def setIndexer (indexer : Nat) (phase : Option IndexerPhase) : ThreadState :=
  { state with indexers := Function.update state.indexers indexer phase }

def newMessages (lastSeq : Int) (maxMessages : Nat) : List ThreadMessage :=
  ((state.messages.filter fun message =>
    lastSeq < message.sequence && isIndexedRole message.role).insertionSort
      fun left right => left.sequence ≤ right.sequence).take maxMessages

def readMessages (indexer : Nat) (lastSeq : Int) (maxMessages : Nat)
    (bound : Bool) : ThreadState :=
  let batch := state.newMessages lastSeq maxMessages
  state.setIndexer indexer
    (if batch = [] then none
    else if bound then some (.embedding lastSeq batch 0)
    else some (.advancing lastSeq batch))

/-- The texts are embedded in batches; a failure ends the call. -/
def embedBatch (indexer : Nat) (lastSeq : Int) (batch : List ThreadMessage)
    (position : Nat) (answer : CallAnswer) : ThreadState :=
  let next := position + MAX_VECTOR_UPSERT_BATCH
  state.setIndexer indexer
    (if answer ≠ .done then none
    else if next < batch.length then some (.embedding lastSeq batch next)
    else some (.upserting lastSeq batch 0))

def upsertBatch (indexer : Nat) (lastSeq : Int) (batch : List ThreadMessage)
    (position : Nat) (answer : CallAnswer) : ThreadState :=
  let next := position + MAX_VECTOR_UPSERT_BATCH
  let sent := (batch.drop position).take MAX_VECTOR_UPSERT_BATCH
  { state.setIndexer indexer
      (if answer ≠ .done then none
      else if next < batch.length then some (.upserting lastSeq batch next)
      else some (.advancing lastSeq batch)) with
    upserted := if answer = .failed then state.upserted
      else state.upserted ++ sent }

def advanceIndex (indexer : Nat) (lastSeq : Int) (batch : List ThreadMessage)
    (answer : CallAnswer) : ThreadState :=
  { state.setIndexer indexer none with
    retrievalIndex := if answer = .failed then state.retrievalIndex
      else lastSequence lastSeq batch }

def step : ThreadEvent → ThreadState
  | .reserve count =>
    { state with
      nextMessageSequence := state.nextMessageSequence + count
      reserved := state.reserved ++
        (List.range count).map (state.nextMessageSequence + ·) }
  | .insert message =>
    if message.sequence ∈ state.reserved then
      { state with
        reserved := state.reserved.erase message.sequence
        messages := state.messages ++ [message] }
    else state
  | .start indexer maxMessages bound =>
    match state.indexers indexer with
    | none =>
      state.setIndexer indexer
        (some (.started state.retrievalIndex (clampMessages maxMessages) bound))
    | some _ => state
  | .read indexer =>
    match state.indexers indexer with
    | some (.started lastSeq maxMessages bound) =>
      state.readMessages indexer lastSeq maxMessages bound
    | _ => state
  | .embed indexer answer =>
    match state.indexers indexer with
    | some (.embedding lastSeq batch position) =>
      state.embedBatch indexer lastSeq batch position answer
    | _ => state
  | .upsert indexer answer =>
    match state.indexers indexer with
    | some (.upserting lastSeq batch position) =>
      state.upsertBatch indexer lastSeq batch position answer
    | _ => state
  | .advance indexer answer =>
    match state.indexers indexer with
    | some (.advancing lastSeq batch) =>
      state.advanceIndex indexer lastSeq batch answer
    | _ => state
  | .crash indexer => state.setIndexer indexer none

def after (events : List ThreadEvent) : ThreadState := events.foldl step .empty

end ThreadState

/-- The vector store is bound, a message is inserted above the index, and an
index is written that lies no lower than the current one and above which no
message of its range has come since the read. -/
def StepSound (state : ThreadState) : ThreadEvent → Prop
  | .start _ _ bound => bound = true
  | .insert message =>
    isIndexedRole message.role = true →
      state.retrievalIndex < message.sequence
  | .advance indexer answer => answer ≠ .failed → ∀ lastSeq batch,
      state.indexers indexer = some (.advancing lastSeq batch) →
      state.retrievalIndex ≤ lastSequence lastSeq batch ∧
        ∀ message ∈ state.messages, isIndexedRole message.role = true →
          lastSeq < message.sequence →
          (message.sequence : Int) ≤ lastSequence lastSeq batch →
            message ∈ batch
  | _ => True

def Sound (state : ThreadState) : List ThreadEvent → Prop
  | [] => True
  | event :: rest => StepSound state event ∧ Sound (state.step event) rest

/-- What a call at work has read and sent. -/
def PhaseOk (state : ThreadState) : IndexerPhase → Prop
  | .started lastSeq _ bound =>
    lastSeq ≤ state.retrievalIndex ∧ bound = true
  | .embedding lastSeq _ _ => lastSeq ≤ state.retrievalIndex
  | .upserting lastSeq batch position =>
    lastSeq ≤ state.retrievalIndex ∧
      ∀ message ∈ batch.take position, message ∈ state.upserted
  | .advancing lastSeq batch =>
    lastSeq ≤ state.retrievalIndex ∧
      ∀ message ∈ batch, message ∈ state.upserted

structure Indexed (state : ThreadState) : Prop where
  covered : ∀ message ∈ state.messages, isIndexedRole message.role = true →
    (message.sequence : Int) ≤ state.retrievalIndex →
      message ∈ state.upserted
  phases : ∀ indexer phase, state.indexers indexer = some phase →
    PhaseOk state phase

theorem Indexed.initial : Indexed .empty := by
  constructor
  · intro message member
    cases member
  · intro indexer phase found
    cases found

theorem PhaseOk.mono {state next : ThreadState} {phase : IndexerPhase}
    (ok : PhaseOk state phase)
    (grows : state.retrievalIndex ≤ next.retrievalIndex)
    (keeps : ∀ message ∈ state.upserted, message ∈ next.upserted) :
    PhaseOk next phase := by
  cases phase with
  | started lastSeq maxMessages bound => exact ⟨ok.1.trans grows, ok.2⟩
  | embedding lastSeq batch position => exact le_trans ok grows
  | upserting | advancing =>
      exact ⟨ok.1.trans grows,
        fun message member => keeps message (ok.2 message member)⟩

structure Grows (state next : ThreadState) : Prop where
  index : state.retrievalIndex ≤ next.retrievalIndex
  upserted : ∀ message ∈ state.upserted, message ∈ next.upserted
  messages : ∀ message ∈ next.messages, isIndexedRole message.role = true →
    message ∈ state.messages ∨ state.retrievalIndex < message.sequence

theorem Grows.refl (state : ThreadState) : Grows state state :=
  ⟨le_refl _, fun _ member => member, fun _ member _ => .inl member⟩

theorem Grows.trans {first second third : ThreadState}
    (early : Grows first second) (later : Grows second third) :
    Grows first third := by
  refine ⟨early.index.trans later.index, ?_, ?_⟩
  · intro message member
    exact later.upserted message (early.upserted message member)
  · intro message member indexed
    rcases later.messages message member indexed with old | above
    · exact early.messages message old indexed
    · exact .inr (lt_of_le_of_lt early.index above)

theorem Indexed.place {state next : ThreadState} (indexed : Indexed state)
    (grows : Grows state next) {indexer : Nat} {phase : Option IndexerPhase}
    (indexers : next.indexers =
      Function.update state.indexers indexer phase)
    (ok : ∀ inner, phase = some inner → PhaseOk next inner)
    (covered : ∀ message ∈ next.messages,
      isIndexedRole message.role = true →
      (message.sequence : Int) ≤ next.retrievalIndex →
        message ∈ next.upserted) : Indexed next := by
  refine ⟨covered, ?_⟩
  intro other found stored
  rw [indexers] at stored
  by_cases same : other = indexer
  · rw [same, Function.update_self] at stored
    exact ok found stored
  · rw [Function.update_of_ne same] at stored
    exact (indexed.phases other found stored).mono grows.index grows.upserted

theorem Indexed.setIndexer {state : ThreadState} (indexed : Indexed state)
    {indexer : Nat} {phase : Option IndexerPhase}
    (ok : ∀ inner, phase = some inner → PhaseOk state inner) :
    Indexed (state.setIndexer indexer phase) ∧
      Grows state (state.setIndexer indexer phase) := by
  have grows : Grows state (state.setIndexer indexer phase) :=
    ⟨le_refl _, fun _ member => member, fun _ member _ => .inl member⟩
  refine ⟨indexed.place grows rfl ?_ indexed.covered, grows⟩
  intro inner same
  exact (ok inner same).mono (le_refl _) (fun _ member => member)

theorem upsert_step {state : ThreadState} (indexed : Indexed state)
    {indexer : Nat} {lastSeq : Int} {batch : List ThreadMessage}
    {position : Nat}
    (found : state.indexers indexer =
      some (.upserting lastSeq batch position)) (answer : CallAnswer) :
    Indexed (state.upsertBatch indexer lastSeq batch position answer) ∧
      Grows state
        (state.upsertBatch indexer lastSeq batch position answer) := by
  obtain ⟨below, sent⟩ := indexed.phases indexer _ found
  have keeps : ∀ message ∈ state.upserted, message ∈
      (state.upsertBatch indexer lastSeq batch position answer).upserted := by
    intro message member
    show message ∈ if answer = .failed then state.upserted else _
    split
    · exact member
    · exact List.mem_append_left _ member
  have grows : Grows state
      (state.upsertBatch indexer lastSeq batch position answer) :=
    ⟨le_refl _, keeps, fun _ member _ => .inl member⟩
  refine ⟨indexed.place grows rfl ?_ ?_, grows⟩
  · intro inner same
    by_cases failed : answer ≠ .done
    · rw [if_pos failed] at same
      cases same
    · have done : answer = .done := not_not.mp failed
      rw [if_neg failed] at same
      have taken : ∀ message ∈
          batch.take (position + MAX_VECTOR_UPSERT_BATCH), message ∈
            (state.upsertBatch indexer lastSeq batch position
              answer).upserted := by
        intro message member
        rw [List.take_add] at member
        rcases List.mem_append.mp member with old | new
        · exact keeps message (sent message old)
        · show message ∈ if answer = .failed then state.upserted else _
          rw [done, if_neg nofun]
          exact List.mem_append_right _ new
      split at same
      · cases same
        exact ⟨below, taken⟩
      · rename_i all
        cases same
        refine ⟨below, ?_⟩
        intro message member
        apply taken message
        rw [List.take_of_length_le (not_lt.mp all)]
        exact member
  · intro message member role above
    exact keeps message (indexed.covered message member role above)

theorem advance_step {state : ThreadState} (indexed : Indexed state)
    {indexer : Nat} {lastSeq : Int} {batch : List ThreadMessage}
    (found : state.indexers indexer = some (.advancing lastSeq batch))
    {answer : CallAnswer}
    (sound : StepSound state (.advance indexer answer)) :
    Indexed (state.advanceIndex indexer lastSeq batch answer) ∧
      Grows state (state.advanceIndex indexer lastSeq batch answer) := by
  obtain ⟨below, sent⟩ := indexed.phases indexer _ found
  by_cases failed : answer = .failed
  · have same : state.advanceIndex indexer lastSeq batch answer =
        state.setIndexer indexer none := by
      unfold ThreadState.advanceIndex
      rw [if_pos failed]
      rfl
    rw [same]
    exact indexed.setIndexer nofun
  · obtain ⟨forward, complete⟩ := sound failed lastSeq batch found
    have index : (state.advanceIndex indexer lastSeq batch
        answer).retrievalIndex = lastSequence lastSeq batch := by
      unfold ThreadState.advanceIndex
      rw [if_neg failed]
    have grows : Grows state
        (state.advanceIndex indexer lastSeq batch answer) := by
      refine ⟨?_, fun _ member => member, fun _ member _ => .inl member⟩
      rw [index]
      exact forward
    refine ⟨indexed.place grows rfl nofun ?_, grows⟩
    intro message member role above
    rw [index] at above
    by_cases old : (message.sequence : Int) ≤ lastSeq
    · exact indexed.covered message member role (old.trans below)
    · exact sent message (complete message member role (not_le.mp old) above)

theorem step_indexed {state : ThreadState} (indexed : Indexed state)
    {event : ThreadEvent} (sound : StepSound state event) :
    Indexed (state.step event) ∧ Grows state (state.step event) := by
  cases event with
  | reserve count =>
      refine ⟨⟨indexed.covered, ?_⟩,
        ⟨le_refl _, fun _ member => member, fun _ member _ => .inl member⟩⟩
      intro indexer phase found
      exact (indexed.phases indexer phase found).mono (le_refl _)
        (fun _ member => member)
  | insert message =>
      dsimp only [ThreadState.step]
      split
      · refine ⟨⟨?_, ?_⟩,
          ⟨le_refl _, fun _ member => member, ?_⟩⟩
        · intro other member role below
          rcases List.mem_append.mp member with old | new
          · exact indexed.covered other old role below
          · rw [List.mem_singleton.mp new] at role below
            exact absurd below (not_le.mpr (sound role))
        · intro indexer phase found
          exact (indexed.phases indexer phase found).mono (le_refl _)
            (fun _ member => member)
        · intro other member role
          rcases List.mem_append.mp member with old | new
          · exact .inl old
          · rw [List.mem_singleton.mp new] at role ⊢
            exact .inr (sound role)
      · exact ⟨indexed, Grows.refl state⟩
  | start indexer maxMessages bound =>
      dsimp only [ThreadState.step]
      split
      · apply indexed.setIndexer
        intro inner same
        cases same
        exact ⟨le_refl _, sound⟩
      · exact ⟨indexed, Grows.refl state⟩
  | read indexer =>
      dsimp only [ThreadState.step]
      split
      · rename_i lastSeq maxMessages bound found
        obtain ⟨below, here⟩ := indexed.phases indexer _ found
        apply indexed.setIndexer
        intro inner same
        rw [here] at same
        split at same
        · cases same
        · cases same
          exact below
      · exact ⟨indexed, Grows.refl state⟩
  | embed indexer answer =>
      dsimp only [ThreadState.step]
      split
      · rename_i lastSeq batch position found
        have below : lastSeq ≤ state.retrievalIndex :=
          indexed.phases indexer _ found
        apply indexed.setIndexer
        intro inner same
        split at same
        · cases same
        · split at same
          · cases same
            exact below
          · cases same
            exact ⟨below, fun message member => by cases member⟩
      · exact ⟨indexed, Grows.refl state⟩
  | upsert indexer answer =>
      dsimp only [ThreadState.step]
      split
      · rename_i lastSeq batch position found
        exact upsert_step indexed found answer
      · exact ⟨indexed, Grows.refl state⟩
  | advance indexer answer =>
      dsimp only [ThreadState.step]
      split
      · rename_i lastSeq batch found
        exact advance_step indexed found sound
      · exact ⟨indexed, Grows.refl state⟩
  | crash indexer => exact indexed.setIndexer nofun

theorem Sound.run {events : List ThreadEvent} :
    ∀ {state : ThreadState}, Indexed state → Sound state events →
      Indexed (events.foldl ThreadState.step state) ∧
        Grows state (events.foldl ThreadState.step state) := by
  induction events with
  | nil => exact fun indexed _ => ⟨indexed, Grows.refl _⟩
  | cons event rest hypothesis =>
      intro state indexed sound
      obtain ⟨first, grows⟩ := step_indexed indexed sound.1
      obtain ⟨last, more⟩ := hypothesis first sound.2
      exact ⟨last, grows.trans more⟩

theorem Sound.split {before later : List ThreadEvent} :
    ∀ {state : ThreadState}, Sound state (before ++ later) →
      Sound state before ∧
        Sound (before.foldl ThreadState.step state) later := by
  induction before with
  | nil => exact fun sound => ⟨trivial, sound⟩
  | cons event rest hypothesis =>
      intro state sound
      obtain ⟨left, right⟩ := hypothesis sound.2
      exact ⟨⟨sound.1, left⟩, right⟩

namespace OneMessage

def message : ThreadMessage := ⟨0, 0, .user⟩

def events : List ThreadEvent :=
  [.reserve 1, .insert message, .start 0 none true, .read 0, .embed 0 .done,
    .upsert 0 .done, .advance 0 .done]

theorem events_sound : Sound .empty (events ++ []) := by
  refine ⟨trivial, ?_, rfl, trivial, trivial, trivial, ?_, trivial⟩
  · intro _
    decide
  · intro _ lastSeq batch found
    have known : some (IndexerPhase.advancing (-1) [message]) =
        some (.advancing lastSeq batch) := found
    cases known
    refine ⟨by decide, ?_⟩
    intro other member _ _ _
    exact member

end OneMessage

namespace MissedMessages

def first : ThreadMessage := ⟨0, 0, .user⟩

def second : ThreadMessage := ⟨1, 1, .assistant⟩

/-- Without a vector store the index moves and nothing is sent. -/
def unbound : List ThreadEvent :=
  [.reserve 1, .insert first, .start 0 none false, .read 0,
    .advance 0 .done]

/-- The first message is inserted after the second has been indexed. -/
def late : List ThreadEvent :=
  [.reserve 1, .reserve 1, .insert second, .start 0 none true, .read 0,
    .embed 0 .done, .upsert 0 .done, .advance 0 .done, .insert first]

/-- The second call reads and writes while the first is at work. -/
def overlapping : List ThreadEvent :=
  [.reserve 1, .insert first, .start 0 none true, .read 0, .reserve 1,
    .insert second, .start 1 none true, .read 1, .embed 1 .done,
    .upsert 1 .done, .advance 1 .done]

def ending : List ThreadEvent :=
  [.embed 0 .done, .upsert 0 .done, .advance 0 .done]

end MissedMessages

end Takos.Threads
