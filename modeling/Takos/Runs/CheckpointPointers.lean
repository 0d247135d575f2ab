import Takos.Runs.CheckpointRuns

/-!
# Checkpoint pointers never dangle

An object key is drawn once, installed at most once and never comes back after
the row has left it.  A statement deletes only a key that was never installed
or one that the row has left, so the object under the current pointer stays
what its save wrote.
-/

namespace Takos.Runs

open Takos.Foundation

namespace CheckpointStore

variable (store : CheckpointStore)

/-- The key of the object that the row points to. -/
def pointed : Option Text :=
  engineCheckpointR2KeyFromStored store.ledger.row.engineCheckpoint

def WasInstalled (key : Text) : Prop := key ∈ store.installed.map Prod.fst

def Drawn (key : Text) : Prop := ∃ uuid ∈ store.issued, KeyOf uuid key

def Left (key : Text) : Prop := store.WasInstalled key ∧ store.pointed ≠ some key

/-- A key that waits for its swap or its removal. -/
def Waiting (key : Text) : Prop := store.Drawn key ∧ ¬store.WasInstalled key

/-- A checkpoint that was read in the row at some time. -/
def WasRead (stored : Option Text) : Prop :=
  ∀ key, engineCheckpointR2KeyFromStored stored = some key →
    store.WasInstalled key

structure Sound : Prop where
  object : ∀ key, store.pointed = some key →
    ∃ content, (key, content) ∈ store.installed ∧
      store.bucket.get? key = some content
  drawn : ∀ key, store.WasInstalled key → store.Drawn key
  once : (store.installed.map Prod.fst).Nodup
  finished : Finished store.ledger.row

end CheckpointStore

open CheckpointStore

variable {store : CheckpointStore}

theorem CheckpointStore.Sound.wasRead (sound : store.Sound) :
    store.WasRead store.ledger.row.engineCheckpoint := by
  intro key pointed
  obtain ⟨content, installed, _⟩ := sound.object key pointed
  exact List.mem_map.mpr ⟨(key, content), installed, rfl⟩

def CheckpointCall.Holds (store : CheckpointStore) : CheckpointCall → Prop
  | .run call _ observed => call.Ends ∧ store.WasRead (call.observes observed)
  | .cleanup key _ | .dropPrevious key => store.Left key
  | .ensureRunLease _ | .readCheckpoint _ => True
  | .stage _ _ _ current => store.WasRead current
  | .install save stagedKey current =>
    store.WasRead current ∧ ∀ key, stagedKey = some key →
      store.Waiting key ∧ store.bucket.get? key = some save.serialized
  | .dropStaged key => store.Waiting key

/-- The key that a save has staged and not yet installed. -/
def CheckpointCall.staged : CheckpointCall → Option Text
  | .install _ stagedKey _ => stagedKey
  | .dropStaged key => some key
  | _ => none

def CheckpointCall.Apart (left right : CheckpointCall) : Prop :=
  ∀ key, left.staged = some key → right.staged ≠ some key

def checkpointAssertions : Program.Assertions CheckpointStore CheckpointCall
    CheckpointReply where
  shared := Sound
  call store call := call.Holds store
  result _ _ := True

/-- A change of the store that keeps every assertion of another call, as far
as it spares the keys that the other call has staged. -/
structure Spares (before after : CheckpointStore) (key : Option Text) :
    Prop where
  installed : ∀ other, before.WasInstalled other → after.WasInstalled other
  drawn : ∀ other, before.Drawn other → after.Drawn other
  left : ∀ other, before.Left other → after.Left other
  waiting : ∀ other, before.Waiting other → key ≠ some other →
    ¬after.WasInstalled other
  object : ∀ other, before.Waiting other → key ≠ some other →
    after.bucket.get? other = before.bucket.get? other

variable {before after : CheckpointStore} {call : CheckpointCall}

theorem Spares.wasRead {key stored : Option Text}
    (spares : Spares before after key) (read : before.WasRead stored) :
    after.WasRead stored :=
  fun other shape => spares.installed other (read other shape)

theorem Spares.stillWaiting {key : Option Text} {other : Text}
    (spares : Spares before after key) (waiting : before.Waiting other)
    (spared : key ≠ some other) : after.Waiting other :=
  ⟨spares.drawn other waiting.1, spares.waiting other waiting spared⟩

theorem Spares.holds {key : Option Text} {other : CheckpointCall}
    (spares : Spares before after key) (holds : other.Holds before)
    (spared : ∀ staged, other.staged = some staged → key ≠ some staged) :
    other.Holds after := by
  cases other with
  | run call offload observed => exact ⟨holds.1, spares.wasRead holds.2⟩
  | cleanup left reply => exact spares.left left holds
  | dropPrevious left => exact spares.left left holds
  | ensureRunLease | readCheckpoint => trivial
  | stage save serviceId leaseVersion current => exact spares.wasRead holds
  | install save stagedKey current =>
      refine ⟨spares.wasRead holds.1, ?_⟩
      intro staged shape
      obtain ⟨waiting, content⟩ := holds.2 staged shape
      refine ⟨spares.stillWaiting waiting (spared staged shape), ?_⟩
      rw [spares.object staged waiting (spared staged shape)]
      exact content
  | dropStaged staged => exact spares.stillWaiting holds (spared staged rfl)

theorem sound_moves {ledger : RunLedger} (sound : store.Sound)
    (moves : RowMoves store.ledger.row ledger.row) :
    ({ store with ledger := ledger } : CheckpointStore).Sound := by
  refine ⟨?_, sound.drawn, sound.once, moves.finished sound.finished⟩
  intro key pointed
  simp only [CheckpointStore.pointed] at pointed
  rcases moves.checkpoint with same | cleared
  · rw [same] at pointed
    exact sound.object key pointed
  · rw [cleared] at pointed
    exact absurd pointed (Option.some_ne_none key).symm

theorem spares_moves {ledger : RunLedger}
    (moves : RowMoves store.ledger.row ledger.row) :
    Spares store { store with ledger := ledger } none where
  installed _ installed := installed
  drawn _ drawn := drawn
  left key left := by
    refine ⟨left.1, ?_⟩
    intro pointed
    simp only [CheckpointStore.pointed] at pointed
    rcases moves.checkpoint with same | cleared
    · rw [same] at pointed
      exact left.2 pointed
    · rw [cleared] at pointed
      exact absurd pointed (Option.some_ne_none key).symm
  waiting _ waiting _ := waiting.2
  object _ _ _ := rfl

theorem sound_delete {key : Text} (sound : store.Sound)
    (unpointed : store.pointed ≠ some key) :
    ({ store with bucket := store.bucket.delete key } : CheckpointStore).Sound
    where
  object other pointed := by
    obtain ⟨content, installed, object⟩ := sound.object other pointed
    refine ⟨content, installed, ?_⟩
    show (store.bucket.delete key).get? other = some content
    rw [OrderedMap.get?_delete, if_neg, object]
    rintro rfl
    exact unpointed pointed
  drawn := sound.drawn
  once := sound.once
  finished := sound.finished

theorem spares_delete (key : Text) :
    Spares store { store with bucket := store.bucket.delete key } (some key)
    where
  installed _ installed := installed
  drawn _ drawn := drawn
  left _ left := left
  waiting _ waiting _ := waiting.2
  object other _ spared := by
    show (store.bucket.delete key).get? other = _
    rw [OrderedMap.get?_delete, if_neg]
    rintro rfl
    exact spared rfl

theorem Spares.of_installed {key : Text}
    (spares : Spares before after (some key))
    (installed : before.WasInstalled key) : Spares before after none where
  installed := spares.installed
  drawn := spares.drawn
  left := spares.left
  waiting other waiting _ := spares.waiting other waiting (by
    rintro ⟨rfl⟩
    exact waiting.2 installed)
  object other waiting _ := spares.object other waiting (by
    rintro ⟨rfl⟩
    exact waiting.2 installed)

theorem CheckpointStore.Sound.unpointed {key : Text} (sound : store.Sound)
    (fresh : ¬store.WasInstalled key) : store.pointed ≠ some key := by
  intro pointed
  obtain ⟨content, installed, _⟩ := sound.object key pointed
  exact fresh (List.mem_map.mpr ⟨(key, content), installed, rfl⟩)

section Staging

variable {uuid : Uuid} {key content : Text}

theorem sound_put (sound : store.Sound) (fresh : uuid ∉ store.issued)
    (named : KeyOf uuid key) :
    ({ store with
        bucket := store.bucket.set key content
        issued := uuid :: store.issued } : CheckpointStore).Sound where
  object other pointed := by
    obtain ⟨text, installed, object⟩ := sound.object other pointed
    refine ⟨text, installed, ?_⟩
    show (store.bucket.set key content).get? other = some text
    rw [OrderedMap.get?_set_of_ne, object]
    rintro rfl
    obtain ⟨earlier, issued, same⟩ :=
      sound.drawn _ (List.mem_map.mpr ⟨(_, text), installed, rfl⟩)
    exact fresh (named.unique same ▸ issued)
  drawn other installed := by
    obtain ⟨earlier, issued, same⟩ := sound.drawn other installed
    exact ⟨earlier, List.mem_cons_of_mem _ issued, same⟩
  once := sound.once
  finished := sound.finished

theorem spares_put (fresh : uuid ∉ store.issued) (named : KeyOf uuid key) :
    Spares store
      { store with
        bucket := store.bucket.set key content
        issued := uuid :: store.issued } none where
  installed _ installed := installed
  drawn other drawn := by
    obtain ⟨earlier, issued, same⟩ := drawn
    exact ⟨earlier, List.mem_cons_of_mem _ issued, same⟩
  left _ left := left
  waiting _ waiting _ := waiting.2
  object other waiting _ := by
    show (store.bucket.set key content).get? other = _
    rw [OrderedMap.get?_set_of_ne]
    rintro rfl
    obtain ⟨earlier, issued, same⟩ := waiting.1
    exact fresh (named.unique same ▸ issued)

theorem waiting_put (sound : store.Sound) (fresh : uuid ∉ store.issued)
    (named : KeyOf uuid key) :
    ({ store with
        bucket := store.bucket.set key content
        issued := uuid :: store.issued } : CheckpointStore).Waiting key := by
  refine ⟨⟨uuid, List.mem_cons_self, named⟩, ?_⟩
  intro installed
  obtain ⟨earlier, issued, same⟩ := sound.drawn key installed
  exact fresh (named.unique same ▸ issued)

end Staging

section Installing

variable {save : SaveRequest} {current : Option Text}

theorem saveCheckpoint_condition {stored : Text} {row : RunRow}
    (condition : (RowUpdate.saveCheckpoint save current stored).condition row =
      true) : row.status = .running ∧ row.engineCheckpoint = current := by
  simp only [RowUpdate.saveCheckpoint, Bool.and_eq_true,
    decide_eq_true_eq] at condition
  exact ⟨condition.1.1, condition.2⟩

theorem finished_saveCheckpoint (save : SaveRequest) (current : Option Text)
    (stored : Text) {row : RunRow} (finished : Finished row)
    (running : row.status = .running) :
    Finished ((RowUpdate.saveCheckpoint save current stored).assign row) := by
  intro completed
  have ended := (finished completed).1
  rw [running] at ended
  exact absurd ended (by decide)

/-- The store after the swap of a staged checkpoint. -/
def CheckpointStore.swapped (store : CheckpointStore) (save : SaveRequest)
    (current : Option Text) (key : Text) : CheckpointStore :=
  { store with
    ledger := { store.ledger with
      row := (RowUpdate.saveCheckpoint save current
        (save.stored (some key))).assign store.ledger.row }
    installed := (key, save.serialized) :: store.installed }

theorem pointed_swapped {key : Text} (nonempty : key ≠ []) :
    (store.swapped save current key).pointed = some key :=
  keyFromStored_pointer nonempty

theorem wasInstalled_swapped {key other : Text} :
    (store.swapped save current key).WasInstalled other ↔
      other = key ∨ store.WasInstalled other :=
  List.mem_cons

theorem sound_swapped {key : Text} (sound : store.Sound)
    (running : store.ledger.row.status = .running)
    (waiting : store.Waiting key)
    (object : store.bucket.get? key = some save.serialized) :
    (store.swapped save current key).Sound where
  object other pointed := by
    obtain ⟨uuid, _, named⟩ := waiting.1
    rw [pointed_swapped named.ne_nil] at pointed
    rw [← Option.some.inj pointed]
    exact ⟨save.serialized, List.mem_cons_self, object⟩
  drawn other installed := by
    rcases wasInstalled_swapped.mp installed with same | before
    · rw [same]
      exact waiting.1
    · exact sound.drawn other before
  once := List.nodup_cons.mpr ⟨waiting.2, sound.once⟩
  finished := finished_saveCheckpoint save current _ sound.finished running

theorem spares_swapped {key : Text} (waiting : store.Waiting key) :
    Spares store (store.swapped save current key) (some key) where
  installed other installed := wasInstalled_swapped.mpr (.inr installed)
  drawn _ drawn := drawn
  left other left := by
    obtain ⟨uuid, _, named⟩ := waiting.1
    refine ⟨wasInstalled_swapped.mpr (.inr left.1), ?_⟩
    rw [pointed_swapped named.ne_nil]
    rintro ⟨rfl⟩
    exact waiting.2 left.1
  waiting other staged spared := by
    intro installed
    rcases wasInstalled_swapped.mp installed with same | before
    · exact spared (congrArg some same.symm)
    · exact staged.2 before
  object _ _ _ := rfl

/-- The store after the swap of a checkpoint that is kept in the row. -/
def CheckpointStore.inlined (store : CheckpointStore) (save : SaveRequest)
    (current : Option Text) : CheckpointStore :=
  { store with
    ledger := { store.ledger with
      row := (RowUpdate.saveCheckpoint save current
        (save.stored none)).assign store.ledger.row } }

theorem pointed_inlined : (store.inlined save current).pointed = none :=
  keyFromStored_serialized save

theorem sound_inlined (sound : store.Sound)
    (running : store.ledger.row.status = .running) :
    (store.inlined save current).Sound where
  object key pointed := by
    rw [pointed_inlined] at pointed
    exact absurd pointed (Option.some_ne_none key).symm
  drawn := sound.drawn
  once := sound.once
  finished := finished_saveCheckpoint save current _ sound.finished running

theorem spares_inlined : Spares store (store.inlined save current) none where
  installed _ installed := installed
  drawn _ drawn := drawn
  left key left := by
    refine ⟨left.1, ?_⟩
    rw [pointed_inlined]
    exact (Option.some_ne_none key).symm
  waiting _ waiting _ := waiting.2
  object _ _ _ := rfl

end Installing

def FreshUuids (store : CheckpointStore)
    (event : Program.Event CheckpointCall) (_ : List CheckpointCall) : Prop :=
  ∀ save serviceId leaseVersion current,
    event = .run (.stage save serviceId leaseVersion current) →
      save.uuid ∉ store.issued

theorem CheckpointCall.Holds.drawn (holds : call.Holds store) {key : Text}
    (staged : call.staged = some key) : store.Drawn key := by
  cases call with
  | install save stagedKey current => exact (holds.2 key staged).1.1
  | dropStaged other =>
      injection staged with same
      exact same ▸ holds.1
  | _ => exact absurd staged (Option.some_ne_none key).symm

section Steps

variable (runId : Text)

variable {call : CheckpointCall} {others : List CheckpointCall}

/-- A statement keeps the other assertions if it spares what they hold and
continues with a key of its own or a new one. -/
theorem keptAmong_of_spares (sound : (call.statement runId store).1.Sound)
    (outcome : checkpointAssertions.HoldAfter (call.statement runId store).1
      (call.statement runId store).2)
    (spares : Spares store (call.statement runId store).1 call.staged)
    (own : ∀ rest key, (call.statement runId store).2 = .next rest →
      rest.staged = some key → call.staged = some key ∨ ¬store.Drawn key) :
    checkpointAssertions.KeptAmong (checkpointProgram runId)
      CheckpointCall.Apart store call others where
  shared := sound
  outcome := outcome
  others other _ holds apart := by
    apply spares.holds holds
    intro staged shape same
    exact apart staged same shape
  apart rest continued other _ holds apart := by
    intro key staged shape
    rcases own rest key continued staged with same | new
    · exact apart key same shape
    · exact new (CheckpointCall.Holds.drawn holds shape)
  results _ _ := trivial

theorem afterRun_staged {call : RunCall} {offload : Bool}
    {observed : Option Text} {outcome : Outcome RunCall RunReply}
    {rest : CheckpointCall}
    (continued : afterRun call offload observed outcome = .next rest) :
    rest.staged = none := by
  cases outcome with
  | next next =>
      cases continued
      rfl
  | done reply =>
      simp only [afterRun] at continued
      split at continued
      · split at continued <;> cases continued
        rfl
      · cases continued

theorem kept_run {call : RunCall} {offload : Bool} {observed : Option Text}
    (sound : store.Sound)
    (holds : (CheckpointCall.run call offload observed).Holds store) :
    checkpointAssertions.KeptAmong (checkpointProgram runId)
      CheckpointCall.Apart store (.run call offload observed) others := by
  have moves := statement_moves holds.1 store.ledger
  have after := sound_moves sound moves
  apply keptAmong_of_spares
  · exact after
  · show checkpointAssertions.HoldAfter _
      (afterRun call offload (call.observes observed)
        (call.statement store.ledger).2)
    cases shape : (call.statement store.ledger).2 with
    | next rest =>
        refine ⟨statement_ends holds.1 shape, ?_⟩
        show store.WasRead _
        rcases statement_observes shape (call.observes observed) with
          same | read
        · rw [same]
          exact holds.2
        · rw [read]
          exact sound.wasRead
    | done reply =>
        simp only [afterRun]
        split
        · next cleans =>
            split
            · next key pointer =>
                simp only [Bool.and_eq_true] at cleans
                have cleared :=
                  cleansAfter_cleared sound.finished cleans.1 shape
                refine ⟨holds.2 key pointer, ?_⟩
                show engineCheckpointR2KeyFromStored
                  (call.statement store.ledger).1.row.engineCheckpoint ≠ _
                rw [cleared]
                exact (Option.some_ne_none key).symm
            · trivial
        · trivial
  · exact spares_moves moves
  · intro rest key continued staged
    rw [afterRun_staged continued] at staged
    exact absurd staged (Option.some_ne_none key).symm

theorem kept_delete {reply : CheckpointReply} {key : Text}
    (sound : store.Sound)
    (statement : call.statement runId store =
      ({ store with bucket := store.bucket.delete key }, .done reply))
    (unpointed : store.pointed ≠ some key)
    (spares : Spares store
      { store with bucket := store.bucket.delete key } call.staged) :
    checkpointAssertions.KeptAmong (checkpointProgram runId)
      CheckpointCall.Apart store call others := by
  apply keptAmong_of_spares
  · rw [statement]
    exact sound_delete sound unpointed
  · rw [statement]
    trivial
  · rw [statement]
    exact spares
  · intro rest key continued _
    rw [statement] at continued
    cases continued

theorem Spares.refl (key : Option Text) : Spares store store key where
  installed _ installed := installed
  drawn _ drawn := drawn
  left _ left := left
  waiting _ waiting _ := waiting.2
  object _ _ _ := rfl

theorem kept_read {outcome : Outcome CheckpointCall CheckpointReply}
    (sound : store.Sound)
    (statement : call.statement runId store = (store, outcome))
    (holds : checkpointAssertions.HoldAfter store outcome)
    (own : ∀ rest key, outcome = .next rest → rest.staged = some key →
      call.staged = some key) :
    checkpointAssertions.KeptAmong (checkpointProgram runId)
      CheckpointCall.Apart store call others := by
  apply keptAmong_of_spares
  · rw [statement]
    exact sound
  · rw [statement]
    exact holds
  · rw [statement]
    exact Spares.refl _
  · intro rest key continued staged
    rw [statement] at continued
    exact .inl (own rest key continued staged)

theorem readCheckpoint_outcome (save : SaveRequest)
    (store : CheckpointStore) :
    ∃ outcome, (CheckpointCall.readCheckpoint save).statement runId store =
        (store, outcome) ∧
      ((∃ reply, outcome = .done reply) ∨
        (∃ serviceId leaseVersion, outcome = .next (.stage save serviceId
          leaseVersion store.ledger.row.engineCheckpoint)) ∨
        outcome =
          .next (.install save none store.ledger.row.engineCheckpoint)) := by
  simp only [CheckpointCall.statement]
  split
  · split
    · split
      · exact ⟨_, rfl, .inr (.inl ⟨_, _, rfl⟩)⟩
      · exact ⟨_, rfl, .inl ⟨_, rfl⟩⟩
    · exact ⟨_, rfl, .inr (.inr rfl)⟩
  · exact ⟨_, rfl, .inl ⟨_, rfl⟩⟩

theorem kept_readCheckpoint {save : SaveRequest} (sound : store.Sound) :
    checkpointAssertions.KeptAmong (checkpointProgram runId)
      CheckpointCall.Apart store (.readCheckpoint save) others := by
  obtain ⟨outcome, statement, cases⟩ := readCheckpoint_outcome runId save store
  rcases cases with ⟨reply, rfl⟩ | ⟨serviceId, leaseVersion, rfl⟩ | rfl
  · apply kept_read runId sound statement trivial
    intro rest key continued
    cases continued
  · apply kept_read runId sound statement sound.wasRead
    intro rest key continued staged
    cases continued
    cases staged
  · apply kept_read runId sound statement
    · exact ⟨sound.wasRead, fun key none => absurd none (by simp)⟩
    · intro rest key continued staged
      cases continued
      cases staged

theorem kept_stage {save : SaveRequest} {serviceId : Text}
    {leaseVersion : Nat} {current : Option Text} (sound : store.Sound)
    (holds : store.WasRead current) (fresh : save.uuid ∉ store.issued) :
    checkpointAssertions.KeptAmong (checkpointProgram runId)
      CheckpointCall.Apart store (.stage save serviceId leaseVersion current)
        others := by
  have named :=
    keyOf_engineCheckpointR2Key runId serviceId leaseVersion save.uuid
  apply keptAmong_of_spares
  · exact sound_put sound fresh named
  · refine ⟨holds, ?_⟩
    rintro key ⟨rfl⟩
    exact ⟨waiting_put sound fresh named, OrderedMap.get?_set_self _ _ _⟩
  · exact spares_put fresh named
  · intro rest key continued staged
    cases continued
    cases staged
    refine .inr ?_
    rintro ⟨uuid, issued, same⟩
    exact fresh (named.unique same ▸ issued)

theorem swapped_outcome {save : SaveRequest} {stagedKey current : Option Text}
    {after : CheckpointStore} (read : after.WasRead current)
    (moved : ∀ key, engineCheckpointR2KeyFromStored current = some key →
      some key ≠ stagedKey → after.pointed ≠ some key) :
    checkpointAssertions.HoldAfter after
      (match engineCheckpointR2KeyFromStored current with
        | some previous =>
          if some previous ≠ stagedKey ∧ save.offload = true then
            .next (.dropPrevious previous)
          else .done .saved
        | none => .done .saved) := by
  split
  · next previous pointer =>
      split
      · next replaced =>
          exact ⟨read previous pointer, moved previous pointer replaced.1⟩
      · trivial
  · trivial

theorem swapped_staged {save : SaveRequest} {stagedKey current : Option Text}
    {rest : CheckpointCall}
    (continued : (match engineCheckpointR2KeyFromStored current with
      | some previous =>
        if some previous ≠ stagedKey ∧ save.offload = true then
          (.next (.dropPrevious previous) :
            Outcome CheckpointCall CheckpointReply)
        else .done .saved
      | none => .done .saved) = .next rest) : rest.staged = none := by
  split at continued
  · split at continued <;> cases continued
    rfl
  · cases continued

theorem kept_install {save : SaveRequest} {stagedKey current : Option Text}
    (sound : store.Sound)
    (holds : (CheckpointCall.install save stagedKey current).Holds store) :
    checkpointAssertions.KeptAmong (checkpointProgram runId)
      CheckpointCall.Apart store (.install save stagedKey current) others := by
  obtain ⟨read, staged⟩ := holds
  by_cases condition : (RowUpdate.saveCheckpoint save current
      (save.stored stagedKey)).condition store.ledger.row = true
  · have running := (saveCheckpoint_condition condition).1
    cases stagedKey with
    | some key =>
        obtain ⟨waiting, object⟩ := staged key rfl
        have spares : Spares store (store.swapped save current key)
          (some key) := spares_swapped waiting
        have statement : (CheckpointCall.install save (some key)
            current).statement runId store =
            (store.swapped save current key, _) := if_pos condition
        apply keptAmong_of_spares
        · rw [statement]
          exact sound_swapped sound running waiting object
        · rw [statement]
          apply swapped_outcome (spares.wasRead read)
          intro previous _ other
          obtain ⟨uuid, _, named⟩ := waiting.1
          rw [pointed_swapped named.ne_nil]
          exact fun same => other same.symm
        · rw [statement]
          exact spares
        · intro rest later continued shape
          rw [statement] at continued
          rw [swapped_staged continued] at shape
          exact absurd shape (Option.some_ne_none later).symm
    | none =>
        have spares : Spares store (store.inlined save current) none :=
          spares_inlined
        have statement : (CheckpointCall.install save none current).statement
            runId store = (store.inlined save current, _) := if_pos condition
        apply keptAmong_of_spares
        · rw [statement]
          exact sound_inlined sound running
        · rw [statement]
          apply swapped_outcome (spares.wasRead read)
          intro previous _ _
          rw [pointed_inlined]
          exact (Option.some_ne_none previous).symm
        · rw [statement]
          exact spares
        · intro rest later continued shape
          rw [statement] at continued
          rw [swapped_staged continued] at shape
          exact absurd shape (Option.some_ne_none later).symm
  · cases stagedKey with
    | some key =>
        have statement : (CheckpointCall.install save (some key)
            current).statement runId store =
            (store, .next (.dropStaged key)) := if_neg condition
        apply kept_read runId sound statement (staged key rfl).1
        intro rest later continued shape
        cases continued
        exact shape
    | none =>
        have statement : (CheckpointCall.install save none current).statement
            runId store = (store, .done .leaseLost) := if_neg condition
        apply kept_read runId sound statement trivial
        intro rest later continued
        cases continued

theorem statement_kept (sound : store.Sound) (holds : call.Holds store)
    (allowed : FreshUuids store (.run call) others) :
    checkpointAssertions.KeptAmong (checkpointProgram runId)
      CheckpointCall.Apart store call others := by
  cases call with
  | run call offload observed => exact kept_run runId sound holds
  | cleanup key reply =>
      exact kept_delete runId sound rfl holds.2
        ((spares_delete key).of_installed holds.1)
  | ensureRunLease save =>
      by_cases refused : refusesLease store.ledger.row save.body false = true
      · have statement : (CheckpointCall.ensureRunLease save).statement runId
            store = (store, .done .leaseLost) := if_pos refused
        apply kept_read runId sound statement trivial
        intro rest key continued
        cases continued
      · have statement : (CheckpointCall.ensureRunLease save).statement runId
            store = (store, .next (.readCheckpoint save)) := if_neg refused
        apply kept_read runId sound statement trivial
        intro rest key continued staged
        cases continued
        cases staged
  | readCheckpoint save => exact kept_readCheckpoint runId sound
  | stage save serviceId leaseVersion current =>
      exact kept_stage runId sound holds
        (allowed save serviceId leaseVersion current rfl)
  | install save stagedKey current => exact kept_install runId sound holds
  | dropStaged key =>
      exact kept_delete runId sound rfl (sound.unpointed holds.2)
        (spares_delete key)
  | dropPrevious key =>
      exact kept_delete runId sound rfl holds.2
        ((spares_delete key).of_installed holds.1)

theorem installed_grows (call : CheckpointCall) (store : CheckpointStore) :
    store.installed ⊆ (call.statement runId store).1.installed := by
  cases call with
  | install save stagedKey current =>
      simp only [CheckpointCall.statement]
      split
      · cases stagedKey with
        | some key => exact List.subset_cons_self _ _
        | none => exact List.Subset.refl _
      · cases stagedKey <;> exact List.Subset.refl _
  | ensureRunLease save =>
      simp only [CheckpointCall.statement]
      split <;> exact List.Subset.refl _
  | readCheckpoint save =>
      obtain ⟨outcome, statement, _⟩ := readCheckpoint_outcome runId save store
      rw [statement]
      exact List.Subset.refl _
  | _ => exact List.Subset.refl _

end Steps

theorem CheckpointStore.Sound.content_unique (sound : store.Sound)
    {key left right : Text} (first : (key, left) ∈ store.installed)
    (second : (key, right) ∈ store.installed) : left = right := by
  have same := List.inj_on_of_nodup_map sound.once first second rfl
  exact congrArg Prod.snd same

theorem starts_holds (starts : call.Starts) : call.Holds store := by
  cases starts with
  | handleEngineCheckpointSave save => trivial
  | run call offload starts known transition completion atomic =>
      have unread : call.observes none = none := by
        cases starts with
        | completeRunAtomically body input expected _ =>
            rw [(atomic body input expected rfl).2]
            rfl
        | _ => rfl
      refine ⟨?_, ?_⟩
      · cases starts with
        | handleCompleteRun body input _ => exact completion body input rfl
        | completeRunAtomically body input expected _ =>
            exact (atomic body input expected rfl).1
        | transitionRunTerminalAtomically change _ =>
            exact transition change _ rfl
        | updateRunStatus status error => exact known status error rfl
        | _ => trivial
      · rw [unread]
        intro key pointer
        exact absurd pointer (Option.some_ne_none key).symm

theorem starts_staged (starts : call.Starts) : call.staged = none := by
  cases starts <;> rfl

variable {runId : Text} {ledger : RunLedger} {bucket : OrderedMap Text Text}
variable {reached : Program.Config CheckpointStore CheckpointCall
  CheckpointReply}

theorem sound_of_run
    (noCheckpoint : ledger.row.engineCheckpoint = none)
    (unfinished : ledger.row.completionKey = none)
    (run : (checkpointProgram runId).Run FreshUuids
      ⟨⟨ledger, bucket, [], []⟩, [], []⟩ reached) :
    reached.shared.Sound := by
  have initial : checkpointAssertions.Hold
      ⟨⟨ledger, bucket, [], []⟩, [], []⟩ := by
    refine ⟨⟨?_, ?_, List.nodup_nil, ?_⟩, ?_, ?_⟩
    · intro key pointed
      simp only [CheckpointStore.pointed, noCheckpoint] at pointed
      exact absurd pointed (Option.some_ne_none key).symm
    · intro key installed
      exact absurd installed List.not_mem_nil
    · exact fun completed => absurd unfinished completed
    · intro call member
      exact absurd member List.not_mem_nil
    · intro result member
      exact absurd member List.not_mem_nil
  have holds : checkpointAssertions.Hold reached ∧
      reached.calls.Pairwise CheckpointCall.Apart := by
    apply checkpointAssertions.hold_of_run_apart _ run initial
      List.Pairwise.nil
    · intro shared call starts
      exact starts_holds starts
    · intro call other starts key shape
      rw [starts_staged starts] at shape
      exact absurd shape (Option.some_ne_none key).symm
    · intro shared call others sound holds allowed
      exact statement_kept runId sound holds allowed
    · intro left right apart key shape same
      exact apart key same shape
  exact holds.1.1

/-- While the row points to an object, the object is there and is what the
save that installed the pointer wrote; no step that leaves the pointer, such as
those of a save that lost its lease, changes it. -/
theorem checkpoint_pointers
    (noCheckpoint : ledger.row.engineCheckpoint = none)
    (unfinished : ledger.row.completionKey = none)
    (run : (checkpointProgram runId).Run FreshUuids
      ⟨⟨ledger, bucket, [], []⟩, [], []⟩ reached) :
    (∀ key, reached.shared.pointed = some key →
      ∃ content, (key, content) ∈ reached.shared.installed ∧
        reached.shared.bucket.get? key = some content ∧
        ∀ other, (key, other) ∈ reached.shared.installed →
          other = content) ∧
    ∀ event others after, FreshUuids reached.shared event others →
      (checkpointProgram runId).Step reached event others after →
      ∀ key, reached.shared.pointed = some key →
        after.shared.pointed = some key →
          after.shared.bucket.get? key = reached.shared.bucket.get? key := by
  have sound := sound_of_run noCheckpoint unfinished run
  constructor
  · intro key pointed
    obtain ⟨content, installed, object⟩ := sound.object key pointed
    exact ⟨content, installed, object, fun other again =>
      sound.content_unique again installed⟩
  · intro event others after fresh step key before still
    have later := sound_of_run noCheckpoint unfinished (run.step fresh step)
    obtain ⟨content, installed, object⟩ := sound.object key before
    obtain ⟨text, again, found⟩ := later.object key still
    have kept : (key, content) ∈ after.shared.installed := by
      rcases step.shared_cases with ⟨call, _, _, same⟩ | ⟨_, same⟩
      · rw [same]
        exact installed_grows runId call _ installed
      · rw [same]
        exact installed
    rw [found, object, later.content_unique again kept]

namespace LargeSave

def row : RunRow :=
  { createPendingRun none [] with
    status := .running
    serviceId := some ['s']
    leaseVersion := 1 }

def body : ExecutorBody where
  holder := ⟨['s'], 1⟩
  serviceId := some ['s']
  leaseVersion := some 1
  service_bound := ShortRuns.body.service_bound
  service_nonempty := ShortRuns.body.service_nonempty
  version_bound := ShortRuns.body.version_bound

@[irreducible] def padded : Text :=
  '{' :: List.replicate maxInlineEngineCheckpointBytes ' '

def save : SaveRequest where
  body := body
  serialized := padded
  now := []
  offload := true
  uuid := ⟨List.replicate 36 '0', List.length_replicate⟩
  object := by
    unfold padded
    rfl
  version_given _ := rfl

def key : Text := engineCheckpointR2Key ['r'] ['s'] 1 save.uuid

def initial : Program.Config CheckpointStore CheckpointCall CheckpointReply :=
  ⟨⟨⟨row, []⟩, OrderedMap.empty, [], []⟩, [], []⟩

theorem encodedSize_blanks (count : Nat) :
    Text.encodedSize ('{' :: List.replicate count ' ') = 1 + count := by
  have blank : Char.utf8Size ' ' = 1 := rfl
  have brace : Char.utf8Size '{' = 1 := rfl
  rw [Text.encodedSize, List.map_cons, List.map_replicate, List.sum_cons,
    List.sum_replicate_nat, blank, brace, Nat.mul_one]

theorem large : Text.encodedSize save.serialized >
    maxInlineEngineCheckpointBytes := by
  show Text.encodedSize padded > _
  unfold padded
  rw [encodedSize_blanks, Nat.add_comm]
  exact Nat.lt_succ_self _

abbrev RunTo (store : CheckpointStore) (calls : List CheckpointCall)
    (results : List CheckpointReply) : Prop :=
  (checkpointProgram ['r']).Run FreshUuids initial ⟨store, calls, results⟩

def staged : CheckpointStore :=
  { initial.shared with
    bucket := OrderedMap.empty.set key save.serialized
    issued := [save.uuid] }

theorem run_read : RunTo initial.shared [.stage save ['s'] 1 none] [] := by
  have started : RunTo initial.shared [.ensureRunLease save] [] :=
    Program.Run.here.starting _ (.handleEngineCheckpointSave save)
      (by rintro _ _ _ _ ⟨⟩)
  have leased : RunTo initial.shared [.readCheckpoint save] [] :=
    started.continuing [] [] (by rfl) (by rintro _ _ _ _ ⟨⟩)
  apply leased.continuing [] [] _ (by rintro _ _ _ _ ⟨⟩)
  show (CheckpointCall.readCheckpoint save).statement ['r'] initial.shared = _
  have fits : save.fits initial.shared.ledger.row = true := rfl
  simp only [CheckpointCall.statement, if_pos fits, if_pos large]
  rfl

theorem run_swapped :
    RunTo (staged.swapped save none key) [] [.saved] := by
  have put : RunTo staged [.install save (some key) none] [] := by
    apply run_read.continuing [] [] (by rfl)
    rintro _ _ _ _ ⟨⟩
    exact List.not_mem_nil
  exact put.finishing [] [] (by rfl) (by rintro _ _ _ _ ⟨⟩)

/-- The object of a large checkpoint after its save. -/
theorem save_pointed : ∃ content,
    (key, content) ∈ (staged.swapped save none key).installed ∧
      (staged.swapped save none key).bucket.get? key = some content ∧
      ∀ other, (key, other) ∈ (staged.swapped save none key).installed →
        other = content := by
  have pointers := checkpoint_pointers rfl rfl run_swapped
  apply pointers.1 key
  apply pointed_swapped
  exact (keyOf_engineCheckpointR2Key ['r'] ['s'] 1 save.uuid).ne_nil

end LargeSave

end Takos.Runs
