import Takos.Migrations.MigrationRunner
import Mathlib.Data.List.Count

/-!
# Boots among other boots

A marker is inserted by the transaction that has run all statements of its file,
and waits for any other that holds the same key, so a file is committed once.
What a boot has not committed leaves nothing behind.

An error that is passed over aborts a transaction of Postgres all the same, so
there the boot fails.
-/

namespace Takos.Migrations

open Takos.Foundation

/-- Each statement of the file was executed in its order, and took effect or
failed with an error that the runner recognises. -/
structure AppliedFile.Complete (applied : AppliedFile) : Prop where
  statements : applied.ran.map Prod.fst =
    applied.boot.statementsOf applied.file
  results : ∀ statement error, (statement, some error) ∈ applied.ran →
    applied.boot.dialect.recognises error statement = true
  unaborted : applied.boot.dialect = .postgres → Executed.failed applied.ran = false

/-- No statement of a Postgres boot fails with an error that is passed over. -/
def NoDuplications (_ : MigrationState)
    (event : Program.Event MigrationCall) (_ : List MigrationCall) : Prop :=
  match event with
  | .run (.execute transaction) =>
    transaction.position.boot.dialect = .postgres →
      ∀ statement remaining, transaction.remaining = statement :: remaining →
        ∀ error, transaction.position.answer = .error error →
          isPostgresSchemaDuplication error statement = false
  | _ => True

/-- What has been executed and what remains are the statements of the file. -/
structure OpenTransaction.Sound (transaction : OpenTransaction) : Prop where
  statements : transaction.ran.map Prod.fst ++ transaction.remaining =
    transaction.position.boot.statementsOf transaction.position.file
  results : ∀ statement error, (statement, some error) ∈ transaction.ran →
    transaction.position.boot.dialect.recognises error statement = true

theorem OpenTransaction.Sound.next {transaction : OpenTransaction}
    (sound : transaction.Sound) : transaction.next.Sound :=
  ⟨sound.statements, sound.results⟩

variable {transaction : OpenTransaction} {remaining : List Text}
  {position : BootAt} {executed : MigrationOutcome} {call : MigrationCall}

theorem OpenTransaction.Sound.after (sound : transaction.Sound)
    {statement : Text} (next : transaction.remaining = statement :: remaining)
    {result : Option SqlError}
    (recognised : ∀ error, result = some error →
      transaction.position.boot.dialect.recognises error statement = true) :
    (transaction.after statement result remaining).Sound where
  statements := by
    have statements := sound.statements
    rw [next] at statements
    simp only [OpenTransaction.after, List.map_append, List.map_cons,
      List.map_nil, List.append_assoc, List.singleton_append]
    exact statements
  results := by
    intro other error member
    rcases List.mem_append.mp member with before | added
    · exact sound.results other error before
    · cases List.mem_singleton.mp added
      exact recognised error rfl

def MigrationCall.Sound : MigrationCall → Prop
  | .insertEmpty position => position.boot.statementsOf position.file = []
  | .execute transaction => transaction.Sound
  | .insertMarker transaction =>
    transaction.Sound ∧ transaction.remaining = []
  | .commit transaction =>
    transaction.Sound ∧ transaction.remaining = [] ∧
      transaction.aborted = false
  | _ => True

def OutcomeSound : MigrationOutcome → Prop
  | .next rest => rest.Sound
  | .done _ => True

theorem startNext_sound (boot : Boot) (step : Nat)
    (files : List MigrationFile) : OutcomeSound (startNext boot step files) := by
  cases files <;> trivial

theorem proceed_sound (sound : OutcomeSound executed) :
    OutcomeSound (position.proceed executed) := by
  unfold BootAt.proceed
  split
  · exact sound
  · trivial
  · trivial

theorem startFile_sound (position : BootAt) :
    OutcomeSound (startFile position) := by
  unfold startFile
  split
  · trivial
  · rename_i content readable
    split
    · split
      · rename_i empty
        change position.boot.statementsOf position.file = []
        unfold Boot.statementsOf
        rw [readable]
        exact if_pos empty
      · trivial
    · trivial

theorem statement_sound (sound : call.Sound) (state : MigrationState) :
    OutcomeSound (call.statement state).2 := by
  cases call with
  | createTable boot =>
      simp only [MigrationCall.statement]
      split
      · split
        · trivial
        · apply startNext_sound
      · trivial
      · trivial
  | checkApplied position =>
      apply proceed_sound
      split
      · apply startNext_sound
      · apply startFile_sound
  | insertEmpty position =>
      simp only [MigrationCall.statement]
      split
      · split
        · trivial
        · split
          · exact sound
          · apply startNext_sound
      · trivial
      · trivial
  | inspect position => exact proceed_sound trivial
  | begin position =>
      apply proceed_sound
      exact ⟨rfl, by simp⟩
  | execute transaction =>
      have known : transaction.Sound := sound
      simp only [MigrationCall.statement]
      split
      · rename_i done
        exact ⟨known, done⟩
      · rename_i statement remaining more
        split
        · trivial
        · split
          · trivial
          · exact known.after more (by simp)
        · rename_i error _
          split
          · trivial
          · split
            · rename_i recognised
              apply known.after more
              rintro other ⟨⟩
              exact recognised
            · trivial
  | insertMarker transaction =>
      simp only [MigrationCall.statement]
      split
      · trivial
      · trivial
      · split
        · trivial
        · rename_i unaborted
          split
          · trivial
          · split
            · exact sound
            · refine ⟨sound.1.next, sound.2, ?_⟩
              have same : transaction.next.aborted = transaction.aborted := rfl
              rw [same]
              simpa using unaborted
  | commit transaction =>
      simp only [MigrationCall.statement]
      split
      · trivial
      · trivial
      · apply startNext_sound
  | rollback transaction error inserted =>
      simp only [MigrationCall.statement]
      split <;> trivial

/-- The key that the transaction of a call has inserted. -/
def MigrationCall.held : MigrationCall → Option Text
  | .commit transaction => some transaction.name
  | .rollback transaction _ true => some transaction.name
  | _ => none

def OutcomeHeld : MigrationOutcome → Option Text
  | .next rest => rest.held
  | .done _ => none

/-- How often a key is held. -/
def holders (calls : List MigrationCall) (name : Text) : Nat :=
  (calls.filterMap MigrationCall.held).count name

def heldCount (held : Option Text) (name : Text) : Nat :=
  held.toList.count name

theorem holders_insert (front back : List MigrationCall) (call : MigrationCall)
    (name : Text) :
    holders (front ++ call :: back) name =
      holders (front ++ back) name + heldCount call.held name := by
  unfold holders heldCount
  cases held : call.held with
  | none =>
      simp [List.filterMap_append, held]
  | some key =>
      simp only [List.filterMap_append, List.filterMap_cons, held,
        List.count_append, List.count_cons, Option.toList_some, List.count_nil]
      omega

/-- The file that a call is at. -/
def MigrationCall.file : MigrationCall → Option MigrationFile
  | .createTable _ => none
  | .checkApplied position | .insertEmpty position | .inspect position
  | .begin position => some position.file
  | .execute transaction | .insertMarker transaction | .commit transaction
  | .rollback transaction _ _ => some transaction.position.file

/-- What a statement can do: nothing, insert the marker of an open transaction,
take it away, or commit a file, after which the boot goes on to the next one. -/
inductive MigrationEffect (state : MigrationState) (call : MigrationCall) :
    MigrationState → MigrationOutcome → Prop where
  | quiet {outcome : MigrationOutcome} : OutcomeHeld outcome = call.held →
      MigrationEffect state call state outcome
  | inserts {name : Text} {outcome : MigrationOutcome} :
      name ∉ state.markers → name ∉ state.pending → call.held = none →
      OutcomeHeld outcome = some name →
      MigrationEffect state call { state with pending := name :: state.pending }
        outcome
  | releases {name : Text} {outcome : MigrationOutcome} :
      call.held = some name → OutcomeHeld outcome = none →
      MigrationEffect state call (state.release name) outcome
  | applies {boot : Boot} {file : MigrationFile} {ran : Executed} {step : Nat}
      {rest : List MigrationFile} :
      AppliedFile.Complete ⟨boot, file, ran⟩ → call.file = some file →
      call.held = some file.name ∨
        call.held = none ∧ file.name ∉ state.markers ∧
          file.name ∉ state.pending →
      MigrationEffect state call (state.apply boot file ran)
        (startNext boot step rest)

theorem startNext_held (boot : Boot) (step : Nat)
    (files : List MigrationFile) :
    OutcomeHeld (startNext boot step files) = none := by
  cases files <;> rfl

theorem proceed_held (held : OutcomeHeld executed = none) :
    OutcomeHeld (position.proceed executed) = none := by
  unfold BootAt.proceed
  split
  · exact held
  · rfl
  · rfl

theorem startFile_held (position : BootAt) :
    OutcomeHeld (startFile position) = none := by
  unfold startFile
  split
  · rfl
  · split
    · split <;> rfl
    · rfl

theorem complete_empty (empty : position.boot.statementsOf position.file = []) :
    AppliedFile.Complete ⟨position.boot, position.file, []⟩ where
  statements := empty.symm
  results := by simp
  unaborted := fun _ => rfl

theorem complete_commit (sound : transaction.Sound)
    (done : transaction.remaining = [])
    (unaborted : transaction.aborted = false) :
    AppliedFile.Complete
      ⟨transaction.position.boot, transaction.position.file,
        transaction.ran⟩ where
  statements := by
    have statements := sound.statements
    rwa [done, List.append_nil] at statements
  results := sound.results
  unaborted := by
    intro postgres
    have known : transaction.position.boot.dialect = .postgres := postgres
    simpa [OpenTransaction.aborted, known] using unaborted

theorem statement_effect (sound : call.Sound) (state : MigrationState) :
    MigrationEffect state call (call.statement state).1
      (call.statement state).2 := by
  cases call with
  | createTable boot =>
      apply MigrationEffect.quiet
      simp only [MigrationCall.statement]
      split
      · split
        · rfl
        · apply startNext_held
      · rfl
      · rfl
  | checkApplied position =>
      apply MigrationEffect.quiet
      apply proceed_held
      split
      · apply startNext_held
      · apply startFile_held
  | insertEmpty position =>
      simp only [MigrationCall.statement]
      split
      · split
        · exact .quiet rfl
        · rename_i unmarked
          split
          · exact .quiet rfl
          · rename_i free
            exact .applies (complete_empty sound) rfl
              (.inr ⟨rfl, unmarked, free⟩)
      · exact .quiet rfl
      · exact .quiet rfl
  | inspect | begin =>
      apply MigrationEffect.quiet
      exact proceed_held rfl
  | execute transaction =>
      apply MigrationEffect.quiet
      simp only [MigrationCall.statement]
      split
      · rfl
      · split
        · rfl
        · split <;> rfl
        · split
          · rfl
          · split <;> rfl
  | insertMarker transaction =>
      simp only [MigrationCall.statement]
      split
      · exact .quiet rfl
      · exact .quiet rfl
      · split
        · exact .quiet rfl
        · split
          · exact .quiet rfl
          · rename_i unmarked
            split
            · exact .quiet rfl
            · rename_i free
              exact .inserts unmarked free rfl rfl
  | commit transaction =>
      obtain ⟨known, done, unaborted⟩ := sound
      simp only [MigrationCall.statement]
      split
      · exact .releases rfl rfl
      · exact .quiet rfl
      · exact .applies (complete_commit known done unaborted) rfl (.inl rfl)
  | rollback transaction error inserted =>
      simp only [MigrationCall.statement]
      cases inserted with
      | false =>
          apply MigrationEffect.quiet
          split <;> rfl
      | true =>
          apply MigrationEffect.releases rfl
          split <;> rfl

/-- The markers that were there before, and one for each committed file. -/
structure StateSound (markers : List Text) (state : MigrationState) : Prop where
  names : ∀ name, name ∈ state.markers ↔
    name ∈ markers ∨ ∃ applied ∈ state.applied, applied.file.name = name
  fresh : ∀ applied ∈ state.applied, applied.file.name ∉ markers
  once : (state.applied.map fun applied => applied.file.name).Nodup
  complete : ∀ applied ∈ state.applied, applied.Complete
  pendingOnce : state.pending.Nodup
  unmarked : ∀ name ∈ state.pending, name ∉ state.markers

section Effects

variable {markers : List Text} {state : MigrationState}

theorem StateSound.inserts (sound : StateSound markers state) {name : Text}
    (unmarked : name ∉ state.markers) (free : name ∉ state.pending) :
    StateSound markers { state with pending := name :: state.pending } where
  names := sound.names
  fresh := sound.fresh
  once := sound.once
  complete := sound.complete
  pendingOnce := List.nodup_cons.mpr ⟨free, sound.pendingOnce⟩
  unmarked := by
    intro other member
    rcases List.mem_cons.mp member with rfl | old
    · exact unmarked
    · exact sound.unmarked other old

theorem StateSound.release (sound : StateSound markers state) (name : Text) :
    StateSound markers (state.release name) where
  names := sound.names
  fresh := sound.fresh
  once := sound.once
  complete := sound.complete
  pendingOnce := sound.pendingOnce.erase name
  unmarked := fun other member =>
    sound.unmarked other (List.mem_of_mem_erase member)

theorem StateSound.apply (sound : StateSound markers state) {boot : Boot}
    {file : MigrationFile} {ran : Executed}
    (complete : AppliedFile.Complete ⟨boot, file, ran⟩)
    (unmarked : file.name ∉ state.markers) :
    StateSound markers (state.apply boot file ran) where
  names := by
    intro name
    have before := sound.names name
    simp only [MigrationState.apply, List.mem_cons]
    constructor
    · rintro (same | marked)
      · exact .inr ⟨_, .inl rfl, same.symm⟩
      · rcases before.mp marked with old | ⟨applied, member, same⟩
        · exact .inl old
        · exact .inr ⟨applied, .inr member, same⟩
    · rintro (old | ⟨applied, rfl | member, same⟩)
      · exact .inr (before.mpr (.inl old))
      · exact .inl same.symm
      · exact .inr (before.mpr (.inr ⟨applied, member, same⟩))
  fresh := by
    intro applied member
    rcases List.mem_cons.mp member with rfl | old
    · exact fun before => unmarked ((sound.names _).mpr (.inl before))
    · exact sound.fresh applied old
  once := by
    simp only [MigrationState.apply, List.map_cons]
    apply List.nodup_cons.mpr
    refine ⟨?_, sound.once⟩
    intro again
    obtain ⟨applied, member, same⟩ := List.mem_map.mp again
    exact unmarked ((sound.names _).mpr (.inr ⟨applied, member, same⟩))
  complete := by
    intro applied member
    rcases List.mem_cons.mp member with rfl | old
    · exact complete
    · exact sound.complete applied old
  pendingOnce := sound.pendingOnce.erase file.name
  unmarked := by
    intro other member
    obtain ⟨different, old⟩ := (sound.pendingOnce.mem_erase_iff).mp member
    simp only [MigrationState.apply, List.mem_cons, not_or]
    exact ⟨different, sound.unmarked other old⟩

theorem MigrationEffect.kept {call : MigrationCall} {after : MigrationState}
    {outcome : MigrationOutcome}
    (effect : MigrationEffect state call after outcome)
    (sound : StateSound markers state) {others : Text → Nat}
    (held : ∀ name, others name + heldCount call.held name ≤
      state.pending.count name) :
    StateSound markers after ∧
      ∀ name, others name + heldCount (OutcomeHeld outcome) name ≤
        after.pending.count name := by
  cases effect with
  | quiet same =>
      rw [same]
      exact ⟨sound, held⟩
  | @inserts name _ unmarked free none some =>
      refine ⟨sound.inserts unmarked free, ?_⟩
      intro other
      have before := held other
      rw [some]
      simp only [heldCount, Option.toList_some, List.count_cons, List.count_nil]
      omega
  | @releases name _ some none =>
      refine ⟨sound.release name, ?_⟩
      intro other
      have before := held other
      rw [some] at before
      rw [none]
      simp only [heldCount, Option.toList_some, Option.toList_none,
        List.count_cons, List.count_nil, MigrationState.release,
        List.count_erase] at before ⊢
      omega
  | @applies boot file ran step rest complete _ known =>
      have unmarked : file.name ∉ state.markers := by
        rcases known with some | ⟨_, unmarked, _⟩
        · apply sound.unmarked
          apply List.count_pos_iff.mp
          have before := held file.name
          rw [some] at before
          simp only [heldCount, Option.toList_some, List.count_cons_self,
            List.count_nil] at before
          omega
        · exact unmarked
      refine ⟨sound.apply complete unmarked, ?_⟩
      intro other
      have before := held other
      rw [startNext_held]
      rcases known with some | ⟨none, _, free⟩
      · rw [some] at before
        simp only [heldCount, Option.toList_some, Option.toList_none,
          List.count_cons, List.count_nil, MigrationState.apply,
          List.count_erase] at before ⊢
        omega
      · rw [none] at before
        have same : state.pending.erase file.name = state.pending :=
          List.erase_of_not_mem free
        simp only [MigrationState.apply, same]
        exact before

end Effects

/-- What holds of a state and the calls in progress. -/
structure RunSound (markers : List Text) (state : MigrationState)
    (calls : List MigrationCall) : Prop where
  recorded : StateSound markers state
  known : ∀ call ∈ calls, call.Sound
  held : ∀ name, holders calls name ≤ state.pending.count name

theorem RunSound.statement {markers : List Text} {state : MigrationState}
    {front back : List MigrationCall}
    (sound : RunSound markers state (front ++ call :: back)) :
    StateSound markers (call.statement state).1 ∧
      ∀ name, holders (front ++ back) name +
        heldCount (OutcomeHeld (call.statement state).2) name ≤
          (call.statement state).1.pending.count name := by
  have known := sound.known call (by simp)
  apply (statement_effect known state).kept sound.recorded
  intro name
  rw [← holders_insert]
  exact sound.held name

theorem run_sound {markers : List Text}
    {allowed : MigrationState → Program.Event MigrationCall →
      List MigrationCall → Prop}
    {reached : Program.Config MigrationState MigrationCall BootResult}
    (run : migrationProgram.Run allowed ⟨⟨markers, [], []⟩, [], []⟩ reached) :
    RunSound markers reached.shared reached.calls := by
  apply @Program.Run.invariant _ _ _ migrationProgram allowed _ _
    (fun config => RunSound markers config.shared config.calls) run
  · exact
      { recorded := ⟨by simp, by simp, by simp, by simp, by simp, by simp⟩
        known := by simp
        held := by simp [holders] }
  · intro before event others after sound permitted step
    cases step with
    | start starts =>
        obtain ⟨boot, rfl⟩ := starts
        refine ⟨sound.recorded, ?_, sound.held⟩
        intro call member
        rcases List.mem_cons.mp member with rfl | old
        · trivial
        · exact sound.known call old
    | @next state _ front back _ call rest executed =>
        have ran : call.statement state = _ := executed
        obtain ⟨recorded, held⟩ := sound.statement
        have next := statement_sound (sound.known call (by simp)) state
        rw [ran] at recorded held next
        refine ⟨recorded, ?_, ?_⟩
        · intro other member
          rcases List.mem_append.mp member with ahead | behind
          · exact sound.known other (List.mem_append_left _ ahead)
          · rcases List.mem_cons.mp behind with rfl | behind
            · exact next
            · exact sound.known other (by simp [behind])
        · intro name
          rw [holders_insert]
          exact held name
    | @done state _ front back _ call result executed =>
        have ran : call.statement state = _ := executed
        obtain ⟨recorded, held⟩ := sound.statement
        rw [ran] at recorded held
        refine ⟨recorded, ?_, ?_⟩
        · intro other member
          apply sound.known other
          rcases List.mem_append.mp member with ahead | behind
          · exact List.mem_append_left _ ahead
          · simp [behind]
        · intro name
          have bound := held name
          simpa [heldCount, OutcomeHeld] using bound
    | @fail state front back _ call =>
        refine ⟨sound.recorded, ?_, ?_⟩
        · intro other member
          apply sound.known other
          rcases List.mem_append.mp member with ahead | behind
          · exact List.mem_append_left _ ahead
          · simp [behind]
        · intro name
          have bound := sound.held name
          rw [holders_insert] at bound
          exact (Nat.le_add_right _ _).trans bound

/-- No transaction is aborted. -/
def MigrationCall.Unaborted : MigrationCall → Prop
  | .execute transaction | .insertMarker transaction | .commit transaction =>
    transaction.aborted = false
  | .rollback _ error _ => error ≠ .aborted
  | _ => True

def BootResult.Unaborted (result : BootResult) : Prop :=
  ∀ file, result ≠ .failed file .aborted

def OutcomeUnaborted : MigrationOutcome → Prop
  | .next rest => rest.Unaborted
  | .done result => result.Unaborted

theorem startNext_unaborted (boot : Boot) (step : Nat)
    (files : List MigrationFile) :
    OutcomeUnaborted (startNext boot step files) := by
  cases files with
  | nil => rintro file ⟨⟩
  | cons file rest => trivial

theorem answered_unaborted (file : Option Text) (error : SqlError) :
    BootResult.Unaborted (.failed file (.answered error)) := by
  rintro other ⟨⟩

theorem crashed_unaborted : BootResult.Unaborted .crashed := by
  rintro file ⟨⟩

theorem proceed_unaborted (unaborted : OutcomeUnaborted executed) :
    OutcomeUnaborted (position.proceed executed) := by
  unfold BootAt.proceed
  split
  · exact unaborted
  · exact answered_unaborted _ _
  · exact crashed_unaborted

theorem startFile_unaborted (position : BootAt) :
    OutcomeUnaborted (startFile position) := by
  unfold startFile
  split
  · rintro file ⟨⟩
  · split
    · split <;> trivial
    · trivial

theorem aborted_after_none (unaborted : transaction.aborted = false)
    (statement : Text) (remaining : List Text) :
    (transaction.after statement none remaining).aborted = false := by
  simp only [OpenTransaction.aborted, Executed.failed] at unaborted
  simp only [OpenTransaction.aborted, OpenTransaction.after, BootAt.next,
    Executed.failed, List.any_append, List.any_cons, List.any_nil,
    Option.isSome_none, Bool.or_false]
  exact unaborted

theorem aborted_after_sqlite
    (sqlite : transaction.position.boot.dialect = .sqlite) (statement : Text)
    (result : Option SqlError) (remaining : List Text) :
    (transaction.after statement result remaining).aborted = false := by
  simp [OpenTransaction.aborted, OpenTransaction.after, BootAt.next, sqlite]

theorem recognised_sqlite {state : MigrationState}
    {others : List MigrationCall}
    (permitted : NoDuplications state (.run (.execute transaction)) others)
    {statement : Text} (more : transaction.remaining = statement :: remaining)
    {error : SqlError} (failed : transaction.position.answer = .error error)
    (recognised :
      transaction.position.boot.dialect.recognises error statement = true) :
    transaction.position.boot.dialect = .sqlite := by
  cases dialect : transaction.position.boot.dialect with
  | sqlite => rfl
  | postgres =>
      have impossible := permitted dialect statement remaining more error failed
      rw [dialect] at recognised
      have passed : isPostgresSchemaDuplication error statement = true :=
        recognised
      rw [passed] at impossible
      cases impossible

theorem statement_unaborted {state : MigrationState}
    {others : List MigrationCall} (unaborted : call.Unaborted)
    (permitted : NoDuplications state (.run call) others) :
    OutcomeUnaborted (call.statement state).2 := by
  cases call with
  | createTable boot =>
      simp only [MigrationCall.statement]
      split
      · split
        · rintro file ⟨⟩
        · apply startNext_unaborted
      · apply answered_unaborted
      · exact crashed_unaborted
  | checkApplied position =>
      apply proceed_unaborted
      split
      · apply startNext_unaborted
      · apply startFile_unaborted
  | insertEmpty position =>
      simp only [MigrationCall.statement]
      split
      · split
        · rintro file ⟨⟩
        · split
          · trivial
          · apply startNext_unaborted
      · apply answered_unaborted
      · exact crashed_unaborted
  | inspect position => exact proceed_unaborted trivial
  | begin position =>
      apply proceed_unaborted
      change (OpenTransaction.mk _ _ _).aborted = false
      simp [OpenTransaction.aborted, Executed.failed]
  | execute transaction =>
      have known : transaction.aborted = false := unaborted
      simp only [MigrationCall.statement]
      split
      · exact unaborted
      · rename_i statement remaining more
        split
        · exact crashed_unaborted
        · rw [known]
          exact aborted_after_none known _ _
        · rename_i error failed
          rw [known]
          simp only [Bool.false_eq_true, if_false]
          split
          · rename_i recognised
            have sqlite := recognised_sqlite permitted more failed recognised
            exact aborted_after_sqlite sqlite _ _ _
          · rintro ⟨⟩
  | insertMarker transaction =>
      have known : transaction.aborted = false := unaborted
      simp only [MigrationCall.statement]
      split
      · exact crashed_unaborted
      · rw [known]
        rintro ⟨⟩
      · rw [known]
        simp only [Bool.false_eq_true, if_false]
        split
        · rintro ⟨⟩
        · split
          · exact unaborted
          · exact unaborted
  | commit transaction =>
      simp only [MigrationCall.statement]
      split
      · exact crashed_unaborted
      · rintro ⟨⟩
      · apply startNext_unaborted
  | rollback transaction error inserted =>
      simp only [MigrationCall.statement]
      split
      · exact crashed_unaborted
      · rintro file ⟨⟩
        exact unaborted rfl

theorem run_unaborted {markers : List Text}
    {allowed : MigrationState → Program.Event MigrationCall →
      List MigrationCall → Prop}
    {reached : Program.Config MigrationState MigrationCall BootResult}
    (run : migrationProgram.Run allowed ⟨⟨markers, [], []⟩, [], []⟩ reached)
    (permitted : ∀ state call others, allowed state (.run call) others →
      NoDuplications state (.run call) others) :
    (∀ call ∈ reached.calls, call.Unaborted) ∧
      ∀ result ∈ reached.results, result.Unaborted := by
  let assertions :
      Program.Assertions MigrationState MigrationCall BootResult :=
    { shared := fun _ => True
      call := fun _ call => call.Unaborted
      result := fun _ result => result.Unaborted }
  have hold : assertions.Hold reached := by
    apply Program.Assertions.hold_of_run _ run
    · exact ⟨trivial, by simp, by simp⟩
    · rintro state call ⟨boot, rfl⟩
      trivial
    · intro state call others _ unaborted step
      have next := statement_unaborted unaborted
        (permitted state call others step)
      refine ⟨trivial, ?_, fun _ held => held, fun _ held => held⟩
      change assertions.HoldAfter _ (call.statement state).2
      cases outcome : (call.statement state).2 with
      | next | done =>
          rw [outcome] at next
          exact next
  exact hold.2

theorem execute_recognised (state : MigrationState)
    (unaborted : transaction.aborted = false) {statement : Text}
    (more : transaction.remaining = statement :: remaining) {error : SqlError}
    (failed : transaction.position.answer = .error error)
    (recognised :
      transaction.position.boot.dialect.recognises error statement = true) :
    (MigrationCall.execute transaction).statement state =
      (state,
        .next (.execute (transaction.after statement (some error) remaining))) := by
  simp only [MigrationCall.statement, more, failed, unaborted, recognised,
    Bool.false_eq_true, if_false, if_true]

/-- Only the step that commits a file changes the markers, and its boot goes on
to the next file. -/
def MigrationCall.Clean (call : MigrationCall) (state : MigrationState) : Prop :=
  (call.statement state).1.markers = state.markers ∧
      (call.statement state).1.applied = state.applied ∨
    ∃ applied : AppliedFile, applied.Complete ∧
      call.file = some applied.file ∧
      (call.statement state).1.markers = applied.file.name :: state.markers ∧
      (call.statement state).1.applied = applied :: state.applied ∧
      ∃ step rest,
        (call.statement state).2 = startNext applied.boot step rest

theorem statement_clean (sound : call.Sound) (state : MigrationState) :
    call.Clean state := by
  have effect := statement_effect sound state
  unfold MigrationCall.Clean
  generalize (call.statement state).1 = after at effect ⊢
  generalize (call.statement state).2 = outcome at effect ⊢
  cases effect with
  | quiet | inserts | releases => exact .inl ⟨rfl, rfl⟩
  | @applies boot file ran step rest complete position _ =>
      exact .inr ⟨⟨boot, file, ran⟩, complete, position, rfl, rfl, step, rest, rfl⟩

theorem migrations_marked {markers : List Text}
    {allowed : MigrationState → Program.Event MigrationCall →
      List MigrationCall → Prop}
    {reached : Program.Config MigrationState MigrationCall BootResult}
    (run : migrationProgram.Run allowed ⟨⟨markers, [], []⟩, [], []⟩ reached) :
    (∀ name, name ∈ reached.shared.markers ↔
      name ∈ markers ∨
        ∃ applied ∈ reached.shared.applied, applied.file.name = name) ∧
    (∀ applied ∈ reached.shared.applied, applied.Complete) ∧
    (∀ applied ∈ reached.shared.applied, applied.file.name ∉ markers) ∧
    (reached.shared.applied.map fun applied => applied.file.name).Nodup ∧
    (∀ call ∈ reached.calls, call.Clean reached.shared) ∧
    ((∀ state call others, allowed state (.run call) others →
        NoDuplications state (.run call) others) →
      (∀ file, .failed file .aborted ∉ reached.results) ∧
      ∀ transaction statement remaining error,
        .execute transaction ∈ reached.calls →
        transaction.remaining = statement :: remaining →
        transaction.position.answer = .error error →
        transaction.position.boot.dialect.recognises error statement = true →
        (MigrationCall.execute transaction).statement reached.shared =
          (reached.shared, .next (.execute
            (transaction.after statement (some error) remaining)))) := by
  have sound := run_sound run
  refine ⟨sound.recorded.names, sound.recorded.complete, sound.recorded.fresh,
    sound.recorded.once, ?_, ?_⟩
  · intro call member
    exact statement_clean (sound.known call member) reached.shared
  · intro permitted
    obtain ⟨calls, results⟩ := run_unaborted run permitted
    constructor
    · intro file failed
      exact results _ failed file rfl
    · intro transaction statement remaining error member more failed recognised
      exact execute_recognised _ (calls _ member) more failed recognised

namespace ExistingTable

def table : Text := "CREATE TABLE \"t\" (x)".toList

def file : MigrationFile := ⟨"a.sql".toList, some table⟩

def existing : SqlError :=
  ⟨"relation \"t\" already exists".toList, "42P07".toList⟩

/-- A boot on one file of one statement, whose table exists. -/
def boot (dialect : Dialect) (failing : Nat) : Boot where
  dialect := dialect
  entries := some [file]
  collation := charCollation
  rewriting := ⟨fun _ sql => sql, fun _ sql => sql, id, fun sql => [sql]⟩
  stripped := id
  answers := fun step => if step = failing then .error existing else .executed

def sqlite : Boot := boot .sqlite 4

def postgres : Boot := boot .postgres 3

def initial : MigrationState := ⟨[], [], []⟩

abbrev RunTo (allowed : MigrationState → Program.Event MigrationCall →
      List MigrationCall → Prop) (state : MigrationState)
    (calls : List MigrationCall) (results : List BootResult) : Prop :=
  migrationProgram.Run allowed ⟨initial, [], []⟩ ⟨state, calls, results⟩

theorem run_sqlite :
    RunTo NoDuplications
      (initial.apply sqlite file [(table, some existing)]) [] [.booted] := by
  have nothing : RunTo NoDuplications initial [] [] := .here
  have run := nothing.play [.start (.createTable sqlite), .run 0, .run 0, .run 0,
    .run 0, .run 0, .run 0, .run 0, .run 0] (by
      with_unfolding_all
        repeat' first
          | exact trivial
          | exact ⟨_, rfl⟩
          | apply And.intro
          | rintro ⟨⟩)
  with_unfolding_all exact run

theorem run_postgres :
    RunTo (fun _ _ _ => True) initial [] [.failed (some file.name) .aborted] := by
  have nothing : RunTo (fun _ _ _ => True) initial [] [] := .here
  have run := nothing.play [.start (.createTable postgres), .run 0, .run 0,
    .run 0, .run 0, .run 0, .run 0, .run 0] (by
      with_unfolding_all
        repeat' first
          | exact trivial
          | exact ⟨_, rfl⟩
          | apply And.intro)
  with_unfolding_all exact run

end ExistingTable

open ExistingTable in
theorem migrations_marked_sqlite :
    file.name ∈ (initial.apply sqlite file [(table, some existing)]).markers ∧
      ∀ name, .failed name .aborted ∉ [BootResult.booted] := by
  have marked := migrations_marked run_sqlite
  constructor
  · exact (marked.1 file.name).mpr (.inr ⟨_, List.mem_cons_self, rfl⟩)
  · exact (marked.2.2.2.2.2 fun _ _ _ permitted => permitted).1

open ExistingTable in
/-- The error is recognised and passed over, and the boot fails all the same. -/
theorem passed_over_fails :
    ¬ ∀ (markers : List Text)
        (reached : Program.Config MigrationState MigrationCall BootResult),
      migrationProgram.Run (fun _ _ _ => True) ⟨⟨markers, [], []⟩, [], []⟩
        reached →
      ∀ file, .failed file .aborted ∉ reached.results := by
  intro every
  exact every [] _ run_postgres (some file.name) List.mem_cons_self

end Takos.Migrations
