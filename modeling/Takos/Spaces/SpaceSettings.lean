import Takos.Foundation.Interleaving
import Takos.Foundation.Text

/-!
# Settings of a space

An update of a space reads the row and writes all four settings back, those
that it was not asked to change as it has read them.  The history of writes is
not stored; it says which call gave a setting its value.
-/

namespace Takos.Spaces

open Takos.Foundation

/-- A constraint of the table admits no other text. -/
inductive SecurityPosture where
  | standard | restricted_egress
  deriving DecidableEq

def SecurityPosture.text : SecurityPosture → Text
  | standard => "standard".toList
  | restricted_egress => "restricted_egress".toList

structure AccountRow where
  name : Text
  aiModel : Option Text
  modelBackend : Option Text
  securityPosture : SecurityPosture
  ownerAccountId : Option Text
  updatedAt : Text

structure WorkspaceUpdates where
  name : Option Text
  ai_model : Option Text
  model_backend : Option Text
  security_posture : Option SecurityPosture

inductive Setting where
  | name | aiModel | modelBackend | securityPosture

def AccountRow.value (row : AccountRow) : Setting → Option Text
  | .name => some row.name
  | .aiModel => row.aiModel
  | .modelBackend => row.modelBackend
  | .securityPosture => some row.securityPosture.text

namespace WorkspaceUpdates

variable (updates : WorkspaceUpdates)

def given : Setting → Option Text
  | .name => updates.name
  | .aiModel => updates.ai_model
  | .modelBackend => updates.model_backend
  | .securityPosture => updates.security_posture.map SecurityPosture.text

/-- What `updateWorkspace` makes of a row once it has read `current`. -/
def applyTo (current : AccountRow) (timestamp : Text) (row : AccountRow) :
    AccountRow :=
  { row with
    name := updates.name.getD current.name
    aiModel := updates.ai_model.or current.aiModel
    modelBackend := updates.model_backend.or current.modelBackend
    securityPosture := updates.security_posture.getD
      (if current.securityPosture = .restricted_egress then .restricted_egress
      else .standard)
    updatedAt := timestamp }

theorem value_applyTo (current row : AccountRow) (timestamp : Text)
    (setting : Setting) :
    (updates.applyTo current timestamp row).value setting =
      (updates.given setting).or (current.value setting) := by
  obtain ⟨name, ai_model, model_backend, security_posture⟩ := updates
  obtain ⟨_, _, _, posture, _, _⟩ := current
  cases setting with
  | name => cases name <;> rfl
  | aiModel | modelBackend => rfl
  | securityPosture => cases security_posture <;> cases posture <;> rfl

end WorkspaceUpdates

/-- A write of `updateWorkspace`, and when the call began to read. -/
structure SettingsWrite where
  updates : WorkspaceUpdates
  startedAt : Nat
  writtenAt : Nat

/-- The row of one space; the clock counts statements. -/
structure SettingsState where
  row : Option AccountRow
  clock : Nat
  history : List SettingsWrite

/-- Calls by the statement that they execute next. -/
inductive SettingsCall where
  | load (updates : WorkspaceUpdates) (timestamp : Text)
  | write (updates : WorkspaceUpdates) (timestamp : Text)
      (current : AccountRow) (startedAt : Nat)
  | reload
  | transfer (targetUserId timestamp : Text)

inductive SettingsResult where
  | space (row : Option AccountRow)
  | transferred

def SettingsCall.statement (call : SettingsCall) (state : SettingsState) :
    SettingsState × Outcome SettingsCall SettingsResult :=
  let later := { state with clock := state.clock + 1 }
  match call with
  | .load updates timestamp =>
    (later, match state.row with
      | none => .done (.space none)
      | some current => .next (.write updates timestamp current state.clock))
  | .write updates timestamp current startedAt =>
    ({ later with
      row := state.row.map (updates.applyTo current timestamp)
      history := ⟨updates, startedAt, state.clock⟩ :: state.history },
      .next .reload)
  | .reload => (later, .done (.space state.row))
  | .transfer targetUserId timestamp =>
    ({ later with
      row := state.row.map fun row =>
        { row with
          ownerAccountId := some targetUserId
          updatedAt := timestamp } },
      .done .transferred)

def SettingsCall.starts : SettingsCall → Prop
  | .load .. | .transfer .. => True
  | _ => False

def settingsCalls : Program SettingsState SettingsCall SettingsResult :=
  ⟨SettingsCall.starts, SettingsCall.statement⟩

def noCalls (row : AccountRow) :
    Program.Config SettingsState SettingsCall SettingsResult :=
  ⟨⟨some row, 0, []⟩, [], []⟩

/-- The call of this write has set this. -/
def SettingsState.Sets (state : SettingsState) (setting : Setting)
    (write : SettingsWrite) : Prop :=
  write ∈ state.history ∧ write.updates.given setting ≠ none

/-- Each setting is as it was at first where no call has set it, and otherwise
as a call has set it after whose write no other that sets it was begun. -/
def SettingsState.Settled (first : AccountRow) (state : SettingsState) : Prop :=
  ∃ row, state.row = some row ∧ ∀ setting,
    ((∀ write, ¬ state.Sets setting write) ∧
      row.value setting = first.value setting) ∨
    ∃ write, state.Sets setting write ∧
      write.updates.given setting = row.value setting ∧
      ∀ other, state.Sets setting other → other.startedAt ≤ write.writtenAt

/-- A write finds the settings that it does not name as its call has read
them. -/
def FindsAsRead (state : SettingsState) :
    Program.Event SettingsCall → List SettingsCall → Prop
  | .run (.write updates _ current _), _ =>
    ∀ row, state.row = some row → ∀ setting,
      updates.given setting = none →
      row.value setting = current.value setting
  | _, _ => True

section Runs

variable {state : SettingsState} {first : AccountRow}

theorem Settled.write (settled : state.Settled first)
    (past : ∀ write ∈ state.history, write.startedAt ≤ state.clock)
    {timestamp : Text} {updates : WorkspaceUpdates} {current : AccountRow}
    {startedAt : Nat} {others : List SettingsCall}
    (begun : startedAt ≤ state.clock)
    (found : FindsAsRead state
      (.run (.write updates timestamp current startedAt)) others) :
    (SettingsCall.statement (.write updates timestamp current startedAt)
      state).1.Settled first := by
  obtain ⟨row, stored, settings⟩ := settled
  refine ⟨updates.applyTo current timestamp row,
    congrArg (Option.map _) stored, ?_⟩
  intro setting
  rw [WorkspaceUpdates.value_applyTo]
  simp only [SettingsCall.statement, SettingsState.Sets, List.mem_cons]
  cases named : updates.given setting with
  | some value =>
      refine .inr ⟨_, ⟨.inl rfl, by simp [named]⟩, named, ?_⟩
      rintro other ⟨rfl | member, -⟩
      · exact begun
      · exact past other member
  | none =>
      have carried := found row stored setting named
      have same : ∀ write : SettingsWrite,
          ((write = ⟨updates, startedAt, state.clock⟩ ∨
            write ∈ state.history) ∧ write.updates.given setting ≠ none) ↔
          state.Sets setting write := by
        intro write
        constructor
        · rintro ⟨rfl | member, names⟩
          · exact absurd named names
          · exact ⟨member, names⟩
        · rintro ⟨member, names⟩
          exact ⟨.inr member, names⟩
      simp only [same, Option.none_or, ← carried]
      exact settings setting

/-- Calls and writes have begun by now. -/
def settingsAssertions (first : AccountRow) :
    Program.Assertions SettingsState SettingsCall SettingsResult where
  shared state := state.Settled first ∧
    ∀ write ∈ state.history, write.startedAt ≤ state.clock
  call state
    | .write _ _ _ startedAt => startedAt ≤ state.clock
    | _ => True
  result _ _ := True

theorem SettingsCall.clock_statement (call : SettingsCall) :
    state.clock ≤ (call.statement state).1.clock := by
  cases call <;> exact Nat.le_succ _

theorem SettingsCall.statement_kept {call : SettingsCall}
    {others : List SettingsCall}
    (shared : (settingsAssertions first).shared state)
    (own : (settingsAssertions first).call state call)
    (found : FindsAsRead state (.run call) others) :
    (settingsAssertions first).Kept settingsCalls state call := by
  obtain ⟨settled, past⟩ := shared
  have passes := @SettingsCall.clock_statement state call
  refine ⟨⟨?_, ?_⟩, ?_, ?_, fun _ _ => trivial⟩
  · cases call with
    | write => exact Settled.write settled past own found
    | load | reload => exact settled
    | transfer =>
        obtain ⟨row, stored, settings⟩ := settled
        refine ⟨_, congrArg (Option.map _) stored, ?_⟩
        intro setting
        cases setting <;> exact settings _
  · intro write member
    apply Nat.le_trans _ passes
    cases call with
    | write =>
        rcases List.mem_cons.mp member with new | old
        · exact new ▸ own
        · exact past write old
    | load | reload | transfer => exact past write member
  · cases call with
    | load updates timestamp =>
        simp only [settingsCalls, SettingsCall.statement]
        cases state.row with
        | none => exact trivial
        | some current => exact Nat.le_succ _
    | write | reload | transfer => exact trivial
  · intro other begun
    cases other with
    | write => exact Nat.le_trans begun passes
    | load | reload | transfer => exact trivial

/-- Where every write finds what it does not name as its call has read it, all
settings of the space are as their last setter has left them. -/
theorem settings_settled
    {reached : Program.Config SettingsState SettingsCall SettingsResult}
    (run : Program.Run settingsCalls FindsAsRead (noCalls first) reached) :
    reached.shared.Settled first := by
  refine ((settingsAssertions first).hold_of_run run ?_ ?_ ?_).1.1
  · refine ⟨⟨⟨first, rfl, ?_⟩, fun _ => nofun⟩, fun _ => nofun, fun _ => nofun⟩
    intro setting
    exact .inl ⟨fun write sets => (nomatch sets.1), rfl⟩
  · intro state call starts
    cases call with
    | load | transfer | reload => exact trivial
    | write => exact starts.elim
  · intro state call others shared own found
    exact SettingsCall.statement_kept shared own found

end Runs

namespace Renamed

def before : AccountRow :=
  ⟨['a'], none, none, .standard, none, []⟩

def rename : WorkspaceUpdates := ⟨some ['b'], none, none, none⟩

def restrict : WorkspaceUpdates := ⟨none, none, none, some .restricted_egress⟩

theorem renamed_settled : ∃ reached,
    Program.Run settingsCalls FindsAsRead (noCalls before) reached ∧
    reached.results.length = 1 ∧ reached.shared.Settled before := by
  have nothing : Program.Run settingsCalls FindsAsRead (noCalls before)
    (noCalls before) := .here
  have run := nothing.play [.start (.load rename []), .run 0, .run 0,
    .run 0] (by
      with_unfolding_all
        repeat' first
          | exact trivial
          | apply And.intro
          | (rintro row ⟨⟩ setting named; rfl))
  exact ⟨_, run, rfl, settings_settled run⟩

/-- The call that renames the space has read it before it was restricted. -/
theorem restriction_lost : ∃ reached row,
    Program.Run settingsCalls (fun _ _ _ => True) (noCalls before) reached ∧
    reached.calls = [] ∧ reached.shared.row = some row ∧
    row.securityPosture = .standard ∧
    reached.shared.history.map (fun write => write.updates.security_posture) =
      [none, some .restricted_egress] := by
  have nothing : Program.Run settingsCalls (fun _ _ _ => True) (noCalls before)
    (noCalls before) := .here
  have run := nothing.play [.start (.load restrict []),
    .start (.load rename []), .run 0, .run 1, .run 1, .run 1, .run 0,
    .run 0] (by
      with_unfolding_all
        repeat' first
          | exact trivial
          | apply And.intro)
  exact ⟨_, _, run, rfl, rfl, rfl, rfl⟩

end Renamed

end Takos.Spaces
