import Mathlib.Data.List.Basic
import Mathlib.Data.List.Perm.Basic

/-!
# Interleaved calls on a shared state

A call runs statement by statement.  Between two of its statements any other
call may run, a call may be dropped at any point, and new calls may start at
any time.  A run may be restricted to steps that meet a condition on the state
before them; an invariant kept by these steps holds wherever the run leads.
-/

namespace Takos.Foundation

universe u v w

/-- What a statement leaves of its call. -/
inductive Outcome (Call : Type v) (Result : Type w) where
  | next (call : Call)
  | done (result : Result)
  deriving DecidableEq

/-- The same outcome under other names for calls and results. -/
def Outcome.map {Call : Type v} {Result : Type w} {Other : Type v}
    {OtherResult : Type w} (call : Call → Other)
    (result : Result → OtherResult) :
    Outcome Call Result → Outcome Other OtherResult
  | .next rest => .next (call rest)
  | .done value => .done (result value)

/-- Calls by the statement that they execute next. -/
structure Program (Shared : Type u) (Call : Type v) (Result : Type w) where
  starts : Call → Prop
  statement : Call → Shared → Shared × Outcome Call Result

namespace Program

variable {Shared : Type u} {Call : Type v} {Result : Type w}

/-- Shared state, calls in progress and results, newest first. -/
structure Config (Shared : Type u) (Call : Type v) (Result : Type w) where
  shared : Shared
  calls : List Call
  results : List Result

inductive Event (Call : Type v) where
  | start (call : Call)
  | run (call : Call)
  | fail (call : Call)

/-- One step; the list holds the calls in progress other than the one that
moves. -/
inductive Step (program : Program Shared Call Result) :
    Config Shared Call Result → Event Call → List Call →
      Config Shared Call Result → Prop where
  | start {shared : Shared} {calls : List Call} {results : List Result}
      {call : Call} :
      program.starts call →
      Step program ⟨shared, calls, results⟩ (.start call) calls
        ⟨shared, call :: calls, results⟩
  | next {shared after : Shared} {front back : List Call}
      {results : List Result} {call rest : Call} :
      program.statement call shared = (after, .next rest) →
      Step program ⟨shared, front ++ call :: back, results⟩ (.run call)
        (front ++ back) ⟨after, front ++ rest :: back, results⟩
  | done {shared after : Shared} {front back : List Call}
      {results : List Result} {call : Call} {result : Result} :
      program.statement call shared = (after, .done result) →
      Step program ⟨shared, front ++ call :: back, results⟩ (.run call)
        (front ++ back) ⟨after, front ++ back, result :: results⟩
  | fail {shared : Shared} {front back : List Call} {results : List Result}
      {call : Call} :
      Step program ⟨shared, front ++ call :: back, results⟩ (.fail call)
        (front ++ back) ⟨shared, front ++ back, results⟩

/-- Configurations reached by steps that are all allowed. -/
inductive Run (program : Program Shared Call Result)
    (allowed : Shared → Event Call → List Call → Prop)
    (initial : Config Shared Call Result) : Config Shared Call Result → Prop
    where
  | here : Run program allowed initial initial
  | step {before after : Config Shared Call Result} {event : Event Call}
      {others : List Call} :
      Run program allowed initial before →
      allowed before.shared event others →
      program.Step before event others after →
      Run program allowed initial after

variable {program : Program Shared Call Result}
  {allowed : Shared → Event Call → List Call → Prop}
  {initial reached : Config Shared Call Result}

/-- Only a statement changes the shared state, and its call was in progress. -/
theorem Step.shared_cases {before after : Config Shared Call Result}
    {event : Event Call} {others : List Call}
    (step : program.Step before event others after) :
    (∃ call ∈ before.calls, event = .run call ∧
      after.shared = (program.statement call before.shared).1) ∨
    (∀ call, event ≠ .run call) ∧ after.shared = before.shared := by
  cases step with
  | start | fail => exact .inr ⟨by simp, rfl⟩
  | next executed => exact .inl ⟨_, by simp, rfl, by rw [executed]⟩
  | done executed => exact .inl ⟨_, by simp, rfl, by rw [executed]⟩

theorem Run.invariant_reached {invariant : Config Shared Call Result → Prop}
    (run : Run program allowed initial reached)
    (holds : invariant initial)
    (preserved : ∀ before event others after,
      Run program allowed initial before → invariant before →
      allowed before.shared event others →
      program.Step before event others after → invariant after) :
    invariant reached := by
  induction run with
  | here => exact holds
  | step earlier permitted step ih =>
      exact preserved _ _ _ _ earlier ih permitted step

theorem Run.invariant {invariant : Config Shared Call Result → Prop}
    (run : Run program allowed initial reached)
    (holds : invariant initial)
    (preserved : ∀ before event others after, invariant before →
      allowed before.shared event others →
      program.Step before event others after → invariant after) :
    invariant reached :=
  run.invariant_reached holds fun _ _ _ _ _ => preserved _ _ _ _

theorem Run.mono {weaker : Shared → Event Call → List Call → Prop}
    (run : Run program allowed initial reached)
    (implied : ∀ shared event others,
      allowed shared event others → weaker shared event others) :
    Run program weaker initial reached := by
  induction run with
  | here => exact .here
  | step _ permitted step ih => exact .step ih (implied _ _ _ permitted) step

/-- An assertion about the shared state, one about each call in progress and
one about each result. -/
structure Assertions (Shared : Type u) (Call : Type v) (Result : Type w) where
  shared : Shared → Prop
  call : Shared → Call → Prop
  result : Shared → Result → Prop

namespace Assertions

variable (assertions : Assertions Shared Call Result)

def Hold (config : Config Shared Call Result) : Prop :=
  assertions.shared config.shared ∧
    (∀ call ∈ config.calls, assertions.call config.shared call) ∧
    ∀ result ∈ config.results, assertions.result config.shared result

def HoldAfter (shared : Shared) : Outcome Call Result → Prop
  | .next rest => assertions.call shared rest
  | .done result => assertions.result shared result

/-- A statement establishes what follows it and disturbs nothing else. -/
structure Kept (program : Program Shared Call Result) (before : Shared)
    (call : Call) : Prop where
  shared : assertions.shared (program.statement call before).1
  outcome : assertions.HoldAfter (program.statement call before).1
    (program.statement call before).2
  others : ∀ other, assertions.call before other →
    assertions.call (program.statement call before).1 other
  results : ∀ result, assertions.result before result →
    assertions.result (program.statement call before).1 result

theorem mem_of_mem_others {front back : List Call} {call other : Call}
    (member : other ∈ front ++ back) : other ∈ front ++ call :: back := by
  rcases List.mem_append.mp member with ahead | behind
  · exact List.mem_append_left _ ahead
  · exact List.mem_append_right _ (.tail _ behind)

theorem hold_of_run (run : Run program allowed initial reached)
    (holds : assertions.Hold initial)
    (started : ∀ shared call, program.starts call →
      assertions.call shared call)
    (kept : ∀ shared call others, assertions.shared shared →
      assertions.call shared call → allowed shared (.run call) others →
      assertions.Kept program shared call) :
    assertions.Hold reached := by
  apply run.invariant holds
  intro before event others after hold permitted step
  obtain ⟨shared, calls, results⟩ := hold
  cases step with
  | start starts =>
      refine ⟨shared, ?_, results⟩
      intro call member
      rcases List.mem_cons.mp member with new | old
      · subst new
        exact started _ _ starts
      · exact calls call old
  | @next _ _ front back _ call rest executed =>
      have moving := calls call (by simp)
      have step := kept _ call _ shared moving permitted
      obtain ⟨sharedAfter, outcome, othersKept, resultsKept⟩ := step
      rw [executed] at sharedAfter outcome othersKept resultsKept
      refine ⟨sharedAfter, ?_, fun result member =>
        resultsKept result (results result member)⟩
      intro other member
      rcases List.mem_append.mp member with ahead | behind
      · exact othersKept other (calls other (List.mem_append_left _ ahead))
      · rcases List.mem_cons.mp behind with continued | behind
        · exact continued ▸ outcome
        · exact othersKept other (calls other (by simp [behind]))
  | @done _ _ front back _ call result executed =>
      have moving := calls call (by simp)
      have step := kept _ call _ shared moving permitted
      obtain ⟨sharedAfter, outcome, othersKept, resultsKept⟩ := step
      rw [executed] at sharedAfter outcome othersKept resultsKept
      refine ⟨sharedAfter, ?_, ?_⟩
      · intro other member
        apply othersKept other
        exact calls other (mem_of_mem_others member)
      · intro other member
        rcases List.mem_cons.mp member with new | old
        · exact new ▸ outcome
        · exact resultsKept other (results other old)
  | @fail _ front back _ call =>
      refine ⟨shared, ?_, results⟩
      intro other member
      exact calls other (mem_of_mem_others member)

/-! ### Calls that stay apart

Some assertions hold of a call only because no other call in progress has what
it has. -/

/-- As `Kept`, for the other calls in progress, from which the call stays
apart. -/
structure KeptAmong (program : Program Shared Call Result)
    (apart : Call → Call → Prop) (before : Shared) (call : Call)
    (among : List Call) : Prop where
  shared : assertions.shared (program.statement call before).1
  outcome : assertions.HoldAfter (program.statement call before).1
    (program.statement call before).2
  others : ∀ other ∈ among, assertions.call before other →
    apart call other → assertions.call (program.statement call before).1 other
  apart : ∀ rest, (program.statement call before).2 = .next rest →
    ∀ other ∈ among, assertions.call before other → apart call other →
      apart rest other
  results : ∀ result, assertions.result before result →
    assertions.result (program.statement call before).1 result

theorem hold_of_run_apart {apart : Call → Call → Prop}
    (symmetric : ∀ left right, apart left right → apart right left)
    (run : Run program allowed initial reached)
    (holds : assertions.Hold initial)
    (separate : initial.calls.Pairwise apart)
    (started : ∀ shared call, program.starts call →
      assertions.call shared call)
    (alone : ∀ call other, program.starts call → apart call other)
    (kept : ∀ shared call others, assertions.shared shared →
      assertions.call shared call → allowed shared (.run call) others →
      assertions.KeptAmong program apart shared call others) :
    assertions.Hold reached ∧ reached.calls.Pairwise apart := by
  have turn : ∀ {left right : Call}, apart left right → apart right left :=
    fun parted => symmetric _ _ parted
  -- the order of the calls in progress does not matter
  have move : ∀ (front back : List Call) (call : Call),
      (front ++ call :: back).Pairwise apart ↔
        (∀ other ∈ front ++ back, apart call other) ∧
          (front ++ back).Pairwise apart := by
    intro front back call
    rw [List.perm_middle.pairwise_iff turn, List.pairwise_cons]
  apply @Run.invariant _ _ _ program allowed _ _ (fun config =>
    assertions.Hold config ∧ config.calls.Pairwise apart) run
    ⟨holds, separate⟩
  intro before event others after invariant permitted step
  obtain ⟨⟨shared, calls, results⟩, parted⟩ := invariant
  cases step with
  | start starts =>
      refine ⟨⟨shared, ?_, results⟩, List.pairwise_cons.mpr
        ⟨fun other _ => alone _ other starts, parted⟩⟩
      intro call member
      rcases List.mem_cons.mp member with new | old
      · subst new
        exact started _ _ starts
      · exact calls call old
  | @next shared_ _ front back _ call rest executed =>
      have moving := calls call (by simp)
      obtain ⟨fromCall, remaining⟩ := (move front back call).mp parted
      have step := kept _ call (front ++ back) shared moving permitted
      obtain ⟨sharedAfter, outcome, othersKept, apartKept, resultsKept⟩ := step
      rw [executed] at sharedAfter outcome othersKept resultsKept
      have before : ∀ other ∈ front ++ back, assertions.call shared_ other := by
        intro other member
        exact calls other (mem_of_mem_others member)
      refine ⟨⟨sharedAfter, ?_, fun result member =>
        resultsKept result (results result member)⟩, ?_⟩
      · intro other member
        rcases List.mem_cons.mp (List.perm_middle.subset member) with
          continued | staying
        · exact continued ▸ outcome
        · exact othersKept other staying (before other staying)
            (fromCall other staying)
      · apply (move front back rest).mpr
        refine ⟨?_, remaining⟩
        intro other member
        exact apartKept rest (by rw [executed]) other member
          (before other member) (fromCall other member)
  | @done _ _ front back _ call result executed =>
      have moving := calls call (by simp)
      obtain ⟨fromCall, remaining⟩ := (move front back call).mp parted
      have step := kept _ call (front ++ back) shared moving permitted
      obtain ⟨sharedAfter, outcome, othersKept, _, resultsKept⟩ := step
      rw [executed] at sharedAfter outcome othersKept resultsKept
      refine ⟨⟨sharedAfter, ?_, ?_⟩, remaining⟩
      · intro other member
        apply othersKept other member _ (fromCall other member)
        exact calls other (mem_of_mem_others member)
      · intro other member
        rcases List.mem_cons.mp member with new | old
        · exact new ▸ outcome
        · exact resultsKept other (results other old)
  | @fail _ front back _ call =>
      refine ⟨⟨shared, ?_, results⟩, ((move front back call).mp parted).2⟩
      intro other member
      exact calls other (mem_of_mem_others member)

end Assertions

section Extend

variable {shared after : Shared} {results : List Result}

theorem Run.starting {calls : List Call}
    (run : Run program allowed initial ⟨shared, calls, results⟩) (call : Call)
    (starts : program.starts call)
    (permitted : allowed shared (.start call) calls) :
    Run program allowed initial ⟨shared, call :: calls, results⟩ :=
  run.step permitted (.start starts)

theorem Run.continuing {call rest : Call} (front back : List Call)
    (run : Run program allowed initial ⟨shared, front ++ call :: back, results⟩)
    (executed : program.statement call shared = (after, .next rest))
    (permitted : allowed shared (.run call) (front ++ back)) :
    Run program allowed initial ⟨after, front ++ rest :: back, results⟩ :=
  run.step permitted (.next executed)

theorem Run.finishing {call : Call} {result : Result} (front back : List Call)
    (run : Run program allowed initial ⟨shared, front ++ call :: back, results⟩)
    (executed : program.statement call shared = (after, .done result))
    (permitted : allowed shared (.run call) (front ++ back)) :
    Run program allowed initial ⟨after, front ++ back, result :: results⟩ :=
  run.step permitted (.done executed)

theorem Run.failing {call : Call} (front back : List Call)
    (run : Run program allowed initial ⟨shared, front ++ call :: back, results⟩)
    (permitted : allowed shared (.fail call) (front ++ back)) :
    Run program allowed initial ⟨shared, front ++ back, results⟩ :=
  run.step permitted .fail

/-- One step of a schedule: a call that starts, or the position of the one that
runs. -/
inductive Turn (Call : Type v) where
  | start (call : Call)
  | run (position : Nat)

def Config.turn (program : Program Shared Call Result)
    (config : Config Shared Call Result) :
    Turn Call → Config Shared Call Result
  | .start call => ⟨config.shared, call :: config.calls, config.results⟩
  | .run position =>
    match config.calls[position]? with
    | none => config
    | some call =>
      match program.statement call config.shared with
      | (after, .next rest) =>
        ⟨after, config.calls.set position rest, config.results⟩
      | (after, .done result) =>
        ⟨after, config.calls.eraseIdx position, result :: config.results⟩

def Config.Allows (program : Program Shared Call Result)
    (allowed : Shared → Event Call → List Call → Prop)
    (config : Config Shared Call Result) : Turn Call → Prop
  | .start call =>
    program.starts call ∧ allowed config.shared (.start call) config.calls
  | .run position =>
    match config.calls[position]? with
    | none => True
    | some call =>
      allowed config.shared (.run call) (config.calls.eraseIdx position)

theorem Run.turn {before : Config Shared Call Result}
    (run : Run program allowed initial before) (turn : Turn Call)
    (allows : before.Allows program allowed turn) :
    Run program allowed initial (before.turn program turn) := by
  obtain ⟨shared, calls, results⟩ := before
  cases turn with
  | start call => exact run.step allows.2 (.start allows.1)
  | run position =>
      simp only [Config.turn, Config.Allows] at allows ⊢
      cases found : calls[position]? with
      | none => exact run
      | some call =>
          rw [found] at allows
          obtain ⟨inside, rfl⟩ := List.getElem?_eq_some_iff.mp found
          have cut := List.take_append_drop position calls
          rw [List.drop_eq_getElem_cons inside] at cut
          rw [List.eraseIdx_eq_take_drop_succ] at allows
          rw [← cut] at run
          dsimp only
          cases executed : program.statement calls[position] shared with
          | mk after outcome =>
              cases outcome with
              | next rest =>
                  dsimp only
                  rw [List.set_eq_take_append_cons_drop, if_pos inside]
                  exact run.step allows (.next executed)
              | done result =>
                  dsimp only
                  rw [List.eraseIdx_eq_take_drop_succ]
                  exact run.step allows (.done executed)

def Config.AllowsAll (program : Program Shared Call Result)
    (allowed : Shared → Event Call → List Call → Prop) :
    List (Turn Call) → Config Shared Call Result → Prop
  | [], _ => True
  | turn :: rest, config => config.Allows program allowed turn ∧
    Config.AllowsAll program allowed rest (config.turn program turn)

/-- A schedule computes where it leads. -/
theorem Run.play {before : Config Shared Call Result}
    (run : Run program allowed initial before) (turns : List (Turn Call))
    (allows : before.AllowsAll program allowed turns) :
    Run program allowed initial
      (turns.foldl (Config.turn program) before) := by
  induction turns generalizing before with
  | nil => exact run
  | cons turn rest ih => exact ih (run.turn turn allows.1) allows.2

/-- A call run to its end on its own, within a number of statements. -/
def runAlone (program : Program Shared Call Result) :
    Nat → Call → Shared → Option (Shared × Result)
  | 0, _, _ => none
  | fuel + 1, call, shared =>
    match program.statement call shared with
    | (after, .next rest) => runAlone program fuel rest after
    | (after, .done result) => some (after, result)

theorem Run.alone {fuel : Nat} {call : Call} {result : Result}
    (kind : Call → Prop) (front back : List Call)
    (run : Run program allowed initial ⟨shared, front ++ call :: back, results⟩)
    (alone : program.runAlone fuel call shared = some (after, result))
    (start : kind call)
    (stays : ∀ call shared rest, kind call →
      (program.statement call shared).2 = .next rest → kind rest)
    (permitted : ∀ shared call, kind call →
      allowed shared (.run call) (front ++ back)) :
    Run program allowed initial ⟨after, front ++ back, result :: results⟩ := by
  induction fuel generalizing call shared with
  | zero => cases alone
  | succ fuel ih =>
      simp only [runAlone] at alone
      split at alone
      · rename_i next rest executed
        have continued := run.continuing front back executed
          (permitted _ _ start)
        exact ih continued alone (stays call shared rest start (by rw [executed]))
      · rename_i last value executed
        cases alone
        exact run.finishing front back executed (permitted _ _ start)

end Extend

end Program

end Takos.Foundation
