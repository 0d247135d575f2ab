import Takos.LocalPlatform.NestedTransactions

/-!
# What nested transactions leave behind

Inside an open transaction every scope is a savepoint, so the marks that a scope
leaves have names of its own and the content grows by the effects in force.  What
should remain are the effects of the scopes that succeeded.
-/

namespace Takos.LocalPlatform

open Takos.Foundation

variable {Effect : Type}

/-- A scope succeeds where its callback returns and its statements do. -/
def ScopeFailures.completes (failures : ScopeFailures) (returned : Bool) :
    Bool :=
  !failures.opening && returned && !failures.closing

def Callback.succeeds : Callback Effect → Bool
  | .returns => true
  | .throws => false
  | .write _ fails next => (next !fails).succeeds
  | .nested failures inner next =>
    (next (failures.completes inner.succeeds)).succeeds

/-- The effects that should remain: those of the scopes that succeeded. -/
def Callback.kept : Callback Effect → List Effect
  | .returns => []
  | .throws => []
  | .write effect fails next =>
    (if fails then [] else [effect]) ++ (next !fails).kept
  | .nested failures inner next =>
    (if failures.completes inner.succeeds then inner.kept else []) ++
      (next (failures.completes inner.succeeds)).kept

/-- The effects of a scope that are in force behind it. -/
def ScopeFailures.remains (failures : ScopeFailures) (returned : Bool)
    (effects : List Effect) : List Effect :=
  if failures.opening then []
  else if failures.completes returned then effects
  else if failures.rollback then effects
  else []

def Callback.inForce : Callback Effect → List Effect
  | .returns => []
  | .throws => []
  | .write effect fails next =>
    (if fails then [] else [effect]) ++ (next !fails).inForce
  | .nested failures inner next =>
    failures.remains inner.succeeds inner.inForce ++
      (next (failures.completes inner.succeeds)).inForce

/-- The nested scopes that could not be opened. -/
def Callback.unopened : Callback Effect → Nat
  | .returns => 0
  | .throws => 0
  | .write _ fails next => (next !fails).unopened
  | .nested failures inner next =>
    (if failures.opening then 1 else inner.unopened) +
      (next (failures.completes inner.succeeds)).unopened

/-- Every scope that fails, outside of those rolled back around it, is rolled
back or has no effect in force. -/
def Callback.Undone : Callback Effect → Prop
  | .returns => True
  | .throws => True
  | .write _ fails next => (next !fails).Undone
  | .nested failures inner next =>
    (failures.opening = false →
      if failures.completes inner.succeeds then inner.Undone
      else failures.rollback = true → inner.inForce = []) ∧
    (next (failures.completes inner.succeeds)).Undone

/-- What remains is at least what should, and no more exactly where the failed
scopes are undone. -/
theorem Callback.kept_inForce (callback : Callback Effect) :
    callback.kept.length ≤ callback.inForce.length ∧
      (callback.kept.length = callback.inForce.length → callback.Undone) ∧
      (callback.Undone → callback.inForce = callback.kept) := by
  induction callback with
  | returns | throws => exact ⟨Nat.le_refl _, fun _ => trivial, fun _ => rfl⟩
  | write effect fails next ih =>
      obtain ⟨least, undone, same⟩ := ih !fails
      simp only [kept, inForce, Undone, List.length_append]
      refine ⟨by omega, fun equal => undone (by omega), ?_⟩
      intro holds
      rw [same holds]
  | nested failures inner next innerIh nextIh =>
      obtain ⟨innerLeast, innerUndone, innerSame⟩ := innerIh
      obtain ⟨nextLeast, nextUndone, nextSame⟩ :=
        nextIh (failures.completes inner.succeeds)
      simp only [kept, inForce, Undone, List.length_append,
        ScopeFailures.remains]
      by_cases opening : failures.opening = true
      · have failed : failures.completes inner.succeeds = false := by
          simp [ScopeFailures.completes, opening]
        simp only [failed, opening, if_true, Bool.false_eq_true, if_false,
          List.length_nil, List.nil_append, reduceCtorEq, false_implies,
          true_and]
        rw [failed] at nextLeast nextUndone nextSame
        exact ⟨by omega, fun equal => nextUndone (by omega), nextSame⟩
      · have opened : failures.opening = false := by simpa using opening
        simp only [opened, Bool.false_eq_true, if_false, true_implies]
        by_cases completed : failures.completes inner.succeeds = true
        · rw [completed] at nextLeast nextUndone nextSame
          simp only [completed, if_true]
          refine ⟨by omega,
            fun equal => ⟨innerUndone (by omega), nextUndone (by omega)⟩, ?_⟩
          rintro ⟨innerHolds, nextHolds⟩
          rw [innerSame innerHolds, nextSame nextHolds]
        · have failed : failures.completes inner.succeeds = false := by
            simpa using completed
          rw [failed] at nextLeast nextUndone nextSame
          simp only [failed, Bool.false_eq_true, if_false, List.length_nil,
            List.nil_append]
          by_cases stuck : failures.rollback = true
          · simp only [stuck, if_true, true_implies]
            refine ⟨by omega, fun equal => ⟨?_, nextUndone (by omega)⟩, ?_⟩
            · apply List.length_eq_zero_iff.mp
              omega
            · rintro ⟨silent, nextHolds⟩
              rw [silent, nextSame nextHolds, List.nil_append]
          · simp only [stuck, if_false, List.length_nil, List.nil_append,
              false_implies, true_and, Bool.false_eq_true]
            exact ⟨by omega, fun equal => nextUndone (by omega), nextSame⟩

theorem issue_failing (statement : SqlStatement Nat (List Effect))
    (world : TransactionWorld Effect) :
    issue statement true world =
      (false, world) :=
  rfl

theorem issue_done {statement : SqlStatement Nat (List Effect)}
    {world : TransactionWorld Effect} {session : SqlSession Nat (List Effect)}
    (done : world.session.execute statement = some session) :
    issue statement false world =
      (true, { world with session := session }) := by
  simp only [issue, Bool.false_eq_true, if_false, done]

/-- How the world has changed behind something done inside a transaction. -/
structure RanInside (before after : TransactionWorld Effect)
    (growth : List Effect) (unopened : Nat) : Prop where
  depth : after.transactionDepth = before.transactionDepth + unopened
  seq : before.savepointSeq ≤ after.savepointSeq
  content : after.session.content = before.session.content ++ growth
  marks : ∃ inner, after.session.marks = inner ++ before.session.marks ∧
    ∀ mark ∈ inner, ∃ name, mark.name = some name ∧
      before.savepointSeq < name ∧ name ≤ after.savepointSeq

theorem RanInside.refl (world : TransactionWorld Effect) :
    RanInside world world [] 0 where
  depth := by simp
  seq := Nat.le_refl _
  content := by simp
  marks := ⟨[], rfl, by simp⟩

theorem RanInside.trans {first second third : TransactionWorld Effect}
    {early late : List Effect} {earlyUnopened lateUnopened : Nat}
    (left : RanInside first second early earlyUnopened)
    (right : RanInside second third late lateUnopened) :
    RanInside first third (early ++ late) (earlyUnopened + lateUnopened) where
  depth := by
    rw [right.depth, left.depth]
    omega
  seq := Nat.le_trans left.seq right.seq
  content := by rw [right.content, left.content, List.append_assoc]
  marks := by
    obtain ⟨leftInner, leftMarks, leftNames⟩ := left.marks
    obtain ⟨rightInner, rightMarks, rightNames⟩ := right.marks
    refine ⟨rightInner ++ leftInner, ?_, ?_⟩
    · rw [rightMarks, leftMarks, List.append_assoc]
    · intro mark member
      rcases List.mem_append.mp member with later | earlier
      · obtain ⟨name, named, above, below⟩ := rightNames mark later
        exact ⟨name, named, Nat.lt_of_le_of_lt left.seq above, below⟩
      · obtain ⟨name, named, above, below⟩ := leftNames mark earlier
        exact ⟨name, named, above, Nat.le_trans below right.seq⟩

/-- What a function of worlds does inside any transaction. -/
def RunsInside (fn : TransactionWorld Effect → Bool × TransactionWorld Effect)
    (returned : Bool) (growth : List Effect) (unopened : Nat) : Prop :=
  ∀ world, 0 < world.transactionDepth → (fn world).1 = returned ∧
    RanInside world (fn world).2 growth unopened

section Savepoints

variable {fn : TransactionWorld Effect → Bool × TransactionWorld Effect}
  {returned : Bool} {growth : List Effect} {unopened : Nat}

/-- The world in which the callback of a savepoint starts. -/
def savepointOpened (world : TransactionWorld Effect) :
    TransactionWorld Effect where
  transactionDepth := world.transactionDepth + 1
  savepointSeq := world.savepointSeq + 1
  session := ⟨world.session.content,
    ⟨some (world.savepointSeq + 1), world.session.content⟩ ::
      world.session.marks⟩

variable {world after : TransactionWorld Effect}

theorem savepoint_behind
    (ran : RanInside (savepointOpened world) after growth unopened) :
    ∃ inner, after.session = ⟨world.session.content ++ growth,
        inner ++ ⟨some (world.savepointSeq + 1), world.session.content⟩ ::
          world.session.marks⟩ ∧
      (∀ mark ∈ inner, mark.name ≠ some (world.savepointSeq + 1)) ∧
      ∀ mark ∈ inner, ∃ name, mark.name = some name ∧
        world.savepointSeq < name ∧ name ≤ after.savepointSeq := by
  obtain ⟨inner, marks, names⟩ := ran.marks
  refine ⟨inner, ?_, ?_, ?_⟩
  · have content := ran.content
    obtain ⟨depth, seq, ⟨kept, open_⟩⟩ := after
    change kept = world.session.content ++ growth at content
    change open_ = inner ++ _ at marks
    rw [content, marks]
    rfl
  · intro mark member same
    obtain ⟨name, named, above, _⟩ := names mark member
    rw [same] at named
    cases named
    exact Nat.lt_irrefl _ above
  · intro mark member
    obtain ⟨name, named, above, below⟩ := names mark member
    exact ⟨name, named, Nat.lt_of_succ_lt above, below⟩

/-- A world that differs from one inside the savepoint in its session, and is
back at the depth of the parent. -/
theorem RanInside.closed
    (ran : RanInside (savepointOpened world) after growth unopened)
    (session : SqlSession Nat (List Effect)) {rest : List Effect}
    (content : session.content = world.session.content ++ rest)
    (marks : ∃ inner, session.marks = inner ++ world.session.marks ∧
      ∀ mark ∈ inner, ∃ name, mark.name = some name ∧
        world.savepointSeq < name ∧ name ≤ after.savepointSeq) :
    RanInside world
      (TransactionWorld.shallower { after with session := session }) rest
      unopened where
  depth := by
    have depth := ran.depth
    simp only [savepointOpened] at depth
    simp only [TransactionWorld.shallower, depth]
    omega
  seq := Nat.le_of_succ_le ran.seq
  content := content
  marks := marks

theorem runSavepoint_unopened (failures : ScopeFailures)
    (opening : failures.opening = true) (world : TransactionWorld Effect) :
    runSavepoint failures fn world =
      (false, { world with
        transactionDepth := world.transactionDepth + 1
        savepointSeq := world.savepointSeq + 1 }) := by
  simp only [runSavepoint, opening, issue_failing, if_true,
    TransactionWorld.deeper]

theorem runSavepoint_opened {failures : ScopeFailures}
    (opening : failures.opening = false) (world : TransactionWorld Effect) :
    runSavepoint failures fn world =
      let name := world.savepointSeq + 1
      let result := fn (savepointOpened world)
      let finished :=
        if result.1 then issue (.release name) failures.closing result.2
        else result
      let settled :=
        if finished.1 then finished
        else
          let undone := issue (.rollbackTo name) failures.rollback finished.2
          (false, if undone.1 then (issue (.release name) failures.discard
            undone.2).2 else undone.2)
      (settled.1, settled.2.shallower) := by
  have opened : issue (.savepoint (world.savepointSeq + 1)) false
      { world with savepointSeq := world.savepointSeq + 1 }.deeper =
      (true, savepointOpened world) := rfl
  simp only [runSavepoint, opening, opened, Bool.true_eq_false, if_false]

theorem rollbackTo_behind {failures : ScopeFailures}
    (ran : RanInside (savepointOpened world) after growth unopened) :
    let undone := issue (.rollbackTo (world.savepointSeq + 1))
      failures.rollback after
    RanInside world
      (if undone.1 then (issue (.release (world.savepointSeq + 1))
        failures.discard undone.2).2 else undone.2).shallower
      (if failures.rollback then growth else []) unopened := by
  obtain ⟨inner, session, others, names⟩ := savepoint_behind ran
  have below : world.savepointSeq + 1 ≤ after.savepointSeq := ran.seq
  have own : ∀ mark ∈ [(⟨some (world.savepointSeq + 1),
      world.session.content⟩ : Mark Nat (List Effect))],
      ∃ name, mark.name = some name ∧ world.savepointSeq < name ∧
        name ≤ after.savepointSeq := by
    intro mark member
    rw [List.mem_singleton.mp member]
    exact ⟨_, rfl, Nat.lt_succ_self _, below⟩
  by_cases stuck : failures.rollback = true
  · simp only [stuck, issue_failing, Bool.false_eq_true, if_false, if_true]
    have closed := ran.closed after.session
      (by rw [session] : after.session.content =
        world.session.content ++ growth) ⟨inner ++ [_], by rw [session, List.append_assoc]; rfl,
        fun mark member => (List.mem_append.mp member).elim (names mark)
          (own mark)⟩
    exact closed
  · have rolled : failures.rollback = false := by simpa using stuck
    have back : SqlSession.execute after.session
        (.rollbackTo (world.savepointSeq + 1)) =
        some ⟨world.session.content,
          ⟨some (world.savepointSeq + 1), world.session.content⟩ ::
            world.session.marks⟩ := by
      rw [session]
      exact SqlSession.rollbackTo_append others _ _ _
    simp only [rolled, issue_done back, if_true, Bool.false_eq_true, if_false]
    cases discarded : failures.discard with
    | true =>
        rw [issue_failing]
        exact ran.closed
          ⟨world.session.content,
            ⟨some (world.savepointSeq + 1), world.session.content⟩ ::
              world.session.marks⟩
          (List.append_nil _).symm ⟨[_], rfl, own⟩
    | false =>
        have released : SqlSession.execute
            (⟨world.session.content,
              ⟨some (world.savepointSeq + 1), world.session.content⟩ ::
                world.session.marks⟩ : SqlSession Nat (List Effect))
            (.release (world.savepointSeq + 1)) =
            some ⟨world.session.content, world.session.marks⟩ := by
          apply SqlSession.release_append (List.forall_mem_nil _)
        rw [issue_done released]
        exact ran.closed ⟨world.session.content, world.session.marks⟩
          (List.append_nil _).symm ⟨[], rfl, by simp⟩

theorem runSavepoint_runs (runs : RunsInside fn returned growth unopened)
    (failures : ScopeFailures) :
    RunsInside (runSavepoint failures fn) (failures.completes returned)
      (failures.remains returned growth)
      (if failures.opening then 1 else unopened) := by
  intro world inside
  by_cases opening : failures.opening = true
  · rw [runSavepoint_unopened failures opening]
    simp only [ScopeFailures.completes, ScopeFailures.remains, opening,
      if_true, Bool.not_true, Bool.false_and, true_and]
    exact ⟨rfl, Nat.le_succ _, (List.append_nil _).symm, [], rfl, by simp⟩
  · have opened : failures.opening = false := by simpa using opening
    rw [runSavepoint_opened opened]
    have deeper : 0 < (savepointOpened world).transactionDepth := by
      simp only [savepointOpened]
      omega
    obtain ⟨returns, ran⟩ := runs (savepointOpened world) deeper
    obtain ⟨inner, session, others, names⟩ := savepoint_behind ran
    simp only [opened, Bool.false_eq_true, if_false, returns,
      ScopeFailures.completes, ScopeFailures.remains, Bool.not_false,
      Bool.true_and]
    cases returned with
    | false =>
        simp only [Bool.false_eq_true, if_false, returns, Bool.false_and,
          true_and]
        exact rollbackTo_behind ran
    | true =>
        cases closing : failures.closing with
        | true =>
            simp only [if_true, issue_failing, Bool.false_eq_true, if_false,
              Bool.not_true, Bool.and_false, true_and]
            exact rollbackTo_behind ran
        | false =>
            have released : SqlSession.execute
                (fn (savepointOpened world)).2.session
                (.release (world.savepointSeq + 1)) =
                some ⟨world.session.content ++ growth, world.session.marks⟩ := by
              rw [session]
              exact SqlSession.release_append others _ _ _
            simp only [if_true, issue_done released, Bool.not_false,
              Bool.and_true, true_and]
            exact ran.closed
              ⟨world.session.content ++ growth, world.session.marks⟩
              rfl ⟨[], rfl, by simp⟩

end Savepoints

/-- The modes in which the manager issues statements of its own. -/
def D1TransactionMode.Issues (mode : D1TransactionMode) : Prop :=
  mode = .localSqlite ∨ mode = .unknown

section Scopes

variable {mode : D1TransactionMode}

variable {world : TransactionWorld Effect} {failures : ScopeFailures}

theorem runInTransaction_inside (issues : mode.Issues)
    {fn : TransactionWorld Effect → Bool × TransactionWorld Effect}
    (inside : 0 < world.transactionDepth) :
    runInTransaction mode none failures fn world =
      runSavepoint failures fn world := by
  have deep : world.transactionDepth ≠ 0 := by omega
  rcases issues with rfl | rfl
  · exact if_neg deep
  · exact if_neg deep

theorem runInTransaction_outermost (issues : mode.Issues)
    {fn : TransactionWorld Effect → Bool × TransactionWorld Effect}
    (outside : world.transactionDepth = 0) :
    runInTransaction mode none failures fn world =
      runTopLevel failures fn world := by
  rcases issues with rfl | rfl
  · exact if_pos outside
  · exact if_pos outside

theorem issue_write_inside (effect : Effect) (fails : Bool)
    (world : TransactionWorld Effect) :
    let written := issue (.write fun effects => effects ++ [effect]) fails world
    written.1 = !fails ∧
      RanInside world written.2 (if fails then [] else [effect]) 0 := by
  cases fails with
  | true =>
      rw [issue_failing]
      exact ⟨rfl, (Int.add_zero _).symm, Nat.le_refl _,
        (List.append_nil _).symm, [], rfl, List.forall_mem_nil _⟩
  | false =>
      exact ⟨rfl, (Int.add_zero _).symm, Nat.le_refl _, rfl, [], rfl,
        List.forall_mem_nil _⟩

theorem runCallback_runs (issues : mode.Issues) (callback : Callback Effect) :
    RunsInside (runCallback mode none callback) callback.succeeds
      callback.inForce callback.unopened := by
  induction callback with
  | returns | throws =>
      intro world inside
      exact ⟨rfl, .refl world⟩
  | write effect fails next ih =>
      intro world inside
      obtain ⟨answer, written⟩ := issue_write_inside effect fails world
      simp only [runCallback, answer]
      have depth := written.depth
      obtain ⟨returned, ran⟩ := ih (!fails) _ (by
        rw [depth]
        omega)
      have whole := written.trans ran
      rw [Nat.zero_add] at whole
      exact ⟨returned, whole⟩
  | nested failures inner next innerIh nextIh =>
      intro world inside
      obtain ⟨answer, scope⟩ := runSavepoint_runs innerIh failures world inside
      simp only [runCallback, runInTransaction_inside issues inside, answer]
      have depth := scope.depth
      obtain ⟨returned, ran⟩ := nextIh (failures.completes inner.succeeds) _ (by
        rw [depth]
        omega)
      exact ⟨returned, scope.trans ran⟩

/-- The world in which the callback of a transaction starts. -/
def transactionOpened (world : TransactionWorld Effect) :
    TransactionWorld Effect where
  transactionDepth := world.transactionDepth + 1
  savepointSeq := world.savepointSeq
  session := ⟨world.session.content, [⟨none, world.session.content⟩]⟩

/-- The manager is in no scope and its database in no transaction. -/
structure Fresh (world : TransactionWorld Effect) : Prop where
  depth : world.transactionDepth = 0
  closed : world.session.marks = []

theorem runTopLevel_unopened
    {fn : TransactionWorld Effect → Bool × TransactionWorld Effect}
    (opening : failures.opening = true) (world : TransactionWorld Effect) :
    (runTopLevel failures fn world).2.transactionDepth =
      world.transactionDepth + 1 := by
  simp only [runTopLevel, opening, issue_failing, if_true,
    TransactionWorld.deeper]

theorem runTopLevel_opened
    {fn : TransactionWorld Effect → Bool × TransactionWorld Effect}
    (opening : failures.opening = false) (fresh : Fresh world) :
    runTopLevel failures fn world =
      let result := fn (transactionOpened world)
      let finished :=
        if result.1 then issue .commit failures.closing result.2 else result
      let settled :=
        if finished.1 then finished
        else (false, (issue .rollback failures.rollback finished.2).2)
      (settled.1, settled.2.shallower) := by
  obtain ⟨depth, seq, ⟨content, marks⟩⟩ := world
  have none_open : marks = [] := fresh.closed
  subst none_open
  have opened : issue .begin false
      (⟨depth, seq, ⟨content, []⟩⟩ :
        TransactionWorld Effect).deeper =
      (true, transactionOpened ⟨depth, seq, ⟨content, []⟩⟩) := rfl
  simp only [runTopLevel, opening, opened, Bool.true_eq_false, if_false]

theorem transaction_behind {world after : TransactionWorld Effect}
    {growth : List Effect} {unopened : Nat}
    (ran : RanInside (transactionOpened world) after growth unopened) :
    ∃ inner, after.session = ⟨world.session.content ++ growth,
      inner ++ [⟨none, world.session.content⟩]⟩ := by
  obtain ⟨inner, marks, _⟩ := ran.marks
  have content := ran.content
  obtain ⟨depth, seq, ⟨kept, open_⟩⟩ := after
  change kept = world.session.content ++ growth at content
  change open_ = inner ++ _ at marks
  exact ⟨inner, by rw [content, marks]; rfl⟩

/-- The depth, content and marks behind a transaction that could be opened. -/
structure TopLevelEnd (failures : ScopeFailures) (returned : Bool)
    (growth : List Effect) (unopened : Nat)
    (before after : TransactionWorld Effect) : Prop where
  depth : after.transactionDepth = before.transactionDepth + unopened
  content : after.session.content =
    before.session.content ++ failures.remains returned growth
  closed : after.session.marks = [] ↔
    (failures.completes returned = true ∨ failures.rollback = false)

theorem rollback_behind {returned : Bool}
    {world after : TransactionWorld Effect} {growth : List Effect}
    {unopened : Nat} (opening : failures.opening = false)
    (failed : failures.completes returned = false)
    (ran : RanInside (transactionOpened world) after growth unopened) :
    TopLevelEnd failures returned growth unopened world
      (issue .rollback failures.rollback after).2.shallower := by
  obtain ⟨inner, session⟩ := transaction_behind ran
  have depth : after.transactionDepth - 1 =
      world.transactionDepth + unopened := by
    have depth := ran.depth
    have deeper : (transactionOpened world).transactionDepth =
        world.transactionDepth + 1 := rfl
    omega
  by_cases stuck : failures.rollback = true
  · rw [stuck, issue_failing]
    constructor
    · exact depth
    · simp only [TransactionWorld.shallower, session, ScopeFailures.remains,
        opening, failed, stuck, Bool.false_eq_true, if_false, if_true]
    · simp [TransactionWorld.shallower, session, failed, stuck]
  · have rolled : failures.rollback = false := by simpa using stuck
    have back : SqlSession.execute after.session
        .rollback = some ⟨world.session.content, []⟩ := by
      rw [session]
      exact SqlSession.rollback_append _ _ _
    rw [rolled, issue_done back]
    constructor
    · exact depth
    · simp only [TransactionWorld.shallower, ScopeFailures.remains, opening,
        failed, rolled, Bool.false_eq_true, if_false, List.append_nil]
    · simp [TransactionWorld.shallower, rolled]

theorem runTopLevel_end
    {fn : TransactionWorld Effect → Bool × TransactionWorld Effect}
    {returned : Bool} {growth : List Effect} {unopened : Nat}
    (runs : RunsInside fn returned growth unopened)
    (opening : failures.opening = false) (fresh : Fresh world) :
    TopLevelEnd failures returned growth unopened world
      (runTopLevel failures fn world).2 := by
  rw [runTopLevel_opened opening fresh]
  have opened : (transactionOpened world).transactionDepth =
      world.transactionDepth + 1 := rfl
  have deeper : 0 < (transactionOpened world).transactionDepth := by
    rw [opened, fresh.depth]
    decide
  obtain ⟨returns, ran⟩ := runs (transactionOpened world) deeper
  obtain ⟨inner, session⟩ := transaction_behind ran
  cases returned with
  | false =>
      have failed : failures.completes false = false := by
        simp [ScopeFailures.completes]
      simp only [returns, Bool.false_eq_true, if_false]
      exact rollback_behind opening failed ran
  | true =>
      simp only [returns, if_true]
      cases closing : failures.closing with
      | true =>
          have failed : failures.completes true = false := by
            simp [ScopeFailures.completes, closing]
          simp only [issue_failing, Bool.false_eq_true, if_false]
          exact rollback_behind opening failed ran
      | false =>
          have completed : failures.completes true = true := by
            simp [ScopeFailures.completes, opening, closing]
          have committed : SqlSession.execute
              (fn (transactionOpened world)).2.session .commit =
              some ⟨world.session.content ++ growth, []⟩ := by
            rw [session]
            exact SqlSession.commit_append _ _ _
          simp only [issue_done committed, if_true]
          constructor
          · have depth := ran.depth
            simp only [TransactionWorld.shallower]
            omega
          · simp only [TransactionWorld.shallower, ScopeFailures.remains,
              opening, completed, Bool.false_eq_true, if_false, if_true]
          · simp [TransactionWorld.shallower, completed]

/-- What the manager promises of an outermost call: it is where it was, the
effects of the scopes that succeeded are there and no others, and its next call
starts a transaction of its own. -/
structure Settled (mode : D1TransactionMode) (failures : ScopeFailures)
    (callback : Callback Effect) (before after : TransactionWorld Effect) :
    Prop where
  depth : after.transactionDepth = before.transactionDepth
  closed : after.session.marks = []
  content : after.session.content = before.session.content ++
    (if failures.completes callback.succeeds then callback.kept else [])
  fresh : ∀ (failures : ScopeFailures) (callback : Callback Effect),
    runScope mode none failures callback after =
      runTopLevel failures (runCallback mode none callback) after

/-- No `BEGIN` or `SAVEPOINT` fails, the transaction can be rolled back if it
fails, and if it does not, the failed scopes in it are undone. -/
structure Recovers (failures : ScopeFailures) (callback : Callback Effect) :
    Prop where
  opening : failures.opening = false
  savepoints : callback.unopened = 0
  rollback : failures.completes callback.succeeds = false →
    failures.rollback = false
  undone : failures.completes callback.succeeds = true → callback.Undone

theorem runScope_outermost (issues : mode.Issues) (failures : ScopeFailures)
    (callback : Callback Effect) (outside : world.transactionDepth = 0) :
    runScope mode none failures callback world =
      runTopLevel failures (runCallback mode none callback) world :=
  runInTransaction_outermost issues outside

theorem Settled.recovers (issues : mode.Issues) {callback : Callback Effect}
    (fresh : Fresh world)
    (settled : Settled mode failures callback world
      (runScope mode none failures callback world).2) :
    Recovers failures callback := by
  have run := runScope_outermost issues failures callback fresh.depth
  have depth := settled.depth
  by_cases opening : failures.opening = true
  · rw [run, runTopLevel_unopened opening] at depth
    omega
  · have opened : failures.opening = false := by simpa using opening
    have ended := runTopLevel_end (runCallback_runs issues callback) opened fresh
    rw [← run] at ended
    constructor
    · exact opened
    · have counted := ended.depth
      omega
    · intro failed
      rcases ended.closed.mp settled.closed with completed | rolled
      · rw [completed] at failed
        cases failed
      · exact rolled
    · intro completed
      have content := settled.content
      rw [ended.content, ScopeFailures.remains, if_neg opening, if_pos completed,
        if_pos completed] at content
      have same := List.append_cancel_left content
      exact callback.kept_inForce.2.1 (by rw [same])

theorem Recovers.settled (issues : mode.Issues) {callback : Callback Effect}
    (fresh : Fresh world) (recovers : Recovers failures callback) :
    Settled mode failures callback world
      (runScope mode none failures callback world).2 := by
  have run := runScope_outermost issues failures callback fresh.depth
  have opened := recovers.opening
  have ended := runTopLevel_end (runCallback_runs issues callback) opened fresh
  rw [← run, recovers.savepoints] at ended
  have depth : (runScope mode none failures callback world).2.transactionDepth =
      world.transactionDepth := by
    have counted := ended.depth
    omega
  constructor
  · exact depth
  · apply ended.closed.mpr
    by_cases completed : failures.completes callback.succeeds = true
    · exact .inl completed
    · exact .inr (recovers.rollback (by simpa using completed))
  · rw [ended.content, ScopeFailures.remains, if_neg (by simp [opened])]
    by_cases completed : failures.completes callback.succeeds = true
    · rw [if_pos completed, if_pos completed,
        callback.kept_inForce.2.2 (recovers.undone completed)]
    · rw [if_neg completed, if_neg completed,
        recovers.rollback (by simpa using completed)]
      rfl
  · intro failures callback
    exact runScope_outermost issues failures callback (depth.trans fresh.depth)

end Scopes

section Witnesses

def emptyWorld : TransactionWorld Nat := ⟨0, 0, ⟨[], []⟩⟩

theorem emptyWorld_fresh : Fresh emptyWorld := ⟨rfl, rfl⟩

/-- A scope whose callback fails in a nested scope that is rolled back. -/
def caughtFailure : Callback Nat :=
  .write 1 false fun _ => .nested ⟨false, false, false, false⟩
    (.write 2 false fun _ => .throws) fun _ => .returns

end Witnesses

end Takos.LocalPlatform
