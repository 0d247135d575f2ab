import Mathlib.Data.List.Induction

/-!
# Batches of prepared statements

Both SQL adapters run a batch as one statement after another, each of them a
call of its own: the statements of other writers run between them, and a
failure leaves what was done before it.  Such a batch is atomic exactly when no
statement but the last has an effect.
-/

namespace Takos.LocalPlatform

variable {Db Result : Type}

/-- A statement with its values.  It is rejected, and the database stays, or it
gives the next database and a result. -/
structure PreparedStatement (Db Result : Type) where
  execute : Db → Option (Db × Result)

/-- A call on the database that may fail and keeps what it did before. -/
abbrev SqlCall (Db Value : Type) := ExceptT Unit (StateM Db) Value

def PreparedStatement.run (statement : PreparedStatement Db Result) :
    SqlCall Db Result :=
  ExceptT.mk fun db =>
    match statement.execute db with
    | some (next, result) => (.ok result, next)
    | none => (.error (), db)

def createSequentialBatch {Statement Value : Type} {Call : Type → Type}
    [Monad Call] (runStatement : Statement → Call Value)
    (statements : List Statement) : Call (List Value) :=
  collect statements []
where
  collect (statements : List Statement) (results : List Value) :
      Call (List Value) :=
    match statements with
    | [] => pure results
    | statement :: rest => do
      let result ← runStatement statement
      collect rest (results ++ [result])

structure SqlDatabaseBinding (Db Result : Type) where
  batch : List (PreparedStatement Db Result) → SqlCall Db (List Result)

def createSqliteSqlDatabase : SqlDatabaseBinding Db Result where
  batch := createSequentialBatch PreparedStatement.run

def createPostgresSqlDatabase : SqlDatabaseBinding Db Result where
  batch := createSequentialBatch PreparedStatement.run

/-- The state of one call of `batch`.  `seen` holds the statements of other
writers since its start, each with the database that it ran on. -/
structure BatchCall (Db Result : Type) where
  db : Db
  remaining : List (PreparedStatement Db Result)
  results : List Result
  failed : Bool
  seen : List (Db × (Db → Db))

/-- The next statement of the batch runs, or fails for a reason outside the
database, or a statement of another writer runs. -/
inductive BatchMove (Db : Type) where
  | statement
  | fault
  | other (write : Db → Db)

namespace BatchCall

def start (statements : List (PreparedStatement Db Result)) (db : Db) :
    BatchCall Db Result := ⟨db, statements, [], false, []⟩

def Settled (call : BatchCall Db Result) : Prop :=
  call.failed = true ∨ call.remaining = []

def step (call : BatchCall Db Result) : BatchMove Db → BatchCall Db Result
  | .statement =>
    match call.failed, call.remaining with
    | false, statement :: rest =>
      match statement.execute call.db with
      | some (next, result) =>
        { call with
          db := next
          remaining := rest
          results := call.results ++ [result] }
      | none => { call with failed := true }
    | _, _ => call
  | .fault =>
    match call.remaining with
    | [] => call
    | _ :: _ => { call with failed := true }
  | .other write =>
    { call with
      db := write call.db
      seen := call.seen ++ [(call.db, write)] }

def play (call : BatchCall Db Result) (moves : List (BatchMove Db)) :
    BatchCall Db Result :=
  moves.foldl step call

@[simp]
theorem play_nil (call : BatchCall Db Result) : call.play [] = call := rfl

@[simp]
theorem play_cons (call : BatchCall Db Result) (move : BatchMove Db)
    (moves : List (BatchMove Db)) :
    call.play (move :: moves) = (call.step move).play moves := rfl

theorem play_append (call : BatchCall Db Result)
    (first second : List (BatchMove Db)) :
    call.play (first ++ second) = (call.play first).play second :=
  List.foldl_append

theorem play_failed {call : BatchCall Db Result} (failed : call.failed = true)
    (count : Nat) : call.play (List.replicate count .statement) = call := by
  induction count with
  | zero => rfl
  | succ count ih =>
      have idle : call.step .statement = call := by
        simp only [step, failed]
      rw [List.replicate_succ, play_cons, idle, ih]

theorem collect_cons (statement : PreparedStatement Db Result)
    (rest : List (PreparedStatement Db Result)) (results : List Result)
    (db : Db) :
    (createSequentialBatch.collect PreparedStatement.run (statement :: rest)
        results).run.run db =
      match statement.execute db with
      | some (next, result) =>
        (createSequentialBatch.collect PreparedStatement.run rest
          (results ++ [result])).run.run next
      | none => (.error (), db) := by
  have ran : statement.run.run.run db =
      match statement.execute db with
      | some (next, result) => (.ok result, next)
      | none => (.error (), db) := rfl
  rw [createSequentialBatch.collect]
  simp only [ExceptT.run_bind, StateT.run_bind, ran]
  cases statement.execute db with
  | none | some => rfl

/-- With no other writer and no fault from outside, the moves are the loop of
the source. -/
theorem collect_eq_play (call : BatchCall Db Result)
    (running : call.failed = false) :
    let done := call.play (List.replicate call.remaining.length .statement)
    (createSequentialBatch.collect PreparedStatement.run call.remaining
      call.results).run.run call.db =
        (if done.failed then .error () else .ok done.results, done.db) := by
  obtain ⟨db, remaining, results, failed, seen⟩ := call
  cases running
  induction remaining generalizing db results with
  | nil => rfl
  | cons statement rest ih =>
      dsimp only at ih ⊢
      rw [collect_cons, List.length_cons, List.replicate_succ, play_cons]
      cases outcome : statement.execute db with
      | none =>
          have stopped : (BatchCall.mk db (statement :: rest) results false
              seen).step .statement =
                ⟨db, statement :: rest, results, true, seen⟩ := by
            simp only [step, outcome]
          rw [stopped, play_failed rfl]
          rfl
      | some taken =>
          obtain ⟨next, result⟩ := taken
          have taken : (BatchCall.mk db (statement :: rest) results false
              seen).step .statement =
                ⟨next, rest, results ++ [result], false, seen⟩ := by
            simp only [step, outcome]
          rw [taken]
          exact ih next (results ++ [result])

end BatchCall

/-- Writers one after another, each with the database that it runs on. -/
def observed (db : Db) : List (Db → Db) → List (Db × (Db → Db))
  | [] => []
  | write :: rest => (db, write) :: observed (write db) rest

def applyWrites (db : Db) (writes : List (Db → Db)) : Db :=
  writes.foldl (fun db write => write db) db

theorem observed_append (db : Db) (first second : List (Db → Db)) :
    observed db (first ++ second) =
      observed db first ++ observed (applyWrites db first) second := by
  induction first generalizing db with
  | nil => rfl
  | cons write rest ih =>
      rw [List.cons_append, observed, observed, ih]
      rfl

theorem applyWrites_append (db : Db) (first second : List (Db → Db)) :
    applyWrites db (first ++ second) =
      applyWrites (applyWrites db first) second :=
  List.foldl_append

theorem writes_observed (db : Db) (writes : List (Db → Db)) :
    (observed db writes).map Prod.snd = writes := by
  induction writes generalizing db with
  | nil => rfl
  | cons write rest ih =>
      rw [observed, List.map_cons, ih]

def PreparedStatement.effect (statement : PreparedStatement Db Result)
    (db : Db) : Db :=
  match statement.execute db with
  | some (next, _) => next
  | none => db

/-- The statements take place at one moment, between two statements of other
writers, or not at all where one of them fails. -/
def AtomicBatch (statements : List (PreparedStatement Db Result)) (db : Db)
    (call : BatchCall Db Result) : Prop :=
  ∃ early late behind,
    behind = (if call.failed then applyWrites db early
      else applyWrites (applyWrites db early)
        (statements.map PreparedStatement.effect)) ∧
    call.seen = observed db early ++ observed behind late ∧
      call.db = applyWrites behind late

theorem AtomicBatch.failed {statements : List (PreparedStatement Db Result)}
    {db : Db} {call : BatchCall Db Result}
    (atomic : AtomicBatch statements db call) (failed : call.failed = true) :
    call.db = applyWrites db (call.seen.map Prod.snd) := by
  obtain ⟨early, late, behind, moment, seen, final⟩ := atomic
  rw [if_pos failed] at moment
  rw [moment] at seen final
  rw [seen, List.map_append, writes_observed, writes_observed,
    applyWrites_append]
  exact final

/-- The statement changes no database that accepts it. -/
def PreparedStatement.Reads (statement : PreparedStatement Db Result) : Prop :=
  ∀ db next result, statement.execute db = some (next, result) → next = db

/-- Some database accepts the statement. -/
def PreparedStatement.Runs (statement : PreparedStatement Db Result) : Prop :=
  ∃ db next result, statement.execute db = some (next, result)

/-- Every statement that another one follows is a read, unless one in front of
it fails on every database. -/
def EffectLast (statements : List (PreparedStatement Db Result)) : Prop :=
  ∀ front statement back, statements = front ++ statement :: back →
    back ≠ [] → (∀ earlier ∈ front, earlier.Runs) → statement.Reads

theorem PreparedStatement.Reads.effect {statement : PreparedStatement Db Result}
    (reads : statement.Reads) (db : Db) : statement.effect db = db := by
  unfold PreparedStatement.effect
  split
  · rename_i next result outcome
    exact reads db next result outcome
  · rfl

theorem applyWrites_reads {statements : List (PreparedStatement Db Result)}
    (reads : ∀ statement ∈ statements, statement.Reads) (db : Db) :
    applyWrites db (statements.map PreparedStatement.effect) = db := by
  induction statements generalizing db with
  | nil => rfl
  | cons statement rest ih =>
      rw [List.map_cons, applyWrites, List.foldl_cons,
        (reads statement List.mem_cons_self).effect]
      exact ih (fun other member =>
        reads other (List.mem_cons_of_mem _ member)) db

namespace BatchCall

/-- What has happened to a call whose effects come last. -/
structure Follows (statements : List (PreparedStatement Db Result)) (db : Db)
    (call : BatchCall Db Result) : Prop where
  ran : ∃ front, statements = front ++ call.remaining ∧
    ∀ earlier ∈ front, earlier.Runs
  outcome : (call.seen = observed db (call.seen.map Prod.snd) ∧
      call.db = applyWrites db (call.seen.map Prod.snd) ∧
      (call.remaining = [] → statements = [])) ∨
    (call.remaining = [] ∧ call.failed = false ∧
      AtomicBatch statements db call)

theorem start_follows (statements : List (PreparedStatement Db Result))
    (db : Db) : Follows statements db (start statements db) := by
  refine ⟨⟨[], rfl, ?_⟩, .inl ⟨rfl, rfl, id⟩⟩
  intro earlier member
  cases member

variable {call : BatchCall Db Result}
  {statements : List (PreparedStatement Db Result)}

theorem Follows.atomic {db : Db} (follows : Follows statements db call)
    (settled : call.Settled) : AtomicBatch statements db call := by
  rcases follows.outcome with ⟨seen, final, none⟩ | ⟨_, _, atomic⟩
  · have behind : (if call.failed = true then
        applyWrites db (call.seen.map Prod.snd)
        else applyWrites (applyWrites db (call.seen.map Prod.snd))
          (statements.map PreparedStatement.effect)) =
        applyWrites db (call.seen.map Prod.snd) := by
      rcases settled with failed | finished
      · rw [if_pos failed]
      · rw [none finished]
        exact ite_self _
    refine ⟨call.seen.map Prod.snd, [], _, behind.symm, ?_, final⟩
    rw [observed, List.append_nil]
    exact seen
  · exact atomic

theorem Follows.other {db : Db} (follows : Follows statements db call)
    (write : Db → Db) : Follows statements db (call.step (.other write)) := by
  refine ⟨follows.ran, ?_⟩
  rcases follows.outcome with ⟨seen, final, none⟩ |
      ⟨finished, fine, early, late, behind, moment, seen, final⟩
  · refine .inl ⟨?_, ?_, none⟩
    · show call.seen ++ [(call.db, write)] =
        observed db ((call.seen ++ [(call.db, write)]).map Prod.snd)
      rw [List.map_append, observed_append, ← seen, ← final]
      rfl
    · show write call.db =
        applyWrites db ((call.seen ++ [(call.db, write)]).map Prod.snd)
      rw [List.map_append, applyWrites_append, ← final]
      rfl
  · refine .inr ⟨finished, fine, early, late ++ [write], behind, moment,
      ?_, ?_⟩
    · show call.seen ++ [(call.db, write)] = _
      rw [observed_append, ← List.append_assoc, ← seen, ← final]
      rfl
    · show write call.db = _
      rw [applyWrites_append, ← final]
      rfl

theorem Follows.fault {db : Db} (follows : Follows statements db call) :
    Follows statements db (call.step .fault) := by
  cases left : call.remaining with
  | nil =>
      have idle : call.step .fault = call := by
        simp only [step, left]
      rw [idle]
      exact follows
  | cons statement rest =>
      have failed : call.step .fault = { call with failed := true } := by
        simp only [step, left]
      rw [failed]
      refine ⟨follows.ran, ?_⟩
      rcases follows.outcome with early | ⟨finished, _⟩
      · exact .inl early
      · rw [left] at finished
        cases finished

theorem Follows.running {db : Db} (follows : Follows statements db call)
    (left : call.remaining = statement :: rest) :
    call.seen = observed db (call.seen.map Prod.snd) ∧
      call.db = applyWrites db (call.seen.map Prod.snd) := by
  rcases follows.outcome with ⟨seen, final, _⟩ | ⟨finished, _⟩
  · exact ⟨seen, final⟩
  · rw [left] at finished
    cases finished

theorem EffectLast.front_reads {front rest : List (PreparedStatement Db Result)}
    (last : EffectLast (front ++ statement :: rest))
    (ran : ∀ earlier ∈ front, earlier.Runs) :
    ∀ earlier ∈ front, earlier.Reads := by
  intro earlier member
  obtain ⟨first, second, split⟩ := List.append_of_mem member
  apply last first earlier (second ++ statement :: rest)
  · rw [split, List.append_assoc]
    rfl
  · exact List.append_ne_nil_of_right_ne_nil _ (List.cons_ne_nil _ _)
  · intro before inside
    apply ran before
    rw [split]
    exact List.mem_append_left _ inside

theorem Follows.accepted (last : EffectLast statements) {db next : Db}
    (follows : Follows statements db call) (failed : call.failed = false)
    (left : call.remaining = statement :: rest)
    (outcome : statement.execute call.db = some (next, result)) :
    Follows statements db
      { call with
        db := next
        remaining := rest
        results := call.results ++ [result] } := by
  obtain ⟨seen, final⟩ := follows.running left
  obtain ⟨front, whole, ran⟩ := follows.ran
  rw [left] at whole
  subst whole
  refine ⟨⟨front ++ [statement], by simp, ?_⟩, ?_⟩
  · intro earlier member
    rcases List.mem_append.mp member with old | new
    · exact ran earlier old
    · rw [List.mem_singleton.mp new]
      exact ⟨call.db, next, result, outcome⟩
  by_cases more : rest = []
  · apply Or.inr
    have applied : applyWrites (applyWrites db (call.seen.map Prod.snd))
        ((front ++ statement :: rest).map PreparedStatement.effect) = next := by
      rw [more, List.map_append, applyWrites_append,
        applyWrites_reads (EffectLast.front_reads last ran), ← final]
      simp only [List.map_cons, List.map_nil, applyWrites,
        List.foldl_cons, List.foldl_nil, PreparedStatement.effect, outcome]
    refine ⟨more, failed, call.seen.map Prod.snd, [], next, ?_, ?_, rfl⟩
    · rw [if_neg (by rw [failed]; exact Bool.false_ne_true), applied]
    · rw [observed, List.append_nil]
      exact seen
  · have same := last front statement rest rfl more ran call.db next result
      outcome
    apply Or.inl
    refine ⟨seen, same.trans final, ?_⟩
    intro finished
    exact absurd finished more

theorem Follows.statement (last : EffectLast statements) {db : Db}
    (follows : Follows statements db call) :
    Follows statements db (call.step .statement) := by
  cases failed : call.failed with
  | true =>
      have idle : call.step .statement = call := by
        simp only [step, failed]
      rw [idle]
      exact follows
  | false =>
      cases left : call.remaining with
      | nil =>
          have idle : call.step .statement = call := by
            simp only [step, failed, left]
          rw [idle]
          exact follows
      | cons statement rest =>
          obtain ⟨seen, final⟩ := follows.running left
          cases outcome : statement.execute call.db with
          | none =>
              have rejected : call.step .statement =
                  { call with failed := true } := by
                simp only [step, failed, left, outcome]
              rw [rejected]
              refine ⟨follows.ran, .inl ⟨seen, final, ?_⟩⟩
              intro finished
              rw [left] at finished
              cases finished
          | some taken =>
              obtain ⟨next, result⟩ := taken
              have accepted : call.step .statement =
                  { call with
                    db := next
                    remaining := rest
                    results := call.results ++ [result] } := by
                simp only [step, failed, left, outcome]
              rw [accepted]
              exact follows.accepted last failed left outcome

theorem play_follows (last : EffectLast statements) (db : Db)
    (moves : List (BatchMove Db)) :
    Follows statements db ((start statements db).play moves) := by
  induction moves using List.reverseRecOn with
  | nil => exact start_follows statements db
  | append_singleton moves move ih =>
      rw [play_append]
      cases move with
      | statement => exact ih.statement last
      | fault => exact ih.fault
      | other write => exact ih.other write

/-- Other writers lead the call to any of its statements, if each of those in
front of it is accepted somewhere. -/
theorem reaches {front : List (PreparedStatement Db Result)}
    (ran : ∀ earlier ∈ front, earlier.Runs)
    (back : List (PreparedStatement Db Result)) (call : BatchCall Db Result)
    (running : call.failed = false) (left : call.remaining = front ++ back) :
    ∃ moves, (call.play moves).failed = false ∧
      (call.play moves).remaining = back := by
  induction front generalizing call with
  | nil => exact ⟨[], running, left⟩
  | cons statement rest ih =>
      obtain ⟨db, next, result, outcome⟩ := ran statement List.mem_cons_self
      let prepared := call.step (.other fun _ => db)
      have accepted : prepared.step .statement =
          { prepared with
            db := next
            remaining := rest ++ back
            results := prepared.results ++ [result] } := by
        have running : prepared.failed = false := running
        have left : prepared.remaining = statement :: (rest ++ back) := left
        have outcome : statement.execute prepared.db = some (next, result) :=
          outcome
        simp only [step, running, left, outcome]
      obtain ⟨moves, fine, remaining⟩ := ih
        (fun earlier member => ran earlier (List.mem_cons_of_mem _ member))
        (prepared.step .statement) (by rw [accepted]; exact running)
        (by rw [accepted])
      exact ⟨.other (fun _ => db) :: .statement :: moves, fine, remaining⟩

end BatchCall

/-- A batch is atomic among any other writers and for any failing statement,
exactly when its effects come last. -/
theorem batch_atomic_iff (statements : List (PreparedStatement Db Result)) :
    (∀ db moves, ((BatchCall.start statements db).play moves).Settled →
        AtomicBatch statements db
          ((BatchCall.start statements db).play moves)) ↔
      EffectLast statements := by
  constructor
  · intro atomic front statement back whole more ran db next result outcome
    obtain ⟨moves, running, left⟩ := BatchCall.reaches ran
      (statement :: back) (BatchCall.start statements db) rfl whole
    let reached := (BatchCall.start statements db).play moves
    let prepared := reached.step (.other fun _ => db)
    -- the statement takes place on the chosen database, and the next one fails
    have accepted : (prepared.step .statement).step .fault =
        { prepared with
          db := next
          remaining := back
          results := prepared.results ++ [result]
          failed := true } := by
      obtain ⟨second, rest, rfl⟩ := List.exists_cons_of_ne_nil more
      have running : prepared.failed = false := running
      have left : prepared.remaining = statement :: second :: rest := left
      have outcome : statement.execute prepared.db = some (next, result) :=
        outcome
      simp only [BatchCall.step, running, left, outcome]
    have played : (BatchCall.start statements db).play
        (moves ++ [.other fun _ => db, .statement, .fault]) =
          (prepared.step .statement).step .fault := by
      rw [BatchCall.play_append]
      rfl
    have settled := atomic db
      (moves ++ [.other fun _ => db, .statement, .fault])
    rw [played, accepted] at settled
    have final := (settled (.inl rfl)).failed rfl
    have writes : prepared.seen.map Prod.snd =
        reached.seen.map Prod.snd ++ [fun _ => db] := by
      show (reached.seen ++ [(reached.db, fun _ => db)]).map Prod.snd = _
      rw [List.map_append]
      rfl
    dsimp only at final
    rw [writes, applyWrites_append] at final
    exact final
  · intro last db moves settled
    exact (BatchCall.play_follows last db moves).atomic settled

namespace LostRollback

def insertRow (row : Nat) : PreparedStatement (List Nat) Unit where
  execute rows := if row ∈ rows then none else some (rows ++ [row], ())

/-- The second statement is rejected, and the row of the first one stays. -/
theorem batch_leaves_prefix :
    ¬∀ (statements : List (PreparedStatement (List Nat) Unit)) db moves,
      ((BatchCall.start statements db).play moves).Settled →
        AtomicBatch statements db
          ((BatchCall.start statements db).play moves) := by
  intro atomic
  have settled := atomic [insertRow 1, insertRow 1] []
    [.statement, .statement] (.inl (by decide))
  have restored := settled.failed (by decide)
  exact absurd restored (by decide)

example : createSqliteSqlDatabase.batch [insertRow 1, insertRow 1] [] =
    (.error (), [1]) := rfl

end LostRollback

end Takos.LocalPlatform
