import Takos.Foundation.Interleaving
import Takos.MemoryGraph.PathExactness
import Takos.MemoryGraph.TenantIsolation

/-!
# Builds of paths that overlap

A build deletes the paths of its account and inserts its own one by one, and
nothing ties these statements together.  From its deletion on a build writes;
as long as one build writes at a time and to its end, the stored paths are
those of a build that has succeeded.
-/

namespace Takos.MemoryGraph

open Takos.Foundation

variable {accountId : Text}

abbrev BuildScript (accountId : Text) :=
  Script accountId (Option BuildMemoryPathsResult)

/-- The build with its two reads of claims the other way round, which
`Promise.all` leaves open. -/
def buildMemoryPathsSourceFirst (collation : Collation) (ids : Nat → Text)
    (now : Text) (options : BuildMemoryPathsOptions) : BuildScript accountId :=
  (readSourceRunClaims options).bind fun sourceRunClaims =>
  (Script.readClaims (.getActiveClaims accountId options.maxClaims)
    (.refl accountId)).bind fun activeClaims =>
      buildAfterClaims collation ids now options activeClaims sourceRunClaims

/-- A build with the statements that it has issued, or a change of claims and
edges. -/
inductive GraphCall (accountId : Text) where
  | build (issued : List GraphStatement) (script : BuildScript accountId)
  | change (alter : GraphStore → GraphStore)

inductive GraphResult where
  | built (issued : List GraphStatement)
      (result : Option BuildMemoryPathsResult)
  | changed

def GraphCall.statement (call : GraphCall accountId) (store : GraphStore) :
    GraphStore × Outcome (GraphCall accountId) GraphResult :=
  match call with
  | .change alter => (alter store, .done .changed)
  | .build issued (.done result) => (store, .done (.built issued result))
  | .build issued (.ask statement _ next) =>
    ((execute statement store).1,
      .next (.build (issued ++ [statement]) (next (execute statement store).2)))

def GraphCall.starts (collation : Collation) : GraphCall accountId → Prop
  | .change alter => ∀ store, (alter store).paths = store.paths
  | .build issued script => issued = [] ∧ ∃ ids now options,
    script = buildMemoryPaths collation ids now options ∨
      script = buildMemoryPathsSourceFirst collation ids now options

def graphCalls (collation : Collation) :
    Program GraphStore (GraphCall accountId) GraphResult :=
  ⟨GraphCall.starts collation, GraphCall.statement⟩

def GraphStore.pathsOf (store : GraphStore) (accountId : Text) :
    List ClaimPath :=
  (store.paths.ownedBy ClaimPath.accountId accountId).values

def insertedPaths (issued : List GraphStatement) : List ClaimPath :=
  issued.filterMap fun statement =>
    match statement with
    | .insertPath path => some path
    | _ => none

def GraphStatement.deletesPaths : GraphStatement → Bool
  | .deletePathsForAccount _ => true
  | _ => false

/-- The build has deleted the paths of its account. -/
def GraphCall.writes : GraphCall accountId → Bool
  | .build issued _ => issued.any GraphStatement.deletesPaths
  | .change _ => false

def ClaimPath.route (path : ClaimPath) : List Text × List Text :=
  (path.pathClaims, path.pathRelations)

def PathCandidate.route (candidate : PathCandidate) : List Text × List Text :=
  (candidate.pathClaims, candidate.pathRelations)

/-- The paths are those of one build that has succeeded, each once, or those
from before any has. -/
def StoredOnce (first : List ClaimPath) (paths : List ClaimPath)
    (results : List GraphResult) : Prop :=
  (paths.map ClaimPath.route).Nodup ∧
    ((paths = first ∧ ∀ issued report,
        .built issued (some report) ∉ results) ∨
      ∃ issued report, .built issued (some report) ∈ results ∧
        paths = insertedPaths issued)

/-- No build begins to write while another writes, none that writes fails, and
no id of a path is taken. -/
def OneWriter (store : GraphStore) :
    Program.Event (GraphCall accountId) → List (GraphCall accountId) → Prop
  | .run (.build _ (.ask (.deletePathsForAccount _) _ _)), others =>
    ∀ other ∈ others, other.writes = false
  | .run (.build _ (.ask (.insertPath path) _ _)), _ =>
    store.paths.get? path.id = none
  | .fail call, _ => call.writes = false
  | _, _ => True

def GraphStatement.ReadsGraph (statement : GraphStatement) : Prop :=
  statement.deletesPaths = false ∧ insertedPaths [statement] = [] ∧
    ∀ store, (execute statement store).1 = store

/-- What is left of a build that has yet to insert these. -/
def insertsLeft (report : BuildMemoryPathsResult) (ids : Nat → Text)
    (now : Text) (count : Nat) (rest : List PathCandidate) :
    BuildScript accountId :=
  (insertPaths ids now count rest).bind fun succeeded =>
    .done (if succeeded then some report else none)

/-- It reads, and then deletes and inserts distinct paths. -/
inductive Builds : BuildScript accountId → Prop where
  | read {statement : GraphStatement}
      {own : statement.accountId = accountId}
      {next : GraphResponse → BuildScript accountId} :
      statement.ReadsGraph → (∀ response, Builds (next response)) →
      Builds (.ask statement own next)
  | write (report : BuildMemoryPathsResult) (ids : Nat → Text) (now : Text)
      {candidates : List PathCandidate} :
      (candidates.map PathCandidate.route).Nodup →
      Builds (.ask (.deletePathsForAccount accountId) rfl fun _ =>
        insertsLeft report ids now 0 candidates)

theorem Builds.readClaims {statement : GraphStatement}
    {own : statement.accountId = accountId}
    {rest : List Claim → BuildScript accountId}
    (reads : statement.ReadsGraph) (builds : ∀ rows, Builds (rest rows)) :
    Builds ((Script.readClaims statement own).bind rest) := by
  apply Builds.read reads
  intro response
  cases response <;> exact builds _

theorem builds_afterClaims (collation : Collation) (ids : Nat → Text)
    (now : Text) (options : BuildMemoryPathsOptions)
    (activeClaims sourceRunClaims : List Claim) :
    Builds (buildAfterClaims collation ids now options activeClaims
      sourceRunClaims : BuildScript accountId) := by
  apply Builds.read ⟨rfl, rfl, fun _ => rfl⟩
  intro response
  cases response <;> exact Builds.write _ ids now
    ((List.take_sublist _ _).map _ |>.nodup routes_nodup)

theorem builds_start {collation : Collation} {ids : Nat → Text} {now : Text}
    {options : BuildMemoryPathsOptions} {script : BuildScript accountId}
    (starts : script = buildMemoryPaths collation ids now options ∨
      script = buildMemoryPathsSourceFirst collation ids now options) :
    Builds script := by
  have active : (GraphStatement.getActiveClaims accountId
      options.maxClaims).ReadsGraph := ⟨rfl, rfl, fun _ => rfl⟩
  have source : ∀ rest : List Claim → BuildScript accountId,
      (∀ rows, Builds (rest rows)) →
      Builds ((readSourceRunClaims options).bind rest) := by
    intro rest builds
    unfold readSourceRunClaims
    split
    · exact builds []
    · exact Builds.readClaims ⟨rfl, rfl, fun _ => rfl⟩ builds
  rcases starts with rfl | rfl
  · apply Builds.readClaims active
    intro activeClaims
    exact source _ fun _ => builds_afterClaims _ _ _ _ _ _
  · apply source
    intro sourceRunClaims
    exact Builds.readClaims active fun _ => builds_afterClaims _ _ _ _ _ _

/-- A change, or a build that has yet to delete the paths. -/
inductive GraphCall.Reads : GraphCall accountId → Prop where
  | change {alter : GraphStore → GraphStore} :
      (∀ store, (alter store).paths = store.paths) → Reads (.change alter)
  | build {issued : List GraphStatement} {script : BuildScript accountId} :
      issued.any GraphStatement.deletesPaths = false →
      insertedPaths issued = [] → Builds script →
      Reads (.build issued script)

/-- What a build that has deleted the paths has inserted is stored. -/
inductive GraphCall.Writes (store : GraphStore) : GraphCall accountId → Prop
    where
  | build {issued : List GraphStatement} (report : BuildMemoryPathsResult)
      (ids : Nat → Text) (now : Text) (count : Nat)
      {rest : List PathCandidate} :
      issued.any GraphStatement.deletesPaths = true →
      store.pathsOf accountId = insertedPaths issued →
      ((insertedPaths issued).map ClaimPath.route ++
        rest.map PathCandidate.route).Nodup →
      Writes store (.build issued (insertsLeft report ids now count rest))

inductive OneWriterHolds (first : List ClaimPath) (store : GraphStore)
    (calls : List (GraphCall accountId)) (results : List GraphResult) :
    Prop where
  | idle :
      (∀ call ∈ calls, call.Reads) →
      StoredOnce first (store.pathsOf accountId) results →
      OneWriterHolds first store calls results
  | writing {call : GraphCall accountId} {others : List (GraphCall accountId)} :
      calls.Perm (call :: others) → (∀ other ∈ others, other.Reads) →
      call.Writes store → OneWriterHolds first store calls results

section Runs

variable {first : List ClaimPath} {store after : GraphStore}
  {calls others : List (GraphCall accountId)} {results : List GraphResult}
  {call : GraphCall accountId}

theorem GraphStore.pathsOf_deleted (store : GraphStore) :
    (store.deletePathsForAccount accountId).pathsOf accountId = [] := by
  simp [GraphStore.pathsOf, GraphStore.deletePathsForAccount,
    OrderedMap.ownedBy_disown_self, OrderedMap.values, OrderedMap.empty]

theorem execute_insertPath {path : ClaimPath}
    (free : store.paths.get? path.id = none)
    (own : path.accountId = accountId) :
    (execute (.insertPath path) store).2 = .written ∧
      (execute (.insertPath path) store).1.pathsOf accountId =
        store.pathsOf accountId ++ [path] := by
  have entries := store.paths.entries_set_of_fresh
    (OrderedMap.get?_eq_none_iff.mp free) path
  simp only [execute, GraphStore.insertPath, free, inserted, true_and,
    GraphStore.pathsOf, OrderedMap.values_ownedBy]
  simp [OrderedMap.values, entries, own]

theorem insertedPaths_append (issued : List GraphStatement)
    (statement : GraphStatement) :
    insertedPaths (issued ++ [statement]) =
      insertedPaths issued ++ insertedPaths [statement] :=
  List.filterMap_append

theorem GraphCall.Writes.busy (writes : call.Writes store) :
    call.writes = true := by
  cases writes with
  | build _ _ _ _ writes => exact writes

namespace OneWriterHolds

theorem perm (same : others.Perm calls)
    (holds : OneWriterHolds first store calls results) :
    OneWriterHolds first store others results := by
  cases holds with
  | idle reads stored =>
      exact .idle (fun call member => reads call (same.mem_iff.mp member))
        stored
  | writing moves reads writes =>
      exact .writing (same.trans moves) reads writes

theorem quiet (holds : OneWriterHolds first store calls results)
    (idle : ∀ call ∈ calls, call.writes = false) :
    (∀ call ∈ calls, call.Reads) ∧
      StoredOnce first (store.pathsOf accountId) results := by
  cases holds with
  | idle reads stored => exact ⟨reads, stored⟩
  | writing moves _ writes =>
      have none := idle _ (moves.mem_iff.mpr (.head _))
      cases none.symm.trans writes.busy

theorem add (reads : call.Reads)
    (holds : OneWriterHolds first store others results) :
    OneWriterHolds first store (call :: others) results := by
  cases holds with
  | idle others stored =>
      exact .idle (List.forall_mem_cons.mpr ⟨reads, others⟩) stored
  | writing moves others writes =>
      exact .writing ((moves.cons _).trans (.swap _ _ _))
        (List.forall_mem_cons.mpr ⟨reads, others⟩) writes

/-- The call at the head reads, and may leave, or it is the one that writes. -/
theorem head_cases
    (holds : OneWriterHolds first store (call :: others) results) :
    call.Reads ∧ OneWriterHolds first store others results ∨
      call.Writes store ∧ ∀ other ∈ others, other.Reads := by
  cases holds with
  | idle reads stored =>
      obtain ⟨own, rest⟩ := List.forall_mem_cons.mp reads
      exact .inl ⟨own, .idle rest stored⟩
  | @writing writer readers moves reads writes =>
      rcases List.mem_cons.mp (moves.mem_iff.mp (.head _)) with rfl | member
      · right
        refine ⟨writes, fun other within => ?_⟩
        exact reads other (moves.cons_inv.mem_iff.mp within)
      · left
        obtain ⟨front, back, rfl⟩ := List.append_of_mem member
        have left := (moves.trans
          ((List.perm_middle.cons _).trans (.swap _ _ _))).cons_inv
        refine ⟨reads call member, .writing left ?_ writes⟩
        intro other within
        exact reads other (List.perm_middle.mem_iff.mpr (.tail _ within))

theorem continuing {rest : GraphCall accountId}
    (holds : OneWriterHolds first store (call :: others) results)
    (permitted : OneWriter store (.run call) others)
    (executed : call.statement store = (after, .next rest)) :
    OneWriterHolds first after (rest :: others) results := by
  rcases holds.head_cases with ⟨reads, staying⟩ | ⟨writes, reads⟩
  · cases reads with
    | change => cases executed
    | @build issued script idle nothing builds =>
        cases builds with
        | @read statement _ _ reads builds =>
            simp only [GraphCall.statement, reads.2.2, Prod.mk.injEq,
              Outcome.next.injEq] at executed
            obtain ⟨rfl, rfl⟩ := executed
            refine staying.add (.build (by simp [idle, reads.1]) ?_ (builds _))
            rw [insertedPaths_append, nothing, reads.2.1]
            rfl
        | write report ids now distinct =>
            cases executed
            have none : insertedPaths (issued ++
                [.deletePathsForAccount accountId]) = [] := by
              rw [insertedPaths_append, nothing]
              rfl
            refine .writing (.refl _) (staying.quiet permitted).1
              (.build report ids now 0 ?_ ?_ ?_)
            · simp [GraphStatement.deletesPaths]
            · exact store.pathsOf_deleted.trans none.symm
            · rw [none]
              exact distinct
  · cases writes with
    | @build issued report ids now count candidates writes stored distinct =>
        cases candidates with
        | nil => cases executed
        | cons candidate candidates =>
            obtain ⟨written, paths⟩ :=
              execute_insertPath permitted (rfl : _ = accountId)
            cases executed
            rw [written]
            refine .writing (.refl _) reads
              (.build report ids now (count + 1) ?_ ?_ ?_)
            · simp [writes]
            · rw [paths, stored, insertedPaths_append]
              rfl
            · rw [insertedPaths_append, List.map_append, List.append_assoc]
              exact distinct

theorem returning {result : GraphResult}
    (holds : OneWriterHolds first store (call :: others) results)
    (executed : call.statement store = (after, .done result)) :
    OneWriterHolds first after others (result :: results) := by
  rcases holds.head_cases with ⟨reads, staying⟩ | ⟨writes, reads⟩
  · cases reads with
    | build _ _ builds => cases builds <;> cases executed
    | @change alter keeps =>
        cases executed
        have same : (alter store).pathsOf accountId =
            store.pathsOf accountId := by
          simp only [GraphStore.pathsOf, keeps store]
        cases staying with
        | idle reads stored =>
            refine .idle reads ?_
            simpa [StoredOnce, same] using stored
        | writing moves reads writes =>
            refine .writing moves reads ?_
            cases writes with
            | build report ids now count writes stored distinct =>
                exact .build report ids now count writes (same.trans stored)
                  distinct
  · cases writes with
    | @build issued report _ _ _ candidates _ stored distinct =>
        cases candidates with
        | cons => cases executed
        | nil =>
            cases executed
            refine .idle reads ⟨?_, .inr ⟨issued, report, .head _, stored⟩⟩
            simpa [stored] using distinct

end OneWriterHolds

/-- The stored paths of an account are those of one build that has succeeded,
each once, in any run in which one build writes at a time and to its end. -/
theorem paths_stored_once (collation : Collation) {initial : GraphStore}
    {reached : Program.Config GraphStore (GraphCall accountId) GraphResult}
    (distinct : ((initial.pathsOf accountId).map ClaimPath.route).Nodup)
    (run : Program.Run (graphCalls collation) OneWriter ⟨initial, [], []⟩
      reached)
    (idle : ∀ call ∈ reached.calls, call.writes = false) :
    StoredOnce (initial.pathsOf accountId)
      (reached.shared.pathsOf accountId) reached.results := by
  refine (@Program.Run.invariant _ _ _ _ _ _ _ (fun config =>
    OneWriterHolds (initial.pathsOf accountId) config.shared config.calls
      config.results) run ?_ ?_).quiet idle |>.2
  · exact .idle nofun ⟨distinct, .inl ⟨rfl, nofun⟩⟩
  intro before event others after holds permitted step
  cases step with
  | @start store _ _ call starts =>
      apply holds.add
      cases call with
      | change alter => exact .change starts
      | build issued script =>
          obtain ⟨rfl, ids, now, options, started⟩ := starts
          exact .build rfl rfl (builds_start started)
  | next executed =>
      apply OneWriterHolds.perm List.perm_middle
      exact (holds.perm List.perm_middle.symm).continuing permitted executed
  | done executed =>
      exact (holds.perm List.perm_middle.symm).returning executed
  | fail =>
      rcases (holds.perm List.perm_middle.symm).head_cases with
        ⟨_, staying⟩ | ⟨writes, _⟩
      · exact staying
      · cases writes.busy.symm.trans permitted

end Runs

namespace TwoBuilds

def store : GraphStore :=
  ⟨.ofList ([idClaim ['a'], idClaim ['b']].map fun claim => (claim.id, claim)),
    .empty, .ofList [([], relates ['a'] ['b'])], .empty⟩

def begun : Program.Config GraphStore (GraphCall []) GraphResult :=
  ⟨store, [], []⟩

def build (name : Char) : GraphCall [] :=
  .build [] (buildMemoryPaths charCollation
    (fun count => name :: List.replicate count '+') [] (.defaults none))

theorem build_starts (name : Char) :
    (build name).starts charCollation :=
  ⟨rfl, _, _, _, .inl rfl⟩

theorem built_once : ∃ reached,
    Program.Run (graphCalls charCollation) OneWriter begun reached ∧
    (reached.shared.pathsOf []).length = 1 ∧
    StoredOnce [] (reached.shared.pathsOf []) reached.results := by
  have nothing :
    Program.Run (graphCalls charCollation) OneWriter begun begun := .here
  have run := nothing.play [.start (build 'x'), .run 0, .run 0, .run 0,
    .run 0, .run 0] ⟨⟨build_starts 'x', trivial⟩, trivial, trivial, nofun,
      rfl, trivial, trivial⟩
  exact ⟨_, run, by decide,
    paths_stored_once charCollation (by decide) run nofun⟩

/-- Both have deleted before either inserts. -/
theorem path_doubled : ∃ reached,
    Program.Run (graphCalls charCollation) (fun _ _ _ => True) begun reached ∧
    reached.calls = [] ∧
    ¬ ((reached.shared.pathsOf []).map ClaimPath.route).Nodup := by
  have nothing : Program.Run (graphCalls charCollation) (fun _ _ _ => True)
    begun begun := .here
  have run := nothing.play [.start (build 'x'), .start (build 'y'), .run 0,
    .run 0, .run 0, .run 1, .run 1, .run 1, .run 0, .run 0, .run 0, .run 0]
    ⟨⟨build_starts 'x', trivial⟩, ⟨build_starts 'y', trivial⟩, trivial,
      trivial, trivial, trivial, trivial, trivial, trivial, trivial, trivial,
      trivial, trivial⟩
  exact ⟨_, run, rfl, by decide⟩

end TwoBuilds

end Takos.MemoryGraph
