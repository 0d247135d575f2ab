import Takos.Foundation.Interleaving
import Takos.Foundation.OrderedMap
import Takos.Foundation.Text

/-!
# Policies of external tools

The rows of one server by tool name.  A reconciliation compares the snapshots
that the server advertises with rows that it has read before, and a review
applies to a row that holds the reviewed hash.  Beside the rows, the state keeps
a journal of the writes that decide on a row.
-/

namespace Takos.McpTools

open Takos.Foundation

inductive InvocationPolicy where
  | automatic | confirmEachTime
  deriving DecidableEq

structure ToolPolicy where
  schemaHash : Text
  enabled : Bool
  invocationPolicy : InvocationPolicy
  firstSeenAt : Nat
  lastSeenAt : Nat
  reviewedAt : Option Nat
  deriving DecidableEq

structure ToolSnapshot where
  name : Text
  schemaHash : Text

structure PolicyReview where
  toolName : Text
  schemaHash : Text
  enabled : Bool
  invocationPolicy : InvocationPolicy
  reviewedAt : Nat

/-- A write that decides on a row; `changed` tells the stored hash as well. -/
inductive PolicyWrite where
  | created (schemaHash : Text)
  | changed (stored observed : Text)
  | reviewed (schemaHash : Text) (enabled : Bool)
      (invocationPolicy : InvocationPolicy)

abbrev PolicyTable := OrderedMap Text ToolPolicy

/-- The journal is newest first, and no call reads it. -/
structure PolicyState where
  serverFound : Bool
  policies : PolicyTable
  journal : List (Text × PolicyWrite)

namespace PolicyState

variable (state : PolicyState)

def record (tool : Text) (policy : ToolPolicy) (write : PolicyWrite) :
    PolicyState :=
  { state with
    policies := state.policies.set tool policy
    journal := (tool, write) :: state.journal }

/-- `INSERT … ON CONFLICT DO NOTHING` of an unreviewed row. -/
def insertSnapshot (snapshot : ToolSnapshot) (observedAt : Nat) : PolicyState :=
  match state.policies.get? snapshot.name with
  | some _ => state
  | none =>
    state.record snapshot.name
      ⟨snapshot.schemaHash, false, .confirmEachTime, observedAt, observedAt,
        none⟩ (.created snapshot.schemaHash)

/-- The update of a row that still holds the hash of the snapshot. -/
def touchSnapshot (snapshot : ToolSnapshot) (observedAt : Nat) : PolicyState :=
  match state.policies.get? snapshot.name with
  | some row =>
    if row.schemaHash = snapshot.schemaHash then
      { state with
        policies := state.policies.set snapshot.name
          { row with lastSeenAt := observedAt } }
    else state
  | none => state

/-- The update of a changed tool, by its name. -/
def replaceSnapshot (snapshot : ToolSnapshot) (observedAt : Nat) :
    PolicyState :=
  match state.policies.get? snapshot.name with
  | some row =>
    state.record snapshot.name
      { row with
        schemaHash := snapshot.schemaHash
        enabled := false
        invocationPolicy := .confirmEachTime
        lastSeenAt := observedAt
        reviewedAt := none }
      (.changed row.schemaHash snapshot.schemaHash)
  | none => state

/-- One round of the loop over the snapshots. -/
def reconcileSnapshot (existing : PolicyTable) (snapshot : ToolSnapshot)
    (observedAt : Nat) : PolicyState :=
  match existing.get? snapshot.name with
  | none => state.insertSnapshot snapshot observedAt
  | some policy =>
    if policy.schemaHash = snapshot.schemaHash then
      state.touchSnapshot snapshot observedAt
    else state.replaceSnapshot snapshot observedAt

/-- The row of a tool, where it holds a hash. -/
def exactRow (toolName schemaHash : Text) : Option ToolPolicy :=
  (state.policies.get? toolName).filter fun row => row.schemaHash = schemaHash

def applyReview (review : PolicyReview) : PolicyState :=
  match state.exactRow review.toolName review.schemaHash with
  | some row =>
    state.record review.toolName
      { row with
        enabled := review.enabled
        invocationPolicy := review.invocationPolicy
        reviewedAt := some review.reviewedAt
        lastSeenAt := review.reviewedAt }
      (.reviewed review.schemaHash review.enabled review.invocationPolicy)
  | none => state

end PolicyState

/-- Calls by the statement that they execute next. -/
inductive PolicyCall where
  | reconcile (snapshots : List ToolSnapshot) (observedAt : Nat)
  | listExisting (snapshots : List ToolSnapshot) (observedAt : Nat)
  | reconcileSnapshots (existing : PolicyTable)
      (snapshots : List ToolSnapshot) (observedAt : Nat)
  | update (review : PolicyReview)
  | selectExact (review : PolicyReview)
  | applyReview (review : PolicyReview)
  | readBack (review : PolicyReview)

inductive PolicyResult where
  | notFound
  | policies (current : PolicyTable)
  | review (policy : Option ToolPolicy)

abbrev PolicyOutcome := Outcome PolicyCall PolicyResult

/-- `assertExternalServerInWorkspace`. -/
def assertServer (state : PolicyState) (rest : PolicyCall) : PolicyOutcome :=
  if state.serverFound then .next rest else .done .notFound

def statement (call : PolicyCall) (state : PolicyState) :
    PolicyState × PolicyOutcome :=
  match call with
  | .reconcile snapshots observedAt =>
    (state, assertServer state (.listExisting snapshots observedAt))
  | .listExisting snapshots observedAt =>
    (state, .next (.reconcileSnapshots state.policies snapshots observedAt))
  | .reconcileSnapshots _ [] _ => (state, .done (.policies state.policies))
  | .reconcileSnapshots existing (snapshot :: rest) observedAt =>
    (state.reconcileSnapshot existing snapshot observedAt,
      .next (.reconcileSnapshots existing rest observedAt))
  | .update review => (state, assertServer state (.selectExact review))
  | .selectExact review =>
    (state,
      match state.exactRow review.toolName review.schemaHash with
      | none => .done (.review none)
      | some _ => .next (.applyReview review))
  | .applyReview review => (state.applyReview review, .next (.readBack review))
  | .readBack review =>
    (state, .done (.review
      (state.exactRow review.toolName review.schemaHash)))

def Starts : PolicyCall → Prop
  | .reconcile _ _ => True
  | .update _ => True
  | _ => False

def policyProgram : Program PolicyState PolicyCall PolicyResult where
  starts := Starts
  statement := statement

def PolicyState.initial (serverFound : Bool) : PolicyState :=
  ⟨serverFound, .empty, []⟩

/-- `isMcpToolSnapshotEnabled`. -/
def isMcpToolSnapshotEnabled (policy : Option ToolPolicy)
    (schemaHash : Text) : Bool :=
  policy.any fun row => row.enabled && row.schemaHash = schemaHash

end Takos.McpTools

/-!
# Reviews and reconciliations of tool policies

Every row is what the last deciding write made of it.  A reconciliation that is
about to write a snapshot which the row has got in the meantime takes back a
review of that very snapshot.
-/

namespace Takos.McpTools

open Takos.Foundation Takos.Foundation.Program

/-- The last write that decided on the row of a tool. -/
def latestWrite (journal : List (Text × PolicyWrite)) (tool : Text) :
    Option PolicyWrite :=
  journal.lookup tool

def PolicyWrite.review : PolicyWrite →
    Option (Text × Bool × InvocationPolicy)
  | reviewed schemaHash enabled invocationPolicy =>
    some (schemaHash, enabled, invocationPolicy)
  | _ => none

/-- The last review of a tool, whatever came after it. -/
def lastReview (journal : List (Text × PolicyWrite)) (tool : Text) :
    Option (Text × Bool × InvocationPolicy) :=
  journal.findSome? fun entry =>
    if entry.1 = tool then entry.2.review else none

/-- What a write leaves in its row. -/
def Leaves (policy : ToolPolicy) : PolicyWrite → Prop
  | .created schemaHash => policy.schemaHash = schemaHash ∧
    policy.enabled = false ∧ policy.invocationPolicy = .confirmEachTime
  | .changed _ observed => policy.schemaHash = observed ∧
    policy.enabled = false ∧ policy.invocationPolicy = .confirmEachTime
  | .reviewed schemaHash enabled invocationPolicy =>
    policy.schemaHash = schemaHash ∧ policy.enabled = enabled ∧
      policy.invocationPolicy = invocationPolicy ∧ policy.reviewedAt ≠ none

/-- What may follow a review of a hash: another review, or a change away from
the stored snapshot. -/
def Follows (schemaHash : Text) : PolicyWrite → Prop
  | .created _ => False
  | .changed stored observed => stored = schemaHash ∧ observed ≠ stored
  | .reviewed _ _ _ => True

/-- Each review of a journal is followed as said. -/
def ReviewsKept : List (Text × PolicyWrite) → Prop
  | [] => True
  | (tool, write) :: earlier =>
    (∀ schemaHash enabled invocationPolicy, latestWrite earlier tool =
      some (.reviewed schemaHash enabled invocationPolicy) →
        Follows schemaHash write) ∧ ReviewsKept earlier

/-- The rows are what the journal says. -/
def Reflects (state : PolicyState) : Prop :=
  ∀ tool, Option.Rel Leaves (state.policies.get? tool)
    (latestWrite state.journal tool)

/-- No reconciliation that found a snapshot changed writes it to a row where it
has been reviewed by now. -/
def NotReapplied (state : PolicyState) (event : Event PolicyCall)
    (_ : List PolicyCall) : Prop :=
  match event with
  | .run (.reconcileSnapshots existing (snapshot :: _) _) =>
    ∀ policy row, existing.get? snapshot.name = some policy →
      policy.schemaHash ≠ snapshot.schemaHash →
      state.policies.get? snapshot.name = some row →
      row.schemaHash = snapshot.schemaHash → row.reviewedAt = none
  | _ => True

theorem latestWrite_cons (tool other : Text) (write : PolicyWrite)
    (journal : List (Text × PolicyWrite)) :
    latestWrite ((tool, write) :: journal) other =
      if other = tool then some write else latestWrite journal other := by
  unfold latestWrite
  rw [List.lookup_cons]
  by_cases same : other = tool
  · rw [if_pos same, beq_iff_eq.mpr same]
  · rw [if_neg same, beq_false_of_ne same]

theorem Reflects.record {state : PolicyState} (reflects : Reflects state)
    {tool : Text} {policy : ToolPolicy} {write : PolicyWrite}
    (leaves : Leaves policy write) :
    Reflects (state.record tool policy write) := by
  intro other
  simp only [PolicyState.record, OrderedMap.get?_set, latestWrite_cons]
  split
  · exact .some leaves
  · exact reflects other

theorem Reflects.touchSnapshot {state : PolicyState}
    (reflects : Reflects state) (snapshot : ToolSnapshot) (observedAt : Nat) :
    Reflects (state.touchSnapshot snapshot observedAt) := by
  unfold PolicyState.touchSnapshot
  split
  · rename_i row found
    split
    · intro other
      simp only [OrderedMap.get?_set]
      split
      · rename_i same
        have before := reflects other
        rw [same, found] at before
        rw [same]
        generalize latestWrite state.journal snapshot.name = write at before ⊢
        cases before with
        | @some _ write leaves =>
            apply Option.Rel.some
            cases write <;> exact leaves
      · exact reflects other
    · exact reflects
  · exact reflects

theorem journal_touchSnapshot (state : PolicyState) (snapshot : ToolSnapshot)
    (observedAt : Nat) :
    (state.touchSnapshot snapshot observedAt).journal = state.journal := by
  unfold PolicyState.touchSnapshot
  split
  · split <;> rfl
  · rfl

variable {row : ToolPolicy} {invocationPolicy : InvocationPolicy}

theorem exactRow_cases {state : PolicyState} {tool schemaHash : Text}
    (found : state.exactRow tool schemaHash = some row) :
    state.policies.get? tool = some row ∧ row.schemaHash = schemaHash := by
  obtain ⟨stored, same⟩ := Option.filter_eq_some_iff.mp found
  exact ⟨stored, by simpa using same⟩

theorem Reflects.reviewed {state : PolicyState} (reflects : Reflects state)
    {tool schemaHash : Text} {enabled : Bool}
    (stored : state.policies.get? tool = some row)
    (latest : latestWrite state.journal tool =
      some (.reviewed schemaHash enabled invocationPolicy)) :
    row.schemaHash = schemaHash ∧ row.reviewedAt ≠ none := by
  have related := reflects tool
  rw [stored, latest] at related
  cases related with
  | some leaves => exact ⟨leaves.1, leaves.2.2.2⟩

theorem Reflects.unwritten {state : PolicyState} (reflects : Reflects state)
    {tool : Text} (absent : state.policies.get? tool = none) :
    latestWrite state.journal tool = none := by
  have related := reflects tool
  rw [absent] at related
  generalize latestWrite state.journal tool = write at related ⊢
  cases related
  rfl

theorem reflects_statement {state : PolicyState} (reflects : Reflects state)
    (call : PolicyCall) : Reflects (statement call state).1 := by
  cases call with
  | reconcileSnapshots existing snapshots observedAt =>
      cases snapshots with
      | nil => exact reflects
      | cons snapshot rest =>
          simp only [statement, PolicyState.reconcileSnapshot]
          split
          · unfold PolicyState.insertSnapshot
            split
            · exact reflects
            · exact reflects.record ⟨rfl, rfl, rfl⟩
          · split
            · exact reflects.touchSnapshot snapshot observedAt
            · unfold PolicyState.replaceSnapshot
              split
              · exact reflects.record ⟨rfl, rfl, rfl⟩
              · exact reflects
  | applyReview review =>
      simp only [statement, PolicyState.applyReview]
      split
      · rename_i row found
        exact reflects.record ⟨(exactRow_cases found).2, rfl, rfl, by simp⟩
      · exact reflects
  | _ => exact reflects

theorem reviewsKept_statement {state : PolicyState}
    (reflects : Reflects state) (kept : ReviewsKept state.journal)
    {call : PolicyCall} {others : List PolicyCall}
    (notReapplied : NotReapplied state (.run call) others) :
    ReviewsKept (statement call state).1.journal := by
  cases call with
  | reconcileSnapshots existing snapshots observedAt =>
      cases snapshots with
      | nil => exact kept
      | cons snapshot rest =>
          simp only [statement, PolicyState.reconcileSnapshot]
          split
          · unfold PolicyState.insertSnapshot
            split
            · exact kept
            · rename_i absent
              refine ⟨?_, kept⟩
              intro schemaHash enabled invocationPolicy latest
              rw [reflects.unwritten absent] at latest
              cases latest
          · rename_i policy read
            split
            · rw [journal_touchSnapshot]
              exact kept
            · rename_i differs
              unfold PolicyState.replaceSnapshot
              split
              · rename_i row stored
                refine ⟨?_, kept⟩
                intro schemaHash enabled invocationPolicy latest
                obtain ⟨same, reviewed⟩ := reflects.reviewed stored latest
                refine ⟨same, ?_⟩
                intro observed
                exact reviewed
                  (notReapplied policy row read differs stored observed.symm)
              · exact kept
  | applyReview review =>
      simp only [statement, PolicyState.applyReview]
      split
      · exact ⟨fun _ _ _ _ => trivial, kept⟩
      · exact kept
  | _ => exact kept

variable {serverFound : Bool}
  {reached : Config PolicyState PolicyCall PolicyResult}

theorem reflects_of_run
    {allowed : PolicyState → Event PolicyCall → List PolicyCall → Prop}
    (run : Run policyProgram allowed ⟨.initial serverFound, [], []⟩ reached) :
    Reflects reached.shared := by
  apply @Run.invariant _ _ _ policyProgram allowed _ _
    (fun config => Reflects config.shared) run
  · intro tool
    exact .none
  · intro before event others after reflects _ step
    rcases step.shared_cases with ⟨call, _, _, same⟩ | ⟨_, same⟩
    · rw [same]
      exact reflects_statement reflects call
    · rw [same]
      exact reflects

theorem reviewsKept_of_run
    (run : Run policyProgram NotReapplied ⟨.initial serverFound, [], []⟩
      reached) : ReviewsKept reached.shared.journal := by
  have both : Reflects reached.shared ∧ ReviewsKept reached.shared.journal := by
    apply @Run.invariant _ _ _ policyProgram NotReapplied _ _
      (fun config => Reflects config.shared ∧ ReviewsKept config.shared.journal)
      run
    · exact ⟨fun tool => .none, trivial⟩
    · rintro before event others after ⟨reflects, kept⟩ permitted step
      rcases step.shared_cases with ⟨call, _, this, same⟩ | ⟨_, same⟩
      · rw [same]
        rw [this] at permitted
        constructor
        · exact reflects_statement reflects call
        · exact reviewsKept_statement reflects kept permitted
      · rw [same]
        exact ⟨reflects, kept⟩
  exact both.2

theorem lastReview_of_latestWrite {journal : List (Text × PolicyWrite)}
    {tool schemaHash : Text} {enabled : Bool}
    (latest : latestWrite journal tool =
      some (.reviewed schemaHash enabled invocationPolicy)) :
    lastReview journal tool =
      some (schemaHash, enabled, invocationPolicy) := by
  induction journal with
  | nil => cases latest
  | cons entry earlier ih =>
      obtain ⟨other, write⟩ := entry
      rw [latestWrite_cons] at latest
      unfold lastReview
      rw [List.findSome?_cons]
      by_cases same : tool = other
      · rw [if_pos same] at latest
        cases latest
        rw [if_pos same.symm]
        rfl
      · rw [if_neg same] at latest
        rw [if_neg (Ne.symm same)]
        exact ih latest

theorem ReviewsKept.follows {later earlier : List (Text × PolicyWrite)}
    {tool schemaHash : Text} {write : PolicyWrite} {enabled : Bool}
    (kept : ReviewsKept (later ++ (tool, write) :: earlier))
    (latest : latestWrite earlier tool =
      some (.reviewed schemaHash enabled invocationPolicy)) :
    Follows schemaHash write := by
  induction later with
  | nil => exact kept.1 schemaHash enabled invocationPolicy latest
  | cons _ _ ih => exact ih kept.2

theorem Reflects.enabled {state : PolicyState} (reflects : Reflects state)
    {tool : Text} (stored : state.policies.get? tool = some row)
    (enabled : row.enabled = true) :
    ∃ invocationPolicy, lastReview state.journal tool =
      some (row.schemaHash, true, invocationPolicy) := by
  have related := reflects tool
  rw [stored] at related
  generalize latest : latestWrite state.journal tool = write at related
  cases related with
  | @some _ write leaves =>
      cases write with
      | created => exact absurd enabled (by simp [leaves.2.1])
      | changed => exact absurd enabled (by simp [leaves.2.1])
      | reviewed schemaHash choice invocationPolicy =>
          obtain ⟨rfl, rfl, -, -⟩ := leaves
          rw [enabled] at latest
          exact ⟨invocationPolicy, lastReview_of_latestWrite latest⟩

theorem Reflects.changed {state : PolicyState} (reflects : Reflects state)
    {tool stored observed : Text}
    (latest : latestWrite state.journal tool =
      some (.changed stored observed)) :
    ∃ row, state.policies.get? tool = some row ∧ row.enabled = false ∧
      row.invocationPolicy = .confirmEachTime := by
  have related := reflects tool
  rw [latest] at related
  generalize state.policies.get? tool = found at related ⊢
  cases related with
  | some leaves => exact ⟨_, rfl, leaves.2⟩

/-- Where no reconciliation writes a reviewed snapshot again, a row is enabled
by its last review, a changed row waits for one, and a review gives way only to
another snapshot than the stored one. -/
theorem reviews_in_force
    (run : Run policyProgram NotReapplied ⟨.initial serverFound, [], []⟩
      reached) :
    (∀ tool row, reached.shared.policies.get? tool = some row →
      row.enabled = true → ∃ invocationPolicy,
        lastReview reached.shared.journal tool =
          some (row.schemaHash, true, invocationPolicy)) ∧
    (∀ tool stored observed,
      latestWrite reached.shared.journal tool =
        some (.changed stored observed) →
      ∃ row, reached.shared.policies.get? tool = some row ∧
        row.enabled = false ∧ row.invocationPolicy = .confirmEachTime) ∧
    (∀ later earlier tool write schemaHash enabled invocationPolicy,
      reached.shared.journal = later ++ (tool, write) :: earlier →
      latestWrite earlier tool =
        some (.reviewed schemaHash enabled invocationPolicy) →
      Follows schemaHash write) := by
  have reflects := reflects_of_run run
  refine ⟨?_, ?_, ?_⟩
  · intro tool row stored enabled
    exact reflects.enabled stored enabled
  · intro tool stored observed latest
    exact reflects.changed latest
  · intro later earlier tool write schemaHash enabled invocationPolicy split
    have kept := reviewsKept_of_run run
    rw [split] at kept
    exact kept.follows

namespace OneChange

def tool : Text := ['t']

def oldHash : Text := ['1']

def newHash : Text := ['2']

def review : PolicyReview := ⟨tool, newHash, true, .automatic, 3⟩

abbrev At (state : PolicyState) (calls : List PolicyCall)
    (results : List PolicyResult) : Prop :=
  Run policyProgram NotReapplied ⟨.initial true, [], []⟩
    ⟨state, calls, results⟩

def next (call : PolicyCall) (state : PolicyState) : PolicyState :=
  (statement call state).1

def listed : PolicyState :=
  next (.reconcileSnapshots .empty [⟨tool, oldHash⟩] 1) (.initial true)

abbrev applying : PolicyCall :=
  .reconcileSnapshots listed.policies [⟨tool, newHash⟩] 2

def changed : PolicyState := next applying listed

def reviewed : PolicyState := next (.applyReview review) changed

theorem reviewed_run : ∃ results, At reviewed [applying] results := by
  have nothing : At (.initial true) [] [] := .here
  have unlisted : NotReapplied (.initial true)
      (.run (.reconcileSnapshots .empty [⟨tool, oldHash⟩] 1)) [] :=
    fun _ _ => nofun
  have changes : NotReapplied listed (.run applying) [applying] := by
    intro policy row found differs stored same
    have before : row.schemaHash = oldHash := by
      cases stored
      rfl
    exact absurd (before.symm.trans same) (by decide)
  have run := nothing.play [.start (.reconcile [⟨tool, oldHash⟩] 1), .run 0,
    .run 0, .run 0, .run 0, .start (.reconcile [⟨tool, newHash⟩] 2), .run 0,
    .run 0, .start (.reconcile [⟨tool, newHash⟩] 2), .run 0, .run 0, .run 0,
    .run 0, .start (.update review), .run 0, .run 0, .run 0, .run 0] (by
      repeat' first
        | exact trivial
        | exact unlisted
        | exact changes
        | apply And.intro)
  exact ⟨_, run⟩

theorem review_in_force :
    ∃ row, reviewed.policies.get? tool = some row ∧ row.enabled = true ∧
      ∃ invocationPolicy, lastReview reviewed.journal tool =
        some (row.schemaHash, true, invocationPolicy) := by
  obtain ⟨results, run⟩ := reviewed_run
  exact ⟨_, rfl, rfl, (reviews_in_force run).1 tool _ rfl rfl⟩

/-- The slower one resets the review of the snapshot that it has found. -/
theorem review_taken_back : ¬ ∀ reached,
    Run policyProgram (fun _ _ _ => True) ⟨.initial true, [], []⟩ reached →
    ∀ later earlier tool write schemaHash enabled invocationPolicy,
      reached.shared.journal = later ++ (tool, write) :: earlier →
      latestWrite earlier tool =
        some (.reviewed schemaHash enabled invocationPolicy) →
      Follows schemaHash write := by
  intro kept
  obtain ⟨results, run⟩ := reviewed_run
  have all : Run policyProgram (fun _ _ _ => True) ⟨.initial true, [], []⟩
      ⟨reviewed, [applying], results⟩ := run.mono fun _ _ _ _ => trivial
  have applied : Run policyProgram (fun _ _ _ => True)
      ⟨.initial true, [], []⟩ ⟨next applying reviewed,
        [.reconcileSnapshots listed.policies [] 2], results⟩ :=
    all.continuing [] [] rfl trivial
  have follows := kept _ applied [] reviewed.journal tool
    (.changed newHash newHash) newHash true .automatic rfl rfl
  exact follows.2 rfl

end OneChange

end Takos.McpTools
