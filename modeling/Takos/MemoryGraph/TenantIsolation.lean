import Takos.MemoryGraph.PathBuilder

/-!
# Isolation of tenants

What an account sees of the store is the store without the rows of the others.
Statements of others leave it as it is, and its own statements act on it as they
would if it were alone, unless they write an id under which another account has
a row.
-/

namespace Takos.MemoryGraph

open Takos.Foundation

/-- The rows of one account. -/
def GraphStore.seenBy (accountId : Text) (store : GraphStore) : GraphStore where
  claims := store.claims.ownedBy Claim.accountId accountId
  evidence := store.evidence.ownedBy Evidence.accountId accountId
  edges := store.edges.ownedBy ClaimEdge.accountId accountId
  paths := store.paths.ownedBy ClaimPath.accountId accountId

/-- No other account has a row under the id that is written. -/
def GraphStatement.Free (store : GraphStore) : GraphStatement → Prop
  | upsertClaim claim _ =>
    store.claims.FreeFor Claim.accountId claim.accountId claim.id
  | insertEvidence evidence _ =>
    store.evidence.FreeFor Evidence.accountId evidence.accountId evidence.id
  | insertPath path =>
    store.paths.FreeFor ClaimPath.accountId path.accountId path.id
  | _ => True

section Reads

variable (store : GraphStore) (accountId : Text)

theorem getActiveClaims_seenBy (limit : Int) :
    (store.seenBy accountId).getActiveClaims accountId limit =
      store.getActiveClaims accountId limit := by
  unfold GraphStore.getActiveClaims GraphStore.seenBy
  dsimp only
  rw [OrderedMap.filter_values_ownedBy]
  intro row selected
  exact (of_decide_eq_true selected).1

theorem getActiveClaimsByRun_seenBy (sourceRunId : Text) (limit : Int) :
    (store.seenBy accountId).getActiveClaimsByRun accountId sourceRunId limit =
      store.getActiveClaimsByRun accountId sourceRunId limit := by
  unfold GraphStore.getActiveClaimsByRun GraphStore.seenBy
  dsimp only
  rw [OrderedMap.filter_values_ownedBy]
  intro row selected
  exact (of_decide_eq_true selected).1

theorem searchClaims_seenBy (query : Text) (limit : Int) :
    (store.seenBy accountId).searchClaims accountId query limit =
      store.searchClaims accountId query limit := by
  unfold GraphStore.searchClaims GraphStore.seenBy
  dsimp only
  rw [OrderedMap.filter_values_ownedBy]
  intro row selected
  exact (of_decide_eq_true selected).1

theorem any_claim_seenBy (claimId : Text) :
    ((store.seenBy accountId).claims.get? claimId).any
        (fun claim => claim.accountId = accountId) =
      (store.claims.get? claimId).any
        (fun claim => claim.accountId = accountId) := by
  simp only [GraphStore.seenBy, OrderedMap.get?_ownedBy]
  cases store.claims.get? claimId with
  | none => rfl
  | some claim =>
      by_cases same : claim.accountId = accountId
      · simp [same]
      · simp [same]

theorem getEvidenceForClaim_seenBy (claimId : Text) (limit : Int) :
    (store.seenBy accountId).getEvidenceForClaim accountId claimId limit =
      store.getEvidenceForClaim accountId claimId limit := by
  have selected : (store.seenBy accountId).evidence.values.filter (fun row =>
      row.claimId = claimId ∧ row.accountId = accountId ∧
        ((store.seenBy accountId).claims.get? row.claimId).any fun claim =>
          claim.accountId = row.accountId) =
      store.evidence.values.filter (fun row =>
        row.claimId = claimId ∧ row.accountId = accountId ∧
          (store.claims.get? row.claimId).any fun claim =>
            claim.accountId = row.accountId) := by
    rw [GraphStore.seenBy, OrderedMap.filter_values_ownedBy]
    · apply List.filter_congr
      intro row _
      by_cases mine : row.accountId = accountId
      · have joined := any_claim_seenBy store accountId row.claimId
        rw [GraphStore.seenBy] at joined
        simp only [mine, joined]
      · simp [mine]
    · intro row selected
      exact (of_decide_eq_true selected).2.1
  unfold GraphStore.getEvidenceForClaim
  rw [selected]

theorem countEvidence_seenBy (batch : List Text) :
    (store.seenBy accountId).countEvidence accountId batch =
      store.countEvidence accountId batch := by
  unfold GraphStore.countEvidence GraphStore.seenBy
  dsimp only
  rw [OrderedMap.filter_values_ownedBy]
  intro row selected
  exact (of_decide_eq_true selected).1

theorem getEdgesForAccount_seenBy (limit : Int) :
    (store.seenBy accountId).getEdgesForAccount accountId limit =
      store.getEdgesForAccount accountId limit := by
  unfold GraphStore.getEdgesForAccount GraphStore.seenBy
  rw [OrderedMap.filter_values_ownedBy]
  intro row selected
  exact of_decide_eq_true selected

theorem getPathsForClaim_seenBy (claimId : Text) (limit : Int) :
    (store.seenBy accountId).getPathsForClaim accountId claimId limit =
      store.getPathsForClaim accountId claimId limit := by
  unfold GraphStore.getPathsForClaim GraphStore.seenBy
  dsimp only
  rw [OrderedMap.filter_values_ownedBy]
  intro row selected
  exact (of_decide_eq_true selected).1

end Reads

section Others

variable {store : GraphStore} {accountId : Text}

theorem upsertClaim_other {claim : ClaimInsert} (now : Text)
    (other : claim.accountId ≠ accountId) :
    (store.upsertClaim claim now).seenBy accountId =
      store.seenBy accountId := by
  unfold GraphStore.upsertClaim
  dsimp only
  split
  · rename_i absent
    simp only [GraphStore.seenBy, GraphStore.mk.injEq, and_true]
    apply OrderedMap.ownedBy_set_other Claim.accountId other
    intro stored found
    rw [absent] at found
    cases found
  · rename_i stored found
    split
    · rename_i same
      simp only [GraphStore.seenBy, GraphStore.mk.injEq, and_true]
      have owner : (stored.updatedBy (claim.row now)).accountId =
          claim.accountId := same
      apply OrderedMap.ownedBy_set_other Claim.accountId
      · rwa [owner]
      · intro row read
        rw [found] at read
        cases read
        rfl
    · rfl

theorem insertEvidence_other {evidence : EvidenceInsert} {now : Text}
    {after : GraphStore} (other : evidence.accountId ≠ accountId)
    (done : store.insertEvidence evidence now = some after) :
    after.seenBy accountId = store.seenBy accountId := by
  unfold GraphStore.insertEvidence at done
  split at done
  · cases done
  · rename_i absent
    cases done
    simp only [GraphStore.seenBy, GraphStore.mk.injEq, and_true, true_and]
    apply OrderedMap.ownedBy_set_other Evidence.accountId other
    intro stored found
    rw [absent] at found
    cases found

theorem insertPath_other {path : ClaimPath} {after : GraphStore}
    (other : path.accountId ≠ accountId)
    (done : store.insertPath path = some after) :
    after.seenBy accountId = store.seenBy accountId := by
  unfold GraphStore.insertPath at done
  split at done
  · cases done
  · rename_i absent
    cases done
    simp only [GraphStore.seenBy, GraphStore.mk.injEq, true_and]
    apply OrderedMap.ownedBy_set_other ClaimPath.accountId other
    intro stored found
    rw [absent] at found
    cases found

theorem inserted_other {after : Option GraphStore}
    (kept : ∀ reached, after = some reached →
      reached.seenBy accountId = store.seenBy accountId) :
    (inserted store after).1.seenBy accountId = store.seenBy accountId := by
  cases after with
  | none => rfl
  | some reached => exact kept reached rfl

theorem execute_other {statement : GraphStatement}
    (other : statement.accountId ≠ accountId) :
    (execute statement store).1.seenBy accountId = store.seenBy accountId := by
  cases statement with
  | upsertClaim claim now => exact upsertClaim_other now other
  | insertEvidence evidence now =>
      exact inserted_other fun _ done => insertEvidence_other other done
  | insertPath path =>
      exact inserted_other fun _ done => insertPath_other other done
  | deletePathsForAccount account =>
      have kept : (store.paths.disown ClaimPath.accountId account).ownedBy
          ClaimPath.accountId accountId =
          store.paths.ownedBy ClaimPath.accountId accountId :=
        OrderedMap.ownedBy_disown_other ClaimPath.accountId other store.paths
      simp only [execute, GraphStore.deletePathsForAccount, GraphStore.seenBy,
        kept]
  | _ => rfl

end Others

section Own

variable {store : GraphStore}

theorem upsertClaim_own {claim : ClaimInsert} (now : Text)
    (free : (GraphStatement.upsertClaim claim now).Free store) :
    (store.upsertClaim claim now).seenBy claim.accountId =
      (store.seenBy claim.accountId).upsertClaim claim now := by
  have read : (store.seenBy claim.accountId).claims.get? claim.id =
      store.claims.get? claim.id := OrderedMap.FreeFor.get? _ free
  unfold GraphStore.upsertClaim
  rw [read]
  dsimp only
  split
  · simp only [GraphStore.seenBy, GraphStore.mk.injEq, and_true]
    exact OrderedMap.ownedBy_set_self Claim.accountId rfl free
  · rename_i stored found
    split
    · rename_i same
      simp only [GraphStore.seenBy, GraphStore.mk.injEq, and_true]
      exact OrderedMap.ownedBy_set_self Claim.accountId same free
    · rfl

theorem insertEvidence_own {evidence : EvidenceInsert} (now : Text)
    (free : (GraphStatement.insertEvidence evidence now).Free store) :
    (store.seenBy evidence.accountId).insertEvidence evidence now =
      (store.insertEvidence evidence now).map
        (·.seenBy evidence.accountId) := by
  have read : (store.seenBy evidence.accountId).evidence.get? evidence.id =
      store.evidence.get? evidence.id := OrderedMap.FreeFor.get? _ free
  unfold GraphStore.insertEvidence
  rw [read]
  split
  · rfl
  · simp only [Option.map_some, GraphStore.seenBy, Option.some.injEq,
      GraphStore.mk.injEq, and_true, true_and]
    have owner : (evidence.row now).accountId = evidence.accountId := rfl
    exact (OrderedMap.ownedBy_set_self Evidence.accountId owner free).symm

theorem insertPath_own {path : ClaimPath}
    (free : (GraphStatement.insertPath path).Free store) :
    (store.seenBy path.accountId).insertPath path =
      (store.insertPath path).map (·.seenBy path.accountId) := by
  have read : (store.seenBy path.accountId).paths.get? path.id =
      store.paths.get? path.id := OrderedMap.FreeFor.get? _ free
  unfold GraphStore.insertPath
  rw [read]
  split
  · rfl
  · simp only [Option.map_some, GraphStore.seenBy, Option.some.injEq,
      GraphStore.mk.injEq, true_and]
    exact (OrderedMap.ownedBy_set_self ClaimPath.accountId rfl free).symm

theorem inserted_own {accountId : Text} (after : Option GraphStore) :
    inserted (store.seenBy accountId) (after.map (·.seenBy accountId)) =
      ((inserted store after).1.seenBy accountId,
        (inserted store after).2) := by
  cases after with
  | none | some => rfl

/-- A statement that writes no id of another account acts on the rows of its
own account. -/
theorem execute_own {statement : GraphStatement}
    (free : statement.Free store) :
    execute statement (store.seenBy statement.accountId) =
      ((execute statement store).1.seenBy statement.accountId,
        (execute statement store).2) := by
  cases statement with
  | upsertClaim claim now =>
      simp only [execute, GraphStatement.accountId, upsertClaim_own now free]
  | insertEvidence evidence now =>
      simp only [execute, GraphStatement.accountId]
      rw [insertEvidence_own now free]
      exact inserted_own _
  | insertPath path =>
      simp only [execute, GraphStatement.accountId]
      rw [insertPath_own free]
      exact inserted_own _
  | getActiveClaims account limit =>
      simp only [execute, GraphStatement.accountId, getActiveClaims_seenBy]
  | getActiveClaimsByRun account sourceRunId limit =>
      simp only [execute, GraphStatement.accountId,
        getActiveClaimsByRun_seenBy]
  | searchClaims account query limit =>
      simp only [execute, GraphStatement.accountId, searchClaims_seenBy]
  | getEvidenceForClaim account claimId limit =>
      simp only [execute, GraphStatement.accountId, getEvidenceForClaim_seenBy]
  | countEvidence account batch =>
      simp only [execute, GraphStatement.accountId, countEvidence_seenBy]
  | getEdgesForAccount account limit =>
      simp only [execute, GraphStatement.accountId, getEdgesForAccount_seenBy]
  | getPathsForClaim account claimId limit =>
      simp only [execute, GraphStatement.accountId, getPathsForClaim_seenBy]
  | deletePathsForAccount account =>
      simp only [execute, GraphStatement.accountId,
        GraphStore.deletePathsForAccount, GraphStore.seenBy, Prod.mk.injEq,
        GraphStore.mk.injEq, and_true, true_and]
      apply OrderedMap.ext
      rw [OrderedMap.ownedBy_disown_self, OrderedMap.entries_disown,
        OrderedMap.entries_ownedBy, List.filter_filter]
      simp [OrderedMap.empty]

theorem execute_taken {statement : GraphStatement}
    (taken : ¬ statement.Free store) :
    (execute statement store).1 = store := by
  cases statement with
  | upsertClaim claim now =>
      simp only [GraphStatement.Free, OrderedMap.FreeFor, not_forall] at taken
      obtain ⟨stored, found, foreign⟩ := taken
      simp only [execute, GraphStore.upsertClaim, found]
      exact if_neg foreign
  | insertEvidence evidence now =>
      simp only [GraphStatement.Free, OrderedMap.FreeFor, not_forall] at taken
      obtain ⟨stored, found, _⟩ := taken
      simp only [execute, GraphStore.insertEvidence, found, inserted]
  | insertPath path =>
      simp only [GraphStatement.Free, OrderedMap.FreeFor, not_forall] at taken
      obtain ⟨stored, found, _⟩ := taken
      simp only [execute, GraphStore.insertPath, found, inserted]
  | _ => exact absurd trivial taken

end Own

/-- Whose statement is next. -/
inductive Turn (accountId : Text) where
  | own
  | other (statement : GraphStatement)
      (apart : statement.accountId ≠ accountId)

def Turn.isOwn {accountId : Text} : Turn accountId → Bool
  | own => true
  | other _ _ => false

/-- Where a script has come to, the responses newest last. -/
structure Advanced (accountId : Text) (Result : Type) where
  store : GraphStore
  script : Script accountId Result
  responses : List GraphResponse

variable {accountId : Text} {Result : Type}

def turn (reached : Advanced accountId Result) :
    Turn accountId → Advanced accountId Result
  | .other statement _ =>
    { reached with store := (execute statement reached.store).1 }
  | .own =>
    match reached.script with
    | .done _ => reached
    | .ask statement _ next =>
      let executed := execute statement reached.store
      ⟨executed.1, next executed.2, reached.responses ++ [executed.2]⟩

def advance (reached : Advanced accountId Result)
    (turns : List (Turn accountId)) : Advanced accountId Result :=
  turns.foldl turn reached

/-- The next statement of the script writes no id of another account. -/
def Script.Free (script : Script accountId Result) (store : GraphStore) : Prop :=
  match script with
  | done _ => True
  | ask statement _ _ => statement.Free store

/-- The account never writes an id under which another account has a row. -/
def NeverTaken (reached : Advanced accountId Result)
    (turns : List (Turn accountId)) : Prop :=
  ∀ earlier later, turns = earlier ++ .own :: later →
    (advance reached earlier).script.Free (advance reached earlier).store

/-- What the account has to itself of a run. -/
def Advanced.alone (reached : Advanced accountId Result) :
    Advanced accountId Result :=
  { reached with store := reached.store.seenBy accountId }

theorem turn_other (reached : Advanced accountId Result)
    {statement : GraphStatement} (apart : statement.accountId ≠ accountId) :
    (turn reached (.other statement apart)).alone = reached.alone := by
  simp only [turn, Advanced.alone, execute_other apart]

theorem turn_own (reached : Advanced accountId Result)
    (free : reached.script.Free reached.store) :
    (turn reached .own).alone = turn reached.alone .own := by
  obtain ⟨store, script, responses⟩ := reached
  cases script with
  | done result => rfl
  | ask statement own next =>
      have executed := execute_own free
      rw [own] at executed
      simp only [turn, Advanced.alone, executed]

theorem advance_alone (reached : Advanced accountId Result)
    (turns : List (Turn accountId)) (never : NeverTaken reached turns) :
    (advance reached turns).alone =
      advance reached.alone (turns.filter Turn.isOwn) := by
  induction turns generalizing reached with
  | nil => rfl
  | cons first rest ih =>
      have later : NeverTaken (turn reached first) rest := by
        intro earlier after split
        exact never (first :: earlier) after (by rw [split]; rfl)
      have continued := ih (turn reached first) later
      cases first with
      | own =>
          have free := never [] rest rfl
          rw [turn_own reached free] at continued
          exact continued
      | other statement apart =>
          rw [turn_other reached apart] at continued
          exact continued

/-- Two accounts, or one and any number of others, on one database: unless the
account writes an id under which another account has a row, its responses, its
results and its rows are what they are without the others.  Writes of others
change none of its rows, and a write of such an id changes nothing at all. -/
theorem isolated (edges : OrderedMap Text ClaimEdge)
    (script : Script accountId Result) (turns : List (Turn accountId)) :
    let shared := advance ⟨.initial edges, script, []⟩
    let own := advance ⟨.initial (edges.ownedBy ClaimEdge.accountId accountId),
      script, []⟩ (turns.filter Turn.isOwn)
    (NeverTaken ⟨.initial edges, script, []⟩ turns →
      (shared turns).responses = own.responses ∧
      (shared turns).script = own.script ∧
      (shared turns).store.seenBy accountId = own.store) ∧
    (∀ statement apart,
      (shared (turns ++ [.other statement apart])).store.seenBy accountId =
        (shared turns).store.seenBy accountId) ∧
    (∀ statement, ¬ statement.Free (shared turns).store →
      (execute statement (shared turns).store).1 = (shared turns).store) := by
  intro shared own
  refine ⟨?_, ?_, ?_⟩
  · intro never
    have seen : (shared turns).alone = own :=
      advance_alone ⟨.initial edges, script, []⟩ turns never
    rw [← seen]
    exact ⟨rfl, rfl, rfl⟩
  · intro statement apart
    have last : shared (turns ++ [.other statement apart]) =
        turn (shared turns) (.other statement apart) :=
      List.foldl_concat _ _ _ _
    rw [last]
    exact execute_other apart
  · intro statement taken
    exact execute_taken taken

namespace OneId

def mine : Text := ['B']

def theirs : Text := ['A']

def claim (accountId : Text) : ClaimInsert :=
  ⟨['x'], accountId, .fact, ['s'], ['p'], ['o'], none, none, none, none⟩

def upsertAndRead : Script mine Unit :=
  .ask (.upsertClaim (claim mine) ['1']) rfl fun _ =>
    .ask (.getActiveClaims mine 50) rfl fun _ => .done ()

def others : Turn mine :=
  .other (.upsertClaim (claim theirs) ['0']) (by decide)

/-- Another account writes the id after it. -/
theorem read_isolated :
    (advance ⟨.initial .empty, upsertAndRead, []⟩
        [.own, others, .own]).responses =
      (advance ⟨.initial .empty, upsertAndRead, []⟩ [.own, .own]).responses := by
  have never : NeverTaken ⟨.initial .empty, upsertAndRead, []⟩
      [.own, others, .own] := by
    intro earlier later split
    rcases earlier with _ | ⟨first, _ | ⟨second, _ | ⟨third, rest⟩⟩⟩
    · intro stored found
      cases found
    · cases split
    · cases split
      trivial
    · cases rest <;> cases split
  exact ((isolated .empty upsertAndRead [.own, others, .own]).1 never).1

/-- Another account has written the id before it. -/
theorem claim_suppressed : ¬ ∀ (accountId : Text) (Result : Type)
    (edges : OrderedMap Text ClaimEdge) (script : Script accountId Result)
    (turns : List (Turn accountId)),
    (advance ⟨.initial edges, script, []⟩ turns).responses =
      (advance ⟨.initial (edges.ownedBy ClaimEdge.accountId accountId), script,
        []⟩ (turns.filter Turn.isOwn)).responses := by
  intro same
  have read := same mine Unit .empty upsertAndRead [others, .own, .own]
  have shared : (advance ⟨.initial .empty, upsertAndRead, []⟩
      [others, .own, .own]).responses = [.written, .claims []] := by
    with_unfolding_all rfl
  have own : (advance ⟨.initial (OrderedMap.empty.ownedBy ClaimEdge.accountId
      mine), upsertAndRead, []⟩ ([others, .own, .own].filter
      Turn.isOwn)).responses =
      [.written, .claims [(claim mine).row ['1']]] := by
    with_unfolding_all rfl
  rw [shared, own] at read
  cases read

end OneId

end Takos.MemoryGraph
