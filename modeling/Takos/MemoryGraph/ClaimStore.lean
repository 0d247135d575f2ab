import Takos.Foundation.OwnedTables
import Takos.Foundation.LikePatterns
import Takos.Threads.MessagePersistence
import Mathlib.Data.Char
import Mathlib.Data.List.Lex
import Mathlib.Data.List.Sort

/-!
# The store of the memory graph

Claims, evidence, edges and paths of all accounts, each table under the ids that
its writers choose.  Rows stand in the order in which they were inserted, and a
query sorts the rows that it selects by its own keys only.
-/

namespace Takos.MemoryGraph

open Takos.Foundation
open Takos.Threads (sliceUnits)

inductive ClaimType where
  | fact | preference | decision | observation
  deriving DecidableEq

inductive ClaimStatus where
  | active | superseded | retracted
  deriving DecidableEq

inductive EvidenceKind where
  | supports | contradicts | context
  deriving DecidableEq

inductive EvidenceSourceType where
  | toolResult | userMessage | agentInference | memoryRecall
  deriving DecidableEq

structure Claim where
  id : Text
  accountId : Text
  claimType : ClaimType
  subject : Text
  predicate : Text
  object : Text
  confidence : ℚ
  status : ClaimStatus
  supersededBy : Option Text
  sourceRunId : Option Text
  createdAt : Text
  updatedAt : Text
  deriving DecidableEq

structure ClaimInsert where
  id : Text
  accountId : Text
  claimType : ClaimType
  subject : Text
  predicate : Text
  object : Text
  confidence : Option ℚ
  status : Option ClaimStatus
  supersededBy : Option Text
  sourceRunId : Option Text
  deriving DecidableEq

structure Evidence where
  id : Text
  accountId : Text
  claimId : Text
  kind : EvidenceKind
  sourceType : EvidenceSourceType
  sourceRef : Option Text
  content : Text
  trust : ℚ
  taint : Option Text
  createdAt : Text
  deriving DecidableEq

structure EvidenceInsert where
  id : Text
  accountId : Text
  claimId : Text
  kind : EvidenceKind
  sourceType : EvidenceSourceType
  sourceRef : Option Text
  content : Text
  trust : Option ℚ
  taint : Option Text
  deriving DecidableEq

structure ClaimEdge where
  id : Text
  accountId : Text
  sourceClaimId : Text
  targetClaimId : Text
  relation : Text
  weight : ℚ
  createdAt : Text
  deriving DecidableEq

structure ClaimPath where
  id : Text
  accountId : Text
  startClaimId : Text
  endClaimId : Text
  hopCount : Nat
  pathClaims : List Text
  pathRelations : List Text
  pathSummary : Option Text
  minConfidence : ℚ
  createdAt : Text
  deriving DecidableEq

structure GraphStore where
  claims : OrderedMap Text Claim
  evidence : OrderedMap Text Evidence
  edges : OrderedMap Text ClaimEdge
  paths : OrderedMap Text ClaimPath

/-- A database in which only the edges have been filled, from elsewhere. -/
def GraphStore.initial (edges : OrderedMap Text ClaimEdge) : GraphStore :=
  ⟨.empty, .empty, edges, .empty⟩

/-- `claimBindParams`. -/
def ClaimInsert.row (claim : ClaimInsert) (now : Text) : Claim where
  id := claim.id
  accountId := claim.accountId
  claimType := claim.claimType
  subject := claim.subject
  predicate := claim.predicate
  object := claim.object
  confidence := claim.confidence.getD (1 / 2)
  status := claim.status.getD .active
  supersededBy := claim.supersededBy
  sourceRunId := claim.sourceRunId
  createdAt := now
  updatedAt := now

/-- `DO UPDATE SET`: the stored row keeps its id, account and creation. -/
def Claim.updatedBy (stored excluded : Claim) : Claim :=
  { excluded with
    id := stored.id
    accountId := stored.accountId
    createdAt := stored.createdAt }

def EvidenceInsert.row (evidence : EvidenceInsert) (now : Text) : Evidence where
  id := evidence.id
  accountId := evidence.accountId
  claimId := evidence.claimId
  kind := evidence.kind
  sourceType := evidence.sourceType
  sourceRef := evidence.sourceRef
  content := sliceUnits 2048 evidence.content
  trust := evidence.trust.getD (7 / 10)
  taint := evidence.taint
  createdAt := now

/-- `text || null`. -/
def orNull (text : Option Text) : Option Text :=
  text.filter fun text => text ≠ []

def rowToClaim (row : Claim) : Claim :=
  { row with
    supersededBy := orNull row.supersededBy
    sourceRunId := orNull row.sourceRunId }

def rowToEvidence (row : Evidence) : Evidence :=
  { row with
    sourceRef := orNull row.sourceRef
    taint := orNull row.taint }

def rowToPath (row : ClaimPath) : ClaimPath :=
  { row with pathSummary := orNull row.pathSummary }

section Clauses

variable {Row : Type}

/-- `LIMIT`, where a negative number is no limit. -/
def limitRows (limit : Int) (rows : List Row) : List Row :=
  if limit < 0 then rows else rows.take limit.toNat

/-- `ORDER BY first DESC`. -/
def orderDescending {First : Type} [LinearOrder First] (first : Row → First)
    (rows : List Row) : List Row :=
  rows.insertionSort fun left right => first right ≤ first left

/-- `ORDER BY first DESC, second DESC`. -/
def orderDescendingBy {First Second : Type} [LinearOrder First]
    [LinearOrder Second] (first : Row → First) (second : Row → Second)
    (rows : List Row) : List Row :=
  rows.insertionSort fun left right =>
    first right < first left ∨
      (first right = first left ∧ second right ≤ second left)

end Clauses

/-- `input.replace(/[\\%_]/g, (ch) => "\\" + ch)`. -/
def escapeLikePattern (input : Text) : Text :=
  input.flatMap fun char =>
    if char = '\\' ∨ char = '%' ∨ char = '_' then ['\\', char] else [char]

namespace GraphStore

variable (store : GraphStore)

/-- `UPSERT_CLAIM_SQL`.  A conflict with a claim of another account updates
nothing. -/
def upsertClaim (claim : ClaimInsert) (now : Text) : GraphStore :=
  let excluded := claim.row now
  match store.claims.get? claim.id with
  | none => { store with claims := store.claims.set claim.id excluded }
  | some stored =>
    if stored.accountId = excluded.accountId then
      { store with
        claims := store.claims.set claim.id (stored.updatedBy excluded) }
    else store

def getActiveClaims (accountId : Text) (limit : Int) : List Claim :=
  let selected := store.claims.values.filter fun row =>
    row.accountId = accountId ∧ row.status = .active
  (limitRows limit (orderDescendingBy Claim.confidence Claim.updatedAt
    selected)).map rowToClaim

def getActiveClaimsByRun (accountId sourceRunId : Text) (limit : Int) :
    List Claim :=
  let selected := store.claims.values.filter fun row =>
    row.accountId = accountId ∧ row.status = .active ∧
      row.sourceRunId = some sourceRunId
  (limitRows limit (orderDescendingBy Claim.confidence Claim.updatedAt
    selected)).map rowToClaim

def searchClaims (accountId query : Text) (limit : Int) : List Claim :=
  let pattern := '%' :: escapeLikePattern query ++ ['%']
  let selected := store.claims.values.filter fun row =>
    row.accountId = accountId ∧ row.status = .active ∧
      (LikePattern.like '\\' row.subject pattern ∨
        LikePattern.like '\\' row.predicate pattern ∨
        LikePattern.like '\\' row.object pattern)
  (limitRows limit (orderDescending Claim.confidence selected)).map rowToClaim

/-- An insert under an id that is taken fails. -/
def insertEvidence (evidence : EvidenceInsert) (now : Text) :
    Option GraphStore :=
  match store.evidence.get? evidence.id with
  | some _ => none
  | none =>
    some { store with
      evidence := store.evidence.set evidence.id (evidence.row now) }

/-- The join leaves the evidence whose claim belongs to the same account. -/
def getEvidenceForClaim (accountId claimId : Text) (limit : Int) :
    List Evidence :=
  let selected := store.evidence.values.filter fun row =>
    row.claimId = claimId ∧ row.accountId = accountId ∧
      (store.claims.get? row.claimId).any fun claim =>
        claim.accountId = row.accountId
  (limitRows limit (orderDescendingBy Evidence.trust Evidence.createdAt
    selected)).map rowToEvidence

/-- The counts of one batch of claims, without those that have no evidence. -/
def countEvidence (accountId : Text) (batch : List Text) : List (Text × Nat) :=
  let selected := (store.evidence.values.filter fun row =>
    row.accountId = accountId ∧ row.claimId ∈ batch).map Evidence.claimId
  selected.dedup.map fun claimId => (claimId, selected.count claimId)

def getEdgesForAccount (accountId : Text) (limit : Int) : List ClaimEdge :=
  limitRows limit (orderDescendingBy ClaimEdge.weight ClaimEdge.createdAt
    (store.edges.values.filter fun row => row.accountId = accountId))

def insertPath (path : ClaimPath) : Option GraphStore :=
  match store.paths.get? path.id with
  | some _ => none
  | none => some { store with paths := store.paths.set path.id path }

def getPathsForClaim (accountId claimId : Text) (limit : Int) :
    List ClaimPath :=
  let selected := store.paths.values.filter fun row =>
    row.accountId = accountId ∧
      (row.startClaimId = claimId ∨ row.endClaimId = claimId)
  (limitRows limit (orderDescending ClaimPath.minConfidence selected)).map
    rowToPath

def deletePathsForAccount (accountId : Text) : GraphStore :=
  { store with paths := store.paths.disown ClaimPath.accountId accountId }

end GraphStore

inductive GraphStatement where
  | upsertClaim (claim : ClaimInsert) (now : Text)
  | getActiveClaims (accountId : Text) (limit : Int)
  | getActiveClaimsByRun (accountId sourceRunId : Text) (limit : Int)
  | searchClaims (accountId query : Text) (limit : Int)
  | insertEvidence (evidence : EvidenceInsert) (now : Text)
  | getEvidenceForClaim (accountId claimId : Text) (limit : Int)
  | countEvidence (accountId : Text) (batch : List Text)
  | getEdgesForAccount (accountId : Text) (limit : Int)
  | insertPath (path : ClaimPath)
  | getPathsForClaim (accountId claimId : Text) (limit : Int)
  | deletePathsForAccount (accountId : Text)

inductive GraphResponse where
  | written
  | failed
  | claims (rows : List Claim)
  | evidence (rows : List Evidence)
  | counts (rows : List (Text × Nat))
  | edges (rows : List ClaimEdge)
  | paths (rows : List ClaimPath)
  deriving DecidableEq

/-- The account for which a statement is issued. -/
def GraphStatement.accountId : GraphStatement → Text
  | upsertClaim claim _ => claim.accountId
  | insertEvidence evidence _ => evidence.accountId
  | insertPath path => path.accountId
  | getActiveClaims accountId _ => accountId
  | getActiveClaimsByRun accountId _ _ => accountId
  | searchClaims accountId _ _ => accountId
  | getEvidenceForClaim accountId _ _ => accountId
  | countEvidence accountId _ => accountId
  | getEdgesForAccount accountId _ => accountId
  | getPathsForClaim accountId _ _ => accountId
  | deletePathsForAccount accountId => accountId

/-- A failed insert leaves the database as it was. -/
def inserted (store : GraphStore) (after : Option GraphStore) :
    GraphStore × GraphResponse :=
  match after with
  | some after => (after, .written)
  | none => (store, .failed)

def execute (statement : GraphStatement) (store : GraphStore) :
    GraphStore × GraphResponse :=
  match statement with
  | .upsertClaim claim now => (store.upsertClaim claim now, .written)
  | .getActiveClaims accountId limit =>
    (store, .claims (store.getActiveClaims accountId limit))
  | .getActiveClaimsByRun accountId sourceRunId limit =>
    (store, .claims (store.getActiveClaimsByRun accountId sourceRunId limit))
  | .searchClaims accountId query limit =>
    (store, .claims (store.searchClaims accountId query limit))
  | .insertEvidence evidence now =>
    inserted store (store.insertEvidence evidence now)
  | .getEvidenceForClaim accountId claimId limit =>
    (store, .evidence (store.getEvidenceForClaim accountId claimId limit))
  | .countEvidence accountId batch =>
    (store, .counts (store.countEvidence accountId batch))
  | .getEdgesForAccount accountId limit =>
    (store, .edges (store.getEdgesForAccount accountId limit))
  | .insertPath path => inserted store (store.insertPath path)
  | .getPathsForClaim accountId claimId limit =>
    (store, .paths (store.getPathsForClaim accountId claimId limit))
  | .deletePathsForAccount accountId =>
    (store.deletePathsForAccount accountId, .written)

end Takos.MemoryGraph
