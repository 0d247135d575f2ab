import Takos.Foundation.Collation
import Takos.MemoryGraph.ClaimStore
import Mathlib.Data.List.Defs

/-!
# Calls on the memory graph

A script is what one account does: its statements, each chosen from the
responses so far.  Building paths reads the claims and edges of the account,
searches them in depth, and replaces the paths of the account one by one.
-/

namespace Takos.MemoryGraph

open Takos.Foundation

/-- The statements of an account and what they come to. -/
inductive Script (accountId : Text) (Result : Type) where
  | done (result : Result)
  | ask (statement : GraphStatement) (own : statement.accountId = accountId)
      (next : GraphResponse → Script accountId Result)

namespace Script

variable {accountId : Text} {First Second : Type}

def bind (script : Script accountId First)
    (rest : First → Script accountId Second) : Script accountId Second :=
  match script with
  | done result => rest result
  | ask statement own next => ask statement own fun response =>
      (next response).bind rest

/-- A write that fails throws out of the call. -/
def write (statement : GraphStatement) (own : statement.accountId = accountId) :
    Script accountId Bool :=
  ask statement own fun response => done (response ≠ .failed)

def readClaims (statement : GraphStatement)
    (own : statement.accountId = accountId) : Script accountId (List Claim) :=
  ask statement own fun response =>
    match response with
    | .claims rows => done rows
    | _ => done []

def readEdges (limit : Int) : Script accountId (List ClaimEdge) :=
  ask (.getEdgesForAccount accountId limit) rfl fun response =>
    match response with
    | .edges rows => done rows
    | _ => done []

end Script

variable {accountId : Text}

def countBatches (counts : OrderedMap Text Nat) :
    List (List Text) → Script accountId (OrderedMap Text Nat)
  | [] => .done counts
  | batch :: batches =>
    .ask (.countEvidence accountId batch) rfl fun response =>
      match response with
      | .counts rows =>
        countBatches (rows.foldl (fun counts row => counts.set row.1 row.2)
          counts) batches
      | _ => countBatches counts batches

def countEvidenceForClaims (claimIds : List Text) :
    Script accountId (OrderedMap Text Nat) :=
  countBatches .empty (claimIds.toChunks 20)

structure PathCandidate where
  startClaimId : Text
  endClaimId : Text
  pathClaims : List Text
  pathRelations : List Text
  minConfidence : ℚ
  deriving DecidableEq

abbrev PathCandidates := OrderedMap Text PathCandidate

section Candidates

variable (collation : Collation)

/-- `b.confidence - a.confidence`, and then `localeCompare`. -/
def byConfidence (left right : Claim) : Bool :=
  if right.confidence ≠ left.confidence then
    right.confidence < left.confidence
  else collation.localeCompare right.updatedAt left.updatedAt ≠ .gt

def mergeClaims (primary required : List Claim) (maxClaims : Nat) :
    List Claim :=
  let byId := (primary ++ required).foldl
    (fun (byId : OrderedMap Text Claim) claim => byId.set claim.id claim) .empty
  let requiredIds := required.map Claim.id
  let sorted := byId.values.insertionSort (fun left right =>
    byConfidence collation left right)
  let prioritized := sorted.filter fun claim => claim.id ∈ requiredIds
  let backfill := sorted.filter fun claim => claim.id ∉ requiredIds
  ((prioritized ++ backfill).take maxClaims).insertionSort fun left right =>
    byConfidence collation left right

/-- `parts.join(separator)`. -/
def joinText (separator : Text) (parts : List Text) : Text :=
  separator.intercalate parts

def candidateKey (candidate : PathCandidate) : Text :=
  candidate.startClaimId ++ ':' :: candidate.endClaimId ++
    ':' :: joinText ['>'] candidate.pathClaims ++
    ':' :: joinText ['>'] candidate.pathRelations

/-- The edges that leave a claim, the heaviest first. -/
def outgoing (edges : List ClaimEdge) (claimId : Text) : List ClaimEdge :=
  (edges.filter fun edge => edge.sourceClaimId = claimId).insertionSort
    fun left right =>
      if right.weight ≠ left.weight then right.weight < left.weight
      else collation.localeCompare left.targetClaimId right.targetClaimId ≠ .gt

/-- The candidate that an edge makes of the path so far. -/
def extend (path : PathCandidate) (edge : ClaimEdge) (target : Claim) :
    PathCandidate where
  startClaimId := path.startClaimId
  endClaimId := edge.targetClaimId
  pathClaims := path.pathClaims ++ [edge.targetClaimId]
  pathRelations := path.pathRelations ++ [edge.relation]
  minConfidence := min path.minConfidence target.confidence

/-- `visitPath`, by the number of hops that are left.  The claims that the path
has visited are its own. -/
def visitPath (claimsById : OrderedMap Text Claim) (edges : List ClaimEdge) :
    Nat → PathCandidate → PathCandidates → PathCandidates
  | 0, _, candidates => candidates
  | hops + 1, path, candidates =>
    (outgoing collation edges path.endClaimId).foldl
      (fun candidates edge =>
        if edge.targetClaimId ∈ path.pathClaims then candidates
        else
          match claimsById.get? edge.targetClaimId with
          | none => candidates
          | some target =>
            let next := extend path edge target
            visitPath claimsById edges hops next
              (candidates.set (candidateKey next) next))
      candidates

def startingAt (claim : Claim) : PathCandidate :=
  ⟨claim.id, claim.id, [claim.id], [], claim.confidence⟩

def candidateBefore (left right : PathCandidate) : Bool :=
  if right.minConfidence ≠ left.minConfidence then
    right.minConfidence < left.minConfidence
  else if left.pathRelations.length ≠ right.pathRelations.length then
    left.pathRelations.length < right.pathRelations.length
  else
    let separator := [Char.ofNat 0]
    collation.localeCompare (joinText separator left.pathClaims)
      (joinText separator right.pathClaims) ≠ .gt

def buildPathCandidates (claims : List Claim) (edges : List ClaimEdge)
    (maxHops : Nat) : List PathCandidate :=
  if claims = [] ∨ edges = [] ∨ maxHops < 1 then [] else
  let claimsById := claims.foldl
    (fun (byId : OrderedMap Text Claim) claim => byId.set claim.id claim) .empty
  let startClaims := claims.insertionSort fun left right =>
    if right.confidence ≠ left.confidence then
      right.confidence < left.confidence
    else collation.localeCompare left.id right.id ≠ .gt
  let candidates := startClaims.foldl
    (fun candidates claim =>
      visitPath collation claimsById edges maxHops (startingAt claim)
        candidates) .empty
  candidates.values.insertionSort fun left right =>
    candidateBefore collation left right

end Candidates

structure BuildMemoryPathsOptions where
  sourceRunId : Option Text
  maxClaims : Nat
  maxEdges : Nat
  maxHops : Nat
  maxPaths : Nat

def MAX_ACTIVE_CLAIMS : Nat := 50

def BuildMemoryPathsOptions.defaults (sourceRunId : Option Text) :
    BuildMemoryPathsOptions :=
  ⟨sourceRunId, MAX_ACTIVE_CLAIMS * 2, 1000, 3, 500⟩

structure BuildMemoryPathsResult where
  claimCount : Nat
  edgeCount : Nat
  sourceRunClaimCount : Nat
  insertedPathCount : Nat

def PathCandidate.path (candidate : PathCandidate) (accountId id now : Text) :
    ClaimPath where
  id := id
  accountId := accountId
  startClaimId := candidate.startClaimId
  endClaimId := candidate.endClaimId
  hopCount := candidate.pathRelations.length
  pathClaims := candidate.pathClaims
  pathRelations := candidate.pathRelations
  pathSummary := some (joinText " -> ".toList candidate.pathRelations)
  minConfidence := candidate.minConfidence
  createdAt := now

/-- The inserts of a build, under ids drawn in turn; the first failure ends
it. -/
def insertPaths (ids : Nat → Text) (now : Text) :
    Nat → List PathCandidate → Script accountId Bool
  | _, [] => .done true
  | count, candidate :: rest =>
    (Script.write (.insertPath (candidate.path accountId (ids count) now))
      rfl).bind fun succeeded =>
        if succeeded then insertPaths ids now (count + 1) rest
        else .done false

def readSourceRunClaims (options : BuildMemoryPathsOptions) :
    Script accountId (List Claim) :=
  match options.sourceRunId.filter fun runId => runId ≠ [] with
  | none => .done []
  | some runId =>
    Script.readClaims
      (.getActiveClaimsByRun accountId runId options.maxClaims) rfl

/-- What follows the reads of claims; nothing where an insert has thrown. -/
def buildAfterClaims (collation : Collation) (ids : Nat → Text) (now : Text)
    (options : BuildMemoryPathsOptions)
    (activeClaims sourceRunClaims : List Claim) :
    Script accountId (Option BuildMemoryPathsResult) :=
  let claims := mergeClaims collation activeClaims sourceRunClaims
    options.maxClaims
  (Script.readEdges options.maxEdges).bind fun read =>
  let activeClaimIds := claims.map Claim.id
  let edges := read.filter fun edge =>
    edge.sourceClaimId ∈ activeClaimIds ∧ edge.targetClaimId ∈ activeClaimIds
  let candidates := (buildPathCandidates collation claims edges
    options.maxHops).take options.maxPaths
  (Script.write (.deletePathsForAccount accountId) rfl).bind fun _ =>
  (insertPaths ids now 0 candidates).bind fun succeeded =>
    .done (if succeeded then
      some ⟨claims.length, edges.length, sourceRunClaims.length,
        candidates.length⟩
    else none)

def buildMemoryPaths (collation : Collation) (ids : Nat → Text) (now : Text)
    (options : BuildMemoryPathsOptions) :
    Script accountId (Option BuildMemoryPathsResult) :=
  (Script.readClaims (.getActiveClaims accountId options.maxClaims) rfl).bind
    fun activeClaims =>
  (readSourceRunClaims options).bind fun sourceRunClaims =>
    buildAfterClaims collation ids now options activeClaims sourceRunClaims

end Takos.MemoryGraph
