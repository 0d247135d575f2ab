import Takos.MemoryGraph.PathBuilder
import Mathlib.Order.Bounds.Basic

/-!
# Simple paths of the memory graph

A simple path goes from claim to claim along edges and comes to no claim twice.
The search of `visitPath` files one candidate for each way it can go on from a
path, and the ways it can go on are the simple paths.
-/

namespace Takos.MemoryGraph

open Takos.Foundation

/-- Claims joined one to the next by edges. -/
inductive Follows : List Claim → List ClaimEdge → Prop where
  | single (claim : Claim) : Follows [claim] []
  | step {claim next : Claim} {stops : List Claim} {edge : ClaimEdge}
      {steps : List ClaimEdge} (leaves : edge.sourceClaimId = claim.id)
      (arrives : edge.targetClaimId = next.id)
      (rest : Follows (next :: stops) steps) :
      Follows (claim :: next :: stops) (edge :: steps)

structure SimplePath (claims : List Claim) (edges : List ClaimEdge) where
  stops : List Claim
  steps : List ClaimEdge
  follows : Follows stops steps
  listed : ∀ claim ∈ stops, claim ∈ claims
  drawn : ∀ edge ∈ steps, edge ∈ edges
  simple : (stops.map Claim.id).Nodup

structure SimplePath.Describes {claims : List Claim} {edges : List ClaimEdge}
    (path : SimplePath claims edges) (candidate : PathCandidate) : Prop where
  start : path.stops.head?.map Claim.id = some candidate.startClaimId
  finish : path.stops.getLast?.map Claim.id = some candidate.endClaimId
  claims : candidate.pathClaims = path.stops.map Claim.id
  relations : candidate.pathRelations = path.steps.map ClaimEdge.relation
  least : IsLeast {confidence | ∃ claim ∈ path.stops,
    claim.confidence = confidence} candidate.minConfidence

/-- A simple path of one to `maxHops` edges that the candidate describes. -/
def PathOf (claims : List Claim) (edges : List ClaimEdge) (maxHops : Nat)
    (candidate : PathCandidate) : Prop :=
  ∃ path : SimplePath claims edges, 1 ≤ path.steps.length ∧
    path.steps.length ≤ maxHops ∧ path.Describes candidate

/-- The candidates are those of the simple paths, each once, the most confident
first. -/
structure ExactPaths (claims : List Claim) (edges : List ClaimEdge)
    (maxHops : Nat) (result : List PathCandidate) : Prop where
  mem_iff : ∀ candidate,
    candidate ∈ result ↔ PathOf claims edges maxHops candidate
  once : (result.map fun candidate =>
    (candidate.pathClaims, candidate.pathRelations)).Nodup
  ordered : result.Pairwise fun left right =>
    right.minConfidence ≤ left.minConfidence

/-- No two candidates of simple paths share their key. -/
def KeysApart (claims : List Claim) (edges : List ClaimEdge) (maxHops : Nat) :
    Prop :=
  ∀ left right, PathOf claims edges maxHops left →
    PathOf claims edges maxHops right →
    candidateKey left = candidateKey right → left = right

theorem Follows.snoc {stops : List Claim} {steps : List ClaimEdge}
    {edge : ClaimEdge} {target : Claim} (follows : Follows stops steps)
    (leaves : stops.getLast?.map Claim.id = some edge.sourceClaimId)
    (arrives : edge.targetClaimId = target.id) :
    Follows (stops ++ [target]) (steps ++ [edge]) := by
  induction follows with
  | single claim =>
      have source : edge.sourceClaimId = claim.id := by
        simpa using leaves.symm
      exact .step source arrives (.single target)
  | step leaves' arrives' rest ih =>
      apply Follows.step leaves' arrives'
      apply ih
      simpa only [List.getLast?_cons_cons] using leaves

theorem Follows.ne_nil {stops : List Claim} {steps : List ClaimEdge}
    (follows : Follows stops steps) : stops ≠ [] := by
  cases follows with
  | single | step => simp

section Growth

variable {claims : List Claim} {edges : List ClaimEdge}

def SimplePath.start (claim : Claim) (listed : claim ∈ claims) :
    SimplePath claims edges where
  stops := [claim]
  steps := []
  follows := .single claim
  listed := by simpa using listed
  drawn := by simp
  simple := by simp

theorem SimplePath.start_describes (claim : Claim) (listed : claim ∈ claims) :
    (start claim listed : SimplePath claims edges).Describes (startingAt claim) where
  start := rfl
  finish := rfl
  claims := rfl
  relations := rfl
  least := by
    constructor
    · exact ⟨claim, List.mem_singleton_self claim, rfl⟩
    · rintro confidence ⟨other, member, rfl⟩
      rw [List.mem_singleton.mp member]
      exact le_refl _

theorem SimplePath.grow {path : SimplePath claims edges}
    {candidate : PathCandidate} {edge : ClaimEdge} {target : Claim}
    (describes : path.Describes candidate) (drawn : edge ∈ edges)
    (leaves : edge.sourceClaimId = candidate.endClaimId)
    (fresh : edge.targetClaimId ∉ candidate.pathClaims)
    (listed : target ∈ claims) (arrives : target.id = edge.targetClaimId) :
    ∃ longer : SimplePath claims edges,
      longer.steps.length = path.steps.length + 1 ∧
      longer.Describes (extend candidate edge target) := by
  refine ⟨⟨path.stops ++ [target], path.steps ++ [edge], ?_, ?_, ?_, ?_⟩,
    by simp, ?_⟩
  · apply path.follows.snoc _ arrives.symm
    rw [describes.finish, leaves]
  · intro claim member
    rcases List.mem_append.mp member with earlier | last
    · exact path.listed claim earlier
    · rw [List.mem_singleton.mp last]
      exact listed
  · intro other member
    rcases List.mem_append.mp member with earlier | last
    · exact path.drawn other earlier
    · rw [List.mem_singleton.mp last]
      exact drawn
  · rw [List.map_append, List.nodup_append]
    refine ⟨path.simple, by simp, ?_⟩
    rw [describes.claims] at fresh
    rintro earlier member last lastMember rfl
    have same : earlier = target.id := by simpa using lastMember
    rw [same, arrives] at member
    exact fresh member
  · constructor
    · have head : path.stops ≠ [] := path.follows.ne_nil
      rw [List.head?_append_of_ne_nil _ head]
      exact describes.start
    · simp [extend, arrives]
    · simp [extend, describes.claims, arrives]
    · simp [extend, describes.relations]
    · obtain ⟨⟨claim, member, attained⟩, bound⟩ := describes.least
      constructor
      · rcases min_choice candidate.minConfidence target.confidence with
          earlier | last
        · refine ⟨claim, List.mem_append_left _ member, ?_⟩
          exact attained.trans earlier.symm
        · refine ⟨target, by simp, ?_⟩
          exact last.symm
      · rintro confidence ⟨other, otherMember, rfl⟩
        rcases List.mem_append.mp otherMember with earlier | last
        · exact (min_le_left _ _).trans (bound ⟨other, earlier, rfl⟩)
        · rw [List.mem_singleton.mp last]
          exact min_le_right _ _

end Growth

end Takos.MemoryGraph

/-!
# The search of simple paths

Going on from a path, the search files exactly the candidates it can reach
within the hops left.  From the start of a claim these are, up to the confidence
of claims listed twice, the candidates of the simple paths.
-/

namespace Takos.MemoryGraph

open Takos.Foundation

/-- The candidates that edges to listed claims make of a path. -/
inductive Reaches (claimsById : OrderedMap Text Claim)
    (edges : List ClaimEdge) : Nat → PathCandidate → PathCandidate → Prop where
  | hop {hops : Nat} {path : PathCandidate} {edge : ClaimEdge} {target : Claim}
      (drawn : edge ∈ edges) (leaves : edge.sourceClaimId = path.endClaimId)
      (fresh : edge.targetClaimId ∉ path.pathClaims)
      (listed : claimsById.get? edge.targetClaimId = some target) :
      Reaches claimsById edges (hops + 1) path (extend path edge target)
  | further {hops : Nat} {path last : PathCandidate} {edge : ClaimEdge}
      {target : Claim} (drawn : edge ∈ edges)
      (leaves : edge.sourceClaimId = path.endClaimId)
      (fresh : edge.targetClaimId ∉ path.pathClaims)
      (listed : claimsById.get? edge.targetClaimId = some target)
      (rest : Reaches claimsById edges hops (extend path edge target) last) :
      Reaches claimsById edges (hops + 1) path last

section Search

variable (collation : Collation) (claimsById : OrderedMap Text Claim)
  (edges : List ClaimEdge)

def visitEdge (hops : Nat) (path : PathCandidate) (candidates : PathCandidates)
    (edge : ClaimEdge) : PathCandidates :=
  if edge.targetClaimId ∈ path.pathClaims then candidates
  else
    match claimsById.get? edge.targetClaimId with
    | none => candidates
    | some target =>
      let next := extend path edge target
      visitPath collation claimsById edges hops next
        (candidates.set (candidateKey next) next)

theorem visitPath_succ (hops : Nat) (path : PathCandidate)
    (candidates : PathCandidates) :
    visitPath collation claimsById edges (hops + 1) path candidates =
      (outgoing collation edges path.endClaimId).foldl
        (visitEdge collation claimsById edges hops path) candidates :=
  rfl

variable {collation claimsById edges}

variable {edge : ClaimEdge} {hops : Nat} {candidates : PathCandidates}

theorem visitEdge_fresh {path : PathCandidate} {target : Claim}
    (fresh : edge.targetClaimId ∉ path.pathClaims)
    (listed : claimsById.get? edge.targetClaimId = some target) :
    visitEdge collation claimsById edges hops path candidates edge =
      visitPath collation claimsById edges hops (extend path edge target)
        (candidates.set (candidateKey (extend path edge target))
          (extend path edge target)) := by
  simp only [visitEdge, if_neg fresh, listed]

/-- An edge is passed over, or followed to a claim that is not on the path. -/
theorem visitEdge_cases (path : PathCandidate) (candidates : PathCandidates)
    (edge : ClaimEdge) :
    visitEdge collation claimsById edges hops path candidates edge =
      candidates ∨
    ∃ target, edge.targetClaimId ∉ path.pathClaims ∧
      claimsById.get? edge.targetClaimId = some target ∧
      visitEdge collation claimsById edges hops path candidates edge =
        visitPath collation claimsById edges hops (extend path edge target)
          (candidates.set (candidateKey (extend path edge target))
            (extend path edge target)) := by
  by_cases seen : edge.targetClaimId ∈ path.pathClaims
  · exact .inl (if_pos seen)
  · cases listed : claimsById.get? edge.targetClaimId with
    | none =>
        left
        simp only [visitEdge, listed, ite_self]
    | some target => exact .inr ⟨target, seen, rfl, visitEdge_fresh seen listed⟩

theorem mem_outgoing {claimId : Text} :
    edge ∈ outgoing collation edges claimId ↔
      edge ∈ edges ∧ edge.sourceClaimId = claimId := by
  rw [outgoing, List.mem_insertionSort, List.mem_filter, decide_eq_true_iff]

theorem visitPath_sound : ∀ (hops : Nat) (path : PathCandidate)
    (candidates : PathCandidates) (key : Text) (candidate : PathCandidate),
    (visitPath collation claimsById edges hops path candidates).get? key =
      some candidate →
    candidates.get? key = some candidate ∨
      (candidateKey candidate = key ∧
        Reaches claimsById edges hops path candidate) := by
  intro hops
  induction hops with
  | zero =>
      intro path candidates key candidate filed
      exact .inl filed
  | succ hops ih =>
      intro path candidates key candidate filed
      rw [visitPath_succ] at filed
      have out : ∀ edge ∈ outgoing collation edges path.endClaimId,
          edge ∈ edges ∧ edge.sourceClaimId = path.endClaimId :=
        fun edge member => mem_outgoing.mp member
      generalize outgoing collation edges path.endClaimId = leaving at filed out
      induction leaving generalizing candidates with
      | nil => exact .inl filed
      | cons edge leaving leavingIh =>
          rw [List.foldl_cons] at filed
          have later := leavingIh _ filed fun other member =>
            out other (List.mem_cons_of_mem edge member)
          rcases later with before | reached
          · obtain ⟨drawn, leaves⟩ := out edge List.mem_cons_self
            rcases visitEdge_cases path candidates edge with
              passed | ⟨target, fresh, listed, followed⟩
            · exact .inl (passed ▸ before)
            · rw [followed] at before
              rcases ih _ _ _ _ before with set | ⟨keyed, reached⟩
              · rw [OrderedMap.get?_set] at set
                by_cases same : key = candidateKey (extend path edge target)
                · rw [if_pos same] at set
                  cases set
                  exact .inr ⟨same.symm, .hop drawn leaves fresh listed⟩
                · rw [if_neg same] at set
                  exact .inl set
              · exact .inr ⟨keyed, .further drawn leaves fresh listed reached⟩
          · exact .inr reached

theorem mem_keys_set_of_mem {key other : Text} {value : PathCandidate}
    (member : key ∈ candidates.keys) :
    key ∈ (candidates.set other value).keys :=
  OrderedMap.mem_keys_set.mpr (.inr member)

theorem visitPath_keeps : ∀ (hops : Nat) (path : PathCandidate)
    (candidates : PathCandidates) (key : Text), key ∈ candidates.keys →
    key ∈ (visitPath collation claimsById edges hops path candidates).keys := by
  intro hops
  induction hops with
  | zero =>
      intro path candidates key member
      exact member
  | succ hops ih =>
      intro path candidates key member
      rw [visitPath_succ]
      generalize outgoing collation edges path.endClaimId = leaving
      induction leaving generalizing candidates with
      | nil => exact member
      | cons edge leaving leavingIh =>
          rw [List.foldl_cons]
          apply leavingIh
          rcases visitEdge_cases path candidates edge with
            passed | ⟨target, _, _, followed⟩
          · exact passed.symm ▸ member
          · rw [followed]
            apply ih
            exact mem_keys_set_of_mem member

theorem visitEdge_keeps {path : PathCandidate} {key : Text} (edge : ClaimEdge)
    (member : key ∈ candidates.keys) :
    key ∈ (visitEdge collation claimsById edges hops path candidates
      edge).keys := by
  rcases visitEdge_cases path candidates edge with
    passed | ⟨target, _, _, followed⟩
  · exact passed.symm ▸ member
  · rw [followed]
    apply visitPath_keeps
    exact mem_keys_set_of_mem member

theorem mem_foldl_visitEdge {path : PathCandidate} {key : Text}
    (files : ∀ candidates, key ∈ (visitEdge collation claimsById edges hops
      path candidates edge).keys) :
    ∀ (leaving : List ClaimEdge) (candidates : PathCandidates),
      edge ∈ leaving ∨ key ∈ candidates.keys →
      key ∈ (leaving.foldl (visitEdge collation claimsById edges hops path)
        candidates).keys := by
  intro leaving
  induction leaving with
  | nil =>
      intro candidates here
      rcases here with member | filed
      · cases member
      · exact filed
  | cons other leaving ih =>
      intro candidates here
      rw [List.foldl_cons]
      apply ih
      rcases here with member | filed
      · rcases List.mem_cons.mp member with rfl | later
        · exact .inr (files candidates)
        · exact .inl later
      · exact .inr (visitEdge_keeps other filed)

theorem visitPath_complete {path last : PathCandidate}
    (reached : Reaches claimsById edges hops path last) :
    ∀ candidates : PathCandidates, candidateKey last ∈
      (visitPath collation claimsById edges hops path candidates).keys := by
  induction reached with
  | hop drawn leaves fresh listed =>
      intro candidates
      rw [visitPath_succ]
      apply mem_foldl_visitEdge _ _ _ (.inl (mem_outgoing.mpr ⟨drawn, leaves⟩))
      intro others
      rw [visitEdge_fresh fresh listed]
      apply visitPath_keeps
      exact OrderedMap.mem_keys_set.mpr (.inl rfl)
  | further drawn leaves fresh listed rest ih =>
      intro candidates
      rw [visitPath_succ]
      apply mem_foldl_visitEdge _ _ _ (.inl (mem_outgoing.mpr ⟨drawn, leaves⟩))
      intro others
      rw [visitEdge_fresh fresh listed]
      exact ih _

end Search

section Paths

variable {claims : List Claim} {edges : List ClaimEdge}
  {claimsById : OrderedMap Text Claim}

theorem Reaches.path
    (known : ∀ id claim, claimsById.get? id = some claim →
      claim ∈ claims ∧ claim.id = id) {hops : Nat}
    {candidate last : PathCandidate}
    (reached : Reaches claimsById edges hops candidate last) :
    ∀ path : SimplePath claims edges, path.Describes candidate →
      ∃ longer : SimplePath claims edges, longer.Describes last ∧
        path.steps.length + 1 ≤ longer.steps.length ∧
        longer.steps.length ≤ path.steps.length + hops := by
  induction reached with
  | @hop hops candidate edge target drawn leaves fresh listed =>
      intro path describes
      obtain ⟨member, named⟩ := known _ _ listed
      obtain ⟨longer, length, described⟩ :=
        SimplePath.grow describes drawn leaves fresh member named
      exact ⟨longer, described, by omega, by omega⟩
  | @further hops candidate last edge target drawn leaves fresh listed rest
      ih =>
      intro path describes
      obtain ⟨member, named⟩ := known _ _ listed
      obtain ⟨longer, length, described⟩ :=
        SimplePath.grow describes drawn leaves fresh member named
      obtain ⟨longest, described, least, most⟩ := ih longer described
      exact ⟨longest, described, by omega, by omega⟩

/-- The two candidates differ in their confidence at most. -/
structure SameRoute (left right : PathCandidate) : Prop where
  start : left.startClaimId = right.startClaimId
  finish : left.endClaimId = right.endClaimId
  claims : left.pathClaims = right.pathClaims
  relations : left.pathRelations = right.pathRelations

theorem SameRoute.key {left right : PathCandidate}
    (same : SameRoute left right) : candidateKey left = candidateKey right := by
  rw [candidateKey, candidateKey, same.start, same.finish, same.claims,
    same.relations]

/-- The candidate goes on from another by these claims and edges. -/
structure GoesOn (candidate last : PathCandidate) (stops : List Claim)
    (steps : List ClaimEdge) : Prop where
  start : last.startClaimId = candidate.startClaimId
  finish : stops.getLast?.map Claim.id = some last.endClaimId
  claims : last.pathClaims = candidate.pathClaims ++ stops.map Claim.id
  relations : last.pathRelations =
    candidate.pathRelations ++ steps.map ClaimEdge.relation

theorem Follows.reached
    (known : ∀ claim ∈ claims, ∃ target,
      claimsById.get? claim.id = some target)
    {route : List Claim} {steps : List ClaimEdge}
    (follows : Follows route steps) :
    ∀ (head : Claim) (stops : List Claim), route = head :: stops →
    ∀ (hops : Nat) (candidate : PathCandidate), steps ≠ [] →
      steps.length ≤ hops → candidate.endClaimId = head.id →
      (∀ claim ∈ stops, claim ∈ claims) → (∀ edge ∈ steps, edge ∈ edges) →
      (stops.map Claim.id).Nodup →
      (∀ claim ∈ stops, claim.id ∉ candidate.pathClaims) →
      ∃ last, Reaches claimsById edges hops candidate last ∧
        GoesOn candidate last stops steps := by
  induction follows with
  | single claim =>
      intro head stops _ hops candidate some_step
      exact absurd rfl some_step
  | @step claim second others edge steps leaves arrives rest ih =>
      intro head stops route hops candidate _ within ends listed drawn simple
        fresh
      obtain ⟨rfl, rfl⟩ := List.cons.inj route
      obtain ⟨hops, rfl⟩ : ∃ fewer, hops = fewer + 1 :=
        ⟨hops - 1, by simp only [List.length_cons] at within; omega⟩
      obtain ⟨target, found⟩ := known second (listed second List.mem_cons_self)
      rw [← arrives] at found
      have edgeDrawn := drawn edge List.mem_cons_self
      have edgeLeaves : edge.sourceClaimId = candidate.endClaimId :=
        leaves.trans ends.symm
      have edgeFresh : edge.targetClaimId ∉ candidate.pathClaims := by
        rw [arrives]
        exact fresh second List.mem_cons_self
      rw [List.map_cons, List.nodup_cons] at simple
      cases rest with
      | single =>
          refine ⟨extend candidate edge target,
            .hop edgeDrawn edgeLeaves edgeFresh found, rfl, ?_, ?_, rfl⟩
          · simp [extend, arrives]
          · simp [extend, arrives]
      | @step _ third further next laterSteps laterLeaves laterArrives later =>
          obtain ⟨last, reached, goesOn⟩ := ih second (third :: further) rfl
            hops (extend candidate edge target) (List.cons_ne_nil _ _)
            (by simp only [List.length_cons] at within ⊢; omega) arrives
            (fun other member => listed other (List.mem_cons_of_mem _ member))
            (fun other member => drawn other (List.mem_cons_of_mem _ member))
            simple.2 (by
              intro other member
              rw [extend, List.mem_append, List.mem_singleton, arrives]
              rintro (seen | same)
              · exact fresh other (List.mem_cons_of_mem _ member) seen
              · apply simple.1
                rw [← same]
                exact List.mem_map_of_mem member)
          refine ⟨last,
            .further edgeDrawn edgeLeaves edgeFresh found reached,
            goesOn.start, ?_, ?_, ?_⟩
          · rw [List.getLast?_cons_cons]
            exact goesOn.finish
          · rw [goesOn.claims]
            simp [extend, arrives]
          · rw [goesOn.relations]
            simp [extend]

end Paths

end Takos.MemoryGraph
