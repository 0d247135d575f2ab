import Takos.MemoryGraph.PathSearch

/-!
# Candidates and simple paths

The candidates of `buildPathCandidates` are those of the simple paths exactly
where no two candidates share their key.
-/

namespace Takos.MemoryGraph

open Takos.Foundation

def listedById (claims : List Claim) : OrderedMap Text Claim :=
  claims.foldl (fun (byId : OrderedMap Text Claim) claim =>
    byId.set claim.id claim) .empty

theorem listedById_ofList (claims : List Claim) :
    listedById claims =
      OrderedMap.ofList (claims.map fun claim => (claim.id, claim)) := by
  rw [listedById, OrderedMap.ofList, List.foldl_map]

theorem mem_of_ofList {Key Value : Type} [DecidableEq Key]
    {pairs : List (Key × Value)} {key : Key} {value : Value}
    (found : (OrderedMap.ofList pairs).get? key = some value) :
    (key, value) ∈ pairs := by
  rw [OrderedMap.get?_ofList, List.lookup_eq_some_iff] at found
  obtain ⟨front, back, split, _⟩ := found
  rw [← List.mem_reverse, split]
  exact List.mem_append_right front List.mem_cons_self

theorem mem_of_listedById {claims : List Claim} {id : Text} {claim : Claim}
    (found : (listedById claims).get? id = some claim) :
    claim ∈ claims ∧ claim.id = id := by
  rw [listedById_ofList] at found
  obtain ⟨listed, member, same⟩ := List.mem_map.mp (mem_of_ofList found)
  cases same
  exact ⟨member, rfl⟩

theorem listedById_found {claims : List Claim} {claim : Claim}
    (member : claim ∈ claims) :
    ∃ target, (listedById claims).get? claim.id = some target := by
  cases found : (listedById claims).get? claim.id with
  | some target => exact ⟨target, rfl⟩
  | none =>
      rw [OrderedMap.get?_eq_none_iff, listedById_ofList,
        OrderedMap.mem_keys_ofList, List.map_map] at found
      exact absurd (List.mem_map_of_mem member) found

section Starts

variable {collation : Collation} {claimsById : OrderedMap Text Claim}
  {edges : List ClaimEdge} {hops : Nat}

theorem startsVisited_sound {key : Text} {candidate : PathCandidate} :
    ∀ (starts : List Claim) (candidates : PathCandidates),
    (starts.foldl (fun candidates claim => visitPath collation claimsById edges
      hops (startingAt claim) candidates) candidates).get? key =
        some candidate →
    candidates.get? key = some candidate ∨
      (candidateKey candidate = key ∧ ∃ start ∈ starts,
        Reaches claimsById edges hops (startingAt start) candidate) := by
  intro starts
  induction starts with
  | nil =>
      intro candidates filed
      exact .inl filed
  | cons start starts ih =>
      intro candidates filed
      rw [List.foldl_cons] at filed
      rcases ih _ filed with before | ⟨keyed, other, member, reached⟩
      · rcases visitPath_sound _ _ _ _ _ before with earlier | ⟨keyed, reached⟩
        · exact .inl earlier
        · exact .inr ⟨keyed, start, List.mem_cons_self, reached⟩
      · exact .inr ⟨keyed, other, List.mem_cons_of_mem start member, reached⟩

theorem startsVisited_complete {start : Claim} {last : PathCandidate}
    (reached : Reaches claimsById edges hops (startingAt start) last) :
    ∀ (starts : List Claim) (candidates : PathCandidates),
    start ∈ starts ∨ candidateKey last ∈ candidates.keys →
    candidateKey last ∈ (starts.foldl (fun candidates claim =>
      visitPath collation claimsById edges hops (startingAt claim)
        candidates) candidates).keys := by
  intro starts
  induction starts with
  | nil =>
      intro candidates here
      rcases here with member | filed
      · cases member
      · exact filed
  | cons first starts ih =>
      intro candidates here
      rw [List.foldl_cons]
      apply ih
      rcases here with member | filed
      · rcases List.mem_cons.mp member with rfl | later
        · exact .inr (visitPath_complete reached candidates)
        · exact .inl later
      · exact .inr (visitPath_keeps _ _ _ _ filed)

end Starts

theorem pairwise_insertionSort_of {Item : Type} {before : Item → Item → Bool}
    {after : Item → Item → Prop} [IsTrans Item after]
    (kept : ∀ left right, before left right = true → after left right)
    (turned : ∀ left right, before left right = false → after right left)
    (items : List Item) :
    (items.insertionSort fun left right =>
      before left right = true).Pairwise after := by
  induction items with
  | nil => exact .nil
  | cons item items ih =>
      rw [List.insertionSort_cons]
      generalize (items.insertionSort fun left right =>
        before left right = true) = sorted at ih ⊢
      induction sorted with
      | nil => exact List.pairwise_singleton _ _
      | cons first rest restIh =>
          obtain ⟨below, later⟩ := List.pairwise_cons.mp ih
          rw [List.orderedInsert_cons]
          by_cases placed : before item first = true
          · rw [if_pos placed]
            apply List.pairwise_cons.mpr ⟨_, ih⟩
            intro other member
            rcases List.mem_cons.mp member with rfl | member
            · exact kept item other placed
            · exact IsTrans.trans item first other (kept item first placed)
                (below other member)
          · rw [if_neg placed]
            apply List.pairwise_cons.mpr ⟨_, restIh later⟩
            intro other member
            rcases (List.mem_orderedInsert _).mp member with rfl | member
            · exact turned _ _ (Bool.eq_false_iff.mpr placed)
            · exact below other member

theorem confidence_of_candidateBefore {collation : Collation}
    {left right : PathCandidate}
    (before : candidateBefore collation left right = true) :
    right.minConfidence ≤ left.minConfidence := by
  by_cases different : right.minConfidence ≠ left.minConfidence
  · rw [candidateBefore, if_pos different] at before
    exact (of_decide_eq_true before).le
  · exact le_of_eq (not_not.mp different)

theorem confidence_of_not_candidateBefore {collation : Collation}
    {left right : PathCandidate}
    (notBefore : candidateBefore collation left right = false) :
    left.minConfidence ≤ right.minConfidence := by
  by_cases different : right.minConfidence ≠ left.minConfidence
  · rw [candidateBefore, if_pos different] at notBefore
    exact not_lt.mp (of_decide_eq_false notBefore)
  · exact le_of_eq (not_not.mp different).symm

theorem ordered_candidates (collation : Collation)
    (candidates : List PathCandidate) :
    (candidates.insertionSort fun left right =>
      candidateBefore collation left right).Pairwise fun left right =>
        right.minConfidence ≤ left.minConfidence := by
  have transitive : IsTrans PathCandidate fun left right =>
      right.minConfidence ≤ left.minConfidence :=
    ⟨fun _ _ _ first second => second.trans first⟩
  apply pairwise_insertionSort_of
  · intro left right before
    exact confidence_of_candidateBefore before
  · intro left right notBefore
    exact confidence_of_not_candidateBefore notBefore

section Exactness

variable (collation : Collation) (claims : List Claim)
  (edges : List ClaimEdge) (maxHops : Nat)

/-- The claims in the order in which the search starts from them. -/
def startClaims : List Claim :=
  claims.insertionSort fun left right =>
    if right.confidence ≠ left.confidence then
      right.confidence < left.confidence
    else collation.localeCompare left.id right.id ≠ .gt

def candidatesFiled : PathCandidates :=
  (startClaims collation claims).foldl
    (fun candidates claim => visitPath collation (listedById claims) edges
      maxHops (startingAt claim) candidates) .empty

variable {collation claims edges maxHops}

theorem mem_startClaims {claim : Claim} :
    claim ∈ startClaims collation claims ↔ claim ∈ claims :=
  List.mem_insertionSort _

theorem pathOf_of_filed {key : Text} {candidate : PathCandidate}
    (filed : (candidatesFiled collation claims edges maxHops).get? key =
      some candidate) :
    candidateKey candidate = key ∧ PathOf claims edges maxHops candidate := by
  rcases startsVisited_sound _ _ filed with
    before | ⟨keyed, start, member, reached⟩
  · rw [OrderedMap.get?_empty] at before
    cases before
  · have listed := mem_startClaims.mp member
    obtain ⟨path, describes, least, most⟩ :=
      reached.path (fun _ _ found => mem_of_listedById found)
        (SimplePath.start start listed) (SimplePath.start_describes start listed)
    exact ⟨keyed, path, by simpa [SimplePath.start] using least,
      by simpa [SimplePath.start] using most, describes⟩

theorem filed_of_pathOf {candidate : PathCandidate}
    (real : PathOf claims edges maxHops candidate) :
    ∃ filed, (candidatesFiled collation claims edges maxHops).get?
      (candidateKey candidate) = some filed := by
  obtain ⟨path, some_step, within, describes⟩ := real
  obtain ⟨head, stops, route⟩ :=
    List.exists_cons_of_ne_nil path.follows.ne_nil
  have simple := path.simple
  rw [route, List.map_cons, List.nodup_cons] at simple
  have steps : path.steps ≠ [] := by
    intro none
    rw [none, List.length_nil] at some_step
    omega
  obtain ⟨last, reached, goesOn⟩ := path.follows.reached
    (fun claim member => listedById_found member) head stops route maxHops
    (startingAt head) steps within rfl
    (fun claim member => path.listed claim (by
      rw [route]
      exact List.mem_cons_of_mem head member))
    path.drawn simple.2 (by
      intro claim member
      rw [startingAt, List.mem_singleton]
      intro same
      apply simple.1
      rw [← same]
      exact List.mem_map_of_mem member)
  have same : SameRoute last candidate := by
    constructor
    · have start := describes.start
      rw [route] at start
      exact goesOn.start.trans (Option.some.inj start)
    · have finish := describes.finish
      have more : stops ≠ [] := by
        rintro rfl
        have follows := path.follows
        rw [route] at follows
        generalize path.steps = taken at follows steps
        cases follows
        exact steps rfl
      rw [route, List.getLast?_cons_of_ne_nil more, goesOn.finish] at finish
      exact Option.some.inj finish
    · rw [goesOn.claims, describes.claims, route]
      rfl
    · rw [goesOn.relations, describes.relations]
      rfl
  have listed : head ∈ startClaims collation claims := by
    apply mem_startClaims.mpr
    apply path.listed
    rw [route]
    exact List.mem_cons_self
  have member : candidateKey last ∈
      (candidatesFiled collation claims edges maxHops).keys :=
    startsVisited_complete reached _ _ (.inl listed)
  rw [same.key] at member
  cases found : (candidatesFiled collation claims edges maxHops).get?
      (candidateKey candidate) with
  | some filed => exact ⟨filed, rfl⟩
  | none => exact absurd member (OrderedMap.get?_eq_none_iff.mp found)

theorem buildPathCandidates_nothing
    (nothing : claims = [] ∨ edges = [] ∨ maxHops < 1) :
    buildPathCandidates collation claims edges maxHops = [] :=
  if_pos nothing

theorem buildPathCandidates_something
    (something : ¬ (claims = [] ∨ edges = [] ∨ maxHops < 1)) :
    buildPathCandidates collation claims edges maxHops =
      (candidatesFiled collation claims edges maxHops).values.insertionSort
        fun left right => candidateBefore collation left right :=
  if_neg something

theorem not_pathOf_of_nothing
    (nothing : claims = [] ∨ edges = [] ∨ maxHops < 1)
    (candidate : PathCandidate) : ¬ PathOf claims edges maxHops candidate := by
  rintro ⟨path, some_step, within, _⟩
  rcases nothing with rfl | rfl | none
  · obtain ⟨head, stops, route⟩ :=
      List.exists_cons_of_ne_nil path.follows.ne_nil
    have listed := path.listed head (by
      rw [route]
      exact List.mem_cons_self)
    cases listed
  · obtain ⟨edge, member⟩ := List.length_pos_iff_exists_mem.mp some_step
    cases path.drawn edge member
  · omega

theorem mem_buildPathCandidates {candidate : PathCandidate} :
    candidate ∈ buildPathCandidates collation claims edges maxHops ↔
      PathOf claims edges maxHops candidate ∧
        (candidatesFiled collation claims edges maxHops).get?
          (candidateKey candidate) = some candidate := by
  by_cases nothing : claims = [] ∨ edges = [] ∨ maxHops < 1
  · rw [buildPathCandidates_nothing nothing]
    constructor
    · intro member
      cases member
    · intro real
      exact absurd real.1 (not_pathOf_of_nothing nothing candidate)
  · rw [buildPathCandidates_something nothing, List.mem_insertionSort,
      OrderedMap.values, List.mem_map]
    constructor
    · rintro ⟨⟨key, filed⟩, member, rfl⟩
      have found := OrderedMap.get?_eq_some_iff.mpr member
      obtain ⟨keyed, real⟩ := pathOf_of_filed found
      rw [← keyed] at found
      exact ⟨real, found⟩
    · rintro ⟨_, found⟩
      exact ⟨_, OrderedMap.get?_eq_some_iff.mp found, rfl⟩

theorem PathOf.key_of_route {left right : PathCandidate}
    (leftReal : PathOf claims edges maxHops left)
    (rightReal : PathOf claims edges maxHops right)
    (route : (left.pathClaims, left.pathRelations) =
      (right.pathClaims, right.pathRelations)) :
    candidateKey left = candidateKey right := by
  obtain ⟨leftPath, _, _, leftDescribes⟩ := leftReal
  obtain ⟨rightPath, _, _, rightDescribes⟩ := rightReal
  obtain ⟨sameClaims, sameRelations⟩ := Prod.mk.inj route
  have ids : leftPath.stops.map Claim.id = rightPath.stops.map Claim.id := by
    rw [← leftDescribes.claims, ← rightDescribes.claims]
    exact sameClaims
  apply SameRoute.key
  constructor
  · have starts := leftDescribes.start
    rw [← List.head?_map, ids, List.head?_map, rightDescribes.start] at starts
    exact (Option.some.inj starts).symm
  · have ends := leftDescribes.finish
    rw [← List.getLast?_map, ids, List.getLast?_map,
      rightDescribes.finish] at ends
    exact (Option.some.inj ends).symm
  · exact sameClaims
  · exact sameRelations

theorem routes_nodup :
    ((buildPathCandidates collation claims edges maxHops).map fun candidate =>
      (candidate.pathClaims, candidate.pathRelations)).Nodup := by
  have real : ∀ candidate ∈ buildPathCandidates collation claims edges maxHops,
      PathOf claims edges maxHops candidate := fun candidate member =>
    (mem_buildPathCandidates.mp member).1
  have keys : ((buildPathCandidates collation claims edges maxHops).map
      candidateKey).Nodup := by
    by_cases nothing : claims = [] ∨ edges = [] ∨ maxHops < 1
    · rw [buildPathCandidates_nothing nothing]
      exact List.nodup_nil
    · rw [buildPathCandidates_something nothing]
      have permuted := (List.perm_insertionSort
        (fun left right => candidateBefore collation left right)
        (candidatesFiled collation claims edges maxHops).values).map candidateKey
      rw [permuted.nodup_iff, OrderedMap.values, List.map_map]
      have keyed : (candidatesFiled collation claims edges maxHops).entries.map
          (candidateKey ∘ Prod.snd) =
          (candidatesFiled collation claims edges maxHops).entries.map
            Prod.fst := by
        apply List.map_congr_left
        intro entry member
        exact (pathOf_of_filed (OrderedMap.get?_eq_some_iff.mpr member)).1
      rw [keyed]
      exact (candidatesFiled collation claims edges maxHops).nodup
  rw [List.Nodup, List.pairwise_map] at keys ⊢
  apply keys.imp_of_mem
  intro left right leftMember rightMember apart route
  exact apart ((real left leftMember).key_of_route (real right rightMember)
    route)

theorem buildPathCandidates_ordered :
    (buildPathCandidates collation claims edges maxHops).Pairwise
      fun left right => right.minConfidence ≤ left.minConfidence := by
  by_cases nothing : claims = [] ∨ edges = [] ∨ maxHops < 1
  · rw [buildPathCandidates_nothing nothing]
    exact .nil
  · rw [buildPathCandidates_something nothing]
    exact ordered_candidates collation _

theorem ExactPaths.keysApart
    (exactly : ExactPaths claims edges maxHops
      (buildPathCandidates collation claims edges maxHops)) :
    KeysApart claims edges maxHops := by
  intro left right leftReal rightReal same
  have leftFiled := (mem_buildPathCandidates.mp
    ((exactly.mem_iff left).mpr leftReal)).2
  have rightFiled := (mem_buildPathCandidates.mp
    ((exactly.mem_iff right).mpr rightReal)).2
  rw [same] at leftFiled
  exact Option.some.inj (leftFiled.symm.trans rightFiled)

theorem KeysApart.exactPaths (apart : KeysApart claims edges maxHops) :
    ExactPaths claims edges maxHops
      (buildPathCandidates collation claims edges maxHops) where
  mem_iff := by
    intro candidate
    constructor
    · intro member
      exact (mem_buildPathCandidates.mp member).1
    · intro real
      obtain ⟨filed, found⟩ := filed_of_pathOf real
      obtain ⟨keyed, filedReal⟩ := pathOf_of_filed found
      have same := apart filed candidate filedReal real keyed
      rw [same] at found
      exact mem_buildPathCandidates.mpr ⟨real, found⟩
  once := routes_nodup
  ordered := buildPathCandidates_ordered

/-- The candidates are those of the simple paths exactly where no two of these
share their key. -/
theorem buildPathCandidates_exact_iff (collation : Collation)
    (claims : List Claim) (edges : List ClaimEdge) (maxHops : Nat) :
    ExactPaths claims edges maxHops
      (buildPathCandidates collation claims edges maxHops) ↔
    KeysApart claims edges maxHops :=
  ⟨ExactPaths.keysApart, KeysApart.exactPaths⟩

end Exactness

def idClaim (id : Text) : Claim :=
  ⟨id, [], .fact, [], [], [], 1, .active, none, none, [], []⟩

def relates (source target : Text) : ClaimEdge :=
  ⟨[], [], source, target, ['r'], 1, []⟩

def chain : List Text → List ClaimEdge
  | source :: target :: rest => relates source target :: chain (target :: rest)
  | _ => []

theorem follows_chain (first : Text) (rest : List Text) :
    Follows ((first :: rest).map idClaim) (chain (first :: rest)) := by
  induction rest generalizing first with
  | nil => exact .single (idClaim first)
  | cons second rest ih => exact .step rfl rfl (ih second)

def routeAround : List Text := [['s'], ['a'], ['b', '>', 'c'], ['t']]

def routeAcross : List Text := [['s'], ['a', '>', 'b'], ['c'], ['t']]

def crossClaims : List Claim := (routeAround ++ routeAcross.dropLast.tail).map
  idClaim

def crossEdges : List ClaimEdge := chain routeAround ++ chain routeAcross

def routeCandidate (ids : List Text) : PathCandidate :=
  ⟨['s'], ['t'], ids, [['r'], ['r'], ['r']], 1⟩

theorem around_real : PathOf crossClaims crossEdges 3
    (routeCandidate routeAround) := by
  refine ⟨⟨routeAround.map idClaim, chain routeAround, follows_chain _ _,
    by decide, by decide, by decide⟩, by decide, by decide, ?_⟩
  refine ⟨rfl, rfl, by decide, by decide, ⟨idClaim ['s'], by decide, rfl⟩, ?_⟩
  rintro confidence ⟨claim, member, rfl⟩
  obtain ⟨id, _, rfl⟩ := List.mem_map.mp member
  exact le_refl _

theorem across_real : PathOf crossClaims crossEdges 3
    (routeCandidate routeAcross) := by
  refine ⟨⟨routeAcross.map idClaim, chain routeAcross, follows_chain _ _,
    by decide, by decide, by decide⟩, by decide, by decide, ?_⟩
  refine ⟨rfl, rfl, by decide, by decide, ⟨idClaim ['s'], by decide, rfl⟩, ?_⟩
  rintro confidence ⟨claim, member, rfl⟩
  obtain ⟨id, _, rfl⟩ := List.mem_map.mp member
  exact le_refl _

/-- The paths s, a, b>c, t and s, a>b, c, t have one key, and one of them is
lost. -/
theorem path_lost :
    ¬ ExactPaths crossClaims crossEdges 3
      (buildPathCandidates charCollation crossClaims crossEdges 3) := by
  intro exactly
  have same := exactly.keysApart _ _ around_real across_real (by decide)
  revert same
  decide

end Takos.MemoryGraph
