import Mathlib.Logic.Relation
import Mathlib.Data.Finset.Card
import Mathlib.Data.Finset.SDiff
import Mathlib.Algebra.Order.BigOperators.Group.Finset

/-!
# Layers of an adjacency list

The list gives the parents of each stored node; a parent need not be stored.
`within` collects the stored nodes in fewer than a given number of links from
a root, and `fresh` lists the ids that a walk by layers asks for next, as often
as they are linked.
-/

namespace Takos.Foundation

open Relation

universe u

variable {Node : Type u} [DecidableEq Node]

abbrev Adjacency (Node : Type u) := List (Node × List Node)

namespace Adjacency

omit [DecidableEq Node] in
/-- `child` is stored and names `parent`. -/
def Link (links : Adjacency Node) (child parent : Node) : Prop :=
  ∃ parents, (child, parents) ∈ links ∧ parent ∈ parents

omit [DecidableEq Node] in
def Stored (links : Adjacency Node) (node : Node) : Prop :=
  node ∈ links.map Prod.fst

instance (links : Adjacency Node) (node : Node) : Decidable (links.Stored node) :=
  inferInstanceAs (Decidable (node ∈ links.map Prod.fst))

omit [DecidableEq Node] in
/-- Stored nodes at the end of a path of links. -/
def Reachable (links : Adjacency Node) (root node : Node) : Prop :=
  ReflTransGen links.Link root node ∧ links.Stored node

/-- All links out of a set of nodes. -/
def parentsOf (links : Adjacency Node) (nodes : Finset Node) : List Node :=
  (List.filter (fun row => row.1 ∈ nodes) links).flatMap Prod.snd

def within (links : Adjacency Node) (root : Node) : Nat → Finset Node
  | 0 => ∅
  | count + 1 =>
    (root :: links.parentsOf (within links root count)).toFinset.filter
      fun node => links.Stored node

def fresh (links : Adjacency Node) (root : Node) : Nat → List Node
  | 0 => [root]
  | count + 1 =>
    (links.parentsOf
      (links.within root (count + 1) \ links.within root count)).filter
      fun node => node ∉ links.within root (count + 1)

/-- Number of ids asked for in the layers before `count`. -/
def askedBefore (links : Adjacency Node) (root : Node) (count : Nat) : Nat :=
  ∑ layer ∈ Finset.range count, (links.fresh root layer).length

variable {links : Adjacency Node} {root node child : Node}

theorem mem_parentsOf {nodes : Finset Node} :
    node ∈ links.parentsOf nodes ↔
      ∃ child ∈ nodes, links.Link child node := by
  constructor
  · intro member
    obtain ⟨row, rowMember, named⟩ := List.mem_flatMap.mp member
    obtain ⟨listed, inside⟩ := List.mem_filter.mp rowMember
    exact ⟨row.1, of_decide_eq_true inside, row.2, listed, named⟩
  · intro linked
    obtain ⟨child, inside, parents, listed, named⟩ := linked
    apply List.mem_flatMap.mpr
    exact ⟨(child, parents),
      List.mem_filter.mpr ⟨listed, decide_eq_true inside⟩, named⟩

theorem mem_within_succ {count : Nat} :
    node ∈ links.within root (count + 1) ↔
      links.Stored node ∧
        (node = root ∨ ∃ child ∈ links.within root count,
          links.Link child node) := by
  rw [within, Finset.mem_filter, List.mem_toFinset, List.mem_cons,
    mem_parentsOf]
  exact and_comm

theorem within_succ (count : Nat) :
    links.within root count ⊆ links.within root (count + 1) := by
  induction count with
  | zero => exact Finset.empty_subset _
  | succ count ih =>
      intro node member
      obtain ⟨stored, reached⟩ := mem_within_succ.mp member
      refine mem_within_succ.mpr ⟨stored, ?_⟩
      rcases reached with rfl | ⟨child, childMember, link⟩
      · exact .inl rfl
      · exact .inr ⟨child, ih childMember, link⟩

theorem within_mono {fewer more : Nat} (le : fewer ≤ more) :
    links.within root fewer ⊆ links.within root more := by
  induction le with
  | refl => exact Finset.Subset.refl _
  | step _ ih => exact ih.trans (within_succ _)

theorem within_sound {count : Nat} (member : node ∈ links.within root count) :
    links.Reachable root node := by
  induction count generalizing node with
  | zero => exact absurd member (Finset.notMem_empty node)
  | succ count ih =>
      obtain ⟨stored, reached⟩ := mem_within_succ.mp member
      refine ⟨?_, stored⟩
      rcases reached with rfl | ⟨child, childMember, link⟩
      · exact .refl
      · exact (ih childMember).1.tail link

omit [DecidableEq Node] in
theorem Link.stored (link : links.Link child node) : links.Stored child := by
  obtain ⟨parents, listed, _⟩ := link
  exact List.mem_map.mpr ⟨_, listed, rfl⟩

theorem reachable_iff_within :
    links.Reachable root node ↔ ∃ count, node ∈ links.within root count := by
  constructor
  · intro ⟨path, stored⟩
    induction path with
    | refl => exact ⟨1, mem_within_succ.mpr ⟨stored, .inl rfl⟩⟩
    | tail _ link ih =>
        obtain ⟨count, member⟩ := ih link.stored
        exact ⟨count + 1,
          mem_within_succ.mpr ⟨stored, .inr ⟨_, member, link⟩⟩⟩
  · intro ⟨count, member⟩
    exact within_sound member

theorem fresh_new {count : Nat} (member : node ∈ links.fresh root count) :
    node ∉ links.within root count := by
  cases count with
  | zero => exact Finset.notMem_empty node
  | succ count => exact of_decide_eq_true (List.mem_filter.mp member).2

/-- The stored ids of a layer are the nodes that it adds. -/
theorem mem_fresh_iff {count : Nat} (stored : links.Stored node) :
    node ∈ links.fresh root count ↔
      node ∈ links.within root (count + 1) \ links.within root count := by
  constructor
  · intro member
    refine Finset.mem_sdiff.mpr ⟨?_, fresh_new member⟩
    cases count with
    | zero =>
        rw [fresh, List.mem_singleton] at member
        exact mem_within_succ.mpr ⟨stored, .inl member⟩
    | succ count =>
        obtain ⟨child, childMember, link⟩ :=
          mem_parentsOf.mp (List.mem_filter.mp member).1
        exact mem_within_succ.mpr ⟨stored,
          .inr ⟨child, (Finset.mem_sdiff.mp childMember).1, link⟩⟩
  · intro member
    obtain ⟨later, earlier⟩ := Finset.mem_sdiff.mp member
    obtain ⟨_, reached⟩ := mem_within_succ.mp later
    cases count with
    | zero =>
        rcases reached with rfl | ⟨child, childMember, _⟩
        · exact List.mem_singleton.mpr rfl
        · exact absurd childMember (Finset.notMem_empty child)
    | succ count =>
        rcases reached with rfl | ⟨child, childMember, link⟩
        · exact absurd (mem_within_succ.mpr ⟨stored, .inl rfl⟩) earlier
        · refine List.mem_filter.mpr ⟨mem_parentsOf.mpr ?_,
            decide_eq_true earlier⟩
          refine ⟨child, Finset.mem_sdiff.mpr ⟨childMember, ?_⟩, link⟩
          intro nearer
          exact earlier (mem_within_succ.mpr ⟨stored,
            .inr ⟨child, nearer, link⟩⟩)

theorem within_eq_of_fresh_nil {count : Nat}
    (empty : links.fresh root count = []) {more : Nat} (le : count ≤ more) :
    links.within root more = links.within root count := by
  have next : links.within root (count + 1) = links.within root count := by
    apply Finset.Subset.antisymm _ (within_succ count)
    intro node member
    by_contra newer
    have asked := (mem_fresh_iff (mem_within_succ.mp member).1).mpr
      (Finset.mem_sdiff.mpr ⟨member, newer⟩)
    rw [empty] at asked
    exact List.not_mem_nil asked
  induction le with
  | refl => rfl
  | @step more _ ih =>
      calc
        links.within root (more + 1) = links.within root (count + 1) := by
          rw [within, within, ih]
        _ = links.within root count := next

theorem askedBefore_mono {fewer more : Nat} (le : fewer ≤ more) :
    links.askedBefore root fewer ≤ links.askedBefore root more :=
  Finset.sum_le_sum_of_subset (Finset.range_mono le)

theorem askedBefore_succ (count : Nat) :
    links.askedBefore root (count + 1) =
      links.askedBefore root count + (links.fresh root count).length :=
  Finset.sum_range_succ _ count

theorem length_parentsOf_sdiff (small large : Finset Node)
    (inside : small ⊆ large) :
    (links.parentsOf large).length =
      (links.parentsOf small).length +
        (links.parentsOf (large \ small)).length := by
  induction links with
  | nil => rfl
  | cons row rest ih =>
      simp only [parentsOf, List.filter_cons, Finset.mem_sdiff] at ih ⊢
      by_cases inSmall : row.1 ∈ small
      · have inLarge := inside inSmall
        simp [inSmall, inLarge, ih]
        omega
      · by_cases inLarge : row.1 ∈ large
        · simp [inSmall, inLarge, ih]
          omega
        · simp [inSmall, inLarge, ih]

theorem length_parentsOf_le (nodes : Finset Node) :
    (links.parentsOf nodes).length ≤
      (List.flatMap Prod.snd links).length := by
  apply List.Sublist.length_le
  exact List.Sublist.flatMap List.filter_sublist Prod.snd

theorem askedBefore_le (count : Nat) :
    links.askedBefore root (count + 1) ≤
      1 + (links.parentsOf (links.within root count)).length := by
  induction count with
  | zero => simp [askedBefore, fresh]
  | succ count ih =>
      have asked : (links.fresh root (count + 1)).length ≤
          (links.parentsOf (links.within root (count + 1) \
            links.within root count)).length := List.length_filter_le _ _
      have split := @length_parentsOf_sdiff _ _ links _ _
        (@within_succ _ _ links root count)
      rw [askedBefore_succ]
      omega

theorem askedBefore_le_links (count : Nat) :
    links.askedBefore root count ≤
      1 + (List.flatMap Prod.snd links).length := by
  have bound := @askedBefore_le _ _ links root count
  have all := @length_parentsOf_le _ _ links (links.within root count)
  have more := @askedBefore_mono _ _ links root _ _
    (show count ≤ count + 1 by omega)
  omega

end Adjacency

end Takos.Foundation
