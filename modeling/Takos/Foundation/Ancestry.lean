import Mathlib.Logic.Relation
import Mathlib.Data.Set.Card

/-!
# Ancestry in a parent relation

Common ancestors of two nodes, the best ones among them, the nearest ones to
one side, and the nodes reachable without passing a given node.  The relation
is arbitrary; nothing here assumes that it is acyclic or finite.
-/

namespace Takos.Foundation.Ancestry

open Relation

universe u

variable {Node : Type u}

/-- `ancestor` is reachable from both tips. -/
def Common (parent : Node → Node → Prop) (left right ancestor : Node) : Prop :=
  ReflTransGen parent left ancestor ∧ ReflTransGen parent right ancestor

/-- A common ancestor that no other common ancestor descends from. -/
def Best (parent : Node → Node → Prop) (left right ancestor : Node) : Prop :=
  Common parent left right ancestor ∧
    ∀ other, Common parent left right other → ¬TransGen parent other ancestor

/-- Paths with their number of parent links. -/
inductive Path (parent : Node → Node → Prop) : Nat → Node → Node → Prop where
  | here (node : Node) : Path parent 0 node node
  | step {count : Nat} {start middle target : Node} :
      Path parent count start middle → parent middle target →
      Path parent (count + 1) start target

variable {parent : Node → Node → Prop}

theorem exists_path_iff {start target : Node} :
    (∃ count, Path parent count start target) ↔
      ReflTransGen parent start target := by
  constructor
  · intro path
    obtain ⟨count, path⟩ := path
    induction path with
    | here node => exact .refl
    | step _ link ih => exact ih.tail link
  · intro reach
    induction reach with
    | refl => exact ⟨0, .here start⟩
    | tail _ link ih =>
        obtain ⟨count, path⟩ := ih
        exact ⟨count + 1, .step path link⟩

/-- A common ancestor at the least number of links from `right`. -/
def Nearest (parent : Node → Node → Prop) (left right ancestor : Node) : Prop :=
  Common parent left right ancestor ∧
    ∃ distance, Path parent distance right ancestor ∧
      ∀ count other, Common parent left right other →
        Path parent count right other → distance ≤ count

theorem Nearest.best {left right ancestor : Node}
    (nearest : Nearest parent left right ancestor)
    (graded : ∀ upper lower, Common parent left right upper →
      Common parent left right lower → TransGen parent upper lower →
      ∀ count, Path parent count right lower →
        ∃ fewer, fewer < count ∧ Path parent fewer right upper) :
    Best parent left right ancestor := by
  obtain ⟨common, distance, path, least⟩ := nearest
  refine ⟨common, ?_⟩
  intro other otherCommon descends
  obtain ⟨fewer, shorter, otherPath⟩ :=
    graded other ancestor otherCommon common descends distance path
  have bound := least fewer other otherCommon otherPath
  omega

/-- Reachability along nodes different from `blocked`. -/
def Avoids (parent : Node → Node → Prop) (blocked start target : Node) : Prop :=
  start ≠ blocked ∧
    ReflTransGen (fun child next => parent child next ∧ next ≠ blocked)
      start target

theorem Avoids.reach {blocked start target : Node}
    (avoids : Avoids parent blocked start target) :
    ReflTransGen parent start target :=
  avoids.2.lift id fun _ _ link => link.1

/-- A node missed by the other side is reached without passing `blocked`, as
soon as the other side reaches `blocked`. -/
theorem avoids_of_unshared {blocked other start target : Node}
    (shared : ReflTransGen parent other blocked)
    (reach : ReflTransGen parent start target)
    (unshared : ¬ReflTransGen parent other target) :
    Avoids parent blocked start target := by
  induction reach with
  | refl =>
      refine ⟨?_, .refl⟩
      intro same
      exact unshared (same ▸ shared)
  | @tail middle target _ link ih =>
      have middleUnshared : ¬ReflTransGen parent other middle := by
        intro reachMiddle
        exact unshared (reachMiddle.tail link)
      have earlier := ih middleUnshared
      refine ⟨earlier.1, earlier.2.tail ⟨link, ?_⟩⟩
      intro same
      exact unshared (same ▸ shared)

/-- Nodes reachable from `start` and not from `other`. -/
def Unshared (parent : Node → Node → Prop) (other start : Node) : Set Node :=
  {node | ReflTransGen parent start node ∧ ¬ReflTransGen parent other node}

theorem unshared_subset_avoids {blocked other start : Node}
    (shared : ReflTransGen parent other blocked) :
    Unshared parent other start ⊆ {node | Avoids parent blocked start node} := by
  intro node member
  exact avoids_of_unshared shared member.1 member.2

/-- Counting around `blocked` counts exactly the unshared nodes when every path
to a shared node passes it. -/
theorem ncard_avoids_eq_iff {blocked other start : Node}
    (shared : ReflTransGen parent other blocked)
    (finite : {node | Avoids parent blocked start node}.Finite) :
    {node | Avoids parent blocked start node}.ncard =
        (Unshared parent other start).ncard ↔
      ∀ node, ReflTransGen parent other node →
        ¬Avoids parent blocked start node := by
  have inclusion : Unshared parent other start ⊆
      {node | Avoids parent blocked start node} :=
    unshared_subset_avoids shared
  constructor
  · intro sameCard node reached avoids
    have sameSet := Set.eq_of_subset_of_ncard_le inclusion
      (Nat.le_of_eq sameCard) finite
    have member : node ∈ Unshared parent other start := by
      rw [sameSet]
      exact avoids
    exact member.2 reached
  · intro gateway
    congr 1
    apply Set.Subset.antisymm
    · intro node avoids
      exact ⟨avoids.reach, fun reached => gateway node reached avoids⟩
    · exact inclusion

end Takos.Foundation.Ancestry
