import Mathlib.Logic.Relation
import Mathlib.Data.List.Nodup

/-!
# Graphs whose links depend on a role

A walk that meets a node in some role follows the links of that role only.
When every walked node carries the same links in all roles in which it is met,
a walk that marks nodes without their roles still finds all of them.
-/

namespace Takos.Foundation

universe u v

structure RoleGraph (Role : Type u) (Node : Type v) where
  follow : Role → Node → List (Role × Node)

namespace RoleGraph

variable {Role : Type u} {Node : Type v}

/-- Nodes met from `roots` along followed links that avoid excluded nodes. -/
inductive Meets (graph : RoleGraph Role Node) (skip : Node → Prop)
    (roots : List (Role × Node)) : Role → Node → Prop where
  | root {role : Role} {node : Node} :
      (role, node) ∈ roots → ¬skip node → Meets graph skip roots role node
  | link {role next : Role} {node target : Node} :
      Meets graph skip roots role node →
      (next, target) ∈ graph.follow role node → ¬skip target →
      Meets graph skip roots next target

/-- No met node has different links in two of its roles. -/
def Unambiguous (graph : RoleGraph Role Node) (skip : Node → Prop)
    (roots : List (Role × Node)) : Prop :=
  ∀ node left right, graph.Meets skip roots left node →
    graph.Meets skip roots right node →
      graph.follow left node = graph.follow right node

/-- All links of a node in a role lead to seen or excluded nodes. -/
def Settled (graph : RoleGraph Role Node) (skip seen : Node → Prop)
    (role : Role) (node : Node) : Prop :=
  ∀ link ∈ graph.follow role node, seen link.2 ∨ skip link.2

variable {graph : RoleGraph Role Node} {skip seen : Node → Prop}
  {roots : List (Role × Node)}

theorem Settled.mono {larger : Node → Prop} {role : Role} {node : Node}
    (settled : graph.Settled skip seen role node)
    (grown : ∀ node, seen node → larger node) :
    graph.Settled skip larger role node := by
  intro link member
  rcases settled link member with old | excluded
  · exact .inl (grown _ old)
  · exact .inr excluded

theorem Meets.seen_of_settled (unambiguous : graph.Unambiguous skip roots)
    (started : ∀ root ∈ roots, seen root.2 ∨ skip root.2)
    (settled : ∀ node, seen node → ∃ role, graph.Meets skip roots role node ∧
      graph.Settled skip seen role node)
    {role : Role} {node : Node} (met : graph.Meets skip roots role node) :
    seen node := by
  induction met with
  | root member kept =>
      rcases started _ member with old | excluded
      · exact old
      · exact absurd excluded kept
  | @link role next node target met followed kept ih =>
      obtain ⟨other, otherMet, otherSettled⟩ := settled node ih
      have same := unambiguous node role other met otherMet
      rw [same] at followed
      rcases otherSettled _ followed with old | excluded
      · exact old
      · exact absurd excluded kept

theorem Meets.marked_of_settled {marked : Role → Node → Prop}
    (started : ∀ root ∈ roots, marked root.1 root.2 ∨ skip root.2)
    (settled : ∀ role node, marked role node →
      ∀ link ∈ graph.follow role node, marked link.1 link.2 ∨ skip link.2)
    {role : Role} {node : Node} (met : graph.Meets skip roots role node) :
    marked role node := by
  induction met with
  | root member kept =>
      rcases started _ member with old | excluded
      · exact old
      · exact absurd excluded kept
  | @link role next node target met followed kept ih =>
      rcases settled role node ih _ followed with old | excluded
      · exact old
      · exact absurd excluded kept

end RoleGraph

end Takos.Foundation
