import Mathlib.Logic.Relation

/-!
# Depth-first search with a bound

The search loads a node, marks it and walks its targets one after the other.
It fails where a node cannot be loaded or lies too deep, so a search that ends
has met everything that can be reached.
-/

namespace Takos.Foundation

universe u v

variable {Node : Type u} {Item : Type v}
  (load : Node → Option (Item × List Node))

/-- The nodes met so far, each with what was loaded for it. -/
def depthSearch [DecidableEq Node] :
    Nat → List (Node × Item) → Node → Option (List (Node × Item))
  | 0, _, _ => none
  | depth + 1, met, node =>
    if node ∈ met.map Prod.fst then some met
    else (load node).bind fun loaded =>
      loaded.2.foldlM (depthSearch depth) (met ++ [(node, loaded.1)])

namespace DepthSearch

def Step (source target : Node) : Prop :=
  ∃ loaded, load source = some loaded ∧ target ∈ loaded.2

abbrev Reaches : Node → Node → Prop := Relation.ReflTransGen (Step load)

/-- A node that was reached, loaded and followed. -/
def Followed (root : Node) (found : List (Node × Item)) (entry : Node × Item) :
    Prop :=
  Reaches load root entry.1 ∧
    ∃ targets, load entry.1 = some (entry.2, targets) ∧
      targets ⊆ found.map Prod.fst

/-- What a search from nodes that `root` reaches does to the nodes met. -/
structure Grown (root : Node) (met found : List (Node × Item)) : Prop where
  kept : met ⊆ found
  added : ∀ entry ∈ found, entry ∈ met ∨ Followed load root found entry

variable {load} {root node : Node} {met found : List (Node × Item)}

theorem Grown.trans {middle : List (Node × Item)}
    (first : Grown load root met middle) (rest : Grown load root middle found) :
    Grown load root met found := by
  refine ⟨List.Subset.trans first.kept rest.kept, ?_⟩
  intro entry member
  rcases rest.added entry member with old | followed
  · rcases first.added entry old with older | ⟨path, targets, read, closed⟩
    · exact .inl older
    · exact .inr ⟨path, targets, read,
        List.Subset.trans closed (List.map_subset _ rest.kept)⟩
  · exact .inr followed

theorem foldlM_grown {search : List (Node × Item) → Node →
      Option (List (Node × Item))} {targets : List Node}
    (grows : ∀ {met node found}, Reaches load root node →
      search met node = some found →
      Grown load root met found ∧ node ∈ found.map Prod.fst)
    (reached : ∀ target ∈ targets, Reaches load root target)
    (ended : targets.foldlM search met = some found) :
    Grown load root met found ∧ targets ⊆ found.map Prod.fst := by
  induction targets generalizing met with
  | nil =>
      cases ended
      exact ⟨⟨List.Subset.refl _, fun _ old => .inl old⟩, List.nil_subset _⟩
  | cons target targets ih =>
      obtain ⟨here, later⟩ := List.forall_mem_cons.mp reached
      obtain ⟨middle, first, rest⟩ := Option.bind_eq_some_iff.mp ended
      obtain ⟨before, held⟩ := grows here first
      obtain ⟨after, others⟩ := ih later rest
      exact ⟨before.trans after, List.cons_subset.mpr
        ⟨List.map_subset Prod.fst after.kept held, others⟩⟩

variable [DecidableEq Node] {depth : Nat}

theorem depthSearch_grown (reached : Reaches load root node)
    (ended : depthSearch load depth met node = some found) :
    Grown load root met found ∧ node ∈ found.map Prod.fst := by
  induction depth generalizing met node found with
  | zero => cases ended
  | succ depth ih =>
      unfold depthSearch at ended
      split at ended
      · rename_i old
        cases ended
        exact ⟨⟨List.Subset.refl _, fun _ old => .inl old⟩, old⟩
      · obtain ⟨loaded, read, walked⟩ := Option.bind_eq_some_iff.mp ended
        obtain ⟨grown, targets⟩ := foldlM_grown ih (fun target listed =>
          reached.tail ⟨loaded, read, listed⟩) walked
        obtain ⟨kept, marked⟩ := List.append_subset.mp grown.kept
        refine ⟨⟨kept, ?_⟩, List.mem_map_of_mem (marked List.mem_cons_self)⟩
        intro entry member
        rcases grown.added entry member with old | followed
        · rcases List.mem_append.mp old with older | this
          · exact .inl older
          · rw [List.mem_singleton.mp this]
            exact .inr ⟨reached, loaded.2, read, targets⟩
        · exact .inr followed

/-- A search that ends has loaded exactly the nodes that can be reached. -/
theorem depthSearch_exact
    (ended : depthSearch load depth [] root = some found) :
    (∀ entry ∈ found, Followed load root found entry) ∧
      ∀ node, node ∈ found.map Prod.fst ↔ Reaches load root node := by
  obtain ⟨grown, start⟩ := depthSearch_grown .refl ended
  have followed : ∀ entry ∈ found, Followed load root found entry :=
    fun entry member => (grown.added entry member).resolve_left
      List.not_mem_nil
  refine ⟨followed, fun node => ⟨?_, ?_⟩⟩
  · intro member
    obtain ⟨entry, listed, rfl⟩ := List.mem_map.mp member
    exact (followed entry listed).1
  · intro path
    induction path with
    | refl => exact start
    | tail _ step ih =>
        obtain ⟨entry, listed, rfl⟩ := List.mem_map.mp ih
        obtain ⟨_, targets, loaded, closed⟩ := followed entry listed
        obtain ⟨read, same, target⟩ := step
        rw [loaded] at same
        cases same
        exact closed target

end DepthSearch

end Takos.Foundation
