import Mathlib.Logic.Relation
import Mathlib.Data.List.Nodup
import Mathlib.Algebra.Order.BigOperators.Group.List
import Mathlib.Tactic.Linarith

/-!
# Queue-driven graph search

A first-in first-out search keeps a queue of nodes and a visited set.  Each
round shifts one node, drops it when it was seen or is excluded, stops when it
satisfies the goal, and otherwise marks it and appends its successors.

The successor function has finite support, so the loop is total.  The invariant
below labels every node with the round depth at which it was appended; all
results about a search are read off from it.
-/

namespace Takos.Foundation

universe u

/-- A search problem whose successor function is supported on a finite list. -/
structure QueueSearch (Node : Type u) where
  next : Node → List Node
  support : List Node
  next_nil : ∀ node, node ∉ support → next node = []
  skip : Node → Bool
  stop : Node → Bool
  prune : Bool

namespace QueueSearch

variable {Node : Type u}

/-- A step to a successor that is not excluded. -/
def Step (search : QueueSearch Node) (source target : Node) : Prop :=
  target ∈ search.next source ∧ search.skip target = false

/-- Paths of a given length that never enter an excluded node. -/
inductive Hops (search : QueueSearch Node) : Nat → Node → Node → Prop where
  | here {node : Node} : search.skip node = false → Hops search 0 node node
  | step {count : Nat} {start middle target : Node} :
      Hops search count start middle → search.Step middle target →
      Hops search (count + 1) start target

/-- Reachability along paths that avoid the excluded nodes. -/
def Reaches (search : QueueSearch Node) (start target : Node) : Prop :=
  ∃ count, search.Hops count start target

theorem reaches_iff (search : QueueSearch Node) (start target : Node) :
    search.Reaches start target ↔
      search.skip start = false ∧
        Relation.ReflTransGen search.Step start target := by
  constructor
  · rintro ⟨count, hops⟩
    induction hops with
    | here kept => exact ⟨kept, .refl⟩
    | step _ step ih => exact ⟨ih.1, ih.2.tail step⟩
  · rintro ⟨kept, path⟩
    induction path with
    | refl => exact ⟨0, .here kept⟩
    | tail _ step ih =>
        obtain ⟨count, hops⟩ := ih
        exact ⟨count + 1, .step hops step⟩

/-- Loop invariant.  `done` labels the visited nodes and `levels` the queued
ones with the number of rounds that separate them from `start`. -/
structure Layered (search : QueueSearch Node) (start : Node)
    (visited queue : List Node) (done levels : List (Node × Nat)) : Prop where
  doneNodes : done.map Prod.fst = visited
  levelNodes : levels.map Prod.fst = queue
  nodup : visited.Nodup
  unstopped : ∀ node ∈ visited, search.stop node = false
  sorted : levels.Pairwise (fun earlier later => earlier.2 ≤ later.2)
  spread : ∀ left ∈ levels, ∀ right ∈ levels, right.2 ≤ left.2 + 1
  doneLe : ∀ old ∈ done, ∀ queued ∈ levels, old.2 ≤ queued.2
  doneHops : ∀ old ∈ done, search.Hops old.2 start old.1
  levelHops : ∀ queued ∈ levels, search.skip queued.1 = false →
    search.Hops queued.2 start queued.1
  origin : search.skip start = false → (start, 0) ∈ done ++ levels
  closed : ∀ old ∈ done, ∀ successor ∈ search.next old.1,
    search.skip successor = false →
      ∃ label ∈ done ++ levels, label.1 = successor ∧ label.2 ≤ old.2 + 1

namespace Layered

variable {search : QueueSearch Node} {start : Node}
  {visited queue : List Node} {done levels : List (Node × Nat)}

theorem initial (search : QueueSearch Node) (start : Node) :
    Layered search start [] [start] [] [(start, 0)] where
  doneNodes := rfl
  levelNodes := rfl
  nodup := List.nodup_nil
  unstopped := by simp
  sorted := by simp
  spread := by simp
  doneLe := by simp
  doneHops := by simp
  levelHops := by
    intro queued member kept
    have equality : queued = (start, 0) := by simpa using member
    subst equality
    exact .here kept
  origin := by simp
  closed := by simp

theorem head {node : Node}
    (layered : Layered search start visited (node :: queue) done levels) :
    ∃ depth rest, levels = (node, depth) :: rest ∧
      rest.map Prod.fst = queue := by
  have shape := layered.levelNodes
  cases levels with
  | nil => simp at shape
  | cons label rest =>
      obtain ⟨labelNode, depth⟩ := label
      simp only [List.map_cons, List.cons.injEq] at shape
      exact ⟨depth, rest, by rw [shape.1], shape.2⟩

theorem discard {node : Node}
    (layered : Layered search start visited (node :: queue) done levels)
    (dropped : node ∈ visited ∨ search.skip node = true) :
    ∃ rest, Layered search start visited queue done rest := by
  obtain ⟨depth, rest, rfl, restNodes⟩ := layered.head
  -- A queued label that disappears is dominated by the label in `done`.
  have replace : ∀ label ∈ done ++ (node, depth) :: rest,
      search.skip label.1 = false →
      ∃ kept ∈ done ++ rest, kept.1 = label.1 ∧ kept.2 ≤ label.2 := by
    intro label member kept
    rcases List.mem_append.mp member with old | queued
    · exact ⟨label, List.mem_append_left _ old, rfl, Nat.le_refl _⟩
    · rcases List.mem_cons.mp queued with rfl | later
      · rcases dropped with seen | skipped
        · rw [← layered.doneNodes] at seen
          obtain ⟨old, oldMember, oldNode⟩ := List.mem_map.mp seen
          exact ⟨old, List.mem_append_left _ oldMember, oldNode,
            layered.doneLe old oldMember _ List.mem_cons_self⟩
        · rw [skipped] at kept
          exact absurd kept (by simp)
      · exact ⟨label, List.mem_append_right _ later, rfl, Nat.le_refl _⟩
  refine ⟨rest, ?_⟩
  exact
    { doneNodes := layered.doneNodes
      levelNodes := restNodes
      nodup := layered.nodup
      unstopped := layered.unstopped
      sorted := (List.pairwise_cons.mp layered.sorted).2
      spread := fun left leftMember right rightMember =>
        layered.spread left (.tail _ leftMember) right (.tail _ rightMember)
      doneLe := fun old oldMember queued queuedMember =>
        layered.doneLe old oldMember queued (.tail _ queuedMember)
      doneHops := layered.doneHops
      levelHops := fun queued member =>
        layered.levelHops queued (.tail _ member)
      origin := by
        intro kept
        obtain ⟨label, member, sameNode, below⟩ :=
          replace (start, 0) (layered.origin kept) kept
        have equality : label = (start, 0) :=
          Prod.ext sameNode (Nat.le_zero.mp below)
        exact equality ▸ member
      closed := by
        intro old oldMember successor successorMember kept
        obtain ⟨label, member, sameNode, below⟩ :=
          layered.closed old oldMember successor successorMember kept
        obtain ⟨final, finalMember, finalNode, finalBelow⟩ :=
          replace label member (by rw [sameNode]; exact kept)
        exact ⟨final, finalMember, finalNode.trans sameNode, by omega⟩ }

/-- A node at distance `count` is done no later than round `count`, or some
queued label is at most `count`. -/
theorem cover
    (layered : Layered search start visited queue done levels)
    {count : Nat} {target : Node} (hops : search.Hops count start target) :
    (∃ old ∈ done, old.1 = target ∧ old.2 ≤ count) ∨
      ∃ queued ∈ levels, queued.2 ≤ count := by
  induction hops with
  | here kept =>
      rcases List.mem_append.mp (layered.origin kept) with old | queued
      · exact .inl ⟨_, old, rfl, Nat.le_refl _⟩
      · exact .inr ⟨_, queued, Nat.le_refl _⟩
  | @step count start middle target hops step ih =>
      rcases ih layered with ⟨old, oldMember, rfl, oldLe⟩ |
        ⟨queued, queuedMember, queuedLe⟩
      · obtain ⟨label, member, sameNode, below⟩ :=
          layered.closed old oldMember target step.1 step.2
        rcases List.mem_append.mp member with labelDone | labelQueued
        · exact .inl ⟨label, labelDone, sameNode, by omega⟩
        · exact .inr ⟨label, labelQueued, by omega⟩
      · exact .inr ⟨queued, queuedMember, by omega⟩

end Layered

variable [DecidableEq Node]

/-- Successors appended to the queue when `node` is expanded. -/
def pushed (search : QueueSearch Node) (visited : List Node) (node : Node) :
    List Node :=
  if search.prune then
    (search.next node).filter (fun successor => successor ∉ node :: visited)
  else search.next node

/-- Work still hidden behind unvisited nodes of the support. -/
def pending (search : QueueSearch Node) (visited : List Node) : Nat :=
  ((search.support.filter (fun node => node ∉ visited)).map
    (fun node => (search.next node).length + 1)).sum

theorem pushed_length_le (search : QueueSearch Node) (visited : List Node)
    (node : Node) :
    (search.pushed visited node).length ≤ (search.next node).length := by
  unfold pushed
  split
  · exact List.length_filter_le _ _
  · exact Nat.le_refl _

theorem mem_next_of_mem_pushed {search : QueueSearch Node}
    {visited : List Node} {node successor : Node}
    (member : successor ∈ search.pushed visited node) :
    successor ∈ search.next node := by
  unfold pushed at member
  split at member
  · exact (List.mem_filter.mp member).1
  · exact member

theorem mem_pushed_or_seen {search : QueueSearch Node}
    {visited : List Node} {node successor : Node}
    (member : successor ∈ search.next node) :
    successor ∈ search.pushed visited node ∨ successor ∈ node :: visited := by
  by_cases seen : successor ∈ node :: visited
  · exact .inr seen
  · left
    unfold pushed
    split
    · exact List.mem_filter.mpr ⟨member, by simpa using seen⟩
    · exact member

private theorem sum_filter_insert (weight : Node → Nat) (visited : List Node)
    {node : Node} (fresh : node ∉ visited) (items : List Node)
    (member : node ∈ items) :
    ((items.filter (fun item => item ∉ node :: visited)).map weight).sum +
        weight node ≤
      ((items.filter (fun item => item ∉ visited)).map weight).sum := by
  have monotone : ∀ rest : List Node,
      ((rest.filter (fun item => item ∉ node :: visited)).map weight).sum ≤
        ((rest.filter (fun item => item ∉ visited)).map weight).sum := by
    intro rest
    induction rest with
    | nil => simp
    | cons item rest ih =>
        by_cases seen : item ∈ visited
        · simpa [seen] using ih
        · by_cases same : item = node
          · subst same
            simp only [List.mem_cons, true_or, not_true_eq_false,
              decide_false, Bool.false_eq_true, not_false_eq_true,
              List.filter_cons_of_neg, seen, decide_true,
              List.filter_cons_of_pos, List.map_cons, List.sum_cons]
            simp only [List.mem_cons] at ih
            omega
          · simp only [List.mem_cons, same, seen, or_self,
              not_false_eq_true, decide_true, List.filter_cons_of_pos,
              List.map_cons, List.sum_cons] at ih ⊢
            omega
  induction items with
  | nil => simp at member
  | cons item rest ih =>
      by_cases same : item = node
      · subst same
        have tail := monotone rest
        simp only [List.mem_cons, true_or, not_true_eq_false, decide_false,
          Bool.false_eq_true, not_false_eq_true, List.filter_cons_of_neg,
          fresh, decide_true, List.filter_cons_of_pos, List.map_cons,
          List.sum_cons] at tail ⊢
        omega
      · have tailMember : node ∈ rest := by
          rcases List.mem_cons.mp member with equality | tailMember
          · exact absurd equality.symm same
          · exact tailMember
        have tail := ih tailMember
        by_cases seen : item ∈ visited
        · simpa [seen] using tail
        · simp only [List.mem_cons, same, seen, or_self,
            not_false_eq_true, decide_true, List.filter_cons_of_pos,
            List.map_cons, List.sum_cons] at tail ⊢
          omega

/-- Expanding an unvisited node pays for every successor it appends. -/
theorem pending_expand (search : QueueSearch Node) {visited : List Node}
    {node : Node} (fresh : node ∉ visited) :
    search.pending (node :: visited) + (search.pushed visited node).length <
      search.pending visited + 1 := by
  have shorter := search.pushed_length_le visited node
  by_cases supported : node ∈ search.support
  · have paid := sum_filter_insert
      (fun item => (search.next item).length + 1) visited fresh
      search.support supported
    unfold pending
    omega
  · have childless : (search.next node).length = 0 := by
      rw [search.next_nil node supported]
      rfl
    have same : search.support.filter (fun item => item ∉ node :: visited) =
        search.support.filter (fun item => item ∉ visited) := by
      apply List.filter_congr
      intro item member
      have different : item ≠ node := by
        intro equality
        exact supported (equality ▸ member)
      simp [different]
    unfold pending
    rw [same]
    omega

theorem pending_le (search : QueueSearch Node) {visited grown : List Node}
    (kept : ∀ node ∈ visited, node ∈ grown) :
    search.pending grown ≤ search.pending visited := by
  apply List.Sublist.sum_le_sum _ (by simp)
  apply List.Sublist.map
  apply List.monotone_filter_right
  intro node fresh
  simp only [decide_eq_true_eq] at fresh ⊢
  exact fun old => fresh (kept _ old)

/-- The search loop.  `visited` is newest first; the second component is the
goal node on which the loop returned early. -/
def run (search : QueueSearch Node) :
    List Node → List Node → List Node × Option Node
  | visited, [] => (visited, none)
  | visited, node :: queue =>
    if node ∈ visited ∨ search.skip node = true then
      run search visited queue
    else if search.stop node = true then
      (node :: visited, some node)
    else
      run search (node :: visited) (queue ++ search.pushed visited node)
termination_by visited queue => search.pending visited + queue.length
decreasing_by
  · simp
  · rename_i kept _
    have fresh : node ∉ visited := fun seen => kept (.inl seen)
    have paid := search.pending_expand fresh
    simp only [List.length_append, List.length_cons]
    omega

namespace Layered

variable {search : QueueSearch Node} {start : Node}
  {visited queue : List Node} {done levels : List (Node × Nat)}

theorem expand {node : Node}
    (layered : Layered search start visited (node :: queue) done levels)
    (fresh : node ∉ visited) (kept : search.skip node = false)
    (unfinished : search.stop node = false) :
    ∃ done' levels', Layered search start (node :: visited)
      (queue ++ search.pushed visited node) done' levels' := by
  obtain ⟨depth, rest, rfl, restNodes⟩ := layered.head
  obtain ⟨headLe, restSorted⟩ := List.pairwise_cons.mp layered.sorted
  let appended := (search.pushed visited node).map (fun item => (item, depth + 1))
  have appendedDepth : ∀ label ∈ appended, label.2 = depth + 1 := by
    intro label member
    obtain ⟨item, _, rfl⟩ := List.mem_map.mp member
    rfl
  have restDepth : ∀ label ∈ rest, depth ≤ label.2 ∧ label.2 ≤ depth + 1 := by
    intro label member
    exact ⟨headLe label member,
      layered.spread (node, depth) List.mem_cons_self label (.tail _ member)⟩
  have nodeHops : search.Hops depth start node :=
    layered.levelHops (node, depth) List.mem_cons_self kept
  have carry : ∀ label ∈ done ++ (node, depth) :: rest,
      label ∈ ((node, depth) :: done) ++ (rest ++ appended) := by
    intro label member
    simp only [List.mem_append, List.mem_cons] at member ⊢
    tauto
  refine ⟨(node, depth) :: done, rest ++ appended, ?_⟩
  exact
    { doneNodes := by simp [layered.doneNodes]
      levelNodes := by
        simp [appended, restNodes, Function.comp_def]
      nodup := List.nodup_cons.mpr ⟨fresh, layered.nodup⟩
      unstopped := by
        intro item member
        rcases List.mem_cons.mp member with rfl | older
        · exact unfinished
        · exact layered.unstopped item older
      sorted := by
        refine List.pairwise_append.mpr ⟨restSorted, ?_, ?_⟩
        · refine List.pairwise_of_forall_mem_list ?_
          intro left leftMember right rightMember
          rw [appendedDepth left leftMember, appendedDepth right rightMember]
        · intro left leftMember right rightMember
          rw [appendedDepth right rightMember]
          exact (restDepth left leftMember).2
      spread := by
        intro left leftMember right rightMember
        have lower : depth ≤ left.2 := by
          rcases List.mem_append.mp leftMember with old | new
          · exact (restDepth left old).1
          · rw [appendedDepth left new]
            omega
        have upper : right.2 ≤ depth + 1 := by
          rcases List.mem_append.mp rightMember with old | new
          · exact (restDepth right old).2
          · rw [appendedDepth right new]
        omega
      doneLe := by
        intro old oldMember queued queuedMember
        have lower : depth ≤ queued.2 := by
          rcases List.mem_append.mp queuedMember with older | new
          · exact (restDepth queued older).1
          · rw [appendedDepth queued new]
            omega
        rcases List.mem_cons.mp oldMember with rfl | older
        · exact lower
        · have below := layered.doneLe old older (node, depth) List.mem_cons_self
          exact Nat.le_trans below lower
      doneHops := by
        intro old member
        rcases List.mem_cons.mp member with rfl | older
        · exact nodeHops
        · exact layered.doneHops old older
      levelHops := by
        intro queued member queuedKept
        rcases List.mem_append.mp member with older | new
        · exact layered.levelHops queued (.tail _ older) queuedKept
        · obtain ⟨item, itemMember, rfl⟩ := List.mem_map.mp new
          exact .step nodeHops ⟨mem_next_of_mem_pushed itemMember, queuedKept⟩
      origin := fun startKept => carry _ (layered.origin startKept)
      closed := by
        intro old oldMember successor successorMember successorKept
        rcases List.mem_cons.mp oldMember with rfl | older
        · have located :
              successor ∈ search.pushed visited node ∨
                successor ∈ node :: visited :=
            mem_pushed_or_seen successorMember
          rcases located with new | seen
          · refine ⟨(successor, depth + 1), ?_, rfl, Nat.le_refl _⟩
            exact List.mem_append_right _ (List.mem_append_right _
              (List.mem_map.mpr ⟨successor, new, rfl⟩))
          · rcases List.mem_cons.mp seen with rfl | older
            · exact ⟨(successor, depth), by simp, rfl, by simp⟩
            · rw [← layered.doneNodes] at older
              obtain ⟨label, labelMember, labelNode⟩ := List.mem_map.mp older
              have below :=
                layered.doneLe label labelMember (node, depth) List.mem_cons_self
              refine ⟨label, by simp [labelMember], labelNode, ?_⟩
              simp only at below ⊢
              omega
        · obtain ⟨label, member, sameNode, below⟩ :=
            layered.closed old older successor successorMember successorKept
          exact ⟨label, carry label member, sameNode, below⟩ }

end Layered

/-- What the loop returns, stated on the invariant it stops in. -/
theorem run_layered (search : QueueSearch Node) {start : Node}
    (visited queue : List Node) {done levels : List (Node × Nat)}
    (layered : Layered search start visited queue done levels) :
    (∃ final finalDone, search.run visited queue = (final, none) ∧
      Layered search start final [] finalDone []) ∨
    (∃ node older rest finalDone finalLevels,
      search.run visited queue = (node :: older, some node) ∧
        Layered search start older (node :: rest) finalDone finalLevels ∧
        node ∉ older ∧ search.skip node = false ∧
        search.stop node = true) := by
  induction visited, queue using run.induct search
    generalizing done levels with
  | case1 visited =>
      have noLevels : levels = [] := List.map_eq_nil_iff.mp layered.levelNodes
      subst noLevels
      exact .inl ⟨visited, done, by rw [run], layered⟩
  | case2 visited node queue dropped ih =>
      obtain ⟨rest, restLayered⟩ := layered.discard dropped
      rw [run, if_pos dropped]
      exact ih restLayered
  | case3 visited node queue kept found =>
      rw [run, if_neg kept, if_pos found]
      have fresh : node ∉ visited := fun seen => kept (.inl seen)
      have unskipped : search.skip node = false := by
        simpa using fun skipped => kept (.inr skipped)
      exact .inr ⟨node, visited, queue, done, levels, rfl, layered, fresh,
        unskipped, found⟩
  | case4 visited node queue kept unfound ih =>
      have fresh : node ∉ visited := fun seen => kept (.inl seen)
      have unskipped : search.skip node = false := by
        simpa using fun skipped => kept (.inr skipped)
      have unfinished : search.stop node = false := by simpa using unfound
      obtain ⟨done', levels', expanded⟩ :=
        layered.expand fresh unskipped unfinished
      rw [run, if_neg kept, if_neg unfound]
      exact ih expanded

/-- A search from one node. -/
def search (problem : QueueSearch Node) (start : Node) :
    List Node × Option Node :=
  problem.run [] [start]

/-- A search that found no goal has visited exactly the reachable nodes. -/
theorem search_none (problem : QueueSearch Node) {start : Node}
    {visited : List Node}
    (outcome : problem.search start = (visited, none)) :
    visited.Nodup ∧
      (∀ node, node ∈ visited ↔ problem.Reaches start node) ∧
      ∀ node, problem.Reaches start node → problem.stop node = false := by
  rcases run_layered problem [] [start] (Layered.initial problem start) with
    ⟨final, finalDone, result, layered⟩ |
    ⟨node, older, rest, finalDone, finalLevels, result, _⟩
  · have same : final = visited := by
      have := result.symm.trans outcome
      exact (Prod.mk.inj this).1
    subst same
    have members : ∀ node, node ∈ final ↔ problem.Reaches start node := by
      intro node
      constructor
      · intro member
        rw [← layered.doneNodes] at member
        obtain ⟨old, oldMember, rfl⟩ := List.mem_map.mp member
        exact ⟨old.2, layered.doneHops old oldMember⟩
      · rintro ⟨count, hops⟩
        rcases layered.cover hops with ⟨old, oldMember, rfl, _⟩ |
          ⟨queued, queuedMember, _⟩
        · rw [← layered.doneNodes]
          exact List.mem_map.mpr ⟨old, oldMember, rfl⟩
        · simp at queuedMember
    exact ⟨layered.nodup, members, fun node reached =>
      layered.unstopped node ((members node).mpr reached)⟩
  · have := result.symm.trans outcome
    simp at this

/-- A goal returned early is reachable, and no goal is closer to the start. -/
theorem search_some (problem : QueueSearch Node) {start target : Node}
    {visited : List Node}
    (outcome : problem.search start = (visited, some target)) :
    ∃ distance, problem.Hops distance start target ∧
      problem.stop target = true ∧
      ∀ count goal, problem.Hops count start goal →
        problem.stop goal = true → distance ≤ count := by
  rcases run_layered problem [] [start] (Layered.initial problem start) with
    ⟨final, finalDone, result, _⟩ |
    ⟨node, older, rest, finalDone, finalLevels, result, layered, _fresh,
      kept, found⟩
  · have := result.symm.trans outcome
    simp at this
  · have same : node = target := by
      have := result.symm.trans outcome
      simpa using (Prod.mk.inj this).2
    subst same
    obtain ⟨depth, tail, rfl, _tailNodes⟩ := layered.head
    refine ⟨depth, layered.levelHops (node, depth) List.mem_cons_self kept,
      found, ?_⟩
    intro count goal hops goalStop
    rcases layered.cover hops with ⟨old, oldMember, rfl, _⟩ |
      ⟨queued, queuedMember, queuedLe⟩
    · have seen : old.1 ∈ older := by
        rw [← layered.doneNodes]
        exact List.mem_map.mpr ⟨old, oldMember, rfl⟩
      have unstopped := layered.unstopped old.1 seen
      rw [goalStop] at unstopped
      exact absurd unstopped (by simp)
    · rcases List.mem_cons.mp queuedMember with rfl | later
      · exact queuedLe
      · have below := (List.pairwise_cons.mp layered.sorted).1 queued later
        exact Nat.le_trans below queuedLe

end QueueSearch

end Takos.Foundation
