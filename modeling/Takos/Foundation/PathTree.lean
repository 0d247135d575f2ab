import Mathlib.Data.List.Perm.Basic
import Mathlib.Data.List.Infix

/-!
# Trees of named files

A directory maps names to files or to directories.  Inserting a file creates
the directories above it, replaces whatever stands at its own path, and is
rejected when a file stands where a directory is needed.

The leaves of a tree are its files with their paths.  One insertion and a run
of insertions are described by what they do to the leaves.
-/

namespace Takos.Foundation

universe u v

/-- Directory contents as a list of entries: first entry and the others. -/
inductive PathTree (Name : Type u) (Value : Type v) where
  | empty
  | file (name : Name) (value : Value) (rest : PathTree Name Value)
  | dir (name : Name) (child rest : PathTree Name Value)

namespace PathTree

variable {Name : Type u} {Value : Type v}

def names : PathTree Name Value → List Name
  | empty => []
  | file name _ rest => name :: rest.names
  | dir name _ rest => name :: rest.names

/-- Files with their paths below this directory. -/
def leaves : PathTree Name Value → List (List Name × Value)
  | empty => []
  | file name value rest => ([name], value) :: rest.leaves
  | dir name child rest =>
    child.leaves.map (fun leaf => (name :: leaf.1, leaf.2)) ++ rest.leaves

/-- Names are unique in every directory. -/
def Distinct : PathTree Name Value → Prop
  | empty => True
  | file name _ rest => name ∉ rest.names ∧ rest.Distinct
  | dir name child rest => name ∉ rest.names ∧ child.Distinct ∧ rest.Distinct

variable {leaf : List Name × Value} {tree : PathTree Name Value} {name : Name}
  {path : List Name} {value : Value} {files : List (List Name × Value)}

theorem head_mem_names (member : leaf ∈ tree.leaves) :
    ∃ name ∈ tree.names, ∃ below, leaf.1 = name :: below := by
  induction tree with
  | empty => simp [leaves] at member
  | file name value rest ih =>
      rcases List.mem_cons.mp member with here | later
      · subst here
        exact ⟨name, List.mem_cons_self, [], rfl⟩
      · obtain ⟨other, otherMember, below, shape⟩ := ih later
        exact ⟨other, .tail _ otherMember, below, shape⟩
  | dir name child rest _ ih =>
      rcases List.mem_append.mp member with inside | later
      · obtain ⟨inner, _, shape⟩ := List.mem_map.mp inside
        subst shape
        exact ⟨name, List.mem_cons_self, inner.1, rfl⟩
      · obtain ⟨other, otherMember, below, shape⟩ := ih later
        exact ⟨other, .tail _ otherMember, below, shape⟩

theorem leaf_ne_nil (member : leaf ∈ tree.leaves) : leaf.1 ≠ [] := by
  obtain ⟨_, _, _, shape⟩ := head_mem_names member
  simp [shape]

theorem not_prefix_of_absent {below : List Name} (absent : name ∉ tree.names)
    (member : leaf ∈ tree.leaves) : ¬(name :: below) <+: leaf.1 := by
  obtain ⟨other, otherMember, rest, shape⟩ := head_mem_names member
  rw [shape, List.cons_prefix_cons]
  intro extends'
  exact absent (extends'.1 ▸ otherMember)

variable [DecidableEq Name]

/-- Leaves that `path` does not replace. -/
def kept (path : List Name) (leaves : List (List Name × Value)) :
    List (List Name × Value) :=
  leaves.filter fun leaf => ¬path <+: leaf.1

theorem kept_append (path : List Name) (left right : List (List Name × Value)) :
    kept path (left ++ right) = kept path left ++ kept path right :=
  List.filter_append ..

theorem kept_cons_replaced (leaf : List Name × Value)
    (replaced : path <+: leaf.1) (leaves : List (List Name × Value)) :
    kept path (leaf :: leaves) = kept path leaves := by
  simp [kept, replaced]

theorem kept_cons_other (other : ¬path <+: leaf.1)
    (leaves : List (List Name × Value)) :
    kept path (leaf :: leaves) = leaf :: kept path leaves := by
  simp [kept, other]

theorem kept_absent {below : List Name} (absent : name ∉ tree.names) :
    kept (name :: below) tree.leaves = tree.leaves := by
  apply List.filter_eq_self.mpr
  intro leaf member
  simpa using not_prefix_of_absent absent member

theorem kept_map_same (name : Name) (path : List Name)
    (leaves : List (List Name × Value)) :
    kept (name :: path) (leaves.map fun leaf => (name :: leaf.1, leaf.2)) =
      (kept path leaves).map fun leaf => (name :: leaf.1, leaf.2) := by
  simp only [kept, List.filter_map]
  congr 1
  apply List.filter_congr
  intro leaf _
  simp [List.cons_prefix_cons]

theorem kept_map_other {name other : Name} (different : name ≠ other)
    (path : List Name) (leaves : List (List Name × Value)) :
    kept (name :: path) (leaves.map fun leaf => (other :: leaf.1, leaf.2)) =
      leaves.map fun leaf => (other :: leaf.1, leaf.2) := by
  apply List.filter_eq_self.mpr
  intro leaf member
  obtain ⟨inner, _, shape⟩ := List.mem_map.mp member
  subst shape
  simp [List.cons_prefix_cons, different]

def setFile (name : Name) (value : Value) :
    PathTree Name Value → PathTree Name Value
  | empty => file name value empty
  | file other old rest =>
    if other = name then file name value rest
    else file other old (setFile name value rest)
  | dir other child rest =>
    if other = name then file name value rest
    else dir other child (setFile name value rest)

theorem names_setFile (name : Name) (value : Value)
    (tree : PathTree Name Value) (other : Name) :
    other ∈ (setFile name value tree).names ↔
      other = name ∨ other ∈ tree.names := by
  induction tree with
  | empty => simp [setFile, names]
  | file first old rest ih =>
      by_cases same : first = name
      · simp [setFile, same, names]
      · simp only [setFile, same, if_false, names, List.mem_cons, ih]
        tauto
  | dir first child rest _ ih =>
      by_cases same : first = name
      · simp [setFile, same, names]
      · simp only [setFile, same, if_false, names, List.mem_cons, ih]
        tauto

theorem distinct_setFile (distinct : tree.Distinct) :
    (setFile name value tree).Distinct := by
  induction tree with
  | empty => simp [setFile, Distinct, names]
  | file first old rest ih =>
      by_cases same : first = name
      · subst same
        simpa [setFile, Distinct] using distinct
      · simp only [setFile, if_neg same, Distinct, names_setFile, not_or]
        exact ⟨⟨same, distinct.1⟩, ih distinct.2⟩
  | dir first child rest _ ih =>
      by_cases same : first = name
      · subst same
        simpa [setFile, Distinct] using ⟨distinct.1, distinct.2.2⟩
      · simp only [setFile, if_neg same, Distinct, names_setFile, not_or]
        exact ⟨⟨same, distinct.1⟩, distinct.2.1, ih distinct.2.2⟩

theorem leaves_setFile (distinct : tree.Distinct) :
    (setFile name value tree).leaves.Perm
      (([name], value) :: kept [name] tree.leaves) := by
  induction tree with
  | empty => simp [setFile, leaves, kept]
  | file first old rest ih =>
      by_cases same : first = name
      · subst same
        have untouched : kept [first] rest.leaves = rest.leaves :=
          kept_absent distinct.1
        simp only [setFile, if_true, leaves]
        have replaced : kept [first] (([first], old) :: rest.leaves) =
            kept [first] rest.leaves :=
          kept_cons_replaced ([first], old) (List.prefix_refl _) _
        rw [replaced, untouched]
      · have apart : ¬[name] <+: [first] := by
          simp [Ne.symm same]
        simp only [setFile, if_neg same, leaves]
        rw [kept_cons_other apart]
        exact ((ih distinct.2).cons _).trans (.swap _ _ _)
  | dir first child rest _ ih =>
      by_cases same : first = name
      · subst same
        have untouched : kept [first] rest.leaves = rest.leaves :=
          kept_absent distinct.1
        have replaced : kept [first] (child.leaves.map
            fun leaf => (first :: leaf.1, leaf.2)) = [] := by
          rw [kept_map_same]
          simp [kept]
        simp only [setFile, if_true, leaves, kept_append, replaced, untouched,
          List.nil_append]
        exact .refl _
      · simp only [setFile, same, if_false, leaves, kept_append,
          kept_map_other (Ne.symm same)]
        exact ((ih distinct.2.2).append_left _).trans List.perm_middle

/-- Change the directory `name`, creating it when it is missing; a file of that
name stands in the way. -/
def descend (name : Name)
    (modify : PathTree Name Value → Except (List Name) (PathTree Name Value)) :
    PathTree Name Value → Except (List Name) (PathTree Name Value)
  | empty =>
    match modify empty with
    | .ok child => .ok (dir name child empty)
    | .error blocking => .error (name :: blocking)
  | file other value rest =>
    if other = name then .error [name]
    else
      match descend name modify rest with
      | .ok changed => .ok (file other value changed)
      | .error blocking => .error blocking
  | dir other child rest =>
    if other = name then
      match modify child with
      | .ok changed => .ok (dir other changed rest)
      | .error blocking => .error (name :: blocking)
    else
      match descend name modify rest with
      | .ok changed => .ok (dir other child changed)
      | .error blocking => .error blocking

/-- Insert a file, or answer with the path of the file standing in the way. -/
def insert : List Name → Value → PathTree Name Value →
    Except (List Name) (PathTree Name Value)
  | [], _, tree => .ok tree
  | [name], value, tree => .ok (setFile name value tree)
  | name :: next :: path, value, tree =>
    descend name (insert (next :: path) value) tree

/-- What inserting at `path` does to a tree. -/
inductive Inserts (path : List Name) (value : Value)
    (tree : PathTree Name Value) :
    Except (List Name) (PathTree Name Value) → Prop where
  | placed {result : PathTree Name Value} :
      result.Distinct →
      (∀ leaf ∈ tree.leaves, leaf.1 <+: path → leaf.1 = path) →
      result.leaves.Perm ((path, value) :: kept path tree.leaves) →
      Inserts path value tree (.ok result)
  | blocked {leaf : List Name × Value} :
      leaf ∈ tree.leaves → leaf.1 <+: path → leaf.1 ≠ path →
      Inserts path value tree (.error leaf.1)

variable
  {modify : PathTree Name Value → Except (List Name) (PathTree Name Value)}

theorem descend_file {other : Name} (value : Value) (rest : PathTree Name Value)
    (different : other ≠ name) :
    descend name modify (file other value rest) =
      (descend name modify rest).map (file other value) := by
  rw [descend, if_neg different]
  cases descend name modify rest <;> rfl

theorem descend_dir {other : Name} (child rest : PathTree Name Value)
    (different : other ≠ name) :
    descend name modify (dir other child rest) =
      (descend name modify rest).map (dir other child) := by
  rw [descend, if_neg different]
  cases descend name modify rest <;> rfl

theorem names_descend {tree result : PathTree Name Value}
    (changed : descend name modify tree = .ok result) (other : Name) :
    other ∈ result.names ↔ other = name ∨ other ∈ tree.names := by
  induction tree generalizing result with
  | empty =>
      simp only [descend] at changed
      split at changed
      · cases changed
        simp [names]
      · cases changed
  | file first value rest ih =>
      simp only [descend] at changed
      split at changed
      · cases changed
      · split at changed
        · rename_i inner descended
          cases changed
          simp only [names, List.mem_cons, ih descended]
          tauto
        · cases changed
  | dir first child rest _ ih =>
      simp only [descend] at changed
      split at changed
      · rename_i same
        subst same
        split at changed
        · cases changed
          simp [names]
        · cases changed
      · split at changed
        · rename_i inner descended
          cases changed
          simp only [names, List.mem_cons, ih descended]
          tauto
        · cases changed

theorem Inserts.around {rest : PathTree Name Value}
    {descended : Except (List Name) (PathTree Name Value)}
    (entry : PathTree Name Value → PathTree Name Value)
    {passed : List (List Name × Value)}
    (around : ∀ rest, (entry rest).leaves = passed ++ rest.leaves)
    (apart : ∀ leaf ∈ passed, ∃ other beneath,
      leaf.1 = other :: beneath ∧ other ≠ name)
    (distinct : ∀ changed, descended = .ok changed → changed.Distinct →
      (entry changed).Distinct)
    (inserts : Inserts (name :: path) value rest descended) :
    Inserts (name :: path) value (entry rest) (descended.map entry) := by
  cases inserts with
  | blocked member below proper =>
      refine .blocked ?_ below proper
      rw [around]
      exact List.mem_append_right _ member
  | placed restDistinct clear perm =>
      refine .placed (distinct _ rfl restDistinct) ?_ ?_
      · intro leaf member below
        rw [around] at member
        rcases List.mem_append.mp member with inside | later
        · obtain ⟨other, beneath, shape, different⟩ := apart leaf inside
          rw [shape, List.cons_prefix_cons] at below
          exact absurd below.1 different
        · exact clear leaf later below
      · have untouched : kept (name :: path) passed = passed := by
          apply List.filter_eq_self.mpr
          intro leaf inside
          obtain ⟨other, beneath, shape, different⟩ := apart leaf inside
          simp [shape, List.cons_prefix_cons, Ne.symm different]
        rw [around, around, kept_append, untouched]
        exact (perm.append_left _).trans List.perm_middle

theorem descend_inserts (nonempty : path ≠ [])
    (modifies : ∀ child : PathTree Name Value, child.Distinct →
      Inserts path value child (modify child)) (distinct : tree.Distinct) :
    Inserts (name :: path) value tree (descend name modify tree) := by
  induction tree with
  | empty =>
      have step := modifies empty trivial
      simp only [descend]
      cases outcome : modify empty with
      | error blocking =>
          rw [outcome] at step
          cases step with
          | blocked member _ _ => simp [leaves] at member
      | ok child =>
          rw [outcome] at step
          cases step with
          | placed childDistinct _ perm =>
              refine .placed ?_ ?_ ?_
              · simp [Distinct, names, childDistinct]
              · simp [leaves]
              · simpa [leaves, kept] using perm.map
                  (fun leaf => (name :: leaf.1, leaf.2))
  | file first old rest ih =>
      by_cases same : first = name
      · subst same
        rw [descend, if_pos rfl]
        have here : ([first], old) ∈ (file first old rest).leaves :=
          List.mem_cons_self
        exact .blocked here (by simp) (by simpa using Ne.symm nonempty)
      · rw [descend_file old rest same]
        have here : ∀ rest : PathTree Name Value, (file first old rest).leaves =
            [([first], old)] ++ rest.leaves := fun _ => rfl
        refine Inserts.around (file first old) here ?_ ?_ (ih distinct.2)
        · intro leaf member
          rw [List.mem_singleton.mp member]
          exact ⟨first, [], rfl, same⟩
        · intro changed descended restDistinct
          simp only [Distinct, names_descend descended, not_or]
          exact ⟨⟨same, distinct.1⟩, restDistinct⟩
  | dir first child rest _ ih =>
      by_cases same : first = name
      · subst same
        rw [descend, if_pos rfl]
        have step := modifies child distinct.2.1
        cases outcome : modify child with
        | error blocking =>
            rw [outcome] at step
            cases step with
            | @blocked leaf member below proper =>
                have inside : (first :: leaf.1, leaf.2) ∈
                    (dir first child rest).leaves :=
                  List.mem_append_left _ (List.mem_map.mpr ⟨leaf, member, rfl⟩)
                exact .blocked inside (by simpa using below)
                  (by simpa using proper)
        | ok changed =>
            rw [outcome] at step
            cases step with
            | placed childDistinct clear perm =>
                refine .placed ?_ ?_ ?_
                · exact ⟨distinct.1, childDistinct, distinct.2.2⟩
                · intro leaf member below
                  rcases List.mem_append.mp member with inside | later
                  · obtain ⟨inner, innerMember, shape⟩ := List.mem_map.mp inside
                    subst shape
                    simp only [List.cons_prefix_cons, true_and] at below
                    simp [clear inner innerMember below]
                  · obtain ⟨other, otherMember, beneath, shape⟩ :=
                      head_mem_names later
                    rw [shape, List.cons_prefix_cons] at below
                    exact absurd (below.1 ▸ otherMember) distinct.1
                · simp only [leaves, kept_append, kept_map_same]
                  rw [kept_absent distinct.1]
                  have moved := perm.map
                    (fun leaf : List Name × Value => (first :: leaf.1, leaf.2))
                  exact moved.append_right _
      · rw [descend_dir child rest same]
        refine Inserts.around (dir first child) (fun _ => rfl) ?_ ?_
          (ih distinct.2.2)
        · intro leaf member
          obtain ⟨inner, _, shape⟩ := List.mem_map.mp member
          exact ⟨first, inner.1, by rw [← shape], same⟩
        · intro changed descended restDistinct
          simp only [Distinct, names_descend descended, not_or]
          exact ⟨⟨same, distinct.1⟩, distinct.2.1, restDistinct⟩

theorem insert_inserts (nonempty : path ≠ []) (value : Value)
    (distinct : tree.Distinct) :
    Inserts path value tree (insert path value tree) := by
  induction path generalizing tree with
  | nil => exact absurd rfl nonempty
  | cons name path ih =>
      cases path with
      | nil =>
          refine .placed (distinct_setFile distinct) ?_ (leaves_setFile distinct)
          intro leaf member below
          obtain ⟨other, _, beneath, shape⟩ := head_mem_names member
          rw [shape, List.cons_prefix_cons] at below
          rw [shape, below.1, List.prefix_nil.mp below.2]
      | cons next rest =>
          have inner : ∀ child : PathTree Name Value, child.Distinct →
              Inserts (next :: rest) value child
                (insert (next :: rest) value child) :=
            fun child childDistinct => ih (by simp) childDistinct
          exact descend_inserts (by simp) inner distinct

/-- Insert the files of a list one after the other. -/
def insertAll : List (List Name × Value) → PathTree Name Value →
    Except (List Name) (PathTree Name Value)
  | [], tree => .ok tree
  | leaf :: rest, tree =>
    match insert leaf.1 leaf.2 tree with
    | .ok changed => insertAll rest changed
    | .error blocking => .error blocking

/-- Leaves after placing the files of a list one after the other. -/
def placeAll (leaves : List (List Name × Value)) :
    List (List Name × Value) → List (List Name × Value)
  | [] => leaves
  | leaf :: rest => placeAll (leaf :: kept leaf.1 leaves) rest

/-- No file of the list lies below an earlier one. -/
def Unblocked (files : List (List Name × Value)) : Prop :=
  files.Pairwise fun earlier later => earlier.1 <+: later.1 → earlier.1 = later.1

/-- No file of the list replaces an earlier one. -/
def Unreplaced (files : List (List Name × Value)) : Prop :=
  files.Pairwise fun earlier later => ¬later.1 <+: earlier.1

theorem mem_placeAll {leaves files : List (List Name × Value)}
    (member : leaf ∈ placeAll leaves files) : leaf ∈ leaves ∨ leaf ∈ files := by
  induction files generalizing leaves with
  | nil => exact .inl member
  | cons first rest ih =>
      obtain front | back := ih member
      · rcases List.mem_cons.mp front with here | old
        · exact .inr (here ▸ List.mem_cons_self)
        · exact .inl (List.mem_filter.mp old).1
      · exact .inr (.tail _ back)

theorem placeAll_append (leaves front back : List (List Name × Value)) :
    placeAll leaves (front ++ back) = placeAll (placeAll leaves front) back := by
  induction front generalizing leaves with
  | nil => rfl
  | cons leaf rest ih => exact ih (leaf :: kept leaf.1 leaves)

theorem mem_placeAll_of_undisturbed {leaves files : List (List Name × Value)}
    (member : leaf ∈ leaves)
    (undisturbed : ∀ file ∈ files, ¬file.1 <+: leaf.1) :
    leaf ∈ placeAll leaves files := by
  induction files generalizing leaves with
  | nil => exact member
  | cons first rest ih =>
      apply ih
      · apply List.mem_cons_of_mem
        apply List.mem_filter.mpr
        exact ⟨member, by simpa using undisturbed first List.mem_cons_self⟩
      · intro file later
        exact undisturbed file (.tail _ later)

theorem kept_perm {left right : List (List Name × Value)} (path : List Name)
    (perm : left.Perm right) : (kept path left).Perm (kept path right) :=
  perm.filter _

theorem placeAll_perm {left right : List (List Name × Value)}
    (perm : left.Perm right) (files : List (List Name × Value)) :
    (placeAll left files).Perm (placeAll right files) := by
  induction files generalizing left right with
  | nil => exact perm
  | cons leaf rest ih => exact ih ((kept_perm leaf.1 perm).cons leaf)

theorem insertAll_ok {tree result : PathTree Name Value}
    (distinct : tree.Distinct) (nonempty : ∀ leaf ∈ files, leaf.1 ≠ [])
    (inserted : insertAll files tree = .ok result) :
    result.Distinct ∧ result.leaves.Perm (placeAll tree.leaves files) := by
  induction files generalizing tree with
  | nil =>
      cases inserted
      exact ⟨distinct, .refl _⟩
  | cons leaf rest ih =>
      have step := insert_inserts (nonempty leaf List.mem_cons_self) leaf.2
        distinct
      simp only [insertAll] at inserted
      cases outcome : insert leaf.1 leaf.2 tree with
      | error blocking =>
          rw [outcome] at inserted
          cases inserted
      | ok changed =>
          rw [outcome] at inserted step
          cases step with
          | placed changedDistinct _ perm =>
              obtain ⟨resultDistinct, resultPerm⟩ := ih changedDistinct
                (fun other member => nonempty other (.tail _ member)) inserted
              exact ⟨resultDistinct, resultPerm.trans (placeAll_perm perm rest)⟩

/-- Every file placed so far is a leaf or lies below one, and there are no
other leaves. -/
structure Covers (earlier : List (List Name × Value))
    (tree : PathTree Name Value) : Prop where
  above : ∀ file ∈ earlier, ∃ leaf ∈ tree.leaves, leaf.1 <+: file.1
  placed : ∀ leaf ∈ tree.leaves, ∃ file ∈ earlier, file.1 = leaf.1

theorem Covers.step {earlier : List (List Name × Value)}
    {tree result : PathTree Name Value} (covers : Covers earlier tree)
    {path : List Name} {value : Value}
    (perm : result.leaves.Perm ((path, value) :: kept path tree.leaves)) :
    Covers ((path, value) :: earlier) result := by
  constructor
  · intro file member
    rcases List.mem_cons.mp member with here | old
    · subst here
      exact ⟨(path, value), perm.symm.subset List.mem_cons_self,
        List.prefix_refl _⟩
    · obtain ⟨leaf, leafMember, below⟩ := covers.above file old
      by_cases replaced : path <+: leaf.1
      · exact ⟨(path, value), perm.symm.subset List.mem_cons_self,
          replaced.trans below⟩
      · have survives : leaf ∈ kept path tree.leaves :=
          List.mem_filter.mpr ⟨leafMember, by simpa using replaced⟩
        exact ⟨leaf, perm.symm.subset (.tail _ survives), below⟩
  · intro leaf member
    rcases List.mem_cons.mp (perm.subset member) with here | old
    · exact ⟨(path, value), List.mem_cons_self, by rw [here]⟩
    · obtain ⟨file, fileMember, same⟩ :=
        covers.placed leaf (List.mem_filter.mp old).1
      exact ⟨file, .tail _ fileMember, same⟩

/-- No file of the list lies below an earlier one or one of those that stand
already. -/
def UnblockedAfter (standing files : List (List Name × Value)) : Prop :=
  (∀ file ∈ standing, ∀ later ∈ files, file.1 <+: later.1 → file.1 = later.1) ∧
    Unblocked files

omit [DecidableEq Name] in
theorem unblockedAfter_nil : UnblockedAfter [] files ↔ Unblocked files := by
  simp [UnblockedAfter]

omit [DecidableEq Name] in
theorem unblockedAfter_cons {standing rest : List (List Name × Value)}
    {leaf : List Name × Value} :
    UnblockedAfter standing (leaf :: rest) ↔
      (∀ file ∈ standing, file.1 <+: leaf.1 → file.1 = leaf.1) ∧
        UnblockedAfter (leaf :: standing) rest := by
  simp only [UnblockedAfter, Unblocked, List.forall_mem_cons,
    List.pairwise_cons, forall_and]
  tauto

private theorem insertAll_outcome {files earlier : List (List Name × Value)}
    (distinct : tree.Distinct) (nonempty : ∀ leaf ∈ files, leaf.1 ≠ [])
    (covers : Covers earlier tree) :
    (UnblockedAfter earlier files →
      ∃ result, insertAll files tree = .ok result) ∧
    (¬UnblockedAfter earlier files →
      ∃ file ∈ earlier ++ files, ∃ later ∈ files, file.1 <+: later.1 ∧
        file.1 ≠ later.1 ∧ insertAll files tree = .error file.1) := by
  induction files generalizing earlier tree with
  | nil =>
      constructor
      · intro _
        exact ⟨tree, rfl⟩
      · intro refused
        exact absurd ⟨by simp, .nil⟩ refused
  | cons leaf rest ih =>
      have step := insert_inserts (nonempty leaf List.mem_cons_self) leaf.2
        distinct
      rw [unblockedAfter_cons]
      cases outcome : insert leaf.1 leaf.2 tree with
      | error blocking =>
          rw [outcome] at step
          cases step with
          | @blocked standing member below proper =>
              obtain ⟨file, fileMember, same⟩ := covers.placed standing member
              constructor
              · intro allowed
                have equal := allowed.1 file fileMember (same ▸ below)
                exact absurd (same ▸ equal) proper
              · intro _
                refine ⟨file, List.mem_append_left _ fileMember, leaf,
                  List.mem_cons_self, same ▸ below, same ▸ proper, ?_⟩
                simp [insertAll, outcome, same]
      | ok changed =>
          rw [outcome] at step
          cases step with
          | placed changedDistinct clear perm =>
              have later := ih changedDistinct
                (fun other member => nonempty other (.tail _ member))
                (covers.step perm)
              have run : insertAll (leaf :: rest) tree =
                  insertAll rest changed := by
                simp [insertAll, outcome]
              have here : ∀ file ∈ earlier,
                  file.1 <+: leaf.1 → file.1 = leaf.1 := by
                intro file member below
                obtain ⟨standing, standingMember, above⟩ :=
                  covers.above file member
                have equal := clear standing standingMember (above.trans below)
                apply below.eq_of_length_le
                rw [← equal]
                exact above.length_le
              rw [run]
              constructor
              · intro allowed
                exact later.1 allowed.2
              · intro refused
                obtain ⟨file, member, other, otherMember, below, proper, fails⟩ :=
                  later.2 fun allowed => refused ⟨here, allowed⟩
                refine ⟨file, ?_, other, .tail _ otherMember, below, proper,
                  fails⟩
                simp only [List.cons_append, List.mem_cons,
                  List.mem_append] at member ⊢
                tauto

private theorem insertAll_empty_outcome
    (nonempty : ∀ leaf ∈ files, leaf.1 ≠ []) :
    (Unblocked files → ∃ result, insertAll files empty = .ok result) ∧
    (¬Unblocked files → ∃ file ∈ files, ∃ later ∈ files,
      file.1 <+: later.1 ∧ file.1 ≠ later.1 ∧
        insertAll files empty = .error file.1) := by
  have covers : Covers [] (empty : PathTree Name Value) :=
    ⟨by simp, by simp [leaves]⟩
  rw [← unblockedAfter_nil]
  exact insertAll_outcome trivial nonempty covers

theorem insertAll_ok_iff (nonempty : ∀ leaf ∈ files, leaf.1 ≠ []) :
    (∃ result, insertAll files empty = .ok result) ↔ Unblocked files := by
  have outcome := insertAll_empty_outcome nonempty
  constructor
  · intro inserted
    obtain ⟨result, inserted⟩ := inserted
    by_contra blocked
    obtain ⟨_, _, _, _, _, _, fails⟩ := outcome.2 blocked
    rw [fails] at inserted
    cases inserted
  · exact outcome.1

/-- A run fails with the path of a file that another one of the list needs as a
directory. -/
theorem insertAll_error (nonempty : ∀ leaf ∈ files, leaf.1 ≠ [])
    {blocking : List Name} (failed : insertAll files empty = .error blocking) :
    ∃ file ∈ files, ∃ later ∈ files, file.1 = blocking ∧
      file.1 <+: later.1 ∧ file.1 ≠ later.1 := by
  have outcome := insertAll_empty_outcome nonempty
  have blocked : ¬Unblocked files := by
    intro allowed
    obtain ⟨result, inserted⟩ := outcome.1 allowed
    rw [failed] at inserted
    cases inserted
  obtain ⟨file, member, later, laterMember, below, proper, fails⟩ :=
    outcome.2 blocked
  rw [failed] at fails
  injection fails with same
  exact ⟨file, member, later, laterMember, same.symm, below, proper⟩

theorem placeAll_length_le (leaves files : List (List Name × Value)) :
    (placeAll leaves files).length ≤ leaves.length + files.length := by
  induction files generalizing leaves with
  | nil => simp [placeAll]
  | cons leaf rest ih =>
      have shorter : (kept leaf.1 leaves).length ≤ leaves.length :=
        List.length_filter_le _ _
      have step := ih (leaf :: kept leaf.1 leaves)
      simp only [placeAll, List.length_cons] at step ⊢
      omega

/-- Losing no file means that nothing was replaced. -/
theorem unreplaced_of_length {leaves files : List (List Name × Value)}
    (full : leaves.length + files.length ≤ (placeAll leaves files).length) :
    (∀ leaf ∈ leaves, ∀ file ∈ files, ¬file.1 <+: leaf.1) ∧
      Unreplaced files := by
  induction files generalizing leaves with
  | nil => exact ⟨by simp, .nil⟩
  | cons file rest ih =>
      have shorter : (kept file.1 leaves).length ≤ leaves.length :=
        List.length_filter_le _ _
      have bound := placeAll_length_le (file :: kept file.1 leaves) rest
      simp only [placeAll, List.length_cons] at full bound
      have whole : (kept file.1 leaves).length = leaves.length := by omega
      have same : kept file.1 leaves = leaves :=
        List.filter_sublist.eq_of_length whole
      have restFull : (file :: kept file.1 leaves).length + rest.length ≤
          (placeAll (file :: kept file.1 leaves) rest).length := by
        simp only [List.length_cons]
        omega
      obtain ⟨cross, inner⟩ := ih restFull
      rw [same] at cross
      constructor
      · intro leaf member other otherMember
        rcases List.mem_cons.mp otherMember with here | later
        · subst here
          rw [← same] at member
          simpa using (List.mem_filter.mp member).2
        · exact cross leaf (.tail _ member) other later
      · apply List.pairwise_cons.mpr
        exact ⟨fun other => cross file List.mem_cons_self other, inner⟩

theorem placeAll_of_unreplaced {leaves files : List (List Name × Value)}
    (cross : ∀ leaf ∈ leaves, ∀ file ∈ files, ¬file.1 <+: leaf.1)
    (unreplaced : Unreplaced files) :
    (placeAll leaves files).Perm (leaves ++ files) := by
  induction files generalizing leaves with
  | nil => simp [placeAll]
  | cons file rest ih =>
      obtain ⟨front, back⟩ := List.pairwise_cons.mp unreplaced
      have same : kept file.1 leaves = leaves := by
        apply List.filter_eq_self.mpr
        intro leaf member
        simpa using cross leaf member file List.mem_cons_self
      have restCross : ∀ leaf ∈ file :: leaves, ∀ other ∈ rest,
          ¬other.1 <+: leaf.1 := by
        intro leaf member other otherMember
        rcases List.mem_cons.mp member with here | old
        · exact here ▸ front other otherMember
        · exact cross leaf old other (.tail _ otherMember)
      have step := ih restCross back
      simp only [placeAll, same]
      exact step.trans (List.perm_middle.symm)

theorem unreplaced_of_placeAll_length
    (full : files.length ≤ (placeAll [] files).length) : Unreplaced files := by
  have bound : ([] : List (List Name × Value)).length + files.length ≤
      (placeAll [] files).length := by
    simpa using full
  exact (unreplaced_of_length bound).2

theorem placeAll_nil_of_unreplaced (unreplaced : Unreplaced files) :
    (placeAll [] files).Perm files :=
  placeAll_of_unreplaced (by simp) unreplaced

end PathTree

end Takos.Foundation
