import Takos.SpaceStorage.StorageTable

/-!
# What the statements do

One lemma for each statement on the table: when it is refused, and what it
leaves when it is not.
-/

namespace Takos.SpaceStorage

open Takos.Foundation Takos.Foundation.SlashPath

namespace StorageTable

/-- Rows that an `UPDATE` leaves. -/
def rewritten (selected : StorageFile → Bool)
    (rewrite : StorageFile → StorageFile) (table : StorageTable) :
    StorageTable :=
  table.map fun row => if selected row then rewrite row else row

theorem rewriteRows_some {selected : StorageFile → Bool}
    {rewrite : StorageFile → StorageFile} {done rest after : StorageTable}
    (accepted : rewriteRows selected rewrite done rest = some after) :
    after = done ++ rewritten selected rewrite rest := by
  induction rest generalizing done with
  | nil =>
      simp only [rewriteRows, Option.some.injEq] at accepted
      simp [rewritten, accepted]
  | cons row rest ih =>
      unfold rewriteRows at accepted
      split at accepted
      · rename_i chosen
        split at accepted
        · cases accepted
        · rw [ih accepted]
          simp [rewritten, chosen]
      · rename_i unchosen
        rw [ih accepted]
        simp [rewritten, unchosen]

/-- An `UPDATE` is accepted when the new columns are those of no other row,
neither before nor after it. -/
theorem rewriteRows_accepted {selected : StorageFile → Bool}
    {rewrite : StorageFile → StorageFile} {done rest : StorageTable}
    (distinct : ((done ++ rewritten selected rewrite rest).map
      StorageFile.key).Nodup)
    (restDistinct : rest.Nodup)
    (apart : ∀ row ∈ rest, selected row = true → ∀ other ∈ rest,
      other.key = (rewrite row).key → other = row) :
    rewriteRows selected rewrite done rest =
      some (done ++ rewritten selected rewrite rest) := by
  induction rest generalizing done with
  | nil => simp [rewriteRows, rewritten]
  | cons row rest ih =>
      have tailDistinct := (List.nodup_cons.mp restDistinct).2
      have tailApart : ∀ row ∈ rest, selected row = true → ∀ other ∈ rest,
          other.key = (rewrite row).key → other = row :=
        fun row member chosen other otherMember =>
          apart row (by simp [member]) chosen other (by simp [otherMember])
      unfold rewriteRows
      by_cases chosen : selected row = true
      · have free : (done ++ rest).any
            (fun other => other.key = (rewrite row).key) = false := by
          rw [List.any_eq_false]
          intro other member same
          simp only [decide_eq_true_eq] at same
          rcases List.mem_append.mp member with member | member
          · simp only [rewritten, List.map_cons, if_pos chosen,
              List.map_append] at distinct
            have disjoint := (List.nodup_append.mp distinct).2.2
            exact disjoint other.key (List.mem_map_of_mem member)
              (rewrite row).key (by simp) same
          · have equal := apart row (by simp) chosen other (by simp [member])
              same
            exact (List.nodup_cons.mp restDistinct).1 (equal ▸ member)
        rw [if_pos chosen, free, if_neg (by simp), ih _ tailDistinct tailApart]
        · simp [rewritten, chosen]
        · simpa [rewritten, chosen] using distinct
      · rw [if_neg chosen, ih _ tailDistinct tailApart]
        · simp [rewritten, chosen]
        · simpa [rewritten, chosen] using distinct

theorem updatePlace_shape {table after : StorageTable}
    {spaceId fileId : Text} {place : Place} {now : Nat}
    (accepted : updatePlace table spaceId fileId place now = some after) :
    after = rewritten (StorageFile.isItem spaceId fileId)
      (fun row => row.placedAt place now) table := by
  unfold updatePlace at accepted
  split at accepted
  · cases accepted
  · exact (Option.some.inj accepted).symm

theorem updatePlace_some {table after : StorageTable} {spaceId fileId : Text}
    {place : Place} {now : Nat} {file : StorageFile} (member : file ∈ table)
    (isItem : file.isItem spaceId fileId = true)
    (accepted : updatePlace table spaceId fileId place now = some after) :
    after = rewritten (StorageFile.isItem spaceId fileId)
        (fun row => row.placedAt place now) table ∧
      (∀ other ∈ table, other.isItem spaceId fileId = false →
        other.key ≠ (spaceId, place.path)) ∧
      (∀ id, place.parentId = some id → ∃ row ∈ table, row.id = id) := by
  unfold updatePlace at accepted
  split at accepted
  · cases accepted
  · rename_i free
    have found : table.any (StorageFile.isItem spaceId fileId) = true :=
      List.any_eq_true.mpr ⟨file, member, isItem⟩
    rw [found, Bool.true_and, Bool.or_eq_true, not_or] at free
    refine ⟨(Option.some.inj accepted).symm, ?_, ?_⟩
    · intro other otherMember notItem same
      apply free.1
      rw [List.any_eq_true]
      exact ⟨other, otherMember, by simp [notItem, same]⟩
    · rw [← hasParent_iff]
      simpa using free.2

theorem updatePlace_accepted {table : StorageTable} {spaceId fileId : Text}
    {place : Place} (now : Nat)
    (free : ∀ other ∈ table, other.isItem spaceId fileId = false →
      other.key ≠ (spaceId, place.path))
    (parent : ∀ id, place.parentId = some id → ∃ row ∈ table, row.id = id) :
    updatePlace table spaceId fileId place now =
      some (rewritten (StorageFile.isItem spaceId fileId)
        (fun row => row.placedAt place now) table) := by
  have unused : (table.any fun other => !other.isItem spaceId fileId &&
      decide (other.key = (spaceId, place.path))) = false := by
    rw [List.any_eq_false]
    intro other member both
    simp only [Bool.and_eq_true, Bool.not_eq_true', decide_eq_true_eq] at both
    exact free other member both.1 both.2
  unfold updatePlace
  rw [unused, hasParent_iff.mpr parent, Bool.not_true, Bool.or_false,
    Bool.and_false, if_neg (by simp)]
  rfl

theorem insertRow_some {table after : StorageTable} {row : StorageFile}
    (accepted : insertRow table row = some after) :
    after = table ++ [row] ∧ (∀ other ∈ table, other.id ≠ row.id) ∧
      (∀ other ∈ table, other.key ≠ row.key) ∧
      (∀ id, row.parentId = some id → ∃ other ∈ row :: table, other.id = id) := by
  unfold insertRow at accepted
  split at accepted
  · cases accepted
  · rename_i free
    split at accepted
    · rename_i parent
      rw [Bool.or_eq_true, not_or] at free
      refine ⟨(Option.some.inj accepted).symm, ?_, ?_,
        hasParent_iff.mp parent⟩
      · intro other member same
        exact free.1 (hasId_iff.mpr ⟨other, member, same⟩)
      · intro other member same
        apply free.2
        rw [List.any_eq_true]
        exact ⟨other, member, by simpa using same⟩
    · cases accepted

theorem cascade_sublist (rounds : Nat) (table : StorageTable) :
    (cascade rounds table).Sublist table := by
  induction rounds generalizing table with
  | zero => exact List.Sublist.refl table
  | succ rounds ih => exact (ih _).trans List.filter_sublist

theorem cascade_eq_self {table : StorageTable}
    (parents : ∀ row ∈ table, table.hasParent row.parentId = true)
    (rounds : Nat) : cascade rounds table = table := by
  induction rounds with
  | zero => rfl
  | succ rounds ih =>
      have kept : (table.filter fun row => table.hasParent row.parentId) =
          table := List.filter_eq_self.mpr parents
      rw [cascade, kept]
      exact ih

theorem cascade_parents {rounds : Nat} {table : StorageTable}
    (enough : table.length ≤ rounds) :
    ∀ row ∈ cascade rounds table,
      (cascade rounds table).hasParent row.parentId = true := by
  induction rounds generalizing table with
  | zero =>
      have empty : table = [] := List.length_eq_zero_iff.mp (by omega)
      subst empty
      simp [cascade]
  | succ rounds ih =>
      by_cases parents : ∀ row ∈ table, table.hasParent row.parentId = true
      · rw [cascade_eq_self parents]
        exact parents
      · apply ih
        simp only [not_forall] at parents
        obtain ⟨row, member, orphan⟩ := parents
        have shorter : (table.filter fun row =>
            table.hasParent row.parentId).length < table.length :=
          List.length_filter_lt_length_iff_exists.mpr ⟨row, member, orphan⟩
        omega

theorem deleteRows_sublist (table : StorageTable)
    (selected : StorageFile → Bool) :
    (deleteRows table selected).Sublist table :=
  (cascade_sublist _ _).trans List.filter_sublist

theorem not_mem_deleteRows {table : StorageTable}
    {selected : StorageFile → Bool} {row : StorageFile}
    (chosen : selected row = true) : row ∉ deleteRows table selected := by
  intro member
  have kept := (cascade_sublist _ _).subset member
  rw [List.mem_filter] at kept
  simp [chosen] at kept

theorem deleteRows_parents (table : StorageTable)
    (selected : StorageFile → Bool) :
    ∀ row ∈ deleteRows table selected,
      (deleteRows table selected).hasParent row.parentId = true :=
  cascade_parents (List.length_filter_le _ _)

theorem deleteRows_eq_filter {table : StorageTable}
    {selected : StorageFile → Bool}
    (parents : ∀ row ∈ table, selected row = false →
      ∀ id, row.parentId = some id →
        ∃ parent ∈ table, selected parent = false ∧ parent.id = id) :
    deleteRows table selected = table.filter (fun row => !selected row) := by
  apply cascade_eq_self
  intro row member
  rw [List.mem_filter, Bool.not_eq_true'] at member
  rw [hasParent_iff]
  intro id parentId
  obtain ⟨parent, parentMember, kept, same⟩ :=
    parents row member.1 member.2 id parentId
  exact ⟨parent, List.mem_filter.mpr ⟨parentMember, by simp [kept]⟩, same⟩

end StorageTable

end Takos.SpaceStorage

/-!
# The indexes under every statement

Whatever the statements are given, ids and paths stay distinct and parents stay
present.  A statement never changes the id, the space or the type of a row, so
what is known of a parent stays known.
-/

namespace Takos.SpaceStorage

open Takos.Foundation

/-- The row with the given id, if it is there, is a folder of the space. -/
def ParentKnown (table : StorageTable) (spaceId : Text)
    (parentId : Option Text) : Prop :=
  ∀ parent ∈ table, parentId = some parent.id →
    parent.accountId = spaceId ∧ parent.type = .folder

/-- Rows that differ in neither id, space nor type. -/
structure SameItem (old new : StorageFile) : Prop where
  id : new.id = old.id
  space : new.accountId = old.accountId
  type : new.type = old.type

/-- Every row was there before, maybe with other columns. -/
def Inherits (before after : StorageTable) : Prop :=
  ∀ row ∈ after, ∃ old ∈ before, SameItem old row

theorem Inherits.refl (table : StorageTable) : Inherits table table :=
  fun row member => ⟨row, member, rfl, rfl, rfl⟩

theorem Inherits.of_sublist {before after : StorageTable}
    (sublist : after.Sublist before) : Inherits before after :=
  fun row member => ⟨row, sublist.subset member, rfl, rfl, rfl⟩

namespace StorageTable

variable {table : StorageTable} {selected : StorageFile → Bool}
  {rewrite : StorageFile → StorageFile}

theorem mem_rewritten {row : StorageFile} :
    row ∈ rewritten selected rewrite table ↔
      (∃ old ∈ table, selected old = true ∧ rewrite old = row) ∨
        (row ∈ table ∧ selected row = false) := by
  simp only [rewritten, List.mem_map]
  constructor
  · rintro ⟨old, member, written⟩
    by_cases chosen : selected old = true
    · rw [if_pos chosen] at written
      exact Or.inl ⟨old, member, chosen, written⟩
    · rw [if_neg chosen] at written
      subst written
      exact Or.inr ⟨member, by simpa using chosen⟩
  · rintro (⟨old, member, chosen, written⟩ | ⟨member, kept⟩)
    · exact ⟨old, member, by rw [if_pos chosen, written]⟩
    · exact ⟨row, member, by simp [kept]⟩

theorem rewritten_ids (sameId : ∀ row, (rewrite row).id = row.id) :
    (rewritten selected rewrite table).map StorageFile.id =
      table.map StorageFile.id := by
  rw [rewritten, List.map_map]
  apply List.map_congr_left
  intro row _
  by_cases chosen : selected row = true
  · simp [chosen, sameId]
  · simp [chosen]

theorem rewritten_keys (distinct : table.Nodup)
    (apart : ∀ row ∈ table, ∀ other ∈ table,
      (if selected row then rewrite row else row).key =
        (if selected other then rewrite other else other).key →
      row = other) :
    ((rewritten selected rewrite table).map StorageFile.key).Nodup := by
  rw [rewritten, List.map_map]
  exact List.Nodup.map_on apart distinct

theorem withPath_key (row : StorageFile) (path : Text) (now : Nat) :
    (row.withPath path now).key = (row.accountId, path) := rfl

theorem rewritten_congr {other : StorageFile → StorageFile}
    (same : ∀ row ∈ table, selected row = true → rewrite row = other row) :
    rewritten selected rewrite table = rewritten selected other table := by
  apply List.map_congr_left
  intro row member
  by_cases chosen : selected row = true
  · rw [if_pos chosen, if_pos chosen, same row member chosen]
  · rw [if_neg chosen, if_neg chosen]

theorem rewritten_eq_self
    (unselected : ∀ row ∈ table, selected row = false) :
    rewritten selected rewrite table = table := by
  have kept : ∀ row ∈ table,
      (if selected row then rewrite row else row) = row := by
    intro row member
    rw [unselected row member]
    rfl
  rw [rewritten, List.map_congr_left kept, List.map_id']

theorem updatePlace_absent {after : StorageTable} {spaceId fileId : Text}
    {place : Place} {now : Nat}
    (accepted : StorageTable.updatePlace table spaceId fileId place now =
      some after)
    (absent : ¬∃ row ∈ table, row.isItem spaceId fileId = true) :
    after = table := by
  rw [updatePlace_shape accepted, rewritten_eq_self]
  intro row member
  by_contra item
  exact absent ⟨row, member, by simpa using item⟩

theorem inherits_rewritten
    (same : ∀ row, SameItem row (rewrite row)) :
    Inherits table (rewritten selected rewrite table) := by
  intro row member
  rcases mem_rewritten.mp member with ⟨old, oldMember, _, rfl⟩ | ⟨old, _⟩
  · exact ⟨old, oldMember, same old⟩
  · exact ⟨row, old, rfl, rfl, rfl⟩

theorem stays_rewritten (same : ∀ row, SameItem row (rewrite row))
    {row : StorageFile} (member : row ∈ table) :
    ∃ new ∈ rewritten selected rewrite table, SameItem row new := by
  by_cases chosen : selected row = true
  · exact ⟨rewrite row, mem_rewritten.mpr (Or.inl ⟨row, member, chosen, rfl⟩),
      same row⟩
  · exact ⟨row, mem_rewritten.mpr (Or.inr ⟨member, by simpa using chosen⟩),
      rfl, rfl, rfl⟩

theorem rewriteRows_keys {done rest after : StorageTable}
    (distinct : ((done ++ rest).map StorageFile.key).Nodup)
    (accepted : rewriteRows selected rewrite done rest = some after) :
    (after.map StorageFile.key).Nodup := by
  induction rest generalizing done with
  | nil =>
      simp only [rewriteRows, Option.some.injEq] at accepted
      rwa [List.append_nil, accepted] at distinct
  | cons row rest ih =>
      unfold rewriteRows at accepted
      split at accepted
      · split at accepted
        · cases accepted
        · rename_i free
          apply ih _ accepted
          have moved : ((rewrite row :: (done ++ rest)).map
              StorageFile.key).Nodup := by
            rw [List.map_cons, List.nodup_cons]
            constructor
            · intro clash
              obtain ⟨other, member, same⟩ := List.mem_map.mp clash
              exact free (List.any_eq_true.mpr
                ⟨other, member, by simpa using same⟩)
            · rw [List.perm_middle.map StorageFile.key |>.nodup_iff,
                List.map_cons, List.nodup_cons] at distinct
              exact distinct.2
          rw [List.append_assoc, List.singleton_append]
          exact (List.perm_middle.map StorageFile.key).nodup_iff.mpr moved
      · apply ih _ accepted
        simpa using distinct

end StorageTable

open StorageTable

namespace TableKeys

variable {table after : StorageTable}

/-- Rows may be rewritten as long as the columns stay distinct and the parents
of the new rows are known. -/
theorem rewritten (keys : TableKeys table) {selected : StorageFile → Bool}
    {rewrite : StorageFile → StorageFile}
    (same : ∀ row, SameItem row (rewrite row))
    (distinct : ((StorageTable.rewritten selected rewrite table).map
      StorageFile.key).Nodup)
    (parents : ∀ row ∈ table, selected row = true → ∀ id,
      (rewrite row).parentId = some id → ∃ parent ∈ table, parent.id = id ∧
        parent.accountId = row.accountId ∧ parent.type = .folder) :
    TableKeys (StorageTable.rewritten selected rewrite table) := by
  refine ⟨?_, distinct, ?_⟩
  · rw [rewritten_ids fun row => (same row).id]
    exact keys.distinctIds
  · intro row member id parentId
    have parent : ∃ parent ∈ table, parent.id = id ∧
        parent.accountId = row.accountId ∧ parent.type = .folder := by
      rcases mem_rewritten.mp member with ⟨old, oldMember, chosen, rfl⟩ |
        ⟨member, _⟩
      · rw [(same old).space]
        exact parents old oldMember chosen id parentId
      · exact keys.parents row member id parentId
    obtain ⟨parent, parentMember, rfl, space, isFolder⟩ := parent
    obtain ⟨new, newMember, sameParent⟩ := stays_rewritten same parentMember
    exact ⟨new, newMember, sameParent.id, sameParent.space.trans space,
      sameParent.type.trans isFolder⟩

theorem mem_placed (keys : TableKeys table)
    {file : StorageFile} (member : file ∈ table) (place : Place) (now : Nat)
    (row : StorageFile) :
    row ∈ StorageTable.rewritten (StorageFile.isItem file.accountId file.id)
        (fun row => row.placedAt place now) table ↔
      row = file.placedAt place now ∨ (row ∈ table ∧ row.id ≠ file.id) := by
  rw [mem_rewritten]
  constructor
  · rintro (⟨old, oldMember, item, written⟩ | ⟨rowMember, notItem⟩)
    · have same := keys.eq_of_id oldMember member (isItem_iff.mp item).1
      exact Or.inl (same ▸ written.symm)
    · refine Or.inr ⟨rowMember, fun same => ?_⟩
      have equal := keys.eq_of_id rowMember member same
      simp [equal, StorageFile.isItem] at notItem
  · rintro (rfl | ⟨rowMember, other⟩)
    · exact Or.inl ⟨file, member, by simp [StorageFile.isItem], rfl⟩
    · exact Or.inr ⟨rowMember, by simp [StorageFile.isItem, other]⟩

theorem updatePlace (keys : TableKeys table) {file : StorageFile}
    {place : Place} {now : Nat} (member : file ∈ table)
    (known : ParentKnown table file.accountId place.parentId)
    (accepted : StorageTable.updatePlace table file.accountId file.id place
      now = some after) : TableKeys after := by
  have isItem : file.isItem file.accountId file.id = true := by
    simp [StorageFile.isItem]
  obtain ⟨rfl, free, present⟩ := updatePlace_some member isItem accepted
  have chosen : ∀ row ∈ table,
      row.isItem file.accountId file.id = true → row = file :=
    fun row rowMember item =>
      keys.eq_of_id rowMember member (isItem_iff.mp item).1
  have same : ∀ row, SameItem row (StorageFile.placedAt row place now) :=
    fun _ => ⟨rfl, rfl, rfl⟩
  apply keys.rewritten same
  · apply rewritten_keys (List.Nodup.of_map _ keys.distinctIds)
    intro row rowMember other otherMember same
    by_cases item : row.isItem file.accountId file.id = true
    · by_cases otherItem : other.isItem file.accountId file.id = true
      · rw [chosen row rowMember item, chosen other otherMember otherItem]
      · rw [if_pos item, if_neg otherItem, chosen row rowMember item] at same
        exact absurd same.symm
          (free other otherMember (by simpa using otherItem))
    · by_cases otherItem : other.isItem file.accountId file.id = true
      · rw [if_neg item, if_pos otherItem,
          chosen other otherMember otherItem] at same
        exact absurd same (free row rowMember (by simpa using item))
      · rw [if_neg item, if_neg otherItem] at same
        exact List.inj_on_of_nodup_map keys.distinctPaths rowMember
          otherMember same
  · intro row rowMember item id parentId
    obtain ⟨parent, parentMember, rfl⟩ := present id parentId
    obtain ⟨space, isFolder⟩ := known parent parentMember parentId
    rw [chosen row rowMember item]
    exact ⟨parent, parentMember, rfl, space, isFolder⟩

theorem updateItem (keys : TableKeys table) {spaceId fileId : Text}
    {place : Place} {now : Nat}
    (known : ParentKnown table spaceId place.parentId)
    (accepted : StorageTable.updatePlace table spaceId fileId place now =
      some after) : TableKeys after ∧ Inherits table after := by
  have shape := updatePlace_shape accepted
  by_cases found : ∃ file ∈ table, file.isItem spaceId fileId = true
  · obtain ⟨file, member, isItem⟩ := found
    obtain ⟨rfl, rfl⟩ := isItem_iff.mp isItem
    refine ⟨keys.updatePlace member known accepted, ?_⟩
    rw [shape]
    exact inherits_rewritten fun _ => ⟨rfl, rfl, rfl⟩
  · rw [updatePlace_absent accepted found]
    exact ⟨keys, Inherits.refl table⟩

theorem updateDescendantPaths (keys : TableKeys table)
    {spaceId oldPath newPath : Text} {now : Nat}
    (accepted : StorageTable.updateDescendantPaths table spaceId oldPath
      newPath now = some after) :
    TableKeys after ∧ Inherits table after := by
  have shape := rewriteRows_some accepted
  rw [List.nil_append] at shape
  have distinct : (after.map StorageFile.key).Nodup := by
    apply rewriteRows_keys _ accepted
    exact keys.distinctPaths
  subst shape
  have same : ∀ row, SameItem row (StorageFile.withPath row
      (newPath ++ ['/'] ++
        substr row.path ((oldPath ++ ['/']).size + 1)) now) :=
    fun _ => ⟨rfl, rfl, rfl⟩
  exact ⟨keys.rewritten same distinct
    (fun row member _ => keys.parents row member), inherits_rewritten same⟩

theorem deleteRows (keys : TableKeys table)
    (selected : StorageFile → Bool) :
    TableKeys (table.deleteRows selected) := by
  have sublist := deleteRows_sublist table selected
  refine ⟨keys.distinctIds.sublist (sublist.map _),
    keys.distinctPaths.sublist (sublist.map _), ?_⟩
  intro row member id parentId
  obtain ⟨parent, parentMember, rfl⟩ :=
    hasParent_iff.mp (deleteRows_parents table selected row member) id parentId
  obtain ⟨found, foundMember, same, facts⟩ :=
    keys.parents row (sublist.subset member) parent.id parentId
  have equal := keys.eq_of_id foundMember (sublist.subset parentMember) same
  subst equal
  exact ⟨found, parentMember, rfl, facts⟩

theorem insertRow (keys : TableKeys table) {row : StorageFile}
    (known : ParentKnown (row :: table) row.accountId row.parentId)
    (accepted : StorageTable.insertRow table row = some after) :
    TableKeys after := by
  obtain ⟨rfl, freshId, freshPath, present⟩ := insertRow_some accepted
  have perm : (table ++ [row]).Perm (row :: table) :=
    List.perm_append_singleton row table
  refine ⟨?_, ?_, ?_⟩
  · rw [(perm.map _).nodup_iff, List.map_cons, List.nodup_cons]
    refine ⟨?_, keys.distinctIds⟩
    intro clash
    obtain ⟨other, member, same⟩ := List.mem_map.mp clash
    exact freshId other member same
  · rw [(perm.map _).nodup_iff, List.map_cons, List.nodup_cons]
    refine ⟨?_, keys.distinctPaths⟩
    intro clash
    obtain ⟨other, member, same⟩ := List.mem_map.mp clash
    exact freshPath other member same
  · intro other member id parentId
    rcases List.mem_cons.mp (perm.mem_iff.mp member) with rfl | member
    · obtain ⟨parent, parentMember, rfl⟩ := present id parentId
      exact ⟨parent, perm.mem_iff.mpr parentMember, rfl,
        known parent parentMember parentId⟩
    · obtain ⟨parent, parentMember, facts⟩ :=
        keys.parents other member id parentId
      exact ⟨parent, perm.mem_iff.mpr (List.mem_cons_of_mem _ parentMember),
        facts⟩

end TableKeys

end Takos.SpaceStorage
