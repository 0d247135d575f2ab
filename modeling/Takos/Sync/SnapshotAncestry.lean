import Takos.Sync.SnapshotWalk

/-!
# What the snapshot walk finds

Every id found is an ancestor of the head.  While no layer is wider than a
batch, the walk finds the layers that begin below the cap.
-/

namespace Takos.Sync

open Takos.Foundation Relation

variable {Number : Type} {codec : JsonCodec Number}
  {snapshots : List SnapshotRow} {spaceId : Text}

theorem visitRows_reachable (rows : List SnapshotRow) (reachable : Finset Text)
    (nextToFetch : List Text) :
    (visitRows codec rows reachable nextToFetch).1 =
      reachable ∪ (rows.map SnapshotRow.id).toFinset := by
  induction rows generalizing reachable nextToFetch with
  | nil => simp [visitRows]
  | cons row rest ih =>
      rw [visitRows, ih]
      ext id
      simp only [Finset.mem_union, Finset.mem_insert, List.map_cons,
        List.toFinset_cons]
      tauto

theorem visitRows_toFetch (rows : List SnapshotRow) (reachable : Finset Text)
    (nextToFetch : List Text) :
    ∀ id ∈ (visitRows codec rows reachable nextToFetch).2,
      id ∈ nextToFetch ∨
        ∃ row ∈ rows, id ∈ parseParentIds codec row.parentIds := by
  induction rows generalizing reachable nextToFetch with
  | nil => exact fun id member => .inl member
  | cons row rest ih =>
      intro id member
      rcases ih _ _ id member with earlier | ⟨later, laterMember, named⟩
      · rcases List.mem_append.mp earlier with old | pushed
        · exact .inl old
        · exact .inr ⟨row, List.mem_cons_self, (List.mem_filter.mp pushed).1⟩
      · exact .inr ⟨later, List.mem_cons_of_mem _ laterMember, named⟩

theorem visitRows_filter (rows : List SnapshotRow) (reachable : Finset Text)
    (nextToFetch : List Text) {larger : Finset Text}
    (grown : (visitRows codec rows reachable nextToFetch).1 ⊆ larger) :
    ((visitRows codec rows reachable nextToFetch).2.filter
        fun id => id ∉ larger) =
      (nextToFetch ++ rows.flatMap fun row =>
        parseParentIds codec row.parentIds).filter fun id => id ∉ larger := by
  induction rows generalizing reachable nextToFetch with
  | nil => simp [visitRows]
  | cons row rest ih =>
      rw [visitRows] at grown ⊢
      rw [ih _ _ grown]
      have inserted : insert row.id reachable ⊆ larger := by
        rw [visitRows_reachable] at grown
        exact Finset.subset_union_left.trans grown
      have filtered : ∀ ids : List Text,
          (ids.filter fun id => id ∉ insert row.id reachable).filter
              (fun id => id ∉ larger) =
            ids.filter fun id => id ∉ larger := by
        intro ids
        rw [List.filter_filter]
        apply List.filter_congr
        intro id _
        rw [Bool.eq_iff_iff, Bool.and_eq_true]
        simp only [decide_eq_true_eq, and_iff_left_iff_imp]
        exact fun outside inside => outside (inserted inside)
      simp only [List.flatMap_cons, List.filter_append, filtered,
        List.append_assoc]

theorem mem_parentLinks {id : Text} {parents : List Text} :
    (id, parents) ∈ parentLinks codec snapshots spaceId ↔
      ∃ row ∈ snapshots, row.accountId = spaceId ∧ row.id = id ∧
        parseParentIds codec row.parentIds = parents := by
  constructor
  · intro member
    obtain ⟨row, rowMember, rowEq⟩ := List.mem_map.mp member
    obtain ⟨listed, inSpace⟩ := List.mem_filter.mp rowMember
    exact ⟨row, listed, of_decide_eq_true inSpace,
      congrArg Prod.fst rowEq, congrArg Prod.snd rowEq⟩
  · intro ⟨row, listed, inSpace, idEq, parentsEq⟩
    exact List.mem_map.mpr ⟨row,
      List.mem_filter.mpr ⟨listed, decide_eq_true inSpace⟩,
      Prod.ext idEq parentsEq⟩

variable {batchIds : List Text} {row : SnapshotRow} {headIds : List Text}

theorem mem_snapshotRows :
    row ∈ snapshotRows snapshots spaceId batchIds ↔
      row ∈ snapshots ∧ row.accountId = spaceId ∧ row.id ∈ batchIds := by
  rw [snapshotRows, List.mem_filter, decide_eq_true_eq]

theorem snapshotRows_stored
    (member : row ∈ snapshotRows snapshots spaceId batchIds) :
    (parentLinks codec snapshots spaceId).Stored row.id := by
  obtain ⟨listed, inSpace, _⟩ := mem_snapshotRows.mp member
  exact List.mem_map.mpr
    ⟨_, mem_parentLinks.mpr ⟨row, listed, inSpace, rfl, rfl⟩, rfl⟩

theorem snapshotRows_link
    (member : row ∈ snapshotRows snapshots spaceId batchIds) {parent : Text}
    (named : parent ∈ parseParentIds codec row.parentIds) :
    (parentLinks codec snapshots spaceId).Link row.id parent := by
  obtain ⟨listed, inSpace, _⟩ := mem_snapshotRows.mp member
  exact ⟨_, mem_parentLinks.mpr ⟨row, listed, inSpace, rfl, rfl⟩, named⟩

theorem snapshotRows_ids {nodes : Finset Text}
    (same : ∀ id, (parentLinks codec snapshots spaceId).Stored id →
      (id ∈ batchIds ↔ id ∈ nodes)) (id : Text) :
    id ∈ (snapshotRows snapshots spaceId batchIds).map SnapshotRow.id ↔
      id ∈ nodes ∧ (parentLinks codec snapshots spaceId).Stored id := by
  constructor
  · intro member
    obtain ⟨row, rowMember, rfl⟩ := List.mem_map.mp member
    have stored : (parentLinks codec snapshots spaceId).Stored row.id :=
      snapshotRows_stored rowMember
    exact ⟨(same _ stored).mp (mem_snapshotRows.mp rowMember).2.2, stored⟩
  · intro ⟨inside, stored⟩
    obtain ⟨⟨key, parents⟩, member, rfl⟩ := List.mem_map.mp stored
    obtain ⟨row, listed, inSpace, idEq, _⟩ := mem_parentLinks.mp member
    refine List.mem_map.mpr ⟨row, mem_snapshotRows.mpr ?_, idEq⟩
    refine ⟨listed, inSpace, ?_⟩
    rw [idEq]
    exact (same _ stored).mpr inside

theorem snapshotRows_parents {nodes : Finset Text}
    (same : ∀ id, (parentLinks codec snapshots spaceId).Stored id →
      (id ∈ batchIds ↔ id ∈ nodes)) :
    ((snapshotRows snapshots spaceId batchIds).flatMap fun row =>
        parseParentIds codec row.parentIds) =
      (parentLinks codec snapshots spaceId).parentsOf nodes := by
  have rows : snapshotRows snapshots spaceId batchIds =
      (snapshots.filter fun row => row.accountId = spaceId).filter
        fun row => row.id ∈ nodes := by
    rw [snapshotRows, List.filter_filter]
    apply List.filter_congr
    intro row listed
    rw [Bool.eq_iff_iff, Bool.and_eq_true]
    simp only [decide_eq_true_eq]
    constructor
    · intro ⟨inSpace, asked⟩
      exact ⟨(same _ (snapshotRows_stored
        (mem_snapshotRows.mpr ⟨listed, inSpace, asked⟩))).mp asked, inSpace⟩
    · intro ⟨inside, inSpace⟩
      have stored : (parentLinks codec snapshots spaceId).Stored row.id :=
        List.mem_map.mpr
          ⟨_, mem_parentLinks.mpr ⟨row, listed, inSpace, rfl, rfl⟩, rfl⟩
      exact ⟨inSpace, (same _ stored).mpr inside⟩
  rw [rows, Adjacency.parentsOf, parentLinks, List.filter_map,
    List.flatMap_map]
  rfl

theorem traverse_some {walk next : Traversal}
    (round : fetchRound codec snapshots spaceId walk = some next) :
    traverse codec snapshots spaceId walk =
      traverse codec snapshots spaceId next := by
  rw [traverse]
  split
  · rename_i ended
    rw [round] at ended
    cases ended
  · rename_i other same
    rw [round] at same
    rw [Option.some.inj same]

theorem traverse_none {walk : Traversal}
    (ended : fetchRound codec snapshots spaceId walk = none) :
    traverse codec snapshots spaceId walk = walk.reachable := by
  rw [traverse]
  split
  · rfl
  · rename_i other same
    rw [ended] at same
    cases same

theorem traverse_rule {keeps : Traversal → Prop}
    (step : ∀ walk next, keeps walk →
      fetchRound codec snapshots spaceId walk = some next → keeps next)
    (walk : Traversal) (start : keeps walk) :
    ∃ last, keeps last ∧ fetchRound codec snapshots spaceId last = none ∧
      traverse codec snapshots spaceId walk = last.reachable := by
  induction walk using traverse.induct codec snapshots spaceId with
  | case1 walk ended => exact ⟨walk, start, ended, traverse_none ended⟩
  | case2 walk next round ih =>
      obtain ⟨last, kept, ended, result⟩ := ih (step walk next start round)
      exact ⟨last, kept, ended, (traverse_some round).trans result⟩

structure Ancestors (codec : JsonCodec Number) (snapshots : List SnapshotRow)
    (spaceId head : Text) (walk : Traversal) : Prop where
  reachable : ∀ id ∈ walk.reachable,
    (parentLinks codec snapshots spaceId).Reachable head id
  toFetch : ∀ id ∈ walk.toFetch,
    ReflTransGen (parentLinks codec snapshots spaceId).Link head id

theorem Ancestors.step {head : Text} {walk next : Traversal}
    (ancestors : Ancestors codec snapshots spaceId head walk)
    (round : fetchRound codec snapshots spaceId walk = some next) :
    Ancestors codec snapshots spaceId head next := by
  obtain ⟨_, _, _, visited⟩ := fetchRound_some round
  have reachableEq := congrArg Prod.fst visited
  have toFetchEq := congrArg Prod.snd visited
  dsimp only at reachableEq toFetchEq
  have met : ∀ row ∈ snapshotRows snapshots spaceId (batchOf walk),
      ReflTransGen (parentLinks codec snapshots spaceId).Link head row.id := by
    intro row member
    have asked := List.mem_of_mem_take (mem_snapshotRows.mp member).2.2
    exact ancestors.toFetch _ (List.mem_filter.mp asked).1
  constructor
  · intro id member
    rw [reachableEq, visitRows_reachable, Finset.mem_union,
      List.mem_toFinset] at member
    rcases member with old | found
    · exact ancestors.reachable id old
    · obtain ⟨row, rowMember, rfl⟩ := List.mem_map.mp found
      exact ⟨met row rowMember, snapshotRows_stored rowMember⟩
  · intro id member
    rw [toFetchEq] at member
    rcases visitRows_toFetch _ _ _ id member with old | ⟨row, listed, named⟩
    · exact absurd old List.not_mem_nil
    · exact (met row listed).tail (snapshotRows_link listed named)

theorem getReachableSnapshots_sound {head id : Text}
    (member : id ∈ getReachableSnapshots codec snapshots spaceId head) :
    (parentLinks codec snapshots spaceId).Reachable head id := by
  have start : Ancestors codec snapshots spaceId head ⟨0, ∅, [head]⟩ := by
    constructor
    · intro id member
      exact absurd member (Finset.notMem_empty id)
    · intro id member
      exact List.mem_singleton.mp member ▸ .refl
  obtain ⟨last, kept, _, result⟩ := traverse_rule
    (fun _ _ ancestors round => ancestors.step round) _ start
  rw [getReachableSnapshots, result] at member
  exact kept.reachable id member

theorem card_getReachableSnapshots (head : Text) :
    (getReachableSnapshots codec snapshots spaceId head).card <
      MAX_DAG_DEPTH + BATCH_SIZE := by
  have step : ∀ walk next : Traversal,
      (walk.reachable.card ≤ walk.iterations ∧
        walk.iterations < MAX_DAG_DEPTH + BATCH_SIZE) →
      fetchRound codec snapshots spaceId walk = some next →
      next.reachable.card ≤ next.iterations ∧
        next.iterations < MAX_DAG_DEPTH + BATCH_SIZE := by
    intro walk next ⟨card, _⟩ round
    obtain ⟨below, _, iterations, visited⟩ := fetchRound_some round
    have reachableEq := congrArg Prod.fst visited
    dsimp only at reachableEq
    have batch : (batchOf walk).length ≤ BATCH_SIZE := List.length_take_le _ _
    have found : ((snapshotRows snapshots spaceId (batchOf walk)).map
        SnapshotRow.id).toFinset ⊆ (batchOf walk).toFinset := by
      intro id member
      obtain ⟨row, rowMember, rfl⟩ :=
        List.mem_map.mp (List.mem_toFinset.mp member)
      exact List.mem_toFinset.mpr (mem_snapshotRows.mp rowMember).2.2
    have grown : next.reachable.card ≤
        walk.reachable.card + (batchOf walk).length := by
      rw [reachableEq, visitRows_reachable]
      calc
        _ ≤ _ := Finset.card_union_le _ _
        _ ≤ _ := Nat.add_le_add_left ((Finset.card_le_card found).trans
          (List.toFinset_card_le _)) _
    omega
  obtain ⟨last, kept, _, result⟩ := traverse_rule step ⟨0, ∅, [head]⟩
    ⟨Nat.le_refl 0, Nat.add_pos_left (by decide) _⟩
  rw [getReachableSnapshots, result]
  omega

/-- The walk has met the layers before `count`. -/
structure AtLayer (codec : JsonCodec Number) (snapshots : List SnapshotRow)
    (spaceId head : Text) (count : Nat) (walk : Traversal) : Prop where
  iterations : walk.iterations =
    (parentLinks codec snapshots spaceId).askedBefore head count
  reachable : walk.reachable =
    (parentLinks codec snapshots spaceId).within head count
  toFetch : (walk.toFetch.filter fun id => id ∉ walk.reachable) =
    (parentLinks codec snapshots spaceId).fresh head count

theorem AtLayer.step {head : Text} {count : Nat} {walk next : Traversal}
    (layer : AtLayer codec snapshots spaceId head count walk)
    (narrow : ((parentLinks codec snapshots spaceId).fresh head count).length ≤
      BATCH_SIZE)
    (round : fetchRound codec snapshots spaceId walk = some next) :
    AtLayer codec snapshots spaceId head (count + 1) next := by
  obtain ⟨_, _, iterations, visited⟩ := fetchRound_some round
  have batch : batchOf walk =
      (parentLinks codec snapshots spaceId).fresh head count := by
    rw [batchOf, layer.toFetch]
    exact List.take_of_length_le narrow
  rw [batch] at iterations visited
  have reachableEq := congrArg Prod.fst visited
  have toFetchEq := congrArg Prod.snd visited
  dsimp only at reachableEq toFetchEq
  have stored : ∀ id, (parentLinks codec snapshots spaceId).Stored id → _ :=
    fun id stored => @Adjacency.mem_fresh_iff _ _ _ head _ count stored
  have grown : next.reachable =
      (parentLinks codec snapshots spaceId).within head (count + 1) := by
    rw [reachableEq, visitRows_reachable, layer.reachable]
    ext id
    rw [Finset.mem_union, List.mem_toFinset, snapshotRows_ids stored,
      Finset.mem_sdiff]
    constructor
    · intro found
      rcases found with old | new
      · exact Adjacency.within_succ count old
      · exact new.1.1
    · intro member
      by_cases old : id ∈
          (parentLinks codec snapshots spaceId).within head count
      · exact .inl old
      · exact .inr ⟨⟨member, old⟩, (Adjacency.mem_within_succ.mp member).1⟩
  constructor
  · rw [iterations, layer.iterations, Adjacency.askedBefore_succ]
  · exact grown
  · have outside : (visitRows codec (snapshotRows snapshots spaceId
        ((parentLinks codec snapshots spaceId).fresh head count))
          walk.reachable []).1 ⊆ next.reachable := by
      rw [reachableEq]
    rw [toFetchEq, visitRows_filter _ _ _ outside, List.nil_append,
      snapshotRows_parents stored, grown, Adjacency.fresh]

theorem getReachableSnapshots_layers {head : Text}
    (narrow : ∀ count,
      ((parentLinks codec snapshots spaceId).fresh head count).length ≤
        BATCH_SIZE) (id : Text) :
    id ∈ getReachableSnapshots codec snapshots spaceId head ↔
      ∃ count,
        id ∈ (parentLinks codec snapshots spaceId).within head (count + 1) ∧
        (parentLinks codec snapshots spaceId).askedBefore head count <
          MAX_DAG_DEPTH := by
  have step : ∀ walk next : Traversal,
      (∃ count, AtLayer codec snapshots spaceId head count walk ∧
        ∀ fewer, fewer < count →
          (parentLinks codec snapshots spaceId).askedBefore head fewer <
            MAX_DAG_DEPTH) →
      fetchRound codec snapshots spaceId walk = some next →
      ∃ count, AtLayer codec snapshots spaceId head count next ∧
        ∀ fewer, fewer < count →
          (parentLinks codec snapshots spaceId).askedBefore head fewer <
            MAX_DAG_DEPTH := by
    intro walk next ⟨count, layer, before⟩ round
    refine ⟨count + 1, layer.step (narrow count) round, ?_⟩
    intro fewer below
    have bound : walk.iterations < MAX_DAG_DEPTH := (fetchRound_some round).1
    rw [layer.iterations] at bound
    have mono := @Adjacency.askedBefore_mono _ _
      (parentLinks codec snapshots spaceId) head _ _
      (show fewer ≤ count by omega)
    omega
  have start : AtLayer codec snapshots spaceId head 0 ⟨0, ∅, [head]⟩ := by
    constructor <;> rfl
  obtain ⟨last, ⟨count, layer, before⟩, ended, result⟩ := traverse_rule step
    ⟨0, ∅, [head]⟩ ⟨0, start, fun _ below => absurd below (Nat.not_lt_zero _)⟩
  rw [getReachableSnapshots, result, layer.reachable]
  constructor
  · intro member
    cases count with
    | zero => exact absurd member (Finset.notMem_empty id)
    | succ count => exact ⟨count, member, before count (Nat.lt_succ_self count)⟩
  · intro ⟨other, member, below⟩
    rcases Nat.lt_or_ge other count with inside | outside
    · exact Adjacency.within_mono inside member
    · rcases fetchRound_none ended with capped | empty
      · rw [layer.iterations] at capped
        have mono := @Adjacency.askedBefore_mono _ _
          (parentLinks codec snapshots spaceId) head _ _ outside
        omega
      · rw [layer.toFetch] at empty
        rw [← Adjacency.within_eq_of_fresh_nil empty
          (show count ≤ other + 1 by omega)]
        exact member

theorem mem_reachableFromHeads {id : Text} :
    id ∈ reachableFromHeads codec snapshots spaceId headIds ↔
      ∃ head ∈ headIds,
        id ∈ getReachableSnapshots codec snapshots spaceId head := by
  have general : ∀ found : Finset Text,
      id ∈ headIds.foldl (fun reachable headId => reachable ∪
          getReachableSnapshots codec snapshots spaceId headId) found ↔
        id ∈ found ∨ ∃ head ∈ headIds,
          id ∈ getReachableSnapshots codec snapshots spaceId head := by
    induction headIds with
    | nil => simp
    | cons head rest ih =>
        intro found
        rw [List.foldl_cons, ih, Finset.mem_union, List.exists_mem_cons_iff,
          or_assoc]
  rw [reachableFromHeads, general]
  simp only [Finset.notMem_empty, false_or]

/-- The layers of a walk that begin below the cap. -/
def BeginsBelowCap (codec : JsonCodec Number) (snapshots : List SnapshotRow)
    (spaceId head : Text) (count : Nat) : Prop :=
  (parentLinks codec snapshots spaceId).askedBefore head count < MAX_DAG_DEPTH

/-- No round of the walk asks for more than one batch. -/
def FitsBatches (codec : JsonCodec Number) (snapshots : List SnapshotRow)
    (spaceId head : Text) : Prop :=
  ∀ count, ((parentLinks codec snapshots spaceId).fresh head count).length ≤
    BATCH_SIZE

theorem reachable_of_beginsBelowCap {head id : Text}
    (below : ∀ count,
      (parentLinks codec snapshots spaceId).fresh head count ≠ [] →
        BeginsBelowCap codec snapshots spaceId head count)
    (reachable : (parentLinks codec snapshots spaceId).Reachable head id) :
    ∃ count,
      id ∈ (parentLinks codec snapshots spaceId).within head (count + 1) ∧
        BeginsBelowCap codec snapshots spaceId head count := by
  obtain ⟨count, member⟩ := Adjacency.reachable_iff_within.mp reachable
  induction count with
  | zero => exact absurd member (Finset.notMem_empty id)
  | succ count ih =>
      by_cases nearer : id ∈
          (parentLinks codec snapshots spaceId).within head count
      · exact ih nearer
      · have asked := (Adjacency.mem_fresh_iff reachable.2).mpr
          (Finset.mem_sdiff.mpr ⟨member, nearer⟩)
        exact ⟨count, member, below count (List.ne_nil_of_mem asked)⟩

theorem mem_reachableFromHeads_layers
    (narrow : ∀ head ∈ headIds, FitsBatches codec snapshots spaceId head)
    (id : Text) :
    id ∈ reachableFromHeads codec snapshots spaceId headIds ↔
      ∃ head ∈ headIds, ∃ count,
        id ∈ (parentLinks codec snapshots spaceId).within head (count + 1) ∧
          BeginsBelowCap codec snapshots spaceId head count := by
  rw [mem_reachableFromHeads]
  apply exists_congr
  intro head
  apply and_congr_right
  intro headMember
  exact getReachableSnapshots_layers (narrow head headMember) id

theorem mem_reachableFromHeads_exact
    (narrow : ∀ head ∈ headIds, FitsBatches codec snapshots spaceId head)
    (below : ∀ head ∈ headIds, ∀ count,
      (parentLinks codec snapshots spaceId).fresh head count ≠ [] →
        BeginsBelowCap codec snapshots spaceId head count) (id : Text) :
    id ∈ reachableFromHeads codec snapshots spaceId headIds ↔
      ∃ head ∈ headIds,
        (parentLinks codec snapshots spaceId).Reachable head id := by
  rw [mem_reachableFromHeads_layers narrow]
  constructor
  · intro ⟨head, headMember, count, member, _⟩
    exact ⟨head, headMember, Adjacency.within_sound member⟩
  · intro ⟨head, headMember, reachable⟩
    exact ⟨head, headMember,
      reachable_of_beginsBelowCap (below head headMember) reachable⟩

theorem askedBefore_le_of_links
    (few : ((parentLinks codec snapshots spaceId).flatMap Prod.snd).length <
      BATCH_SIZE) (head : Text) (count : Nat) :
    (parentLinks codec snapshots spaceId).askedBefore head count ≤
      BATCH_SIZE := by
  have bound := @Adjacency.askedBefore_le_links _ _
    (parentLinks codec snapshots spaceId) head count
  omega

theorem fitsBatches_of_links
    (few : ((parentLinks codec snapshots spaceId).flatMap Prod.snd).length <
      BATCH_SIZE) (head : Text) :
    FitsBatches codec snapshots spaceId head := by
  intro count
  have sum := askedBefore_le_of_links few head (count + 1)
  rw [Adjacency.askedBefore_succ] at sum
  omega

theorem beginsBelowCap_of_links
    (few : ((parentLinks codec snapshots spaceId).flatMap Prod.snd).length <
      BATCH_SIZE) (head : Text) (count : Nat) :
    BeginsBelowCap codec snapshots spaceId head count :=
  Nat.lt_of_le_of_lt (askedBefore_le_of_links few head count) (by decide)

section Chain

def chainId (index : Nat) : Text := List.replicate (index + 1) 'a'

/-- The first of `length` snapshots in a row; the last one has no parent. -/
def chainRow (codec : JsonCodec Number) (length index : Nat) : SnapshotRow where
  id := chainId index
  accountId := "space".toList
  parentIds := some (storedParentIds codec
    (if index + 1 < length then [chainId (index + 1)] else []))

def chain (codec : JsonCodec Number) (length : Nat) : List SnapshotRow :=
  (List.range length).map (chainRow codec length)

theorem chainId_injective : Function.Injective chainId := by
  intro left right same
  have lengths := congrArg List.length same
  simp only [chainId, List.length_replicate] at lengths
  omega

theorem chain_link (codec : JsonCodec Number) {length index : Nat}
    (inside : index < length) :
    (chainId index, if index + 1 < length then [chainId (index + 1)] else []) ∈
      parentLinks codec (chain codec length) "space".toList := by
  refine mem_parentLinks.mpr ⟨chainRow codec length index,
    List.mem_map.mpr ⟨index, List.mem_range.mpr inside, rfl⟩, rfl, rfl, ?_⟩
  exact parseParentIds_stored codec _

theorem chain_reachable (codec : JsonCodec Number) {length index : Nat}
    (inside : index < length) :
    (parentLinks codec (chain codec length) "space".toList).Reachable
      (chainId 0) (chainId index) := by
  refine ⟨?_, List.mem_map.mpr ⟨_, chain_link codec inside, rfl⟩⟩
  induction index with
  | zero => exact .refl
  | succ index ih =>
      refine (ih (by omega)).tail ⟨_, chain_link codec (by omega), ?_⟩
      rw [if_pos inside]
      exact List.mem_singleton.mpr rfl

/-- The walk from the newest of many snapshots in a row misses some of them. -/
theorem chain_missed (codec : JsonCodec Number) {length : Nat}
    (long : MAX_DAG_DEPTH + BATCH_SIZE ≤ length) :
    ∃ id, (parentLinks codec (chain codec length) "space".toList).Reachable
        (chainId 0) id ∧
      id ∉ getReachableSnapshots codec (chain codec length) "space".toList
        (chainId 0) := by
  by_contra complete
  push Not at complete
  have all : (Finset.range length).image chainId ⊆
      getReachableSnapshots codec (chain codec length) "space".toList
        (chainId 0) := by
    intro id member
    obtain ⟨index, inside, rfl⟩ := Finset.mem_image.mp member
    exact complete _ (chain_reachable codec (Finset.mem_range.mp inside))
  have count := Finset.card_le_card all
  rw [Finset.card_image_of_injective _ chainId_injective,
    Finset.card_range] at count
  have bound := @card_getReachableSnapshots _ codec (chain codec length)
    "space".toList (chainId 0)
  omega

end Chain

end Takos.Sync
