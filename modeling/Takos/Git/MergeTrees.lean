import Takos.Git.Merge
import Mathlib.Data.List.Pairwise

/-!
# The tree that a merge returns

The merged map is the pointwise three-way merge and the conflicts are the paths
that both sides changed differently.  The rebuilt tree holds the merged map
when no merged path is a directory of another one; otherwise the builder
throws.
-/

namespace Takos.Git

open Takos.Foundation

variable {Sha : Type} [DecidableEq Sha] {ids : ObjectIds Sha}

/-- What a path holds in a list of files. -/
def entryAt (files : List (FileEntry Sha)) (path : Text) :
    Option (TreeFileEntry Sha) :=
  (toEntryMap files).get? path

def Conflicting (baseFiles localFiles upstreamFiles : List (FileEntry Sha))
    (path : Text) : Prop :=
  ChangedDifferently (entryAt baseFiles path) (entryAt localFiles path)
    (entryAt upstreamFiles path)

instance (baseFiles localFiles upstreamFiles : List (FileEntry Sha))
    (path : Text) :
    Decidable (Conflicting baseFiles localFiles upstreamFiles path) :=
  inferInstanceAs (Decidable (ChangedDifferently _ _ _))

/-- The pointwise three-way merge. -/
def mergedAt (baseFiles localFiles upstreamFiles : List (FileEntry Sha))
    (path : Text) : Option (TreeFileEntry Sha) :=
  threeWay (entryAt baseFiles path) (entryAt localFiles path)
    (entryAt upstreamFiles path)

section Loop

variable (baseMap localMap upstreamMap : EntryMap Sha)

/-- The conflict that the loop records for a path, if any. -/
def conflictAt (path : Text) : Option MergeConflict :=
  match mergePath (baseMap.get? path) (localMap.get? path)
      (upstreamMap.get? path) with
  | .keep _ => none
  | .conflict type => some ⟨path, type⟩

theorem mergePaths_conflicts (paths : List Text)
    (state : EntryMap Sha × List MergeConflict) :
    (mergePaths baseMap localMap upstreamMap paths state).2 =
      state.2 ++ paths.filterMap (conflictAt baseMap localMap upstreamMap) := by
  induction paths generalizing state with
  | nil => simp [mergePaths]
  | cons path rest ih =>
      cases decision : mergePath (baseMap.get? path) (localMap.get? path)
          (upstreamMap.get? path) with
      | keep entry =>
          have silent : conflictAt baseMap localMap upstreamMap path = none := by
            simp only [conflictAt, decision]
          cases entry <;> simp only [mergePaths, decision, recordMerge, ih,
            List.filterMap_cons, silent]
      | conflict type =>
          have recorded : conflictAt baseMap localMap upstreamMap path =
              some ⟨path, type⟩ := by
            simp only [conflictAt, decision]
          simp only [mergePaths, decision, recordMerge, ih,
            List.filterMap_cons, recorded, List.append_assoc,
            List.singleton_append]

/-- The entry that the loop writes for a path, if any. -/
def keptAt (path : Text) : Option (TreeFileEntry Sha) :=
  match mergePath (baseMap.get? path) (localMap.get? path)
      (upstreamMap.get? path) with
  | .keep entry => entry
  | .conflict _ => none

theorem mergePaths_get? (paths : List Text)
    (state : EntryMap Sha × List MergeConflict) (path : Text) :
    (mergePaths baseMap localMap upstreamMap paths state).1.get? path =
      if path ∈ paths then
        (keptAt baseMap localMap upstreamMap path).or (state.1.get? path)
      else state.1.get? path := by
  induction paths generalizing state with
  | nil => simp [mergePaths]
  | cons first rest ih =>
      rw [mergePaths, ih]
      by_cases same : path = first
      · subst same
        cases decision : mergePath (baseMap.get? path) (localMap.get? path)
            (upstreamMap.get? path) with
        | conflict type => simp [keptAt, decision, recordMerge]
        | keep entry => cases entry <;> simp [keptAt, decision, recordMerge]
      · have later : (path ∈ first :: rest) ↔ path ∈ rest := by simp [same]
        have untouched : ∀ decision : PathMerge Sha,
            (recordMerge first decision state).1.get? path =
              state.1.get? path := by
          intro decision
          cases decision with
          | conflict type => rfl
          | keep entry =>
              cases entry with
              | none => rfl
              | some entry => exact OrderedMap.get?_set_of_ne _ same entry
        rw [untouched]
        simp only [later]

end Loop

section Files

variable (baseFiles localFiles upstreamFiles : List (FileEntry Sha))

theorem mem_unionKeys {Value : Type}
    {baseMap localMap upstreamMap : OrderedMap Text Value} {path : Text} :
    path ∈ unionKeys baseMap localMap upstreamMap ↔
      path ∈ baseMap.keys ∨ path ∈ localMap.keys ∨ path ∈ upstreamMap.keys := by
  simp [unionKeys, OrderedMap.mem_keys_ofList]

theorem mergePath_files (path : Text) :
    mergePath ((toEntryMap baseFiles).get? path)
        ((toEntryMap localFiles).get? path)
        ((toEntryMap upstreamFiles).get? path) =
      if Conflicting baseFiles localFiles upstreamFiles path then
        .conflict (classifyConflict (entryAt baseFiles path)
          (entryAt localFiles path) (entryAt upstreamFiles path))
      else .keep (mergedAt baseFiles localFiles upstreamFiles path) :=
  mergePath_eq _ _ _

theorem conflictAt_eq (path : Text) :
    conflictAt (toEntryMap baseFiles) (toEntryMap localFiles)
        (toEntryMap upstreamFiles) path =
      if Conflicting baseFiles localFiles upstreamFiles path then
        some ⟨path, classifyConflict (entryAt baseFiles path)
          (entryAt localFiles path) (entryAt upstreamFiles path)⟩
      else none := by
  have decision := mergePath_files baseFiles localFiles upstreamFiles path
  by_cases clash : Conflicting baseFiles localFiles upstreamFiles path
  · rw [if_pos clash] at decision
    simp only [conflictAt, decision, if_pos clash]
  · rw [if_neg clash] at decision
    simp only [conflictAt, decision, if_neg clash]

theorem keptAt_eq (path : Text) :
    keptAt (toEntryMap baseFiles) (toEntryMap localFiles)
        (toEntryMap upstreamFiles) path =
      if Conflicting baseFiles localFiles upstreamFiles path then none
      else mergedAt baseFiles localFiles upstreamFiles path := by
  have decision := mergePath_files baseFiles localFiles upstreamFiles path
  by_cases clash : Conflicting baseFiles localFiles upstreamFiles path
  · rw [if_pos clash] at decision
    simp only [keptAt, decision, if_pos clash]
  · rw [if_neg clash] at decision
    simp only [keptAt, decision, if_neg clash]

omit [DecidableEq Sha] in
theorem entryAt_absent {path : Text}
    (absent : path ∉ unionKeys (toEntryMap baseFiles) (toEntryMap localFiles)
      (toEntryMap upstreamFiles)) :
    entryAt baseFiles path = none ∧ entryAt localFiles path = none ∧
      entryAt upstreamFiles path = none := by
  rw [mem_unionKeys, not_or, not_or] at absent
  exact ⟨OrderedMap.get?_eq_none_iff.mpr absent.1,
    OrderedMap.get?_eq_none_iff.mpr absent.2.1,
    OrderedMap.get?_eq_none_iff.mpr absent.2.2⟩

theorem mergedMap_get? (path : Text) :
    (mergeFileLists baseFiles localFiles upstreamFiles).1.get? path =
      if Conflicting baseFiles localFiles upstreamFiles path then none
      else mergedAt baseFiles localFiles upstreamFiles path := by
  simp only [mergeFileLists, mergePaths_get?, OrderedMap.get?_empty,
    Option.or_none]
  split
  · exact keptAt_eq baseFiles localFiles upstreamFiles path
  · rename_i absent
    obtain ⟨baseNone, localNone, upstreamNone⟩ :=
      entryAt_absent baseFiles localFiles upstreamFiles absent
    simp [Conflicting, ChangedDifferently, mergedAt, baseNone, localNone,
      upstreamNone, threeWay]

theorem conflicts_eq :
    (mergeFileLists baseFiles localFiles upstreamFiles).2 =
      (unionKeys (toEntryMap baseFiles) (toEntryMap localFiles)
        (toEntryMap upstreamFiles)).filterMap
          (conflictAt (toEntryMap baseFiles) (toEntryMap localFiles)
            (toEntryMap upstreamFiles)) := by
  simp only [mergeFileLists, mergePaths_conflicts, List.nil_append]

theorem mem_conflicts_iff (conflict : MergeConflict) :
    conflict ∈ (mergeFileLists baseFiles localFiles upstreamFiles).2 ↔
      Conflicting baseFiles localFiles upstreamFiles conflict.path ∧
      conflict.type = classifyConflict (entryAt baseFiles conflict.path)
        (entryAt localFiles conflict.path)
        (entryAt upstreamFiles conflict.path) := by
  rw [conflicts_eq, List.mem_filterMap]
  constructor
  · intro found
    obtain ⟨path, _, recorded⟩ := found
    rw [conflictAt_eq] at recorded
    split at recorded
    · rename_i clash
      cases recorded
      exact ⟨clash, rfl⟩
    · cases recorded
  · intro clash
    obtain ⟨clash, type⟩ := clash
    refine ⟨conflict.path, ?_, ?_⟩
    · by_contra absent
      obtain ⟨baseNone, localNone, _⟩ :=
        entryAt_absent baseFiles localFiles upstreamFiles absent
      exact clash.1 (localNone.trans baseNone.symm)
    · have recorded := conflictAt_eq baseFiles localFiles upstreamFiles
        conflict.path
      rw [if_pos clash, ← type] at recorded
      exact recorded

theorem unionKeys_nodup {Value : Type}
    (baseMap localMap upstreamMap : OrderedMap Text Value) :
    (unionKeys baseMap localMap upstreamMap).Nodup :=
  OrderedMap.nodup _

theorem conflicts_nodup :
    ((mergeFileLists baseFiles localFiles upstreamFiles).2.map
      MergeConflict.path).Nodup := by
  have paths : ∀ keys : List Text,
      ((keys.filterMap (conflictAt (toEntryMap baseFiles)
        (toEntryMap localFiles) (toEntryMap upstreamFiles))).map
          MergeConflict.path).Sublist keys := by
    intro keys
    induction keys with
    | nil => exact .slnil
    | cons path rest ih =>
        rw [List.filterMap_cons, conflictAt_eq]
        split
        · exact ih.cons path
        · rename_i recorded
          split at recorded
          · cases recorded
            exact ih.cons_cons path
          · cases recorded
  rw [conflicts_eq]
  exact (paths _).nodup (unionKeys_nodup _ _ _)

end Files

/-- `upper` is a directory on the way to `lower`. -/
def DirectoryAbove (upper lower : Text) : Prop :=
  ∃ rest, lower = upper ++ '/' :: rest

theorem directoryAbove_iff_parts (upper lower : Text) :
    DirectoryAbove upper lower ↔
      Text.split '/' upper <+: Text.split '/' lower ∧
        Text.split '/' upper ≠ Text.split '/' lower := by
  constructor
  · intro above
    obtain ⟨rest, shape⟩ := above
    rw [shape, Text.split_append_cons]
    refine ⟨List.prefix_append _ _, ?_⟩
    intro same
    have size := congrArg List.length same
    have nonempty : Text.split '/' rest ≠ [] := List.splitOn_ne_nil _ _
    have positive := List.length_pos_of_ne_nil nonempty
    rw [List.length_append] at size
    omega
  · intro below
    obtain ⟨⟨rest, shape⟩, different⟩ := below
    have restNonempty : rest ≠ [] := by
      intro empty
      rw [empty, List.append_nil] at shape
      exact different shape
    have upperNonempty : Text.split '/' upper ≠ [] := List.splitOn_ne_nil _ _
    refine ⟨Text.join '/' rest, ?_⟩
    calc lower = Text.join '/' (Text.split '/' lower) :=
          (Text.join_split '/' lower).symm
      _ = Text.join '/' (Text.split '/' upper ++ rest) := by rw [shape]
      _ = Text.join '/' (Text.split '/' upper) ++ '/' :: Text.join '/' rest :=
          Text.join_append '/' upperNonempty restNonempty
      _ = upper ++ '/' :: Text.join '/' rest := by rw [Text.join_split]

section Sorted

variable (collation : Collation) (merged : EntryMap Sha)

omit [DecidableEq Sha] in
theorem mem_mergedFileList_iff (file : FileEntry Sha) :
    file ∈ mergedFileList collation merged ↔
      merged.get? file.path = some ⟨file.sha, file.mode⟩ := by
  have perm := collation.sortBy_perm Prod.fst merged.entries
  simp only [mergedFileList, List.mem_map, perm.mem_iff,
    OrderedMap.get?_eq_some_iff]
  constructor
  · intro found
    obtain ⟨entry, member, same⟩ := found
    subst same
    exact member
  · intro member
    exact ⟨_, member, rfl⟩

omit [DecidableEq Sha] in
theorem mergedFileList_nodup :
    ((mergedFileList collation merged).map FileEntry.path).Nodup := by
  have perm := collation.sortBy_perm Prod.fst merged.entries
  have paths : (mergedFileList collation merged).map FileEntry.path =
      (collation.sortBy Prod.fst merged.entries).map Prod.fst := by
    simp [mergedFileList, Function.comp_def]
  rw [paths, (perm.map Prod.fst).nodup_iff]
  exact merged.nodup

omit [DecidableEq Sha] in
theorem mergedFileList_sorted :
    (mergedFileList collation merged).Pairwise fun left right =>
      collation.localeCompare left.path right.path ≠ .gt := by
  rw [mergedFileList, List.pairwise_map]
  exact collation.sortBy_sorted Prod.fst merged.entries

end Sorted

section Lists

variable {collation : Collation} {files : List (FileEntry Sha)}

omit [DecidableEq Sha] in
theorem unreplaced_of_sorted
    (sorted : files.Pairwise fun left right =>
      collation.localeCompare left.path right.path ≠ .gt)
    (nodup : (files.map FileEntry.path).Nodup)
    (trimmed : ∀ file ∈ files, Text.trim file.path = file.path) :
    UnreplacedPaths files := by
  have distinct : files.Pairwise fun left right => left.path ≠ right.path :=
    List.pairwise_map.mp nodup
  have both := sorted.and distinct
  apply both.imp_of_mem
  intro earlier later earlierMember laterMember order replaced
  obtain ⟨ascending, different⟩ := order
  simp only [pathParts, trimmed earlier earlierMember,
    trimmed later laterMember] at replaced
  have partsDifferent :
      Text.split '/' later.path ≠ Text.split '/' earlier.path := by
    intro same
    apply different
    rw [← Text.join_split '/' earlier.path, ← same, Text.join_split]
  obtain ⟨rest, below⟩ :=
    (directoryAbove_iff_parts _ _).mpr ⟨replaced, partsDifferent⟩
  apply ascending
  rw [below]
  exact collation.slash_not_after

omit [DecidableEq Sha] in
theorem unblocked_iff_of_unreplaced (unreplaced : UnreplacedPaths files)
    (trimmed : ∀ file ∈ files, Text.trim file.path = file.path) :
    UnblockedPaths files ↔ ∀ upper ∈ files, ∀ lower ∈ files,
      ¬DirectoryAbove upper.path lower.path := by
  constructor
  · intro unblocked upper upperMember lower lowerMember above
    obtain ⟨prefix', different⟩ := (directoryAbove_iff_parts _ _).mp above
    let apart : FileEntry Sha → FileEntry Sha → Prop := fun left right =>
      (pathParts left <+: pathParts right → pathParts left = pathParts right) ∧
      (pathParts right <+: pathParts left → pathParts right = pathParts left)
    have pairs : files.Pairwise apart := by
      apply (unblocked.and unreplaced).imp
      intro left right order
      exact ⟨order.1, fun below => absurd below order.2⟩
    have symmetric : Std.Symm apart :=
      ⟨fun _ _ order => ⟨order.2, order.1⟩⟩
    have notSame : upper ≠ lower := by
      intro same
      exact different (by rw [same])
    have order := pairs.forall upperMember lowerMember notSame
    have equal := order.1
    simp only [pathParts, trimmed upper upperMember,
      trimmed lower lowerMember] at equal
    exact different (equal prefix')
  · intro clear
    have all : files.Pairwise fun _ _ => True :=
      List.pairwise_of_forall fun _ _ => trivial
    apply all.imp_of_mem
    intro earlier later earlierMember laterMember _ below
    by_contra different
    simp only [pathParts, trimmed earlier earlierMember,
      trimmed later laterMember] at below different
    exact clear earlier earlierMember later laterMember
      ((directoryAbove_iff_parts _ _).mpr ⟨below, different⟩)

end Lists

section Result

variable (collation : Collation) (bucket : ObjectStore ids)
  {baseTreeSha localTreeSha upstreamTreeSha : Sha}
  {baseFiles localFiles upstreamFiles : List (FileEntry Sha)}

/-- Every merged path is valid and trimmed, with a mode that a written file
keeps. -/
def CanonicalMerge
    (baseFiles localFiles upstreamFiles : List (FileEntry Sha)) : Prop :=
  ∀ path entry, mergedAt baseFiles localFiles upstreamFiles path = some entry →
    isValidGitPath path = true ∧ Text.trim path = path ∧ KeptMode entry.mode

/-- A file of the merged trees stands where another one needs a directory. -/
def FileOverDirectory
    (baseFiles localFiles upstreamFiles : List (FileEntry Sha))
    (upper lower : Text) : Prop :=
  mergedAt baseFiles localFiles upstreamFiles upper ≠ none ∧
    mergedAt baseFiles localFiles upstreamFiles lower ≠ none ∧
    DirectoryAbove upper lower

theorem mergeTrees3Way_conflicts
    (baseFlat : flattenTree bucket baseTreeSha = .ok baseFiles)
    (localFlat : flattenTree bucket localTreeSha = .ok localFiles)
    (upstreamFlat : flattenTree bucket upstreamTreeSha = .ok upstreamFiles)
    (clash : ∃ path, Conflicting baseFiles localFiles upstreamFiles path) :
    mergeTrees3Way collation bucket baseTreeSha localTreeSha upstreamTreeSha =
      .ok (⟨none, collation.sortBy MergeConflict.path
        (mergeFileLists baseFiles localFiles upstreamFiles).2⟩, bucket) := by
  obtain ⟨path, clash⟩ := clash
  have member := (mem_conflicts_iff baseFiles localFiles upstreamFiles
    ⟨path, classifyConflict (entryAt baseFiles path) (entryAt localFiles path)
      (entryAt upstreamFiles path)⟩).mpr ⟨clash, rfl⟩
  have recorded : (mergeFileLists baseFiles localFiles upstreamFiles).2 ≠ [] :=
    List.ne_nil_of_mem member
  simp only [mergeTrees3Way, baseFlat, localFlat, upstreamFlat, bind,
    Except.bind, recorded, ne_eq, not_false_eq_true, if_true, pure,
    Except.pure]

theorem mergeTrees3Way_rebuilds
    (baseFlat : flattenTree bucket baseTreeSha = .ok baseFiles)
    (localFlat : flattenTree bucket localTreeSha = .ok localFiles)
    (upstreamFlat : flattenTree bucket upstreamTreeSha = .ok upstreamFiles)
    (clean : ¬∃ path, Conflicting baseFiles localFiles upstreamFiles path) :
    mergeTrees3Way collation bucket baseTreeSha localTreeSha upstreamTreeSha =
      (buildTreeFromPaths bucket (mergedFileList collation
        (mergeFileLists baseFiles localFiles upstreamFiles).1)).map
          fun built => (⟨some built.1, []⟩, built.2) := by
  have silent : (mergeFileLists baseFiles localFiles upstreamFiles).2 = [] := by
    apply List.eq_nil_iff_forall_not_mem.mpr
    intro conflict member
    have found := (mem_conflicts_iff baseFiles localFiles upstreamFiles
      conflict).mp member
    exact clean ⟨conflict.path, found.1⟩
  simp only [mergeTrees3Way, baseFlat, localFlat, upstreamFlat, bind,
    Except.bind, silent, ne_eq, not_true_eq_false, if_false, pure, Except.pure]
  cases buildTreeFromPaths bucket (mergedFileList collation
    (mergeFileLists baseFiles localFiles upstreamFiles).1) <;> rfl

private theorem mergeFile_get?
    (clean : ¬∃ path, Conflicting baseFiles localFiles upstreamFiles path)
    (path : Text) :
    (mergeFileLists baseFiles localFiles upstreamFiles).1.get? path =
      mergedAt baseFiles localFiles upstreamFiles path := by
  rw [mergedMap_get?, if_neg fun clash => clean ⟨path, clash⟩]

theorem mergedFileList_survives
    (clean : ¬∃ path, Conflicting baseFiles localFiles upstreamFiles path)
    (canonical : CanonicalMerge baseFiles localFiles upstreamFiles) :
    Survives (mergedFileList collation
      (mergeFileLists baseFiles localFiles upstreamFiles).1) ∧
    ValidPaths (mergedFileList collation
      (mergeFileLists baseFiles localFiles upstreamFiles).1) := by
  have facts : ∀ file ∈ mergedFileList collation
      (mergeFileLists baseFiles localFiles upstreamFiles).1,
      isValidGitPath file.path = true ∧ Text.trim file.path = file.path ∧
        KeptMode file.mode := by
    intro file member
    rw [mem_mergedFileList_iff, mergeFile_get? clean] at member
    exact canonical file.path _ member
  have trimmed := fun file member => (facts file member).2.1
  constructor
  · exact
      { trimmed := trimmed
        modes := fun file member => (facts file member).2.2
        unreplaced := unreplaced_of_sorted
          (mergedFileList_sorted collation _)
          (mergedFileList_nodup collation _) trimmed }
  · intro file member
    rw [trimmed file member]
    exact (facts file member).1

theorem mergedFileList_unblocked_iff
    (clean : ¬∃ path, Conflicting baseFiles localFiles upstreamFiles path)
    (canonical : CanonicalMerge baseFiles localFiles upstreamFiles) :
    UnblockedPaths (mergedFileList collation
        (mergeFileLists baseFiles localFiles upstreamFiles).1) ↔
      ¬∃ upper lower,
        FileOverDirectory baseFiles localFiles upstreamFiles upper lower := by
  have survives := (mergedFileList_survives collation clean canonical).1
  rw [unblocked_iff_of_unreplaced survives.unreplaced survives.trimmed]
  constructor
  · intro clear overlap
    obtain ⟨upper, lower, upperHeld, lowerHeld, above⟩ := overlap
    obtain ⟨upperEntry, upperEq⟩ := Option.ne_none_iff_exists'.mp upperHeld
    obtain ⟨lowerEntry, lowerEq⟩ := Option.ne_none_iff_exists'.mp lowerHeld
    rw [← mergeFile_get? clean] at upperEq lowerEq
    exact clear ⟨upper, upperEntry.sha, upperEntry.mode⟩
      ((mem_mergedFileList_iff collation _ _).mpr upperEq)
      ⟨lower, lowerEntry.sha, lowerEntry.mode⟩
      ((mem_mergedFileList_iff collation _ _).mpr lowerEq) above
  · intro clear upper upperMember lower lowerMember above
    rw [mem_mergedFileList_iff, mergeFile_get? clean] at upperMember lowerMember
    apply clear
    refine ⟨upper.path, lower.path, ?_, ?_, above⟩
    · simp [upperMember]
    · simp [lowerMember]

end Result

namespace FileAgainstDirectory

def blob : Digest := Digest.blob [1]

def withEmpty : Digest × ObjectStore termIds :=
  (ObjectStore.empty termIds).putTree []

def withFile : Digest × ObjectStore termIds :=
  withEmpty.2.putTree [⟨FILE_MODES.REGULAR_FILE, ['x'], blob⟩]

def withSubtree : Digest × ObjectStore termIds :=
  withFile.2.putTree [⟨FILE_MODES.REGULAR_FILE, ['y'], blob⟩]

def withDirectory : Digest × ObjectStore termIds :=
  withSubtree.2.putTree [⟨FILE_MODES.DIRECTORY, ['x'], withSubtree.1⟩]

end FileAgainstDirectory

theorem mergeTrees3Way_fails (collation : Collation) (bucket : ObjectStore ids)
    {baseTreeSha localTreeSha upstreamTreeSha treeSha : Sha}
    {failure : TreeError}
    (member : treeSha ∈ [baseTreeSha, localTreeSha, upstreamTreeSha])
    (failed : flattenTree bucket treeSha = .error failure) :
    ∃ failure, mergeTrees3Way collation bucket baseTreeSha localTreeSha
      upstreamTreeSha = .error failure := by
  simp only [List.mem_cons, List.not_mem_nil, or_false] at member
  simp only [mergeTrees3Way, bind, Except.bind]
  cases baseFlat : flattenTree bucket baseTreeSha with
  | error baseFailure => exact ⟨baseFailure, rfl⟩
  | ok baseFiles =>
      cases localFlat : flattenTree bucket localTreeSha with
      | error localFailure => exact ⟨localFailure, rfl⟩
      | ok localFiles =>
          cases upstreamFlat : flattenTree bucket upstreamTreeSha with
          | error upstreamFailure => exact ⟨upstreamFailure, rfl⟩
          | ok upstreamFiles =>
              rcases member with rfl | rfl | rfl
              · cases baseFlat.symm.trans failed
              · cases localFlat.symm.trans failed
              · cases upstreamFlat.symm.trans failed

theorem mergedFileList_built (collation : Collation) (bucket : ObjectStore ids)
    {baseFiles localFiles upstreamFiles : List (FileEntry Sha)}
    (clean : ¬∃ path, Conflicting baseFiles localFiles upstreamFiles path)
    (canonical : CanonicalMerge baseFiles localFiles upstreamFiles)
    (clear : ¬∃ upper lower,
      FileOverDirectory baseFiles localFiles upstreamFiles upper lower) :
    ∃ treeSha later files,
      buildTreeFromPaths bucket (mergedFileList collation
        (mergeFileLists baseFiles localFiles upstreamFiles).1) =
          .ok (treeSha, later) ∧
      TreeFiles later treeSha files ∧
      (files.map FileEntry.path).Nodup ∧
      ∀ file, file ∈ files ↔
        mergedAt baseFiles localFiles upstreamFiles file.path =
          some ⟨file.sha, file.mode⟩ := by
  obtain ⟨survives, valid⟩ :=
    mergedFileList_survives collation clean canonical
  have unblocked := mergedFileList_unblocked_iff collation clean canonical
  obtain ⟨⟨treeSha, later⟩, built⟩ :=
    (buildTreeFromPaths_ok_iff bucket _).mpr ⟨valid, unblocked.mpr clear⟩
  obtain ⟨files, treeFiles, perm⟩ :=
    buildTreeFromPaths_survives built survives
  refine ⟨treeSha, later, files, built, treeFiles, ?_, ?_⟩
  · rw [(perm.map FileEntry.path).nodup_iff]
    exact mergedFileList_nodup collation _
  · intro file
    rw [perm.mem_iff, mem_mergedFileList_iff, mergeFile_get? clean]

theorem mergedFileList_blocked (collation : Collation)
    (bucket : ObjectStore ids)
    {baseFiles localFiles upstreamFiles : List (FileEntry Sha)}
    (clean : ¬∃ path, Conflicting baseFiles localFiles upstreamFiles path)
    (canonical : CanonicalMerge baseFiles localFiles upstreamFiles)
    (overlap : ∃ upper lower,
      FileOverDirectory baseFiles localFiles upstreamFiles upper lower) :
    ∃ upper lower,
      FileOverDirectory baseFiles localFiles upstreamFiles upper lower ∧
      buildTreeFromPaths bucket (mergedFileList collation
        (mergeFileLists baseFiles localFiles upstreamFiles).1) =
          .error (.pathConflict upper) := by
  obtain ⟨survives, valid⟩ :=
    mergedFileList_survives collation clean canonical
  have unblocked := mergedFileList_unblocked_iff collation clean canonical
  cases built : buildTreeFromPaths bucket (mergedFileList collation
      (mergeFileLists baseFiles localFiles upstreamFiles).1) with
  | ok stored =>
      have both := (buildTreeFromPaths_ok_iff bucket _).mp ⟨stored, built⟩
      exact absurd overlap (unblocked.mp both.2)
  | error failure =>
      obtain ⟨upper, upperMember, lower, lowerMember, failureEq, below,
        different⟩ := buildTreeFromPaths_error valid built
      simp only [pathParts, survives.trimmed upper upperMember,
        survives.trimmed lower lowerMember] at below different failureEq
      rw [mem_mergedFileList_iff, mergeFile_get? clean]
        at upperMember lowerMember
      refine ⟨upper.path, lower.path, ⟨?_, ?_, ?_⟩, congrArg _ failureEq⟩
      · simp [upperMember]
      · simp [lowerMember]
      · exact (directoryAbove_iff_parts _ _).mpr ⟨below, different⟩

end Takos.Git
