import Takos.Git.MergeTrees

/-!
# Conflict resolution of pull requests

`buildMergedFileMap` merges the three file lists a second time, leaving out the
conflicting paths.  It takes a missing base entry as a change on both sides,
which `mergeTrees3Way` does not.
-/

namespace Takos.PullRequests

open Takos.Foundation Takos.Git

variable {Sha : Type} [DecidableEq Sha]

/-- `!baseEntry || !sideEntry || baseEntry.sha !== sideEntry.sha || …`. -/
def sideChanged : Option (FileEntry Sha) → Option (FileEntry Sha) → Bool
  | some baseEntry, some sideEntry =>
    baseEntry.sha ≠ sideEntry.sha || baseEntry.mode ≠ sideEntry.mode
  | _, _ => true

omit [DecidableEq Sha] in
/-- `{ sha: entry.sha, mode: entry.mode }`. -/
def shaAndMode (entry : FileEntry Sha) : TreeFileEntry Sha :=
  ⟨entry.sha, entry.mode⟩

/-- The entry that the loop body writes for a path, if any. -/
def mergedFileEntry (baseEntry localEntry incomingEntry :
    Option (FileEntry Sha)) : Option (TreeFileEntry Sha) :=
  let localChanged := sideChanged baseEntry localEntry
  let incomingChanged := sideChanged baseEntry incomingEntry
  if !localChanged && !incomingChanged then baseEntry.map shaAndMode
  else if localChanged && !incomingChanged then localEntry.map shaAndMode
  else if !localChanged && incomingChanged then incomingEntry.map shaAndMode
  else
    match localEntry, incomingEntry with
    | some localEntry, some incomingEntry =>
      if localEntry.sha = incomingEntry.sha then some (shaAndMode localEntry)
      else none
    | _, _ => none

/-- The loop `for (const path of allPaths)`. -/
def mergeFilePaths (baseMap localMap incomingMap : FileMap Sha)
    (conflictPaths : List Text) : List Text → EntryMap Sha → EntryMap Sha
  | [], mergedFilesMap => mergedFilesMap
  | path :: rest, mergedFilesMap =>
    if path ∈ conflictPaths then
      mergeFilePaths baseMap localMap incomingMap conflictPaths rest
        mergedFilesMap
    else
      match mergedFileEntry (baseMap.get? path) (localMap.get? path)
          (incomingMap.get? path) with
      | none =>
        mergeFilePaths baseMap localMap incomingMap conflictPaths rest
          mergedFilesMap
      | some entry =>
        mergeFilePaths baseMap localMap incomingMap conflictPaths rest
          (mergedFilesMap.set path entry)

def buildMergedFileMap (baseFiles localFiles incomingFiles :
    List (FileEntry Sha)) (conflictPaths : List Text) : EntryMap Sha :=
  let baseMap := toFileMap baseFiles
  let localMap := toFileMap localFiles
  let incomingMap := toFileMap incomingFiles
  mergeFilePaths baseMap localMap incomingMap conflictPaths
    (unionKeys baseMap localMap incomingMap) .empty

theorem mergeFilePaths_get? (baseMap localMap incomingMap : FileMap Sha)
    (conflictPaths paths : List Text) (mergedFilesMap : EntryMap Sha)
    (path : Text) :
    (mergeFilePaths baseMap localMap incomingMap conflictPaths paths
        mergedFilesMap).get? path =
      if path ∈ paths ∧ path ∉ conflictPaths then
        (mergedFileEntry (baseMap.get? path) (localMap.get? path)
          (incomingMap.get? path)).or (mergedFilesMap.get? path)
      else mergedFilesMap.get? path := by
  induction paths generalizing mergedFilesMap with
  | nil => simp [mergeFilePaths]
  | cons first rest ih =>
      by_cases same : path = first
      · subst same
        by_cases clash : path ∈ conflictPaths
        · simp [mergeFilePaths, clash, ih]
        · cases decision : mergedFileEntry (baseMap.get? path)
              (localMap.get? path) (incomingMap.get? path) with
          | none => simp [mergeFilePaths, clash, decision, ih]
          | some entry => simp [mergeFilePaths, clash, decision, ih]
      · have later : (path ∈ first :: rest) ↔ path ∈ rest := by simp [same]
        by_cases clash : first ∈ conflictPaths
        · simp only [mergeFilePaths, clash, if_true, ih, later]
        · cases decision : mergedFileEntry (baseMap.get? first)
              (localMap.get? first) (incomingMap.get? first) with
          | none =>
              simp only [mergeFilePaths, clash, if_false, decision, ih, later]
          | some entry =>
              simp only [mergeFilePaths, clash, if_false, decision, ih, later,
                OrderedMap.get?_set_of_ne _ same]

omit [DecidableEq Sha] in
theorem entryAt_eq_map (files : List (FileEntry Sha)) (path : Text) :
    entryAt files path = ((toFileMap files).get? path).map shaAndMode := by
  have mapped := OrderedMap.get?_ofList_map shaAndMode
    (files.map fun file => (file.path, file)) path
  rw [List.map_map] at mapped
  exact mapped

/-- Only one of the two sides has a file that the base lacks. -/
def AddedByOneSide (baseFiles localFiles incomingFiles : List (FileEntry Sha))
    (path : Text) : Prop :=
  entryAt baseFiles path = none ∧
    (entryAt localFiles path).isSome ≠ (entryAt incomingFiles path).isSome

theorem sideChanged_some (baseEntry : FileEntry Sha)
    (sideEntry : Option (FileEntry Sha)) :
    sideChanged (some baseEntry) sideEntry =
      decide (sideEntry.map shaAndMode ≠ some (shaAndMode baseEntry)) := by
  cases sideEntry with
  | none => rfl
  | some sideEntry =>
      rw [Bool.eq_iff_iff]
      simp only [sideChanged, shaAndMode, Bool.or_eq_true, decide_eq_true_eq,
        Option.map_some, ne_eq, Option.some.injEq, TreeFileEntry.mk.injEq,
        not_and_or]
      rw [eq_comm, @eq_comm _ baseEntry.mode]

omit [DecidableEq Sha] in
theorem sha_eq_of_map_eq {left right : FileEntry Sha}
    (same : (some left).map shaAndMode = (some right).map shaAndMode) :
    left.sha = right.sha := by
  simp only [Option.map_some, Option.some.injEq] at same
  exact congrArg TreeFileEntry.sha same

theorem mergedFileEntry_of_base (baseEntry : FileEntry Sha)
    {localEntry incomingEntry : Option (FileEntry Sha)}
    (clean : ¬ChangedDifferently (some (shaAndMode baseEntry))
      (localEntry.map shaAndMode) (incomingEntry.map shaAndMode)) :
    mergedFileEntry (some baseEntry) localEntry incomingEntry =
      threeWay (some (shaAndMode baseEntry)) (localEntry.map shaAndMode)
        (incomingEntry.map shaAndMode) := by
  simp only [mergedFileEntry, sideChanged_some, threeWay]
  by_cases localSame :
      localEntry.map shaAndMode = some (shaAndMode baseEntry)
  · by_cases incomingSame :
        incomingEntry.map shaAndMode = some (shaAndMode baseEntry)
    · simp [localSame, incomingSame]
    · simp [localSame, incomingSame]
  · by_cases incomingSame :
        incomingEntry.map shaAndMode = some (shaAndMode baseEntry)
    · simp [localSame, incomingSame]
    · have agree : localEntry.map shaAndMode =
          incomingEntry.map shaAndMode := by
        by_contra different
        exact clean ⟨localSame, incomingSame, different⟩
      simp only [localSame, incomingSame, ne_eq, not_false_eq_true,
        decide_true, Bool.not_true, Bool.false_and, Bool.and_false,
        Bool.false_eq_true, if_false]
      cases localEntry with
      | none => rfl
      | some localEntry =>
          cases incomingEntry with
          | none => cases agree
          | some incomingEntry => simp [sha_eq_of_map_eq agree]

theorem mergedFileEntry_of_no_base
    {localEntry incomingEntry : Option (FileEntry Sha)}
    (clean : ¬ChangedDifferently (none : Option (TreeFileEntry Sha))
      (localEntry.map shaAndMode) (incomingEntry.map shaAndMode)) :
    mergedFileEntry none localEntry incomingEntry =
        threeWay none (localEntry.map shaAndMode)
          (incomingEntry.map shaAndMode) ↔
      localEntry.isSome = incomingEntry.isSome := by
  cases localEntry with
  | none =>
      cases incomingEntry with
      | none => simp [mergedFileEntry, sideChanged, threeWay]
      | some incomingEntry => simp [mergedFileEntry, sideChanged, threeWay]
  | some localEntry =>
      cases incomingEntry with
      | none => simp [mergedFileEntry, sideChanged, threeWay]
      | some incomingEntry =>
          have agree : (some localEntry).map shaAndMode =
              (some incomingEntry).map shaAndMode := by
            by_contra different
            exact clean ⟨by simp, by simp, different⟩
          have sha := sha_eq_of_map_eq agree
          simp [mergedFileEntry, sideChanged, threeWay, sha]

/-- On a path without a conflict the second merge agrees with the pointwise
three-way merge exactly when the path was not added by one side alone. -/
theorem buildMergedFileMap_get?_iff
    (baseFiles localFiles incomingFiles : List (FileEntry Sha))
    {conflictPaths : List Text} {path : Text}
    (unresolved : path ∉ conflictPaths)
    (clean : ¬Conflicting baseFiles localFiles incomingFiles path) :
    (buildMergedFileMap baseFiles localFiles incomingFiles
        conflictPaths).get? path =
        mergedAt baseFiles localFiles incomingFiles path ↔
      ¬AddedByOneSide baseFiles localFiles incomingFiles path := by
  have reading : (buildMergedFileMap baseFiles localFiles incomingFiles
      conflictPaths).get? path =
      mergedFileEntry ((toFileMap baseFiles).get? path)
        ((toFileMap localFiles).get? path)
        ((toFileMap incomingFiles).get? path) := by
    simp only [buildMergedFileMap, mergeFilePaths_get?, unresolved,
      not_false_eq_true, and_true, OrderedMap.get?_empty, Option.or_none]
    split
    · rfl
    · rename_i absent
      rw [mem_unionKeys, not_or, not_or] at absent
      rw [OrderedMap.get?_eq_none_iff.mpr absent.1,
        OrderedMap.get?_eq_none_iff.mpr absent.2.1,
        OrderedMap.get?_eq_none_iff.mpr absent.2.2]
      rfl
  rw [reading]
  simp only [Conflicting, AddedByOneSide, mergedAt, entryAt_eq_map] at clean ⊢
  generalize (toFileMap baseFiles).get? path = baseEntry at clean ⊢
  cases baseEntry with
  | some baseEntry =>
      have agree := mergedFileEntry_of_base baseEntry clean
      simp only [Option.map_some, agree, reduceCtorEq, false_and,
        not_false_eq_true]
  | none =>
      have agree := mergedFileEntry_of_no_base clean
      simpa using agree

theorem buildMergedFileMap_conflict
    (baseFiles localFiles incomingFiles : List (FileEntry Sha))
    {conflictPaths : List Text} {path : Text}
    (unresolved : path ∈ conflictPaths) :
    (buildMergedFileMap baseFiles localFiles incomingFiles
      conflictPaths).get? path = none := by
  simp [buildMergedFileMap, mergeFilePaths_get?, unresolved]

omit [DecidableEq Sha] in
theorem entryAt_of_mem_iff {files : List (FileEntry Sha)}
    (nodup : (files.map FileEntry.path).Nodup)
    {entries : Text → Option (TreeFileEntry Sha)}
    (holds : ∀ file, file ∈ files ↔
      entries file.path = some ⟨file.sha, file.mode⟩) (path : Text) :
    entryAt files path = entries path := by
  have pairs : ((files.map fun file =>
      (file.path, shaAndMode file)).map Prod.fst).Nodup := by
    simpa [Function.comp_def] using nodup
  have stored : (toEntryMap files).entries =
      files.map fun file => (file.path, shaAndMode file) :=
    OrderedMap.entries_ofList_of_nodup pairs
  have agree : ∀ entry, entryAt files path = some entry ↔
      entries path = some entry := by
    intro entry
    rw [entryAt, OrderedMap.get?_eq_some_iff, stored, List.mem_map]
    constructor
    · intro found
      obtain ⟨file, member, same⟩ := found
      cases same
      exact (holds file).mp member
    · intro held
      refine ⟨⟨path, entry.sha, entry.mode⟩, (holds _).mpr held, rfl⟩
  exact Option.ext agree

variable {ids : ObjectIds Sha}

variable {collation : Collation} {bucket later : ObjectStore ids}

variable {incomingFiles localFiles baseFiles : List (FileEntry Sha)}
  {incomingTreeSha : Sha}

theorem entryAt_merged {baseTreeSha localTreeSha treeSha : Sha}
    {files : List (FileEntry Sha)} {conflicts : List MergeConflict}
    (baseFlat : flattenTree bucket baseTreeSha = .ok baseFiles)
    (localFlat : flattenTree bucket localTreeSha = .ok localFiles)
    (incomingFlat : flattenTree bucket incomingTreeSha = .ok incomingFiles)
    (merged : mergeTrees3Way collation bucket baseTreeSha localTreeSha
      incomingTreeSha = .ok (⟨some treeSha, conflicts⟩, later))
    (canonical : CanonicalMerge baseFiles localFiles incomingFiles)
    (treeFiles : TreeFiles later treeSha files) (path : Text) :
    entryAt files path = mergedAt baseFiles localFiles incomingFiles path := by
  by_cases clash : ∃ path, Conflicting baseFiles localFiles incomingFiles path
  · rw [mergeTrees3Way_conflicts collation bucket baseFlat localFlat
      incomingFlat clash] at merged
    cases merged
  · rw [mergeTrees3Way_rebuilds collation bucket baseFlat localFlat
      incomingFlat clash] at merged
    have survives := (mergedFileList_survives collation clash canonical).1
    cases built : buildTreeFromPaths bucket (mergedFileList collation
        (mergeFileLists baseFiles localFiles incomingFiles).1) with
    | error failure =>
        rw [built] at merged
        cases merged
    | ok stored =>
        rw [built] at merged
        cases merged
        obtain ⟨expected, expectedFiles, perm⟩ :=
          buildTreeFromPaths_survives built survives
        have same := treeFiles.functional expectedFiles
        subst same
        apply entryAt_of_mem_iff
        · rw [(perm.map FileEntry.path).nodup_iff]
          exact mergedFileList_nodup collation _
        · intro file
          rw [perm.mem_iff, mem_mergedFileList_iff, mergedMap_get?,
            if_neg fun conflict => clash ⟨file.path, conflict⟩]

/-- The part of `resolveConflictsAndMerge` that merges the three trees, up to
the map that the resolutions of the caller are applied to. -/
def mergeForResolution (collation : Collation) (bucket : ObjectStore ids)
    (baseTreeSha localTreeSha incomingTreeSha : Sha) :
    Except TreeError (MergeResult Sha × EntryMap Sha × ObjectStore ids) := do
  let (mergeResult, bucket) ← mergeTrees3Way collation bucket baseTreeSha
    localTreeSha incomingTreeSha
  let baseFiles ← flattenTree bucket baseTreeSha
  let localFiles ← flattenTree bucket localTreeSha
  let incomingFiles ← flattenTree bucket incomingTreeSha
  let conflictPaths := mergeResult.conflicts.map MergeConflict.path
  return (mergeResult,
    buildMergedFileMap baseFiles localFiles incomingFiles conflictPaths, bucket)

/-- The lists that the three trees flatten to, before the merge wrote its tree
and after. -/
structure FlattenedTrees (before after : ObjectStore ids)
    (baseTreeSha localTreeSha incomingTreeSha : Sha)
    (baseFiles localFiles incomingFiles : List (FileEntry Sha)) : Prop where
  base : flattenTree before baseTreeSha = .ok baseFiles
  side : flattenTree before localTreeSha = .ok localFiles
  incoming : flattenTree before incomingTreeSha = .ok incomingFiles
  baseAfter : flattenTree after baseTreeSha = .ok baseFiles
  sideAfter : flattenTree after localTreeSha = .ok localFiles
  incomingAfter : flattenTree after incomingTreeSha = .ok incomingFiles

theorem mergeForResolution_map {baseTreeSha localTreeSha : Sha}
    {result : MergeResult Sha} {fileMap : EntryMap Sha}
    (flattened : FlattenedTrees bucket later baseTreeSha localTreeSha
      incomingTreeSha baseFiles localFiles incomingFiles)
    (merged : mergeForResolution collation bucket baseTreeSha localTreeSha
      incomingTreeSha = .ok (result, fileMap, later)) :
    mergeTrees3Way collation bucket baseTreeSha localTreeSha
        incomingTreeSha = .ok (result, later) ∧
      fileMap = buildMergedFileMap baseFiles localFiles incomingFiles
        (result.conflicts.map MergeConflict.path) := by
  simp only [mergeForResolution, bind, Except.bind] at merged
  cases merge : mergeTrees3Way collation bucket baseTreeSha localTreeSha
      incomingTreeSha with
  | error failure =>
      rw [merge] at merged
      cases merged
  | ok outcome =>
      obtain ⟨mergeResult, after⟩ := outcome
      rw [merge] at merged
      simp only at merged
      cases baseFlat : flattenTree after baseTreeSha with
      | error failure => simp [baseFlat] at merged
      | ok baseList =>
          cases sideFlat : flattenTree after localTreeSha with
          | error failure => simp [baseFlat, sideFlat] at merged
          | ok localList =>
              cases incomingFlat : flattenTree after incomingTreeSha with
              | error failure =>
                  simp [baseFlat, sideFlat, incomingFlat] at merged
              | ok incomingList =>
                  simp only [baseFlat, sideFlat, incomingFlat, pure,
                    Except.pure, Except.ok.injEq, Prod.mk.injEq] at merged
                  obtain ⟨sameResult, sameMap, sameStore⟩ := merged
                  subst sameResult sameStore
                  rw [flattened.baseAfter] at baseFlat
                  rw [flattened.sideAfter] at sideFlat
                  rw [flattened.incomingAfter] at incomingFlat
                  cases baseFlat
                  cases sideFlat
                  cases incomingFlat
                  exact ⟨rfl, sameMap.symm⟩

theorem conflictPaths_iff {baseTreeSha localTreeSha : Sha}
    {result : MergeResult Sha}
    (flattened : FlattenedTrees bucket later baseTreeSha localTreeSha
      incomingTreeSha baseFiles localFiles incomingFiles)
    (merged : mergeTrees3Way collation bucket baseTreeSha localTreeSha
      incomingTreeSha = .ok (result, later)) (path : Text) :
    path ∈ result.conflicts.map MergeConflict.path ↔
      Conflicting baseFiles localFiles incomingFiles path := by
  by_cases clash : ∃ path, Conflicting baseFiles localFiles incomingFiles path
  · rw [mergeTrees3Way_conflicts collation bucket flattened.base flattened.side
      flattened.incoming clash] at merged
    cases merged
    have perm := collation.sortBy_perm MergeConflict.path
      (mergeFileLists baseFiles localFiles incomingFiles).2
    rw [(perm.map MergeConflict.path).mem_iff, List.mem_map]
    constructor
    · intro found
      obtain ⟨conflict, member, same⟩ := found
      exact same ▸ ((mem_conflicts_iff _ _ _ conflict).mp member).1
    · intro conflicting
      exact ⟨⟨path, _⟩, (mem_conflicts_iff _ _ _ ⟨path, classifyConflict
        (entryAt baseFiles path) (entryAt localFiles path)
        (entryAt incomingFiles path)⟩).mpr ⟨conflicting, rfl⟩, rfl⟩
  · rw [mergeTrees3Way_rebuilds collation bucket flattened.base flattened.side
      flattened.incoming clash] at merged
    have silent : result.conflicts = [] := by
      cases built : buildTreeFromPaths bucket (mergedFileList collation
          (mergeFileLists baseFiles localFiles incomingFiles).1) with
      | error failure =>
          rw [built] at merged
          cases merged
      | ok stored =>
          rw [built] at merged
          cases merged
          rfl
    rw [silent]
    constructor
    · intro member
      cases member
    · intro conflicting
      exact absurd ⟨path, conflicting⟩ clash

end Takos.PullRequests
