import Takos.Foundation.Collation
import Takos.Git.TreeChanges

/-!
# Three-way merge of trees

`mergeTrees3Way` decides every path of the three flattened trees on its own and
rebuilds a tree from the paths it kept.
-/

namespace Takos.Git

open Takos.Foundation

structure TreeFileEntry (Sha : Type) where
  sha : Sha
  mode : Text
  deriving DecidableEq

inductive MergeConflictType where
  | content
  | deleteModify
  | addAdd
  deriving DecidableEq

structure MergeConflict where
  path : Text
  type : MergeConflictType
  deriving DecidableEq

structure MergeResult (Sha : Type) where
  tree_sha : Option Sha
  conflicts : List MergeConflict
  deriving DecidableEq

section Entries

variable {Sha : Type} [DecidableEq Sha]

def entriesEqual : Option (TreeFileEntry Sha) → Option (TreeFileEntry Sha) →
    Bool
  | none, none => true
  | some left, some right => left.sha = right.sha && left.mode = right.mode
  | _, _ => false

omit [DecidableEq Sha] in
def classifyConflict (baseEntry localEntry upstreamEntry :
    Option (TreeFileEntry Sha)) : MergeConflictType :=
  if baseEntry.isNone && localEntry.isSome && upstreamEntry.isSome then .addAdd
  else
    let localDeleted := baseEntry.isSome && localEntry.isNone
    let upstreamDeleted := baseEntry.isSome && upstreamEntry.isNone
    if (localDeleted && upstreamEntry.isSome) ||
        (upstreamDeleted && localEntry.isSome) then .deleteModify
    else .content

/-- What the loop body does with a path. -/
inductive PathMerge (Sha : Type) where
  | keep (entry : Option (TreeFileEntry Sha))
  | conflict (type : MergeConflictType)

def mergePath (baseEntry localEntry upstreamEntry :
    Option (TreeFileEntry Sha)) : PathMerge Sha :=
  let localChanged := !entriesEqual baseEntry localEntry
  let upstreamChanged := !entriesEqual baseEntry upstreamEntry
  if !localChanged && !upstreamChanged then .keep baseEntry
  else if localChanged && !upstreamChanged then .keep localEntry
  else if !localChanged && upstreamChanged then .keep upstreamEntry
  else if entriesEqual localEntry upstreamEntry then .keep localEntry
  else .conflict (classifyConflict baseEntry localEntry upstreamEntry)

abbrev EntryMap (Sha : Type) := OrderedMap Text (TreeFileEntry Sha)

omit [DecidableEq Sha] in
/-- `toMap`. -/
def toEntryMap (files : List (FileEntry Sha)) : EntryMap Sha :=
  OrderedMap.ofList (files.map fun file => (file.path, ⟨file.sha, file.mode⟩))

/-- `new Set([...baseMap.keys(), ...localMap.keys(), ...upstreamMap.keys()])`. -/
def unionKeys {Value : Type} (baseMap localMap upstreamMap :
    OrderedMap Text Value) : List Text :=
  (OrderedMap.ofList ((baseMap.keys ++ localMap.keys ++ upstreamMap.keys).map
    fun path => (path, ()))).keys

omit [DecidableEq Sha] in
def recordMerge (path : Text) (decision : PathMerge Sha)
    (state : EntryMap Sha × List MergeConflict) :
    EntryMap Sha × List MergeConflict :=
  match decision with
  | .keep (some entry) => (state.1.set path entry, state.2)
  | .keep none => state
  | .conflict type => (state.1, state.2 ++ [⟨path, type⟩])

/-- The loop `for (const path of allPaths)`. -/
def mergePaths (baseMap localMap upstreamMap : EntryMap Sha) :
    List Text → EntryMap Sha × List MergeConflict →
      EntryMap Sha × List MergeConflict
  | [], state => state
  | path :: rest, state =>
    mergePaths baseMap localMap upstreamMap rest
      (recordMerge path
        (mergePath (baseMap.get? path) (localMap.get? path)
          (upstreamMap.get? path)) state)

def mergeFileLists (baseFiles localFiles upstreamFiles : List (FileEntry Sha)) :
    EntryMap Sha × List MergeConflict :=
  let baseMap := toEntryMap baseFiles
  let localMap := toEntryMap localFiles
  let upstreamMap := toEntryMap upstreamFiles
  mergePaths baseMap localMap upstreamMap
    (unionKeys baseMap localMap upstreamMap) (.empty, [])

omit [DecidableEq Sha] in
/-- The sorted list that a map of entries is rebuilt from. -/
def mergedFileList (collation : Collation) (merged : EntryMap Sha) :
    List (FileEntry Sha) :=
  (collation.sortBy Prod.fst merged.entries).map fun entry =>
    ⟨entry.1, entry.2.sha, entry.2.mode⟩

variable {ids : ObjectIds Sha}

/-- The three flattenings run concurrently; when several fail, the first of them
is reported here. -/
def mergeTrees3Way (collation : Collation) (bucket : ObjectStore ids)
    (baseTreeSha localTreeSha upstreamTreeSha : Sha) :
    Except TreeError (MergeResult Sha × ObjectStore ids) := do
  let baseFiles ← flattenTree bucket baseTreeSha
  let localFiles ← flattenTree bucket localTreeSha
  let upstreamFiles ← flattenTree bucket upstreamTreeSha
  let merge := mergeFileLists baseFiles localFiles upstreamFiles
  if merge.2 ≠ [] then
    return (⟨none, collation.sortBy MergeConflict.path merge.2⟩, bucket)
  else
    let (treeSha, bucket) ←
      buildTreeFromPaths bucket (mergedFileList collation merge.1)
    return (⟨some treeSha, []⟩, bucket)

end Entries

section Decision

variable {Entry : Type}

/-- Both sides changed the entry, and not to the same. -/
def ChangedDifferently (baseEntry localEntry upstreamEntry : Option Entry) :
    Prop :=
  localEntry ≠ baseEntry ∧ upstreamEntry ≠ baseEntry ∧
    localEntry ≠ upstreamEntry

instance [DecidableEq Entry]
    (baseEntry localEntry upstreamEntry : Option Entry) :
    Decidable (ChangedDifferently baseEntry localEntry upstreamEntry) :=
  inferInstanceAs (Decidable (_ ∧ _ ∧ _))

/-- The side that changed wins; the base is the local entry otherwise. -/
def threeWay [DecidableEq Entry]
    (baseEntry localEntry upstreamEntry : Option Entry) : Option Entry :=
  if localEntry = baseEntry then upstreamEntry else localEntry

variable {Sha : Type} [DecidableEq Sha]

theorem entriesEqual_iff (left right : Option (TreeFileEntry Sha)) :
    entriesEqual left right = true ↔ left = right := by
  cases left with
  | none => cases right <;> simp [entriesEqual]
  | some left =>
      cases right with
      | none => simp [entriesEqual]
      | some right =>
          cases left
          cases right
          simp [entriesEqual]

theorem mergePath_eq (baseEntry localEntry upstreamEntry :
    Option (TreeFileEntry Sha)) :
    mergePath baseEntry localEntry upstreamEntry =
      if ChangedDifferently baseEntry localEntry upstreamEntry then
        .conflict (classifyConflict baseEntry localEntry upstreamEntry)
      else .keep (threeWay baseEntry localEntry upstreamEntry) := by
  have decided : ∀ left right : Option (TreeFileEntry Sha),
      entriesEqual left right = decide (left = right) := by
    intro left right
    rw [Bool.eq_iff_iff, entriesEqual_iff]
    simp
  simp only [mergePath, decided, ChangedDifferently, threeWay]
  by_cases localSame : localEntry = baseEntry
  · subst localSame
    by_cases upstreamSame : upstreamEntry = localEntry
    · simp [upstreamSame]
    · simp [Ne.symm upstreamSame]
  · by_cases upstreamSame : upstreamEntry = baseEntry
    · simp [upstreamSame, localSame, Ne.symm localSame]
    · by_cases agree : localEntry = upstreamEntry
      · simp [agree, upstreamSame, Ne.symm upstreamSame]
      · simp [agree, localSame, upstreamSame, Ne.symm localSame,
          Ne.symm upstreamSame]

end Decision

end Takos.Git
