import Takos.Foundation.Json
import Takos.Foundation.Layers

/-!
# Snapshots reachable from a head

`getReachableSnapshots` walks the parent links of the stored snapshots of a
space in rounds of one query.  A round asks for one batch of ids and drops the
rest of the frontier; the walk ends as soon as the ids asked for reach a cap.
-/

namespace Takos.Sync

open Takos.Foundation

variable {Number : Type}

/-- The columns of `snapshots` that the walk reads. -/
structure SnapshotRow where
  id : Text
  accountId : Text
  parentIds : Option Text

def MAX_DAG_DEPTH : Nat := 10000

def BATCH_SIZE : Nat := 1000

/-- The value of `JSON.parse(raw) as string[]`. -/
def idList : Json Number → List Text
  | .array items => items.filterMap Json.text
  | _ => []

def parseParentIds (codec : JsonCodec Number) : Option Text → List Text
  | none | some [] => []
  | some raw =>
    match codec.parse raw with
    | some parsed => idList parsed
    | none => []

/-- The column that `createSnapshot` writes. -/
def storedParentIds (codec : JsonCodec Number) (parentIds : List Text) : Text :=
  Json.stringify codec.toNumberFormat (.array (parentIds.map Json.string))

theorem idList_strings (ids : List Text) :
    idList (.array (ids.map Json.string) : Json Number) = ids := by
  show (ids.map Json.string).filterMap Json.text = ids
  rw [List.filterMap_map]
  exact List.filterMap_some

theorem parseParentIds_stored (codec : JsonCodec Number)
    (parentIds : List Text) :
    parseParentIds codec (some (storedParentIds codec parentIds)) =
      parentIds := by
  have plain : Json.Plain codec.toNumberFormat
      (.array (parentIds.map Json.string)) := by
    apply Json.wellFormedItems_iff.mpr
    intro item member
    obtain ⟨id, _, rfl⟩ := List.mem_map.mp member
    exact trivial
  have parsed := codec.parse_stringify _ plain
  have written : parseParentIds codec (some (storedParentIds codec parentIds)) =
      idList (.array (parentIds.map Json.string) : Json Number) := by
    unfold storedParentIds
    generalize raw : Json.stringify codec.toNumberFormat
      (.array (parentIds.map Json.string)) = text at parsed
    cases text with
    | nil => rw [Json.stringify] at raw; cases raw
    | cons first rest => simp only [parseParentIds, parsed]
  exact written.trans (idList_strings parentIds)

section Walk

variable (codec : JsonCodec Number) (snapshots : List SnapshotRow)
  (spaceId : Text)

/-- The variables of the `while` loop. -/
structure Traversal where
  iterations : Nat
  reachable : Finset Text
  toFetch : List Text

/-- The loop over the rows of one query. -/
def visitRows : List SnapshotRow → Finset Text → List Text →
    Finset Text × List Text
  | [], reachable, nextToFetch => (reachable, nextToFetch)
  | snapshot :: rest, reachable, nextToFetch =>
    let grown := insert snapshot.id reachable
    visitRows rest grown (nextToFetch ++
      (parseParentIds codec snapshot.parentIds).filter fun parentId =>
        parentId ∉ grown)

def snapshotRows (batchIds : List Text) : List SnapshotRow :=
  snapshots.filter fun row => row.accountId = spaceId ∧ row.id ∈ batchIds

/-- One round; `none` is the end of the loop. -/
def fetchRound (walk : Traversal) : Option Traversal :=
  if walk.toFetch = [] then none
  else if MAX_DAG_DEPTH ≤ walk.iterations then none
  else
    let idsToFetch := walk.toFetch.filter fun id => id ∉ walk.reachable
    if idsToFetch = [] then none
    else
      let batchIds := idsToFetch.take BATCH_SIZE
      let visited := visitRows codec (snapshotRows snapshots spaceId batchIds)
        walk.reachable []
      some
        { iterations := walk.iterations + batchIds.length
          reachable := visited.1
          toFetch := visited.2 }

/-- The ids of a round that does not end the loop. -/
def batchOf (walk : Traversal) : List Text :=
  (walk.toFetch.filter fun id => id ∉ walk.reachable).take BATCH_SIZE

variable {codec snapshots spaceId}

theorem fetchRound_some {walk next : Traversal}
    (round : fetchRound codec snapshots spaceId walk = some next) :
    walk.iterations < MAX_DAG_DEPTH ∧ batchOf walk ≠ [] ∧
      next.iterations = walk.iterations + (batchOf walk).length ∧
      (next.reachable, next.toFetch) =
        visitRows codec (snapshotRows snapshots spaceId (batchOf walk))
          walk.reachable [] := by
  unfold fetchRound at round
  split at round
  · cases round
  split at round
  · cases round
  rename_i below
  dsimp only at round
  split at round
  · cases round
  rename_i some_ids
  have nextEq := Option.some.inj round
  refine ⟨by omega, ?_, by rw [← nextEq]; rfl, by rw [← nextEq]; rfl⟩
  intro empty
  rcases List.take_eq_nil_iff.mp empty with zero | nil
  · exact absurd zero (by decide)
  · exact some_ids nil

theorem fetchRound_none {walk : Traversal}
    (ended : fetchRound codec snapshots spaceId walk = none) :
    MAX_DAG_DEPTH ≤ walk.iterations ∨
      walk.toFetch.filter (fun id => id ∉ walk.reachable) = [] := by
  unfold fetchRound at ended
  split at ended
  · rename_i empty
    exact .inr (by rw [empty]; rfl)
  split at ended
  · rename_i reached
    exact .inl reached
  dsimp only at ended
  split at ended
  · rename_i empty
    exact .inr empty
  · cases ended

variable (codec snapshots spaceId)

/-- The `while` loop. -/
def traverse (walk : Traversal) : Finset Text :=
  match _round : fetchRound codec snapshots spaceId walk with
  | none => walk.reachable
  | some next => traverse next
termination_by MAX_DAG_DEPTH - walk.iterations
decreasing_by
  obtain ⟨below, asked, iterations, _⟩ := fetchRound_some _round
  have positive := List.length_pos_iff.mpr asked
  omega

def getReachableSnapshots (headSnapshotId : Text) : Finset Text :=
  traverse codec snapshots spaceId ⟨0, ∅, [headSnapshotId]⟩

/-- The union over the heads of a space, as `runGC` forms it. -/
def reachableFromHeads (headIds : List Text) : Finset Text :=
  headIds.foldl (fun reachable headId =>
    reachable ∪ getReachableSnapshots codec snapshots spaceId headId) ∅

/-- The parent graph of a space. -/
def parentLinks : Adjacency Text :=
  (snapshots.filter fun row => row.accountId = spaceId).map fun row =>
    (row.id, parseParentIds codec row.parentIds)

end Walk

end Takos.Sync
