import Takos.LocalPlatform.FileObjects
import Takos.Threads.MessagePersistence

/-!
# The vectors of files

The ids of the vectors of a file end in the number of their chunk.  Indexing
overwrites the numbers of the new chunks, and a removal deletes the numbers below
an estimate from the size in the file's row.
-/

namespace Takos.Indexer

open Takos.Foundation Takos.Threads Takos.LocalPlatform

def MAX_CHUNK_SIZE : Nat := 512

/-- `currentSize` counts quarters of a token, so it is four times the source's. -/
structure ChunkState where
  chunks : List Text
  currentChunk : Text
  currentSize : Nat

/-- The chunk so far is closed, and its last three lines begin the next. -/
def ChunkState.close (state : ChunkState) : ChunkState :=
  let lines := Text.split '\n' state.currentChunk
  let overlapLines := lines.drop (lines.length - 3)
  let currentChunk := Text.join '\n' overlapLines ++ ['\n']
  { chunks := state.chunks ++ [Text.trim state.currentChunk]
    currentChunk := currentChunk
    currentSize := currentChunk.size }

def ChunkState.add (state : ChunkState) (line : Text) : ChunkState :=
  let state :=
    if 4 * MAX_CHUNK_SIZE < state.currentSize + line.size ∧
        state.currentChunk ≠ [] then state.close
    else state
  { state with
    currentChunk := state.currentChunk ++ line ++ ['\n']
    currentSize := state.currentSize + line.size }

def splitIntoChunks (content : Text) : List Text :=
  let state := (Text.split '\n' content).foldl ChunkState.add ⟨[], [], 0⟩
  if Text.trim state.currentChunk ≠ [] then
    state.chunks ++ [Text.trim state.currentChunk]
  else state.chunks

section Batches

variable {Item Store : Type}

/-- The slices of a hundred; the first argument is at least the length. -/
def batchesOf : Nat → List Item → List (List Item)
  | 0, _ => []
  | bound + 1, items =>
    if items.isEmpty then []
    else items.take 100 :: batchesOf bound (items.drop 100)

def inBatches (items : List Item) : List (List Item) :=
  batchesOf items.length items

theorem flatten_batchesOf {bound : Nat} {items : List Item}
    (enough : items.length ≤ bound) : (batchesOf bound items).flatten = items := by
  induction bound generalizing items with
  | zero => exact (List.eq_nil_of_length_eq_zero (by omega)).symm
  | succ bound ih =>
      cases items with
      | nil => rfl
      | cons first rest =>
          have shorter : ((first :: rest).drop 100).length ≤ bound := by
            rw [List.length_drop]
            simp only [List.length_cons] at enough ⊢
            omega
          rw [batchesOf, List.isEmpty_cons, if_neg Bool.false_ne_true,
            List.flatten_cons, ih shorter, List.take_append_drop]

theorem flatten_inBatches (items : List Item) :
    (inBatches items).flatten = items :=
  flatten_batchesOf (Nat.le_refl _)

/-- Sends the batches to the vector store, one call each; `true` where every
call is answered. -/
def sendBatches (apply : Store → Item → Store) (answers : Nat → CallAnswer) :
    Nat → List (List Item) → Store → Bool × Store
  | _, [], store => (true, store)
  | number, batch :: rest, store =>
    match answers number with
    | .failed => (false, store)
    | .lost => (false, batch.foldl apply store)
    | .done =>
      sendBatches apply answers (number + 1) rest (batch.foldl apply store)

theorem sendBatches_done {apply : Store → Item → Store}
    {answers : Nat → CallAnswer} {number : Nat} {batches : List (List Item)}
    {store : Store}
    (done : (sendBatches apply answers number batches store).1 = true) :
    (sendBatches apply answers number batches store).2 =
      batches.flatten.foldl apply store := by
  induction batches generalizing number store with
  | nil => rfl
  | cons batch rest ih =>
      rw [sendBatches] at done ⊢
      rw [List.flatten_cons, List.foldl_append]
      cases answer : answers number with
      | failed =>
          rw [answer] at done
          cases done
      | lost =>
          rw [answer] at done
          cases done
      | done =>
          rw [answer] at done
          exact ih done

end Batches

structure SpaceFile where
  id : Text
  path : Text

/-- `content` holds code units. -/
structure FileVector (Values : Type) where
  values : Option Values
  spaceId : Text
  fileId : Text
  filePath : Text
  chunkIndex : Nat
  content : List Nat
  deriving DecidableEq

def vectorId (spaceId fileId : Text) (index : Nat) : Text :=
  spaceId ++ ':' :: fileId ++ ':' :: decimal index

section Calls

variable {Values : Type}

abbrev VectorStore (Values : Type) := Text → Option (FileVector Values)

def VectorStore.write (store : VectorStore Values) (written : Text)
    (vector : Option (FileVector Values)) : VectorStore Values :=
  fun id => if id = written then vector else store id

def VectorStore.upsert (store : VectorStore Values)
    (entry : Text × FileVector Values) : VectorStore Values :=
  store.write entry.1 (some entry.2)

def VectorStore.deleteById (store : VectorStore Values) (id : Text) :
    VectorStore Values :=
  store.write id none

/-- `ai` answers a batch of texts, with no vectors where it leaves `data` out,
or throws. -/
def generateEmbeddings (ai : List Text → Option (List Values))
    (texts : List Text) : Option (List Values) :=
  ((inBatches texts).mapM ai).map List.flatten

def fileVector (spaceId : Text) (file : SpaceFile) (values : Option Values)
    (index : Nat) (chunk : Text) : FileVector Values where
  values := values
  spaceId := spaceId
  fileId := file.id
  filePath := file.path
  chunkIndex := index
  content := chunk.codeUnits.take 1000

/-- `marked` tells that the row of the file could be marked as indexed. -/
def indexFile (ai : List Text → Option (List Values))
    (answers : Nat → CallAnswer) (marked : Bool) (spaceId : Text)
    (file : SpaceFile) (content : Text) (store : VectorStore Values) :
    Option Nat × VectorStore Values :=
  let chunks := splitIntoChunks content
  if chunks.length = 0 then (some 0, store)
  else
    match generateEmbeddings ai chunks with
    | none => (none, store)
    | some embeddings =>
      let vectors := chunks.mapIdx fun index chunk =>
        (vectorId spaceId file.id index,
          fileVector spaceId file embeddings[index]? index chunk)
      let stored := sendBatches VectorStore.upsert answers 0 (inBatches vectors)
        store
      (if stored.1 && marked then some chunks.length else none, stored.2)

/-- From the size in the row of the file. -/
def estimatedChunks : Option Nat → Nat
  | some size => (size + 1023) / 1024 + 2
  | none => 500

def removeFile (answers : Nat → CallAnswer) (size : Option Nat)
    (spaceId fileId : Text) (store : VectorStore Values) :
    Bool × VectorStore Values :=
  let ids := (List.range (estimatedChunks size)).map (vectorId spaceId fileId)
  sendBatches VectorStore.deleteById answers 0 (inBatches ids) store

/-- `sizes` are the sizes in the rows of the files. -/
structure EmbeddingState (Values : Type) where
  vectors : VectorStore Values
  sizes : Text → Option Nat

/-- A call of the service, or a row that others write. -/
inductive EmbeddingCall (Values : Type) where
  | indexFile (ai : List Text → Option (List Values))
      (answers : Nat → CallAnswer) (marked : Bool) (spaceId : Text)
      (file : SpaceFile) (content : Text)
  | removeFile (answers : Nat → CallAnswer) (spaceId fileId : Text)
  | fileRow (fileId : Text) (size : Option Nat)

/-- Tells also whether the call returns. -/
def EmbeddingCall.step (state : EmbeddingState Values) :
    EmbeddingCall Values → Bool × EmbeddingState Values
  | .indexFile ai answers marked spaceId file content =>
    let result := Indexer.indexFile ai answers marked spaceId file content
      state.vectors
    (result.1.isSome, { state with vectors := result.2 })
  | .removeFile answers spaceId fileId =>
    let result := Indexer.removeFile answers (state.sizes fileId) spaceId fileId
      state.vectors
    (result.1, { state with vectors := result.2 })
  | .fileRow fileId size =>
    (true, { state with
      sizes := fun id => if id = fileId then size else state.sizes id })

end Calls

/-- On 32 bits with a sign. -/
def hashString (text : Text) : Text :=
  toBase36 (text.codeUnits.foldl (fun (hash : BitVec 32) unit =>
    (hash <<< 5) - hash + BitVec.ofNat 32 unit) 0).toInt.natAbs

/-- The ids of repositories are plain characters. -/
def repoVectorId (repoId path : Text) (index : Nat) : Text :=
  'r' :: ':' :: repoId.take 16 ++ ':' :: hashString path ++
    ':' :: decimal index

end Takos.Indexer
