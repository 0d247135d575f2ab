import Takos.Indexer.FileVectors

/-!
# Whether the vectors follow the files

A call leaves every number at or beyond its own count as it was.  So the vectors
follow the content exactly where the store holds none of the file up there.
-/

namespace Takos.Indexer

open Takos.Foundation Takos.Threads Takos.LocalPlatform

theorem colon_not_mem_decimal (number : Int) : ':' ∉ decimal number := by
  intro member
  rcases mem_decimal member with minus | digit
  · revert minus
    decide
  · revert digit
    decide

theorem cut_numbered {left right : Text} {first second : Nat}
    (same : left ++ ':' :: decimal first = right ++ ':' :: decimal second) :
    left = right ∧ first = second := by
  have cuts := congrArg (Text.cutLast ':') same
  rw [Text.cutLast_append left (colon_not_mem_decimal first),
    Text.cutLast_append right (colon_not_mem_decimal second)] at cuts
  obtain ⟨fronts, numbers⟩ := Prod.mk.inj (Option.some.inj cuts)
  exact ⟨fronts, Int.ofNat.inj (decimal_injective numbers)⟩

theorem vectorId_injective (spaceId fileId : Text) :
    Function.Injective (vectorId spaceId fileId) :=
  fun _ _ same => (cut_numbered same).2

theorem repoVectorId_shared_iff (repoId : Text) {left right : Text} :
    (∃ first second, repoVectorId repoId left first =
      repoVectorId repoId right second) ↔ hashString left = hashString right := by
  constructor
  · rintro ⟨first, second, same⟩
    obtain ⟨fronts, _⟩ := cut_numbered same
    exact (List.cons.inj (List.append_cancel_left fronts)).2
  · intro same
    exact ⟨0, 0, by rw [repoVectorId, repoVectorId, same]⟩

section Store

variable {Values : Type}

theorem write_all {name : Nat → Text} (injective : Function.Injective name)
    (value : Nat → Option (FileVector Values)) (written : List Nat)
    (store : VectorStore Values) (index : Nat) :
    written.foldl (fun store index => store.write (name index) (value index))
        store (name index) =
      if index ∈ written then value index else store (name index) := by
  induction written generalizing store with
  | nil => rfl
  | cons first rest ih =>
      rw [List.foldl_cons, ih]
      by_cases later : index ∈ rest
      · rw [if_pos later, if_pos (List.mem_cons_of_mem _ later)]
      · rw [if_neg later]
        by_cases same : index = first
        · subst same
          rw [if_pos List.mem_cons_self]
          exact if_pos rfl
        · have apart : index ∉ first :: rest := by
            simp [same, later]
          rw [if_neg apart]
          exact if_neg fun names => same (injective names)

/-- The vector that belongs at a number, for the embeddings of the chunks. -/
def vectorOf (spaceId : Text) (file : SpaceFile) (embeddings : List Values)
    (chunks : List Text) (index : Nat) : Option (FileVector Values) :=
  chunks[index]?.map (fileVector spaceId file embeddings[index]? index)

theorem upsert_chunks (spaceId : Text) (file : SpaceFile) (chunks : List Text)
    (embeddings : List Values) (store : VectorStore Values) :
    (chunks.mapIdx fun index chunk => (vectorId spaceId file.id index,
        fileVector spaceId file embeddings[index]? index chunk)).foldl
      VectorStore.upsert store =
      (List.range chunks.length).foldl (fun store index =>
        store.write (vectorId spaceId file.id index)
          (vectorOf spaceId file embeddings chunks index)) store := by
  induction chunks using List.reverseRecOn generalizing store with
  | nil => rfl
  | append_singleton chunks chunk ih =>
      have earlier : ∀ (store : VectorStore Values),
          ∀ index ∈ List.range chunks.length,
            store.write (vectorId spaceId file.id index)
                (vectorOf spaceId file embeddings (chunks ++ [chunk]) index) =
              store.write (vectorId spaceId file.id index)
                (vectorOf spaceId file embeddings chunks index) := by
        intro store index member
        rw [vectorOf, vectorOf,
          List.getElem?_append_left (List.mem_range.mp member)]
      rw [List.mapIdx_concat, List.foldl_append, ih, List.length_append,
        List.length_singleton, List.range_succ, List.foldl_append,
        List.foldl_ext _ _ store earlier]
      simp only [List.foldl_cons, List.foldl_nil, vectorOf,
        List.getElem?_concat_length, Option.map_some]
      rfl

/-- The numbers at which the store holds a vector of the file. -/
def Holds (store : VectorStore Values) (spaceId fileId : Text) (index : Nat) :
    Prop :=
  store (vectorId spaceId fileId index) ≠ none

/-- What the store should be like behind a call that returns.  `embed` is the
vector that the model gives for a text. -/
def EmbeddingCall.Promise (embed : Text → Values)
    (after : EmbeddingState Values) : EmbeddingCall Values → Prop
  | .indexFile _ _ _ spaceId file content => ∀ index,
    after.vectors (vectorId spaceId file.id index) =
      vectorOf spaceId file ((splitIntoChunks content).map embed)
        (splitIntoChunks content) index
  | .removeFile _ spaceId fileId => ∀ index,
    ¬ Holds after.vectors spaceId fileId index
  | .fileRow _ _ => True

/-- Nothing of the file is stored beyond the numbers that the call writes. -/
def EmbeddingCall.Reaches (before : EmbeddingState Values) :
    EmbeddingCall Values → Prop
  | .indexFile _ _ _ spaceId file content => ∀ index,
    Holds before.vectors spaceId file.id index →
      index < (splitIntoChunks content).length
  | .removeFile _ spaceId fileId => ∀ index,
    Holds before.vectors spaceId fileId index →
      index < estimatedChunks (before.sizes fileId)
  | .fileRow _ _ => True

/-- The model answers with one vector for each text. -/
def EmbeddingCall.Embeds (embed : Text → Values) : EmbeddingCall Values → Prop
  | .indexFile ai _ _ _ _ _ => ∀ batch answer, ai batch = some answer →
    answer = batch.map embed
  | .removeFile _ _ _ => True
  | .fileRow _ _ => True

variable {embed : Text → Values}

theorem generateEmbeddings_embeds {ai : List Text → Option (List Values)}
    {texts : List Text} {embeddings : List Values}
    (embeds : ∀ batch answer, ai batch = some answer → answer = batch.map embed)
    (generated : generateEmbeddings ai texts = some embeddings) :
    embeddings = texts.map embed := by
  obtain ⟨answers, answered, rfl⟩ := Option.map_eq_some_iff.mp generated
  clear generated
  have whole := flatten_inBatches texts
  generalize inBatches texts = batches at answered whole
  subst whole
  induction batches generalizing answers with
  | nil =>
      cases answered
      rfl
  | cons batch batches ih =>
      rw [List.mapM_cons] at answered
      obtain ⟨answer, first, answered⟩ := Option.bind_eq_some_iff.mp answered
      obtain ⟨rest, later, same⟩ := Option.bind_eq_some_iff.mp answered
      cases same
      rw [List.flatten_cons, List.flatten_cons, List.map_append,
        embeds batch answer first, ih rest later]

theorem indexFile_returned {ai : List Text → Option (List Values)}
    {answers : Nat → CallAnswer} {marked : Bool} {spaceId : Text}
    {file : SpaceFile} {content : Text} {store : VectorStore Values}
    (embeds : ∀ batch answer, ai batch = some answer → answer = batch.map embed)
    (returned : (indexFile ai answers marked spaceId file content
      store).1.isSome = true) (index : Nat) :
    (indexFile ai answers marked spaceId file content store).2
        (vectorId spaceId file.id index) =
      if index < (splitIntoChunks content).length then
        vectorOf spaceId file ((splitIntoChunks content).map embed)
          (splitIntoChunks content) index
      else store (vectorId spaceId file.id index) := by
  rw [indexFile] at returned ⊢
  generalize splitIntoChunks content = chunks at returned ⊢
  dsimp only at returned ⊢
  by_cases none : chunks.length = 0
  · rw [if_pos none, if_neg (by omega)]
  · rw [if_neg none] at returned ⊢
    cases generated : generateEmbeddings ai chunks with
    | none =>
        rw [generated] at returned
        cases returned
    | some embeddings =>
        simp only [generated] at returned ⊢
        have done : (sendBatches VectorStore.upsert answers 0
            (inBatches (chunks.mapIdx fun index chunk =>
              (vectorId spaceId file.id index,
                fileVector spaceId file embeddings[index]? index chunk)))
            store).1 = true := by
          by_contra failed
          rw [Bool.not_eq_true] at failed
          rw [failed] at returned
          cases returned
        rw [sendBatches_done done, flatten_inBatches, upsert_chunks,
          write_all (vectorId_injective _ _),
          generateEmbeddings_embeds embeds generated]
        simp only [List.mem_range]

theorem removeFile_returned {answers : Nat → CallAnswer} {size : Option Nat}
    {spaceId fileId : Text} {store : VectorStore Values}
    (returned : (removeFile answers size spaceId fileId store).1 = true)
    (index : Nat) :
    (removeFile answers size spaceId fileId store).2
        (vectorId spaceId fileId index) =
      if index < estimatedChunks size then none
      else store (vectorId spaceId fileId index) := by
  rw [removeFile] at returned ⊢
  have deleted := write_all (vectorId_injective spaceId fileId)
    (fun _ => none) (List.range (estimatedChunks size)) store index
  rw [sendBatches_done returned, flatten_inBatches, List.foldl_map]
  simp only [List.mem_range] at deleted
  exact deleted

/-- A call that returns keeps its promise exactly where it reaches all that is
stored. -/
theorem EmbeddingCall.promise_iff {state : EmbeddingState Values}
    {call : EmbeddingCall Values} (embeds : call.Embeds embed)
    (returned : (call.step state).1 = true) :
    call.Promise embed (call.step state).2 ↔ call.Reaches state := by
  cases call with
  | indexFile ai answers marked spaceId file content =>
      apply forall_congr'
      intro index
      have written := indexFile_returned embeds returned index
      change (Indexer.indexFile ai answers marked spaceId file content state.vectors).2
        _ = _ ↔ _
      rw [written]
      by_cases inside : index < (splitIntoChunks content).length
      · rw [if_pos inside]
        exact ⟨fun _ _ => inside, fun _ => rfl⟩
      · have past : vectorOf spaceId file ((splitIntoChunks content).map embed)
            (splitIntoChunks content) index = none := by
          rw [vectorOf, List.getElem?_eq_none (Nat.le_of_not_lt inside)]
          rfl
        rw [if_neg inside, past]
        constructor
        · intro absent stored
          exact absurd absent stored
        · intro reaches
          by_contra stored
          exact inside (reaches stored)
  | removeFile answers spaceId fileId =>
      apply forall_congr'
      intro index
      have removed := removeFile_returned returned index
      change ¬ (Indexer.removeFile answers (state.sizes fileId) spaceId
        fileId state.vectors).2 _ ≠ _ ↔ _
      rw [removed]
      by_cases inside : index < estimatedChunks (state.sizes fileId)
      · rw [if_pos inside]
        exact ⟨fun _ _ => inside, fun _ absent => absent rfl⟩
      · rw [if_neg inside]
        constructor
        · intro absent stored
          exact absurd stored absent
        · intro reaches stored
          exact inside (reaches stored)
  | fileRow fileId size => exact Iff.rfl

/-- Every call of a run that returns keeps its promise. -/
def Promised (embed : Text → Values) :
    List (EmbeddingCall Values) → EmbeddingState Values → Prop
  | [], _ => True
  | call :: rest, state =>
    ((call.step state).1 = true → call.Promise embed (call.step state).2) ∧
      Promised embed rest (call.step state).2

/-- Every call of a run that returns reaches all that was stored of its file. -/
def Reached : List (EmbeddingCall Values) → EmbeddingState Values → Prop
  | [], _ => True
  | call :: rest, state =>
    ((call.step state).1 = true → call.Reaches state) ∧
      Reached rest (call.step state).2

theorem promised_iff_reached {calls : List (EmbeddingCall Values)}
    (embeds : ∀ call ∈ calls, call.Embeds embed)
    (state : EmbeddingState Values) :
    Promised embed calls state ↔ Reached calls state := by
  induction calls generalizing state with
  | nil => exact Iff.rfl
  | cons call rest ih =>
      apply and_congr
      · apply imp_congr_right
        intro returned
        exact EmbeddingCall.promise_iff (embeds call List.mem_cons_self) returned
      · exact ih (fun later member => embeds later (.tail call member)) _

/-- No two of the paths of the repository share the id of a vector. -/
def ApartIds (repoId : Text) (paths : List Text) : Prop :=
  ∀ left ∈ paths, ∀ right ∈ paths, left ≠ right →
    ∀ first second, repoVectorId repoId left first ≠
      repoVectorId repoId right second

def ApartHashes (paths : List Text) : Prop :=
  ∀ left ∈ paths, ∀ right ∈ paths, left ≠ right →
    hashString left ≠ hashString right

theorem apartIds_iff {repoId : Text} {paths : List Text} :
    ApartIds repoId paths ↔ ApartHashes paths := by
  apply forall₂_congr
  intro left _
  apply forall₂_congr
  intro right _
  apply imp_congr_right
  intro _
  rw [Ne, ← repoVectorId_shared_iff repoId]
  simp only [not_exists, ne_eq]

/-- The vectors follow the files of a run, and the paths of a repository have
vectors of their own, exactly where the calls reach what is stored and the hashes
are different. -/
theorem vectors_follow_iff (embed : Text → Values)
    (calls : List (EmbeddingCall Values))
    (embeds : ∀ call ∈ calls, call.Embeds embed)
    (state : EmbeddingState Values) (repoId : Text) (paths : List Text) :
    Promised embed calls state ∧ ApartIds repoId paths ↔
      Reached calls state ∧ ApartHashes paths :=
  and_congr (promised_iff_reached embeds state) apartIds_iff

end Store

section Witnesses

/-- A model whose vectors are the lengths of the texts. -/
def lengthCall (content : Text) : EmbeddingCall Nat :=
  .indexFile (fun batch => some (batch.map List.length)) (fun _ => .done) true
    ['s'] ⟨['f'], ['p']⟩ content

def noVectors : EmbeddingState Nat := ⟨fun _ => none, fun _ => none⟩

theorem lengthCall_embeds (content : Text) :
    (lengthCall content).Embeds List.length := by
  intro batch answer answered
  cases answered
  rfl

theorem vectors_follow_indexed :
    (∀ call ∈ [lengthCall ['a']], call.Embeds List.length) ∧
      (Promised List.length [lengthCall ['a']] noVectors ∧
          ApartIds ['r'] [['p'], ['q']] ↔
        Reached [lengthCall ['a']] noVectors ∧ ApartHashes [['p'], ['q']]) := by
  have embeds : ∀ call ∈ [lengthCall ['a']], call.Embeds List.length := by
    intro call member
    rw [List.mem_singleton.mp member]
    exact lengthCall_embeds ['a']
  exact ⟨embeds, vectors_follow_iff List.length _ embeds noVectors ['r'] _⟩

/-- The vector of an earlier content stays where the new one has no chunk. -/
theorem old_vector_stays :
    ¬ Promised List.length [lengthCall ['a'], lengthCall []] noVectors := by
  rintro ⟨_, later, _⟩
  have absent := later (by decide) 0
  revert absent
  decide

end Witnesses

end Takos.Indexer
