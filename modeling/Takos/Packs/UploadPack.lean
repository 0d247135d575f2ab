import Takos.Git.CollectedObjects
import Takos.Packs.PackObjects
import Takos.Packs.PktLines

/-!
# Answering an upload-pack request

Objects are stored under their hash, whatever repository they belong to, so a
request may only want what its own repository advertises.
-/

namespace Takos.Packs

open Takos.Foundation Takos.Git

/-- `^[0-9a-f]{40}$`. -/
def isObjectId (sha : Text) : Bool :=
  sha.length = 40 && sha.all HexKeys.isHexDigit

/-- The ids of the lines that begin with a keyword. -/
def requestShas (keyword : Text) (lines : List PktLine) : List Text :=
  (lines.filterMap PktLine.payload).filterMap fun payload =>
    let text := Text.trimEnd (Utf8.decodeText payload)
    let sha := (text.drop 5).take 40
    if Text.startsWith text keyword && isObjectId sha then some sha else none

structure UploadPackRequest where
  wants : List Text
  haves : List Text

def parseUploadPackRequest (body : List UInt8) :
    Except PktLineError UploadPackRequest :=
  (parsePktLines body).map fun lines =>
    ⟨requestShas "want ".toList lines, requestShas "have ".toList lines⟩

inductive UploadPackReply where
  | threw (error : PktLineError)
  | refused (code : String) (status : Nat)
  | result (body : List UInt8)

section Endpoint

variable {ids : ObjectIds Text} (digest deflate : List UInt8 → List UInt8)
  -- the type and the bytes of a stored object
  (content : GitObject Text → PackInputObject)
  (branches : BranchTable Text) (tags : List (TagRow Text))
  (store : CommitStore ids) (repoId : Text)

/-- The targets of the refs that the repository lists. -/
def refTargets : List Text :=
  (listAllRefs branches tags repoId).map ListedRef.target

/-- `tips` of `loadAdvertisedRefs`. -/
def advertisedTips : List Text :=
  ((getDefaultBranch branches repoId).map BranchRow.commitSha).toList ++
    refTargets branches tags repoId

/-- The line `NAK`, then the pack. -/
def packResponse (shas : List Text) : List UInt8 :=
  Utf8.encode "0008NAK\n".toList ++ writePack digest deflate
    ((shas.filterMap store.bucket.getObject).map content)

def gitUploadPack (body : List UInt8) : UploadPackReply :=
  match parseUploadPackRequest body with
  | .error error => .threw error
  | .ok request =>
    if request.wants = [] then .refused "git_no_wants" 400
    else if ∃ want ∈ request.wants,
        want ∉ advertisedTips branches tags repoId then
      .refused "git_invalid_want" 400
    else
      match collectReachableObjects store repoId request.haves
          request.wants with
      | none => .refused "git_pack_failed" 500
      | some shas =>
        if ∃ sha ∈ shas, store.bucket.getObject sha = none then
          .refused "git_repository_incomplete" 500
        else .result (packResponse digest deflate content store shas)

/-- An answer holds, once each, stored objects that the refs of the repository
lead to, and all that the wants lead to past the haves. -/
structure ServesOwn (request : UploadPackRequest) (shas : List Text) :
    Prop where
  advertised : request.wants ⊆ refTargets branches tags repoId
  once : shas.Nodup
  stored : ∀ sha ∈ shas, store.bucket.getObject sha ≠ none
  own : ∀ sha ∈ shas, ∃ role, (objectGraph store repoId).Meets
    (fun _ => False) (commitRoots (refTargets branches tags repoId)) role sha
  complete :
    (objectGraph store repoId).Unambiguous (· ∈ request.haves)
      (commitRoots request.wants) →
    ∀ role sha, (objectGraph store repoId).Meets (· ∈ request.haves)
      (commitRoots request.wants) role sha → sha ∈ shas

variable {branches tags repoId}

theorem advertisedTips_subset :
    advertisedTips branches tags repoId ⊆ refTargets branches tags repoId := by
  intro tip member
  rcases List.mem_append.mp member with head | listed
  · obtain ⟨branch, found, rfl⟩ :=
      Option.map_eq_some_iff.mp (Option.mem_toList.mp head)
    unfold getDefaultBranch at found
    split at found
    · rename_i valid
      have inside := List.mem_of_find?_eq_some found
      have repo := List.find?_some found
      rw [Bool.and_eq_true] at repo
      have row : branch ∈ listBranches branches repoId := by
        rw [listBranches, if_pos valid]
        exact List.mem_filter.mpr ⟨inside, repo.1⟩
      rw [refTargets, listAllRefs, List.map_append, List.map_map]
      exact List.mem_append_left _ (List.mem_map.mpr ⟨branch, row, rfl⟩)
    · cases found
  · exact listed

variable {store} in
theorem meets_mono {haves wants roots : List Text} (kept : wants ⊆ roots)
    {role : ObjectRole} {sha : Text}
    (met : (objectGraph store repoId).Meets (· ∈ haves) (commitRoots wants)
      role sha) :
    (objectGraph store repoId).Meets (fun _ => False) (commitRoots roots)
      role sha := by
  induction met with
  | root member _ => exact .root (List.map_subset _ kept member) id
  | link _ followed _ ih => exact .link ih followed id

/-- A request that is answered with a pack gets the objects of the refs of its
own repository, whatever it asks for. -/
theorem gitUploadPack_servesOwn (body : List UInt8) :
    let reply := gitUploadPack digest deflate content branches tags store
      repoId body
    (∃ error, parseUploadPackRequest body = .error error ∧
      reply = .threw error) ∨
    ∃ request, parseUploadPackRequest body = .ok request ∧
      (reply = .refused "git_no_wants" 400 ∨
        reply = .refused "git_invalid_want" 400 ∨
        reply = .refused "git_repository_incomplete" 500 ∨
        ∃ shas, ServesOwn branches tags store repoId request shas ∧
          reply = .result (packResponse digest deflate content store shas)) := by
  dsimp only
  unfold gitUploadPack
  cases parsed : parseUploadPackRequest body with
  | error error => exact .inl ⟨error, rfl, rfl⟩
  | ok request =>
      obtain ⟨shas, collected, once, met, complete⟩ :=
        collectReachableObjects_spec store repoId request.haves request.wants
      refine .inr ⟨request, rfl, ?_⟩
      simp only [collected]
      split_ifs with empty foreign missing
      · exact .inl rfl
      · exact .inr (.inl rfl)
      · exact .inr (.inr (.inl rfl))
      · have advertised : request.wants ⊆ refTargets branches tags repoId := by
          intro want member
          by_contra unlisted
          exact foreign ⟨want, member, fun tip =>
            unlisted (advertisedTips_subset tip)⟩
        refine .inr (.inr (.inr ⟨shas, ⟨advertised, once, ?_, ?_, complete⟩,
          rfl⟩))
        · exact fun sha member absent => missing ⟨sha, member, absent⟩
        · intro sha member
          obtain ⟨role, reached⟩ := met sha member
          exact ⟨role, meets_mono advertised reached⟩

end Endpoint

end Takos.Packs
