import Takos.Foundation.Text
import Mathlib.Logic.Function.Basic
import Mathlib.Data.List.Sort

/-!
# Git objects and the object store

Object ids are abstract: `ObjectIds` packages the hash of an object with the
id checks the code performs, idealising SHA-1 as collision free.  A store maps
ids to decoded objects and is content addressed by construction, so the byte
encoding of an object appears here only through what reading it back yields:
tree entries sorted by name with their modes padded to six digits.
-/

namespace Takos.Git

open Takos.Foundation

inductive GitObjectType where
  | blob
  | tree
  | commit
  | tag
  deriving DecidableEq, Repr

structure TreeEntry (Sha : Type) where
  mode : Text
  name : Text
  sha : Sha
  deriving DecidableEq

structure GitSignature where
  name : Text
  email : Text
  timestamp : Int
  tzOffset : Text
  deriving DecidableEq

/-- The fields of a commit object; `GitCommit` adds the id it was read under. -/
structure CommitContent (Sha : Type) where
  tree : Sha
  parents : List Sha
  author : GitSignature
  committer : GitSignature
  message : Text

structure GitCommit (Sha : Type) extends CommitContent Sha where
  sha : Sha

namespace FILE_MODES

def REGULAR_FILE : Text := ['1', '0', '0', '6', '4', '4']
def EXECUTABLE : Text := ['1', '0', '0', '7', '5', '5']
def SYMLINK : Text := ['1', '2', '0', '0', '0', '0']
def DIRECTORY : Text := ['0', '4', '0', '0', '0', '0']

end FILE_MODES

/-- `mode === "40000" || mode === "040000"`. -/
def isDirectoryMode (mode : Text) : Bool :=
  mode = FILE_MODES.DIRECTORY || mode = ['4', '0', '0', '0', '0']

inductive GitObject (Sha : Type) where
  | blob (content : List UInt8)
  | tree (entries : List (TreeEntry Sha))
  | commit (content : CommitContent Sha)
  | tag (content : List UInt8)

/-- Object ids with the hash that assigns them and the checks on their text:
`isValidSha` accepts 40 lowercase hex digits, `isValidCommitSha` 40 or 64 hex
digits of either case. -/
structure ObjectIds (Sha : Type) where
  hashObject : GitObject Sha → Sha
  hash_injective : Function.Injective hashObject
  isValidSha : Sha → Bool
  hash_valid : ∀ object, isValidSha (hashObject object) = true
  isValidCommitSha : Sha → Bool
  commit_valid : ∀ sha, isValidSha sha = true → isValidCommitSha sha = true

/-- Content-addressed store: every object sits under its own id. -/
structure ObjectStore {Sha : Type} (ids : ObjectIds Sha) where
  objects : List (Sha × GitObject Sha)
  sound : ∀ entry ∈ objects, ids.hashObject entry.2 = entry.1

namespace ObjectStore

variable {Sha : Type} [DecidableEq Sha] {ids : ObjectIds Sha}

def empty (ids : ObjectIds Sha) : ObjectStore ids := ⟨[], by simp⟩

def find? (bucket : ObjectStore ids) (sha : Sha) : Option (GitObject Sha) :=
  bucket.objects.lookup sha

/-- `getObject`: an id that fails `isValidSha` is never looked up. -/
def getObject (bucket : ObjectStore ids) (sha : Sha) : Option (GitObject Sha) :=
  if ids.isValidSha sha = true then bucket.find? sha else none

/-- `putBlob`, `putTree`, `putCommit` and `putRawObject` share this body: the
object is written only when its key is free. -/
def putObject (bucket : ObjectStore ids) (object : GitObject Sha) :
    Sha × ObjectStore ids :=
  match bucket.find? (ids.hashObject object) with
  | some _ => (ids.hashObject object, bucket)
  | none =>
    (ids.hashObject object,
      { objects := (ids.hashObject object, object) :: bucket.objects
        sound := by
          intro entry member
          rcases List.mem_cons.mp member with rfl | older
          · rfl
          · exact bucket.sound entry older })

/-- Every object readable in `earlier` reads the same in `later`. -/
def Extends (earlier later : ObjectStore ids) : Prop :=
  ∀ sha object, earlier.find? sha = some object →
    later.find? sha = some object

theorem Extends.refl (bucket : ObjectStore ids) : Extends bucket bucket :=
  fun _ _ found => found

theorem Extends.trans {first second third : ObjectStore ids}
    (left : Extends first second) (right : Extends second third) :
    Extends first third :=
  fun sha object found => right sha object (left sha object found)

variable {object : GitObject Sha} {sha : Sha} {earlier later : ObjectStore ids}

private theorem mem_of_lookup {objects : List (Sha × GitObject Sha)}
    (found : objects.lookup sha = some object) : (sha, object) ∈ objects := by
  induction objects with
  | nil => simp at found
  | cons entry rest ih =>
      obtain ⟨key, value⟩ := entry
      by_cases same : sha = key
      · subst same
        have : value = object := by simpa using found
        simp [this]
      · have different : (sha == key) = false := by simpa using same
        rw [List.lookup_cons, different] at found
        exact .tail _ (ih found)

theorem mem_objects_of_find? {bucket : ObjectStore ids}
    (found : bucket.find? sha = some object) : (sha, object) ∈ bucket.objects :=
  mem_of_lookup found

theorem hash_of_find? {bucket : ObjectStore ids}
    (found : bucket.find? sha = some object) : ids.hashObject object = sha :=
  bucket.sound (sha, object) (mem_objects_of_find? found)

@[simp] theorem putObject_fst (bucket : ObjectStore ids)
    (object : GitObject Sha) :
    (bucket.putObject object).1 = ids.hashObject object := by
  unfold putObject
  split <;> rfl

theorem putObject_extends (bucket : ObjectStore ids)
    (object : GitObject Sha) :
    Extends bucket (bucket.putObject object).2 := by
  intro sha stored found
  unfold putObject
  split
  · exact found
  · rename_i free
    have different : sha ≠ ids.hashObject object := by
      intro same
      rw [← same, found] at free
      simp at free
    have unequal : (sha == ids.hashObject object) = false := by
      simpa using different
    simpa [find?, List.lookup_cons, unequal] using found

/-- After a put the object itself reads back: no other object can hold its
key. -/
theorem find?_putObject (bucket : ObjectStore ids) (object : GitObject Sha) :
    (bucket.putObject object).2.find? (ids.hashObject object) =
      some object := by
  unfold putObject
  split
  · rename_i stored found
    have same : stored = object := ids.hash_injective (hash_of_find? found)
    exact same ▸ found
  · simp [find?]

theorem getObject_extends (grown : Extends earlier later)
    (found : earlier.getObject sha = some object) :
    later.getObject sha = some object := by
  unfold getObject at found ⊢
  split at found
  · rename_i valid
    rw [if_pos valid]
    exact grown sha object found
  · simp at found

theorem getObject_putObject (bucket : ObjectStore ids)
    (object : GitObject Sha) :
    (bucket.putObject object).2.getObject (ids.hashObject object) =
      some object := by
  unfold getObject
  rw [if_pos (ids.hash_valid object)]
  exact bucket.find?_putObject object

def getBlob (bucket : ObjectStore ids) (sha : Sha) : Option (List UInt8) :=
  match bucket.getObject sha with
  | some (.blob content) => some content
  | _ => none

def getTreeEntries (bucket : ObjectStore ids) (sha : Sha) :
    Option (List (TreeEntry Sha)) :=
  match bucket.getObject sha with
  | some (.tree entries) => some entries
  | _ => none

def getCommitData (bucket : ObjectStore ids) (sha : Sha) :
    Option (GitCommit Sha) :=
  match bucket.getObject sha with
  | some (.commit content) => some { content with sha := sha }
  | _ => none

theorem getTreeEntries_extends (grown : Extends earlier later)
    {entries : List (TreeEntry Sha)}
    (found : earlier.getTreeEntries sha = some entries) :
    later.getTreeEntries sha = some entries := by
  unfold getTreeEntries at found ⊢
  split at found
  · rename_i stored read
    rw [getObject_extends grown read]
    exact found
  · simp at found

theorem getCommitData_extends (grown : Extends earlier later)
    {commit : GitCommit Sha} (found : earlier.getCommitData sha = some commit) :
    later.getCommitData sha = some commit := by
  unfold getCommitData at found ⊢
  split at found
  · rename_i stored read
    rw [getObject_extends grown read]
    exact found
  · simp at found

/-- Sort key of a tree entry: a directory is compared as if it ended in `/`. -/
def sortName (entry : TreeEntry Sha) : Text :=
  if isDirectoryMode entry.mode then entry.name ++ ['/'] else entry.name

/-- The mode that reading a written entry yields: leading zeros are dropped on
the way out and the text is padded to six digits on the way in. -/
def storedMode (mode : Text) : Text :=
  Text.padStart 6 '0' (mode.dropWhile (· = '0'))

/-- What `decodeTree` returns for the bytes of `encodeTreeContent`. -/
def storedEntries (entries : List (TreeEntry Sha)) : List (TreeEntry Sha) :=
  (entries.insertionSort
    (fun left right => Text.lt (sortName right) (sortName left) = false)).map
      (fun entry => { entry with mode := storedMode entry.mode })

def putBlob (bucket : ObjectStore ids) (content : List UInt8) :
    Sha × ObjectStore ids :=
  bucket.putObject (.blob content)

def putTree (bucket : ObjectStore ids) (entries : List (TreeEntry Sha)) :
    Sha × ObjectStore ids :=
  bucket.putObject (.tree (storedEntries entries))

def putCommit (bucket : ObjectStore ids) (commit : CommitContent Sha) :
    Sha × ObjectStore ids :=
  bucket.putObject (.commit commit)

theorem putTree_extends (bucket : ObjectStore ids)
    (entries : List (TreeEntry Sha)) :
    Extends bucket (bucket.putTree entries).2 :=
  bucket.putObject_extends _

theorem getTreeEntries_putTree (bucket : ObjectStore ids)
    (entries : List (TreeEntry Sha)) :
    (bucket.putTree entries).2.getTreeEntries (bucket.putTree entries).1 =
      some (storedEntries entries) := by
  unfold getTreeEntries putTree
  rw [putObject_fst, getObject_putObject]

theorem getCommitData_putCommit (bucket : ObjectStore ids)
    (commit : CommitContent Sha) :
    (bucket.putCommit commit).2.getCommitData (bucket.putCommit commit).1 =
      some { commit with sha := (bucket.putCommit commit).1 } := by
  unfold getCommitData putCommit
  rw [putObject_fst, getObject_putObject]

omit [DecidableEq Sha] in
theorem storedEntries_perm (entries : List (TreeEntry Sha)) :
    (storedEntries entries).Perm
      (entries.map fun entry => { entry with mode := storedMode entry.mode }) :=
  (List.perm_insertionSort _ entries).map _

@[simp] theorem storedMode_directory :
    storedMode FILE_MODES.DIRECTORY = FILE_MODES.DIRECTORY := by decide

end ObjectStore

end Takos.Git

/-!
# Object ids as terms

The free model of `ObjectIds`: an id is the term that describes its object, so
hashing is injective by construction and stores can be evaluated.
-/

namespace Takos.Git

open Takos.Foundation

/-- `noParents`, `parent`, `noEntries` and `entry` are the lists inside a commit
and a tree; they are not ids of objects. -/
inductive Digest where
  | blob (content : List UInt8)
  | tag (content : List UInt8)
  | tree (entries : Digest)
  | commit (tree parents : Digest) (author committer : GitSignature)
      (message : Text)
  | noEntries
  | entry (mode name : Text) (sha rest : Digest)
  | noParents
  | parent (sha rest : Digest)
  deriving DecidableEq

namespace Digest

def ofEntries : List (TreeEntry Digest) → Digest
  | [] => noEntries
  | first :: rest => entry first.mode first.name first.sha (ofEntries rest)

def ofParents : List Digest → Digest
  | [] => noParents
  | first :: rest => parent first (ofParents rest)

def ofObject : GitObject Digest → Digest
  | .blob content => blob content
  | .tag content => tag content
  | .tree entries => tree (ofEntries entries)
  | .commit content =>
    commit content.tree (ofParents content.parents) content.author
      content.committer content.message

def isObject : Digest → Bool
  | blob _ | tag _ | tree _ | commit .. => true
  | noEntries | entry .. | noParents | parent .. => false

theorem ofEntries_injective : Function.Injective ofEntries := by
  intro left right same
  induction left generalizing right with
  | nil =>
      cases right with
      | nil => rfl
      | cons _ _ => simp [ofEntries] at same
  | cons first rest ih =>
      cases right with
      | nil => simp [ofEntries] at same
      | cons other others =>
          simp only [ofEntries, entry.injEq] at same
          obtain ⟨sameMode, sameName, sameSha, sameRest⟩ := same
          cases first
          cases other
          simp only at sameMode sameName sameSha
          subst sameMode sameName sameSha
          rw [ih sameRest]

theorem ofParents_injective : Function.Injective ofParents := by
  intro left right same
  induction left generalizing right with
  | nil =>
      cases right with
      | nil => rfl
      | cons _ _ => simp [ofParents] at same
  | cons first rest ih =>
      cases right with
      | nil => simp [ofParents] at same
      | cons other others =>
          simp only [ofParents, parent.injEq] at same
          rw [same.1, ih same.2]

theorem ofObject_injective : Function.Injective ofObject := by
  intro left right same
  cases left <;> cases right <;> simp only [ofObject, blob.injEq, tag.injEq,
    tree.injEq, commit.injEq, reduceCtorEq] at same
  case blob.blob => rw [same]
  case tag.tag => rw [same]
  case tree.tree => rw [ofEntries_injective same]
  case commit.commit left right =>
    obtain ⟨sameTree, sameParents, sameAuthor, sameCommitter, sameMessage⟩ :=
      same
    have parents := ofParents_injective sameParents
    cases left
    cases right
    simp only at sameTree parents sameAuthor sameCommitter sameMessage
    subst sameTree parents sameAuthor sameCommitter sameMessage
    rfl

end Digest

def termIds : ObjectIds Digest where
  hashObject := Digest.ofObject
  hash_injective := Digest.ofObject_injective
  isValidSha := Digest.isObject
  hash_valid := by
    intro object
    cases object <;> rfl
  isValidCommitSha := Digest.isObject
  commit_valid := by
    intro sha valid
    exact valid

end Takos.Git
