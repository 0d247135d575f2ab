import Takos.Diffs.LineDiff
import Takos.Foundation.Utf8
import Takos.Git.CommitFile

/-!
# Blame

The versions of a file are collected along first parents, newest first, and the
lines of the oldest one are carried forward through the line diffs of all later
ones.
-/

namespace Takos.Diffs

open Takos.Foundation Takos.Git

def GIT_DIFF_MAX_FILE_BYTES : Nat := 256 * 1024
def GIT_DIFF_MAX_LINES : Nat := 2000
def GIT_BLAME_MAX_COMMITS : Nat := 200
def BINARY_DETECTION_SAMPLE_SIZE : Nat := 1024

section Entries

variable {Sha : Type} [DecidableEq Sha] {ids : ObjectIds Sha}

structure TypedEntry (Sha : Type) extends TreeEntry Sha where
  type : GitObjectType

/-- The loop over the parts of a path. -/
def entryBelow (bucket : ObjectStore ids) :
    Sha → List Text → Option (TypedEntry Sha)
  | _, [] => none
  | currentTreeSha, part :: parts =>
    match bucket.getTreeEntries currentTreeSha with
    | none => none
    | some entries =>
      match entries.find? fun entry => entry.name = part with
      | none => none
      | some entry =>
        let entryType : GitObjectType :=
          if isDirectoryMode entry.mode then .tree else .blob
        if parts = [] then some { entry with type := entryType }
        else if isDirectoryMode entry.mode then
          entryBelow bucket entry.sha parts
        else none

/-- `path.replace(/^\/+|\/+$/g, "")`. -/
def trimSlashes (path : Text) : Text :=
  (path.dropWhile (· = '/')).reverse.dropWhile (· = '/') |>.reverse

def getEntryAtPath (bucket : ObjectStore ids) (rootTreeSha : Sha)
    (path : Text) : Option (TypedEntry Sha) :=
  let normalizedPath := trimSlashes path
  if normalizedPath = [] then
    some { mode := FILE_MODES.DIRECTORY, name := [], sha := rootTreeSha,
           type := .tree }
  else entryBelow bucket rootTreeSha (Text.split '/' normalizedPath)

def getBlobOidAtPath (bucket : ObjectStore ids) (treeOid : Sha) (path : Text) :
    Option Sha :=
  match getEntryAtPath bucket treeOid path with
  | none => none
  | some entry => if entry.type = .blob then some entry.sha else none

structure DecodedBlob where
  text : Text
  isBinary : Bool

def decodeBlobContent (blob : List UInt8) : DecodedBlob :=
  if (blob.take BINARY_DETECTION_SAMPLE_SIZE).contains 0 then ⟨[], true⟩
  else ⟨Utf8.decodeText blob, false⟩

structure LoadedText where
  text : Text
  lines : List Text

def loadTextBlob (bucket : ObjectStore ids) (oid : Sha) (maxBytes : Nat) :
    Except String (Option LoadedText) :=
  match bucket.getBlob oid with
  | none => .ok none
  | some blob =>
    if maxBytes < blob.length then .error "File too large"
    else
      let decoded := decodeBlobContent blob
      if decoded.isBinary then .error "Binary file not supported"
      else .ok (some ⟨decoded.text, Text.split '\n' decoded.text⟩)

end Entries

inductive BlameError where
  | notFound (what : String)
  | badRequest (message : String)
  | payloadTooLarge (message : String)
  -- `toISOString` of a date out of range
  | rangeError
  deriving DecidableEq

/-- An entry of `changeCommits`. -/
structure ChangeCommit (Sha : Type) where
  commit : GitCommit Sha
  lines : List Text

/-- A line of the response; its date is given in seconds. -/
structure BlameLine (Sha : Type) where
  line : Nat
  content : Text
  commit_sha : Sha
  author_name : Text
  author_email : Text
  date : Int
  message : Text

structure BlameAnswer (Sha : Type) where
  truncated : Bool
  lines : List (BlameLine Sha)

/-- A path in the history of a repository. -/
structure TrackedFile {Sha : Type} (ids : ObjectIds Sha) where
  store : CommitStore ids
  repoId : Text
  path : Text

namespace TrackedFile

variable {Sha : Type} [DecidableEq Sha] {ids : ObjectIds Sha}

def parentOf (file : TrackedFile ids) (commit : GitCommit Sha) :
    Option (GitCommit Sha) :=
  commit.parents.head?.bind fun sha => file.store.getCommit file.repoId sha

def oidOf (file : TrackedFile ids) (commit : GitCommit Sha) : Option Sha :=
  getBlobOidAtPath file.store.bucket commit.tree file.path

def parentOidOf (file : TrackedFile ids) (commit : GitCommit Sha) :
    Option Sha :=
  (file.parentOf commit).bind file.oidOf

/-- The version of a commit, read and checked before it is kept. -/
def loadVersion (file : TrackedFile ids) (oid : Sha) :
    Except BlameError (List Text) :=
  match loadTextBlob file.store.bucket oid GIT_DIFF_MAX_FILE_BYTES with
  | .error message => .error (.badRequest message)
  | .ok none => .error (.notFound "File")
  | .ok (some loaded) =>
    if GIT_DIFF_MAX_LINES < loaded.lines.length then
      .error (.payloadTooLarge "File too large")
    else .ok loaded.lines

/-- The body of the loop up to its exits: the versions kept so far. -/
def keepVersion (file : TrackedFile ids) (commit : GitCommit Sha) (oid : Sha)
    (changeCommits : List (ChangeCommit Sha)) :
    Except BlameError (List (ChangeCommit Sha)) :=
  if some oid = file.parentOidOf commit then .ok changeCommits
  else
    match file.loadVersion oid with
    | .error error => .error error
    | .ok lines => .ok (changeCommits ++ [⟨commit, lines⟩])

/-- The loop over first parents, with the flag `truncated`; without fuel it has
not ended. -/
def collectChanges (file : TrackedFile ids) : (fuel : Nat) → GitCommit Sha →
    Sha → List (ChangeCommit Sha) →
      Option (Except BlameError (List (ChangeCommit Sha) × Bool))
  | 0, _, _, _ => none
  | fuel + 1, commit, oid, changeCommits =>
    match file.keepVersion commit oid changeCommits with
    | .error error => some (.error error)
    | .ok changeCommits =>
      match file.parentOf commit, file.parentOidOf commit with
      | some parent, some parentOid =>
        if GIT_BLAME_MAX_COMMITS < changeCommits.length then
          some (.ok (changeCommits, true))
        else file.collectChanges fuel parent parentOid changeCommits
      | _, _ => some (.ok (changeCommits, false))

end TrackedFile

section Attribution

variable {Sha : Type}

/-- The inner loop over the operations of a diff; `oldIdx` counts the old lines
passed, and `unset` stands for what an array has beyond its end. -/
def carryAttributions (sha unset : Sha) (attributions : List Sha) :
    (oldIdx : Nat) → List (LineDiffOp Text) → List Sha
  | _, [] => []
  | oldIdx, .equal _ :: ops =>
    attributions[oldIdx]?.getD unset ::
      carryAttributions sha unset attributions (oldIdx + 1) ops
  | oldIdx, .delete _ :: ops =>
    carryAttributions sha unset attributions (oldIdx + 1) ops
  | oldIdx, .insert _ :: ops =>
    sha :: carryAttributions sha unset attributions oldIdx ops

/-- `currentLines` and `attributions`. -/
structure Attributed (Sha : Type) where
  lines : List Text
  shas : List Sha

/-- The body of the loop from the oldest version to the newest. -/
def attributeChange (unset : Sha) (current : Attributed Sha)
    (change : ChangeCommit Sha) : Attributed Sha where
  lines := change.lines
  shas :=
    carryAttributions change.commit.sha unset current.shas 0
      (diffLinesLcs current.lines change.lines)

def attributeChanges (unset : Sha) (changeCommits : List (ChangeCommit Sha)) :
    Attributed Sha :=
  changeCommits.foldl (attributeChange unset) ⟨[], []⟩

variable [DecidableEq Sha]

/-- `commitBySha.get(sha) || headCommit`: of equal keys the last one counts. -/
def commitBySha (changeCommits : List (ChangeCommit Sha))
    (headCommit : GitCommit Sha) (sha : Sha) : GitCommit Sha :=
  match changeCommits.reverse.find? fun change => change.commit.sha = sha with
  | some change => change.commit
  | none => headCommit

def blameLine (changeCommits : List (ChangeCommit Sha))
    (headCommit : GitCommit Sha) (content : Text) (sha : Sha) (idx : Nat) :
    BlameLine Sha :=
  let commit := commitBySha changeCommits headCommit sha
  { line := idx + 1
    content := content
    commit_sha := sha
    author_name := commit.author.name
    author_email := commit.author.email
    date := commit.committer.timestamp
    message := commit.message }

/-- `currentLines.map(…)`, each line with its attribution. -/
def blameLines (changeCommits : List (ChangeCommit Sha))
    (headCommit : GitCommit Sha) (current : Attributed Sha) :
    List (BlameLine Sha) :=
  current.lines.zipIdx.map fun line =>
    blameLine changeCommits headCommit line.1
      (current.shas[line.2]?.getD headCommit.sha) line.2

end Attribution

namespace TrackedFile

variable {Sha : Type} [DecidableEq Sha] {ids : ObjectIds Sha}

/-- The response from the collected versions, which are given newest first. -/
def blameAnswer (headCommit : GitCommit Sha) :
    Except BlameError (List (ChangeCommit Sha) × Bool) →
      Except BlameError (BlameAnswer Sha)
  | .error error => .error error
  | .ok (changeCommits, truncated) =>
    let oldestFirst := changeCommits.reverse
    let lines := blameLines oldestFirst headCommit
      (attributeChanges headCommit.sha oldestFirst)
    if lines.all fun line =>
        hasIsoDate
          (commitBySha oldestFirst headCommit line.commit_sha).committer
    then .ok ⟨truncated, lines⟩
    else .error .rangeError

/-- `handleBlameRequest` from the readable commit that the ref resolves to. -/
def blame (file : TrackedFile ids) (fuel : Nat) (headCommit : GitCommit Sha) :
    Option (Except BlameError (BlameAnswer Sha)) :=
  match file.oidOf headCommit with
  | none => some (.error (.notFound "File"))
  | some headOid =>
    (file.collectChanges fuel headCommit headOid []).map
      (blameAnswer headCommit)

end TrackedFile

end Takos.Diffs

/-!
# Where the lines of a file come from

A line is carried from a commit to its first parent if the diff of their
versions keeps it, and it comes from the commit whose diff inserts it.  The
attributions follow the same steps through the versions that were collected.
-/

namespace Takos.Diffs

open Takos.Foundation Takos.Git

theorem carryAttributions_eq {Sha : Type} (sha unset : Sha)
    (attributions : List Sha) (oldIdx : Nat) (ops : List (LineDiffOp Text)) :
    carryAttributions sha unset attributions oldIdx ops =
      (EditScript.originsFrom oldIdx ops).map fun origin =>
        (origin.map fun place => attributions[place]?.getD unset).getD sha := by
  induction ops generalizing oldIdx with
  | nil => rfl
  | cons op ops induction =>
      cases op with
      | equal line => exact congrArg (List.cons _) (induction (oldIdx + 1))
      | insert line => exact congrArg (List.cons sha) (induction oldIdx)
      | delete line => exact induction (oldIdx + 1)

theorem backtrack_self (dp : Array UInt16) (width : Nat) (lines : List Text)
    (ops : List (LineDiffOp Text)) :
    backtrack dp width lines lines ops =
      lines.reverse.map EditOp.equal ++ ops := by
  induction lines generalizing ops with
  | nil =>
      rw [backtrack]
      rfl
  | cons line lines induction =>
      rw [backtrack, if_pos rfl, induction, List.reverse_cons, List.map_append,
        List.append_assoc]
      rfl

theorem diffLinesLcs_self (lines : List Text) :
    diffLinesLcs lines lines = lines.map EditOp.equal := by
  rw [diffLinesLcs, backtrack_self, List.reverse_reverse, List.append_nil]

theorem origin_lt {oldLines newLines : List Text} {index place : Nat}
    (origin : (EditScript.origins (diffLinesLcs oldLines newLines))[index]? =
      some (some place)) : place < oldLines.length := by
  have inside := (EditScript.originsFrom_kept origin).2.2
  rw [(diffLinesLcs_leads oldLines newLines).oldSide] at inside
  exact inside

theorem length_origins (oldLines newLines : List Text) :
    (EditScript.origins (diffLinesLcs oldLines newLines)).length =
      newLines.length := by
  rw [EditScript.origins, EditScript.length_originsFrom,
    (diffLinesLcs_leads oldLines newLines).newSide]

section Attribution

variable {Sha : Type} {unset : Sha} {current : Attributed Sha}
  {change : ChangeCommit Sha}

theorem length_attributeChange :
    (attributeChange unset current change).shas.length =
      change.lines.length := by
  rw [attributeChange, carryAttributions_eq, List.length_map]
  exact length_origins current.lines change.lines

theorem attributeChange_sha {index : Nat} {sha : Sha}
    (attributed : (attributeChange unset current change).shas[index]? =
      some sha) :
    ((EditScript.origins (diffLinesLcs current.lines change.lines))[index]? =
        some none ∧ sha = change.commit.sha) ∨
      ∃ place,
        (EditScript.origins (diffLinesLcs current.lines change.lines))[index]? =
          some (some place) ∧
        sha = current.shas[place]?.getD unset := by
  rw [attributeChange, carryAttributions_eq, List.getElem?_map] at attributed
  obtain ⟨origin, here, same⟩ := Option.map_eq_some_iff.mp attributed
  cases origin with
  | none => exact .inl ⟨here, same.symm⟩
  | some place => exact .inr ⟨place, here, same.symm⟩

theorem attributeChange_first {index : Nat} {sha : Sha}
    (attributed : (attributeChange unset ⟨[], []⟩ change).shas[index]? =
      some sha) :
    (EditScript.origins (diffLinesLcs [] change.lines))[index]? = some none ∧
      sha = change.commit.sha := by
  rcases attributeChange_sha attributed with inserted | ⟨place, kept, _⟩
  · exact inserted
  · exact absurd (origin_lt kept) (Nat.not_lt_zero place)

theorem attributeChanges_cons (unset : Sha) (change : ChangeCommit Sha)
    (older : List (ChangeCommit Sha)) :
    attributeChanges unset (change :: older).reverse =
      attributeChange unset (attributeChanges unset older.reverse) change := by
  rw [attributeChanges, List.reverse_cons, List.foldl_append]
  rfl

end Attribution

namespace TrackedFile

variable {Sha : Type} [DecidableEq Sha] {ids : ObjectIds Sha}

/-- The lines of a commit's version; a file that is absent has none. -/
def linesOf (file : TrackedFile ids) (commit : GitCommit Sha) : List Text :=
  match file.oidOf commit with
  | none => []
  | some oid => (file.loadVersion oid).toOption.getD []

def parentLinesOf (file : TrackedFile ids) (commit : GitCommit Sha) :
    List Text :=
  match file.parentOf commit with
  | none => []
  | some parent => file.linesOf parent

/-- The diff of a commit's version against its parent version. -/
def diffOf (file : TrackedFile ids) (commit : GitCommit Sha) :
    List (LineDiffOp Text) :=
  diffLinesLcs (file.parentLinesOf commit) (file.linesOf commit)

/-- The diff of the commit against its parent version inserts the line. -/
def Inserted (file : TrackedFile ids) (commit : GitCommit Sha) (index : Nat) :
    Prop :=
  (EditScript.origins (file.diffOf commit))[index]? = some none

/-- A line of a commit is a line of an earlier one, kept by all diffs between
them. -/
inductive Carried (file : TrackedFile ids) :
    GitCommit Sha → Nat → GitCommit Sha → Nat → Prop where
  | here (commit : GitCommit Sha) (index : Nat) :
      Carried file commit index commit index
  | kept {commit parent origin : GitCommit Sha} {index place line : Nat} :
      (EditScript.origins (file.diffOf commit))[index]? = some (some place) →
      file.parentOf commit = some parent →
      Carried file parent place origin line →
      Carried file commit index origin line

theorem Carried.unique {file : TrackedFile ids}
    {commit first second : GitCommit Sha} {index line place : Nat}
    (carried : file.Carried commit index first line)
    (inserted : file.Inserted first line)
    (also : file.Carried commit index second place)
    (there : file.Inserted second place) : first = second ∧ line = place := by
  induction carried with
  | here commit index =>
      cases also with
      | here => exact ⟨rfl, rfl⟩
      | kept origin _ _ =>
          rw [Inserted, origin] at inserted
          cases inserted
  | kept origin above _ induction =>
      cases also with
      | here =>
          rw [Inserted, origin] at there
          cases there
      | kept again beside later =>
          rw [origin] at again
          rw [above] at beside
          cases again
          cases beside
          exact induction inserted later

/-- The versions along the first parents of a commit that differ from the
version before them, newest first; `truncated` if there are earlier ones. -/
inductive Collected (file : TrackedFile ids) :
    GitCommit Sha → List (ChangeCommit Sha) → (truncated : Bool) → Prop where
  | unchanged {commit parent : GitCommit Sha} {oid : Sha}
      {changes : List (ChangeCommit Sha)} {truncated : Bool} :
      file.oidOf commit = some oid →
      file.parentOf commit = some parent →
      file.oidOf parent = some oid →
      Collected file parent changes truncated →
      Collected file commit changes truncated
  | changed {commit parent : GitCommit Sha} {oid parentOid : Sha}
      {lines : List Text} {changes : List (ChangeCommit Sha)}
      {truncated : Bool} :
      file.oidOf commit = some oid →
      file.loadVersion oid = .ok lines →
      file.parentOf commit = some parent →
      file.oidOf parent = some parentOid →
      oid ≠ parentOid →
      Collected file parent changes truncated →
      Collected file commit (⟨commit, lines⟩ :: changes) truncated
  | added {commit : GitCommit Sha} {oid : Sha} {lines : List Text} :
      file.oidOf commit = some oid →
      file.loadVersion oid = .ok lines →
      file.parentOidOf commit = none →
      Collected file commit [⟨commit, lines⟩] false
  | cut {commit parent : GitCommit Sha} {oid parentOid : Sha}
      {lines : List Text} :
      file.oidOf commit = some oid →
      file.loadVersion oid = .ok lines →
      file.parentOf commit = some parent →
      file.oidOf parent = some parentOid →
      oid ≠ parentOid →
      Collected file commit [⟨commit, lines⟩] true

section Lines

variable {file : TrackedFile ids} {commit parent : GitCommit Sha} {oid : Sha}
  {lines : List Text}

theorem linesOf_loaded (version : file.oidOf commit = some oid)
    (loaded : file.loadVersion oid = .ok lines) : file.linesOf commit = lines := by
  rw [linesOf, version]
  change (file.loadVersion oid).toOption.getD [] = lines
  rw [loaded]
  rfl

theorem parentLinesOf_parent (above : file.parentOf commit = some parent) :
    file.parentLinesOf commit = file.linesOf parent := by
  rw [parentLinesOf, above]

theorem parentLinesOf_absent (absent : file.parentOidOf commit = none) :
    file.parentLinesOf commit = [] := by
  rw [parentLinesOf]
  cases above : file.parentOf commit with
  | none => rfl
  | some parent =>
      rw [parentOidOf, above] at absent
      change file.oidOf parent = none at absent
      change file.linesOf parent = []
      rw [linesOf, absent]

theorem origins_unchanged (version : file.oidOf commit = some oid)
    (above : file.parentOf commit = some parent)
    (same : file.oidOf parent = some oid) {index : Nat}
    (inside : index < (file.linesOf commit).length) :
    (EditScript.origins (file.diffOf commit))[index]? = some (some index) := by
  have lines : file.linesOf parent = file.linesOf commit := by
    rw [linesOf, linesOf, version, same]
  rw [diffOf, parentLinesOf_parent above, lines, diffLinesLcs_self,
    EditScript.origins, EditScript.originsFrom_equal, List.getElem?_map,
    List.getElem?_range' inside]
  exact congrArg (some ∘ some) (by omega)

end Lines

/-- What the loop over the collected versions has attributed at the end. -/
structure Attributes (file : TrackedFile ids) (commit : GitCommit Sha)
    (changes : List (ChangeCommit Sha)) (truncated : Bool)
    (current : Attributed Sha) : Prop where
  lines : current.lines = file.linesOf commit
  length : current.shas.length = current.lines.length
  origin : ∀ (index : Nat) (sha : Sha), current.shas[index]? = some sha →
    ∃ origin line, file.Carried commit index origin line ∧ sha = origin.sha ∧
      (file.Inserted origin line ∨
        (truncated = true ∧ changes.getLast?.map ChangeCommit.commit =
          some origin))

omit [DecidableEq Sha] in
theorem last_cons (change : ChangeCommit Sha)
    {changes : List (ChangeCommit Sha)} {origin : GitCommit Sha}
    (last : changes.getLast?.map ChangeCommit.commit = some origin) :
    (change :: changes).getLast?.map ChangeCommit.commit = some origin := by
  rw [List.getLast?_cons]
  cases found : changes.getLast? with
  | none =>
      rw [found] at last
      cases last
  | some other =>
      rw [found] at last
      exact last

theorem Collected.attributes {file : TrackedFile ids}
    {commit : GitCommit Sha} {changes : List (ChangeCommit Sha)}
    {truncated : Bool} (collected : file.Collected commit changes truncated)
    (unset : Sha) :
    file.Attributes commit changes truncated
      (attributeChanges unset changes.reverse) := by
  induction collected with
  | unchanged version above same _ induction =>
      have lines := induction.lines
      rename_i commit parent oid changes truncated _
      have equal : file.linesOf parent = file.linesOf commit := by
        rw [linesOf, linesOf, version, same]
      refine ⟨lines.trans equal, induction.length, ?_⟩
      intro index sha attributed
      obtain ⟨origin, line, carried, rest⟩ :=
        induction.origin index sha attributed
      have inside : index < (file.linesOf commit).length := by
        rw [← equal, ← lines, ← induction.length]
        exact (List.getElem?_eq_some_iff.mp attributed).1
      exact ⟨origin, line,
        .kept (origins_unchanged version above same inside) above carried, rest⟩
  | changed version loaded above earlier different rest induction =>
      rename_i commit parent oid parentOid lines changes truncated
      rw [attributeChanges_cons]
      have diff : file.diffOf commit = diffLinesLcs
          (attributeChanges unset changes.reverse).lines lines := by
        rw [diffOf, parentLinesOf_parent above, induction.lines,
          linesOf_loaded version loaded]
      refine ⟨(linesOf_loaded version loaded).symm, length_attributeChange, ?_⟩
      intro index sha attributed
      rcases attributeChange_sha attributed with
        ⟨inserted, same⟩ | ⟨place, kept, same⟩
      · refine ⟨commit, index, .here commit index, same, .inl ?_⟩
        rw [Inserted, diff]
        exact inserted
      · have inside : place <
            (attributeChanges unset changes.reverse).shas.length := by
          rw [induction.length]
          exact origin_lt kept
        rw [List.getElem?_eq_getElem inside] at same
        obtain ⟨origin, line, carried, originSha, reason⟩ :=
          induction.origin place sha
            ((List.getElem?_eq_getElem inside).trans (congrArg some same.symm))
        rw [← diff] at kept
        refine ⟨origin, line, .kept kept above carried, originSha, ?_⟩
        exact reason.imp_right fun ⟨shortened, last⟩ =>
          ⟨shortened, last_cons _ last⟩
  | added version loaded absent =>
      rename_i commit oid lines
      have diff : file.diffOf commit = diffLinesLcs [] lines := by
        rw [diffOf, parentLinesOf_absent absent,
          linesOf_loaded version loaded]
      refine ⟨(linesOf_loaded version loaded).symm, length_attributeChange, ?_⟩
      intro index sha attributed
      obtain ⟨inserted, same⟩ := attributeChange_first attributed
      refine ⟨commit, index, .here commit index, same, .inl ?_⟩
      rw [Inserted, diff]
      exact inserted
  | cut version loaded above earlier different =>
      rename_i commit parent oid parentOid lines
      refine ⟨(linesOf_loaded version loaded).symm, length_attributeChange, ?_⟩
      intro index sha attributed
      exact ⟨commit, index, .here commit index,
        (attributeChange_first attributed).2, .inr ⟨rfl, rfl⟩⟩

end TrackedFile

end Takos.Diffs
