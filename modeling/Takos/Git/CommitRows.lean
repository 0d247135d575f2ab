import Takos.Git.CommitRoundTrip
import Takos.Git.TreeText
import Takos.Sync.SnapshotWalk
import Takos.Foundation.Asking
import Takos.Git.ReachableObjects

/-!
# Rows and objects of a commit

A commit is stored as an object, and a row of the commit index repeats its
fields: the parents as a JSON column and the two times as dates.  The table has
no column for the time zones.  `getCommit` answers from the row where there is
one and from the object otherwise.
-/

namespace Takos.Git

open Takos.Foundation
open Takos.Sync (parseParentIds storedParentIds parseParentIds_stored)

/-- The hash of an object with the check on its text, and no collisions. -/
structure RecordIds where
  hashObject : GitObjectType → List UInt8 → Text
  hash_injective : ∀ {type other : GitObjectType} {content more : List UInt8},
    hashObject type content = hashObject other more →
      type = other ∧ content = more
  isValidSha : Text → Bool
  hash_valid : ∀ type content, isValidSha (hashObject type content) = true

structure RecordObject where
  type : GitObjectType
  content : List UInt8

/-- A row of the commit index; the dates stand for their milliseconds. -/
structure CommitIndexRow where
  repoId : Text
  sha : Text
  treeSha : Text
  parentShas : Option Text
  message : Text
  authorName : Text
  authorEmail : Text
  authorDate : Int
  committerName : Text
  committerEmail : Text
  commitDate : Int

structure CommitRecords (ids : RecordIds) where
  objects : List (Text × RecordObject)
  addressed : ∀ entry ∈ objects,
    ids.hashObject entry.2.type entry.2.content = entry.1
  rows : List CommitIndexRow

def zone : Text := ['+', '0', '0', '0', '0']

/-- What a read of a commit returns; the decoder may throw. -/
abbrev CommitAnswer := Except CommitTextError (Option ReadCommit)

namespace CommitRecords

variable {Number : Type} {ids : RecordIds}

/-- `sigTimestampToIso`; `none` is a `RangeError`. -/
def sigTimestampToDate (timestamp : Option Int) : Option Int :=
  match timestamp with
  | none => none
  | some seconds =>
    if seconds.natAbs ≤ 8640000000000 then some (seconds * 1000) else none

/-- The values that `createCommit` and `indexCommit` insert. -/
def indexRow (codec : JsonCodec Number) (repoId : Text) (commit : ReadCommit) :
    Option CommitIndexRow :=
  match sigTimestampToDate commit.author.timestamp,
      sigTimestampToDate commit.committer.timestamp with
  | some authorDate, some commitDate =>
    some
      { repoId := repoId
        sha := commit.sha
        treeSha := commit.tree
        parentShas := if commit.parents = [] then none
          else some (storedParentIds codec commit.parents)
        message := commit.message
        authorName := commit.author.name
        authorEmail := commit.author.email
        authorDate := authorDate
        committerName := commit.committer.name
        committerEmail := commit.committer.email
        commitDate := commitDate }
  | _, _ => none

def indexedToCommit (codec : JsonCodec Number) (row : CommitIndexRow) :
    ReadCommit where
  sha := row.sha
  tree := row.treeSha
  parents := parseParentIds codec row.parentShas
  message := row.message
  author :=
    { name := row.authorName
      email := row.authorEmail
      timestamp := some (row.authorDate / 1000)
      tzOffset := zone }
  committer :=
    { name := row.committerName
      email := row.committerEmail
      timestamp := some (row.commitDate / 1000)
      tzOffset := zone }

def getObject (records : CommitRecords ids) (sha : Text) :
    Option RecordObject :=
  if ids.isValidSha sha = true then records.objects.lookup sha else none

def getCommitData (records : CommitRecords ids) (sha : Text) : CommitAnswer :=
  match records.getObject sha with
  | none => .ok none
  | some object =>
    if object.type = .commit then
      (decodeCommit object.content).map fun commit =>
        some { commit with sha := sha }
    else .ok none

def getTreeEntries (records : CommitRecords ids) (sha : Text) :
    Option (List (TreeEntry Text)) :=
  match records.getObject sha with
  | none => none
  | some object =>
    if object.type = .tree then some (decodeTree object.content) else none

def findRow (records : CommitRecords ids) (repoId sha : Text) :
    Option CommitIndexRow :=
  records.rows.find? fun row => row.repoId = repoId && row.sha = sha

def getCommitFromIndex (codec : JsonCodec Number) (records : CommitRecords ids)
    (repoId sha : Text) : Option ReadCommit :=
  (records.findRow repoId sha).map (indexedToCommit codec)

def getCommit (codec : JsonCodec Number) (records : CommitRecords ids)
    (repoId sha : Text) : CommitAnswer :=
  match records.getCommitFromIndex codec repoId sha with
  | some indexed => .ok (some indexed)
  | none =>
    if ids.isValidSha sha = true then records.getCommitData sha else .ok none

/-- `putObject`: a key that is taken keeps its object. -/
def putObject (records : CommitRecords ids) (object : RecordObject) :
    CommitRecords ids :=
  match records.objects.lookup (ids.hashObject object.type object.content) with
  | some _ => records
  | none =>
    { records with
      objects := (ids.hashObject object.type object.content, object) ::
        records.objects
      addressed := by
        intro entry member
        rcases List.mem_cons.mp member with rfl | older
        · rfl
        · exact records.addressed entry older }

def commitObject (params : CommitContent Text) : RecordObject :=
  ⟨.commit, encodeCommitContent params⟩

def commitSha (ids : RecordIds) (params : CommitContent Text) : Text :=
  ids.hashObject .commit (encodeCommitContent params)

def createdCommit (ids : RecordIds) (params : CommitContent Text) :
    ReadCommit :=
  { asRead params with sha := commitSha ids params }

def insertRow (records : CommitRecords ids) (row : CommitIndexRow) :
    CommitRecords ids :=
  { records with rows := records.rows ++ [row] }

/-- Objects arrive by themselves; a row is written for a stored commit or
together with a new one, unless there is one.  A date out of range stops the
writing of the row. -/
inductive Step (codec : JsonCodec Number)
    (allowed : CommitContent Text → Prop) :
    CommitRecords ids → CommitRecords ids → Prop where
  | put (records : CommitRecords ids) (object : RecordObject) :
      Step codec allowed records (records.putObject object)
  | indexCommit {records : CommitRecords ids} {repoId sha : Text}
      {commit : ReadCommit} {row : CommitIndexRow} :
      records.getCommitData sha = .ok (some commit) →
      records.findRow repoId sha = none →
      indexRow codec repoId commit = some row →
      Step codec allowed records (records.insertRow row)
  | createCommit {records : CommitRecords ids} {repoId : Text}
      {params : CommitContent Text} {row : CommitIndexRow} :
      allowed params →
      records.findRow repoId (commitSha ids params) = none →
      indexRow codec repoId (createdCommit ids params) = some row →
      Step codec allowed records
        ((records.putObject (commitObject params)).insertRow row)

inductive Reachable (codec : JsonCodec Number)
    (allowed : CommitContent Text → Prop) : CommitRecords ids → Prop where
  | initial : Reachable codec allowed ⟨[], by simp, []⟩
  | step {before after : CommitRecords ids} :
      Reachable codec allowed before → Step codec allowed before after →
      Reachable codec allowed after

end CommitRecords

end Takos.Git

/-!
# Walks that ask for commits

The walks along parent links as computations that ask `getCommit` for one commit
after the other.  A throw of the decoder ends a walk; without fuel it has not
ended.  None of them looks at a time zone, so answers that agree up to the zones
give the same results.
-/

namespace Takos.Git

open Takos.Foundation

def ReadCommit.withoutZones (commit : ReadCommit) : ReadCommit :=
  { commit with
    author := { commit.author with tzOffset := zone }
    committer := { commit.committer with tzOffset := zone } }

def SameAnswer (left right : CommitAnswer) : Prop :=
  left.map (Option.map ReadCommit.withoutZones) =
    right.map (Option.map ReadCommit.withoutZones)

section Walks

/-- The result of a walk, or what it throws. -/
abbrev CommitWalk (Result : Type) :=
  Asking Text CommitAnswer (Option (Except CommitTextError Result))

variable {Result : Type}

/-- `await getCommit(…)`. -/
def askCommit (sha : Text) (next : Option ReadCommit → CommitWalk Result) :
    CommitWalk Result :=
  .ask sha fun answer =>
    match answer with
    | .error error => .done (some (.error error))
    | .ok commit => next commit

def returned (result : Result) : CommitWalk Result := .done (some (.ok result))

/-- Parents that are appended to a queue. -/
def parentsOf (commit : Option ReadCommit) : List Text :=
  match commit with
  | none => []
  | some commit => commit.parents

def isAncestorFrom (ancestorSha : Text) :
    (fuel : Nat) → (queue visited : List Text) → CommitWalk Bool
  | 0, _, _ => .done none
  | _ + 1, [], _ => returned false
  | fuel + 1, sha :: queue, visited =>
    if sha ∈ visited then isAncestorFrom ancestorSha fuel queue visited
    else if sha = ancestorSha then returned true
    else
      askCommit sha fun commit =>
        isAncestorFrom ancestorSha fuel
          (queue ++ (parentsOf commit).filter (· ∉ sha :: visited))
          (sha :: visited)

def isAncestorWalk (fuel : Nat) (ancestorSha descendantSha : Text) :
    CommitWalk Bool :=
  if ancestorSha = descendantSha then returned true
  else isAncestorFrom ancestorSha fuel [descendantSha] []

/-- The second loop of `findMergeBase`. -/
def firstCommonFrom (ancestors1 : List Text) :
    (fuel : Nat) → (queue visited : List Text) → CommitWalk (Option Text)
  | 0, _, _ => .done none
  | _ + 1, [], _ => returned none
  | fuel + 1, sha :: queue, visited =>
    if sha ∈ visited then firstCommonFrom ancestors1 fuel queue visited
    else if sha ∈ ancestors1 then returned (some sha)
    else
      askCommit sha fun commit =>
        firstCommonFrom ancestors1 fuel (queue ++ parentsOf commit)
          (sha :: visited)

/-- The first loop of `findMergeBase`, and then the second one. -/
def mergeBaseFrom (sha2 : Text) (secondFuel : Nat) :
    (fuel : Nat) → (queue ancestors1 : List Text) → CommitWalk (Option Text)
  | 0, _, _ => .done none
  | _ + 1, [], ancestors1 => firstCommonFrom ancestors1 secondFuel [sha2] []
  | fuel + 1, sha :: queue, ancestors1 =>
    if sha ∈ ancestors1 then mergeBaseFrom sha2 secondFuel fuel queue ancestors1
    else
      askCommit sha fun commit =>
        mergeBaseFrom sha2 secondFuel fuel (queue ++ parentsOf commit)
          (sha :: ancestors1)

def findMergeBaseWalk (fuel : Nat) (sha1 sha2 : Text) :
    CommitWalk (Option Text) :=
  mergeBaseFrom sha2 fuel fuel [sha1] []

/-- The loop of `getCommitLog`. -/
def commitLogFrom (limit : Nat) : (fuel : Nat) → (cursorSha : Option Text) →
    (visited : List Text) → (commitList : List ReadCommit) →
      CommitWalk (List ReadCommit)
  | 0, _, _, _ => .done none
  | _ + 1, none, _, commitList => returned commitList
  | fuel + 1, some sha, visited, commitList =>
    if commitList.length < limit ∧ sha ∉ visited then
      askCommit sha fun commit =>
        match commit with
        | none => returned commitList
        | some commit =>
          commitLogFrom limit fuel (commit.parents.head?.filter (· ≠ []))
            (sha :: visited) (commitList ++ [commit])
    else returned commitList

def getCommitLogWalk (fuel : Nat) (startSha : Text) (limit : Nat) :
    CommitWalk (List ReadCommit) :=
  if startSha = [] ∨ limit = 0 then returned []
  else commitLogFrom limit fuel (some startSha) [] []

/-- `collectTreeObjects`; the fuel bounds the depth of the recursion. -/
def collectTreeRecords {ids : RecordIds} (records : CommitRecords ids)
    (haves : List Text) : (fuel : Nat) → Text → List Text → Option (List Text)
  | 0, _, _ => none
  | fuel + 1, treeSha, seen =>
    if treeSha ∈ seen ∨ treeSha ∈ haves then some seen
    else
      match records.getTreeEntries treeSha with
      | none => some (seen ++ [treeSha])
      | some entries =>
        collectEntries haves (collectTreeRecords records haves fuel) entries
          (seen ++ [treeSha])

/-- The tree of a commit, unless it has been seen. -/
def collectTreeOf (collectTree : Text → List Text → Option (List Text))
    (haves : List Text) (commit : ReadCommit) (seen : List Text) :
    Option (List Text) :=
  if commit.tree ∉ seen ∧ commit.tree ∉ haves then collectTree commit.tree seen
  else some seen

/-- The loop of `collectReachableObjects`; `collectTree` walks a tree. -/
def collectFrom (collectTree : Text → List Text → Option (List Text))
    (haves : List Text) : (fuel : Nat) → (commitQueue seen : List Text) →
      CommitWalk (List Text)
  | 0, _, _ => .done none
  | _ + 1, [], seen => returned seen
  | fuel + 1, sha :: commitQueue, seen =>
    if sha ∈ seen ∨ sha ∈ haves then
      collectFrom collectTree haves fuel commitQueue seen
    else
      askCommit sha fun commit =>
        match commit with
        | none => collectFrom collectTree haves fuel commitQueue (seen ++ [sha])
        | some commit =>
          match collectTreeOf collectTree haves commit (seen ++ [sha]) with
          | none => .done none
          | some grown =>
            collectFrom collectTree haves fuel
              (commitQueue ++ commit.parents.filter fun parent =>
                parent ∉ grown ∧ parent ∉ haves)
              grown

def collectReachableObjectsWalk {ids : RecordIds} (records : CommitRecords ids)
    (fuel : Nat) (wants haves : List Text) : CommitWalk (List Text) :=
  collectFrom (collectTreeRecords records haves fuel) haves fuel wants []

end Walks

section Alike

variable {Result Shown : Type}

/-- The same end, where only a part of the result is shown. -/
def EndsAs (shown : Result → Shown)
    (left right : Option (Except CommitTextError Result)) : Prop :=
  left.map (Except.map shown) = right.map (Except.map shown)

abbrev WalksAlike (shown : Result → Shown) (left right : CommitWalk Result) :
    Prop :=
  Asking.Alike SameAnswer (EndsAs shown) left right

theorem askCommit_alike {shown : Result → Shown} (sha : Text)
    {next following : Option ReadCommit → CommitWalk Result}
    (alike : ∀ left right : Option ReadCommit,
      left.map ReadCommit.withoutZones = right.map ReadCommit.withoutZones →
        WalksAlike shown (next left) (following right)) :
    WalksAlike shown (askCommit sha next) (askCommit sha following) := by
  apply Asking.Alike.ask
  intro left right same
  cases left with
  | error error =>
      cases right with
      | error other =>
          cases same
          exact .done rfl
      | ok commit => cases same
  | ok commit =>
      cases right with
      | error other => cases same
      | ok other => exact alike commit other (Except.ok.inj same)

theorem fields_same {commit other : ReadCommit}
    (same : (some commit).map ReadCommit.withoutZones =
      (some other).map ReadCommit.withoutZones) :
    commit.withoutZones = other.withoutZones ∧ commit.tree = other.tree ∧
      commit.parents = other.parents := by
  have fields : commit.withoutZones = other.withoutZones :=
    Option.some.inj same
  have tree := congrArg ReadCommit.tree fields
  have parents := congrArg ReadCommit.parents fields
  exact ⟨fields, tree, parents⟩

theorem parentsOf_same {left right : Option ReadCommit}
    (same : left.map ReadCommit.withoutZones =
      right.map ReadCommit.withoutZones) : parentsOf left = parentsOf right := by
  cases left with
  | none =>
      cases right with
      | none => rfl
      | some other => cases same
  | some commit =>
      cases right with
      | none => cases same
      | some other => exact (fields_same same).2.2

theorem isAncestorFrom_alike (ancestorSha : Text) (fuel : Nat)
    (queue visited : List Text) :
    WalksAlike id (isAncestorFrom ancestorSha fuel queue visited)
      (isAncestorFrom ancestorSha fuel queue visited) := by
  induction fuel generalizing queue visited with
  | zero => exact .done rfl
  | succ fuel induction =>
      cases queue with
      | nil => exact .done rfl
      | cons sha queue =>
          rw [isAncestorFrom]
          by_cases seen : sha ∈ visited
          · rw [if_pos seen]
            exact induction queue visited
          · rw [if_neg seen]
            by_cases found : sha = ancestorSha
            · rw [if_pos found]
              exact .done rfl
            · rw [if_neg found]
              apply askCommit_alike
              intro left right same
              rw [parentsOf_same same]
              exact induction _ _

theorem firstCommonFrom_alike (ancestors1 : List Text) (fuel : Nat)
    (queue visited : List Text) :
    WalksAlike id (firstCommonFrom ancestors1 fuel queue visited)
      (firstCommonFrom ancestors1 fuel queue visited) := by
  induction fuel generalizing queue visited with
  | zero => exact .done rfl
  | succ fuel induction =>
      cases queue with
      | nil => exact .done rfl
      | cons sha queue =>
          rw [firstCommonFrom]
          by_cases seen : sha ∈ visited
          · rw [if_pos seen]
            exact induction queue visited
          · rw [if_neg seen]
            by_cases found : sha ∈ ancestors1
            · rw [if_pos found]
              exact .done rfl
            · rw [if_neg found]
              apply askCommit_alike
              intro left right same
              rw [parentsOf_same same]
              exact induction _ _

theorem mergeBaseFrom_alike (sha2 : Text) (secondFuel fuel : Nat)
    (queue ancestors1 : List Text) :
    WalksAlike id (mergeBaseFrom sha2 secondFuel fuel queue ancestors1)
      (mergeBaseFrom sha2 secondFuel fuel queue ancestors1) := by
  induction fuel generalizing queue ancestors1 with
  | zero => exact .done rfl
  | succ fuel induction =>
      cases queue with
      | nil => exact firstCommonFrom_alike ancestors1 secondFuel [sha2] []
      | cons sha queue =>
          rw [mergeBaseFrom]
          by_cases seen : sha ∈ ancestors1
          · rw [if_pos seen]
            exact induction queue ancestors1
          · rw [if_neg seen]
            apply askCommit_alike
            intro left right same
            rw [parentsOf_same same]
            exact induction _ _

theorem collectFrom_alike
    (collectTree : Text → List Text → Option (List Text)) (haves : List Text)
    (fuel : Nat) (commitQueue seen : List Text) :
    WalksAlike id (collectFrom collectTree haves fuel commitQueue seen)
      (collectFrom collectTree haves fuel commitQueue seen) := by
  induction fuel generalizing commitQueue seen with
  | zero => exact .done rfl
  | succ fuel induction =>
      cases commitQueue with
      | nil => exact .done rfl
      | cons sha commitQueue =>
          rw [collectFrom]
          by_cases known : sha ∈ seen ∨ sha ∈ haves
          · rw [if_pos known]
            exact induction commitQueue seen
          · rw [if_neg known]
            apply askCommit_alike
            intro left right same
            cases left with
            | none =>
                cases right with
                | none => exact induction _ _
                | some other => cases same
            | some commit =>
                cases right with
                | none => cases same
                | some other =>
                    obtain ⟨_, tree, parents⟩ := fields_same same
                    dsimp only
                    rw [collectTreeOf, collectTreeOf, tree, parents]
                    split
                    · exact .done rfl
                    · exact induction _ _

theorem commitLogFrom_alike (limit fuel : Nat) (cursorSha : Option Text)
    (visited : List Text) (commitList others : List ReadCommit)
    (listed : commitList.map ReadCommit.withoutZones =
      others.map ReadCommit.withoutZones) :
    WalksAlike (List.map ReadCommit.withoutZones)
      (commitLogFrom limit fuel cursorSha visited commitList)
      (commitLogFrom limit fuel cursorSha visited others) := by
  have ends : EndsAs (List.map ReadCommit.withoutZones)
      (some (.ok commitList)) (some (.ok others)) :=
    congrArg (some ∘ Except.ok) listed
  have length : commitList.length = others.length := by
    have lengths := congrArg List.length listed
    rw [List.length_map, List.length_map] at lengths
    exact lengths
  induction fuel generalizing cursorSha visited commitList others with
  | zero => exact .done rfl
  | succ fuel induction =>
      cases cursorSha with
      | none => exact .done ends
      | some sha =>
          rw [commitLogFrom, commitLogFrom, length]
          by_cases further : others.length < limit ∧ sha ∉ visited
          · rw [if_pos further, if_pos further]
            apply askCommit_alike
            intro left right same
            cases left with
            | none =>
                cases right with
                | none => exact .done ends
                | some other => cases same
            | some commit =>
                cases right with
                | none => cases same
                | some other =>
                    obtain ⟨fields, _, parents⟩ := fields_same same
                    have more : (commitList ++ [commit]).map
                        ReadCommit.withoutZones =
                          (others ++ [other]).map ReadCommit.withoutZones := by
                      rw [List.map_append, List.map_append, listed,
                        List.map_singleton, List.map_singleton, fields]
                    dsimp only
                    rw [parents]
                    apply induction _ _ _ _ more
                    · exact congrArg (some ∘ Except.ok) more
                    · rw [List.length_append, List.length_append, length]
                      rfl
          · rw [if_neg further, if_neg further]
            exact .done ends

end Alike

end Takos.Git
