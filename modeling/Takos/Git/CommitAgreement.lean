import Takos.Git.CommitRows

/-!
# Rows agree with objects

Every row that is reached repeats the commit of its object, as long as the
commits written here are ones that their text can hold.  A commit read from its
row is the commit of the object with both zones replaced, so the walks give the
same results whichever commits have a row.
-/

namespace Takos.Git

open Takos.Foundation
open Takos.Sync (parseParentIds storedParentIds parseParentIds_stored)

namespace CommitRecords

variable {Number : Type} {codec : JsonCodec Number} {ids : RecordIds}
  {records : CommitRecords ids} {repoId sha : Text} {commit : ReadCommit}
  {row : CommitIndexRow}

theorem sigTimestampToDate_some {timestamp : Option Int} {date : Int}
    (dated : sigTimestampToDate timestamp = some date) :
    timestamp = some (date / 1000) ∧ (date / 1000).natAbs ≤ 8640000000000 := by
  cases timestamp with
  | none => cases dated
  | some seconds =>
      rw [sigTimestampToDate] at dated
      split at dated
      · rename_i inRange
        cases dated
        rw [Int.mul_ediv_cancel _ (by decide)]
        exact ⟨rfl, inRange⟩
      · cases dated

theorem indexRow_some (written : indexRow codec repoId commit = some row) :
    ∃ authorDate commitDate,
      sigTimestampToDate commit.author.timestamp = some authorDate ∧
      sigTimestampToDate commit.committer.timestamp = some commitDate ∧
      row =
        { repoId := repoId
          sha := commit.sha
          treeSha := commit.tree
          parentShas := if commit.parents = [] then none
            else some (storedParentIds codec commit.parents)
          message := commit.message
          authorName := commit.author.name
          authorEmail := commit.author.email
          authorDate := authorDate
          committerName := commit.committer.name
          committerEmail := commit.committer.email
          commitDate := commitDate } := by
  rw [indexRow] at written
  cases author : sigTimestampToDate commit.author.timestamp with
  | none =>
      rw [author] at written
      cases written
  | some authorDate =>
      cases committer : sigTimestampToDate commit.committer.timestamp with
      | none =>
          rw [author, committer] at written
          cases written
      | some commitDate =>
          rw [author, committer] at written
          exact ⟨authorDate, commitDate, rfl, rfl,
            (Option.some.inj written).symm⟩

theorem indexRow_repoId (written : indexRow codec repoId commit = some row) :
    row.repoId = repoId := by
  obtain ⟨_, _, _, _, rfl⟩ := indexRow_some written
  rfl

theorem indexRow_sha (written : indexRow codec repoId commit = some row) :
    row.sha = commit.sha := by
  obtain ⟨_, _, _, _, rfl⟩ := indexRow_some written
  rfl

theorem parseParentIds_written (parents : List Text) :
    parseParentIds codec (if parents = [] then none
      else some (storedParentIds codec parents)) = parents := by
  by_cases empty : parents = []
  · rw [if_pos empty, empty]
    rfl
  · rw [if_neg empty]
    exact parseParentIds_stored codec parents

theorem indexedToCommit_indexRow
    (written : indexRow codec repoId commit = some row) :
    indexedToCommit codec row = commit.withoutZones := by
  obtain ⟨authorDate, commitDate, author, committer, rfl⟩ :=
    indexRow_some written
  have authorTime := (sigTimestampToDate_some author).1
  have committerTime := (sigTimestampToDate_some committer).1
  rw [indexedToCommit, parseParentIds_written, ← authorTime, ← committerTime]
  rfl

variable {object : RecordObject}

theorem getCommitData_object (found : records.getObject sha = some object)
    (type : object.type = .commit) :
    records.getCommitData sha =
      (decodeCommit object.content).map fun commit =>
        some { commit with sha := sha } := by
  rw [getCommitData, found]
  exact if_pos type

theorem object_of_getCommitData
    (read : records.getCommitData sha = .ok (some commit)) :
    ∃ content, records.getObject sha = some ⟨.commit, content⟩ ∧
      (decodeCommit content).map (fun commit =>
        { commit with sha := sha }) = .ok commit := by
  rw [getCommitData] at read
  cases found : records.getObject sha with
  | none =>
      rw [found] at read
      cases read
  | some object =>
      obtain ⟨type, content⟩ := object
      rw [found] at read
      by_cases isCommit : type = .commit
      · subst isCommit
        have decoded := (if_pos rfl).symm.trans read
        refine ⟨content, rfl, ?_⟩
        cases result : decodeCommit content with
        | error error =>
            rw [result] at decoded
            cases decoded
        | ok inner =>
            rw [result] at decoded
            cases decoded
            rfl
      · have refused := (if_neg isCommit).symm.trans read
        cases refused

theorem sha_of_getCommitData
    (read : records.getCommitData sha = .ok (some commit)) :
    commit.sha = sha := by
  obtain ⟨content, _, decoded⟩ := object_of_getCommitData read
  cases result : decodeCommit content with
  | error error =>
      rw [result] at decoded
      cases decoded
  | ok inner =>
      rw [result] at decoded
      cases decoded
      rfl

theorem mem_of_lookup {sha : Text} {objects : List (Text × RecordObject)}
    (found : objects.lookup sha = some object) : (sha, object) ∈ objects := by
  induction objects with
  | nil => cases found
  | cons entry rest induction =>
      obtain ⟨key, value⟩ := entry
      by_cases same : sha = key
      · rw [same, List.lookup_cons_self] at found
        rw [same, Option.some.inj found]
        exact .head _
      · have different : (sha == key) = false := beq_false_of_ne same
        rw [List.lookup_cons, different] at found
        exact .tail _ (induction found)

theorem hash_of_getObject (found : records.getObject sha = some object) :
    ids.hashObject object.type object.content = sha := by
  rw [getObject] at found
  split at found
  · exact records.addressed _ (mem_of_lookup found)
  · cases found

theorem getObject_putObject_old {object stored : RecordObject}
    (found : records.getObject sha = some stored) :
    (records.putObject object).getObject sha = some stored := by
  rw [putObject]
  split
  · exact found
  · rename_i free
    rw [getObject] at found ⊢
    split at found
    · rename_i valid
      have different : sha ≠ ids.hashObject object.type object.content := by
        intro same
        rw [same, free] at found
        cases found
      rw [if_pos valid]
      change List.lookup sha ((_, object) :: records.objects) = some stored
      rw [List.lookup_cons, beq_false_of_ne different]
      exact found
    · cases found

theorem getObject_putObject (records : CommitRecords ids)
    (object : RecordObject) :
    (records.putObject object).getObject
        (ids.hashObject object.type object.content) = some object := by
  have valid := ids.hash_valid object.type object.content
  rw [putObject]
  split
  · rename_i stored found
    have same := ids.hash_injective (records.addressed _ (mem_of_lookup found))
    rw [getObject, if_pos valid, found]
    obtain ⟨type, content⟩ := stored
    rw [show type = object.type from same.1,
      show content = object.content from same.2]
  · rw [getObject, if_pos valid]
    exact List.lookup_cons_self

theorem getCommitData_putObject_old
    (read : records.getCommitData sha = .ok (some commit)) :
    (records.putObject object).getCommitData sha = .ok (some commit) := by
  obtain ⟨content, found, decoded⟩ := object_of_getCommitData read
  have before := getCommitData_object found rfl
  have kept : (records.putObject object).getObject sha =
      some ⟨.commit, content⟩ := getObject_putObject_old found
  rw [getCommitData_object kept rfl, ← before]
  exact read

theorem indexRow_dated {params : CommitContent Text}
    (written : indexRow codec repoId (createdCommit ids params) = some row) :
    params.author.timestamp.natAbs < 2 ^ 53 ∧
      params.committer.timestamp.natAbs < 2 ^ 53 := by
  obtain ⟨authorDate, commitDate, author, committer, _⟩ := indexRow_some written
  obtain ⟨authorTime, authorRange⟩ := sigTimestampToDate_some author
  obtain ⟨committerTime, committerRange⟩ := sigTimestampToDate_some committer
  have first : params.author.timestamp = authorDate / 1000 :=
    Option.some.inj authorTime
  have second : params.committer.timestamp = commitDate / 1000 :=
    Option.some.inj committerTime
  rw [first, second]
  constructor
  · omega
  · omega

theorem decodeCommit_representable {params : CommitContent Text}
    (representable : Representable params)
    (author : params.author.timestamp.natAbs < 2 ^ 53)
    (committer : params.committer.timestamp.natAbs < 2 ^ 53) :
    decodeCommit (encodeCommitContent params) = .ok (asRead params) := by
  obtain ⟨headers, present, authorPlain, committerPlain⟩ := representable
  rw [decodeCommit_oneLine headers
    ((parseSignature_signatureText author).mpr authorPlain)
    ((parseSignature_signatureText committer).mpr committerPlain)]
  exact if_neg present

theorem getCommitData_created {params : CommitContent Text}
    (representable : Representable params)
    (written : indexRow codec repoId (createdCommit ids params) = some row) :
    (records.putObject (commitObject params)).getCommitData
        (commitSha ids params) = .ok (some (createdCommit ids params)) := by
  obtain ⟨author, committer⟩ := indexRow_dated written
  have found : (records.putObject (commitObject params)).getObject
      (commitSha ids params) = some (commitObject params) :=
    getObject_putObject records (commitObject params)
  rw [getCommitData_object found rfl]
  change Except.map _ (decodeCommit (encodeCommitContent params)) = _
  rw [decodeCommit_representable representable author committer]
  rfl

def Sound (codec : JsonCodec Number) (records : CommitRecords ids) : Prop :=
  ∀ row ∈ records.rows, ∃ commit,
    records.getCommitData row.sha = .ok (some commit) ∧
      indexRow codec row.repoId commit = some row

theorem Sound.put (sound : Sound codec records) (object : RecordObject) :
    Sound codec (records.putObject object) := by
  intro row member
  have rows : (records.putObject object).rows = records.rows := by
    rw [putObject]
    split <;> rfl
  rw [rows] at member
  obtain ⟨commit, read, written⟩ := sound row member
  exact ⟨commit, getCommitData_putObject_old read, written⟩

theorem Sound.insert (sound : Sound codec records)
    (read : records.getCommitData sha = .ok (some commit))
    (written : indexRow codec repoId commit = some row) :
    Sound codec (records.insertRow row) := by
  intro other member
  rcases List.mem_append.mp member with older | new
  · exact sound other older
  · rw [List.mem_singleton.mp new]
    refine ⟨commit, ?_, ?_⟩
    · rw [indexRow_sha written, sha_of_getCommitData read]
      exact read
    · rw [indexRow_repoId written]
      exact written

theorem Sound.step {after : CommitRecords ids} (sound : Sound codec records)
    (moved : Step codec Representable records after) : Sound codec after := by
  cases moved with
  | put object => exact sound.put object
  | indexCommit read _ written => exact sound.insert read written
  | createCommit representable _ written =>
      exact (sound.put _).insert (getCommitData_created representable written)
        written

theorem Reachable.sound (reachable : Reachable codec Representable records) :
    Sound codec records := by
  induction reachable with
  | initial => nofun
  | step _ moved induction => exact induction.step moved

def withRows (records : CommitRecords ids) (rows : List CommitIndexRow) :
    CommitRecords ids :=
  { records with rows := rows }

theorem Sound.fewer (sound : Sound codec records) {rows : List CommitIndexRow}
    (fewer : rows ⊆ records.rows) : Sound codec (records.withRows rows) :=
  fun row member => sound row (fewer member)

theorem findRow_some (found : records.findRow repoId sha = some row) :
    row ∈ records.rows ∧ row.repoId = repoId ∧ row.sha = sha := by
  have matched := List.find?_some found
  simp only [Bool.and_eq_true, decide_eq_true_eq] at matched
  exact ⟨List.mem_of_find?_eq_some found, matched⟩

theorem getCommit_row (sound : Sound codec records)
    (found : records.findRow repoId sha = some row) :
    ∃ commit, records.getCommitData sha = .ok (some commit) ∧
      indexRow codec repoId commit = some row ∧
      records.getCommit codec repoId sha = .ok (some commit.withoutZones) := by
  obtain ⟨member, rfl, rfl⟩ := findRow_some found
  obtain ⟨commit, read, written⟩ := sound row member
  refine ⟨commit, read, written, ?_⟩
  rw [getCommit, getCommitFromIndex, found, Option.map_some,
    indexedToCommit_indexRow written]

theorem getCommit_object (absent : records.findRow repoId sha = none) :
    records.getCommit codec repoId sha = records.getCommitData sha := by
  rw [getCommit, getCommitFromIndex, absent, Option.map_none]
  by_cases valid : ids.isValidSha sha = true
  · exact if_pos valid
  · rw [getCommitData, getObject, if_neg valid, if_neg valid]

theorem withoutZones_idem (commit : ReadCommit) :
    commit.withoutZones.withoutZones = commit.withoutZones := rfl

theorem getCommit_same (sound : Sound codec records) (repoId sha : Text) :
    SameAnswer (records.getCommit codec repoId sha)
      (records.getCommitData sha) := by
  cases found : records.findRow repoId sha with
  | none =>
      rw [getCommit_object found]
      exact rfl
  | some row =>
      obtain ⟨commit, read, _, answer⟩ := getCommit_row sound found
      rw [answer, read]
      exact congrArg (Except.ok ∘ some) (withoutZones_idem commit)

theorem eq_of_endsAs {Result : Type}
    {left right : Option (Except CommitTextError Result)}
    (ends : EndsAs id left right) : left = right := by
  have same : ∀ result : Except CommitTextError Result,
      result.map id = result := by
    intro result
    cases result <;> rfl
  cases left with
  | none =>
      cases right with
      | none => rfl
      | some other => cases ends
  | some result =>
      cases right with
      | none => cases ends
      | some other =>
          have equal : result.map id = other.map id := Option.some.inj ends
          rw [same, same] at equal
          rw [equal]

theorem collectTreeRecords_withRows (records : CommitRecords ids)
    (rows : List CommitIndexRow) (haves : List Text) (fuel : Nat) :
    collectTreeRecords (records.withRows rows) haves fuel =
      collectTreeRecords records haves fuel := by
  induction fuel with
  | zero => rfl
  | succ fuel induction =>
      funext treeSha seen
      rw [collectTreeRecords, collectTreeRecords, induction]
      rfl

/-- The walks end the same in both stores; the commits of a log may differ in
their zones. -/
structure SameWalks (codec : JsonCodec Number) (repoId : Text)
    (first second : CommitRecords ids) : Prop where
  isAncestor : ∀ fuel ancestorSha descendantSha,
    (isAncestorWalk fuel ancestorSha descendantSha).answered
        (first.getCommit codec repoId) =
      (isAncestorWalk fuel ancestorSha descendantSha).answered
        (second.getCommit codec repoId)
  findMergeBase : ∀ fuel sha1 sha2,
    (findMergeBaseWalk fuel sha1 sha2).answered
        (first.getCommit codec repoId) =
      (findMergeBaseWalk fuel sha1 sha2).answered
        (second.getCommit codec repoId)
  getCommitLog : ∀ fuel startSha limit,
    EndsAs (List.map ReadCommit.withoutZones)
      ((getCommitLogWalk fuel startSha limit).answered
        (first.getCommit codec repoId))
      ((getCommitLogWalk fuel startSha limit).answered
        (second.getCommit codec repoId))
  collectReachableObjects : ∀ fuel wants haves,
    (collectReachableObjectsWalk first fuel wants haves).answered
        (first.getCommit codec repoId) =
      (collectReachableObjectsWalk second fuel wants haves).answered
        (second.getCommit codec repoId)

theorem Sound.sameWalks (sound : Sound codec records)
    {rows : List CommitIndexRow} (fewer : rows ⊆ records.rows)
    (repoId : Text) :
    SameWalks codec repoId records (records.withRows rows) := by
  have same : ∀ sha, SameAnswer (records.getCommit codec repoId sha)
      ((records.withRows rows).getCommit codec repoId sha) := by
    intro sha
    have left := getCommit_same sound repoId sha
    have right := getCommit_same (sound.fewer fewer) repoId sha
    exact left.trans right.symm
  constructor
  · intro fuel ancestorSha descendantSha
    apply eq_of_endsAs
    apply Asking.Alike.answered _ same
    rw [isAncestorWalk]
    split
    · exact .done rfl
    · exact isAncestorFrom_alike _ _ _ _
  · intro fuel sha1 sha2
    apply eq_of_endsAs
    exact Asking.Alike.answered (mergeBaseFrom_alike _ _ _ _ _) same
  · intro fuel startSha limit
    apply Asking.Alike.answered _ same
    rw [getCommitLogWalk]
    split
    · exact .done rfl
    · exact commitLogFrom_alike _ _ _ _ _ _ rfl
  · intro fuel wants haves
    rw [collectReachableObjectsWalk, collectReachableObjectsWalk,
      collectTreeRecords_withRows]
    apply eq_of_endsAs
    exact Asking.Alike.answered (collectFrom_alike _ _ _ _ _) same

/-- The signature to write; a time that is no number has none. -/
def signatureOf (sig : ReadSignature) : Option GitSignature :=
  sig.timestamp.map fun timestamp =>
    { name := sig.name, email := sig.email, timestamp := timestamp
      tzOffset := sig.tzOffset }

def contentOf (commit : ReadCommit) : Option (CommitContent Text) :=
  match signatureOf commit.author, signatureOf commit.committer with
  | some author, some committer =>
    some
      { tree := commit.tree, parents := commit.parents, author := author
        committer := committer, message := commit.message }
  | _, _ => none

def zoned (params : CommitContent Text) : CommitContent Text :=
  { params with
    author := { params.author with tzOffset := zone }
    committer := { params.committer with tzOffset := zone } }

theorem commitSha_again (sound : Sound codec records)
    (found : records.findRow repoId sha = some row) :
    ∃ content written,
      contentOf (indexedToCommit codec row) = some content ∧
      records.getObject sha = some ⟨.commit, written⟩ ∧
      (commitSha ids content = sha ↔ written = encodeCommitContent content) := by
  obtain ⟨content, readable⟩ :
      ∃ content, contentOf (indexedToCommit codec row) = some content :=
    ⟨_, rfl⟩
  obtain ⟨commit, read, _, _⟩ := getCommit_row sound found
  obtain ⟨written, stored, _⟩ := object_of_getCommitData read
  refine ⟨content, written, readable, stored, ?_⟩
  have key : ids.hashObject .commit written = sha := hash_of_getObject stored
  rw [commitSha, ← key]
  constructor
  · intro same
    exact (ids.hash_injective same).2.symm
  · intro same
    rw [same]

theorem delimited_zone {sig : GitSignature} (delimited : sig.Delimited) :
    GitSignature.Delimited { sig with tzOffset := zone } := by
  have present : zone ≠ [] := by decide
  have word : ' ' ∉ zone := by decide
  have plain : '>' ∉ zone := by decide
  have trimmed : Text.trimEnd zone = zone := by decide
  exact ⟨delimited.name_trimmed, delimited.email_plain, present, word, plain,
    trimmed⟩

theorem zoned_self {params : CommitContent Text}
    (author : params.author.tzOffset = zone)
    (committer : params.committer.tzOffset = zone) : zoned params = params := by
  obtain ⟨tree, parents, ⟨_, _, _, authorZone⟩, ⟨_, _, _, committerZone⟩,
    message⟩ := params
  change authorZone = zone at author
  change committerZone = zone at committer
  rw [author, committer]
  rfl

theorem representable_zoned {params : CommitContent Text}
    (representable : Representable params) : Representable (zoned params) := by
  have plain : '\n' ∉ zone := by decide
  obtain ⟨headers, present, author, committer⟩ := representable
  refine ⟨⟨headers.tree_line, headers.parents_line, ?_, ?_⟩, present, ?_, ?_⟩
  · exact ⟨headers.author_line.name_line, headers.author_line.email_line, plain⟩
  · exact ⟨headers.committer_line.name_line, headers.committer_line.email_line,
      plain⟩
  · exact delimited_zone author
  · exact delimited_zone committer

theorem encodeCommitContent_injective {params other : CommitContent Text}
    (representable : Representable params) (also : Representable other)
    (dated : hasIsoDate params.author = true ∧
      hasIsoDate params.committer = true)
    (alsoDated : hasIsoDate other.author = true ∧
      hasIsoDate other.committer = true)
    (same : encodeCommitContent params = encodeCommitContent other) :
    asRead params = asRead other := by
  have first := decodeCommit_representable representable
    (timestamp_small dated.1) (timestamp_small dated.2)
  have second := decodeCommit_representable also
    (timestamp_small alsoDated.1) (timestamp_small alsoDated.2)
  rw [same] at first
  exact Except.ok.inj (first.symm.trans second)

/-- A commit written here keeps its id exactly if its zones are the ones that
reading gives it. -/
theorem commitSha_created (sound : Sound codec records)
    {params : CommitContent Text} (representable : Representable params)
    (dated : hasIsoDate params.author = true ∧
      hasIsoDate params.committer = true)
    (found : records.findRow repoId (commitSha ids params) = some row) :
    contentOf (indexedToCommit codec row) = some (zoned params) ∧
      (commitSha ids (zoned params) = commitSha ids params ↔
        params.author.tzOffset = zone ∧ params.committer.tzOffset = zone) := by
  obtain ⟨commit, read, written, _⟩ := getCommit_row sound found
  obtain ⟨content, stored, decoded⟩ := object_of_getCommitData read
  have text : content = encodeCommitContent params :=
    (ids.hash_injective (hash_of_getObject stored)).2
  have created : commit = createdCommit ids params := by
    rw [text, decodeCommit_representable representable
      (timestamp_small dated.1) (timestamp_small dated.2)] at decoded
    exact (Except.ok.inj decoded).symm
  constructor
  · rw [indexedToCommit_indexRow written, created]
    rfl
  · constructor
    · intro same
      have texts := (ids.hash_injective same).2
      have equal := encodeCommitContent_injective
        (representable_zoned representable) representable dated dated texts
      have author := congrArg (fun read => read.author.tzOffset) equal
      have committer := congrArg (fun read => read.committer.tzOffset) equal
      exact ⟨author.symm, committer.symm⟩
    · rintro ⟨author, committer⟩
      rw [zoned_self author committer]

/-- In every state reached a commit reads the same from its row as from its
object but for the zones, the walks give the same results with fewer rows, and
a commit read from its row keeps its id where its text does not change. -/
theorem rows_agree (reachable : Reachable codec Representable records)
    (repoId : Text) :
    (∀ sha row, records.findRow repoId sha = some row →
      ∃ commit, records.getCommitData sha = .ok (some commit) ∧
        records.getCommit codec repoId sha =
          .ok (some commit.withoutZones)) ∧
    (∀ sha, records.findRow repoId sha = none →
      records.getCommit codec repoId sha = records.getCommitData sha) ∧
    (∀ rows ⊆ records.rows,
      SameWalks codec repoId records (records.withRows rows)) ∧
    (∀ sha row, records.findRow repoId sha = some row →
      ∃ content written,
        contentOf (indexedToCommit codec row) = some content ∧
        records.getObject sha = some ⟨.commit, written⟩ ∧
        (commitSha ids content = sha ↔
          written = encodeCommitContent content)) ∧
    ∀ params row, Representable params →
      hasIsoDate params.author = true ∧ hasIsoDate params.committer = true →
      records.findRow repoId (commitSha ids params) = some row →
      contentOf (indexedToCommit codec row) = some (zoned params) ∧
        (commitSha ids (zoned params) = commitSha ids params ↔
          params.author.tzOffset = zone ∧ params.committer.tzOffset = zone) := by
  have sound := reachable.sound
  refine ⟨?_, fun sha absent => getCommit_object absent,
    fun rows fewer => sound.sameWalks fewer repoId, ?_, ?_⟩
  · intro sha row found
    obtain ⟨commit, read, _, answer⟩ := getCommit_row sound found
    exact ⟨commit, read, answer⟩
  · intro sha row found
    exact commitSha_again sound found
  · intro params row representable dated found
    exact commitSha_created sound representable dated found

section OneCommit

def typeLetter : GitObjectType → Char
  | .blob => 'b'
  | .tree => 't'
  | .commit => 'c'
  | .tag => 'g'

def spelledIds : RecordIds where
  hashObject type content :=
    typeLetter type :: content.map fun byte => Char.ofNat byte.toNat
  hash_injective := by
    intro type other content more same
    obtain ⟨letters, bytes⟩ := List.cons.inj same
    constructor
    · revert letters
      cases type <;> cases other <;> decide
    · apply List.map_injective_iff.mpr _ bytes
      intro left right equal
      have code : ∀ n < 256, (Char.ofNat n).toNat = n := by decide +kernel
      have codes := congrArg Char.toNat equal
      rw [code _ left.toNat_lt, code _ right.toNat_lt] at codes
      exact UInt8.toNat_inj.mp codes
  isValidSha _ := true
  hash_valid _ _ := rfl

def rootParams (tzOffset : Text) : CommitContent Text where
  tree := ['t']
  parents := []
  author := ⟨['A'], ['e'], 5, tzOffset⟩
  committer := ⟨['A'], ['e'], 5, tzOffset⟩
  message := ['m']

theorem rootParams_representable {tzOffset : Text} (line : '\n' ∉ tzOffset)
    (present : tzOffset ≠ []) (word : ' ' ∉ tzOffset) (plain : '>' ∉ tzOffset)
    (trimmed : Text.trimEnd tzOffset = tzOffset) :
    Representable (rootParams tzOffset) := by
  have name : '\n' ∉ (['A'] : Text) := by decide
  have email : '\n' ∉ (['e'] : Text) := by decide
  have tree : '\n' ∉ (['t'] : Text) := by decide
  have trimmedName : Text.trim ['A'] = ['A'] := by decide
  have plainEmail : '<' ∉ (['e'] : Text) := by decide
  exact ⟨⟨tree, nofun, ⟨name, email, line⟩, ⟨name, email, line⟩⟩,
    List.cons_ne_nil _ _,
    ⟨trimmedName, plainEmail, present, word, plain, trimmed⟩,
    ⟨trimmedName, plainEmail, present, word, plain, trimmed⟩⟩

def oneCommit (params : CommitContent Text) (row : CommitIndexRow) :
    CommitRecords spelledIds :=
  ((⟨[], by simp, []⟩ : CommitRecords spelledIds).putObject
    (commitObject params)).insertRow row

variable {params : CommitContent Text}

theorem oneCommit_reached {allowed : CommitContent Text → Prop}
    (isAllowed : allowed params)
    (written : indexRow codec ['r'] (createdCommit spelledIds params) =
      some row) :
    Reachable codec allowed (oneCommit params row) ∧
      (oneCommit params row).findRow ['r'] (commitSha spelledIds params) =
        some row := by
  constructor
  · exact .step .initial (.createCommit isAllowed rfl written)
  · have repo : row.repoId = ['r'] := indexRow_repoId written
    have sha : row.sha = commitSha spelledIds params := indexRow_sha written
    have rows : (oneCommit params row).rows = [row] := rfl
    rw [findRow, rows]
    apply List.find?_cons_of_pos
    rw [repo, sha, decide_eq_true rfl, decide_eq_true rfl]
    rfl

/-- An author whose name ends with a blank. -/
def blankParams : CommitContent Text :=
  { rootParams zone with author := ⟨['A', ' '], ['e'], 5, zone⟩ }

theorem decodeCommit_blankParams :
    (decodeCommit (encodeCommitContent blankParams)).map
      (fun commit => commit.author.name) = .ok ['A'] := by
  unfold decodeCommit
  rw [decodeText_encodeCommitContent]
  decide +kernel

theorem oneCommit_data (representable : Representable params)
    (written : indexRow codec ['r'] (createdCommit spelledIds params) =
      some row) :
    (oneCommit params row).getCommitData (commitSha spelledIds params) =
      .ok (some (createdCommit spelledIds params)) :=
  getCommitData_created representable written

/-- With the zone of the index a commit agrees in everything. -/
theorem zone_kept :
    ∃ (records : CommitRecords spelledIds) (row : CommitIndexRow),
      records.findRow ['r'] (commitSha spelledIds (rootParams zone)) =
        some row ∧
      records.getCommit NumberFormat.natural.codec ['r']
          (commitSha spelledIds (rootParams zone)) =
        records.getCommitData (commitSha spelledIds (rootParams zone)) ∧
      SameWalks NumberFormat.natural.codec ['r'] records
        (records.withRows []) ∧
      (∃ written,
        records.getObject (commitSha spelledIds (rootParams zone)) =
          some ⟨.commit, written⟩) ∧
      contentOf (indexedToCommit NumberFormat.natural.codec row) =
        some (rootParams zone) := by
  have representable : Representable (rootParams zone) :=
    rootParams_representable (by decide) (by decide) (by decide) (by decide)
      (by decide)
  obtain ⟨row, written⟩ : ∃ row, indexRow NumberFormat.natural.codec ['r']
      (createdCommit spelledIds (rootParams zone)) = some row := ⟨_, rfl⟩
  obtain ⟨reachable, found⟩ := oneCommit_reached representable written
  obtain ⟨indexed, _, walks, again, created⟩ := rows_agree reachable ['r']
  obtain ⟨commit, read, answer⟩ := indexed _ row found
  obtain ⟨content, bytes, readable, stored, _⟩ := again _ row found
  have fields := (created (rootParams zone) row representable ⟨rfl, rfl⟩
    found).1
  refine ⟨_, row, found, ?_, walks [] (List.nil_subset _), ⟨bytes, stored⟩,
    fields⟩
  have data := oneCommit_data representable written
  have same : commit = createdCommit spelledIds (rootParams zone) :=
    Option.some.inj (Except.ok.inj (read.symm.trans data))
  rw [answer, data, same]
  rfl

/-- The zone `+0900` is lost, and with it the id; and a name that ends with a
blank is trimmed where the object is read and not where the row is. -/
theorem zone_lost :
    (∃ (records : CommitRecords spelledIds) (row : CommitIndexRow) (sha : Text),
      Reachable NumberFormat.natural.codec Representable records ∧
      records.findRow ['r'] sha = some row ∧
      records.getCommit NumberFormat.natural.codec ['r'] sha ≠
        records.getCommitData sha ∧
      ∀ content, contentOf (indexedToCommit NumberFormat.natural.codec row) =
        some content → commitSha spelledIds content ≠ sha) ∧
    ∃ (records : CommitRecords spelledIds) (sha : Text)
      (fromRow fromObject : ReadCommit),
      Reachable NumberFormat.natural.codec (fun _ => True) records ∧
      records.getCommit NumberFormat.natural.codec ['r'] sha =
        .ok (some fromRow) ∧
      records.getCommitData sha = .ok (some fromObject) ∧
      fromRow.author.name ≠ fromObject.author.name := by
  constructor
  · have representable : Representable (rootParams ['+', '0', '9', '0', '0']) :=
      rootParams_representable (by decide) (by decide) (by decide) (by decide)
        (by decide)
    obtain ⟨row, written⟩ : ∃ row, indexRow NumberFormat.natural.codec ['r']
        (createdCommit spelledIds (rootParams ['+', '0', '9', '0', '0'])) =
          some row := ⟨_, rfl⟩
    obtain ⟨reachable, found⟩ := oneCommit_reached representable written
    have data := oneCommit_data representable written
    have created := commitSha_created reachable.sound representable ⟨rfl, rfl⟩
      found
    obtain ⟨commit, read, _, answer⟩ := getCommit_row reachable.sound found
    refine ⟨_, row, _, reachable, found, ?_, ?_⟩
    · have same : commit = createdCommit spelledIds
          (rootParams ['+', '0', '9', '0', '0']) :=
        Option.some.inj (Except.ok.inj (read.symm.trans data))
      rw [answer, data, same]
      intro equal
      have zones := congrArg (fun commit : ReadCommit => commit.author.tzOffset)
        (Option.some.inj (Except.ok.inj equal))
      exact absurd zones (by decide)
    · intro content readable same
      rw [created.1] at readable
      rw [← Option.some.inj readable] at same
      exact absurd (created.2.mp same).1 (by decide)
  · obtain ⟨row, written⟩ : ∃ row, indexRow NumberFormat.natural.codec ['r']
        (createdCommit spelledIds blankParams) = some row := ⟨_, rfl⟩
    have reached : Reachable NumberFormat.natural.codec (fun _ => True)
        (oneCommit blankParams row) ∧
          (oneCommit blankParams row).findRow ['r']
            (commitSha spelledIds blankParams) = some row :=
      oneCommit_reached trivial written
    obtain ⟨reachable, found⟩ := reached
    have stored : (oneCommit blankParams row).getObject
        (commitSha spelledIds blankParams) = some (commitObject blankParams) :=
      getObject_putObject _ (commitObject blankParams)
    have decoded := decodeCommit_blankParams
    cases result : decodeCommit (encodeCommitContent blankParams) with
    | error error =>
        rw [result] at decoded
        cases decoded
    | ok commit =>
        have name : commit.author.name = ['A'] := by
          rw [result] at decoded
          exact Except.ok.inj decoded
        refine ⟨oneCommit blankParams row, commitSha spelledIds blankParams,
          indexedToCommit NumberFormat.natural.codec row,
          { commit with sha := commitSha spelledIds blankParams }, reachable,
          ?_, ?_, ?_⟩
        · rw [getCommit, getCommitFromIndex, found]
          rfl
        · rw [getCommitData_object stored rfl]
          change Except.map _ (decodeCommit (encodeCommitContent blankParams)) =
            _
          rw [result]
          rfl
        · rw [indexedToCommit_indexRow written]
          change (['A', ' '] : Text) ≠ commit.author.name
          rw [name]
          decide

end OneCommit

end CommitRecords

end Takos.Git
