import Takos.Diffs.Blame
import Takos.Git.Objects

/-!
# Runs of blame

An answer attributes every line of the file to the commit whose diff inserted
it.  After 201 versions the collection stops with the flag `truncated`, and the
lines that are older belong to the oldest version collected.
-/

namespace Takos.Diffs

open Takos.Foundation Takos.Git

namespace TrackedFile

variable {Sha : Type} [DecidableEq Sha] {ids : ObjectIds Sha}
  {file : TrackedFile ids}

theorem collectChanges_collected {fuel : Nat} {commit : GitCommit Sha}
    {oid : Sha} {changes all : List (ChangeCommit Sha)} {truncated : Bool}
    (version : file.oidOf commit = some oid)
    (bound : changes.length ≤ GIT_BLAME_MAX_COMMITS)
    (ended : file.collectChanges fuel commit oid changes =
      some (.ok (all, truncated))) :
    ∃ later, all = changes ++ later ∧ file.Collected commit later truncated ∧
      (truncated = true → all.length = GIT_BLAME_MAX_COMMITS + 1) := by
  induction fuel generalizing commit oid changes with
  | zero => cases ended
  | succ fuel induction =>
      rw [collectChanges] at ended
      by_cases same : some oid = file.parentOidOf commit
      · have kept : file.keepVersion commit oid changes = .ok changes :=
          if_pos same
        obtain ⟨parent, above, earlier⟩ := Option.bind_eq_some_iff.mp same.symm
        rw [kept, above, ← same] at ended
        change (if GIT_BLAME_MAX_COMMITS < changes.length then _ else _) = _
          at ended
        rw [if_neg (not_lt.mpr bound)] at ended
        obtain ⟨later, split, collected, count⟩ :=
          induction earlier bound ended
        exact ⟨later, split, .unchanged version above earlier collected, count⟩
      · cases loaded : file.loadVersion oid with
        | error error =>
            have kept : file.keepVersion commit oid changes = .error error := by
              rw [keepVersion, if_neg same, loaded]
            rw [kept] at ended
            cases ended
        | ok lines =>
            obtain ⟨more, appended⟩ : ∃ more, more =
                changes ++ [(⟨commit, lines⟩ : ChangeCommit Sha)] := ⟨_, rfl⟩
            have size : more.length = changes.length + 1 := by
              rw [appended]
              exact List.length_append
            have kept : file.keepVersion commit oid changes = .ok more := by
              rw [keepVersion, if_neg same, loaded, appended]
            rw [kept] at ended
            cases earlier : file.parentOidOf commit with
            | none =>
                rw [earlier] at ended
                have answer : (all, truncated) = (more, false) := by
                  cases above : file.parentOf commit with
                  | none =>
                      rw [above] at ended
                      cases ended
                      rfl
                  | some parent =>
                      rw [above] at ended
                      cases ended
                      rfl
                cases answer
                exact ⟨_, appended, .added version loaded earlier, nofun⟩
            | some parentOid =>
                obtain ⟨parent, above, there⟩ :=
                  Option.bind_eq_some_iff.mp earlier
                have different : oid ≠ parentOid := by
                  intro equal
                  rw [equal, earlier] at same
                  exact same rfl
                rw [earlier, above] at ended
                by_cases full : GIT_BLAME_MAX_COMMITS < more.length
                · have answer := (if_pos full).symm.trans ended
                  cases answer
                  refine ⟨_, appended,
                    .cut version loaded above there different, fun _ => ?_⟩
                  omega
                · have next := (if_neg full).symm.trans ended
                  obtain ⟨later, split, collected, count⟩ :=
                    induction there (not_lt.mp full) next
                  refine ⟨⟨commit, lines⟩ :: later, ?_,
                    .changed version loaded above there different collected,
                    count⟩
                  rw [split, appended, List.append_assoc]
                  rfl

theorem collectChanges_ends {commit : GitCommit Sha}
    (ending : Acc (fun parent child => file.parentOf child = some parent)
      commit) (oid : Sha) (changes : List (ChangeCommit Sha)) :
    ∃ fuel result, file.collectChanges fuel commit oid changes =
      some result := by
  induction ending generalizing oid changes with
  | intro commit _ induction =>
      cases kept : file.keepVersion commit oid changes with
      | error error =>
          refine ⟨1, .error error, ?_⟩
          rw [collectChanges, kept]
      | ok more =>
          cases above : file.parentOf commit with
          | none =>
              refine ⟨1, .ok (more, false), ?_⟩
              rw [collectChanges, kept, above]
          | some parent =>
              cases earlier : file.parentOidOf commit with
              | none =>
                  refine ⟨1, .ok (more, false), ?_⟩
                  rw [collectChanges, kept, above, earlier]
              | some parentOid =>
                  by_cases full : GIT_BLAME_MAX_COMMITS < more.length
                  · refine ⟨1, .ok (more, true), ?_⟩
                    rw [collectChanges, kept, above, earlier]
                    exact if_pos full
                  · obtain ⟨fuel, result, ended⟩ :=
                      induction parent above parentOid more
                    refine ⟨fuel + 1, result, ?_⟩
                    rw [collectChanges, kept, above, earlier]
                    exact (if_neg full).trans ended

omit ids file in
theorem getElem?_blameLines (changes : List (ChangeCommit Sha))
    (head : GitCommit Sha) (current : Attributed Sha) (index : Nat) :
    (blameLines changes head current)[index]? =
      current.lines[index]?.map fun content =>
        blameLine changes head content
          (current.shas[index]?.getD head.sha) index := by
  rw [blameLines, List.getElem?_map, List.getElem?_zipIdx, Option.map_map]
  cases current.lines[index]? with
  | none => rfl
  | some content =>
      rw [Option.map_some, Option.map_some, Function.comp_apply, Nat.zero_add]

/-- What an answer says of the lines of the file. -/
structure Explains (file : TrackedFile ids) (head : GitCommit Sha)
    (answer : BlameAnswer Sha) : Prop where
  contents : answer.lines.map BlameLine.content = file.linesOf head
  numbers : ∀ (index : Nat) (line : BlameLine Sha),
    answer.lines[index]? = some line → line.line = index + 1
  origins : ∃ changes, file.Collected head changes answer.truncated ∧
    (answer.truncated = true → changes.length = GIT_BLAME_MAX_COMMITS + 1) ∧
    ∀ (index : Nat) (line : BlameLine Sha), answer.lines[index]? = some line →
      ∃ origin place, file.Carried head index origin place ∧
        line.commit_sha = origin.sha ∧
        (file.Inserted origin place ∨
          (answer.truncated = true ∧
            changes.getLast?.map ChangeCommit.commit = some origin))

theorem explains_blameLines {head : GitCommit Sha}
    {changes : List (ChangeCommit Sha)} {truncated : Bool}
    (collected : file.Collected head changes truncated)
    (count : truncated = true → changes.length = GIT_BLAME_MAX_COMMITS + 1) :
    file.Explains head ⟨truncated, blameLines changes.reverse head
      (attributeChanges head.sha changes.reverse)⟩ := by
  have attributes := collected.attributes head.sha
  constructor
  · rw [← attributes.lines]
    apply List.ext_getElem?
    intro index
    rw [List.getElem?_map, getElem?_blameLines, Option.map_map]
    exact Option.map_id_apply
  · intro index line found
    rw [getElem?_blameLines] at found
    obtain ⟨content, _, rfl⟩ := Option.map_eq_some_iff.mp found
    rfl
  · refine ⟨changes, collected, count, ?_⟩
    intro index line found
    rw [getElem?_blameLines] at found
    obtain ⟨content, here, rfl⟩ := Option.map_eq_some_iff.mp found
    have inside : index <
        (attributeChanges head.sha changes.reverse).shas.length := by
      rw [attributes.length]
      exact (List.getElem?_eq_some_iff.mp here).1
    have attributed := List.getElem?_eq_getElem inside
    obtain ⟨origin, place, carried, same, reason⟩ :=
      attributes.origin index _ attributed
    refine ⟨origin, place, carried, ?_, reason⟩
    rw [← same]
    change Option.getD _ _ = _
    rw [attributed]
    rfl

theorem blame_explains {fuel : Nat} {head : GitCommit Sha}
    {answer : BlameAnswer Sha}
    (answered : file.blame fuel head = some (.ok answer)) :
    file.Explains head answer := by
  cases version : file.oidOf head with
  | none =>
      rw [blame, version] at answered
      cases answered
  | some oid =>
      have mapped : (file.collectChanges fuel head oid []).map
          (blameAnswer head) = some (.ok answer) := by
        rw [blame, version] at answered
        exact answered
      obtain ⟨result, ended, given⟩ := Option.map_eq_some_iff.mp mapped
      cases result with
      | error error => cases given
      | ok collection =>
          obtain ⟨changes, truncated⟩ := collection
          obtain ⟨later, split, collected, count⟩ :=
            collectChanges_collected version (Nat.zero_le _) ended
          have whole : changes = later := split
          rw [← whole] at collected
          rw [blameAnswer] at given
          split at given
          · cases given
            exact explains_blameLines collected count
          · cases given

theorem blame_ends {head : GitCommit Sha}
    (ending : Acc (fun parent child => file.parentOf child = some parent)
      head) : ∃ fuel result, file.blame fuel head = some result := by
  cases version : file.oidOf head with
  | none =>
      refine ⟨0, .error (.notFound "File"), ?_⟩
      rw [blame, version]
  | some oid =>
      obtain ⟨fuel, result, ended⟩ := collectChanges_ends ending oid []
      refine ⟨fuel, blameAnswer head result, ?_⟩
      rw [blame, version]
      exact congrArg (Option.map (blameAnswer head)) ended

end TrackedFile

section StoredObjects

variable {Sha : Type} [DecidableEq Sha] {ids : ObjectIds Sha}

def storedObjects (ids : ObjectIds Sha) (objects : List (GitObject Sha)) :
    ObjectStore ids where
  objects := objects.map fun object => (ids.hashObject object, object)
  sound := by
    intro entry member
    obtain ⟨object, _, rfl⟩ := List.mem_map.mp member
    rfl

theorem getObject_storedObjects {objects : List (GitObject Sha)}
    {object : GitObject Sha} (member : object ∈ objects) :
    (storedObjects ids objects).getObject (ids.hashObject object) =
      some object := by
  rw [ObjectStore.getObject, if_pos (ids.hash_valid object)]
  induction objects with
  | nil => cases member
  | cons first rest induction =>
      change List.lookup (ids.hashObject object)
        ((ids.hashObject first, first) :: _) = some object
      by_cases same : object = first
      · rw [same, List.lookup_cons_self]
      · have different : (ids.hashObject object == ids.hashObject first) =
            false := beq_false_of_ne fun equal =>
          same (ids.hash_injective equal)
        rw [List.lookup_cons, different]
        exact induction ((List.mem_cons.mp member).resolve_left same)

end StoredObjects

namespace LongHistory

def signature : GitSignature := ⟨['a'], ['m'], 0, ['+', '0', '0', '0', '0']⟩

/-- Two versions take turns: the second one adds the line `b`. -/
def version (n : Nat) : List Text :=
  if n % 2 = 0 then [['a']] else [['a'], ['b']]

def blob (n : Nat) : GitObject Digest :=
  .blob (if n % 2 = 0 then [97] else [97, 10, 98])

def tree (n : Nat) : GitObject Digest :=
  .tree [⟨FILE_MODES.REGULAR_FILE, ['f'], termIds.hashObject (blob n)⟩]

def content : Nat → CommitContent Digest
  | 0 =>
    { tree := termIds.hashObject (tree 0), parents := [], author := signature
      committer := signature, message := [] }
  | n + 1 =>
    { tree := termIds.hashObject (tree (n + 1))
      parents := [termIds.hashObject (.commit (content n))]
      author := signature, committer := signature, message := [] }

def commit (n : Nat) : GitCommit Digest :=
  { content n with sha := termIds.hashObject (.commit (content n)) }

def objects (count : Nat) : List (GitObject Digest) :=
  [blob 0, blob 1, tree 0, tree 1] ++
    (List.range count).map fun n => .commit (content n)

def file (count : Nat) : TrackedFile termIds where
  store := ⟨[], storedObjects termIds (objects count)⟩
  repoId := ['r']
  path := ['f']

section Reads

variable {count n : Nat}

theorem blob_mod : blob n = blob (n % 2) := by
  rw [blob, blob, Nat.mod_mod]

theorem tree_mod : tree n = tree (n % 2) := by
  rw [tree, tree, ← blob_mod]

theorem blob_mem : blob n ∈ objects count := by
  apply List.mem_append_left
  have same : blob n = blob (n % 2) := blob_mod
  rcases Nat.mod_two_eq_zero_or_one n with even | odd
  · rw [same, even]
    exact .head _
  · rw [same, odd]
    exact .tail _ (.head _)

theorem tree_mem : tree n ∈ objects count := by
  apply List.mem_append_left
  have same : tree n = tree (n % 2) := tree_mod
  rcases Nat.mod_two_eq_zero_or_one n with even | odd
  · rw [same, even]
    exact .tail _ (.tail _ (.head _))
  · rw [same, odd]
    exact .tail _ (.tail _ (.tail _ (.head _)))

theorem content_tree : (content n).tree = termIds.hashObject (tree n) := by
  cases n with
  | zero | succ => rfl

theorem getCommit_commit (inside : n < count) :
    (file count).store.getCommit ['r'] (commit n).sha = some (commit n) := by
  have stored : (file count).store.bucket.getObject
      (termIds.hashObject (.commit (content n))) = some (.commit (content n)) :=
    getObject_storedObjects (List.mem_append_right _
      (List.mem_map.mpr ⟨n, List.mem_range.mpr inside, rfl⟩))
  change (file count).store.bucket.getCommitData
    (termIds.hashObject (.commit (content n))) = _
  rw [ObjectStore.getCommitData, stored]
  rfl

theorem parentOf_commit (inside : n < count) :
    (file count).parentOf (commit (n + 1)) = some (commit n) :=
  getCommit_commit inside

theorem oidOf_commit :
    (file count).oidOf (commit n) = some (termIds.hashObject (blob n)) := by
  have stored : (file count).store.bucket.getObject
      (termIds.hashObject (tree n)) = some (tree n) :=
    getObject_storedObjects tree_mem
  have entries : (file count).store.bucket.getTreeEntries (commit n).tree =
      some [⟨FILE_MODES.REGULAR_FILE, ['f'], termIds.hashObject (blob n)⟩] := by
    change ObjectStore.getTreeEntries _ (content n).tree = _
    rw [content_tree, ObjectStore.getTreeEntries, stored]
    rfl
  have parts : Text.split '/' (trimSlashes ['f']) = [['f']] := by decide
  have named : trimSlashes ['f'] ≠ [] := by decide
  have below : entryBelow (file count).store.bucket (commit n).tree [['f']] =
      some ⟨⟨FILE_MODES.REGULAR_FILE, ['f'], termIds.hashObject (blob n)⟩,
        .blob⟩ := by
    rw [entryBelow, entries]
    rfl
  have entry : getEntryAtPath (file count).store.bucket (commit n).tree ['f'] =
      some ⟨⟨FILE_MODES.REGULAR_FILE, ['f'], termIds.hashObject (blob n)⟩,
        .blob⟩ := by
    rw [← below, ← parts, getEntryAtPath, if_neg named]
  change getBlobOidAtPath (file count).store.bucket (commit n).tree ['f'] = _
  rw [getBlobOidAtPath, entry]
  rfl

theorem loadVersion_blob :
    (file count).loadVersion (termIds.hashObject (blob n)) =
      .ok (version n) := by
  have stored : (file count).store.bucket.getObject
      (termIds.hashObject (blob n)) = some (blob n) :=
    getObject_storedObjects blob_mem
  have content : (file count).store.bucket.getBlob
      (termIds.hashObject (blob n)) =
        some (if n % 2 = 0 then [97] else [97, 10, 98]) := by
    rw [ObjectStore.getBlob, stored]
    rfl
  rw [TrackedFile.loadVersion, loadTextBlob, content, version]
  rcases Nat.mod_two_eq_zero_or_one n with even | odd
  · rw [even]
    decide +kernel
  · rw [odd]
    decide +kernel

theorem linesOf_commit : (file count).linesOf (commit n) = version n :=
  TrackedFile.linesOf_loaded oidOf_commit loadVersion_blob

theorem blob_differs : blob (n + 1) ≠ blob n := by
  rw [blob_mod]
  have other : blob n = blob (n % 2) := blob_mod
  rw [other]
  rcases Nat.mod_two_eq_zero_or_one n with even | odd
  · have next : (n + 1) % 2 = 1 := by omega
    rw [even, next]
    nofun
  · have next : (n + 1) % 2 = 0 := by omega
    rw [odd, next]
    nofun

theorem keepVersion_commit (inside : n < count)
    (changes : List (ChangeCommit Digest)) :
    (file count).keepVersion (commit (n + 1))
        (termIds.hashObject (blob (n + 1))) changes =
      .ok (changes ++ [⟨commit (n + 1), version (n + 1)⟩]) := by
  have earlier : (file count).parentOidOf (commit (n + 1)) =
      some (termIds.hashObject (blob n)) := by
    rw [TrackedFile.parentOidOf, parentOf_commit inside]
    exact oidOf_commit
  have different : some (termIds.hashObject (blob (n + 1))) ≠
      (file count).parentOidOf (commit (n + 1)) := by
    rw [earlier]
    intro same
    exact blob_differs (termIds.hash_injective (Option.some.inj same))
  rw [TrackedFile.keepVersion, if_neg different, loadVersion_blob]

end Reads

/-- The versions down to the third one, newest first. -/
def chain : Nat → List (ChangeCommit Digest)
  | 0 => []
  | n + 1 => ⟨commit (n + 2), version (n + 2)⟩ :: chain n

theorem collectChanges_chain {count n : Nat} (inside : n + 1 < count)
    (changes : List (ChangeCommit Digest))
    (room : changes.length + n = GIT_BLAME_MAX_COMMITS) :
    (file count).collectChanges (n + 1) (commit (n + 2))
        (termIds.hashObject (blob (n + 2))) changes =
      some (.ok (changes ++ chain (n + 1), true)) := by
  induction n generalizing changes with
  | zero =>
      have full : GIT_BLAME_MAX_COMMITS <
          (changes ++ [(⟨commit 2, version 2⟩ : ChangeCommit Digest)]).length := by
        rw [List.length_append, List.length_singleton]
        omega
      have above := parentOf_commit inside
      rw [TrackedFile.collectChanges, keepVersion_commit inside,
        TrackedFile.parentOidOf, above, Option.bind_some, oidOf_commit]
      exact if_pos full
  | succ n induction =>
      have above := parentOf_commit inside
      have size : (changes ++ [(⟨commit (n + 3), version (n + 3)⟩ :
          ChangeCommit Digest)]).length = changes.length + 1 :=
        List.length_append
      rw [TrackedFile.collectChanges, keepVersion_commit inside,
        TrackedFile.parentOidOf, above, Option.bind_some, oidOf_commit]
      have next := induction (Nat.lt_of_succ_lt inside)
        (changes ++ [⟨commit (n + 3), version (n + 3)⟩]) (by omega)
      rw [List.append_assoc] at next
      have notFull : ¬ GIT_BLAME_MAX_COMMITS < (changes ++
          [(⟨commit (n + 3), version (n + 3)⟩ : ChangeCommit Digest)]).length := by
        omega
      exact (if_neg notFull).trans next

theorem diff_first : diffLinesLcs [] [['a']] = [.insert ['a']] := by
  decide +kernel

theorem diff_adds : diffLinesLcs [['a']] [['a'], ['b']] =
    [.equal ['a'], .insert ['b']] := by
  decide +kernel

theorem diff_removes : diffLinesLcs [['a'], ['b']] [['a']] =
    [.equal ['a'], .delete ['b']] := by
  decide +kernel

/-- The line `a` stays with the oldest version collected. -/
theorem attributeChanges_chain (unset : Digest) (n : Nat) :
    attributeChanges unset (chain (n + 1)).reverse =
      ⟨version n, if n % 2 = 0 then [(commit 2).sha]
        else [(commit 2).sha, (commit (n + 2)).sha]⟩ := by
  induction n with
  | zero =>
      change attributeChange unset ⟨[], []⟩ ⟨commit 2, [['a']]⟩ = _
      rw [attributeChange, diff_first]
      rfl
  | succ n induction =>
      have versions : version (n + 3) = version (n + 1) := by
        have mods : (n + 3) % 2 = (n + 1) % 2 := by omega
        rw [version, version, mods]
      rw [chain, attributeChanges_cons, induction, versions]
      rcases Nat.mod_two_eq_zero_or_one n with even | odd
      · have odd : (n + 1) % 2 = 1 := by omega
        rw [version, version, even, odd, attributeChange, if_pos rfl,
          if_pos rfl, if_neg Nat.one_ne_zero, if_neg Nat.one_ne_zero, diff_adds]
        rfl
      · have even : (n + 1) % 2 = 0 := by omega
        rw [version, version, even, odd, attributeChange, if_pos rfl,
          if_pos rfl, if_neg Nat.one_ne_zero, if_neg Nat.one_ne_zero,
          diff_removes]
        rfl

theorem committer_commit (n : Nat) : (commit n).committer = signature := by
  cases n with
  | zero | succ => rfl

theorem committer_chain {n : Nat} {change : ChangeCommit Digest}
    (member : change ∈ chain n) : change.commit.committer = signature := by
  induction n with
  | zero => cases member
  | succ n induction =>
      rcases List.mem_cons.mp member with rfl | older
      · exact committer_commit (n + 2)
      · exact induction older

theorem committer_commitBySha (n head : Nat) (sha : Digest) :
    (commitBySha (chain n).reverse (commit head) sha).committer = signature := by
  rw [commitBySha]
  cases found : (chain n).reverse.reverse.find? fun change =>
      change.commit.sha = sha with
  | none => exact committer_commit head
  | some change =>
      have member := List.mem_of_find?_eq_some found
      rw [List.reverse_reverse] at member
      exact committer_chain member

/-- From the last of 203 versions the line `a` is attributed to the third one,
whose diff inserts nothing. -/
theorem blame_truncated : ∃ answer line,
    (file 203).blame 201 (commit 202) = some (.ok answer) ∧
    answer.truncated = true ∧ answer.lines = [line] ∧
    line.commit_sha = (commit 2).sha := by
  have collected : (file 203).collectChanges 201 (commit 202)
      (termIds.hashObject (blob 202)) [] = some (.ok (chain 201, true)) :=
    collectChanges_chain (by decide) [] rfl
  have attributed : attributeChanges (commit 202).sha (chain 201).reverse =
      ⟨[['a']], [(commit 2).sha]⟩ := attributeChanges_chain _ 200
  have answered : (file 203).blame 201 (commit 202) =
      some (TrackedFile.blameAnswer (commit 202) (.ok (chain 201, true))) := by
    rw [TrackedFile.blame, oidOf_commit]
    exact congrArg (Option.map (TrackedFile.blameAnswer (commit 202))) collected
  have dated : (blameLines (chain 201).reverse (commit 202)
      (attributeChanges (commit 202).sha (chain 201).reverse)).all (fun line =>
        hasIsoDate (commitBySha (chain 201).reverse (commit 202)
          line.commit_sha).committer) = true := by
    rw [List.all_eq_true]
    intro line _
    rw [committer_commitBySha]
    rfl
  refine ⟨_, blameLine (chain 201).reverse (commit 202) ['a'] (commit 2).sha 0,
    answered.trans (congrArg some (if_pos dated)), rfl, ?_, rfl⟩
  change blameLines _ _ _ = _
  rw [attributed]
  rfl

theorem nothing_inserted (index : Nat) :
    ¬ (file 203).Inserted (commit 2) index := by
  have above : (file 203).parentOf (commit 2) = some (commit 1) :=
    parentOf_commit (by decide)
  have diff : (file 203).diffOf (commit 2) =
      [.equal ['a'], .delete ['b']] := by
    rw [TrackedFile.diffOf, TrackedFile.parentLinesOf_parent above,
      linesOf_commit, linesOf_commit]
    exact diff_removes
  rw [TrackedFile.Inserted, diff]
  intro inserted
  cases index with
  | zero | succ => cases inserted

end LongHistory

end Takos.Diffs
