import Takos.Git.CommitAncestry

/-!
# Concurrent `commitFile` calls

A commit that a call reports stays below the head of its branch as long as
every `updateBranch` call moves the branch forward.  The link is the
compare-and-swap: the commit it installs has the expected commit as its parent.
-/

namespace Takos.Git

open Takos.Foundation ObjectStore Relation

variable {Sha : Type} [DecidableEq Sha] {ids : ObjectIds Sha}

namespace FileRequest

variable (ids) in
def writtenFile (request : FileRequest) : FileEntry Sha :=
  ⟨request.path, request.blobSha ids, FILE_MODES.REGULAR_FILE⟩

variable (ids) in
/-- The files of the new tree before it is built. -/
def newFiles (request : FileRequest) (files : List (FileEntry Sha)) :
    List (FileEntry Sha) :=
  updatedFiles files [request.change ids]

variable (ids) in
/-- No path listed after the written one equals it after trimming or is a
directory above it. -/
def Undisturbed (request : FileRequest) (files : List (FileEntry Sha)) :
    Prop :=
  ∀ front back,
    request.newFiles ids files = front ++ request.writtenFile ids :: back →
    ∀ other ∈ back,
      ¬pathParts other <+: pathParts (request.writtenFile ids)

/-- The tree holds the written file at the trimmed path. -/
def Present (request : FileRequest) (bucket : ObjectStore ids)
    (treeSha : Sha) : Prop :=
  HoldsFile bucket treeSha (pathParts (request.writtenFile ids))
    ⟨FILE_MODES.REGULAR_FILE, (pathParts (request.writtenFile ids)).getLastD [],
      request.blobSha ids⟩

variable (ids) in
omit [DecidableEq Sha] in
theorem writtenFile_mem (request : FileRequest)
    (files : List (FileEntry Sha)) :
    request.writtenFile ids ∈ request.newFiles ids files := by
  have found := OrderedMap.get?_set_self (toFileMap files) request.path
    (request.writtenFile ids)
  have member := OrderedMap.get?_eq_some_iff.mp found
  exact List.mem_map.mpr ⟨_, member, rfl⟩

end FileRequest

theorem present_of_written {request : FileRequest} {bucket : ObjectStore ids}
    {files : List (FileEntry Sha)} {root : TreeNode Sha}
    (inserted : insertFiles (request.newFiles ids files) .empty = .ok root)
    (written : ∀ tree ∈ plannedTrees ids root, TreeStored bucket tree)
    (undisturbed : request.Undisturbed ids files) :
    request.Present bucket (treeShaOf ids (plannedEntries ids root)) := by
  obtain ⟨front, back, split⟩ :=
    List.append_of_mem (request.writtenFile_mem ids files)
  have later := undisturbed front back split
  have placed : leafOf (request.writtenFile ids) ∈
      PathTree.placeAll [] ((request.newFiles ids files).map leafOf) := by
    rw [split, List.map_append, PathTree.placeAll_append, List.map_cons]
    apply PathTree.mem_placeAll_of_undisturbed List.mem_cons_self
    intro leaf member
    obtain ⟨other, otherMember, same⟩ := List.mem_map.mp member
    rw [← same]
    exact later other otherMember
  have leaf := (insertFiles_leaves inserted).symm.subset placed
  have mode : storedMode (leafOf (request.writtenFile ids)).2.mode =
      FILE_MODES.REGULAR_FILE := by
    have regular : storedMode (modeOrRegular FILE_MODES.REGULAR_FILE) =
        FILE_MODES.REGULAR_FILE := by decide +kernel
    exact regular
  have holds := holdsFile_of_written root written leaf rfl (by
    rw [mode]
    decide +kernel)
  simp only [storedEntry, mode] at holds
  exact holds

/-- A commit built by a call: it is stored and has the head that the call read
as its parent, and its tree holds the file unless another path replaced it. -/
structure CommitBuilt (bucket : ObjectStore ids) (request : FileRequest)
    (oldSha : Sha) (files : List (FileEntry Sha)) (commit : GitCommit Sha) :
    Prop where
  content : commit.toCommitContent = request.commitContent oldSha commit.tree
  stored : bucket.getCommitData commit.sha = some commit
  blob : bucket.getBlob (request.blobSha ids) = some request.contentBytes
  present : request.Undisturbed ids files → request.Present bucket commit.tree

theorem CommitBuilt.extend {bucket later : ObjectStore ids}
    (grown : Extends bucket later) {request : FileRequest} {oldSha : Sha}
    {files : List (FileEntry Sha)} {commit : GitCommit Sha}
    (built : CommitBuilt bucket request oldSha files commit) :
    CommitBuilt later request oldSha files commit where
  content := built.content
  stored := getCommitData_extends grown built.stored
  blob := blob_extends grown built.blob
  present := fun undisturbed => (built.present undisturbed).extend grown

/-- What holds before the next statement of a call. -/
def FileCall.Sound (store : CommitStore ids) : FileCall Sha → Prop
  | .readBranch _ | .readCommit _ _ | .putBlob _ _ _ => True
  | .readTrees request _ _ =>
    store.bucket.getBlob (request.blobSha ids) = some request.contentBytes
  | .putTrees request _ files treeSha pending =>
    store.bucket.getBlob (request.blobSha ids) = some request.contentBytes ∧
      ∃ root written,
        insertFiles (request.newFiles ids files) .empty = .ok root ∧
        treeSha = treeShaOf ids (plannedEntries ids root) ∧
        plannedTrees ids root = written ++ pending ∧
        ∀ tree ∈ written, TreeStored store.bucket tree
  | .putCommit request _ files treeSha =>
    store.bucket.getBlob (request.blobSha ids) = some request.contentBytes ∧
      (request.Undisturbed ids files → request.Present store.bucket treeSha)
  | .insertCommit request oldSha files commit =>
    CommitBuilt store.bucket request oldSha files commit
  | .updateBranch request oldSha files commit statement =>
    CommitBuilt store.bucket request oldSha files commit ∧
      store.ParentOf request.repoId commit.sha oldSha ∧
      (statement = .swapCommit request.repoId request.branchName oldSha
          commit.sha request.timestamp ∨
        statement = .readCurrent request.repoId request.branchName)

variable {call : FileCall Sha} {repositories : Repositories ids}
  {repoId name : Text}

theorem FileCall.Sound.grow {earlier later : CommitStore ids}
    (grown : CommitStore.Grows earlier later) (sound : call.Sound earlier) :
    call.Sound later := by
  cases call with
  | readBranch | readCommit | putBlob => trivial
  | readTrees _ _ _ => exact blob_extends grown.objects sound
  | putTrees _ _ _ _ _ =>
      obtain ⟨blob, root, written, inserted, rootEq, order, stored⟩ := sound
      exact ⟨blob_extends grown.objects blob, root, written, inserted, rootEq,
        order, fun tree member => (stored tree member).extend grown.objects⟩
  | putCommit _ _ _ _ =>
      obtain ⟨blob, present⟩ := sound
      exact ⟨blob_extends grown.objects blob,
        fun undisturbed => (present undisturbed).extend grown.objects⟩
  | insertCommit _ _ _ _ => exact CommitBuilt.extend grown.objects sound
  | updateBranch _ _ _ _ _ =>
      obtain ⟨built, parent, shape⟩ := sound
      exact ⟨built.extend grown.objects, grown.parents _ _ _ parent, shape⟩

/-- What holds after a statement of a call. -/
def OutcomeSound (store : CommitStore ids) :
    Outcome (FileCall Sha) (FileOutcome Sha) → Prop
  | .next rest => rest.Sound store
  | .done (.committed request oldSha files commit) =>
    CommitBuilt store.bucket request oldSha files commit ∧
      store.ParentOf request.repoId commit.sha oldSha
  | .done (.failed _ _) => True

variable (ids) in
omit [DecidableEq Sha] in
theorem updateBranch_some (request : FileRequest) (oldSha newSha : Sha) :
    (∃ error, updateBranch ids [] request.timestamp request.repoId
        request.branchName (some oldSha) newSha =
          .done (.returned (.failure error))) ∨
      updateBranch ids [] request.timestamp request.repoId
        request.branchName (some oldSha) newSha =
          .next (.swapCommit request.repoId request.branchName oldSha newSha
            request.timestamp) := by
  simp only [updateBranch]
  split
  · exact .inl ⟨_, rfl⟩
  · split
    · exact .inl ⟨_, rfl⟩
    · exact .inr rfl

theorem afterReads_sound {store : CommitStore ids} {request : FileRequest}
    (blob : store.bucket.getBlob (request.blobSha ids) =
      some request.contentBytes) (oldSha : Sha)
    (result : Except TreeError (List (FileEntry Sha))) :
    OutcomeSound store (FileCall.afterReads ids request oldSha result) := by
  cases result with
  | error failure => trivial
  | ok files =>
      have updated : updateFileMap [request.change ids] (toFileMap files) =
          .ok ((request.change ids).apply (toFileMap files)) := by
        apply updateFileMap_given
        intro change member _
        rw [List.mem_singleton.mp member]
        simp [FileRequest.change]
      simp only [FileCall.afterReads, updated]
      cases inserted : insertFiles (((request.change ids).apply
          (toFileMap files)).files) PathTree.empty with
      | error failure => trivial
      | ok root => exact ⟨blob, root, [], inserted, rfl, rfl, by simp⟩

theorem sound_statement (sound : call.Sound repositories.store) :
    CommitStore.Grows repositories.store
        (call.statement repositories).1.store ∧
      OutcomeSound (call.statement repositories).1.store
        (call.statement repositories).2 := by
  cases call with
  | readBranch | readCommit =>
      simp only [FileCall.statement]
      split <;> exact ⟨.refl _, trivial⟩
  | putBlob request oldSha baseTreeSha =>
      refine ⟨CommitStore.grows_bucket _ (putObject_extends _ _), ?_⟩
      have read := getObject_putObject repositories.store.bucket
        (.blob request.contentBytes)
      have blob : ((repositories.store.bucket.putBlob
          request.contentBytes).2).getBlob (request.blobSha ids) =
            some request.contentBytes := by
        simp only [getBlob, putBlob, FileRequest.blobSha, read]
      exact blob
  | readTrees request oldSha reads =>
      refine ⟨by cases reads <;> exact .refl _, ?_⟩
      cases reads with
      | done result => exact afterReads_sound sound oldSha result
      | ask treeSha next => exact sound
  | putTrees request oldSha files treeSha pending =>
      obtain ⟨blob, root, written, inserted, rootEq, order, stored⟩ := sound
      cases pending with
      | nil =>
          refine ⟨.refl _, blob, ?_⟩
          intro undisturbed
          rw [List.append_nil] at order
          rw [rootEq]
          apply present_of_written inserted _ undisturbed
          rw [order]
          exact stored
      | cons entries pending =>
          have grown := putTree_extends repositories.store.bucket entries
          refine ⟨CommitStore.grows_bucket _ grown,
            blob_extends grown blob, root, written ++ [entries], inserted,
            rootEq, by simp [order], ?_⟩
          intro tree member
          rcases List.mem_append.mp member with older | newest
          · exact (stored tree older).extend grown
          · rw [List.mem_singleton.mp newest]
            exact treeStored_putTree _ _
  | putCommit request oldSha files treeSha =>
      obtain ⟨blob, present⟩ := sound
      let content := request.commitContent oldSha treeSha
      have grown : Extends repositories.store.bucket
          (repositories.store.bucket.putCommit content).2 :=
        putObject_extends _ _
      refine ⟨CommitStore.grows_bucket _ grown, ?_⟩
      have stored := getCommitData_putCommit repositories.store.bucket content
      simp only [FileCall.statement]
      split
      · exact
          { content := rfl
            stored := stored
            blob := blob_extends grown blob
            present := fun undisturbed => (present undisturbed).extend grown }
      · trivial
  | insertCommit request oldSha files commit =>
      have built : CommitBuilt repositories.store.bucket request oldSha files
          commit := sound
      simp only [FileCall.statement]
      cases inserted : insertCommitRow repositories.store.commits
          (commitRow request.repoId commit) with
      | none => exact ⟨.refl _, trivial⟩
      | some commits =>
          have parents : commit.parents = [oldSha] := by
            rw [built.content]
            rfl
          have parent : CommitStore.ParentOf
              { repositories.store with commits := commits } request.repoId
              commit.sha oldSha := by
            apply CommitStore.parentOf_indexed inserted
            rw [parents]
            exact List.mem_singleton_self oldSha
          refine ⟨CommitStore.grows_index (getCommitData_hash built.stored)
            inserted, ?_⟩
          rcases updateBranch_some ids request oldSha commit.sha with
            ⟨error, failed⟩ | passed
          · rw [failed]
            trivial
          · rw [passed]
            exact ⟨built, parent, .inl rfl⟩
  | updateBranch request oldSha files commit statement =>
      obtain ⟨built, parent, shape⟩ := sound
      refine ⟨.refl _, ?_⟩
      rcases shape with swap | read
      · subst swap
        simp only [FileCall.statement, RefCall.statement]
        split
        · exact ⟨built, parent⟩
        · exact ⟨built, parent, .inr rfl⟩
      · subst read
        simp only [FileCall.statement, RefCall.statement]
        split <;> trivial

/-- The compare-and-swap of a call succeeds. -/
structure Swapped (repositories : Repositories ids) (call : FileCall Sha)
    (request : FileRequest) (oldSha : Sha) (files : List (FileEntry Sha))
    (commit : GitCommit Sha) : Prop where
  call_eq : call = .updateBranch request oldSha files commit
    (.swapCommit request.repoId request.branchName oldSha commit.sha
      request.timestamp)
  matched : repositories.branches.swaps request.repoId request.branchName
    oldSha = true
  statement_eq : call.statement repositories =
    ({ repositories with
        branches := repositories.branches.compareAndSwap request.repoId
          request.branchName oldSha commit.sha request.timestamp },
      .done (.committed request oldSha files commit))

theorem statement_cases (sound : call.Sound repositories.store) :
    ((call.statement repositories).1.branches = repositories.branches ∧
      ∀ request oldSha files commit, (call.statement repositories).2 ≠
        .done (.committed request oldSha files commit)) ∨
    ∃ request oldSha files commit,
      Swapped repositories call request oldSha files commit := by
  cases call with
  | readBranch | readCommit | putCommit =>
      left
      simp only [FileCall.statement]
      split <;> simp
  | putBlob request oldSha baseTreeSha =>
      left
      simp [FileCall.statement]
  | readTrees request oldSha reads =>
      left
      cases reads with
      | ask treeSha next => simp [FileCall.statement]
      | done result =>
          refine ⟨rfl, ?_⟩
          cases result with
          | error failure => simp [FileCall.statement, FileCall.afterReads]
          | ok files =>
              simp only [FileCall.statement, FileCall.afterReads]
              split
              · simp
              · split <;> simp
  | putTrees request oldSha files treeSha pending =>
      left
      cases pending <;> simp [FileCall.statement]
  | insertCommit request oldSha files commit =>
      left
      simp only [FileCall.statement]
      split
      · simp
      · rcases updateBranch_some ids request oldSha commit.sha with
          ⟨error, failed⟩ | passed
        · rw [failed]
          simp [FileCall.finishUpdate, RefUpdateResult.failure]
        · rw [passed]
          simp [FileCall.finishUpdate]
  | updateBranch request oldSha files commit statement =>
      obtain ⟨_, _, shape⟩ := sound
      rcases shape with swap | read
      · subst swap
        cases matched : repositories.branches.swaps request.repoId
            request.branchName oldSha with
        | true =>
            right
            refine ⟨request, oldSha, files, commit, rfl, matched, ?_⟩
            simp only [FileCall.statement, RefCall.statement, matched]
            rfl
        | false =>
            left
            simp [FileCall.statement, RefCall.statement, matched,
              FileCall.finishUpdate]
      · left
        subst read
        simp only [FileCall.statement, RefCall.statement]
        split <;> simp [FileCall.finishUpdate, RefUpdateResult.failure]

/-- The branch exists and its head is the commit or a descendant of it. -/
def HeadAbove (repositories : Repositories ids) (repoId name : Text)
    (sha : Sha) : Prop :=
  (∃ row ∈ repositories.branches,
      BranchTable.matchesName repoId name row = true) ∧
    ∀ row ∈ repositories.branches,
      BranchTable.matchesName repoId name row = true →
        repositories.store.Reachable repoId row.commitSha sha

theorem HeadAbove.grow {store : CommitStore ids}
    (grown : CommitStore.Grows repositories.store store) {sha : Sha}
    (above : HeadAbove repositories repoId name sha) :
    HeadAbove { repositories with store := store } repoId name sha := by
  refine ⟨above.1, ?_⟩
  intro row member matched
  exact grown.reachable (above.2 row member matched)

theorem HeadAbove.swap {sha : Sha}
    (above : HeadAbove repositories repoId name sha)
    {otherRepo otherName timestamp : Text} {oldSha newSha : Sha}
    (forward : repositories.store.Reachable otherRepo newSha oldSha) :
    HeadAbove { repositories with
      branches := repositories.branches.compareAndSwap otherRepo otherName
        oldSha newSha timestamp } repoId name sha := by
  constructor
  · obtain ⟨row, member, matched⟩ := above.1
    refine ⟨_, List.mem_map.mpr ⟨row, member, rfl⟩, ?_⟩
    split <;> exact matched
  · intro row member matched
    obtain ⟨before, beforeMember, same⟩ := List.mem_map.mp member
    by_cases moved : (BranchTable.matchesName otherRepo otherName before &&
        before.commitSha = oldSha) = true
    · rw [if_pos moved] at same
      subst same
      have matchedBefore : BranchTable.matchesName repoId name before = true :=
        matched
      have reached := above.2 before beforeMember matchedBefore
      simp only [Bool.and_eq_true, decide_eq_true_eq] at moved
      rw [moved.2] at reached
      have sameRepo : otherRepo = repoId :=
        ((BranchTable.matchesName_iff _ _ _).mp moved.1).1.symm.trans
          ((BranchTable.matchesName_iff _ _ _).mp matchedBefore).1
      subst sameRepo
      exact forward.trans reached
    · rw [if_neg moved] at same
      subst same
      exact above.2 before beforeMember matched

theorem HeadAbove.insert {sha : Sha}
    (above : HeadAbove repositories repoId name sha) {row : BranchRow Sha}
    {branches : BranchTable Sha}
    (inserted : repositories.branches.insert row = some branches) :
    HeadAbove { repositories with branches := branches } repoId name sha := by
  simp only [BranchTable.insert] at inserted
  split at inserted
  · cases inserted
  · rename_i free
    cases inserted
    obtain ⟨⟨existing, member, matched⟩, reached⟩ := above
    refine ⟨⟨existing, List.mem_append_left _ member, matched⟩, ?_⟩
    intro other otherMember otherMatched
    rcases List.mem_append.mp otherMember with old | new
    · exact reached other old otherMatched
    · exfalso
      have otherEq : other = row := List.mem_singleton.mp new
      subst otherEq
      apply free
      apply List.any_eq_true.mpr
      refine ⟨existing, member, ?_⟩
      have same := (BranchTable.matchesName_iff _ _ _).mp matched
      have sameOther := (BranchTable.matchesName_iff _ _ _).mp otherMatched
      simp [BranchTable.matchesName, same.1, same.2, sameOther.1, sameOther.2]

theorem headAbove_swapped (unique : repositories.branches.UniqueNames)
    {repoId name timestamp : Text} {oldSha newSha : Sha}
    (matched : repositories.branches.swaps repoId name oldSha = true) :
    HeadAbove { repositories with
      branches := repositories.branches.compareAndSwap repoId name oldSha
        newSha timestamp } repoId name newSha := by
  obtain ⟨row, member, condition⟩ := List.any_eq_true.mp matched
  have swapped := condition
  simp only [Bool.and_eq_true, decide_eq_true_eq] at swapped
  constructor
  · refine ⟨_, List.mem_map.mpr ⟨row, member, rfl⟩, ?_⟩
    rw [if_pos condition]
    exact swapped.1
  · intro other otherMember otherMatched
    obtain ⟨before, beforeMember, same⟩ := List.mem_map.mp otherMember
    have beforeMatched :
        BranchTable.matchesName repoId name before = true := by
      rw [← same] at otherMatched
      split at otherMatched <;> exact otherMatched
    have sameRow : before = row := by
      have named := (BranchTable.matchesName_iff _ _ _).mp swapped.1
      have beforeNamed := (BranchTable.matchesName_iff _ _ _).mp beforeMatched
      exact unique.eq_of_key beforeMember member
        ⟨beforeNamed.1.trans named.1.symm, beforeNamed.2.trans named.2.symm⟩
    rw [sameRow, if_pos condition] at same
    rw [← same]
    exact .refl

/-- A statement of `updateBranch`. -/
def RefCall.OfUpdate : RefCall Sha → Prop
  | .insertBranch _ | .readExisting _ _ _ | .swapCommit _ _ _ _ _
  | .readCurrent _ _ => True
  | _ => False

/-- The head that the next statement of the call expects is gone, or the call
has found that out. -/
def FileCall.Lost (branches : BranchTable Sha) : FileCall Sha → Prop
  | .updateBranch request oldSha _ _ (.swapCommit _ _ _ _ _) =>
    branches.swaps request.repoId request.branchName oldSha = false
  | .updateBranch _ _ _ _ (.readCurrent _ _) => True
  | _ => False

/-- The condition on `updateBranch` calls: a swap that succeeds moves the branch
to a commit that has the expected one as an ancestor. -/
def MovesForward (repositories : Repositories ids)
    (event : Program.Event (CommitCall Sha)) (_ : List (CommitCall Sha)) :
    Prop :=
  match event with
  | .run (.ref (.swapCommit repoId name oldSha newSha _)) =>
    repositories.branches.swaps repoId name oldSha = true →
      repositories.store.Reachable repoId newSha oldSha
  | _ => True

/-- What a result still says after other calls have run. -/
def ResultSound (repositories : Repositories ids) : CommitOutcome Sha → Prop
  | .file (.committed request oldSha files commit) =>
    CommitBuilt repositories.store.bucket request oldSha files commit ∧
      HeadAbove repositories request.repoId request.branchName commit.sha
  | _ => True

def CommitCall.Sound (repositories : Repositories ids) : CommitCall Sha → Prop
  | .file call => call.Sound repositories.store
  | .ref call => call.OfUpdate

variable (ids) in
def commitAssertions :
    Program.Assertions (Repositories ids) (CommitCall Sha)
      (CommitOutcome Sha) where
  shared repositories := repositories.branches.UniqueNames
  call := CommitCall.Sound
  result := ResultSound

theorem CommitCall.Sound.grow {before after : Repositories ids}
    (grown : CommitStore.Grows before.store after.store)
    {call : CommitCall Sha} (sound : call.Sound before) : call.Sound after := by
  cases call with
  | file call => exact FileCall.Sound.grow grown sound
  | ref call => exact sound

theorem ResultSound.move {before after : Repositories ids}
    (grown : CommitStore.Grows before.store after.store)
    (heads : ∀ repoId name sha, HeadAbove before repoId name sha →
      HeadAbove after repoId name sha)
    {outcome : CommitOutcome Sha} (sound : ResultSound before outcome) :
    ResultSound after outcome := by
  cases outcome with
  | ref outcome => trivial
  | file outcome =>
      cases outcome with
      | failed request error => trivial
      | committed request oldSha files commit =>
          obtain ⟨built, above⟩ := sound
          exact ⟨built.extend grown.objects, heads _ _ _ above⟩

theorem kept_file (unique : repositories.branches.UniqueNames)
    (sound : call.Sound repositories.store) :
    (commitAssertions ids).Kept (commitProgram ids) repositories
      (.file call) := by
  obtain ⟨grown, outcome⟩ := sound_statement sound
  rcases statement_cases sound with ⟨same, unreported⟩ | swapped
  · have after : (call.statement repositories).1 =
        { repositories with store := (call.statement repositories).1.store } := by
      rw [← same]
    refine ⟨?_, ?_, fun other => CommitCall.Sound.grow grown, ?_⟩
    · have unchanged : (call.statement repositories).1.branches.UniqueNames :=
        same ▸ unique
      exact unchanged
    · change (commitAssertions ids).HoldAfter (call.statement repositories).1
        ((call.statement repositories).2.map .file .file)
      cases reached : (call.statement repositories).2 with
      | next rest =>
          rw [reached] at outcome
          exact outcome
      | done result =>
          cases result with
          | failed request error => trivial
          | committed request oldSha files commit =>
              exact absurd reached (unreported request oldSha files commit)
    · intro result
      apply ResultSound.move grown
      intro repoId name sha above
      rw [after]
      exact above.grow grown
  · obtain ⟨request, oldSha, files, commit, _, matched, executed⟩ := swapped
    rw [executed] at outcome
    obtain ⟨built, parent⟩ := outcome
    let after : Repositories ids :=
      { repositories with
        branches := repositories.branches.compareAndSwap request.repoId
          request.branchName oldSha commit.sha request.timestamp }
    have statement : (commitProgram ids).statement (.file call) repositories =
        (after, .done (.file (.committed request oldSha files commit))) := by
      simp only [commitProgram, CommitCall.statement, executed, Outcome.map,
        after]
    have sameStore : CommitStore.Grows repositories.store after.store :=
      .refl _
    have uniqueAfter : after.branches.UniqueNames := by
      apply unique.map
      intro row
      split <;> exact ⟨rfl, rfl⟩
    have heads : ∀ repoId name sha, HeadAbove repositories repoId name sha →
        HeadAbove after repoId name sha := by
      intro repoId name sha above
      exact above.swap (ReflTransGen.single parent)
    constructor
    · rw [statement]
      exact uniqueAfter
    · rw [statement]
      exact ⟨built, headAbove_swapped unique matched⟩
    · rw [statement]
      exact fun other => CommitCall.Sound.grow sameStore
    · rw [statement]
      exact fun result => ResultSound.move sameStore heads

theorem HeadAbove.ref {sha : Sha}
    (above : HeadAbove repositories repoId name sha) {call : RefCall Sha}
    (ofUpdate : call.OfUpdate)
    (forward : ∀ otherRepo otherName oldSha newSha timestamp,
      call = .swapCommit otherRepo otherName oldSha newSha timestamp →
      repositories.branches.swaps otherRepo otherName oldSha = true →
      repositories.store.Reachable otherRepo newSha oldSha) :
    HeadAbove { repositories with
      branches := (call.statement repositories.branches).1 } repoId name sha := by
  cases call with
  | insertBranch row =>
      simp only [RefCall.statement]
      cases inserted : repositories.branches.insert row with
      | none => exact above
      | some branches => exact above.insert inserted
  | swapCommit otherRepo otherName oldSha newSha timestamp =>
      simp only [RefCall.statement]
      split
      · rename_i matched
        exact above.swap (forward _ _ _ _ _ rfl matched)
      · exact above
  | readExisting | readCurrent =>
      simp only [RefCall.statement]
      split <;> exact above
  | _ => cases ofUpdate

theorem RefCall.OfUpdate.continues {call rest : RefCall Sha}
    {table : BranchTable Sha} (ofUpdate : call.OfUpdate)
    (reached : (call.statement table).2 = .next rest) : rest.OfUpdate := by
  cases call with
  | insertBranch | swapCommit =>
      simp only [RefCall.statement] at reached
      split at reached <;> cases reached
      trivial
  | readExisting | readCurrent =>
      simp only [RefCall.statement] at reached
      split at reached <;> cases reached
  | _ => cases ofUpdate

omit [DecidableEq Sha] in
theorem updateBranch_ofUpdate {repoId name id timestamp : Text}
    {oldSha : Option Sha} {newSha : Sha} {call : RefCall Sha}
    (begun : updateBranch ids id timestamp repoId name oldSha newSha =
      .next call) : call.OfUpdate := by
  simp only [updateBranch, createBranch] at begun
  split at begun
  · cases begun
  · split at begun
    · cases begun
    · split at begun
      · split at begun
        · cases begun
        · cases begun
          trivial
      · cases begun
        trivial

theorem kept_ref {call : RefCall Sha} {others : List (CommitCall Sha)}
    (unique : repositories.branches.UniqueNames) (ofUpdate : call.OfUpdate)
    (forward : MovesForward repositories (.run (.ref call)) others) :
    (commitAssertions ids).Kept (commitProgram ids) repositories
      (.ref call) := by
  have heads : ∀ repoId name sha, HeadAbove repositories repoId name sha →
      HeadAbove { repositories with
        branches := (call.statement repositories.branches).1 } repoId name
          sha := by
    intro repoId name sha above
    apply above.ref ofUpdate
    rintro otherRepo otherName oldSha newSha timestamp rfl
    exact forward
  let after : Repositories ids :=
    { repositories with
      branches := (call.statement repositories.branches).1 }
  have sameStore : CommitStore.Grows repositories.store after.store := .refl _
  refine ⟨uniqueNames_statement call unique, ?_,
    fun other => CommitCall.Sound.grow sameStore,
    fun result => ResultSound.move sameStore heads⟩
  change (commitAssertions ids).HoldAfter _
    ((call.statement repositories.branches).2.map .ref .ref)
  cases reached : (call.statement repositories.branches).2 with
  | next rest => exact ofUpdate.continues reached
  | done result => trivial

theorem starts_sound {call : CommitCall Sha} (starts : call.Starts ids) :
    call.Sound repositories := by
  cases call with
  | file call =>
      obtain ⟨request, same⟩ := starts
      subst same
      trivial
  | ref call =>
      obtain ⟨repoId, name, oldSha, newSha, id, timestamp, begun⟩ := starts
      exact updateBranch_ofUpdate begun

theorem lost_statement (sound : call.Sound repositories.store)
    (lost : call.Lost repositories.branches) :
    (call.statement repositories).1.branches = repositories.branches ∧
      ((∃ request error, (call.statement repositories).2 =
          .done (.failed request error)) ∨
        ∃ rest, (call.statement repositories).2 = .next rest ∧
          ∀ later, rest.Lost later) := by
  cases call with
  | updateBranch request oldSha files commit statement =>
      obtain ⟨_, _, shape⟩ := sound
      rcases shape with swap | read
      · subst swap
        have missed : repositories.branches.swaps request.repoId
            request.branchName oldSha = false := lost
        simp [FileCall.statement, RefCall.statement, missed,
          FileCall.finishUpdate, FileCall.Lost]
      · subst read
        simp only [FileCall.statement, RefCall.statement]
        split <;> simp [FileCall.finishUpdate, RefUpdateResult.failure]
  | _ => cases lost

namespace MovedAside

def author : GitSignature := ⟨['a'], ['b'], 0, "+0000".toList⟩

def rootCommit (message : Text) (treeSha : Digest) : CommitContent Digest :=
  ⟨treeSha, [], author, author, message⟩

def emptyTree : Digest × ObjectStore termIds :=
  (ObjectStore.empty termIds).putTree []

def first : Digest × ObjectStore termIds :=
  emptyTree.2.putCommit (rootCommit ['1'] emptyTree.1)

def unrelated : Digest × ObjectStore termIds :=
  first.2.putCommit (rootCommit ['2'] emptyTree.1)

def initial : Repositories termIds where
  branches := [⟨['i'], ['r'], ['m'], first.1, true, false, [], []⟩]
  store := ⟨[], unrelated.2⟩

def request (path : Text) : FileRequest :=
  ⟨['r'], path, ['x'], ['s'], ['m'], some author, 0, []⟩

def write (path : Text) : CommitCall Digest :=
  .file (.readBranch (request path))

def move (oldSha : Digest) : CommitCall Digest :=
  .ref (.swapCommit ['r'] ['m'] oldSha unrelated.1 [])

def reported : CommitOutcome Digest → Option (FileRequest × GitCommit Digest)
  | .file (.committed request _ _ commit) => some (request, commit)
  | _ => none

theorem of_reported {outcome : CommitOutcome Digest}
    {result : FileRequest × GitCommit Digest}
    (success : reported outcome = some result) :
    ∃ oldSha files,
      outcome = .file (.committed result.1 oldSha files result.2) := by
  cases outcome with
  | ref outcome => cases success
  | file outcome =>
      cases outcome with
      | failed request error => cases success
      | committed request oldSha files commit =>
          cases success
          exact ⟨oldSha, files, rfl⟩

/-- A first write, a move to the unrelated commit, and a second write. -/
def wroteA : Repositories termIds × CommitOutcome Digest :=
  ((commitProgram termIds).runAlone 20 (write ['a']) initial).get
    (by decide +kernel)

def resultA : FileRequest × GitCommit Digest :=
  (reported wroteA.2).get (by decide +kernel)

def moved : Repositories termIds × CommitOutcome Digest :=
  ((commitProgram termIds).runAlone 20 (move resultA.2.sha) wroteA.1).get
    (by decide +kernel)

def wroteB : Repositories termIds × CommitOutcome Digest :=
  ((commitProgram termIds).runAlone 20 (write ['b']) moved.1).get
    (by decide +kernel)

def resultB : FileRequest × GitCommit Digest :=
  (reported wroteB.2).get (by decide +kernel)

theorem run_wroteA {allowed : Repositories termIds →
      Program.Event (CommitCall Digest) → List (CommitCall Digest) → Prop}
    (started : ∀ shared call, allowed shared (.start call) [])
    (permitted : ∀ shared call, allowed shared (.run (.file call)) []) :
    (commitProgram termIds).Run allowed ⟨initial, [], []⟩
      ⟨wroteA.1, [], [wroteA.2]⟩ := by
  have begun : (commitProgram termIds).Run allowed ⟨initial, [], []⟩
      ⟨initial, [write ['a']], []⟩ :=
    Program.Run.here.starting _ ⟨request ['a'], rfl⟩ (started _ _)
  have alone : (commitProgram termIds).runAlone 20 (write ['a']) initial =
      some wroteA := (Option.some_get _).symm
  apply begun.alone (fun call => ∃ inner, call = .file inner) [] [] alone
  · exact ⟨_, rfl⟩
  · intro call shared rest ofFile continued
    obtain ⟨inner, same⟩ := ofFile
    subst same
    simp only [commitProgram, CommitCall.statement] at continued
    cases reached : (inner.statement shared).2 with
    | done result =>
        rw [reached] at continued
        cases continued
    | next next =>
        rw [reached] at continued
        cases continued
        exact ⟨next, rfl⟩
  · intro shared call ofFile
    obtain ⟨inner, same⟩ := ofFile
    subst same
    exact permitted shared inner

end MovedAside

end Takos.Git
