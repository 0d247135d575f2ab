import Takos.Git.RefNames
import Takos.Git.Objects

/-!
# Stored names over runs

In every run that inserts no name with white space around it, each stored name
has the grammar, no two rows of a repository share a name, and the refs that
are listed have distinct names of visible characters.
-/

namespace Takos.Git

open Takos.Foundation

variable {Sha : Type}

namespace TagTable

/-- The unique index on `(repo_id, name)`. -/
def UniqueNames (table : TagTable Sha) : Prop :=
  table.Pairwise fun left right =>
    ¬(left.repoId = right.repoId ∧ left.name = right.name)

theorem uniqueNames_insert {table inserted : TagTable Sha} {row : TagRow Sha}
    (unique : table.UniqueNames) (success : table.insert row = some inserted) :
    inserted.UniqueNames := by
  unfold insert at success
  split at success
  · cases success
  · rename_i free
    cases success
    apply List.pairwise_append.mpr
    refine ⟨unique, List.pairwise_singleton _ _, ?_⟩
    intro other member last lastMember same
    rw [List.mem_singleton.mp lastMember] at same
    apply free
    apply List.any_eq_true.mpr
    refine ⟨other, member, ?_⟩
    simp [matchesName, same.1, same.2]

end TagTable

theorem mem_of_branch_insert {table inserted : BranchTable Sha}
    {row other : BranchRow Sha} (success : table.insert row = some inserted)
    (member : other ∈ inserted) : other ∈ table ∨ other = row := by
  unfold BranchTable.insert at success
  split at success
  · cases success
  · cases success
    rcases List.mem_append.mp member with old | new
    · exact .inl old
    · exact .inr (List.mem_singleton.mp new)

theorem mem_of_tag_insert {table inserted : TagTable Sha}
    {row other : TagRow Sha} (success : table.insert row = some inserted)
    (member : other ∈ inserted) : other ∈ table ∨ other = row := by
  unfold TagTable.insert at success
  split at success
  · cases success
  · cases success
    rcases List.mem_append.mp member with old | new
    · exact .inl old
    · exact .inr (List.mem_singleton.mp new)

/-- Every row has a name of the grammar that no other row of its repository
has. -/
structure NamesHold (store : RefStore Sha) : Prop where
  branches : ∀ row ∈ store.branches, WellFormedRefName row.name
  tags : ∀ row ∈ store.tags, WellFormedRefName row.name
  branchNames : store.branches.UniqueNames
  tagNames : store.tags.UniqueNames

theorem namesHold_empty : NamesHold (.empty : RefStore Sha) :=
  { branches := fun _ member => absurd member List.not_mem_nil
    tags := fun _ member => absurd member List.not_mem_nil
    branchNames := .nil
    tagNames := .nil }

/-- A row that is about to be inserted has a name that was accepted. -/
def NameAccepted : RefStoreCall Sha → Prop
  | .branch (.insertBranch row) => isValidRefName row.name = true
  | .tag (.readTag row) => isValidRefName row.name = true
  | .tag (.insertTag row) => isValidRefName row.name = true
  | _ => True

/-- The insertion of a row stores a name with nothing around it. -/
def NameTrimmed : RefStoreCall Sha → Prop
  | .branch (.insertBranch row) => Text.trim row.name = row.name
  | .tag (.insertTag row) => Text.trim row.name = row.name
  | _ => True

theorem createBranch_accepted {ids : ObjectIds Sha}
    {id timestamp repoId name : Text} {commitSha : Sha} {isDefault : Bool}
    {call : RefCall Sha}
    (next : createBranch ids id timestamp repoId name commitSha isDefault =
      .next call) : NameAccepted (.branch call) := by
  unfold createBranch at next
  split at next
  · cases next
  · rename_i checked
    split at next
    · cases next
    · cases next
      simp only [Bool.or_eq_true, Bool.not_eq_true', not_or,
        Bool.not_eq_false] at checked
      exact checked.2

theorem branch_accepted {ids : ObjectIds Sha} {request : RefRequest Sha}
    {id timestamp : Text} {call : RefCall Sha}
    (next : request.begin ids id timestamp = .next call) :
    NameAccepted (.branch call) := by
  cases request with
  | createBranch repoId name commitSha isDefault =>
      exact createBranch_accepted next
  | updateBranch repoId name oldSha newSha =>
      change updateBranch ids id timestamp repoId name oldSha newSha = _ at next
      unfold updateBranch at next
      split at next
      · cases next
      · split at next
        · cases next
        · cases oldSha with
          | none => exact createBranch_accepted next
          | some oldSha =>
              cases next
              trivial
  | deleteBranch repoId name =>
      change deleteBranch repoId name = _ at next
      unfold deleteBranch at next
      split at next <;> cases next
      trivial
  | setDefaultBranch repoId name =>
      change setDefaultBranch repoId name = _ at next
      unfold setDefaultBranch at next
      split at next <;> cases next
      trivial

theorem tag_accepted {ids : ObjectIds Sha} {request : TagRequest Sha}
    {id timestamp : Text} {call : TagCall Sha}
    (next : request.begin ids id timestamp = .next call) :
    NameAccepted (.tag call) := by
  cases request with
  | createTag repoId name commitSha message taggerName taggerEmail =>
      change createTag ids id timestamp repoId name commitSha message taggerName
        taggerEmail = _ at next
      unfold createTag at next
      split at next
      · cases next
      · rename_i checked
        split at next
        · cases next
        · cases next
          simp only [Bool.or_eq_true, Bool.not_eq_true', not_or,
            Bool.not_eq_false] at checked
          exact checked.2
  | deleteTag repoId name =>
      change deleteTag repoId name = _ at next
      unfold deleteTag at next
      split at next <;> cases next
      trivial

variable [DecidableEq Sha]

theorem outcome_accepted (call : RefStoreCall Sha) (store : RefStore Sha)
    (accepted : NameAccepted call) {rest : RefStoreCall Sha}
    (next : (call.statement store).2 = .next rest) : NameAccepted rest := by
  cases call with
  | branch call =>
      cases call with
      | insertBranch row =>
          simp only [RefStoreCall.statement, RefCall.statement] at next
          split at next <;> cases next
          trivial
      | readExisting repoId name commitSha =>
          simp only [RefStoreCall.statement, RefCall.statement] at next
          split at next <;> cases next
      | swapCommit repoId name oldSha newSha timestamp =>
          simp only [RefStoreCall.statement, RefCall.statement] at next
          split at next <;> cases next
          trivial
      | readCurrent repoId name =>
          simp only [RefStoreCall.statement, RefCall.statement] at next
          split at next <;> cases next
      | checkDeletable repoId name =>
          simp only [RefStoreCall.statement, RefCall.statement] at next
          split at next
          · cases next
          · split at next
            · cases next
            · split at next <;> cases next
              trivial
      | deleteRow repoId name => cases next
      | checkExists repoId name =>
          simp only [RefStoreCall.statement, RefCall.statement] at next
          split at next <;> cases next
          trivial
      | clearDefault repoId name =>
          cases next
          trivial
      | markDefault repoId name => cases next
  | tag call =>
      cases call with
      | readTag row =>
          simp only [RefStoreCall.statement, TagCall.statement] at next
          split at next <;> cases next
          exact accepted
      | insertTag row =>
          simp only [RefStoreCall.statement, TagCall.statement] at next
          split at next <;> cases next
          trivial
      | readExistingNow repoId name commitSha =>
          simp only [RefStoreCall.statement, TagCall.statement] at next
          split at next <;> cases next
      | checkTag repoId name =>
          simp only [RefStoreCall.statement, TagCall.statement] at next
          split at next <;> cases next
          trivial
      | deleteTagRow repoId name => cases next

/-- A row of the branch table after a statement has the name of an earlier row
or of the row that is inserted. -/
theorem branch_name_after (call : RefCall Sha) (table : BranchTable Sha)
    {row : BranchRow Sha} (member : row ∈ (call.statement table).1) :
    (∃ other ∈ table, other.name = row.name) ∨ call = .insertBranch row := by
  have kept : ∀ update : BranchRow Sha → BranchRow Sha,
      (∀ row, (update row).name = row.name) → row ∈ table.map update →
      ∃ other ∈ table, other.name = row.name := by
    intro update named mapped
    obtain ⟨other, present, same⟩ := List.mem_map.mp mapped
    exact ⟨other, present, by rw [← same, named]⟩
  cases call with
  | insertBranch inserted =>
      simp only [RefCall.statement] at member
      cases success : table.insert inserted with
      | none =>
          rw [success] at member
          exact .inl ⟨row, member, rfl⟩
      | some after =>
          rw [success] at member
          rcases mem_of_branch_insert success member with old | new
          · exact .inl ⟨row, old, rfl⟩
          · exact .inr (by rw [new])
  | readExisting | readCurrent | checkExists =>
      simp only [RefCall.statement] at member
      split at member <;> exact .inl ⟨row, member, rfl⟩
  | swapCommit repoId name oldSha newSha timestamp =>
      simp only [RefCall.statement] at member
      split at member
      · refine .inl (kept _ ?_ member)
        intro other
        split <;> rfl
      · exact .inl ⟨row, member, rfl⟩
  | checkDeletable repoId name =>
      simp only [RefCall.statement] at member
      split at member
      · exact .inl ⟨row, member, rfl⟩
      · split at member
        · exact .inl ⟨row, member, rfl⟩
        · split at member <;> exact .inl ⟨row, member, rfl⟩
  | deleteRow repoId name =>
      exact .inl ⟨row, (List.mem_filter.mp member).1, rfl⟩
  | clearDefault | markDefault =>
      refine .inl (kept _ ?_ member)
      intro other
      split <;> rfl

omit [DecidableEq Sha] in
theorem tag_after (call : TagCall Sha) (table : TagTable Sha)
    (unique : table.UniqueNames) :
    (call.statement table).1.UniqueNames ∧
      ∀ row ∈ (call.statement table).1, row ∈ table ∨ call = .insertTag row := by
  cases call with
  | readTag | readExistingNow | checkTag =>
      simp only [TagCall.statement]
      split <;> exact ⟨unique, fun _ member => .inl member⟩
  | insertTag inserted =>
      simp only [TagCall.statement]
      cases success : table.insert inserted with
      | none => exact ⟨unique, fun _ member => .inl member⟩
      | some after =>
          refine ⟨TagTable.uniqueNames_insert unique success, ?_⟩
          intro row member
          rcases mem_of_tag_insert success member with old | new
          · exact .inl old
          · exact .inr (by rw [new])
  | deleteTagRow repoId name =>
      refine ⟨unique.sublist List.filter_sublist, ?_⟩
      intro row member
      exact .inl (List.mem_filter.mp member).1

theorem namesHold_statement (call : RefStoreCall Sha) {store : RefStore Sha}
    (hold : NamesHold store) (accepted : NameAccepted call)
    (trimmed : NameTrimmed call) : NamesHold (call.statement store).1 := by
  obtain ⟨branches, tags, branchNames, tagNames⟩ := hold
  cases call with
  | branch call =>
      refine ⟨?_, tags, uniqueNames_statement call branchNames, tagNames⟩
      intro row member
      rcases branch_name_after call store.branches member with
        ⟨other, present, same⟩ | inserts
      · rw [← same]
        exact branches other present
      · subst inserts
        exact wellFormed_of_valid accepted trimmed
  | tag call =>
      obtain ⟨unique, rows⟩ := tag_after call store.tags tagNames
      refine ⟨branches, ?_, branchNames, unique⟩
      intro row member
      rcases rows row member with old | inserts
      · exact tags row old
      · subst inserts
        exact wellFormed_of_valid accepted trimmed

def remotesPrefix : Text := ['r', 'e', 'm', 'o', 't', 'e', 's', '/']

def refsPrefix : Text := ['r', 'e', 'f', 's', '/']

def headsPrefix : Text :=
  ['r', 'e', 'f', 's', '/', 'h', 'e', 'a', 'd', 's', '/']

def tagsPrefix : Text := ['r', 'e', 'f', 's', '/', 't', 'a', 'g', 's', '/']

def branchRefName (name : Text) : Text :=
  if Text.startsWith name remotesPrefix then refsPrefix ++ name
  else headsPrefix ++ name

def tagRefName (name : Text) : Text := tagsPrefix ++ name

omit [DecidableEq Sha] in
theorem listedNames (store : RefStore Sha) (repoId : Text) :
    (listAllRefs store.branches store.tags repoId).map (·.name) =
      (listBranches store.branches repoId).map (fun row => branchRefName row.name) ++
        (listTags store.tags repoId).map fun row => tagRefName row.name := by
  unfold listAllRefs
  rw [List.map_append, List.map_map, List.map_map]
  rfl

theorem branchRefName_remote {name : Text}
    (remote : Text.startsWith name remotesPrefix = true) :
    ∃ rest, branchRefName name = refsPrefix ++ (remotesPrefix ++ rest) := by
  obtain ⟨rest, shape⟩ := List.isPrefixOf_iff_prefix.mp remote
  refine ⟨rest, ?_⟩
  rw [branchRefName, if_pos remote, ← shape]

theorem branchRefName_injective : Function.Injective branchRefName := by
  have apart : ∀ name other : Text,
      Text.startsWith name remotesPrefix = true →
      branchRefName name ≠ headsPrefix ++ other := by
    intro name other remote same
    obtain ⟨rest, shape⟩ := branchRefName_remote remote
    rw [shape] at same
    have sixth : some 'r' = some 'h' :=
      congrArg (fun text : Text => text[5]?) same
    exact absurd sixth (by decide)
  intro left right same
  by_cases leftRemote : Text.startsWith left remotesPrefix = true
  · by_cases rightRemote : Text.startsWith right remotesPrefix = true
    · rw [branchRefName, branchRefName, if_pos leftRemote, if_pos rightRemote]
        at same
      exact List.append_cancel_left same
    · rw [branchRefName.eq_def right, if_neg rightRemote] at same
      exact absurd same (apart left right leftRemote)
  · by_cases rightRemote : Text.startsWith right remotesPrefix = true
    · rw [branchRefName.eq_def left, if_neg leftRemote] at same
      exact absurd same.symm (apart right left rightRemote)
    · rw [branchRefName, branchRefName, if_neg leftRemote, if_neg rightRemote]
        at same
      exact List.append_cancel_left same

theorem branchRefName_ne_tag (branch tag : Text) :
    branchRefName branch ≠ tagRefName tag := by
  intro same
  by_cases remote : Text.startsWith branch remotesPrefix = true
  · obtain ⟨rest, shape⟩ := branchRefName_remote remote
    rw [shape] at same
    have sixth : some 'r' = some 't' :=
      congrArg (fun text : Text => text[5]?) same
    exact absurd sixth (by decide)
  · rw [branchRefName, if_neg remote] at same
    have sixth : some 'h' = some 't' :=
      congrArg (fun text : Text => text[5]?) same
    exact absurd sixth (by decide)

omit [DecidableEq Sha] in
theorem mem_listBranches {table : BranchTable Sha} {repoId : Text}
    {row : BranchRow Sha} (member : row ∈ listBranches table repoId) :
    row ∈ table := by
  unfold listBranches at member
  split at member
  · exact (List.mem_filter.mp member).1
  · cases member

omit [DecidableEq Sha] in
theorem mem_listTags {table : TagTable Sha} {repoId : Text}
    {row : TagRow Sha} (member : row ∈ listTags table repoId) : row ∈ table := by
  unfold listTags at member
  split at member
  · exact (List.mem_filter.mp member).1
  · cases member

omit [DecidableEq Sha] in
theorem listBranches_names {table : BranchTable Sha}
    (unique : table.UniqueNames) (repoId : Text) :
    (listBranches table repoId).Pairwise fun left right =>
      left.name ≠ right.name := by
  unfold listBranches
  split
  · apply (unique.filter _).imp_of_mem
    intro left right leftMember rightMember apart same
    have leftRepo := of_decide_eq_true (List.mem_filter.mp leftMember).2
    have rightRepo := of_decide_eq_true (List.mem_filter.mp rightMember).2
    exact apart ⟨leftRepo.trans rightRepo.symm, same⟩
  · exact .nil

omit [DecidableEq Sha] in
theorem listTags_names {table : TagTable Sha} (unique : table.UniqueNames)
    (repoId : Text) :
    (listTags table repoId).Pairwise fun left right =>
      left.name ≠ right.name := by
  unfold listTags
  split
  · apply (unique.filter _).imp_of_mem
    intro left right leftMember rightMember apart same
    have leftRepo := of_decide_eq_true (List.mem_filter.mp leftMember).2
    have rightRepo := of_decide_eq_true (List.mem_filter.mp rightMember).2
    exact apart ⟨leftRepo.trans rightRepo.symm, same⟩
  · exact .nil

/-- Refs that stand on a line each: no two have one name, and no name has a
character that is not visible. -/
structure ListsApart (store : RefStore Sha) (repoId : Text) : Prop where
  distinct :
    ((listAllRefs store.branches store.tags repoId).map (·.name)).Nodup
  visible : ∀ ref ∈ listAllRefs store.branches store.tags repoId,
    ∀ char ∈ ref.name, isAsciiPrintable char = true

omit [DecidableEq Sha] in
theorem listsApart {store : RefStore Sha} (hold : NamesHold store)
    (repoId : Text) : ListsApart store repoId := by
  have heads : ∀ char ∈ headsPrefix, isAsciiPrintable char = true :=
    List.all_eq_true.mp (by decide)
  have tags : ∀ char ∈ tagsPrefix, isAsciiPrintable char = true :=
    List.all_eq_true.mp (by decide)
  have refs : ∀ char ∈ refsPrefix, isAsciiPrintable char = true :=
    List.all_eq_true.mp (by decide)
  constructor
  · rw [listedNames]
    apply List.nodup_append.mpr
    refine ⟨?_, ?_, ?_⟩
    · apply List.pairwise_map.mpr
      apply (listBranches_names hold.branchNames repoId).imp
      intro left right apart same
      exact apart (branchRefName_injective same)
    · apply List.pairwise_map.mpr
      apply (listTags_names hold.tagNames repoId).imp
      intro left right apart same
      exact apart (List.append_cancel_left same)
    · intro name branch other tag same
      obtain ⟨branchRow, _, branchName⟩ := List.mem_map.mp branch
      obtain ⟨tagRow, _, tagName⟩ := List.mem_map.mp tag
      rw [← branchName, ← tagName] at same
      exact branchRefName_ne_tag _ _ same
  · intro ref member char inside
    have listed : ref.name ∈
        (listAllRefs store.branches store.tags repoId).map (·.name) :=
      List.mem_map_of_mem member
    rw [listedNames] at listed
    rcases List.mem_append.mp listed with branch | tag
    · obtain ⟨row, present, same⟩ := List.mem_map.mp branch
      have grammar := hold.branches row (mem_listBranches present)
      rw [← same, branchRefName] at inside
      split at inside
      · rcases List.mem_append.mp inside with front | back
        · exact refs char front
        · exact grammar.printable char back
      · rcases List.mem_append.mp inside with front | back
        · exact heads char front
        · exact grammar.printable char back
    · obtain ⟨row, present, same⟩ := List.mem_map.mp tag
      have grammar := hold.tags row (mem_listTags present)
      rw [← same, tagRefName] at inside
      rcases List.mem_append.mp inside with front | back
      · exact tags char front
      · exact grammar.printable char back

structure RefNamesSound (store : RefStore Sha) : Prop where
  names : NamesHold store
  listed : ∀ repoId, ListsApart store repoId

/-- No row is inserted whose name has white space around it. -/
def StoresTrimmed (_ : RefStore Sha) :
    Program.Event (RefStoreCall Sha) → List (RefStoreCall Sha) → Prop
  | .run call, _ => NameTrimmed call
  | _, _ => True

def nameAssertions :
    Program.Assertions (RefStore Sha) (RefStoreCall Sha) (RefStoreOutcome Sha)
    where
  shared := NamesHold
  call _ := NameAccepted
  result _ _ := True

theorem stored_names (ids : ObjectIds Sha)
    {reached : Program.Config (RefStore Sha) (RefStoreCall Sha)
      (RefStoreOutcome Sha)}
    (run : (refStoreProgram ids).Run StoresTrimmed ⟨.empty, [], []⟩ reached) :
    RefNamesSound reached.shared := by
  have hold : nameAssertions.Hold reached := by
    apply nameAssertions.hold_of_run run
    · refine ⟨namesHold_empty, ?_, fun _ _ => trivial⟩
      intro call member
      cases member
    · intro store call starts
      cases call with
      | branch call =>
          obtain ⟨request, id, timestamp, next⟩ := starts
          exact branch_accepted next
      | tag call =>
          obtain ⟨request, id, timestamp, next⟩ := starts
          exact tag_accepted next
    · intro store call others names accepted trimmed
      constructor
      · exact namesHold_statement call names accepted trimmed
      · cases outcome : (call.statement store).2 with
        | next rest =>
            change nameAssertions.HoldAfter _ (call.statement store).2
            rw [outcome]
            exact outcome_accepted call store accepted outcome
        | done result =>
            change nameAssertions.HoldAfter _ (call.statement store).2
            rw [outcome]
            trivial
      · exact fun _ kept => kept
      · exact fun _ _ => trivial
  exact ⟨hold.1, listsApart hold.1⟩

namespace OneBranch

def row (name : Text) : BranchRow Digest where
  id := "b1".toList
  repoId := "r1".toList
  name := name
  commitSha := termIds.hashObject (.blob [])
  isDefault := false
  isProtected := false
  createdAt := "t1".toList
  updatedAt := "t1".toList

theorem created (name : Text) (valid : isValidRefName name = true)
    {allowed : RefStore Digest → Program.Event (RefStoreCall Digest) →
      List (RefStoreCall Digest) → Prop}
    (start : allowed .empty (.start (.branch (.insertBranch (row name)))) [])
    (insert : allowed .empty (.run (.branch (.insertBranch (row name)))) []) :
    (refStoreProgram termIds).Run allowed ⟨.empty, [], []⟩
      ⟨⟨[row name], []⟩, [], [.branch (.returned .ok)]⟩ := by
  have begun : (RefRequest.createBranch "r1".toList name
      (termIds.hashObject (.blob [])) false).begin termIds "b1".toList
        "t1".toList = .next (.insertBranch (row name)) := by
    have repo : isValidRepoId "r1".toList = true := by decide +kernel
    simp only [RefRequest.begin, createBranch, repo, valid]
    rfl
  have started : (refStoreProgram termIds).Run allowed ⟨.empty, [], []⟩
      ⟨.empty, [.branch (.insertBranch (row name))], []⟩ :=
    Program.Run.here.starting _ ⟨_, _, _, begun⟩ start
  exact started.finishing [] [] rfl insert

theorem main_stored : RefNamesSound (⟨[row "main".toList], []⟩ : RefStore Digest) :=
  stored_names termIds
    (created "main".toList (by decide +kernel) trivial (by
      change Text.trim "main".toList = "main".toList
      decide +kernel))

/-- A name with a line break at its end is stored with it. -/
theorem broken_line_stored :
    ¬ ∀ reached : Program.Config (RefStore Digest) (RefStoreCall Digest)
        (RefStoreOutcome Digest),
      (refStoreProgram termIds).Run (fun _ _ _ => True) ⟨.empty, [], []⟩
        reached → RefNamesSound reached.shared := by
  intro sound
  have hold := sound _ (created "main\n".toList (by decide +kernel) trivial
    trivial)
  have grammar := hold.names.branches (row "main\n".toList)
    List.mem_cons_self
  exact absurd grammar.untrimmed (by decide +kernel)

end OneBranch

end Takos.Git
