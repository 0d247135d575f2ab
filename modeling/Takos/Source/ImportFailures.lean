import Takos.Source.ExternalImport

/-!
# Failures while refs are replaced

A failing statement leaves the refs that the loops have inserted so far.  The
call is safe exactly when those are the stored or the advertised ones already,
and the default branch is among them.
-/

namespace Takos.Source

open Takos.Foundation Takos.Git

variable {Sha : Type}

/-- Branches and tags of one repository, by name and target. -/
structure RefSet (Sha : Type) where
  heads : List (Text × Sha)
  tags : List (Text × Sha)

def RefSet.Same (left right : RefSet Sha) : Prop :=
  (∀ ref, ref ∈ left.heads ↔ ref ∈ right.heads) ∧
    ∀ ref, ref ∈ left.tags ↔ ref ∈ right.tags

theorem RefSet.Same.refl (refs : RefSet Sha) : refs.Same refs :=
  ⟨fun _ => Iff.rfl, fun _ => Iff.rfl⟩

def storedRefs (tables : ImportTables Sha) (repoId : Text) : RefSet Sha where
  heads := (tables.branches.filter fun row => row.repoId = repoId).map
    fun row => (row.name, row.commitSha)
  tags := (tables.tags.filter fun row => row.repoId = repoId).map
    fun row => (row.name, row.commitSha)

def importedRefs (refs : List (RemoteRef Sha)) : RefSet Sha where
  heads := (branchRefs refs).map fun ref => (branchName ref, ref.target)
  tags := (tagRefs refs).map fun ref => (tagName ref, ref.target)

def HasDefault (tables : ImportTables Sha) (repoId : Text) : Prop :=
  ∃ row ∈ tables.branches, row.repoId = repoId ∧ row.isDefault = true

/-- The outcome that the call should have, whatever statement fails. -/
def RefsAtomic (before after : ImportTables Sha) (repoId : Text)
    (refs : List (RemoteRef Sha)) : Prop :=
  ((storedRefs after repoId).Same (storedRefs before repoId) ∨
      (storedRefs after repoId).Same (importedRefs refs)) ∧
    (HasDefault before repoId → HasDefault after repoId)

/-- The refs before the failing insertion and before the first repeated name. -/
def accepted (fails : Nat → Bool) (name : RemoteRef Sha → Text) :
    Nat → List Text → List (RemoteRef Sha) → List (RemoteRef Sha)
  | _, _, [] => []
  | index, seen, ref :: rest =>
    if fails index = true ∨ name ref ∈ seen then []
    else ref :: accepted fails name (index + 1) (name ref :: seen) rest

section Condition

variable (failing : Option FetchStatement) (repoId : Text)
  (refs : List (RemoteRef Sha)) (tables : ImportTables Sha)

def acceptedHeads : List (RemoteRef Sha) :=
  accepted (fun index => failing = some (.insertBranch index)) branchName 0 []
    (branchRefs refs)

def acceptedTags : List (RemoteRef Sha) :=
  if (acceptedHeads failing refs).length = (branchRefs refs).length then
    accepted (fun index => failing = some (.insertTag index)) tagName 0 []
      (tagRefs refs)
  else []

/-- The call ends before the first deletion takes effect. -/
def StopsEarly : Prop :=
  failing ∈ [some .readRepository, some .readBranches, some .readTags,
      some .readRemote, some .deleteBranches] ∨
    (tables.repositories.find? fun row => row.id = repoId).bind
      RepositoryRow.remoteCloneUrl ∈ [none, some []]

/-- What the statements before the failing one leave. -/
def remainingRefs : RefSet Sha :=
  if failing = some .deleteTags then
    ⟨[], (storedRefs tables repoId).tags⟩
  else
    { heads := (acceptedHeads failing refs).map
        fun ref => (branchName ref, ref.target)
      tags := (acceptedTags failing refs).map
        fun ref => (tagName ref, ref.target) }

def Undamaged (advertised : Option Text) : Prop :=
  StopsEarly failing repoId tables ∨
    ((remainingRefs failing repoId refs tables).Same
        (storedRefs tables repoId) ∨
      (remainingRefs failing repoId refs tables).Same (importedRefs refs)) ∧
    (HasDefault tables repoId → resolveDefaultBranch refs advertised ∈
      (remainingRefs failing repoId refs tables).heads.map Prod.fst)

end Condition

section Loop

variable {Row View : Type} {fails : Nat → Bool}
  {insert : List Row → Row → Option (List Row)}
  {row : Nat → RemoteRef Sha → Row} {clash : Row → Row → Bool}
  {name : RemoteRef Sha → Text}

/-- The rows of a table that reject a ref are those with a name in `seen`. -/
def Tracks (clash : Row → Row → Bool) (row : Nat → RemoteRef Sha → Row)
    (name : RemoteRef Sha → Text) (table : List Row) (index : Nat)
    (seen : List Text) : Prop :=
  ∀ later, index ≤ later → ∀ ref,
    table.any (fun old => clash old (row later ref)) = true ↔ name ref ∈ seen

theorem Tracks.grow
    (apart : ∀ first later ref other, first < later →
      (clash (row first ref) (row later other) = true ↔ name other = name ref))
    {table : List Row} {index : Nat} {seen : List Text}
    (tracks : Tracks clash row name table index seen)
    (ref : RemoteRef Sha) :
    Tracks clash row name (table ++ [row index ref]) (index + 1)
      (name ref :: seen) := by
  intro later after other
  have older := tracks later (by omega) other
  have newest := apart index later ref other (by omega)
  rw [List.any_append, Bool.or_eq_true, older, List.any_cons, List.any_nil,
    Bool.or_false, newest, List.mem_cons, or_comm]

theorem insertRefs_accepted (view : Row → View)
    (refView : RemoteRef Sha → View)
    (inserts : ∀ table new, insert table new =
      if table.any (fun old => clash old new) then none
      else some (table ++ [new]))
    (apart : ∀ first later ref other, first < later →
      (clash (row first ref) (row later other) = true ↔ name other = name ref))
    (viewed : ∀ index ref, view (row index ref) = refView ref)
    (refs : List (RemoteRef Sha)) (index : Nat) (table : List Row)
    (seen : List Text) (tracks : Tracks clash row name table index seen) :
    ∃ rows, insertRefs fails insert row index refs table =
        (table ++ rows, decide
          ((accepted fails name index seen refs).length = refs.length)) ∧
      rows.map view = (accepted fails name index seen refs).map refView := by
  induction refs generalizing index table seen with
  | nil => exact ⟨[], by simp [insertRefs, accepted], rfl⟩
  | cons ref rest ih =>
      by_cases failed : fails index = true
      · exact ⟨[], by simp [insertRefs, accepted, failed],
          by simp [accepted, failed]⟩
      · have unique := tracks index (Nat.le_refl _) ref
        by_cases old : name ref ∈ seen
        · have rejected : insert table (row index ref) = none := by
            rw [inserts, if_pos (unique.mpr old)]
          exact ⟨[], by simp [insertRefs, accepted, failed, old, rejected],
            by simp [accepted, old]⟩
        · have free : table.any (fun other => clash other (row index ref)) ≠
              true := fun found => old (unique.mp found)
          have stored : insert table (row index ref) =
              some (table ++ [row index ref]) := by
            rw [inserts, if_neg free]
          obtain ⟨rows, ran, views⟩ := ih (index + 1)
            (table ++ [row index ref]) (name ref :: seen)
            (tracks.grow apart ref)
          have passed : accepted fails name index seen (ref :: rest) =
              ref :: accepted fails name (index + 1) (name ref :: seen) rest := by
            rw [accepted, if_neg (not_or.mpr ⟨failed, old⟩)]
          refine ⟨row index ref :: rows, ?_, ?_⟩
          · rw [insertRefs, if_neg failed, stored, passed]
            simp only [ran, List.append_assoc, List.singleton_append,
              List.length_cons, Nat.add_right_cancel_iff]
          · rw [passed]
            simp only [List.map_cons, viewed, views]

end Loop

section Tables

variable (failing : Option FetchStatement) (repoId timestamp : Text)
  {tables : ImportTables Sha}

/-- The tables of `after` hold the given refs of the repository, and the
default flag sits on the branch of the given name. -/
structure Holds (after : ImportTables Sha) (repoId defaultBranch : Text)
    (refs : RefSet Sha) : Prop where
  stored : storedRefs after repoId = refs
  flagged : HasDefault after repoId ↔ defaultBranch ∈ refs.heads.map Prod.fst

theorem stored_of_append {Row : Type} (repo : Row → Text)
    (view : Row → Text × Sha) (base rows : List Row)
    (others : ∀ row ∈ base, repo row ≠ repoId)
    (own : ∀ row ∈ rows, repo row = repoId) :
    ((base ++ rows).filter fun row => repo row = repoId).map view =
      rows.map view := by
  rw [List.filter_append]
  have none : base.filter (fun row => repo row = repoId) = [] := by
    apply List.filter_eq_nil_iff.mpr
    intro row member
    simpa using others row member
  have all : rows.filter (fun row => repo row = repoId) = rows := by
    apply List.filter_eq_self.mpr
    intro row member
    simpa using own row member
  rw [none, all, List.nil_append]

theorem heads_of_views (defaultBranch : Text) (refs : List (RemoteRef Sha))
    (base rows : List (BranchRow Sha))
    (others : ∀ row ∈ base, row.repoId ≠ repoId)
    (views : rows.map (fun row =>
        (row.repoId, row.name, row.commitSha, row.isDefault)) =
      refs.map fun ref => (repoId, branchName ref, ref.target,
        decide (branchName ref = defaultBranch))) :
    ((base ++ rows).filter fun row => row.repoId = repoId).map
        (fun row => (row.name, row.commitSha)) =
      refs.map (fun ref => (branchName ref, ref.target)) ∧
    ((∃ row ∈ base ++ rows, row.repoId = repoId ∧ row.isDefault = true) ↔
      ∃ ref ∈ refs, branchName ref = defaultBranch) := by
  have seen : ∀ row ∈ rows, ∃ ref ∈ refs, row.repoId = repoId ∧
      (row.isDefault = true ↔ branchName ref = defaultBranch) := by
    intro row member
    have viewed := List.mem_map_of_mem (f := fun row : BranchRow Sha =>
      (row.repoId, row.name, row.commitSha, row.isDefault)) member
    rw [views] at viewed
    obtain ⟨ref, listed, same⟩ := List.mem_map.mp viewed
    injection same with own named
    injection named with _ rest
    injection rest with _ flagged
    exact ⟨ref, listed, own.symm, by rw [← flagged, decide_eq_true_eq]⟩
  constructor
  · rw [stored_of_append repoId BranchRow.repoId _ base rows others
      fun row member => (seen row member).choose_spec.2.1]
    have cut := congrArg (List.map fun view : Text × Text × Sha × Bool =>
      (view.2.1, view.2.2.1)) views
    simpa only [List.map_map, Function.comp_def] using cut
  · constructor
    · rintro ⟨row, member, own, flagged⟩
      cases List.mem_append.mp member with
      | inl old => exact absurd own (others row old)
      | inr new =>
          obtain ⟨ref, listed, _, same⟩ := seen row new
          exact ⟨ref, listed, same.mp flagged⟩
    · rintro ⟨ref, listed, same⟩
      have viewed := List.mem_map_of_mem (f := fun ref : RemoteRef Sha =>
        (repoId, branchName ref, ref.target,
          decide (branchName ref = defaultBranch))) listed
      rw [← views] at viewed
      obtain ⟨row, member, equal⟩ := List.mem_map.mp viewed
      injection equal with own named
      injection named with _ rest
      injection rest with _ flagged
      exact ⟨row, List.mem_append_right base member, own,
        flagged.trans (decide_eq_true same)⟩

theorem insertBranches_accepted (fresh : FreshIds tables)
    (defaultBranch : Text) (refs : List (RemoteRef Sha)) (fails : Nat → Bool) :
    ∃ rows, insertRefs fails BranchTable.insert
        (branchRow fresh.generateId repoId defaultBranch timestamp) 0 refs
        (tables.branches.filter fun row => row.repoId ≠ repoId) =
      ((tables.branches.filter fun row => row.repoId ≠ repoId) ++ rows,
        decide ((accepted fails branchName 0 [] refs).length = refs.length)) ∧
      rows.map (fun row => (row.repoId, row.name, row.commitSha, row.isDefault)) =
        (accepted fails branchName 0 [] refs).map fun ref =>
          (repoId, branchName ref, ref.target,
            decide (branchName ref = defaultBranch)) := by
  let clash := fun old new : BranchRow Sha => decide (old.id = new.id) ||
    BranchTable.matchesName new.repoId new.name old
  apply @insertRefs_accepted _ _ _ _ _ _ clash
  · intro table new
    rfl
  · intro first later ref other before
    have different : fresh.generateId first ≠ fresh.generateId later := by
      intro same
      have := fresh.injective first later same
      omega
    simp only [clash, branchRow, different, BranchTable.matchesName,
      decide_false, Bool.false_or, decide_true, Bool.true_and, decide_eq_true_eq]
    exact eq_comm
  · intro index ref
    rfl
  · intro later _ ref
    simp only [List.not_mem_nil, iff_false, Bool.not_eq_true]
    apply List.any_eq_false.mpr
    intro old member
    have kept := List.mem_filter.mp member
    have unused := fresh.branches_fresh old kept.1 later
    have foreign : old.repoId ≠ repoId := by simpa using kept.2
    simp [clash, branchRow, unused, BranchTable.matchesName, foreign]

theorem insertTags_accepted (fresh : FreshIds tables)
    (refs : List (RemoteRef Sha)) (fails : Nat → Bool) :
    ∃ rows, insertRefs fails insertTag
        (tagRow fresh.generateId repoId timestamp) 0 refs
        (tables.tags.filter fun row => row.repoId ≠ repoId) =
      ((tables.tags.filter fun row => row.repoId ≠ repoId) ++ rows,
        decide ((accepted fails tagName 0 [] refs).length = refs.length)) ∧
      rows.map (fun row => (row.repoId, row.name, row.commitSha)) =
        (accepted fails tagName 0 [] refs).map fun ref =>
          (repoId, tagName ref, ref.target) := by
  let clash := fun old new : TagRow Sha => decide (old.id = new.id) ||
    (decide (old.repoId = new.repoId) && decide (old.name = new.name))
  apply @insertRefs_accepted _ _ _ _ _ _ clash
  · intro table new
    rfl
  · intro first later ref other before
    have different : fresh.generateId first ≠ fresh.generateId later := by
      intro same
      have := fresh.injective first later same
      omega
    simp only [clash, tagRow, different, decide_false, Bool.false_or,
      decide_true, Bool.true_and, decide_eq_true_eq]
    exact eq_comm
  · intro index ref
    rfl
  · intro later _ ref
    simp only [List.not_mem_nil, iff_false, Bool.not_eq_true]
    apply List.any_eq_false.mpr
    intro old member
    have kept := List.mem_filter.mp member
    have unused := fresh.tags_fresh old kept.1 later
    have foreign : old.repoId ≠ repoId := by simpa using kept.2
    simp [clash, tagRow, unused, foreign]

theorem tags_of_views (refs : List (RemoteRef Sha))
    (base rows : List (TagRow Sha))
    (others : ∀ row ∈ base, row.repoId ≠ repoId)
    (views : rows.map (fun row => (row.repoId, row.name, row.commitSha)) =
      refs.map fun ref => (repoId, tagName ref, ref.target)) :
    ((base ++ rows).filter fun row => row.repoId = repoId).map
        (fun row => (row.name, row.commitSha)) =
      refs.map fun ref => (tagName ref, ref.target) := by
  have own : ∀ row ∈ rows, row.repoId = repoId := by
    intro row member
    have viewed := List.mem_map_of_mem (f := fun row : TagRow Sha =>
      (row.repoId, row.name, row.commitSha)) member
    rw [views] at viewed
    obtain ⟨ref, _, same⟩ := List.mem_map.mp viewed
    exact (congrArg Prod.fst same).symm
  rw [stored_of_append repoId TagRow.repoId _ base rows others own]
  have cut := congrArg (List.map Prod.snd) views
  simpa only [List.map_map, Function.comp_def] using cut

theorem replaceStoredRefs_holds (fresh : FreshIds tables)
    (refs : List (RemoteRef Sha)) (defaultBranch : Text)
    (begun : failing ≠ some .deleteBranches) :
    Holds (replaceStoredRefs failing fresh.generateId repoId timestamp refs
        defaultBranch tables).1 repoId defaultBranch
      (remainingRefs failing repoId refs tables) := by
  have foreign : ∀ row ∈ tables.branches.filter
      (fun row => row.repoId ≠ repoId), row.repoId ≠ repoId := by
    intro row member
    simpa using (List.mem_filter.mp member).2
  have foreignTags : ∀ row ∈ tables.tags.filter
      (fun row => row.repoId ≠ repoId), row.repoId ≠ repoId := by
    intro row member
    simpa using (List.mem_filter.mp member).2
  have noTags := stored_of_append repoId TagRow.repoId
    (fun row => (row.name, row.commitSha)) _ [] foreignTags (by simp)
  rw [List.append_nil, List.map_nil] at noTags
  by_cases halfway : failing = some .deleteTags
  · have noHeads := heads_of_views repoId defaultBranch [] _ [] foreign rfl
    rw [List.append_nil] at noHeads
    constructor
    · simp only [replaceStoredRefs, if_neg begun, if_pos halfway, storedRefs,
        remainingRefs, noHeads.1, List.map_nil]
    · simp only [replaceStoredRefs, if_neg begun, if_pos halfway,
        remainingRefs, HasDefault, noHeads.2]
      simp
  · obtain ⟨branches, branchesRan, branchViews⟩ :=
      insertBranches_accepted repoId timestamp fresh defaultBranch
        (branchRefs refs) fun index => failing = some (.insertBranch index)
    obtain ⟨tags, tagsRan, tagViews⟩ :=
      insertTags_accepted repoId timestamp fresh (tagRefs refs)
        fun index => failing = some (.insertTag index)
    have heads := heads_of_views repoId defaultBranch _ _ _ foreign branchViews
    have remaining : remainingRefs failing repoId refs tables =
        { heads := (acceptedHeads failing refs).map
            fun ref => (branchName ref, ref.target)
          tags := (acceptedTags failing refs).map
            fun ref => (tagName ref, ref.target) } := by
      rw [remainingRefs, if_neg halfway]
    have flagged : (∃ ref ∈ acceptedHeads failing refs,
          branchName ref = defaultBranch) ↔
        defaultBranch ∈
          (remainingRefs failing repoId refs tables).heads.map Prod.fst := by
      simp [remaining]
    by_cases all : (acceptedHeads failing refs).length =
        (branchRefs refs).length
    · have ran : replaceStoredRefs failing fresh.generateId repoId timestamp
          refs defaultBranch tables =
          ({ tables with
              branches := (tables.branches.filter
                fun row => row.repoId ≠ repoId) ++ branches
              tags := (tables.tags.filter
                fun row => row.repoId ≠ repoId) ++ tags },
            decide ((accepted (fun index => failing = some (.insertTag index))
              tagName 0 [] (tagRefs refs)).length = (tagRefs refs).length)) := by
        rw [acceptedHeads] at all
        simp only [replaceStoredRefs, if_neg begun, if_neg halfway,
          branchesRan, tagsRan, all, decide_true, Bool.not_true,
          Bool.false_eq_true, if_false]
      have tagList := tags_of_views repoId _ _ _ foreignTags tagViews
      have acceptedAll : acceptedTags failing refs =
          accepted (fun index => failing = some (.insertTag index)) tagName 0
            [] (tagRefs refs) := by
        rw [acceptedTags, if_pos all]
      constructor
      · rw [ran, remaining, acceptedAll]
        simp only [storedRefs, heads.1, tagList, acceptedHeads]
      · rw [ran, ← flagged]
        exact heads.2
    · have ran : replaceStoredRefs failing fresh.generateId repoId timestamp
          refs defaultBranch tables =
          ({ tables with
              branches := (tables.branches.filter
                fun row => row.repoId ≠ repoId) ++ branches
              tags := tables.tags.filter fun row => row.repoId ≠ repoId },
            false) := by
        rw [acceptedHeads] at all
        simp only [replaceStoredRefs, if_neg begun, if_neg halfway,
          branchesRan, all, decide_false, Bool.not_false, if_true]
      constructor
      · rw [ran, remaining, acceptedTags, if_neg all]
        simp only [storedRefs, heads.1, noTags, acceptedHeads, List.map_nil]
      · rw [ran, ← flagged]
        exact heads.2

theorem recordFetch_refs (defaultBranch : Text) (tables : ImportTables Sha) :
    (recordFetch failing repoId timestamp defaultBranch tables).1.branches =
        tables.branches ∧
      (recordFetch failing repoId timestamp defaultBranch tables).1.tags =
        tables.tags := by
  unfold recordFetch
  split
  · exact ⟨rfl, rfl⟩
  · cases tables.remotes.find? fun row =>
        row.repoId = repoId && row.name = "origin".toList with
    | none => exact ⟨rfl, rfl⟩
    | some remote =>
        dsimp only
        split <;> exact ⟨rfl, rfl⟩

theorem Holds.of_same {left right : ImportTables Sha} {defaultBranch : Text}
    {refs : RefSet Sha} (branches : right.branches = left.branches)
    (tags : right.tags = left.tags)
    (holds : Holds left repoId defaultBranch refs) :
    Holds right repoId defaultBranch refs := by
  constructor
  · rw [← holds.stored, storedRefs, storedRefs, branches, tags]
  · rw [← holds.flagged, HasDefault, HasDefault, branches]

theorem fetchRemoteUpdates_early (generateId : Nat → Text)
    (refs : List (RemoteRef Sha)) (advertised : Option Text)
    (early : StopsEarly failing repoId tables) :
    (fetchRemoteUpdates failing generateId repoId timestamp refs advertised
      tables).1 = tables := by
  unfold fetchRemoteUpdates
  split
  · rfl
  · next reads =>
      split
      · rfl
      · rfl
      · next url noUrl found =>
          cases early with
          | inl stopped =>
              have first : failing = some .deleteBranches := by
                simp only [List.mem_cons, List.not_mem_nil, or_false] at *
                tauto
              simp only [replaceStoredRefs, if_pos first, Bool.not_false,
                if_true]
          | inr missing =>
              rw [found] at missing
              simp only [List.mem_cons, List.not_mem_nil, or_false,
                reduceCtorEq, false_or, Option.some.injEq] at missing
              exact absurd missing noUrl

theorem fetchRemoteUpdates_holds (fresh : FreshIds tables)
    (refs : List (RemoteRef Sha)) (advertised : Option Text)
    (begun : ¬StopsEarly failing repoId tables) :
    Holds (fetchRemoteUpdates failing fresh.generateId repoId timestamp refs
        advertised tables).1 repoId (resolveDefaultBranch refs advertised)
      (remainingRefs failing repoId refs tables) := by
  have reads : failing ∉ [some .readRepository, some .readBranches,
      some .readTags, some .readRemote] := by
    intro stopped
    apply begun
    left
    simp only [List.mem_cons, List.not_mem_nil, or_false] at *
    tauto
  have notFirst : failing ≠ some .deleteBranches := by
    intro stopped
    apply begun
    left
    simp only [stopped, List.mem_cons, true_or, or_true]
  have replaced := replaceStoredRefs_holds failing repoId timestamp fresh refs
    (resolveDefaultBranch refs advertised) notFirst
  unfold fetchRemoteUpdates
  rw [if_neg reads]
  split
  · next missing =>
      exact absurd (Or.inr (by simp [missing])) begun
  · next missing =>
      exact absurd (Or.inr (by simp [missing])) begun
  · dsimp only
    split
    · exact replaced
    · have kept := recordFetch_refs failing repoId timestamp
        (resolveDefaultBranch refs advertised)
        (replaceStoredRefs failing fresh.generateId repoId timestamp refs
          (resolveDefaultBranch refs advertised) tables).1
      exact Holds.of_same repoId kept.1 kept.2 replaced

end Tables

/-- A failing statement is harmless exactly when the refs inserted before it
are a complete set already. -/
theorem refs_replaced_iff (failing : Option FetchStatement)
    (repoId timestamp : Text) (refs : List (RemoteRef Sha))
    (advertised : Option Text) (tables : ImportTables Sha)
    (fresh : FreshIds tables) :
    RefsAtomic tables
        (fetchRemoteUpdates failing fresh.generateId repoId timestamp refs
          advertised tables).1 repoId refs ↔
      Undamaged failing repoId refs tables advertised := by
  by_cases early : StopsEarly failing repoId tables
  · have unchanged := fetchRemoteUpdates_early failing repoId timestamp
      fresh.generateId refs advertised early
    rw [unchanged]
    constructor
    · intro _
      exact Or.inl early
    · intro _
      exact ⟨Or.inl (RefSet.Same.refl _), id⟩
  · have holds := fetchRemoteUpdates_holds failing repoId timestamp fresh refs
      advertised early
    rw [RefsAtomic, holds.stored, holds.flagged, Undamaged]
    constructor
    · exact Or.inr
    · intro undamaged
      exact undamaged.resolve_left early

namespace FailedImport

def tables : ImportTables Nat where
  repositories := [⟨"r".toList, "main".toList, some "u".toList, "t".toList⟩]
  remotes := []
  branches := [⟨"b".toList, "r".toList, "main".toList, 1, true, false,
    "t".toList, "t".toList⟩]
  tags := []

def refs : List (RemoteRef Nat) := [⟨"refs/heads/main".toList, 2⟩]

def fresh : FreshIds tables where
  generateId index := List.replicate index 'i'
  injective left right same := by simpa using congrArg List.length same
  branches_fresh row member index same := by
    have first : row.id = "b".toList := by
      rw [List.mem_singleton.mp member]
    rw [first] at same
    have inside : 'b' ∈ List.replicate index 'i' := by
      rw [← same]
      exact List.mem_singleton.mpr rfl
    have letter := List.eq_of_mem_replicate inside
    revert letter
    decide
  tags_fresh row member := absurd member List.not_mem_nil

/-- The first insertion fails after both deletions: no branch is left. -/
theorem branches_lost :
    ¬RefsAtomic tables
      (fetchRemoteUpdates (some (.insertBranch 0)) fresh.generateId "r".toList
        "s".toList refs none tables).1 "r".toList refs := by
  have after : (fetchRemoteUpdates (some (.insertBranch 0)) fresh.generateId
      "r".toList "s".toList refs none tables).1.branches = [] := rfl
  intro atomic
  have flagged : HasDefault tables "r".toList :=
    ⟨_, List.mem_singleton.mpr rfl, rfl, rfl⟩
  obtain ⟨row, member, _⟩ := atomic.2 flagged
  rw [after] at member
  exact List.not_mem_nil member

end FailedImport

end Takos.Source
