import Takos.Git.TreeOps
import Mathlib.Logic.Relation

/-!
# The contents of a stored tree

`Flattens` says which files a tree holds when all of its subtrees are stored
and none of its entries is a symlink.  It knows no limits and no visited set;
a successful `flattenTree` agrees with it wherever it applies.
-/

namespace Takos.Git

open Takos.Foundation Relation

variable {Sha : Type} [DecidableEq Sha] {ids : ObjectIds Sha}

theorem childPath_of_nonempty {basePath : Text} (nonempty : basePath ≠ [])
    (name : Text) : childPath basePath name = basePath ++ '/' :: name := by
  cases basePath with
  | nil => exact absurd rfl nonempty
  | cons char rest => rfl

/-- Files below `basePath` of a tree with the given entries. -/
inductive Flattens (bucket : ObjectStore ids) :
    Text → List (TreeEntry Sha) → List (FileEntry Sha) → Prop where
  | nil (basePath : Text) : Flattens bucket basePath [] []
  | file {basePath : Text} {entry : TreeEntry Sha}
      {rest : List (TreeEntry Sha)} {later : List (FileEntry Sha)} :
      isDirectoryMode entry.mode = false →
      entry.mode ≠ FILE_MODES.SYMLINK →
      Flattens bucket basePath rest later →
      Flattens bucket basePath (entry :: rest)
        (⟨childPath basePath entry.name, entry.sha, entry.mode⟩ :: later)
  | dir {basePath : Text} {entry : TreeEntry Sha}
      {inner rest : List (TreeEntry Sha)}
      {inside later : List (FileEntry Sha)} :
      isDirectoryMode entry.mode = true →
      bucket.getTreeEntries entry.sha = some inner →
      Flattens bucket (childPath basePath entry.name) inner inside →
      Flattens bucket basePath rest later →
      Flattens bucket basePath (entry :: rest) (inside ++ later)

/-- The files of the tree stored under `treeSha`. -/
def TreeFiles (bucket : ObjectStore ids) (treeSha : Sha)
    (files : List (FileEntry Sha)) : Prop :=
  ∃ entries, bucket.getTreeEntries treeSha = some entries ∧
    Flattens bucket [] entries files

namespace Flattens

variable {bucket : ObjectStore ids} {basePath : Text}
  {entries : List (TreeEntry Sha)} {files : List (FileEntry Sha)}

theorem functional {others : List (FileEntry Sha)}
    (left : Flattens bucket basePath entries files)
    (right : Flattens bucket basePath entries others) : files = others := by
  induction left generalizing others with
  | nil _ =>
      cases right
      rfl
  | file plain _ _ ih =>
      cases right with
      | file _ _ later => rw [ih later]
      | dir isDir _ _ _ => simp [plain] at isDir
  | dir isDir stored _ _ insideIh laterIh =>
      cases right with
      | file plain _ _ => simp [isDir] at plain
      | dir _ storedAgain inside later =>
          rw [stored] at storedAgain
          cases storedAgain
          rw [insideIh inside, laterIh later]

theorem perm {others : List (TreeEntry Sha)}
    (permuted : entries.Perm others)
    (flattens : Flattens bucket basePath entries files) :
    ∃ result, Flattens bucket basePath others result ∧ files.Perm result := by
  induction permuted generalizing files with
  | nil =>
      cases flattens
      exact ⟨[], .nil _, .refl _⟩
  | cons entry _ ih =>
      cases flattens with
      | file plain notLink later =>
          obtain ⟨result, flattensRest, same⟩ := ih later
          exact ⟨_, .file plain notLink flattensRest, same.cons _⟩
      | dir isDir stored inside later =>
          obtain ⟨result, flattensRest, same⟩ := ih later
          exact ⟨_, .dir isDir stored inside flattensRest,
            same.append_left _⟩
  | swap first second rest =>
      cases flattens with
      | file secondPlain secondNotLink later =>
          cases later with
          | file firstPlain firstNotLink later =>
              exact ⟨_, .file firstPlain firstNotLink
                (.file secondPlain secondNotLink later), .swap _ _ _⟩
          | dir firstDir stored inside later =>
              exact ⟨_, .dir firstDir stored inside
                (.file secondPlain secondNotLink later),
                List.perm_middle.symm⟩
      | dir secondDir secondStored secondInside later =>
          cases later with
          | file firstPlain firstNotLink later =>
              exact ⟨_, .file firstPlain firstNotLink
                (.dir secondDir secondStored secondInside later),
                List.perm_middle⟩
          | dir firstDir stored inside later =>
              refine ⟨_, .dir firstDir stored inside
                (.dir secondDir secondStored secondInside later), ?_⟩
              rw [← List.append_assoc, ← List.append_assoc]
              exact List.perm_append_comm.append_right _
  | trans _ _ firstIh secondIh =>
      obtain ⟨middle, flattensMiddle, firstSame⟩ := firstIh flattens
      obtain ⟨result, flattensResult, secondSame⟩ := secondIh flattensMiddle
      exact ⟨result, flattensResult, firstSame.trans secondSame⟩

theorem modes (flattens : Flattens bucket basePath entries files) :
    ∀ file ∈ files, isDirectoryMode file.mode = false ∧
      file.mode ≠ FILE_MODES.SYMLINK := by
  induction flattens with
  | nil _ => simp
  | file plain notLink _ ih =>
      intro file member
      rcases List.mem_cons.mp member with here | later
      · subst here
        exact ⟨plain, notLink⟩
      · exact ih file later
  | dir _ _ _ _ insideIh laterIh =>
      intro file member
      rcases List.mem_append.mp member with inside | later
      · exact insideIh file inside
      · exact laterIh file later

theorem path_below (flattens : Flattens bucket basePath entries files)
    (nonempty : basePath ≠ []) :
    ∀ file ∈ files, ∃ rest, file.path = basePath ++ '/' :: rest := by
  induction flattens with
  | nil _ => simp
  | @file basePath entry _ _ _ _ _ ih =>
      intro file member
      rcases List.mem_cons.mp member with here | later
      · subst here
        exact ⟨entry.name, childPath_of_nonempty nonempty entry.name⟩
      · exact ih nonempty file later
  | @dir basePath entry _ _ _ _ _ _ _ _ insideIh laterIh =>
      intro file member
      have step := childPath_of_nonempty nonempty entry.name
      rcases List.mem_append.mp member with inside | later
      · obtain ⟨rest, shape⟩ := insideIh (by simp [step]) file inside
        exact ⟨entry.name ++ '/' :: rest, by simp [shape, step]⟩
      · exact laterIh nonempty file later

end Flattens

theorem TreeFiles.functional {bucket : ObjectStore ids} {treeSha : Sha}
    {files others : List (FileEntry Sha)}
    (left : TreeFiles bucket treeSha files)
    (right : TreeFiles bucket treeSha others) : files = others := by
  obtain ⟨entries, stored, flattens⟩ := left
  obtain ⟨otherEntries, storedAgain, otherFlattens⟩ := right
  rw [stored] at storedAgain
  cases storedAgain
  exact flattens.functional otherFlattens

/-- `child` is a subdirectory of the tree `parent`. -/
def SubtreeOf (bucket : ObjectStore ids) (child parent : Sha) : Prop :=
  ∃ entries, bucket.getTreeEntries parent = some entries ∧
    ∃ entry ∈ entries, isDirectoryMode entry.mode = true ∧ entry.sha = child

theorem Flattens.accessible {bucket : ObjectStore ids} {basePath : Text}
    {entries : List (TreeEntry Sha)} {files : List (FileEntry Sha)}
    (flattens : Flattens bucket basePath entries files) :
    ∀ entry ∈ entries, isDirectoryMode entry.mode = true →
      Acc (SubtreeOf bucket) entry.sha := by
  induction flattens with
  | nil _ => simp
  | file plain _ _ ih =>
      intro entry member isDir
      rcases List.mem_cons.mp member with here | later
      · subst here
        simp [plain] at isDir
      · exact ih entry later isDir
  | @dir _ first inner _ _ _ _ stored _ _ insideIh laterIh =>
      intro entry member isDir
      rcases List.mem_cons.mp member with here | later
      · subst here
        constructor
        intro child link
        obtain ⟨entries, storedAgain, childEntry, childMember, childDir, same⟩ :=
          link
        rw [stored] at storedAgain
        cases storedAgain
        exact same ▸ insideIh childEntry childMember childDir
      · exact laterIh entry later isDir

private theorem not_cyclic {Node : Type} {relation : Node → Node → Prop}
    {node : Node} (accessible : Acc relation node) :
    ¬TransGen relation node node := by
  have transitive := accessible.transGen
  clear accessible
  induction transitive with
  | intro node _ ih =>
      intro cycle
      exact ih node cycle cycle

private theorem walkEntries_files {bucket : ObjectStore ids}
    {options : FlattenOptions}
    {descend : Sha → Text → Nat →
      Except TreeError (List (FileEntry Sha) × Nat)}
    {basePath : Text} {entries : List (TreeEntry Sha)}
    {files : List (FileEntry Sha)}
    (flattens : Flattens bucket basePath entries files)
    (descends : ∀ entry ∈ entries, isDirectoryMode entry.mode = true →
      ∀ inner inside, bucket.getTreeEntries entry.sha = some inner →
      Flattens bucket (childPath basePath entry.name) inner inside →
      ∀ before found after,
        descend entry.sha (childPath basePath entry.name) before =
          .ok (found, after) → found = inside)
    {before after : Nat} {found : List (FileEntry Sha)}
    (walked : walkEntries options descend basePath entries before =
      .ok (found, after)) :
    found = files := by
  induction entries generalizing files before found with
  | nil =>
      cases flattens
      cases walked
      rfl
  | cons entry rest ih =>
      have restDescends := fun other member =>
        descends other (List.mem_cons_of_mem entry member)
      simp only [walkEntries] at walked
      split at walked
      · cases walked
      · cases flattens with
        | file plain notLink later =>
            simp only [plain, notLink, if_false, Bool.false_eq_true,
              bind, Except.bind] at walked
            split at walked
            · cases walked
            · rename_i outcome rest
              cases walked
              rw [ih later restDescends rest]
        | dir isDir stored inside later =>
            simp only [isDir, if_true, bind, Except.bind] at walked
            split at walked
            · cases walked
            · rename_i outcome entered
              split at walked
              · cases walked
              · rename_i outcome rest
                cases walked
                have insideEq := descends entry List.mem_cons_self isDir _ _
                  stored inside _ _ _ entered
                rw [ih later restDescends rest, insideEq]

private theorem walk_files {bucket : ObjectStore ids}
    {options : FlattenOptions} {levels : Nat} {visited : List Sha}
    {treeSha : Sha} {basePath : Text} {entries : List (TreeEntry Sha)}
    {files : List (FileEntry Sha)}
    (stored : bucket.getTreeEntries treeSha = some entries)
    (flattens : Flattens bucket basePath entries files)
    (above : ∀ seen ∈ visited, TransGen (SubtreeOf bucket) treeSha seen)
    {before after : Nat} {found : List (FileEntry Sha)}
    (walked : walk bucket options levels visited treeSha basePath before =
      .ok (found, after)) :
    found = files := by
  induction levels generalizing visited treeSha basePath entries files before
    after found with
  | zero => cases walked
  | succ levels ih =>
      have accessible : Acc (SubtreeOf bucket) treeSha := by
        constructor
        intro child link
        obtain ⟨_, storedAgain, entry, member, isDir, same⟩ := link
        rw [stored] at storedAgain
        cases storedAgain
        exact same ▸ flattens.accessible entry member isDir
      have fresh : treeSha ∉ visited := fun seen =>
        not_cyclic accessible (above treeSha seen)
      simp only [walk, fresh, if_false, stored] at walked
      apply walkEntries_files flattens _ walked
      intro entry member isDir inner inside innerStored innerFlattens
        start result final entered
      have link : SubtreeOf bucket entry.sha treeSha :=
        ⟨entries, stored, entry, member, isDir, rfl⟩
      apply ih innerStored innerFlattens _ entered
      intro seen seenMember
      rcases List.mem_cons.mp seenMember with here | older
      · exact here ▸ .single link
      · exact .head link (above seen older)

/-- A tree with all its subtrees flattens to its files, unless a limit stops
the walk. -/
theorem flattenTree_files {bucket : ObjectStore ids} {treeSha : Sha}
    {files found : List (FileEntry Sha)}
    (complete : TreeFiles bucket treeSha files)
    (flattened : flattenTree bucket treeSha = .ok found) : found = files := by
  obtain ⟨entries, stored, flattens⟩ := complete
  simp only [flattenTree, flattenTreeWith, bind, Except.bind] at flattened
  split at flattened
  · cases flattened
  · rename_i outcome walked
    cases flattened
    exact walk_files stored flattens (by simp) walked

end Takos.Git
