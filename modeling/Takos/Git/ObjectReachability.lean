import Takos.Git.LiveObjects

/-!
# Reachable objects and the two walks

In the object graph of a repository a commit leads to its tree and parents, a
tree to its entries except submodules, and a tag to the tagged object.  The
walks miss tagged objects and take in submodule commits; the conditions below
say when neither matters.
-/

namespace Takos.Git

open Takos.Foundation Relation

variable {Sha : Type} [DecidableEq Sha] {ids : ObjectIds Sha}

/-- Mode of a submodule entry. -/
def GITLINK : Text := ['1', '6', '0', '0', '0', '0']

section Reachability

variable (store : CommitStore ids) (repoId : Text)
  -- the `object` line of a stored tag
  (tagTarget : List UInt8 → Option Sha)

inductive ObjectLink : Sha → Sha → Prop where
  | tree {sha : Sha} {commit : GitCommit Sha} :
      store.getCommit repoId sha = some commit → ObjectLink sha commit.tree
  | parent {sha parent : Sha} {commit : GitCommit Sha} :
      store.getCommit repoId sha = some commit → parent ∈ commit.parents →
      ObjectLink sha parent
  | entry {sha : Sha} {entries : List (TreeEntry Sha)} {entry : TreeEntry Sha} :
      store.bucket.getTreeEntries sha = some entries → entry ∈ entries →
      entry.mode ≠ GITLINK → ObjectLink sha entry.sha
  | tagged {sha target : Sha} {content : List UInt8} :
      store.bucket.getObject sha = some (.tag content) →
      tagTarget content = some target → ObjectLink sha target

abbrev ReachesObject : Sha → Sha → Prop :=
  ReflTransGen (ObjectLink store repoId tagTarget)

/-- The repository can read the id as a commit or as a stored object. -/
def Known (sha : Sha) : Prop :=
  (store.getCommit repoId sha).isSome = true ∨
    (store.bucket.getObject sha).isSome = true

/-- An upload-pack walk that collects what the client lacks and nothing else. -/
structure CollectsWanted (wants haves result : List Sha) : Prop where
  ran : collectReachableObjects store repoId haves wants = some result
  nodup : result.Nodup
  known : ∀ sha ∈ result, Known store repoId sha
  wanted : ∀ sha ∈ result, ∃ want ∈ wants,
    ReachesObject store repoId tagTarget want sha
  complete : ∀ want ∈ wants, ∀ sha,
    ReachesObject store repoId tagTarget want sha → Known store repoId sha →
    sha ∈ result ∨
      ∃ held ∈ haves, ReachesObject store repoId tagTarget held sha

/-- A garbage-collection walk that keeps every object behind a ref. -/
structure KeepsReachable (blank : Sha → Bool) (table : BranchTable Sha)
    (tags : List (TagRow Sha)) (live : List Sha) : Prop where
  ran : collectReachableObjectShas store repoId blank table tags = some live
  complete : ∀ ref ∈ listAllRefs table tags repoId, ∀ sha,
    ReachesObject store repoId tagTarget ref.target sha →
    Known store repoId sha → sha ∈ live

/-- Ids that the upload-pack walk meets. -/
abbrev MeetsWanted (wants haves : List Sha) : ObjectRole → Sha → Prop :=
  (objectGraph store repoId).Meets (· ∈ haves) (commitRoots wants)

structure WantsCovered (wants haves : List Sha) : Prop where
  known : ∀ role sha, MeetsWanted store repoId wants haves role sha →
    Known store repoId sha
  submodules : ∀ treeSha entries entry,
    MeetsWanted store repoId wants haves .tree treeSha →
    store.bucket.getTreeEntries treeSha = some entries → entry ∈ entries →
    entry.mode = GITLINK → entry.sha ∉ haves →
    ∃ want ∈ wants, ReachesObject store repoId tagTarget want entry.sha
  unfollowed : ∀ role sha target,
    MeetsWanted store repoId wants haves role sha →
    ObjectLink store repoId tagTarget sha target →
    (∀ place, (place, target) ∉ (objectGraph store repoId).follow role sha) →
    Known store repoId target →
    (∃ place, MeetsWanted store repoId wants haves place target) ∨
      ∃ held ∈ haves, ReachesObject store repoId tagTarget held target

/-- Ids that the garbage-collection walk meets. -/
abbrev MeetsKept (blank : Sha → Bool) (table : BranchTable Sha)
    (tags : List (TagRow Sha)) : ObjectRole → Sha → Prop :=
  MeetsLive store repoId blank
    ((listAllRefs table tags repoId).map ListedRef.target)

def RefsCovered (blank : Sha → Bool) (table : BranchTable Sha)
    (tags : List (TagRow Sha)) : Prop :=
  ∀ ref ∈ listAllRefs table tags repoId, ∀ role sha target,
    ReachesObject store repoId tagTarget ref.target sha →
    MeetsKept store repoId blank table tags role sha →
    ObjectLink store repoId tagTarget sha target →
    (∀ place, (place, target) ∉
      (liveGraph store repoId blank).follow role sha) →
    Known store repoId target →
    ∃ place, MeetsKept store repoId blank table tags place target

variable {store repoId tagTarget}

theorem ObjectLink.known {sha target : Sha}
    (link : ObjectLink store repoId tagTarget sha target) :
    Known store repoId sha := by
  cases link with
  | tree read => exact .inl (by simp [read])
  | parent read _ => exact .inl (by simp [read])
  | tagged read _ => exact .inr (by simp [read])
  | entry read _ _ =>
      right
      unfold ObjectStore.getTreeEntries at read
      split at read
      · rename_i found
        simp [found]
      · cases read

theorem link_of_follow {role place : ObjectRole} {sha target : Sha}
    (followed : (place, target) ∈ (objectGraph store repoId).follow role sha) :
    ObjectLink store repoId tagTarget sha target ∨
      role = .tree ∧ ∃ entries entry,
        store.bucket.getTreeEntries sha = some entries ∧ entry ∈ entries ∧
          entry.mode = GITLINK ∧ entry.sha = target := by
  cases role with
  | commit =>
      left
      cases read : store.getCommit repoId sha with
      | none => simp [objectGraph, read] at followed
      | some commit =>
          rcases (follow_commit read _).mp followed with same |
            ⟨parent, inside, same⟩
          · cases same
            exact .tree read
          · cases same
            exact .parent read inside
  | tree =>
      cases read : store.bucket.getTreeEntries sha with
      | none => simp [objectGraph, read] at followed
      | some entries =>
          obtain ⟨entry, inside, same⟩ := (follow_tree _ _).mp followed
          rw [read] at inside
          cases same
          by_cases submodule : entry.mode = GITLINK
          · exact .inr ⟨rfl, entries, entry, rfl, inside, submodule, rfl⟩
          · exact .inl (.entry read inside submodule)
  | leaf => simp [objectGraph] at followed

end Reachability

section Upload

variable {store : CommitStore ids} {repoId : Text}
  {tagTarget : List UInt8 → Option Sha} {wants haves : List Sha}

theorem WantsCovered.wanted
    (covered : WantsCovered store repoId tagTarget wants haves)
    {role : ObjectRole} {sha : Sha}
    (met : MeetsWanted store repoId wants haves role sha) :
    ∃ want ∈ wants, ReachesObject store repoId tagTarget want sha := by
  induction met with
  | root member _ =>
      obtain ⟨_, wanted, same⟩ := List.mem_map.mp member
      cases same
      exact ⟨_, wanted, .refl⟩
  | link met followed kept ih =>
      obtain ⟨want, wanted, reached⟩ := ih
      rcases link_of_follow followed with link |
        ⟨rfl, entries, entry, read, inside, submodule, rfl⟩
      · exact ⟨want, wanted, reached.tail link⟩
      · exact covered.submodules _ entries entry met read inside submodule kept

theorem WantsCovered.complete
    (covered : WantsCovered store repoId tagTarget wants haves)
    {want sha : Sha} (wanted : want ∈ wants)
    (reached : ReachesObject store repoId tagTarget want sha)
    (known : Known store repoId sha) :
    (∃ role, MeetsWanted store repoId wants haves role sha) ∨
      ∃ held ∈ haves, ReachesObject store repoId tagTarget held sha := by
  induction reached with
  | refl =>
      by_cases held : want ∈ haves
      · exact .inr ⟨want, held, .refl⟩
      · exact .inl ⟨.commit, .root (List.mem_map.mpr ⟨want, wanted, rfl⟩) held⟩
  | @tail middle target _ link ih =>
      rcases ih link.known with ⟨role, met⟩ | ⟨held, member, before⟩
      · by_cases followed : ∃ place,
            (place, target) ∈ (objectGraph store repoId).follow role middle
        · obtain ⟨place, inside⟩ := followed
          by_cases held : target ∈ haves
          · exact .inr ⟨target, held, .refl⟩
          · exact .inl ⟨place, met.link inside held⟩
        · rw [not_exists] at followed
          exact covered.unfollowed role middle target met link followed known
      · exact .inr ⟨held, member, before.tail link⟩

theorem collectsWanted_iff
    (unambiguous : (objectGraph store repoId).Unambiguous (· ∈ haves)
      (commitRoots wants)) :
    (∃ result, CollectsWanted store repoId tagTarget wants haves result) ↔
      WantsCovered store repoId tagTarget wants haves := by
  obtain ⟨result, ran, nodup, sound, complete⟩ :=
    collectReachableObjects_spec store repoId haves wants
  have met := complete unambiguous
  constructor
  · rintro ⟨other, collects⟩
    have same : other = result := by
      have outcome := collects.ran
      rw [ran] at outcome
      exact (Option.some.inj outcome).symm
    subst same
    exact
      { known := fun role sha reached => collects.known sha (met role sha reached)
        submodules := by
          intro treeSha entries entry reached read inside _ kept
          apply collects.wanted entry.sha
          apply met (entryRole entry.mode)
          exact reached.link
            ((follow_tree _ _).mpr ⟨entry, by rwa [read], rfl⟩) kept
        unfollowed := by
          intro role sha target reached link _ known
          obtain ⟨want, wanted, path⟩ :=
            collects.wanted sha (met role sha reached)
          rcases collects.complete want wanted target (path.tail link) known with
            listed | held
          · exact .inl (sound target listed)
          · exact .inr held }
  · intro covered
    refine ⟨result, ran, nodup, ?_, ?_, ?_⟩
    · intro sha member
      obtain ⟨role, reached⟩ := sound sha member
      exact covered.known role sha reached
    · intro sha member
      obtain ⟨role, reached⟩ := sound sha member
      exact covered.wanted reached
    · intro want wanted sha path known
      rcases covered.complete wanted path known with ⟨role, reached⟩ | held
      · exact .inl (met role sha reached)
      · exact .inr held

end Upload

section Live

variable {store : CommitStore ids} {repoId : Text}
  {tagTarget : List UInt8 → Option Sha} {blank : Sha → Bool}
  {table : BranchTable Sha} {tags : List (TagRow Sha)}

theorem RefsCovered.complete
    (covered : RefsCovered store repoId tagTarget blank table tags)
    {ref : ListedRef Sha} {sha : Sha}
    (listed : ref ∈ listAllRefs table tags repoId)
    (reached : ReachesObject store repoId tagTarget ref.target sha)
    (known : Known store repoId sha) :
    ∃ role, MeetsKept store repoId blank table tags role sha := by
  induction reached with
  | refl =>
      refine ⟨.commit, .root ?_ (fun impossible => impossible)⟩
      exact List.mem_map.mpr
        ⟨ref.target, List.mem_map.mpr ⟨ref, listed, rfl⟩, rfl⟩
  | @tail middle target before link ih =>
      obtain ⟨role, met⟩ := ih link.known
      by_cases followed : ∃ place,
          (place, target) ∈ (liveGraph store repoId blank).follow role middle
      · obtain ⟨place, inside⟩ := followed
        exact ⟨place, met.link inside (fun impossible => impossible)⟩
      · rw [not_exists] at followed
        exact covered ref listed role middle target before met link followed
          known

theorem keepsReachable_iff :
    (∃ live, KeepsReachable store repoId tagTarget blank table tags live) ↔
      RefsCovered store repoId tagTarget blank table tags := by
  obtain ⟨live, ran, exact⟩ :=
    collectReachableObjectShas_spec store repoId blank table tags
  constructor
  · rintro ⟨other, keeps⟩ ref listed role sha target before _ link _ known
    have same : other = live := by
      have outcome := keeps.ran
      rw [ran] at outcome
      exact (Option.some.inj outcome).symm
    subst same
    exact (exact target).mp
      (keeps.complete ref listed target (before.tail link) known)
  · intro covered
    refine ⟨live, ran, ?_⟩
    intro ref listed sha reached known
    exact (exact sha).mpr (covered.complete listed reached known)

end Live

namespace TaggedRelease

def repoId : Text := ['r']

def signature : GitSignature := ⟨['a'], ['m'], 0, ['+', '0', '0', '0', '0']⟩

def release : CommitContent Digest :=
  { tree := .ofObject (.tree [])
    parents := []
    author := signature
    committer := signature
    message := [] }

def tagObject : List UInt8 := [116]

def bucket : ObjectStore termIds where
  objects :=
    [(.ofObject (.tree []), .tree []),
      (.ofObject (.commit release), .commit release),
      (.ofObject (.tag tagObject), .tag tagObject)]
  sound := by
    intro entry member
    simp only [List.mem_cons, List.not_mem_nil, or_false] at member
    rcases member with rfl | rfl | rfl <;> rfl

def store : CommitStore termIds := ⟨[], bucket⟩

def tagTarget (content : List UInt8) : Option Digest :=
  if content = tagObject then some (.ofObject (.commit release)) else none

/-- The tag row that an import writes: it names the tag object. -/
def tags : List (TagRow Digest) :=
  [{ id := ['t'], repoId := repoId, name := ['v', '1']
     commitSha := .ofObject (.tag tagObject), message := none
     taggerName := none, taggerEmail := none, createdAt := ['0'] }]

theorem tagged : ReachesObject store repoId tagTarget
    (.ofObject (.tag tagObject)) (.ofObject (.commit release)) :=
  .single (@ObjectLink.tagged _ _ _ store repoId tagTarget _ _ tagObject rfl rfl)

theorem known : Known store repoId (.ofObject (.commit release)) := .inr rfl

theorem met_tag {skip : Digest → Prop} {role : ObjectRole} {sha : Digest}
    (met : (objectGraph store repoId).Meets skip
      (commitRoots [.ofObject (.tag tagObject)]) role sha) :
    role = .commit ∧ sha = .ofObject (.tag tagObject) := by
  induction met with
  | root member _ =>
      simp only [commitRoots, List.map_cons, List.map_nil, List.mem_singleton,
        Prod.mk.injEq] at member
      exact member
  | link _ followed _ ih =>
      obtain ⟨rfl, rfl⟩ := ih
      have unread : store.getCommit repoId (.ofObject (.tag tagObject)) = none :=
        rfl
      simp [objectGraph, unread] at followed

end TaggedRelease

end Takos.Git
