import Takos.Spaces.Members

/-!
# Runs of member requests

While a transfer is between its writes, its target has the owner's role, and the
account that owns the space is the one that the transfer takes it from, or the
target itself.  When none is, the owner is the one member with that role.
-/

namespace Takos.Spaces

open Takos.Foundation Takos.Foundation.Program

/-- What the checks of a call have left for its writes. -/
def WellFormed : MemberCall → Prop
  | .findAgain _ (.setRole role) => role ≠ .owner
  | .ownershipAgain _ (.setRole role) _ => role ≠ .owner
  | .write _ (.setRole role) => role ≠ .owner
  | .findCurrent target previous => previous ≠ target
  | .ownershipCurrent target previous => previous ≠ target
  | .promote target previous => previous ≠ target
  | .handing _ target previous => previous ≠ target
  | .addAccess _ _ role => role ≠ .owner
  | .findExisting _ _ role => role ≠ .owner
  | .insert _ role => role ≠ .owner
  | _ => True

/-- Some transfer to this member is between its writes. -/
def HandsTo (calls : List MemberCall) (target : Text) : Prop :=
  ∃ stage previous, .handing stage target previous ∈ calls

/-- What the checks have found still holds at the write.  A transfer begins its
writes while its target is a member and the space is not being handed to
another one, and from the owner that it has read; a role change or a removal
meets neither the owner nor a member with that role; and a transfer does not
fail between its writes, unless they are done or another one does the rest. -/
def Undisturbed (space : SpaceState) (event : Event MemberCall)
    (others : List MemberCall) : Prop :=
  match event with
  | .run (.promote target previous) =>
    space.members.get? target ≠ none ∧
      (space.ownerAccountId = some previous ∨
        space.ownerAccountId = some target) ∧
      ∀ other, HandsTo others other → other = target
  | .run (.write target _) =>
    space.ownerAccountId ≠ some target ∧
      space.members.get? target ≠ some .owner
  | .fail (.handing _ target _) =>
    space.ownerAccountId = some target ∨ ∃ other, HandsTo others other
  | _ => True

structure Orderly (space : SpaceState) (calls : List MemberCall) : Prop where
  formed : ∀ call ∈ calls, WellFormed call
  owned : ∃ owner, space.ownerAccountId = some owner
  member : ∀ owner, space.ownerAccountId = some owner →
    space.members.get? owner ≠ none
  one : ∀ target other, HandsTo calls target → HandsTo calls other →
    target = other
  handed : ∀ stage target previous, .handing stage target previous ∈ calls →
    space.members.get? target = some .owner ∧
      (space.ownerAccountId = some previous ∨
        space.ownerAccountId = some target)
  demoted : ∀ target previous, .handing .flip target previous ∈ calls →
    space.members.get? previous ≠ some .owner
  owners : ∀ member, space.members.get? member = some .owner →
    space.ownerAccountId = some member ∨ HandsTo calls member
  named : ∀ owner, space.ownerAccountId = some owner →
    space.members.get? owner = some .owner ∨ ∃ target, HandsTo calls target

section Calls

variable {space after : SpaceState} {calls others : List MemberCall}

/-- Transfers may go on to a later stage, or stop being in progress once the
space is their target's. -/
theorem Orderly.onward (orderly : Orderly space calls)
    (formed : ∀ call ∈ others, WellFormed call)
    (earlier : ∀ stage target previous,
      .handing stage target previous ∈ others →
      (∃ before, .handing before target previous ∈ calls) ∧
        (stage = .flip → space.members.get? previous ≠ some .owner))
    (still : ∀ target, HandsTo calls target →
      space.ownerAccountId = some target ∨ HandsTo others target) :
    Orderly space others := by
  have hands : ∀ target, HandsTo others target → HandsTo calls target := by
    rintro target ⟨stage, previous, within⟩
    obtain ⟨⟨before, was⟩, _⟩ := earlier stage target previous within
    exact ⟨before, previous, was⟩
  constructor
  · exact formed
  · exact orderly.owned
  · exact orderly.member
  · intro target other first second
    exact orderly.one target other (hands _ first) (hands _ second)
  · intro stage target previous within
    obtain ⟨⟨before, was⟩, _⟩ := earlier stage target previous within
    exact orderly.handed before target previous was
  · intro target previous within
    exact (earlier .flip target previous within).2 rfl
  · intro member role
    exact (orderly.owners member role).elim .inl (still member)
  · intro owner names
    rcases orderly.named owner names with role | ⟨target, handing⟩
    · exact .inl role
    · rcases still target handing with is | left
      · cases names.symm.trans is
        obtain ⟨stage, previous, within⟩ := handing
        exact .inl (orderly.handed stage _ previous within).1
      · exact .inr ⟨target, left⟩

theorem Orderly.transfers (orderly : Orderly space calls)
    (formed : ∀ call ∈ others, WellFormed call)
    (same : ∀ stage target previous,
      .handing stage target previous ∈ others ↔
        .handing stage target previous ∈ calls) : Orderly space others := by
  apply orderly.onward formed
  · intro stage target previous within
    have was := (same _ _ _).mp within
    refine ⟨⟨stage, was⟩, ?_⟩
    rintro rfl
    exact orderly.demoted target previous was
  · rintro target ⟨stage, previous, within⟩
    exact .inr ⟨stage, previous, (same _ _ _).mpr within⟩

theorem Orderly.perm (orderly : Orderly space calls)
    (same : ∀ call, call ∈ others ↔ call ∈ calls) : Orderly space others := by
  apply orderly.transfers
  · intro call within
    exact orderly.formed call ((same call).mp within)
  · intro stage target previous
    exact same _

def IsHanding : MemberCall → Prop
  | .handing _ _ _ => True
  | _ => False

theorem Orderly.continued {call rest : MemberCall}
    (orderly : Orderly space (call :: others)) (formed : WellFormed rest)
    (before : ¬ IsHanding call) (later : ¬ IsHanding rest) :
    Orderly space (rest :: others) := by
  apply orderly.transfers
  · intro other within
    rcases List.mem_cons.mp within with rfl | within
    · exact formed
    · exact orderly.formed other (List.mem_cons_of_mem _ within)
  · intro stage target previous
    simp only [List.mem_cons]
    constructor
    · rintro (rfl | within)
      · exact absurd trivial later
      · exact .inr within
    · rintro (rfl | within)
      · exact absurd trivial before
      · exact .inr within

theorem Orderly.ended {call : MemberCall}
    (orderly : Orderly space (call :: others)) (before : ¬ IsHanding call) :
    Orderly space others := by
  apply orderly.transfers
  · intro other within
    exact orderly.formed other (List.mem_cons_of_mem _ within)
  · intro stage target previous
    rw [List.mem_cons]
    constructor
    · exact .inr
    · rintro (rfl | within)
      · exact absurd trivial before
      · exact within

theorem Orderly.changed (orderly : Orderly space calls) {changed : Text}
    (sameOwner : after.ownerAccountId = space.ownerAccountId)
    (elsewhere : ∀ other, other ≠ changed →
      after.members.get? other = space.members.get? other)
    (now : after.members.get? changed ≠ some .owner)
    (apart : ¬ HandsTo calls changed)
    (owned : space.ownerAccountId = some changed →
      after.members.get? changed ≠ none ∧ ∃ target, HandsTo calls target) :
    Orderly after calls := by
  have owners : ∀ member, after.members.get? member = some .owner →
      space.members.get? member = some .owner := by
    intro member role
    by_cases same : member = changed
    · exact absurd (same ▸ role) now
    · rwa [elsewhere member same] at role
  constructor
  · exact orderly.formed
  · rw [sameOwner]
    exact orderly.owned
  · intro owner names
    rw [sameOwner] at names
    by_cases same : owner = changed
    · rw [same] at names ⊢
      exact (owned names).1
    · rw [elsewhere owner same]
      exact orderly.member owner names
  · exact orderly.one
  · intro stage target previous within
    have different : target ≠ changed := by
      rintro rfl
      exact apart ⟨stage, previous, within⟩
    rw [sameOwner, elsewhere target different]
    exact orderly.handed stage target previous within
  · intro target previous within role
    exact orderly.demoted target previous within (owners previous role)
  · intro member role
    rw [sameOwner]
    exact orderly.owners member (owners member role)
  · intro owner names
    rw [sameOwner] at names
    by_cases same : owner = changed
    · rw [same] at names
      exact .inr (owned names).2
    · rw [elsewhere owner same]
      exact orderly.named owner names

theorem Orderly.changed_member (orderly : Orderly space calls) {changed : Text}
    (sameOwner : after.ownerAccountId = space.ownerAccountId)
    (elsewhere : ∀ other, other ≠ changed →
      after.members.get? other = space.members.get? other)
    (before : space.members.get? changed ≠ some .owner)
    (now : after.members.get? changed ≠ some .owner)
    (notOwner : space.ownerAccountId ≠ some changed) :
    Orderly after calls := by
  apply orderly.changed sameOwner elsewhere now
  · rintro ⟨stage, previous, within⟩
    exact before (orderly.handed stage changed previous within).1
  · intro names
    exact absurd names notOwner

end Calls

theorem get?_updateRole (space : SpaceState) (changed : Text)
    (role : SpaceRole) (member : Text) :
    (space.updateRole changed role).members.get? member =
      if member = changed then (space.members.get? member).map fun _ => role
      else space.members.get? member := by
  unfold SpaceState.updateRole
  split
  · rename_i before found
    rw [OrderedMap.get?_set]
    by_cases same : member = changed
    · rw [if_pos same, if_pos same, same, found]
      rfl
    · rw [if_neg same, if_neg same]
  · rename_i absent
    by_cases same : member = changed
    · rw [if_pos same, same, absent]
      rfl
    · rw [if_neg same]

@[simp] theorem ownerAccountId_updateRole (space : SpaceState) (member : Text)
    (role : SpaceRole) :
    (space.updateRole member role).ownerAccountId = space.ownerAccountId := by
  unfold SpaceState.updateRole
  split <;> rfl

section Writes

variable {space : SpaceState} {others : List MemberCall}

theorem Orderly.write {target : Text} {change : MemberChange}
    (orderly : Orderly space (.write target change :: others))
    (undisturbed : Undisturbed space (.run (.write target change)) others) :
    Orderly (statement (.write target change) space).1 others := by
  obtain ⟨notOwner, before⟩ := undisturbed
  have rest : Orderly space others := orderly.ended id
  cases change with
  | setRole role =>
      have formed : role ≠ .owner := orderly.formed _ List.mem_cons_self
      apply rest.changed_member (ownerAccountId_updateRole space target role) _
        before _ notOwner
      · intro other different
        exact (get?_updateRole space target role other).trans
          (if_neg different)
      · have read := get?_updateRole space target role target
        rw [if_pos rfl] at read
        intro now
        have shown := read.symm.trans now
        cases found : space.members.get? target with
        | none =>
            rw [found] at shown
            cases shown
        | some old =>
            rw [found] at shown
            cases shown
            exact formed rfl
  | remove =>
      have same : (space.deleteMember target).ownerAccountId =
          space.ownerAccountId := rfl
      apply rest.changed_member same _ before _ notOwner
      · intro other different
        exact (OrderedMap.get?_delete space.members target other).trans
          (if_neg different)
      · have read := OrderedMap.get?_delete space.members target target
        rw [if_pos rfl] at read
        intro now
        cases read.symm.trans now

theorem Orderly.insert {target : Text} {role : SpaceRole}
    (orderly : Orderly space (.insert target role :: others)) :
    Orderly (statement (.insert target role) space).1 others := by
  have rest : Orderly space others := orderly.ended id
  simp only [statement]
  split
  · exact rest
  · rename_i absent
    have formed : role ≠ .owner := orderly.formed _ List.mem_cons_self
    let after : SpaceState :=
      { space with members := space.members.set target role }
    have same : after.ownerAccountId = space.ownerAccountId := rfl
    have before : space.members.get? target ≠ some .owner := by
      rw [absent]
      rintro ⟨⟩
    have now : after.members.get? target ≠ some .owner := by
      rw [OrderedMap.get?_set_self]
      rintro ⟨⟩
      exact formed rfl
    apply rest.changed_member same _ before now
    · intro names
      exact rest.member target names absent
    · intro other different
      exact OrderedMap.get?_set_of_ne space.members different role

theorem HandsTo.cons {calls : List MemberCall} {target : Text}
    (hands : HandsTo calls target) (call : MemberCall) :
    HandsTo (call :: calls) target := by
  obtain ⟨stage, previous, within⟩ := hands
  exact ⟨stage, previous, List.mem_cons_of_mem _ within⟩

/-- Who is handed the space next to one transfer is handed it by that one, or by
another. -/
theorem HandsTo.cases {stage : HandoverStage} {target previous other : Text}
    (hands : HandsTo (.handing stage target previous :: others) other) :
    other = target ∨ HandsTo others other := by
  obtain ⟨otherStage, otherPrevious, within⟩ := hands
  rcases List.mem_cons.mp within with same | within
  · cases same
    exact .inl rfl
  · exact .inr ⟨otherStage, otherPrevious, within⟩

theorem HandsTo.here (stage : HandoverStage) (target previous : Text) :
    HandsTo (.handing stage target previous :: others) target :=
  ⟨stage, previous, List.mem_cons_self⟩

variable {target previous : Text}

theorem Orderly.promote
    (orderly : Orderly space (.promote target previous :: others))
    (undisturbed : Undisturbed space (.run (.promote target previous)) others) :
    Orderly (space.updateRole target .owner)
      (.handing .findPrevious target previous :: others) := by
  obtain ⟨present, names, alone⟩ := undisturbed
  have rest : Orderly space others := orderly.ended id
  have different : previous ≠ target := orderly.formed _ List.mem_cons_self
  have promoted : (space.updateRole target .owner).members.get? target =
      some .owner := by
    rw [get?_updateRole, if_pos rfl]
    cases found : space.members.get? target with
    | none => exact absurd found present
    | some role => rfl
  have elsewhere : ∀ other, other ≠ target →
      (space.updateRole target .owner).members.get? other =
        space.members.get? other := by
    intro other apart
    rw [get?_updateRole, if_neg apart]
  have kept : ∀ member, space.members.get? member = some .owner →
      (space.updateRole target .owner).members.get? member = some .owner := by
    intro member role
    by_cases same : member = target
    · rw [same]
      exact promoted
    · rwa [elsewhere member same]
  constructor
  · intro call within
    rcases List.mem_cons.mp within with rfl | within
    · exact different
    · exact rest.formed call within
  · rw [ownerAccountId_updateRole]
    exact rest.owned
  · intro owner is absent
    rw [ownerAccountId_updateRole] at is
    by_cases same : owner = target
    · rw [same, promoted] at absent
      cases absent
    · rw [elsewhere owner same] at absent
      exact rest.member owner is absent
  · intro first second one two
    have toTarget : ∀ other, HandsTo (.handing .findPrevious target previous ::
        others) other → other = target := by
      intro other hands
      rcases hands.cases with same | hands
      · exact same
      · exact alone other hands
    rw [toTarget first one, toTarget second two]
  · intro stage other otherPrevious within
    rw [ownerAccountId_updateRole]
    rcases List.mem_cons.mp within with same | within
    · cases same
      exact ⟨promoted, names⟩
    · obtain ⟨role, is⟩ := rest.handed stage other otherPrevious within
      exact ⟨kept other role, is⟩
  · intro other otherPrevious within
    rcases List.mem_cons.mp within with same | within
    · cases same
    · have formed : otherPrevious ≠ other := rest.formed _ within
      have same : other = target := alone other ⟨_, _, within⟩
      rw [elsewhere otherPrevious (same ▸ formed)]
      exact rest.demoted other otherPrevious within
  · intro member role
    rw [ownerAccountId_updateRole]
    by_cases same : member = target
    · rw [same]
      exact .inr (.here _ _ _)
    · rw [elsewhere member same] at role
      rcases rest.owners member role with owner | hands
      · exact .inl owner
      · exact .inr (hands.cons _)
  · intro owner _
    exact .inr ⟨target, .here _ _ _⟩

theorem Orderly.stage {stage later : HandoverStage}
    (orderly : Orderly space (.handing stage target previous :: others))
    (demoted : later = .flip → space.members.get? previous ≠ some .owner) :
    Orderly space (.handing later target previous :: others) := by
  apply orderly.onward
  · intro call within
    rcases List.mem_cons.mp within with rfl | within
    · exact orderly.formed (.handing stage target previous) List.mem_cons_self
    · exact orderly.formed call (List.mem_cons_of_mem _ within)
  · intro otherStage other otherPrevious within
    rcases List.mem_cons.mp within with same | within
    · cases same
      exact ⟨⟨stage, List.mem_cons_self⟩, demoted⟩
    · have was := List.mem_cons_of_mem (.handing stage target previous) within
      refine ⟨⟨otherStage, was⟩, ?_⟩
      rintro rfl
      exact orderly.demoted other otherPrevious was
  · intro other hands
    rcases hands.cases with rfl | hands
    · exact .inr (.here _ _ _)
    · exact .inr (hands.cons _)

theorem Orderly.demote
    (orderly : Orderly space (.handing .demote target previous :: others)) :
    Orderly (space.updateRole previous .admin)
      (.handing .flip target previous :: others) := by
  have different : previous ≠ target :=
    orderly.formed (.handing .demote target previous) List.mem_cons_self
  have lowered : (space.updateRole previous .admin).members.get? previous ≠
      some .owner := by
    rw [get?_updateRole, if_pos rfl]
    cases space.members.get? previous <;> exact nofun
  have moved : Orderly (space.updateRole previous .admin)
      (.handing .demote target previous :: others) := by
    apply orderly.changed (ownerAccountId_updateRole _ _ _) _ lowered
    · intro hands
      exact different (orderly.one previous target hands (.here _ _ _))
    · intro names
      have present := orderly.member previous names
      rw [get?_updateRole, if_pos rfl]
      exact ⟨by simpa using present, target, .here _ _ _⟩
    · intro other apart
      rw [get?_updateRole, if_neg apart]
  exact moved.stage fun _ => lowered

theorem Orderly.flip
    (orderly : Orderly space (.handing .flip target previous :: others)) :
    Orderly { space with ownerAccountId := some target } others := by
  have within : .handing .flip target previous ∈
      .handing .flip target previous :: others := List.mem_cons_self
  obtain ⟨promoted, names⟩ := orderly.handed .flip target previous within
  have lowered := orderly.demoted target previous within
  constructor
  · intro call other
    exact orderly.formed call (List.mem_cons_of_mem _ other)
  · exact ⟨target, rfl⟩
  · rintro owner ⟨⟩ absent
    cases promoted.symm.trans absent
  · intro first second one two
    exact orderly.one first second (one.cons _) (two.cons _)
  · intro stage other otherPrevious member
    have same : other = target :=
      orderly.one other target ⟨_, _, List.mem_cons_of_mem _ member⟩
        (.here _ _ _)
    rw [same]
    exact ⟨promoted, .inr rfl⟩
  · intro other otherPrevious member
    exact orderly.demoted other otherPrevious (List.mem_cons_of_mem _ member)
  · intro member role
    left
    have same : member = target := by
      rcases orderly.owners member role with owner | hands
      · rcases names with is | is
        · cases owner.symm.trans is
          exact absurd role lowered
        · exact Option.some.inj (owner.symm.trans is)
      · exact orderly.one member target hands (.here _ _ _)
    rw [same]
  · rintro owner ⟨⟩
    exact .inl promoted

theorem Orderly.failed {call : MemberCall}
    (orderly : Orderly space (call :: others))
    (undisturbed : Undisturbed space (.fail call) others) :
    Orderly space others := by
  cases call with
  | handing stage target previous =>
      apply orderly.onward
      · intro other within
        exact orderly.formed other (List.mem_cons_of_mem _ within)
      · intro otherStage other otherPrevious within
        have was := List.mem_cons_of_mem (.handing stage target previous) within
        refine ⟨⟨otherStage, was⟩, ?_⟩
        rintro rfl
        exact orderly.demoted other otherPrevious was
      · intro other hands
        have same : other = target :=
          orderly.one other target hands (.here _ _ _)
        rcases undisturbed with owner | ⟨another, left⟩
        · rw [same]
          exact .inl owner
        · have one : another = target :=
            orderly.one another target (left.cons _) (.here _ _ _)
          rw [same, ← one]
          exact .inr left
  | _ => exact orderly.ended id

end Writes

section Checks

variable {space after : SpaceState} {rest : MemberCall}

theorem withAccess_next {actor : Text} {then_ : SpaceRole → MemberOutcome}
    (goes : withAccess space actor then_ = .next rest) :
    ∃ role, then_ role = .next rest := by
  unfold withAccess at goes
  split at goes
  · split at goes
    · exact ⟨_, goes⟩
    · cases goes
  · cases goes

theorem findMember_next {target : Text} {then_ : SpaceRole → MemberCall}
    (goes : findMember space target then_ = .next rest) :
    ∃ role, rest = then_ role := by
  unfold findMember at goes
  split at goes
  · cases goes
    exact ⟨_, rfl⟩
  · cases goes

theorem afterFirstLook_next {actorRole : SpaceRole}
    {target : MemberWithOwnership} {change : MemberChange}
    (goes : afterFirstLook actorRole target change = .next rest) :
    WellFormed rest ∧ ¬ IsHanding rest := by
  unfold afterFirstLook at goes
  split at goes
  · split at goes
    · cases goes
    · split at goes
      · cases goes
      · cases goes
        exact ⟨trivial, id⟩
  · rename_i role notOwner
    split at goes
    · cases goes
    · split at goes
      · cases goes
      · cases goes
        refine ⟨?_, id⟩
        rintro rfl
        exact notOwner rfl
  · split at goes
    · cases goes
    · cases goes
      exact ⟨trivial, id⟩

theorem afterSecondLook_next {target : MemberWithOwnership}
    {change : MemberChange}
    (goes : afterSecondLook target change = .next rest) :
    rest = .write target.principalId change := by
  unfold afterSecondLook at goes
  split at goes
  · cases goes
  · cases goes
    rfl

theorem afterSpace_next {target : Text}
    (goes : afterSpace space target = .next rest) :
    ∃ previous, previous ≠ target ∧ rest = .findCurrent target previous := by
  unfold afterSpace at goes
  split at goes
  · rename_i previous _
    split at goes
    · cases goes
    · rename_i different
      cases goes
      exact ⟨previous, fun same => different (.inr same), rfl⟩
  · cases goes

/-- A call that does not write. -/
def Looks : MemberCall → Prop
  | .write _ _ => False
  | .promote _ _ => False
  | .handing _ _ _ => False
  | .insert _ _ => False
  | _ => True

theorem looks_next {call : MemberCall} (formed : WellFormed call)
    (looks : Looks call)
    (executed : statement call space = (after, .next rest)) :
    after = space ∧ WellFormed rest ∧ ¬ IsHanding rest := by
  cases call with
  | access actor target change =>
      obtain ⟨same, goes⟩ := Prod.mk.inj executed
      obtain ⟨role, ⟨⟩⟩ := withAccess_next goes
      exact ⟨same.symm, trivial, id⟩
  | findTarget actorRole target change =>
      obtain ⟨same, goes⟩ := Prod.mk.inj executed
      obtain ⟨role, rfl⟩ := findMember_next goes
      exact ⟨same.symm, trivial, id⟩
  | findOwnership actorRole target change role =>
      obtain ⟨same, goes⟩ := Prod.mk.inj executed
      exact ⟨same.symm, afterFirstLook_next goes⟩
  | findAgain target change =>
      obtain ⟨same, goes⟩ := Prod.mk.inj executed
      obtain ⟨role, rfl⟩ := findMember_next goes
      refine ⟨same.symm, ?_, id⟩
      cases change with
      | setRole _ => exact formed
      | remove => trivial
  | ownershipAgain target change role =>
      obtain ⟨same, goes⟩ := Prod.mk.inj executed
      have write := afterSecondLook_next goes
      subst write
      refine ⟨same.symm, ?_, id⟩
      cases change with
      | setRole _ => exact formed
      | remove => trivial
  | readSpace target =>
      obtain ⟨same, goes⟩ := Prod.mk.inj executed
      obtain ⟨previous, different, rfl⟩ := afterSpace_next goes
      exact ⟨same.symm, different, id⟩
  | findCurrent target previous =>
      obtain ⟨same, goes⟩ := Prod.mk.inj executed
      obtain ⟨role, rfl⟩ := findMember_next goes
      exact ⟨same.symm, formed, id⟩
  | ownershipCurrent target previous =>
      obtain ⟨same, goes⟩ := Prod.mk.inj executed
      cases goes
      exact ⟨same.symm, formed, id⟩
  | addAccess actor target role =>
      obtain ⟨same, goes⟩ := Prod.mk.inj executed
      obtain ⟨actorRole, asked⟩ := withAccess_next goes
      split at asked
      · cases asked
      · cases asked
        exact ⟨same.symm, formed, id⟩
  | findExisting actorRole target role =>
      obtain ⟨same, goes⟩ := Prod.mk.inj executed
      split at goes
      · cases goes
      · cases goes
        exact ⟨same.symm, formed, id⟩
  | write | promote | handing | insert => exact looks.elim

end Checks

section Steps

variable {space after : SpaceState} {call rest : MemberCall}
  {others : List MemberCall}

theorem Orderly.next (orderly : Orderly space (call :: others))
    (undisturbed : Undisturbed space (.run call) others)
    (executed : statement call space = (after, .next rest)) :
    Orderly after (rest :: others) := by
  have formed := orderly.formed call List.mem_cons_self
  cases call with
  | write target change => cases change <;> cases executed
  | insert target role =>
      simp only [statement] at executed
      split at executed <;> cases executed
  | promote target previous =>
      cases executed
      exact orderly.promote undisturbed
  | handing stage target previous =>
      cases stage with
      | findPrevious =>
          obtain ⟨same, goes⟩ := Prod.mk.inj executed
          subst same
          split at goes
          · cases goes
            exact orderly.stage (by rintro ⟨⟩)
          · rename_i absent
            cases goes
            apply orderly.stage
            intro _
            rw [absent]
            rintro ⟨⟩
      | demote =>
          cases executed
          exact orderly.demote
      | flip => cases executed
  | _ =>
      obtain ⟨same, restFormed, notHanding⟩ := looks_next formed trivial executed
      rw [same]
      exact orderly.continued restFormed id notHanding

theorem Orderly.done {result : MemberResult}
    (orderly : Orderly space (call :: others))
    (undisturbed : Undisturbed space (.run call) others)
    (executed : statement call space = (after, .done result)) :
    Orderly after others := by
  have same : after = (statement call space).1 := by rw [executed]
  cases call with
  | write target change =>
      rw [same]
      exact orderly.write undisturbed
  | insert target role =>
      rw [same]
      exact orderly.insert
  | promote target previous => cases executed
  | handing stage target previous =>
      cases stage with
      | findPrevious =>
          obtain ⟨_, goes⟩ := Prod.mk.inj executed
          split at goes <;> cases goes
      | demote => cases executed
      | flip =>
          cases executed
          exact orderly.flip
  | _ =>
      rw [same]
      exact orderly.ended id

/-- What makes the owner of the space lose the role is a transfer to another
member. -/
theorem owner_kept (orderly : Orderly space (call :: others))
    (undisturbed : Undisturbed space (.run call) others) {owner : Text}
    (names : space.ownerAccountId = some owner)
    (role : space.members.get? owner = some .owner) :
    (statement call space).1.members.get? owner = some .owner ∨
      ∃ target, target ≠ owner ∧ call = .handing .demote target owner := by
  cases call with
  | write target change =>
      obtain ⟨notOwner, _⟩ := undisturbed
      have different : owner ≠ target := by
        rintro rfl
        exact notOwner names
      left
      cases change with
      | setRole given =>
          exact (get?_updateRole space target given owner).trans
            ((if_neg different).trans role)
      | remove =>
          exact (OrderedMap.get?_delete space.members target owner).trans
            ((if_neg different).trans role)
  | insert target given =>
      left
      simp only [statement]
      split
      · exact role
      · rename_i absent
        have different : owner ≠ target := by
          rintro rfl
          cases absent.symm.trans role
        exact (OrderedMap.get?_set_of_ne space.members different given).trans
          role
  | promote target previous =>
      left
      refine (get?_updateRole space target .owner owner).trans ?_
      split
      · rw [role]
        rfl
      · exact role
  | handing stage target previous =>
      cases stage with
      | findPrevious => exact .inl role
      | flip => exact .inl role
      | demote =>
          by_cases same : owner = previous
          · right
            have different : previous ≠ target :=
              orderly.formed (.handing .demote target previous)
                List.mem_cons_self
            rw [same]
            exact ⟨target, different.symm, rfl⟩
          · left
            exact (get?_updateRole space previous .admin owner).trans
              ((if_neg same).trans role)
  | _ => exact .inl role

end Steps

/-- The owner is the only member with that role. -/
def OneOwner (space : SpaceState) : Prop :=
  ∃ owner, space.ownerAccountId = some owner ∧
    ∀ member, space.members.get? member = some .owner ↔ member = owner

theorem OneOwner.orderly {space : SpaceState} (one : OneOwner space) :
    Orderly space [] := by
  obtain ⟨owner, names, roles⟩ := one
  constructor
  · exact nofun
  · exact ⟨owner, names⟩
  · intro other is absent
    cases names.symm.trans is
    cases absent.symm.trans ((roles owner).mpr rfl)
  · rintro _ _ ⟨_, _, ⟨⟩⟩
  · exact nofun
  · exact nofun
  · intro member role
    rw [(roles member).mp role]
    exact .inl names
  · intro other is
    cases names.symm.trans is
    exact .inl ((roles owner).mpr rfl)

theorem Orderly.oneOwner {space : SpaceState} {calls : List MemberCall}
    (orderly : Orderly space calls)
    (none : ∀ target, ¬ HandsTo calls target) : OneOwner space := by
  obtain ⟨owner, names⟩ := orderly.owned
  refine ⟨owner, names, ?_⟩
  intro member
  constructor
  · intro role
    rcases orderly.owners member role with is | hands
    · exact Option.some.inj (is.symm.trans names)
    · exact absurd hands (none member)
  · rintro rfl
    rcases orderly.named member names with role | ⟨target, hands⟩
    · exact role
    · exact absurd hands (none target)

theorem mem_middle {calls back : List MemberCall} {call other : MemberCall} :
    other ∈ calls ++ call :: back ↔ other ∈ call :: (calls ++ back) := by
  simp only [List.mem_append, List.mem_cons]
  exact or_left_comm

theorem orderly_of_run {space : SpaceState} (one : OneOwner space)
    {reached : Config SpaceState MemberCall MemberResult}
    (run : Run memberProgram Undisturbed ⟨space, [], []⟩ reached) :
    Orderly reached.shared reached.calls := by
  apply @Run.invariant _ _ _ memberProgram Undisturbed _ _
    (fun config => Orderly config.shared config.calls) run
  · exact one.orderly
  · intro before event others after orderly undisturbed step
    cases step with
    | start starts =>
        apply orderly.transfers
        · intro call within
          rcases List.mem_cons.mp within with rfl | within
          · cases call with
            | addAccess => exact starts
            | access => trivial
            | _ => exact starts.elim
          · exact orderly.formed call within
        · intro stage target previous
          rw [List.mem_cons]
          constructor
          · rintro (rfl | within)
            · exact starts.elim
            · exact within
          · exact .inr
    | next executed =>
        have moved := orderly.perm (fun _ => mem_middle.symm)
        exact (moved.next undisturbed executed).perm fun _ => mem_middle
    | done executed =>
        have moved := orderly.perm (fun _ => mem_middle.symm)
        exact moved.done undisturbed executed
    | fail =>
        have moved := orderly.perm (fun _ => mem_middle.symm)
        exact moved.failed undisturbed

/-- While no transfer is between its writes, the account that owns the space is
the one member with the owner's role; it is a member at any time; and no step
takes that role from it but a transfer to another member. -/
theorem owned_by_one {space : SpaceState} (one : OneOwner space)
    {reached : Config SpaceState MemberCall MemberResult}
    (run : Run memberProgram Undisturbed ⟨space, [], []⟩ reached) :
    ((∀ target, ¬ HandsTo reached.calls target) → OneOwner reached.shared) ∧
    (∃ owner, reached.shared.ownerAccountId = some owner ∧
      reached.shared.members.get? owner ≠ none) ∧
    (∀ event others after, Undisturbed reached.shared event others →
      memberProgram.Step reached event others after →
      ∀ owner, reached.shared.ownerAccountId = some owner →
        reached.shared.members.get? owner = some .owner →
        after.shared.members.get? owner = some .owner ∨
          ∃ target, target ≠ owner ∧
            event = .run (.handing .demote target owner)) := by
  have orderly := orderly_of_run one run
  obtain ⟨named, names⟩ := orderly.owned
  refine ⟨orderly.oneOwner, ⟨named, names, orderly.member named names⟩, ?_⟩
  intro event others after undisturbed step owner names role
  have kept : ∀ {call}, Orderly reached.shared (call :: others) →
      event = .run call →
      after.shared = (statement call reached.shared).1 →
      after.shared.members.get? owner = some .owner ∨
        ∃ target, target ≠ owner ∧
          event = .run (.handing .demote target owner) := by
    rintro call moved rfl same
    rw [same]
    rcases owner_kept moved undisturbed names role with stays |
      ⟨target, different, rfl⟩
    · exact .inl stays
    · exact .inr ⟨target, different, rfl⟩
  cases step with
  | start | fail => exact .inl role
  | next executed =>
      exact kept (orderly.perm fun _ => mem_middle.symm) rfl
        (congrArg Prod.fst executed).symm
  | done executed =>
      exact kept (orderly.perm fun _ => mem_middle.symm) rfl
        (congrArg Prod.fst executed).symm

namespace OneTransfer

def first : Text := ['o']

def second : Text := ['a']

def space : SpaceState :=
  ⟨(OrderedMap.empty.set first .owner).set second .admin, some first⟩

def promoted : SpaceState := space.updateRole second .owner

theorem space_oneOwner : OneOwner space := by
  refine ⟨first, rfl, ?_⟩
  intro member
  have read : space.members.get? member =
      if member = second then some .admin
      else if member = first then some .owner else none := by
    simp only [space, OrderedMap.get?_set, OrderedMap.get?_empty]
  rw [read]
  by_cases isSecond : member = second
  · rw [if_pos isSecond, isSecond]
    simp [first, second]
  · rw [if_neg isSecond]
    by_cases isFirst : member = first
    · simp [isFirst]
    · simp [isFirst]

abbrev At (space : SpaceState) (calls : List MemberCall)
    (results : List MemberResult) : Prop :=
  Run memberProgram Undisturbed ⟨OneTransfer.space, [], []⟩
    ⟨space, calls, results⟩

theorem promoted_run : At promoted [.handing .findPrevious second first] [] := by
  have nothing : At space [] [] := .here
  have promotes : Undisturbed space (.run (.promote second first)) [] := by
    refine ⟨nofun, .inl rfl, ?_⟩
    rintro other ⟨_, _, ⟨⟩⟩
  exact nothing.play [.start (.access first second (.setRole .owner)), .run 0,
    .run 0, .run 0, .run 0, .run 0, .run 0, .run 0] (by
      repeat' first
        | exact trivial
        | exact promotes
        | apply And.intro)

/-- A transfer that is not interrupted. -/
theorem transferred_oneOwner :
    OneOwner { promoted.updateRole first .admin with
      ownerAccountId := some second } := by
  have done : At { promoted.updateRole first .admin with
      ownerAccountId := some second } [] [.done] :=
    promoted_run.play [.run 0, .run 0, .run 0]
      ⟨trivial, trivial, trivial, trivial⟩
  apply (owned_by_one space_oneOwner done).1
  rintro target ⟨_, _, ⟨⟩⟩

/-- A transfer that ends after its first write. -/
theorem two_owners : ¬ ∀ space, OneOwner space → ∀ reached,
    Run memberProgram (fun _ _ _ => True) ⟨space, [], []⟩ reached →
    reached.calls = [] → OneOwner reached.shared := by
  intro always
  have run : Run memberProgram (fun _ _ _ => True) ⟨space, [], []⟩
      ⟨promoted, [.handing .findPrevious second first], []⟩ :=
    promoted_run.mono fun _ _ _ _ => trivial
  have failed : Run memberProgram (fun _ _ _ => True) ⟨space, [], []⟩
      ⟨promoted, [], []⟩ := run.failing [] [] trivial
  obtain ⟨owner, _, roles⟩ := always space space_oneOwner _ failed rfl
  have one : first = owner := (roles first).mp rfl
  have other : second = owner := (roles second).mp rfl
  exact absurd (one.trans other.symm) (by decide)

end OneTransfer

end Takos.Spaces
