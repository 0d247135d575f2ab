import Takos.Foundation.Interleaving
import Takos.Foundation.OrderedMap
import Takos.Foundation.Text

/-!
# Members of a space

The memberships of one space by member, and the account that owns the space.  A
request checks the actor and the target, reads the target once more, and then
writes by the member's id alone; a transfer of ownership takes three writes.
-/

namespace Takos.Spaces

open Takos.Foundation

inductive SpaceRole where
  | owner | admin | editor | viewer
  deriving DecidableEq

structure SpaceState where
  members : OrderedMap Text SpaceRole
  ownerAccountId : Option Text

structure MemberWithOwnership where
  principalId : Text
  role : SpaceRole
  spaceOwnerPrincipalId : Text

structure Refusal where
  error : Text
  status : Nat

namespace SpaceState

variable (space : SpaceState)

/-- The second read of `findMemberWithOwnership`. -/
def withOwnership (principalId : Text) (role : SpaceRole) :
    MemberWithOwnership :=
  ⟨principalId, role, space.ownerAccountId.getD []⟩

/-- An update of a role changes nothing where there is no such member. -/
def updateRole (memberId : Text) (role : SpaceRole) : SpaceState :=
  match space.members.get? memberId with
  | some _ => { space with members := space.members.set memberId role }
  | none => space

def deleteMember (memberId : Text) : SpaceState :=
  { space with members := space.members.delete memberId }

end SpaceState

inductive ModificationKind where
  | modify | remove

def ModificationKind.text : ModificationKind → Text
  | modify => "modify".toList
  | remove => "remove".toList

def validateMemberModification (actorRole : SpaceRole)
    (target : MemberWithOwnership) (action : ModificationKind) :
    Option Refusal :=
  if target.role = .owner then
    match action with
    | .modify => some ⟨"Cannot change owner role".toList, 400⟩
    | .remove => some ⟨"Cannot remove owner".toList, 400⟩
  else if target.spaceOwnerPrincipalId = target.principalId then
    some ⟨"Cannot ".toList ++ action.text ++ " space owner".toList, 403⟩
  else if actorRole = .admin ∧ target.role = .admin then
    some ⟨"Cannot ".toList ++ action.text ++ " another admin".toList, 403⟩
  else none

/-- Where an error begins with `CANNOT_`. -/
def stateChanged (fallbackMessage : Text) : Refusal :=
  ⟨fallbackMessage ++ " - member state may have changed".toList, 409⟩

def transferFallback : Text := "Failed to transfer space ownership".toList

def memberNotFound : Refusal := ⟨"Member not found".toList, 404⟩

def spaceNotFound : Refusal :=
  ⟨"Space not found or insufficient permissions".toList, 404⟩

def onlyOwnerPromotes : Refusal :=
  ⟨"Only owner can promote to admin".toList, 403⟩

/-- What a request asks for. -/
inductive MemberChange where
  | setRole (role : SpaceRole)
  | remove

def MemberChange.fallback : MemberChange → Text
  | setRole _ => "Failed to update member role".toList
  | remove => "Failed to remove member".toList

/-- How far a transfer has come once it has promoted its target. -/
inductive HandoverStage where
  | findPrevious | demote | flip

/-- Calls by the statement that they execute next. -/
inductive MemberCall where
  | access (actor target : Text) (change : MemberChange)
  | findTarget (actorRole : SpaceRole) (target : Text) (change : MemberChange)
  | findOwnership (actorRole : SpaceRole) (target : Text)
      (change : MemberChange) (role : SpaceRole)
  | findAgain (target : Text) (change : MemberChange)
  | ownershipAgain (target : Text) (change : MemberChange) (role : SpaceRole)
  | write (target : Text) (change : MemberChange)
  | readSpace (target : Text)
  | findCurrent (target previous : Text)
  | ownershipCurrent (target previous : Text)
  | promote (target previous : Text)
  | handing (stage : HandoverStage) (target previous : Text)
  | addAccess (actor target : Text) (role : SpaceRole)
  | findExisting (actorRole : SpaceRole) (target : Text) (role : SpaceRole)
  | insert (target : Text) (role : SpaceRole)

inductive MemberResult where
  | refused (refusal : Refusal)
  | done

abbrev MemberOutcome := Outcome MemberCall MemberResult

/-- `spaceAccess` for owners and admins. -/
def withAccess (space : SpaceState) (actor : Text)
    (rest : SpaceRole → MemberOutcome) : MemberOutcome :=
  match space.members.get? actor with
  | some role =>
    if role = .owner ∨ role = .admin then rest role
    else .done (.refused spaceNotFound)
  | none => .done (.refused spaceNotFound)

/-- What follows the first look at the target. -/
def afterFirstLook (actorRole : SpaceRole) (target : MemberWithOwnership)
    (change : MemberChange) : MemberOutcome :=
  match change with
  | .setRole .owner =>
    if actorRole ≠ .owner then
      .done (.refused
        ⟨"Only the current owner can transfer ownership".toList, 403⟩)
    else if target.spaceOwnerPrincipalId = target.principalId then
      .done (.refused ⟨"User is already the space owner".toList, 400⟩)
    else .next (.readSpace target.principalId)
  | .setRole role =>
    match validateMemberModification actorRole target .modify with
    | some refusal => .done (.refused refusal)
    | none =>
      if actorRole = .admin ∧ role = .admin then
        .done (.refused onlyOwnerPromotes)
      else .next (.findAgain target.principalId (.setRole role))
  | .remove =>
    match validateMemberModification actorRole target .remove with
    | some refusal => .done (.refused refusal)
    | none => .next (.findAgain target.principalId .remove)

/-- What follows the second look, just before the write. -/
def afterSecondLook (target : MemberWithOwnership) (change : MemberChange) :
    MemberOutcome :=
  if target.role = .owner ∨ target.spaceOwnerPrincipalId = target.principalId
  then .done (.refused (stateChanged change.fallback))
  else .next (.write target.principalId change)

def findMember (space : SpaceState) (target : Text)
    (rest : SpaceRole → MemberCall) : MemberOutcome :=
  match space.members.get? target with
  | some role => .next (rest role)
  | none => .done (.refused memberNotFound)

/-- The owner of whom a transfer takes the space over. -/
def afterSpace (space : SpaceState) (target : Text) : MemberOutcome :=
  match space.ownerAccountId with
  | some previous =>
    if previous = [] ∨ previous = target then
      .done (.refused (stateChanged transferFallback))
    else .next (.findCurrent target previous)
  | none => .done (.refused (stateChanged transferFallback))

def handover (space : SpaceState) (stage : HandoverStage)
    (target previous : Text) : SpaceState × MemberOutcome :=
  match stage with
  | .findPrevious =>
    (space,
      match space.members.get? previous with
      | some _ => .next (.handing .demote target previous)
      | none => .next (.handing .flip target previous))
  | .demote =>
    (space.updateRole previous .admin, .next (.handing .flip target previous))
  | .flip => ({ space with ownerAccountId := some target }, .done .done)

def statement (call : MemberCall) (space : SpaceState) :
    SpaceState × MemberOutcome :=
  match call with
  | .access actor target change =>
    (space, withAccess space actor fun role =>
      .next (.findTarget role target change))
  | .findTarget actorRole target change =>
    (space, findMember space target (.findOwnership actorRole target change))
  | .findOwnership actorRole target change role =>
    (space, afterFirstLook actorRole (space.withOwnership target role) change)
  | .findAgain target change =>
    (space, findMember space target (.ownershipAgain target change))
  | .ownershipAgain target change role =>
    (space, afterSecondLook (space.withOwnership target role) change)
  | .write target (.setRole role) => (space.updateRole target role, .done .done)
  | .write target .remove => (space.deleteMember target, .done .done)
  | .readSpace target => (space, afterSpace space target)
  | .findCurrent target previous =>
    (space, findMember space target fun _ => .ownershipCurrent target previous)
  | .ownershipCurrent target previous => (space, .next (.promote target previous))
  | .promote target previous =>
    (space.updateRole target .owner,
      .next (.handing .findPrevious target previous))
  | .handing stage target previous => handover space stage target previous
  | .addAccess actor target role =>
    (space, withAccess space actor fun actorRole =>
      if actorRole = .admin ∧ role = .admin then
        .done (.refused onlyOwnerPromotes)
      else .next (.findExisting actorRole target role))
  | .findExisting _ target role =>
    (space,
      match space.members.get? target with
      | some _ => .done (.refused ⟨"User is already a member".toList, 409⟩)
      | none => .next (.insert target role))
  | .insert target role =>
    match space.members.get? target with
    | some _ => (space, .done (.refused ⟨"UNIQUE constraint failed".toList, 500⟩))
    | none =>
      ({ space with members := space.members.set target role }, .done .done)

/-- The body of an addition cannot name the owner's role. -/
def Starts : MemberCall → Prop
  | .access _ _ _ => True
  | .addAccess _ _ role => role ≠ .owner
  | _ => False

def memberProgram : Program SpaceState MemberCall MemberResult where
  starts := Starts
  statement := statement

end Takos.Spaces
