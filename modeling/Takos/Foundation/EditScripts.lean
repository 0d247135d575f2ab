import Mathlib.Data.List.Basic
import Mathlib.Data.List.Infix
import Mathlib.Data.List.Induction

/-!
# Edit scripts

A script of kept, inserted and deleted items leads from one list to another.
The items it keeps are a common subsequence of the two, and a script is minimal
if no common subsequence is longer.
-/

namespace Takos.Foundation

universe u

inductive EditOp (Item : Type u) where
  | equal (item : Item)
  | insert (item : Item)
  | delete (item : Item)
  deriving DecidableEq

namespace EditOp

variable {Item : Type u}

def oldItem : EditOp Item → Option Item
  | equal item => some item
  | insert _ => none
  | delete item => some item

def newItem : EditOp Item → Option Item
  | equal item => some item
  | insert item => some item
  | delete _ => none

def keptItem : EditOp Item → Option Item
  | equal item => some item
  | insert _ => none
  | delete _ => none

def map {Other : Type u} (change : Item → Other) : EditOp Item → EditOp Other
  | equal item => equal (change item)
  | insert item => insert (change item)
  | delete item => delete (change item)

end EditOp

namespace EditScript

variable {Item : Type u}

/-- The items that the script keeps or deletes. -/
def oldSide (script : List (EditOp Item)) : List Item :=
  script.filterMap EditOp.oldItem

/-- The items that the script keeps or inserts. -/
def newSide (script : List (EditOp Item)) : List Item :=
  script.filterMap EditOp.newItem

def kept (script : List (EditOp Item)) : List Item :=
  script.filterMap EditOp.keptItem

/-- The script leads from the old items to the new ones. -/
structure Leads (old new : List Item) (script : List (EditOp Item)) :
    Prop where
  oldSide : oldSide script = old
  newSide : newSide script = new

theorem oldSide_map {Other : Type u} (change : Item → Other)
    (script : List (EditOp Item)) :
    oldSide (script.map (EditOp.map change)) = (oldSide script).map change := by
  induction script with
  | nil => rfl
  | cons op rest induction =>
      cases op with
      | equal item => exact congrArg (List.cons _) induction
      | insert item => exact induction
      | delete item => exact congrArg (List.cons _) induction

theorem newSide_map {Other : Type u} (change : Item → Other)
    (script : List (EditOp Item)) :
    newSide (script.map (EditOp.map change)) = (newSide script).map change := by
  induction script with
  | nil => rfl
  | cons op rest induction =>
      cases op with
      | equal item => exact congrArg (List.cons _) induction
      | insert item => exact congrArg (List.cons _) induction
      | delete item => exact induction

theorem item_mem {script : List (EditOp Item)} {op : EditOp Item}
    (member : op ∈ script) :
    (∀ item, op.oldItem = some item → item ∈ oldSide script) ∧
      ∀ item, op.newItem = some item → item ∈ newSide script :=
  ⟨fun _ old => List.mem_filterMap.mpr ⟨op, member, old⟩,
    fun _ new => List.mem_filterMap.mpr ⟨op, member, new⟩⟩

/-- For each new item its place among the old ones, if it was kept; `next` is
the place of the next old item. -/
def originsFrom (next : Nat) : List (EditOp Item) → List (Option Nat)
  | [] => []
  | .equal _ :: rest => some next :: originsFrom (next + 1) rest
  | .insert _ :: rest => none :: originsFrom next rest
  | .delete _ :: rest => originsFrom (next + 1) rest

def origins (script : List (EditOp Item)) : List (Option Nat) :=
  originsFrom 0 script

theorem length_originsFrom (next : Nat) (script : List (EditOp Item)) :
    (originsFrom next script).length = (newSide script).length := by
  induction script generalizing next with
  | nil => rfl
  | cons op rest induction =>
      cases op with
      | equal item => exact congrArg Nat.succ (induction (next + 1))
      | insert item => exact congrArg Nat.succ (induction next)
      | delete item => exact induction (next + 1)

theorem originsFrom_kept {next : Nat} {script : List (EditOp Item)}
    {index place : Nat}
    (origin : (originsFrom next script)[index]? = some (some place)) :
    next ≤ place ∧
      (oldSide script)[place - next]? = (newSide script)[index]? ∧
      place - next < (oldSide script).length := by
  induction script generalizing next index with
  | nil => cases origin
  | cons op rest induction =>
      cases op with
      | equal item =>
          cases index with
          | zero =>
              cases origin
              rw [Nat.sub_self]
              exact ⟨le_rfl, rfl, Nat.succ_pos _⟩
          | succ index =>
              have later : (originsFrom (next + 1) rest)[index]? =
                  some (some place) := origin
              obtain ⟨after, same, inside⟩ := induction later
              have place_eq : place - next = place - (next + 1) + 1 := by omega
              rw [place_eq]
              exact ⟨by omega, same, Nat.succ_lt_succ inside⟩
      | insert item =>
          cases index with
          | zero => cases origin
          | succ index =>
              have later : (originsFrom next rest)[index]? =
                  some (some place) := origin
              exact induction later
      | delete item =>
          have later : (originsFrom (next + 1) rest)[index]? =
              some (some place) := origin
          obtain ⟨after, same, inside⟩ := induction later
          have place_eq : place - next = place - (next + 1) + 1 := by omega
          rw [place_eq]
          exact ⟨by omega, same, Nat.succ_lt_succ inside⟩

theorem originsFrom_equal (next : Nat) (items : List Item) :
    originsFrom next (items.map EditOp.equal) =
      (List.range' next items.length).map some := by
  induction items generalizing next with
  | nil => rfl
  | cons item rest induction =>
      rw [List.map_cons, originsFrom, induction, List.length_cons,
        List.range'_succ, List.map_cons]

end EditScript

section Longest

variable {Item : Type u}

/-- The length of the longest common subsequences of two lists. -/
structure LongestCommon (left right : List Item) (length : Nat) : Prop where
  reached : ∃ common : List Item, common.Sublist left ∧ common.Sublist right ∧
    common.length = length
  bound : ∀ common : List Item, common.Sublist left → common.Sublist right →
    common.length ≤ length

variable {left right front back : List Item}

theorem LongestCommon.mono {more less : Nat}
    (inner : LongestCommon front back less)
    (outer : LongestCommon left right more) (leftPart : front.Sublist left)
    (rightPart : back.Sublist right) : less ≤ more := by
  obtain ⟨common, first, second, same⟩ := inner.reached
  rw [← same]
  exact outer.bound common (first.trans leftPart) (second.trans rightPart)

theorem LongestCommon.nil_left (right : List Item) :
    LongestCommon [] right 0 where
  reached := ⟨[], .slnil, List.nil_sublist _, rfl⟩
  bound common first _ := by
    rw [List.sublist_nil.mp first]
    exact le_rfl

theorem LongestCommon.nil_right (left : List Item) :
    LongestCommon left [] 0 where
  reached := ⟨[], List.nil_sublist _, .slnil, rfl⟩
  bound common _ second := by
    rw [List.sublist_nil.mp second]
    exact le_rfl

theorem sublist_concat {common : List Item} {item : Item}
    (part : common.Sublist (front ++ [item])) :
    common.Sublist front ∨
      ∃ before, common = before ++ [item] ∧ before.Sublist front := by
  obtain ⟨first, last, same, inFront, inLast⟩ :=
    List.sublist_append_iff.mp part
  rcases List.sublist_singleton.mp inLast with none | here
  · left
    rw [same, none, List.append_nil]
    exact inFront
  · right
    exact ⟨first, by rw [same, here], inFront⟩

theorem LongestCommon.concat_equal {length : Nat} (item : Item)
    (inner : LongestCommon front back length) :
    LongestCommon (front ++ [item]) (back ++ [item]) (length + 1) := by
  obtain ⟨common, first, second, same⟩ := inner.reached
  constructor
  · refine ⟨common ++ [item], first.append (List.Sublist.refl _),
      second.append (List.Sublist.refl _), ?_⟩
    rw [List.length_append, same]
    rfl
  · intro other inLeft inRight
    rcases sublist_concat inLeft with shorter | ⟨before, split, inFront⟩
    · rcases sublist_concat inRight with also | ⟨before, split, inBack⟩
      · exact (inner.bound other shorter also).trans (Nat.le_succ _)
      · rw [split, List.length_append]
        rw [split] at shorter
        exact Nat.succ_le_succ (inner.bound before
          ((List.sublist_append_left _ _).trans shorter) inBack)
    · rw [split] at inRight
      rw [split, List.length_append]
      apply Nat.succ_le_succ
      apply inner.bound before inFront
      rcases sublist_concat inRight with also | ⟨again, same, inBack⟩
      · exact (List.sublist_append_left _ _).trans also
      · rw [(List.append_inj' same rfl).1]
        exact inBack

theorem LongestCommon.concat_differ {up beside : Nat} {first second : Item}
    (different : first ≠ second)
    (above : LongestCommon front (back ++ [second]) up)
    (left : LongestCommon (front ++ [first]) back beside) :
    LongestCommon (front ++ [first]) (back ++ [second]) (max up beside) := by
  constructor
  · rcases le_total beside up with most | most
    · obtain ⟨common, inFront, inBack, same⟩ := above.reached
      rw [max_eq_left most]
      exact ⟨common, inFront.trans (List.sublist_append_left _ _), inBack, same⟩
    · obtain ⟨common, inFront, inBack, same⟩ := left.reached
      rw [max_eq_right most]
      exact ⟨common, inFront, inBack.trans (List.sublist_append_left _ _), same⟩
  · intro common inFront inBack
    rcases sublist_concat inFront with shorter | ⟨before, split, _⟩
    · exact (above.bound common shorter inBack).trans (le_max_left _ _)
    · rcases sublist_concat inBack with shorter | ⟨again, same, _⟩
      · exact (left.bound common inFront shorter).trans (le_max_right _ _)
      · rw [split] at same
        have last := (List.append_inj' same rfl).2
        exact absurd (List.cons.inj last).1 different

theorem LongestCommon.unique {more less : Nat}
    (first : LongestCommon left right less)
    (second : LongestCommon left right more) : less = more :=
  le_antisymm
    (first.mono second (List.Sublist.refl _) (List.Sublist.refl _))
    (second.mono first (List.Sublist.refl _) (List.Sublist.refl _))

end Longest

end Takos.Foundation
