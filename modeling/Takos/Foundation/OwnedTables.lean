import Takos.Foundation.OrderedMap

/-!
# Tables shared by several owners

The rows of all owners stand in one table under one set of keys.  What an owner
sees is the table without the rows of the others, in the same order.
-/

namespace Takos.Foundation.OrderedMap

variable {Key Row Owner : Type} [DecidableEq Owner] (owner : Row → Owner)

/-- The rows of one owner. -/
def ownedBy (who : Owner) (table : OrderedMap Key Row) : OrderedMap Key Row :=
  table.filterMap fun row => if owner row = who then some row else none

/-- The rows of all others. -/
def disown (who : Owner) (table : OrderedMap Key Row) : OrderedMap Key Row :=
  table.filterMap fun row => if owner row = who then none else some row

def values (table : OrderedMap Key Row) : List Row :=
  table.entries.map Prod.snd

theorem entries_ownedBy (who : Owner) (table : OrderedMap Key Row) :
    (table.ownedBy owner who).entries =
      table.entries.filter fun entry => owner entry.2 = who := by
  simp only [ownedBy, filterMap]
  induction table.entries with
  | nil => rfl
  | cons entry rest ih =>
      rw [List.filterMap_cons, List.filter_cons, ih]
      by_cases same : owner entry.2 = who
      · simp only [same, if_true, Option.map_some, decide_true]
      · simp only [same, if_false, Option.map_none, decide_false,
          Bool.false_eq_true]

theorem entries_disown (who : Owner) (table : OrderedMap Key Row) :
    (table.disown owner who).entries =
      table.entries.filter fun entry => owner entry.2 ≠ who := by
  simp only [disown, filterMap]
  induction table.entries with
  | nil => rfl
  | cons entry rest ih =>
      rw [List.filterMap_cons, List.filter_cons, ih]
      by_cases same : owner entry.2 = who
      · simp [same]
      · simp [same]

theorem values_ownedBy (who : Owner) (table : OrderedMap Key Row) :
    (table.ownedBy owner who).values =
      table.values.filter fun row => owner row = who := by
  rw [values, values, entries_ownedBy, List.filter_map]
  rfl

theorem filter_values_ownedBy {who : Owner} {condition : Row → Bool}
    (mine : ∀ row, condition row = true → owner row = who)
    (table : OrderedMap Key Row) :
    (table.ownedBy owner who).values.filter condition =
      table.values.filter condition := by
  rw [values_ownedBy, List.filter_filter]
  apply List.filter_congr
  intro row _
  cases selected : condition row with
  | true => simp [mine row selected]
  | false => rfl

theorem ownedBy_disown_self (who : Owner) (table : OrderedMap Key Row) :
    (table.disown owner who).ownedBy owner who = empty := by
  apply ext
  rw [entries_ownedBy, entries_disown, List.filter_filter]
  simp [empty]

theorem ownedBy_disown_other {who other : Owner} (apart : other ≠ who)
    (table : OrderedMap Key Row) :
    (table.disown owner other).ownedBy owner who =
      table.ownedBy owner who := by
  apply ext
  rw [entries_ownedBy, entries_disown, entries_ownedBy, List.filter_filter]
  apply List.filter_congr
  intro entry _
  by_cases mine : owner entry.2 = who
  · simp [mine, Ne.symm apart]
  · simp [mine]

section Keys

variable [DecidableEq Key]

theorem get?_ownedBy (who : Owner) (table : OrderedMap Key Row) (key : Key) :
    (table.ownedBy owner who).get? key =
      (table.get? key).filter fun row => owner row = who := by
  rw [ownedBy, get?_filterMap]
  cases table.get? key with
  | none => rfl
  | some row =>
      rw [Option.bind_some, Option.filter_some]
      by_cases same : owner row = who
      · rw [if_pos same, if_pos (decide_eq_true same)]
      · rw [if_neg same, if_neg (by simpa using same)]

/-- Nobody else holds the key. -/
def FreeFor (who : Owner) (key : Key) (table : OrderedMap Key Row) : Prop :=
  ∀ stored, table.get? key = some stored → owner stored = who

theorem FreeFor.get? {who : Owner} {key : Key} {table : OrderedMap Key Row}
    (free : table.FreeFor owner who key) :
    (table.ownedBy owner who).get? key = table.get? key := by
  rw [get?_ownedBy]
  cases found : table.get? key with
  | none => rfl
  | some row => simp [free row found]

theorem ownedBy_set_self {who : Owner} {key : Key} {row : Row}
    {table : OrderedMap Key Row} (mine : owner row = who)
    (free : table.FreeFor owner who key) :
    (table.set key row).ownedBy owner who =
      (table.ownedBy owner who).set key row := by
  apply filterMap_set_some
  · exact if_pos mine
  · intro stored found
    rw [if_pos (free stored found)]
    rfl

theorem ownedBy_set_other {who : Owner} {key : Key} {row : Row}
    {table : OrderedMap Key Row} (other : owner row ≠ who)
    (free : table.FreeFor owner (owner row) key) :
    (table.set key row).ownedBy owner who = table.ownedBy owner who := by
  apply filterMap_set_none
  · exact if_neg other
  · intro stored found
    exact if_neg (by rwa [free stored found])

end Keys

end Takos.Foundation.OrderedMap
