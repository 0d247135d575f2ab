import Mathlib.Data.List.Nodup
import Mathlib.Data.List.Perm.Basic

/-!
# Insertion-ordered maps

The `Map` of the source language iterates in insertion order: writing an
existing key keeps its position, writing a new key appends it, and deleting a
key closes the gap.  Keys are unique, which the structure records.
-/

namespace Takos.Foundation

universe u v

/-- Finite map with unique keys and a remembered insertion order. -/
structure OrderedMap (Key : Type u) (Value : Type v) where
  entries : List (Key × Value)
  nodup : (entries.map Prod.fst).Nodup

namespace OrderedMap

variable {Key : Type u} {Value : Type v}

@[ext] theorem ext {left right : OrderedMap Key Value}
    (same : left.entries = right.entries) : left = right := by
  cases left
  cases right
  simpa using same

def empty : OrderedMap Key Value := ⟨[], List.nodup_nil⟩

def keys (map : OrderedMap Key Value) : List Key := map.entries.map Prod.fst

variable {map : OrderedMap Key Value} {key : Key} {value : Value}
  {image : Value → Option Value} {pairs : List (Key × Value)}

theorem mem_keys_iff :
    key ∈ map.keys ↔ ∃ value, (key, value) ∈ map.entries := by
  simp [keys]

variable [DecidableEq Key]

private def setEntries (key : Key) (value : Value) :
    List (Key × Value) → List (Key × Value)
  | [] => [(key, value)]
  | entry :: rest =>
    if entry.1 = key then (key, value) :: rest
    else entry :: setEntries key value rest

private theorem setEntries_keys (key : Key) (value : Value)
    (entries : List (Key × Value)) :
    (setEntries key value entries).map Prod.fst =
      if key ∈ entries.map Prod.fst then entries.map Prod.fst
      else entries.map Prod.fst ++ [key] := by
  induction entries with
  | nil => simp [setEntries]
  | cons entry rest ih =>
      by_cases same : entry.1 = key
      · simp [setEntries, same]
      · have reverse : key ≠ entry.1 := Ne.symm same
        by_cases later : key ∈ rest.map Prod.fst
        · simp only [setEntries, same, if_false, List.map_cons, ih, later,
            if_true, List.mem_cons, or_true]
        · simp only [setEntries, same, if_false, List.map_cons, ih, later,
            List.mem_cons, reverse, or_self, List.cons_append]

def set (map : OrderedMap Key Value) (key : Key) (value : Value) :
    OrderedMap Key Value where
  entries := setEntries key value map.entries
  nodup := by
    rw [setEntries_keys]
    split
    · exact map.nodup
    · rename_i fresh
      exact List.Nodup.append map.nodup (List.nodup_singleton key)
        (by simpa using fresh)

def delete (map : OrderedMap Key Value) (key : Key) : OrderedMap Key Value where
  entries := map.entries.filter (fun entry => entry.1 ≠ key)
  nodup := by
    have kept : (map.entries.filter (fun entry => entry.1 ≠ key)).map Prod.fst =
        (map.entries.map Prod.fst).filter (fun item => item ≠ key) := by
      rw [List.filter_map]
      rfl
    rw [kept]
    exact map.nodup.filter _

def get? (map : OrderedMap Key Value) (key : Key) : Option Value :=
  map.entries.lookup key

/-- Rewrite every value in place, or delete its entry. -/
def filterMap (map : OrderedMap Key Value) (image : Value → Option Value) :
    OrderedMap Key Value where
  entries := map.entries.filterMap fun entry =>
    (image entry.2).map fun value => (entry.1, value)
  nodup := by
    apply List.Nodup.sublist _ map.nodup
    induction map.entries with
    | nil => exact List.Sublist.refl _
    | cons entry rest ih =>
        cases imaged : image entry.2 with
        | none =>
            simp only [List.filterMap_cons, imaged, Option.map_none]
            exact ih.cons entry.1
        | some value =>
            simp only [List.filterMap_cons, imaged, Option.map_some,
              List.map_cons]
            exact ih.cons_cons entry.1

/-- Delete the `count` oldest entries. -/
def drop (map : OrderedMap Key Value) (count : Nat) :
    OrderedMap Key Value where
  entries := map.entries.drop count
  nodup := by
    rw [List.map_drop]
    exact List.Nodup.sublist (List.drop_sublist count _) map.nodup

/-- Build a map by writing the pairs in order: the last write of a key wins. -/
def ofList (pairs : List (Key × Value)) : OrderedMap Key Value :=
  pairs.foldl (fun map pair => map.set pair.1 pair.2) empty

private theorem lookup_eq_some_iff {entries : List (Key × Value)}
    (nodup : (entries.map Prod.fst).Nodup) :
    entries.lookup key = some value ↔ (key, value) ∈ entries := by
  induction entries with
  | nil => simp
  | cons entry rest ih =>
      obtain ⟨entryKey, entryValue⟩ := entry
      simp only [List.map_cons, List.nodup_cons] at nodup
      by_cases same : key = entryKey
      · subst same
        have absent : (key, value) ∉ rest := fun member =>
          nodup.1 (List.mem_map.mpr ⟨_, member, rfl⟩)
        simp [absent, eq_comm]
      · have different : (key == entryKey) = false := by simpa using same
        simp [List.lookup_cons, different, ih nodup.2, same]

theorem get?_eq_some_iff :
    map.get? key = some value ↔ (key, value) ∈ map.entries :=
  lookup_eq_some_iff map.nodup

theorem get?_eq_none_iff : map.get? key = none ↔ key ∉ map.keys := by
  rw [mem_keys_iff]
  constructor
  · rintro missing ⟨value, member⟩
    rw [get?_eq_some_iff.mpr member] at missing
    exact absurd missing (by simp)
  · intro missing
    cases found : map.get? key with
    | none => rfl
    | some value => exact absurd ⟨value, get?_eq_some_iff.mp found⟩ missing

@[simp] theorem get?_empty (key : Key) :
    (empty : OrderedMap Key Value).get? key = none := rfl

private theorem lookup_setEntries (entries : List (Key × Value))
    (key other : Key) (value : Value) :
    (setEntries key value entries).lookup other =
      if other = key then some value else entries.lookup other := by
  induction entries with
  | nil =>
      by_cases same : other = key
      · simp [setEntries, same]
      · have different : (other == key) = false := by simpa using same
        simp [setEntries, List.lookup_cons, same, different]
  | cons entry rest ih =>
      obtain ⟨entryKey, entryValue⟩ := entry
      by_cases replaced : entryKey = key
      · subst replaced
        by_cases same : other = entryKey
        · simp [setEntries, same]
        · have different : (other == entryKey) = false := by simpa using same
          simp [setEntries, List.lookup_cons, same, different]
      · by_cases same : other = entryKey
        · subst same
          simp [setEntries, replaced]
        · have different : (other == entryKey) = false := by simpa using same
          simp [setEntries, List.lookup_cons, replaced, different, ih]

theorem get?_set (map : OrderedMap Key Value) (key other : Key)
    (value : Value) :
    (map.set key value).get? other =
      if other = key then some value else map.get? other :=
  lookup_setEntries map.entries key other value

@[simp] theorem get?_set_self (map : OrderedMap Key Value) (key : Key)
    (value : Value) : (map.set key value).get? key = some value := by
  simp [get?_set]

theorem get?_set_of_ne (map : OrderedMap Key Value) {key other : Key}
    (different : other ≠ key) (value : Value) :
    (map.set key value).get? other = map.get? other := by
  simp [get?_set, different]

theorem get?_delete (map : OrderedMap Key Value) (key other : Key) :
    (map.delete key).get? other =
      if other = key then none else map.get? other := by
  by_cases same : other = key
  · subst same
    rw [if_pos rfl, get?_eq_none_iff, mem_keys_iff]
    rintro ⟨value, member⟩
    simp [delete] at member
  · rw [if_neg same]
    cases found : map.get? other with
    | none =>
        rw [get?_eq_none_iff, mem_keys_iff] at found ⊢
        rintro ⟨value, member⟩
        simp only [delete, List.mem_filter] at member
        exact found ⟨value, member.1⟩
    | some value =>
        rw [get?_eq_some_iff] at found ⊢
        simp [delete, found, same]

theorem get?_filterMap (map : OrderedMap Key Value)
    (image : Value → Option Value) (key : Key) :
    (map.filterMap image).get? key = (map.get? key).bind image := by
  have lookup : ∀ entries : List (Key × Value),
      (entries.map Prod.fst).Nodup →
      (entries.filterMap fun entry =>
        (image entry.2).map fun value => (entry.1, value)).lookup key =
        (entries.lookup key).bind image := by
    intro entries unique
    induction entries with
    | nil => rfl
    | cons entry rest ih =>
        obtain ⟨entryKey, entryValue⟩ := entry
        simp only [List.map_cons, List.nodup_cons] at unique
        have later := ih unique.2
        by_cases same : key = entryKey
        · subst same
          cases imaged : image entryValue with
          | none =>
              have absent : rest.lookup key = none := by
                rw [List.lookup_eq_none_iff]
                intro pair member
                have : pair.1 ∈ rest.map Prod.fst :=
                  List.mem_map_of_mem member
                have different : key ≠ pair.1 := by
                  rintro rfl
                  exact unique.1 this
                simpa using different
              rw [absent] at later
              simp [imaged, later]
          | some value => simp [imaged]
        · have different : (key == entryKey) = false := by simpa using same
          cases imaged : image entryValue with
          | none => simp [List.lookup_cons, imaged, different, later]
          | some value => simp [List.lookup_cons, imaged, different, later]
  exact lookup map.entries map.nodup

theorem get?_drop (map : OrderedMap Key Value) (count : Nat) (key : Key) :
    (map.drop count).get? key =
      if key ∈ map.keys.take count then none else map.get? key := by
  have split : map.entries = map.entries.take count ++
      map.entries.drop count := (List.take_append_drop count _).symm
  have unique := map.nodup
  rw [split, List.map_append, List.nodup_append] at unique
  have older : map.keys.take count =
      (map.entries.take count).map Prod.fst := by
    rw [keys, List.map_take]
  rw [older]
  split_ifs with dropped
  · rw [get?_eq_none_iff]
    intro kept
    exact unique.2.2 key dropped key kept rfl
  · have absent : (map.entries.take count).lookup key = none := by
      rw [List.lookup_eq_none_iff]
      intro pair member
      have different : key ≠ pair.1 := by
        rintro rfl
        exact dropped (List.mem_map_of_mem member)
      simpa using different
    calc (map.entries.drop count).lookup key
        = ((map.entries.take count).lookup key).or
            ((map.entries.drop count).lookup key) := by
          rw [absent, Option.none_or]
      _ = map.get? key := by
          rw [← List.lookup_append, ← split]
          rfl

theorem keys_set (map : OrderedMap Key Value) (key : Key) (value : Value) :
    (map.set key value).keys =
      if key ∈ map.keys then map.keys else map.keys ++ [key] :=
  setEntries_keys key value map.entries

theorem keys_delete (map : OrderedMap Key Value) (key : Key) :
    (map.delete key).keys = map.keys.filter fun other => other ≠ key := by
  rw [keys, keys, List.filter_map]
  rfl

theorem mem_keys_set {key other : Key} :
    other ∈ (map.set key value).keys ↔ other = key ∨ other ∈ map.keys := by
  rw [keys_set]
  split
  · rename_i member
    constructor
    · exact .inr
    · rintro (rfl | old)
      · exact member
      · exact old
  · simp [or_comm]

private theorem filterMap_setEntries {entries : List (Key × Value)}
    (unique : (entries.map Prod.fst).Nodup)
    (seen : ∀ stored, (key, stored) ∈ entries →
      (image stored).isSome = (image value).isSome) :
    (setEntries key value entries).filterMap (fun entry =>
        (image entry.2).map fun kept => (entry.1, kept)) =
      match image value with
      | some kept =>
        setEntries key kept (entries.filterMap fun entry =>
          (image entry.2).map fun kept => (entry.1, kept))
      | none =>
        entries.filterMap fun entry =>
          (image entry.2).map fun kept => (entry.1, kept) := by
  induction entries with
  | nil => cases imaged : image value <;> simp [setEntries, imaged]
  | cons entry rest ih =>
      obtain ⟨entryKey, stored⟩ := entry
      simp only [List.map_cons, List.nodup_cons] at unique
      by_cases same : entryKey = key
      · subst same
        have first := seen stored List.mem_cons_self
        cases imaged : image value with
        | none =>
            rw [imaged, Option.isSome_none, Option.isSome_eq_false_iff,
              Option.isNone_iff_eq_none] at first
            simp [setEntries, imaged, first]
        | some kept =>
            rw [imaged, Option.isSome_some, Option.isSome_iff_exists] at first
            obtain ⟨before, read⟩ := first
            simp [setEntries, imaged, read]
      · have later := ih unique.2 fun other member =>
          seen other (List.mem_cons_of_mem _ member)
        cases imaged : image value with
        | none =>
            rw [imaged] at later
            simp only [setEntries, same, if_false, List.filterMap_cons, later]
        | some kept =>
            rw [imaged] at later
            simp only [setEntries, same, if_false, List.filterMap_cons, later]
            cases image stored <;> simp [setEntries, same]

theorem filterMap_set_some (map : OrderedMap Key Value) {value kept : Value}
    (imaged : image value = some kept)
    (seen : ∀ stored, map.get? key = some stored →
      (image stored).isSome = true) :
    (map.set key value).filterMap image =
      (map.filterMap image).set key kept := by
  apply ext
  have same : ∀ stored, (key, stored) ∈ map.entries →
      (image stored).isSome = (image value).isSome := by
    intro stored member
    rw [imaged, Option.isSome_some]
    exact seen stored (get?_eq_some_iff.mpr member)
  have shown := filterMap_setEntries map.nodup same
  rw [imaged] at shown
  exact shown

theorem filterMap_set_none (map : OrderedMap Key Value)
    (imaged : image value = none)
    (unseen : ∀ stored, map.get? key = some stored → image stored = none) :
    (map.set key value).filterMap image = map.filterMap image := by
  apply ext
  have same : ∀ stored, (key, stored) ∈ map.entries →
      (image stored).isSome = (image value).isSome := by
    intro stored member
    rw [imaged, unseen stored (get?_eq_some_iff.mpr member)]
  have shown := filterMap_setEntries map.nodup same
  rw [imaged] at shown
  exact shown

theorem entries_set_of_fresh (map : OrderedMap Key Value)
    (fresh : key ∉ map.keys) (value : Value) :
    (map.set key value).entries = map.entries ++ [(key, value)] := by
  have append : ∀ entries : List (Key × Value),
      key ∉ entries.map Prod.fst →
      setEntries key value entries = entries ++ [(key, value)] := by
    intro entries
    induction entries with
    | nil => simp [setEntries]
    | cons entry rest ih =>
        intro absent
        simp only [List.map_cons, List.mem_cons, not_or] at absent
        simp [setEntries, Ne.symm absent.1, ih absent.2]
  exact append map.entries fresh

private theorem foldl_set_get? (pairs : List (Key × Value))
    (map : OrderedMap Key Value) (key : Key) :
    (pairs.foldl (fun map pair => map.set pair.1 pair.2) map).get? key =
      (pairs.reverse.lookup key).or (map.get? key) := by
  induction pairs generalizing map with
  | nil => simp
  | cons pair rest ih =>
      obtain ⟨pairKey, pairValue⟩ := pair
      rw [List.foldl_cons, ih, get?_set, List.reverse_cons,
        List.lookup_append]
      by_cases same : key = pairKey
      · subst same
        cases rest.reverse.lookup key <;> simp
      · have different : (key == pairKey) = false := by simpa using same
        cases rest.reverse.lookup key <;>
          simp [List.lookup_cons, same, different]

theorem get?_ofList (pairs : List (Key × Value)) (key : Key) :
    (ofList pairs).get? key = pairs.reverse.lookup key := by
  simp [ofList, foldl_set_get?]

theorem get?_ofList_eq_some_iff (unique : (pairs.map Prod.fst).Nodup) :
    (ofList pairs).get? key = some value ↔ (key, value) ∈ pairs := by
  rw [get?_ofList, lookup_eq_some_iff, List.mem_reverse]
  rw [List.map_reverse, List.nodup_reverse]
  exact unique

theorem get?_foldl_delete (keys : List Key) (map : OrderedMap Key Value)
    (key : Key) :
    (keys.foldl (fun map key => map.delete key) map).get? key =
      if key ∈ keys then none else map.get? key := by
  induction keys generalizing map with
  | nil => simp
  | cons first rest ih =>
      rw [List.foldl_cons, ih, get?_delete]
      by_cases same : key = first
      · simp [same]
      · simp [same]

theorem get?_ofList_map {Other : Type v} (image : Value → Other)
    (pairs : List (Key × Value)) (key : Key) :
    (ofList (pairs.map fun pair => (pair.1, image pair.2))).get? key =
      ((ofList pairs).get? key).map image := by
  have lookup : ∀ items : List (Key × Value),
      (items.map fun pair => (pair.1, image pair.2)).lookup key =
        (items.lookup key).map image := by
    intro items
    induction items with
    | nil => rfl
    | cons pair rest ih =>
        obtain ⟨pairKey, pairValue⟩ := pair
        by_cases same : key = pairKey
        · simp [same]
        · have different : (key == pairKey) = false := by simpa using same
          simpa [List.lookup_cons, different] using ih
  rw [get?_ofList, get?_ofList, ← List.map_reverse, lookup]

theorem foldl_set_entries (pairs : List (Key × Value))
    (map : OrderedMap Key Value)
    (nodup : (map.keys ++ pairs.map Prod.fst).Nodup) :
    (pairs.foldl (fun map pair => map.set pair.1 pair.2) map).entries =
      map.entries ++ pairs := by
  induction pairs generalizing map with
  | nil => simp
  | cons pair rest ih =>
      have fresh : pair.1 ∉ map.keys := by
        intro member
        have disjoint := (List.nodup_append.mp nodup).2.2
        exact disjoint pair.1 member pair.1 (by simp) rfl
      have shape := map.entries_set_of_fresh fresh pair.2
      have keysShape : (map.set pair.1 pair.2).keys = map.keys ++ [pair.1] := by
        rw [keys_set, if_neg fresh]
      rw [List.foldl_cons, ih, shape]
      · simp
      · rw [keysShape]
        simpa using nodup

theorem entries_ofList_of_nodup (nodup : (pairs.map Prod.fst).Nodup) :
    (ofList pairs).entries = pairs := by
  have := foldl_set_entries pairs (empty : OrderedMap Key Value)
    (by simpa [keys, empty] using nodup)
  simpa [ofList, empty] using this

private theorem mem_keys_foldl_set (pairs : List (Key × Value))
    (map : OrderedMap Key Value) (key : Key) :
    key ∈ (pairs.foldl (fun map pair => map.set pair.1 pair.2) map).keys ↔
      key ∈ map.keys ∨ key ∈ pairs.map Prod.fst := by
  induction pairs generalizing map with
  | nil => simp
  | cons pair rest ih =>
      rw [List.foldl_cons, ih, mem_keys_set, List.map_cons, List.mem_cons]
      tauto

theorem mem_keys_ofList :
    key ∈ (ofList pairs).keys ↔ key ∈ pairs.map Prod.fst := by
  rw [ofList, mem_keys_foldl_set]
  simp [keys, empty]

end OrderedMap

end Takos.Foundation
