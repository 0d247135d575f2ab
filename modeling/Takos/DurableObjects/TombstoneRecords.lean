import Takos.DurableObjects.TombstoneIndex
import Mathlib.Algebra.Order.Floor.Semiring

/-!
# Tombstone records and their keys

A deletion writes a record and an index key for it.  Overwrites, evictions and
cleanups keep the two together, except that a cleanup takes the key alone where
the expiry of the record has a fraction.
-/

namespace Takos.DurableObjects

open Takos.Foundation

variable {Number : Type}

namespace RoutingStorage

def tombstoneOf (storage : RoutingStorage Number) (hostname : Text) :
    Option ℚ :=
  (storage.load hostname).bind StoredRoutingRecord.tombstoneUntil

/-- Each tombstone record has its index key, and each key is that of one
record. -/
structure OneToOne (storage : RoutingStorage Number) : Prop where
  once : storage.tombstones.Nodup
  indexed : ∀ hostname expiry, storage.tombstoneOf hostname = some expiry →
    tombstoneKey expiry hostname ∈ storage.tombstones
  recorded : ∀ key ∈ storage.tombstones, ∃! hostname, ∃ expiry,
    storage.tombstoneOf hostname = some expiry ∧
      key = tombstoneKey expiry hostname

/-- Index and records agree, and every expiry fits into its key. -/
structure Indexed (storage : RoutingStorage Number) : Prop where
  once : storage.tombstones.Nodup
  indexed : ∀ hostname expiry, storage.tombstoneOf hostname = some expiry →
    tombstoneKey expiry hostname ∈ storage.tombstones
  recorded : ∀ key ∈ storage.tombstones, ∃ hostname expiry,
    storage.tombstoneOf hostname = some expiry ∧
      key = tombstoneKey expiry hostname
  proper : ∀ hostname expiry, storage.tombstoneOf hostname = some expiry →
    ProperExpiry ⌊expiry⌋₊ ∧ hostname ≠ []

theorem tombstoneKey_inj {left right : ℚ} {leftHost rightHost : Text}
    (leftProper : ProperExpiry ⌊left⌋₊ ∧ leftHost ≠ [])
    (rightProper : ProperExpiry ⌊right⌋₊ ∧ rightHost ≠ [])
    (same : tombstoneKey left leftHost = tombstoneKey right rightHost) :
    ⌊left⌋₊ = ⌊right⌋₊ ∧ leftHost = rightHost := by
  have read := congrArg parseTombstoneKey same
  rw [tombstoneKey_eq, tombstoneKey_eq,
    parse_expiryKey leftProper.1 leftProper.2,
    parse_expiryKey rightProper.1 rightProper.2] at read
  exact Prod.mk.inj (Option.some.inj read)

variable {storage : RoutingStorage Number} {hostname : Text}
  {cleaned : ClockReading}

theorem Indexed.oneToOne (agree : Indexed storage) : OneToOne storage := by
  refine ⟨agree.once, agree.indexed, ?_⟩
  intro key member
  obtain ⟨hostname, expiry, recorded, same⟩ := agree.recorded key member
  refine ⟨hostname, ⟨expiry, recorded, same⟩, ?_⟩
  rintro other ⟨later, found, again⟩
  exact (tombstoneKey_inj (agree.proper other later found)
    (agree.proper hostname expiry recorded) (again.symm.trans same)).2

theorem Indexed.wellKeyed (agree : Indexed storage) :
    WellKeyed storage.tombstones := by
  intro key member
  obtain ⟨hostname, expiry, recorded, same⟩ := agree.recorded key member
  obtain ⟨proper, named⟩ := agree.proper hostname expiry recorded
  exact ⟨⌊expiry⌋₊, hostname, proper, named, same⟩

theorem Indexed.empty : Indexed (empty : RoutingStorage Number) where
  once := List.nodup_nil
  indexed _ _ recorded := by cases recorded
  recorded _ member := by cases member
  proper _ _ recorded := by cases recorded

theorem Indexed.congr {storage next : RoutingStorage Number}
    (agree : Indexed storage)
    (records : ∀ hostname, next.tombstoneOf hostname =
      storage.tombstoneOf hostname)
    (keys : next.tombstones = storage.tombstones) : Indexed next where
  once := by
    rw [keys]
    exact agree.once
  indexed hostname expiry recorded := by
    rw [keys]
    exact agree.indexed hostname expiry ((records hostname).symm.trans recorded)
  recorded key member := by
    rw [keys] at member
    obtain ⟨hostname, expiry, recorded, same⟩ := agree.recorded key member
    exact ⟨hostname, expiry, (records hostname).trans recorded, same⟩
  proper hostname expiry recorded :=
    agree.proper hostname expiry ((records hostname).symm.trans recorded)

theorem tombstoneOf_save (storage : RoutingStorage Number) (hostname : Text)
    (record : StoredRoutingRecord Number) (other : Text) :
    (storage.save hostname record).tombstoneOf other =
      if other = hostname then record.tombstoneUntil
      else storage.tombstoneOf other := by
  rw [tombstoneOf, load, save, OrderedMap.get?_set]
  split <;> rfl

theorem tombstoneOf_deleteRecord (storage : RoutingStorage Number)
    (hostname other : Text) :
    (storage.deleteRecord hostname).tombstoneOf other =
      if other = hostname then none else storage.tombstoneOf other := by
  rw [tombstoneOf, load, deleteRecord, OrderedMap.get?_delete]
  split <;> rfl

theorem Indexed.without {storage next : RoutingStorage Number}
    (agree : Indexed storage)
    (records : ∀ other, next.tombstoneOf other =
      if other = hostname then none else storage.tombstoneOf other)
    (keys : ∀ key, key ∈ next.tombstones ↔ key ∈ storage.tombstones ∧
      ∀ expiry, storage.tombstoneOf hostname = some expiry →
        key ≠ tombstoneKey expiry hostname) (once : next.tombstones.Nodup) :
    Indexed next := by
  have found : ∀ {other expiry}, next.tombstoneOf other = some expiry →
      other ≠ hostname ∧ storage.tombstoneOf other = some expiry := by
    intro other expiry recorded
    rw [records] at recorded
    split at recorded
    · cases recorded
    · rename_i different
      exact ⟨different, recorded⟩
  constructor
  · exact once
  · intro other expiry recorded
    obtain ⟨different, before⟩ := found recorded
    rw [keys]
    refine ⟨agree.indexed other expiry before, ?_⟩
    intro gone held same
    exact different (tombstoneKey_inj (agree.proper other expiry before)
      (agree.proper hostname gone held) same).2
  · intro key member
    obtain ⟨stored, apart⟩ := (keys key).mp member
    obtain ⟨other, expiry, recorded, same⟩ := agree.recorded key stored
    refine ⟨other, expiry, ?_, same⟩
    rw [records, if_neg]
    · exact recorded
    · intro here
      rw [here] at recorded same
      exact apart expiry recorded same
  · intro other expiry recorded
    exact agree.proper other expiry (found recorded).2

theorem mem_deleteTombstoneKey (storage : RoutingStorage Number)
    (key other : Text) :
    other ∈ (storage.deleteTombstoneKey key).tombstones ↔
      other ∈ storage.tombstones ∧ other ≠ key := by
  rw [deleteTombstoneKey, List.mem_filter, decide_eq_true_eq]

theorem nodup_deleteTombstoneKey (once : storage.tombstones.Nodup)
    (key : Text) : (storage.deleteTombstoneKey key).tombstones.Nodup :=
  once.sublist List.filter_sublist

theorem Indexed.positive (agree : Indexed storage) {expiry : ℚ}
    (recorded : storage.tombstoneOf hostname = some expiry) : 0 < expiry :=
  Nat.pos_of_floor_pos (agree.proper hostname expiry recorded).1.1

theorem mem_deleteTombstoneIndex (agree : Indexed storage)
    (hostname key : Text) :
    key ∈ (storage.deleteTombstoneIndex hostname
        (storage.load hostname)).tombstones ↔
      key ∈ storage.tombstones ∧
        ∀ expiry, storage.tombstoneOf hostname = some expiry →
          key ≠ tombstoneKey expiry hostname := by
  unfold deleteTombstoneIndex
  cases recorded : storage.tombstoneOf hostname with
  | none =>
      rw [tombstoneOf] at recorded
      rw [recorded]
      simp only
      exact ⟨fun member => ⟨member, fun _ found => nomatch found⟩, And.left⟩
  | some expiry =>
      have positive := agree.positive recorded
      rw [tombstoneOf] at recorded
      rw [recorded]
      simp only
      rw [if_neg (ne_of_gt positive), mem_deleteTombstoneKey]
      apply and_congr_right
      intro _
      constructor
      · intro apart other same
        cases same
        exact apart
      · intro apart
        exact apart expiry rfl

theorem nodup_deleteTombstoneIndex (once : storage.tombstones.Nodup)
    (hostname : Text) (prev : Option (StoredRoutingRecord Number)) :
    (storage.deleteTombstoneIndex hostname prev).tombstones.Nodup := by
  unfold deleteTombstoneIndex
  split
  · split
    · exact once
    · exact nodup_deleteTombstoneKey once _
  · exact once

theorem load_deleteTombstoneIndex (storage : RoutingStorage Number)
    (hostname : Text) (prev : Option (StoredRoutingRecord Number))
    (other : Text) :
    (storage.deleteTombstoneIndex hostname prev).load other =
      storage.load other := by
  unfold deleteTombstoneIndex
  split
  · split <;> rfl
  · rfl

theorem Indexed.put (agree : Indexed storage) (hostname : Text)
    {record : StoredRoutingRecord Number}
    (route : record.tombstoneUntil = none) :
    Indexed ((storage.deleteTombstoneIndex hostname
      (storage.load hostname)).save hostname record) := by
  apply agree.without 
  · intro other
    rw [tombstoneOf_save, route, tombstoneOf, load_deleteTombstoneIndex]
    rfl
  · exact mem_deleteTombstoneIndex agree hostname
  · exact nodup_deleteTombstoneIndex agree.once _ _

theorem Indexed.delete (agree : Indexed storage) {expiry : ℚ}
    (proper : ProperExpiry ⌊expiry⌋₊ ∧ hostname ≠ [])
    {record : StoredRoutingRecord Number}
    (tombstone : record.tombstoneUntil = some expiry) :
    Indexed (((storage.deleteTombstoneIndex hostname
      (storage.load hostname)).save hostname record).putTombstoneKey
        (tombstoneKey expiry hostname)) := by
  have records : ∀ other, (((storage.deleteTombstoneIndex hostname
      (storage.load hostname)).save hostname record).putTombstoneKey
        (tombstoneKey expiry hostname)).tombstoneOf other =
      if other = hostname then some expiry else storage.tombstoneOf other := by
    intro other
    refine (tombstoneOf_save _ hostname record other).trans ?_
    rw [tombstone, tombstoneOf, load_deleteTombstoneIndex]
    rfl
  have keys : ∀ key, key ∈ (((storage.deleteTombstoneIndex hostname
      (storage.load hostname)).save hostname record).putTombstoneKey
        (tombstoneKey expiry hostname)).tombstones ↔
      key = tombstoneKey expiry hostname ∨ key ∈ storage.tombstones ∧
        ∀ expiry, storage.tombstoneOf hostname = some expiry →
          key ≠ tombstoneKey expiry hostname := by
    intro key
    refine List.mem_insert_iff.trans (or_congr_right ?_)
    exact mem_deleteTombstoneIndex agree hostname key
  constructor
  · exact (nodup_deleteTombstoneIndex agree.once _ _).insert
  · intro other later recorded
    rw [records] at recorded
    rw [keys]
    split at recorded
    · rename_i here
      cases recorded
      left
      rw [here]
    · rename_i different
      right
      refine ⟨agree.indexed other later recorded, ?_⟩
      intro gone held same
      exact different (tombstoneKey_inj (agree.proper other later recorded)
        (agree.proper hostname gone held) same).2
  · intro key member
    rcases (keys key).mp member with new | ⟨stored, apart⟩
    · exact ⟨hostname, expiry, (records hostname).trans (if_pos rfl), new⟩
    · obtain ⟨other, later, recorded, same⟩ := agree.recorded key stored
      refine ⟨other, later, ?_, same⟩
      rw [records, if_neg]
      · exact recorded
      · intro here
        rw [here] at recorded same
        exact apart later recorded same
  · intro other later recorded
    rw [records] at recorded
    split at recorded
    · rename_i here
      cases recorded
      rw [here]
      exact proper
    · exact agree.proper other later recorded

theorem Indexed.evict (agree : Indexed storage) {expiry : ℚ}
    (recorded : storage.tombstoneOf hostname = some expiry) :
    Indexed ((storage.deleteTombstoneKey
      (tombstoneKey expiry hostname)).deleteRecord hostname) := by
  apply agree.without 
  · intro other
    rw [tombstoneOf_deleteRecord]
    rfl
  · intro key
    refine (mem_deleteTombstoneKey storage _ key).trans
      (and_congr_right fun _ => ?_)
    rw [recorded]
    constructor
    · intro apart other same
      cases same
      exact apart
    · intro apart
      exact apart expiry rfl
  · exact nodup_deleteTombstoneKey agree.once _

/-- Every tombstone that the cleanup finds due has an expiry in whole
milliseconds. -/
def DueWhole (cleaned : ClockReading) (storage : RoutingStorage Number) : Prop :=
  ∀ hostname expiry, storage.tombstoneOf hostname = some expiry →
    (∃ whole : Nat, expiry = whole) ∨ cleaned.ms < ⌊expiry⌋₊

theorem Indexed.dropTombstone (agree : Indexed storage)
    (whole : DueWhole cleaned storage) {due : Nat} (proper : ProperExpiry due)
    (named : hostname ≠ []) (past : due ≤ cleaned.ms) :
    Indexed (storage.dropTombstone (expiryKey due hostname)
        (some (due, hostname))) ∧
      DueWhole cleaned (storage.dropTombstone (expiryKey due hostname)
        (some (due, hostname))) := by
  have keyOf : expiryKey due hostname = tombstoneKey (due : ℚ) hostname := by
    rw [tombstoneKey_eq, Nat.floor_natCast]
  have alone : storage.tombstoneOf hostname ≠ some (due : ℚ) →
      Indexed (storage.deleteTombstoneKey (expiryKey due hostname)) ∧
        DueWhole cleaned
          (storage.deleteTombstoneKey (expiryKey due hostname)) := by
    intro other
    refine ⟨?_, whole⟩
    have foreign : expiryKey due hostname ∉ storage.tombstones := by
      intro member
      obtain ⟨holder, expiry, recorded, same⟩ := agree.recorded _ member
      rw [keyOf] at same
      have dueProper : ProperExpiry ⌊(due : ℚ)⌋₊ ∧ hostname ≠ [] := by
        rw [Nat.floor_natCast]
        exact ⟨proper, named⟩
      obtain ⟨floors, hosts⟩ := tombstoneKey_inj dueProper
        (agree.proper holder expiry recorded) same
      rw [Nat.floor_natCast] at floors
      rw [← hosts] at recorded
      rcases whole hostname expiry recorded with ⟨count, precise⟩ | future
      · rw [precise, Nat.floor_natCast] at floors
        rw [precise, ← floors] at recorded
        exact other recorded
      · omega
    refine agree.congr (fun _ => rfl) ?_
    apply List.filter_eq_self.mpr
    intro key member
    apply decide_eq_true
    intro same
    rw [same] at member
    exact foreign member
  unfold RoutingStorage.dropTombstone
  simp only
  cases loaded : storage.load hostname with
  | none =>
      apply alone
      rw [tombstoneOf, loaded]
      exact fun found => nomatch found
  | some record =>
      simp only
      have found : storage.tombstoneOf hostname = record.tombstoneUntil := by
        rw [tombstoneOf, loaded]
        rfl
      by_cases matching : record.tombstoneUntil = some (due : ℚ)
      · rw [if_pos matching]
        have recorded := found.trans matching
        rw [keyOf]
        refine ⟨agree.evict recorded, ?_⟩
        intro other expiry held
        have before := (tombstoneOf_deleteRecord storage hostname
          other).symm.trans held
        split at before
        · cases before
        · exact whole other expiry before
      · rw [if_neg matching]
        apply alone
        rw [found]
        exact matching

theorem cleanupBatch_indexed (batch : List Text) (agree : Indexed storage)
    (whole : DueWhole cleaned storage) (keyed : WellKeyed batch) :
    Indexed (cleanupBatch cleaned storage batch).1 ∧
      DueWhole cleaned (cleanupBatch cleaned storage batch).1 := by
  induction batch generalizing storage with
  | nil => exact ⟨agree, whole⟩
  | cons key rest induction =>
      obtain ⟨due, hostname, proper, named, same⟩ :=
        keyed key List.mem_cons_self
      have later : WellKeyed rest :=
        fun other member => keyed other (List.mem_cons_of_mem _ member)
      rw [cleanupBatch, same, parse_expiryKey proper named]
      simp only
      by_cases future : cleaned.ms < due
      · rw [if_pos future]
        exact ⟨agree, whole⟩
      · rw [if_neg future]
        obtain ⟨kept, wholeKept⟩ := agree.dropTombstone whole proper named
          (not_lt.mp future)
        exact induction kept wholeKept later

theorem wellKeyed_listed (keyed : WellKeyed storage.tombstones) {first : Text}
    {rest : List Text} (listed : storage.listTombstones = first :: rest) :
    WellKeyed (first :: rest.take 127) := by
  apply keyed.sublist
  intro key member
  rw [← storage.mem_listTombstones, listed]
  rcases List.mem_cons.mp member with same | later
  · rw [same]
    exact List.mem_cons_self
  · exact List.mem_cons_of_mem _ (List.mem_of_mem_take later)

theorem cleanup_indexed (agree : Indexed storage)
    (whole : DueWhole cleaned storage) :
    Indexed (cleanupExpiredTombstones cleaned storage) := by
  induction storage using cleanupExpiredTombstones.induct cleaned with
  | case1 storage listed =>
      rw [cleanupExpiredTombstones]
      split
      · exact agree
      · rename_i other
        rw [listed] at other
        cases other
  | case2 storage first rest listed next round =>
      have kept := cleanupBatch_indexed (first :: rest.take 127) agree whole
        (wellKeyed_listed agree.wellKeyed listed)
      rw [round] at kept
      rw [cleanup_of_stop listed round]
      exact kept.1
  | case3 storage first rest listed next round induction =>
      have kept := cleanupBatch_indexed (first :: rest.take 127) agree whole
        (wellKeyed_listed agree.wellKeyed listed)
      rw [round] at kept
      rw [cleanup_of_round listed round]
      exact induction kept.1 kept.2

/-- No record is new, and none is gone but tombstones of a whole expiry. -/
structure OnlyWholeDropped (storage next : RoutingStorage Number) : Prop where
  old : ∀ hostname record, next.load hostname = some record →
    storage.load hostname = some record
  kept : ∀ hostname record, storage.load hostname = some record →
    (∀ whole : Nat, record.tombstoneUntil ≠ some (whole : ℚ)) →
    next.load hostname = some record

theorem OnlyWholeDropped.refl (storage : RoutingStorage Number) :
    OnlyWholeDropped storage storage :=
  ⟨fun _ _ found => found, fun _ _ found _ => found⟩

theorem OnlyWholeDropped.trans {storage next last : RoutingStorage Number}
    (first : OnlyWholeDropped storage next)
    (second : OnlyWholeDropped next last) : OnlyWholeDropped storage last where
  old hostname record found :=
    first.old hostname record (second.old hostname record found)
  kept hostname record found fraction :=
    second.kept hostname record (first.kept hostname record found fraction)
      fraction

theorem deleteKey_dropped (storage : RoutingStorage Number) (key : Text) :
    OnlyWholeDropped storage (storage.deleteTombstoneKey key) :=
  ⟨fun _ _ found => found, fun _ _ found _ => found⟩

theorem dropTombstone_dropped (storage : RoutingStorage Number) (key : Text)
    (parsed : Option (Nat × Text)) :
    OnlyWholeDropped storage (storage.dropTombstone key parsed) := by
  unfold RoutingStorage.dropTombstone
  cases parsed with
  | none => exact deleteKey_dropped storage key
  | some pair =>
      obtain ⟨due, hostname⟩ := pair
      simp only
      cases loaded : storage.load hostname with
      | none => exact deleteKey_dropped storage key
      | some record =>
          simp only
          by_cases matching : record.tombstoneUntil = some (due : ℚ)
          · rw [if_pos matching]
            have left : ∀ other, ((storage.deleteRecord
                hostname).deleteTombstoneKey key).load other =
                  if other = hostname then none else storage.load other :=
              fun other => OrderedMap.get?_delete storage.routes hostname other
            constructor
            · intro other later found
              rw [left] at found
              split at found
              · cases found
              · exact found
            · intro other later found fraction
              rw [left, if_neg]
              · exact found
              · intro here
                rw [here, loaded] at found
                cases found
                exact fraction due matching
          · rw [if_neg matching]
            exact deleteKey_dropped storage key

theorem cleanupBatch_dropped (cleaned : ClockReading) (batch : List Text)
    (storage : RoutingStorage Number) :
    OnlyWholeDropped storage (cleanupBatch cleaned storage batch).1 := by
  induction batch generalizing storage with
  | nil => exact .refl storage
  | cons key rest induction =>
      unfold cleanupBatch
      split
      · split
        · exact .refl storage
        · exact (dropTombstone_dropped storage key _).trans (induction _)
      · exact (dropTombstone_dropped storage key none).trans (induction _)

theorem cleanup_dropped (cleaned : ClockReading)
    (storage : RoutingStorage Number) :
    OnlyWholeDropped storage (cleanupExpiredTombstones cleaned storage) := by
  induction storage using cleanupExpiredTombstones.induct cleaned with
  | case1 storage listed =>
      rw [cleanupExpiredTombstones]
      split
      · exact .refl storage
      · rename_i other
        rw [listed] at other
        cases other
  | case2 storage first rest listed next round =>
      have dropped := cleanupBatch_dropped cleaned (first :: rest.take 127)
        storage
      rw [round] at dropped
      rw [cleanup_of_stop listed round]
      exact dropped
  | case3 storage first rest listed next round induction =>
      have dropped := cleanupBatch_dropped cleaned (first :: rest.take 127)
        storage
      rw [round] at dropped
      rw [cleanup_of_round listed round]
      exact dropped.trans induction

end RoutingStorage

end Takos.DurableObjects
