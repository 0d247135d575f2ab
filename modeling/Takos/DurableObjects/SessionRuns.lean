import Takos.DurableObjects.SessionStore

/-!
# Runs of the session object

Memory and storage hold the same entries, none of them deleted, and an alarm is
set while there are any.  This holds as long as no write of the storage fails,
none is left without its alarm, and no alarm finds more expired entries than one
call can delete.
-/

namespace Takos.DurableObjects

open Takos.Foundation

theorem startsWith_iff {text front : Text} :
    Text.startsWith text front = true ↔ front <+: text :=
  List.isPrefixOf_iff_prefix

theorem readKey_storageKey (kind : EntryKind) (key : Text) :
    readKey (storageKey kind key) = some (kind, key) := by
  cases kind with
  | session =>
      have starts : Text.startsWith (SESSION_PREFIX ++ key) SESSION_PREFIX =
          true := startsWith_iff.mpr (List.prefix_append _ _)
      simp only [readKey, storageKey, EntryKind.storagePrefix, starts, if_true,
        List.drop_left]
  | oidcState =>
      have other : Text.startsWith (OIDC_PREFIX ++ key) SESSION_PREFIX =
          false := rfl
      have starts : Text.startsWith (OIDC_PREFIX ++ key) OIDC_PREFIX =
          true := startsWith_iff.mpr (List.prefix_append _ _)
      simp only [readKey, storageKey, EntryKind.storagePrefix, other, starts,
        Bool.false_eq_true, if_false, if_true, List.drop_left]

variable {kind : EntryKind}

theorem storageKey_of_readKey {stored key : Text}
    (read : readKey stored = some (kind, key)) :
    stored = storageKey kind key := by
  unfold readKey at read
  split at read
  · rename_i starts
    cases read
    exact (List.prefix_append_drop (startsWith_iff.mp starts))
  · split at read
    · rename_i starts
      cases read
      exact (List.prefix_append_drop (startsWith_iff.mp starts))
    · cases read

theorem storageKey_inj {other : EntryKind} {key otherKey : Text} :
    storageKey kind key = storageKey other otherKey ↔
      kind = other ∧ key = otherKey := by
  constructor
  · intro same
    have read := readKey_storageKey kind key
    rw [same, readKey_storageKey] at read
    cases read
    exact ⟨rfl, rfl⟩
  · rintro ⟨rfl, rfl⟩
    rfl

theorem keyOf_eq_some_iff {stored key : Text} :
    keyOf kind stored = some key ↔ stored = storageKey kind key := by
  constructor
  · intro read
    unfold keyOf at read
    split at read
    · rename_i other otherKey found
      split at read
      · rename_i same
        cases read
        cases same
        exact storageKey_of_readKey found
      · cases read
    · cases read
  · rintro rfl
    simp [keyOf, readKey_storageKey]

theorem restart_memory (object : SessionObject) (kind : EntryKind)
    (key : Text) :
    (object.restart.memory kind).get? key =
      object.storage.get? (storageKey kind key) := by
  let pairs := object.storage.entries.filterMap fun entry =>
    (keyOf kind entry.1).map fun key => (key, entry.2)
  have member : ∀ value, (key, value) ∈ pairs ↔
      (storageKey kind key, value) ∈ object.storage.entries := by
    intro value
    simp only [pairs, List.mem_filterMap, Option.map_eq_some_iff]
    constructor
    · rintro ⟨entry, within, read, found, same⟩
      cases same
      rw [keyOf_eq_some_iff] at found
      rw [← found]
      exact within
    · intro within
      exact ⟨_, within, key, keyOf_eq_some_iff.mpr rfl, rfl⟩
  have unique : (pairs.map Prod.fst).Nodup := by
    have keys : pairs.map Prod.fst =
        object.storage.keys.filterMap (keyOf kind) := by
      simp only [pairs, OrderedMap.keys, List.map_filterMap,
        List.filterMap_map]
      apply List.filterMap_congr
      intro entry _
      simp [Function.comp_def]
    rw [keys]
    apply List.Nodup.filterMap _ object.storage.nodup
    intro left right shared first second
    rw [Option.mem_def, keyOf_eq_some_iff] at first second
    rw [first, second]
  apply Option.ext
  intro value
  have read : (object.restart.memory kind).get? key = some value ↔
      (key, value) ∈ pairs := OrderedMap.get?_ofList_eq_some_iff unique
  rw [read, member, OrderedMap.get?_eq_some_iff]

namespace SessionObject

variable (object : SessionObject)

/-- An entry as the object finds it in memory. -/
def find (kind : EntryKind) (key : Text) : Option Entry :=
  (object.memory kind).get? key

theorem find_setMemory (kind other : EntryKind) (map : OrderedMap Text Entry)
    (key : Text) :
    (object.setMemory kind map).find other key =
      if other = kind then map.get? key else object.find other key := by
  unfold find setMemory
  by_cases same : other = kind
  · subst same
    simp
  · simp [same]

theorem find_forgetExpired (now : Int) (kind : EntryKind) (key : Text) :
    (object.forgetExpired now).find kind key =
      (object.find kind key).filter fun entry => now ≤ entry.expiresAt := by
  unfold find forgetExpired
  rw [OrderedMap.get?_filterMap]
  cases (object.memory kind).get? key with
  | none => rfl
  | some entry =>
      rw [Option.bind_some, Option.filter_some]
      by_cases expired : entry.expiresAt < now
      · rw [if_pos expired, if_neg (by simpa using expired)]
      · rw [if_neg expired, if_pos (by simpa using expired)]

theorem mem_expiredKeys {now : Int} {key : Text} :
    storageKey kind key ∈ object.expiredKeys now ↔
      ∃ entry, object.find kind key = some entry ∧ entry.expiresAt < now := by
  have ofKind : ∀ other, storageKey kind key ∈
      ((object.memory other).entries.filter (isExpired now)).map
        (fun entry => storageKey other entry.1) ↔
      kind = other ∧ ∃ entry, object.find kind key = some entry ∧
        entry.expiresAt < now := by
    intro other
    simp only [List.mem_map, List.mem_filter, isExpired, decide_eq_true_eq]
    constructor
    · rintro ⟨⟨otherKey, entry⟩, ⟨within, expired⟩, same⟩
      obtain ⟨rfl, rfl⟩ := storageKey_inj.mp same
      exact ⟨rfl, entry, OrderedMap.get?_eq_some_iff.mpr within, expired⟩
    · rintro ⟨rfl, entry, found, expired⟩
      exact ⟨(key, entry),
        ⟨OrderedMap.get?_eq_some_iff.mp found, expired⟩, rfl⟩
  unfold expiredKeys
  rw [List.mem_append, ofKind, ofKind]
  cases kind <;> simp

theorem expiries_min? {key : Text} {entry : Entry}
    (found : object.find kind key = some entry) :
    ∃ earliest, object.expiries.min? = some earliest := by
  have within := OrderedMap.get?_eq_some_iff.mp found
  have listed : entry.expiresAt ∈ object.expiries := by
    unfold expiries
    rw [List.mem_map]
    refine ⟨(key, entry), ?_, rfl⟩
    rw [List.mem_append]
    cases kind with
    | session => exact .inl within
    | oidcState => exact .inr within
  cases least : object.expiries.min? with
  | some earliest => exact ⟨earliest, rfl⟩
  | none =>
      rw [List.min?_eq_none_iff] at least
      rw [least] at listed
      cases listed

end SessionObject

def settled : Attempted → SessionObject
  | .ok object => object
  | .error object => object

@[simp] theorem answer_fst (response : SessionResponse) (attempt : Attempted) :
    (answer response attempt).1 = settled attempt := by
  cases attempt <;> rfl

theorem scheduleCleanupAlarm_cases (object : SessionObject) (faults : Faults)
    (now : Int) :
    ∃ alarm, settled (object.scheduleCleanupAlarm faults now) =
        { object with alarm := alarm } ∧
      (object.alarm ≠ none → alarm ≠ none) ∧
      (faults .getAlarm = false → faults .setAlarm = false →
        (∃ kind key entry, object.find kind key = some entry) →
          alarm ≠ none) := by
  unfold SessionObject.scheduleCleanupAlarm
  split
  · rename_i failed
    refine ⟨object.alarm, rfl, id, ?_⟩
    intro works
    rw [works] at failed
    cases failed
  · split
    · rename_i pending
      refine ⟨object.alarm, rfl, id, ?_⟩
      intro _ _ _ absent
      rw [absent] at pending
      cases pending
    · split
      · rename_i least
        refine ⟨object.alarm, rfl, id, ?_⟩
        rintro _ _ ⟨kind, key, entry, found⟩
        obtain ⟨earliest, some⟩ := object.expiries_min? found
        rw [some] at least
        cases least
      · rename_i earliest _
        unfold SessionObject.setAlarm
        split
        · rename_i failed
          refine ⟨object.alarm, rfl, id, ?_⟩
          intro _ works
          rw [works] at failed
          cases failed
        · exact ⟨some (max earliest (now + 1000)), rfl, by simp, by simp⟩

theorem alarm_of_scheduled {object left : SessionObject} {faults : Faults}
    {now : Int} (done : object.scheduleCleanupAlarm faults now = .ok left)
    {key : Text} {entry : Entry} (found : object.find kind key = some entry) :
    left.alarm ≠ none := by
  unfold SessionObject.scheduleCleanupAlarm at done
  split at done
  · cases done
  · split at done
    · rename_i pending
      cases done
      intro absent
      rw [absent] at pending
      cases pending
    · obtain ⟨earliest, least⟩ := object.expiries_min? found
      rw [least] at done
      dsimp only at done
      unfold SessionObject.setAlarm at done
      split at done
      · cases done
      · cases done
        simp

/-- The entry was created, and its key has not been deleted since. -/
def Alive (log : List SessionLogEntry) (entry : Entry) : Prop :=
  ∃ later earlier, log = later ++ .created entry :: earlier ∧
    .deleted entry.kind entry.key ∉ later

theorem Alive.created (log : List SessionLogEntry) (entry : Entry) :
    Alive (.created entry :: log) entry :=
  ⟨[], log, rfl, by simp⟩

theorem Alive.cons {log : List SessionLogEntry} {entry : Entry}
    (alive : Alive log entry) {event : SessionLogEntry}
    (kept : .deleted entry.kind entry.key ≠ event) :
    Alive (event :: log) entry := by
  obtain ⟨later, earlier, rfl, undeleted⟩ := alive
  refine ⟨event :: later, earlier, rfl, ?_⟩
  rw [List.mem_cons, not_or]
  exact ⟨kept, undeleted⟩

structure Consistent (object : SessionObject) : Prop where
  agrees : ∀ kind key,
    object.storage.get? (storageKey kind key) = object.find kind key
  prefixed : ∀ stored entry, object.storage.get? stored = some entry →
    ∃ kind key, stored = storageKey kind key
  keyed : ∀ kind key entry, object.find kind key = some entry →
    entry.kind = kind ∧ entry.key = key
  alive : ∀ kind key entry, object.find kind key = some entry →
    Alive object.log entry
  scheduled : ∀ kind key entry, object.find kind key = some entry →
    object.alarm ≠ none

theorem Consistent.initial : Consistent .initial where
  agrees _ _ := rfl
  prefixed _ _ found := nomatch found
  keyed _ _ _ found := nomatch found
  alive _ _ _ found := nomatch found
  scheduled _ _ _ found := nomatch found

/-- What an allowed action is: a new entry is stored, and with an alarm where
there was none; an entry that leaves memory is deleted; and the expired entries
fit into one call. -/
def Kept (object : SessionObject) : SessionAction → Prop
  | .create entry now _ faults => object.creates entry now = true →
    faults .put = false ∧
      (object.alarm = none →
        faults .getAlarm = false ∧ faults .setAlarm = false)
  | .get kind key now faults => (object.getIfValid kind key now).2 = true →
    faults .delete = false
  | .delete _ _ faults => faults .delete = false
  | .alarm now faults _ =>
    (object.expiredKeys now).length ≤ MAX_DELETED_KEYS ∧
      (object.expiredKeys now ≠ [] → faults .delete = false)
  | .restart => True

section Actions

variable {object : SessionObject}

variable {faults : Faults}

theorem Consistent.create (consistent : Consistent object) {entry : Entry}
    (scheduled : Int) (stores : faults .put = false)
    (alarms : object.alarm = none →
      faults .getAlarm = false ∧ faults .setAlarm = false) :
    Consistent (settled (object.create faults entry scheduled)) := by
  let remembered : SessionObject :=
    { object.setMemory entry.kind
        ((object.memory entry.kind).set entry.key entry) with
      log := .created entry :: object.log }
  let stored : SessionObject :=
    { remembered with
      storage := object.storage.set (storageKey entry.kind entry.key) entry }
  have found : ∀ kind key, stored.find kind key =
      if kind = entry.kind ∧ key = entry.key then some entry
      else object.find kind key := by
    intro kind key
    have read := object.find_setMemory entry.kind kind
      ((object.memory entry.kind).set entry.key entry) key
    refine Eq.trans read ?_
    by_cases same : kind = entry.kind
    · subst same
      rw [if_pos rfl, OrderedMap.get?_set]
      simp [SessionObject.find]
    · simp [same]
  have created : object.create faults entry scheduled =
      stored.scheduleCleanupAlarm faults scheduled := by
    have persisted : remembered.persist faults entry.kind entry.key =
        .ok stored := by
      have read : (remembered.memory entry.kind).get? entry.key =
          some entry := by
        simp [remembered, SessionObject.setMemory]
      unfold SessionObject.persist SessionObject.put
      rw [read]
      simp [stores, stored, remembered, SessionObject.setMemory]
    have whole : object.create faults entry scheduled =
        (remembered.persist faults entry.kind entry.key).bind fun stored =>
          stored.scheduleCleanupAlarm faults scheduled := rfl
    rw [whole, persisted]
    rfl
  obtain ⟨alarm, settles, kept, sets⟩ :=
    scheduleCleanupAlarm_cases stored faults scheduled
  rw [created, settles]
  have pending : alarm ≠ none := by
    by_cases empty : object.alarm = none
    · apply sets (alarms empty).1 (alarms empty).2
      exact ⟨entry.kind, entry.key, entry, by rw [found]; simp⟩
    · exact kept empty
  constructor
  · intro kind key
    have read := found kind key
    refine Eq.trans ?_ read.symm
    simp only [stored, OrderedMap.get?_set, storageKey_inj]
    rw [consistent.agrees]
  · intro key other read
    simp only [stored, OrderedMap.get?_set] at read
    split at read
    · rename_i same
      exact ⟨_, _, same⟩
    · exact consistent.prefixed key other read
  · intro kind key other read
    have shown := found kind key
    rw [show stored.find kind key = some other from read] at shown
    split at shown
    · rename_i same
      cases shown
      exact ⟨same.1.symm, same.2.symm⟩
    · exact consistent.keyed kind key other shown.symm
  · intro kind key other read
    have shown := found kind key
    rw [show stored.find kind key = some other from read] at shown
    split at shown
    · cases shown
      exact Alive.created object.log entry
    · exact (consistent.alive kind key other shown.symm).cons (by simp)
  · intro _ _ _ _
    exact pending

theorem Consistent.deleteEntry (consistent : Consistent object)
    {log : List SessionLogEntry} {key : Text}
    (deletes : faults .delete = false)
    (recorded : log = object.log ∨ log = .deleted kind key :: object.log) :
    Consistent (settled
      ({ object with log := log }.deleteEntry faults kind key)) := by
  let after : SessionObject :=
    { object.setMemory kind ((object.memory kind).delete key) with
      log := log
      storage := object.storage.delete (storageKey kind key) }
  have done : { object with log := log }.deleteEntry faults kind key =
      .ok after := by
    unfold SessionObject.deleteEntry SessionObject.deleteKeys
    rw [if_neg (by simp [deletes, MAX_DELETED_KEYS])]
    rfl
  have found : ∀ other otherKey, after.find other otherKey =
      if other = kind ∧ otherKey = key then none
      else object.find other otherKey := by
    intro other otherKey
    have read := object.find_setMemory kind other
      ((object.memory kind).delete key) otherKey
    refine Eq.trans read ?_
    by_cases same : other = kind
    · subst same
      rw [if_pos rfl, OrderedMap.get?_delete]
      simp [SessionObject.find]
    · simp [same]
  have left : ∀ other otherKey entry, after.find other otherKey = some entry →
      object.find other otherKey = some entry ∧
        ¬ (other = kind ∧ otherKey = key) := by
    intro other otherKey entry read
    rw [found] at read
    split at read
    · cases read
    · rename_i different
      exact ⟨read, different⟩
  rw [done]
  constructor
  · intro other otherKey
    refine Eq.trans ?_ (found other otherKey).symm
    simp only [settled, after, OrderedMap.get?_delete, storageKey_inj]
    rw [consistent.agrees]
  · intro stored entry read
    simp only [settled, after, OrderedMap.get?_delete] at read
    split at read
    · cases read
    · exact consistent.prefixed stored entry read
  · intro other otherKey entry read
    exact consistent.keyed other otherKey entry (left _ _ _ read).1
  · intro other otherKey entry read
    obtain ⟨before, different⟩ := left _ _ _ read
    have alive := consistent.alive other otherKey entry before
    obtain ⟨rfl, rfl⟩ := consistent.keyed other otherKey entry before
    rcases recorded with same | same
    · have log : (settled (.ok after)).log = object.log := same
      rw [log]
      exact alive
    · have log : (settled (.ok after)).log =
          .deleted kind key :: object.log := same
      rw [log]
      apply alive.cons
      rintro ⟨⟩
      exact different ⟨rfl, rfl⟩
  · intro other otherKey entry read
    exact consistent.scheduled other otherKey entry (left _ _ _ read).1

/-- The object after an alarm has deleted, before it sets the next one. -/
def cleaned (object : SessionObject) (now : Int) : SessionObject :=
  { object.forgetExpired now with
    alarm := none
    storage := (object.expiredKeys now).foldl
      (fun storage key => storage.delete key) object.storage }

theorem runAlarm_cleaned {now : Int}
    (fits : (object.expiredKeys now).length ≤ MAX_DELETED_KEYS)
    (deletes : object.expiredKeys now ≠ [] → faults .delete = false) :
    object.runAlarm faults now =
      (cleaned object now).scheduleCleanupAlarm faults now := by
  let running : SessionObject := { object with alarm := none }
  have whole : object.runAlarm faults now =
      (if object.expiredKeys now ≠ [] then
        (running.forgetExpired now).deleteKeys faults (object.expiredKeys now)
      else .ok (running.forgetExpired now)).bind fun cleaned =>
        cleaned.scheduleCleanupAlarm faults now := rfl
  have deleted : (if object.expiredKeys now ≠ [] then
        (running.forgetExpired now).deleteKeys faults (object.expiredKeys now)
      else .ok (running.forgetExpired now)) = .ok (cleaned object now) := by
    split
    · rename_i some
      unfold SessionObject.deleteKeys
      rw [if_neg (by simp [deletes some, fits])]
      rfl
    · rename_i none
      rw [not_not] at none
      unfold cleaned
      rw [none]
      rfl
  rw [whole, deleted]
  rfl

theorem find_cleaned (now : Int) (kind : EntryKind) (key : Text) :
    (cleaned object now).find kind key =
      (object.find kind key).filter fun entry => now ≤ entry.expiresAt :=
  object.find_forgetExpired now kind key

theorem find_cleaned_some {now : Int} {key : Text} {entry : Entry}
    (found : (cleaned object now).find kind key = some entry) :
    object.find kind key = some entry ∧ now ≤ entry.expiresAt := by
  rw [find_cleaned, Option.filter_eq_some_iff] at found
  exact ⟨found.1, of_decide_eq_true found.2⟩

theorem Consistent.cleaned (consistent : Consistent object) (now : Int)
    {alarm : Option Int}
    (pending : ∀ kind key entry, (cleaned object now).find kind key =
      some entry → alarm ≠ none) :
    Consistent { Takos.DurableObjects.cleaned object now with
      alarm := alarm } := by
  constructor
  · intro kind key
    refine Eq.trans ?_ (find_cleaned now kind key).symm
    simp only [Takos.DurableObjects.cleaned, OrderedMap.get?_foldl_delete]
    rw [consistent.agrees]
    split
    · rename_i expired
      obtain ⟨entry, found, early⟩ := object.mem_expiredKeys.mp expired
      rw [found, Option.filter_some, if_neg (by simpa using early)]
    · rename_i unexpired
      cases found : object.find kind key with
      | none => rfl
      | some entry =>
          rw [Option.filter_some, if_pos]
          apply decide_eq_true
          by_contra early
          exact unexpired (object.mem_expiredKeys.mpr
            ⟨entry, found, Int.not_le.mp early⟩)
  · intro stored entry read
    simp only [Takos.DurableObjects.cleaned,
      OrderedMap.get?_foldl_delete] at read
    split at read
    · cases read
    · exact consistent.prefixed stored entry read
  · intro kind key entry read
    exact consistent.keyed kind key entry (find_cleaned_some read).1
  · intro kind key entry read
    exact consistent.alive kind key entry (find_cleaned_some read).1
  · exact pending

theorem retried_cleaned {now : Int} (retryAt : Int)
    (fits : (object.expiredKeys now).length ≤ MAX_DELETED_KEYS)
    (deletes : object.expiredKeys now ≠ [] → faults .delete = false) :
    ∃ alarm, (retried retryAt (object.runAlarm faults now)).1 =
        { cleaned object now with alarm := alarm } ∧
      ∀ kind key entry, (cleaned object now).find kind key = some entry →
        alarm ≠ none := by
  rw [runAlarm_cleaned fits deletes]
  obtain ⟨alarm, settles, _, _⟩ :=
    scheduleCleanupAlarm_cases (cleaned object now) faults now
  generalize attempted : (cleaned object now).scheduleCleanupAlarm faults now =
    attempt at settles ⊢
  cases attempt with
  | error left =>
      refine ⟨some retryAt, ?_, by simp⟩
      have same : left = { cleaned object now with alarm := alarm } := settles
      simp only [retried, same]
  | ok left =>
      refine ⟨alarm, settles, ?_⟩
      intro kind key entry found
      have set := alarm_of_scheduled attempted found
      rwa [show left = _ from settles] at set

theorem Consistent.restart (consistent : Consistent object) :
    Consistent object.restart := by
  have found : ∀ kind key, object.restart.find kind key =
      object.find kind key := by
    intro kind key
    rw [← consistent.agrees]
    exact restart_memory object kind key
  constructor
  · intro kind key
    rw [found]
    exact consistent.agrees kind key
  · exact consistent.prefixed
  · intro kind key entry read
    rw [found] at read
    exact consistent.keyed kind key entry read
  · intro kind key entry read
    rw [found] at read
    exact consistent.alive kind key entry read
  · intro kind key entry read
    rw [found] at read
    exact consistent.scheduled kind key entry read

theorem Consistent.perform (consistent : Consistent object)
    {action : SessionAction} (kept : Kept object action) :
    Consistent (perform object action).1 := by
  cases action with
  | create entry now scheduled faults =>
      simp only [Takos.DurableObjects.perform]
      split
      · rename_i creates
        obtain ⟨stores, alarms⟩ := kept creates
        rw [answer_fst]
        exact consistent.create scheduled stores alarms
      · exact consistent
  | get kind key now faults =>
      simp only [Takos.DurableObjects.perform]
      split
      · rename_i found evicted
        rw [answer_fst]
        exact consistent.deleteEntry (kept (by rw [evicted])) (.inl rfl)
      · exact consistent
  | delete kind key faults =>
      simp only [Takos.DurableObjects.perform, answer_fst]
      exact consistent.deleteEntry kept (.inr rfl)
  | alarm now faults retryAt =>
      obtain ⟨fits, deletes⟩ := kept
      obtain ⟨alarm, after, pending⟩ := retried_cleaned retryAt fits deletes
      have same : (Takos.DurableObjects.perform object
          (.alarm now faults retryAt)).1 = _ := after
      rw [same]
      exact consistent.cleaned now pending
  | restart => exact consistent.restart

end Actions

theorem Reached.consistent {object : SessionObject}
    (reached : Reached Kept object) : Consistent object := by
  induction reached with
  | initial => exact Consistent.initial
  | action _ permitted ih => exact ih.perform permitted

theorem find_of_get {object : SessionObject} {key : Text} {now : Int}
    {faults : Faults} {entry : Entry}
    (returned : (perform object (.get kind key now faults)).2 =
      .found (some entry)) :
    object.find kind key = some entry ∧ now ≤ entry.expiresAt := by
  simp only [perform] at returned
  cases stored : (object.memory kind).get? key with
  | none =>
      simp only [SessionObject.getIfValid, stored] at returned
      cases returned
  | some other =>
      by_cases expired : other.expiresAt < now
      · simp only [SessionObject.getIfValid, stored, expired,
          if_true] at returned
        cases attempted : object.deleteEntry faults kind key <;>
          simp [attempted, answer] at returned
      · simp only [SessionObject.getIfValid, stored, expired,
          if_false] at returned
        cases returned
        exact ⟨stored, Int.not_lt.mp expired⟩

/-- An entry is returned where it was created, not deleted since, and has not
expired; a restart finds no deleted entry; an alarm is set while there is an
entry; and an alarm leaves no expired entry, in memory or in the storage. -/
theorem entries_kept {object : SessionObject} (reached : Reached Kept object) :
    (∀ kind key now faults entry,
      (perform object (.get kind key now faults)).2 = .found (some entry) →
      Alive object.log entry ∧ entry.kind = kind ∧ entry.key = key ∧
        now ≤ entry.expiresAt) ∧
    (∀ kind key entry, object.restart.find kind key = some entry →
      Alive object.log entry) ∧
    (∀ entry, (∃ kind key, object.find kind key = some entry) ∨
      (∃ stored, object.storage.get? stored = some entry) →
      object.alarm ≠ none) ∧
    (∀ now faults retryAt, Kept object (.alarm now faults retryAt) →
      ∀ entry,
        (∃ kind key, (perform object (.alarm now faults retryAt)).1.find kind
          key = some entry) ∨
        (∃ stored, (perform object
          (.alarm now faults retryAt)).1.storage.get? stored = some entry) →
        now ≤ entry.expiresAt) := by
  have consistent := reached.consistent
  refine ⟨?_, ?_, ?_, ?_⟩
  · intro kind key now faults entry returned
    obtain ⟨found, live⟩ := find_of_get returned
    obtain ⟨ofKind, ofKey⟩ := consistent.keyed kind key entry found
    exact ⟨consistent.alive kind key entry found, ofKind, ofKey, live⟩
  · intro kind key entry found
    exact consistent.restart.alive kind key entry found
  · rintro entry (⟨kind, key, found⟩ | ⟨stored, found⟩)
    · exact consistent.scheduled kind key entry found
    · obtain ⟨kind, key, rfl⟩ := consistent.prefixed stored entry found
      rw [consistent.agrees] at found
      exact consistent.scheduled kind key entry found
  · intro now faults retryAt kept entry left
    have after := consistent.perform kept
    obtain ⟨alarm, same, _⟩ := retried_cleaned retryAt kept.1 kept.2
    have found : ∃ kind key, (cleaned object now).find kind key =
        some entry := by
      rcases left with ⟨kind, key, found⟩ | ⟨stored, found⟩
      · rw [show (perform object (.alarm now faults retryAt)).1 = _
          from same] at found
        exact ⟨kind, key, found⟩
      · obtain ⟨kind, key, rfl⟩ := after.prefixed stored entry found
        rw [after.agrees] at found
        rw [show (perform object (.alarm now faults retryAt)).1 = _
          from same] at found
        exact ⟨kind, key, found⟩
    obtain ⟨kind, key, found⟩ := found
    exact (find_cleaned_some found).2

namespace OneEntry

def entry : Entry := .session ⟨['s'], ['u'], 5000, 0, none⟩

def noFaults : Faults := fun _ => false

def deleteFails : Faults := fun call => call = .delete

def created : SessionObject :=
  (perform .initial (.create entry 0 0 noFaults)).1

theorem created_alarm : created.alarm ≠ none := by
  have reached : Reached Kept created :=
    Reached.initial.action (fun _ => ⟨rfl, fun _ => ⟨rfl, rfl⟩⟩)
  exact (entries_kept reached).2.2.1 entry (.inl ⟨.session, ['s'], rfl⟩)

/-- The alarm fails once, after it has forgotten the entry. -/
theorem entry_stranded : ¬ ∀ object, Reached (fun _ _ => True) object →
    ∀ stored entry, object.storage.get? stored = some entry →
      object.alarm ≠ none := by
  intro scheduled
  have reached : Reached (fun _ _ => True) created := .action .initial trivial
  have failed : Reached (fun _ _ => True)
      (perform created (.alarm 6000 deleteFails 6001)).1 :=
    reached.action trivial
  have retried : Reached (fun _ _ => True)
      (perform (perform created (.alarm 6000 deleteFails 6001)).1
        (.alarm 6001 noFaults 6002)).1 :=
    failed.action trivial
  exact scheduled _ retried (storageKey .session ['s']) entry rfl rfl

end OneEntry

end Takos.DurableObjects
