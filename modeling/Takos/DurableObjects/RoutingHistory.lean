import Takos.DurableObjects.RoutingAlarms
import Takos.DurableObjects.TombstoneRecords

/-!
# The records of a hostname over a run

Records and index keys stay one to one, expired tombstones go with the cleanup
of their alarm, and each record of a hostname has a later version than the ones
before it: exactly if no due tombstone has an expiry with a fraction, and no
hostname is written again after its tombstone is gone.
-/

namespace Takos.DurableObjects

open Takos.Foundation

variable {Number : Type}

/-- The hostname and the version of the record in a response. -/
def RoutingResponse.recordVersion :
    RoutingResponse Number → Option (Text × Nat)
  | .record hostname stored => some (hostname, stored.version)
  | _ => none

namespace RoutingStorage

variable (toLowerCase : Text → Text)

def written (storage : RoutingStorage Number) :
    RoutingEvent Number → Option (Text × Nat)
  | .put hostname target updatedAt now scheduled =>
    (storage.handlePut toLowerCase hostname target updatedAt now
      scheduled).2.recordVersion
  | .delete hostname tombstoneTtlMs updatedAt now scheduled =>
    (storage.handleDelete toLowerCase hostname tombstoneTtlMs updatedAt now
      scheduled).2.recordVersion
  | _ => none

def historyFrom :
    RoutingStorage Number → List (RoutingEvent Number) → List (Text × Nat)
  | _, [] => []
  | storage, event :: rest =>
    (storage.written toLowerCase event).toList ++
      historyFrom (storage.step toLowerCase event) rest

/-- The versions of the records of a run, in the order in which they are
written. -/
def history (events : List (RoutingEvent Number)) : List (Text × Nat) :=
  historyFrom toLowerCase .empty events

theorem historyFrom_append (storage : RoutingStorage Number)
    (events : List (RoutingEvent Number)) (event : RoutingEvent Number) :
    historyFrom toLowerCase storage (events ++ [event]) =
      historyFrom toLowerCase storage events ++
        ((events.foldl (step toLowerCase) storage).written toLowerCase
          event).toList := by
  induction events generalizing storage with
  | nil => exact List.append_nil _
  | cons first rest induction =>
      rw [List.cons_append, historyFrom, induction, historyFrom,
        List.append_assoc]
      rfl

theorem history_append (events : List (RoutingEvent Number))
    (event : RoutingEvent Number) :
    history toLowerCase (events ++ [event]) =
      history toLowerCase events ++
        ((after toLowerCase events).written toLowerCase event).toList :=
  historyFrom_append toLowerCase .empty events event

/-- Later records of a hostname have later versions. -/
def VersionsIncrease (versions : List (Text × Nat)) : Prop :=
  versions.Pairwise fun earlier later =>
    earlier.1 = later.1 → earlier.2 < later.2

/-- The cleanup of an alarm leaves no tombstone whose expiry has passed. -/
def RemovesExpired (storage : RoutingStorage Number) :
    RoutingEvent Number → Prop
  | .alarm now cleaned scheduled =>
    storage.isDue now = true → ∀ hostname expiry,
      (storage.step toLowerCase
        (.alarm now cleaned scheduled)).tombstoneOf hostname = some expiry →
      (cleaned.ms : ℚ) < expiry
  | _ => True

/-- What has to hold at the end of a run. -/
structure RoutingKept (events : List (RoutingEvent Number)) : Prop where
  oneToOne : OneToOne (after toLowerCase events)
  armed : ∀ hostname expiry,
    (after toLowerCase events).tombstoneOf hostname = some expiry →
      ∃ alarmAt, (after toLowerCase events).alarm = some alarmAt ∧
        alarmAt ≤ max expiry (latestReading events + 1000)
  removes : ∀ before event, events = before ++ [event] →
    RemovesExpired toLowerCase (after toLowerCase before) event
  increase : VersionsIncrease (history toLowerCase events)

/-- A step that keeps the records right: a hostname without a record was never
written before, and a cleanup finds no due tombstone with a fraction. -/
def Keeps (storage : RoutingStorage Number) (versions : List (Text × Nat)) :
    RoutingEvent Number → Prop
  | .put hostname target _ _ _ => ∀ host,
    normalizeHostname toLowerCase hostname = some host →
    isRoutingTarget target = true → storage.load host = none →
    ∀ entry ∈ versions, entry.1 ≠ host
  | .delete hostname _ _ _ _ => ∀ host,
    normalizeHostname toLowerCase hostname = some host →
    storage.load host = none → ∀ entry ∈ versions, entry.1 ≠ host
  | .alarm now cleaned _ =>
    storage.isDue now = true → DueWhole cleaned storage
  | _ => True

structure Tidy (storage : RoutingStorage Number)
    (versions : List (Text × Nat)) : Prop where
  agree : Indexed storage
  increase : VersionsIncrease versions
  latest : ∀ hostname record, storage.load hostname = some record →
    ∀ version, (hostname, version) ∈ versions → version ≤ record.version
  positive : ∀ entry ∈ versions, 0 < entry.2

variable {toLowerCase}
variable {storage next : RoutingStorage Number} {versions : List (Text × Nat)}

theorem Tidy.kept (tidy : Tidy storage versions) (agree : Indexed next)
    (old : ∀ hostname record, next.load hostname = some record →
      storage.load hostname = some record) : Tidy next versions where
  agree := agree
  increase := tidy.increase
  latest hostname record found :=
    tidy.latest hostname record (old hostname record found)
  positive := tidy.positive

/-- The version of the record that follows what is loaded. -/
def nextVersion (storage : RoutingStorage Number) (hostname : Text) : Nat :=
  ((storage.load hostname).map StoredRoutingRecord.version).getD 0 + 1

theorem Tidy.wrote (tidy : Tidy storage versions) (agree : Indexed next)
    {hostname : Text} (record : StoredRoutingRecord Number)
    (loads : ∀ other, next.load other =
      if other = hostname then some record else storage.load other)
    (version : record.version = storage.nextVersion hostname)
    (fresh : storage.load hostname = none →
      ∀ entry ∈ versions, entry.1 ≠ hostname) :
    Tidy next (versions ++ [(hostname, record.version)]) := by
  have above : ∀ earlier, (hostname, earlier) ∈ versions →
      earlier < record.version := by
    intro earlier member
    rw [version, nextVersion]
    cases loaded : storage.load hostname with
    | none => exact absurd rfl (fresh loaded _ member)
    | some previous =>
        exact Nat.lt_succ_of_le
          (tidy.latest hostname previous loaded earlier member)
  constructor
  · exact agree
  · apply List.pairwise_append.mpr
    refine ⟨tidy.increase, List.pairwise_singleton _ _, ?_⟩
    intro entry member later last same
    rw [List.mem_singleton.mp last] at same ⊢
    have here : (hostname, entry.2) = entry := Prod.ext same.symm rfl
    apply above
    rw [here]
    exact member
  · intro other found loaded earlier member
    rw [loads] at loaded
    split at loaded
    · rename_i here
      cases loaded
      rcases List.mem_append.mp member with before | last
      · rw [here] at before
        exact (above earlier before).le
      · cases List.mem_singleton.mp last
        exact le_rfl
    · rename_i different
      rcases List.mem_append.mp member with before | last
      · exact tidy.latest other found loaded earlier before
      · cases List.mem_singleton.mp last
        exact absurd rfl different
  · intro entry member
    rcases List.mem_append.mp member with before | last
    · exact tidy.positive entry before
    · rw [List.mem_singleton.mp last, version, nextVersion]
      exact Nat.succ_pos _

theorem Tidy.fresh_of_increase (tidy : Tidy storage versions)
    {hostname : Text} (missing : storage.load hostname = none)
    (increase : VersionsIncrease
      (versions ++ [(hostname, storage.nextVersion hostname)])) :
    ∀ entry ∈ versions, entry.1 ≠ hostname := by
  intro entry member same
  have later := (List.pairwise_append.mp increase).2.2 entry member _
    List.mem_cons_self same
  rw [nextVersion, missing] at later
  have positive := tidy.positive entry member
  exact absurd (Nat.lt_one_iff.mp later) (ne_of_gt positive)

theorem scheduled_frame (keyed : WellKeyed storage.tombstones)
    (scheduled : ClockReading) :
    (∀ hostname, (storage.scheduleNextCleanupAlarm scheduled).load hostname =
        storage.load hostname) ∧
      (storage.scheduleNextCleanupAlarm scheduled).tombstones =
        storage.tombstones := by
  rcases scheduled_cases keyed scheduled with ⟨_, same⟩ | ⟨_, _, _, _, same⟩
  · rw [same]
    exact ⟨fun _ => rfl, rfl⟩
  · rw [same]
    exact ⟨fun _ => rfl, rfl⟩

theorem Indexed.scheduled (agree : Indexed storage)
    (scheduled : ClockReading) :
    Indexed (storage.scheduleNextCleanupAlarm scheduled) := by
  obtain ⟨loads, keys⟩ := scheduled_frame agree.wellKeyed scheduled
  refine agree.congr (fun hostname => ?_) keys
  rw [tombstoneOf, loads]
  rfl

/-- The records that a put and a deletion write. -/
def putRecord (storage : RoutingStorage Number) (hostname : Text)
    (target : Json Number) (updatedAt : Option ℚ) (now : ClockReading) :
    StoredRoutingRecord Number where
  target := some target
  version := storage.nextVersion hostname
  updatedAt := updatedAt.getD now.ms
  tombstoneUntil := none

def deletedRecord (storage : RoutingStorage Number) (hostname : Text)
    (tombstoneTtlMs updatedAt : Option ℚ) (now : ClockReading) :
    StoredRoutingRecord Number where
  target := none
  version := storage.nextVersion hostname
  updatedAt := updatedAt.getD now.ms
  tombstoneUntil := some (now.ms + tombstoneTtl tombstoneTtlMs)

variable {host : Text} {hostname : BodyField} {target : Json Number}

theorem handlePut_of
    (named : normalizeHostname toLowerCase hostname = some host)
    (valid : isRoutingTarget target = true) (updatedAt : Option ℚ)
    (now scheduled : ClockReading) :
    storage.handlePut toLowerCase hostname target updatedAt now scheduled =
      (((storage.deleteTombstoneIndex host (storage.load host)).save host
        (storage.putRecord host target updatedAt now)).scheduleNextCleanupAlarm
          scheduled,
        .record host (storage.putRecord host target updatedAt now)) := by
  rw [handlePut, named]
  simp only [valid, Bool.not_true, Bool.false_eq_true, if_false]
  rfl

theorem handleDelete_of
    (named : normalizeHostname toLowerCase hostname = some host)
    (tombstoneTtlMs updatedAt : Option ℚ) (now scheduled : ClockReading) :
    storage.handleDelete toLowerCase hostname tombstoneTtlMs updatedAt now
        scheduled =
      ((((storage.deleteTombstoneIndex host (storage.load host)).save host
        (storage.deletedRecord host tombstoneTtlMs updatedAt
          now)).putTombstoneKey (tombstoneKey
            (now.ms + tombstoneTtl tombstoneTtlMs)
              host)).scheduleNextCleanupAlarm scheduled,
        .record host (storage.deletedRecord host tombstoneTtlMs updatedAt
          now)) := by
  rw [handleDelete, named]
  rfl

theorem handlePut_rejected
    (rejected : ∀ host, normalizeHostname toLowerCase hostname = some host →
      isRoutingTarget target = false) (updatedAt : Option ℚ)
    (now scheduled : ClockReading) :
    ∃ message, storage.handlePut toLowerCase hostname target updatedAt now
      scheduled = (storage, .error message) := by
  rw [handlePut]
  cases named : normalizeHostname toLowerCase hostname with
  | none => exact ⟨_, rfl⟩
  | some host =>
      simp only [rejected host named, Bool.not_false, if_true]
      exact ⟨_, rfl⟩

theorem tidy_put (tidy : Tidy storage versions)
    (named : normalizeHostname toLowerCase hostname = some host)
    (valid : isRoutingTarget target = true) (updatedAt : Option ℚ)
    (now scheduled : ClockReading)
    (fresh : storage.load host = none → ∀ entry ∈ versions, entry.1 ≠ host) :
    Tidy (storage.handlePut toLowerCase hostname target updatedAt now
        scheduled).1
      (versions ++ [(host, storage.nextVersion host)]) := by
  rw [handlePut_of named valid]
  have agree : Indexed ((storage.deleteTombstoneIndex host
      (storage.load host)).save host
        (storage.putRecord host target updatedAt now)) :=
    tidy.agree.put host rfl
  obtain ⟨loads, _⟩ := scheduled_frame agree.wellKeyed scheduled
  refine tidy.wrote (agree.scheduled scheduled)
    (storage.putRecord host target updatedAt now) ?_ rfl fresh
  intro other
  rw [loads, load, save, OrderedMap.get?_set]
  split
  · rfl
  · exact load_deleteTombstoneIndex storage host _ other

theorem tidy_delete (tidy : Tidy storage versions)
    (named : normalizeHostname toLowerCase hostname = some host)
    (tombstoneTtlMs updatedAt : Option ℚ) (now scheduled : ClockReading)
    (fresh : storage.load host = none → ∀ entry ∈ versions, entry.1 ≠ host) :
    Tidy (storage.handleDelete toLowerCase hostname tombstoneTtlMs updatedAt
        now scheduled).1
      (versions ++ [(host, storage.nextVersion host)]) := by
  rw [handleDelete_of named]
  have agree : Indexed (((storage.deleteTombstoneIndex host
      (storage.load host)).save host (storage.deletedRecord host
        tombstoneTtlMs updatedAt now)).putTombstoneKey (tombstoneKey
          (now.ms + tombstoneTtl tombstoneTtlMs) host)) := by
    refine tidy.agree.delete ⟨?_, ?_⟩ rfl
    · exact properExpiry_tombstone now tombstoneTtlMs
    · exact normalizeHostname_ne_nil toLowerCase named
  obtain ⟨loads, _⟩ := scheduled_frame agree.wellKeyed scheduled
  refine tidy.wrote (agree.scheduled scheduled)
    (storage.deletedRecord host tombstoneTtlMs updatedAt now) ?_ rfl fresh
  intro other
  rw [loads]
  refine (OrderedMap.get?_set _ _ _ _).trans ?_
  split
  · rfl
  · exact load_deleteTombstoneIndex storage host _ other

theorem tidy_get (tidy : Tidy storage versions) (hostname : BodyField)
    (now scheduled : ClockReading) :
    Tidy (storage.handleGet toLowerCase hostname now scheduled).1 versions := by
  rw [handleGet]
  cases normalizeHostname toLowerCase hostname with
  | none => exact tidy
  | some host =>
      simp only
      cases loaded : storage.load host with
      | none => exact tidy
      | some record =>
          simp only
          cases expiry : record.tombstoneUntil with
          | none => exact tidy
          | some tombstoneUntil =>
              simp only
              split
              · have recorded : storage.tombstoneOf host =
                    some tombstoneUntil := by
                  rw [tombstoneOf, loaded]
                  exact expiry
                have agree := tidy.agree.evict recorded
                obtain ⟨loads, _⟩ := scheduled_frame agree.wellKeyed scheduled
                refine tidy.kept (agree.scheduled scheduled) ?_
                intro other later found
                rw [loads] at found
                have before := (OrderedMap.get?_delete storage.routes host
                  other).symm.trans found
                split at before
                · cases before
                · exact before
              · exact tidy

def advanced (storage : RoutingStorage Number) (now : ClockReading) :
    RoutingStorage Number :=
  advanceRollout { storage with alarm := none } now

theorem load_advanced (storage : RoutingStorage Number) (now : ClockReading)
    (hostname : Text) :
    (storage.advanced now).load hostname = storage.load hostname := by
  unfold advanced advanceRollout
  split
  · split <;> rfl
  · rfl

theorem tombstones_advanced (storage : RoutingStorage Number)
    (now : ClockReading) :
    (storage.advanced now).tombstones = storage.tombstones :=
  tombstones_advanceRollout _ now

theorem tombstoneOf_advanced (storage : RoutingStorage Number)
    (now : ClockReading) (hostname : Text) :
    (storage.advanced now).tombstoneOf hostname =
      storage.tombstoneOf hostname := by
  rw [tombstoneOf, load_advanced]
  rfl

theorem Indexed.advanced (agree : Indexed storage) (now : ClockReading) :
    Indexed (storage.advanced now) :=
  agree.congr (tombstoneOf_advanced storage now)
    (tombstones_advanced storage now)

theorem tidy_alarm (tidy : Tidy storage versions)
    (now cleaned scheduled : ClockReading)
    (whole : DueWhole cleaned storage) :
    Tidy (storage.handleAlarm now cleaned scheduled) versions := by
  have before : DueWhole cleaned (storage.advanced now) := by
    intro hostname expiry recorded
    rw [tombstoneOf_advanced] at recorded
    exact whole hostname expiry recorded
  have agree := cleanup_indexed (tidy.agree.advanced now) before
  obtain ⟨loads, _⟩ := scheduled_frame agree.wellKeyed scheduled
  refine tidy.kept (agree.scheduled scheduled) ?_
  intro hostname record found
  rw [← load_advanced storage now]
  exact (cleanup_dropped cleaned (storage.advanced now)).old hostname record
    ((loads hostname).symm.trans found)

theorem future_of_alarm (agree : Indexed storage)
    (now cleaned scheduled : ClockReading) {key : Text}
    (member : key ∈ (storage.handleAlarm now cleaned scheduled).tombstones) :
    isFuture cleaned key = true := by
  have keyed : WellKeyed (storage.advanced now).tombstones :=
    (agree.advanced now).wellKeyed
  obtain ⟨_, kept⟩ := cleanup_spec cleaned (storage.advanced now) keyed
  have left : WellKeyed (cleanupExpiredTombstones cleaned
      (storage.advanced now)).tombstones :=
    keyed.sublist fun other inside => ((kept other).mp inside).1
  obtain ⟨_, keys⟩ := scheduled_frame left scheduled
  have cleanedKey : key ∈ (cleanupExpiredTombstones cleaned
      (storage.advanced now)).tombstones := by
    rw [← keys]
    exact member
  exact ((kept key).mp cleanedKey).2

theorem floor_of_future {cleaned : ClockReading} {hostname : Text} {expiry : ℚ}
    (proper : ProperExpiry ⌊expiry⌋₊ ∧ hostname ≠ [])
    (future : isFuture cleaned (tombstoneKey expiry hostname) = true) :
    cleaned.ms < ⌊expiry⌋₊ := by
  rw [tombstoneKey_eq, isFuture, parse_expiryKey proper.1 proper.2] at future
  exact of_decide_eq_true future

theorem alarm_removes (agree : Indexed storage)
    (now cleaned scheduled : ClockReading)
    (next : Indexed (storage.handleAlarm now cleaned scheduled))
    {hostname : Text} {expiry : ℚ}
    (recorded : (storage.handleAlarm now cleaned scheduled).tombstoneOf
      hostname = some expiry) : (cleaned.ms : ℚ) < expiry := by
  have future := future_of_alarm agree now cleaned scheduled
    (next.indexed hostname expiry recorded)
  have above := floor_of_future (next.proper hostname expiry recorded) future
  have floored : (⌊expiry⌋₊ : ℚ) ≤ expiry :=
    Nat.floor_le (next.positive recorded).le
  exact lt_of_lt_of_le (Nat.cast_lt.mpr above) floored

/-- A cleanup that finds a due tombstone with a fraction leaves a record without
its key. -/
theorem dueWhole_of_oneToOne (agree : Indexed storage)
    (now cleaned scheduled : ClockReading)
    (next : OneToOne (storage.handleAlarm now cleaned scheduled)) :
    DueWhole cleaned storage := by
  intro hostname expiry recorded
  by_cases whole : ∃ count : Nat, expiry = count
  · exact .inl whole
  right
  cases loaded : storage.load hostname with
  | none =>
      rw [tombstoneOf, loaded] at recorded
      cases recorded
  | some record =>
      have held : record.tombstoneUntil = some expiry := by
        rw [tombstoneOf, loaded] at recorded
        exact recorded
      have kept : (cleanupExpiredTombstones cleaned
          (storage.advanced now)).load hostname = some record := by
        apply (cleanup_dropped cleaned (storage.advanced now)).kept
        · rw [load_advanced]
          exact loaded
        · intro count same
          rw [held] at same
          exact whole ⟨count, Option.some.inj same⟩
      have keyed : WellKeyed (cleanupExpiredTombstones cleaned
          (storage.advanced now)).tombstones := by
        obtain ⟨_, left⟩ := cleanup_spec cleaned (storage.advanced now)
          (agree.advanced now).wellKeyed
        exact (agree.advanced now).wellKeyed.sublist
          fun other inside => ((left other).mp inside).1
      obtain ⟨loads, _⟩ := scheduled_frame keyed scheduled
      have after : (storage.handleAlarm now cleaned scheduled).tombstoneOf
          hostname = some expiry := by
        rw [tombstoneOf]
        refine (congrArg (Option.bind · _) ((loads hostname).trans kept)).trans
          held
      exact floor_of_future (agree.proper hostname expiry recorded)
        (future_of_alarm agree now cleaned scheduled
          (next.indexed hostname expiry after))

theorem schedule_load (storage : RoutingStorage Number) (hostname : Text) (delayMs : ℚ)
    (now : ClockReading) (other : Text) :
    (storage.handleRolloutSchedule hostname delayMs now).1.load other =
      storage.load other := by
  unfold handleRolloutSchedule
  dsimp only
  split
  · split <;> rfl
  · rfl

theorem tidy_schedule (tidy : Tidy storage versions) (hostname : Text)
    (delayMs : ℚ) (now : ClockReading) :
    Tidy (storage.handleRolloutSchedule hostname delayMs now).1 versions := by
  have loads := schedule_load storage hostname delayMs now
  refine tidy.kept ?_ fun other record found => (loads other).symm.trans found
  refine tidy.agree.congr (fun other => ?_)
    (storage.schedule_frame hostname delayMs now).1
  rw [tombstoneOf, loads]
  rfl

theorem step_tidy (tidy : Tidy storage versions) (event : RoutingEvent Number)
    (keeps : Keeps toLowerCase storage versions event) :
    Tidy (storage.step toLowerCase event)
      (versions ++ (storage.written toLowerCase event).toList) := by
  cases event with
  | get hostname now scheduled =>
      change Tidy _ (versions ++ [])
      rw [List.append_nil]
      exact tidy_get tidy hostname now scheduled
  | put hostname target updatedAt now scheduled =>
      by_cases accepted : ∃ host, normalizeHostname toLowerCase hostname =
          some host ∧ isRoutingTarget target = true
      · obtain ⟨host, named, valid⟩ := accepted
        rw [written, handlePut_of named valid]
        exact tidy_put tidy named valid updatedAt now scheduled
          (keeps host named valid)
      · obtain ⟨message, same⟩ := handlePut_rejected
          (fun host named => Bool.eq_false_iff.mpr fun valid =>
            accepted ⟨host, named, valid⟩) updatedAt now scheduled
        rw [written, step, same]
        exact (List.append_nil versions).symm ▸ tidy
  | delete hostname tombstoneTtlMs updatedAt now scheduled =>
      cases named : normalizeHostname toLowerCase hostname with
      | some host =>
          rw [written, handleDelete_of named]
          exact tidy_delete tidy named tombstoneTtlMs updatedAt now scheduled
            (keeps host named)
      | none =>
          rw [written, step, handleDelete, named]
          exact (List.append_nil versions).symm ▸ tidy
  | schedule hostname delayMs now =>
      change Tidy _ (versions ++ [])
      rw [List.append_nil]
      exact tidy_schedule tidy hostname delayMs now
  | cancel =>
      change Tidy _ (versions ++ [])
      rw [List.append_nil]
      exact tidy.kept (tidy.agree.congr (fun _ => rfl) rfl) fun _ _ found => found
  | pending =>
      change Tidy _ (versions ++ [])
      rw [List.append_nil]
      exact tidy.kept (tidy.agree.congr (fun _ => rfl) rfl) fun _ _ found => found
  | alarm now cleaned scheduled =>
      change Tidy _ (versions ++ [])
      rw [List.append_nil, step]
      cases due : storage.isDue now with
      | false => exact tidy
      | true => exact tidy_alarm tidy now cleaned scheduled (keeps due)

theorem step_removes (tidy : Tidy storage versions)
    (event : RoutingEvent Number)
    (keeps : Keeps toLowerCase storage versions event) :
    RemovesExpired toLowerCase storage event := by
  cases event with
  | alarm now cleaned scheduled =>
      intro due hostname expiry recorded
      rw [step, due] at recorded
      exact alarm_removes tidy.agree now cleaned scheduled
        (tidy_alarm tidy now cleaned scheduled (keeps due)).agree recorded
  | get | put | delete | schedule | cancel | pending => trivial

theorem keeps_of_kept (tidy : Tidy storage versions)
    (event : RoutingEvent Number)
    (oneToOne : OneToOne (storage.step toLowerCase event))
    (increase : VersionsIncrease
      (versions ++ (storage.written toLowerCase event).toList)) :
    Keeps toLowerCase storage versions event := by
  cases event with
  | put hostname target updatedAt now scheduled =>
      intro host named valid missing
      rw [written, handlePut_of named valid] at increase
      exact tidy.fresh_of_increase missing increase
  | delete hostname tombstoneTtlMs updatedAt now scheduled =>
      intro host named missing
      rw [written, handleDelete_of named] at increase
      exact tidy.fresh_of_increase missing increase
  | alarm now cleaned scheduled =>
      intro due
      rw [step, due] at oneToOne
      exact dueWhole_of_oneToOne tidy.agree now cleaned scheduled oneToOne
  | get | schedule | cancel | pending => trivial

theorem tidy_empty : Tidy (empty : RoutingStorage Number) [] where
  agree := .empty
  increase := List.Pairwise.nil
  latest _ _ found := by cases found
  positive _ member := by cases member

variable (toLowerCase)

theorem after_tidy {events : List (RoutingEvent Number)}
    (keeps : ∀ before event, before ++ [event] <+: events →
      Keeps toLowerCase (after toLowerCase before) (history toLowerCase before)
        event) :
    Tidy (after toLowerCase events) (history toLowerCase events) := by
  induction events using List.reverseRecOn with
  | nil => exact tidy_empty
  | append_singleton events event induction =>
      have before := induction fun earlier other inside =>
        keeps earlier other (inside.trans (List.prefix_append _ _))
      rw [after_append, history_append]
      exact step_tidy before event (keeps events event (List.prefix_refl _))

theorem armed_of_tidy {events : List (RoutingEvent Number)}
    (tidy : Tidy (after toLowerCase events) (history toLowerCase events))
    {hostname : Text} {expiry : ℚ}
    (recorded : (after toLowerCase events).tombstoneOf hostname = some expiry) :
    ∃ alarmAt, (after toLowerCase events).alarm = some alarmAt ∧
      alarmAt ≤ max expiry (latestReading events + 1000) := by
  obtain ⟨proper, named⟩ := tidy.agree.proper hostname expiry recorded
  obtain ⟨alarmAt, set, soon⟩ := (after_tombstones toLowerCase events).armed _
    (tidy.agree.indexed hostname expiry recorded) ⌊expiry⌋₊ hostname
    (parse_expiryKey proper named)
  refine ⟨alarmAt, set, soon.trans (max_le_max ?_ le_rfl)⟩
  exact Nat.floor_le (tidy.agree.positive recorded).le

end RoutingStorage

/-- At the end of every part of a run the records are right exactly if every
step keeps them so. -/
theorem routing_kept_iff (toLowerCase : Text → Text)
    (events : List (RoutingEvent Number)) :
    (∀ reached, reached <+: events →
        RoutingStorage.RoutingKept toLowerCase reached) ↔
      ∀ before event, before ++ [event] <+: events →
        RoutingStorage.Keeps toLowerCase
          (RoutingStorage.after toLowerCase before)
          (RoutingStorage.history toLowerCase before) event := by
  constructor
  · intro kept
    induction events using List.reverseRecOn with
    | nil =>
        intro before event inside
        exact absurd (List.prefix_nil.mp inside) (List.concat_ne_nil _ _)
    | append_singleton events last induction =>
        have earlier := induction fun reached inside =>
          kept reached (inside.trans (List.prefix_append _ _))
        have tidy := RoutingStorage.after_tidy toLowerCase earlier
        intro before event inside
        rcases List.prefix_concat_iff.mp inside with whole | shorter
        · obtain ⟨same, equal⟩ := List.append_inj' whole rfl
          cases same
          cases equal
          have right := kept _ (List.prefix_refl _)
          have oneToOne := right.oneToOne
          have increase := right.increase
          rw [RoutingStorage.after_append] at oneToOne
          rw [RoutingStorage.history_append] at increase
          exact RoutingStorage.keeps_of_kept tidy last oneToOne increase
        · exact earlier before event shorter
  · intro keeps reached inside
    have steps := fun before event (shorter : before ++ [event] <+: reached) =>
      keeps before event (shorter.trans inside)
    have tidy := RoutingStorage.after_tidy toLowerCase steps
    constructor
    · exact tidy.agree.oneToOne
    · intro hostname expiry recorded
      exact RoutingStorage.armed_of_tidy toLowerCase tidy recorded
    · intro before last same
      have whole : before ++ [last] <+: reached := by
        rw [same]
      have earlier := RoutingStorage.after_tidy toLowerCase
        fun first other shorter => steps first other
          (shorter.trans ((List.prefix_append _ _).trans whole))
      exact RoutingStorage.step_removes earlier last (steps before last whole)
    · exact tidy.increase

namespace FractionalLifetime

open LostRollout (early late)

def app : BodyField := .text "app.example".toList

/-- A route is deleted for a second and a half millisecond, and the alarm fires
when it has expired. -/
def events : List (RoutingEvent Nat) :=
  [.delete app (some (2001 / 2)) none early early, .alarm late late late]

/-- The key is taken and the expired record stays. -/
theorem expired_record_stays :
    ¬∀ (toLowerCase : Text → Text) (events : List (RoutingEvent Nat)),
      RoutingStorage.RoutingKept toLowerCase events := by
  intro kept
  have recorded : (RoutingStorage.after id events).tombstoneOf
      "app.example".toList = some (4001 / 2) := by
    decide +kernel
  have none : (RoutingStorage.after id events).tombstones = [] := by
    decide +kernel
  have indexed := (kept id events).oneToOne.indexed _ _ recorded
  rw [none] at indexed
  cases indexed

end FractionalLifetime

end Takos.DurableObjects
