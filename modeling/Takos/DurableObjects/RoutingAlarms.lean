import Takos.DurableObjects.TombstoneIndex
import Mathlib.Algebra.Order.Ring.Rat
import Mathlib.Data.Nat.Cast.Order.Ring
import Mathlib.Tactic.Linarith

/-!
# The alarm slot of the routing object

Tombstone keys and the rollout entry share one slot.  The slot is always early
enough for the keys.  A step that computes it anew looks at the keys alone, and
a rollout entry keeps its deadline exactly where some key left is due by then.
-/

namespace Takos.DurableObjects

open Takos.Foundation

variable {Number : Type}

inductive RoutingEvent (Number : Type) where
  | get (hostname : BodyField) (now scheduled : ClockReading)
  | put (hostname : BodyField) (target : Json Number) (updatedAt : Option ℚ)
      (now scheduled : ClockReading)
  | delete (hostname : BodyField) (tombstoneTtlMs updatedAt : Option ℚ)
      (now scheduled : ClockReading)
  | schedule (hostname : Text) (delayMs : ℚ) (now : ClockReading)
  | cancel
  | pending
  | alarm (now cleaned scheduled : ClockReading)

namespace RoutingEvent

/-- The latest clock reading of an event. -/
def reading : RoutingEvent Number → Nat
  | get _ now scheduled => max now.ms scheduled.ms
  | put _ _ _ now scheduled => max now.ms scheduled.ms
  | delete _ _ _ now scheduled => max now.ms scheduled.ms
  | schedule _ _ now => now.ms
  | cancel => 0
  | pending => 0
  | alarm now cleaned scheduled => max now.ms (max cleaned.ms scheduled.ms)

end RoutingEvent

def latestReading (events : List (RoutingEvent Number)) : Nat :=
  events.foldl (fun latest event => max latest event.reading) 0

namespace RoutingStorage

variable (toLowerCase : Text → Text)

def isDue (storage : RoutingStorage Number) (now : ClockReading) : Bool :=
  storage.alarm.any fun alarmAt => alarmAt ≤ (now.ms : ℚ)

/-- An alarm that is not due does not happen. -/
def step (storage : RoutingStorage Number) :
    RoutingEvent Number → RoutingStorage Number
  | .get hostname now scheduled =>
    (storage.handleGet toLowerCase hostname now scheduled).1
  | .put hostname target updatedAt now scheduled =>
    (storage.handlePut toLowerCase hostname target updatedAt now scheduled).1
  | .delete hostname tombstoneTtlMs updatedAt now scheduled =>
    (storage.handleDelete toLowerCase hostname tombstoneTtlMs updatedAt now
      scheduled).1
  | .schedule hostname delayMs now =>
    (storage.handleRolloutSchedule hostname delayMs now).1
  | .cancel => storage.handleRolloutCancel.1
  | .pending => storage.takePendingAdvance.1
  | .alarm now cleaned scheduled =>
    if storage.isDue now then storage.handleAlarm now cleaned scheduled
    else storage

def after (events : List (RoutingEvent Number)) : RoutingStorage Number :=
  events.foldl (step toLowerCase) .empty

def ArmedBy (storage : RoutingStorage Number) (due : ℚ) : Prop :=
  ∃ alarmAt, storage.alarm = some alarmAt ∧ alarmAt ≤ due

def RolloutArmed (storage : RoutingStorage Number) : Prop :=
  ∀ rollout, storage.rolloutAlarm = some rollout →
    storage.ArmedBy rollout.alarmAt

/-- The slot serves every tombstone key. -/
structure TombstonesArmed (latest : Nat) (storage : RoutingStorage Number) :
    Prop where
  keyed : WellKeyed storage.tombstones
  positive : ∀ alarmAt, storage.alarm = some alarmAt → 0 < alarmAt
  armed : ∀ key ∈ storage.tombstones, ∀ expiry hostname,
    parseTombstoneKey key = some (expiry, hostname) →
      storage.ArmedBy (max (expiry : ℚ) (latest + 1000))

variable {storage : RoutingStorage Number}

theorem TombstonesArmed.later {latest later : Nat}
    (armed : TombstonesArmed latest storage) (order : latest ≤ later) :
    TombstonesArmed later storage := by
  refine ⟨armed.keyed, armed.positive, ?_⟩
  intro key member expiry hostname read
  obtain ⟨alarmAt, slot, soon⟩ := armed.armed key member expiry hostname read
  refine ⟨alarmAt, slot, soon.trans ?_⟩
  have cast : (latest : ℚ) ≤ later := Nat.cast_le.mpr order
  exact max_le_max le_rfl (add_le_add_left cast _)

theorem scheduled_tombstones (keyed : WellKeyed storage.tombstones)
    {scheduled : ClockReading} {latest : Nat} (order : scheduled.ms ≤ latest) :
    TombstonesArmed latest (storage.scheduleNextCleanupAlarm scheduled) := by
  have cast : (scheduled.ms : ℚ) ≤ latest := Nat.cast_le.mpr order
  rcases scheduled_cases keyed scheduled with ⟨none, same⟩ |
      ⟨expiry, hostname, _, earliest, same⟩
  · rw [same]
    refine ⟨keyed, ?_, ?_⟩
    · intro alarmAt slot
      cases slot
    · intro key member
      rw [none] at member
      cases member
  · rw [same]
    refine ⟨keyed, ?_, ?_⟩
    · intro alarmAt slot
      cases slot
      have clock : (0 : ℚ) < scheduled.ms := Nat.cast_pos.mpr scheduled.positive
      apply lt_max_of_lt_left
      exact add_pos clock (by norm_num)
    · intro key member later host read
      refine ⟨_, rfl, ?_⟩
      have first : (expiry : ℚ) ≤ later :=
        Nat.cast_le.mpr (earliest key member later host read)
      apply max_le
      · exact le_max_of_le_right (add_le_add_left cast _)
      · exact le_max_of_le_left first

/-- The keys left and the clock of a rescheduling put the slot by the due
time. -/
def SlotServes (keys : List Text) (scheduled : ClockReading) (due : ℚ) : Prop :=
  (scheduled.ms : ℚ) + 1000 ≤ due ∧
    ∃ key ∈ keys, ∃ expiry hostname,
      parseTombstoneKey key = some (expiry, hostname) ∧ (expiry : ℚ) ≤ due

theorem scheduled_armedBy_iff (keyed : WellKeyed storage.tombstones)
    (scheduled : ClockReading) (due : ℚ) :
    (storage.scheduleNextCleanupAlarm scheduled).ArmedBy due ↔
      SlotServes storage.tombstones scheduled due := by
  rcases scheduled_cases keyed scheduled with ⟨none, same⟩ |
      ⟨expiry, hostname, ⟨first, firstMember, firstRead⟩, earliest, same⟩
  · rw [same]
    constructor
    · intro armed
      obtain ⟨alarmAt, slot, _⟩ := armed
      cases slot
    · intro serves
      obtain ⟨_, key, member, _⟩ := serves
      rw [none] at member
      cases member
  · rw [same]
    constructor
    · intro armed
      obtain ⟨alarmAt, slot, soon⟩ := armed
      cases slot
      obtain ⟨clock, reached⟩ := max_le_iff.mp soon
      exact ⟨clock, first, firstMember, expiry, hostname, firstRead, reached⟩
    · intro serves
      obtain ⟨clock, key, member, later, host, read, reached⟩ := serves
      have order : (expiry : ℚ) ≤ later :=
        Nat.cast_le.mpr (earliest key member later host read)
      exact ⟨_, rfl, max_le clock (order.trans reached)⟩

theorem scheduled_rolloutArmed_iff (keyed : WellKeyed storage.tombstones)
    (scheduled : ClockReading) :
    (storage.scheduleNextCleanupAlarm scheduled).RolloutArmed ↔
      ∀ rollout, storage.rolloutAlarm = some rollout →
        SlotServes storage.tombstones scheduled rollout.alarmAt := by
  have kept : (storage.scheduleNextCleanupAlarm scheduled).rolloutAlarm =
      storage.rolloutAlarm := by
    rcases scheduled_cases keyed scheduled with ⟨_, same⟩ | ⟨_, _, _, _, same⟩
    · rw [same]
    · rw [same]
  unfold RolloutArmed
  rw [kept]
  exact forall₂_congr fun rollout _ =>
    scheduled_armedBy_iff keyed scheduled rollout.alarmAt

/-- A step that computes the slot anew leaves a key that serves the rollout
entry it leaves. -/
def Rearms (storage : RoutingStorage Number) : RoutingEvent Number → Prop
  | .get hostname now scheduled =>
    ∀ host record tombstoneUntil rollout,
      normalizeHostname toLowerCase hostname = some host →
      storage.load host = some record →
      record.tombstoneUntil = some tombstoneUntil →
      0 < tombstoneUntil ∧ tombstoneUntil ≤ now.ms →
      storage.rolloutAlarm = some rollout →
      SlotServes (storage.deleteTombstoneKey
        (tombstoneKey tombstoneUntil host)).tombstones scheduled
          rollout.alarmAt
  | .put hostname target _ _ scheduled =>
    ∀ host rollout, normalizeHostname toLowerCase hostname = some host →
      isRoutingTarget target = true → storage.rolloutAlarm = some rollout →
      SlotServes (storage.deleteTombstoneIndex host
        (storage.load host)).tombstones scheduled rollout.alarmAt
  | .delete hostname tombstoneTtlMs _ now scheduled =>
    ∀ host rollout, normalizeHostname toLowerCase hostname = some host →
      storage.rolloutAlarm = some rollout →
      SlotServes ((storage.deleteTombstoneIndex host
        (storage.load host)).putTombstoneKey (tombstoneKey
          (now.ms + tombstoneTtl tombstoneTtlMs) host)).tombstones scheduled
            rollout.alarmAt
  | .alarm now cleaned scheduled =>
    storage.isDue now = true → ∀ rollout,
      storage.rolloutAlarm = some rollout → (now.ms : ℚ) < rollout.alarmAt →
      SlotServes (storage.tombstones.filter (isFuture cleaned)) scheduled
        rollout.alarmAt
  | .schedule _ _ _ => True
  | .cancel => True
  | .pending => True

theorem deleteTombstoneIndex_frame (storage : RoutingStorage Number)
    (hostname : Text) (prev : Option (StoredRoutingRecord Number)) :
    (storage.deleteTombstoneIndex hostname prev).rolloutAlarm =
        storage.rolloutAlarm ∧
      (storage.deleteTombstoneIndex hostname prev).tombstones ⊆
        storage.tombstones := by
  unfold deleteTombstoneIndex
  split
  · split
    · exact ⟨rfl, List.Subset.refl _⟩
    · exact ⟨rfl, List.filter_sublist.subset⟩
  · exact ⟨rfl, List.Subset.refl _⟩

theorem normalizeHostname_ne_nil {field : BodyField} {host : Text}
    (normalized : normalizeHostname toLowerCase field = some host) :
    host ≠ [] := by
  unfold normalizeHostname at normalized
  split at normalized
  · simp only at normalized
    split at normalized
    · cases normalized
    · rename_i named
      split at normalized
      · cases normalized
        exact fun empty => named (.inl empty)
      · cases normalized
  · cases normalized

theorem properExpiry_tombstone (now : ClockReading)
    (tombstoneTtlMs : Option ℚ) :
    ProperExpiry ⌊(now.ms : ℚ) + tombstoneTtl tombstoneTtlMs⌋₊ := by
  have lower : (1000 : ℚ) ≤ tombstoneTtl tombstoneTtlMs := by
    unfold tombstoneTtl
    split
    · exact le_max_left _ _
    · norm_num
  have upper : tombstoneTtl tombstoneTtlMs ≤ 1800000 := by
    unfold tombstoneTtl
    split
    · apply max_le
      · norm_num
      · exact (min_le_right _ _).trans (by norm_num)
    · norm_num
  have clockLower : (1 : ℚ) ≤ now.ms := Nat.one_le_cast.mpr now.positive
  have clockUpper : (now.ms : ℚ) ≤ 8640000000000000 := by
    exact_mod_cast now.bounded
  constructor
  · apply Nat.floor_pos.mpr
    linarith
  · apply (Nat.floor_lt (by linarith)).mpr
    push_cast
    linarith

inductive SlotStep (storage : RoutingStorage Number)
    (event : RoutingEvent Number) (next : RoutingStorage Number) : Prop where
  | rescheduled (left : RoutingStorage Number) (scheduled : ClockReading)
      (same : next = left.scheduleNextCleanupAlarm scheduled)
      (clock : scheduled.ms ≤ event.reading)
      (keyed : WellKeyed left.tombstones)
      (rearms : Rearms toLowerCase storage event ↔
        ∀ rollout, left.rolloutAlarm = some rollout →
          SlotServes left.tombstones scheduled rollout.alarmAt)
  | untouched (rearms : Rearms toLowerCase storage event)
      (slot : next.alarm = storage.alarm)
      (keys : next.tombstones = storage.tombstones)
      (rollout : next.rolloutAlarm = storage.rolloutAlarm ∨
        next.rolloutAlarm = none)
  | recorded (hostname : Text) (delayMs : ℚ) (now : ClockReading)
      (same : event = .schedule hostname delayMs now)

theorem SlotStep.idle {event : RoutingEvent Number}
    (rearms : Rearms toLowerCase storage event) :
    SlotStep toLowerCase storage event storage :=
  .untouched rearms rfl rfl (.inl rfl)

theorem step_get (keyed : WellKeyed storage.tombstones) (hostname : BodyField)
    (now scheduled : ClockReading) :
    SlotStep toLowerCase storage (.get hostname now scheduled)
      (storage.step toLowerCase (.get hostname now scheduled)) := by
  simp only [step, handleGet]
  cases normalized : normalizeHostname toLowerCase hostname with
  | none =>
      apply SlotStep.idle
      intro host record tombstoneUntil rollout named
      rw [normalized] at named
      cases named
  | some host =>
      dsimp only
      cases loaded : storage.load host with
      | none =>
          apply SlotStep.idle
          intro other record tombstoneUntil rollout named found
          rw [normalized] at named
          cases named
          rw [loaded] at found
          cases found
      | some record =>
          dsimp only
          have unique : ∀ other again, normalizeHostname toLowerCase hostname =
              some other → storage.load other = some again →
              other = host ∧ again = record := by
            intro other again named found
            rw [normalized] at named
            cases named
            rw [loaded] at found
            cases found
            exact ⟨rfl, rfl⟩
          cases bound : record.tombstoneUntil with
          | none =>
              apply SlotStep.idle
              intro other again tombstoneUntil rollout named found dated
              obtain ⟨rfl, rfl⟩ := unique other again named found
              rw [bound] at dated
              cases dated
          | some tombstoneUntil =>
              dsimp only
              by_cases due : 0 < tombstoneUntil ∧ tombstoneUntil ≤ now.ms
              · rw [if_pos due]
                apply SlotStep.rescheduled _ scheduled rfl (le_max_right _ _)
                · exact keyed.sublist List.filter_sublist.subset
                · constructor
                  · intro rearms rollout stored
                    exact rearms host record tombstoneUntil rollout normalized
                      loaded bound due stored
                  · intro serves other again until' rollout named found dated
                      _ stored
                    obtain ⟨rfl, rfl⟩ := unique other again named found
                    rw [bound] at dated
                    cases dated
                    exact serves rollout stored
              · rw [if_neg due]
                apply SlotStep.idle
                intro other again until' rollout named found dated past
                obtain ⟨rfl, rfl⟩ := unique other again named found
                rw [bound] at dated
                cases dated
                exact absurd past due

theorem step_put (keyed : WellKeyed storage.tombstones) (hostname : BodyField)
    (target : Json Number) (updatedAt : Option ℚ)
    (now scheduled : ClockReading) :
    SlotStep toLowerCase storage
      (.put hostname target updatedAt now scheduled)
      (storage.step toLowerCase
        (.put hostname target updatedAt now scheduled)) := by
  simp only [step, handlePut]
  cases normalized : normalizeHostname toLowerCase hostname with
  | none =>
      apply SlotStep.idle
      intro host rollout named
      rw [normalized] at named
      cases named
  | some host =>
      dsimp only
      cases valid : isRoutingTarget target with
      | false =>
          apply SlotStep.idle
          intro other rollout _ accepted
          rw [valid] at accepted
          cases accepted
      | true =>
          obtain ⟨rollouts, fewer⟩ :=
            storage.deleteTombstoneIndex_frame host (storage.load host)
          apply SlotStep.rescheduled _ scheduled rfl (le_max_right _ _)
          · exact keyed.sublist fewer
          · constructor
            · intro rearms rollout stored
              exact rearms host rollout normalized valid
                (rollouts.symm.trans stored)
            · intro serves other rollout named _ stored
              rw [normalized] at named
              cases named
              exact serves rollout (rollouts.trans stored)

theorem step_delete (keyed : WellKeyed storage.tombstones)
    (hostname : BodyField) (tombstoneTtlMs updatedAt : Option ℚ)
    (now scheduled : ClockReading) :
    SlotStep toLowerCase storage
      (.delete hostname tombstoneTtlMs updatedAt now scheduled)
      (storage.step toLowerCase
        (.delete hostname tombstoneTtlMs updatedAt now scheduled)) := by
  simp only [step, handleDelete]
  cases normalized : normalizeHostname toLowerCase hostname with
  | none =>
      apply SlotStep.idle
      intro host rollout named
      rw [normalized] at named
      cases named
  | some host =>
      dsimp only
      obtain ⟨rollouts, fewer⟩ :=
        storage.deleteTombstoneIndex_frame host (storage.load host)
      apply SlotStep.rescheduled _ scheduled rfl (le_max_right _ _)
      · exact (keyed.sublist fewer).insert
          (properExpiry_tombstone now tombstoneTtlMs)
          (normalizeHostname_ne_nil toLowerCase normalized)
      · constructor
        · intro rearms rollout stored
          exact rearms host rollout normalized (rollouts.symm.trans stored)
        · intro serves other rollout named stored
          rw [normalized] at named
          cases named
          exact serves rollout (rollouts.trans stored)

theorem rolloutAlarm_advanceRollout (storage : RoutingStorage Number)
    (now : ClockReading) (rollout : RolloutAlarm) :
    (storage.advanceRollout now).rolloutAlarm = some rollout ↔
      storage.rolloutAlarm = some rollout ∧
        (now.ms : ℚ) < rollout.alarmAt := by
  unfold advanceRollout
  cases stored : storage.rolloutAlarm with
  | none => simp [stored]
  | some other =>
      dsimp only
      by_cases due : other.alarmAt ≤ now.ms
      · rw [if_pos due]
        constructor
        · intro found
          cases found
        · intro found
          cases found.1
          exact absurd due (not_le.mpr found.2)
      · rw [if_neg due, stored]
        constructor
        · intro found
          cases found
          exact ⟨rfl, not_le.mp due⟩
        · exact And.left

theorem tombstones_advanceRollout (storage : RoutingStorage Number)
    (now : ClockReading) :
    (storage.advanceRollout now).tombstones = storage.tombstones := by
  unfold advanceRollout
  split
  · split <;> rfl
  · rfl

theorem slotServes_congr {left right : List Text}
    (same : ∀ key, key ∈ left ↔ key ∈ right) (scheduled : ClockReading)
    (due : ℚ) : SlotServes left scheduled due ↔ SlotServes right scheduled due :=
  and_congr_right fun _ => exists_congr fun key =>
    and_congr_left fun _ => same key

theorem step_alarm (keyed : WellKeyed storage.tombstones)
    (now cleaned scheduled : ClockReading) :
    SlotStep toLowerCase storage (.alarm now cleaned scheduled)
      (storage.step toLowerCase (.alarm now cleaned scheduled)) := by
  simp only [step]
  cases due : storage.isDue now with
  | false =>
      apply SlotStep.idle
      intro fires
      rw [due] at fires
      cases fires
  | true =>
      let advanced := advanceRollout { storage with alarm := none } now
      have keys : advanced.tombstones = storage.tombstones :=
        tombstones_advanceRollout _ now
      obtain ⟨rollouts, kept⟩ := cleanup_spec cleaned advanced
        (by rw [keys]; exact keyed)
      have members : ∀ key,
          key ∈ (cleanupExpiredTombstones cleaned advanced).tombstones ↔
            key ∈ storage.tombstones.filter (isFuture cleaned) := by
        intro key
        rw [kept, keys, List.mem_filter]
      apply SlotStep.rescheduled (cleanupExpiredTombstones cleaned advanced)
        scheduled rfl
      · exact (le_max_right _ _).trans (le_max_right _ _)
      · apply keyed.sublist
        intro key member
        exact (List.mem_filter.mp ((members key).mp member)).1
      · have entries : ∀ rollout,
            (cleanupExpiredTombstones cleaned advanced).rolloutAlarm =
                some rollout ↔
              storage.rolloutAlarm = some rollout ∧
                (now.ms : ℚ) < rollout.alarmAt := by
          intro rollout
          rw [rollouts]
          exact rolloutAlarm_advanceRollout _ now rollout
        constructor
        · intro rearms rollout stored
          obtain ⟨before, future⟩ := (entries rollout).mp stored
          exact (slotServes_congr members scheduled _).mpr
            (rearms due rollout before future)
        · intro serves _ rollout stored future
          exact (slotServes_congr members scheduled _).mp
            (serves rollout ((entries rollout).mpr ⟨stored, future⟩))

theorem slotStep (keyed : WellKeyed storage.tombstones)
    (event : RoutingEvent Number) :
    SlotStep toLowerCase storage event (storage.step toLowerCase event) := by
  cases event with
  | get hostname now scheduled =>
      exact step_get toLowerCase keyed hostname now scheduled
  | put hostname target updatedAt now scheduled =>
      exact step_put toLowerCase keyed hostname target updatedAt now scheduled
  | delete hostname tombstoneTtlMs updatedAt now scheduled =>
      exact step_delete toLowerCase keyed hostname tombstoneTtlMs updatedAt now
        scheduled
  | schedule hostname delayMs now =>
      exact .recorded hostname delayMs now rfl
  | cancel => exact .untouched trivial rfl rfl (.inr rfl)
  | pending => exact .untouched trivial rfl rfl (.inl rfl)
  | alarm now cleaned scheduled =>
      exact step_alarm toLowerCase keyed now cleaned scheduled

theorem schedule_slot
    (positive : ∀ alarmAt, storage.alarm = some alarmAt → 0 < alarmAt)
    (hostname : Text) (delayMs : ℚ) (now : ClockReading) :
    ∃ alarmAt, 0 < alarmAt ∧
      (storage.handleRolloutSchedule hostname delayMs now).1.alarm =
        some alarmAt ∧
      alarmAt ≤ now.ms + max 0 delayMs ∧
      ∀ before, storage.alarm = some before → alarmAt ≤ before := by
  have clock : (0 : ℚ) < now.ms := Nat.cast_pos.mpr now.positive
  have later : (0 : ℚ) < now.ms + max 0 delayMs :=
    add_pos_of_pos_of_nonneg clock (le_max_left _ _)
  unfold handleRolloutSchedule
  dsimp only
  cases slot : storage.alarm with
  | none =>
      refine ⟨_, later, rfl, le_rfl, ?_⟩
      intro before set
      cases set
  | some currentAlarm =>
      have set := positive currentAlarm slot
      dsimp only
      by_cases earlier : currentAlarm = 0 ∨
          (now.ms : ℚ) + max 0 delayMs < currentAlarm
      · rw [if_pos earlier]
        refine ⟨_, later, rfl, le_rfl, ?_⟩
        intro before same
        cases same
        rcases earlier with zero | sooner
        · exact absurd zero (ne_of_gt set)
        · exact le_of_lt sooner
      · rw [if_neg earlier]
        refine ⟨currentAlarm, set, rfl, ?_, ?_⟩
        · exact not_lt.mp fun sooner => earlier (.inr sooner)
        · intro before same
          cases same
          exact le_rfl

theorem schedule_frame (storage : RoutingStorage Number) (hostname : Text)
    (delayMs : ℚ) (now : ClockReading) :
    (storage.handleRolloutSchedule hostname delayMs now).1.tombstones =
        storage.tombstones ∧
      (storage.handleRolloutSchedule hostname delayMs now).1.rolloutAlarm =
        some ⟨hostname, now.ms + max 0 delayMs⟩ := by
  unfold handleRolloutSchedule
  dsimp only
  split
  · split <;> exact ⟨rfl, rfl⟩
  · exact ⟨rfl, rfl⟩

theorem step_tombstones {latest : Nat}
    (armed : TombstonesArmed latest storage) (event : RoutingEvent Number) :
    TombstonesArmed (max latest event.reading)
      (storage.step toLowerCase event) := by
  cases slotStep toLowerCase armed.keyed event with
  | rescheduled left scheduled same clock keyed rearms =>
      rw [same]
      exact scheduled_tombstones keyed (clock.trans (le_max_right _ _))
  | untouched rearms slot keys rollout =>
      have kept := armed.later (le_max_left latest event.reading)
      refine ⟨?_, ?_, ?_⟩
      · rw [keys]
        exact kept.keyed
      · rw [slot]
        exact kept.positive
      · rw [keys]
        intro key member expiry hostname read
        obtain ⟨alarmAt, set, soon⟩ :=
          kept.armed key member expiry hostname read
        exact ⟨alarmAt, slot.trans set, soon⟩
  | recorded hostname delayMs now same =>
      have kept := armed.later (le_max_left latest event.reading)
      obtain ⟨alarmAt, positive, set, _, earlier⟩ :=
        schedule_slot armed.positive hostname delayMs now
      obtain ⟨keys, _⟩ := storage.schedule_frame hostname delayMs now
      subst same
      refine ⟨?_, ?_, ?_⟩
      · rw [step, keys]
        exact kept.keyed
      · intro other slot
        rw [step, set] at slot
        cases slot
        exact positive
      · rw [step, keys]
        intro key member expiry host read
        obtain ⟨before, slot, soon⟩ := kept.armed key member expiry host read
        exact ⟨alarmAt, set, (earlier before slot).trans soon⟩

theorem step_rollout_iff {latest : Nat}
    (armed : TombstonesArmed latest storage) (rollouts : storage.RolloutArmed)
    (event : RoutingEvent Number) :
    (storage.step toLowerCase event).RolloutArmed ↔
      Rearms toLowerCase storage event := by
  cases slotStep toLowerCase armed.keyed event with
  | rescheduled left scheduled same clock keyed rearms =>
      rw [same, rearms]
      exact scheduled_rolloutArmed_iff keyed scheduled
  | untouched rearms slot keys rollout =>
      refine ⟨fun _ => rearms, ?_⟩
      intro _ entry stored
      rcases rollout with kept | gone
      · obtain ⟨alarmAt, set, soon⟩ := rollouts entry (kept.symm.trans stored)
        exact ⟨alarmAt, slot.trans set, soon⟩
      · rw [gone] at stored
        cases stored
  | recorded hostname delayMs now same =>
      subst same
      refine ⟨fun _ => trivial, ?_⟩
      intro _ entry stored
      obtain ⟨alarmAt, _, set, soon, _⟩ :=
        schedule_slot armed.positive hostname delayMs now
      obtain ⟨_, recorded⟩ := storage.schedule_frame hostname delayMs now
      rw [step, recorded] at stored
      cases stored
      exact ⟨alarmAt, set, soon⟩

theorem after_append (events : List (RoutingEvent Number))
    (event : RoutingEvent Number) :
    after toLowerCase (events ++ [event]) =
      (after toLowerCase events).step toLowerCase event :=
  List.foldl_concat _ _ _ _

theorem after_tombstones (events : List (RoutingEvent Number)) :
    TombstonesArmed (latestReading events) (after toLowerCase events) := by
  induction events using List.reverseRecOn with
  | nil =>
      refine ⟨?_, ?_, ?_⟩
      · intro key member
        cases member
      · intro alarmAt slot
        cases slot
      · intro key member
        cases member
  | append_singleton events event ih =>
      rw [after_append, latestReading, List.foldl_concat]
      exact step_tombstones toLowerCase ih event

theorem after_rollout {events : List (RoutingEvent Number)}
    (rearms : ∀ before event, before ++ [event] <+: events →
      Rearms toLowerCase (after toLowerCase before) event) :
    (after toLowerCase events).RolloutArmed := by
  induction events using List.reverseRecOn with
  | nil =>
      intro rollout stored
      cases stored
  | append_singleton events event ih =>
      have before := ih fun earlier other inside =>
        rearms earlier other (inside.trans (List.prefix_append _ _))
      rw [after_append]
      apply (step_rollout_iff toLowerCase (after_tombstones toLowerCase events)
        before event).mpr
      exact rearms events event (List.prefix_refl _)

end RoutingStorage

/-- Both kinds of deadlines are served by the slot. -/
def DeadlinesArmed (latest : Nat) (storage : RoutingStorage Number) : Prop :=
  (∀ rollout, storage.rolloutAlarm = some rollout →
    ∃ alarmAt, storage.alarm = some alarmAt ∧ alarmAt ≤ rollout.alarmAt) ∧
  ∀ key ∈ storage.tombstones, ∃ expiry hostname alarmAt,
    parseTombstoneKey key = some (expiry, hostname) ∧
      storage.alarm = some alarmAt ∧
        alarmAt ≤ max (expiry : ℚ) (latest + 1000)

/-- In every state of a run both kinds of deadlines are served, exactly when
every step of the run rearms. -/
theorem deadlines_armed_iff (toLowerCase : Text → Text)
    (events : List (RoutingEvent Number)) :
    (∀ reached, reached <+: events →
        DeadlinesArmed (latestReading reached)
          (RoutingStorage.after toLowerCase reached)) ↔
      ∀ before event, before ++ [event] <+: events →
        RoutingStorage.Rearms toLowerCase
          (RoutingStorage.after toLowerCase before) event := by
  constructor
  · intro served before event inside
    have earlier := (served before
      ((List.prefix_append _ _).trans inside)).1
    have later := (served (before ++ [event]) inside).1
    rw [RoutingStorage.after_append] at later
    exact (RoutingStorage.step_rollout_iff toLowerCase
      (RoutingStorage.after_tombstones toLowerCase before) earlier event).mp
        later
  · intro rearms reached inside
    have armed := RoutingStorage.after_tombstones toLowerCase reached
    refine ⟨?_, ?_⟩
    · exact RoutingStorage.after_rollout toLowerCase
        fun before event shorter =>
          rearms before event (shorter.trans inside)
    · intro key member
      obtain ⟨expiry, hostname, _, read, _⟩ := armed.keyed.parse member
      obtain ⟨alarmAt, set, soon⟩ :=
        armed.armed key member expiry hostname read
      exact ⟨expiry, hostname, alarmAt, read, set, soon⟩

namespace LostRollout

def early : ClockReading := ⟨1000, by decide, by decide⟩

def late : ClockReading := ⟨2001, by decide, by decide⟩

/-- A rollout is scheduled, and then a route is put where no tombstone is. -/
def events : List (RoutingEvent Nat) :=
  [.schedule "app.example".toList 60000 early,
    .put (.text "app.example".toList)
      (.object [("type".toList, .string "http-endpoint-set".toList),
        ("endpoints".toList, .array [.null])]) none
      ⟨2000, by decide, by decide⟩ late]

/-- The rollout entry stays and the slot is empty. -/
theorem put_drops_alarm :
    ¬∀ (toLowerCase : Text → Text) (events : List (RoutingEvent Nat)),
      DeadlinesArmed (latestReading events)
        (RoutingStorage.after toLowerCase events) := by
  intro served
  have stored : (RoutingStorage.after id events).rolloutAlarm =
      some ⟨"app.example".toList, 61000⟩ := by
    decide +kernel
  have empty : (RoutingStorage.after id events).alarm = none := by
    decide +kernel
  obtain ⟨alarmAt, set, _⟩ := (served id events).1 _ stored
  rw [empty] at set
  cases set

end LostRollout

end Takos.DurableObjects
