import Takos.HostnameRouting.RoutingCalls

/-!
# How old an answer may be

Every cached value was in force at some moment, and its expiry follows from
that moment.  No write puts a later expiry on an older value, so the order in
which writes land does not matter.
-/

namespace Takos.HostnameRouting

open Takos.Foundation Takos.Foundation.Program Takos.DurableObjects

/-- A property of the objects holds at a time: it holds of the last moment
before, or of one at that very time. -/
def InForce (holds : (Nat → RoutingStorage ℚ) → Prop) (time : ℚ) :
    List Moment → Prop
  | [] => False
  | moment :: older =>
    ((moment.time : ℚ) ≤ time ∧ holds moment.objects) ∨
      (time ≤ moment.time ∧ InForce holds time older)

theorem inForce_of_mem {holds : (Nat → RoutingStorage ℚ) → Prop}
    {history : List Moment}
    (ordered : history.Pairwise fun newer older => older.time ≤ newer.time)
    {moment : Moment} (member : moment ∈ history)
    (holding : holds moment.objects) : InForce holds moment.time history := by
  induction history with
  | nil => cases member
  | cons newest older ih =>
      rcases List.mem_cons.mp member with first | later
      · subst first
        exact .inl ⟨le_rfl, holding⟩
      · obtain ⟨first, rest⟩ := List.pairwise_cons.mp ordered
        exact .inr ⟨Nat.cast_le.mpr (first moment later), ih rest later⟩

section Staleness

variable (texts : TextFunctions) (lifetime : ℚ)

def routeAt (objects : Nat → RoutingStorage ℚ) (hostname : Text) :
    Option (Json ℚ) :=
  storedTarget texts.toLowerCase (objects (getHostnameShardId texts hostname))
    hostname

/-- How long a value of the store may be used. -/
def storeAge : ℚ := max l2MaxAge lifetime

theorem storeAge_nonneg : 0 ≤ storeAge lifetime :=
  le_max_of_le_left (by norm_num [l2MaxAge])

/-- The target, or that there is none, was in force at some moment. -/
def Seen (history : List Moment) (hostname : Text)
    (target : Option (Json ℚ)) (earliest : ℚ) : Prop :=
  ∃ moment ∈ history, earliest ≤ moment.time ∧
    Option.Rel SameTarget (routeAt texts moment.objects hostname) target

variable {texts lifetime}

variable {hostname : Text} {system : RoutingSystem}

theorem Seen.weaken {history later : List Moment} {target : Option (Json ℚ)}
    {earliest earlier : ℚ}
    (seen : Seen texts history hostname target earliest)
    (order : earlier ≤ earliest) (inside : history ⊆ later) :
    Seen texts later hostname target earlier := by
  obtain ⟨moment, member, time, shown⟩ := seen
  exact ⟨moment, inside member, order.trans time, shown⟩

variable (texts lifetime)

/-- A target was in force when or after it was stamped, and a tombstone ends
soon after a moment without a target. -/
structure ValueSound (history : List Moment) (hostname : Text)
    (kv : ParsedRoutingValue) : Prop where
  fresh : ∀ target, kv.target = some target → ∃ updatedAt,
    kv.updatedAt = some updatedAt ∧
      Seen texts history hostname (some target) updatedAt
  gone : ∀ tombstoneUntil, kv.tombstoneUntil = some tombstoneUntil →
    Seen texts history hostname none (tombstoneUntil - storeAge lifetime)

structure SystemSound (system : RoutingSystem) : Prop where
  ordered : system.history.Pairwise fun newer older => older.time ≤ newer.time
  past : ∀ moment ∈ system.history, moment.time ≤ system.clock.ms
  routes : ∀ shard, RoutesSound (system.clock.ms + storeAge lifetime)
    (system.objects shard)
  kv : ∀ hostname payload, system.kv.get? hostname = some payload →
    ValueSound texts lifetime system.history hostname
      (parseRoutingValue texts (some payload))
  writes : ∀ write ∈ system.writes,
    ValueSound texts lifetime system.history write.1
      (parseRoutingValue texts (some write.2))
  isolates : ∀ isolate hostname entry,
    (system.isolates isolate).get? hostname = some entry →
      Seen texts system.history hostname entry.value.target
        (entry.expiresAt - (l1Ttl + storeAge lifetime))

/-- The object's answer to a resolution that began at `now`. -/
def Answered (history : List Moment) (hostname : Text) (now : ClockReading)
    (answer : Option RoutingRecord) : Prop :=
  ∃ moment ∈ history, now.ms ≤ moment.time ∧
    routeAt texts moment.objects hostname =
      answer.bind (fun record => record.target) ∧
    ∀ record, answer = some record →
      RecordSound (moment.time + storeAge lifetime) record.toStoredRoutingRecord

def CallSound (system : RoutingSystem) : RoutingCall → Prop
  | .readKv _ _ now => now.ms ≤ system.clock.ms
  | .useKv _ hostname now kvRaw => now.ms ≤ system.clock.ms ∧
    ValueSound texts lifetime system.history hostname
      (parseRoutingValue texts kvRaw)
  | .getRecord _ _ now _ => now.ms ≤ system.clock.ms
  | .useRecord _ hostname now _ record => now.ms ≤ system.clock.ms ∧
    Answered texts lifetime system.history hostname now record
  | .putRecord _ _ now => now.ms ≤ system.clock.ms
  | .cacheTarget hostname target now => isRoutingTarget target.json = true ∧
    Seen texts system.history hostname (some target.json) now.ms
  | .delete _ _ tombstoneTtlMs =>
    tombstoneTtlMs.getD defaultTombstoneTtl ≤ lifetime
  | .deleteRecord _ tombstoneTtlMs now =>
    tombstoneTtlMs ≤ lifetime ∧ now.ms ≤ system.clock.ms
  | .cacheTombstone hostname tombstoneTtlMs now =>
    tombstoneTtlMs ≤ lifetime ∧
      Seen texts system.history hostname none now.ms
  | _ => True

/-- The answer was in force at a moment that is recent enough. -/
def AnswerSound (history : List Moment) (hostname : Text)
    (started returned : ClockReading) (target : Option (Json ℚ)) : Prop :=
  ∃ moment ∈ history, (moment.time : ℚ) ≤ returned.ms ∧
    (started.ms : ℚ) - (l1Ttl + storeAge lifetime) ≤ moment.time ∧
    ((returned.ms : ℚ) - started.ms ≤ l1Ttl →
      (returned.ms : ℚ) - (l1Ttl + storeAge lifetime) ≤ moment.time) ∧
    Option.Rel SameTarget (routeAt texts moment.objects hostname) target

def ResultSound (system : RoutingSystem) : RoutingResult → Prop
  | .resolved hostname started returned routing =>
    AnswerSound texts lifetime system.history hostname started returned
      routing.target
  | _ => True

def assertions : Assertions RoutingSystem RoutingCall RoutingResult where
  shared := SystemSound texts lifetime
  call := CallSound texts lifetime
  result := ResultSound texts lifetime

structure Grows (before after : RoutingSystem) : Prop where
  clock : before.clock.ms ≤ after.clock.ms
  history : before.history ⊆ after.history

variable {texts lifetime}

theorem ValueSound.later {history later : List Moment}
    {kv : ParsedRoutingValue}
    (sound : ValueSound texts lifetime history hostname kv)
    (inside : history ⊆ later) :
    ValueSound texts lifetime later hostname kv where
  fresh target cached := by
    obtain ⟨updatedAt, stamped, seen⟩ := sound.fresh target cached
    exact ⟨updatedAt, stamped, seen.weaken le_rfl inside⟩
  gone tombstoneUntil ends :=
    (sound.gone tombstoneUntil ends).weaken le_rfl inside

theorem CallSound.later {before after : RoutingSystem} {call : RoutingCall}
    (sound : CallSound texts lifetime before call)
    (grows : Grows before after) : CallSound texts lifetime after call := by
  obtain ⟨clock, inside⟩ := grows
  cases call with
  | readKv | getRecord | putRecord => exact Nat.le_trans sound clock
  | useKv _ hostname now kvRaw =>
      exact ⟨Nat.le_trans sound.1 clock, sound.2.later inside⟩
  | useRecord _ hostname now kv record =>
      obtain ⟨started, moment, member, facts⟩ := sound
      exact ⟨Nat.le_trans started clock, moment, inside member, facts⟩
  | cacheTarget | cacheTombstone =>
      exact ⟨sound.1, sound.2.weaken le_rfl inside⟩
  | deleteRecord _ _ now => exact ⟨sound.1, Nat.le_trans sound.2 clock⟩
  | delete _ _ _ => exact sound
  | _ => trivial

theorem ResultSound.later {before after : RoutingSystem}
    {result : RoutingResult} (sound : ResultSound texts lifetime before result)
    (inside : before.history ⊆ after.history) :
    ResultSound texts lifetime after result := by
  cases result with
  | resolved hostname started returned routing =>
      obtain ⟨moment, member, facts⟩ := sound
      exact ⟨moment, inside member, facts⟩
  | _ => trivial

theorem SystemSound.observed (sound : SystemSound texts lifetime system) :
    SystemSound texts lifetime system.observed where
  ordered := List.pairwise_cons.mpr ⟨sound.past, sound.ordered⟩
  past moment member := by
    rcases List.mem_cons.mp member with first | older
    · exact Nat.le_of_eq (congrArg Moment.time first)
    · exact sound.past moment older
  routes := sound.routes
  kv hostname payload stored :=
    (sound.kv hostname payload stored).later (List.subset_cons_self _ _)
  writes write member :=
    (sound.writes write member).later (List.subset_cons_self _ _)
  isolates isolate hostname entry cached :=
    (sound.isolates isolate hostname entry cached).weaken le_rfl
      (List.subset_cons_self _ _)

theorem SystemSound.setIsolate (sound : SystemSound texts lifetime system)
    (isolate : Nat) {cache : L1Cache}
    (cached : ∀ hostname entry, cache.get? hostname = some entry →
      Seen texts system.history hostname entry.value.target
        (entry.expiresAt - (l1Ttl + storeAge lifetime))) :
    SystemSound texts lifetime (system.setIsolate isolate cache) := by
  refine ⟨sound.ordered, sound.past, sound.routes, sound.kv, sound.writes, ?_⟩
  intro other hostname entry found
  simp only [RoutingSystem.setIsolate, Function.update_apply] at found
  split at found
  · exact cached hostname entry found
  · exact sound.isolates other hostname entry found

theorem SystemSound.forget (sound : SystemSound texts lifetime system)
    (isolate : Nat) (hostname : Text) :
    SystemSound texts lifetime (system.setIsolate isolate
      ((system.isolates isolate).delete hostname)) := by
  apply sound.setIsolate
  intro other entry found
  rw [OrderedMap.get?_delete] at found
  split at found
  · cases found
  · exact sound.isolates isolate other entry found

theorem SystemSound.remember (sound : SystemSound texts lifetime system)
    (isolate : Nat) {value : ResolvedRouting} {now : ClockReading}
    (seen : Seen texts system.history hostname value.target
      (now.ms - storeAge lifetime)) :
    SystemSound texts lifetime
      (system.remember isolate hostname value now) := by
  apply sound.setIsolate
  intro other entry found
  rw [putL1, OrderedMap.get?_set] at found
  split at found
  · rename_i same
    cases found
    subst same
    apply seen.weaken _ (List.Subset.refl _)
    linarith
  · split at found
    · rw [OrderedMap.get?_empty] at found
      cases found
    · exact sound.isolates isolate other entry found

theorem SystemSound.startWrite (sound : SystemSound texts lifetime system)
    {payload : KvText}
    (value : ValueSound texts lifetime system.history hostname
      (parseRoutingValue texts (some payload))) :
    SystemSound texts lifetime (system.startWrite hostname payload) := by
  refine ⟨sound.ordered, sound.past, sound.routes, sound.kv, ?_,
    sound.isolates⟩
  intro write member
  rcases List.mem_cons.mp member with new | old
  · subst new
    exact value
  · exact sound.writes write old

theorem SystemSound.setObject (sound : SystemSound texts lifetime system)
    (shard : Nat) {storage : RoutingStorage ℚ}
    (routes : RoutesSound (system.clock.ms + storeAge lifetime) storage) :
    SystemSound texts lifetime (system.setObject shard storage) := by
  refine ⟨sound.ordered, sound.past, ?_, sound.kv, sound.writes,
    sound.isolates⟩
  intro other
  simp only [RoutingSystem.setObject, Function.update_apply]
  split
  · exact routes
  · exact sound.routes other

theorem AnswerSound.of_seen (sound : SystemSound texts lifetime system)
    {target : Option (Json ℚ)} {now : ClockReading}
    (seen : Seen texts system.history hostname target
      (now.ms - storeAge lifetime)) :
    AnswerSound texts lifetime system.observed.history hostname now
      system.clock target := by
  obtain ⟨moment, member, time, shown⟩ := seen
  refine ⟨moment, List.mem_cons_of_mem _ member, ?_, ?_, ?_, shown⟩
  · exact Nat.cast_le.mpr (sound.past moment member)
  · have ttl : (0 : ℚ) ≤ l1Ttl := by norm_num [l1Ttl]
    linarith
  · intro quick
    linarith

end Staleness

end Takos.HostnameRouting
