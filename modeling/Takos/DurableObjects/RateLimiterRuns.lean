import Takos.DurableObjects.RateLimiter
import Takos.Foundation.SlidingWindow
import Mathlib.Algebra.Order.Group.Int

/-!
# Runs of the rate limiter

The allowed hits of a key form a log, and the verdict on a hit is meant to
depend on the log only.  The stored timestamps of the key cover the log as long
as no cleanup, alarm or eviction drops one that is still in the window.
-/

namespace Takos.DurableObjects

open Takos.Foundation Takos.Foundation.SlidingWindow

inductive LimiterEvent where
  | hit (data : RateLimitRequest) (cleanupNow now : Int)
  | check (data : RateLimitRequest) (cleanupNow now : Int)
  | reset (key : Text) (now : Int)
  | alarm (now : Int)

namespace LimiterEvent

def clocks : LimiterEvent → List Int
  | .hit _ cleanupNow now => [cleanupNow, now]
  | .check _ cleanupNow now => [cleanupNow, now]
  | .reset _ now => [now]
  | .alarm now => [now]

def asks (key : Text) : LimiterEvent → Bool
  | .hit data _ _ => data.key = key
  | .check data _ _ => data.key = key
  | .reset _ _ => false
  | .alarm _ => false

/-- Requests for the key have this limit and window and want the sliding
window, and the key is not reset. -/
def Uses (key : Text) (config : SlidingWindowConfig) : LimiterEvent → Prop
  | .hit data _ _ => data.key = key →
      data.config = config ∧ data.chosen ≠ .tokenBucket
  | .check data _ _ => data.key = key →
      data.config = config ∧ data.chosen ≠ .tokenBucket
  | .reset other _ => other ≠ key
  | .alarm _ => True

end LimiterEvent

namespace RateLimiter

variable {Bucket : Type}
  (hitTokenBucket : Option Bucket → SlidingWindowConfig → Int → Bool →
    Bucket × SlidingWindowResult)

def step (limiter : RateLimiter Bucket) :
    LimiterEvent → RateLimiter Bucket × Option RateLimitResponse
  | .hit data cleanupNow now =>
    let done := limiter.handleHit hitTokenBucket data cleanupNow now
    (done.1, some done.2)
  | .check data cleanupNow now =>
    let done := limiter.handleCheck hitTokenBucket data cleanupNow now
    (done.1, some done.2)
  | .reset key _ => (limiter.handleReset key, none)
  | .alarm now => (limiter.alarm now, none)

def after (limiter : RateLimiter Bucket) (events : List LimiterEvent) :
    RateLimiter Bucket :=
  events.foldl (fun limiter event => (limiter.step hitTokenBucket event).1)
    limiter

def answers (limiter : RateLimiter Bucket) :
    List LimiterEvent → List (LimiterEvent × Option RateLimitResponse)
  | [] => []
  | event :: rest =>
    let done := limiter.step hitTokenBucket event
    (event, done.2) :: answers done.1 rest

end RateLimiter

def allowedHit (key : Text) :
    LimiterEvent × Option RateLimitResponse → Option Int
  | (.hit data _ now, some response) =>
    if data.key = key && response.result.allowed then some now else none
  | _ => none

def verdict (key : Text) :
    LimiterEvent × Option RateLimitResponse → Option SlidingWindowResult
  | (event, some response) =>
    if event.asks key then some response.result else none
  | _ => none

section Property

variable {Bucket : Type}
  (hitTokenBucket : Option Bucket → SlidingWindowConfig → Int → Bool →
    Bucket × SlidingWindowResult)
  (limiter : RateLimiter Bucket) (key : Text)

def allowedHits (events : List LimiterEvent) : List Int :=
  (limiter.answers hitTokenBucket events).filterMap (allowedHit key)

def verdicts (events : List LimiterEvent) : List SlidingWindowResult :=
  (limiter.answers hitTokenBucket events).filterMap (verdict key)

/-- What a key may expect of its limit and window. -/
structure Limited (config : SlidingWindowConfig)
    (events : List LimiterEvent) : Prop where
  atMost : ∀ start,
    ((allowedHits hitTokenBucket limiter key events).filter fun time =>
      start ≤ time ∧ time < start + config.windowMs).length ≤
        config.maxRequests.toNat
  atMostUntil : ∀ start,
    ((allowedHits hitTokenBucket limiter key events).filter fun time =>
      start < time ∧ time ≤ start + config.windowMs).length ≤
        config.maxRequests.toNat
  admits : ∀ before data cleanupNow now rest,
    events = before ++ .hit data cleanupNow now :: rest → data.key = key →
    (((allowedHits hitTokenBucket limiter key before).filter fun time =>
      now - config.windowMs < time ∧ time ≤ now).length : Int) <
        config.maxRequests →
    ((limiter.after hitTokenBucket before).handleHit hitTokenBucket data
      cleanupNow now).2.result.allowed = true
  independent : verdicts hitTokenBucket limiter key events =
    verdicts hitTokenBucket limiter key
      (events.filter fun event => event.asks key)

end Property

section Spares

variable {Bucket : Type} (key : Text) (window : Int)
  (limiter : RateLimiter Bucket)

/-- A cleanup with this window drops no timestamp that the key still needs. -/
def CleanupSpares (windowMs now : Int) : Prop :=
  ∀ time ∈ limiter.timestamps key, now - window < time → now - windowMs < time

def evicted : List Text :=
  if limiter.entries.entries.length < RateLimiter.maxKeys then []
  else limiter.entries.keys.take
    (evictedKeys limiter.entries.entries.length RateLimiter.maxKeys)

def Spares : LimiterEvent → Prop
  | .hit data cleanupNow now =>
    (cleanupNow - limiter.lastCleanup > RateLimiter.cleanupIntervalMs →
      CleanupSpares key window limiter data.windowMs cleanupNow) ∧
    (key ∈ evicted (limiter.maybeCleanup data.windowMs cleanupNow) →
      ∀ time ∈ limiter.timestamps key, time ≤ now - window)
  | .check data cleanupNow _ =>
    cleanupNow - limiter.lastCleanup > RateLimiter.cleanupIntervalMs →
      CleanupSpares key window limiter data.windowMs cleanupNow
  | .reset _ _ => True
  | .alarm now => CleanupSpares key window limiter 60000 now

variable (hitTokenBucket : Option Bucket → SlidingWindowConfig → Int → Bool →
  Bucket × SlidingWindowResult)

def Spared (limiter : RateLimiter Bucket) : List LimiterEvent → Prop
  | [] => True
  | event :: rest => Spares key window limiter event ∧
    Spared (limiter.step hitTokenBucket event).1 rest

end Spares

section Pruning

variable {Bucket : Type} {limiter : RateLimiter Bucket} {key : Text}
  {window : Int}

theorem timestamps_cleanup (entries : WindowEntries) (windowMs now : Int) :
    ((cleanupExpiredEntries entries windowMs now).get? key).getD [] =
      ((entries.get? key).getD []).filter fun time => now - windowMs < time := by
  rw [cleanupExpiredEntries, OrderedMap.get?_filterMap]
  cases entries.get? key with
  | none => rfl
  | some times =>
      dsimp only [Option.bind_some, Option.getD_some]
      split
      · next empty =>
          exact (List.length_eq_zero_iff.mp empty).symm
      · rfl

theorem covers_cleanup {windowMs now : Int} {log : List Int}
    (covers : Covers window now (limiter.timestamps key) log)
    (spares : CleanupSpares key window limiter windowMs now) :
    Covers window now
      (((cleanupExpiredEntries limiter.entries windowMs now).get? key).getD [])
      log := by
  rw [timestamps_cleanup]
  apply covers.prune
  intro time member inside
  exact decide_eq_true (spares time member inside)

theorem covers_maybeCleanup {windowMs now : Int} {log : List Int}
    (covers : Covers window now (limiter.timestamps key) log)
    (spares : now - limiter.lastCleanup > RateLimiter.cleanupIntervalMs →
      CleanupSpares key window limiter windowMs now) :
    Covers window now ((limiter.maybeCleanup windowMs now).timestamps key)
      log := by
  unfold RateLimiter.maybeCleanup
  split
  · next due => exact covers_cleanup covers (spares due)
  · exact covers

theorem timestamps_maybeCleanup_subset (windowMs now : Int) :
    ∀ time ∈ (limiter.maybeCleanup windowMs now).timestamps key,
      time ∈ limiter.timestamps key := by
  intro time member
  unfold RateLimiter.maybeCleanup at member
  split at member
  · simp only [RateLimiter.timestamps, timestamps_cleanup] at member
    exact (List.mem_filter.mp member).1
  · exact member

theorem timestamps_checkKeyLimit :
    limiter.checkKeyLimit.timestamps key =
      if key ∈ evicted limiter then [] else limiter.timestamps key := by
  simp only [RateLimiter.timestamps, RateLimiter.checkKeyLimit,
    enforceKeyLimit, evicted]
  split
  · rw [if_neg List.not_mem_nil]
  · rw [OrderedMap.get?_drop]
    split <;> rfl

theorem covers_checkKeyLimit {now : Int} {log : List Int}
    (covers : Covers window now (limiter.timestamps key) log)
    (spares : key ∈ evicted limiter →
      ∀ time ∈ limiter.timestamps key, time ≤ now - window) :
    Covers window now (limiter.checkKeyLimit.timestamps key) log := by
  rw [timestamps_checkKeyLimit]
  split
  · next gone =>
      have pruned := covers.prune (fun _ => false)
        fun time member inside =>
          absurd (spares gone time member) (not_le.mpr inside)
      rwa [List.filter_false] at pruned
  · exact covers

end Pruning

/-- The verdict and the log, if nothing were ever pruned. -/
def idealStep (key : Text) (config : SlidingWindowConfig) (log : List Int) :
    LimiterEvent → List Int × Option SlidingWindowResult
  | .hit data _ now =>
    if data.key = key then
      let verdict := (hitSlidingWindow log config now false).2
      (if verdict.allowed then log ++ [now] else log, some verdict)
    else (log, none)
  | .check data _ now =>
    if data.key = key then
      (log, some (hitSlidingWindow log config now true).2)
    else (log, none)
  | .reset _ _ => (log, none)
  | .alarm _ => (log, none)

theorem hitSlidingWindow_covers {config : SlidingWindowConfig} {now : Int}
    {kept log : List Int} (covers : Covers config.windowMs now kept log)
    (dryRun : Bool) :
    hitSlidingWindow kept config now dryRun =
      hitSlidingWindow log config now dryRun := by
  have same : (kept.filter fun time => now - config.windowMs < time) =
      log.filter fun time => now - config.windowMs < time := covers
  rw [hitSlidingWindow, hitSlidingWindow, same]

theorem hitSlidingWindow_allowed {config : SlidingWindowConfig} {now : Int}
    {log : List Int} {dryRun : Bool} :
    (hitSlidingWindow log config now dryRun).2.allowed = true ↔
      ((live config.windowMs now log).length : Int) < config.maxRequests :=
  decide_eq_true_iff

theorem hitSlidingWindow_stored {config : SlidingWindowConfig} {now : Int}
    {log : List Int}
    (allowed : (hitSlidingWindow log config now false).2.allowed = true) :
    (hitSlidingWindow log config now false).1 =
      live config.windowMs now log ++ [now] := by
  have few := hitSlidingWindow_allowed.mp allowed
  rw [live] at few
  simp only [hitSlidingWindow, few, decide_true, Bool.not_false, Bool.and_true,
    if_true, live]

section Handlers

variable {Bucket : Type}
  (hitTokenBucket : Option Bucket → SlidingWindowConfig → Int → Bool →
    Bucket × SlidingWindowResult)
  (limiter : RateLimiter Bucket) (data : RateLimitRequest)
  (cleanupNow now : Int)

/-- The object after the cleanup and the key limit of a hit. -/
def prunedForHit : RateLimiter Bucket :=
  (limiter.maybeCleanup data.windowMs cleanupNow).checkKeyLimit

theorem timestamps_of_entries {left right : RateLimiter Bucket}
    (same : left.entries = right.entries) (key : Text) :
    left.timestamps key = right.timestamps key := by
  rw [RateLimiter.timestamps, same, RateLimiter.timestamps]

theorem handleHit_result (sliding : data.chosen ≠ .tokenBucket) :
    (limiter.handleHit hitTokenBucket data cleanupNow now).2.result =
      (hitSlidingWindow
        ((prunedForHit limiter data cleanupNow).timestamps data.key)
        data.config now false).2 := by
  cases chosen : data.chosen with
  | slidingWindow | shadow =>
      simp only [RateLimiter.handleHit, chosen, prunedForHit]
  | tokenBucket => exact absurd chosen sliding

theorem handleHit_entries (sliding : data.chosen ≠ .tokenBucket) :
    (limiter.handleHit hitTokenBucket data cleanupNow now).1.entries =
      if (limiter.handleHit hitTokenBucket data cleanupNow
          now).2.result.allowed = true then
        (prunedForHit limiter data cleanupNow).entries.set data.key
          (hitSlidingWindow
            ((prunedForHit limiter data cleanupNow).timestamps data.key)
            data.config now false).1
      else (prunedForHit limiter data cleanupNow).entries := by
  rw [handleHit_result hitTokenBucket limiter data cleanupNow now sliding]
  cases chosen : data.chosen with
  | slidingWindow | shadow =>
      simp only [RateLimiter.handleHit, chosen, prunedForHit]
      rfl
  | tokenBucket => exact absurd chosen sliding

theorem handleHit_other {key : Text} (other : data.key ≠ key) :
    (limiter.handleHit hitTokenBucket data cleanupNow now).1.timestamps key =
      (prunedForHit limiter data cleanupNow).timestamps key := by
  have different : key ≠ data.key := Ne.symm other
  by_cases sliding : data.chosen = .tokenBucket
  · simp only [RateLimiter.handleHit, sliding, RateLimiter.timestamps,
      OrderedMap.get?_delete, if_neg different, prunedForHit]
  · rw [RateLimiter.timestamps,
      handleHit_entries hitTokenBucket limiter data cleanupNow now sliding]
    split
    · rw [OrderedMap.get?_set_of_ne _ different]
      rfl
    · rfl

theorem handleCheck_result (sliding : data.chosen ≠ .tokenBucket) :
    (limiter.handleCheck hitTokenBucket data cleanupNow now).2.result =
      (hitSlidingWindow
        ((limiter.maybeCleanup data.windowMs cleanupNow).timestamps data.key)
        data.config now true).2 := by
  cases chosen : data.chosen with
  | slidingWindow | shadow => simp only [RateLimiter.handleCheck, chosen]
  | tokenBucket => exact absurd chosen sliding

theorem handleCheck_timestamps {key : Text}
    (sliding : data.key = key → data.chosen ≠ .tokenBucket) :
    (limiter.handleCheck hitTokenBucket data cleanupNow now).1.timestamps key =
      (limiter.maybeCleanup data.windowMs cleanupNow).timestamps key := by
  cases chosen : data.chosen with
  | slidingWindow => simp only [RateLimiter.handleCheck, chosen]
  | tokenBucket =>
      have different : key ≠ data.key := fun same => sliding same.symm chosen
      simp only [RateLimiter.handleCheck, chosen, RateLimiter.timestamps,
        OrderedMap.get?_delete, if_neg different]
  | shadow =>
      simp only [RateLimiter.handleCheck, chosen, RateLimiter.timestamps]

end Handlers

section Tracking

variable {Bucket : Type} {key : Text} {config : SlidingWindowConfig}

/-- The stored timestamps serve for the log of allowed hits. -/
structure Tracks (limiter : RateLimiter Bucket) (key : Text)
    (config : SlidingWindowConfig) (log : List Int) (clock : Int) : Prop where
  covers : Covers config.windowMs clock (limiter.timestamps key) log
  past : ∀ time ∈ log, time ≤ clock
  admitted : Admitted config.maxRequests.toNat config.windowMs log

theorem Tracks.fresh (start : Int) :
    Tracks (RateLimiter.fresh start : RateLimiter Bucket) key config [] start :=
  ⟨rfl, by simp, .nil⟩

theorem Tracks.later {limiter : RateLimiter Bucket} {log : List Int}
    {earlier later : Int} (order : earlier ≤ later)
    (tracks : Tracks limiter key config log earlier) :
    Tracks limiter key config log later :=
  ⟨tracks.covers.later order,
    fun time member => Int.le_trans (tracks.past time member) order,
    tracks.admitted⟩

theorem Tracks.of_covers {limiter next : RateLimiter Bucket} {log : List Int}
    {clock : Int} (tracks : Tracks limiter key config log clock)
    (covers : Covers config.windowMs clock (next.timestamps key) log) :
    Tracks next key config log clock :=
  ⟨covers, tracks.past, tracks.admitted⟩

theorem Tracks.admit {limiter next : RateLimiter Bucket} {log : List Int}
    {now : Int} (tracks : Tracks limiter key config log now)
    (allowed : (hitSlidingWindow log config now false).2.allowed = true)
    (stored : next.timestamps key =
      (hitSlidingWindow (limiter.timestamps key) config now false).1) :
    Tracks next key config (log ++ [now]) now := by
  have few := hitSlidingWindow_allowed.mp allowed
  have recent : Covers config.windowMs now (live config.windowMs now log) log :=
    live_live (le_refl now) log
  constructor
  · rw [stored, hitSlidingWindow_covers tracks.covers,
      hitSlidingWindow_stored allowed]
    exact recent.append [now]
  · intro time member
    cases List.mem_append.mp member with
    | inl old => exact tracks.past time old
    | inr new => exact le_of_eq (List.mem_singleton.mp new)
  · apply tracks.admitted.snoc tracks.past
    omega

variable (hitTokenBucket : Option Bucket → SlidingWindowConfig → Int → Bool →
    Bucket × SlidingWindowResult)
  {limiter : RateLimiter Bucket} {log : List Int} {clock : Int}

theorem Tracks.hit {data : RateLimitRequest} {cleanupNow now : Int}
    (tracks : Tracks limiter key config log clock)
    (cleanup : clock ≤ cleanupNow) (order : cleanupNow ≤ now)
    (uses : (LimiterEvent.hit data cleanupNow now).Uses key config)
    (spares : Spares key config.windowMs limiter (.hit data cleanupNow now)) :
    Tracks (limiter.handleHit hitTokenBucket data cleanupNow now).1 key config
        (idealStep key config log (.hit data cleanupNow now)).1 now ∧
      (data.key = key → some
        (limiter.handleHit hitTokenBucket data cleanupNow now).2.result =
          (idealStep key config log (.hit data cleanupNow now)).2) := by
  have cleaned := covers_maybeCleanup (tracks.later cleanup).covers spares.1
  have limited := covers_checkKeyLimit (cleaned.later order) fun gone time member =>
    spares.2 gone time
      (timestamps_maybeCleanup_subset data.windowMs cleanupNow time member)
  have pruned : Tracks (prunedForHit limiter data cleanupNow) key config log
      now := (tracks.later (Int.le_trans cleanup order)).of_covers limited
  by_cases own : data.key = key
  · obtain ⟨same, sliding⟩ := uses own
    have result := handleHit_result hitTokenBucket limiter data cleanupNow now
      sliding
    have entries := handleHit_entries hitTokenBucket limiter data cleanupNow
      now sliding
    rw [own, same] at result entries
    rw [hitSlidingWindow_covers pruned.covers] at result
    simp only [idealStep, own, if_true, true_implies]
    refine ⟨?_, congrArg some result⟩
    by_cases allowed : (hitSlidingWindow log config now false).2.allowed = true
    · rw [if_pos allowed]
      rw [result, if_pos allowed] at entries
      apply pruned.admit allowed
      rw [RateLimiter.timestamps, entries, OrderedMap.get?_set_self]
      rfl
    · rw [if_neg allowed]
      rw [result, if_neg allowed] at entries
      apply pruned.of_covers
      rw [timestamps_of_entries entries key]
      exact pruned.covers
  · simp only [idealStep, own, if_false, false_implies, and_true]
    apply pruned.of_covers
    rw [handleHit_other hitTokenBucket limiter data cleanupNow now own]
    exact pruned.covers

theorem Tracks.check {data : RateLimitRequest} {cleanupNow now : Int}
    (tracks : Tracks limiter key config log clock)
    (cleanup : clock ≤ cleanupNow) (order : cleanupNow ≤ now)
    (uses : (LimiterEvent.check data cleanupNow now).Uses key config)
    (spares : Spares key config.windowMs limiter (.check data cleanupNow now)) :
    Tracks (limiter.handleCheck hitTokenBucket data cleanupNow now).1 key config
        (idealStep key config log (.check data cleanupNow now)).1 now ∧
      (data.key = key → some
        (limiter.handleCheck hitTokenBucket data cleanupNow now).2.result =
          (idealStep key config log (.check data cleanupNow now)).2) := by
  have cleaned :=
    (covers_maybeCleanup (tracks.later cleanup).covers spares).later order
  have unchanged : (idealStep key config log
      (.check data cleanupNow now)).1 = log := by
    rw [idealStep]
    split <;> rfl
  constructor
  · rw [unchanged]
    apply (tracks.later (Int.le_trans cleanup order)).of_covers
    rw [handleCheck_timestamps hitTokenBucket limiter data cleanupNow now
      fun own => (uses own).2]
    exact cleaned
  · intro own
    obtain ⟨same, sliding⟩ := uses own
    rw [handleCheck_result hitTokenBucket limiter data cleanupNow now sliding,
      own, same, hitSlidingWindow_covers cleaned, idealStep, if_pos own]

theorem verdict_eq {event : LimiterEvent} {response : RateLimitResponse}
    {ideal : Option SlidingWindowResult}
    (asked : event.asks key = true → some response.result = ideal)
    (unasked : event.asks key = false → ideal = none) :
    verdict key (event, some response) = ideal := by
  cases asks : event.asks key with
  | true => simpa only [verdict, asks, if_true] using asked asks
  | false => simp only [verdict, asks, Bool.false_eq_true, if_false, unasked asks]

theorem Tracks.step {event : LimiterEvent}
    (tracks : Tracks limiter key config log clock)
    (ordered : (clock :: event.clocks).Pairwise (· ≤ ·))
    (uses : event.Uses key config)
    (spares : Spares key config.windowMs limiter event) :
    Tracks (limiter.step hitTokenBucket event).1 key config
        (idealStep key config log event).1 (event.clocks.getLastD clock) ∧
      verdict key (event, (limiter.step hitTokenBucket event).2) =
        (idealStep key config log event).2 := by
  cases event with
  | hit data cleanupNow now =>
      simp only [LimiterEvent.clocks, List.pairwise_cons, List.mem_cons,
        List.not_mem_nil, or_false, forall_eq_or_imp, forall_eq] at ordered
      obtain ⟨next, result⟩ :=
        tracks.hit hitTokenBucket ordered.1.1 ordered.2.1 uses spares
      exact ⟨next, verdict_eq (fun own => result (of_decide_eq_true own))
        fun other => by rw [idealStep, if_neg (of_decide_eq_false other)]⟩
  | check data cleanupNow now =>
      simp only [LimiterEvent.clocks, List.pairwise_cons, List.mem_cons,
        List.not_mem_nil, or_false, forall_eq_or_imp, forall_eq] at ordered
      obtain ⟨next, result⟩ :=
        tracks.check hitTokenBucket ordered.1.1 ordered.2.1 uses spares
      exact ⟨next, verdict_eq (fun own => result (of_decide_eq_true own))
        fun other => by rw [idealStep, if_neg (of_decide_eq_false other)]⟩
  | reset other now =>
      simp only [LimiterEvent.clocks, List.pairwise_cons, List.mem_cons,
        List.not_mem_nil, or_false, forall_eq] at ordered
      refine ⟨?_, rfl⟩
      apply (tracks.later ordered.1).of_covers
      have different : key ≠ other := Ne.symm uses
      simp only [RateLimiter.step, RateLimiter.handleReset,
        RateLimiter.timestamps, OrderedMap.get?_delete, if_neg different]
      exact (tracks.later ordered.1).covers
  | alarm now =>
      simp only [LimiterEvent.clocks, List.pairwise_cons, List.mem_cons,
        List.not_mem_nil, or_false, forall_eq] at ordered
      refine ⟨?_, rfl⟩
      apply (tracks.later ordered.1).of_covers
      exact covers_cleanup (tracks.later ordered.1).covers spares

end Tracking

end Takos.DurableObjects
