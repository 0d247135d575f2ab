import Takos.DurableObjects.RateLimiterRuns
import Mathlib.Data.List.Flatten

/-!
# Verdicts of the rate limiter

A whole run gives a key the verdicts of its log, and so do its own requests
alone: other keys, cleanups and alarms do not show as long as every step spares
the key.
-/

namespace Takos.DurableObjects

open Takos.Foundation Takos.Foundation.SlidingWindow

section Runs

variable {Bucket : Type} {key : Text} {config : SlidingWindowConfig}
  (hitTokenBucket : Option Bucket → SlidingWindowConfig → Int → Bool →
    Bucket × SlidingWindowResult)
  {limiter : RateLimiter Bucket} {log : List Int} {clock : Int}

/-- The log and the verdicts of a run without pruning. -/
def idealRun (key : Text) (config : SlidingWindowConfig) (log : List Int) :
    List LimiterEvent → List Int × List SlidingWindowResult
  | [] => (log, [])
  | event :: rest =>
    let one := idealStep key config log event
    let run := idealRun key config one.1 rest
    (run.1, one.2.toList ++ run.2)

theorem idealRun_filter (events : List LimiterEvent) (log : List Int) :
    idealRun key config log (events.filter fun event => event.asks key) =
      idealRun key config log events := by
  induction events generalizing log with
  | nil => rfl
  | cons event rest ih =>
      by_cases asked : event.asks key = true
      · rw [List.filter_cons_of_pos asked, idealRun, idealRun, ih]
      · have idle : idealStep key config log event = (log, none) := by
          cases event with
          | hit data _ _ =>
              exact if_neg fun own => asked (decide_eq_true own)
          | check data _ _ =>
              exact if_neg fun own => asked (decide_eq_true own)
          | reset _ _ => rfl
          | alarm _ => rfl
        rw [List.filter_cons_of_neg asked, ih, idealRun, idle]
        rfl

theorem idealStep_log {event : LimiterEvent}
    {response : Option RateLimitResponse}
    (answered : verdict key (event, response) =
      (idealStep key config log event).2) :
    (idealStep key config log event).1 =
      log ++ (allowedHit key (event, response)).toList := by
  cases event with
  | hit data cleanupNow now =>
      by_cases own : data.key = key
      · cases response with
        | none =>
            simp only [verdict, idealStep, own, if_true, reduceCtorEq]
              at answered
        | some response =>
            simp only [verdict, LimiterEvent.asks, own, decide_true, if_true,
              idealStep, Option.some.injEq] at answered
            simp only [idealStep, own, if_true, allowedHit, decide_true,
              Bool.true_and, ← answered]
            split
            · rfl
            · exact (List.append_nil log).symm
      · cases response <;> simp [idealStep, allowedHit, own]
  | check data cleanupNow now =>
      simp only [idealStep, allowedHit, Option.toList_none, List.append_nil]
      split <;> rfl
  | reset | alarm =>
      simp only [idealStep, allowedHit, Option.toList_none,
      List.append_nil]

theorem Tracks.run (events : List LimiterEvent)
    (tracks : Tracks limiter key config log clock)
    (ordered : (clock :: events.flatMap LimiterEvent.clocks).Pairwise (· ≤ ·))
    (uses : ∀ event ∈ events, event.Uses key config)
    (spared : Spared key config.windowMs hitTokenBucket limiter events) :
    (∃ last ∈ clock :: events.flatMap LimiterEvent.clocks,
      Tracks (limiter.after hitTokenBucket events) key config
        (log ++ allowedHits hitTokenBucket limiter key events) last) ∧
    verdicts hitTokenBucket limiter key events =
      (idealRun key config log events).2 := by
  induction events generalizing limiter log clock with
  | nil =>
      refine ⟨⟨clock, List.mem_cons_self, ?_⟩, rfl⟩
      rw [allowedHits, RateLimiter.answers, List.filterMap_nil,
        List.append_nil]
      exact tracks
  | cons event rest ih =>
      have now : event.clocks.getLastD clock ∈ clock :: event.clocks :=
        List.getLastD_mem_cons
      have split : clock :: (event :: rest).flatMap LimiterEvent.clocks =
          (clock :: event.clocks) ++ rest.flatMap LimiterEvent.clocks := rfl
      rw [split] at ordered ⊢
      obtain ⟨first, remaining, between⟩ := List.pairwise_append.mp ordered
      obtain ⟨next, answered⟩ := tracks.step hitTokenBucket first
        (uses event List.mem_cons_self) spared.1
      obtain ⟨⟨last, member, reached⟩, rests⟩ := ih next
        (List.pairwise_cons.mpr ⟨between _ now, remaining⟩)
        (fun event member => uses event (List.mem_cons_of_mem _ member))
        spared.2
      have grown := idealStep_log answered
      constructor
      · refine ⟨last, ?_, ?_⟩
        · cases List.mem_cons.mp member with
          | inl same =>
              rw [same]
              exact List.mem_append_left _ now
          | inr later => exact List.mem_append_right _ later
        · rw [grown, List.append_assoc] at reached
          rw [allowedHits, RateLimiter.answers, List.filterMap_cons]
          cases hit : allowedHit key
              (event, (limiter.step hitTokenBucket event).2) with
          | none =>
              rw [hit] at reached
              exact reached
          | some time =>
              rw [hit] at reached
              exact reached
      · rw [idealRun, ← rests, ← answered, verdicts, RateLimiter.answers,
          List.filterMap_cons]
        cases verdict key
            (event, (limiter.step hitTokenBucket event).2) with
        | none => rfl
        | some result => rfl

end Runs

section Alone

variable {Bucket : Type} {limiter : RateLimiter Bucket} {key : Text}
  {config : SlidingWindowConfig}

def OnlyKey (limiter : RateLimiter Bucket) (key : Text) : Prop :=
  ∀ other, other ≠ key → limiter.entries.get? other = none

theorem OnlyKey.few (only : OnlyKey limiter key) :
    limiter.entries.entries.length ≤ 1 := by
  have own : ∀ other ∈ limiter.entries.keys, other = key := by
    intro other member
    by_contra different
    exact OrderedMap.get?_eq_none_iff.mp (only other different) member
  have unique : limiter.entries.keys.Nodup := limiter.entries.nodup
  have short : limiter.entries.keys.length ≤ 1 := by
    match shape : limiter.entries.keys with
    | [] => exact Nat.zero_le 1
    | [_] => exact Nat.le_refl 1
    | first :: second :: rest =>
        rw [shape] at own unique
        have same : first = second :=
          (own first (by simp)).trans (own second (by simp)).symm
        rw [same] at unique
        simp at unique
  simpa [OrderedMap.keys] using short

theorem OnlyKey.not_evicted (only : OnlyKey limiter key) :
    evicted limiter = [] := by
  rw [evicted, if_pos]
  exact Nat.lt_of_le_of_lt only.few (by decide)

theorem OnlyKey.maybeCleanup (only : OnlyKey limiter key)
    (windowMs now : Int) :
    OnlyKey (limiter.maybeCleanup windowMs now) key := by
  intro other different
  unfold RateLimiter.maybeCleanup
  split
  · simp only [cleanupExpiredEntries, OrderedMap.get?_filterMap,
      only other different, Option.bind_none]
  · exact only other different

theorem OnlyKey.checkKeyLimit (only : OnlyKey limiter key) :
    OnlyKey limiter.checkKeyLimit key := by
  intro other different
  simp only [RateLimiter.checkKeyLimit, enforceKeyLimit]
  split
  · exact only other different
  · rw [OrderedMap.get?_drop, only other different, ite_self]

variable (hitTokenBucket : Option Bucket → SlidingWindowConfig → Int → Bool →
  Bucket × SlidingWindowResult)

theorem OnlyKey.step (only : OnlyKey limiter key) {event : LimiterEvent}
    (asked : event.asks key = true) :
    OnlyKey (limiter.step hitTokenBucket event).1 key := by
  intro other different
  cases event with
  | hit data cleanupNow now =>
      have own : data.key = key := of_decide_eq_true asked
      have pruned := (only.maybeCleanup data.windowMs cleanupNow).checkKeyLimit
      have apart : other ≠ data.key := by rwa [own]
      simp only [RateLimiter.step, RateLimiter.handleHit]
      split
      · rw [OrderedMap.get?_delete, if_neg apart]
        exact pruned other different
      all_goals
        dsimp only
        split
        · rw [OrderedMap.get?_set_of_ne _ apart]
          exact pruned other different
        · exact pruned other different
  | check data cleanupNow now =>
      have own : data.key = key := of_decide_eq_true asked
      have pruned := only.maybeCleanup data.windowMs cleanupNow
      have apart : other ≠ data.key := by rwa [own]
      simp only [RateLimiter.step, RateLimiter.handleCheck]
      split
      · rw [OrderedMap.get?_delete, if_neg apart]
        exact pruned other different
      · exact pruned other different
      · exact pruned other different
  | reset | alarm => exact absurd asked Bool.false_ne_true

theorem OnlyKey.spared (only : OnlyKey limiter key)
    (events : List LimiterEvent)
    (asked : ∀ event ∈ events, event.asks key = true)
    (uses : ∀ event ∈ events, event.Uses key config) :
    Spared key config.windowMs hitTokenBucket limiter events := by
  induction events generalizing limiter with
  | nil => trivial
  | cons event rest ih =>
      have first := asked event List.mem_cons_self
      have used := uses event List.mem_cons_self
      constructor
      · cases event with
        | hit data cleanupNow now =>
            have same := (used (of_decide_eq_true first)).1
            constructor
            · intro _ time _ inside
              rw [← same] at inside
              exact inside
            · intro gone
              rw [(only.maybeCleanup data.windowMs cleanupNow).not_evicted]
                at gone
              exact absurd gone List.not_mem_nil
        | check data cleanupNow now =>
            have same := (used (of_decide_eq_true first)).1
            intro _ time _ inside
            rw [← same] at inside
            exact inside
        | reset _ _ => trivial
        | alarm _ => exact absurd first Bool.false_ne_true
      · exact ih (only.step hitTokenBucket first)
          (fun event member => asked event (List.mem_cons_of_mem _ member))
          (fun event member => uses event (List.mem_cons_of_mem _ member))

end Alone

theorem Spared.append {Bucket : Type} {key : Text} {window : Int}
    {hitTokenBucket : Option Bucket → SlidingWindowConfig → Int → Bool →
      Bucket × SlidingWindowResult}
    {limiter : RateLimiter Bucket} {before rest : List LimiterEvent}
    (spared : Spared key window hitTokenBucket limiter (before ++ rest)) :
    Spared key window hitTokenBucket limiter before ∧
      Spared key window hitTokenBucket
        (limiter.after hitTokenBucket before) rest := by
  induction before generalizing limiter with
  | nil => exact ⟨trivial, spared⟩
  | cons event before ih =>
      obtain ⟨first, later⟩ := ih spared.2
      exact ⟨⟨spared.1, first⟩, later⟩

theorem after_append {Bucket : Type}
    (hitTokenBucket : Option Bucket → SlidingWindowConfig → Int → Bool →
      Bucket × SlidingWindowResult)
    (limiter : RateLimiter Bucket) (before rest : List LimiterEvent) :
    limiter.after hitTokenBucket (before ++ rest) =
      (limiter.after hitTokenBucket before).after hitTokenBucket rest :=
  List.foldl_append

theorem allowedHits_append {Bucket : Type}
    (hitTokenBucket : Option Bucket → SlidingWindowConfig → Int → Bool →
      Bucket × SlidingWindowResult)
    (limiter : RateLimiter Bucket) (key : Text)
    (before rest : List LimiterEvent) :
    allowedHits hitTokenBucket limiter key (before ++ rest) =
      allowedHits hitTokenBucket limiter key before ++
        allowedHits hitTokenBucket (limiter.after hitTokenBucket before) key
          rest := by
  rw [allowedHits, allowedHits, allowedHits, ← List.filterMap_append]
  apply congrArg (List.filterMap (allowedHit key))
  induction before generalizing limiter with
  | nil => rfl
  | cons event before ih =>
      rw [List.cons_append, RateLimiter.answers, ih, RateLimiter.answers]
      rfl

/-- A key that no cleanup, alarm or eviction robs of a timestamp in its window
gets exactly the verdicts of a sliding window over its own hits. -/
theorem key_limited {Bucket : Type}
    (hitTokenBucket : Option Bucket → SlidingWindowConfig → Int → Bool →
      Bucket × SlidingWindowResult)
    (start : Int) (key : Text) (config : SlidingWindowConfig)
    (events : List LimiterEvent)
    (ordered : (start :: events.flatMap LimiterEvent.clocks).Pairwise (· ≤ ·))
    (uses : ∀ event ∈ events, event.Uses key config)
    (spared : Spared key config.windowMs hitTokenBucket
      (RateLimiter.fresh start) events) :
    Limited hitTokenBucket (RateLimiter.fresh start) key config events := by
  have initial : Tracks (RateLimiter.fresh start : RateLimiter Bucket) key
    config [] start := Tracks.fresh start
  obtain ⟨⟨last, _, tracks⟩, answered⟩ :=
    initial.run hitTokenBucket events ordered uses spared
  rw [List.nil_append] at tracks
  refine ⟨tracks.admitted.from_le, tracks.admitted.until_le, ?_, ?_⟩
  · intro before data cleanupNow now rest shape own few
    rw [shape] at ordered uses spared
    rw [List.flatMap_append, ← List.cons_append, List.flatMap_cons]
      at ordered
    obtain ⟨early, late, between⟩ := List.pairwise_append.mp ordered
    obtain ⟨sparedBefore, sparedHit, _⟩ := spared.append
    obtain ⟨⟨clock, member, reached⟩, _⟩ := initial.run hitTokenBucket before
      early (fun event member => uses event (List.mem_append_left _ member))
      sparedBefore
    rw [List.nil_append] at reached
    have cleanup : clock ≤ cleanupNow :=
      between clock member cleanupNow (by simp [LimiterEvent.clocks])
    have order : cleanupNow ≤ now := by
      have both := (List.pairwise_append.mp late).1
      simpa [LimiterEvent.clocks] using both
    have used := uses (.hit data cleanupNow now) (by simp)
    have verdict := (reached.hit hitTokenBucket cleanup order used
      sparedHit).2 own
    have same : (live config.windowMs now
          (allowedHits hitTokenBucket (RateLimiter.fresh start) key before)) =
        (allowedHits hitTokenBucket (RateLimiter.fresh start) key
          before).filter fun time =>
            now - config.windowMs < time ∧ time ≤ now := by
      apply List.filter_congr
      intro time member
      have past := Int.le_trans (reached.past time member)
        (Int.le_trans cleanup order)
      simp [past]
    rw [idealStep, if_pos own, Option.some.injEq] at verdict
    rw [verdict, hitSlidingWindow_allowed, same]
    exact few
  · have asked : ∀ event ∈ events.filter (fun event => event.asks key),
        event.asks key = true :=
      fun event member => (List.mem_filter.mp member).2
    have used : ∀ event ∈ events.filter (fun event => event.asks key),
        event.Uses key config :=
      fun event member => uses event (List.mem_filter.mp member).1
    have only : OnlyKey (RateLimiter.fresh start : RateLimiter Bucket) key :=
      fun _ _ => rfl
    have sorted : (start :: (events.filter fun event =>
        event.asks key).flatMap LimiterEvent.clocks).Pairwise (· ≤ ·) := by
      apply List.Pairwise.sublist _ ordered
      apply List.Sublist.cons_cons
      exact List.filter_sublist.flatMap LimiterEvent.clocks
    have alone := (initial.run hitTokenBucket _ sorted used
      (only.spared hitTokenBucket _ asked used)).2
    rw [answered, alone, idealRun_filter]

namespace SparedKey

def noBucket (_ : Option Unit) (_ : SlidingWindowConfig) (_ : Int) (_ : Bool) :
    Unit × SlidingWindowResult :=
  ((), ⟨0, 0, 0, false⟩)

def request : RateLimitRequest := ⟨"p".toList, 1, 60000, none⟩

def events : List LimiterEvent :=
  [.hit request 0 0, .alarm 59999, .hit request 59999 59999,
    .alarm 60000, .hit request 60000 60000]

theorem request_limited :
    Limited noBucket (RateLimiter.fresh 0) "p".toList ⟨1, 60000⟩ events := by
  apply key_limited
  · decide
  · intro event member
    simp only [events, List.mem_cons, List.not_mem_nil, or_false] at member
    rcases member with rfl | rfl | rfl | rfl | rfl
    all_goals simp [LimiterEvent.Uses, request, RateLimitRequest.config,
      RateLimitRequest.chosen]
  · refine ⟨?_, ?_, ?_, ?_, ?_, trivial⟩
    · exact ⟨fun _ _ _ inside => inside, fun gone => absurd gone (by decide)⟩
    · exact fun _ _ inside => inside
    · exact ⟨fun _ _ _ inside => inside, fun gone => absurd gone (by decide)⟩
    · exact fun _ _ inside => inside
    · exact ⟨fun _ _ _ inside => inside, fun gone => absurd gone (by decide)⟩

end SparedKey

namespace ForgottenHits

open SparedKey (noBucket)

def start : RateLimiter Unit := .fresh 0

def request (size : Nat) : RateLimitRequest :=
  ⟨List.replicate size 'k', 1, 60000, none⟩

def crowd (count : Nat) : List LimiterEvent :=
  (List.range count).map fun size => .hit (request size) 0 0

/-- A full table evicts the first key, whose window is still open. -/
def crowded : List LimiterEvent :=
  crowd RateLimiter.maxKeys ++ [.hit (request 0) 0 0]

def patient : RateLimitRequest := ⟨"p".toList, 1, 120000, none⟩

/-- The alarm drops a timestamp in the middle of a longer window. -/
def alarmed : List LimiterEvent :=
  [.hit patient 0 0, .alarm 60000, .hit patient 60000 60000]

theorem step_request {limiter : RateLimiter Unit} (clock : limiter.lastCleanup = 0)
    (size : Nat)
    (unused : limiter.checkKeyLimit.entries.get? (request size).key = none) :
    limiter.step noBucket (.hit (request size) 0 0) =
      ({ limiter.checkKeyLimit with
          entries := limiter.checkKeyLimit.entries.set (request size).key [0] },
        some ⟨⟨0, 60000, 1, true⟩, .slidingWindow, none⟩) := by
  have idle : limiter.maybeCleanup (request size).windowMs 0 = limiter := by
    rw [RateLimiter.maybeCleanup, clock, if_neg (by decide)]
  simp only [RateLimiter.step, RateLimiter.handleHit, idle,
    RateLimiter.timestamps, unused]
  rfl

theorem crowd_succ (count : Nat) :
    crowd (count + 1) = crowd count ++ [.hit (request count) 0 0] := by
  rw [crowd, List.range_succ, List.map_append, List.map_singleton, crowd]

theorem checkKeyLimit_of_few {limiter : RateLimiter Unit}
    (few : limiter.entries.entries.length < RateLimiter.maxKeys) :
    limiter.checkKeyLimit.entries = limiter.entries := by
  rw [RateLimiter.checkKeyLimit]
  exact if_pos few

theorem request_unused {entries : WindowEntries} {sizes : List Nat}
    (shape : entries.entries = sizes.map fun size => ((request size).key, [0]))
    {size : Nat} (unused : size ∉ sizes) :
    entries.get? (request size).key = none := by
  rw [OrderedMap.get?_eq_none_iff, OrderedMap.keys, shape, List.map_map]
  intro member
  obtain ⟨other, listed, same⟩ := List.mem_map.mp member
  have equal : other = size := by
    simpa [request] using congrArg List.length same
  exact unused (equal ▸ listed)

theorem crowd_entries (count : Nat) (bound : count ≤ RateLimiter.maxKeys) :
    (start.after noBucket (crowd count)).entries.entries =
        (List.range count).map (fun size => ((request size).key, [0])) ∧
      (start.after noBucket (crowd count)).lastCleanup = 0 ∧
      (0 < count → 0 ∈ allowedHits noBucket start [] (crowd count)) := by
  induction count with
  | zero => exact ⟨rfl, rfl, fun impossible => absurd impossible (by decide)⟩
  | succ count ih =>
      obtain ⟨shape, clock, first⟩ := ih (by omega)
      have few : (start.after noBucket (crowd count)).entries.entries.length <
          RateLimiter.maxKeys := by
        rw [shape, List.length_map, List.length_range]
        omega
      have unused := request_unused shape
        (List.not_mem_range_self : count ∉ List.range count)
      have kept := checkKeyLimit_of_few few
      have stepped := step_request clock count (by rw [kept]; exact unused)
      have stored : ((start.after noBucket (crowd (count + 1))).entries =
            (start.after noBucket (crowd count)).entries.set
              (request count).key [0]) ∧
          (start.after noBucket (crowd (count + 1))).lastCleanup = 0 := by
        rw [crowd_succ, after_append, RateLimiter.after, List.foldl_cons,
          List.foldl_nil, stepped]
        exact ⟨congrArg (fun entries : WindowEntries => entries.set _ [0]) kept,
          clock⟩
      refine ⟨?_, stored.2, fun _ => ?_⟩
      · rw [stored.1, OrderedMap.entries_set_of_fresh _
          (OrderedMap.get?_eq_none_iff.mp unused), shape, List.range_succ,
          List.map_append, List.map_singleton]
      · rw [crowd_succ, allowedHits_append]
        cases count with
        | zero => exact List.mem_cons_self
        | succ earlier =>
            exact List.mem_append_left _ (first (Nat.succ_pos earlier))

theorem hits_forgotten :
    ¬Limited noBucket start [] ⟨1, 60000⟩ crowded ∧
      ¬Limited noBucket start "p".toList ⟨1, 120000⟩ alarmed := by
  constructor
  · intro limited
    obtain ⟨shape, clock, first⟩ := crowd_entries RateLimiter.maxKeys
      (Nat.le_refl _)
    have size : (start.after noBucket
        (crowd RateLimiter.maxKeys)).entries.entries.length =
          RateLimiter.maxKeys := by
      rw [shape, List.length_map, List.length_range]
    have oldest : (request 0).key ∈
        evicted (start.after noBucket (crowd RateLimiter.maxKeys)) := by
      rw [evicted, if_neg (by omega), size, OrderedMap.keys, shape,
        List.map_map, ← List.map_take, List.take_range]
      exact List.mem_map.mpr ⟨0, List.mem_range.mpr (by decide), rfl⟩
    have gone : (start.after noBucket
        (crowd RateLimiter.maxKeys)).checkKeyLimit.entries.get?
          (request 0).key = none := by
      rw [evicted, if_neg (by omega)] at oldest
      rw [RateLimiter.checkKeyLimit, enforceKeyLimit, if_neg (by omega)]
      dsimp only
      rw [OrderedMap.get?_drop, if_pos oldest]
    have again : allowedHits noBucket
        (start.after noBucket (crowd RateLimiter.maxKeys)) []
          [.hit (request 0) 0 0] = [0] := by
      rw [allowedHits, RateLimiter.answers, step_request clock 0 gone]
      rfl
    have few := limited.atMost 0
    rw [crowded, allowedHits_append, again, List.filter_append,
      List.length_append] at few
    have before : (0 : Int) ∈ (allowedHits noBucket start []
        (crowd RateLimiter.maxKeys)).filter fun time =>
          decide (0 ≤ time ∧ time < 0 + 60000) :=
      List.mem_filter.mpr ⟨first (by decide), by decide⟩
    have one := List.length_pos_of_mem before
    have last : ([0].filter fun time : Int =>
      decide (0 ≤ time ∧ time < 0 + 60000)).length = 1 := rfl
    have bound : (1 : Int).toNat = 1 := rfl
    dsimp only at few
    omega
  · intro limited
    have few := limited.atMost 0
    revert few
    decide

end ForgottenHits

end Takos.DurableObjects
