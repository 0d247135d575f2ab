import Takos.Foundation.OrderedMap
import Takos.Foundation.Text
import Mathlib.Algebra.Order.Archimedean.Basic
import Mathlib.Algebra.Order.Field.Rat
import Mathlib.Data.Rat.Floor
import Mathlib.Tactic.Linarith
import Mathlib.Tactic.Ring

/-!
# The rate limiter object

Requests are serialised by the object, so each handler is one step.  A handler
reads the clock once for the periodic cleanup and once for its verdict.  The
token bucket calculates with fractions of tokens and is a parameter.
-/

namespace Takos.DurableObjects

open Takos.Foundation

structure SlidingWindowResult where
  remaining : Int
  reset : Int
  total : Int
  allowed : Bool

structure SlidingWindowConfig where
  maxRequests : Int
  windowMs : Int

/-- The updated timestamps and the verdict. -/
def hitSlidingWindow (timestamps : List Int) (config : SlidingWindowConfig)
    (now : Int) (dryRun : Bool) : List Int × SlidingWindowResult :=
  let windowStart := now - config.windowMs
  let validTimestamps := timestamps.filter fun time => windowStart < time
  let allowed := decide ((validTimestamps.length : Int) < config.maxRequests)
  let validTimestamps :=
    if allowed && !dryRun then validTimestamps ++ [now] else validTimestamps
  (validTimestamps,
    { remaining := max 0 (config.maxRequests - validTimestamps.length)
      reset := validTimestamps.head?.getD now + config.windowMs
      total := config.maxRequests
      allowed })

abbrev WindowEntries := OrderedMap Text (List Int)

def cleanupExpiredEntries (entries : WindowEntries) (windowMs now : Int) :
    WindowEntries :=
  let windowStart := now - windowMs
  entries.filterMap fun timestamps =>
    let valid := timestamps.filter fun time => windowStart < time
    if valid.length = 0 then none else some valid

def keyEvictionBuffer : Nat := 100

/-- How many of the oldest keys go, once the limit is reached. -/
def evictedKeys (size maxKeys : Nat) : Nat :=
  max 0 (min (size - maxKeys + keyEvictionBuffer) size)

def enforceKeyLimit {Value : Type} (entries : OrderedMap Text Value)
    (maxKeys : Nat) : OrderedMap Text Value :=
  if entries.entries.length < maxKeys then entries
  else entries.drop (evictedKeys entries.entries.length maxKeys)

inductive RateLimiterAlgorithm where
  | slidingWindow
  | tokenBucket
  | shadow
  deriving DecidableEq

structure RateLimitRequest where
  key : Text
  maxRequests : Int
  windowMs : Int
  algorithm : Option RateLimiterAlgorithm

namespace RateLimitRequest

def config (data : RateLimitRequest) : SlidingWindowConfig :=
  ⟨data.maxRequests, data.windowMs⟩

def chosen (data : RateLimitRequest) : RateLimiterAlgorithm :=
  data.algorithm.getD .slidingWindow

end RateLimitRequest

structure RateLimitResponse where
  result : SlidingWindowResult
  algorithm : RateLimiterAlgorithm
  shadow : Option SlidingWindowResult

structure RateLimiter (Bucket : Type) where
  entries : WindowEntries
  tokenBuckets : OrderedMap Text Bucket
  lastCleanup : Int

namespace RateLimiter

def cleanupIntervalMs : Int := 60000

def maxKeys : Nat := 10000

variable {Bucket : Type}

/-- An object with nothing in its storage. -/
def fresh (now : Int) : RateLimiter Bucket := ⟨.empty, .empty, now⟩

def timestamps (limiter : RateLimiter Bucket) (key : Text) : List Int :=
  (limiter.entries.get? key).getD []

def maybeCleanup (limiter : RateLimiter Bucket) (windowMs now : Int) :
    RateLimiter Bucket :=
  if now - limiter.lastCleanup > cleanupIntervalMs then
    { limiter with
      entries := cleanupExpiredEntries limiter.entries windowMs now
      lastCleanup := now }
  else limiter

def checkKeyLimit (limiter : RateLimiter Bucket) : RateLimiter Bucket :=
  { limiter with
    entries := enforceKeyLimit limiter.entries maxKeys
    tokenBuckets := enforceKeyLimit limiter.tokenBuckets maxKeys }

section Handlers

variable (hitTokenBucket : Option Bucket → SlidingWindowConfig → Int → Bool →
  Bucket × SlidingWindowResult)

def handleCheck (limiter : RateLimiter Bucket) (data : RateLimitRequest)
    (cleanupNow now : Int) : RateLimiter Bucket × RateLimitResponse :=
  let limiter := limiter.maybeCleanup data.windowMs cleanupNow
  let bucket := hitTokenBucket (limiter.tokenBuckets.get? data.key) data.config
    now true
  let sliding :=
    (hitSlidingWindow (limiter.timestamps data.key) data.config now true).2
  match data.chosen with
  | .tokenBucket =>
    ({ limiter with
        tokenBuckets := limiter.tokenBuckets.set data.key bucket.1
        entries := limiter.entries.delete data.key },
      ⟨bucket.2, .tokenBucket, none⟩)
  | .shadow =>
    ({ limiter with
        tokenBuckets := limiter.tokenBuckets.set data.key bucket.1 },
      ⟨sliding, .slidingWindow, some bucket.2⟩)
  | .slidingWindow => (limiter, ⟨sliding, .slidingWindow, none⟩)

def handleHit (limiter : RateLimiter Bucket) (data : RateLimitRequest)
    (cleanupNow now : Int) : RateLimiter Bucket × RateLimitResponse :=
  let limiter := (limiter.maybeCleanup data.windowMs cleanupNow).checkKeyLimit
  let bucket := hitTokenBucket (limiter.tokenBuckets.get? data.key) data.config
    now false
  let slidingOut :=
    hitSlidingWindow (limiter.timestamps data.key) data.config now false
  let entries :=
    if slidingOut.2.allowed then limiter.entries.set data.key slidingOut.1
    else limiter.entries
  match data.chosen with
  | .tokenBucket =>
    ({ limiter with
        tokenBuckets := limiter.tokenBuckets.set data.key bucket.1
        entries := limiter.entries.delete data.key },
      ⟨bucket.2, .tokenBucket, none⟩)
  | .shadow =>
    ({ limiter with
        entries
        tokenBuckets := limiter.tokenBuckets.set data.key bucket.1 },
      ⟨slidingOut.2, .slidingWindow, some bucket.2⟩)
  | .slidingWindow =>
    ({ limiter with entries }, ⟨slidingOut.2, .slidingWindow, none⟩)

end Handlers

def handleReset (limiter : RateLimiter Bucket) (key : Text) :
    RateLimiter Bucket :=
  { limiter with
    entries := limiter.entries.delete key
    tokenBuckets := limiter.tokenBuckets.delete key }

/-- The window of the alarm is fixed.  What the alarm stores and schedules is
not read again while the object lives. -/
def alarm (limiter : RateLimiter Bucket) (now : Int) : RateLimiter Bucket :=
  { limiter with entries := cleanupExpiredEntries limiter.entries 60000 now }

end RateLimiter

end Takos.DurableObjects

/-!
# Token buckets

A bucket holds up to its capacity of tokens, and a hit that is allowed takes
one.  The tokens that have come back since the last hit or check are added
first: the numbers are rational, and a window that is not a finite number
gives nothing back.
-/

namespace Takos.DurableObjects

structure TokenBucketState where
  tokens : ℚ
  lastRefillMs : ℚ

/-- The window is `none` where it is not a finite number. -/
structure TokenBucketConfig where
  maxRequests : ℚ
  windowMs : Option ℚ

structure TokenBucketResult where
  remaining : ℤ
  reset : Option ℚ
  total : ℤ
  allowed : Bool

namespace TokenBucketConfig

def getCapacity (config : TokenBucketConfig) : ℤ := max 0 ⌊config.maxRequests⌋

def getRatePerMs (config : TokenBucketConfig) : ℚ :=
  match config.windowMs with
  | none => 0
  | some windowMs =>
      if windowMs ≤ 0 then 0 else config.getCapacity / windowMs

theorem getCapacity_nonneg (config : TokenBucketConfig) :
    (0 : ℚ) ≤ config.getCapacity :=
  Int.cast_nonneg (le_max_left 0 _)

theorem getRatePerMs_nonneg (config : TokenBucketConfig) :
    0 ≤ config.getRatePerMs := by
  unfold getRatePerMs
  cases config.windowMs with
  | none => exact le_rfl
  | some windowMs =>
      by_cases empty : windowMs ≤ 0
      · exact (if_pos empty).ge
      · have positive : 0 ≤ windowMs := (not_le.mp empty).le
        exact (div_nonneg config.getCapacity_nonneg positive).trans
          (if_neg empty).ge

end TokenBucketConfig

def refill (state : Option TokenBucketState) (config : TokenBucketConfig)
    (now : ℚ) : TokenBucketState :=
  let capacity : ℚ := config.getCapacity
  let ratePerMs := config.getRatePerMs
  let lastRefillMs := (state.map (·.lastRefillMs)).getD now
  let tokens := (state.map (·.tokens)).getD capacity
  if config.getCapacity = 0 ∨ ratePerMs = 0 then ⟨0, now⟩
  else
    let deltaMs := max 0 (now - lastRefillMs)
    ⟨min capacity (tokens + deltaMs * ratePerMs), now⟩

def computeResetMs (tokens : ℚ) (config : TokenBucketConfig) (now : ℚ) :
    Option ℚ :=
  let capacity := config.getCapacity
  let ratePerMs := config.getRatePerMs
  if capacity = 0 ∨ ratePerMs = 0 then
    config.windowMs.map fun windowMs => now + max 0 windowMs
  else if tokens < 1 then
    some (now + max 0 ⌈(1 - tokens) / ratePerMs⌉)
  else some (now + max 0 ⌈(capacity - tokens) / ratePerMs⌉)

def hitTokenBucket (state : Option TokenBucketState)
    (config : TokenBucketConfig) (now : ℚ) (dryRun : Bool) :
    TokenBucketState × TokenBucketResult :=
  let next := refill state config now
  let capacity := config.getCapacity
  let allowed := decide (0 < capacity ∧ 1 ≤ next.tokens)
  let next :=
    if allowed && !dryRun then { next with tokens := max 0 (next.tokens - 1) }
    else next
  (next,
    { remaining := max 0 ⌊next.tokens⌋
      reset := computeResetMs next.tokens config now
      total := capacity
      allowed })

def Within (config : TokenBucketConfig) (state : TokenBucketState) : Prop :=
  0 ≤ state.tokens ∧ state.tokens ≤ config.getCapacity

section Step

variable {config : TokenBucketConfig} {state : Option TokenBucketState}
  {now : ℚ}

theorem refill_lastRefillMs (state : Option TokenBucketState)
    (config : TokenBucketConfig) (now : ℚ) :
    (refill state config now).lastRefillMs = now := by
  unfold refill
  by_cases idle : config.getCapacity = 0 ∨ config.getRatePerMs = 0
  · simp only [if_pos idle]
  · simp only [if_neg idle]

theorem refill_within (within : ∀ known ∈ state, Within config known) :
    Within config (refill state config now) := by
  have capacity := config.getCapacity_nonneg
  unfold refill
  by_cases idle : config.getCapacity = 0 ∨ config.getRatePerMs = 0
  · simp only [if_pos idle]
    exact ⟨le_rfl, capacity⟩
  · simp only [if_neg idle]
    constructor
    · apply le_min capacity
      have held : 0 ≤
          (state.map (·.tokens)).getD (config.getCapacity : ℚ) := by
        cases state with
        | none => exact capacity
        | some known => exact (within known rfl).1
      have back := mul_nonneg
        (le_max_left 0 (now - (state.map (·.lastRefillMs)).getD now))
        config.getRatePerMs_nonneg
      exact add_nonneg held back
    · exact min_le_left _ _

theorem refill_tokens_le {known : TokenBucketState}
    (within : Within config known) (forward : known.lastRefillMs ≤ now) :
    (refill (some known) config now).tokens ≤
      known.tokens + config.getRatePerMs * (now - known.lastRefillMs) := by
  have passed : 0 ≤ now - known.lastRefillMs := sub_nonneg.mpr forward
  unfold refill
  by_cases idle : config.getCapacity = 0 ∨ config.getRatePerMs = 0
  · simp only [if_pos idle]
    exact add_nonneg within.1 (mul_nonneg config.getRatePerMs_nonneg passed)
  · simp only [if_neg idle, Option.map_some, Option.getD_some,
      max_eq_right passed]
    rw [mul_comm config.getRatePerMs]
    exact min_le_right _ _

theorem hit_tokens (state : Option TokenBucketState)
    (config : TokenBucketConfig) (now : ℚ) :
    (hitTokenBucket state config now false).1.tokens +
        ((hitTokenBucket state config now false).2.allowed.toNat : ℚ) =
      (refill state config now).tokens := by
  unfold hitTokenBucket
  by_cases allowed : 0 < config.getCapacity ∧
      1 ≤ (refill state config now).tokens
  · have enough : 0 ≤ (refill state config now).tokens - 1 :=
      sub_nonneg.mpr allowed.2
    simp only [decide_eq_true allowed, Bool.not_false, Bool.and_self,
      if_true, max_eq_right enough, Bool.toNat_true, Nat.cast_one]
    ring
  · simp only [decide_eq_false allowed, Bool.false_and, Bool.false_eq_true,
      if_false, Bool.toNat_false, Nat.cast_zero, add_zero]

theorem check_state (state : Option TokenBucketState)
    (config : TokenBucketConfig) (now : ℚ) :
    (hitTokenBucket state config now true).1 = refill state config now := by
  unfold hitTokenBucket
  simp only [Bool.not_true, Bool.and_false, Bool.false_eq_true, if_false]

theorem hit_lastRefillMs (state : Option TokenBucketState)
    (config : TokenBucketConfig) (now : ℚ) (dryRun : Bool) :
    (hitTokenBucket state config now dryRun).1.lastRefillMs = now := by
  have refilled := refill_lastRefillMs state config now
  unfold hitTokenBucket
  by_cases taken : (decide (0 < config.getCapacity ∧
      1 ≤ (refill state config now).tokens) && !dryRun) = true
  · simp only [if_pos taken]
    exact refilled
  · simp only [if_neg taken]
    exact refilled

theorem hit_within (within : ∀ known ∈ state, Within config known)
    (dryRun : Bool) :
    Within config (hitTokenBucket state config now dryRun).1 := by
  have refilled : Within config (refill state config now) :=
    refill_within within
  unfold hitTokenBucket
  by_cases taken : (decide (0 < config.getCapacity ∧
      1 ≤ (refill state config now).tokens) && !dryRun) = true
  · simp only [if_pos taken]
    constructor
    · exact le_max_left _ _
    · apply max_le config.getCapacity_nonneg
      exact (sub_le_self _ zero_le_one).trans refilled.2
  · simp only [if_neg taken]
    exact refilled

end Step

/-- A hit, or a check of the verdict that takes no token. -/
structure BucketEvent where
  now : ℚ
  dryRun : Bool

namespace BucketEvent

def state (config : TokenBucketConfig) (bucket : Option TokenBucketState)
    (event : BucketEvent) : TokenBucketState :=
  (hitTokenBucket bucket config event.now event.dryRun).1

def takes (config : TokenBucketConfig) (bucket : Option TokenBucketState)
    (event : BucketEvent) : Bool :=
  !event.dryRun && (hitTokenBucket bucket config event.now false).2.allowed

end BucketEvent

def afterEvents (config : TokenBucketConfig)
    (bucket : Option TokenBucketState) (events : List BucketEvent) :
    Option TokenBucketState :=
  events.foldl (fun bucket event => some (event.state config bucket)) bucket

def hitsAllowed (config : TokenBucketConfig) :
    Option TokenBucketState → List BucketEvent → Nat
  | _, [] => 0
  | bucket, event :: events =>
      (event.takes config bucket).toNat +
        hitsAllowed config (some (event.state config bucket)) events

def earliest : List BucketEvent → ℚ
  | [] => 0
  | event :: events => (events.map (·.now)).foldr min event.now

def latest : List BucketEvent → ℚ
  | [] => 0
  | event :: events => (events.map (·.now)).foldr max event.now

/-- Each event comes at the time of the one before it or later. -/
def TimesAdvance (events : List BucketEvent) : Prop :=
  events.Pairwise fun before after => before.now ≤ after.now

section Runs

variable {config : TokenBucketConfig} {bucket : Option TokenBucketState}

theorem event_within (within : ∀ known ∈ bucket, Within config known)
    (event : BucketEvent) : Within config (event.state config bucket) :=
  hit_within within event.dryRun

theorem after_within {events : List BucketEvent}
    (within : ∀ known ∈ bucket, Within config known) :
    ∀ known ∈ afterEvents config bucket events, Within config known := by
  induction events generalizing bucket with
  | nil => exact within
  | cons event events induction =>
      apply induction
      intro known same
      cases same
      exact event_within within event

/-- An event leaves what the bucket has after its refill, less the token that
it takes. -/
theorem event_tokens (config : TokenBucketConfig)
    (bucket : Option TokenBucketState) (event : BucketEvent) :
    (event.state config bucket).tokens +
        ((event.takes config bucket).toNat : ℚ) =
      (refill bucket config event.now).tokens := by
  obtain ⟨now, dryRun⟩ := event
  cases dryRun with
  | false => exact hit_tokens bucket config now
  | true =>
      have unchanged := congrArg TokenBucketState.tokens
        (check_state bucket config now)
      simpa only [BucketEvent.state, BucketEvent.takes, Bool.not_true,
        Bool.false_and, Bool.toNat_false, Nat.cast_zero, add_zero]
        using unchanged

theorem hitsAllowed_le {known : TokenBucketState} {events : List BucketEvent}
    {last : ℚ} (within : Within config known)
    (advance : TimesAdvance events)
    (started : ∀ event ∈ events, known.lastRefillMs ≤ event.now)
    (ended : ∀ event ∈ events, event.now ≤ last)
    (room : known.lastRefillMs ≤ last) :
    (hitsAllowed config (some known) events : ℚ) ≤
      known.tokens + config.getRatePerMs * (last - known.lastRefillMs) := by
  induction events generalizing known with
  | nil =>
      have back := mul_nonneg config.getRatePerMs_nonneg
        (sub_nonneg.mpr room)
      exact (Nat.cast_zero).le.trans (add_nonneg within.1 back)
  | cons event events induction =>
      obtain ⟨later, advance⟩ := List.pairwise_cons.mp advance
      have forward := started event List.mem_cons_self
      have inside := ended event List.mem_cons_self
      have state : Within config (event.state config (some known)) :=
        event_within (by rintro other ⟨⟩; exact within) event
      have refilled : (event.state config (some known)).lastRefillMs =
          event.now := hit_lastRefillMs _ _ _ _
      have rest := induction state advance
        (by rw [refilled]; exact later)
        (fun other member => ended other (List.mem_cons_of_mem _ member))
        (by rw [refilled]; exact inside)
      rw [refilled] at rest
      have taken := event_tokens config (some known) event
      have back := refill_tokens_le within forward
      have split : config.getRatePerMs * (last - known.lastRefillMs) =
          config.getRatePerMs * (event.now - known.lastRefillMs) +
            config.getRatePerMs * (last - event.now) := by ring
      rw [hitsAllowed, Nat.cast_add]
      linarith only [rest, taken, back, split]

theorem foldr_min_eq {first : ℚ} {times : List ℚ}
    (least : ∀ time ∈ times, first ≤ time) : times.foldr min first = first := by
  induction times with
  | nil => rfl
  | cons time times induction =>
      have rest := induction fun other member =>
        least other (List.mem_cons_of_mem _ member)
      rw [List.foldr_cons, rest]
      exact min_eq_right (least time List.mem_cons_self)

theorem le_foldr_max (first : ℚ) (times : List ℚ) :
    first ≤ times.foldr max first ∧
      ∀ time ∈ times, time ≤ times.foldr max first := by
  induction times with
  | nil => exact ⟨le_rfl, fun _ member => absurd member List.not_mem_nil⟩
  | cons time times induction =>
      obtain ⟨start, rest⟩ := induction
      refine ⟨start.trans (le_max_right _ _), ?_⟩
      intro other member
      rcases List.mem_cons.mp member with here | later
      · rw [here]
        exact le_max_left _ _
      · exact (rest other later).trans (le_max_right _ _)

/-- The bound on the hits that a bucket allows in a row. -/
def AllowsInRow (config : TokenBucketConfig)
    (bucket : Option TokenBucketState) (events : List BucketEvent) : Prop :=
  (hitsAllowed config bucket events : ℚ) ≤
    config.getCapacity +
      config.getRatePerMs * (latest events - earliest events)

theorem allowsInRow {events : List BucketEvent}
    (within : ∀ known ∈ bucket, Within config known)
    (advance : TimesAdvance events) : AllowsInRow config bucket events := by
  unfold AllowsInRow
  cases events with
  | nil =>
      have none : latest [] - earliest [] = 0 := sub_self _
      rw [none, mul_zero, add_zero, hitsAllowed, Nat.cast_zero]
      exact config.getCapacity_nonneg
  | cons event events =>
      obtain ⟨later, advance⟩ := List.pairwise_cons.mp advance
      have first : earliest (event :: events) = event.now := by
        apply foldr_min_eq
        intro time member
        obtain ⟨other, present, same⟩ := List.mem_map.mp member
        rw [← same]
        exact later other present
      obtain ⟨start, ends⟩ := le_foldr_max event.now (events.map (·.now))
      have state := event_within within event
      have refilled : (event.state config bucket).lastRefillMs = event.now :=
        hit_lastRefillMs _ _ _ _
      have rest := hitsAllowed_le state advance
        (by rw [refilled]; exact later)
        (fun other member => ends other.now (List.mem_map_of_mem member))
        (by rw [refilled]; exact start)
      rw [refilled] at rest
      have full : (refill bucket config event.now).tokens ≤
          config.getCapacity := (refill_within within).2
      have taken := event_tokens config bucket event
      rw [hitsAllowed, Nat.cast_add, first]
      unfold latest
      linarith only [rest, full, taken]

end Runs

/-- What a run keeps: the tokens that are there, and the bound on every hits
in a row. -/
structure BucketHolds (config : TokenBucketConfig)
    (events : List BucketEvent) : Prop where
  tokens : ∀ known ∈ afterEvents config none events, Within config known
  inRow : ∀ front row back, events = front ++ row ++ back →
    AllowsInRow config (afterEvents config none front) row

/-- While no event comes before an earlier one, a bucket that starts full
allows no more than it holds and gets back. -/
theorem bucket_holds (config : TokenBucketConfig) (events : List BucketEvent)
    (advance : TimesAdvance events) : BucketHolds config events := by
  have started : ∀ known ∈ (none : Option TokenBucketState),
      Within config known := by
    intro known absent
    cases absent
  constructor
  · exact after_within started
  · intro front row back split
    rw [split] at advance
    have inRow : TimesAdvance row :=
      (List.pairwise_append.mp (List.pairwise_append.mp advance).1).2.1
    exact allowsInRow (after_within started) inRow

namespace OneToken

def config : TokenBucketConfig := ⟨1, some 10⟩

def hits (times : List ℚ) : List BucketEvent := times.map fun now => ⟨now, false⟩

theorem steady_holds : BucketHolds config (hits [0, 5, 10]) :=
  bucket_holds config _ (by unfold TimesAdvance hits; decide +kernel)

/-- A clock that goes back and forth gives the same ten milliseconds twice. -/
theorem credited_twice :
    ¬ BucketHolds config (hits [10, 0, 10, 0, 10]) := by
  intro holds
  have bound := holds.inRow [] (hits [10, 0, 10, 0, 10]) [] rfl
  have allowed : hitsAllowed config none (hits [10, 0, 10, 0, 10]) = 3 := by
    decide +kernel
  have room : (config.getCapacity : ℚ) + config.getRatePerMs *
      (latest (hits [10, 0, 10, 0, 10]) -
        earliest (hits [10, 0, 10, 0, 10])) = 2 := by
    decide +kernel
  unfold AllowsInRow at bound
  rw [show afterEvents config none [] = none from rfl, allowed, room] at bound
  exact absurd bound (by norm_num)

end OneToken

end Takos.DurableObjects
