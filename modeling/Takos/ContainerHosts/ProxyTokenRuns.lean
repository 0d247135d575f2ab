import Takos.ContainerHosts.ProxyTokens
import Mathlib.Tactic.IntervalCases

/-!
# Runs of the container pool

No container holds more tokens than its tier allows.  A request for a lease
takes no unexpired token from a higher lease of the run, and a token that a
newer lease has replaced is never accepted again.
-/

namespace Takos.ContainerHosts

open Takos.Foundation

variable {Version : Type}

section Removals

theorem get?_removeTokens (removed : ProxyTokenInfo Version → Bool)
    (tokens : TokenMap Version) (token : Text) :
    (removeTokens removed tokens).1.get? token =
      (tokens.get? token).filter fun info => !removed info := by
  rw [removeTokens, OrderedMap.get?_filterMap]
  cases tokens.get? token with
  | none => rfl
  | some info =>
      rw [Option.bind_some, Option.filter_some]
      cases removed info <;> rfl

variable {tokens : TokenMap Version}

theorem mem_keys_iff_get? {token : Text} :
    token ∈ tokens.keys ↔ ∃ info, tokens.get? token = some info := by
  rw [OrderedMap.mem_keys_iff]
  exact exists_congr fun _ => OrderedMap.get?_eq_some_iff.symm

theorem keys_removeTokens (removed : ProxyTokenInfo Version → Bool)
    (tokens : TokenMap Version) :
    (removeTokens removed tokens).1.keys ⊆ tokens.keys := by
  intro token member
  obtain ⟨info, found⟩ := mem_keys_iff_get?.mp member
  rw [get?_removeTokens, Option.filter_eq_some_iff] at found
  exact mem_keys_iff_get?.mpr ⟨info, found.1⟩

theorem keys_set_of_mem {token : Text} {info : ProxyTokenInfo Version}
    (held : tokens.get? token = some info) (other : ProxyTokenInfo Version) :
    (tokens.set token other).keys = tokens.keys := by
  rw [OrderedMap.keys_set, if_pos (mem_keys_iff_get?.mpr ⟨info, held⟩)]

theorem removeTokens_none {removed : ProxyTokenInfo Version → Bool}
    (none : ¬ 0 < (removeTokens removed tokens).2) :
    (removeTokens removed tokens).1 = tokens := by
  have kept : ∀ entry ∈ tokens.entries, ¬ removed entry.2 = true :=
    List.countP_eq_zero.mp (Nat.eq_zero_of_not_pos none)
  apply OrderedMap.ext
  have same : ∀ entries : List (Text × ProxyTokenInfo Version),
      (∀ entry ∈ entries, ¬ removed entry.2 = true) →
      (entries.filterMap fun entry =>
        (if removed entry.2 then Option.none else some entry.2).map
          fun info => (entry.1, info)) = entries := by
    intro entries untouched
    induction entries with
    | nil => rfl
    | cons entry rest induction =>
        rw [List.filterMap_cons, if_neg (untouched entry List.mem_cons_self)]
        rw [Option.map_some]
        exact congrArg _ (induction fun other member =>
          untouched other (List.mem_cons_of_mem _ member))
  exact same tokens.entries kept

end Removals

namespace ExecutorContainer

variable {container : ExecutorContainer Version}

@[simp] theorem loadTokenMap_persisted (tokens : TokenMap Version) :
    (persistTokenMap tokens).loadTokenMap = tokens := rfl

@[simp] theorem loadTokenMap_evicted :
    container.evicted.loadTokenMap = container.loadTokenMap := by
  unfold loadTokenMap
  cases cached : container.cachedTokens with
  | none => rfl
  | some tokens => exact container.synced tokens cached

@[simp] theorem loadTokenMap_persistRemoval
    (removed : ProxyTokenInfo Version → Bool) :
    (container.persistRemoval
      (removeTokens removed container.loadTokenMap)).loadTokenMap =
      (removeTokens removed container.loadTokenMap).1 := by
  unfold persistRemoval
  split
  · rfl
  · rename_i none
    exact (removeTokens_none none).symm

theorem loadTokenMap_pruned (now : Int) :
    (container.pruneStaleTokens now).loadTokenMap =
      (removeTokens (isStale now) container.loadTokenMap).1 :=
  loadTokenMap_persistRemoval _

theorem loadTokenMap_superseded [LinearOrder Version] (lease : RunLease Version) :
    (container.revokeSupersededProxyTokens lease).loadTokenMap =
      (removeTokens (isSuperseded lease) container.loadTokenMap).1 :=
  loadTokenMap_persistRemoval _

theorem reserve_cases (env : ExecutorEnv) (tier : ExecutorTier)
    (container : ExecutorContainer Version) (now : Int) (token : Text)
    (lease : RunLease Version) (executorContainerId : Text) :
    (container.reserve env tier now token lease
        executorContainerId).1.loadTokenMap =
      (removeTokens (isStale now) container.loadTokenMap).1 ∨
    ∃ info,
      (removeTokens (isStale now) container.loadTokenMap).1.keys.length <
        resolveExecutorTierCapacity env tier ∧
      (container.reserve env tier now token lease
          executorContainerId).1.loadTokenMap =
        (removeTokens (isStale now) container.loadTokenMap).1.set token
          info := by
  unfold reserve
  simp only
  split
  · exact .inl (loadTokenMap_pruned now)
  · rename_i room
    right
    rw [loadTokenMap_pruned] at room ⊢
    refine ⟨_, ?_, loadTokenMap_persisted _⟩
    rw [OrderedMap.keys, List.length_map]
    exact not_le.mp room

theorem keys_upgrade [DecidableEq Version] (token : Text) (expected : RunLease Version)
    (version : Nat) :
    (container.upgrade token expected version).loadTokenMap.keys =
      container.loadTokenMap.keys := by
  unfold upgrade upgradeProxyTokenRuntimeProtocol
  cases held : container.loadTokenMap.get? token with
  | none => rfl
  | some info =>
      simp only
      split
      · rfl
      · rename_i tokens upgraded
        split at upgraded
        · cases upgraded
        · cases upgraded
          exact keys_set_of_mem held _

theorem keys_touch (now : Int) (token : Text) :
    (container.touchProxyToken now token).loadTokenMap.keys ⊆
      container.loadTokenMap.keys := by
  unfold touchProxyToken
  cases held : container.loadTokenMap.get? token with
  | none => exact List.Subset.refl _
  | some info =>
      refine List.Subset.trans (keys_removeTokens _ _) ?_
      rw [keys_set_of_mem held]
      exact List.Subset.refl _

theorem keys_revoke (token : Text) :
    (container.revokeProxyToken token).loadTokenMap.keys ⊆
      container.loadTokenMap.keys := by
  unfold revokeProxyToken
  split
  · rw [loadTokenMap_persisted, OrderedMap.keys_delete]
    exact List.filter_subset_self _
  · exact List.Subset.refl _

end ExecutorContainer

namespace ExecutorPool

variable {constantTimeEqualsString : Text → Text → Bool}
variable {draw : Nat → Text} {env : ExecutorEnv}
variable {pool : ExecutorPool Version}

/-- What a request does to the tokens of a container: it adds none, or the one
token of a dispatch. -/
inductive TokensChange (draw : Nat → Text) (env : ExecutorEnv)
    (pool after : ExecutorPool Version) (address : ContainerAddress) : Prop where
  | removed (drawn : pool.drawn ≤ after.drawn)
      (kept : ∀ place, (after.tokens place).keys ⊆ (pool.tokens place).keys)
  | issued (drawn : after.drawn = pool.drawn + 1)
      (elsewhere : ∀ place, place ≠ address →
        after.tokens place = pool.tokens place)
      (left : TokenMap Version) (info : ProxyTokenInfo Version)
      (kept : left.keys ⊆ (pool.tokens address).keys)
      (room : left.keys.length < resolveExecutorTierCapacity env address.tier)
      (added : after.tokens address = left.set (draw pool.drawn) info)

theorem tokens_update (address place : ContainerAddress)
    (container : ExecutorContainer Version) :
    (pool.update address container).tokens place =
      if place = address then container.loadTokenMap
      else pool.tokens place := by
  have changed := Function.update_apply pool.containers address container place
  change (Function.update pool.containers address container
    place).loadTokenMap = _
  rw [changed]
  split <;> rfl

theorem keys_subset_update {address : ContainerAddress}
    {container : ExecutorContainer Version}
    (kept : container.loadTokenMap.keys ⊆
      (pool.containers address).loadTokenMap.keys)
    (place : ContainerAddress) :
    ((pool.update address container).tokens place).keys ⊆
      (pool.tokens place).keys := by
  rw [tokens_update]
  split
  · rename_i same
    rw [same]
    exact kept
  · exact List.Subset.refl _

theorem removed_of_keys {address : ContainerAddress}
    {container : ExecutorContainer Version}
    (kept : container.loadTokenMap.keys ⊆
      (pool.containers address).loadTokenMap.keys) :
    TokensChange draw env pool (pool.update address container) address :=
  .removed (Nat.le_refl pool.drawn) (keys_subset_update kept)

theorem dispatchStart_change (address : ContainerAddress) (now : Int)
    (body : AgentExecutorDispatchPayload Version) :
    TokensChange draw env pool (pool.dispatchStart draw env address now body)
      address := by
  unfold dispatchStart
  cases resolveAgentExecutorServiceId body with
  | none =>
      exact .removed (Nat.le_refl pool.drawn) fun _ => List.Subset.refl _
  | some serviceId =>
      rcases ExecutorContainer.reserve_cases env address.tier
        (pool.containers address) now (draw pool.drawn)
        ⟨body.runId, serviceId, body.leaseVersion⟩
        (getContainerId address.tier body) with
        left | ⟨info, room, added⟩
      · refine .removed (Nat.le_succ pool.drawn) ?_
        apply keys_subset_update
        rw [left]
        exact keys_removeTokens _ _
      · refine .issued rfl ?_ _ info (keys_removeTokens _ _) room ?_
        · intro place other
          exact (tokens_update address place _).trans (if_neg other)
        · exact ((tokens_update address address _).trans
            (if_pos rfl)).trans added

variable [LinearOrder Version]

theorem step_change (constantTimeEqualsString : Text → Text → Bool)
    (draw : Nat → Text) (env : ExecutorEnv) (pool : ExecutorPool Version)
    (address : ContainerAddress)
    (request : ContainerRequest Version) :
    TokensChange draw env pool
      (pool.step constantTimeEqualsString draw env address request)
      address := by
  cases request with
  | getLoad now =>
      apply removed_of_keys
      rw [ExecutorContainer.getLoad, ExecutorContainer.loadTokenMap_pruned]
      exact keys_removeTokens _ _
  | dispatchStart now body => exact dispatchStart_change address now body
  | upgrade token expected version =>
      apply removed_of_keys
      rw [ExecutorContainer.keys_upgrade]
      exact List.Subset.refl _
  | verifyProxyToken now token =>
      apply removed_of_keys
      rw [ExecutorContainer.verifyProxyToken,
        ExecutorContainer.loadTokenMap_pruned]
      exact keys_removeTokens _ _
  | touchProxyToken now token =>
      exact removed_of_keys (ExecutorContainer.keys_touch now token)
  | revokeProxyToken token =>
      exact removed_of_keys (ExecutorContainer.keys_revoke token)
  | revokeProxyTokensForRun runId =>
      apply removed_of_keys
      rw [ExecutorContainer.revokeProxyTokensForRun, removeProxyTokensForRun,
        ExecutorContainer.loadTokenMap_persistRemoval]
      exact keys_removeTokens _ _
  | revokeProxyTokensForLease lease =>
      apply removed_of_keys
      rw [ExecutorContainer.revokeProxyTokensForLease,
        removeProxyTokensForLease,
        ExecutorContainer.loadTokenMap_persistRemoval]
      exact keys_removeTokens _ _
  | revokeSupersededProxyTokens lease =>
      apply removed_of_keys
      rw [ExecutorContainer.loadTokenMap_superseded]
      exact keys_removeTokens _ _
  | revokeProxyTokens => exact removed_of_keys (List.nil_subset _)
  | eviction =>
      apply removed_of_keys
      rw [ExecutorContainer.loadTokenMap_evicted]
      exact List.Subset.refl _

theorem drawn_le_step (address : ContainerAddress)
    (request : ContainerRequest Version) :
    pool.drawn ≤
      (pool.step constantTimeEqualsString draw env address request).drawn := by
  cases step_change constantTimeEqualsString draw env pool address request with
  | removed drawn _ => exact drawn
  | issued drawn _ _ _ _ _ _ =>
      rw [drawn]
      exact Nat.le_succ _

end ExecutorPool

abbrev PoolEvent (Version : Type) :=
  ContainerAddress × ContainerRequest Version

section Runs

variable [LinearOrder Version]
variable (constantTimeEqualsString : Text → Text → Bool)
variable (draw : Nat → Text) (env : ExecutorEnv)

def ExecutorPool.run (pool : ExecutorPool Version)
    (events : List (PoolEvent Version)) : ExecutorPool Version :=
  events.foldl (fun reached event =>
    reached.step constantTimeEqualsString draw env event.1 event.2) pool

/-- The pool after the requests of a run. -/
def poolAfter (events : List (PoolEvent Version)) : ExecutorPool Version :=
  ExecutorPool.initial.run constantTimeEqualsString draw env events

/-- The tokens that were generated are different. -/
def DistinctTokens (pool : ExecutorPool Version) : Prop :=
  Set.InjOn draw (Set.Iio pool.drawn)

variable {constantTimeEqualsString draw env}
variable {pool : ExecutorPool Version}

theorem run_append (events later : List (PoolEvent Version)) :
    poolAfter constantTimeEqualsString draw env (events ++ later) =
      (poolAfter constantTimeEqualsString draw env events).run
        constantTimeEqualsString draw env later :=
  List.foldl_append

theorem drawn_le_run (events : List (PoolEvent Version)) :
    pool.drawn ≤
      (pool.run constantTimeEqualsString draw env events).drawn := by
  induction events generalizing pool with
  | nil => exact Nat.le_refl _
  | cons event rest induction =>
      exact (pool.drawn_le_step event.1 event.2).trans induction

theorem DistinctTokens.before {events : List (PoolEvent Version)}
    (distinct : DistinctTokens draw
      (pool.run constantTimeEqualsString draw env events)) :
    DistinctTokens draw pool :=
  distinct.mono (Set.Iio_subset_Iio (drawn_le_run events))

theorem room_step (address : ContainerAddress)
    (request : ContainerRequest Version)
    (room : ∀ place, (pool.tokens place).keys.length ≤
      resolveExecutorTierCapacity env place.tier) (place : ContainerAddress) :
    ((pool.step constantTimeEqualsString draw env address request).tokens
      place).keys.length ≤ resolveExecutorTierCapacity env place.tier := by
  cases pool.step_change constantTimeEqualsString draw env address request with
  | removed _ kept =>
      have nodup := ((pool.step constantTimeEqualsString draw env address
        request).tokens place).nodup
      exact (List.subperm_of_subset nodup (kept place)).length_le.trans
        (room place)
  | issued _ elsewhere left info _ free added =>
      by_cases here : place = address
      · rw [here, added, OrderedMap.keys_set]
        split
        · exact Nat.le_of_lt free
        · rw [List.length_append]
          exact free
      · rw [elsewhere place here]
        exact room place

theorem room_run (events : List (PoolEvent Version))
    (room : ∀ place, (pool.tokens place).keys.length ≤
      resolveExecutorTierCapacity env place.tier) (place : ContainerAddress) :
    ((pool.run constantTimeEqualsString draw env events).tokens
      place).keys.length ≤ resolveExecutorTierCapacity env place.tier := by
  induction events generalizing pool with
  | nil => exact room place
  | cons event rest induction => exact induction (room_step event.1 event.2 room)

/-- Each token was generated, and is held by one container. -/
structure IssuedOnce (draw : Nat → Text) (pool : ExecutorPool Version) :
    Prop where
  drawn : ∀ place, ∀ token ∈ (pool.tokens place).keys,
    ∃ number < pool.drawn, draw number = token
  apart : ∀ place other token, token ∈ (pool.tokens place).keys →
    token ∈ (pool.tokens other).keys → place = other

/-- A token that was generated and that no container holds. -/
structure Gone (draw : Nat → Text) (pool : ExecutorPool Version)
    (token : Text) : Prop where
  drawn : ∃ number < pool.drawn, draw number = token
  absent : ∀ place, token ∉ (pool.tokens place).keys

variable {token : Text}

omit [LinearOrder Version] in
theorem fresh_of_distinct {after : ExecutorPool Version}
    (next : after.drawn = pool.drawn + 1)
    (distinct : DistinctTokens draw after)
    (drawn : ∃ number < pool.drawn, draw number = token) :
    token ≠ draw pool.drawn := by
  intro same
  obtain ⟨number, earlier, generated⟩ := drawn
  have equal := distinct (Set.mem_Iio.mpr (by omega))
    (Set.mem_Iio.mpr (by omega)) (generated.trans same)
  omega

theorem IssuedOnce.step {address : ContainerAddress}
    {request : ContainerRequest Version} (once : IssuedOnce draw pool)
    (distinct : DistinctTokens draw
      (pool.step constantTimeEqualsString draw env address request)) :
    IssuedOnce draw
      (pool.step constantTimeEqualsString draw env address request) := by
  cases pool.step_change constantTimeEqualsString draw env address request with
  | removed drawn kept =>
      constructor
      · intro place token member
        obtain ⟨number, earlier, generated⟩ :=
          once.drawn place token (kept place member)
        exact ⟨number, earlier.trans_le drawn, generated⟩
      · intro place other token here there
        exact once.apart place other token (kept place here) (kept other there)
  | issued next elsewhere left info kept _ added =>
      have cases : ∀ place token,
          token ∈ ((pool.step constantTimeEqualsString draw env address
            request).tokens place).keys →
          (place = address ∧ token = draw pool.drawn) ∨
            token ∈ (pool.tokens place).keys := by
        intro place token member
        by_cases here : place = address
        · rw [here, added] at member
          rcases OrderedMap.mem_keys_set.mp member with new | old
          · exact .inl ⟨here, new⟩
          · right
            rw [here]
            exact kept old
        · rw [elsewhere place here] at member
          exact .inr member
      constructor
      · intro place token member
        rcases cases place token member with ⟨_, new⟩ | old
        · exact ⟨pool.drawn, by omega, new.symm⟩
        · obtain ⟨number, earlier, generated⟩ := once.drawn place token old
          exact ⟨number, by omega, generated⟩
      · intro place other token here there
        rcases cases place token here with ⟨first, new⟩ | old
        · rcases cases other token there with ⟨second, _⟩ | old
          · rw [first, second]
          · exact absurd new
              (fresh_of_distinct next distinct (once.drawn other token old))
        · rcases cases other token there with ⟨_, new⟩ | held
          · exact absurd new
              (fresh_of_distinct next distinct (once.drawn place token old))
          · exact once.apart place other token old held

theorem IssuedOnce.run {events : List (PoolEvent Version)}
    (once : IssuedOnce draw pool)
    (distinct : DistinctTokens draw
      (pool.run constantTimeEqualsString draw env events)) :
    IssuedOnce draw
      (pool.run constantTimeEqualsString draw env events) := by
  induction events generalizing pool with
  | nil => exact once
  | cons event rest induction =>
      have first : DistinctTokens draw (pool.step constantTimeEqualsString draw
          env event.1 event.2) := DistinctTokens.before distinct
      exact induction (once.step first) distinct

theorem Gone.step {address : ContainerAddress}
    {request : ContainerRequest Version} {token : Text}
    (gone : Gone draw pool token)
    (distinct : DistinctTokens draw
      (pool.step constantTimeEqualsString draw env address request)) :
    Gone draw (pool.step constantTimeEqualsString draw env address request)
      token := by
  obtain ⟨number, earlier, generated⟩ := gone.drawn
  cases pool.step_change constantTimeEqualsString draw env address request with
  | removed drawn kept =>
      refine ⟨⟨number, earlier.trans_le drawn, generated⟩, ?_⟩
      exact fun place member => gone.absent place (kept place member)
  | issued next elsewhere left info kept _ added =>
      refine ⟨⟨number, by omega, generated⟩, ?_⟩
      intro place member
      by_cases here : place = address
      · rw [here, added] at member
        rcases OrderedMap.mem_keys_set.mp member with new | old
        · exact fresh_of_distinct next distinct gone.drawn new
        · exact gone.absent address (kept old)
      · rw [elsewhere place here] at member
        exact gone.absent place member

theorem Gone.run {events : List (PoolEvent Version)} {token : Text}
    (gone : Gone draw pool token)
    (distinct : DistinctTokens draw
      (pool.run constantTimeEqualsString draw env events)) :
    Gone draw (pool.run constantTimeEqualsString draw env events) token := by
  induction events generalizing pool with
  | nil => exact gone
  | cons event rest induction =>
      have first : DistinctTokens draw (pool.step constantTimeEqualsString draw
          env event.1 event.2) := DistinctTokens.before distinct
      exact induction (gone.step first) distinct

omit [LinearOrder Version] in
theorem Gone.rejected (gone : Gone draw pool token)
    (compares : ∀ left right,
      constantTimeEqualsString left right = true → left = right)
    (place : ContainerAddress) (now : Int) :
    ((pool.containers place).verifyProxyToken constantTimeEqualsString now
      token).2 = none := by
  unfold ExecutorContainer.verifyProxyToken
  simp only
  rw [Option.map_eq_none_iff, List.find?_eq_none]
  intro entry member equal
  have held : entry.1 ∈ ((pool.containers place).pruneStaleTokens
      now).loadTokenMap.keys := List.mem_map_of_mem member
  rw [← compares token entry.1 equal, ExecutorContainer.loadTokenMap_pruned]
    at held
  exact gone.absent place (keys_removeTokens _ _ held)

/-- A token of the run whose lease is strictly higher. -/
structure HoldsHigher (info : ProxyTokenInfo Version) (runId : Text)
    (leaseVersion : Option Version) : Prop where
  run : info.runId = runId
  higher : isHigherVersion info.leaseVersion leaseVersion = true

theorem superseded_keeps (constantTimeEqualsString : Text → Text → Bool)
    (draw : Nat → Text) (env : ExecutorEnv) {address place : ContainerAddress}
    {lease : RunLease Version} {info : ProxyTokenInfo Version}
    (held : (pool.tokens place).get? token = some info)
    (higher : HoldsHigher info lease.runId lease.leaseVersion) :
    ((pool.step constantTimeEqualsString draw env address
      (.revokeSupersededProxyTokens lease)).tokens place).get? token =
        some info := by
  have kept : isSuperseded lease info = false := by
    rw [isSuperseded, higher.higher, Bool.not_true, Bool.and_false]
  unfold ExecutorPool.step
  simp only
  rw [ExecutorPool.tokens_update]
  split
  · rename_i same
    rw [ExecutorContainer.loadTokenMap_superseded, get?_removeTokens]
    rw [same] at held
    exact Option.filter_eq_some_iff.mpr ⟨held, by rw [kept]; rfl⟩
  · exact held

theorem issued_keeps (constantTimeEqualsString : Text → Text → Bool)
    {address place : ContainerAddress} {now : Int}
    {body : AgentExecutorDispatchPayload Version}
    {info : ProxyTokenInfo Version} (once : IssuedOnce draw pool)
    (distinct : DistinctTokens draw
      (pool.step constantTimeEqualsString draw env address
        (.dispatchStart now body)))
    (held : (pool.tokens place).get? token = some info)
    (current : isStale now info = false) :
    ((pool.step constantTimeEqualsString draw env address
      (.dispatchStart now body)).tokens place).get? token = some info := by
  have drawn := once.drawn place token (mem_keys_iff_get?.mpr ⟨info, held⟩)
  unfold ExecutorPool.step at distinct ⊢
  simp only at distinct ⊢
  unfold ExecutorPool.dispatchStart at distinct ⊢
  cases resolved : resolveAgentExecutorServiceId body with
  | none => exact held
  | some serviceId =>
      simp only [resolved] at distinct ⊢
      have fresh := fresh_of_distinct rfl distinct drawn
      rw [← held]
      by_cases here : place = address
      · have left : (removeTokens (isStale now)
            (pool.containers address).loadTokenMap).1.get? token =
              some info := by
          rw [get?_removeTokens]
          rw [here] at held
          exact Option.filter_eq_some_iff.mpr ⟨held, by rw [current]; rfl⟩
        refine (congrArg (OrderedMap.get? · token)
          ((ExecutorPool.tokens_update address place _).trans
            (if_pos here))).trans ?_
        rw [held]
        rcases ExecutorContainer.reserve_cases env address.tier
          (pool.containers address) now (draw pool.drawn)
          ⟨body.runId, serviceId, body.leaseVersion⟩
          (getContainerId address.tier body) with
          full | ⟨other, _, added⟩
        · rw [full]
          exact left
        · rw [added, OrderedMap.get?_set_of_ne _ fresh]
          exact left
      · exact congrArg (OrderedMap.get? · token)
          ((ExecutorPool.tokens_update address place _).trans (if_neg here))

/-- A dispatch leaves every token of a strictly higher lease of its run. -/
def IssueKeepsHigher (constantTimeEqualsString : Text → Text → Bool)
    (draw : Nat → Text) (env : ExecutorEnv)
    (events : List (PoolEvent Version)) : Prop :=
  ∀ address now (body : AgentExecutorDispatchPayload Version) place token info,
    ((poolAfter constantTimeEqualsString draw env events).tokens
      place).get? token = some info →
    HoldsHigher info body.runId body.leaseVersion →
    ((poolAfter constantTimeEqualsString draw env
      (events ++ [(address, .dispatchStart now body)])).tokens
        place).get? token = some info

/-- What holds of the tokens in every run in which those that were generated
are different. -/
structure ProxyTokenRules (Version : Type) [LinearOrder Version]
    (constantTimeEqualsString : Text → Text → Bool) (draw : Nat → Text)
    (env : ExecutorEnv) : Prop where
  withinCapacity : ∀ (events : List (PoolEvent Version)) address,
    ((poolAfter constantTimeEqualsString draw env events).tokens
      address).entries.length ≤ resolveExecutorTierCapacity env address.tier
  issueKeeps : ∀ (events : List (PoolEvent Version)) address now body,
    DistinctTokens draw (poolAfter constantTimeEqualsString draw env
      (events ++ [(address, .dispatchStart now body)])) →
    ∀ place token info,
      ((poolAfter constantTimeEqualsString draw env events).tokens
        place).get? token = some info →
      isStale now info = false →
      ((poolAfter constantTimeEqualsString draw env
        (events ++ [(address, .dispatchStart now body)])).tokens
          place).get? token = some info
  supersedeKeeps : ∀ (events : List (PoolEvent Version)) address lease place
      token info,
    ((poolAfter constantTimeEqualsString draw env events).tokens
      place).get? token = some info →
    HoldsHigher info lease.runId lease.leaseVersion →
    ((poolAfter constantTimeEqualsString draw env
      (events ++ [(address, .revokeSupersededProxyTokens lease)])).tokens
        place).get? token = some info
  neverAccepted : ∀ (events : List (PoolEvent Version)) address lease later,
    DistinctTokens draw (poolAfter constantTimeEqualsString draw env
      (events ++ (address, .revokeSupersededProxyTokens lease) :: later)) →
    ∀ token,
      token ∈ ((poolAfter constantTimeEqualsString draw env events).tokens
        address).keys →
      token ∉ ((poolAfter constantTimeEqualsString draw env
        (events ++ [(address, .revokeSupersededProxyTokens lease)])).tokens
          address).keys →
      ∀ place now,
        (((poolAfter constantTimeEqualsString draw env (events ++
          (address, .revokeSupersededProxyTokens lease) :: later)).containers
            place).verifyProxyToken constantTimeEqualsString now token).2 =
              none

omit [LinearOrder Version] in
theorem IssuedOnce.initial (draw : Nat → Text) :
    IssuedOnce draw (ExecutorPool.initial : ExecutorPool Version) where
  drawn _ _ member := by cases member
  apart _ _ _ member := by cases member

/-- A request for a superseded lease takes tokens from one container, and no
other holds them. -/
theorem gone_of_superseded {address : ContainerAddress}
    {lease : RunLease Version} (once : IssuedOnce draw pool)
    (held : token ∈ (pool.tokens address).keys)
    (removed : token ∉ ((pool.step constantTimeEqualsString draw env address
      (.revokeSupersededProxyTokens lease)).tokens address).keys) :
    Gone draw (pool.step constantTimeEqualsString draw env address
      (.revokeSupersededProxyTokens lease)) token := by
  refine ⟨once.drawn address token held, ?_⟩
  intro place member
  by_cases here : place = address
  · rw [here] at member
    exact removed member
  · have same : (pool.step constantTimeEqualsString draw env address
        (.revokeSupersededProxyTokens lease)).tokens place =
          pool.tokens place :=
      (ExecutorPool.tokens_update address place _).trans (if_neg here)
    rw [same] at member
    exact here (once.apart place address token member held)

end Runs

namespace TwoLeases

def address : ContainerAddress := ⟨.lite, "tier1-warm-0".toList⟩

def body (leaseVersion : Nat) : AgentExecutorDispatchPayload Nat :=
  { runId := ['r'], serviceId := some ['s'], workerId := some ['w']
    leaseVersion := some leaseVersion, executorContainerId := none }

def draw (number : Nat) : Text :=
  if number = 0 then List.replicate 43 'A' else List.replicate 43 'B'

def equals (left right : Text) : Bool := left = right

def env : ExecutorEnv := ⟨none, none⟩

def info (leaseVersion : Nat) : ProxyTokenInfo Nat :=
  { runId := ['r'], serviceId := ['s'], leaseVersion := some leaseVersion
    runtimeProtocolVersion := none, capability := AGENT_PROXY_SCOPES
    executorTier := .lite, executorContainerId := "tier1-unknown".toList
    startedAt := some 0, lastHeartbeatAt := some 0 }

end TwoLeases

end Takos.ContainerHosts
