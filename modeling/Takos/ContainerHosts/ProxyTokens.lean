import Takos.Foundation.OrderedMap
import Takos.Foundation.Text
import Mathlib.Algebra.Order.Round
import Mathlib.Data.Rat.Floor

/-!
# Proxy tokens of executor containers

A container keeps the random tokens of the runs it was dispatched, each with
the lease it was issued for.  The map is held in memory and stored as a whole
after every change; each request on the object is one step.
-/

namespace Takos.ContainerHosts

open Takos.Foundation

inductive ExecutorTier where
  | lite | basic | custom
  deriving DecidableEq

/-- The numbers read from the environment, where they are finite. -/
structure ExecutorEnv where
  tier1MaxConcurrentRuns : Option ℚ
  tier3MaxConcurrentRuns : Option ℚ

/-- At least one and at most `max`; `fallback` if there is no number. -/
def parsePositiveInteger (parsed : Option ℚ) (fallback max : Nat) : Nat :=
  match parsed with
  | none => fallback
  | some value => Min.min (Max.max ⌊value⌋.toNat 1) max

def resolveExecutorTierCapacity (env : ExecutorEnv) : ExecutorTier → Nat
  | .lite => parsePositiveInteger env.tier1MaxConcurrentRuns 4 100
  | .basic => 1
  | .custom => parsePositiveInteger env.tier3MaxConcurrentRuns 1 500

inductive ProxyScope where
  | runLifecycle | conversation | tools | skills | providerKeys
  deriving DecidableEq

def AGENT_PROXY_SCOPES : List ProxyScope :=
  [.runLifecycle, .conversation, .tools, .skills, .providerKeys]

/-- What is kept with a token.  Times are milliseconds. -/
structure ProxyTokenInfo (Version : Type) where
  runId : Text
  serviceId : Text
  leaseVersion : Option Version
  runtimeProtocolVersion : Option Nat
  capability : List ProxyScope
  executorTier : ExecutorTier
  executorContainerId : Text
  startedAt : Option Int
  lastHeartbeatAt : Option Int
  deriving DecidableEq

/-- The lease of a run under which a request is made. -/
structure RunLease (Version : Type) where
  runId : Text
  serviceId : Text
  leaseVersion : Option Version

abbrev TokenMap (Version : Type) := OrderedMap Text (ProxyTokenInfo Version)

section Removal

variable {Version : Type} [DecidableEq Version]

def proxyTokenMatchesLease (info : ProxyTokenInfo Version)
    (lease : RunLease Version) : Bool :=
  info.runId = lease.runId && info.serviceId = lease.serviceId &&
    info.leaseVersion = lease.leaseVersion

/-- The tokens without those that are removed, and how many these are. -/
def removeTokens (removed : ProxyTokenInfo Version → Bool)
    (tokens : TokenMap Version) : TokenMap Version × Nat :=
  (tokens.filterMap fun info => if removed info then none else some info,
    tokens.entries.countP fun entry => removed entry.2)

def removeProxyTokensForRun (tokens : TokenMap Version) (runId : Text) :
    TokenMap Version × Nat :=
  removeTokens (fun info => info.runId = runId) tokens

def STALE_PROXY_TOKEN_MS : Int := 15 * 60 * 1000

/-- A token that was not heard of for too long, or in the future. -/
def isStale (nowMs : Int) (info : ProxyTokenInfo Version) : Bool :=
  match info.lastHeartbeatAt <|> info.startedAt with
  | none => true
  | some lastSeen =>
    nowMs + 60000 < lastSeen || STALE_PROXY_TOKEN_MS < nowMs - lastSeen

def removeStaleProxyTokens (tokens : TokenMap Version) (nowMs : Int) :
    TokenMap Version × Nat :=
  removeTokens (isStale nowMs) tokens

def removeProxyTokensForLease (tokens : TokenMap Version)
    (lease : RunLease Version) : TokenMap Version × Nat :=
  removeTokens (proxyTokenMatchesLease · lease) tokens

variable [LinearOrder Version]

def isHigherVersion (held lease : Option Version) : Bool :=
  match held, lease with
  | none, _ => false
  | some _, none => true
  | some held, some lease => lease < held

def isSuperseded (lease : RunLease Version) (info : ProxyTokenInfo Version) :
    Bool :=
  info.runId = lease.runId && !proxyTokenMatchesLease info lease &&
    !isHigherVersion info.leaseVersion lease.leaseVersion

def removeSupersededProxyTokens (tokens : TokenMap Version)
    (lease : RunLease Version) : TokenMap Version × Nat :=
  removeTokens (isSuperseded lease) tokens

end Removal

section Upgrading

variable {Version : Type} [DecidableEq Version]

/-- Only the token that was started is upgraded; `none` if nothing changes. -/
def upgradeProxyTokenRuntimeProtocol (tokens : TokenMap Version) (token : Text)
    (expected : RunLease Version) (version : Nat) : Option (TokenMap Version) :=
  match tokens.get? token with
  | none => none
  | some info =>
    if !proxyTokenMatchesLease info expected ||
        info.runtimeProtocolVersion = some version then none
    else some (tokens.set token
      { info with runtimeProtocolVersion := some version })

end Upgrading

/-- The stored map, and the map in memory, which is the same if it is
loaded. -/
structure ExecutorContainer (Version : Type) where
  stored : Option (TokenMap Version)
  cachedTokens : Option (TokenMap Version)
  synced : ∀ tokens ∈ cachedTokens, stored.getD .empty = tokens

namespace ExecutorContainer

variable {Version : Type}

def initial : ExecutorContainer Version := ⟨none, none, nofun⟩

def loadTokenMap (container : ExecutorContainer Version) : TokenMap Version :=
  container.cachedTokens.getD (container.stored.getD .empty)

/-- The object after its map is loaded. -/
def loaded (container : ExecutorContainer Version) :
    ExecutorContainer Version where
  stored := container.stored
  cachedTokens := some container.loadTokenMap
  synced := by
    intro tokens same
    rw [Option.mem_some_iff.mp same |>.symm, loadTokenMap]
    cases cached : container.cachedTokens with
    | none => rfl
    | some held => exact container.synced held cached

def persistTokenMap (tokens : TokenMap Version) : ExecutorContainer Version :=
  ⟨some tokens, some tokens, fun _ same => Option.mem_some_iff.mp same⟩

/-- Keeps a map if something was removed from it. -/
def persistRemoval (container : ExecutorContainer Version)
    (left : TokenMap Version × Nat) : ExecutorContainer Version :=
  if 0 < left.2 then persistTokenMap left.1 else container.loaded

/-- The object is evicted from memory. -/
def evicted (container : ExecutorContainer Version) :
    ExecutorContainer Version :=
  ⟨container.stored, none, nofun⟩

variable [DecidableEq Version]

def pruneStaleTokens (container : ExecutorContainer Version) (now : Int) :
    ExecutorContainer Version :=
  container.persistRemoval (removeStaleProxyTokens container.loadTokenMap now)

structure ExecutorPoolLoad where
  tier : ExecutorTier
  active : Nat
  capacity : Nat

def getLoad (env : ExecutorEnv) (tier : ExecutorTier)
    (container : ExecutorContainer Version) (now : Int) :
    ExecutorContainer Version × ExecutorPoolLoad :=
  let pruned := container.pruneStaleTokens now
  (pruned,
    { tier
      active := pruned.loadTokenMap.entries.length
      capacity := resolveExecutorTierCapacity env tier })

/-- The reservation of a dispatch: the token is kept if there is room. -/
def reserve (env : ExecutorEnv) (tier : ExecutorTier)
    (container : ExecutorContainer Version) (now : Int) (token : Text)
    (lease : RunLease Version) (executorContainerId : Text) :
    ExecutorContainer Version × Bool :=
  let pruned := container.pruneStaleTokens now
  let tokens := pruned.loadTokenMap
  if resolveExecutorTierCapacity env tier ≤ tokens.entries.length then
    (pruned, false)
  else
    (persistTokenMap (tokens.set token
      { runId := lease.runId
        serviceId := lease.serviceId
        leaseVersion := lease.leaseVersion
        runtimeProtocolVersion := none
        capability := AGENT_PROXY_SCOPES
        executorTier := tier
        executorContainerId
        startedAt := some now
        lastHeartbeatAt := some now }), true)

/-- After a start that negotiated a protocol. -/
def upgrade (container : ExecutorContainer Version) (token : Text)
    (expected : RunLease Version) (version : Nat) : ExecutorContainer Version :=
  match upgradeProxyTokenRuntimeProtocol container.loadTokenMap token expected
    version with
  | none => container.loaded
  | some tokens => persistTokenMap tokens

def verifyProxyToken (constantTimeEqualsString : Text → Text → Bool)
    (container : ExecutorContainer Version) (now : Int) (token : Text) :
    ExecutorContainer Version × Option (ProxyTokenInfo Version) :=
  let pruned := container.pruneStaleTokens now
  (pruned,
    (pruned.loadTokenMap.entries.find? fun entry =>
      constantTimeEqualsString token entry.1).map Prod.snd)

def touchProxyToken (container : ExecutorContainer Version) (now : Int)
    (token : Text) : ExecutorContainer Version :=
  match container.loadTokenMap.get? token with
  | none => container.loaded
  | some info =>
    persistTokenMap (removeStaleProxyTokens
      (container.loadTokenMap.set token
        { info with lastHeartbeatAt := some now }) now).1

def revokeProxyToken (container : ExecutorContainer Version) (token : Text) :
    ExecutorContainer Version :=
  if token ∈ container.loadTokenMap.keys then
    persistTokenMap (container.loadTokenMap.delete token)
  else container.loaded

def revokeProxyTokensForRun (container : ExecutorContainer Version)
    (runId : Text) : ExecutorContainer Version :=
  container.persistRemoval
    (removeProxyTokensForRun container.loadTokenMap runId)

def revokeProxyTokensForLease (container : ExecutorContainer Version)
    (lease : RunLease Version) : ExecutorContainer Version :=
  container.persistRemoval
    (removeProxyTokensForLease container.loadTokenMap lease)

def revokeSupersededProxyTokens [LinearOrder Version]
    (container : ExecutorContainer Version) (lease : RunLease Version) :
    ExecutorContainer Version :=
  container.persistRemoval
    (removeSupersededProxyTokens container.loadTokenMap lease)

def revokeProxyTokens : ExecutorContainer Version :=
  ⟨none, some .empty, fun _ same => Option.mem_some_iff.mp same⟩

end ExecutorContainer

/-- A dispatch names its run, its service and its worker. -/
structure AgentExecutorDispatchPayload (Version : Type) where
  runId : Text
  serviceId : Option Text
  workerId : Option Text
  leaseVersion : Option Version
  executorContainerId : Option Text

def resolveAgentExecutorServiceId {Version : Type}
    (body : AgentExecutorDispatchPayload Version) : Option Text :=
  match body.serviceId.map Text.trim, body.workerId.map Text.trim with
  | some serviceId, some workerId =>
    if serviceId = [] ∨ workerId = [] then none else some serviceId
  | _, _ => none

structure ContainerAddress where
  tier : ExecutorTier
  name : Text
  deriving DecidableEq

def ExecutorTier.number : ExecutorTier → Char
  | .lite => '1'
  | .basic => '2'
  | .custom => '3'

def getContainerId {Version : Type} (tier : ExecutorTier)
    (body : AgentExecutorDispatchPayload Version) : Text :=
  match body.executorContainerId with
  | none | some [] => "tier".toList ++ tier.number :: "-unknown".toList
  | some id => id

/-- The requests that a container object answers, each with the time it reads
from the clock. -/
inductive ContainerRequest (Version : Type) where
  | getLoad (now : Int)
  | dispatchStart (now : Int) (body : AgentExecutorDispatchPayload Version)
  | upgrade (token : Text) (expected : RunLease Version) (version : Nat)
  | verifyProxyToken (now : Int) (token : Text)
  | touchProxyToken (now : Int) (token : Text)
  | revokeProxyToken (token : Text)
  | revokeProxyTokensForRun (runId : Text)
  | revokeProxyTokensForLease (lease : RunLease Version)
  | revokeSupersededProxyTokens (lease : RunLease Version)
  | revokeProxyTokens
  | eviction

/-- The objects of the pool, and how many tokens were generated. -/
structure ExecutorPool (Version : Type) where
  containers : ContainerAddress → ExecutorContainer Version
  drawn : Nat

namespace ExecutorPool

variable {Version : Type}

def initial : ExecutorPool Version := ⟨fun _ => .initial, 0⟩

def tokens (pool : ExecutorPool Version) (address : ContainerAddress) :
    TokenMap Version := (pool.containers address).loadTokenMap

def update (pool : ExecutorPool Version) (address : ContainerAddress)
    (container : ExecutorContainer Version) : ExecutorPool Version :=
  { pool with containers := Function.update pool.containers address container }

/-- The start of a dispatch; `draw` gives the random tokens in the order in
which they are generated. -/
def dispatchStart (draw : Nat → Text) (env : ExecutorEnv)
    (pool : ExecutorPool Version) (address : ContainerAddress) (now : Int)
    (body : AgentExecutorDispatchPayload Version) : ExecutorPool Version :=
  match resolveAgentExecutorServiceId body with
  | none => pool
  | some serviceId =>
    { pool.update address
        ((pool.containers address).reserve env address.tier now
          (draw pool.drawn) ⟨body.runId, serviceId, body.leaseVersion⟩
          (getContainerId address.tier body)).1 with
      drawn := pool.drawn + 1 }

variable [LinearOrder Version]

def step (constantTimeEqualsString : Text → Text → Bool) (draw : Nat → Text)
    (env : ExecutorEnv) (pool : ExecutorPool Version)
    (address : ContainerAddress) (request : ContainerRequest Version) :
    ExecutorPool Version :=
  let container := pool.containers address
  match request with
  | .getLoad now =>
    pool.update address (container.getLoad env address.tier now).1
  | .dispatchStart now body =>
    pool.dispatchStart draw env address now body
  | .upgrade token expected version =>
    pool.update address (container.upgrade token expected version)
  | .verifyProxyToken now token =>
    pool.update address
      (container.verifyProxyToken constantTimeEqualsString now token).1
  | .touchProxyToken now token =>
    pool.update address (container.touchProxyToken now token)
  | .revokeProxyToken token =>
    pool.update address (container.revokeProxyToken token)
  | .revokeProxyTokensForRun runId =>
    pool.update address (container.revokeProxyTokensForRun runId)
  | .revokeProxyTokensForLease lease =>
    pool.update address (container.revokeProxyTokensForLease lease)
  | .revokeSupersededProxyTokens lease =>
    pool.update address (container.revokeSupersededProxyTokens lease)
  | .revokeProxyTokens => pool.update address .revokeProxyTokens
  | .eviction => pool.update address container.evicted

end ExecutorPool

end Takos.ContainerHosts
