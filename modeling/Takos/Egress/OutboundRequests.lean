import Takos.Foundation.DepthSearch
import Takos.Foundation.Text

/-!
# Outbound requests

Before the proxy sends a request it resolves the host of the URL along every
alias, and refuses the request if a lookup fails or an address is private.
-/

namespace Takos.Egress

open Takos.Foundation

inductive QueryType where
  | a
  | aaaa

/-- `data` is `none` where it is no string. -/
structure DnsAnswer where
  type : Nat
  data : Option Text

/-- `port` is `none` for the port of the scheme. -/
structure EgressUrl where
  protocol : Text
  username : Text
  password : Text
  hostname : Text
  port : Option Nat

/-- A lookup that throws is `none`. -/
structure EgressHost where
  toLowerCase : Text → Text
  isPrivateIP : Text → Bool
  setHostname : EgressUrl → Text → Text
  dohResolve : Text → QueryType → Option (List DnsAnswer)

/-- `url` is `none` where it does not parse. -/
structure EgressRequest where
  url : Option EgressUrl
  mode : Option Text
  contentLength : Option Nat
  allowInsecureLoopback : Option Text
  withinRateLimit : Bool

structure Refusal where
  message : String
  status : Nat

def BLOCKED_HOSTNAMES : List Text :=
  ["localhost", "localhost.localdomain", "metadata.google.internal",
    "kubernetes.default.svc", "kubernetes.default.svc.cluster.local"].map
      String.toList

def blockedSuffixes : List Text :=
  [".localhost", ".local", ".internal", ".svc.cluster.local"].map String.toList

def portOf (url : EgressUrl) : Nat :=
  url.port.getD (if url.protocol = "https:".toList then 443 else 80)

section Hosts

variable (host : EgressHost)

/-- Brackets around the whole name go, and one dot at its end. -/
def normalizeHostname (hostname : Text) : Text :=
  let name := host.toLowerCase (Text.trim hostname)
  let inner := (name.drop 1).dropLast
  let stripped :=
    if name = '[' :: inner ++ [']'] ∧ inner ≠ [] ∧ ']' ∉ inner then inner
    else name
  if Text.endsWith stripped ['.'] then stripped.dropLast else stripped

def isBlockedHostname (hostname : Text) : Bool :=
  let h := host.toLowerCase hostname
  BLOCKED_HOSTNAMES.contains h || Text.startsWith h "localhost.".toList ||
    blockedSuffixes.any (Text.endsWith h) || host.isPrivateIP h

def isExplicitLoopbackHostname (hostname : Text) : Bool :=
  let normalized := normalizeHostname host hostname
  let parts := Text.split '.' normalized
  normalized = "localhost".toList ||
    Text.endsWith normalized ".localhost".toList ||
    normalized = "::1".toList ||
    (parts.length = 4 && parts.head? = some "127".toList &&
      (parts.drop 1).all fun part =>
        1 ≤ part.length && part.length ≤ 3 && part.all Char.isDigit)

def notificationPushLoopbackAllowed (request : EgressRequest)
    (url : EgressUrl) : Bool :=
  (request.allowInsecureLoopback.map fun flag =>
      host.toLowerCase (Text.trim flag)) = some "true".toList &&
    request.mode = some "notification-push".toList &&
    url.protocol = "http:".toList && 0 < portOf url &&
    isExplicitLoopbackHostname host url.hostname

def allAnswers (name : Text) : Option (List DnsAnswer) := do
  let a ← host.dohResolve name .a
  let aaaa ← host.dohResolve name .aaaa
  return a ++ aaaa

def addresses (answers : List DnsAnswer) : List Text :=
  (answers.filter fun ans => ans.type = 1 || ans.type = 28).filterMap
    DnsAnswer.data

def cnameTargets (answers : List DnsAnswer) : List Text :=
  (((answers.filter fun ans => ans.type = 5).filterMap DnsAnswer.data).map
    (normalizeHostname host)).eraseDups

/-- One visit of `walk`, which normalizes the names it is given. -/
def visit (name : Text) : Option (List DnsAnswer × List Text) :=
  (allAnswers host name).map fun answers =>
    (answers, (cnameTargets host answers).map (normalizeHostname host))

/-- The depths of `walk` are 0 to 10. -/
def resolveAllIPs (hostname : Text) : Option (List Text) :=
  (depthSearch (visit host) 11 [] (normalizeHostname host hostname)).map
    fun visited => (visited.flatMap fun entry => addresses entry.2).eraseDups

/-- The checks that an exempt push skips. -/
def hostRefusal (request : EgressRequest) (url : EgressUrl) : Option Refusal :=
  let port := portOf url
  if notificationPushLoopbackAllowed host request url then none
  else if '.' ∉ url.hostname ∧ ':' ∉ url.hostname then
    some ⟨"Hostname must be a public FQDN", 400⟩
  else if port ≠ 80 ∧ port ≠ 443 then
    some ⟨"Port " ++ toString port ++ " is not allowed", 400⟩
  else if isBlockedHostname host url.hostname then
    some ⟨"Access to internal/private networks is not allowed", 403⟩
  else
    match resolveAllIPs host url.hostname with
    | none => some ⟨"DNS resolution failed", 502⟩
    | some ips =>
      if ips = [] then some ⟨"DNS resolution returned no addresses", 502⟩
      else if ips.any host.isPrivateIP then
        some ⟨"Resolved to private/internal IP address", 403⟩
      else none

/-- The handler up to the request that it sends. -/
def fetch (request : EgressRequest) : Except Refusal EgressUrl :=
  match request.url with
  | none => .error ⟨"Invalid URL", 400⟩
  | some parsed =>
    if parsed.protocol ≠ "http:".toList ∧ parsed.protocol ≠ "https:".toList then
      .error ⟨"Only HTTP/HTTPS URLs are allowed", 400⟩
    else if parsed.username ≠ [] ∨ parsed.password ≠ [] then
      .error ⟨"URLs with credentials are not allowed", 400⟩
    else
      let normalized := normalizeHostname host parsed.hostname
      let url := { parsed with hostname := host.setHostname parsed normalized }
      match hostRefusal host request url with
      | some refusal => .error refusal
      | none =>
        if !request.withinRateLimit then .error ⟨"Rate limited", 429⟩
        else if request.contentLength.any (10 * 1024 * 1024 < ·) then
          .error ⟨"Request body too large", 413⟩
        else .ok url

/-- A name that the aliases of a host lead to. -/
def AliasOf (hostname : Text) : Text → Prop :=
  DepthSearch.Reaches (visit host) (normalizeHostname host hostname)

def HasAddress (name ip : Text) : Prop :=
  ∃ answers, allAnswers host name = some answers ∧ ip ∈ addresses answers

/-- A host that may be sent to. -/
structure Vetted (url : EgressUrl) : Prop where
  named : '.' ∈ url.hostname ∨ ':' ∈ url.hostname
  port : portOf url = 80 ∨ portOf url = 443
  allowed : isBlockedHostname host url.hostname = false
  answered : ∀ name, AliasOf host url.hostname name →
    (allAnswers host name).isSome
  resolves : ∃ name ip, AliasOf host url.hostname name ∧ HasAddress host name ip
  publicOnly : ∀ name ip, AliasOf host url.hostname name →
    HasAddress host name ip → host.isPrivateIP ip = false

variable {host}

/-- The addresses are those of the names that the aliases lead to. -/
theorem resolveAllIPs_exact {hostname : Text} {ips : List Text}
    (ended : resolveAllIPs host hostname = some ips) :
    (∀ name, AliasOf host hostname name → (allAnswers host name).isSome) ∧
      ∀ ip, ip ∈ ips ↔
        ∃ name, AliasOf host hostname name ∧ HasAddress host name ip := by
  obtain ⟨visited, walked, rfl⟩ := Option.map_eq_some_iff.mp ended
  obtain ⟨followed, names⟩ := DepthSearch.depthSearch_exact walked
  have loaded : ∀ entry ∈ visited, allAnswers host entry.1 = some entry.2 := by
    intro entry member
    obtain ⟨_, targets, read, _⟩ := followed entry member
    obtain ⟨answers, answered, same⟩ := Option.map_eq_some_iff.mp read
    cases same
    exact answered
  constructor
  · intro name led
    obtain ⟨entry, member, rfl⟩ := List.mem_map.mp ((names name).mpr led)
    rw [loaded entry member]
    rfl
  · intro ip
    rw [List.mem_eraseDups, List.mem_flatMap]
    constructor
    · rintro ⟨entry, member, listed⟩
      exact ⟨entry.1, (names _).mp (List.mem_map_of_mem member), entry.2,
        loaded entry member, listed⟩
    · rintro ⟨name, led, answers, answered, listed⟩
      obtain ⟨entry, member, rfl⟩ := List.mem_map.mp ((names name).mpr led)
      rw [loaded entry member] at answered
      cases answered
      exact ⟨entry, member, listed⟩

theorem vetted_of_unrefused {request : EgressRequest} {url : EgressUrl}
    (unrefused : hostRefusal host request url = none) :
    notificationPushLoopbackAllowed host request url = true ∨
      Vetted host url := by
  unfold hostRefusal at unrefused
  dsimp only at unrefused
  split_ifs at unrefused with exempt unnamed port blocked
  · exact .inl exempt
  · right
    split at unrefused
    · cases unrefused
    · rename_i ips resolved
      split_ifs at unrefused with empty privateIP
      obtain ⟨answered, exact⟩ := resolveAllIPs_exact resolved
      obtain ⟨ip, listed⟩ := List.exists_mem_of_ne_nil ips empty
      refine ⟨by tauto, by omega, eq_false_of_ne_true blocked, answered, ?_, ?_⟩
      · obtain ⟨name, led, has⟩ := (exact ip).mp listed
        exact ⟨name, ip, led, has⟩
      · intro name ip led has
        by_contra inside
        exact privateIP (List.any_eq_true.mpr
          ⟨ip, (exact ip).mpr ⟨name, led, has⟩, eq_true_of_ne_false inside⟩)

/-- What is sent goes to an exempt loopback push or to a host all of whose
aliases have public addresses. -/
theorem fetch_vetted (host : EgressHost) (request : EgressRequest) :
    (∃ refusal, fetch host request = .error refusal) ∨
      ∃ url, fetch host request = .ok url ∧
        url.username = [] ∧ url.password = [] ∧
        (notificationPushLoopbackAllowed host request url = true ∨
          Vetted host url) := by
  cases outcome : fetch host request with
  | error refusal => exact .inl ⟨refusal, rfl⟩
  | ok url =>
      refine .inr ⟨url, rfl, ?_⟩
      unfold fetch at outcome
      split at outcome
      · cases outcome
      dsimp only at outcome
      split at outcome
      · cases outcome
      split at outcome
      · cases outcome
      rename_i credentials
      split at outcome
      · cases outcome
      rename_i unrefused
      split_ifs at outcome
      cases outcome
      rw [not_or, not_not, not_not] at credentials
      exact ⟨credentials.1, credentials.2, vetted_of_unrefused unrefused⟩

end Hosts

end Takos.Egress
