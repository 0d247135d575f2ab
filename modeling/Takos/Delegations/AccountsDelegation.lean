import Takos.Foundation.Interleaving
import Takos.Foundation.Text
import Mathlib.Data.Rat.Floor

/-!
# Authorisation delegated by Takosumi Accounts

A call reads the identity row, claims the refresh lease by the lease columns
alone, presents the refresh token that it has read, and writes the new tokens
where its lease still stands.  A login writes the token columns without a lease.

The state also records what the authorisation server has issued and consumed,
how often the token columns of a row were written and which refresh token a row
held when its lease was granted; no call reads any of these.
-/

namespace Takos.Delegations

open Takos.Foundation

/-- `encryptEnvelope`; the key and the salt bring the text back. -/
structure Envelope where
  text : Text
  key : Text
  salt : Text
  deriving DecidableEq

def decryptEnvelope (envelope : Envelope) (key salt : Text) : Option Text :=
  if envelope.key = key ∧ envelope.salt = salt then some envelope.text else none

inductive TokenKind where
  | access | refresh

def TokenKind.text : TokenKind → Text
  | access => "access".toList
  | refresh => "refresh".toList

def tokenSalt (identityId : Text) (kind : TokenKind) : Text :=
  "takos:accounts-oidc:".toList ++ identityId ++ ':' :: kind.text

def encryptToken (token key identityId : Text) (kind : TokenKind) : Envelope :=
  ⟨token, key, tokenSalt identityId kind⟩

structure DelegatedTokenResponse where
  access_token : Option Text
  refresh_token : Option Text
  expires_in : Option ℚ
  scope : Option Text

inductive DelegationAccess where
  | read | write

structure DelegationIdentity where
  id : Text
  userId : Text
  provider : Text
  providerSub : Text
  accessTokenEnc : Option Envelope
  accessTokenExpiresAt : Option Int
  refreshTokenEnc : Option Envelope
  tokenScope : Option Text
  delegatedWorkspaceId : Option Text
  refreshLeaseId : Option Nat
  refreshLeaseExpiresAt : Option Int
  written : Nat

def ACCESS_TOKEN_SKEW_MS : Int := 15000

def REFRESH_LEASE_MS : Int := 15000

def REFRESH_WAIT_ATTEMPTS : Nat := 60

def given (text : Option Text) : Option Text := text.filter fun text => text ≠ []

/-- `split(/\s+/u).filter(Boolean)`. -/
def words (text : Text) : List Text :=
  (text.splitOnP Text.isSpace).filter fun word => word ≠ []

def scopeAllows (scope : Option Text) (access : DelegationAccess) : Bool :=
  let scopes := words (scope.getD [])
  match access with
  | .write => "capsules:write".toList ∈ scopes
  | .read => "capsules:read".toList ∈ scopes ∨ "capsules:write".toList ∈ scopes

/-- `toISOString`, which throws for an instant that no date has. -/
def toISOString (instant : Int) : Option Int :=
  if instant.natAbs ≤ 8640000000000000 then some instant else none

/-- Seconds; a value that is not finite counts as missing. -/
def expiresIn (tokens : DelegatedTokenResponse) : Int :=
  match tokens.expires_in with
  | some seconds => max 1 ⌊seconds⌋
  | none => 300

namespace DelegationIdentity

variable (identity : DelegationIdentity)

def validAccessToken (access : DelegationAccess) (now : Int) : Bool :=
  identity.accessTokenEnc.isSome && scopeAllows identity.tokenScope access &&
    identity.accessTokenExpiresAt.any fun expiresAt =>
      now + ACCESS_TOKEN_SKEW_MS < expiresAt

def delegatedSubjectId (issuer : Text) : Option Text :=
  let start := issuer ++ ['#']
  given (if Text.startsWith identity.providerSub start then
    some (Text.trim (identity.providerSub.drop start.length)) else none)

/-- The condition of a claim. -/
def Claimable (id : Text) (now : Int) : Prop :=
  identity.id = id ∧
    (identity.refreshLeaseExpiresAt = none ∨
      ∃ expiresAt ∈ identity.refreshLeaseExpiresAt, expiresAt < now)

instance (id : Text) (now : Int) : Decidable (identity.Claimable id now) :=
  inferInstanceAs (Decidable (_ ∧ (_ ∨ ∃ _ ∈ _, _)))

/-- The condition of a write under a lease. -/
def Leased (id : Text) (leaseId : Nat) : Prop :=
  identity.id = id ∧ identity.refreshLeaseId = some leaseId

instance (id : Text) (leaseId : Nat) : Decidable (identity.Leased id leaseId) :=
  inferInstanceAs (Decidable (_ ∧ _))

def withLease (leaseId : Nat) (now : Int) : DelegationIdentity :=
  { identity with
    refreshLeaseId := some leaseId
    refreshLeaseExpiresAt := some (now + REFRESH_LEASE_MS) }

def withoutLease : DelegationIdentity :=
  { identity with refreshLeaseId := none, refreshLeaseExpiresAt := none }

def cleared : DelegationIdentity :=
  { identity with
    accessTokenEnc := none
    accessTokenExpiresAt := none
    refreshTokenEnc := none
    tokenScope := none
    delegatedWorkspaceId := none
    refreshLeaseId := none
    refreshLeaseExpiresAt := none
    written := identity.written + 1 }

end DelegationIdentity

def identityForUser (rows : List DelegationIdentity) (userId issuer : Text) :
    Option DelegationIdentity :=
  (rows.filter fun row => row.userId = userId ∧ row.provider = "oidc".toList).find?
    fun row => Text.startsWith row.providerSub (issuer ++ ['#'])

/-- Tokens with the workspace they are for, and refresh tokens that have been
accepted. -/
structure TokenServer where
  access : List (Text × Option Text)
  refresh : List (Text × Option Text)
  consumed : List Text

/-- What the server makes of a refresh request; a missing response is a failed
`fetch`. -/
structure TokenReply where
  accepted : Bool
  response : Option (Bool × DelegatedTokenResponse)

namespace TokenServer

variable (server : TokenServer)

def Live (token : Text) : Prop :=
  (∃ workspace, (token, workspace) ∈ server.refresh) ∧ token ∉ server.consumed

def issue (tokens : DelegatedTokenResponse) (workspace : Option Text) :
    TokenServer :=
  { server with
    access := tokens.access_token.toList.map (·, workspace) ++ server.access
    refresh := tokens.refresh_token.toList.map (·, workspace) ++ server.refresh }

def workspaceOf (token : Text) : Option (Option Text) :=
  (server.refresh.find? fun entry => entry.1 = token).map Prod.snd

def exchange (token : Text) (reply : TokenReply) : TokenServer :=
  if reply.accepted then
    let used := { server with consumed := token :: server.consumed }
    match reply.response, server.workspaceOf token with
    | some (_, tokens), some workspace => used.issue tokens workspace
    | _, _ => used
  else server

end TokenServer

/-- `other` is any other error, with a name for those of the host. -/
inductive DelegationError where
  | authentication (message : Text)
  | unavailable (message : Text)
  | other (message : Text)

/-- `reply` is what the server answers to the refresh request of the call; the
flags say which of its writes fail. -/
structure AuthorizationRequest where
  encryptionKey : Text
  userId : Text
  issuer : Text
  access : DelegationAccess
  reply : TokenReply
  clearFails : Bool
  storeFails : Bool

/-- The input of `storeAccountsDelegation`. -/
structure Login where
  encryptionKey : Text
  identityId : Text
  tokens : DelegatedTokenResponse
  fallbackScope : Text
  workspaceId : Option Text

/-- What a call holds from its read of the row on. -/
structure Refreshing where
  request : AuthorizationRequest
  identity : DelegationIdentity
  workspaceId : Text
  refreshTokenEnc : Envelope
  workspace : identity.delegatedWorkspaceId = some workspaceId
  token : identity.refreshTokenEnc = some refreshTokenEnc

structure RefreshedColumns where
  accessToken : Text
  accessTokenEnc : Envelope
  accessTokenExpiresAt : Int
  refreshTokenEnc : Envelope
  tokenScope : Text

/-- Calls by the statement that they execute next. -/
inductive DelegationCall where
  | readIdentity (request : AuthorizationRequest)
  | claim (refreshing : Refreshing) (now : Int)
  | wait (request : AuthorizationRequest) (attempt : Nat)
  | exchange (refreshing : Refreshing) (leaseId : Nat)
  | clear (refreshing : Refreshing) (leaseId : Nat) (error : DelegationError)
  | store (refreshing : Refreshing) (leaseId : Nat) (columns : RefreshedColumns)
  | release (refreshing : Refreshing) (leaseId : Nat) (error : DelegationError)
  | issue (login : Login)
  | storeLogin (login : Login)
  | tick (elapsed : Nat)

inductive DelegationResult where
  | authorized (accessToken workspaceId subjectId : Text)
  | thrown (error : DelegationError)
  | finished

/-- The access token, the scope and the expiry that a login stores, or how it
ends before its update. -/
def Login.check (login : Login) (now : Int) :
    Except DelegationResult (Text × Text × Int) :=
  match given (login.tokens.access_token.map Text.trim) with
  | none => .error .finished
  | some accessToken =>
    let failure (message : String) : DelegationResult :=
      .thrown (.other message.toList)
    let scope := (given (login.tokens.scope.map Text.trim)).getD
      login.fallbackScope
    if login.encryptionKey = [] then
      .error (failure
        "ENCRYPTION_KEY is required for Accounts OAuth delegation")
    else if scopeAllows (some scope) .read ∧ given login.workspaceId = none then
      .error (failure
        ("Takosumi Accounts Workspace binding is required for Capsule " ++
          "delegation"))
    else
      match toISOString (now + expiresIn login.tokens * 1000) with
      | none => .error (failure "date")
      | some expiresAt => .ok (accessToken, scope, expiresAt)

abbrev DelegationOutcome := Outcome DelegationCall DelegationResult

structure DelegationState where
  rows : List DelegationIdentity
  now : Int
  nextLease : Nat
  server : TokenServer
  grants : List (Nat × Option Envelope)

def authenticationError (message : String) : DelegationOutcome :=
  .done (.thrown (.authentication message.toList))

def subjectError : DelegationError :=
  .authentication "Takosumi Accounts identity subject is invalid".toList

def timedOut : DelegationOutcome :=
  .done (.thrown (.unavailable
    "Takosumi Accounts authorization refresh timed out".toList))

def renewError : DelegationError :=
  .authentication "Takosumi Accounts authorization must be renewed".toList

def scopeError : DelegationError :=
  .authentication "Takosumi Accounts authorization scope is insufficient".toList

/-- The answer from a row whose access token is valid. -/
def storedAuthorization (request : AuthorizationRequest)
    (identity : DelegationIdentity) (workspaceId : Text) : DelegationOutcome :=
  let accessToken := identity.accessTokenEnc.bind fun envelope =>
    decryptEnvelope envelope request.encryptionKey
      (tokenSalt identity.id .access)
  match accessToken, identity.delegatedSubjectId request.issuer with
  | none, _ => .done (.thrown (.other "decrypt".toList))
  | some _, none => .done (.thrown subjectError)
  | some accessToken, some subjectId =>
    .done (.authorized accessToken workspaceId subjectId)

def afterRead (request : AuthorizationRequest) (now : Int) :
    Option DelegationIdentity → DelegationOutcome
  | none => authenticationError "Takosumi Accounts authorization is required"
  | some identity =>
    match workspace : identity.delegatedWorkspaceId with
    | none | some [] =>
      authenticationError
        "Takosumi Accounts Workspace authorization must be renewed"
    | some workspaceId =>
      if identity.validAccessToken request.access now then
        storedAuthorization request identity workspaceId
      else
        match token : identity.refreshTokenEnc with
        | none => .done (.thrown renewError)
        | some refreshTokenEnc =>
          .next (.claim
            ⟨request, identity, workspaceId, refreshTokenEnc, workspace, token⟩
            now)

/-- What follows a read of the row while another call holds the lease. -/
def afterWait (request : AuthorizationRequest) (attempt : Nat) (now : Int) :
    Option DelegationIdentity → DelegationOutcome
  | none => timedOut
  | some identity =>
    match given identity.delegatedWorkspaceId with
    | none =>
      authenticationError
        "Takosumi Accounts Workspace authorization must be renewed"
    | some workspaceId =>
      if identity.validAccessToken request.access now then
        storedAuthorization request identity workspaceId
      else if identity.refreshLeaseExpiresAt.all fun expiresAt =>
          expiresAt ≤ now then
        .next (.readIdentity request)
      else if attempt + 1 < REFRESH_WAIT_ATTEMPTS then
        .next (.wait request (attempt + 1))
      else timedOut

def afterResponse (refreshing : Refreshing) (leaseId : Nat) (now : Int) :
    Option (Bool × DelegatedTokenResponse) → DelegationOutcome
  | none => .next (.release refreshing leaseId (.other "fetch".toList))
  | some (ok, tokens) =>
    let { request, identity, refreshTokenEnc, .. } := refreshing
    match ok, given tokens.access_token with
    | true, some accessToken =>
      let scope := (given (tokens.scope.map Text.trim)).getD
        (identity.tokenScope.getD [])
      if !scopeAllows (some scope) request.access then
        .next (.clear refreshing leaseId scopeError)
      else
        match toISOString (now + expiresIn tokens * 1000) with
        | none => .next (.release refreshing leaseId (.other "date".toList))
        | some accessTokenExpiresAt =>
          .next (.store refreshing leaseId
            { accessToken := accessToken
              accessTokenEnc :=
                encryptToken accessToken request.encryptionKey identity.id
                  .access
              accessTokenExpiresAt := accessTokenExpiresAt
              refreshTokenEnc :=
                match given tokens.refresh_token with
                | some refreshToken =>
                  encryptToken refreshToken request.encryptionKey identity.id
                    .refresh
                | none => refreshTokenEnc
              tokenScope := scope })
    | _, _ => .next (.clear refreshing leaseId renewError)

namespace DelegationIdentity

variable (identity : DelegationIdentity)

def refreshed (columns : RefreshedColumns) : DelegationIdentity :=
  { identity with
    accessTokenEnc := some columns.accessTokenEnc
    accessTokenExpiresAt := some columns.accessTokenExpiresAt
    refreshTokenEnc := some columns.refreshTokenEnc
    tokenScope := some columns.tokenScope
    refreshLeaseId := none
    refreshLeaseExpiresAt := none
    written := identity.written + 1 }

def loggedIn (login : Login) (accessToken scope : Text) (expiresAt : Int) :
    DelegationIdentity :=
  { identity with
    accessTokenEnc := some (encryptToken accessToken login.encryptionKey
      login.identityId .access)
    accessTokenExpiresAt := some expiresAt
    tokenScope := some scope
    delegatedWorkspaceId := login.workspaceId
    refreshTokenEnc :=
      match given (login.tokens.refresh_token.map Text.trim) with
      | some refreshToken =>
        some (encryptToken refreshToken login.encryptionKey login.identityId
          .refresh)
      | none => identity.refreshTokenEnc
    refreshLeaseId := none
    refreshLeaseExpiresAt := none
    written := identity.written + 1 }

end DelegationIdentity

namespace DelegationState

variable (state : DelegationState)

def claimed (id : Text) (now : Int) : DelegationState :=
  { state with
    rows := state.rows.map fun row =>
      if row.Claimable id now then row.withLease state.nextLease now else row
    nextLease := state.nextLease + 1
    grants :=
      (state.rows.filter fun row => row.Claimable id now).map
        (fun row => (state.nextLease, row.refreshTokenEnc)) ++ state.grants }

def underLease (id : Text) (leaseId : Nat)
    (update : DelegationIdentity → DelegationIdentity) : DelegationState :=
  { state with
    rows := state.rows.map fun row =>
      if row.Leased id leaseId then update row else row }

def storeLogin (login : Login) : DelegationState × DelegationOutcome :=
  match login.check state.now with
  | .error result => (state, .done result)
  | .ok (accessToken, scope, expiresAt) =>
    ({ state with
        rows := state.rows.map fun row =>
          if row.id = login.identityId then
            row.loggedIn login accessToken scope expiresAt
          else row },
      .done .finished)

end DelegationState

namespace DelegationCall

def statement (call : DelegationCall) (state : DelegationState) :
    DelegationState × DelegationOutcome :=
  match call with
  | .readIdentity request =>
    (state,
      if request.encryptionKey = [] then
        .done (.thrown (.unavailable
          "Accounts OAuth delegation encryption is not configured".toList))
      else afterRead request state.now
        (identityForUser state.rows request.userId request.issuer))
  | .claim refreshing now =>
    (state.claimed refreshing.identity.id now,
      if state.rows.any fun row => row.Claimable refreshing.identity.id now then
        .next (.exchange refreshing state.nextLease)
      else .next (.wait refreshing.request 0))
  | .wait request attempt =>
    (state, afterWait request attempt state.now
      (identityForUser state.rows request.userId request.issuer))
  | .exchange refreshing leaseId =>
    match decryptEnvelope refreshing.refreshTokenEnc
        refreshing.request.encryptionKey
        (tokenSalt refreshing.identity.id .refresh) with
    | none =>
      (state, .next (.release refreshing leaseId (.other "decrypt".toList)))
    | some refreshToken =>
      let reply := refreshing.request.reply
      ({ state with server := state.server.exchange refreshToken reply },
        afterResponse refreshing leaseId state.now reply.response)
  | .clear refreshing leaseId error =>
    if refreshing.request.clearFails then
      (state, .next (.release refreshing leaseId (.other "database".toList)))
    else
      (state.underLease refreshing.identity.id leaseId
        DelegationIdentity.cleared,
        .next (.release refreshing leaseId error))
  | .store refreshing leaseId columns =>
    if refreshing.request.storeFails then
      (state, .next (.release refreshing leaseId (.other "database".toList)))
    else
      (state.underLease refreshing.identity.id leaseId fun row =>
        row.refreshed columns,
        match refreshing.identity.delegatedSubjectId
            refreshing.request.issuer with
        | none => .next (.release refreshing leaseId subjectError)
        | some subjectId =>
          .done (.authorized columns.accessToken refreshing.workspaceId
            subjectId))
  | .release refreshing leaseId error =>
    (state.underLease refreshing.identity.id leaseId
      DelegationIdentity.withoutLease, .done (.thrown error))
  | .issue login =>
    ({ state with
        server := state.server.issue login.tokens login.workspaceId },
      .next (.storeLogin login))
  | .storeLogin login => state.storeLogin login
  | .tick elapsed => ({ state with now := state.now + elapsed }, .done .finished)

inductive Starts : DelegationCall → Prop where
  | authorization (request : AuthorizationRequest) :
      Starts (.readIdentity request)
  | login (login : Login) : Starts (.issue login)
  | tick (elapsed : Nat) : Starts (.tick elapsed)

end DelegationCall

def delegationProgram :
    Program DelegationState DelegationCall DelegationResult where
  starts := DelegationCall.Starts
  statement := DelegationCall.statement

end Takos.Delegations
