import Takos.DurableObjects.SessionStore
import Takos.Foundation.Interleaving

/-!
# Requests with a session cookie

A request asks the blacklist, loads the session and its user, and after an hour
mints a successor of the session, deletes the session and blacklists its id.  A
logout blacklists an id and deletes its session.  A call to the object of a
session or to the database is a single statement, and may fail.

The state also records logins, minted sessions with their predecessors, the ids
that were drawn or presented to a logout, and the ids whose rotation or logout
has come to its end; no call reads any of these.
-/

namespace Takos.Identity

open Takos.Foundation Takos.DurableObjects

/-- `^[A-Za-z0-9_-]+$`. -/
def isIdChar (char : Char) : Bool := char.isAlphanum || char = '_' || char = '-'

def MIN_SESSION_ID_LENGTH : Nat := 16

def MAX_SESSION_ID_LENGTH : Nat := 128

def MAX_USER_ID_LENGTH : Nat := 128

def normalizeSessionId (raw : Text) : Option Text :=
  let value := Text.trim raw
  if value = [] ∨ Text.size value < MIN_SESSION_ID_LENGTH ∨
      MAX_SESSION_ID_LENGTH < Text.size value then none
  else if value.all isIdChar then some value else none

/-- `isValidSessionUserId` and `isValidUserId`. -/
def isValidUserId (raw : Text) : Bool :=
  let value := Text.trim raw
  value ≠ [] && Text.size value ≤ MAX_USER_ID_LENGTH && value.all isIdChar

def isValidSessionPayload (session : Session) : Bool :=
  normalizeSessionId session.id = some session.id &&
    isValidUserId session.userId && 0 < session.expiresAt &&
    0 < session.createdAt && session.lastRotatedAt.all (0 < ·)

def SESSION_COOKIE_NAME : Text := "__Host-tp_session".toList

def cookieValue (name : Text) : List Text → Option Text
  | [] => none
  | cookie :: rest =>
    if '=' ∈ cookie ∧ cookie.takeWhile (· ≠ '=') = name then
      some ((cookie.dropWhile (· ≠ '=')).drop 1)
    else cookieValue name rest

def getSessionIdFromCookie (cookieHeader : Option Text) : Option Text :=
  cookieHeader.bind fun header =>
    (cookieValue SESSION_COOKIE_NAME
      ((Text.split ';' header).map Text.trim)).bind normalizeSessionId

def SHARD_COUNT : Nat := 16

/-- FNV-1a. -/
def getShardId (key : Text) : Nat :=
  key.codeUnits.foldl
    (fun hash unit => ((hash ^^^ unit) * 0x01000193) % 2 ^ 32) 0x811c9dc5 %
      SHARD_COUNT

def SESSION_ROTATION_INTERVAL_MS : Int := 60 * 60 * 1000

def SESSION_TTL_MS : Int := 7 * 24 * 60 * 60 * 1000

def shouldRotateSession (session : Session) (now : Int) : Bool :=
  SESSION_ROTATION_INTERVAL_MS ≤
    now - session.lastRotatedAt.getD session.createdAt

/-- A call fails before it arrives, after it was served, or inside of the object. -/
inductive CallFault where
  | unreached
  | lost
  | storage (faults : Faults)

inductive AuthStep where
  | checkRevoked | load | loadUser | create | delete | record
  deriving DecidableEq

/-- At most one call of a request fails. -/
abbrev Failing := Option (AuthStep × CallFault)

def Failing.at (failing : Failing) (step : AuthStep) : Option CallFault :=
  failing.bind fun (failed, fault) => if failed = step then some fault else none

/-- `rotates` tells `resolveRequestUser` from `requireAnyAuth`, and `active`
whether the user of the session has an active account; `drawn` is the id that a
rotation draws. -/
structure AuthRequest where
  cookie : Option Text
  rotates : Bool
  active : Bool
  drawn : Text
  failing : Failing

structure LogoutRequest where
  cookie : Option Text
  failing : Failing

structure LoginRequest where
  userId : Text
  drawn : Text
  failing : Failing

/-- Calls by the statement that they execute next. -/
inductive AuthCall where
  | checkRevoked (request : AuthRequest) (sessionId : Text)
  | load (request : AuthRequest) (sessionId : Text)
  | loadUser (request : AuthRequest) (sessionId : Text) (session : Session)
  | create (request : AuthRequest) (sessionId : Text) (session next : Session)
  | deletePrevious (request : AuthRequest) (sessionId : Text)
      (session next : Session)
  | recordRotation (request : AuthRequest) (sessionId : Text)
      (session next : Session)
  | recordLogout (request : LogoutRequest) (sessionId : Text)
  | deleteLogout (request : LogoutRequest) (sessionId : Text)
  | startLogin (request : LoginRequest)
  | createLogin (request : LoginRequest) (session : Session)
  | alarm (shard : Nat) (faults : Faults) (retryAt : Int)
  | restart (shard : Nat)
  | tick (elapsed : Nat)

inductive AuthResult where
  | revoked
  | noSession
  | userNotFound
  | failed
  | authenticated (sessionId : Text) (rotatedSessionId : Option Text)
  | loggedOut (sessionId : Text)
  | loggedIn (session : Session)
  | finished

abbrev AuthOutcome := Outcome AuthCall AuthResult

structure AuthState where
  objects : Nat → SessionObject
  revoked : List Text
  now : Int
  logins : List Session
  minted : List (Session × Session)
  known : List Text
  retired : List Text

namespace AuthState

variable (state : AuthState)

def setObject (shard : Nat) (object : SessionObject) : AuthState :=
  { state with objects := Function.update state.objects shard object }

def callObject (sessionId : Text) (action : Faults → SessionAction)
    (fault : Option CallFault) : AuthState × SessionResponse :=
  let shard := getShardId sessionId
  let serve (faults : Faults) : AuthState × SessionResponse :=
    let served := perform (state.objects shard) (action faults)
    (state.setObject shard served.1, served.2)
  match fault with
  | none => serve fun _ => false
  | some .unreached => (state, .failed)
  | some .lost => ((serve fun _ => false).1, .failed)
  | some (.storage faults) => serve faults

def deleteSession (sessionId : Text) (fault : Option CallFault) : AuthState :=
  match normalizeSessionId sessionId with
  | none => state
  | some normalized =>
    (state.callObject normalized (fun faults => .delete .session normalized faults)
      fault).1

/-- An insert that fails may have been executed. -/
def recordSessionRevocation (sessionId : Text) (fault : Option CallFault) :
    AuthState :=
  match fault with
  | none | some .lost => { state with revoked := sessionId :: state.revoked }
  | some .unreached | some (.storage _) => state

def retire (sessionId : Text) : AuthState :=
  { state with retired := sessionId :: state.retired }

end AuthState

/-- A valid session in the response of the object. -/
def loadedSession : SessionResponse → Option Session
  | .found (some (.session session)) =>
    if isValidSessionPayload session then some session else none
  | _ => none

def createdOk (response : SessionResponse) : Bool :=
  response = .success || response = .existing

/-- The session that `rotateSession` mints. -/
def successor (previous : Session) (drawn : Text) (now : Int) : Session :=
  { id := drawn
    userId := previous.userId
    expiresAt := previous.expiresAt
    createdAt := previous.createdAt
    lastRotatedAt := some now }

def newSession (request : LoginRequest) (now : Int) : Session :=
  { id := request.drawn
    userId := request.userId
    expiresAt := now + SESSION_TTL_MS
    createdAt := now
    lastRotatedAt := some now }

namespace AuthCall

def statement (call : AuthCall) (state : AuthState) :
    AuthState × AuthOutcome :=
  match call with
  | .checkRevoked request sessionId =>
    (state,
      -- A blacklist that cannot be asked counts as a hit.
      if (request.failing.at .checkRevoked).isSome ∨ sessionId ∈ state.revoked then
        .done .revoked
      else .next (.load request sessionId))
  | .load request sessionId =>
    let (after, response) := state.callObject sessionId
      (fun faults => .get .session sessionId state.now faults)
      (request.failing.at .load)
    (after,
      match loadedSession response with
      | none => .done .noSession
      | some session => .next (.loadUser request sessionId session))
  | .loadUser request sessionId session =>
    (state,
      if (request.failing.at .loadUser).isSome then .done .failed
      else if !request.active then .done .userNotFound
      else if request.rotates ∧ shouldRotateSession session state.now then
        .next (.create request sessionId session
          (successor session request.drawn state.now))
      else .done (.authenticated sessionId none))
  | .create request sessionId session next =>
    let (after, response) := state.callObject next.id
      (fun faults => .create (.session next) state.now state.now faults)
      (request.failing.at .create)
    ({ after with
        minted := (session, next) :: state.minted
        known := next.id :: state.known },
      if createdOk response then
        .next (.deletePrevious request sessionId session next)
      else .done (.authenticated sessionId none))
  | .deletePrevious request sessionId session next =>
    (state.deleteSession session.id (request.failing.at .delete),
      .next (.recordRotation request sessionId session next))
  | .recordRotation request sessionId _ next =>
    ((state.recordSessionRevocation sessionId
        (request.failing.at .record)).retire sessionId,
      .done (.authenticated sessionId (some next.id)))
  | .recordLogout request sessionId =>
    ({ state.recordSessionRevocation sessionId (request.failing.at .record) with
        known := sessionId :: state.known },
      .next (.deleteLogout request sessionId))
  | .deleteLogout request sessionId =>
    ((state.deleteSession sessionId (request.failing.at .delete)).retire
        sessionId,
      .done (.loggedOut sessionId))
  | .startLogin request =>
    (state, .next (.createLogin request (newSession request state.now)))
  | .createLogin request session =>
    let (after, response) := state.callObject session.id
      (fun faults => .create (.session session) state.now state.now faults)
      (request.failing.at .create)
    ({ after with
        logins := session :: state.logins
        known := session.id :: state.known },
      if createdOk response then .done (.loggedIn session) else .done .failed)
  | .alarm shard faults retryAt =>
    (state.setObject shard
      (perform (state.objects shard) (.alarm state.now faults retryAt)).1,
      .done .finished)
  | .restart shard =>
    (state.setObject shard (perform (state.objects shard) .restart).1,
      .done .finished)
  | .tick elapsed => ({ state with now := state.now + elapsed }, .done .finished)

inductive Starts : AuthCall → Prop where
  | request (request : AuthRequest) {sessionId : Text} :
      getSessionIdFromCookie request.cookie = some sessionId →
      Starts (.checkRevoked request sessionId)
  | logout (request : LogoutRequest) {sessionId : Text} :
      getSessionIdFromCookie request.cookie = some sessionId →
      Starts (.recordLogout request sessionId)
  | login (request : LoginRequest) : Starts (.startLogin request)
  | alarm (shard : Nat) (faults : Faults) (retryAt : Int) :
      Starts (.alarm shard faults retryAt)
  | restart (shard : Nat) : Starts (.restart shard)
  | tick (elapsed : Nat) : Starts (.tick elapsed)

end AuthCall

def authProgram : Program AuthState AuthCall AuthResult where
  starts := AuthCall.Starts
  statement := AuthCall.statement

def AuthState.initial (now : Int) : AuthState :=
  { objects := fun _ => .initial, revoked := [], now, logins := [], minted := []
    known := [], retired := [] }

end Takos.Identity
