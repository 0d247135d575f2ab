import Takos.Foundation.OrderedMap
import Takos.Foundation.Text
import Mathlib.Logic.Function.Basic

/-!
# The session object

Sessions and login states in memory and in storage, and one alarm slot.  Requests
and the alarm run one at a time.  A handler that throws leaves the object as it
was at that point.  Beside the object, a log of the entries that were created and
the keys that were deleted.
-/

namespace Takos.DurableObjects

open Takos.Foundation

structure Session where
  id : Text
  userId : Text
  expiresAt : Int
  createdAt : Int
  lastRotatedAt : Option Int
  deriving DecidableEq

structure OIDCState where
  state : Text
  nonce : Text
  codeVerifier : Text
  returnTo : Text
  expiresAt : Int
  cliCallback : Option Text
  deriving DecidableEq

inductive EntryKind where
  | session | oidcState
  deriving DecidableEq

inductive Entry where
  | session (session : Session)
  | oidcState (oidcState : OIDCState)
  deriving DecidableEq

namespace Entry

def kind : Entry → EntryKind
  | .session _ => .session
  | .oidcState _ => .oidcState

def key : Entry → Text
  | .session value => value.id
  | .oidcState value => value.state

def expiresAt : Entry → Int
  | .session value => value.expiresAt
  | .oidcState value => value.expiresAt

end Entry

def SESSION_PREFIX : Text := "session:".toList

def OIDC_PREFIX : Text := "oidc:".toList

def EntryKind.storagePrefix : EntryKind → Text
  | session => SESSION_PREFIX
  | oidcState => OIDC_PREFIX

def storageKey (kind : EntryKind) (key : Text) : Text :=
  kind.storagePrefix ++ key

/-- The kind and the key of a stored entry, as the constructor reads them. -/
def readKey (stored : Text) : Option (EntryKind × Text) :=
  if Text.startsWith stored SESSION_PREFIX then
    some (.session, stored.drop SESSION_PREFIX.length)
  else if Text.startsWith stored OIDC_PREFIX then
    some (.oidcState, stored.drop OIDC_PREFIX.length)
  else none

/-- The key of a stored entry, where it is of the kind. -/
def keyOf (kind : EntryKind) (stored : Text) : Option Text :=
  match readKey stored with
  | some (other, key) => if other = kind then some key else none
  | none => none

inductive StorageCall where
  | put | delete | getAlarm | setAlarm
  deriving DecidableEq

/-- Which calls of a handler fail.  No handler makes one of them twice. -/
abbrev Faults := StorageCall → Bool

inductive SessionLogEntry where
  | created (entry : Entry)
  | deleted (kind : EntryKind) (key : Text)

/-- The log is newest first, and no handler reads it. -/
structure SessionObject where
  memory : EntryKind → OrderedMap Text Entry
  storage : OrderedMap Text Entry
  alarm : Option Int
  log : List SessionLogEntry

/-- A handler that throws gives back the object it leaves. -/
abbrev Attempted := Except SessionObject SessionObject

def MAX_DELETED_KEYS : Nat := 128

namespace SessionObject

variable (object : SessionObject)

def setMemory (kind : EntryKind) (map : OrderedMap Text Entry) :
    SessionObject :=
  { object with memory := Function.update object.memory kind map }

def put (faults : Faults) (key : Text) (entry : Entry) : Attempted :=
  if faults .put then .error object
  else .ok { object with storage := object.storage.set key entry }

/-- One call takes a bounded number of keys. -/
def deleteKeys (faults : Faults) (keys : List Text) : Attempted :=
  if faults .delete ∨ MAX_DELETED_KEYS < keys.length then .error object
  else
    .ok { object with
      storage := keys.foldl (fun storage key => storage.delete key)
        object.storage }

def setAlarm (faults : Faults) (time : Int) : Attempted :=
  if faults .setAlarm then .error object
  else .ok { object with alarm := some time }

/-- `persistSession` and `persistOidcState`. -/
def persist (faults : Faults) (kind : EntryKind) (key : Text) : Attempted :=
  match (object.memory kind).get? key with
  | some entry => object.put faults (storageKey kind key) entry
  | none => object.deleteKeys faults [storageKey kind key]

/-- `deleteSession` and `deleteOidcState`. -/
def deleteEntry (faults : Faults) (kind : EntryKind) (key : Text) : Attempted :=
  (object.setMemory kind ((object.memory kind).delete key)).deleteKeys faults
    [storageKey kind key]

def expiries : List Int :=
  ((object.memory .session).entries ++ (object.memory .oidcState).entries).map
    fun entry => entry.2.expiresAt

/-- An alarm at time zero counts as none. -/
def scheduleCleanupAlarm (faults : Faults) (now : Int) : Attempted :=
  if faults .getAlarm then .error object
  else if object.alarm.any (fun existing => existing ≠ 0) then .ok object
  else
    match object.expiries.min? with
    | none => .ok object
    | some earliestExpiry =>
      object.setAlarm faults (max earliestExpiry (now + 1000))

/-- `getIfValid`, where the flag tells an entry that has to be evicted. -/
def getIfValid (kind : EntryKind) (key : Text) (now : Int) :
    Option Entry × Bool :=
  match (object.memory kind).get? key with
  | none => (none, false)
  | some entry =>
    if entry.expiresAt < now then (none, true) else (some entry, false)

/-- A live session is left as it is; a login state is not. -/
def creates (entry : Entry) (now : Int) : Bool :=
  match entry.kind with
  | .session =>
    !((object.memory .session).get? entry.key).any fun existing =>
      now ≤ existing.expiresAt
  | .oidcState => true

def create (faults : Faults) (entry : Entry) (now : Int) : Attempted :=
  let remembered :=
    { object.setMemory entry.kind
        ((object.memory entry.kind).set entry.key entry) with
      log := .created entry :: object.log }
  (remembered.persist faults entry.kind entry.key).bind fun stored =>
    stored.scheduleCleanupAlarm faults now

def remove (faults : Faults) (kind : EntryKind) (key : Text) : Attempted :=
  { object with log := .deleted kind key :: object.log }.deleteEntry faults
    kind key

def isExpired (now : Int) (entry : Text × Entry) : Bool :=
  entry.2.expiresAt < now

/-- `keysToDelete`. -/
def expiredKeys (now : Int) : List Text :=
  ((object.memory .session).entries.filter (isExpired now)).map
      (fun entry => storageKey .session entry.1) ++
    ((object.memory .oidcState).entries.filter (isExpired now)).map
      (fun entry => storageKey .oidcState entry.1)

def forgetExpired (now : Int) : SessionObject :=
  { object with
    memory := fun kind => (object.memory kind).filterMap fun entry =>
      if entry.expiresAt < now then none else some entry }

/-- `alarm()`, which runs with the slot empty. -/
def runAlarm (faults : Faults) (now : Int) : Attempted :=
  let running := { object with alarm := none }
  let keysToDelete := running.expiredKeys now
  let forgotten := running.forgetExpired now
  (if keysToDelete ≠ [] then forgotten.deleteKeys faults keysToDelete
    else .ok forgotten).bind fun cleaned =>
      cleaned.scheduleCleanupAlarm faults now

/-- The constructor reads the storage. -/
def restart : SessionObject :=
  { object with
    memory := fun kind =>
      OrderedMap.ofList (object.storage.entries.filterMap fun entry =>
        (keyOf kind entry.1).map fun key => (key, entry.2)) }

end SessionObject

/-- The clock may be read once more when the alarm is set. -/
inductive SessionAction where
  | create (entry : Entry) (now scheduled : Int) (faults : Faults)
  | get (kind : EntryKind) (key : Text) (now : Int) (faults : Faults)
  | delete (kind : EntryKind) (key : Text) (faults : Faults)
  | alarm (now : Int) (faults : Faults) (retryAt : Int)
  | restart

inductive SessionResponse where
  | failed
  | success
  | existing
  | found (entry : Option Entry)
  deriving DecidableEq

def answer (response : SessionResponse) :
    Attempted → SessionObject × SessionResponse
  | .ok object => (object, response)
  | .error object => (object, .failed)

/-- The platform sets the alarm again when its handler has thrown. -/
def retried (retryAt : Int) : Attempted → SessionObject × SessionResponse
  | .ok object => (object, .success)
  | .error object => ({ object with alarm := some retryAt }, .failed)

def perform (object : SessionObject) :
    SessionAction → SessionObject × SessionResponse
  | .create entry now scheduled faults =>
    if object.creates entry now then
      answer .success (object.create faults entry scheduled)
    else (object, .existing)
  | .get kind key now faults =>
    match object.getIfValid kind key now with
    | (found, true) =>
      answer (.found found) (object.deleteEntry faults kind key)
    | (found, false) => (object, .found found)
  | .delete kind key faults =>
    answer .success (object.remove faults kind key)
  | .alarm now faults retryAt => retried retryAt (object.runAlarm faults now)
  | .restart => (object.restart, .success)

def SessionObject.initial : SessionObject :=
  ⟨fun _ => .empty, .empty, none, []⟩

/-- The objects that runs of allowed actions reach. -/
inductive Reached (allowed : SessionObject → SessionAction → Prop) :
    SessionObject → Prop where
  | initial : Reached allowed .initial
  | action {object : SessionObject} {action : SessionAction}
      (earlier : Reached allowed object) (permitted : allowed object action) :
      Reached allowed (perform object action).1

end Takos.DurableObjects
