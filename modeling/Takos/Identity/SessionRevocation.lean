import Takos.DurableObjects.SessionHoldings
import Takos.Identity.SessionRotation
import Mathlib.Logic.Relation

/-!
# Retired session ids

A rotation or a logout that comes to its end has blacklisted the id or deleted
its session, since at most one of its calls has failed.  Neither is taken back.
So a request that starts later is not authenticated by the id, and mints nothing
from it.  Requests that overlap the rotation or the logout still may.
-/

namespace Takos.Identity

open Takos.Foundation Takos.DurableObjects Relation

/-- Session ids are drawn once, and nobody presents one before. -/
def FreshIds (state : AuthState) (event : Program.Event AuthCall)
    (_ : List AuthCall) : Prop :=
  match event with
  | .run (.create _ _ _ next) => next.id ∉ state.known
  | .run (.createLogin _ session) => session.id ∉ state.known
  | _ => True

/-- No object holds a session of the id. -/
def Gone (state : AuthState) (sessionId : Text) : Prop :=
  ∀ entry, ¬Holds (state.objects (getShardId sessionId)) .session sessionId
    entry

/-- Everything but the objects and the blacklist. -/
structure SameRecords (before after : AuthState) : Prop where
  logins : after.logins = before.logins
  minted : after.minted = before.minted
  known : after.known = before.known
  retired : after.retired = before.retired

/-- What an object may hold after a call. -/
def Adds (before after : AuthState) (added : Option Session) : Prop :=
  ∀ shard kind key entry, Holds (after.objects shard) kind key entry →
    Holds (before.objects shard) kind key entry ∨
      ∃ session ∈ added, entry = .session session ∧ kind = .session ∧
        key = session.id ∧ shard = getShardId session.id

section Objects

variable {state : AuthState}

theorem Adds.none_refl (state : AuthState) : Adds state state none :=
  fun _ _ _ _ held => .inl held

theorem setObject_adds {shard : Nat} {object : SessionObject}
    {added : Option Session}
    (holds : ∀ kind key entry, Holds object kind key entry →
      Holds (state.objects shard) kind key entry ∨
        ∃ session ∈ added, entry = .session session ∧ kind = .session ∧
          key = session.id ∧ shard = getShardId session.id) :
    Adds state (state.setObject shard object) added := by
  intro other kind key entry held
  by_cases same : other = shard
  · subst same
    apply holds
    simpa [AuthState.setObject] using held
  · left
    simpa [AuthState.setObject, Function.update_of_ne same] using held

theorem setObject_perform {shard : Nat} {action : SessionAction}
    (creates : ∀ entry now scheduled faults,
      action ≠ .create entry now scheduled faults) :
    Adds state
      (state.setObject shard (perform (state.objects shard) action).1) none := by
  apply setObject_adds
  intro kind key entry held
  rcases perform_holds held with old | ⟨⟨now, scheduled, faults, same⟩, _⟩
  · exact .inl old
  · exact absurd same (creates entry now scheduled faults)

variable {sessionId : Text} {action : Faults → SessionAction}

theorem callObject_same (fault : Option CallFault) :
    SameRecords state (state.callObject sessionId action fault).1 ∧
      (state.callObject sessionId action fault).1.revoked = state.revoked := by
  unfold AuthState.callObject
  cases fault with
  | none => exact ⟨⟨rfl, rfl, rfl, rfl⟩, rfl⟩
  | some fault => cases fault <;> exact ⟨⟨rfl, rfl, rfl, rfl⟩, rfl⟩

theorem callObject_adds {added : Option Session} (fault : Option CallFault)
    (creates : ∀ faults entry now scheduled other,
      action faults = .create entry now scheduled other →
        ∃ session ∈ added, entry = .session session ∧
          session.id = sessionId) :
    Adds state (state.callObject sessionId action fault).1 added := by
  have served : ∀ faults, Adds state (state.setObject (getShardId sessionId)
      (perform (state.objects (getShardId sessionId)) (action faults)).1)
        added := by
    intro faults
    apply setObject_adds
    intro kind key entry held
    rcases perform_holds held with old | ⟨⟨now, scheduled, other, same⟩,
      ofKind, ofKey⟩
    · exact .inl old
    · right
      obtain ⟨session, member, rfl, id⟩ := creates faults _ _ _ _ same
      exact ⟨session, member, rfl, ofKind.symm, ofKey.symm, by rw [id]⟩
  unfold AuthState.callObject
  cases fault with
  | none => exact served _
  | some fault =>
      cases fault with
      | unreached => exact fun _ _ _ _ held => .inl held
      | lost => exact served _
      | storage faults => exact served faults

theorem callObject_loaded {now : Int} {fault : Option CallFault}
    {session : Session}
    (loaded : loadedSession (state.callObject sessionId
      (fun faults => .get .session sessionId now faults) fault).2 =
        some session) :
    Holds (state.objects (getShardId sessionId)) .session sessionId
        (.session session) ∧
      normalizeSessionId session.id = some session.id := by
  have served : ∀ faults, loadedSession (perform
      (state.objects (getShardId sessionId))
        (.get .session sessionId now faults)).2 = some session →
      Holds (state.objects (getShardId sessionId)) .session sessionId
          (.session session) ∧
        normalizeSessionId session.id = some session.id := by
    intro faults loaded
    unfold loadedSession at loaded
    split at loaded
    · rename_i returned
      split at loaded
      · rename_i valid
        cases loaded
        refine ⟨.inl (find_of_get returned).1, ?_⟩
        simp only [isValidSessionPayload, Bool.and_eq_true,
          decide_eq_true_eq] at valid
        exact valid.1.1.1.1
      · cases loaded
    · cases loaded
  unfold AuthState.callObject at loaded
  cases fault with
  | none => exact served _ loaded
  | some fault =>
      cases fault with
      | unreached => cases loaded
      | lost => cases loaded
      | storage faults => exact served faults loaded

theorem deleteSession_adds (fault : Option CallFault) :
    Adds state (state.deleteSession sessionId fault) none := by
  unfold AuthState.deleteSession
  split
  · exact Adds.none_refl state
  · apply callObject_adds
    intro faults entry now scheduled other impossible
    cases impossible

theorem deleteSession_same (fault : Option CallFault) :
    SameRecords state (state.deleteSession sessionId fault) ∧
      (state.deleteSession sessionId fault).revoked = state.revoked := by
  unfold AuthState.deleteSession
  split
  · exact ⟨⟨rfl, rfl, rfl, rfl⟩, rfl⟩
  · exact callObject_same fault

theorem deleteSession_gone (normal : normalizeSessionId sessionId =
    some sessionId) : Gone (state.deleteSession sessionId none) sessionId := by
  intro entry held
  unfold AuthState.deleteSession at held
  rw [normal] at held
  have object : (state.callObject sessionId
      (fun faults => .delete .session sessionId faults) none).1.objects
        (getShardId sessionId) =
      (perform (state.objects (getShardId sessionId))
        (.delete .session sessionId fun _ => false)).1 := by
    simp [AuthState.callObject, AuthState.setObject]
  dsimp only at held
  rw [object] at held
  exact perform_delete_gone _ _ _ _ held

end Objects

def Issued (state : AuthState) (session : Session) : Prop :=
  session ∈ state.logins ∨ ∃ previous, (previous, session) ∈ state.minted

/-- The session was minted from the login, over any number of rotations. -/
def DescendsFrom (state : AuthState) (login session : Session) : Prop :=
  ReflTransGen (fun previous next => (previous, next) ∈ state.minted) login
    session

/-- The id is blacklisted, or its session is gone. -/
def Safe (state : AuthState) (sessionId : Text) : Prop :=
  sessionId ∈ state.revoked ∨ Gone state sessionId

structure AuthSound (state : AuthState) : Prop where
  held : ∀ shard kind key entry, Holds (state.objects shard) kind key entry →
    ∃ session, entry = .session session ∧ kind = .session ∧
      key = session.id ∧ Issued state session
  known : ∀ session, Issued state session → session.id ∈ state.known
  origin : ∀ session, Issued state session →
    ∃ login ∈ state.logins, DescendsFrom state login session
  expiry : ∀ previous next, (previous, next) ∈ state.minted →
    next.expiresAt = previous.expiresAt
  retired : ∀ sessionId ∈ state.retired,
    sessionId ∈ state.known ∧ Safe state sessionId

/-- What later states keep of earlier ones. -/
structure Later (before after : AuthState) : Prop where
  logins : ∀ session ∈ before.logins, session ∈ after.logins
  minted : ∀ pair ∈ before.minted, pair ∈ after.minted
  known : ∀ sessionId ∈ before.known, sessionId ∈ after.known
  revoked : ∀ sessionId ∈ before.revoked, sessionId ∈ after.revoked
  gone : ∀ sessionId ∈ before.known, Gone before sessionId →
    Gone after sessionId

section Later

variable {before after : AuthState}

theorem Later.refl (state : AuthState) : Later state state where
  logins := fun _ member => member
  minted := fun _ member => member
  known := fun _ member => member
  revoked := fun _ member => member
  gone := fun _ _ gone => gone

theorem Issued.later (later : Later before after) {session : Session}
    (issued : Issued before session) : Issued after session := by
  rcases issued with login | ⟨previous, minted⟩
  · exact .inl (later.logins session login)
  · exact .inr ⟨previous, later.minted _ minted⟩

theorem DescendsFrom.later (later : Later before after)
    {login session : Session} (descends : DescendsFrom before login session) :
    DescendsFrom after login session :=
  ReflTransGen.mono (fun _ _ minted => later.minted _ minted) _ _ descends

theorem Safe.later (later : Later before after) {sessionId : Text}
    (known : sessionId ∈ before.known) (safe : Safe before sessionId) :
    Safe after sessionId := by
  rcases safe with revoked | gone
  · exact .inl (later.revoked sessionId revoked)
  · exact .inr (later.gone sessionId known gone)

end Later

theorem AuthSound.expiresAt {state : AuthState} (sound : AuthSound state)
    {login session : Session}
    (descends : DescendsFrom state login session) :
    session.expiresAt = login.expiresAt := by
  induction descends with
  | refl => rfl
  | tail _ minted ih => rw [sound.expiry _ _ minted, ih]

/-- A step that changes nothing but what the objects hold, the blacklist, and
which ids are known. -/
theorem sound_of_objects {before after : AuthState} (sound : AuthSound before)
    (adds : Adds before after none)
    (logins : after.logins = before.logins)
    (minted : after.minted = before.minted)
    (known : ∀ sessionId ∈ before.known, sessionId ∈ after.known)
    (revoked : ∀ sessionId ∈ before.revoked, sessionId ∈ after.revoked)
    (retired : ∀ sessionId ∈ after.retired, sessionId ∈ before.retired ∨
      sessionId ∈ before.known ∧ Safe after sessionId) :
    AuthSound after ∧ Later before after := by
  have same : ∀ session, Issued after session ↔ Issued before session := by
    intro session
    unfold Issued
    rw [logins, minted]
  have gone : ∀ sessionId, Gone before sessionId → Gone after sessionId := by
    intro sessionId gone entry held
    rcases adds _ _ _ _ held with old | ⟨session, impossible, _⟩
    · exact gone entry old
    · cases impossible
  have later : Later before after :=
    { logins := fun session member => logins ▸ member
      minted := fun pair member => minted ▸ member
      known := known
      revoked := revoked
      gone := fun sessionId _ => gone sessionId }
  refine ⟨?_, later⟩
  constructor
  · intro shard kind key entry held
    rcases adds _ _ _ _ held with old | ⟨session, impossible, _⟩
    · obtain ⟨session, ofSession, ofKind, ofKey, issued⟩ :=
        sound.held shard kind key entry old
      exact ⟨session, ofSession, ofKind, ofKey, (same session).mpr issued⟩
    · cases impossible
  · intro session issued
    exact known _ (sound.known session ((same session).mp issued))
  · intro session issued
    obtain ⟨login, member, descends⟩ :=
      sound.origin session ((same session).mp issued)
    exact ⟨login, logins ▸ member, descends.later later⟩
  · intro previous next pair
    rw [minted] at pair
    exact sound.expiry previous next pair
  · intro sessionId member
    rcases retired sessionId member with old | ⟨knew, safe⟩
    · obtain ⟨knew, safe⟩ := sound.retired sessionId old
      exact ⟨known _ knew, safe.later later knew⟩
    · exact ⟨known _ knew, safe⟩

theorem sound_of_same {before after : AuthState} (sound : AuthSound before)
    (adds : Adds before after none)
    (same : SameRecords before after ∧ after.revoked = before.revoked) :
    AuthSound after ∧ Later before after := by
  obtain ⟨records, revoked⟩ := same
  apply sound_of_objects sound adds records.logins records.minted
  · rw [records.known]
    exact fun _ member => member
  · rw [revoked]
    exact fun _ member => member
  · rw [records.retired]
    exact fun _ member => .inl member

theorem sound_of_issue {before after : AuthState} (sound : AuthSound before)
    {session : Session} (fresh : session.id ∉ before.known)
    (adds : Adds before after (some session))
    (logins : ∀ login ∈ before.logins, login ∈ after.logins)
    (minted : ∀ pair ∈ before.minted, pair ∈ after.minted)
    (issues : ∀ other, Issued after other →
      Issued before other ∨ other = session)
    (issued : Issued after session)
    (known : after.known = session.id :: before.known)
    (revoked : after.revoked = before.revoked)
    (retired : after.retired = before.retired)
    (origin : ∃ login ∈ after.logins, DescendsFrom after login session)
    (expiry : ∀ previous next, (previous, next) ∈ after.minted →
      (previous, next) ∈ before.minted ∨
        next.expiresAt = previous.expiresAt) :
    AuthSound after ∧ Later before after := by
  have gone : ∀ sessionId ∈ before.known, Gone before sessionId →
      Gone after sessionId := by
    intro sessionId knew gone entry held
    rcases adds _ _ _ _ held with old | ⟨other, member, _, _, same, _⟩
    · exact gone entry old
    · cases member
      rw [same] at knew
      exact fresh knew
  have later : Later before after :=
    { logins := logins
      minted := minted
      known := fun sessionId member => by simp [known, member]
      revoked := fun sessionId member => revoked ▸ member
      gone := gone }
  refine ⟨?_, later⟩
  constructor
  · intro shard kind key entry held
    rcases adds _ _ _ _ held with old | ⟨other, member, same, ofKind, ofKey, _⟩
    · obtain ⟨other, ofSession, ofKind, ofKey, was⟩ :=
        sound.held shard kind key entry old
      exact ⟨other, ofSession, ofKind, ofKey, was.later later⟩
    · cases member
      exact ⟨session, same, ofKind, ofKey, issued⟩
  · intro other is
    rw [known]
    rcases issues other is with was | rfl
    · exact List.mem_cons_of_mem _ (sound.known other was)
    · exact List.mem_cons_self
  · intro other is
    rcases issues other is with was | rfl
    · obtain ⟨login, member, descends⟩ := sound.origin other was
      exact ⟨login, logins login member, descends.later later⟩
    · exact origin
  · intro previous next pair
    rcases expiry previous next pair with old | same
    · exact sound.expiry previous next old
    · exact same
  · intro sessionId member
    rw [retired] at member
    obtain ⟨knew, safe⟩ := sound.retired sessionId member
    exact ⟨later.known _ knew, safe.later later knew⟩

structure Loaded (state : AuthState) (sessionId : Text) (session : Session) :
    Prop where
  id : session.id = sessionId
  normal : normalizeSessionId sessionId = some sessionId
  issued : Issued state session

def AuthCall.Sound (state : AuthState) : AuthCall → Prop
  | .loadUser _ sessionId session => Loaded state sessionId session
  | .create _ sessionId session next =>
    Loaded state sessionId session ∧ next.expiresAt = session.expiresAt
  | .deletePrevious _ sessionId session _ => Loaded state sessionId session
  | .recordRotation request sessionId session _ =>
    Loaded state sessionId session ∧
      (request.failing.at .delete = none → Gone state sessionId)
  | .recordLogout _ sessionId => normalizeSessionId sessionId = some sessionId
  | .deleteLogout request sessionId =>
    normalizeSessionId sessionId = some sessionId ∧ sessionId ∈ state.known ∧
      (request.failing.at .record = none → sessionId ∈ state.revoked)
  | _ => True

def OutcomeSound (state : AuthState) : AuthOutcome → Prop
  | .next rest => rest.Sound state
  | .done _ => True

theorem Loaded.known {state : AuthState} (sound : AuthSound state)
    {sessionId : Text} {session : Session}
    (loaded : Loaded state sessionId session) : sessionId ∈ state.known :=
  loaded.id ▸ sound.known session loaded.issued

theorem Loaded.later {before after : AuthState} (later : Later before after)
    {sessionId : Text} {session : Session}
    (loaded : Loaded before sessionId session) :
    Loaded after sessionId session :=
  ⟨loaded.id, loaded.normal, loaded.issued.later later⟩

theorem AuthCall.Sound.later {before after : AuthState}
    (sound : AuthSound before) (later : Later before after) {call : AuthCall}
    (known : call.Sound before) : call.Sound after := by
  cases call with
  | loadUser | deletePrevious => exact Loaded.later later known
  | create request sessionId session next =>
      exact ⟨Loaded.later later known.1, known.2⟩
  | recordRotation request sessionId session next =>
      obtain ⟨loaded, deleted⟩ := known
      exact ⟨loaded.later later, fun works =>
        later.gone sessionId (loaded.known sound) (deleted works)⟩
  | recordLogout request sessionId => exact known
  | deleteLogout request sessionId =>
      obtain ⟨normal, knew, recorded⟩ := known
      exact ⟨normal, later.known _ knew, fun works =>
        later.revoked _ (recorded works)⟩
  | _ => trivial

theorem Failing.at_or (failing : Failing) {first second : AuthStep}
    (different : first ≠ second) :
    failing.at first = none ∨ failing.at second = none := by
  unfold Failing.at
  cases failing with
  | none => exact .inl rfl
  | some failed =>
      obtain ⟨step, fault⟩ := failed
      by_cases same : step = first
      · right
        simp [same, different]
      · left
        simp [same]

theorem normalizeSessionId_idem {raw sessionId : Text}
    (normalized : normalizeSessionId raw = some sessionId) :
    normalizeSessionId sessionId = some sessionId := by
  simp only [normalizeSessionId] at normalized
  split at normalized
  · cases normalized
  · rename_i bounds
    split at normalized
    · rename_i allowed
      cases normalized
      simp only [normalizeSessionId, Text.trim_idem]
      rw [if_neg bounds, if_pos allowed]
    · cases normalized

theorem normal_of_cookie {cookie : Option Text} {sessionId : Text}
    (presented : getSessionIdFromCookie cookie = some sessionId) :
    normalizeSessionId sessionId = some sessionId := by
  obtain ⟨header, _, parsed⟩ := Option.bind_eq_some_iff.mp presented
  obtain ⟨value, _, normalized⟩ := Option.bind_eq_some_iff.mp parsed
  exact normalizeSessionId_idem normalized

structure AuthStatement (before after : AuthState) (outcome : AuthOutcome) :
    Prop where
  sound : AuthSound after
  later : Later before after
  next : OutcomeSound after outcome

theorem AuthStatement.quiet {state : AuthState} {outcome : AuthOutcome}
    (sound : AuthSound state) (next : OutcomeSound state outcome) :
    AuthStatement state state outcome :=
  ⟨sound, .refl state, next⟩

section Statements

variable {state : AuthState}

theorem load_statement (sound : AuthSound state) (request : AuthRequest)
    (sessionId : Text) :
    AuthStatement state ((AuthCall.load request sessionId).statement state).1
      ((AuthCall.load request sessionId).statement state).2 := by
  let called := state.callObject sessionId
    (fun faults => .get .session sessionId state.now faults)
    (request.failing.at .load)
  have adds : Adds state called.1 none := by
    apply callObject_adds
    intro faults entry now scheduled other impossible
    cases impossible
  obtain ⟨after, later⟩ := sound_of_same sound adds (callObject_same _)
  refine ⟨after, later, ?_⟩
  simp only [AuthCall.statement]
  split
  · trivial
  · rename_i session loaded
    obtain ⟨held, normal⟩ := callObject_loaded loaded
    obtain ⟨other, same, _, id, issued⟩ := sound.held _ _ _ _ held
    cases same
    exact ⟨id.symm, id ▸ normal, issued.later later⟩

theorem create_statement (sound : AuthSound state) {request : AuthRequest}
    {sessionId : Text} {session next : Session}
    (loaded : Loaded state sessionId session)
    (expiry : next.expiresAt = session.expiresAt)
    (fresh : next.id ∉ state.known) :
    AuthStatement state
      ((AuthCall.create request sessionId session next).statement state).1
      ((AuthCall.create request sessionId session next).statement state).2 := by
  let called := state.callObject next.id
    (fun faults => .create (.session next) state.now state.now faults)
    (request.failing.at .create)
  let after : AuthState :=
    { called.1 with
      minted := (session, next) :: state.minted
      known := next.id :: state.known }
  obtain ⟨same, sameRevoked⟩ : SameRecords state called.1 ∧
      called.1.revoked = state.revoked := callObject_same _
  have adds : Adds state after (some next) := by
    apply callObject_adds
    intro faults entry now scheduled other same
    cases same
    exact ⟨next, rfl, rfl, rfl⟩
  have logins : after.logins = state.logins := same.logins
  obtain ⟨login, member, descends⟩ := sound.origin session loaded.issued
  have minted : ∀ pair ∈ state.minted, pair ∈ after.minted :=
    fun pair old => List.mem_cons_of_mem _ old
  obtain ⟨soundAfter, later⟩ := sound_of_issue sound fresh adds
    (by rw [logins]; exact fun _ member => member) minted
    (by
      rintro other (login | ⟨previous, pair⟩)
      · exact .inl (.inl (logins ▸ login))
      · rcases List.mem_cons.mp pair with same | old
        · cases same
          exact .inr rfl
        · exact .inl (.inr ⟨previous, old⟩))
    (.inr ⟨session, List.mem_cons_self⟩) rfl
    sameRevoked same.retired
    ⟨login, logins ▸ member,
      ReflTransGen.tail
        (ReflTransGen.mono (fun _ _ pair => minted _ pair) _ _ descends)
        List.mem_cons_self⟩
    (by
      intro previous other pair
      rcases List.mem_cons.mp pair with same | old
      · cases same
        exact .inr expiry
      · exact .inl old)
  refine ⟨soundAfter, later, ?_⟩
  change OutcomeSound after (if createdOk called.2 then
    .next (.deletePrevious request sessionId session next)
    else .done (.authenticated sessionId none))
  split
  · exact loaded.later later
  · trivial

theorem createLogin_statement (sound : AuthSound state)
    {request : LoginRequest} {session : Session}
    (fresh : session.id ∉ state.known) :
    AuthStatement state
      ((AuthCall.createLogin request session).statement state).1
      ((AuthCall.createLogin request session).statement state).2 := by
  let called := state.callObject session.id
    (fun faults => .create (.session session) state.now state.now faults)
    (request.failing.at .create)
  let after : AuthState :=
    { called.1 with
      logins := session :: state.logins
      known := session.id :: state.known }
  obtain ⟨same, sameRevoked⟩ : SameRecords state called.1 ∧
      called.1.revoked = state.revoked := callObject_same _
  have adds : Adds state after (some session) := by
    apply callObject_adds
    intro faults entry now scheduled other same
    cases same
    exact ⟨session, rfl, rfl, rfl⟩
  have minted : after.minted = state.minted := same.minted
  obtain ⟨soundAfter, later⟩ := sound_of_issue sound fresh adds
    (fun login old => List.mem_cons_of_mem _ old)
    (by rw [minted]; exact fun _ member => member)
    (by
      rintro other (login | ⟨previous, pair⟩)
      · rcases List.mem_cons.mp login with same | old
        · exact .inr same
        · exact .inl (.inl old)
      · exact .inl (.inr ⟨previous, minted ▸ pair⟩))
    (.inl List.mem_cons_self) rfl
    sameRevoked same.retired
    ⟨session, List.mem_cons_self, .refl⟩
    (by
      intro previous other pair
      exact .inl (minted ▸ pair))
  refine ⟨soundAfter, later, ?_⟩
  change OutcomeSound after (if createdOk called.2 then
    .done (.loggedIn session) else .done .failed)
  split <;> trivial

theorem deletePrevious_statement (sound : AuthSound state)
    {request : AuthRequest} {sessionId : Text} {session next : Session}
    (loaded : Loaded state sessionId session) :
    AuthStatement state
      ((AuthCall.deletePrevious request sessionId session next).statement
        state).1
      ((AuthCall.deletePrevious request sessionId session next).statement
        state).2 := by
  obtain ⟨soundAfter, later⟩ := sound_of_same sound
    (deleteSession_adds (request.failing.at .delete)) (deleteSession_same _)
  refine ⟨soundAfter, later, loaded.later later, ?_⟩
  intro works
  simp only [AuthCall.statement]
  rw [works, loaded.id]
  exact deleteSession_gone loaded.normal

theorem recordSessionRevocation_revoked (sessionId : Text)
    (fault : Option CallFault) :
    (∀ other ∈ state.revoked,
      other ∈ (state.recordSessionRevocation sessionId fault).revoked) ∧
    (fault = none →
      sessionId ∈ (state.recordSessionRevocation sessionId fault).revoked) := by
  unfold AuthState.recordSessionRevocation
  cases fault with
  | none =>
      exact ⟨fun _ member => List.mem_cons_of_mem _ member,
        fun _ => List.mem_cons_self⟩
  | some fault =>
      refine ⟨?_, fun impossible => by cases impossible⟩
      cases fault with
      | lost => exact fun _ member => List.mem_cons_of_mem _ member
      | unreached => exact fun _ member => member
      | storage faults => exact fun _ member => member

theorem recordSessionRevocation_same (sessionId : Text)
    (fault : Option CallFault) :
    SameRecords state (state.recordSessionRevocation sessionId fault) ∧
      (state.recordSessionRevocation sessionId fault).objects =
        state.objects := by
  unfold AuthState.recordSessionRevocation
  cases fault with
  | none => exact ⟨⟨rfl, rfl, rfl, rfl⟩, rfl⟩
  | some fault => cases fault <;> exact ⟨⟨rfl, rfl, rfl, rfl⟩, rfl⟩

theorem recordRotation_statement (sound : AuthSound state)
    {request : AuthRequest} {sessionId : Text} {session next : Session}
    (loaded : Loaded state sessionId session)
    (deleted : request.failing.at .delete = none → Gone state sessionId) :
    AuthStatement state
      ((AuthCall.recordRotation request sessionId session next).statement
        state).1
      ((AuthCall.recordRotation request sessionId session next).statement
        state).2 := by
  let fault := request.failing.at .record
  obtain ⟨added, recorded⟩ :=
    @recordSessionRevocation_revoked state sessionId fault
  obtain ⟨same, sameObjects⟩ :=
    @recordSessionRevocation_same state sessionId fault
  let after := (state.recordSessionRevocation sessionId fault).retire sessionId
  have objects : after.objects = state.objects := sameObjects
  have safe : Safe after sessionId := by
    rcases Failing.at_or request.failing
      (show AuthStep.delete ≠ .record by simp) with works | works
    · right
      have gone := deleted works
      unfold Gone at gone ⊢
      rw [objects]
      exact gone
    · exact .inl (recorded works)
  obtain ⟨soundAfter, later⟩ := @sound_of_objects state after sound
    (fun _ _ _ _ held => .inl (objects ▸ held)) same.logins same.minted
    (fun _ member => same.known ▸ member) added
    (by
      intro other member
      rcases List.mem_cons.mp member with rfl | old
      · exact .inr ⟨loaded.known sound, safe⟩
      · exact .inl (same.retired ▸ old))
  exact ⟨soundAfter, later, trivial⟩

theorem recordLogout_statement (sound : AuthSound state)
    {request : LogoutRequest} {sessionId : Text}
    (normal : normalizeSessionId sessionId = some sessionId) :
    AuthStatement state
      ((AuthCall.recordLogout request sessionId).statement state).1
      ((AuthCall.recordLogout request sessionId).statement state).2 := by
  let fault := request.failing.at .record
  obtain ⟨added, recorded⟩ :=
    @recordSessionRevocation_revoked state sessionId fault
  obtain ⟨same, objects⟩ :=
    @recordSessionRevocation_same state sessionId fault
  let after : AuthState :=
    { state.recordSessionRevocation sessionId fault with
      known := sessionId :: state.known }
  obtain ⟨soundAfter, later⟩ := @sound_of_objects state after sound
    (fun _ _ _ _ held => .inl (objects ▸ held)) same.logins same.minted
    (fun _ member => List.mem_cons_of_mem _ member) added
    (fun _ member => .inl (same.retired ▸ member))
  exact ⟨soundAfter, later, normal, List.mem_cons_self, recorded⟩

theorem deleteLogout_statement (sound : AuthSound state)
    {request : LogoutRequest} {sessionId : Text}
    (normal : normalizeSessionId sessionId = some sessionId)
    (known : sessionId ∈ state.known)
    (recorded : request.failing.at .record = none →
      sessionId ∈ state.revoked) :
    AuthStatement state
      ((AuthCall.deleteLogout request sessionId).statement state).1
      ((AuthCall.deleteLogout request sessionId).statement state).2 := by
  let fault := request.failing.at .delete
  obtain ⟨same, sameRevoked⟩ := @deleteSession_same state sessionId fault
  let after := (state.deleteSession sessionId fault).retire sessionId
  have objects : after.objects =
      (state.deleteSession sessionId fault).objects := rfl
  have revoked : after.revoked = state.revoked := sameRevoked
  have safe : Safe after sessionId := by
    rcases Failing.at_or request.failing
      (show AuthStep.record ≠ .delete by simp) with works | works
    · exact .inl (revoked ▸ recorded works)
    · right
      have gone := @deleteSession_gone state sessionId normal
      unfold Gone at gone ⊢
      rw [objects, show fault = none from works]
      exact gone
  obtain ⟨soundAfter, later⟩ := @sound_of_objects state after sound
    (deleteSession_adds fault) same.logins same.minted
    (fun _ member => same.known ▸ member) (fun _ member => revoked ▸ member)
    (by
      intro other member
      rcases List.mem_cons.mp member with rfl | old
      · exact .inr ⟨known, safe⟩
      · exact .inl (same.retired ▸ old))
  exact ⟨soundAfter, later, trivial⟩

theorem setObject_statement (sound : AuthSound state) {shard : Nat}
    {action : SessionAction} {result : AuthResult}
    (creates : ∀ entry now scheduled faults,
      action ≠ .create entry now scheduled faults) :
    AuthStatement state
      (state.setObject shard (perform (state.objects shard) action).1)
      (.done result) := by
  obtain ⟨soundAfter, later⟩ := sound_of_same sound
    (@setObject_perform state shard action creates)
    ⟨⟨rfl, rfl, rfl, rfl⟩, rfl⟩
  exact ⟨soundAfter, later, trivial⟩

end Statements

theorem auth_statement {state : AuthState} (sound : AuthSound state)
    {call : AuthCall} (known : call.Sound state)
    (fresh : FreshIds state (.run call) []) :
    AuthStatement state (call.statement state).1 (call.statement state).2 := by
  cases call with
  | checkRevoked request sessionId =>
      apply AuthStatement.quiet sound
      simp only [AuthCall.statement]
      split <;> trivial
  | load request sessionId => exact load_statement sound request sessionId
  | loadUser request sessionId session =>
      apply AuthStatement.quiet sound
      simp only [AuthCall.statement]
      split
      · trivial
      · split
        · trivial
        · split
          · exact ⟨known, rfl⟩
          · trivial
  | create request sessionId session next =>
      exact create_statement sound known.1 known.2 fresh
  | deletePrevious request sessionId session next =>
      exact deletePrevious_statement sound known
  | recordRotation request sessionId session next =>
      exact recordRotation_statement sound known.1 known.2
  | recordLogout request sessionId => exact recordLogout_statement sound known
  | deleteLogout request sessionId =>
      exact deleteLogout_statement sound known.1 known.2.1 known.2.2
  | startLogin request => exact AuthStatement.quiet sound trivial
  | createLogin request session => exact createLogin_statement sound fresh
  | alarm | restart =>
      apply setObject_statement sound
      intro entry now scheduled other impossible
      cases impossible
  | tick elapsed =>
      obtain ⟨soundAfter, later⟩ := @sound_of_same state
        { state with now := state.now + elapsed } sound
        (fun _ _ _ _ held => .inl held) ⟨⟨rfl, rfl, rfl, rfl⟩, rfl⟩
      exact ⟨soundAfter, later, trivial⟩

theorem AuthSound.initial (now : Int) : AuthSound (.initial now) where
  held := by
    rintro shard kind key entry (found | stored)
    · cases found
    · cases stored
  known := by
    rintro session (login | ⟨previous, minted⟩)
    · cases login
    · cases minted
  origin := by
    rintro session (login | ⟨previous, minted⟩)
    · cases login
    · cases minted
  expiry := by
    intro previous next minted
    cases minted
  retired := by
    intro sessionId member
    cases member

theorem starts_sound {state : AuthState} {call : AuthCall}
    (starts : AuthCall.Starts call) : call.Sound state := by
  cases starts with
  | logout request presented => exact normal_of_cookie presented
  | _ => trivial

def authAssertions : Program.Assertions AuthState AuthCall AuthResult where
  shared := AuthSound
  call := fun state call => call.Sound state
  result := fun _ _ => True

theorem auth_run {now : Int}
    {reached : Program.Config AuthState AuthCall AuthResult}
    (run : authProgram.Run FreshIds ⟨.initial now, [], []⟩ reached) :
    AuthSound reached.shared := by
  have held : authAssertions.Hold reached := by
    apply Program.Assertions.hold_of_run _ run
    · exact ⟨.initial now, by simp, by simp⟩
    · exact fun state call starts => starts_sound starts
    · intro state call others sound known fresh
      have executed := auth_statement sound known fresh
      refine ⟨executed.sound, ?_, fun other held =>
        AuthCall.Sound.later sound executed.later held, fun _ _ => trivial⟩
      change authAssertions.HoldAfter (call.statement state).1
        (call.statement state).2
      have next := executed.next
      cases reached : (call.statement state).2 with
      | next rest =>
          rw [reached] at next
          exact next
      | done result => trivial
  exact held.1

/-- The ids stay safe, and nothing more is minted from them. -/
structure LateState (retired : List Text) (minted : List (Session × Session))
    (state : AuthState) : Prop where
  sound : AuthSound state
  safe : ∀ sessionId ∈ retired, sessionId ∈ state.known ∧ Safe state sessionId
  pairs : ∀ pair ∈ state.minted, pair.1.id ∈ retired → pair ∈ minted

/-- No request has come further with one of the ids than the blacklist lets it. -/
def LateCall (retired : List Text) (state : AuthState) : AuthCall → Prop
  | .load _ sessionId => sessionId ∈ retired → Gone state sessionId
  | .loadUser _ sessionId _ => sessionId ∉ retired
  | .create _ sessionId _ _ => sessionId ∉ retired
  | .deletePrevious _ sessionId _ _ => sessionId ∉ retired
  | .recordRotation _ sessionId _ _ => sessionId ∉ retired
  | _ => True

def LateResult (retired : List Text) : AuthResult → Prop
  | .authenticated sessionId _ => sessionId ∉ retired
  | _ => True

def LateOutcome (retired : List Text) (state : AuthState) :
    AuthOutcome → Prop
  | .next rest => LateCall retired state rest
  | .done result => LateResult retired result

section Late

variable {retired : List Text} {minted : List (Session × Session)}
  {state : AuthState}

theorem LateCall.later {after : AuthState} (known : ∀ sessionId ∈ retired,
      sessionId ∈ state.known) (later : Later state after) {call : AuthCall}
    (late : LateCall retired state call) : LateCall retired after call := by
  cases call with
  | load request sessionId =>
      intro member
      exact later.gone sessionId (known sessionId member) (late member)
  | _ => exact late

theorem late_outcome (late : LateState retired minted state) {call : AuthCall}
    (lateCall : LateCall retired state call)
    (later : Later state (call.statement state).1) :
    LateOutcome retired (call.statement state).1 (call.statement state).2 := by
  cases call with
  | checkRevoked request sessionId =>
      simp only [AuthCall.statement]
      split
      · trivial
      · rename_i passed
        intro member
        rcases (late.safe sessionId member).2 with revoked | gone
        · exact absurd (.inr revoked) passed
        · exact gone
  | load request sessionId =>
      simp only [AuthCall.statement]
      split
      · trivial
      · rename_i session loaded
        intro member
        exact lateCall member _ (callObject_loaded loaded).1
  | loadUser request sessionId session =>
      simp only [AuthCall.statement]
      split
      · trivial
      · split
        · trivial
        · split <;> exact lateCall
  | create request sessionId session next =>
      simp only [AuthCall.statement]
      split <;> exact lateCall
  | deletePrevious | recordRotation => exact lateCall
  | recordLogout | deleteLogout | startLogin | alarm | restart | tick => trivial
  | createLogin request session =>
      simp only [AuthCall.statement]
      split <;> trivial

theorem late_pairs (late : LateState retired minted state) {call : AuthCall}
    (known : call.Sound state) (lateCall : LateCall retired state call) :
    ∀ pair ∈ (call.statement state).1.minted, pair.1.id ∈ retired →
      pair ∈ minted := by
  have kept : ∀ {after : AuthState}, after.minted = state.minted →
      ∀ pair ∈ after.minted, pair.1.id ∈ retired → pair ∈ minted := by
    intro after same pair member old
    exact late.pairs pair (same ▸ member) old
  cases call with
  | load | createLogin => exact kept (callObject_same _).1.minted
  | create request sessionId session next =>
      intro pair member old
      rcases List.mem_cons.mp member with rfl | member
      · rw [known.1.id] at old
        exact absurd old lateCall
      · exact late.pairs pair member old
  | deletePrevious | deleteLogout =>
      exact kept (deleteSession_same _).1.minted
  | recordRotation | recordLogout =>
      exact kept (recordSessionRevocation_same _ _).1.minted
  | _ => exact kept rfl

end Late

def lateAssertions (retired : List Text) (minted : List (Session × Session)) :
    Program.Assertions AuthState AuthCall AuthResult where
  shared := LateState retired minted
  call := fun state call => call.Sound state ∧ LateCall retired state call
  result := fun _ result => LateResult retired result

theorem late_run {quiet : AuthState} (sound : AuthSound quiet)
    {reached : Program.Config AuthState AuthCall AuthResult}
    (run : authProgram.Run FreshIds ⟨quiet, [], []⟩ reached) :
    (lateAssertions quiet.retired quiet.minted).Hold reached := by
  apply Program.Assertions.hold_of_run _ run
  · exact ⟨⟨sound, sound.retired, fun _ member _ => member⟩, by simp, by simp⟩
  · intro state call starts
    refine ⟨starts_sound starts, ?_⟩
    cases starts <;> trivial
  · intro state call others late known fresh
    have executed := auth_statement late.sound known.1 fresh
    refine ⟨⟨executed.sound, ?_, late_pairs late known.1 known.2⟩, ?_, ?_,
      fun _ held => held⟩
    · intro sessionId member
      obtain ⟨knew, safe⟩ := late.safe sessionId member
      exact ⟨executed.later.known _ knew, safe.later executed.later knew⟩
    · change (lateAssertions quiet.retired quiet.minted).HoldAfter
        (call.statement state).1 (call.statement state).2
      have next := executed.next
      have outcome := late_outcome late known.2 executed.later
      cases reached : (call.statement state).2 with
      | next rest =>
          rw [reached] at next outcome
          exact ⟨next, outcome⟩
      | done result =>
          rw [reached] at outcome
          exact outcome
    · rintro other ⟨heldSound, heldLate⟩
      exact ⟨AuthCall.Sound.later late.sound executed.later heldSound,
        heldLate.later (fun sessionId member =>
          (late.safe sessionId member).1) executed.later⟩

namespace TwoRotations

def idOf (char : Char) : Text := List.replicate 16 char

def cookieOf (char : Char) : Option Text :=
  some (SESSION_COOKIE_NAME ++ '=' :: idOf char)

def login : LoginRequest := ⟨['u'], idOf 'a', none⟩

def session : Session := newSession login 1

def requestOf (drawn : Char) : AuthRequest :=
  { cookie := cookieOf 'a', rotates := true, active := true
    drawn := idOf drawn, failing := none }

def logout : LogoutRequest := ⟨cookieOf 'a', none⟩

def next (drawn : Char) : Session := successor session (idOf drawn) 3600001

def after (state : AuthState) (call : AuthCall) : AuthState :=
  (call.statement state).1

def loggedIn : AuthState :=
  after (.initial 1) (.createLogin login session)

def anHourLater : AuthState := after loggedIn (.tick 3600000)

def loaded (drawn : Char) (state : AuthState) : AuthState :=
  after state (.load (requestOf drawn) (idOf 'a'))

def created (drawn : Char) (state : AuthState) : AuthState :=
  after state (.create (requestOf drawn) (idOf 'a') session (next drawn))

def deleted (drawn : Char) (state : AuthState) : AuthState :=
  after state (.deletePrevious (requestOf drawn) (idOf 'a') session (next drawn))

def rotated (drawn : Char) (state : AuthState) : AuthState :=
  after state (.recordRotation (requestOf drawn) (idOf 'a') session (next drawn))

def bothLoaded : AuthState := loaded 'c' (loaded 'b' anHourLater)

def firstRotated : AuthState :=
  rotated 'b' (deleted 'b' (created 'b' bothLoaded))

def bothRotated : AuthState :=
  rotated 'c' (deleted 'c' (created 'c' firstRotated))

def quiet : AuthState :=
  after (after bothRotated (.recordLogout logout (idOf 'a')))
    (.deleteLogout logout (idOf 'a'))

abbrev RunTo (state : AuthState) (calls : List AuthCall)
    (results : List AuthResult) : Prop :=
  authProgram.Run FreshIds ⟨.initial 1, [], []⟩ ⟨state, calls, results⟩

def authenticated (drawn : Char) : AuthResult :=
  .authenticated (idOf 'a') (some (idOf drawn))

theorem run_quiet :
    RunTo quiet [] [.loggedOut (idOf 'a'), authenticated 'c', authenticated 'b',
      .finished, .loggedIn session] := by
  have begun : RunTo (.initial 1) [] [] := .here
  have login_fresh : session.id ∉ (AuthState.initial 1).known := by decide
  have first_fresh : (next 'b').id ∉ bothLoaded.known := by
    with_unfolding_all decide
  have second_fresh : (next 'c').id ∉ firstRotated.known := by
    with_unfolding_all decide
  -- both requests load the session before either of them mints
  have run := begun.play [.start (.startLogin login), .run 0, .run 0,
    .start (.tick 3600000), .run 0,
    .start (.checkRevoked (requestOf 'b') (idOf 'a')), .run 0, .run 0, .run 0,
    .start (.checkRevoked (requestOf 'c') (idOf 'a')), .run 0, .run 0, .run 0,
    .run 1, .run 1, .run 1, .run 0, .run 0, .run 0,
    .start (.recordLogout logout (idOf 'a')), .run 0, .run 0] (by
      with_unfolding_all
        repeat' first
          | exact trivial
          | exact .login _
          | exact .tick _
          | exact .request _ rfl
          | exact .logout _ rfl
          | exact login_fresh
          | exact first_fresh
          | exact second_fresh
          | apply And.intro)
  with_unfolding_all exact run

theorem run_refused :
    authProgram.Run FreshIds ⟨quiet, [], []⟩ ⟨quiet, [], [.revoked]⟩ := by
  have started : authProgram.Run FreshIds ⟨quiet, [], []⟩
      ⟨quiet, [.checkRevoked (requestOf 'd') (idOf 'a')], []⟩ :=
    Program.Run.here.starting _ (.request (requestOf 'd') (by rfl)) trivial
  exact started.finishing [] [] (by with_unfolding_all rfl) trivial

end TwoRotations

/-- A session that a request would be authenticated by. -/
def Live (state : AuthState) (session : Session) : Prop :=
  session.id ∉ state.revoked ∧ state.now ≤ session.expiresAt ∧
    (state.objects (getShardId session.id)).find .session session.id =
      some (.session session)

open TwoRotations in
theorem next_live (drawn : Char) (either : drawn = 'b' ∨ drawn = 'c') :
    Live quiet (next drawn) := by
  rcases either with rfl | rfl
  · exact ⟨by with_unfolding_all decide, by with_unfolding_all decide,
      by with_unfolding_all rfl⟩
  · exact ⟨by with_unfolding_all decide, by with_unfolding_all decide,
      by with_unfolding_all rfl⟩

end Takos.Identity
