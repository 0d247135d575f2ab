import Takos.Delegations.AccountsDelegation
import Mathlib.Data.List.Nodup

/-!
# Refreshes under leases

A lease is granted on the row's lease columns, so it covers what its call has
read only where nobody has written the token columns in between.  Then the row
stays as it was read until its lease is gone, and what a refresh presents,
clears and stores belongs to the row.
-/

namespace Takos.Delegations

open Takos.Foundation

/-- Whether the server could still accept the refresh token of a row. -/
def TokenServer.LiveRow (server : TokenServer) (row : DelegationIdentity) :
    Prop :=
  ∃ envelope ∈ row.refreshTokenEnc, server.Live envelope.text

def TokenServer.Fresh (server : TokenServer) (token : Text) : Prop :=
  ∀ workspace, (token, workspace) ∉ server.refresh

/-- The server accepts a refresh token once, answers nothing to one that it does
not accept, and issues each refresh token once; its tokens have no surrounding
space. -/
def ServerRules (state : DelegationState)
    (event : Program.Event DelegationCall) (_ : List DelegationCall) : Prop :=
  match event with
  | .run (.exchange refreshing _) =>
    let reply := refreshing.request.reply
    (reply.accepted = true →
      state.server.Live refreshing.refreshTokenEnc.text) ∧
    ∀ ok tokens, reply.response = some (ok, tokens) →
      (reply.accepted = false → ok = true →
        given tokens.access_token = none) ∧
      ∀ token ∈ tokens.refresh_token, state.server.Fresh token
  | .run (.issue login) =>
    (∀ token ∈ login.tokens.access_token, Text.trim token = token) ∧
    ∀ token ∈ login.tokens.refresh_token,
      Text.trim token = token ∧ state.server.Fresh token
  | _ => True

/-- A lease is granted only on a row whose token columns nobody has written since
they were read, and a login without a refresh token does not leave one of
another workspace in the row. -/
def Undisturbed (state : DelegationState)
    (event : Program.Event DelegationCall) (_ : List DelegationCall) : Prop :=
  match event with
  | .run (.claim refreshing now) =>
    ∀ row ∈ state.rows, row.Claimable refreshing.identity.id now →
      row.written = refreshing.identity.written
  | .run (.storeLogin login) =>
    ∀ columns, login.check state.now = .ok columns →
      given (login.tokens.refresh_token.map Text.trim) = none →
      ∀ row ∈ state.rows, row.id = login.identityId →
        row.refreshTokenEnc ≠ none →
          row.delegatedWorkspaceId = login.workspaceId
  | _ => True

structure SameTokens (row earlier : DelegationIdentity) : Prop where
  access : row.accessTokenEnc = earlier.accessTokenEnc
  refresh : row.refreshTokenEnc = earlier.refreshTokenEnc
  workspace : row.delegatedWorkspaceId = earlier.delegatedWorkspaceId

theorem SameTokens.refl (row : DelegationIdentity) : SameTokens row row :=
  ⟨rfl, rfl, rfl⟩

theorem SameTokens.trans {first second third : DelegationIdentity}
    (left : SameTokens first second) (right : SameTokens second third) :
    SameTokens first third :=
  ⟨left.access.trans right.access, left.refresh.trans right.refresh,
    left.workspace.trans right.workspace⟩

structure Paired (server : TokenServer) (row : DelegationIdentity) : Prop where
  access : ∀ envelope ∈ row.accessTokenEnc,
    (envelope.text, row.delegatedWorkspaceId) ∈ server.access
  refresh : ∀ envelope ∈ row.refreshTokenEnc,
    (envelope.text, row.delegatedWorkspaceId) ∈ server.refresh

/-- What an update makes of a row: a write of the token columns counts, and
removes the lease. -/
structure RowLater (nextLease : Nat) (earlier row : DelegationIdentity) : Prop
    where
  id : row.id = earlier.id
  written : earlier.written ≤ row.written
  same : row.written = earlier.written → SameTokens row earlier
  lease : ∀ lease, row.refreshLeaseId = some lease →
    earlier.refreshLeaseId = some lease ∧ row.written = earlier.written ∨
      nextLease = lease

section Rows

variable (nextLease : Nat) (row : DelegationIdentity)

theorem RowLater.refl : RowLater nextLease row row where
  id := rfl
  written := le_rfl
  same := fun _ => .refl row
  lease := fun _ leased => .inl ⟨leased, rfl⟩

theorem later_withLease (now : Int) :
    RowLater nextLease row (row.withLease nextLease now) where
  id := rfl
  written := le_rfl
  same := fun _ => ⟨rfl, rfl, rfl⟩
  lease := fun _ leased => .inr (Option.some.inj leased)

theorem later_withoutLease : RowLater nextLease row row.withoutLease where
  id := rfl
  written := le_rfl
  same := fun _ => ⟨rfl, rfl, rfl⟩
  lease := fun _ leased => by cases leased

theorem later_written {after : DelegationIdentity} (id : after.id = row.id)
    (written : after.written = row.written + 1)
    (lease : after.refreshLeaseId = none) : RowLater nextLease row after where
  id := id
  written := by omega
  same := fun impossible => by omega
  lease := fun _ leased => by
    rw [lease] at leased
    cases leased

theorem later_cleared : RowLater nextLease row row.cleared :=
  later_written nextLease row rfl rfl rfl

theorem later_refreshed (columns : RefreshedColumns) :
    RowLater nextLease row (row.refreshed columns) :=
  later_written nextLease row rfl rfl rfl

theorem later_loggedIn (login : Login) (accessToken scope : Text)
    (expiresAt : Int) :
    RowLater nextLease row
      (row.loggedIn login accessToken scope expiresAt) :=
  later_written nextLease row rfl rfl rfl

end Rows

structure TokenServer.Issues (before after : TokenServer) : Prop where
  access : ∀ entry ∈ before.access, entry ∈ after.access
  refresh : ∀ entry ∈ before.refresh, entry ∈ after.refresh

namespace TokenServer

theorem Issues.refl (server : TokenServer) : Issues server server :=
  ⟨fun _ member => member, fun _ member => member⟩

def Single (server : TokenServer) : Prop :=
  ∀ token first second, (token, first) ∈ server.refresh →
    (token, second) ∈ server.refresh → first = second

theorem issue_issues (server : TokenServer)
    (tokens : DelegatedTokenResponse) (workspace : Option Text) :
    Issues server (server.issue tokens workspace) :=
  ⟨fun _ member => List.mem_append_right _ member,
    fun _ member => List.mem_append_right _ member⟩

variable {token : Text} {workspace : Option Text} {server : TokenServer}

theorem mem_issue_access {tokens : DelegatedTokenResponse}
    (given : tokens.access_token = some token) :
    (token, workspace) ∈ (server.issue tokens workspace).access := by
  simp [issue, given]

theorem mem_issue_refresh {tokens : DelegatedTokenResponse}
    (given : tokens.refresh_token = some token) :
    (token, workspace) ∈ (server.issue tokens workspace).refresh := by
  simp [issue, given]

theorem single_issue {server : TokenServer} (single : server.Single)
    {tokens : DelegatedTokenResponse}
    (fresh : ∀ token ∈ tokens.refresh_token, server.Fresh token)
    (workspace : Option Text) : (server.issue tokens workspace).Single := by
  intro token first second left right
  simp only [issue, List.mem_append, List.mem_map, Option.mem_toList,
    Prod.mk.injEq] at left right
  rcases left with ⟨issued, new, rfl, rfl⟩ | left
  · rcases right with ⟨_, _, _, same⟩ | right
    · exact same
    · exact absurd right (fresh _ new second)
  · rcases right with ⟨issued, new, rfl, rfl⟩ | right
    · exact absurd left (fresh _ new first)
    · exact single token first second left right

theorem workspaceOf_eq (single : server.Single)
    (member : (token, workspace) ∈ server.refresh) :
    server.workspaceOf token = some workspace := by
  unfold workspaceOf
  cases found : server.refresh.find? fun entry => entry.1 = token with
  | none =>
      have missed := List.find?_eq_none.mp found _ member
      simp at missed
  | some entry =>
      have key := List.find?_some found
      simp only [decide_eq_true_eq] at key
      have within := List.mem_of_find?_eq_some found
      obtain ⟨other, found⟩ := entry
      subst key
      simp [single _ _ _ within member]

theorem exchange_issues (server : TokenServer) (token : Text)
    (reply : TokenReply) : Issues server (server.exchange token reply) := by
  unfold exchange
  split
  · dsimp only
    split
    · exact ⟨fun _ member => List.mem_append_right _ member,
        fun _ member => List.mem_append_right _ member⟩
    · exact ⟨fun _ member => member, fun _ member => member⟩
  · exact .refl server

theorem single_exchange (single : server.Single) (token : Text)
    {reply : TokenReply}
    (fresh : ∀ ok tokens, reply.response = some (ok, tokens) →
      ∀ token ∈ tokens.refresh_token, server.Fresh token) :
    (server.exchange token reply).Single := by
  unfold exchange
  split
  · dsimp only
    split
    · rename_i ok tokens workspace answered found
      exact @single_issue { server with consumed := _ } single tokens
        (fresh _ _ answered) workspace
    · exact single
  · exact single

/-- The tokens of an accepted request are for the workspace of the one that was
presented. -/
theorem exchange_accepted (single : server.Single)
    (member : (token, workspace) ∈ server.refresh) {reply : TokenReply}
    (accepted : reply.accepted = true) {ok : Bool}
    {tokens : DelegatedTokenResponse}
    (answered : reply.response = some (ok, tokens)) :
    (server.exchange token reply) =
      ({ server with
          consumed := token :: server.consumed } : TokenServer).issue tokens
        workspace := by
  unfold exchange
  rw [if_pos accepted, answered, workspaceOf_eq single member]

end TokenServer

/-- Ids are unique, tokens are for the workspaces of their rows, and leases are
drawn once. -/
structure StateSound (state : DelegationState) : Prop where
  keyed : (state.rows.map DelegationIdentity.id).Nodup
  paired : ∀ row ∈ state.rows, Paired state.server row
  single : state.server.Single
  leases : ∀ row ∈ state.rows, ∀ lease, row.refreshLeaseId = some lease →
    lease < state.nextLease
  granted : ∀ grant ∈ state.grants, grant.1 < state.nextLease

/-- What has been read of a row is older than the row, or still in it. -/
structure Held (state : DelegationState) (refreshing : Refreshing) : Prop where
  issued : (refreshing.refreshTokenEnc.text, some refreshing.workspaceId) ∈
    state.server.refresh
  older : ∀ row ∈ state.rows, row.id = refreshing.identity.id →
    refreshing.identity.written ≤ row.written ∧
      (row.written = refreshing.identity.written →
        SameTokens row refreshing.identity)

/-- The refresh token that was read is the one that the row held at the grant. -/
def PresentsGranted (state : DelegationState) (refreshing : Refreshing)
    (leaseId : Nat) : Prop :=
  (leaseId, some refreshing.refreshTokenEnc) ∈ state.grants ∧
    ∀ grant ∈ state.grants, grant.1 = leaseId →
      grant.2 = some refreshing.refreshTokenEnc

structure InForce (state : DelegationState) (refreshing : Refreshing)
    (leaseId : Nat) : Prop where
  held : Held state refreshing
  drawn : leaseId < state.nextLease
  unchanged : ∀ row ∈ state.rows, row.Leased refreshing.identity.id leaseId →
    row.written = refreshing.identity.written
  granted : PresentsGranted state refreshing leaseId

/-- The columns are for the workspace that was read. -/
structure ColumnsPaired (server : TokenServer) (refreshing : Refreshing)
    (columns : RefreshedColumns) : Prop where
  encrypted : columns.accessTokenEnc.text = columns.accessToken
  access : (columns.accessToken, some refreshing.workspaceId) ∈ server.access
  refresh : (columns.refreshTokenEnc.text, some refreshing.workspaceId) ∈
    server.refresh

structure LoginIssued (server : TokenServer) (login : Login) : Prop where
  access : ∀ token ∈ login.tokens.access_token, Text.trim token = token ∧
    (token, login.workspaceId) ∈ server.access
  refresh : ∀ token ∈ login.tokens.refresh_token, Text.trim token = token ∧
    (token, login.workspaceId) ∈ server.refresh

def DelegationCall.Sound (state : DelegationState) : DelegationCall → Prop
  | .claim refreshing _ => Held state refreshing
  | .exchange refreshing leaseId => InForce state refreshing leaseId
  | .clear refreshing leaseId _ => InForce state refreshing leaseId
  | .release refreshing leaseId _ => InForce state refreshing leaseId
  | .store refreshing leaseId columns =>
    InForce state refreshing leaseId ∧
      ColumnsPaired state.server refreshing columns
  | .storeLogin login => LoginIssued state.server login
  | _ => True

def DelegationResult.Sound (server : TokenServer) : DelegationResult → Prop
  | .authorized accessToken workspaceId _ =>
    (accessToken, some workspaceId) ∈ server.access
  | _ => True

def OutcomeSound (state : DelegationState) : DelegationOutcome → Prop
  | .next rest => rest.Sound state
  | .done result => result.Sound state.server

/-- What later states keep of earlier ones. -/
structure Later (before after : DelegationState) : Prop where
  server : before.server.Issues after.server
  drawn : before.nextLease ≤ after.nextLease
  grants : ∀ grant ∈ before.grants, grant ∈ after.grants
  granted : ∀ grant ∈ after.grants, grant ∈ before.grants ∨
    grant.1 = before.nextLease
  rows : ∀ row ∈ after.rows, ∃ earlier ∈ before.rows,
    RowLater before.nextLease earlier row

section Later

variable {before after : DelegationState}

theorem Later.refl (state : DelegationState) : Later state state where
  server := .refl _
  drawn := le_rfl
  grants := fun _ member => member
  granted := fun _ member => .inl member
  rows := fun row member => ⟨row, member, .refl _ row⟩

variable {refreshing : Refreshing}

theorem Held.later (later : Later before after)
    (held : Held before refreshing) : Held after refreshing where
  issued := later.server.refresh _ held.issued
  older := by
    intro row member same
    obtain ⟨earlier, within, moved⟩ := later.rows row member
    obtain ⟨older, tokens⟩ := held.older earlier within (moved.id ▸ same)
    refine ⟨older.trans moved.written, ?_⟩
    intro unwritten
    have stayed : row.written = earlier.written := by
      have grown := moved.written
      omega
    exact (moved.same stayed).trans (tokens (stayed ▸ unwritten))

theorem InForce.later (later : Later before after) {leaseId : Nat}
    (inForce : InForce before refreshing leaseId) :
    InForce after refreshing leaseId where
  held := inForce.held.later later
  drawn := inForce.drawn.trans_le later.drawn
  unchanged := by
    intro row member leased
    obtain ⟨earlier, within, moved⟩ := later.rows row member
    rcases moved.lease leaseId leased.2 with ⟨lease, same⟩ | drawn
    · rw [same]
      exact inForce.unchanged earlier within ⟨moved.id ▸ leased.1, lease⟩
    · have before := inForce.drawn
      omega
  granted := by
    obtain ⟨member, unique⟩ := inForce.granted
    refine ⟨later.grants _ member, ?_⟩
    intro grant added same
    rcases later.granted grant added with old | drawn
    · exact unique grant old same
    · have before := inForce.drawn
      omega

theorem ColumnsPaired.later (later : Later before after)
    {columns : RefreshedColumns}
    (paired : ColumnsPaired before.server refreshing columns) :
    ColumnsPaired after.server refreshing columns :=
  ⟨paired.encrypted, later.server.access _ paired.access,
    later.server.refresh _ paired.refresh⟩

theorem DelegationCall.Sound.later (later : Later before after)
    {call : DelegationCall} (sound : call.Sound before) : call.Sound after := by
  cases call with
  | claim refreshing now => exact Held.later later sound
  | exchange | clear | release => exact InForce.later later sound
  | store refreshing leaseId columns =>
      exact ⟨InForce.later later sound.1, ColumnsPaired.later later sound.2⟩
  | storeLogin login =>
      constructor
      · intro token member
        obtain ⟨trimmed, issued⟩ := sound.access token member
        exact ⟨trimmed, later.server.access _ issued⟩
      · intro token member
        obtain ⟨trimmed, issued⟩ := sound.refresh token member
        exact ⟨trimmed, later.server.refresh _ issued⟩
  | _ => trivial

theorem DelegationResult.Sound.later (later : Later before after)
    {result : DelegationResult} (sound : result.Sound before.server) :
    result.Sound after.server := by
  cases result with
  | authorized accessToken workspaceId subjectId =>
      exact later.server.access _ sound
  | _ => trivial

theorem Later.of_map {state : DelegationState}
    {update : DelegationIdentity → DelegationIdentity}
    (moved : ∀ row, RowLater state.nextLease row (update row)) :
    Later state { state with rows := state.rows.map update } where
  server := .refl _
  drawn := le_rfl
  grants := fun _ member => member
  granted := fun _ member => .inl member
  rows := by
    intro row member
    obtain ⟨earlier, within, rfl⟩ := List.mem_map.mp member
    exact ⟨earlier, within, moved earlier⟩

theorem Later.of_server {state : DelegationState} {server : TokenServer}
    (issues : state.server.Issues server) :
    Later state { state with server } where
  server := issues
  drawn := le_rfl
  grants := fun _ member => member
  granted := fun _ member => .inl member
  rows := fun row member => ⟨row, member, .refl _ row⟩

end Later

theorem Paired.issues {before after : TokenServer}
    (issues : before.Issues after) {row : DelegationIdentity}
    (paired : Paired before row) : Paired after row :=
  ⟨fun envelope member => issues.access _ (paired.access envelope member),
    fun envelope member => issues.refresh _ (paired.refresh envelope member)⟩

theorem StateSound.of_server {state : DelegationState} {server : TokenServer}
    (sound : StateSound state) (issues : state.server.Issues server)
    (single : server.Single) : StateSound { state with server } where
  keyed := sound.keyed
  paired := fun row member => (sound.paired row member).issues issues
  single := single
  leases := sound.leases
  granted := sound.granted

variable {update : DelegationIdentity → DelegationIdentity} {leaseId : Nat}
  {refreshing : Refreshing}

theorem keyed_map {rows : List DelegationIdentity}
    (unique : (rows.map DelegationIdentity.id).Nodup)
    (keyed : ∀ row, (update row).id = row.id) :
    ((rows.map update).map DelegationIdentity.id).Nodup := by
  have same : DelegationIdentity.id ∘ update = DelegationIdentity.id :=
    funext keyed
  rw [List.map_map, same]
  exact unique

theorem StateSound.of_map {state : DelegationState} (sound : StateSound state)
    (keyed : ∀ row, (update row).id = row.id)
    (paired : ∀ row ∈ state.rows, Paired state.server (update row))
    (leases : ∀ row, (update row).refreshLeaseId = row.refreshLeaseId ∨
      (update row).refreshLeaseId = none) :
    StateSound { state with rows := state.rows.map update } where
  keyed := keyed_map sound.keyed keyed
  paired := by
    intro row member
    obtain ⟨earlier, within, rfl⟩ := List.mem_map.mp member
    exact paired earlier within
  single := sound.single
  leases := by
    intro row member lease leased
    obtain ⟨earlier, within, rfl⟩ := List.mem_map.mp member
    rcases leases earlier with same | gone
    · rw [same] at leased
      exact sound.leases earlier within lease leased
    · rw [gone] at leased
      cases leased
  granted := sound.granted

theorem decryptEnvelope_text {envelope : Envelope} {key salt text : Text}
    (decrypted : decryptEnvelope envelope key salt = some text) :
    envelope.text = text := by
  unfold decryptEnvelope at decrypted
  split at decrypted
  · exact Option.some.inj decrypted
  · cases decrypted

theorem identityForUser_mem {rows : List DelegationIdentity}
    {userId issuer : Text} {identity : DelegationIdentity}
    (found : identityForUser rows userId issuer = some identity) :
    identity ∈ rows :=
  List.mem_of_mem_filter (List.mem_of_find?_eq_some found)

theorem given_eq_some {text : Option Text} {value : Text}
    (present : given text = some value) : text = some value :=
  (Option.filter_eq_some_iff.mp present).1

section Outcomes

variable {state : DelegationState} {identity : DelegationIdentity}

theorem storedAuthorization_sound (sound : StateSound state)
    (member : identity ∈ state.rows) (request : AuthorizationRequest)
    {workspaceId : Text}
    (workspace : identity.delegatedWorkspaceId = some workspaceId) :
    OutcomeSound state
      (storedAuthorization request identity workspaceId) := by
  unfold storedAuthorization
  dsimp only
  split
  · trivial
  · trivial
  · rename_i accessToken subjectId decrypted _
    obtain ⟨envelope, stored, text⟩ := Option.bind_eq_some_iff.mp decrypted
    have paired := (sound.paired identity member).access envelope stored
    rw [decryptEnvelope_text text, workspace] at paired
    exact paired

theorem afterRead_sound (sound : StateSound state)
    (request : AuthorizationRequest) (now : Int)
    {found : Option DelegationIdentity}
    (within : ∀ identity, found = some identity → identity ∈ state.rows) :
    OutcomeSound state (afterRead request now found) := by
  cases found with
  | none => trivial
  | some identity =>
      have member := within identity rfl
      simp only [afterRead]
      split
      · trivial
      · trivial
      · rename_i workspaceId _ workspace
        split
        · exact storedAuthorization_sound sound member request workspace
        · split
          · trivial
          · rename_i refreshTokenEnc token
            constructor
            · have paired := (sound.paired identity member).refresh _ token
              rw [workspace] at paired
              exact paired
            · intro row included same
              have one : row = identity :=
                List.inj_on_of_nodup_map sound.keyed included member same
              rw [one]
              exact ⟨le_rfl, fun _ => .refl _⟩

theorem afterWait_sound (sound : StateSound state)
    (request : AuthorizationRequest) (attempt : Nat) (now : Int)
    {found : Option DelegationIdentity}
    (within : ∀ identity, found = some identity → identity ∈ state.rows) :
    OutcomeSound state (afterWait request attempt now found) := by
  cases found with
  | none => trivial
  | some identity =>
      simp only [afterWait]
      split
      · trivial
      · rename_i workspaceId present
        split
        · exact storedAuthorization_sound sound (within identity rfl) request
            (given_eq_some present)
        · split
          · trivial
          · split <;> trivial

theorem afterResponse_sound {refreshing : Refreshing} {leaseId : Nat}
    (inForce : InForce state refreshing leaseId) (now : Int)
    {response : Option (Bool × DelegatedTokenResponse)}
    (issued : ∀ tokens, response = some (true, tokens) →
      given tokens.access_token ≠ none →
      (∀ token ∈ tokens.access_token,
        (token, some refreshing.workspaceId) ∈ state.server.access) ∧
      ∀ token ∈ tokens.refresh_token,
        (token, some refreshing.workspaceId) ∈ state.server.refresh) :
    OutcomeSound state (afterResponse refreshing leaseId now response) := by
  cases response with
  | none => exact inForce
  | some answer =>
      obtain ⟨ok, tokens⟩ := answer
      simp only [afterResponse]
      split
      · rename_i accessToken present
        obtain ⟨access, refresh⟩ := issued tokens rfl (by simp [present])
        split
        · exact inForce
        · split
          · exact inForce
          · refine ⟨inForce, rfl, access _ (given_eq_some present), ?_⟩
            dsimp only
            split
            · rename_i refreshToken rotated
              exact refresh _ (given_eq_some rotated)
            · exact inForce.held.issued
      · exact inForce

end Outcomes

theorem underLease_later (state : DelegationState) (id : Text) (leaseId : Nat)
    (moved : ∀ row, RowLater state.nextLease row (update row)) :
    Later state (state.underLease id leaseId update) := by
  apply Later.of_map
  intro row
  split
  · exact moved row
  · exact .refl _ row

theorem underLease_sound {state : DelegationState} (sound : StateSound state)
    {id : Text} (keyed : ∀ row, (update row).id = row.id)
    (paired : ∀ row ∈ state.rows, row.Leased id leaseId →
      Paired state.server (update row))
    (leases : ∀ row, (update row).refreshLeaseId = none) :
    StateSound (state.underLease id leaseId update) := by
  apply sound.of_map
  · intro row
    split
    · exact keyed row
    · rfl
  · intro row member
    split
    · rename_i leased
      exact paired row member leased
    · exact sound.paired row member
  · intro row
    split
    · exact .inr (leases row)
    · exact .inl rfl

/-- What a statement keeps, and what holds before the next one. -/
structure DelegationStatement (before after : DelegationState)
    (outcome : DelegationOutcome) : Prop where
  sound : StateSound after
  later : Later before after
  next : OutcomeSound after outcome

theorem claim_statement {state : DelegationState} (sound : StateSound state)
    {now : Int} (held : Held state refreshing)
    (undisturbed : ∀ row ∈ state.rows,
      row.Claimable refreshing.identity.id now →
        row.written = refreshing.identity.written) :
    DelegationStatement state
      ((DelegationCall.claim refreshing now).statement state).1
      ((DelegationCall.claim refreshing now).statement state).2 := by
  have later : Later state (state.claimed refreshing.identity.id now) :=
    { server := .refl _
      drawn := Nat.le_succ _
      grants := fun _ member => List.mem_append_right _ member
      granted := by
        intro grant member
        rcases List.mem_append.mp member with new | old
        · obtain ⟨row, _, rfl⟩ := List.mem_map.mp new
          exact .inr rfl
        · exact .inl old
      rows := by
        intro row member
        obtain ⟨earlier, within, rfl⟩ := List.mem_map.mp member
        refine ⟨earlier, within, ?_⟩
        split
        · apply later_withLease
        · exact .refl _ _ }
  refine ⟨?_, later, ?_⟩
  · constructor
    · apply keyed_map sound.keyed
      intro row
      split <;> rfl
    · intro row member
      obtain ⟨earlier, within, rfl⟩ := List.mem_map.mp member
      have paired := sound.paired earlier within
      split
      · exact ⟨paired.access, paired.refresh⟩
      · exact paired
    · exact sound.single
    · intro row member lease leased
      obtain ⟨earlier, within, rfl⟩ := List.mem_map.mp member
      split at leased
      · cases leased
        exact Nat.lt_succ_self _
      · exact (sound.leases earlier within lease leased).trans
          (Nat.lt_succ_self _)
    · intro grant member
      rcases List.mem_append.mp member with new | old
      · obtain ⟨row, _, rfl⟩ := List.mem_map.mp new
        exact Nat.lt_succ_self _
      · exact (sound.granted grant old).trans (Nat.lt_succ_self _)
  · simp only [DelegationCall.statement]
    split
    · rename_i claimed
      obtain ⟨found, within, claimable⟩ := List.any_eq_true.mp claimed
      have claimable := of_decide_eq_true claimable
      have tokens : ∀ row ∈ state.rows,
          row.Claimable refreshing.identity.id now →
            row.refreshTokenEnc = some refreshing.refreshTokenEnc := by
        intro row member condition
        have same := (held.older row member condition.1).2
          (undisturbed row member condition)
        exact same.refresh.trans refreshing.token
      refine ⟨held.later later, Nat.lt_succ_self _, ?_, ?_, ?_⟩
      · intro row member leased
        obtain ⟨earlier, included, rfl⟩ := List.mem_map.mp member
        split at leased
        · rename_i condition
          rw [if_pos condition]
          exact undisturbed earlier included condition
        · have drawn := sound.leases earlier included _ leased.2
          omega
      · apply List.mem_append_left
        apply List.mem_map.mpr
        refine ⟨found, List.mem_filter.mpr ⟨within, by simp [claimable]⟩, ?_⟩
        rw [tokens found within claimable]
      · intro grant member same
        rcases List.mem_append.mp member with new | old
        · obtain ⟨row, included, rfl⟩ := List.mem_map.mp new
          obtain ⟨included, condition⟩ := List.mem_filter.mp included
          exact tokens row included (of_decide_eq_true condition)
        · have drawn := sound.granted grant old
          omega
    · trivial

theorem DelegationStatement.quiet {state : DelegationState}
    {outcome : DelegationOutcome} (sound : StateSound state)
    (next : OutcomeSound state outcome) :
    DelegationStatement state state outcome :=
  ⟨sound, .refl state, next⟩

theorem exchange_statement {state : DelegationState}
    (sound : StateSound state) (inForce : InForce state refreshing leaseId)
    (rules : ServerRules state (.run (.exchange refreshing leaseId)) []) :
    DelegationStatement state
      ((DelegationCall.exchange refreshing leaseId).statement state).1
      ((DelegationCall.exchange refreshing leaseId).statement state).2 := by
  obtain ⟨_, answers⟩ := rules
  simp only [DelegationCall.statement]
  split
  · exact .quiet sound inForce
  · rename_i refreshToken decrypted
    obtain rfl := decryptEnvelope_text decrypted
    have later : Later state { state with
        server := state.server.exchange refreshing.refreshTokenEnc.text
          refreshing.request.reply } :=
      .of_server (TokenServer.exchange_issues _ _ _)
    refine ⟨?_, later, ?_⟩
    · apply sound.of_server (TokenServer.exchange_issues _ _ _)
      apply TokenServer.single_exchange sound.single
      exact fun ok tokens answered => (answers ok tokens answered).2
    · apply afterResponse_sound (inForce.later later)
      intro tokens answered present
      have accepted : refreshing.request.reply.accepted = true := by
        by_contra refused
        apply present
        exact (answers true tokens answered).1 (by simpa using refused) rfl
      dsimp only
      rw [TokenServer.exchange_accepted sound.single inForce.held.issued accepted
        answered]
      exact ⟨fun token member => TokenServer.mem_issue_access member,
        fun token member => TokenServer.mem_issue_refresh member⟩

theorem clear_statement {state : DelegationState} (sound : StateSound state)
    (inForce : InForce state refreshing leaseId) (error : DelegationError) :
    DelegationStatement state
      ((DelegationCall.clear refreshing leaseId error).statement state).1
      ((DelegationCall.clear refreshing leaseId error).statement state).2 := by
  simp only [DelegationCall.statement]
  split
  · exact .quiet sound inForce
  · have later := underLease_later state refreshing.identity.id leaseId
      (later_cleared state.nextLease)
    refine ⟨?_, later, inForce.later later⟩
    apply underLease_sound sound
    · exact fun row => rfl
    · intro row member leased
      constructor
      · intro envelope impossible
        cases impossible
      · intro envelope impossible
        cases impossible
    · exact fun row => rfl

theorem store_statement {state : DelegationState} (sound : StateSound state)
    {columns : RefreshedColumns} (inForce : InForce state refreshing leaseId)
    (paired : ColumnsPaired state.server refreshing columns) :
    DelegationStatement state
      ((DelegationCall.store refreshing leaseId columns).statement state).1
      ((DelegationCall.store refreshing leaseId columns).statement state).2 := by
  simp only [DelegationCall.statement]
  split
  · exact .quiet sound inForce
  · have later := underLease_later state refreshing.identity.id leaseId
      fun row => later_refreshed state.nextLease row columns
    refine ⟨?_, later, ?_⟩
    · apply underLease_sound sound
      · exact fun row => rfl
      · intro row member leased
        have same := (inForce.held.older row member leased.1).2
          (inForce.unchanged row member leased)
        have workspace : row.delegatedWorkspaceId =
            some refreshing.workspaceId :=
          same.workspace.trans refreshing.workspace
        constructor
        · rintro envelope ⟨⟩
          change (_, row.delegatedWorkspaceId) ∈ _
          rw [workspace, paired.encrypted]
          exact paired.access
        · rintro envelope ⟨⟩
          change (_, row.delegatedWorkspaceId) ∈ _
          rw [workspace]
          exact paired.refresh
      · exact fun row => rfl
    · split
      · exact inForce.later later
      · exact later.server.access _ paired.access

theorem release_statement {state : DelegationState} (sound : StateSound state)
    (refreshing : Refreshing) (leaseId : Nat) (error : DelegationError) :
    DelegationStatement state
      ((DelegationCall.release refreshing leaseId error).statement state).1
      ((DelegationCall.release refreshing leaseId error).statement state).2 := by
  refine ⟨?_, underLease_later state refreshing.identity.id leaseId
    (later_withoutLease state.nextLease), trivial⟩
  apply underLease_sound sound
  · exact fun row => rfl
  · intro row member leased
    have paired := sound.paired row member
    exact ⟨paired.access, paired.refresh⟩
  · exact fun row => rfl

theorem issue_statement {state : DelegationState} (sound : StateSound state)
    {login : Login} (rules : ServerRules state (.run (.issue login)) []) :
    DelegationStatement state
      ((DelegationCall.issue login).statement state).1
      ((DelegationCall.issue login).statement state).2 := by
  have issues := state.server.issue_issues login.tokens login.workspaceId
  refine ⟨?_, .of_server issues, ?_⟩
  · apply sound.of_server issues
    apply TokenServer.single_issue sound.single
    exact fun token member => (rules.2 token member).2
  · constructor
    · intro token member
      exact ⟨rules.1 token member, TokenServer.mem_issue_access member⟩
    · intro token member
      exact ⟨(rules.2 token member).1, TokenServer.mem_issue_refresh member⟩

theorem given_trim {text : Option Text} {value : Text}
    (trimmed : ∀ token ∈ text, Text.trim token = token)
    (present : given (text.map Text.trim) = some value) : text = some value := by
  obtain ⟨token, same, equal⟩ := Option.map_eq_some_iff.mp
    (given_eq_some present)
  rw [trimmed token same] at equal
  rw [same, equal]

theorem check_access {login : Login} {now expiresAt : Int}
    {accessToken scope : Text}
    (checked : login.check now = .ok (accessToken, scope, expiresAt)) :
    given (login.tokens.access_token.map Text.trim) = some accessToken := by
  simp only [Login.check] at checked
  split at checked
  · cases checked
  · rename_i present
    split at checked
    · cases checked
    · split at checked
      · cases checked
      · split at checked
        · cases checked
        · cases checked
          exact present

theorem storeLogin_statement {state : DelegationState}
    (sound : StateSound state) {login : Login}
    (issued : LoginIssued state.server login)
    (undisturbed : Undisturbed state (.run (.storeLogin login)) []) :
    DelegationStatement state
      ((DelegationCall.storeLogin login).statement state).1
      ((DelegationCall.storeLogin login).statement state).2 := by
  simp only [DelegationCall.statement, DelegationState.storeLogin]
  split
  · rename_i result checked
    apply DelegationStatement.quiet sound
    simp only [Login.check] at checked
    split at checked
    · cases checked
      trivial
    · split at checked
      · cases checked
        trivial
      · split at checked
        · cases checked
          trivial
        · split at checked
          · cases checked
            trivial
          · cases checked
  · rename_i accessToken scope expiresAt checked
    refine ⟨?_, ?_, trivial⟩
    · apply sound.of_map
      · intro row
        split <;> rfl
      · intro row member
        split
        · rename_i matched
          constructor
          · rintro envelope ⟨⟩
            have access := given_trim
              (fun token member => (issued.access token member).1)
              (check_access checked)
            exact (issued.access accessToken access).2
          · intro envelope held
            simp only [DelegationIdentity.loggedIn] at held
            split at held
            · rename_i refreshToken present
              cases held
              have refresh := given_trim
                (fun token member => (issued.refresh token member).1) present
              exact (issued.refresh refreshToken refresh).2
            · rename_i absent
              have workspace := undisturbed _ checked absent row member matched
                (by rw [held]; exact Option.some_ne_none _)
              have paired := (sound.paired row member).refresh envelope held
              rw [workspace] at paired
              exact paired
        · exact sound.paired row member
      · intro row
        split
        · exact .inr rfl
        · exact .inl rfl
    · apply Later.of_map
      intro row
      split
      · apply later_loggedIn
      · exact .refl _ row

theorem delegation_statement {state : DelegationState}
    (sound : StateSound state) {call : DelegationCall}
    (known : call.Sound state) (rules : ServerRules state (.run call) [])
    (undisturbed : Undisturbed state (.run call) []) :
    DelegationStatement state (call.statement state).1
      (call.statement state).2 := by
  cases call with
  | readIdentity request =>
      apply DelegationStatement.quiet sound
      simp only [DelegationCall.statement]
      split
      · trivial
      · apply afterRead_sound sound
        exact fun identity found => identityForUser_mem found
  | claim refreshing now => exact claim_statement sound known undisturbed
  | wait request attempt =>
      apply DelegationStatement.quiet sound
      apply afterWait_sound sound
      exact fun identity found => identityForUser_mem found
  | exchange refreshing leaseId => exact exchange_statement sound known rules
  | clear refreshing leaseId error => exact clear_statement sound known error
  | store refreshing leaseId columns =>
      exact store_statement sound known.1 known.2
  | release refreshing leaseId error =>
      exact release_statement sound refreshing leaseId error
  | issue login => exact issue_statement sound rules
  | storeLogin login => exact storeLogin_statement sound known undisturbed
  | tick elapsed =>
      exact ⟨⟨sound.keyed, sound.paired, sound.single, sound.leases,
        sound.granted⟩, ⟨.refl _, le_rfl, fun _ member => member,
          fun _ member => .inl member,
          fun row member => ⟨row, member, .refl _ row⟩⟩, trivial⟩

/-- The lease of a call is lost, or the token columns were written since the
call has read them. -/
def DelegationCall.Stale (state : DelegationState) : DelegationCall → Prop
  | .claim refreshing _ =>
    ∀ row ∈ state.rows, row.id = refreshing.identity.id →
      row.written ≠ refreshing.identity.written
  | .exchange refreshing leaseId | .clear refreshing leaseId _
  | .store refreshing leaseId _ | .release refreshing leaseId _ =>
    ∀ row ∈ state.rows, row.id = refreshing.identity.id →
      row.refreshLeaseId ≠ some leaseId ∨
        row.written ≠ refreshing.identity.written
  | _ => False

theorem underLease_rows {state : DelegationState}
    (inForce : InForce state refreshing leaseId)
    (stale : ∀ row ∈ state.rows, row.id = refreshing.identity.id →
      row.refreshLeaseId ≠ some leaseId ∨
        row.written ≠ refreshing.identity.written)
    (update : DelegationIdentity → DelegationIdentity) :
    (state.underLease refreshing.identity.id leaseId update).rows =
      state.rows := by
  have same : ∀ row ∈ state.rows,
      (if row.Leased refreshing.identity.id leaseId then update row
        else row) = id row := by
    intro row member
    apply if_neg
    intro leased
    rcases stale row member leased.1 with lost | written
    · exact lost leased.2
    · exact written (inForce.unchanged row member leased)
  exact (List.map_congr_left same).trans (List.map_id _)

theorem stale_rows {state : DelegationState} {call : DelegationCall}
    (known : call.Sound state) (stale : call.Stale state)
    (undisturbed : Undisturbed state (.run call) []) :
    (call.statement state).1.rows = state.rows := by
  cases call with
  | claim refreshing now =>
      have same : ∀ row ∈ state.rows,
          (if row.Claimable refreshing.identity.id now then
            row.withLease state.nextLease now else row) = id row := by
        intro row member
        apply if_neg
        intro claimable
        exact stale row member claimable.1 (undisturbed row member claimable)
      exact (List.map_congr_left same).trans (List.map_id _)
  | exchange refreshing leaseId =>
      simp only [DelegationCall.statement]
      split <;> rfl
  | clear refreshing leaseId error =>
      simp only [DelegationCall.statement]
      split
      · rfl
      · exact underLease_rows known stale _
  | store refreshing leaseId columns =>
      simp only [DelegationCall.statement]
      split
      · rfl
      · exact underLease_rows known.1 stale _
  | release refreshing leaseId error => exact underLease_rows known stale _
  | _ => exact stale.elim

def delegationAssertions :
    Program.Assertions DelegationState DelegationCall DelegationResult where
  shared := StateSound
  call := fun state call => call.Sound state
  result := fun state result => result.Sound state.server

/-- The steps that the server allows and whose leases cover what was read. -/
def Covered (state : DelegationState) (event : Program.Event DelegationCall)
    (others : List DelegationCall) : Prop :=
  ServerRules state event others ∧ Undisturbed state event others

theorem delegation_run {initial : DelegationState}
    {reached : Program.Config DelegationState DelegationCall DelegationResult}
    (sound : StateSound initial)
    (run : delegationProgram.Run Covered ⟨initial, [], []⟩ reached) :
    delegationAssertions.Hold reached := by
  apply Program.Assertions.hold_of_run _ run ⟨sound, by simp, by simp⟩
  · intro state call starts
    cases starts <;> trivial
  · intro state call others shared known permitted
    have executed := delegation_statement shared known permitted.1 permitted.2
    refine ⟨executed.sound, ?_, fun other held =>
      DelegationCall.Sound.later executed.later held, fun result held =>
      DelegationResult.Sound.later executed.later held⟩
    change delegationAssertions.HoldAfter (call.statement state).1
      (call.statement state).2
    have next := executed.next
    cases reached : (call.statement state).2 with
    | next | done =>
        rw [reached] at next
        exact next

/-- Where every lease covers what its call has read, in every run: the token to
be presented is the one that the row held at the grant; a row to be cleared
holds the token that was presented, so it is no longer live if that one was
used; a call that lost its lease, or read before a write of the token columns,
changes nothing; and an access token comes with its workspace. -/
theorem refreshes_covered {initial : DelegationState}
    {reached : Program.Config DelegationState DelegationCall DelegationResult}
    (sound : StateSound initial)
    (run : delegationProgram.Run Covered ⟨initial, [], []⟩ reached) :
    (∀ refreshing leaseId, .exchange refreshing leaseId ∈ reached.calls →
      PresentsGranted reached.shared refreshing leaseId) ∧
    (∀ refreshing leaseId error,
      .clear refreshing leaseId error ∈ reached.calls →
      ∀ row ∈ reached.shared.rows, row.Leased refreshing.identity.id leaseId →
        row.refreshTokenEnc = some refreshing.refreshTokenEnc ∧
        (refreshing.refreshTokenEnc.text ∈ reached.shared.server.consumed →
          ¬reached.shared.server.LiveRow row)) ∧
    (∀ call ∈ reached.calls, call.Stale reached.shared →
      Undisturbed reached.shared (.run call) [] →
      (call.statement reached.shared).1.rows = reached.shared.rows) ∧
    ∀ accessToken workspaceId subjectId,
      .authorized accessToken workspaceId subjectId ∈ reached.results →
      (accessToken, some workspaceId) ∈ reached.shared.server.access := by
  obtain ⟨shared, calls, results⟩ := delegation_run sound run
  refine ⟨?_, ?_, ?_, ?_⟩
  · intro refreshing leaseId member
    have inForce : InForce reached.shared refreshing leaseId := calls _ member
    exact inForce.granted
  · intro refreshing leaseId error member row included leased
    have inForce : InForce reached.shared refreshing leaseId := calls _ member
    have same := (inForce.held.older row included leased.1).2
      (inForce.unchanged row included leased)
    have token := same.refresh.trans refreshing.token
    refine ⟨token, ?_⟩
    rintro used ⟨envelope, held, live⟩
    rw [token] at held
    cases held
    exact live.2 used
  · intro call member stale undisturbed
    exact stale_rows (calls _ member) stale undisturbed
  · intro accessToken workspaceId subjectId member
    exact results _ member

namespace TwoReaders

def stored : Envelope := encryptToken ['r'] ['k'] ['i'] .refresh

def row : DelegationIdentity :=
  { id := ['i'], userId := ['u'], provider := "oidc".toList
    providerSub := ['s', '#', 'x'], accessTokenEnc := none
    accessTokenExpiresAt := none, refreshTokenEnc := some stored
    tokenScope := some "capsules:write".toList
    delegatedWorkspaceId := some ['w'], refreshLeaseId := none
    refreshLeaseExpiresAt := none, written := 0 }

def initial : DelegationState :=
  { rows := [row], now := 0, nextLease := 0
    server := ⟨[], [(['r'], some ['w'])], []⟩, grants := [] }

def requestWith (reply : TokenReply) : AuthorizationRequest :=
  { encryptionKey := ['k'], userId := ['u'], issuer := ['s'], access := .write
    reply, clearFails := false, storeFails := false }

def tokens : DelegatedTokenResponse := ⟨some ['a'], some ['n'], none, none⟩

def accepting : AuthorizationRequest :=
  requestWith ⟨true, some (true, tokens)⟩

def refused : AuthorizationRequest :=
  requestWith ⟨false, some (false, ⟨none, none, none, none⟩)⟩

def reading (request : AuthorizationRequest) : Refreshing :=
  ⟨request, row, ['w'], stored, rfl, rfl⟩

def columns : RefreshedColumns :=
  { accessToken := ['a']
    accessTokenEnc := encryptToken ['a'] ['k'] ['i'] .access
    accessTokenExpiresAt := 300000
    refreshTokenEnc := encryptToken ['n'] ['k'] ['i'] .refresh
    tokenScope := "capsules:write".toList }

def leased : DelegationState :=
  { initial with
    rows := [row.withLease 0 0], nextLease := 1, grants := [(0, some stored)] }

def exchanged : DelegationState :=
  { leased with
    server :=
      ⟨[(['a'], some ['w'])], [(['n'], some ['w']), (['r'], some ['w'])],
        [['r']]⟩ }

def refreshed : DelegationState :=
  { exchanged with rows := [(row.withLease 0 0).refreshed columns] }

def leasedAgain : DelegationState :=
  { refreshed with
    rows := [((row.withLease 0 0).refreshed columns).withLease 1 0]
    nextLease := 2
    grants := [(1, some columns.refreshTokenEnc), (0, some stored)] }

def authorized : DelegationResult := .authorized ['a'] ['w'] ['x']

abbrev RunTo (allowed : DelegationState → Program.Event DelegationCall →
      List DelegationCall → Prop)
    (state : DelegationState) (calls : List DelegationCall)
    (results : List DelegationResult) : Prop :=
  delegationProgram.Run allowed ⟨initial, [], []⟩ ⟨state, calls, results⟩

theorem sound : StateSound initial where
  keyed := by simp [initial]
  paired := by
    intro identity member
    rw [List.mem_singleton.mp member]
    constructor
    · rintro envelope ⟨⟩
    · rintro envelope ⟨⟩
      simp [initial, row, stored, encryptToken]
  single := by
    intro token first second left right
    simp only [initial, List.mem_singleton, Prod.mk.injEq] at left right
    rw [left.2, right.2]
  leases := by
    intro identity member
    rw [List.mem_singleton.mp member]
    rintro lease ⟨⟩
  granted := by simp [initial]

theorem live : initial.server.Live ['r'] :=
  ⟨⟨some ['w'], by simp [initial]⟩, by simp [initial]⟩

theorem rules (state : DelegationState) (same : state.server = initial.server) :
    ServerRules state (.run (.exchange (reading accepting) 0)) [] := by
  constructor
  · intro accepted
    rw [same]
    exact live
  · rintro ok answered ⟨⟩
    refine ⟨by simp [reading, accepting, requestWith], ?_⟩
    rintro token ⟨⟩ workspace
    rw [same]
    simp [initial]

theorem run_authorized : RunTo Covered refreshed [] [authorized] := by
  have nothing : RunTo Covered initial [] [] := .here
  have alone : Undisturbed initial (.run (.claim (reading accepting) 0)) [] := by
    intro identity member claimable
    rw [List.mem_singleton.mp member]
    rfl
  have run := nothing.play [.start (.readIdentity accepting), .run 0, .run 0,
    .run 0, .run 0] (by
      with_unfolding_all
        repeat' first
          | exact trivial
          | exact .authorization accepting
          | exact rules leased rfl
          | exact alone
          | apply And.intro)
  with_unfolding_all exact run

/-- Both calls read the row; the second one claims when the first is done. -/
theorem run_clearing :
    RunTo ServerRules leasedAgain [.clear (reading refused) 1 renewError]
      [authorized] := by
  have nothing : RunTo ServerRules initial [] [] := .here
  have permitted : ServerRules leasedAgain
      (.run (.exchange (reading refused) 1)) [] := by
    constructor
    · intro accepted
      cases accepted
    · rintro ok answered ⟨⟩
      constructor
      · intro _ impossible
        cases impossible
      · rintro token ⟨⟩
  have run := nothing.play [.start (.readIdentity refused), .run 0,
    .start (.readIdentity accepting), .run 0, .run 0, .run 0, .run 0, .run 0,
    .run 0] (by
      with_unfolding_all
        repeat' first
          | exact trivial
          | exact .authorization _
          | exact rules leased rfl
          | exact permitted
          | apply And.intro)
  with_unfolding_all exact run

end TwoReaders

open TwoReaders in
theorem refreshes_covered_authorized :
    (['a'], some ['w']) ∈ refreshed.server.access := by
  have covered := refreshes_covered sound run_authorized
  exact covered.2.2.2 ['a'] ['w'] ['x'] List.mem_cons_self

open TwoReaders in
/-- A call clears the row that another call has refreshed, because the token
that it read before has been used. -/
theorem live_row_cleared :
    ¬ ∀ (initial : DelegationState) (reached : Program.Config DelegationState
        DelegationCall DelegationResult), StateSound initial →
      delegationProgram.Run ServerRules ⟨initial, [], []⟩ reached →
      ∀ refreshing leaseId error,
        .clear refreshing leaseId error ∈ reached.calls →
        ∀ row ∈ reached.shared.rows,
          row.Leased refreshing.identity.id leaseId →
          refreshing.refreshTokenEnc.text ∈ reached.shared.server.consumed →
            ¬reached.shared.server.LiveRow row := by
  intro every
  have dead := every initial _ sound run_clearing (reading refused) 1 renewError
    List.mem_cons_self _ List.mem_cons_self ⟨rfl, rfl⟩ List.mem_cons_self
  apply dead
  refine ⟨columns.refreshTokenEnc, rfl, ⟨some ['w'], ?_⟩, ?_⟩
  · exact List.mem_cons_self
  · intro used
    cases List.mem_singleton.mp used

end Takos.Delegations
