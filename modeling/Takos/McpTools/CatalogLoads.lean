import Takos.Foundation.Collation
import Takos.Foundation.OffsetPages
import Takos.McpTools.ExposureNames
import Takos.McpTools.ToolPolicies
import Takos.Spaces.Members

/-!
# Loading the catalogs of external servers

The servers are sorted and cut off at a limit, their catalogs are read, and the
tools of one server after the other are staged under names that are free.  A
server that exceeds the catalog limits leaves nothing behind.
-/

namespace Takos.McpTools

open Takos.Foundation Takos.Spaces

def MAX_MCP_SERVERS_PER_RUN : Nat := 64

def MAX_MCP_RUNTIME_TOOLS : Nat := 2048

def MAX_MCP_RUNTIME_CATALOG_BYTES : Nat := 8 * 1024 * 1024

inductive SourceType where
  | runtimeInterface | external | other (name : Text)
  deriving DecidableEq

def SourceType.rank : SourceType → Nat
  | runtimeInterface => 0
  | external => 3
  | other _ => 2

structure McpServer where
  id : Text
  name : Text
  sourceType : SourceType
  deriving DecidableEq

/-- `snapshot` is the rest of what the server advertises for the tool. -/
structure McpTool where
  name : Text
  taskSupport : Option Text
  readOnlyHint : Bool
  destructiveHint : Bool
  snapshot : Text
  deriving DecidableEq

structure LoadedMcpServerCatalog where
  mcpTools : List McpTool
  policies : List (Text × ToolPolicy)
  deriving DecidableEq

/-- A server with its catalog, or none if reading the catalog fails. -/
structure ServerAnswer where
  server : McpServer
  catalog : Option LoadedMcpServerCatalog
  deriving DecidableEq

inductive RiskLevel where
  | low | medium | high
  deriving DecidableEq

structure ToolDefinition where
  name : Text
  family : Text
  riskLevel : RiskLevel
  sideEffects : Bool
  requiresEgress : Bool

/-- The handler of a tool calls `sdkToolName` on `server`. -/
structure RegisteredTool where
  definition : ToolDefinition
  server : McpServer
  sdkToolName : Text
  runtimeSchemaHash : Text
  approvedExternalSchemaHash : Option Text
  invocationNeedsConfirmation : Bool

structure ExposureContext where
  role : Option SpaceRole
  egress : Bool

/-- What the run brings along; a fingerprint may fail. -/
structure CatalogHost where
  collation : Collation
  sha256 : Text → List UInt8
  fingerprintMcpTool : McpTool → Option Text
  runtimeCatalogEntryBytes : McpTool → ToolDefinition → Nat
  trustedLocalReadonlyServerIds : List Text
  exposureContext : Option ExposureContext

def deriveMcpToolExecutionPolicy (host : CatalogHost) (server : McpServer)
    (sdkTool : McpTool) : RiskLevel × Bool :=
  let trustedReadOnly :=
    server.sourceType ≠ .external ∧
      server.id ∈ host.trustedLocalReadonlyServerIds ∧
      sdkTool.readOnlyHint ∧ ¬sdkTool.destructiveHint
  (if sdkTool.destructiveHint then .high
    else if server.sourceType = .external then .medium else .low,
    !decide trustedReadOnly)

def requiresMcpToolInvocationConfirmation (sourceType : SourceType)
    (policy : InvocationPolicy) (riskLevel : RiskLevel)
    (destructiveHint : Bool) : Bool :=
  riskLevel = .high || destructiveHint ||
    (sourceType = .external && policy = .confirmEachTime)

def registerTool (host : CatalogHost) (server : McpServer)
    (policy : Option ToolPolicy) (sdkTool : McpTool)
    (schemaHash exposedName : Text) : RegisteredTool :=
  let (riskLevel, sideEffects) :=
    deriveMcpToolExecutionPolicy host server sdkTool
  let family := "mcp.".toList ++ sanitizeMcpToolNamespace
    (if server.name = [] then server.id else server.name)
  let external := decide (server.sourceType = .external)
  { definition := ⟨exposedName, family, riskLevel, sideEffects, external⟩
    server
    sdkToolName := sdkTool.name
    runtimeSchemaHash := schemaHash
    approvedExternalSchemaHash := if external then some schemaHash else none
    invocationNeedsConfirmation :=
      requiresMcpToolInvocationConfirmation server.sourceType
        ((policy.map (·.invocationPolicy)).getD .confirmEachTime) riskLevel
        sdkTool.destructiveHint }

structure Loading where
  tools : OrderedMap Text RegisteredTool
  existingNames : List Text
  runtimeCatalogBytes : Nat

structure Staging where
  stagedTools : OrderedMap Text RegisteredTool
  reservedNames : List Text
  stagedCatalogBytes : Nat

def externalPolicy (server : McpServer) (policies : OrderedMap Text ToolPolicy)
    (sdkTool : McpTool) : Option ToolPolicy :=
  if server.sourceType = .external then policies.get? sdkTool.name else none

/-- One round of the loop over the tools; none if it throws. -/
def stageTool (host : CatalogHost) (server : McpServer)
    (policies : OrderedMap Text ToolPolicy) (loading : Loading)
    (staging : Staging) (sdkTool : McpTool) : Option Staging :=
  if sdkTool.taskSupport = some "required".toList then some staging
  else
    match host.fingerprintMcpTool sdkTool with
    | none => none
    | some schemaHash =>
      let policy := externalPolicy server policies sdkTool
      if server.sourceType = .external ∧
          ¬isMcpToolSnapshotEnabled policy schemaHash then some staging
      else
        let exposedName := chooseMcpToolExposureName host.sha256
          staging.reservedNames ⟨server.name, server.id, sdkTool.name⟩
        let tool :=
          registerTool host server policy sdkTool schemaHash exposedName
        let entryBytes := host.runtimeCatalogEntryBytes sdkTool tool.definition
        if MAX_MCP_RUNTIME_TOOLS ≤
              loading.tools.entries.length +
                staging.stagedTools.entries.length ∨
            MAX_MCP_RUNTIME_CATALOG_BYTES < loading.runtimeCatalogBytes +
              staging.stagedCatalogBytes + entryBytes then none
        else
          some ⟨staging.stagedTools.set exposedName tool,
            staging.reservedNames ++ [exposedName],
            staging.stagedCatalogBytes + entryBytes⟩

def Loading.commit (loading : Loading) (staging : Staging) : Loading where
  tools := staging.stagedTools.entries.foldl
    (fun tools entry => tools.set entry.1 entry.2) loading.tools
  existingNames := loading.existingNames ++ staging.stagedTools.keys
  runtimeCatalogBytes :=
    loading.runtimeCatalogBytes + staging.stagedCatalogBytes

def serverIsEligible (host : CatalogHost) (server : McpServer) : Bool :=
  match host.exposureContext with
  | none => true
  | some context =>
    context.role ≠ some .viewer &&
      (server.sourceType ≠ .external || context.egress)

/-- None if the tools of the server are dropped. -/
def loadServer (host : CatalogHost) (loading : Loading)
    (answer : ServerAnswer) : Option Loading :=
  match answer.catalog with
  | none => some loading
  | some catalog =>
    if serverIsEligible host answer.server then
      (catalog.mcpTools.foldlM
        (stageTool host answer.server (.ofList catalog.policies) loading)
        ⟨.empty, loading.existingNames, 0⟩).map loading.commit
    else some loading

/-- The second loop over the servers, with those it drops. -/
def loadServers (host : CatalogHost) :
    Loading → List ServerAnswer → Loading × List ServerAnswer
  | loading, [] => (loading, [])
  | loading, answer :: rest =>
    match loadServer host loading answer with
    | none =>
      let (final, dropped) := loadServers host loading rest
      (final, answer :: dropped)
    | some next => loadServers host next rest

def compareServers (collation : Collation) :
    ServerAnswer → ServerAnswer → Ordering :=
  compareLex (fun left right =>
      compare left.server.sourceType.rank right.server.sourceType.rank) <|
    compareLex (fun left right =>
        collation.localeCompare left.server.name right.server.name)
      fun left right =>
        collation.localeCompare left.server.id right.server.id

def sortServers (collation : Collation) (servers : List ServerAnswer) :
    List ServerAnswer :=
  servers.insertionSort fun left right =>
    compareServers collation left right ≠ .gt

structure McpLoadResult where
  tools : OrderedMap Text RegisteredTool
  overLimit : List ServerAnswer
  failed : List ServerAnswer

def McpLoadResult.failedServers (result : McpLoadResult) : List Text :=
  result.overLimit.map (·.server.name ++ " (server limit exceeded)".toList) ++
    result.failed.map (·.server.name)

def loadMcpTools (host : CatalogHost) (existingNames : List Text)
    (servers : List ServerAnswer) : McpLoadResult :=
  let sorted := sortServers host.collation servers
  let servers := sorted.take MAX_MCP_SERVERS_PER_RUN
  let unread := servers.filter fun answer =>
    serverIsEligible host answer.server && answer.catalog.isNone
  let (loading, dropped) :=
    loadServers host ⟨.empty, existingNames, 0⟩ servers
  { tools := loading.tools
    overLimit := sorted.drop MAX_MCP_SERVERS_PER_RUN
    failed := unread ++ dropped }

/-- The handler calls the tool that the name was chosen for. -/
def MadeFor (host : CatalogHost) (servers : List ServerAnswer)
    (existingNames : List Text) (name : Text) (tool : RegisteredTool) : Prop :=
  ∃ answer ∈ servers, ∃ catalog, answer.catalog = some catalog ∧
    ∃ sdkTool ∈ catalog.mcpTools, ∃ reserved, existingNames ⊆ reserved ∧
      name = chooseMcpToolExposureName host.sha256 reserved
        ⟨answer.server.name, answer.server.id, sdkTool.name⟩ ∧
      tool.definition.name = name ∧ tool.server = answer.server ∧
      tool.sdkToolName = sdkTool.name

def Exposable (host : CatalogHost) (servers : List ServerAnswer)
    (existingNames : List Text) (entry : Text × RegisteredTool) : Prop :=
  matchesProvider entry.1 = true ∧
    MadeFor host servers existingNames entry.1 entry.2

/-- The tools that `names` has received beyond `base`, after `count` others. -/
structure Held (host : CatalogHost) (servers : List ServerAnswer)
    (existingNames base : List Text) (count : Nat) (names : List Text)
    (tools : OrderedMap Text RegisteredTool) : Prop where
  names : names = base ++ tools.keys
  fresh : ∀ name ∈ tools.keys, name ∉ base
  bounded : count + tools.entries.length ≤ MAX_MCP_RUNTIME_TOOLS
  exposable : ∀ entry ∈ tools.entries,
    Exposable host servers existingNames entry

abbrev Loaded (host : CatalogHost) (servers : List ServerAnswer)
    (existingNames : List Text) (loading : Loading) : Prop :=
  Held host servers existingNames existingNames 0 loading.existingNames
    loading.tools

abbrev Staged (host : CatalogHost) (servers : List ServerAnswer)
    (existingNames : List Text) (loading : Loading) (staging : Staging) : Prop :=
  Held host servers existingNames loading.existingNames
    loading.tools.entries.length staging.reservedNames staging.stagedTools

section Names

variable {host : CatalogHost} {servers : List ServerAnswer}
  {existingNames : List Text} {loading after : Loading}
  {staging following : Staging} {answer : ServerAnswer}
  {catalog : LoadedMcpServerCatalog} {policies : OrderedMap Text ToolPolicy}

theorem Held.empty {base : List Text} {count : Nat}
    (bounded : count ≤ MAX_MCP_RUNTIME_TOOLS) :
    Held host servers existingNames base count base .empty where
  names := (List.append_nil base).symm
  fresh _ absent := absurd absent List.not_mem_nil
  bounded := bounded
  exposable _ absent := absurd absent List.not_mem_nil

theorem stageTool_cases {server : McpServer} {sdkTool : McpTool}
    (done : stageTool host server policies loading staging sdkTool =
      some following) :
    following = staging ∨
      ∃ name tool bytes,
        name = chooseMcpToolExposureName host.sha256 staging.reservedNames
          ⟨server.name, server.id, sdkTool.name⟩ ∧
        (tool.definition.name = name ∧ tool.server = server ∧
          tool.sdkToolName = sdkTool.name) ∧
        loading.tools.entries.length + staging.stagedTools.entries.length <
          MAX_MCP_RUNTIME_TOOLS ∧
        following = ⟨staging.stagedTools.set name tool,
          staging.reservedNames ++ [name], bytes⟩ := by
  unfold stageTool at done
  split at done
  · exact .inl (Option.some.inj done).symm
  · split at done
    · cases done
    · dsimp only at done
      split at done
      · exact .inl (Option.some.inj done).symm
      · split at done
        · cases done
        · rename_i within
          exact .inr ⟨_, _, _, rfl, ⟨rfl, rfl, rfl⟩, by omega,
            (Option.some.inj done).symm⟩

theorem Staged.step (loaded : Loaded host servers existingNames loading)
    (few : existingNames.length < 2 ^ 53) (listed : answer ∈ servers)
    (read : answer.catalog = some catalog) {sdkTool : McpTool}
    (advertised : sdkTool ∈ catalog.mcpTools)
    (staged : Staged host servers existingNames loading staging)
    (done : stageTool host answer.server policies loading staging sdkTool =
      some following) :
    Staged host servers existingNames loading following := by
  rcases stageTool_cases done with rfl |
    ⟨name, tool, bytes, chosen, calls, room, rfl⟩
  · exact staged
  · have reserved : staging.reservedNames.length < 10 ^ 61 := by
      have bounded := loaded.bounded
      simp only [staged.names, loaded.names, List.length_append,
        OrderedMap.keys, List.length_map]
      simp only [MAX_MCP_RUNTIME_TOOLS] at room
      have powers : (2 : Nat) ^ 53 + 2048 ≤ 10 ^ 61 := by decide
      omega
    obtain ⟨accepted, free⟩ := chooseMcpToolExposureName_spec host.sha256
      staging.reservedNames
      ⟨answer.server.name, answer.server.id, sdkTool.name⟩ reserved
    rw [← chosen] at accepted free
    rw [staged.names, List.mem_append, not_or] at free
    have appended := OrderedMap.entries_set_of_fresh _ free.2 tool
    have keys : (staging.stagedTools.set name tool).keys =
        staging.stagedTools.keys ++ [name] := by
      rw [OrderedMap.keys_set, if_neg free.2]
    constructor
    · rw [keys, staged.names, List.append_assoc]
    · intro other member
      rw [keys, List.mem_append, List.mem_singleton] at member
      rcases member with earlier | rfl
      · exact staged.fresh other earlier
      · exact free.1
    · rw [appended, List.length_append, List.length_singleton]
      exact room
    · intro entry member
      rw [appended, List.mem_append, List.mem_singleton] at member
      rcases member with earlier | rfl
      · exact staged.exposable entry earlier
      · refine ⟨accepted, answer, listed, catalog, read, sdkTool, advertised,
          staging.reservedNames, ?_, chosen, calls⟩
        rw [staged.names, loaded.names, List.append_assoc]
        exact List.subset_append_left _ _

theorem Staged.run (loaded : Loaded host servers existingNames loading)
    (few : existingNames.length < 2 ^ 53) (listed : answer ∈ servers)
    (read : answer.catalog = some catalog) {sdkTools : List McpTool}
    (advertised : sdkTools ⊆ catalog.mcpTools)
    (staged : Staged host servers existingNames loading staging)
    (done : sdkTools.foldlM (stageTool host answer.server policies loading)
      staging = some following) :
    Staged host servers existingNames loading following := by
  induction sdkTools generalizing staging with
  | nil => exact Option.some.inj done ▸ staged
  | cons sdkTool rest ih =>
      rw [List.foldlM_cons] at done
      obtain ⟨next, first, later⟩ := Option.bind_eq_some_iff.mp done
      obtain ⟨inCatalog, others⟩ := List.cons_subset.mp advertised
      exact ih others (Staged.step loaded few listed read inCatalog staged first) later

theorem Loaded.commit (loaded : Loaded host servers existingNames loading)
    (staged : Staged host servers existingNames loading staging) :
    Loaded host servers existingNames (loading.commit staging) := by
  have unstaged : ∀ name ∈ loading.tools.keys,
      name ∉ staging.stagedTools.keys := by
    intro name inTools inStaged
    apply staged.fresh name inStaged
    rw [loaded.names]
    exact List.mem_append_right _ inTools
  have entries : (loading.commit staging).tools.entries =
      loading.tools.entries ++ staging.stagedTools.entries :=
    OrderedMap.foldl_set_entries _ _
      (List.Nodup.append loading.tools.nodup staging.stagedTools.nodup unstaged)
  have keys : (loading.commit staging).tools.keys =
      loading.tools.keys ++ staging.stagedTools.keys := by
    rw [OrderedMap.keys, entries, List.map_append]
    rfl
  constructor
  · rw [keys, ← List.append_assoc, ← loaded.names]
    rfl
  · intro name member
    rw [keys, List.mem_append] at member
    rcases member with earlier | inStaged
    · exact loaded.fresh name earlier
    · intro held
      apply staged.fresh name inStaged
      rw [loaded.names]
      exact List.mem_append_left _ held
  · rw [entries, List.length_append, Nat.zero_add]
    exact staged.bounded
  · intro entry member
    rw [entries, List.mem_append] at member
    rcases member with earlier | inStaged
    · exact loaded.exposable entry earlier
    · exact staged.exposable entry inStaged

theorem Loaded.step (loaded : Loaded host servers existingNames loading)
    (few : existingNames.length < 2 ^ 53) (listed : answer ∈ servers)
    (done : loadServer host loading answer = some after) :
    Loaded host servers existingNames after := by
  unfold loadServer at done
  split at done
  · exact Option.some.inj done ▸ loaded
  · rename_i catalog read
    split at done
    · obtain ⟨staging, staged, rfl⟩ := Option.map_eq_some_iff.mp done
      apply Loaded.commit loaded
      exact Staged.run loaded few listed read (List.Subset.refl _)
        (.empty (by simpa using loaded.bounded)) staged
    · exact Option.some.inj done ▸ loaded

theorem Loaded.run (few : existingNames.length < 2 ^ 53)
    {rest : List ServerAnswer} (listed : rest ⊆ servers)
    (loaded : Loaded host servers existingNames loading) :
    Loaded host servers existingNames (loadServers host loading rest).1 := by
  induction rest generalizing loading with
  | nil => exact loaded
  | cons answer rest ih =>
      obtain ⟨first, others⟩ := List.cons_subset.mp listed
      rw [loadServers]
      split
      · exact ih others loaded
      · rename_i next done
        exact ih others (Loaded.step loaded few first done)

theorem dropped_subset (rest : List ServerAnswer) (loading : Loading) :
    (loadServers host loading rest).2 ⊆ rest := by
  induction rest generalizing loading with
  | nil => exact List.Subset.refl _
  | cons answer rest ih =>
      rw [loadServers]
      split
      · exact List.cons_subset_cons answer (ih loading)
      · exact List.Subset.trans (ih _) (List.subset_cons_self answer rest)

theorem loadServers_filter (keep : ServerAnswer → Bool)
    {rest : List ServerAnswer} (distinct : rest.Nodup)
    (idle : ∀ answer ∈ rest, keep answer = false →
      answer.catalog = none ∨ answer ∈ (loadServers host loading rest).2) :
    (loadServers host loading (rest.filter keep)).1 =
      (loadServers host loading rest).1 := by
  induction rest generalizing loading with
  | nil => rfl
  | cons answer rest ih =>
      obtain ⟨absent, distinct⟩ := List.nodup_cons.mp distinct
      have apart : ∀ other ∈ rest, other ≠ answer :=
        fun other member same => absent (same ▸ member)
      rw [loadServers] at idle ⊢
      cases done : loadServer host loading answer with
      | none =>
          rw [done] at idle
          have same := @ih loading distinct (by
            intro other member dropped
            exact (idle other (List.mem_cons_of_mem _ member) dropped).imp_right
              fun failed => (List.mem_cons.mp failed).resolve_left
                (apart other member))
          by_cases kept : keep answer = true
          · rw [List.filter_cons_of_pos kept, loadServers, done]
            exact same
          · rw [List.filter_cons_of_neg kept]
            exact same
      | some next =>
          rw [done] at idle
          have same := @ih next distinct
            fun other member => idle other (List.mem_cons_of_mem _ member)
          by_cases kept : keep answer = true
          · rw [List.filter_cons_of_pos kept, loadServers, done]
            exact same
          · rw [List.filter_cons_of_neg kept]
            rcases idle answer List.mem_cons_self (Bool.eq_false_iff.mpr kept)
              with unread | failed
            · rw [loadServer, unread] at done
              exact (Option.some.inj done) ▸ same
            · exact absurd (dropped_subset rest next failed) absent

theorem sortServers_filter (collation : Collation) (keep : ServerAnswer → Bool)
    (servers : List ServerAnswer) :
    sortServers collation (servers.filter keep) =
      (sortServers collation servers).filter keep := by
  let before : ServerAnswer → ServerAnswer → Prop :=
    fun left right => compareServers collation left right ≠ .gt
  have texts : ∀ key : ServerAnswer → Text, Std.TransCmp fun left right =>
      collation.localeCompare (key left) (key right) := by
    intro key
    refine { eq_swap := collation.swap _ _, isLE_trans := ?_ }
    intro first second third
    rw [← Ordering.ne_gt_iff_isLE, ← Ordering.ne_gt_iff_isLE,
      ← Ordering.ne_gt_iff_isLE]
    exact collation.trans _ _ _
  have ranks : Std.TransCmp fun left right : ServerAnswer =>
      compare left.server.sourceType.rank right.server.sourceType.rank := by
    refine { eq_swap := Std.OrientedCmp.eq_swap, isLE_trans := ?_ }
    exact Std.TransCmp.isLE_trans
  have names := texts (·.server.name)
  have ids := texts (·.server.id)
  have lawful : Std.TransCmp (compareServers collation) := by
    unfold compareServers
    infer_instance
  have total : Std.Total before := by
    constructor
    intro left right
    by_cases after : compareServers collation left right = .gt
    · right
      show compareServers collation right left ≠ .gt
      rw [lawful.eq_swap, after]
      decide
    · exact .inl after
  have transitive : IsTrans ServerAnswer before := by
    constructor
    intro first second third
    simp only [before, Ordering.ne_gt_iff_isLE]
    exact Std.TransCmp.isLE_trans
  exact (@filter_insertionSort _ before _ _ _ keep servers).symm

theorem loadMcpTools_filter (keep : ServerAnswer → Bool)
    (distinct : servers.Nodup)
    (idle : ∀ answer ∈ servers, keep answer = false →
      answer.catalog = none ∨
        answer ∈ (loadMcpTools host existingNames servers).overLimit ∨
        answer ∈ (loadMcpTools host existingNames servers).failed)
    (cut : ∀ answer ∈ (loadMcpTools host existingNames servers).overLimit,
      keep answer = false) :
    (loadMcpTools host existingNames (servers.filter keep)).tools =
      (loadMcpTools host existingNames servers).tools := by
  simp only [loadMcpTools, sortServers_filter] at idle cut ⊢
  have perm : (sortServers host.collation servers).Perm servers :=
    List.perm_insertionSort _ servers
  generalize sortServers host.collation servers = sorted at idle cut perm ⊢
  have nodup := perm.nodup_iff.mpr distinct
  have remaining : (sorted.filter keep).take MAX_MCP_SERVERS_PER_RUN =
      (sorted.take MAX_MCP_SERVERS_PER_RUN).filter keep := by
    have none : (sorted.drop MAX_MCP_SERVERS_PER_RUN).filter keep = [] := by
      apply List.filter_eq_nil_iff.mpr
      intro answer member
      rw [cut answer member]
      exact Bool.false_ne_true
    conv_lhs => rw [← List.take_append_drop MAX_MCP_SERVERS_PER_RUN sorted,
      List.filter_append, none, List.append_nil]
    apply List.take_of_length_le
    exact (List.length_filter_le _ _).trans (List.length_take_le _ _)
  rw [remaining]
  refine congrArg Loading.tools (loadServers_filter keep
    (nodup.sublist (List.take_sublist _ _)) ?_)
  intro answer member dropped
  have listed := perm.mem_iff.mp (List.mem_of_mem_take member)
  rcases idle answer listed dropped with unread | beyond | failed
  · exact .inl unread
  · have apart := List.disjoint_take_drop nodup
      (Nat.le_refl MAX_MCP_SERVERS_PER_RUN)
    exact absurd beyond (apart member)
  · rcases List.mem_append.mp failed with unread | failed
    · have parts := (List.mem_filter.mp unread).2
      simp only [Bool.and_eq_true, Option.isNone_iff_eq_none] at parts
      exact .inl parts.2
    · exact .inr failed

end Names

end Takos.McpTools
