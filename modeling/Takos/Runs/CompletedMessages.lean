import Takos.Foundation.Json
import Mathlib.Data.List.Perm.Lattice

/-!
# The messages of a completed run

The executor reports the transcript of a run as JSON.  Reading it checks the
shape and the size of every message and keeps the tool calls that still wait
for their result: the next assistant message may only come when none is left.
An accepted transcript is therefore a list of exchanges, each an assistant
message followed by the results of all its calls.
-/

namespace Takos.Runs

open Takos.Foundation

inductive MessageRole where
  | system
  | user
  | assistant
  | tool
  deriving DecidableEq

structure ToolCall (Number : Type) where
  id : Text
  name : Text
  arguments : Json Number

structure CompleteRunMessage (Number : Type) where
  role : MessageRole
  content : Text
  toolCalls : Option (List (ToolCall Number))
  toolCallId : Option Text
  metadata : Option (Json Number)

def maxMessages : Nat := 256
def maxMessageBytes : Nat := 512 * 1024
def maxTranscriptBytes : Nat := 8 * 1024 * 1024
def maxMetadataBytes : Nat := 64 * 1024
def maxToolArgumentBytes : Nat := 256 * 1024
def maxToolCallsPerMessage : Nat := 16
def maxIdentifierLength : Nat := 256
def maxJsonDepth : Nat := 32
def maxJsonNodes : Nat := 4096

variable {Number : Type}

namespace CompleteRunMessage

def calls (message : CompleteRunMessage Number) : List (ToolCall Number) :=
  message.toolCalls.getD []

def callIds (message : CompleteRunMessage Number) : List Text :=
  message.calls.map ToolCall.id

def resultId (message : CompleteRunMessage Number) : Text :=
  message.toolCallId.getD []

end CompleteRunMessage

def isObject : Json Number → Bool
  | .object _ => true
  | _ => false

def children : Json Number → List (Json Number)
  | .array items => items
  | .object fields => fields.map Prod.snd
  | _ => []

section Parsing

variable (format : NumberFormat Number)

def finiteIfNumber : Json Number → Bool
  | .number value => format.isFinite value
  | _ => true

/-- The loop of `isBoundedJson`: the values still to visit, the last pushed
one first, and the number of nodes that may still be visited.  No two values
of a tree are the same object, so the set of seen objects never matters. -/
def boundedFrom : Nat → List (Json Number × Nat) → Bool
  | _, [] => true
  | 0, _ :: _ => false
  | nodes + 1, (item, depth) :: pending =>
    if depth > maxJsonDepth then false
    else if !finiteIfNumber format item then false
    else
      boundedFrom nodes
        (((children item).map fun child => (child, depth + 1)).reverse ++
          pending)

def isBoundedJson (root : Json Number) : Bool :=
  boundedFrom format maxJsonNodes [(root, 0)]

def jsonBytes (item : Json Number) : Nat :=
  Text.encodedSize (Json.stringify format item)

/-- What the loop over the messages carries. -/
structure TranscriptParse (Number : Type) where
  messages : List (CompleteRunMessage Number)
  pendingToolCallIds : List Text
  seenToolCallIds : List Text
  transcriptBytes : Nat

/-- `transcriptBytes += bytes`, with the check that follows it. -/
def charge (transcriptBytes bytes : Nat) : Option Nat :=
  if transcriptBytes + bytes > maxTranscriptBytes then none
  else some (transcriptBytes + bytes)

def parseToolCall (state : TranscriptParse Number) (call : Json Number) :
    Option (TranscriptParse Number × ToolCall Number) := do
  let id ← (call.field "id".toList).bind Json.text
  let name ← (call.field "name".toList).bind Json.text
  let arguments ← call.field "arguments".toList
  guard (id ≠ [] ∧ Text.size id ≤ maxIdentifierLength ∧
    name ≠ [] ∧ Text.size name ≤ maxIdentifierLength ∧
    isObject arguments = true)
  guard (isBoundedJson format arguments = true)
  let argumentBytes := jsonBytes format arguments
  let transcriptBytes ← charge state.transcriptBytes
    (Text.encodedSize id + Text.encodedSize name + argumentBytes + 24)
  guard (argumentBytes ≤ maxToolArgumentBytes)
  guard (id ∉ state.seenToolCallIds)
  return ({ state with
      pendingToolCallIds := state.pendingToolCallIds ++ [id]
      seenToolCallIds := state.seenToolCallIds ++ [id]
      transcriptBytes := transcriptBytes },
    { id := id, name := name, arguments := arguments })

def parseToolCallItems (state : TranscriptParse Number) :
    List (Json Number) →
      Option (TranscriptParse Number × List (ToolCall Number))
  | [] => some (state, [])
  | call :: rest => do
    let (next, toolCall) ← parseToolCall format state call
    let (last, others) ← parseToolCallItems next rest
    return (last, toolCall :: others)

def parseToolCalls (state : TranscriptParse Number) :
    Option (Json Number) →
      Option (TranscriptParse Number × Option (List (ToolCall Number)))
  | none => some (state, none)
  | some (.array items) => do
    guard (items.length ≤ maxToolCallsPerMessage)
    let (last, toolCalls) ← parseToolCallItems format state items
    return (last, some toolCalls)
  | some _ => none

def chargeMetadata (transcriptBytes : Nat) :
    Option (Json Number) → Option Nat
  | none => some transcriptBytes
  | some metadata => do
    guard (isObject metadata = true)
    guard (isBoundedJson format metadata = true)
    guard (jsonBytes format metadata ≤ maxMetadataBytes)
    charge transcriptBytes (jsonBytes format metadata)

def parseRole (role : Text) : Option MessageRole :=
  if role = "assistant".toList then some .assistant
  else if role = "tool".toList then some .tool
  else none

/-- The place of a message after the previous ones. -/
def placeMessage (state : TranscriptParse Number) (role : MessageRole)
    (item : Json Number) : Option (TranscriptParse Number) :=
  let toolCallId := (item.field "tool_call_id".toList).bind Json.text
  match role with
  | .tool => do
    let transcriptBytes ← charge state.transcriptBytes
      (Text.encodedSize (toolCallId.getD []))
    guard (item.field "tool_calls".toList).isNone
    let id ← toolCallId
    guard (id ≠ [] ∧ Text.size id ≤ maxIdentifierLength ∧
      id ∈ state.pendingToolCallIds)
    return { state with
      pendingToolCallIds := state.pendingToolCallIds.erase id
      transcriptBytes := transcriptBytes }
  | _ => do
    guard (state.pendingToolCallIds = [])
    guard (item.field "tool_call_id".toList).isNone
    return state

def parseMessage (state : TranscriptParse Number) (item : Json Number) :
    Option (TranscriptParse Number) := do
  let framed ← charge state.transcriptBytes 32
  let roleText ← (item.field "role".toList).bind Json.text
  let role ← parseRole roleText
  let content ← (item.field "content".toList).bind Json.text
  guard (Text.encodedSize content ≤ maxMessageBytes)
  let written ← charge framed (Text.encodedSize content)
  let metadata := item.field "metadata".toList
  let described ← chargeMetadata format written metadata
  let placed ← placeMessage { state with transcriptBytes := described } role item
  let (last, toolCalls) ←
    parseToolCalls format placed (item.field "tool_calls".toList)
  return { last with
    messages := state.messages ++
      [{ role := role
         content := content
         toolCalls := toolCalls
         toolCallId := (item.field "tool_call_id".toList).bind Json.text
         metadata := metadata }] }

def parseMessageItems (state : TranscriptParse Number) :
    List (Json Number) → Option (TranscriptParse Number)
  | [] => some state
  | item :: rest => do
    let next ← parseMessage format state item
    parseMessageItems next rest

def parseCompleteRunMessages (value : Json Number) :
    Option (List (CompleteRunMessage Number)) :=
  match value with
  | .array items =>
    if items.length > maxMessages then none
    else
      match parseMessageItems format ⟨[], [], [], 0⟩ items with
      | none => none
      | some state =>
        if state.pendingToolCallIds.isEmpty then some state.messages else none
  | _ => none

end Parsing

section Bounds

variable {format : NumberFormat Number}

theorem uniqueKeys_children {item : Json Number}
    (unique : Json.UniqueKeys item) :
    ∀ child ∈ children item, Json.UniqueKeys child := by
  cases item with
  | array items => exact Json.wellFormedItems_iff.mp unique
  | object fields =>
      intro child member
      obtain ⟨field, found, rfl⟩ := List.mem_map.mp member
      exact Json.wellFormedFields_iff.mp unique.2 field found
  | _ =>
      intro child member
      exact absurd member List.not_mem_nil

theorem plain_of_children {item : Json Number}
    (unique : Json.UniqueKeys item)
    (finite : finiteIfNumber format item = true)
    (plain : ∀ child ∈ children item, Json.Plain format child) :
    Json.Plain format item := by
  cases item with
  | null | bool | string => trivial
  | number value => exact finite
  | array items => exact Json.wellFormedItems_iff.mpr plain
  | object fields =>
      refine ⟨unique.1, Json.wellFormedFields_iff.mpr ?_⟩
      intro field found
      exact plain field.2 (List.mem_map.mpr ⟨field, found, rfl⟩)

theorem plain_of_bounded {nodes : Nat} {pending : List (Json Number × Nat)}
    (bounded : boundedFrom format nodes pending = true)
    (unique : ∀ entry ∈ pending, Json.UniqueKeys entry.1) :
    ∀ entry ∈ pending, Json.Plain format entry.1 := by
  induction nodes generalizing pending with
  | zero =>
      cases pending with
      | nil =>
          intro entry member
          exact absurd member List.not_mem_nil
      | cons entry rest => exact absurd bounded Bool.false_ne_true
  | succ nodes ih =>
      cases pending with
      | nil =>
          intro entry member
          exact absurd member List.not_mem_nil
      | cons entry rest =>
          obtain ⟨item, depth⟩ := entry
          have itemUnique : Json.UniqueKeys item :=
            unique (item, depth) List.mem_cons_self
          rw [boundedFrom] at bounded
          split at bounded
          · exact absurd bounded Bool.false_ne_true
          split at bounded
          · exact absurd bounded Bool.false_ne_true
          next finite =>
          have plain := ih bounded (by
            intro entry member
            cases List.mem_append.mp member with
            | inl child =>
                obtain ⟨value, found, rfl⟩ :=
                  List.mem_map.mp (List.mem_reverse.mp child)
                exact uniqueKeys_children itemUnique value found
            | inr later => exact unique entry (List.mem_cons_of_mem _ later))
          intro entry member
          cases List.mem_cons.mp member with
          | inr later => exact plain entry (List.mem_append_right _ later)
          | inl same =>
            rw [same]
            apply plain_of_children itemUnique (by simpa using finite)
            intro child found
            exact plain (child, depth + 1) (List.mem_append_left _
              (List.mem_reverse.mpr (List.mem_map.mpr ⟨child, found, rfl⟩)))

theorem plain_of_isBoundedJson {root : Json Number}
    (bounded : isBoundedJson format root = true)
    (unique : Json.UniqueKeys root) : Json.Plain format root := by
  have plain := plain_of_bounded bounded (by
    intro entry member
    rw [List.mem_singleton.mp member]
    exact unique)
  exact plain (root, 0) (List.mem_singleton_self _)

end Bounds

section Accepted

variable {format : NumberFormat Number}

structure CallRead (format : NumberFormat Number)
    (state next : TranscriptParse Number) (toolCall : ToolCall Number) :
    Prop where
  messages : next.messages = state.messages
  pending : next.pendingToolCallIds =
    state.pendingToolCallIds ++ [toolCall.id]
  seen : next.seenToolCallIds = state.seenToolCallIds ++ [toolCall.id]
  fresh : toolCall.id ∉ state.seenToolCallIds
  id_ne_nil : toolCall.id ≠ []
  isObject : isObject toolCall.arguments = true
  plain : Json.Plain format toolCall.arguments

theorem parseToolCall_spec {state next : TranscriptParse Number}
    {call : Json Number} {toolCall : ToolCall Number}
    (unique : Json.UniqueKeys call)
    (read : parseToolCall format state call = some (next, toolCall)) :
    CallRead format state next toolCall := by
  simp only [parseToolCall, Option.bind_eq_bind, Option.bind_eq_some_iff,
    Option.guard_eq_some', Option.pure_def, Option.some.injEq,
    Prod.mk.injEq] at read
  obtain ⟨id, _, name, _, arguments, found, _, ⟨idNonempty, _, _, _, object⟩,
    _, bounded, bytes, _, _, _, _, fresh, rfl, rfl⟩ := read
  exact ⟨rfl, rfl, rfl, fresh, idNonempty, object,
    plain_of_isBoundedJson bounded (unique.field found)⟩

/-- What reading the calls of one message does. -/
structure CallsRead (format : NumberFormat Number)
    (state next : TranscriptParse Number) (toolCalls : List (ToolCall Number)) :
    Prop where
  messages : next.messages = state.messages
  pending : next.pendingToolCallIds =
    state.pendingToolCallIds ++ toolCalls.map ToolCall.id
  seen : next.seenToolCallIds =
    state.seenToolCallIds ++ toolCalls.map ToolCall.id
  ids_nodup : (toolCalls.map ToolCall.id).Nodup
  fresh : ∀ call ∈ toolCalls, call.id ∉ state.seenToolCallIds
  id_ne_nil : ∀ call ∈ toolCalls, call.id ≠ []
  isObject : ∀ call ∈ toolCalls, isObject call.arguments = true
  plain : ∀ call ∈ toolCalls, Json.Plain format call.arguments

theorem callsRead_nil (state : TranscriptParse Number) :
    CallsRead format state state [] := by
  constructor <;> simp

theorem CallRead.cons {state next last : TranscriptParse Number}
    {toolCall : ToolCall Number} {others : List (ToolCall Number)}
    (first : CallRead format state next toolCall)
    (rest : CallsRead format next last others) :
    CallsRead format state last (toolCall :: others) where
  messages := rest.messages.trans first.messages
  pending := by
    rw [rest.pending, first.pending, List.append_assoc, List.map_cons,
      List.singleton_append]
  seen := by
    rw [rest.seen, first.seen, List.append_assoc, List.map_cons,
      List.singleton_append]
  ids_nodup := by
    rw [List.map_cons, List.nodup_cons]
    refine ⟨?_, rest.ids_nodup⟩
    intro member
    obtain ⟨call, found, same⟩ := List.mem_map.mp member
    apply rest.fresh call found
    rw [first.seen, same]
    exact List.mem_append_right _ (List.mem_singleton_self _)
  fresh := by
    intro call member
    cases List.mem_cons.mp member with
    | inl same =>
        rw [same]
        exact first.fresh
    | inr found =>
        intro seen
        apply rest.fresh call found
        rw [first.seen]
        exact List.mem_append_left _ seen
  id_ne_nil := List.forall_mem_cons.mpr ⟨first.id_ne_nil, rest.id_ne_nil⟩
  isObject := List.forall_mem_cons.mpr ⟨first.isObject, rest.isObject⟩
  plain := List.forall_mem_cons.mpr ⟨first.plain, rest.plain⟩

variable {state last : TranscriptParse Number} {item : Json Number}

theorem parseToolCallItems_spec {items : List (Json Number)}
    {toolCalls : List (ToolCall Number)}
    (unique : ∀ item ∈ items, Json.UniqueKeys item)
    (read : parseToolCallItems format state items = some (last, toolCalls)) :
    CallsRead format state last toolCalls := by
  induction items generalizing state toolCalls with
  | nil =>
      cases read
      exact callsRead_nil _
  | cons item rest ih =>
      simp only [parseToolCallItems, Option.bind_eq_bind,
        Option.bind_eq_some_iff, Option.pure_def, Option.some.injEq,
        Prod.mk.injEq] at read
      obtain ⟨⟨next, toolCall⟩, first, ⟨final, others⟩, later, rfl, rfl⟩ := read
      have called := parseToolCall_spec (unique item List.mem_cons_self) first
      exact called.cons
        (ih (fun item member => unique item (List.mem_cons_of_mem _ member))
          later)

theorem parseToolCalls_spec {field : Option (Json Number)}
    {toolCalls : Option (List (ToolCall Number))}
    (unique : ∀ value, field = some value → Json.UniqueKeys value)
    (read : parseToolCalls format state field = some (last, toolCalls)) :
    CallsRead format state last (toolCalls.getD []) ∧
      (field = none → toolCalls = none) := by
  cases field with
  | none =>
      cases read
      exact ⟨callsRead_nil _, fun _ => rfl⟩
  | some value =>
      cases value with
      | array items =>
          simp only [parseToolCalls, Option.bind_eq_bind,
            Option.bind_eq_some_iff, Option.guard_eq_some', Option.pure_def,
            Option.some.injEq, Prod.mk.injEq] at read
          obtain ⟨_, _, ⟨final, others⟩, items_, rfl, rfl⟩ := read
          refine ⟨parseToolCallItems_spec ?_ items_, fun absent => ?_⟩
          · exact Json.wellFormedItems_iff.mp (unique _ rfl)
          · exact absurd absent (Option.some_ne_none _)
      | _ => exact absurd read (Option.some_ne_none _).symm

/-- An assistant message and the results that came so far; `pending` are the
calls without a result. -/
structure Exchange (format : NumberFormat Number) (pending : List Text) where
  request : CompleteRunMessage Number
  results : List (CompleteRunMessage Number)
  request_role : request.role = .assistant
  request_id : request.toolCallId = none
  ids_nodup : request.callIds.Nodup
  id_ne_nil : ∀ call ∈ request.calls, call.id ≠ []
  isObject : ∀ call ∈ request.calls, isObject call.arguments = true
  plain : ∀ call ∈ request.calls, Json.Plain format call.arguments
  results_role : ∀ result ∈ results, result.role = .tool
  results_calls : ∀ result ∈ results, result.toolCalls = none
  results_id : ∀ result ∈ results, result.toolCallId = some result.resultId
  answered : (results.map CompleteRunMessage.resultId ++ pending).Perm
    request.callIds

namespace Exchange

def messages {pending : List Text} (exchange : Exchange format pending) :
    List (CompleteRunMessage Number) :=
  exchange.request :: exchange.results

/-- A new assistant message waits for all its results. -/
def start (request : CompleteRunMessage Number)
    {state last : TranscriptParse Number}
    (called : CallsRead format state last request.calls)
    (role : request.role = .assistant) (noId : request.toolCallId = none) :
    Exchange format request.callIds where
  request := request
  results := []
  request_role := role
  request_id := noId
  ids_nodup := called.ids_nodup
  id_ne_nil := called.id_ne_nil
  isObject := called.isObject
  plain := called.plain
  results_role := by simp
  results_calls := by simp
  results_id := by simp
  answered := List.Perm.refl _

/-- The next result. -/
def answer {pending : List Text} (exchange : Exchange format pending)
    (result : CompleteRunMessage Number) (id : Text)
    (role : result.role = .tool) (plain : result.toolCalls = none)
    (named : result.toolCallId = some id) (waiting : id ∈ pending) :
    Exchange format (pending.erase id) where
  __ := exchange
  results := exchange.results ++ [result]
  results_role := List.forall_mem_append.mpr
    ⟨exchange.results_role, by simpa using role⟩
  results_calls := List.forall_mem_append.mpr
    ⟨exchange.results_calls, by simpa using plain⟩
  results_id := List.forall_mem_append.mpr
    ⟨exchange.results_id, by
      simpa [CompleteRunMessage.resultId] using named ▸ rfl⟩
  answered := by
    have same : result.resultId = id := by
      rw [CompleteRunMessage.resultId, named, Option.getD_some]
    rw [List.map_append, List.map_singleton, same, List.append_assoc,
      List.singleton_append]
    exact ((List.perm_cons_erase waiting).symm.append_left _).trans
      exchange.answered

end Exchange

/-- The messages read so far: whole exchanges and the open one. -/
def InExchanges (format : NumberFormat Number)
    (messages : List (CompleteRunMessage Number)) (pending : List Text) :
    Prop :=
  ∃ closed : List (Exchange format []),
    (pending = [] ∧ messages = closed.flatMap Exchange.messages) ∨
      ∃ last : Exchange format pending,
        messages = closed.flatMap Exchange.messages ++ last.messages

theorem InExchanges.closed {messages : List (CompleteRunMessage Number)}
    (split : InExchanges format messages []) :
    ∃ exchanges : List (Exchange format []),
      messages = exchanges.flatMap Exchange.messages := by
  obtain ⟨closed, whole | ⟨last, whole⟩⟩ := split
  · exact ⟨closed, whole.2⟩
  · refine ⟨closed ++ [last], ?_⟩
    rw [whole, List.flatMap_append, List.flatMap_singleton]

theorem placeMessage_tool {state placed : TranscriptParse Number}
    (read : placeMessage state .tool item = some placed) :
    ∃ id, (item.field "tool_call_id".toList).bind Json.text = some id ∧
      item.field "tool_calls".toList = none ∧
      id ∈ state.pendingToolCallIds ∧
      placed.pendingToolCallIds = state.pendingToolCallIds.erase id := by
  simp only [placeMessage, Option.bind_eq_bind, Option.bind_eq_some_iff,
    Option.guard_eq_some', Option.pure_def, Option.some.injEq,
    Option.isNone_iff_eq_none] at read
  obtain ⟨_, _, _, absent, id, named, _, ⟨_, _, waiting⟩, rfl⟩ := read
  exact ⟨id, Option.bind_eq_some_iff.mpr named, absent, waiting, rfl⟩

theorem placeMessage_assistant {state placed : TranscriptParse Number}
    (read : placeMessage state .assistant item = some placed) :
    state.pendingToolCallIds = [] ∧
      item.field "tool_call_id".toList = none ∧ placed = state := by
  simp only [placeMessage, Option.bind_eq_bind, Option.bind_eq_some_iff,
    Option.guard_eq_some', Option.pure_def, Option.some.injEq,
    Option.isNone_iff_eq_none] at read
  obtain ⟨_, none, _, absent, rfl⟩ := read
  exact ⟨none, absent, rfl⟩

theorem parseRole_some {text : Text} {role : MessageRole}
    (read : parseRole text = some role) :
    role = .assistant ∨ role = .tool := by
  unfold parseRole at read
  split_ifs at read
  · exact Or.inl (Option.some.inj read).symm
  · exact Or.inr (Option.some.inj read).symm

theorem parseMessage_exchanges {state next : TranscriptParse Number}
    (unique : Json.UniqueKeys item)
    (split : InExchanges format state.messages state.pendingToolCallIds)
    (read : parseMessage format state item = some next) :
    InExchanges format next.messages next.pendingToolCallIds := by
  simp only [parseMessage, Option.bind_eq_bind, Option.bind_eq_some_iff,
    Option.guard_eq_some', Option.pure_def, Option.some.injEq] at read
  obtain ⟨_, _, _, _, role, roleRead, content, _, _, _, _, _, _, _, placed,
    place, ⟨last, toolCalls⟩, calls, rfl⟩ := read
  obtain ⟨called, absent⟩ := parseToolCalls_spec
    (fun value found => unique.field found) calls
  cases parseRole_some roleRead with
  | inl assistant =>
      subst assistant
      obtain ⟨none, noId, rfl⟩ := placeMessage_assistant place
      rw [none] at split
      obtain ⟨exchanges, whole⟩ := split.closed
      let message : CompleteRunMessage Number :=
        { role := .assistant
          content := content
          toolCalls := toolCalls
          toolCallId := (item.field "tool_call_id".toList).bind Json.text
          metadata := item.field "metadata".toList }
      have waiting : last.pendingToolCallIds = message.callIds := by
        rw [called.pending]
        show state.pendingToolCallIds ++ _ = message.callIds
        rw [none]
        rfl
      show InExchanges format (state.messages ++ [message]) last.pendingToolCallIds
      rw [waiting]
      refine ⟨exchanges, Or.inr ⟨Exchange.start message called rfl ?_, ?_⟩⟩
      · show (item.field "tool_call_id".toList).bind Json.text = Option.none
        rw [noId]
        rfl
      · exact congrArg (· ++ [message]) whole
  | inr tool =>
      subst tool
      obtain ⟨id, named, noCalls, waiting, pending⟩ := placeMessage_tool place
      rw [absent noCalls] at called ⊢
      let message : CompleteRunMessage Number :=
        { role := .tool
          content := content
          toolCalls := none
          toolCallId := (item.field "tool_call_id".toList).bind Json.text
          metadata := item.field "metadata".toList }
      have left : last.pendingToolCallIds =
          state.pendingToolCallIds.erase id := by
        rw [called.pending, pending]
        exact List.append_nil _
      show InExchanges format (state.messages ++ [message]) last.pendingToolCallIds
      rw [left]
      obtain ⟨exchanges, whole | ⟨open_, whole⟩⟩ := split
      · rw [show state.pendingToolCallIds = [] from whole.1] at waiting
        exact absurd waiting List.not_mem_nil
      · refine ⟨exchanges,
          Or.inr ⟨open_.answer message id rfl rfl named waiting, ?_⟩⟩
        rw [show state.messages = _ from whole, List.append_assoc]
        rfl

theorem parseMessageItems_exchanges {items : List (Json Number)}
    (unique : ∀ item ∈ items, Json.UniqueKeys item)
    (split : InExchanges format state.messages state.pendingToolCallIds)
    (read : parseMessageItems format state items = some last) :
    InExchanges format last.messages last.pendingToolCallIds := by
  induction items generalizing state with
  | nil =>
      cases read
      exact split
  | cons item rest ih =>
      simp only [parseMessageItems, Option.bind_eq_bind,
        Option.bind_eq_some_iff] at read
      obtain ⟨next, first, later⟩ := read
      have step := parseMessage_exchanges (unique item List.mem_cons_self)
        split first
      exact ih (fun item member => unique item (List.mem_cons_of_mem _ member))
        step later

theorem accepted_exchanges {value : Json Number}
    {messages : List (CompleteRunMessage Number)}
    (unique : Json.UniqueKeys value)
    (accepted : parseCompleteRunMessages format value = some messages) :
    ∃ exchanges : List (Exchange format []),
      messages = exchanges.flatMap Exchange.messages := by
  cases value with
  | array items =>
      simp only [parseCompleteRunMessages] at accepted
      split at accepted
      · exact absurd accepted (Option.some_ne_none _).symm
      split at accepted
      · exact absurd accepted (Option.some_ne_none _).symm
      next state read =>
      split at accepted
      · next none =>
          have split := parseMessageItems_exchanges
            (Json.wellFormedItems_iff.mp unique)
            ⟨[], Or.inl ⟨rfl, rfl⟩⟩ read
          rw [List.isEmpty_iff.mp none] at split
          rw [← Option.some.inj accepted]
          exact split.closed
      · exact absurd accepted (Option.some_ne_none _).symm
  | _ => exact absurd accepted (Option.some_ne_none _).symm

end Accepted

end Takos.Runs
