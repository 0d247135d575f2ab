import Takos.Runs.ConversationHistory

/-!
# Reported transcripts in the next history

The messages of a completed run are stored one row each, in their order.  An
exchange comes back whole exactly when the reading side accepts the names of
its calls; the two sides differ on names of white space only.
-/

namespace Takos.Runs

open Takos.Foundation

variable {Number : Type}

def ToolCall.json (call : ToolCall Number) : Json Number :=
  .object [("id".toList, .string call.id), ("name".toList, .string call.name),
    ("arguments".toList, call.arguments)]

def storedToolCalls (format : NumberFormat Number)
    (toolCalls : Option (List (ToolCall Number))) : Option Text :=
  toolCalls.map fun calls =>
    Json.stringify format (.array (calls.map ToolCall.json))

/-- The row of one message, as the history reads it: a message kept in the
object store is put back into its row before. -/
def messageRow (format : NumberFormat Number) (sequence : Nat)
    (message : CompleteRunMessage Number) : MessageRow where
  role := message.role
  content := message.content
  toolCalls := storedToolCalls format message.toolCalls
  toolCallId := message.toolCallId
  sequence := sequence

/-- The messages of a run take a contiguous range of sequence numbers. -/
def messageRows (format : NumberFormat Number) :
    Nat → List (CompleteRunMessage Number) → List MessageRow
  | _, [] => []
  | sequence, message :: rest =>
    messageRow format sequence message ::
      messageRows format (sequence + 1) rest

/-- The message as the run reported it, in the form of the history. -/
def CompleteRunMessage.agentMessage (message : CompleteRunMessage Number) :
    AgentMessage Number where
  role := message.role
  content := message.content
  toolCalls := message.toolCalls.map (List.map ToolCall.json)
  toolCallId := message.toolCallId

/-- An assistant message with calls, or a result. -/
def AgentMessage.inExchange (message : AgentMessage Number) : Bool :=
  message.role = .tool || !(message.toolCalls.getD []).isEmpty

/-- Both names have a character that trimming leaves. -/
def ToolCall.Named (call : ToolCall Number) : Prop :=
  Text.trim call.id ≠ [] ∧ Text.trim call.name ≠ []

instance (call : ToolCall Number) : Decidable call.Named :=
  inferInstanceAs (Decidable (_ ∧ _))

/-- The rows of a run, read back. -/
def storedCandidates (codec : JsonCodec Number) (estimateTokens : Text → Nat)
    (sequence : Nat) (messages : List (CompleteRunMessage Number)) :
    List (ConversationHistoryCandidate Number) :=
  (messageRows codec.toNumberFormat sequence messages).map
    (historyCandidate codec estimateTokens)

section Reading

variable {codec : JsonCodec Number} {estimateTokens : Text → Nat}

theorem storedCandidates_append (sequence : Nat)
    (front back : List (CompleteRunMessage Number)) :
    storedCandidates codec estimateTokens sequence (front ++ back) =
      storedCandidates codec estimateTokens sequence front ++
        storedCandidates codec estimateTokens (sequence + front.length) back := by
  induction front generalizing sequence with
  | nil => rfl
  | cons message rest ih =>
      have later := ih (sequence + 1)
      rw [List.length_cons, Nat.add_comm rest.length, ← Nat.add_assoc]
      exact congrArg _ later

theorem mem_storedCandidates {sequence : Nat}
    {messages : List (CompleteRunMessage Number)}
    {candidate : ConversationHistoryCandidate Number}
    (member : candidate ∈
      storedCandidates codec estimateTokens sequence messages) :
    ∃ message ∈ messages, ∃ place, candidate = historyCandidate codec
      estimateTokens (messageRow codec.toNumberFormat place message) := by
  induction messages generalizing sequence with
  | nil => exact absurd member List.not_mem_nil
  | cons message rest ih =>
      cases List.mem_cons.mp member with
      | inl same => exact ⟨message, List.mem_cons_self, sequence, same⟩
      | inr later =>
          obtain ⟨found, among, place, shape⟩ := ih later
          exact ⟨found, List.mem_cons_of_mem _ among, place, shape⟩

theorem storedCandidates_msg {messages : List (CompleteRunMessage Number)}
    (kept : ∀ message ∈ messages, ∀ sequence,
      (historyCandidate codec estimateTokens
        (messageRow codec.toNumberFormat sequence message)).msg =
      message.agentMessage) (sequence : Nat) :
    (storedCandidates codec estimateTokens sequence messages).map
        ConversationHistoryCandidate.msg =
      messages.map CompleteRunMessage.agentMessage := by
  induction messages generalizing sequence with
  | nil => rfl
  | cons message rest ih =>
      have first := kept message List.mem_cons_self sequence
      have later := ih (fun message member =>
        kept message (List.mem_cons_of_mem _ member)) (sequence + 1)
      rw [List.map_cons, ← first, ← later]
      rfl

theorem isValidToolCall_json {call : ToolCall Number}
    (object : isObject call.arguments = true) :
    isValidToolCall call.json = decide call.Named := by
  show (decide (Text.trim call.id ≠ []) && decide (Text.trim call.name ≠ []) &&
    isObject call.arguments) = _
  rw [object, Bool.and_true, ← Bool.decide_and]
  rfl

theorem plain_json {call : ToolCall Number}
    (plain : Json.Plain codec.toNumberFormat call.arguments) :
    Json.Plain codec.toNumberFormat call.json := by
  refine ⟨?_, trivial, trivial, plain, trivial⟩
  show ["id".toList, "name".toList, "arguments".toList].Nodup
  decide

theorem readToolCalls_stored {calls : List (ToolCall Number)}
    (objects : ∀ call ∈ calls, isObject call.arguments = true)
    (plain : ∀ call ∈ calls, Json.Plain codec.toNumberFormat call.arguments) :
    readToolCalls codec (storedToolCalls codec.toNumberFormat (some calls)) =
      if ∀ call ∈ calls, call.Named then some (calls.map ToolCall.json)
      else none := by
  have whole : Json.Plain codec.toNumberFormat
      (.array (calls.map ToolCall.json)) := by
    apply Json.wellFormedItems_iff.mpr
    intro item member
    obtain ⟨call, found, rfl⟩ := List.mem_map.mp member
    exact plain_json (plain call found)
  have read := codec.parse_stringify _ whole
  have valid : isValidToolCallsArray (.array (calls.map ToolCall.json)) =
      decide (∀ call ∈ calls, call.Named) := by
    show (calls.map ToolCall.json).all isValidToolCall = _
    rw [List.all_map, Bool.eq_iff_iff, List.all_eq_true, decide_eq_true_iff]
    apply forall₂_congr
    intro call member
    rw [Function.comp_apply, isValidToolCall_json (objects call member),
      decide_eq_true_iff]
  -- the text starts with a bracket, so it is not the empty text
  have stored : storedToolCalls codec.toNumberFormat (some calls) =
      some ('[' :: _) := rfl
  change codec.parse ('[' :: _) = _ at read
  simp only [stored, readToolCalls, read, valid, decide_eq_true_eq]
  rfl

/-- The message of a row with its calls replaced. -/
def CompleteRunMessage.readAs (message : CompleteRunMessage Number)
    (toolCalls : Option (List (Json Number))) : AgentMessage Number :=
  { message.agentMessage with toolCalls := toolCalls }

/-- What the history keeps of an exchange. -/
def Exchange.kept {format : NumberFormat Number}
    (exchange : Exchange format []) : List (AgentMessage Number) :=
  if ∀ call ∈ exchange.request.calls, call.Named then
    exchange.messages.map CompleteRunMessage.agentMessage
  else [exchange.request.readAs none]

variable (exchange : Exchange codec.toNumberFormat [])
variable (estimateTokens)

theorem Exchange.result_id_ne_nil {result : CompleteRunMessage Number}
    (member : result ∈ exchange.results) : result.toolCallId ≠ some [] := by
  have answered : result.resultId ∈ exchange.request.callIds := by
    have perm := exchange.answered
    rw [List.append_nil] at perm
    exact perm.mem_iff.mp (List.mem_map.mpr ⟨result, member, rfl⟩)
  obtain ⟨call, found, same⟩ := List.mem_map.mp answered
  rw [exchange.results_id result member, ← same]
  intro empty
  exact exchange.id_ne_nil call found (Option.some.inj empty)

theorem Exchange.result_msg {result : CompleteRunMessage Number}
    (member : result ∈ exchange.results) (sequence : Nat) :
    (historyCandidate codec estimateTokens
      (messageRow codec.toNumberFormat sequence result)).msg =
        result.agentMessage := by
  have noCalls := exchange.results_calls result member
  have id := exchange.result_id_ne_nil member
  simp only [historyCandidate, messageRow, storedToolCalls, noCalls,
    readToolCalls, Option.map_none, if_neg id,
    CompleteRunMessage.agentMessage]

theorem Exchange.request_msg (sequence : Nat) :
    (historyCandidate codec estimateTokens
      (messageRow codec.toNumberFormat sequence exchange.request)).msg =
      if ∀ call ∈ exchange.request.calls, call.Named then
        exchange.request.agentMessage
      else exchange.request.readAs none := by
  have noId := exchange.request_id
  have read : readToolCalls codec
      (storedToolCalls codec.toNumberFormat exchange.request.toolCalls) =
        if ∀ call ∈ exchange.request.calls, call.Named then
          exchange.request.agentMessage.toolCalls
        else none := by
    cases shape : exchange.request.toolCalls with
    | none => 
        simp [readToolCalls, storedToolCalls, CompleteRunMessage.agentMessage, shape]
    | some calls =>
        have same : exchange.request.calls = calls := by
          rw [CompleteRunMessage.calls, shape, Option.getD_some]
        rw [same, readToolCalls_stored (same ▸ exchange.isObject)
          (same ▸ exchange.plain), CompleteRunMessage.agentMessage, shape]
        rfl
  simp only [historyCandidate, messageRow, read, noId]
  split
  · simp only [CompleteRunMessage.agentMessage, noId]
    rfl
  · simp only [CompleteRunMessage.readAs, CompleteRunMessage.agentMessage, noId]
    rfl

theorem Exchange.results_tools (sequence : Nat) :
    ∀ result ∈ storedCandidates codec estimateTokens sequence exchange.results,
      isToolResult result = true := by
  intro result member
  obtain ⟨message, found, place, rfl⟩ := mem_storedCandidates member
  exact decide_eq_true (exchange.results_role message found)

theorem Exchange.request_role_ne (sequence : Nat) :
    (historyCandidate codec estimateTokens
      (messageRow codec.toNumberFormat sequence exchange.request)).msg.role ≠
        .tool := by
  show exchange.request.role ≠ .tool
  rw [exchange.request_role]
  decide

theorem Exchange.candidateCalls_named (sequence : Nat)
    (named : ∀ call ∈ exchange.request.calls, call.Named) :
    candidateCalls (historyCandidate codec estimateTokens
      (messageRow codec.toNumberFormat sequence exchange.request)) =
        exchange.request.calls.map ToolCall.json := by
  rw [candidateCalls, exchange.request_msg estimateTokens sequence, if_pos named, if_pos
    (show exchange.request.agentMessage.role = .assistant from
      exchange.request_role), CompleteRunMessage.agentMessage,
    CompleteRunMessage.calls]
  cases exchange.request.toolCalls with
  | none | some => rfl

theorem Exchange.candidateCalls_unnamed (sequence : Nat)
    (unnamed : ¬∀ call ∈ exchange.request.calls, call.Named) :
    candidateCalls (historyCandidate codec estimateTokens
      (messageRow codec.toNumberFormat sequence exchange.request)) = [] := by
  rw [candidateCalls, exchange.request_msg estimateTokens sequence, if_neg unnamed]
  split <;> rfl

theorem Exchange.answers (sequence : Nat)
    (named : ∀ call ∈ exchange.request.calls, call.Named) (place : Nat) :
    Answers (exchange.results.map CompleteRunMessage.resultId)
      ((candidateCalls (historyCandidate codec estimateTokens
        (messageRow codec.toNumberFormat sequence exchange.request))).map
          callId)
      (storedCandidates codec estimateTokens place exchange.results) := by
  have ids : (candidateCalls (historyCandidate codec estimateTokens
      (messageRow codec.toNumberFormat sequence exchange.request))).map
        callId = exchange.request.callIds := by
    rw [exchange.candidateCalls_named estimateTokens sequence named, List.map_map]
    rfl
  rw [ids]
  constructor
  · have read := congrArg (List.map AgentMessage.toolCallId)
      (storedCandidates_msg (fun result member =>
        exchange.result_msg estimateTokens member) place)
    rw [List.map_map, List.map_map] at read
    rw [List.map_map]
    exact read.trans (List.map_congr_left exchange.results_id)
  · have perm := exchange.answered
    rwa [List.append_nil] at perm
  · exact exchange.ids_nodup
  · intro member
    obtain ⟨call, found, empty⟩ := List.mem_map.mp member
    exact exchange.id_ne_nil call found empty

theorem Exchange.history_cons (sequence : Nat)
    (after : List (ConversationHistoryCandidate Number)) :
    historyMessages estimateTokens
        (storedCandidates codec estimateTokens sequence exchange.messages ++
          after) =
      exchange.kept ++ historyMessages estimateTokens after := by
  let request := historyCandidate codec estimateTokens
    (messageRow codec.toNumberFormat sequence exchange.request)
  let results := storedCandidates codec estimateTokens (sequence + 1)
    exchange.results
  have readRequest : request.msg = _ := exchange.request_msg estimateTokens sequence
  have readResults : results.map ConversationHistoryCandidate.msg =
      exchange.results.map CompleteRunMessage.agentMessage :=
    storedCandidates_msg (fun result member => exchange.result_msg estimateTokens member) _
  have tools := exchange.results_tools estimateTokens
    (sequence + 1)
  have role : request.msg.role ≠ .tool := exchange.request_role_ne estimateTokens sequence
  show ((groupFrom estimateTokens 0
    (request :: (results ++ after))).flatten.map _) = _ ++
      ((groupFrom estimateTokens 0 after).flatten.map _)
  unfold Exchange.kept
  by_cases named : ∀ call ∈ exchange.request.calls, call.Named
  · rw [if_pos named] at readRequest ⊢
    by_cases calls : exchange.request.calls = []
    · have none : exchange.results = [] := by
        have perm := exchange.answered
        rw [CompleteRunMessage.callIds, calls, List.map_nil,
          List.append_nil] at perm
        exact List.map_eq_nil_iff.mp perm.eq_nil
      have noCalls : candidateCalls request = [] := by
        rw [exchange.candidateCalls_named estimateTokens sequence named, calls, List.map_nil]
      rw [groupFrom_plain role noCalls, groupFrom_tools tools,
        List.flatten_cons, List.map_append, List.map_singleton, readRequest,
        Exchange.messages, none]
      rfl
    · have some : candidateCalls request ≠ [] := by
        rw [exchange.candidateCalls_named estimateTokens sequence named]
        intro empty
        exact calls (List.map_eq_nil_iff.mp empty)
      rw [groupFrom_exchange role some (exchange.answers estimateTokens sequence named _)
        tools, List.flatten_cons, List.map_append, List.map_cons, readRequest,
        readResults]
      rfl
  · rw [if_neg named] at readRequest ⊢
    rw [groupFrom_plain role (exchange.candidateCalls_unnamed estimateTokens sequence named),
      groupFrom_tools tools, List.flatten_cons, List.map_append,
      List.map_singleton, readRequest]

theorem history_exchanges
    (exchanges : List (Exchange codec.toNumberFormat [])) (sequence : Nat)
    (after : List (ConversationHistoryCandidate Number)) :
    historyMessages estimateTokens
        (storedCandidates codec estimateTokens sequence
          (exchanges.flatMap Exchange.messages) ++ after) =
      exchanges.flatMap Exchange.kept ++
        historyMessages estimateTokens after := by
  induction exchanges generalizing sequence with
  | nil => rfl
  | cons exchange rest ih =>
      rw [List.flatMap_cons, storedCandidates_append, List.append_assoc,
        exchange.history_cons estimateTokens, ih, List.flatMap_cons,
        List.append_assoc]

/-- A run starts with an assistant message, so what stands before it is
grouped without it. -/
theorem history_run (first : Exchange codec.toNumberFormat [])
    (rest : List (Exchange codec.toNumberFormat [])) (sequence : Nat)
    (before after : List (ConversationHistoryCandidate Number)) :
    historyMessages estimateTokens
        (before ++ storedCandidates codec estimateTokens sequence
          ((first :: rest).flatMap Exchange.messages) ++ after) =
      historyMessages estimateTokens before ++
        ((first :: rest).flatMap Exchange.kept ++
          historyMessages estimateTokens after) := by
  rw [← history_exchanges estimateTokens (first :: rest) sequence after,
    List.append_assoc]
  unfold historyMessages groupCoherentHistoryCandidates
  rw [groupFrom_append (Nat.zero_le _), List.flatten_append, List.map_append]
  intro candidate head
  rw [show candidate = _ from (Option.some.inj head).symm]
  exact decide_eq_false (first.request_role_ne estimateTokens sequence)

/-- The messages of the tool exchanges of a run. -/
def exchangeMessages (messages : List (CompleteRunMessage Number)) :
    List (AgentMessage Number) :=
  (messages.map CompleteRunMessage.agentMessage).filter
    AgentMessage.inExchange

theorem Exchange.kept_of_named
    (named : ∀ call ∈ exchange.request.calls, call.Named) :
    exchange.kept =
      exchange.messages.map CompleteRunMessage.agentMessage :=
  if_pos named

theorem kept_of_named {exchanges : List (Exchange codec.toNumberFormat [])}
    (named : ∀ message ∈ exchanges.flatMap Exchange.messages,
      ∀ call ∈ message.calls, call.Named) :
    exchanges.flatMap Exchange.kept =
      (exchanges.flatMap Exchange.messages).map
        CompleteRunMessage.agentMessage := by
  rw [List.map_flatMap]
  apply List.flatMap_congr
  intro exchange member
  apply exchange.kept_of_named
  apply named exchange.request
  exact List.mem_flatMap.mpr ⟨exchange, member, List.mem_cons_self⟩

theorem Exchange.plain_inExchange :
    (exchange.request.readAs none).inExchange = false := by
  rw [AgentMessage.inExchange, CompleteRunMessage.readAs,
    CompleteRunMessage.agentMessage, exchange.request_role]
  rfl

theorem Exchange.countP_kept_le :
    exchange.kept.countP AgentMessage.inExchange ≤
      (exchange.messages.map CompleteRunMessage.agentMessage).countP
        AgentMessage.inExchange := by
  unfold Exchange.kept
  split
  · exact Nat.le_refl _
  · rw [List.countP_singleton, exchange.plain_inExchange]
    exact Nat.zero_le _

theorem Exchange.countP_kept_lt
    (unnamed : ¬∀ call ∈ exchange.request.calls, call.Named) :
    exchange.kept.countP AgentMessage.inExchange <
      (exchange.messages.map CompleteRunMessage.agentMessage).countP
        AgentMessage.inExchange := by
  rw [Exchange.kept, if_neg unnamed, List.countP_singleton,
    exchange.plain_inExchange]
  apply List.countP_pos_iff.mpr
  refine ⟨exchange.request.agentMessage, List.mem_cons_self, ?_⟩
  cases shape : exchange.request.toolCalls with
  | none =>
      apply absurd _ unnamed
      simp [CompleteRunMessage.calls, shape]
  | some calls =>
      cases calls with
      | nil =>
          apply absurd _ unnamed
          simp [CompleteRunMessage.calls, shape]
      | cons call calls =>
          simp [AgentMessage.inExchange, CompleteRunMessage.agentMessage,
            shape]

theorem countP_kept_le (exchanges : List (Exchange codec.toNumberFormat [])) :
    (exchanges.flatMap Exchange.kept).countP AgentMessage.inExchange ≤
      ((exchanges.flatMap Exchange.messages).map
        CompleteRunMessage.agentMessage).countP AgentMessage.inExchange := by
  induction exchanges with
  | nil => exact Nat.le_refl _
  | cons exchange rest ih =>
      rw [List.flatMap_cons, List.countP_append, List.flatMap_cons,
        List.map_append, List.countP_append]
      exact Nat.add_le_add exchange.countP_kept_le ih

theorem named_of_countP {exchanges : List (Exchange codec.toNumberFormat [])}
    (all : ((exchanges.flatMap Exchange.messages).map
        CompleteRunMessage.agentMessage).countP AgentMessage.inExchange ≤
      (exchanges.flatMap Exchange.kept).countP AgentMessage.inExchange) :
    ∀ exchange ∈ exchanges, ∀ call ∈ exchange.request.calls, call.Named := by
  induction exchanges with
  | nil =>
      intro exchange member
      exact absurd member List.not_mem_nil
  | cons exchange rest ih =>
      rw [List.flatMap_cons, List.map_append, List.countP_append,
        List.flatMap_cons, List.countP_append] at all
      have others := countP_kept_le rest
      have here := exchange.countP_kept_le
      refine List.forall_mem_cons.mpr ⟨?_, ih (by omega)⟩
      by_contra unnamed
      have less := exchange.countP_kept_lt unnamed
      omega

theorem named_iff (exchanges : List (Exchange codec.toNumberFormat [])) :
    (∀ exchange ∈ exchanges, ∀ call ∈ exchange.request.calls, call.Named) ↔
      ∀ message ∈ exchanges.flatMap Exchange.messages,
        ∀ call ∈ message.calls, call.Named := by
  constructor
  · intro named message member call calls
    obtain ⟨exchange, found, among⟩ := List.mem_flatMap.mp member
    cases List.mem_cons.mp among with
    | inl same => exact named exchange found call (same ▸ calls)
    | inr result =>
        rw [CompleteRunMessage.calls, exchange.results_calls message result]
          at calls
        exact absurd calls List.not_mem_nil
  · intro named exchange member
    apply named exchange.request
    exact List.mem_flatMap.mpr ⟨exchange, member, List.mem_cons_self⟩

end Reading

/-- The tool exchanges of an accepted transcript all come back in the history
of the thread, in their order and whatever is stored around them, exactly when
no call has an id or a name of white space only. -/
theorem transcript_kept_iff (codec : JsonCodec Number)
    (estimateTokens : Text → Nat) (sequence : Nat) {value : Json Number}
    {messages : List (CompleteRunMessage Number)}
    (unique : Json.UniqueKeys value)
    (accepted : parseCompleteRunMessages codec.toNumberFormat value =
      some messages) :
    (∀ before after : List (ConversationHistoryCandidate Number),
      (exchangeMessages messages).Sublist
        (historyMessages estimateTokens
          (before ++
            storedCandidates codec estimateTokens sequence messages ++
            after))) ↔
      ∀ message ∈ messages, ∀ call ∈ message.calls, call.Named := by
  obtain ⟨exchanges, rfl⟩ := accepted_exchanges unique accepted
  constructor
  · intro kept
    have alone := kept [] []
    rw [List.nil_append, history_exchanges,
      show historyMessages estimateTokens [] = [] from rfl,
      List.append_nil] at alone
    have counts : List.countP AgentMessage.inExchange _ ≤ _ :=
      alone.countP_le
    rw [exchangeMessages, List.countP_filter] at counts
    simp only [Bool.and_self] at counts
    exact (named_iff exchanges).mp (named_of_countP counts)
  · intro named before after
    have whole := kept_of_named named
    apply List.filter_sublist.trans
    rw [← whole]
    cases exchanges with
    | nil => exact List.nil_sublist _
    | cons first rest =>
        rw [history_run]
        exact (List.sublist_append_left _ _).trans
          (List.sublist_append_right _ _)

namespace ToolRun

def reported (id name : Text) : Json Nat :=
  .array
    [.object
      [("role".toList, .string "assistant".toList),
        ("content".toList, .string []),
        ("tool_calls".toList, .array
          [.object
            [("id".toList, .string id), ("name".toList, .string name),
              ("arguments".toList, .object [])]])],
      .object
        [("role".toList, .string "tool".toList),
          ("content".toList, .string "ok".toList),
          ("tool_call_id".toList, .string id)]]

def accepted (id name : Text) : List (CompleteRunMessage Nat) :=
  [⟨.assistant, [], some [⟨id, name, .object []⟩], none, none⟩,
    ⟨.tool, "ok".toList, none, some id, none⟩]

theorem reported_unique (id name : Text) :
    Json.UniqueKeys (reported id name) := by
  refine ⟨⟨?_, trivial, trivial,
    ⟨⟨?_, trivial, trivial, ⟨List.nodup_nil, trivial⟩, trivial⟩, trivial⟩,
      trivial⟩, ⟨?_, trivial, trivial, trivial, trivial⟩, trivial⟩
  · show ["role".toList, "content".toList, "tool_calls".toList].Nodup
    decide
  · show ["id".toList, "name".toList, "arguments".toList].Nodup
    decide
  · show ["role".toList, "content".toList, "tool_call_id".toList].Nodup
    decide

theorem named_kept :
    (∀ before after : List (ConversationHistoryCandidate Nat),
      (exchangeMessages (accepted "call-1".toList "read".toList)).Sublist
        (historyMessages List.length
          (before ++
            storedCandidates NumberFormat.natural.codec List.length 1
              (accepted "call-1".toList "read".toList) ++ after))) ↔
      ∀ message ∈ accepted "call-1".toList "read".toList,
        ∀ call ∈ message.calls, call.Named :=
  transcript_kept_iff NumberFormat.natural.codec List.length 1
    (reported_unique "call-1".toList "read".toList) (by rfl)

def blankExchange : Exchange NumberFormat.natural [] where
  request := ⟨.assistant, [], some [⟨[' '], "read".toList, .object []⟩],
    none, none⟩
  results := [⟨.tool, "ok".toList, none, some [' '], none⟩]
  request_role := rfl
  request_id := rfl
  ids_nodup := List.nodup_singleton _
  id_ne_nil := by simp [CompleteRunMessage.calls]
  isObject := by simp [CompleteRunMessage.calls, isObject]
  plain := by
    intro call member
    rw [List.mem_singleton.mp member]
    exact ⟨List.nodup_nil, trivial⟩
  results_role := by simp
  results_calls := by simp
  results_id := by simp [CompleteRunMessage.resultId]
  answered := List.Perm.refl _

/-- The call whose id is one blank is accepted, and its exchange is gone. -/
theorem blank_call_dropped :
    parseCompleteRunMessages NumberFormat.natural
        (reported [' '] "read".toList) =
      some (accepted [' '] "read".toList) ∧
    historyMessages List.length
        (storedCandidates NumberFormat.natural.codec List.length 1
          (accepted [' '] "read".toList)) =
      [⟨.assistant, [], none, none⟩] ∧
    ¬(exchangeMessages (accepted [' '] "read".toList)).Sublist
      (historyMessages List.length
        (storedCandidates NumberFormat.natural.codec List.length 1
          (accepted [' '] "read".toList))) := by
  have kept : historyMessages List.length
      (storedCandidates NumberFormat.natural.codec List.length 1
        (accepted [' '] "read".toList)) = blankExchange.kept := by
    have whole := @Exchange.history_cons Nat NumberFormat.natural.codec
      List.length blankExchange 1 []
    rw [List.append_nil] at whole
    exact whole.trans (List.append_nil _)
  have unnamed : ¬∀ call ∈ blankExchange.request.calls, call.Named := by
    intro named
    exact absurd (named _ List.mem_cons_self).1 (by decide)
  have plain : blankExchange.kept =
      [(⟨.assistant, [], none, none⟩ : AgentMessage Nat)] := if_neg unnamed
  rw [kept, plain]
  refine ⟨rfl, rfl, ?_⟩
  intro sublist
  exact absurd sublist.length_le (by decide)

end ToolRun

end Takos.Runs
