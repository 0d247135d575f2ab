import Takos.Runs.CompletedMessages
import Mathlib.Data.List.Dedup

/-!
# The conversation history of a thread

Stored messages are read back in their order and grouped: an assistant message
with tool calls stays together with the results that follow it, and an
exchange that is not complete keeps its text only.
-/

namespace Takos.Runs

open Takos.Foundation

variable {Number : Type}

structure AgentMessage (Number : Type) where
  role : MessageRole
  content : Text
  toolCalls : Option (List (Json Number))
  toolCallId : Option Text

structure ConversationHistoryCandidate (Number : Type) where
  msg : AgentMessage Number
  sequence : Nat
  tokens : Nat

/-- The columns of a stored message that the history reads. -/
structure MessageRow where
  role : MessageRole
  content : Text
  toolCalls : Option Text
  toolCallId : Option Text
  sequence : Nat

def isValidToolCall (item : Json Number) : Bool :=
  match (item.field "id".toList).bind Json.text,
    (item.field "name".toList).bind Json.text,
    item.field "arguments".toList with
  | some id, some name, some arguments =>
    Text.trim id ≠ [] && Text.trim name ≠ [] && isObject arguments
  | _, _, _ => false

def isValidToolCallsArray : Json Number → Bool
  | .array items => items.all isValidToolCall
  | _ => false

def arrayItems : Json Number → List (Json Number)
  | .array items => items
  | _ => []

/-- The `id` of a valid call. -/
def callId (call : Json Number) : Text :=
  ((call.field "id".toList).bind Json.text).getD []

def readToolCalls (codec : JsonCodec Number) (toolCalls : Option Text) :
    Option (List (Json Number)) :=
  match toolCalls with
  | none | some [] => none
  | some text =>
    match codec.parse text with
    | none => none
    | some parsed =>
      if isValidToolCallsArray parsed then some (arrayItems parsed) else none

/-- One row of the thread, as the history takes it up.  Attachments are added
to the text of user messages only, so this is the reading of the other rows. -/
def historyCandidate (codec : JsonCodec Number) (estimateTokens : Text → Nat)
    (row : MessageRow) : ConversationHistoryCandidate Number :=
  let toolCalls := readToolCalls codec row.toolCalls
  { msg :=
      { role := row.role
        content := row.content
        toolCalls := toolCalls
        toolCallId := if row.toolCallId = some [] then none else row.toolCallId }
    sequence := row.sequence
    tokens := estimateTokens row.content +
      match toolCalls with
      | none => 0
      | some calls => estimateTokens
          (Json.stringify codec.toNumberFormat (.array calls)) }

def isToolResult (candidate : ConversationHistoryCandidate Number) : Bool :=
  candidate.msg.role = .tool

/-- The results that answer an expected call for the first time. -/
def matchedResults (expectedIds : List Text) : List Text →
    List (ConversationHistoryCandidate Number) →
      List (ConversationHistoryCandidate Number)
  | _, [] => []
  | seenIds, result :: rest =>
    match result.msg.toolCallId with
    | some id =>
      if id ≠ [] ∧ id ∈ expectedIds ∧ id ∉ seenIds then
        result :: matchedResults expectedIds (id :: seenIds) rest
      else matchedResults expectedIds seenIds rest
    | none => matchedResults expectedIds seenIds rest

def plainCandidate (estimateTokens : Text → Nat)
    (candidate : ConversationHistoryCandidate Number) :
    ConversationHistoryCandidate Number :=
  { candidate with
    msg := { candidate.msg with toolCalls := none }
    tokens := estimateTokens candidate.msg.content }

def candidateCalls (candidate : ConversationHistoryCandidate Number) :
    List (Json Number) :=
  if candidate.msg.role = .assistant then candidate.msg.toolCalls.getD []
  else []

/-- What an assistant message with calls and the tool rows after it leave: the
whole exchange, the text alone, or nothing. -/
def exchangeGroup (estimateTokens : Text → Nat)
    (candidate : ConversationHistoryCandidate Number)
    (results : List (ConversationHistoryCandidate Number)) :
    List (List (ConversationHistoryCandidate Number)) :=
  let callIds := (candidateCalls candidate).map callId
  let matched := matchedResults callIds [] results
  -- a set of ids has as many members as there are different ids
  if callIds.dedup.length = callIds.length ∧
      matched.length = callIds.dedup.length then
    [candidate :: matched]
  else if Text.trim candidate.msg.content ≠ [] then
    [[plainCandidate estimateTokens candidate]]
  else []

/-- The groups from an index on; `skip` rows belong to the previous group. -/
def groupFrom (estimateTokens : Text → Nat) :
    Nat → List (ConversationHistoryCandidate Number) →
      List (List (ConversationHistoryCandidate Number))
  | _, [] => []
  | skip + 1, _ :: rest => groupFrom estimateTokens skip rest
  | 0, candidate :: rest =>
    if candidate.msg.role = .tool then groupFrom estimateTokens 0 rest
    else if (candidateCalls candidate).isEmpty then
      [candidate] :: groupFrom estimateTokens 0 rest
    else
      let results := rest.takeWhile isToolResult
      exchangeGroup estimateTokens candidate results ++
        groupFrom estimateTokens results.length rest

def groupCoherentHistoryCandidates (estimateTokens : Text → Nat)
    (candidates : List (ConversationHistoryCandidate Number)) :
    List (List (ConversationHistoryCandidate Number)) :=
  groupFrom estimateTokens 0 candidates

/-- The messages of the groups, in their order. -/
def historyMessages (estimateTokens : Text → Nat)
    (candidates : List (ConversationHistoryCandidate Number)) :
    List (AgentMessage Number) :=
  (groupCoherentHistoryCandidates estimateTokens candidates).flatten.map
    ConversationHistoryCandidate.msg

section Grouping

variable {estimateTokens : Text → Nat}
variable {candidate : ConversationHistoryCandidate Number}
variable {results rest before after :
  List (ConversationHistoryCandidate Number)}

theorem groupFrom_skip (skip : Nat) :
    groupFrom estimateTokens skip rest =
      groupFrom estimateTokens 0 (rest.drop skip) := by
  induction rest generalizing skip with
  | nil => cases skip <;> rfl
  | cons candidate rest ih =>
      cases skip with
      | zero => rfl
      | succ skip => exact ih skip

theorem groupFrom_tools (tools : ∀ result ∈ results, isToolResult result = true) :
    groupFrom estimateTokens 0 (results ++ rest) =
      groupFrom estimateTokens 0 rest := by
  induction results with
  | nil => rfl
  | cons result results ih =>
      have tool : result.msg.role = .tool :=
        of_decide_eq_true (tools result List.mem_cons_self)
      rw [List.cons_append, groupFrom, if_pos tool]
      exact ih fun result member => tools result (List.mem_cons_of_mem _ member)

theorem groupFrom_plain (role : candidate.msg.role ≠ .tool)
    (noCalls : candidateCalls candidate = []) :
    groupFrom estimateTokens 0 (candidate :: rest) =
      [candidate] :: groupFrom estimateTokens 0 rest := by
  rw [groupFrom, if_neg role, noCalls]
  rfl

theorem groupFrom_calls (role : candidate.msg.role ≠ .tool)
    (calls : candidateCalls candidate ≠ []) :
    groupFrom estimateTokens 0 (candidate :: rest) =
      exchangeGroup estimateTokens candidate (rest.takeWhile isToolResult) ++
        groupFrom estimateTokens (rest.takeWhile isToolResult).length rest := by
  rw [groupFrom, if_neg role]
  have some : (candidateCalls candidate).isEmpty = false := by
    simpa using calls
  rw [some]
  rfl

theorem groupFrom_append {skip : Nat} (short : skip ≤ before.length)
    (first : ∀ candidate, after.head? = some candidate →
      isToolResult candidate = false) :
    groupFrom estimateTokens skip (before ++ after) =
      groupFrom estimateTokens skip before ++
        groupFrom estimateTokens 0 after := by
  have stops : after.takeWhile isToolResult = [] := by
    cases after with
    | nil => rfl
    | cons candidate rest => simp [first candidate rfl]
  induction before generalizing skip with
  | nil =>
      rw [Nat.le_zero.mp short]
      rfl
  | cons candidate rest ih =>
      cases skip with
      | succ skip => exact ih (Nat.le_of_succ_le_succ short)
      | zero =>
          by_cases role : candidate.msg.role = .tool
          · rw [List.cons_append, groupFrom, if_pos role, groupFrom,
              if_pos role]
            exact ih (Nat.zero_le _)
          by_cases calls : candidateCalls candidate = []
          · rw [List.cons_append, groupFrom_plain role calls,
              groupFrom_plain role calls, ih (Nat.zero_le _), List.cons_append]
          · have same : (rest ++ after).takeWhile isToolResult =
                rest.takeWhile isToolResult := by
              rw [List.takeWhile_append, stops, List.append_nil]
              split
              · next whole =>
                  exact ((List.takeWhile_prefix _).eq_of_length whole).symm
              · rfl
            have fits := (List.takeWhile_prefix (l := rest)
              isToolResult).length_le
            rw [List.cons_append, groupFrom_calls role calls,
              groupFrom_calls role calls, same, ih fits, List.append_assoc]

theorem matchedResults_of_seen {expectedIds seenIds : List Text}
    (seen : expectedIds ⊆ seenIds) :
    matchedResults expectedIds seenIds results = [] := by
  induction results with
  | nil => rfl
  | cons result rest ih =>
      rw [matchedResults]
      split
      · next id _ =>
          rw [if_neg (fun fresh => fresh.2.2 (seen fresh.2.1))]
          exact ih
      · exact ih

theorem matchedResults_append {expectedIds seenIds ids : List Text}
    (named : results.map (fun result => result.msg.toolCallId) = ids.map some)
    (nodup : ids.Nodup) (fresh : ∀ id ∈ ids, id ∉ seenIds)
    (expected : ids ⊆ expectedIds) (nonempty : [] ∉ ids) :
    matchedResults expectedIds seenIds (results ++ rest) =
      results ++ matchedResults expectedIds (ids.reverse ++ seenIds) rest := by
  induction results generalizing ids seenIds with
  | nil =>
      rw [List.map_nil] at named
      rw [List.map_eq_nil_iff.mp named.symm]
      rfl
  | cons result results ih =>
      cases ids with
      | nil => exact absurd named (List.cons_ne_nil _ _)
      | cons id ids =>
          rw [List.map_cons, List.map_cons] at named
          injection named with first others
          obtain ⟨absent, nodup⟩ := List.nodup_cons.mp nodup
          have taken : id ≠ [] ∧ id ∈ expectedIds ∧ id ∉ seenIds := by
            refine ⟨?_, expected List.mem_cons_self,
              fresh id List.mem_cons_self⟩
            rintro rfl
            exact nonempty List.mem_cons_self
          have later : ∀ other ∈ ids, other ∉ id :: seenIds := by
            intro other member seen
            cases List.mem_cons.mp seen with
            | inl same => exact absent (same ▸ member)
            | inr before =>
                exact fresh other (List.mem_cons_of_mem _ member) before
          rw [List.cons_append, matchedResults]
          simp only [first]
          rw [if_pos taken, ih others nodup later
            (fun other member => expected (List.mem_cons_of_mem _ member))
            (fun member => nonempty (List.mem_cons_of_mem _ member)),
            List.reverse_cons, List.append_assoc, List.singleton_append,
            List.cons_append]

/-- Each expected call is answered by exactly one of the results. -/
structure Answers (ids expectedIds : List Text)
    (results : List (ConversationHistoryCandidate Number)) : Prop where
  named : results.map (fun result => result.msg.toolCallId) = ids.map some
  perm : ids.Perm expectedIds
  nodup : expectedIds.Nodup
  nonempty : [] ∉ expectedIds

theorem Answers.matched {ids expectedIds : List Text}
    (answers : Answers ids expectedIds results) :
    matchedResults expectedIds [] (results ++ rest) = results := by
  have all : expectedIds ⊆ ids.reverse ++ [] := by
    intro id member
    rw [List.append_nil]
    exact List.mem_reverse.mpr (answers.perm.mem_iff.mpr member)
  rw [matchedResults_append answers.named
    (answers.perm.nodup_iff.mpr answers.nodup)
    (fun id _ => List.not_mem_nil) answers.perm.subset
    (fun member => answers.nonempty (answers.perm.mem_iff.mp member)),
    matchedResults_of_seen all, List.append_nil]

theorem exchangeGroup_complete {ids : List Text}
    (answers : Answers ids ((candidateCalls candidate).map callId) results) :
    exchangeGroup estimateTokens candidate (results ++ rest) =
      [candidate :: results] := by
  have count : results.length = ((candidateCalls candidate).map callId).length := by
    have same := congrArg List.length answers.named
    rw [List.length_map, List.length_map, answers.perm.length_eq] at same
    exact same
  unfold exchangeGroup
  simp only [answers.matched, List.Nodup.dedup answers.nodup]
  rw [if_pos ⟨trivial, count⟩]

theorem groupFrom_exchange {ids : List Text}
    (role : candidate.msg.role ≠ .tool)
    (calls : candidateCalls candidate ≠ [])
    (answers : Answers ids ((candidateCalls candidate).map callId) results)
    (tools : ∀ result ∈ results, isToolResult result = true) :
    groupFrom estimateTokens 0 (candidate :: (results ++ rest)) =
      (candidate :: results) :: groupFrom estimateTokens 0 rest := by
  have taken : (results ++ rest).takeWhile isToolResult =
      results ++ rest.takeWhile isToolResult :=
    List.takeWhile_append_of_pos tools
  have others : ∀ result ∈ results ++ rest.takeWhile isToolResult,
      isToolResult result = true := by
    intro result member
    cases List.mem_append.mp member with
    | inl first => exact tools result first
    | inr later => exact List.mem_takeWhile_imp later
  rw [groupFrom_calls role calls, taken, exchangeGroup_complete answers,
    groupFrom_skip, List.singleton_append]
  apply congrArg
  have whole : results ++ rest = (results ++ rest.takeWhile isToolResult) ++
      rest.dropWhile isToolResult := by
    rw [List.append_assoc, List.takeWhile_append_dropWhile]
  rw [whole, List.drop_left, ← groupFrom_tools others, ← whole,
    groupFrom_tools tools]

end Grouping

end Takos.Runs
