import Takos.Runs.ConversationHistory
import Mathlib.Data.List.Perm.Subperm
import Mathlib.Data.Rat.Defs
import Mathlib.Algebra.Order.Field.Rat

/-!
# Histories that a provider accepts

The grouping of stored messages, whatever they are, leaves a history in which
each exchange is complete and no result stands alone.  Groups are accepted one
by one, so the history stays acceptable when the oldest of them are left out.
-/

namespace Takos.Runs

open Takos.Foundation

variable {Number : Type}

def messageCalls (message : AgentMessage Number) : List (Json Number) :=
  if message.role = .assistant then message.toolCalls.getD [] else []

/-- An assistant message with calls is followed by one result for each of its
calls, and results stand nowhere else. -/
inductive AcceptableHistory : List (AgentMessage Number) → Prop where
  | nil : AcceptableHistory []
  | message {message : AgentMessage Number} {rest : List (AgentMessage Number)}
      (role : message.role ≠ .tool) (noCalls : messageCalls message = [])
      (accepted : AcceptableHistory rest) : AcceptableHistory (message :: rest)
  | exchange {call : AgentMessage Number}
      {results rest : List (AgentMessage Number)} {ids : List Text}
      (calls : messageCalls call ≠ [])
      (tools : ∀ result ∈ results, result.role = .tool)
      (named : results.map (·.toolCallId) = ids.map some)
      (answers : ids.Perm ((messageCalls call).map callId))
      (distinct : ids.Nodup) (accepted : AcceptableHistory rest) :
      AcceptableHistory (call :: (results ++ rest))

theorem AcceptableHistory.append {front back : List (AgentMessage Number)}
    (first : AcceptableHistory front) (second : AcceptableHistory back) :
    AcceptableHistory (front ++ back) := by
  induction first with
  | nil => exact second
  | message role noCalls _ induction => exact .message role noCalls induction
  | exchange calls tools named answers distinct _ induction =>
      rw [List.cons_append, List.append_assoc]
      exact .exchange calls tools named answers distinct induction

def groupTokens (group : List (ConversationHistoryCandidate Number)) : Nat :=
  (group.map (·.tokens)).sum

/-- The loop that leaves out groups while there are too many tokens; the last
group stays. -/
def trimFrom (tokenBudget : Int) :
    Int → List (List (ConversationHistoryCandidate Number)) →
      List (List (ConversationHistoryCandidate Number))
  | _, [] => []
  | _, [group] => [group]
  | totalTokens, group :: next :: groups =>
    if tokenBudget < totalTokens then
      trimFrom tokenBudget (totalTokens - groupTokens group) (next :: groups)
    else group :: next :: groups

def totalTokens (groups : List (List (ConversationHistoryCandidate Number))) :
    Nat := (groups.map groupTokens).sum

def trimGroups (tokenBudget : Int)
    (groups : List (List (ConversationHistoryCandidate Number))) :
    List (List (ConversationHistoryCandidate Number)) :=
  trimFrom tokenBudget (totalTokens groups) groups

section Trimming

variable {groups : List (List (ConversationHistoryCandidate Number))}

theorem trimFrom_drop (tokenBudget total : Int)
    (groups : List (List (ConversationHistoryCandidate Number))) :
    ∃ count, trimFrom tokenBudget total groups = groups.drop count := by
  induction groups generalizing total with
  | nil => exact ⟨0, rfl⟩
  | cons group groups induction =>
      cases groups with
      | nil => exact ⟨0, rfl⟩
      | cons next groups =>
          rw [trimFrom]
          split
          · obtain ⟨count, left⟩ := induction (total - groupTokens group)
            exact ⟨count + 1, left⟩
          · exact ⟨0, rfl⟩

def messagesOf (groups : List (List (ConversationHistoryCandidate Number))) :
    List (AgentMessage Number) := groups.flatten.map (·.msg)

theorem acceptable_of_groups
    (accepted : ∀ group ∈ groups, AcceptableHistory (group.map (·.msg))) :
    AcceptableHistory (messagesOf groups) := by
  unfold messagesOf
  induction groups with
  | nil => exact .nil
  | cons group groups induction =>
      rw [List.flatten_cons, List.map_append]
      exact (accepted group List.mem_cons_self).append
        (induction fun other member =>
          accepted other (List.mem_cons_of_mem _ member))

end Trimming

section Matching

variable {estimateTokens : Text → Nat}
variable {candidate : ConversationHistoryCandidate Number}
variable {results candidates : List (ConversationHistoryCandidate Number)}

theorem matchedResults_sublist (expectedIds seenIds : List Text)
    (results : List (ConversationHistoryCandidate Number)) :
    (matchedResults expectedIds seenIds results).Sublist results := by
  induction results generalizing seenIds with
  | nil => exact .slnil
  | cons result rest induction =>
      rw [matchedResults]
      cases answered : result.msg.toolCallId with
      | none => exact (induction seenIds).cons _
      | some id =>
          simp only
          split
          · exact (induction (id :: seenIds)).cons_cons _
          · exact (induction seenIds).cons _

theorem matchedResults_named (expectedIds seenIds : List Text)
    (results : List (ConversationHistoryCandidate Number)) :
    ∃ ids : List Text,
      (matchedResults expectedIds seenIds results).map (·.msg.toolCallId) =
        ids.map some ∧
      ids.Nodup ∧ ids ⊆ expectedIds ∧ ∀ id ∈ ids, id ≠ [] ∧ id ∉ seenIds := by
  induction results generalizing seenIds with
  | nil => exact ⟨[], rfl, .nil, List.nil_subset _, by simp⟩
  | cons result rest induction =>
      rw [matchedResults]
      cases answered : result.msg.toolCallId with
      | none => exact induction seenIds
      | some id =>
          simp only
          by_cases fresh : id ≠ [] ∧ id ∈ expectedIds ∧ id ∉ seenIds
          · obtain ⟨ids, named, nodup, expected, unseen⟩ :=
              induction (id :: seenIds)
            rw [if_pos fresh]
            refine ⟨id :: ids, ?_, ?_, ?_, ?_⟩
            · rw [List.map_cons, answered, named, List.map_cons]
            · refine List.nodup_cons.mpr ⟨?_, nodup⟩
              intro member
              exact (unseen id member).2 List.mem_cons_self
            · exact List.cons_subset.mpr ⟨fresh.2.1, expected⟩
            · intro other member
              rcases List.mem_cons.mp member with same | later
              · rw [same]
                exact ⟨fresh.1, fresh.2.2⟩
              · obtain ⟨nonempty, apart⟩ := unseen other later
                exact ⟨nonempty, fun seen =>
                  apart (List.mem_cons_of_mem _ seen)⟩
          · rw [if_neg fresh]
            exact induction seenIds

theorem plainCandidate_calls (estimateTokens : Text → Nat)
    (candidate : ConversationHistoryCandidate Number) :
    messageCalls (plainCandidate estimateTokens candidate).msg = [] := by
  unfold messageCalls plainCandidate
  split <;> rfl

theorem exchangeGroup_accepted (role : candidate.msg.role ≠ .tool)
    (calls : candidateCalls candidate ≠ [])
    (tools : ∀ result ∈ results, isToolResult result = true) :
    ∀ group ∈ exchangeGroup estimateTokens candidate results,
      AcceptableHistory (group.map (·.msg)) := by
  intro group member
  unfold exchangeGroup at member
  simp only at member
  split at member
  · rename_i complete
    obtain ⟨ids, named, nodup, expected, _⟩ := matchedResults_named
      ((candidateCalls candidate).map callId) [] results
    rw [List.mem_singleton.mp member]
    have counted : ids.length = ((candidateCalls candidate).map callId).length := by
      have same := congrArg List.length named
      rw [List.length_map, List.length_map] at same
      rw [← same, complete.2, complete.1]
    have perm : ids.Perm ((candidateCalls candidate).map callId) :=
      (List.subperm_of_subset nodup expected).perm_of_length_le counted.ge
    have taken : ∀ result ∈ (matchedResults
        ((candidateCalls candidate).map callId) [] results).map (·.msg),
        result.role = .tool := by
      intro result member
      obtain ⟨matched, present, same⟩ := List.mem_map.mp member
      rw [← same]
      exact of_decide_eq_true (tools matched
        ((matchedResults_sublist _ _ _).subset present))
    have answered : ((matchedResults ((candidateCalls candidate).map callId) []
        results).map (·.msg)).map (·.toolCallId) = ids.map some := by
      rw [List.map_map]
      exact named
    have accepted : AcceptableHistory _ :=
      .exchange calls taken answered perm nodup .nil
    rw [List.append_nil] at accepted
    exact accepted
  · split at member
    · rw [List.mem_singleton.mp member]
      exact .message role (plainCandidate_calls estimateTokens candidate) .nil
    · cases member

/-- A message that is no part of an exchange. -/
def isPlain (candidate : ConversationHistoryCandidate Number) : Bool :=
  !isToolResult candidate && (candidateCalls candidate).isEmpty

/-- A message as it is recognised in the history: without its calls and their
tokens. -/
def withoutCalls (candidate : ConversationHistoryCandidate Number) :
    ConversationHistoryCandidate Number :=
  { candidate with msg := { candidate.msg with toolCalls := none }, tokens := 0 }

theorem exchangeGroup_order (estimateTokens : Text → Nat)
    (candidate : ConversationHistoryCandidate Number)
    (results : List (ConversationHistoryCandidate Number)) :
    ((exchangeGroup estimateTokens candidate results).flatten.map
      withoutCalls).Sublist ((candidate :: results).map withoutCalls) := by
  unfold exchangeGroup
  simp only
  split
  · rw [List.flatten_singleton]
    exact ((matchedResults_sublist _ _ results).cons_cons candidate).map _
  · split
    · rw [List.flatten_singleton]
      exact (List.nil_sublist (results.map withoutCalls)).cons_cons _
    · exact List.nil_sublist _

theorem split_results (rest : List (ConversationHistoryCandidate Number)) :
    rest.takeWhile isToolResult ++
      rest.drop (rest.takeWhile isToolResult).length = rest := by
  have front := List.prefix_iff_eq_take.mp
    (List.takeWhile_prefix (l := rest) isToolResult)
  calc
    rest.takeWhile isToolResult ++
        rest.drop (rest.takeWhile isToolResult).length =
      rest.take (rest.takeWhile isToolResult).length ++
        rest.drop (rest.takeWhile isToolResult).length := by rw [← front]
    _ = rest := List.take_append_drop _ _

/-- A candidate at the front is a result, a message of its own or a call with
the results after it. -/
theorem groupFrom_cases (estimateTokens : Text → Nat)
    (candidate : ConversationHistoryCandidate Number)
    (rest : List (ConversationHistoryCandidate Number)) :
    (isToolResult candidate = true ∧
      groupFrom estimateTokens 0 (candidate :: rest) =
        groupFrom estimateTokens 0 rest) ∨
    (isPlain candidate = true ∧
      groupFrom estimateTokens 0 (candidate :: rest) =
        [candidate] :: groupFrom estimateTokens 0 rest) ∨
    (candidate.msg.role ≠ .tool ∧ candidateCalls candidate ≠ [] ∧
      groupFrom estimateTokens 0 (candidate :: rest) =
        exchangeGroup estimateTokens candidate (rest.takeWhile isToolResult) ++
          groupFrom estimateTokens (rest.takeWhile isToolResult).length rest) := by
  by_cases role : candidate.msg.role = .tool
  · left
    exact ⟨decide_eq_true role, by rw [groupFrom, if_pos role]⟩
  right
  by_cases calls : candidateCalls candidate = []
  · left
    refine ⟨?_, groupFrom_plain role calls⟩
    rw [isPlain, isToolResult, decide_eq_false role, calls]
    rfl
  · exact .inr ⟨role, calls, groupFrom_calls role calls⟩

/-- What holds of each message of its own and of each exchange holds of all
groups. -/
theorem groupFrom_groups
    {holds : List (ConversationHistoryCandidate Number) → Prop}
    (alone : ∀ candidate, isPlain candidate = true → holds [candidate])
    (exchanged : ∀ candidate results, candidate.msg.role ≠ .tool →
      candidateCalls candidate ≠ [] →
      (∀ result ∈ results, isToolResult result = true) →
      ∀ group ∈ exchangeGroup estimateTokens candidate results, holds group)
    (skip : Nat) (candidates : List (ConversationHistoryCandidate Number)) :
    ∀ group ∈ groupFrom estimateTokens skip candidates, holds group := by
  induction candidates generalizing skip with
  | nil => exact fun _ member => by cases skip <;> cases member
  | cons candidate rest induction =>
      cases skip with
      | succ skip => exact induction skip
      | zero =>
          intro group member
          rcases groupFrom_cases estimateTokens candidate rest with
            ⟨_, grouped⟩ | ⟨plain, grouped⟩ | ⟨role, calls, grouped⟩
          · rw [grouped] at member
            exact induction 0 group member
          · rw [grouped] at member
            rcases List.mem_cons.mp member with here | later
            · rw [here]
              exact alone candidate plain
            · exact induction 0 group later
          · rw [grouped] at member
            rcases List.mem_append.mp member with here | later
            · exact exchanged candidate _ role calls
                (fun _ tool => List.mem_takeWhile_imp tool) group here
            · exact induction _ group later

theorem groupFrom_accepted (estimateTokens : Text → Nat) (skip : Nat)
    (candidates : List (ConversationHistoryCandidate Number)) :
    ∀ group ∈ groupFrom estimateTokens skip candidates,
      AcceptableHistory (group.map (·.msg)) := by
  refine groupFrom_groups ?_ (fun _ _ => exchangeGroup_accepted) skip candidates
  intro candidate plain
  rw [isPlain, Bool.and_eq_true, Bool.not_eq_true', List.isEmpty_iff] at plain
  exact .message (of_decide_eq_false plain.1) plain.2 .nil

theorem groupFrom_order (estimateTokens : Text → Nat) (skip : Nat)
    (candidates : List (ConversationHistoryCandidate Number)) :
    ((groupFrom estimateTokens skip candidates).flatten.map
      withoutCalls).Sublist ((candidates.drop skip).map withoutCalls) := by
  induction candidates generalizing skip with
  | nil => cases skip <;> exact .slnil
  | cons candidate rest induction =>
      cases skip with
      | succ skip => exact induction skip
      | zero =>
          rcases groupFrom_cases estimateTokens candidate rest with
            ⟨_, grouped⟩ | ⟨_, grouped⟩ | ⟨_, _, grouped⟩
          · rw [grouped]
            exact (induction 0).cons _
          · rw [grouped]
            exact (induction 0).cons_cons _
          · have later := induction (rest.takeWhile isToolResult).length
            have first := exchangeGroup_order estimateTokens candidate
              (rest.takeWhile isToolResult)
            have both := first.append later
            have whole : (candidate :: rest.takeWhile isToolResult).map
                withoutCalls ++ (rest.drop
                  (rest.takeWhile isToolResult).length).map withoutCalls =
                (candidate :: rest).map withoutCalls := by
              rw [← List.map_append, List.cons_append, split_results]
            rw [grouped, List.flatten_append, List.map_append]
            rw [whole] at both
            exact both

theorem groupFrom_plainKept (estimateTokens : Text → Nat) (skip : Nat)
    (candidates : List (ConversationHistoryCandidate Number)) :
    ((candidates.drop skip).filter isPlain).Sublist
      (groupFrom estimateTokens skip candidates).flatten := by
  induction candidates generalizing skip with
  | nil => cases skip <;> exact .slnil
  | cons candidate rest induction =>
      cases skip with
      | succ skip => exact induction skip
      | zero =>
          rw [List.drop_zero]
          rcases groupFrom_cases estimateTokens candidate rest with
            ⟨tool, grouped⟩ | ⟨plain, grouped⟩ | ⟨role, calls, grouped⟩
          · have hidden : ¬ isPlain candidate = true := by
              rw [isPlain, tool]
              exact Bool.false_ne_true
            rw [grouped, List.filter_cons_of_neg hidden]
            exact induction 0
          · rw [grouped, List.filter_cons_of_pos plain]
            exact (induction 0).cons_cons _
          · have hidden : ¬ isPlain candidate = true := by
              rw [isPlain, Bool.and_eq_true, List.isEmpty_iff]
              exact fun plain => calls plain.2
            have tools : (rest.takeWhile isToolResult).filter isPlain = [] := by
              apply List.filter_eq_nil_iff.mpr
              intro result member
              rw [isPlain, List.mem_takeWhile_imp member]
              exact Bool.false_ne_true
            have whole : rest.filter isPlain =
                (rest.drop (rest.takeWhile isToolResult).length).filter
                  isPlain := by
              conv_lhs => rw [← split_results rest]
              rw [List.filter_append, tools, List.nil_append]
            rw [grouped, List.filter_cons_of_neg hidden, whole,
              List.flatten_append]
            exact (induction _).trans (List.sublist_append_right _ _)

end Matching

/-- What the history that is kept of stored messages has to be. -/
structure HistoryKept (estimateTokens : Text → Nat)
    (candidates : List (ConversationHistoryCandidate Number)) : Prop where
  acceptable : AcceptableHistory (historyMessages estimateTokens candidates)
  ordered : ((groupCoherentHistoryCandidates estimateTokens
    candidates).flatten.map withoutCalls).Sublist (candidates.map withoutCalls)
  plainKept : (candidates.filter isPlain).Sublist
    (groupCoherentHistoryCandidates estimateTokens candidates).flatten
  trimmed : ∀ tokenBudget : Int,
    (∃ count, trimGroups tokenBudget
        (groupCoherentHistoryCandidates estimateTokens candidates) =
      (groupCoherentHistoryCandidates estimateTokens candidates).drop count) ∧
    AcceptableHistory (messagesOf (trimGroups tokenBudget
      (groupCoherentHistoryCandidates estimateTokens candidates)))

/-- Any list of stored messages leaves a history that is accepted, in its
order, with every message outside exchanges, and for every budget whole groups
are left out from the oldest on. -/
theorem history_kept (estimateTokens : Text → Nat)
    (candidates : List (ConversationHistoryCandidate Number)) :
    HistoryKept estimateTokens candidates := by
  have accepted := groupFrom_accepted estimateTokens 0 candidates
  constructor
  · exact acceptable_of_groups accepted
  · exact groupFrom_order estimateTokens 0 candidates
  · exact groupFrom_plainKept estimateTokens 0 candidates
  · intro tokenBudget
    obtain ⟨count, left⟩ := trimFrom_drop tokenBudget
      (totalTokens (groupCoherentHistoryCandidates estimateTokens candidates))
      (groupCoherentHistoryCandidates estimateTokens candidates)
    refine ⟨⟨count, left⟩, ?_⟩
    apply acceptable_of_groups
    intro group member
    rw [trimGroups, left] at member
    exact accepted group (List.mem_of_mem_drop member)

end Takos.Runs

/-!
# The history and the messages that can be retrieved

The latest rows of a thread are grouped and trimmed to the messages that are
sent as they are.  Others are looked for by their meaning, and what is excluded
from that search is collected when the rows are read.
-/

namespace Takos.Runs

open Takos.Foundation

variable {Number : Type}

structure MessageAttachmentRef (Number : Type) where
  fileId : Text
  path : Option Text
  name : Text
  mimeType : Option Text
  size : Option Number

def readAttachment (entry : Json Number) : Option (MessageAttachmentRef Number) :=
  match (entry.field "file_id".toList).bind Json.text,
    (entry.field "name".toList).bind Json.text with
  | some fileId, some name =>
    some
      { fileId
        path := (entry.field "path".toList).bind Json.text
        name
        mimeType := (entry.field "mime_type".toList).bind Json.text
        size :=
          match entry.field "size".toList with
          | some (.number size) => some size
          | _ => none }
  | _, _ => none

def parseMessageAttachmentRefs (codec : JsonCodec Number)
    (metadata : Option Text) : List (MessageAttachmentRef Number) :=
  match metadata with
  | none | some [] => []
  | some text =>
    match (codec.parse text).bind (Json.field "attachments".toList) with
    | some (.array entries) => entries.filterMap readAttachment
    | _ => []

def attachmentLine (format : NumberFormat Number)
    (attachment : MessageAttachmentRef Number) : Text :=
  let shown :=
    match attachment.path with
    | none | some [] => attachment.name
    | some path => path
  let mimeType :=
    match attachment.mimeType with
    | none | some [] => []
    | some mimeType => [", mime_type: ".toList ++ mimeType]
  let size :=
    match attachment.size with
    | none => []
    | some size => [", size: ".toList ++ format.render size]
  "- ".toList ++ shown ++ ", file_id: ".toList ++ attachment.fileId ++
    (mimeType ++ size).flatten

def attachmentNotes : List Text :=
  ["Takos chat attachment metadata is available for this message.".toList,
    ("Use toolbox action=call with tool_name=chat_attachment_read and " ++
      "arguments containing the file_id below. Do not use an installed " ++
      "storage MCP for this Takos-owned attachment.").toList]

def appendAttachmentContext (format : NumberFormat Number) (content : Text)
    (attachments : List (MessageAttachmentRef Number)) : Text :=
  if attachments.isEmpty then content
  else
    let context := Text.join '\n'
      (attachmentNotes ++ attachments.map (attachmentLine format))
    if Text.trim content ≠ [] then content ++ ['\n', '\n'] ++ context
    else context

/-- A stored message with its metadata. -/
structure ThreadMessage where
  row : MessageRow
  metadata : Option Text

/-- The messages of a thread, each with a later number than the one before. -/
structure Thread where
  messages : List ThreadMessage
  ordered : messages.Pairwise fun earlier later =>
    earlier.row.sequence < later.row.sequence

def maxFetch : Nat := 500

/-- The latest rows, in their order. -/
def Thread.fetched (thread : Thread) : List ThreadMessage :=
  thread.messages.drop (thread.messages.length - maxFetch)

section Candidates

variable (codec : JsonCodec Number) (estimateTokens : Text → Nat)

/-- The text of a message; attachments are told of in user messages. -/
def messageText (message : ThreadMessage) : Text :=
  if message.row.role = .user then
    appendAttachmentContext codec.toNumberFormat message.row.content
      (parseMessageAttachmentRefs codec message.metadata)
  else message.row.content

def threadCandidate (message : ThreadMessage) :
    ConversationHistoryCandidate Number :=
  historyCandidate codec estimateTokens
    { message.row with content := messageText codec message }

def Thread.candidates (thread : Thread) :
    List (ConversationHistoryCandidate Number) :=
  thread.fetched.map (threadCandidate codec estimateTokens)

/-- The query is the last message of the user. -/
def Thread.lastUserQuery (thread : Thread) : Text :=
  match thread.fetched.reverse.find? fun message =>
      message.row.role = .user with
  | none => []
  | some message => messageText codec message

end Candidates

/-- A match of the vector index. -/
structure VectorMatch where
  id : Text
  score : ℚ
  sequence : Option Nat
  role : Option Text
  content : Option Text
  createdAt : Option Text
  messageId : Option Text

structure RetrievedThreadMessage where
  id : Text
  score : ℚ
  sequence : Nat
  role : Text
  content : Text
  createdAt : Option Text
  messageId : Option Text

def threadRetrievalTopK : Nat := 8

def threadRetrievalMinScore : ℚ := 35 / 100

/-- What the search leaves out by its number. -/
structure RetrievalBounds where
  beforeSequence : Option Nat
  excludeSequences : List Nat

def RetrievalBounds.admits (bounds : RetrievalBounds) (sequence : Nat) : Bool :=
  bounds.beforeSequence.all (sequence < ·) &&
    !bounds.excludeSequences.contains sequence

/-- The loop over the matches; `room` is how many more are taken. -/
def selectMatches (bounds : RetrievalBounds) :
    (room : Nat) → (seenSeq : List Nat) → List VectorMatch →
      List RetrievedThreadMessage
  | _, _, [] => []
  | room, seenSeq, found :: others =>
    if found.score < threadRetrievalMinScore then
      selectMatches bounds room seenSeq others
    else
      match found.sequence with
      | none => selectMatches bounds room seenSeq others
      | some sequence =>
        if !bounds.admits sequence || seenSeq.contains sequence then
          selectMatches bounds room seenSeq others
        else
          match found.content with
          | none | some [] =>
            selectMatches bounds room (sequence :: seenSeq) others
          | some content =>
            { id := found.id
              score := found.score
              sequence
              role := (found.role.filter (· ≠ [])).getD "unknown".toList
              content
              createdAt := found.createdAt
              messageId := found.messageId } ::
              match room with
              | 0 | 1 => []
              | room + 2 =>
                selectMatches bounds (room + 1) (sequence :: seenSeq) others

/-- The search gives the matches of a query; without the bindings there is
none. -/
def queryRelevantThreadMessages (search : Option (Text → List VectorMatch))
    (query : Text) (bounds : RetrievalBounds) : List RetrievedThreadMessage :=
  match search with
  | none => []
  | some search =>
    if Text.trim query = [] then []
    else selectMatches bounds threadRetrievalTopK [] (search (Text.trim query))

/-- Whether some answer of the index gives back the message of a number. -/
def CanBeRetrieved (bounds : RetrievalBounds) (sequence : Nat) : Prop :=
  ∃ answer : List VectorMatch,
    ∃ found ∈ selectMatches bounds threadRetrievalTopK [] answer,
      found.sequence = sequence

theorem admits_of_selected {bounds : RetrievalBounds} {room : Nat}
    {seenSeq : List Nat} {answer : List VectorMatch}
    {found : RetrievedThreadMessage}
    (selected : found ∈ selectMatches bounds room seenSeq answer) :
    bounds.admits found.sequence = true := by
  induction answer generalizing room seenSeq with
  | nil => cases selected
  | cons first others induction =>
      rw [selectMatches] at selected
      split at selected
      · exact induction selected
      · split at selected
        · exact induction selected
        · rename_i sequence _
          split at selected
          · exact induction selected
          · rename_i admitted
            rw [Bool.or_eq_true, Bool.not_eq_true', not_or,
              Bool.not_eq_false] at admitted
            split at selected
            · exact induction selected
            · exact induction selected
            · rcases List.mem_cons.mp selected with here | later
              · rw [here]
                exact admitted.1
              · split at later
                · cases later
                · cases later
                · exact induction later

theorem canBeRetrieved_iff (bounds : RetrievalBounds) (sequence : Nat) :
    CanBeRetrieved bounds sequence ↔ bounds.admits sequence = true := by
  constructor
  · rintro ⟨answer, found, selected, same⟩
    rw [← same]
    exact admits_of_selected selected
  · intro admitted
    refine ⟨[⟨[], 1, some sequence, none, some ['m'], none, none⟩], ?_⟩
    have enough : ¬ (1 : ℚ) < threadRetrievalMinScore := by decide +kernel
    have fresh : ¬ (!bounds.admits sequence ||
        ([] : List Nat).contains sequence) = true := by
      rw [admitted]
      exact Bool.false_ne_true
    rw [selectMatches, if_neg enough]
    simp only [if_neg fresh]
    exact ⟨_, List.mem_cons_self, rfl⟩

/-- What the assembly decides: the messages that are sent as they are, and what
others are looked for. -/
structure HistoryPlan (Number : Type) where
  verbatim : List (ConversationHistoryCandidate Number)
  query : Text
  bounds : RetrievalBounds

def planHistory (codec : JsonCodec Number) (estimateTokens : Text → Nat)
    (tokenBudget : Int) (thread : Thread) : HistoryPlan Number :=
  let candidates := thread.candidates codec estimateTokens
  let groups := groupCoherentHistoryCandidates estimateTokens candidates
  let trimmed := (trimGroups tokenBudget groups).flatten
  { verbatim := trimmed
    query := thread.lastUserQuery codec
    bounds :=
      { beforeSequence := trimmed.head?.map (·.sequence)
        excludeSequences := thread.fetched.map (·.row.sequence) } }

end Takos.Runs
