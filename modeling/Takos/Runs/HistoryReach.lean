import Takos.Runs.HistoryRetrieval
import Mathlib.Data.List.Flatten

/-!
# Messages out of reach

Every row that is read is excluded from the search, so the rows that grouping
or the budget leaves out are neither sent nor found: the two sets are the same
exactly if nothing is left out.
-/

namespace Takos.Runs

open Takos.Foundation

variable {Number : Type}

/-- No message of the thread is both left out and out of reach, and none that
is sent is found again. -/
structure SentOrRetrievable (thread : Thread) (plan : HistoryPlan Number) :
    Prop where
  sets : ∀ message ∈ thread.messages,
    message.row.sequence ∈ plan.verbatim.map (·.sequence) ↔
      ¬ CanBeRetrieved plan.bounds message.row.sequence
  once : ∀ search, ∀ found ∈
    queryRelevantThreadMessages search plan.query plan.bounds,
    found.sequence ∉ plan.verbatim.map (·.sequence)

/-- Rows of which the grouping leaves out none: messages of their own,
exchanges with one result for each call, and calls with a text and without any
result. -/
inductive EveryKept : List (ConversationHistoryCandidate Number) → Prop where
  | nil : EveryKept []
  | message {candidate : ConversationHistoryCandidate Number}
      {rest : List (ConversationHistoryCandidate Number)}
      (plain : isPlain candidate = true) (kept : EveryKept rest) :
      EveryKept (candidate :: rest)
  | exchange {candidate : ConversationHistoryCandidate Number}
      {results rest : List (ConversationHistoryCandidate Number)}
      {ids : List Text} (role : candidate.msg.role ≠ .tool)
      (calls : candidateCalls candidate ≠ [])
      (tools : ∀ result ∈ results, isToolResult result = true)
      (answers : Answers ids ((candidateCalls candidate).map callId) results)
      (kept : EveryKept rest) : EveryKept (candidate :: (results ++ rest))
  | text {candidate : ConversationHistoryCandidate Number}
      {rest : List (ConversationHistoryCandidate Number)}
      (role : candidate.msg.role ≠ .tool)
      (calls : candidateCalls candidate ≠ [])
      (content : Text.trim candidate.msg.content ≠ [])
      (kept : EveryKept rest) : EveryKept (candidate :: rest)

section Counting

variable {estimateTokens : Text → Nat}
variable {candidate : ConversationHistoryCandidate Number}
variable {results candidates rest :
  List (ConversationHistoryCandidate Number)}

theorem length_groupFrom_le (estimateTokens : Text → Nat) (skip : Nat)
    (candidates : List (ConversationHistoryCandidate Number)) :
    (groupFrom estimateTokens skip candidates).flatten.length ≤
      (candidates.drop skip).length := by
  have bound := (groupFrom_order estimateTokens skip candidates).length_le
  rw [List.length_map, List.length_map] at bound
  exact bound

theorem EveryKept.no_results (kept : EveryKept rest) :
    rest.takeWhile isToolResult = [] := by
  have stops : ∀ (candidate : ConversationHistoryCandidate Number) others,
      candidate.msg.role ≠ .tool →
      (candidate :: others).takeWhile isToolResult = [] := by
    intro candidate others role
    exact List.takeWhile_cons_of_neg (by
      rw [isToolResult, decide_eq_true_eq]
      exact role)
  cases kept with
  | nil => rfl
  | @message candidate rest plain _ =>
      rw [isPlain, Bool.and_eq_true, Bool.not_eq_true'] at plain
      exact stops _ _ (of_decide_eq_false plain.1)
  | exchange role _ _ _ _ => exact stops _ _ role
  | text role _ _ _ => exact stops _ _ role

theorem exchangeGroup_text (calls : candidateCalls candidate ≠ [])
    (content : Text.trim candidate.msg.content ≠ []) :
    exchangeGroup estimateTokens candidate [] =
      [[plainCandidate estimateTokens candidate]] := by
  have incomplete : ¬ (((candidateCalls candidate).map callId).dedup.length =
      ((candidateCalls candidate).map callId).length ∧
      (matchedResults ((candidateCalls candidate).map callId) []
        ([] : List (ConversationHistoryCandidate Number))).length =
          ((candidateCalls candidate).map callId).dedup.length) := by
    rintro ⟨distinct, counted⟩
    rw [distinct, List.length_map] at counted
    exact calls (List.length_eq_zero_iff.mp counted.symm)
  unfold exchangeGroup
  simp only [if_neg incomplete]
  exact if_pos content

theorem EveryKept.length_kept (kept : EveryKept candidates) :
    (groupFrom estimateTokens 0 candidates).flatten.length =
      candidates.length := by
  induction kept with
  | nil => rfl
  | message plain _ induction =>
      rw [isPlain, Bool.and_eq_true, Bool.not_eq_true', List.isEmpty_iff]
        at plain
      rw [groupFrom_plain (of_decide_eq_false plain.1) plain.2,
        List.flatten_cons, List.length_append, induction, Nat.add_comm]
      rfl
  | exchange role calls tools answers _ induction =>
      rw [groupFrom_exchange role calls answers tools, List.flatten_cons,
        List.length_append, induction, List.length_cons, List.length_cons,
        List.length_append]
      omega
  | text role calls content kept induction =>
      rw [groupFrom_calls role calls, kept.no_results,
        exchangeGroup_text calls content]
      rw [List.flatten_append, List.length_append, List.length_nil, induction,
        List.length_cons, Nat.add_comm]
      rfl

/-- A group that keeps all its rows is a whole exchange, or a text with no
result after it. -/
theorem exchangeGroup_whole
    (whole : (exchangeGroup estimateTokens candidate results).flatten.length =
      results.length + 1) :
    (∃ ids, Answers ids ((candidateCalls candidate).map callId) results) ∨
      (results = [] ∧ Text.trim candidate.msg.content ≠ []) := by
  unfold exchangeGroup at whole
  simp only at whole
  split at whole
  · left
    rename_i complete
    obtain ⟨ids, named, nodup, expected, unseen⟩ := matchedResults_named
      ((candidateCalls candidate).map callId) [] results
    rw [List.flatten_singleton, List.length_cons, Nat.add_right_cancel_iff]
      at whole
    have all := (matchedResults_sublist ((candidateCalls candidate).map callId)
      [] results).eq_of_length whole
    have counted : ids.length =
        ((candidateCalls candidate).map callId).length := by
      have same := congrArg List.length named
      rw [List.length_map, List.length_map] at same
      rw [← same, complete.2, complete.1]
    have perm : ids.Perm ((candidateCalls candidate).map callId) :=
      (List.subperm_of_subset nodup expected).perm_of_length_le counted.ge
    rw [all] at named
    refine ⟨ids, named, perm, perm.nodup_iff.mp nodup, ?_⟩
    intro member
    exact (unseen [] (perm.mem_iff.mpr member)).1 rfl
  · split at whole
    · right
      rename_i content
      rw [List.flatten_singleton, List.length_singleton] at whole
      exact ⟨List.eq_nil_of_length_eq_zero (by omega), content⟩
    · rw [List.flatten_nil, List.length_nil] at whole
      omega

theorem everyKept_of_length {size : Nat} (small : candidates.length ≤ size)
    (whole : (groupFrom estimateTokens 0 candidates).flatten.length =
      candidates.length) : EveryKept candidates := by
  induction size generalizing candidates with
  | zero =>
      rw [List.eq_nil_of_length_eq_zero (Nat.le_zero.mp small)]
      exact .nil
  | succ size induction =>
      cases candidates with
      | nil => exact .nil
      | cons candidate rest =>
          have bound := length_groupFrom_le estimateTokens 0 rest
          rw [List.drop_zero] at bound
          rw [List.length_cons] at small whole
          rcases groupFrom_cases estimateTokens candidate rest with
            ⟨_, grouped⟩ | ⟨plain, grouped⟩ | ⟨role, calls, grouped⟩
          · rw [grouped] at whole
            omega
          · rw [grouped, List.flatten_cons, List.length_append,
              List.length_singleton] at whole
            exact .message plain (induction (by omega) (by omega))
          · have split := split_results rest
            have tools : ∀ result ∈ rest.takeWhile isToolResult,
                isToolResult result = true :=
              fun _ member => List.mem_takeWhile_imp member
            have sizes := congrArg List.length split
            have first := (exchangeGroup_order estimateTokens candidate
              (rest.takeWhile isToolResult)).length_le
            have later := length_groupFrom_le estimateTokens
              (rest.takeWhile isToolResult).length rest
            rw [List.length_append] at sizes
            rw [List.length_map, List.length_map, List.length_cons] at first
            rw [grouped, List.flatten_append, List.length_append] at whole
            have back : EveryKept
                (rest.drop (rest.takeWhile isToolResult).length) := by
              apply induction
              · omega
              · rw [← groupFrom_skip]
                omega
            have here : (exchangeGroup estimateTokens candidate
                (rest.takeWhile isToolResult)).flatten.length =
                  (rest.takeWhile isToolResult).length + 1 := by omega
            rcases exchangeGroup_whole here with
              ⟨ids, answers⟩ | ⟨none, content⟩
            · have kept := EveryKept.exchange role calls tools answers back
              rw [split] at kept
              exact kept
            · rw [none] at split back
              rw [List.nil_append] at split
              rw [split] at back
              exact .text role calls content back

theorem everyKept_iff (estimateTokens : Text → Nat)
    (candidates : List (ConversationHistoryCandidate Number)) :
    (groupFrom estimateTokens 0 candidates).flatten.length =
      candidates.length ↔ EveryKept candidates :=
  ⟨everyKept_of_length le_rfl, EveryKept.length_kept⟩

end Counting

section Budget

variable {estimateTokens : Text → Nat}
variable {candidate : ConversationHistoryCandidate Number}
variable {results candidates : List (ConversationHistoryCandidate Number)}
variable {groups : List (List (ConversationHistoryCandidate Number))}

theorem exchangeGroup_nonempty :
    ∀ group ∈ exchangeGroup estimateTokens candidate results, group ≠ [] := by
  intro group member
  unfold exchangeGroup at member
  simp only at member
  split at member
  · rw [List.mem_singleton.mp member]
    exact List.cons_ne_nil _ _
  · split at member
    · rw [List.mem_singleton.mp member]
      exact List.cons_ne_nil _ _
    · cases member

theorem groupFrom_nonempty (estimateTokens : Text → Nat) (skip : Nat)
    (candidates : List (ConversationHistoryCandidate Number)) :
    ∀ group ∈ groupFrom estimateTokens skip candidates, group ≠ [] :=
  groupFrom_groups (fun _ _ => List.cons_ne_nil _ _)
    (fun _ _ _ _ _ => exchangeGroup_nonempty) skip candidates

theorem length_trimFrom_le (tokenBudget total : Int)
    (groups : List (List (ConversationHistoryCandidate Number))) :
    (trimFrom tokenBudget total groups).flatten.length ≤
      groups.flatten.length := by
  obtain ⟨count, left⟩ := trimFrom_drop tokenBudget total groups
  rw [left]
  exact (List.drop_sublist count groups).flatten.length_le

theorem length_trimGroups_iff (tokenBudget : Int)
    (nonempty : ∀ group ∈ groups, group ≠ []) :
    (trimGroups tokenBudget groups).flatten.length = groups.flatten.length ↔
      (totalTokens groups : Int) ≤ tokenBudget ∨ groups.length ≤ 1 := by
  cases groups with
  | nil => exact ⟨fun _ => .inr (Nat.zero_le 1), fun _ => rfl⟩
  | cons group others =>
      cases others with
      | nil => exact ⟨fun _ => .inr le_rfl, fun _ => rfl⟩
      | cons next others =>
          rw [trimGroups, trimFrom]
          by_cases exceeded :
              tokenBudget < totalTokens (group :: next :: others)
          · have left := length_trimFrom_le tokenBudget
              (totalTokens (group :: next :: others) - groupTokens group)
              (next :: others)
            have some : 0 < group.length :=
              List.length_pos_of_ne_nil (nonempty group List.mem_cons_self)
            rw [if_pos exceeded, List.flatten_cons (l := group),
              List.length_append, List.length_cons, List.length_cons]
            constructor
            · intro same
              omega
            · rintro (fits | single)
              · exact absurd fits (not_le.mpr exceeded)
              · omega
          · rw [if_neg exceeded]
            exact ⟨fun _ => .inl (not_lt.mp exceeded), fun _ => rfl⟩

end Budget

/-- Grouping and the budget leave out no row that was read. -/
structure NothingLeftOut (codec : JsonCodec Number) (estimateTokens : Text → Nat)
    (tokenBudget : Int) (thread : Thread) : Prop where
  grouped : EveryKept (thread.candidates codec estimateTokens)
  fits : (totalTokens (groupCoherentHistoryCandidates estimateTokens
      (thread.candidates codec estimateTokens)) : Int) ≤ tokenBudget ∨
    (groupCoherentHistoryCandidates estimateTokens
      (thread.candidates codec estimateTokens)).length ≤ 1

section Numbers

variable (codec : JsonCodec Number) (estimateTokens : Text → Nat)
variable (tokenBudget : Int) (thread : Thread)

def Thread.fetchedNumbers (thread : Thread) : List Nat :=
  thread.fetched.map (·.row.sequence)

def sentNumbers : List Nat :=
  (planHistory codec estimateTokens tokenBudget thread).verbatim.map
    (·.sequence)

theorem candidates_numbers :
    (thread.candidates codec estimateTokens).map (·.sequence) =
      thread.fetchedNumbers := by
  unfold Thread.candidates Thread.fetchedNumbers
  rw [List.map_map]
  rfl

theorem fetchedNumbers_increase :
    thread.fetchedNumbers.Pairwise (· < ·) := by
  unfold Thread.fetchedNumbers Thread.fetched
  exact List.pairwise_map.mpr
    (thread.ordered.sublist (List.drop_sublist _ _))

theorem fetchedNumbers_nodup : thread.fetchedNumbers.Nodup :=
  (fetchedNumbers_increase thread).imp Nat.ne_of_lt

theorem sentNumbers_sublist :
    (sentNumbers codec estimateTokens tokenBudget thread).Sublist
      thread.fetchedNumbers := by
  have order := groupFrom_order estimateTokens 0
    (thread.candidates codec estimateTokens)
  have numbers := order.map (·.sequence)
  rw [List.drop_zero, List.map_map, List.map_map] at numbers
  obtain ⟨count, left⟩ := trimFrom_drop tokenBudget
    (totalTokens (groupFrom estimateTokens 0
      (thread.candidates codec estimateTokens)))
    (groupFrom estimateTokens 0 (thread.candidates codec estimateTokens))
  have trimmed : (sentNumbers codec estimateTokens tokenBudget thread).Sublist
      ((groupFrom estimateTokens 0
        (thread.candidates codec estimateTokens)).flatten.map
          (·.sequence)) := by
    unfold sentNumbers planHistory
    simp only [trimGroups, groupCoherentHistoryCandidates]
    rw [left]
    exact ((List.drop_sublist count _).flatten).map _
  rw [← candidates_numbers codec estimateTokens]
  exact trimmed.trans numbers

theorem excludeSequences_eq :
    (planHistory codec estimateTokens tokenBudget
      thread).bounds.excludeSequences = thread.fetchedNumbers := by
  rw [planHistory, Thread.fetchedNumbers]

theorem beforeSequence_eq :
    (planHistory codec estimateTokens tokenBudget thread).bounds.beforeSequence =
      (sentNumbers codec estimateTokens tokenBudget thread).head? := by
  rw [sentNumbers, List.head?_map, planHistory]

theorem earlier_of_left {messages : List ThreadMessage}
    (ordered : messages.Pairwise fun earlier later =>
      earlier.row.sequence < later.row.sequence) (count : Nat)
    {message : ThreadMessage} (member : message ∈ messages)
    (left : message.row.sequence ∉
      (messages.drop count).map (·.row.sequence)) :
    ∀ other ∈ messages.drop count,
      message.row.sequence < other.row.sequence := by
  have split := List.take_append_drop count messages
  rw [← split, List.pairwise_append] at ordered
  rw [← split] at member
  rcases List.mem_append.mp member with front | back
  · exact ordered.2.2 message front
  · exact absurd (List.mem_map_of_mem back) left

theorem earlier_of_unfetched {message : ThreadMessage}
    (member : message ∈ thread.messages)
    (unfetched : message.row.sequence ∉ thread.fetchedNumbers) :
    ∀ number ∈ thread.fetchedNumbers, message.row.sequence < number := by
  intro number fetched
  rw [Thread.fetchedNumbers, Thread.fetched] at unfetched fetched
  obtain ⟨other, present, same⟩ := List.mem_map.mp fetched
  rw [← same]
  exact earlier_of_left thread.ordered _ member unfetched other present

theorem retrievable_iff_unfetched {message : ThreadMessage}
    (member : message ∈ thread.messages) :
    CanBeRetrieved
        (planHistory codec estimateTokens tokenBudget thread).bounds
        message.row.sequence ↔
      message.row.sequence ∉ thread.fetchedNumbers := by
  rw [canBeRetrieved_iff, RetrievalBounds.admits, Bool.and_eq_true,
    Bool.not_eq_true', List.contains_eq_mem, decide_eq_false_iff_not,
    excludeSequences_eq]
  constructor
  · exact And.right
  · intro unfetched
    refine ⟨?_, unfetched⟩
    rw [beforeSequence_eq, Option.all_eq_true]
    intro oldest first
    apply decide_eq_true
    apply earlier_of_unfetched thread member unfetched
    apply (sentNumbers_sublist codec estimateTokens tokenBudget thread).subset
    exact List.mem_of_mem_head? first

theorem length_sentNumbers :
    (sentNumbers codec estimateTokens tokenBudget thread).length =
      thread.fetchedNumbers.length ↔
    NothingLeftOut codec estimateTokens tokenBudget thread := by
  have total := length_trimFrom_le tokenBudget
    (totalTokens (groupFrom estimateTokens 0
      (thread.candidates codec estimateTokens)))
    (groupFrom estimateTokens 0 (thread.candidates codec estimateTokens))
  have grouped := length_groupFrom_le estimateTokens 0
    (thread.candidates codec estimateTokens)
  have budget := length_trimGroups_iff tokenBudget
    (groupFrom_nonempty estimateTokens 0
      (thread.candidates codec estimateTokens))
  have kept := everyKept_iff estimateTokens
    (thread.candidates codec estimateTokens)
  rw [List.drop_zero] at grouped
  rw [← candidates_numbers codec estimateTokens, List.length_map]
  unfold sentNumbers planHistory
  simp only [List.length_map]
  constructor
  · intro same
    constructor
    · apply kept.mp
      unfold groupCoherentHistoryCandidates trimGroups at same
      omega
    · apply budget.mp
      unfold groupCoherentHistoryCandidates at same
      unfold trimGroups at same ⊢
      omega
  · intro whole
    exact (budget.mpr whole.fits).trans (kept.mpr whole.grouped)

end Numbers

/-- Messages are sent or within reach, and never both, exactly if grouping and
the budget leave out no row that was read. -/
theorem sentOrRetrievable_iff (codec : JsonCodec Number)
    (estimateTokens : Text → Nat) (tokenBudget : Int) (thread : Thread) :
    SentOrRetrievable thread
        (planHistory codec estimateTokens tokenBudget thread) ↔
      NothingLeftOut codec estimateTokens tokenBudget thread := by
  have sent := sentNumbers_sublist codec estimateTokens tokenBudget thread
  rw [← length_sentNumbers]
  constructor
  · intro reach
    have all : thread.fetchedNumbers ⊆
        sentNumbers codec estimateTokens tokenBudget thread := by
      intro number member
      obtain ⟨message, present, same⟩ := List.mem_map.mp member
      rw [Thread.fetched] at present
      have inThread := List.mem_of_mem_drop present
      rw [← same]
      apply (reach.sets message inThread).mpr
      rw [retrievable_iff_unfetched codec estimateTokens tokenBudget thread
        inThread, not_not, same]
      exact member
    exact Nat.le_antisymm sent.length_le
      (List.subperm_of_subset (fetchedNumbers_nodup thread) all).length_le
  · intro counted
    have same := sent.eq_of_length counted
    constructor
    · intro message member
      rw [retrievable_iff_unfetched codec estimateTokens tokenBudget thread
        member, not_not, ← same]
      rfl
    · intro search found retrieved verbatim
      have admitted : (planHistory codec estimateTokens tokenBudget
          thread).bounds.admits found.sequence = true := by
        unfold queryRelevantThreadMessages at retrieved
        split at retrieved
        · cases retrieved
        · split at retrieved
          · cases retrieved
          · exact admits_of_selected retrieved
      rw [RetrievalBounds.admits, Bool.and_eq_true, Bool.not_eq_true',
        List.contains_eq_mem, decide_eq_false_iff_not, excludeSequences_eq]
        at admitted
      exact admitted.2 (sent.subset verbatim)

/-- A message of which the budget holds one. -/
def longMessage (sequence : Nat) : ThreadMessage :=
  { row :=
      { role := .user, content := List.replicate 3000 '議'
        toolCalls := none, toolCallId := none, sequence }
    metadata := none }

def longThread : Thread :=
  { messages := [longMessage 1, longMessage 2]
    ordered := List.pairwise_pair.mpr (Nat.lt_succ_self 1) }

/-- The older message is trimmed away, and excluded from the search as well. -/
theorem older_unreachable :
    ¬ SentOrRetrievable longThread
      (planHistory NumberFormat.natural.codec List.length 4000 longThread) := by
  intro reach
  have excluded : ¬ CanBeRetrieved (planHistory NumberFormat.natural.codec
      List.length 4000 longThread).bounds 1 := by
    rw [canBeRetrieved_iff]
    decide +kernel
  have missing : 1 ∉ (planHistory NumberFormat.natural.codec
      List.length 4000 longThread).verbatim.map (·.sequence) := by
    decide +kernel
  exact missing
    ((reach.sets (longMessage 1) List.mem_cons_self).mpr excluded)

end Takos.Runs
