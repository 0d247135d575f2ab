import Takos.LocalPlatform.WorkerRuns
import Mathlib.Data.Nat.Cast.Order.Ring
import Mathlib.Tactic.Ring

/-!
# No record is lost, none goes round for ever

Two accounts over all runs in which the handlers settle their records: one
counts the records with a body, the other the turns that are left to them.
-/

namespace Takos.LocalPlatform

open Takos.Foundation Takos.Foundation.Program

variable {Body Options : Type}

def count {Item : Type} (weight : Item → Nat) (items : List Item) : Nat :=
  (items.map weight).sum

/-- What a call carries between its queue and the end of its dispatch. -/
def carries (weight : LocalQueueRecord Body Options → Nat)
    (queue : LocalQueueName) : WorkerCall Body Options → Nat
  | .handle name record _ => if name = queue then weight record else 0
  | .deadLetter name record _ _ => if name = queue then weight record else 0
  | .requeue name record _ _ => if name = queue then weight record else 0
  | _ => 0

def Effect.isAcknowledged : Effect Body Options → Bool
  | .acknowledged => true
  | _ => false

def Effect.isDeadLettered : Effect Body Options → Bool
  | .deadLettered _ _ => true
  | _ => false

section Counts

variable [DecidableEq Body] (queue : LocalQueueName) (body : Body)

def hasBody (record : LocalQueueRecord Body Options) : Nat :=
  if record.body = body then 1 else 0

def sent : WorkerResult Body Options → Nat
  | .sent name message => if name = queue ∧ message = body then 1 else 0
  | _ => 0

/-- The effects of one kind in the dispatches of a body. -/
def ended (kind : Effect Body Options → Bool) :
    WorkerResult Body Options → Nat
  | .dispatched name record effects _ =>
    if name = queue ∧ record.body = body then effects.countP kind else 0
  | _ => 0

/-- Every record with a body was sent, and is held, carried or at its end. -/
def bodyAccount : Account (WorkerQueues Body Options)
    (WorkerCall Body Options) (WorkerResult Body Options) where
  shared queues := (queues queue).total (hasBody body)
  call call := carries (hasBody body) queue call
  result result := ended queue body Effect.isAcknowledged result +
    ended queue body Effect.isDeadLettered result - sent queue body result

end Counts

section Turns

variable (queue : LocalQueueName)

/-- The turns that are left to a record, at least one. -/
def turns (record : LocalQueueRecord Body Options) : Nat :=
  max 1 (queue.retryLimit + 1 - record.tries)

def sends : WorkerResult Body Options → Nat
  | .sent name _ => if name = queue then 1 else 0
  | _ => 0

def dispatches : WorkerResult Body Options → Nat
  | .dispatched name _ _ _ => if name = queue then 1 else 0
  | _ => 0

/-- A send pays for all turns of its record. -/
def turnAccount : Account (WorkerQueues Body Options)
    (WorkerCall Body Options) (WorkerResult Body Options) where
  shared queues := -(queues queue).total (turns queue)
  call call := -carries (turns queue) queue call
  result result :=
    queue.retryLimit * sends queue result - dispatches queue result

theorem retryLimit_pos : 1 ≤ queue.retryLimit := by
  cases queue <;> decide

theorem turns_kept (held : Queue Body Options) (message : Body)
    (options : Option Options) :
    turns queue (held.kept ⟨message, options, none⟩) = queue.retryLimit := by
  have positive := retryLimit_pos queue
  unfold Queue.kept
  split <;>
    simp only [turns, LocalQueueRecord.tries, Option.getD_some,
      Option.getD_none] <;> omega

end Turns

section Statements

variable {queues : WorkerQueues Body Options} {queue : LocalQueueName}
  (weight : LocalQueueRecord Body Options → Nat)

theorem total_update (queue name : LocalQueueName) (left : Queue Body Options)
    (difference : Nat)
    (added : left.total weight = (queues name).total weight + difference) :
    ((Function.update queues name left) queue).total weight =
      (queues queue).total weight + if name = queue then difference else 0 := by
  rw [Function.update_apply]
  by_cases same : queue = name
  · subst same
    rw [if_pos rfl, if_pos rfl, added]
  · rw [if_neg same, if_neg (Ne.symm same), Nat.add_zero]

theorem total_iterate (names : List LocalQueueName) (pick : Nat)
    (outcome : HandlerOutcome) :
    (queues queue).total weight =
        ((statement (.iterate names pick outcome) queues).1 queue).total
          weight ∧
      (statement (.iterate names pick outcome) queues).2 = .done .idle ∨
    ∃ rest, (statement (.iterate names pick outcome) queues).2 = .next rest ∧
      (queues queue).total weight =
        ((statement (.iterate names pick outcome) queues).1 queue).total
          weight + carries weight queue rest := by
  cases names with
  | nil => exact .inl ⟨rfl, rfl⟩
  | cons name rest =>
      obtain ⟨left, received, taken⟩ : ∃ left received,
          (queues name).receive pick = (left, received) := ⟨_, _, rfl⟩
      have total := Queue.total_receive weight taken
      simp only [statement, taken]
      right
      rw [Function.update_apply]
      by_cases same : queue = name
      · subst same
        rw [if_pos rfl, total]
        cases received with
        | none => exact ⟨_, rfl, rfl⟩
        | some record =>
            refine ⟨_, rfl, ?_⟩
            simp only [carries, if_true, Option.map_some, Option.getD_some]
      · rw [if_neg same]
        cases received with
        | none => exact ⟨_, rfl, rfl⟩
        | some record =>
            refine ⟨_, rfl, ?_⟩
            simp only [carries, if_neg (Ne.symm same), Nat.add_zero]

end Statements

section Bodies

variable [DecidableEq Body] {queue : LocalQueueName} {body : Body}
  {queues : WorkerQueues Body Options}

theorem hasBody_kept (held : Queue Body Options)
    (record : LocalQueueRecord Body Options) :
    hasBody body (held.kept record) = hasBody body record := by
  unfold Queue.kept
  split <;> rfl

theorem counted_iff (name : LocalQueueName)
    (record : LocalQueueRecord Body Options) :
    (if name = queue then hasBody body record else 0) =
      if name = queue ∧ record.body = body then 1 else 0 := by
  unfold hasBody
  split_ifs <;> simp_all

theorem ended_single (kind : Effect Body Options → Bool)
    (name : LocalQueueName) (record : LocalQueueRecord Body Options)
    (effect : Effect Body Options) (threw : Bool) :
    ended queue body kind (.dispatched name record [effect] threw) =
      if name = queue ∧ record.body = body then
        if kind effect then 1 else 0
      else 0 := by
  simp only [ended, List.countP_cons, List.countP_nil, Nat.zero_add]

theorem body_statement {call : WorkerCall Body Options}
    (fit : CallFits queues call) {others : List (WorkerCall Body Options)}
    (settling : Settling queues (.run call) others) :
    (bodyAccount queue body).shared queues +
        (bodyAccount queue body).call call =
      (bodyAccount queue body).shared (statement call queues).1 +
        (bodyAccount queue body).outcome (statement call queues).2 := by
  cases call with
  | iterate names pick outcome =>
      rcases total_iterate (hasBody body) names pick outcome with
        ⟨same, answer⟩ | ⟨rest, answer, same⟩
      · rw [answer]
        simp only [bodyAccount, Account.outcome, carries, ended, sent]
        rw [← same]
        norm_num
      · rw [answer]
        change ((queues queue).total (hasBody body) : ℤ) + 0 = _ +
          (carries (hasBody body) queue rest : ℤ)
        rw [same, Nat.cast_add, add_zero]
        rfl
  | handle name record outcome =>
      simp only [statement]
      rcases dispatch_cases settling.2 with ⟨threw, same⟩ | ⟨same, _⟩ |
        ⟨same, _⟩
      · rw [same]
        simp only [bodyAccount, Account.outcome, carries, counted_iff,
          ended_single, Effect.isAcknowledged, Effect.isDeadLettered, sent]
        split <;> norm_num
      · rw [same]
        rfl
      · rw [same]
        rfl
  | deadLetter name record next outcome =>
      simp only [statement, HandlerOutcome.effects, fit.1, Bool.false_eq_true,
        if_false, List.nil_append]
      simp only [bodyAccount, Account.outcome, carries, counted_iff,
        ended_single, Effect.isAcknowledged, Effect.isDeadLettered, sent]
      split <;> norm_num
  | requeue name record next outcome =>
      obtain ⟨unacked, same, _⟩ := fit
      have pushed := total_update (hasBody body) queue name
        ((queues name).sendBatch [next]) _ (Queue.total_sendBatch _ next)
      simp only [statement, HandlerOutcome.effects, unacked,
        Bool.false_eq_true, if_false, List.nil_append]
      simp only [bodyAccount, Account.outcome]
      rw [pushed, hasBody_kept, same]
      simp only [carries, counted_iff, ended_single, Effect.isAcknowledged,
        Effect.isDeadLettered, sent, retriedRecord]
      push_cast
      simp
  | send name message options =>
      have pushed := total_update (hasBody body) queue name
        ((queues name).send message options) _ (Queue.total_push _ _)
      simp only [statement, bodyAccount, Account.outcome]
      rw [pushed, hasBody_kept]
      simp only [carries, counted_iff, ended, sent]
      push_cast
      ring_nf
  | expose name pick =>
      have same := total_update (hasBody body) queue name
        ((queues name).expose pick) 0 (Queue.total_expose _ pick Eq
          (fun _ => rfl) (by intro left right number equal; simp [equal])
          (fun _ _ => rfl))
      simp only [statement, bodyAccount, Account.outcome]
      rw [same]
      simp [carries, ended, sent]
  | poison name =>
      have same := total_update (hasBody body) queue name (queues name).poison 0
        (Queue.total_poison _)
      simp only [statement, bodyAccount, Account.outcome]
      rw [same]
      simp [carries, ended, sent]

end Bodies

section TurnSteps

variable {queue : LocalQueueName} {queues : WorkerQueues Body Options}

theorem turns_pos (queue : LocalQueueName)
    (record : LocalQueueRecord Body Options) : 1 ≤ turns queue record :=
  le_max_left _ _

theorem turns_retried {record : LocalQueueRecord Body Options}
    (left : nextAttempts record ≤ queue.retryLimit) :
    turns queue (retriedRecord record) + 1 = turns queue record := by
  have tries := tries_retried record
  unfold turns
  rw [tries]
  unfold nextAttempts at left
  omega

theorem turns_received (body : Body) (received : Nat) :
    turns queue (⟨body, none, some (received + 1)⟩ :
        LocalQueueRecord Body Options) ≤
      turns queue (⟨body, none, some received⟩ :
        LocalQueueRecord Body Options) := by
  simp only [turns, LocalQueueRecord.tries, Option.getD_some]
  omega

theorem turn_statement {call : WorkerCall Body Options}
    (fit : CallFits queues call) {others : List (WorkerCall Body Options)}
    (settling : Settling queues (.run call) others) :
    (turnAccount queue).shared queues + (turnAccount queue).call call ≤
      (turnAccount queue).shared (statement call queues).1 +
        (turnAccount queue).outcome (statement call queues).2 := by
  cases call with
  | iterate names pick outcome =>
      rcases total_iterate (turns queue) names pick outcome with
        ⟨same, answer⟩ | ⟨rest, answer, same⟩
      · rw [answer]
        simp only [turnAccount, Account.outcome, carries, sends, dispatches]
        rw [← same]
        norm_num
      · rw [answer]
        change -((queues queue).total (turns queue) : ℤ) + 0 ≤ _ +
          -(carries (turns queue) queue rest : ℤ)
        rw [same, Nat.cast_add, neg_add, add_zero]
        exact le_rfl
  | handle name record outcome =>
      simp only [statement]
      rcases dispatch_cases settling.2 with ⟨threw, same⟩ | ⟨same, _⟩ |
        ⟨same, _⟩
      · rw [same]
        have positive := turns_pos queue record
        simp only [turnAccount, Account.outcome, carries, sends, dispatches]
        split <;> omega
      · rw [same]
        exact le_rfl
      · rw [same]
        exact le_rfl
  | deadLetter name record next outcome =>
      have positive := turns_pos queue record
      simp only [statement, turnAccount, Account.outcome, carries, sends,
        dispatches]
      split <;> omega
  | requeue name record next outcome =>
      obtain ⟨_, same, left, stores⟩ := fit
      have pushed := total_update (turns queue) queue name
        ((queues name).sendBatch [next]) _ (Queue.total_sendBatch _ next)
      have kept : (queues name).kept next = next := by
        rw [Queue.kept, stores]
        rfl
      simp only [statement, turnAccount, Account.outcome]
      rw [pushed, kept, same]
      by_cases here : name = queue
      · subst here
        have fewer := turns_retried left
        simp only [carries, sends, dispatches, if_true]
        omega
      · simp only [carries, sends, dispatches, if_neg here]
        omega
  | send name message options =>
      have pushed := total_update (turns queue) queue name
        ((queues name).send message options) _ (Queue.total_push _ _)
      simp only [statement, turnAccount, Account.outcome]
      rw [pushed, turns_kept]
      simp only [carries, sends, dispatches]
      split <;> omega
  | expose name pick =>
      have lighter : ((queues name).expose pick).total (turns queue) ≤
          (queues name).total (turns queue) :=
        Queue.total_expose _ pick (· ≤ ·) Nat.le_refl
          (fun left right number less => ⟨Nat.add_le_add_right less number,
            Nat.add_le_add_left less number⟩)
          turns_received
      simp only [statement, turnAccount, Account.outcome, carries, sends,
        dispatches, Function.update_apply]
      split
      · rename_i here
        subst here
        omega
      · omega
  | poison name =>
      have same := total_update (turns queue) queue name (queues name).poison 0
        (Queue.total_poison _)
      simp only [statement, turnAccount, Account.outcome]
      rw [same]
      simp [carries, sends, dispatches]

end TurnSteps

section Runs

variable {initial : WorkerQueues Body Options}
  {reached : Config (WorkerQueues Body Options) (WorkerCall Body Options)
    (WorkerResult Body Options)}

theorem count_cast {Item : Type} (weight : Item → Nat) (items : List Item) :
    (count weight items : ℤ) = (items.map fun item => (weight item : ℤ)).sum := by
  induction items with
  | nil => rfl
  | cons item rest ih =>
      rw [List.map_cons, List.sum_cons, ← ih, count, List.map_cons,
        List.sum_cons, Nat.cast_add]
      rfl

theorem count_cons {Item : Type} (weight : Item → Nat) (item : Item)
    (rest : List Item) :
    count weight (item :: rest) = weight item + count weight rest := by
  rw [count, List.map_cons, List.sum_cons]
  rfl

theorem sum_bodies [DecidableEq Body] (queue : LocalQueueName) (body : Body)
    (results : List (WorkerResult Body Options)) :
    (results.map (bodyAccount queue body).result).sum =
      count (ended queue body Effect.isAcknowledged) results +
        count (ended queue body Effect.isDeadLettered) results -
          (count (sent queue body) results : ℤ) := by
  induction results with
  | nil => rfl
  | cons result rest ih =>
      rw [List.map_cons, List.sum_cons, ih, count_cons, count_cons, count_cons]
      simp only [bodyAccount]
      push_cast
      ring

theorem sum_turns (queue : LocalQueueName)
    (results : List (WorkerResult Body Options)) :
    (results.map (turnAccount queue).result).sum =
      queue.retryLimit * count (sends queue) results -
        (count (dispatches queue) results : ℤ) := by
  induction results with
  | nil => simp [count]
  | cons result rest ih =>
      rw [List.map_cons, List.sum_cons, ih, count_cons, count_cons]
      simp only [turnAccount]
      push_cast
      ring

/-- Every record that was sent is held by its queue, carried by a dispatch, or
at its end. -/
theorem bodies_of_run [DecidableEq Body] (queue : LocalQueueName) (body : Body)
    (empty : (initial queue).records = [])
    (run : Run workerLoop Settling ⟨initial, [], []⟩ reached) :
    count (sent queue body) reached.results =
      (reached.shared queue).total (hasBody body) +
        count (carries (hasBody body) queue) reached.calls +
        count (ended queue body Effect.isAcknowledged) reached.results +
        count (ended queue body Effect.isDeadLettered) reached.results := by
  have balance : (bodyAccount queue body).balance ⟨initial, [], []⟩ =
      (bodyAccount queue body).balance reached := by
    apply Account.balance_eq_of_run run
    · intro call starts
      cases call <;> first | rfl | exact starts.elim
    · intro before call others earlier member permitted
      exact body_statement ((fits_of_run earlier).2.1 call member) permitted
    · intro before call others _ _ permitted
      exact absurd rfl (permitted.1 call)
  have start : (bodyAccount queue body).balance ⟨initial, [], []⟩ = 0 := by
    simp [Account.balance, bodyAccount, Queue.total, empty]
  rw [start] at balance
  simp only [Account.balance] at balance
  rw [sum_bodies] at balance
  have calls := count_cast (carries (hasBody body) queue) reached.calls
  simp only [bodyAccount] at balance
  rw [← calls] at balance
  omega

theorem turns_of_run (queue : LocalQueueName)
    (empty : (initial queue).records = [])
    (run : Run workerLoop Settling ⟨initial, [], []⟩ reached) :
    count (dispatches queue) reached.results ≤
      queue.retryLimit * count (sends queue) reached.results := by
  have balance : (turnAccount queue).balance ⟨initial, [], []⟩ ≤
      (turnAccount queue).balance reached := by
    apply Account.balance_le_of_run run
    · intro call starts
      cases call <;> first | exact le_rfl | exact starts.elim
    · intro before call others earlier member permitted
      exact turn_statement ((fits_of_run earlier).2.1 call member) permitted
    · intro before call others _ _ permitted
      exact absurd rfl (permitted.1 call)
  have start : (turnAccount queue).balance
      (⟨initial, [], []⟩ : Config (WorkerQueues Body Options)
        (WorkerCall Body Options) (WorkerResult Body Options)) = 0 := by
    simp [Account.balance, turnAccount, Queue.total, empty]
  have calls := count_cast (carries (turns queue) queue) reached.calls
  have negated := Account.sum_map_neg
    (fun call => (carries (turns queue) queue call : ℤ)) reached.calls
  rw [start] at balance
  simp only [Account.balance] at balance
  rw [sum_turns] at balance
  simp only [turnAccount] at balance
  rw [negated, ← calls] at balance
  have result : (count (dispatches queue) reached.results : ℤ) ≤
      queue.retryLimit * count (sends queue) reached.results := by
    omega
  exact_mod_cast result

end Runs

namespace OneJob

abbrev Queues := WorkerQueues Unit Unit

abbrev Reached := Config Queues (WorkerCall Unit Unit) (WorkerResult Unit Unit)

def retrying : HandlerOutcome := ⟨false, true, false, false⟩

def throwing : HandlerOutcome := ⟨false, false, true, false⟩

def files : Queues := fun _ => .file []

/-- A run queue of the service that holds some messages, over files. -/
def service (messages : List (SqsMessage Unit)) : Queues :=
  Function.update files .run (.sqs messages)

def job : LocalQueueRecord Unit Unit := ⟨(), none, none⟩

def received : LocalQueueRecord Unit Unit := ⟨(), none, some 1⟩

theorem uninterrupted_start (queues : Queues) (call : WorkerCall Unit Unit)
    (others : List (WorkerCall Unit Unit)) :
    Uninterrupted queues (.start call) others :=
  fun other => by simp

theorem uninterrupted_run (queues : Queues) (call : WorkerCall Unit Unit)
    (others : List (WorkerCall Unit Unit)) :
    Uninterrupted queues (.run call) others :=
  fun other => by simp

theorem uninterrupted_turn (config : Reached) (position : Nat) :
    config.Allows workerLoop Uninterrupted (.run position) := by
  rw [Config.Allows]
  split
  · exact trivial
  · exact uninterrupted_run _ _ _

/-- A retry on the service: the queue is as before, with one attempt. -/
theorem retry_forgets {results : List (WorkerResult Unit Unit)}
    (run : Run workerLoop Uninterrupted ⟨service [], [], []⟩
      ⟨service [⟨some (), 0⟩], [], results⟩) :
    Run workerLoop Uninterrupted ⟨service [], [], []⟩
      ⟨service [⟨some (), 0⟩], [],
        .dispatched .run received [.requeued received] false :: results⟩ := by
  have requeued := run.play [.start (.iterate [.run] 0 retrying), .run 0, .run 0,
    .run 0] (by
      repeat' first
        | exact trivial
        | exact uninterrupted_start _ _ _
        | exact uninterrupted_turn _ _
        | apply And.intro)
  have same : Function.update (Function.update (service [⟨some (), 0⟩]) .run
      (.sqs [])) .run (.sqs [⟨some (), 0⟩]) = service [⟨some (), 0⟩] := by
    funext queue
    cases queue <;> rfl
  exact same ▸ requeued

/-- A record of the service that is always retried goes round for ever. -/
theorem retries_circulate (turns : Nat) :
    Run workerLoop Uninterrupted ⟨service [], [], []⟩
      ⟨service [⟨some (), 0⟩], [], List.replicate turns
        (.dispatched .run received [.requeued received] false) ++
          [.sent .run ()]⟩ := by
  induction turns with
  | zero =>
      have nothing : Run workerLoop Uninterrupted ⟨service [], [], []⟩
          ⟨service [], [], []⟩ := .here
      have sent := nothing.play [.start (.send .run () none), .run 0]
        ⟨⟨trivial, uninterrupted_start _ _ _⟩, uninterrupted_turn _ _, trivial⟩
      have same : Function.update (service []) .run (.sqs [⟨some (), 0⟩]) =
          service [⟨some (), 0⟩] := by
        funext queue
        cases queue <;> rfl
      exact same ▸ sent
  | succ turns ih => exact retry_forgets ih

/-- A handler that throws loses the record of a file. -/
theorem throw_loses :
    ∃ queues : Queues, Run workerLoop Uninterrupted ⟨files, [], []⟩
      ⟨queues, [], [.dispatched .run job [] true, .sent .run ()]⟩ ∧
        (queues .run).records = [] := by
  have nothing : Run workerLoop Uninterrupted ⟨files, [], []⟩
      ⟨files, [], []⟩ := .here
  have thrown := nothing.play [.start (.send .run () none), .run 0,
    .start (.iterate [.run] 0 throwing), .run 0, .run 0] (by
      repeat' first
        | exact trivial
        | exact uninterrupted_start _ _ _
        | exact uninterrupted_turn _ _
        | apply And.intro)
  exact ⟨_, thrown, rfl⟩

end OneJob

end Takos.LocalPlatform
