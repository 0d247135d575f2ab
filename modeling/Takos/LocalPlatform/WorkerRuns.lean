import Takos.Foundation.Accounts
import Takos.LocalPlatform.WorkerQueues
import Mathlib.Algebra.Order.BigOperators.Group.List

/-!
# Records of the worker loop

Where every handler settles its record, no record is lost or settled twice, and
each retry uses up one attempt.  A handler that throws loses its record, and an
SQS queue forgets the attempts.
-/

namespace Takos.LocalPlatform

open Takos.Foundation Takos.Foundation.Program

variable {Body Options : Type}

/-- The sum of a weight over what a queue holds. -/
def Queue.total (weight : LocalQueueRecord Body Options → Nat)
    (queue : Queue Body Options) : Nat :=
  (queue.records.map weight).sum

namespace Queue

variable {queue : Queue Body Options}
  (weight : LocalQueueRecord Body Options → Nat)

theorem total_push (record : LocalQueueRecord Body Options) :
    (queue.push record).total weight =
      queue.total weight + weight (queue.kept record) := by
  cases queue <;>
    simp [total, push, records, kept, isSqs, List.filterMap_append]

theorem total_sendBatch (record : LocalQueueRecord Body Options) :
    (queue.sendBatch [record]).total weight =
      queue.total weight + weight (queue.kept record) :=
  total_push weight record

theorem total_receive {pick : Nat} {left : Queue Body Options}
    {received : Option (LocalQueueRecord Body Options)}
    (taken : queue.receive pick = (left, received)) :
    queue.total weight = left.total weight + (received.map weight).getD 0 := by
  cases queue with
  | file messages =>
      cases messages with
      | nil => cases taken; rfl
      | cons record rest =>
          cases taken
          simp [total, records, Nat.add_comm]
  | redis messages =>
      cases messages with
      | nil => cases taken; rfl
      | cons record rest =>
          cases taken
          simp [total, records, Nat.add_comm]
  | sqs messages =>
      simp only [receive] at taken
      split at taken
      · cases taken
        rfl
      · rename_i message found
        cases taken
        obtain ⟨inside, same⟩ := List.getElem?_eq_some_iff.mp found
        have split : messages.Perm (message :: messages.eraseIdx pick) := by
          rw [← same]
          exact (List.getElem_cons_eraseIdx_perm inside).symm
        have kept := ((split.filterMap fun message : SqsMessage Body =>
          message.body.map fun body =>
            (⟨body, none, some (message.receiveCount + 1)⟩ :
              LocalQueueRecord Body Options)).map weight).sum_eq
        simp only [total, records]
        rw [kept]
        cases body : message.body with
        | none => simp [body]
        | some value => simp [body, Nat.add_comm]

theorem total_expose (pick : Nat) (compare : Nat → Nat → Prop)
    (same : ∀ number, compare number number)
    (added : ∀ left right number, compare left right →
      compare (left + number) (right + number) ∧
        compare (number + left) (number + right))
    (received : ∀ body count, compare (weight ⟨body, none, some (count + 1)⟩)
      (weight ⟨body, none, some count⟩)) :
    compare ((queue.expose pick).total weight) (queue.total weight) := by
  cases queue with
  | sqs messages =>
      simp only [expose, total, records]
      induction messages generalizing pick with
      | nil =>
          rw [List.modify_nil]
          exact same _
      | cons message rest ih =>
          cases pick with
          | zero =>
              rw [List.modify_zero_cons]
              cases body : message.body with
              | none =>
                  simp only [List.filterMap_cons, body, Option.map_none]
                  exact same _
              | some value =>
                  simp only [List.filterMap_cons, body, Option.map_some,
                    List.map_cons, List.sum_cons]
                  exact (added _ _ _ (received value _)).1
          | succ pick =>
              rw [List.modify_succ_cons]
              cases body : message.body with
              | none =>
                  simp only [List.filterMap_cons, body, Option.map_none]
                  exact ih pick
              | some value =>
                  simp only [List.filterMap_cons, body, Option.map_some,
                    List.map_cons, List.sum_cons]
                  exact (added _ _ _ (ih pick)).2
  | _ => exact same _

theorem total_poison : queue.poison.total weight = queue.total weight := by
  cases queue <;> simp [total, poison, records]

theorem isSqs_push (record : LocalQueueRecord Body Options) :
    (queue.push record).isSqs = queue.isSqs := by
  cases queue <;> rfl

theorem isSqs_receive {pick : Nat} {left : Queue Body Options}
    {received : Option (LocalQueueRecord Body Options)}
    (taken : queue.receive pick = (left, received)) :
    left.isSqs = queue.isSqs := by
  cases queue with
  | file messages => cases messages <;> cases taken <;> rfl
  | redis messages => cases messages <;> cases taken <;> rfl
  | sqs messages =>
      simp only [receive] at taken
      split at taken <;> cases taken <;> rfl

theorem isSqs_expose (pick : Nat) :
    (queue.expose pick).isSqs = queue.isSqs := by
  cases queue <;> rfl

theorem isSqs_poison : queue.poison.isSqs = queue.isSqs := by
  cases queue <;> rfl

end Queue

/-- The three ends of a dispatch. -/
inductive SettledOnce (queue : LocalQueueName)
    (record : LocalQueueRecord Body Options) :
    List (Effect Body Options) → Prop where
  | acknowledged : SettledOnce queue record [.acknowledged]
  | requeued {next : LocalQueueRecord Body Options} :
      next.body = record.body → next.tries = record.tries + 1 →
      next.tries ≤ queue.retryLimit →
      SettledOnce queue record [.requeued next]
  | deadLettered {next : LocalQueueRecord Body Options} :
      next.body = record.body → next.tries = record.tries + 1 →
      queue.retryLimit < next.tries →
      SettledOnce queue record [.deadLettered queue.deadLetterName next]

def retriedRecord (record : LocalQueueRecord Body Options) :
    LocalQueueRecord Body Options :=
  { record with attempts := some (nextAttempts record) }

theorem tries_retried (record : LocalQueueRecord Body Options) :
    (retriedRecord record).tries = record.tries + 1 := by
  simp only [retriedRecord, LocalQueueRecord.tries, Option.getD_some,
    nextAttempts]
  omega

/-- A record on its way out of a dispatch was not acknowledged. -/
def CallFits (queues : WorkerQueues Body Options) :
    WorkerCall Body Options → Prop
  | .deadLetter queue record next outcome => outcome.acked = false ∧
    next = retriedRecord record ∧ queue.retryLimit < nextAttempts record
  | .requeue queue record next outcome => outcome.acked = false ∧
    next = retriedRecord record ∧ nextAttempts record ≤ queue.retryLimit ∧
      (queues queue).isSqs = false
  | _ => True

def ResultFits : WorkerResult Body Options → Prop
  | .dispatched queue record effects _ => SettledOnce queue record effects
  | _ => True

variable (Body Options) in
def fits : Assertions (WorkerQueues Body Options) (WorkerCall Body Options)
    (WorkerResult Body Options) where
  shared _ := True
  call := CallFits
  result _ := ResultFits

theorem isSqs_statement (call : WorkerCall Body Options)
    (queues : WorkerQueues Body Options) (queue : LocalQueueName) :
    ((statement call queues).1 queue).isSqs = (queues queue).isSqs := by
  have updated : ∀ (name : LocalQueueName) (left : Queue Body Options),
      left.isSqs = (queues name).isSqs →
        (Function.update queues name left queue).isSqs =
          (queues queue).isSqs := by
    intro name left same
    rw [Function.update_apply]
    split
    · rename_i equal
      rw [same, equal]
    · rfl
  cases call with
  | iterate names pick outcome =>
      cases names with
      | nil => rfl
      | cons name rest => exact updated name _ (Queue.isSqs_receive rfl)
  | requeue name record next outcome =>
      exact updated name _ (Queue.isSqs_push next)
  | send name message options => exact updated name _ (Queue.isSqs_push _)
  | expose name pick => exact updated name _ (Queue.isSqs_expose pick)
  | poison name => exact updated name _ Queue.isSqs_poison
  | _ => rfl

theorem callFits_later {queues after : WorkerQueues Body Options}
    (same : ∀ queue, (after queue).isSqs = (queues queue).isSqs)
    {call : WorkerCall Body Options} (fit : CallFits queues call) :
    CallFits after call := by
  cases call with
  | requeue queue record next outcome =>
      exact ⟨fit.1, fit.2.1, fit.2.2.1, (same queue).trans fit.2.2.2⟩
  | deadLetter queue record next outcome => exact fit
  | _ => trivial

theorem dispatch_cases {queue : LocalQueueName}
    {record : LocalQueueRecord Body Options} {outcome : HandlerOutcome}
    {held : Queue Body Options} (settles : Settles queue held record outcome) :
    (∃ threw, dispatchRecord queue record outcome =
      .done (.dispatched queue record [.acknowledged] threw)) ∨
    (dispatchRecord queue record outcome =
        .next (.deadLetter queue record (retriedRecord record) outcome) ∧
      outcome.acked = false ∧ queue.retryLimit < nextAttempts record) ∨
    (dispatchRecord queue record outcome =
        .next (.requeue queue record (retriedRecord record) outcome) ∧
      outcome.acked = false ∧ nextAttempts record ≤ queue.retryLimit ∧
        held.isSqs = false) := by
  unfold Settles at settles
  unfold dispatchRecord HandlerOutcome.effects
  split at settles
  · rename_i acked
    rw [if_pos acked]
    rcases settles with threw | quiet
    · rw [if_pos threw]
      exact .inl ⟨true, rfl⟩
    · split
      · exact .inl ⟨true, rfl⟩
      · rw [quiet]
        exact .inl ⟨false, rfl⟩
  · rename_i waiting
    obtain ⟨quiet, retried, kept⟩ := settles
    have unacked : outcome.acked = false := by simpa using waiting
    simp only [quiet, retried, Bool.not_true, Bool.false_eq_true, if_false]
    split
    · rename_i exhausted
      exact .inr (.inl ⟨rfl, unacked, exhausted⟩)
    · rename_i left
      refine .inr (.inr ⟨rfl, unacked, Nat.le_of_not_lt left, ?_⟩)
      by_contra isSqs
      exact left (kept (by simpa using isSqs))

theorem dispatch_fits {queue : LocalQueueName}
    {record : LocalQueueRecord Body Options} {outcome : HandlerOutcome}
    {queues : WorkerQueues Body Options}
    (settles : Settles queue (queues queue) record outcome) :
    (fits Body Options).HoldAfter queues
      (dispatchRecord queue record outcome) := by
  rcases dispatch_cases settles with ⟨threw, same⟩ |
    ⟨same, unacked, exhausted⟩ | ⟨same, unacked, left, stores⟩
  · rw [same]
    exact SettledOnce.acknowledged
  · rw [same]
    exact ⟨unacked, rfl, exhausted⟩
  · rw [same]
    exact ⟨unacked, rfl, left, stores⟩

theorem fits_statement {queues : WorkerQueues Body Options}
    {call : WorkerCall Body Options} (fit : CallFits queues call)
    {others : List (WorkerCall Body Options)}
    (settling : Settling queues (.run call) others) :
    (fits Body Options).HoldAfter (statement call queues).1
      (statement call queues).2 := by
  cases call with
  | iterate names pick outcome =>
      cases names with
      | nil => trivial
      | cons name rest =>
          simp only [statement]
          split <;> trivial
  | handle queue record outcome => exact dispatch_fits settling.2
  | deadLetter queue record next outcome =>
      obtain ⟨unacked, same, exhausted⟩ := fit
      subst same
      simp only [statement, HandlerOutcome.effects, unacked,
        Bool.false_eq_true, if_false, List.nil_append]
      exact .deadLettered rfl (tries_retried record)
        ((tries_retried record).symm ▸ exhausted)
  | requeue queue record next outcome =>
      obtain ⟨unacked, same, left, stores⟩ := fit
      subst same
      simp only [statement, HandlerOutcome.effects, unacked,
        Bool.false_eq_true, if_false, List.nil_append, Queue.kept, stores]
      exact .requeued rfl (tries_retried record)
        ((tries_retried record).symm ▸ left)
  | _ => trivial

theorem fits_of_run {initial : WorkerQueues Body Options}
    {reached : Config (WorkerQueues Body Options) (WorkerCall Body Options)
      (WorkerResult Body Options)}
    (run : Run workerLoop Settling ⟨initial, [], []⟩ reached) :
    (fits Body Options).Hold reached := by
  apply (fits Body Options).hold_of_run run
  · exact ⟨trivial, by simp, by simp⟩
  · intro queues call starts
    cases call <;> trivial
  · intro queues call others _ fit settling
    exact ⟨trivial, fits_statement fit settling,
      fun other => callFits_later (isSqs_statement call queues),
      fun result held => held⟩

end Takos.LocalPlatform
