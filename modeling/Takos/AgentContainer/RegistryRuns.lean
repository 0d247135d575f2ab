import Takos.AgentContainer.RunRegistry

/-!
# Runs of the registry

The registry never holds more runs than allowed, one task for each.  As long as
start requests come in the order of their leases, no lease is started again
while a task that it started before is still running, and shutdown does not
begin inside an admission, a newer lease is never replaced by an older one, a
task releases only its own registration and nothing is registered after the
shutdown.
-/

namespace Takos.AgentContainer

open Takos.Foundation

/-- Both versions are known and the first is smaller. -/
def OlderLease (version other : Option UInt32) : Prop :=
  ∃ number against, version = some number ∧ other = some against ∧
    number < against

/-- What the steps of a run may find: an admission finds no newer lease of its
run registered, and every task that still runs under its own lease is the
registered one; the shutdown finds no request past its second check. -/
def InOrder (state : ServiceState) :
    Program.Event AgentCall → List AgentCall → Prop
  | .run (.admitting payload), others =>
    (∀ existing, state.activeRuns.get? payload.runId = some existing →
      ¬OlderLease payload.leaseVersion existing.identity.leaseVersion) ∧
    ∀ task, .running task ∈ others → task.runId = payload.runId →
      task.identity = .fromPayload payload →
      state.activeRuns.get? payload.runId =
        some ⟨task.identity, task.cancellationToken⟩
  | .run .beginShutdown, others => ∀ payload, .admitting payload ∉ others
  | _, _ => True

/-- What a step must not do to the registry. -/
structure StepSound (before : ServiceState) (event : Program.Event AgentCall)
    (after : ServiceState) : Prop where
  /-- An older lease neither cancels nor replaces a newer one. -/
  newer_kept : ∀ payload existing, event = .run (.admitting payload) →
    before.activeRuns.get? payload.runId = some existing →
    OlderLease payload.leaseVersion existing.identity.leaseVersion →
    after.activeRuns.get? payload.runId = some existing ∧
      (existing.cancellationToken ∈ after.cancelled →
        existing.cancellationToken ∈ before.cancelled)
  /-- Nothing is registered after the shutdown. -/
  closed : before.shuttingDown = true → ∀ runId active,
    after.activeRuns.get? runId = some active →
      before.activeRuns.get? runId = some active
  /-- A task releases at most its own registration. -/
  own_released : ∀ task, event = .run (.running task) → ∀ runId active,
    before.activeRuns.get? runId = some active →
    active.cancellationToken ≠ task.cancellationToken →
    after.activeRuns.get? runId = some active

/-- A request past its second check came before the shutdown; a registration of
a task's lease is that of the task. -/
def CallSound (state : ServiceState) : AgentCall → Prop
  | .admitting _ => state.shuttingDown = false
  | .running task => ∀ active,
    state.activeRuns.get? task.runId = some active →
      active.identity = task.identity →
      active.cancellationToken = task.cancellationToken
  | _ => True

def WithinCapacity (max : Nat) (state : ServiceState) : Prop :=
  state.maxConcurrentRuns = max ∧ state.activeRunCount ≤ max

def assertions (max : Nat) :
    Program.Assertions ServiceState AgentCall AgentResult where
  shared := WithinCapacity max
  call := CallSound
  result _ _ := True

variable {call : AgentCall} {payload : StartPayload} {max : Nat}
  {others : List AgentCall}

theorem CallSound.of_same {before after : ServiceState}
    (sound : CallSound before call)
    (runs : after.activeRuns = before.activeRuns)
    (shutdown : after.shuttingDown = before.shuttingDown) :
    CallSound after call := by
  cases call with
  | admitting payload =>
      change after.shuttingDown = false
      rw [shutdown]
      exact sound
  | running task =>
      intro active found
      rw [runs] at found
      exact sound active found
  | arriving | locking | beginShutdown => exact trivial

theorem count_set (map : OrderedMap Text ActiveRun) (runId : Text)
    (active : ActiveRun) :
    (map.set runId active).entries.length =
      if runId ∈ map.keys then map.entries.length else map.entries.length + 1 := by
  have size : ∀ map : OrderedMap Text ActiveRun,
      map.entries.length = map.keys.length := fun _ => (List.length_map _).symm
  rw [size, size, map.keys_set]
  split
  · rfl
  · rw [List.length_append]
    rfl

variable {state : ServiceState}

theorem registered_capacity (within : WithinCapacity max state)
    (cancelled : List Nat)
    (room : (∃ existing,
        state.activeRuns.get? payload.runId = some existing) ∨
      state.activeRunCount < state.maxConcurrentRuns) :
    WithinCapacity max (registered state payload cancelled) := by
  obtain ⟨bound, count⟩ := within
  refine ⟨bound, ?_⟩
  change (state.activeRuns.set payload.runId _).entries.length ≤ max
  rw [count_set]
  cases room with
  | inl found =>
      obtain ⟨existing, found⟩ := found
      have member : payload.runId ∈ state.activeRuns.keys :=
        OrderedMap.mem_keys_iff.mpr
          ⟨existing, OrderedMap.get?_eq_some_iff.mp found⟩
      rw [if_pos member]
      exact count
  | inr free =>
      have below : state.activeRuns.entries.length < max := by
        rw [← bound]
        exact free
      split <;> omega

/-- A task that runs under another lease or for another run is not touched by a
registration. -/
theorem registered_call (cancelled : List Nat) (sound : CallSound state call)
    (apart : ∀ task, call = .running task → task.runId = payload.runId →
      task.identity ≠ .fromPayload payload) :
    CallSound (registered state payload cancelled) call := by
  cases call with
  | admitting payload => exact sound
  | running task =>
      intro active found same
      change (state.activeRuns.set payload.runId _).get? task.runId =
        some active at found
      by_cases own : task.runId = payload.runId
      · rw [own, OrderedMap.get?_set_self] at found
        obtain rfl := Option.some.inj found
        exact absurd same.symm (apart task rfl own)
      · rw [OrderedMap.get?_set_of_ne _ own] at found
        exact sound active found same
  | arriving | locking | beginShutdown => exact trivial

theorem startedTask_sound (state : ServiceState) (payload : StartPayload)
    (cancelled : List Nat) :
    CallSound (registered state payload cancelled)
      (.running (startedTask state payload)) := by
  intro active found _
  change (state.activeRuns.set payload.runId _).get? payload.runId =
    some active at found
  rw [OrderedMap.get?_set_self] at found
  obtain rfl := Option.some.inj found
  rfl

theorem deleted_call (runId : Text) (sound : CallSound state call) :
    CallSound { state with activeRuns := state.activeRuns.delete runId } call := by
  cases call with
  | admitting payload => exact sound
  | running task =>
      intro active found same
      change (state.activeRuns.delete runId).get? task.runId = some active at found
      rw [OrderedMap.get?_delete] at found
      split at found
      · cases found
      · exact sound active found same
  | arriving | locking | beginShutdown => exact trivial

theorem deleted_capacity (within : WithinCapacity max state) (runId : Text) :
    WithinCapacity max
      { state with activeRuns := state.activeRuns.delete runId } := by
  obtain ⟨bound, count⟩ := within
  exact ⟨bound, (List.length_filter_le _ _).trans count⟩

/-- No task of the lease that is admitted is still running, unless it is the
registered one. -/
theorem apart_of_inOrder
    (order : InOrder state (.run (.admitting payload)) others)
    (replaced : ∀ existing,
      state.activeRuns.get? payload.runId = some existing →
        existing.identity ≠ .fromPayload payload) (member : call ∈ others) :
    ∀ task, call = .running task → task.runId = payload.runId →
      task.identity ≠ .fromPayload payload := by
  rintro task rfl own same
  have found := order.2 task member own same
  exact replaced _ found same

theorem statement_kept (within : WithinCapacity max state)
    (sound : CallSound state call) (order : InOrder state (.run call) others) :
    (assertions max).KeptAmong agent (fun _ _ => True) state call others := by
  have quiet : ∀ {after outcome}, statement call state = (after, outcome) →
      WithinCapacity max after → (assertions max).HoldAfter after outcome →
      (∀ other ∈ others, CallSound state other → CallSound after other) →
      (assertions max).KeptAmong agent (fun _ _ => True) state call others := by
    intro after outcome executed capacity following disturbed
    have stepped : agent.statement call state = (after, outcome) := executed
    constructor
    · rw [stepped]
      exact capacity
    · rw [stepped]
      exact following
    · intro other member held _
      rw [stepped]
      exact disturbed other member held
    · intros
      trivial
    · intros
      trivial
  have same : ∀ (lock : Bool) other, CallSound state other →
      CallSound { state with locked := lock } other :=
    fun _ _ held => held.of_same rfl rfl
  cases call with
  | arriving payload =>
      by_cases shutdown : state.shuttingDown = true
      · exact quiet (if_pos shutdown) within trivial fun _ _ held => held
      · exact quiet (if_neg shutdown) within trivial fun _ _ held => held
  | locking payload =>
      by_cases locked : state.locked = true
      · exact quiet (if_pos locked) within trivial fun _ _ held => held
      by_cases shutdown : state.shuttingDown = true
      · exact quiet ((if_neg locked).trans (if_pos shutdown)) within trivial
          fun _ _ held => held
      · have before : state.shuttingDown = false := by simpa using shutdown
        exact quiet ((if_neg locked).trans (if_neg shutdown)) within before
          fun other _ held => same true other held
  | admitting payload =>
      rcases admitting_cases state payload with
        ⟨refused, executed⟩ | ⟨existing, found, different, executed⟩ |
          ⟨absent, room, executed⟩
      · exact quiet executed within trivial fun other _ held =>
          same false other held
      · have replaced : ∀ other,
            state.activeRuns.get? payload.runId = some other →
              other.identity ≠ .fromPayload payload := by
          intro other registered
          rw [found] at registered
          obtain rfl := Option.some.inj registered
          exact different
        apply quiet executed
        · exact registered_capacity within _ (.inl ⟨existing, found⟩)
        · exact startedTask_sound state payload _
        · intro other member held
          exact registered_call _ held (apart_of_inOrder order replaced member)
      · have replaced : ∀ other,
            state.activeRuns.get? payload.runId = some other →
              other.identity ≠ .fromPayload payload := by
          intro other registered
          rw [absent] at registered
          cases registered
        apply quiet executed
        · exact registered_capacity within _ (.inr room)
        · exact startedTask_sound state payload _
        · intro other member held
          exact registered_call _ held (apart_of_inOrder order replaced member)
  | running task =>
      rcases running_cases state task with
        waiting | ⟨active, found, own, executed⟩ | executed
      · exact quiet waiting within sound fun _ _ held => held
      · apply quiet executed
        · exact deleted_capacity within task.runId
        · trivial
        · intro other _ held
          exact deleted_call task.runId held
      · exact quiet executed within trivial fun _ _ held => held
  | beginShutdown =>
      apply quiet rfl within trivial
      intro other member held
      cases other with
      | admitting payload => exact absurd member (order payload)
      | running task => exact held
      | arriving payload => exact trivial
      | locking payload => exact trivial
      | beginShutdown => exact trivial

theorem sound_of_run {reached : AgentConfig}
    (run : Program.Run agent InOrder (initial max) reached) :
    (assertions max).Hold reached := by
  have empty : (assertions max).Hold (initial max) := by
    refine ⟨⟨rfl, Nat.zero_le max⟩, ?_, ?_⟩
    · intro call member
      cases member
    · intro result member
      cases member
  apply (Program.Assertions.hold_of_run_apart (assertions max)
    (fun _ _ _ => trivial) run empty List.Pairwise.nil _ _ _).1
  · intro shared call starts
    cases starts with
    | request | shutdown => exact trivial
  · intros
    trivial
  · intro shared call others within sound order
    exact statement_kept within sound order

theorem step_sound {before after : AgentConfig}
    {event : Program.Event AgentCall} (holds : (assertions max).Hold before)
    (order : InOrder before.shared event others)
    (step : agent.Step before event others after) :
    StepSound before.shared event after.shared := by
  obtain ⟨_, calls, _⟩ := holds
  constructor
  · rintro payload existing rfl found older
    exact absurd older (order.1 existing found)
  · intro shutdown runId active found
    rcases step.shared_cases with ⟨call, member, rfl, executed⟩ | ⟨_, same⟩
    · have sound : CallSound before.shared call := calls call member
      rw [executed] at found
      change (statement call before.shared).1.activeRuns.get? runId =
        some active at found
      cases call with
      | admitting payload =>
          have early : before.shared.shuttingDown = false := sound
          rw [early] at shutdown
          cases shutdown
      | running task =>
          rcases running_cases before.shared task with
            waiting | ⟨own, registered, same, released⟩ | finished
          · rwa [waiting] at found
          · rw [released] at found
            change (before.shared.activeRuns.delete task.runId).get? runId =
              some active at found
            rw [OrderedMap.get?_delete] at found
            split at found
            · cases found
            · exact found
          · rwa [finished] at found
      | arriving payload =>
          simp only [statement] at found
          rwa [if_pos shutdown] at found
      | locking payload =>
          by_cases locked : before.shared.locked = true
          · simp only [statement, if_pos locked] at found
            exact found
          · simp only [statement, if_neg locked, if_pos shutdown] at found
            exact found
      | beginShutdown => exact found
    · rwa [same] at found
  · rintro task rfl runId active found different
    rcases step.shared_cases with ⟨call, member, same, executed⟩ | ⟨other, _⟩
    · obtain rfl : AgentCall.running task = call := by
        injection same
      have sound : CallSound before.shared (.running task) := calls _ member
      rw [executed]
      change (statement (.running task) before.shared).1.activeRuns.get? runId =
        some active
      rcases running_cases before.shared task with
        waiting | ⟨own, registered, lease, released⟩ | finished
      · rwa [waiting]
      · rw [released]
        change (before.shared.activeRuns.delete task.runId).get? runId =
          some active
        rw [OrderedMap.get?_delete, if_neg]
        · exact found
        · rintro rfl
          rw [registered] at found
          obtain rfl := Option.some.inj found
          exact different (sound own registered lease)
      · rwa [finished]
    · exact absurd rfl (other (.running task))

/-- In a run whose steps come in order the registry stays within its capacity,
with one registration for a run, and every further step respects the leases, the
tasks and the shutdown. -/
theorem registry_in_order {max : Nat} {reached : AgentConfig}
    (run : Program.Run agent InOrder (initial max) reached) :
    reached.shared.activeRunCount ≤ max ∧
      reached.shared.activeRuns.keys.Nodup ∧
      ∀ event others after, InOrder reached.shared event others →
        agent.Step reached event others after →
        StepSound reached.shared event after.shared := by
  have holds := sound_of_run run
  refine ⟨holds.1.2, reached.shared.activeRuns.nodup, ?_⟩
  intro event others after order step
  exact step_sound holds order step

def leasePayload (version : UInt32) : StartPayload where
  runId := ['r']
  workerId := ['w']
  serviceId := none
  leaseVersion := some version

/-- The first lease registered, then replaced by the second. -/
def firstLease : ServiceState :=
  registered (.new 5) (leasePayload 1) []

def secondLease : ServiceState :=
  registered firstLease (leasePayload 2) [0]

def firstTask : RunTask := startedTask (.new 5) (leasePayload 1)

def secondTask : RunTask := startedTask firstLease (leasePayload 2)

theorem registry_in_order_replaced :
    secondLease.activeRunCount ≤ 5 := by
  have nothing : Program.Run agent InOrder (initial 5) (initial 5) := .here
  have free : InOrder { ServiceState.new 5 with locked := true }
      (.run (.admitting (leasePayload 1))) [] :=
    ⟨fun _ => nofun, fun _ => nofun⟩
  have newer : InOrder { firstLease with locked := true }
      (.run (.admitting (leasePayload 2))) [.running firstTask] := by
    refine ⟨?_, ?_⟩
    · intro existing found older
      obtain rfl := Option.some.inj found
      obtain ⟨number, against, version, other, less⟩ := older
      obtain rfl := Option.some.inj version
      obtain rfl := Option.some.inj other
      exact absurd less (by decide)
    · intro task member own same
      obtain rfl : task = firstTask := by simpa using member
      exact absurd same (by decide)
  have replaced : Program.Run agent InOrder (initial 5)
      ⟨secondLease, [.running secondTask, .running firstTask], []⟩ :=
    nothing.play [.start (.arriving (leasePayload 1)), .run 0, .run 0, .run 0,
      .start (.arriving (leasePayload 2)), .run 0, .run 0, .run 0] (by
        repeat' first
          | exact trivial
          | exact .request _
          | exact free
          | exact newer
          | apply And.intro)
  exact (registry_in_order replaced).1

/-- The first lease again, in the place of the second. -/
def staleLease : ServiceState :=
  registered secondLease (leasePayload 1) [1, 0]

def staleTask : RunTask := startedTask secondLease (leasePayload 1)

def anyStep : ServiceState → Program.Event AgentCall → List AgentCall → Prop :=
  fun _ _ _ => True

/-- The second lease has been started; a late request of the first is past its
second check. -/
def staleAdmission : AgentConfig where
  shared := { secondLease with locked := true }
  calls := [.admitting (leasePayload 1), .running secondTask, .running firstTask]
  results := []

theorem staleAdmission_reached :
    Program.Run agent anyStep (initial 5) staleAdmission := by
  have nothing : Program.Run agent anyStep (initial 5) (initial 5) := .here
  exact nothing.play [.start (.arriving (leasePayload 1)), .run 0, .run 0,
    .run 0, .start (.arriving (leasePayload 2)), .run 0, .run 0, .run 0,
    .start (.arriving (leasePayload 1)), .run 0, .run 0] (by
      repeat' first
        | exact trivial
        | exact .request _
        | apply And.intro)

/-- The late request has been admitted while the first task still runs. -/
def staleRegistered : AgentConfig where
  shared := staleLease
  calls := [.running staleTask, .running secondTask, .running firstTask]
  results := []

/-- Shutdown began while a request was past its second check. -/
def lateAdmission : AgentConfig where
  shared := { ServiceState.new 5 with locked := true, shuttingDown := true }
  calls := [.admitting (leasePayload 1)]
  results := [.shutdownBegun]

/-- The older lease cancels and replaces the newer one; the first task releases
the registration of the last; a run is registered after the shutdown. -/
theorem registry_out_of_order :
    (Program.Run agent anyStep (initial 5) staleAdmission ∧
      agent.Step staleAdmission (.run (.admitting (leasePayload 1)))
        [.running secondTask, .running firstTask] staleRegistered ∧
      ¬StepSound staleAdmission.shared (.run (.admitting (leasePayload 1)))
        staleRegistered.shared) ∧
    (∃ after, Program.Run agent anyStep (initial 5) staleRegistered ∧
      agent.Step staleRegistered (.run (.running firstTask))
        [.running staleTask, .running secondTask] after ∧
      ¬StepSound staleRegistered.shared (.run (.running firstTask))
        after.shared) ∧
    ∃ after, Program.Run agent anyStep (initial 5) lateAdmission ∧
      agent.Step lateAdmission (.run (.admitting (leasePayload 1))) [] after ∧
      ¬StepSound lateAdmission.shared (.run (.admitting (leasePayload 1)))
        after.shared := by
  have replaced : agent.Step staleAdmission
      (.run (.admitting (leasePayload 1)))
      [.running secondTask, .running firstTask] staleRegistered :=
    @Program.Step.next _ _ _ agent _ _ [] _ _ _ _ rfl
  refine ⟨⟨staleAdmission_reached, replaced, ?_⟩, ?_, ?_⟩
  · intro sound
    have older : OlderLease (some 1) (some 2) := ⟨1, 2, rfl, rfl, by decide⟩
    have kept := (sound.newer_kept (leasePayload 1)
      ⟨.fromPayload (leasePayload 2), 1⟩ rfl rfl older).1
    exact absurd kept (by decide)
  · refine ⟨⟨{ staleLease with activeRuns := staleLease.activeRuns.delete ['r'] },
      [.running staleTask, .running secondTask], [.finished firstTask]⟩,
      staleAdmission_reached.step trivial replaced,
      @Program.Step.done _ _ _ agent _ _
        [.running staleTask, .running secondTask] [] _ _ _ rfl, ?_⟩
    intro sound
    have kept := sound.own_released firstTask rfl ['r']
      ⟨.fromPayload (leasePayload 1), 2⟩ rfl (by decide)
    exact absurd kept (by decide)
  · have nothing : Program.Run agent anyStep (initial 5) (initial 5) := .here
    have begun : Program.Run agent anyStep (initial 5) lateAdmission :=
      nothing.play [.start (.arriving (leasePayload 1)), .run 0, .run 0,
        .start .beginShutdown, .run 0] (by
          repeat' first
            | exact trivial
            | exact .request _
            | exact .shutdown
            | apply And.intro)
    refine ⟨⟨{ firstLease with shuttingDown := true }, [.running firstTask],
      [.shutdownBegun]⟩, begun, @Program.Step.next _ _ _ agent _ _ [] _ _ _ _ rfl, ?_⟩
    intro sound
    have old := sound.closed rfl ['r'] ⟨.fromPayload (leasePayload 1), 0⟩ rfl
    exact absurd old (by decide)

end Takos.AgentContainer
