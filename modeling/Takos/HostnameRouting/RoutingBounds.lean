import Takos.HostnameRouting.RoutingStaleness

/-!
# The bound on stale answers

Each statement keeps the invariant, so every answer of every run is recent
enough.  The bound counts from the clock reading with which a resolution
starts: its read of the store may take any time.
-/

namespace Takos.HostnameRouting

open Takos.Foundation Takos.Foundation.Program Takos.DurableObjects

section Steps

variable {texts : TextFunctions} {lifetime : ℚ} {system : RoutingSystem}

variable (texts lifetime system) in
structure StepSound (executed : RoutingSystem × RoutingOutcome) : Prop where
  clock : system.clock.ms ≤ executed.1.clock.ms
  history : executed.1.history = system.history
  sound : SystemSound texts lifetime executed.1
  outcome : (assertions texts lifetime).HoldAfter executed.1.observed executed.2

theorem StepSound.answering {after : RoutingSystem}
    (sound : SystemSound texts lifetime after)
    (clock : after.clock = system.clock)
    (history : after.history = system.history) (isolate : Nat)
    {hostname : Text} {now : ClockReading} {value : ResolvedRouting}
    (seen : Seen texts system.history hostname value.target
      (now.ms - storeAge lifetime)) :
    StepSound texts lifetime system
      (after.remember isolate hostname value now,
        .done (.resolved hostname now system.clock value)) := by
  rw [← history] at seen
  have remembered : SystemSound texts lifetime
      (after.remember isolate hostname value now) :=
    sound.remember isolate seen
  refine ⟨Nat.le_of_eq (congrArg ClockReading.ms clock.symm), history,
    remembered, ?_⟩
  have answered := AnswerSound.of_seen remembered seen
  rw [← clock]
  exact answered

theorem step_resolve (sound : SystemSound texts lifetime system)
    (isolate : Nat) (raw : Text) :
    StepSound texts lifetime system (runResolve texts isolate raw system) := by
  unfold runResolve getL1
  dsimp only
  cases found : (system.isolates isolate).get?
      (normalizeHostname texts raw) with
  | none =>
      dsimp only
      refine ⟨le_rfl, rfl, ?_, Nat.le_refl system.clock.ms⟩
      exact sound.setIsolate isolate (sound.isolates isolate)
  | some cached =>
      by_cases expired : cached.expiresAt ≤ system.clock.ms
      · simp only [if_pos expired]
        exact ⟨le_rfl, rfl, sound.forget isolate _,
          Nat.le_refl system.clock.ms⟩
      · simp only [if_neg expired]
        refine ⟨le_rfl, rfl, sound.setIsolate isolate (sound.isolates isolate),
          ?_⟩
        obtain ⟨moment, member, time, shown⟩ :=
          sound.isolates isolate _ cached found
        have recent : (system.clock.ms : ℚ) - (l1Ttl + storeAge lifetime) ≤
            moment.time := by
          linarith
        exact ⟨moment, List.mem_cons_of_mem _ member,
          Nat.cast_le.mpr (sound.past moment member), recent,
          fun _ => recent, shown⟩

variable {hostname : Text} {now : ClockReading}

theorem step_useKv (sound : SystemSound texts lifetime system) (isolate : Nat)
    {kvRaw : Option KvText} (started : now.ms ≤ system.clock.ms)
    (value : ValueSound texts lifetime system.history hostname
      (parseRoutingValue texts kvRaw)) :
    StepSound texts lifetime system
      (runUseKv texts isolate hostname now kvRaw system) := by
  unfold runUseKv
  dsimp only
  split
  · rename_i isTombstone
    apply StepSound.answering sound rfl rfl
    cases ends : (parseRoutingValue texts kvRaw).tombstoneUntil with
    | none =>
        rw [isKvTombstone, ends] at isTombstone
        cases isTombstone
    | some tombstoneUntil =>
        rw [isKvTombstone, ends] at isTombstone
        have late := of_decide_eq_true isTombstone
        apply (value.gone tombstoneUntil ends).weaken _ (List.Subset.refl _)
        linarith
  · split
    · rename_i isFresh
      apply StepSound.answering sound rfl rfl
      unfold shouldUseKvValue at isFresh
      split at isFresh
      · rename_i target updatedAt isTarget stamped
        obtain ⟨stamp, same, seen⟩ := value.fresh target isTarget
        rw [stamped] at same
        cases same
        rw [isTarget]
        apply seen.weaken _ (List.Subset.refl _)
        have young : (now.ms : ℚ) - updatedAt ≤ l2MaxAge := by
          simpa using (Bool.and_eq_true_iff.mp isFresh).2
        have age : l2MaxAge ≤ storeAge lifetime := le_max_left _ _
        linarith
      · cases isFresh
    · exact ⟨le_rfl, rfl, sound, started⟩

theorem routeAt_setObject (hostname : Text) (storage : RoutingStorage ℚ) :
    routeAt texts (system.setObject (getHostnameShardId texts hostname)
      storage).objects hostname =
        storedTarget texts.toLowerCase storage hostname := by
  simp only [routeAt, RoutingSystem.setObject, Function.update_self]

theorem step_getRecord (sound : SystemSound texts lifetime system)
    (isolate : Nat) (kv : ParsedRoutingValue)
    (started : now.ms ≤ system.clock.ms) (reachable : system.reachable = true) :
    StepSound texts lifetime system
      (runGetRecord texts isolate hostname now kv system) := by
  unfold runGetRecord
  rw [if_pos reachable]
  obtain ⟨fewer, answer⟩ := get_cases texts.toLowerCase
    (system.objects (getHostnameShardId texts hostname)) hostname system.clock
  have routes := fewer.sound
    (sound.routes (getHostnameShardId texts hostname))
  have set := sound.setObject (getHostnameShardId texts hostname) routes
  refine ⟨le_rfl, rfl, set, started, _, List.mem_cons_self, started, ?_, ?_⟩
  · rw [routeAt_setObject, storedTarget]
    rcases answer with ⟨response, none⟩ | ⟨host, record, response, loaded⟩
    · rw [none, response]
      rfl
    · rw [loaded, response]
      rfl
  · intro record given
    rcases answer with ⟨response, none⟩ | ⟨host, stored, response, loaded⟩
    · rw [response] at given
      cases given
    · rw [response] at given
      cases given
      obtain ⟨name, _, found⟩ := Option.bind_eq_some_iff.mp loaded
      exact routes name stored found

theorem ValueSound.tombstone {history : List Moment} {hostname : Text}
    {tombstoneUntil : ℚ} (updatedAt : ℚ) (version : Option ℚ)
    (seen : Seen texts history hostname none
      (tombstoneUntil - storeAge lifetime)) :
    ValueSound texts lifetime history hostname (parseRoutingValue texts
      (some (buildKVPayload none updatedAt version (some tombstoneUntil)))) := by
  obtain ⟨_, _, read⟩ :=
    parse_tombstone texts updatedAt version (some tombstoneUntil)
  rw [read]
  constructor
  · intro target cached
    cases cached
  · intro parsed ends
    have same : parsed = tombstoneUntil := by
      dsimp only [positiveNumber] at ends
      exact (Option.some.inj (Option.filter_eq_some_iff.mp ends).1).symm
    rw [same]
    exact seen

theorem ValueSound.target {history : List Moment} {target : RoutingTarget}
    (valid : isRoutingTarget target.json = true) (version : Option ℚ)
    (tombstoneUntil : Option ℚ)
    (seen : Seen texts history hostname (some target.json) now.ms) :
    ValueSound texts lifetime history hostname (parseRoutingValue texts
      (some (buildKVPayload (some target.json) now.ms version
        tombstoneUntil))) := by
  obtain ⟨returned, _, same, read⟩ := parse_target texts valid
    (Nat.cast_pos.mpr now.positive) version tombstoneUntil
  rw [read]
  constructor
  · intro cached found
    cases found
    refine ⟨now.ms, rfl, ?_⟩
    obtain ⟨moment, member, time, shown⟩ := seen
    refine ⟨moment, member, time, ?_⟩
    generalize routeAt texts moment.objects hostname = route at shown ⊢
    cases shown with
    | some stored =>
        apply Option.Rel.some
        intro key noStamp noVersion
        rw [same key noStamp noVersion, stored key noStamp noVersion]
  · intro parsed ends
    cases ends

theorem step_useRecord (sound : SystemSound texts lifetime system)
    (isolate : Nat) (kv : ParsedRoutingValue) {answer : Option RoutingRecord}
    (answered : Answered texts lifetime system.history hostname now answer)
    (reachable : system.reachable = true) :
    StepSound texts lifetime system
      (runUseRecord isolate hostname now kv answer system) := by
  unfold runUseRecord
  rw [if_pos reachable]
  obtain ⟨moment, member, time, route, records⟩ := answered
  have late : (now.ms : ℚ) ≤ moment.time := Nat.cast_le.mpr time
  have age := storeAge_nonneg lifetime
  cases answer with
  | none =>
      apply StepSound.answering sound rfl rfl
      refine ⟨moment, member, by linarith, ?_⟩
      rw [route]
      exact .none
  | some record =>
      have shape := records record rfl
      obtain ⟨stored, name⟩ := record
      dsimp only at shape
      cases shape with
      | @tombstone version updatedAt tombstoneUntil ends =>
          have absent : (if isRecordTombstone
              ⟨⟨none, version, updatedAt, some tombstoneUntil⟩, name⟩ now
              then none else (none : Option (Json ℚ))) = none := ite_self _
          dsimp only
          rw [absent]
          have gone : ∀ earliest : ℚ, earliest ≤ moment.time →
              Seen texts system.history hostname none earliest := by
            intro earliest order
            refine ⟨moment, member, order, ?_⟩
            rw [route]
            exact .none
          have written := sound.startWrite (.tombstone now.ms (some version)
            (gone (tombstoneUntil - storeAge lifetime) (by linarith)))
          exact @StepSound.answering texts lifetime system _ written rfl rfl
            isolate _ _ _ (gone _ (by linarith))
      | @route target version updatedAt valid =>
          have seen : Seen texts system.history hostname (some target.json)
              now.ms := by
            refine ⟨moment, member, late, ?_⟩
            rw [route]
            exact .some (SameTarget.refl _)
          have written := sound.startWrite
            (.target valid (some version) none seen)
          exact @StepSound.answering texts lifetime system _ written rfl rfl
            isolate _ _ _ (seen.weaken (by linarith) (List.Subset.refl _))

theorem step_putRecord (sound : SystemSound texts lifetime system)
    (target : RoutingTarget) (started : now.ms ≤ system.clock.ms) :
    StepSound texts lifetime system
      (runPutRecord texts hostname target now system) := by
  unfold runPutRecord
  dsimp only
  split
  · rcases put_cases texts.toLowerCase
      (system.objects (getHostnameShardId texts hostname)) hostname target
      now.ms system.clock with ⟨message, refused⟩ |
      ⟨host, record, named, valid, response, isTarget, lives, loads⟩
    · rw [refused]
      exact ⟨le_rfl, rfl, sound.setObject _ (sound.routes _), trivial⟩
    · have routes : RoutesSound (system.clock.ms + storeAge lifetime)
          ((system.objects (getHostnameShardId texts hostname)).handlePut
            texts.toLowerCase (.text hostname) target.json (some now.ms)
            system.clock system.clock).1 := by
        intro other found loaded
        rw [loads] at loaded
        split at loaded
        · cases loaded
          obtain ⟨_, _, _, _⟩ := record
          cases isTarget
          cases lives
          exact .route valid
        · exact sound.routes _ other found loaded
      refine ⟨le_rfl, rfl, sound.setObject _ routes, ?_⟩
      simp only [response, recordOf]
      refine ⟨valid, _, List.mem_cons_self, Nat.cast_le.mpr started, ?_⟩
      rw [routeAt_setObject, storedTarget, named, Option.bind_some, loads,
        if_pos rfl, Option.bind_some, isTarget]
      exact .some (SameTarget.refl _)
  · exact ⟨le_rfl, rfl, sound, trivial⟩

theorem step_deleteRecord (sound : SystemSound texts lifetime system)
    {tombstoneTtlMs : ℚ} (within : tombstoneTtlMs ≤ lifetime)
    (started : now.ms ≤ system.clock.ms) :
    StepSound texts lifetime system
      (runDeleteRecord texts hostname tombstoneTtlMs now system) := by
  unfold runDeleteRecord
  dsimp only
  split
  · rcases delete_cases texts.toLowerCase
      (system.objects (getHostnameShardId texts hostname)) hostname
      (some tombstoneTtlMs) (some now.ms) system.clock with
      ⟨message, refused⟩ | ⟨host, record, named, response, absent, ends, loads⟩
    · rw [refused]
      exact ⟨le_rfl, rfl, sound.setObject _ (sound.routes _), trivial⟩
    · have routes : RoutesSound (system.clock.ms + storeAge lifetime)
          ((system.objects (getHostnameShardId texts hostname)).handleDelete
            texts.toLowerCase (.text hostname) (some tombstoneTtlMs)
            (some now.ms) system.clock system.clock).1 := by
        intro other found loaded
        rw [loads] at loaded
        split at loaded
        · cases loaded
          obtain ⟨_, _, _, _⟩ := record
          cases absent
          cases ends
          exact .tombstone (add_le_add_right (tombstoneTtl_le within) _)
        · exact sound.routes _ other found loaded
      refine ⟨le_rfl, rfl, sound.setObject _ routes, ?_⟩
      simp only [response, recordOf]
      refine ⟨within, _, List.mem_cons_self, Nat.cast_le.mpr started, ?_⟩
      rw [routeAt_setObject, storedTarget, named, Option.bind_some, loads,
        if_pos rfl, Option.bind_some, absent]
      exact .none
  · exact ⟨le_rfl, rfl, sound, trivial⟩

theorem fewer_request (storage : RoutingStorage ℚ) (request : ObjectRequest)
    (now : ClockReading) :
    FewerRoutes (storage.step texts.toLowerCase (request.event now))
      storage := by
  cases request with
  | schedule hostname delayMs =>
      apply FewerRoutes.of_eq
      simp only [ObjectRequest.event, RoutingStorage.step,
        RoutingStorage.handleRolloutSchedule]
      split
      · split <;> rfl
      · rfl
  | cancel | pending => exact .of_eq rfl
  | alarm =>
      simp only [ObjectRequest.event, RoutingStorage.step]
      split
      · exact fewer_alarm storage now now now
      · exact .of_eq rfl

theorem step_land (sound : SystemSound texts lifetime system) (index : Nat) :
    StepSound texts lifetime system
      (runLand index system, .done .noted) := by
  unfold runLand
  split
  · rename_i hostname payload found
    have value := sound.writes _ (List.mem_of_getElem? found)
    refine ⟨le_rfl, rfl, ⟨sound.ordered, sound.past, sound.routes, ?_, ?_,
      sound.isolates⟩, trivial⟩
    · intro other text stored
      rw [OrderedMap.get?_set] at stored
      split at stored
      · rename_i same
        cases stored
        subst same
        exact value
      · exact sound.kv other text stored
    · intro write member
      exact sound.writes write (List.mem_of_mem_eraseIdx member)
  · exact ⟨le_rfl, rfl, sound, trivial⟩

theorem step_elapse (sound : SystemSound texts lifetime system)
    (later : ClockReading) :
    StepSound texts lifetime system
      (runElapse later system, .done .noted) := by
  unfold runElapse
  split
  · rename_i order
    refine ⟨order, rfl, ⟨sound.ordered, ?_, ?_, sound.kv, sound.writes,
      sound.isolates⟩, trivial⟩
    · intro moment member
      exact Nat.le_trans (sound.past moment member) order
    · intro shard
      apply (sound.routes shard).later
      exact add_le_add_left (Nat.cast_le.mpr order) _
  · exact ⟨le_rfl, rfl, sound, trivial⟩

theorem step_execute (sound : SystemSound texts lifetime system)
    {call : RoutingCall} (callSound : CallSound texts lifetime system call)
    {others : List RoutingCall}
    (answers : ObjectAnswers system (.run call) others) :
    StepSound texts lifetime system (execute texts call system) := by
  cases call with
  | resolve isolate hostname => exact step_resolve sound isolate hostname
  | readKv isolate hostname now =>
      refine ⟨le_rfl, rfl, sound, callSound, ?_⟩
      cases stored : system.kv.get? hostname with
      | none =>
          constructor
          · intro target cached
            cases cached
          · intro tombstoneUntil ends
            cases ends
      | some payload =>
          exact (sound.kv hostname payload stored).later
            (List.subset_cons_self _ _)
  | useKv isolate hostname now kvRaw =>
      exact step_useKv sound isolate callSound.1 callSound.2
  | getRecord isolate hostname now kv =>
      exact step_getRecord sound isolate kv callSound answers
  | useRecord isolate hostname now kv record =>
      exact step_useRecord sound isolate kv callSound.2 answers
  | upsert isolate hostname target =>
      exact ⟨le_rfl, rfl, sound.forget isolate _, Nat.le_refl system.clock.ms⟩
  | putRecord hostname target now =>
      exact step_putRecord sound target callSound
  | cacheTarget hostname target now =>
      simp only [execute, runCacheTarget]
      split
      · exact ⟨le_rfl, rfl,
          sound.startWrite (.target callSound.1 _ _ callSound.2), trivial⟩
      · exact ⟨le_rfl, rfl, sound, trivial⟩
  | delete isolate hostname tombstoneTtlMs =>
      exact ⟨le_rfl, rfl, sound.forget isolate _, callSound,
        Nat.le_refl system.clock.ms⟩
  | deleteRecord hostname tombstoneTtlMs now =>
      exact step_deleteRecord sound callSound.1 callSound.2
  | cacheTombstone hostname tombstoneTtlMs now =>
      simp only [execute, runCacheTombstone]
      split
      · refine ⟨le_rfl, rfl, sound.startWrite ?_, trivial⟩
        apply ValueSound.tombstone
        apply callSound.2.weaken _ (List.Subset.refl _)
        have within : tombstoneTtlMs ≤ storeAge lifetime :=
          callSound.1.trans (le_max_right _ _)
        linarith
      · exact ⟨le_rfl, rfl, sound, trivial⟩
  | land index => exact step_land sound index
  | lose index =>
      refine ⟨le_rfl, rfl, ⟨sound.ordered, sound.past, sound.routes, sound.kv,
        ?_, sound.isolates⟩, trivial⟩
      intro write member
      exact sound.writes write (List.mem_of_mem_eraseIdx member)
  | expire hostname =>
      refine ⟨le_rfl, rfl, ⟨sound.ordered, sound.past, sound.routes, ?_,
        sound.writes, sound.isolates⟩, trivial⟩
      intro other text stored
      simp only [execute, OrderedMap.get?_delete] at stored
      split at stored
      · cases stored
      · exact sound.kv other text stored
  | object shard request =>
      refine ⟨le_rfl, rfl, sound.setObject shard ?_, trivial⟩
      exact (fewer_request _ request _).sound (sound.routes shard)
  | connect reachable =>
      exact ⟨le_rfl, rfl, ⟨sound.ordered, sound.past, sound.routes, sound.kv,
        sound.writes, sound.isolates⟩, trivial⟩
  | elapse later => exact step_elapse sound later

end Steps

section Runs

variable {texts : TextFunctions} {lifetime : ℚ}

theorem sound_initial (clock : ClockReading) :
    SystemSound texts lifetime (.initial clock) where
  ordered := List.pairwise_singleton _ _
  past moment member := by
    rw [List.mem_singleton.mp member]
    exact Nat.le_refl clock.ms
  routes _ _ _ found := by cases found
  kv _ _ stored := by cases stored
  writes _ member := by cases member
  isolates _ _ _ cached := by cases cached

theorem kept_statement {system : RoutingSystem} {call : RoutingCall}
    {others : List RoutingCall} (sound : SystemSound texts lifetime system)
    (callSound : CallSound texts lifetime system call)
    (answers : ObjectAnswers system (.run call) others) :
    (assertions texts lifetime).Kept (program texts lifetime) system call := by
  obtain ⟨clock, history, executed, outcome⟩ :=
    step_execute sound callSound answers
  have inside : system.history ⊆ (statement texts call system).1.history := by
    intro moment member
    exact List.mem_cons_of_mem _ (history ▸ member)
  exact ⟨executed.observed, outcome,
    fun other before => CallSound.later before ⟨clock, inside⟩,
    fun result before => ResultSound.later before inside⟩

theorem sound_of_run {clock : ClockReading}
    {reached : Config RoutingSystem RoutingCall RoutingResult}
    (run : Run (program texts lifetime) ObjectAnswers
      ⟨.initial clock, [], []⟩ reached) :
    (assertions texts lifetime).Hold reached := by
  apply (assertions texts lifetime).hold_of_run run
  · exact ⟨sound_initial clock, by simp, by simp⟩
  · intro system call starts
    cases call with
    | delete _ _ tombstoneTtlMs => exact starts
    | resolve | upsert | land | lose | expire | object | connect | elapse =>
        trivial
    | _ => exact starts.elim
  · intro system call others sound callSound answers
    exact kept_statement sound callSound answers

end Runs

/-- Counted from the start of a resolution, or from its end where it takes no
longer than the memory of an isolate lasts, no answer is older than that memory
and a value of the store together. -/
theorem resolved_in_force (texts : TextFunctions) (lifetime : ℚ)
    (clock : ClockReading)
    (reached : Config RoutingSystem RoutingCall RoutingResult)
    (run : Run (program texts lifetime) ObjectAnswers
      ⟨.initial clock, [], []⟩ reached)
    (hostname : Text) (started returned : ClockReading)
    (routing : ResolvedRouting)
    (answered : .resolved hostname started returned routing ∈
      reached.results) :
    ∃ time : ℚ, time ≤ returned.ms ∧
      (started.ms : ℚ) - (l1Ttl + max l2MaxAge lifetime) ≤ time ∧
      ((returned.ms : ℚ) - started.ms ≤ l1Ttl →
        (returned.ms : ℚ) - (l1Ttl + max l2MaxAge lifetime) ≤ time) ∧
      InForce (fun objects => Option.Rel SameTarget
        (routeAt texts objects hostname) routing.target) time
          reached.shared.history := by
  obtain ⟨sound, _, results⟩ := sound_of_run run
  obtain ⟨moment, member, past, fromStart, fromEnd, shown⟩ :=
    results _ answered
  exact ⟨moment.time, past, fromStart, fromEnd,
    inForce_of_mem sound.ordered member shown⟩

namespace SlowRead

def texts : TextFunctions := ⟨id, fun _ => none, fun _ => none⟩

def first : ClockReading := ⟨1, by decide, by decide⟩

def later : ClockReading := ⟨1000000, by decide, by decide⟩

def before : RoutingTarget := toSingleDeploymentTarget ['o']

def replacement : RoutingTarget := .httpEndpointSet [.null]

abbrev At (system : RoutingSystem) (calls : List RoutingCall)
    (results : List RoutingResult) : Prop :=
  Run (program texts 120000) ObjectAnswers ⟨.initial first, [], []⟩
    ⟨system, calls, results⟩

def next (call : RoutingCall) (system : RoutingSystem) : RoutingSystem :=
  (statement texts call system).1

def upserted : RoutingSystem :=
  next (.land 0) (next (.cacheTarget ['a'] before first)
    (next (.putRecord ['a'] before first)
      (next (.upsert 0 ['a'] before) (.initial first))))

theorem upserted_run : At upserted [] [.noted, .written] := by
  have nothing : At (.initial first) [] [] := .here
  exact nothing.play [.start (.upsert 0 ['a'] before), .run 0, .run 0, .run 0,
    .start (.land 0), .run 0] (by
      repeat' first
        | exact trivial
        | apply And.intro)

/-- The store has the target when a resolution reads it. -/
def replaced : RoutingSystem :=
  next (.elapse later) (next (.putRecord ['a'] replacement first)
    (next (.upsert 0 ['a'] replacement) (next (.readKv 1 ['a'] first)
      (next (.resolve 1 ['a']) upserted))))

abbrev payload : KvText := buildKVPayload (some before.json) 1 none none

theorem replaced_run : At replaced
    [.cacheTarget ['a'] replacement first,
      .useKv 1 ['a'] first (some payload)] [.noted, .noted, .written] := by
  exact upserted_run.play [.start (.resolve 1 ['a']), .run 0, .run 0,
    .start (.upsert 0 ['a'] replacement), .run 0, .run 0,
    .start (.elapse later), .run 0] (by
      repeat' first
        | exact trivial
        | apply And.intro)

theorem before_valid : isRoutingTarget before.json = true := by decide

theorem useKv_payload (isolate : Nat) (system : RoutingSystem) :
    ∃ (returned : Json ℚ) (routing : ResolvedRouting) (after : RoutingSystem),
      SameTarget before.json returned ∧ routing.target = some returned ∧
      after.history = ⟨system.clock.ms, system.objects⟩ :: system.history ∧
      statement texts (.useKv isolate ['a'] first (some payload)) system =
        (after, .done (.resolved ['a'] first system.clock routing)) := by
  obtain ⟨returned, version, same, read⟩ := parse_target texts before_valid
    (show (0 : ℚ) < 1 by norm_num) none none
  have fresh : shouldUseKvValue
      ⟨some returned, version, some 1, none, .json⟩ first = true := by
    simp only [shouldUseKvValue, first, l2MaxAge]
    norm_num
  let routing : ResolvedRouting := ⟨some returned, false, .kv,
    some ⟨some returned, version, some 1, none, .json⟩, none⟩
  have executed : runUseKv texts isolate ['a'] first (some payload) system =
      (system.remember isolate ['a'] routing first,
        .done (.resolved ['a'] first system.clock routing)) := by
    unfold runUseKv
    simp only [read, isKvTombstone, Option.any_none, Bool.false_eq_true,
      if_false, fresh, if_true, routing]
  refine ⟨returned, routing,
    (system.remember isolate ['a'] routing first).observed, same, rfl, rfl, ?_⟩
  rw [statement, execute, executed]

/-- Nothing happens while the store is read. -/
theorem quick_read_in_force :
    ∃ (reached : Config RoutingSystem RoutingCall RoutingResult)
      (routing : ResolvedRouting), routing.target ≠ none ∧
      ∃ time : ℚ, time ≤ first.ms ∧
        (first.ms : ℚ) - (l1Ttl + max l2MaxAge 120000) ≤ time ∧
        ((first.ms : ℚ) - first.ms ≤ l1Ttl →
          (first.ms : ℚ) - (l1Ttl + max l2MaxAge 120000) ≤ time) ∧
        InForce (fun objects => Option.Rel SameTarget
          (routeAt texts objects ['a']) routing.target) time
            reached.shared.history := by
  have read : At (next (.readKv 1 ['a'] first)
      (next (.resolve 1 ['a']) upserted))
      [.useKv 1 ['a'] first (some payload)] [.noted, .written] :=
    upserted_run.play [.start (.resolve 1 ['a']), .run 0, .run 0] (by
      repeat' first
        | exact trivial
        | apply And.intro)
  obtain ⟨returned, routing, after, _, target, _, executed⟩ :=
    useKv_payload 1 (next (.readKv 1 ['a'] first)
      (next (.resolve 1 ['a']) upserted))
  have answered : At after []
      [.resolved ['a'] first first routing, .noted, .written] :=
    read.finishing [] [] executed trivial
  refine ⟨_, routing, ?_, resolved_in_force texts 120000 first _ answered ['a']
    first first routing List.mem_cons_self⟩
  rw [target]
  exact Option.some_ne_none returned

theorem replaced_in_force {returned : Json ℚ}
    (same : SameTarget before.json returned) {time : ℚ} (late : 1 < time)
    (history : List Moment)
    (recent : history = ⟨1000000, replaced.objects⟩ :: replaced.history) :
    ¬ InForce (fun objects => Option.Rel SameTarget
      (routeAt texts objects ['a']) (some returned)) time history := by
  have other : ¬ Option.Rel SameTarget
      (routeAt texts replaced.objects ['a']) (some returned) := by
    intro shown
    have route : routeAt texts replaced.objects ['a'] =
        some replacement.json := by
      with_unfolding_all rfl
    rw [route] at shown
    cases shown with
    | some stored =>
        have left := same "type".toList (by decide) (by decide)
        have right := stored "type".toList (by decide) (by decide)
        rw [left] at right
        exact absurd (congrArg (fun value => value.bind Json.text) right)
          (by decide)
  subst recent
  rintro (⟨_, shown⟩ | ⟨_, ⟨_, shown⟩ | ⟨_, ⟨_, shown⟩ | ⟨early, _⟩⟩⟩)
  · exact other shown
  · exact other shown
  · exact other shown
  · have first : time ≤ 1 := by exact_mod_cast early
    linarith

/-- Counted from the end of a resolution, an answer may be of any age. -/
theorem slow_read_stale : ¬ ∀ (texts : TextFunctions) (lifetime : ℚ)
    (clock : ClockReading)
    (reached : Config RoutingSystem RoutingCall RoutingResult),
    Run (program texts lifetime) ObjectAnswers ⟨.initial clock, [], []⟩
      reached →
    ∀ hostname started returned routing,
      .resolved hostname started returned routing ∈ reached.results →
      ∃ time : ℚ, time ≤ returned.ms ∧
        (returned.ms : ℚ) - (l1Ttl + max l2MaxAge lifetime) ≤ time ∧
        InForce (fun objects => Option.Rel SameTarget
          (routeAt texts objects hostname) routing.target) time
            reached.shared.history := by
  intro bounded
  obtain ⟨returned, routing, after, same, target, history, executed⟩ :=
    useKv_payload 1 replaced
  have answered : At after [.cacheTarget ['a'] replacement first]
      [.resolved ['a'] first later routing, .noted, .noted, .written] :=
    replaced_run.finishing [RoutingCall.cacheTarget ['a'] replacement first] []
      executed trivial
  obtain ⟨time, _, recent, shown⟩ := bounded texts 120000 first _ answered
    ['a'] first later routing List.mem_cons_self
  dsimp only at target shown
  rw [target] at shown
  apply replaced_in_force same _ _ history shown
  have bound : max l2MaxAge (120000 : ℚ) = 120000 := by
    norm_num [l2MaxAge]
  rw [bound] at recent
  norm_num [later, l1Ttl] at recent
  linarith

end SlowRead

end Takos.HostnameRouting
