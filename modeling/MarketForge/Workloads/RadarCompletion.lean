import MarketForge.Workloads.RadarCache
import MarketForge.Workloads.RadarService

/-!
# A scenario completes

With an accepted configuration no failure branch of `runScenario` is taken, whatever actions are
chosen: every admission finds its pages, every batch makes progress, and at the end of a step the
scheduler and the cache are as idle as at its beginning. `Idle` is the invariant of the loop over
the steps, `Admitted` that of the admissions and `Served` that of the completions.
-/
namespace MarketForge.Workloads

open Library Serving

/-- The automaton accepts the tokens of every action and decodes them to it. -/
theorem round_trip_valid {dfa : Grammar.TokenDfa} (built : buildActionDfa = .ok dfa)
    (action : MissionAction) : grammarRoundTrip dfa action = true := by
  have all : ∀ action, (match buildActionDfa with
      | .ok dfa => grammarRoundTrip dfa action
      | .error _ => false) = true := by
    intro action
    cases action <;> decide +kernel
  have here := all action
  rwa [built] at here

/-- The number of a reservation, counted from those of the scenario so far. -/
private theorem counter_ne_zero (issued : Nat) (few : issued < 2 ^ 64 - 2) :
    UInt64.ofNat (2 + issued) ≠ 0 := by
  intro zero
  have number := congrArg UInt64.toNat zero
  rw [UInt64.toNat_ofNat', Nat.mod_eq_of_lt (by omega), UInt64.toNat_zero] at number
  omega

private theorem counter_next (issued : Nat) :
    UInt64.ofNat (2 + issued) + 1 = UInt64.ofNat (2 + (issued + 1)) := by
  rw [← Nat.add_assoc, UInt64.ofNat_add _ 1]
  rfl

/-! ### Admission -/

/-- Between two admissions, with what the cache and the scheduler have in hand. -/
structure Admitted (config : ScenarioConfig) (step index : Nat) {World Return : Type}
    (current : Admission World Return) : Prop where
  admitting : Admitting config step index current
  cache : SharedCache config ((List.range index).map (decisionId config step)) current.cache
  counter : current.cache.nextReservationId =
    UInt64.ofNat (2 + (step * config.vehicleCount.toNat + index))
  waiting : backlog current.scheduler = 2 * index
  generation : current.scheduler.generation.toNat ≤ 2 * (step * config.vehicleCount.toNat)

section

variable {World Return : Type} {simulation : Simulation World Return} {config : ScenarioConfig}
  {dfa : Grammar.TokenDfa} {step index : Nat}

theorem Admitted.advance {current : Admission World Return}
    (admitted : Admitted config step index current) (accepted : config.Accepted)
    (built : buildActionDfa = .ok dfa) (before : step < config.steps.toNat)
    (inside : index < config.vehicleCount.toNat) :
    ∃ next, admitVehicle simulation config dfa (arrivalOf config step) index current = .ok next ∧
      Admitted config step (index + 1) next := by
  have within := position_within before inside.le
  have few := decisions_few config
  have number := decisionId_toNat within
  obtain ⟨scheduler, enqueued, generation, more, scheduling, _⟩ :=
    admitted.admitting.enqueue accepted before inside
  -- the id is new to the cache
  have fresh : decisionId config step index ∉ (List.range index).map (decisionId config step) := by
    intro member
    obtain ⟨other, earlier, same⟩ := List.mem_map.mp member
    have below := List.mem_range.mp earlier
    have equal := decisionId_inj before (by omega) inside same
    omega
  have proper : decisionId config step index ≠ 0 := by
    intro zero
    rw [zero, UInt64.toNat_zero] at number
    omega
  have other : decisionId config step index ≠ prefixSequenceId := by
    intro same
    rw [same] at number
    change 1 = _ at number
    omega
  obtain ⟨created, reserved, reservation, committed, creation, reservation_eq, commit_eq, cache,
    counter⟩ := admitted.cache.admission accepted proper other fresh
      (by rw [List.length_map, List.length_range]; exact inside)
      (by rw [admitted.counter]; exact counter_ne_zero _ (by omega))
  have valid := round_trip_valid built (simulation.choose config current.world index).1
  have next_id := admitted.admitting.next
  have done : ∃ next, admitVehicle simulation config dfa (arrivalOf config step) index current =
      .ok next ∧ next.scheduler = scheduler ∧ next.cache = committed := by
    rw [admitVehicle]
    dsimp only
    rw [enqueued, next_id, creation, valid]
    dsimp only
    rw [if_neg (by decide), reservation_eq]
    dsimp only
    rw [commit_eq]
    exact ⟨_, rfl, rfl, rfl⟩
  obtain ⟨next, turned, scheduler_eq, cache_eq⟩ := done
  refine ⟨next, turned, admitted.admitting.advance accepted before inside turned, ?_, ?_, ?_, ?_⟩
  · rw [cache_eq, List.range_succ, List.map_append, List.map_singleton]
    exact cache
  · rw [cache_eq, counter, admitted.counter, counter_next, Nat.add_assoc (step * _)]
  · rw [scheduler_eq, more, admitted.waiting]
    omega
  · rw [scheduler_eq, generation]
    exact admitted.generation

/-! ### Service -/

/-- Between two completions, with the counts the result reports. -/
structure Served (config : ScenarioConfig) (step : Nat) (live : List SequenceId)
    (pending : List BatchItem) (current : Service) : Prop where
  inService : InService config step live pending current
  cache : SharedCache config live current.cache
  counter : current.cache.nextReservationId =
    UInt64.ofNat (2 + (step * config.vehicleCount.toNat + config.vehicleCount.toNat))
  vehicles : current.completions.length = config.vehicleCount.toNat
  completions : ∀ i < config.vehicleCount.toNat, current.completions[i]? =
    some (UInt64.ofNat (if decisionId config step i ∈ live then step else step + 1))
  decisions : current.metrics.decisions.toNat = step * config.vehicleCount.toNat
  valid : current.metrics.grammarValidDecisions.toNat =
    step * config.vehicleCount.toNat + current.completed.toNat
  largest : current.metrics.maximumBatchSize ≤ config.maximumBatchSize
  peak : current.metrics.peakPhysicalKvPages.toNat =
    config.prefixPages + config.vehicleCount.toNat * config.sequencePages

/-- A completed decision adds one to the completions of its vehicle and to the valid decisions. -/
private theorem Served.record {live : List SequenceId} {pending rest : List BatchItem}
    {current : Service} (served : Served config step live pending current)
    (before : step < config.steps.toNat) (inside : index < config.vehicleCount.toNat)
    {scheduler : SequenceScheduler} {cache : PagedKvCache} (arrival generation : UInt64)
    (member : decisionId config step index ∈ live)
    (kept : InService config step (live.erase (decisionId config step index)) rest
      (recordDecision arrival generation index
        { current with scheduler := scheduler, cache := cache }))
    (released : SharedCache config (live.erase (decisionId config step index)) cache)
    (issued : cache.nextReservationId = current.cache.nextReservationId) :
    Served config step (live.erase (decisionId config step index)) rest
      (recordDecision arrival generation index
        { current with scheduler := scheduler, cache := cache }) := by
  have few := decisions_few config
  have last := position_within before (Nat.le_refl config.vehicleCount.toNat)
  have vehicles := config.vehicleCount.toNat_lt
  have distinct := served.inService.scheduling.distinct
  have shape := served.inService.shapes index _
    (List.getElem?_eq_getElem (by rw [served.inService.count]; exact inside))
  have listed : index < current.decisions.length := by
    rw [served.inService.count]
    exact inside
  have decision : current.decisions.getD index {} = current.decisions[index] := by
    rw [List.getD_eq_getElem?_getD, List.getElem?_eq_getElem, Option.getD_some]
  -- vehicles are numbered from one, their counters from zero
  have seat : (UInt32.ofNat index + 1 - 1).toNat = index := by
    rw [UInt32.add_sub_cancel, UInt32.toNat_ofNat', Nat.mod_eq_of_lt (by omega)]
  -- the completion counts for the vehicle of the decision, and the action is a valid one
  have completions : (recordDecision arrival generation index
      { current with scheduler := scheduler, cache := cache }).completions =
        current.completions.modify index (· + 1) := by
    rw [recordDecision]
    dsimp only
    rw [decision, DecisionTrace.completedAt]
    dsimp only
    rw [shape.vehicle, seat]
  have valid : (recordDecision arrival generation index
      { current with scheduler := scheduler, cache := cache }).metrics.grammarValidDecisions =
        current.metrics.grammarValidDecisions + 1 := by
    rw [recordDecision]
    dsimp only
    rw [decision, DecisionTrace.completedAt]
    dsimp only
    rw [shape.valid, if_pos rfl]
  have all := served.inService.completed
  have positive := List.length_pos_of_mem member
  refine ⟨kept, released, issued.trans served.counter, ?_, ?_, served.decisions, ?_,
    served.largest, served.peak⟩
  · rw [completions, List.length_modify]
    exact served.vehicles
  · intro i below
    rw [completions]
    -- the vehicle that was served has one more completion, the others have theirs
    by_cases here : index = i
    · subst here
      rw [List.getElem?_modify_eq, served.completions index inside, if_pos member,
        if_neg distinct.not_mem_erase, UInt64.ofNat_add step 1]
      rfl
    · have apart : decisionId config step i ≠ decisionId config step index := fun same =>
        here (decisionId_inj before inside below same.symm)
      rw [List.getElem?_modify_ne _ _ here, served.completions i below]
      simp only [List.mem_erase_of_ne apart]
  · rw [valid, UInt64.toNat_add, served.valid]
    change (_ + 1) % _ = _ + (current.completed + 1).toNat
    rw [UInt32.toNat_add]
    change (_ + 1) % _ = _ + (current.completed.toNat + 1) % _
    omega

/-- Every item of a batch can be completed. -/
theorem Served.complete {live : List SequenceId} {rest : List BatchItem} {item : BatchItem}
    {current : Service} (served : Served config step live (item :: rest) current)
    (accepted : config.Accepted) (before : step < config.steps.toNat)
    (arrival generation : UInt64) :
    ∃ next, completeItem arrival generation current item = .ok next ∧
      (∃ live', Served config step live' rest next) ∧
      next.scheduler.generation = current.scheduler.generation ∧
      backlog next.scheduler + 1 = backlog current.scheduler := by
  obtain ⟨scheduler, same, fewer, effect⟩ :=
    completeItem_effect served.inService accepted before arrival generation
  cases effect with
  | prefilled turned kept =>
    exact ⟨_, turned, ⟨live, kept, served.cache, served.counter, served.vehicles,
      served.completions, served.decisions, served.valid, served.largest, served.peak⟩, same, fewer⟩
  | @decoded index inside named member turned kept =>
    obtain ⟨after, destroyed, released, issued⟩ := served.cache.complete member
    rw [destroyed] at turned
    rw [named] at member released kept
    exact ⟨_, (turned _).mpr ⟨rfl, rfl⟩,
      ⟨_, served.record before inside arrival generation member (kept after) released issued⟩,
      same, fewer⟩

/-! ### Batches -/

/-- The batches left are covered by the generations left. -/
def Paced (config : ScenarioConfig) (step : Nat) (current : Service) : Prop :=
  current.scheduler.generation.toNat + backlog current.scheduler ≤
    2 * (step * config.vehicleCount.toNat + config.vehicleCount.toNat)

theorem Served.batch {live : List SequenceId} {current : Service}
    (served : Served config step live [] current) (paced : Paced config step current)
    (accepted : config.Accepted) (before : step < config.steps.toNat)
    (fewDecisions : 2 * (config.steps.toNat * config.vehicleCount.toNat) < 2 ^ 64)
    (continues : unserved config current = true) (arrival : UInt64) :
    ∃ next, serveBatch config arrival current = .ok next ∧
      (∃ live', Served config step live' [] next) ∧ Paced config step next ∧
      backlog next.scheduler < backlog current.scheduler := by
  have last := position_within before (Nat.le_refl config.vehicleCount.toNat)
  have some_live := served.inService.some_live continues
  have positive := served.inService.scheduling.backlog_pos some_live
  have asked : config.maximumBatchSize.toNat ≠ 0 := fun zero =>
    accepted.batch (UInt32.toNat_inj.mp zero)
  have room : current.scheduler.generation ≠ UInt64.ofNat (UInt64.size - 1) := by
    intro full
    have most : current.scheduler.generation.toNat = 2 ^ 64 - 1 := by
      rw [full]
      rfl
    rw [Paced] at paced
    omega
  obtain ⟨batch, scheduler, scheduled, nonempty⟩ :=
    served.inService.scheduling.schedule_succeeds some_live asked room
  obtain ⟨_, waiting, _, generation, _, _⟩ :=
    served.inService.scheduling.schedule_ok scheduled nonempty
  have items := List.length_pos_of_ne_nil nonempty
  have bounded := Scheduling.batch_bounded scheduled
  have largest : larger current.metrics.maximumBatchSize (UInt32.ofNat batch.items.length) ≤
      config.maximumBatchSize := by
    have size := config.maximumBatchSize.toNat_lt
    have past := UInt32.le_iff_toNat_le.mp served.largest
    rw [UInt32.le_iff_toNat_le, larger_toNat32, UInt32.toNat_ofNat', Nat.mod_eq_of_lt (by omega)]
    omega
  have begun : Served config step live batch.items { current with
      scheduler := scheduler
      serviceCursor := current.serviceCursor + serviceDuration batch
      metrics := current.metrics.countBatch batch } :=
    ⟨served.inService.begin_batch scheduled nonempty _ _, served.cache, served.counter,
      served.vehicles, served.completions, served.decisions, served.valid, largest, served.peak⟩
  -- what is left of the batch is what the backlog has still to lose
  obtain ⟨next, ran, ⟨live', finished⟩, same, left⟩ := attempt_each_succeed
    (completeItem arrival batch.generation) batch.items _
    (fun rest now => (∃ live', Served config step live' rest now) ∧
      now.scheduler.generation = scheduler.generation ∧
      backlog now.scheduler + batch.items.length = backlog scheduler + rest.length)
    ⟨⟨live, begun⟩, rfl, rfl⟩ (by
      rintro item rest now ⟨⟨others, holds⟩, same, left⟩
      obtain ⟨next, turned, after, again, fewer⟩ :=
        holds.complete accepted before arrival batch.generation
      rw [List.length_cons] at left
      exact ⟨next, turned, after, again.trans same, by omega⟩)
  rw [List.length_nil, Nat.add_zero, waiting] at left
  refine ⟨next, ?_, ⟨live', finished⟩, ?_, by omega⟩
  · rw [serveBatch, scheduled]
    dsimp only
    rw [if_neg nonempty]
    exact ran
  · rw [Paced, same, generation, UInt64.toNat_add]
    rw [Paced] at paced
    change (_ + 1) % _ + _ ≤ _
    omega

/-! ### Steps -/

/-- Between two steps, with the counts the result reports. -/
structure Idle (config : ScenarioConfig) (step : Nat) {World Return : Type}
    (current : Scenario World Return) : Prop where
  between : BetweenSteps config step current
  cache : SharedCache config [] current.cache
  counter : current.cache.nextReservationId =
    UInt64.ofNat (2 + step * config.vehicleCount.toNat)
  generation : current.scheduler.generation.toNat ≤ 2 * (step * config.vehicleCount.toNat)
  completions : current.completions =
    List.replicate config.vehicleCount.toNat (UInt64.ofNat step)
  decisions : current.metrics.decisions.toNat = step * config.vehicleCount.toNat
  valid : current.metrics.grammarValidDecisions.toNat = step * config.vehicleCount.toNat
  largest : current.metrics.maximumBatchSize ≤ config.maximumBatchSize
  peak : current.metrics.peakPhysicalKvPages.toNat =
    if step = 0 then 0 else config.prefixPages + config.vehicleCount.toNat * config.sequencePages
  frames : current.frames.length = step
  vehicles : ∀ frame ∈ current.frames, frame.decisions.map DecisionTrace.vehicleId =
    (List.range config.vehicleCount.toNat).map fun index => UInt32.ofNat index + 1

/-- The frame has one decision for each vehicle, in order. -/
theorem InService.vehicle_ids {live : List SequenceId} {pending : List BatchItem}
    {current : Service} (inService : InService config step live pending current) :
    current.decisions.map DecisionTrace.vehicleId =
      (List.range config.vehicleCount.toNat).map fun index => UInt32.ofNat index + 1 := by
  refine List.ext_getElem (by simp [inService.count]) fun i inside _ => ?_
  rw [List.length_map] at inside
  rw [List.getElem_map, List.getElem_map, List.getElem_range]
  exact (inService.shapes i _ (List.getElem?_eq_getElem inside)).vehicle

theorem Idle.open_step {current : Scenario World Return} (idle : Idle config step current)
    (accepted : config.Accepted) (built : buildActionDfa = .ok dfa)
    (before : step < config.steps.toNat) (fewVehicles : config.vehicleCount.toNat < 2 ^ 30) :
    ∃ admitted begun, openStep simulation config dfa step current = .ok (admitted, begun) ∧
      Admitting config step config.vehicleCount.toNat admitted ∧
      Served config step ((List.range config.vehicleCount.toNat).map (decisionId config step)) []
        begun ∧
      Paced config step begun ∧ backlog begun.scheduler = 2 * config.vehicleCount.toNat := by
  have start : Admitted config step 0 current.admission :=
    ⟨idle.between.admitting, idle.cache, idle.counter, idle.between.scheduling.backlog_zero,
      idle.generation⟩
  -- every vehicle is admitted in its turn
  obtain ⟨admitted, turned, all⟩ := attempt_turns_succeed
    (admitVehicle simulation config dfa (arrivalOf config step)) current.admission
    config.vehicleCount.toNat (fun index admission => Admitted config step index admission) start
    fun index inside middle holds => holds.advance accepted built before inside
  -- with the whole step admitted the pages in use are at their peak
  obtain ⟨m, counted, pages⟩ := all.cache.metrics_exact accepted
    (by rw [List.length_map, List.length_range]; exact fewVehicles)
  rw [List.length_map, List.length_range] at pages
  have peak : (larger current.metrics.peakPhysicalKvPages
      (m.mutablePages + m.sharedPrefixPages)).toNat =
        config.prefixPages + config.vehicleCount.toNat * config.sequencePages := by
    rw [larger_toNat, pages, idle.peak]
    split
    next => exact Nat.max_eq_right (Nat.zero_le _)
    next => exact Nat.max_self _
  -- what the step begins with, one member at a time
  have opened : ∃ begun, openStep simulation config dfa step current = .ok (admitted, begun) ∧
      begun.metrics.peakPhysicalKvPages =
        larger current.metrics.peakPhysicalKvPages (m.mutablePages + m.sharedPrefixPages) ∧
      begun.metrics.decisions = current.metrics.decisions ∧
      begun.metrics.grammarValidDecisions = current.metrics.grammarValidDecisions ∧
      begun.metrics.maximumBatchSize = current.metrics.maximumBatchSize ∧
      begun.completions = current.completions ∧ begun.completed = 0 ∧
      begun.scheduler = admitted.scheduler ∧ begun.cache = admitted.cache := by
    rw [openStep, ok_bind _ turned, recordPages, counted]
    exact ⟨_, rfl, rfl, rfl, rfl, rfl, rfl, rfl, rfl, rfl⟩
  obtain ⟨begun, opened, physical, decisions, valid, largest, completions, completed, scheduler,
    cache⟩ := opened
  have inService := (idle.between.open_step accepted before opened).2
  refine ⟨admitted, begun, opened, all.admitting, ⟨inService, ?_, ?_, ?_, ?_, ?_, ?_, ?_, ?_⟩,
    ?_, ?_⟩
  · rw [cache]
    exact all.cache
  · rw [cache]
    exact all.counter
  · rw [completions, idle.completions, List.length_replicate]
  · intro i below
    have member : decisionId config step i ∈
        (List.range config.vehicleCount.toNat).map (decisionId config step) :=
      List.mem_map_of_mem (List.mem_range.mpr below)
    rw [completions, idle.completions, List.getElem?_replicate, if_pos below, if_pos member]
  · rw [decisions]
    exact idle.decisions
  · rw [valid, idle.valid, completed]
    rfl
  · rw [largest]
    exact idle.largest
  · rw [physical]
    exact peak
  · have waiting := all.waiting
    have generation := all.generation
    rw [Paced, scheduler]
    omega
  · rw [scheduler]
    exact all.waiting

theorem Idle.run_step {current : Scenario World Return} (idle : Idle config step current)
    (accepted : config.Accepted) (built : buildActionDfa = .ok dfa)
    (before : step < config.steps.toNat) (fewVehicles : config.vehicleCount.toNat < 2 ^ 30)
    (fewDecisions : 2 * (config.steps.toNat * config.vehicleCount.toNat) < 2 ^ 64) {turns : Nat}
    (enough : 2 * config.vehicleCount.toNat ≤ turns) :
    ∃ next, runStep simulation config turns dfa step current = .ok next ∧
      Idle config (step + 1) next := by
  obtain ⟨admitted, begun, opened, admitting, served, paced, waiting⟩ :=
    @Idle.open_step _ _ simulation _ _ _ _ idle accepted built before fewVehicles
  -- every batch leaves less to do, so the loop ends when no decision is left
  obtain ⟨last, looped, ⟨⟨live, finished⟩, slow⟩, stopped⟩ := attempt_while_succeeds
    (unserved config) (serveBatch config (arrivalOf config step)) turns begun
    (fun now => (∃ live, Served config step live [] now) ∧ Paced config step now)
    (fun now => backlog now.scheduler) ⟨⟨_, served⟩, paced⟩ (by rw [waiting]; exact enough) (by
      rintro now ⟨⟨live, holds⟩, pace⟩ continues
      obtain ⟨next, turned, after, later, lower⟩ :=
        holds.batch pace accepted before fewDecisions continues (arrivalOf config step)
      exact ⟨next, turned, ⟨after, later⟩, lower⟩)
  -- then all decisions of the step are completed
  obtain rfl := finished.inService.none_live stopped
  have all := finished.inService.completed
  rw [List.length_nil, Nat.add_zero] at all
  have within := position_within before (Nat.le_refl config.vehicleCount.toNat)
  have few := decisions_few config
  refine ⟨closeStep simulation config step admitted last current, ?_,
    finished.inService.between admitting, finished.cache, ?_, ?_, ?_, ?_, ?_, finished.largest, ?_,
    ?_, ?_⟩
  · rw [runStep, ok_bind _ opened]
    dsimp only
    rw [ok_bind _ looped]
    rfl
  · rw [Nat.add_mul, Nat.one_mul]
    exact finished.counter
  · rw [Paced] at slow
    rw [Nat.add_mul, Nat.one_mul]
    exact Nat.le_trans (Nat.le_add_right _ _) slow
  · refine List.ext_getElem? fun i => ?_
    rcases Nat.lt_or_ge i config.vehicleCount.toNat with inside | outside
    · rw [List.getElem?_replicate, if_pos inside]
      exact finished.completions i inside
    · have left : last.completions[i]? = none :=
        List.getElem?_eq_none (finished.vehicles.trans_le outside)
      have right : (List.replicate config.vehicleCount.toNat (UInt64.ofNat (step + 1)))[i]? =
          none := List.getElem?_eq_none (by rw [List.length_replicate]; exact outside)
      exact left.trans right.symm
  · change (last.metrics.decisions + UInt64.ofNat last.decisions.length).toNat = _
    rw [UInt64.toNat_add, finished.decisions, finished.inService.count, UInt64.toNat_ofNat',
      Nat.add_mul, Nat.one_mul]
    omega
  · change last.metrics.grammarValidDecisions.toNat = _
    rw [finished.valid, all, Nat.add_mul, Nat.one_mul]
  · rw [if_neg (Nat.succ_ne_zero step)]
    exact finished.peak
  · change (current.frames ++ [_]).length = _
    rw [List.length_append, idle.frames]
    rfl
  · intro frame member
    rcases List.mem_append.mp member with old | new
    · exact idle.vehicles frame old
    · rw [List.mem_singleton.mp new]
      exact finished.inService.vehicle_ids

/-! ### The scenario -/

theorem beginScenario_succeeds (simulation : Simulation World Return)
    (valid : config.validConfig = true) :
    ∃ dfa begun, beginScenario simulation config = .ok (dfa, begun) ∧
      buildActionDfa = .ok dfa ∧ Idle config 0 begun := by
  have accepted := config.accepted_of_valid valid
  -- the automaton of the actions is built from constants
  have builds : buildActionDfa.isOk = true := by decide +kernel
  obtain ⟨cache, published, shared, counter⟩ := publishShared_succeeds accepted
  cases built : buildActionDfa with
  | error status =>
    rw [built] at builds
    cases builds
  | ok dfa =>
    have started : ∃ begun, beginScenario simulation config = .ok (dfa, begun) ∧
        begun.cache = cache ∧ begun.scheduler = {} ∧
        begun.completions = List.replicate config.vehicleCount.toNat 0 := by
      rw [beginScenario, if_neg (not_not.mpr valid), built]
      dsimp only
      rw [create_succeeds accepted]
      dsimp only
      rw [ok_bind _ published]
      exact ⟨_, rfl, rfl, rfl, rfl⟩
    obtain ⟨begun, started, rfl, scheduler, completions⟩ := started
    obtain ⟨_, between, _, metrics, frames, _⟩ := beginScenario_ok started
    refine ⟨dfa, begun, started, rfl, ?_⟩
    constructor
    case between => exact between
    case cache => exact shared
    case counter =>
      rw [counter, Nat.zero_mul]
      rfl
    case generation =>
      rw [scheduler]
      exact Nat.zero_le _
    case completions => exact completions
    case decisions =>
      rw [metrics, Nat.zero_mul]
      rfl
    case valid =>
      rw [metrics, Nat.zero_mul]
      rfl
    case largest =>
      rw [metrics]
      exact UInt32.zero_le
    case peak =>
      rw [metrics]
      rfl
    case frames =>
      rw [frames]
      rfl
    case vehicles =>
      rw [frames]
      nofun

/-- What a scenario returns and leaves when it completes. -/
structure Completed (simulation : Simulation World Return) (config : ScenarioConfig)
    (turns : Nat) (finished : Finished Return) : Prop where
  frames : finished.result.frames.length = config.steps.toNat
  vehicles : ∀ frame ∈ finished.result.frames, frame.decisions.map DecisionTrace.vehicleId =
    (List.range config.vehicleCount.toNat).map fun index => UInt32.ofNat index + 1
  completions : finished.completions =
    List.replicate config.vehicleCount.toNat config.steps.toUInt64
  decisions : finished.result.metrics.decisions.toNat =
    config.steps.toNat * config.vehicleCount.toNat
  valid : finished.result.metrics.grammarValidDecisions.toNat =
    config.steps.toNat * config.vehicleCount.toNat
  peak : finished.result.metrics.peakPhysicalKvPages.toNat =
    config.prefixPages + config.vehicleCount.toNat * config.sequencePages
  largest : finished.result.metrics.maximumBatchSize ≤ config.maximumBatchSize
  batches : ∀ step current batch scheduler, ReachesBatch simulation config turns step current →
    current.scheduler.schedule .unlimited config.maximumBatchSize.toNat = (.ok batch, scheduler) →
    batch.items.length ≤ config.maximumBatchSize.toNat
  drained : Drained config.kvPageCount.toNat finished.cache

/-- Every step of an accepted configuration ends after two batches for each vehicle at most, and
the run fails nowhere. -/
theorem scenario_completes (simulation : Simulation World Return) (config : ScenarioConfig)
    (valid : config.validConfig = true) (fewVehicles : config.vehicleCount.toNat < 2 ^ 30)
    (fewDecisions : 2 * (config.steps.toNat * config.vehicleCount.toNat) < 2 ^ 64) (turns : Nat)
    (enough : 2 * config.vehicleCount.toNat ≤ turns) :
    ∃ finished, runScenario simulation config turns = .ok finished ∧
      Completed simulation config turns finished := by
  have accepted := config.accepted_of_valid valid
  obtain ⟨dfa, begun, started, built, initially⟩ := beginScenario_succeeds simulation valid
  obtain ⟨last, ran, idle⟩ := attempt_turns_succeed
    (runStep simulation config turns dfa) begun config.steps.toNat
    (fun step current => Idle config step current) initially
    fun step before current holds =>
      holds.run_step accepted built before fewVehicles fewDecisions enough
  obtain ⟨released, release, drained⟩ := releaseShared_succeeds idle.cache
  have nonzero : config.steps.toNat ≠ 0 := fun zero => accepted.steps (UInt32.toNat_inj.mp zero)
  refine ⟨⟨⟨config, last.frames, last.metrics⟩, last.completions, released⟩, ?_, ?_⟩
  · rw [runScenario, ok_bind _ started]
    dsimp only
    rw [ok_bind _ ran, ok_bind _ release]
    rfl
  · constructor
    case frames => exact idle.frames
    case vehicles => exact idle.vehicles
    case completions =>
      rw [idle.completions, UInt64.ofNat_uInt32ToNat]
    case decisions => exact idle.decisions
    case valid => exact idle.valid
    case peak =>
      have peak := idle.peak
      rwa [if_neg nonzero] at peak
    case largest => exact idle.largest
    case batches => exact fun _ _ _ _ _ scheduled => Scheduling.batch_bounded scheduled
    case drained => exact drained

end

/-- Three vehicles in batches of two, with the pages they need and no more. -/
theorem scenario_completes_three :
    let still : Simulation Unit Unit :=
      ⟨fun _ => (), fun _ _ _ => (.hold, none, ()), fun _ _ _ _ => ()⟩
    let config : ScenarioConfig :=
      { steps := 2, vehicleCount := 3, maximumBatchSize := 2, kvPageCount := 7 }
    ∃ finished, runScenario still config 6 = .ok finished ∧ Completed still config 6 finished :=
  scenario_completes _ _ (by decide +kernel) (by decide) (by decide) 6 (by decide)

end MarketForge.Workloads
