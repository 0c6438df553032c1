import MarketForge.Workloads.RadarConfig
import MarketForge.Workloads.RadarScheduling

/-!
# One step of a scenario

The decisions of a step have consecutive ids, so that the position of a decision in its frame is
read off its id. `Admitting` holds between two admissions, `InService` between two completions.
Both are about the scheduler and the frame only: they are kept by every turn that succeeds,
whatever the cache does.
-/
namespace MarketForge.Workloads

open Library Serving

/-! ### Ids -/

/-- The id of the decision at a position of a step. -/
def decisionId (config : ScenarioConfig) (step index : Nat) : SequenceId :=
  firstDecisionSequenceId + UInt64.ofNat (step * config.vehicleCount.toNat + index)

section Ids

variable {config : ScenarioConfig} {step index : Nat}

/-- The decisions up to a position of a step are among all those of the scenario. -/
theorem position_within (before : step < config.steps.toNat)
    (inside : index ≤ config.vehicleCount.toNat) :
    step * config.vehicleCount.toNat + index ≤
      config.steps.toNat * config.vehicleCount.toNat := by
  have rows : (step + 1) * config.vehicleCount.toNat ≤
      config.steps.toNat * config.vehicleCount.toNat := Nat.mul_le_mul_right _ before
  rw [Nat.add_mul, Nat.one_mul] at rows
  omega

theorem decisions_few (config : ScenarioConfig) :
    config.steps.toNat * config.vehicleCount.toNat ≤ (2 ^ 32 - 1) * (2 ^ 32 - 1) := by
  have steps := config.steps.toNat_lt
  have vehicles := config.vehicleCount.toNat_lt
  exact Nat.mul_le_mul (by omega) (by omega)

theorem decisionId_toNat (within : step * config.vehicleCount.toNat + index ≤
    config.steps.toNat * config.vehicleCount.toNat) :
    (decisionId config step index).toNat =
      1000 + (step * config.vehicleCount.toNat + index) := by
  have few := decisions_few config
  rw [decisionId, UInt64.toNat_add, UInt64.toNat_ofNat',
    Nat.mod_eq_of_lt (by omega : step * config.vehicleCount.toNat + index < 2 ^ 64)]
  change (1000 + _) % _ = _
  exact Nat.mod_eq_of_lt (by omega)

theorem decisionId_next (config : ScenarioConfig) (step index : Nat) :
    decisionId config step index + 1 = decisionId config step (index + 1) := by
  rw [decisionId, decisionId, ← Nat.add_assoc, UInt64.ofNat_add _ 1, ← UInt64.add_assoc]
  rfl

theorem decisionId_next_step (config : ScenarioConfig) (step : Nat) :
    decisionId config step config.vehicleCount.toNat = decisionId config (step + 1) 0 := by
  rw [decisionId, decisionId, Nat.add_mul, Nat.one_mul, Nat.add_zero]

theorem decisionId_inj {other : Nat} (before : step < config.steps.toNat)
    (inside : index < config.vehicleCount.toNat) (otherInside : other < config.vehicleCount.toNat)
    (same : decisionId config step index = decisionId config step other) : index = other := by
  have numbers := congrArg UInt64.toNat same
  rw [decisionId_toNat (position_within before inside.le),
    decisionId_toNat (position_within before otherInside.le)] at numbers
  omega

end Ids

/-- What a decision carries from its admission on. -/
structure DecisionShape (config : ScenarioConfig) (step index : Nat) (decision : DecisionTrace) :
    Prop where
  sequence : decision.sequenceId = decisionId config step index
  vehicle : decision.vehicleId = UInt32.ofNat index + 1
  arrival : decision.arrivalMicroseconds = arrivalOf config step
  deadline : decision.deadlineMicroseconds =
    arrivalOf config step + config.decisionDeadlineMicroseconds
  valid : decision.grammarValid = true

/-! ### Admission -/

section Admission

variable {World Return : Type} {simulation : Simulation World Return} {config : ScenarioConfig}
  {dfa : Grammar.TokenDfa} {step index : Nat} {arrival : UInt64}
  {current next : Admission World Return}

/-- The calls of an admission that succeeds, and what it leaves. -/
theorem admitVehicle_ok (admitted : admitVehicle simulation config dfa arrival index current =
      .ok next) :
    grammarRoundTrip dfa (simulation.choose config current.world index).1 = true ∧
      next.scheduler = (current.scheduler.enqueue .unlimited
        ⟨current.nextSequence, config.promptTokens, config.outputTokens⟩).2 ∧
      next.nextSequence = current.nextSequence + 1 ∧
      next.decisions = current.decisions ++
        [⟨current.nextSequence, UInt32.ofNat index + 1,
          (simulation.choose config current.world index).1, arrival, 0,
          arrival + config.decisionDeadlineMicroseconds, 0, 0, false,
          grammarRoundTrip dfa (simulation.choose config current.world index).1⟩] := by
  unfold admitVehicle at admitted
  dsimp only at admitted
  split at admitted
  next => cases admitted
  next accepted =>
    simp only [not_or, Bool.not_eq_true] at accepted
    split at admitted
    next => cases admitted
    next =>
      split at admitted
      next => cases admitted
      next =>
        obtain rfl := Except.ok.inj admitted
        exact ⟨by simpa using accepted.1, rfl, rfl, rfl⟩

end Admission

/-- Between two admissions: the ids up to the next one are admitted. -/
structure Admitting (config : ScenarioConfig) (step index : Nat) {World Return : Type}
    (current : Admission World Return) : Prop where
  scheduling : Scheduling ((List.range index).map (decisionId config step)) [] current.scheduler
  below : ∀ id ∈ current.scheduler.entries.map Entry.id,
    id.toNat < 1000 + (step * config.vehicleCount.toNat + index)
  next : current.nextSequence = decisionId config step index
  count : current.decisions.length = index
  shapes : ∀ (i : Nat) decision, current.decisions[i]? = some decision →
    DecisionShape config step i decision

namespace Admitting

variable {World Return : Type} {config : ScenarioConfig} {step index : Nat}
  {current : Admission World Return}

/-- The scheduler has room for one more: every id it knows is below the next one. -/
theorem enqueue (admitting : Admitting config step index current) (accepted : config.Accepted)
    (before : step < config.steps.toNat) (inside : index < config.vehicleCount.toNat) :
    ∃ after, current.scheduler.enqueue .unlimited
        ⟨current.nextSequence, config.promptTokens, config.outputTokens⟩ = (.success, after) ∧
      after.generation = current.scheduler.generation ∧
      backlog after = backlog current.scheduler + 2 ∧
      Scheduling ((List.range (index + 1)).map (decisionId config step)) [] after ∧
      ∀ id ∈ after.entries.map Entry.id,
        id.toNat < 1000 + (step * config.vehicleCount.toNat + (index + 1)) := by
  have number := decisionId_toNat (position_within before inside.le)
  have proper : current.nextSequence ≠ 0 := by
    rw [admitting.next]
    intro zero
    rw [zero, UInt64.toNat_zero] at number
    omega
  have prompt : config.promptTokens ≠ 0 := by
    intro zero
    have shared := accepted.prompt
    rw [zero, UInt32.toNat_zero] at shared
    exact accepted.shared (UInt32.toNat_inj.mp (by rw [UInt32.toNat_zero]; omega))
  have fresh : ∀ entry ∈ current.scheduler.entries, entry.id ≠ current.nextSequence := by
    intro entry member same
    have low := admitting.below entry.id (List.mem_map_of_mem member)
    rw [same, admitting.next, number] at low
    omega
  obtain ⟨after, enqueued, entries, generation, scheduling, more⟩ := admitting.scheduling.enqueue
    ⟨current.nextSequence, config.promptTokens, config.outputTokens⟩ proper prompt accepted.output
    accepted.fits fresh
  refine ⟨after, enqueued, generation, more, ?_, ?_⟩
  · rw [List.range_succ, List.map_append, List.map_singleton, ← admitting.next]
    exact scheduling
  · rw [entries]
    intro id member
    rw [List.map_append, List.mem_append, List.map_singleton, List.mem_singleton] at member
    rcases member with old | new
    · have low := admitting.below id old
      omega
    · have same : id = current.nextSequence := new
      rw [same, admitting.next, number]
      omega

theorem advance {simulation : Simulation World Return} {dfa : Grammar.TokenDfa}
    {next : Admission World Return} (admitting : Admitting config step index current)
    (accepted : config.Accepted) (before : step < config.steps.toNat)
    (inside : index < config.vehicleCount.toNat)
    (admitted : admitVehicle simulation config dfa (arrivalOf config step) index current =
      .ok next) : Admitting config step (index + 1) next := by
  obtain ⟨valid, scheduler, nextSequence, decisions⟩ := admitVehicle_ok admitted
  obtain ⟨after, enqueued, _, _, scheduling, below⟩ := admitting.enqueue accepted before inside
  rw [enqueued] at scheduler
  refine ⟨by rwa [scheduler], by rwa [scheduler], ?_, ?_, ?_⟩
  · rw [nextSequence, admitting.next, decisionId_next]
  · rw [decisions, List.length_append, admitting.count]
    rfl
  · rw [decisions]
    intro i decision at_i
    rcases Nat.lt_or_ge i index with old | new
    · rw [List.getElem?_append_left (by rwa [admitting.count])] at at_i
      exact admitting.shapes i decision at_i
    · rw [List.getElem?_append_right (by rwa [admitting.count]), admitting.count] at at_i
      obtain ⟨single, _⟩ := List.getElem?_eq_some_iff.mp at_i
      obtain rfl : i = index := by
        rw [List.length_singleton] at single
        omega
      rw [Nat.sub_self] at at_i
      obtain rfl := Option.some.inj at_i
      exact ⟨admitting.next, rfl, rfl, rfl, valid⟩

end Admitting

/-! ### Service -/

/-- Between two completions: `live` are the decisions of the step that are not complete. -/
structure InService (config : ScenarioConfig) (step : Nat) (live : List SequenceId)
    (pending : List BatchItem) (current : Service) : Prop where
  scheduling : Scheduling live pending current.scheduler
  ids : ∀ id ∈ live, ∃ index < config.vehicleCount.toNat, id = decisionId config step index
  below : ∀ id ∈ current.scheduler.entries.map Entry.id,
    id.toNat < 1000 + (step * config.vehicleCount.toNat + config.vehicleCount.toNat)
  count : current.decisions.length = config.vehicleCount.toNat
  shapes : ∀ (i : Nat) decision, current.decisions[i]? = some decision →
    DecisionShape config step i decision
  completed : current.completed.toNat + live.length = config.vehicleCount.toNat

namespace InService

variable {config : ScenarioConfig} {step : Nat} {live : List SequenceId}
  {pending : List BatchItem} {current : Service}

theorem some_live (inService : InService config step live pending current)
    (continues : unserved config current = true) : live ≠ [] := by
  have fewer := UInt32.lt_iff_toNat_lt.mp (of_decide_eq_true continues)
  have all := inService.completed
  rintro rfl
  rw [List.length_nil] at all
  omega

theorem none_live (inService : InService config step live pending current)
    (stopped : unserved config current = false) : live = [] := by
  have enough := of_decide_eq_false stopped
  rw [UInt32.lt_iff_toNat_lt] at enough
  have all := inService.completed
  exact List.eq_nil_of_length_eq_zero (by omega)

/-- The id of the first decision is the one from which the positions are counted. -/
theorem first_id (inService : InService config step live pending current)
    (accepted : config.Accepted) :
    (current.decisions.headD {}).sequenceId = decisionId config step 0 := by
  have positive : 0 < current.decisions.length := by
    rw [inService.count]
    exact Nat.pos_of_ne_zero fun zero => accepted.vehicles (UInt32.toNat_inj.mp zero)
  have first := List.getElem?_eq_getElem positive
  rw [List.headD_eq_head?_getD, List.head?_eq_getElem?, first, Option.getD_some]
  exact (inService.shapes 0 _ first).sequence

/-- The range check accepts the id of a decision and its position is read back. -/
theorem position (inService : InService config step live pending current)
    (accepted : config.Accepted) (before : step < config.steps.toNat) {index : Nat}
    (inside : index < config.vehicleCount.toNat) :
    ¬(decisionId config step index < (current.decisions.headD {}).sequenceId ∨
        decisionId config step index ≥ (current.decisions.headD {}).sequenceId +
          UInt64.ofNat current.decisions.length) ∧
      (decisionId config step index - (current.decisions.headD {}).sequenceId).toNat = index := by
  have few := decisions_few config
  have last := position_within before (Nat.le_refl config.vehicleCount.toNat)
  have first_number := decisionId_toNat (position_within before (Nat.zero_le _))
  have number := decisionId_toNat (position_within before inside.le)
  have ordered : decisionId config step 0 ≤ decisionId config step index := by
    rw [UInt64.le_iff_toNat_le]
    omega
  have ending : (decisionId config step 0 + UInt64.ofNat config.vehicleCount.toNat).toNat =
      1000 + (step * config.vehicleCount.toNat + config.vehicleCount.toNat) := by
    have vehicles := config.vehicleCount.toNat_lt
    rw [UInt64.toNat_add, UInt64.toNat_ofNat', first_number]
    omega
  rw [inService.first_id accepted, inService.count]
  refine ⟨?_, ?_⟩
  · rw [not_or, UInt64.not_lt, ge_iff_le, UInt64.not_le, UInt64.lt_iff_toNat_lt, ending, number]
    exact ⟨ordered, by omega⟩
  · rw [UInt64.toNat_sub_of_le _ _ ordered, number, first_number]
    omega

/-- A decision of the frame keeps its shape when it is completed. -/
theorem record (inService : InService config step live pending current) {index : Nat}
    {scheduler : SequenceScheduler} {rest : List BatchItem}
    (member : decisionId config step index ∈ live)
    (scheduling : Scheduling (live.erase (decisionId config step index)) rest scheduler)
    (entries : scheduler.entries.map Entry.id = current.scheduler.entries.map Entry.id)
    (cache : PagedKvCache) (arrival generation : UInt64) :
    InService config step (live.erase (decisionId config step index)) rest
      (recordDecision arrival generation index
        { current with scheduler := scheduler, cache := cache }) := by
  have shorter := List.length_erase_of_mem member
  have positive := List.length_pos_of_mem member
  have all := inService.completed
  have vehicles := config.vehicleCount.toNat_lt
  constructor
  case scheduling => exact scheduling
  case ids => exact fun id remaining => inService.ids id (List.mem_of_mem_erase remaining)
  case below =>
    rw [show (recordDecision arrival generation index
      { current with scheduler := scheduler, cache := cache }).scheduler = scheduler from rfl,
      entries]
    exact inService.below
  case count =>
    rw [recordDecision]
    dsimp only
    rw [List.length_set]
    exact inService.count
  -- the decision at `index` keeps what identifies it; the call fills in the outcome
  case shapes =>
    intro i decision at_i
    rw [recordDecision] at at_i
    dsimp only at at_i
    by_cases here : index = i
    · subst here
      have inside : index < current.decisions.length := by
        by_contra outside
        rw [List.getElem?_set_self', List.getElem?_eq_none (Nat.le_of_not_lt outside)] at at_i
        cases at_i
      rw [List.getElem?_set_self inside] at at_i
      obtain rfl := Option.some.inj at_i
      have old := inService.shapes index _ (List.getElem?_eq_getElem inside)
      rw [List.getD_eq_getElem?_getD, List.getElem?_eq_getElem inside, Option.getD_some]
      exact ⟨old.sequence, old.vehicle, old.arrival, old.deadline, old.valid⟩
    · rw [List.getElem?_set_ne here] at at_i
      exact inService.shapes i decision at_i
  -- one decision fewer is live, one more is completed
  case completed =>
    change (current.completed + 1).toNat + _ = _
    rw [UInt32.toNat_add, shorter]
    change (current.completed.toNat + 1) % _ + _ = _
    omega

end InService

/-- What the completion of an item can do: a prefill only moves the scheduler on, a decode
completes a decision, provided the cache gives up its sequence. -/
inductive ItemEffect (config : ScenarioConfig) (step : Nat) (live : List SequenceId)
    (rest : List BatchItem) (arrival generation : UInt64) (current : Service) (item : BatchItem)
    (scheduler : SequenceScheduler) : Prop
  | prefilled
      (turned : completeItem arrival generation current item =
        .ok { current with scheduler := scheduler })
      (kept : InService config step live rest { current with scheduler := scheduler }) :
      ItemEffect config step live rest arrival generation current item scheduler
  | decoded {index : Nat} (inside : index < config.vehicleCount.toNat)
      (named : item.id = decisionId config step index) (member : item.id ∈ live)
      (turned : ∀ next, completeItem arrival generation current item = .ok next ↔
        (current.cache.destroySequence item.id).1.isOk = true ∧
          next = recordDecision arrival generation index { current with
            scheduler := scheduler, cache := (current.cache.destroySequence item.id).2 })
      (kept : ∀ cache, InService config step (live.erase item.id) rest
        (recordDecision arrival generation index
          { current with scheduler := scheduler, cache := cache })) :
      ItemEffect config step live rest arrival generation current item scheduler

theorem completeItem_effect {config : ScenarioConfig} {step : Nat} {live : List SequenceId}
    {rest : List BatchItem} {item : BatchItem} {current : Service}
    (inService : InService config step live (item :: rest) current) (accepted : config.Accepted)
    (before : step < config.steps.toNat) (arrival generation : UInt64) :
    ∃ scheduler, scheduler.generation = current.scheduler.generation ∧
      backlog scheduler + 1 = backlog current.scheduler ∧
      ItemEffect config step live rest arrival generation current item scheduler := by
  obtain ⟨scheduler, completed, scheduling, member, fewer, same, entries⟩ :=
    inService.scheduling.complete
  refine ⟨scheduler, same, fewer, ?_⟩
  by_cases decode : item.work = .decode
  · rw [if_pos decode] at scheduling
    obtain ⟨index, inside, named⟩ := inService.ids item.id member
    obtain ⟨accepts, position⟩ := inService.position accepted before inside
    rw [← named] at accepts position
    refine .decoded inside named member ?_ ?_
    · intro next
      rw [completeItem, completed]
      dsimp only
      rw [if_neg (by decide), if_neg (by simp [decode]), if_neg accepts, position]
      by_cases destroyed : (current.cache.destroySequence item.id).1.isOk = true
      · rw [if_neg (not_not.mpr destroyed), Except.ok.injEq]
        exact ⟨fun same => ⟨destroyed, same.symm⟩, fun both => both.2.symm⟩
      · rw [if_pos destroyed]
        exact ⟨nofun, fun both => absurd both.1 destroyed⟩
    · intro cache
      rw [named] at member scheduling ⊢
      exact inService.record member scheduling entries cache arrival generation
  · rw [if_neg decode] at scheduling
    refine .prefilled ?_ ?_
    · rw [completeItem, completed]
      dsimp only
      rw [if_neg (by decide), if_pos (by simp [decode])]
    · refine ⟨scheduling, inService.ids, ?_, inService.count, inService.shapes,
        inService.completed⟩
      dsimp only
      rw [entries]
      exact inService.below

/-! ### Batches -/

/-- A turn of the loop over the batches that succeeds has formed a batch and completed its items
one by one. -/
theorem serveBatch_ok {config : ScenarioConfig} {arrival : UInt64} {current next : Service}
    (turned : serveBatch config arrival current = .ok next) :
    ∃ batch scheduler,
      current.scheduler.schedule .unlimited config.maximumBatchSize.toNat =
        (.ok batch, scheduler) ∧ batch.items ≠ [] ∧
      batch.items.foldlM (completeItem arrival batch.generation) { current with
        scheduler := scheduler
        serviceCursor := current.serviceCursor + serviceDuration batch
        metrics := current.metrics.countBatch batch } = .ok next := by
  rw [serveBatch] at turned
  split at turned
  next => cases turned
  next batch scheduler scheduled =>
    split at turned
    next => cases turned
    next nonempty => exact ⟨batch, scheduler, scheduled, nonempty, turned⟩

/-- A batch moves no decision: its sequences are in flight and the cursor has passed it. -/
theorem InService.begin_batch {config : ScenarioConfig} {step : Nat} {live : List SequenceId}
    {current : Service} (inService : InService config step live [] current) {maximum : Nat}
    {batch : InferenceBatch} {scheduler : SequenceScheduler}
    (scheduled : current.scheduler.schedule .unlimited maximum = (.ok batch, scheduler))
    (nonempty : batch.items ≠ []) (cursor : UInt64) (metrics : WorkloadMetrics) :
    InService config step live batch.items { current with
      scheduler := scheduler, serviceCursor := cursor, metrics := metrics } := by
  obtain ⟨scheduling, _, _, _, _, entries⟩ :=
    inService.scheduling.schedule_ok scheduled nonempty
  refine ⟨scheduling, inService.ids, ?_, inService.count, inService.shapes, inService.completed⟩
  dsimp only
  rw [entries]
  exact inService.below

/-! ### From admission to service -/

/-- Between two steps every known sequence is finished. -/
structure BetweenSteps (config : ScenarioConfig) (step : Nat) {World Return : Type}
    (current : Scenario World Return) : Prop where
  scheduling : Scheduling [] [] current.scheduler
  below : ∀ id ∈ current.scheduler.entries.map Entry.id,
    id.toNat < 1000 + step * config.vehicleCount.toNat
  next : current.nextSequence = decisionId config step 0

section Steps

variable {World Return : Type} {simulation : Simulation World Return} {config : ScenarioConfig}
  {dfa : Grammar.TokenDfa} {step : Nat} {current : Scenario World Return}

theorem BetweenSteps.admitting (between : BetweenSteps config step current) :
    Admitting config step 0 current.admission :=
  ⟨between.scheduling, between.below, between.next, rfl, nofun⟩

/-- When all are admitted, none is complete. -/
theorem Admitting.inService {admitted : Admission World Return}
    (admitting : Admitting config step config.vehicleCount.toNat admitted)
    (cursor : UInt64) (completions : List UInt64) (metrics : WorkloadMetrics) :
    InService config step
      ((List.range config.vehicleCount.toNat).map (decisionId config step)) [] {
        scheduler := admitted.scheduler
        cache := admitted.cache
        serviceCursor := cursor
        decisions := admitted.decisions
        completions := completions
        metrics := metrics } := by
  refine ⟨admitting.scheduling, ?_, admitting.below, admitting.count, admitting.shapes, ?_⟩
  · intro id member
    obtain ⟨index, inside, rfl⟩ := List.mem_map.mp member
    exact ⟨index, List.mem_range.mp inside, rfl⟩
  · simp

/-- The states a step goes through, for a step that succeeds. -/
theorem runStep_ok {turns : Nat} {next : Scenario World Return}
    (ran : runStep simulation config turns dfa step current = .ok next) :
    ∃ admitted begun last,
      openStep simulation config dfa step current = .ok (admitted, begun) ∧
      attemptWhile (unserved config) (serveBatch config (arrivalOf config step)) turns begun =
        .ok last ∧
      next = closeStep simulation config step admitted last current := by
  rw [runStep] at ran
  obtain ⟨⟨admitted, begun⟩, opened, ran⟩ := bind_eq_ok.mp ran
  obtain ⟨last, looped, ran⟩ := bind_eq_ok.mp ran
  exact ⟨admitted, begun, last, opened, looped, (Except.ok.inj ran).symm⟩

theorem openStep_ok {admitted : Admission World Return} {begun : Service}
    (opened : openStep simulation config dfa step current = .ok (admitted, begun)) :
    attemptTurns (admitVehicle simulation config dfa (arrivalOf config step))
        config.vehicleCount.toNat current.admission = .ok admitted ∧
      ∃ metrics, recordPages config admitted.cache current.metrics = .ok metrics ∧
        begun = {
          scheduler := admitted.scheduler
          cache := admitted.cache
          serviceCursor := larger current.serviceCursor (arrivalOf config step)
          decisions := admitted.decisions
          completions := current.completions
          metrics := metrics } := by
  rw [openStep] at opened
  obtain ⟨admission, turned, opened⟩ := bind_eq_ok.mp opened
  obtain ⟨metrics, recorded, opened⟩ := bind_eq_ok.mp opened
  obtain ⟨rfl, rfl⟩ := Prod.mk.inj (Except.ok.inj opened)
  exact ⟨turned, metrics, recorded, rfl⟩

theorem BetweenSteps.open_step (between : BetweenSteps config step current)
    (accepted : config.Accepted) (before : step < config.steps.toNat)
    {admitted : Admission World Return} {begun : Service}
    (opened : openStep simulation config dfa step current = .ok (admitted, begun)) :
    Admitting config step config.vehicleCount.toNat admitted ∧
      InService config step
        ((List.range config.vehicleCount.toNat).map (decisionId config step)) [] begun := by
  obtain ⟨turned, metrics, _, rfl⟩ := openStep_ok opened
  have admitting : Admitting config step config.vehicleCount.toNat admitted := by
    apply attempt_turns_kept _ _ _ _ (fun index admission => Admitting config step index admission)
      between.admitting ?_ turned
    intro index inside middle next _ holds admits
    exact holds.advance accepted before inside admits
  exact ⟨admitting, admitting.inService _ _ _⟩

/-- When all are complete, the step is over. -/
theorem InService.between {served : Service} (inService : InService config step [] [] served)
    {admitted : Admission World Return}
    (admitting : Admitting config step config.vehicleCount.toNat admitted) :
    BetweenSteps config (step + 1) (closeStep simulation config step admitted served current) := by
  refine ⟨inService.scheduling, ?_, ?_⟩
  · intro id member
    have low := inService.below id member
    rwa [Nat.add_mul, Nat.one_mul]
  · rw [← decisionId_next_step, ← admitting.next]
    rfl

/-- What is known of a scenario that has begun. -/
theorem beginScenario_ok {begun : Scenario World Return}
    (started : beginScenario simulation config = .ok (dfa, begun)) :
    config.Accepted ∧ BetweenSteps config 0 begun ∧
      begun.serviceCursor = 0 ∧ begun.metrics = {} ∧ begun.frames = [] ∧
      begun.scheduler = {} := by
  unfold beginScenario at started
  split at started
  next => cases started
  next valid =>
    split at started
    next => cases started
    next =>
      split at started
      next => cases started
      next =>
        obtain ⟨shared, _, started⟩ := bind_eq_ok.mp started
        obtain ⟨rfl, rfl⟩ := Prod.mk.inj (Except.ok.inj started)
        have first : firstDecisionSequenceId = decisionId config 0 0 := by
          rw [decisionId, Nat.zero_mul]
          rfl
        exact ⟨config.accepted_of_valid (not_not.mp valid), ⟨Scheduling.initially, nofun, first⟩,
          rfl, rfl, rfl, rfl⟩

end Steps

/-- A run of the scenario reaches the state at the beginning of one of its batches. -/
inductive ReachesBatch {World Return : Type} (simulation : Simulation World Return)
    (config : ScenarioConfig) (turns step : Nat) (current : Service) : Prop
  | intro {dfa : Grammar.TokenDfa} {begun before : Scenario World Return}
      {admitted : Admission World Return} {first : Service}
      (started : beginScenario simulation config = .ok (dfa, begun))
      (early : step < config.steps.toNat)
      (ran : attemptTurns (runStep simulation config turns dfa) step begun = .ok before)
      (opened : openStep simulation config dfa step before = .ok (admitted, first))
      (visited : Visits (unserved config) (serveBatch config (arrivalOf config step)) first current)
      (continues : unserved config current = true) :
      ReachesBatch simulation config turns step current

end MarketForge.Workloads
