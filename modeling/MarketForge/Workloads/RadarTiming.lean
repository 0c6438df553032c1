import MarketForge.Workloads.RadarService

/-!
# The times a scenario reports

Every sum of the times is in 64 bits and none is checked. When no deadline wraps (`ArrivalsFit`)
and no batch takes the service cursor past 2^64 (`CursorFits`), the recorded times are those over
exact integers. `Clocked` is the invariant between two completions, `Timed` between two steps.
-/
namespace MarketForge.Workloads

open Library Serving

/-! ### The law -/

/-- The times of a decision of a step, over exact integers. -/
structure DecisionTimes (config : ScenarioConfig) (step : Nat)
    (decision : DecisionTrace) : Prop where
  arrival : decision.arrivalMicroseconds.toNat = step * config.framePeriodMicroseconds.toNat
  causal : decision.arrivalMicroseconds.toNat ≤ decision.completionMicroseconds.toNat
  latency : decision.latencyMicroseconds.toNat =
    decision.completionMicroseconds.toNat - decision.arrivalMicroseconds.toNat
  deadline : decision.deadlineMicroseconds.toNat =
    decision.arrivalMicroseconds.toNat + config.decisionDeadlineMicroseconds.toNat
  met : decision.deadlineMet = true ↔
    decision.latencyMicroseconds.toNat ≤ config.decisionDeadlineMicroseconds.toNat

/-- No decision of a later batch is recorded as completed before one of an earlier batch. -/
def CompletionsOrdered (decisions : List DecisionTrace) : Prop :=
  ∀ first ∈ decisions, ∀ second ∈ decisions,
    first.finalBatchGeneration < second.finalBatchGeneration →
      first.completionMicroseconds ≤ second.completionMicroseconds

/-- A decision took longer than the deadline allows. -/
def late (config : ScenarioConfig) (decision : DecisionTrace) : Bool :=
  decide (config.decisionDeadlineMicroseconds.toNat < decision.latencyMicroseconds.toNat)

def framesDecisions {Return : Type} (frames : List (TraceFrame Return)) : List DecisionTrace :=
  frames.flatMap TraceFrame.decisions

structure TimingConsistent (config : ScenarioConfig) {Return : Type}
    (result : ScenarioResult Return) : Prop where
  times : ∀ (step : Nat) frame, result.frames[step]? = some frame →
    ∀ decision ∈ frame.decisions, DecisionTimes config step decision
  misses : result.metrics.deadlineMisses.toNat =
    (framesDecisions result.frames).countP (late config)
  ordered : CompletionsOrdered (framesDecisions result.frames)

/-! ### What must not wrap -/

/-- The deadline of the last step fits in 64 bits. -/
def ArrivalsFit (config : ScenarioConfig) : Prop :=
  (config.steps.toNat - 1) * config.framePeriodMicroseconds.toNat +
    config.decisionDeadlineMicroseconds.toNat < 2 ^ 64

/-- No batch takes the service cursor past 2^64. -/
def CursorFits {World Return : Type} (simulation : Simulation World Return)
    (config : ScenarioConfig) (turns : Nat) : Prop :=
  ∀ step current batch scheduler, ReachesBatch simulation config turns step current →
    current.scheduler.schedule .unlimited config.maximumBatchSize.toNat = (.ok batch, scheduler) →
    current.serviceCursor.toNat + (serviceDuration batch).toNat < 2 ^ 64

section Steps

variable {World Return : Type} {simulation : Simulation World Return} {config : ScenarioConfig}
  {dfa : Grammar.TokenDfa} {turns : Nat} {begun : Scenario World Return}

/-- No batch of a step wraps the cursor. -/
def StepFits (simulation : Simulation World Return) (config : ScenarioConfig)
    (dfa : Grammar.TokenDfa) (step : Nat) (current : Scenario World Return) : Prop :=
  ∀ admitted first now batch scheduler,
    openStep simulation config dfa step current = .ok (admitted, first) →
    Visits (unserved config) (serveBatch config (arrivalOf config step)) first now →
    unserved config now = true →
    now.scheduler.schedule .unlimited config.maximumBatchSize.toNat = (.ok batch, scheduler) →
    now.serviceCursor.toNat + (serviceDuration batch).toNat < 2 ^ 64

theorem cursor_fits_iff_steps (started : beginScenario simulation config = .ok (dfa, begun)) :
    CursorFits simulation config turns ↔ ∀ step < config.steps.toNat, ∀ current,
      attemptTurns (runStep simulation config turns dfa) step begun = .ok current →
        StepFits simulation config dfa step current := by
  constructor
  · intro fits step early current reached admitted first now batch scheduler opened visited
      continues scheduled
    exact fits step now batch scheduler
      (.intro started early reached opened visited continues) scheduled
  · rintro fits step current batch scheduler ⟨begins, early, reached, opened, visited, continues⟩
      scheduled
    obtain ⟨rfl, rfl⟩ := Prod.mk.inj (Except.ok.inj (started.symm.trans begins))
    exact fits step early _ reached _ _ _ _ _ opened visited continues scheduled

end Steps

section Arrivals

variable {config : ScenarioConfig} {step : Nat}

theorem arrivalOf_toNat (before : step < config.steps.toNat)
    (fits : step * config.framePeriodMicroseconds.toNat < 2 ^ 64) :
    (arrivalOf config step).toNat = step * config.framePeriodMicroseconds.toNat := by
  have steps := config.steps.toNat_lt
  rw [arrivalOf, UInt64.toNat_mul, UInt64.toNat_ofNat',
    Nat.mod_eq_of_lt (by omega : step < 2 ^ 64), Nat.mod_eq_of_lt fits]

/-- The scheduler forms no batch after the last generation, so the count does not wrap. -/
theorem generation_next {generation : UInt64}
    (room : generation ≠ UInt64.ofNat (UInt64.size - 1)) :
    (generation + 1).toNat = generation.toNat + 1 := by
  have bound := generation.toNat_lt
  have below : generation.toNat ≠ 2 ^ 64 - 1 := fun full => room (UInt64.toNat_inj.mp full)
  rw [UInt64.toNat_add]
  change (_ + 1) % _ = _
  omega

/-- The arrivals of a scenario whose last deadline fits are exact, and so are the deadlines. -/
theorem ArrivalsFit.exact (fits : ArrivalsFit config) (before : step < config.steps.toNat) :
    (arrivalOf config step).toNat = step * config.framePeriodMicroseconds.toNat ∧
      (arrivalOf config step + config.decisionDeadlineMicroseconds).toNat =
        step * config.framePeriodMicroseconds.toNat +
          config.decisionDeadlineMicroseconds.toNat := by
  have earlier : step * config.framePeriodMicroseconds.toNat ≤
      (config.steps.toNat - 1) * config.framePeriodMicroseconds.toNat :=
    Nat.mul_le_mul_right _ (by omega)
  rw [ArrivalsFit] at fits
  have arrival := arrivalOf_toNat before (by omega)
  refine ⟨arrival, ?_⟩
  rw [UInt64.toNat_add, arrival, Nat.mod_eq_of_lt (by omega)]

end Arrivals

/-- A decision that is admitted and not complete: its times are still zero. -/
structure DecisionTrace.Fresh (decision : DecisionTrace) : Prop where
  completion : decision.completionMicroseconds = 0
  latency : decision.latencyMicroseconds = 0
  generation : decision.finalBatchGeneration = 0

theorem DecisionTrace.Fresh.not_late {decision : DecisionTrace} (fresh : decision.Fresh)
    (config : ScenarioConfig) : late config decision = false := by
  rw [late, fresh.latency]
  exact decide_eq_false (Nat.not_lt_zero _)

/-! ### Between two completions -/

/-- What the decisions recorded so far have in common: none is later than the cursor or of a later
batch, they are in order, and those that are late are counted. -/
structure Recorded (config : ScenarioConfig) (decisions : List DecisionTrace)
    (cursor generation misses : UInt64) : Prop where
  past : ∀ decision ∈ decisions, decision.completionMicroseconds ≤ cursor
  known : ∀ decision ∈ decisions, decision.finalBatchGeneration ≤ generation
  ordered : CompletionsOrdered decisions
  misses : misses.toNat = decisions.countP (late config)

namespace Recorded

variable {config : ScenarioConfig} {decisions added : List DecisionTrace}
  {cursor generation misses : UInt64}

/-- The cursor and the generation may move on. -/
theorem mono (recorded : Recorded config decisions cursor generation misses) {later next : UInt64}
    (moved : cursor ≤ later) (numbered : generation ≤ next) :
    Recorded config decisions later next misses :=
  ⟨fun decision member => UInt64.le_trans (recorded.past decision member) moved,
    fun decision member => UInt64.le_trans (recorded.known decision member) numbered,
    recorded.ordered, recorded.misses⟩

/-- A decision that is not complete is no later than any other. -/
theorem admitted (recorded : Recorded config decisions cursor generation misses)
    (fresh : ∀ decision ∈ added, decision.Fresh) :
    Recorded config (decisions ++ added) cursor generation misses := by
  refine ⟨?_, ?_, ?_, ?_⟩
  · intro decision member
    rcases List.mem_append.mp member with old | new
    · exact recorded.past decision old
    · rw [(fresh decision new).completion]
      exact UInt64.zero_le
  · intro decision member
    rcases List.mem_append.mp member with old | new
    · exact recorded.known decision old
    · rw [(fresh decision new).generation]
      exact UInt64.zero_le
  · intro first firstMember second secondMember earlier
    rcases List.mem_append.mp firstMember with old | new
    · rcases List.mem_append.mp secondMember with older | newer
      · exact recorded.ordered first old second older earlier
      · rw [(fresh second newer).generation] at earlier
        exact absurd earlier UInt64.not_lt_zero
    · rw [(fresh first new).completion]
      exact UInt64.zero_le
  · have none_late : added.countP (late config) = 0 := by
      rw [List.countP_eq_zero]
      intro decision member
      rw [(fresh decision member).not_late]
      exact Bool.false_ne_true
    rw [List.countP_append, none_late]
    exact recorded.misses

/-- A decision completed at the cursor, in the latest batch, takes the place of a fresh one. -/
theorem complete {earlier frame : List DecisionTrace} {index : Nat} {old : DecisionTrace}
    (recorded : Recorded config (earlier ++ frame) cursor generation misses) (new : DecisionTrace)
    (place : frame[index]? = some old) (fresh : old.Fresh)
    (completion : new.completionMicroseconds = cursor)
    (batch : new.finalBatchGeneration = generation)
    (few : (earlier ++ frame).length < 2 ^ 64) :
    Recorded config (earlier ++ frame.set index new) cursor generation
      (misses + if late config new then 1 else 0) := by
  obtain ⟨inside, found⟩ := List.getElem?_eq_some_iff.mp place
  have cases_of : ∀ decision ∈ earlier ++ frame.set index new,
      decision ∈ earlier ++ frame ∨ decision = new := by
    intro decision member
    rcases List.mem_append.mp member with before | current
    · exact .inl (List.mem_append_left _ before)
    · rcases List.mem_or_eq_of_mem_set current with kept | replaced
      · exact .inl (List.mem_append_right _ kept)
      · exact .inr replaced
  refine ⟨?_, ?_, ?_, ?_⟩
  · intro decision member
    rcases cases_of decision member with kept | rfl
    · exact recorded.past decision kept
    · rw [completion]
      exact UInt64.le_refl _
  · intro decision member
    rcases cases_of decision member with kept | rfl
    · exact recorded.known decision kept
    · rw [batch]
      exact UInt64.le_refl _
  · intro first firstMember second secondMember sooner
    rcases cases_of second secondMember with kept | rfl
    · rcases cases_of first firstMember with other | rfl
      · exact recorded.ordered first other second kept sooner
      · -- the new decision is of the latest batch, so none is of a later one
        rw [batch] at sooner
        exact absurd sooner (UInt64.not_lt.mpr (recorded.known second kept))
    · rcases cases_of first firstMember with other | rfl
      · rw [completion]
        exact recorded.past first other
      · exact UInt64.le_refl _
  · have replaced : (frame.set index new).countP (late config) =
        frame.countP (late config) + if late config new then 1 else 0 := by
      rw [List.countP_set inside, found, fresh.not_late]
      rfl
    -- the misses are no more than the decisions, so their count does not wrap
    have most := List.countP_le_length (p := late config) (l := earlier ++ frame.set index new)
    rw [List.length_append, List.length_set, ← List.length_append] at most
    rw [List.countP_append, replaced, ← Nat.add_assoc, ← List.countP_append,
      ← recorded.misses] at most ⊢
    rw [UInt64.toNat_add]
    split
    next isLate =>
      rw [if_pos isLate] at most
      exact Nat.mod_eq_of_lt (by change _ + 1 < _; omega)
    next => exact Nat.mod_eq_of_lt (by change _ + 0 < _; omega)

end Recorded

/-- Between two completions of a step, with the decisions of the earlier steps. -/
structure Clocked (config : ScenarioConfig) (step : Nat) (earlier : List DecisionTrace)
    (live : List SequenceId) (current : Service) : Prop where
  arrived : arrivalOf config step ≤ current.serviceCursor
  recorded : Recorded config (earlier ++ current.decisions) current.serviceCursor
    current.scheduler.generation current.metrics.deadlineMisses
  fresh : ∀ (i : Nat) decision, current.decisions[i]? = some decision →
    decisionId config step i ∈ live → decision.Fresh
  settled : ∀ (i : Nat) decision, current.decisions[i]? = some decision →
    decisionId config step i ∉ live → DecisionTimes config step decision

namespace Clocked

variable {config : ScenarioConfig} {step : Nat} {earlier : List DecisionTrace}
  {live : List SequenceId} {current : Service}

/-- A batch moves the cursor on, unless the sum wraps. -/
theorem begin_batch (clocked : Clocked config step earlier live current) (duration : UInt64)
    (fits : current.serviceCursor.toNat + duration.toNat < 2 ^ 64) {scheduler : SequenceScheduler}
    (generation : scheduler.generation = current.scheduler.generation + 1)
    (room : current.scheduler.generation ≠ UInt64.ofNat (UInt64.size - 1))
    (metrics : WorkloadMetrics)
    (misses : metrics.deadlineMisses = current.metrics.deadlineMisses) :
    Clocked config step earlier live { current with
      scheduler := scheduler
      serviceCursor := current.serviceCursor + duration
      metrics := metrics } := by
  have moved : current.serviceCursor ≤ current.serviceCursor + duration := by
    rw [UInt64.le_iff_toNat_le, UInt64.toNat_add, Nat.mod_eq_of_lt fits]
    exact Nat.le_add_right _ _
  have numbered : current.scheduler.generation ≤ scheduler.generation := by
    rw [generation, UInt64.le_iff_toNat_le, generation_next room]
    exact Nat.le_succ _
  refine ⟨UInt64.le_trans clocked.arrived moved, ?_, clocked.fresh, clocked.settled⟩
  have recorded := clocked.recorded.mono moved numbered
  rw [← misses] at recorded
  exact recorded

/-- The times of a decision as it is recorded. -/
private theorem recorded_times (fits : ArrivalsFit config) (before : step < config.steps.toNat)
    {index : Nat} {decision : DecisionTrace} (shape : DecisionShape config step index decision)
    {cursor : UInt64} (arrived : arrivalOf config step ≤ cursor) (generation : UInt64) :
    DecisionTimes config step (decision.completedAt cursor (arrivalOf config step) generation) := by
  obtain ⟨arrival, deadline⟩ := fits.exact before
  have causal := UInt64.le_iff_toNat_le.mp arrived
  have latency := UInt64.toNat_sub_of_le _ _ arrived
  constructor
  case arrival => exact (congrArg UInt64.toNat shape.arrival).trans arrival
  case causal => exact (congrArg UInt64.toNat shape.arrival).trans_le causal
  case latency =>
    rw [DecisionTrace.completedAt]
    dsimp only
    rw [shape.arrival]
    exact latency
  case deadline =>
    rw [DecisionTrace.completedAt]
    dsimp only
    rw [shape.deadline, shape.arrival, deadline, arrival]
  case met =>
    rw [DecisionTrace.completedAt]
    dsimp only
    rw [decide_eq_true_iff, shape.deadline, UInt64.le_iff_toNat_le, deadline, latency, arrival]
    omega

/-- What a record writes, where the index is one of the frame. -/
private theorem recordDecision_place (current : Service) {index : Nat} {old : DecisionTrace}
    (place : current.decisions[index]? = some old) (arrival generation : UInt64) :
    (recordDecision arrival generation index current).decisions = current.decisions.set index
        (old.completedAt current.serviceCursor arrival generation) ∧
      (recordDecision arrival generation index current).serviceCursor = current.serviceCursor ∧
      (recordDecision arrival generation index current).scheduler = current.scheduler ∧
      (recordDecision arrival generation index current).metrics.deadlineMisses =
        current.metrics.deadlineMisses +
          if (old.completedAt current.serviceCursor arrival generation).deadlineMet then 0
          else 1 := by
  have read : current.decisions.getD index {} = old := by
    rw [List.getD_eq_getElem?_getD, place, Option.getD_some]
  rw [recordDecision]
  dsimp only
  rw [read]
  exact ⟨rfl, rfl, rfl, rfl⟩

/-- Recording a completion. -/
theorem record (clocked : Clocked config step earlier live current) (fits : ArrivalsFit config)
    (before : step < config.steps.toNat)
    (count : current.decisions.length = config.vehicleCount.toNat)
    (shapes : ∀ (i : Nat) decision, current.decisions[i]? = some decision →
      DecisionShape config step i decision)
    (size : earlier.length = step * config.vehicleCount.toNat) {index : Nat}
    (inside : index < config.vehicleCount.toNat) (member : decisionId config step index ∈ live)
    (distinct : live.Nodup) {scheduler : SequenceScheduler}
    (same : scheduler.generation = current.scheduler.generation) (cache : PagedKvCache) :
    Clocked config step earlier (live.erase (decisionId config step index))
      (recordDecision (arrivalOf config step) current.scheduler.generation index
        { current with scheduler := scheduler, cache := cache }) := by
  have few := decisions_few config
  have within := position_within before (Nat.le_refl config.vehicleCount.toNat)
  obtain ⟨old, place⟩ : ∃ old, current.decisions[index]? = some old :=
    ⟨_, List.getElem?_eq_getElem (by rwa [count])⟩
  -- a decision of its own id leaves the service; the others stay as they are
  have others : ∀ (i : Nat) decision, index ≠ i → current.decisions[i]? = some decision →
      (decisionId config step i ∈ live.erase (decisionId config step index) ↔
        decisionId config step i ∈ live) := by
    intro i decision apart at_i
    obtain ⟨below, _⟩ := List.getElem?_eq_some_iff.mp at_i
    rw [count] at below
    exact List.mem_erase_of_ne fun equal => apart (decisionId_inj before inside below equal.symm)
  have times := recorded_times fits before (shapes index old place) clocked.arrived
    current.scheduler.generation
  have replaced := clocked.recorded.complete
    (old.completedAt current.serviceCursor (arrivalOf config step)
      current.scheduler.generation) place (clocked.fresh index old place member) rfl rfl (by
        rw [List.length_append, size, count]
        omega)
  -- the counter of misses goes up exactly when the decision is late
  have counted : (if (old.completedAt current.serviceCursor (arrivalOf config step)
      current.scheduler.generation).deadlineMet then (0 : UInt64) else 1) =
        if late config (old.completedAt current.serviceCursor (arrivalOf config step)
          current.scheduler.generation) then 1 else 0 := by
    by_cases inTime : (old.completedAt current.serviceCursor (arrivalOf config step)
        current.scheduler.generation).deadlineMet = true
    · have notLate := Nat.not_lt.mpr (times.met.mp inTime)
      rw [if_pos inTime, if_neg (by rw [late, decide_eq_true_iff]; exact notLate)]
    · have isLate := Nat.not_le.mp (mt times.met.mpr inTime)
      rw [if_neg inTime, if_pos (by rw [late, decide_eq_true_iff]; exact isLate)]
  -- only these members of the service matter from here on
  obtain ⟨decisions, cursor, generation, misses⟩ := recordDecision_place
    { current with scheduler := scheduler, cache := cache } place
    (arrivalOf config step) current.scheduler.generation
  generalize recordDecision (arrivalOf config step) current.scheduler.generation index
    { current with scheduler := scheduler, cache := cache } = next at *
  dsimp only at decisions cursor generation misses
  refine ⟨?_, ?_, ?_, ?_⟩
  · rw [cursor]
    exact clocked.arrived
  · rw [decisions, cursor, generation, same, misses, counted]
    exact replaced
  · intro i decision at_i remains
    rw [decisions] at at_i
    by_cases here : index = i
    · subst here
      exact absurd remains distinct.not_mem_erase
    · rw [List.getElem?_set_ne here] at at_i
      exact clocked.fresh i decision at_i ((others i decision here at_i).mp remains)
  · intro i decision at_i gone
    rw [decisions] at at_i
    by_cases here : index = i
    · subst here
      rw [List.getElem?_set_self (by rwa [count])] at at_i
      obtain rfl := Option.some.inj at_i
      exact times
    · rw [List.getElem?_set_ne here] at at_i
      exact clocked.settled i decision at_i (mt (others i decision here at_i).mpr gone)

/-- A batch whose duration fits keeps the times exact. -/
theorem batch (clocked : Clocked config step earlier live current)
    (inService : InService config step live [] current) (accepted : config.Accepted)
    (fits : ArrivalsFit config) (before : step < config.steps.toNat)
    (size : earlier.length = step * config.vehicleCount.toNat)
    (bounded : ∀ batch scheduler,
      current.scheduler.schedule .unlimited config.maximumBatchSize.toNat = (.ok batch, scheduler) →
      current.serviceCursor.toNat + (serviceDuration batch).toNat < 2 ^ 64) {next : Service}
    (turned : serveBatch config (arrivalOf config step) current = .ok next) :
    ∃ live', InService config step live' [] next ∧ Clocked config step earlier live' next := by
  obtain ⟨batch, scheduler, scheduled, nonempty, ran⟩ := serveBatch_ok turned
  obtain ⟨_, _, formed, generation, room, _⟩ :=
    inService.scheduling.schedule_ok scheduled nonempty
  have begun := clocked.begin_batch (serviceDuration batch) (bounded batch scheduler scheduled)
    generation room (current.metrics.countBatch batch) rfl
  have starts := inService.begin_batch scheduled nonempty
    (current.serviceCursor + serviceDuration batch) (current.metrics.countBatch batch)
  obtain ⟨live', served, times, _⟩ := attempt_each_kept
    (completeItem (arrivalOf config step) batch.generation) batch.items _ next
    (fun rest now => ∃ live', InService config step live' rest now ∧
      Clocked config step earlier live' now ∧ now.scheduler.generation = batch.generation)
    ⟨live, starts, begun, generation.trans formed.symm⟩ (by
      rintro item rest now after ⟨others, holds, clock, numbered⟩ completed
      obtain ⟨scheduler, same, _, effect⟩ :=
        completeItem_effect holds accepted before (arrivalOf config step) batch.generation
      cases effect with
      | prefilled turned kept =>
        obtain rfl := Except.ok.inj (turned.symm.trans completed)
        refine ⟨others, kept, ⟨clock.arrived, ?_, clock.fresh, clock.settled⟩,
          same.trans numbered⟩
        rw [same]
        exact clock.recorded
      | @decoded index inside named member turned kept =>
        obtain ⟨_, rfl⟩ := (turned after).mp completed
        have recorded := clock.record fits before holds.count holds.shapes size inside
          (named ▸ member) holds.scheduling.distinct same
          (now.cache.destroySequence item.id).2
        rw [← named, numbered] at recorded
        exact ⟨_, kept _, recorded, same.trans numbered⟩) ran
  exact ⟨live', served, times⟩

end Clocked

/-! ### Between two steps -/

/-- Between two steps: the times of the frames so far are exact. -/
structure Timed (config : ScenarioConfig) (step : Nat) {World Return : Type}
    (current : Scenario World Return) : Prop where
  between : BetweenSteps config step current
  frames : current.frames.length = step
  size : (framesDecisions current.frames).length = step * config.vehicleCount.toNat
  times : ∀ (k : Nat) frame, current.frames[k]? = some frame →
    ∀ decision ∈ frame.decisions, DecisionTimes config k decision
  recorded : Recorded config (framesDecisions current.frames) current.serviceCursor
    current.scheduler.generation current.metrics.deadlineMisses

section

variable {World Return : Type} {simulation : Simulation World Return} {config : ScenarioConfig}
  {dfa : Grammar.TokenDfa} {turns step : Nat}

/-- Admissions form no batch and complete no decision. -/
theorem BetweenSteps.admitted {current : Scenario World Return}
    (between : BetweenSteps config step current) (accepted : config.Accepted)
    (before : step < config.steps.toNat) {admitted : Admission World Return}
    (turned : attemptTurns (admitVehicle simulation config dfa (arrivalOf config step))
      config.vehicleCount.toNat current.admission = .ok admitted) :
    admitted.scheduler.generation = current.scheduler.generation ∧
      backlog admitted.scheduler = 2 * config.vehicleCount.toNat ∧
      ∀ decision ∈ admitted.decisions, decision.Fresh := by
  have kept := attempt_turns_kept _ _ _ _
    (fun index (admission : Admission World Return) => Admitting config step index admission ∧
      admission.scheduler.generation = current.scheduler.generation ∧
      backlog admission.scheduler = 2 * index ∧
      ∀ decision ∈ admission.decisions, decision.Fresh)
    ⟨between.admitting, rfl, between.scheduling.backlog_zero, nofun⟩ (by
      rintro index inside now next _ ⟨admitting, same, waiting, fresh⟩ admits
      obtain ⟨_, scheduler, _, decisions⟩ := admitVehicle_ok admits
      obtain ⟨after, enqueued, generation, more, _⟩ := admitting.enqueue accepted before inside
      refine ⟨admitting.advance accepted before inside admits, ?_, ?_, ?_⟩
      · rw [scheduler, enqueued]
        exact generation.trans same
      · rw [scheduler, enqueued]
        dsimp only
        omega
      · intro decision member
        rw [decisions] at member
        rcases List.mem_append.mp member with old | new
        · exact fresh decision old
        · obtain rfl := List.mem_singleton.mp new
          exact ⟨rfl, rfl, rfl⟩) turned
  exact kept.2

theorem larger_left (first second : UInt64) : first ≤ larger first second := by
  rw [UInt64.le_iff_toNat_le, larger_toNat]
  exact Nat.le_max_left _ _

theorem larger_right (first second : UInt64) : second ≤ larger first second := by
  rw [UInt64.le_iff_toNat_le, larger_toNat]
  exact Nat.le_max_right _ _

/-- The frame of a step starts with no decision complete. -/
theorem Timed.open_step {current : Scenario World Return} (timed : Timed config step current)
    (accepted : config.Accepted) (before : step < config.steps.toNat)
    {admitted : Admission World Return} {begun : Service}
    (opened : openStep simulation config dfa step current = .ok (admitted, begun)) :
    Clocked config step (framesDecisions current.frames)
      ((List.range config.vehicleCount.toNat).map (decisionId config step)) begun := by
  have count := (timed.between.open_step accepted before opened).2.count
  obtain ⟨turned, metrics, counted, rfl⟩ := openStep_ok opened
  obtain ⟨generation, _, fresh⟩ := timed.between.admitted accepted before turned
  have misses : metrics.deadlineMisses = current.metrics.deadlineMisses := by
    rw [recordPages] at counted
    split at counted
    next => cases counted
    next =>
      obtain rfl := Except.ok.inj counted
      rfl
  constructor
  case arrived => exact larger_right _ _
  case recorded =>
    dsimp only
    rw [generation, misses]
    exact (timed.recorded.mono (larger_left _ _) (UInt64.le_refl _)).admitted fresh
  case fresh => exact fun i decision at_i _ => fresh decision (List.mem_of_getElem? at_i)
  case settled =>
    intro i decision at_i gone
    obtain ⟨below, _⟩ := List.getElem?_eq_some_iff.mp at_i
    rw [count] at below
    exact absurd (List.mem_map_of_mem (List.mem_range.mpr below)) gone

/-- A step whose batches all fit keeps the times exact. -/
theorem Timed.run_step {current next : Scenario World Return} (timed : Timed config step current)
    (accepted : config.Accepted) (fits : ArrivalsFit config) (before : step < config.steps.toNat)
    (bounded : StepFits simulation config dfa step current)
    (ran : runStep simulation config turns dfa step current = .ok next) :
    Timed config (step + 1) next := by
  obtain ⟨admitted, first, last, opened, looped, rfl⟩ := runStep_ok ran
  obtain ⟨admitting, serving⟩ := timed.between.open_step accepted before opened
  have clocked := timed.open_step accepted before opened
  -- the service and the clock, carried together through the batches of this step
  obtain ⟨⟨live, served, clock⟩, stopped⟩ := attempt_while_kept _ _ _ _ _
    (fun now => ∃ live, InService config step live [] now ∧
      Clocked config step (framesDecisions current.frames) live now) ⟨_, serving, clocked⟩ (by
      rintro now after visited continues ⟨live, holds, clock⟩ turned
      exact clock.batch holds accepted fits before timed.size (fun batch scheduler =>
        bounded admitted first now batch scheduler opened visited continues) turned) looped
  obtain rfl := served.none_live stopped
  have all : framesDecisions (closeStep simulation config step admitted last current).frames =
      framesDecisions current.frames ++ last.decisions := by
    rw [framesDecisions, closeStep, List.flatMap_append, List.flatMap_singleton]
    rfl
  constructor
  case between => exact served.between admitting
  case frames =>
    change (current.frames ++ [_]).length = _
    rw [List.length_append, timed.frames]
    rfl
  case size => rw [all, List.length_append, timed.size, served.count, Nat.add_mul, Nat.one_mul]
  -- the frames of earlier steps are untouched, and the new one holds the decisions just timed
  case times =>
    intro k frame at_k decision member
    change (current.frames ++ [_])[k]? = _ at at_k
    rcases Nat.lt_or_ge k step with old | new
    · rw [List.getElem?_append_left (by rwa [timed.frames])] at at_k
      exact timed.times k frame at_k decision member
    · rw [List.getElem?_append_right (by rwa [timed.frames]), timed.frames] at at_k
      obtain ⟨single, _⟩ := List.getElem?_eq_some_iff.mp at_k
      obtain rfl : k = step := by
        rw [List.length_singleton] at single
        omega
      rw [Nat.sub_self] at at_k
      obtain rfl := Option.some.inj at_k
      obtain ⟨i, at_i⟩ := List.mem_iff_getElem?.mp member
      exact clock.settled i decision at_i List.not_mem_nil
  case recorded =>
    rw [all]
    exact clock.recorded

/-- The states of a run that succeeds. -/
theorem runScenario_ok {finished : Finished Return}
    (ran : runScenario simulation config turns = .ok finished) :
    ∃ dfa begun last, beginScenario simulation config = .ok (dfa, begun) ∧
      attemptTurns (runStep simulation config turns dfa) config.steps.toNat begun = .ok last ∧
      finished.result = ⟨config, last.frames, last.metrics⟩ := by
  rw [runScenario] at ran
  obtain ⟨⟨dfa, begun⟩, started, ran⟩ := bind_eq_ok.mp ran
  obtain ⟨last, turned, ran⟩ := bind_eq_ok.mp ran
  obtain ⟨cache, _, ran⟩ := bind_eq_ok.mp ran
  obtain rfl := Except.ok.inj ran
  exact ⟨dfa, begun, last, started, turned, rfl⟩

/-- A scenario has begun with no frame. -/
theorem Timed.initially {begun : Scenario World Return}
    (started : beginScenario simulation config = .ok (dfa, begun)) : Timed config 0 begun := by
  obtain ⟨_, between, _, metrics, frames, _⟩ := beginScenario_ok started
  have none_yet : framesDecisions begun.frames = [] := by
    rw [frames]
    rfl
  refine ⟨between, by rw [frames]; rfl, by rw [none_yet, Nat.zero_mul]; rfl, ?_, ?_⟩
  · rw [frames]
    nofun
  · rw [none_yet, metrics]
    exact ⟨nofun, nofun, nofun, rfl⟩

/-- In a run that wraps no deadline and no cursor every reported time is exact. -/
theorem timing_of_fits {finished : Finished Return} (arrivals : ArrivalsFit config)
    (cursor : CursorFits simulation config turns)
    (ran : runScenario simulation config turns = .ok finished) :
    TimingConsistent config finished.result := by
  obtain ⟨dfa, begun, last, started, turned, result⟩ := runScenario_ok ran
  have accepted := (beginScenario_ok started).1
  have timed : Timed config config.steps.toNat last := by
    apply attempt_turns_kept _ _ _ _ (fun step current => Timed config step current)
      (Timed.initially started) ?_ turned
    intro step before current next reached holds stepped
    exact holds.run_step accepted arrivals before
      ((cursor_fits_iff_steps started).mp cursor step before current reached) stepped
  rw [result]
  exact ⟨timed.times, timed.recorded.misses, timed.recorded.ordered⟩

end

end MarketForge.Workloads
