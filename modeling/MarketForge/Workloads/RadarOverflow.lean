import MarketForge.Workloads.RadarTiming

/-!
# Times that wrap

The converse: where the reported times are consistent, no deadline has wrapped, and with fewer
than 2^28 vehicles no batch has taken the cursor past 2^64. The batches of one step then last less
than 2^64 together, so a cursor that wraps ends the step below where it began, and the last batch of
a step completes a decision.
-/
namespace MarketForge.Workloads

open Library Serving

/-! ### The length of a batch -/

/-- The duration of a batch over exact integers. Only the product in the jitter is reduced. -/
def exactDuration (context generation prefills decodes : Nat) : Nat :=
  (if prefills ≠ 0 then 800 + context * 7 + prefills * 35 + generation * 37 % 2 ^ 64 % 101
    else 0) +
  (if decodes ≠ 0 then 360 + decodes * 28 + generation * 37 % 2 ^ 64 % 101 else 0)

private theorem batchDuration_toNat (kind : WorkKind) (context : UInt32) (size : Nat)
    (generation : UInt64) (few : size < 2 ^ 32) :
    (batchDurationMicroseconds kind context size generation).toNat =
      if kind = .prefill then
        800 + context.toNat * 7 + size * 35 + generation.toNat * 37 % 2 ^ 64 % 101
      else 360 + size * 28 + generation.toNat * 37 % 2 ^ 64 % 101 := by
  have bound := context.toNat_lt
  have jitter : (generation * 37 % 101).toNat = generation.toNat * 37 % 2 ^ 64 % 101 := by
    rw [UInt64.toNat_mod, UInt64.toNat_mul]
    rfl
  have small : generation.toNat * 37 % 2 ^ 64 % 101 < 101 := Nat.mod_lt _ (by decide)
  rw [batchDurationMicroseconds]
  split
  next =>
    rw [UInt64.toNat_add, UInt64.toNat_add, UInt64.toNat_add, UInt64.toNat_mul, UInt64.toNat_mul,
      UInt64.toNat_ofNat', UInt32.toNat_toUInt64, jitter]
    change (((800 + context.toNat * 7 % _) % _ + size % _ * 35 % _) % _ + _) % _ = _
    generalize generation.toNat * 37 % 2 ^ 64 % 101 = jitter at small ⊢
    simp (disch := omega) only [Nat.mod_eq_of_lt]
  next =>
    rw [UInt64.toNat_add, UInt64.toNat_add, UInt64.toNat_mul, UInt64.toNat_ofNat', jitter]
    change ((360 + size % _ * 28 % _) % _ + _) % _ = _
    generalize generation.toNat * 37 % 2 ^ 64 % 101 = jitter at small ⊢
    simp (disch := omega) only [Nat.mod_eq_of_lt]

/-- No batch lasts long enough to wrap by itself. -/
theorem serviceDuration_toNat (batch : InferenceBatch) (few : batch.items.length < 2 ^ 32) :
    (serviceDuration batch).toNat = exactDuration (maximumContext batch).toNat
      batch.generation.toNat (prefillCount batch) (decodeCount batch) := by
  have context := (maximumContext batch).toNat_lt
  have prefills : prefillCount batch ≤ batch.items.length := List.countP_le_length
  have decodes : decodeCount batch ≤ batch.items.length := Nat.sub_le _ _
  have prefillTime := batchDuration_toNat .prefill (maximumContext batch) (prefillCount batch)
    batch.generation (by omega)
  have decodeTime := batchDuration_toNat .decode (maximumContext batch) (decodeCount batch)
    batch.generation (by omega)
  have small : batch.generation.toNat * 37 % 2 ^ 64 % 101 < 101 := Nat.mod_lt _ (by decide)
  rw [if_pos rfl] at prefillTime
  rw [if_neg (by decide)] at decodeTime
  rw [serviceDuration, exactDuration, UInt64.toNat_add, apply_ite UInt64.toNat,
    apply_ite UInt64.toNat, prefillTime, decodeTime, UInt64.toNat_zero]
  apply Nat.mod_eq_of_lt
  split_ifs <;> omega

/-- A batch lasts less than 2^35 microseconds for each of its items. -/
theorem serviceDuration_le (batch : InferenceBatch) (nonempty : batch.items ≠ [])
    (few : batch.items.length < 2 ^ 32) :
    (serviceDuration batch).toNat ≤ batch.items.length * 2 ^ 35 := by
  have positive := List.length_pos_of_ne_nil nonempty
  have context := (maximumContext batch).toNat_lt
  have prefills : prefillCount batch ≤ batch.items.length := List.countP_le_length
  have decodes : decodeCount batch = batch.items.length - prefillCount batch := rfl
  have small : batch.generation.toNat * 37 % 2 ^ 64 % 101 < 101 := Nat.mod_lt _ (by decide)
  rw [serviceDuration_toNat batch few, exactDuration]
  split_ifs <;> omega

/-! ### One batch -/

section

variable {config : ScenarioConfig} {step : Nat} {live : List SequenceId} {current next : Service}

/-- What a batch does to the clock of the scenario. A batch that completes a decision records the
cursor and the generation it leaves. -/
structure Passed (config : ScenarioConfig) (step : Nat) (live live' : List SequenceId)
    (batch : InferenceBatch) (current next : Service) : Prop where
  inService : InService config step live' [] next
  cursor : next.serviceCursor = current.serviceCursor + serviceDuration batch
  generation : next.scheduler.generation.toNat = current.scheduler.generation.toNat + 1
  backlog : backlog next.scheduler + batch.items.length = backlog current.scheduler
  bound : (serviceDuration batch).toNat ≤ batch.items.length * 2 ^ 35
  marked : live' = live ∨ ∃ decision ∈ next.decisions,
    decision.completionMicroseconds = next.serviceCursor ∧
      decision.finalBatchGeneration = next.scheduler.generation

/-- The decision just recorded. -/
private theorem recordDecision_member (current : Service) (index : Nat)
    (inside : index < current.decisions.length) (arrival generation : UInt64) :
    ∃ decision ∈ (recordDecision arrival generation index current).decisions,
      decision.completionMicroseconds = current.serviceCursor ∧
        decision.finalBatchGeneration = generation :=
  ⟨_, List.mem_set inside _, rfl, rfl⟩

theorem InService.pass (inService : InService config step live [] current)
    (accepted : config.Accepted) (before : step < config.steps.toNat)
    (turned : serveBatch config (arrivalOf config step) current = .ok next) :
    ∃ batch scheduler live',
      current.scheduler.schedule .unlimited config.maximumBatchSize.toNat =
        (.ok batch, scheduler) ∧ Passed config step live live' batch current next := by
  obtain ⟨batch, scheduler, scheduled, nonempty, ran⟩ := serveBatch_ok turned
  obtain ⟨_, waiting, formed, generation, room, _⟩ :=
    inService.scheduling.schedule_ok scheduled nonempty
  have few : batch.items.length < 2 ^ 32 :=
    (Scheduling.batch_bounded scheduled).trans_lt config.maximumBatchSize.toNat_lt
  -- what holds after each item: the clock and the generation stand, the backlog falls by one, and
  -- a decision that leaves `live` is recorded with both
  obtain ⟨live', served, cursor, same, left, marked⟩ := attempt_each_kept
    (completeItem (arrivalOf config step) batch.generation) batch.items _ next
    (fun rest now => ∃ live', InService config step live' rest now ∧
      now.serviceCursor = current.serviceCursor + serviceDuration batch ∧
      now.scheduler.generation = scheduler.generation ∧
      backlog now.scheduler + batch.items.length = backlog scheduler + rest.length ∧
      (live' = live ∨ ∃ decision ∈ now.decisions,
        decision.completionMicroseconds = current.serviceCursor + serviceDuration batch ∧
          decision.finalBatchGeneration = scheduler.generation))
    ⟨live, inService.begin_batch scheduled nonempty _ _, rfl, rfl, rfl, .inl rfl⟩ (by
      rintro item rest now after ⟨others, holds, clock, same, left, marked⟩ completed
      obtain ⟨scheduler', again, fewer, effect⟩ :=
        completeItem_effect holds accepted before (arrivalOf config step) batch.generation
      rw [List.length_cons] at left
      cases effect with
      -- a prompt was processed: nothing is recorded
      | prefilled turned kept =>
        obtain rfl := Except.ok.inj (turned.symm.trans completed)
        exact ⟨others, kept, clock, again.trans same, by dsimp only; omega, marked⟩
      -- the last output of a decision: it is recorded now
      | @decoded index inside named member turned kept =>
        obtain ⟨_, rfl⟩ := (turned after).mp completed
        obtain ⟨decision, present, completion, final⟩ := recordDecision_member
          { now with scheduler := scheduler', cache := (now.cache.destroySequence item.id).2 }
          index (by rw [holds.count]; exact inside) (arrivalOf config step) batch.generation
        exact ⟨_, kept _, clock, again.trans same,
          by change backlog scheduler' + _ = _; omega,
          .inr ⟨decision, present, completion.trans clock,
            final.trans (formed.trans generation.symm)⟩⟩) ran
  refine ⟨batch, scheduler, live', scheduled, served, cursor, ?_, ?_,
    serviceDuration_le batch nonempty few, ?_⟩
  · rw [same, generation, generation_next room]
  · rw [List.length_nil, Nat.add_zero, waiting] at left
    exact left
  · rw [cursor, same]
    exact marked

/-! ### From the first batch of a step to the last -/

/-- The time between two states of a step, in which the backlog pays for every batch. -/
def Elapsed (first last : Service) : Prop :=
  ∃ time, last.serviceCursor.toNat = (first.serviceCursor.toNat + time) % 2 ^ 64 ∧
    time + backlog last.scheduler * 2 ^ 35 ≤ backlog first.scheduler * 2 ^ 35

theorem Elapsed.refl (first : Service) : Elapsed first first :=
  ⟨0, (Nat.mod_eq_of_lt first.serviceCursor.toNat_lt).symm, by omega⟩

theorem Elapsed.pass {first : Service} {live' : List SequenceId} {batch : InferenceBatch}
    (elapsed : Elapsed first current) (passed : Passed config step live live' batch current next) :
    Elapsed first next := by
  obtain ⟨time, cursor, paid⟩ := elapsed
  have bound := passed.bound
  have fewer := passed.backlog
  refine ⟨time + (serviceDuration batch).toNat, ?_, by omega⟩
  rw [passed.cursor, UInt64.toNat_add, cursor]
  omega

/-- Where a step ends no lower than it began, none of its batches has wrapped the cursor. -/
theorem Elapsed.fits {first last : Service} {live' : List SequenceId} {batch : InferenceBatch}
    (before : Elapsed first current) (passed : Passed config step live live' batch current next)
    (after : Elapsed next last) (short : backlog first.scheduler * 2 ^ 35 < 2 ^ 64)
    (higher : first.serviceCursor ≤ last.serviceCursor) :
    current.serviceCursor.toNat + (serviceDuration batch).toNat < 2 ^ 64 := by
  obtain ⟨time, cursor, paid⟩ := before
  obtain ⟨rest, ending, left⟩ := after
  have bound := passed.bound
  have fewer := passed.backlog
  have start := first.serviceCursor.toNat_lt
  have here := current.serviceCursor.toNat_lt
  rw [UInt64.le_iff_toNat_le] at higher
  rw [passed.cursor, UInt64.toNat_add] at ending
  -- a wrap lowers the end by 2^64, and the step is shorter than that
  by_contra wrapped
  omega

end

/-! ### One step -/

/-- What consistent times say of the decisions recorded so far. -/
structure InOrder (decisions : List DecisionTrace) : Prop where
  causal : ∀ decision ∈ decisions,
    decision.arrivalMicroseconds ≤ decision.completionMicroseconds
  ordered : CompletionsOrdered decisions

theorem InOrder.earlier {decisions added : List DecisionTrace}
    (inOrder : InOrder (decisions ++ added)) : InOrder decisions :=
  ⟨fun decision member => inOrder.causal decision (List.mem_append_left _ member),
    fun first firstMember second secondMember =>
      inOrder.ordered first (List.mem_append_left _ firstMember) second
        (List.mem_append_left _ secondMember)⟩

/-- The cursor is where some decision was completed in the latest batch. -/
def Marked (decisions : List DecisionTrace) (cursor generation : UInt64) : Prop :=
  ∃ decision ∈ decisions, decision.completionMicroseconds = cursor ∧
    decision.finalBatchGeneration = generation

section

variable {World Return : Type} {simulation : Simulation World Return} {config : ScenarioConfig}
  {dfa : Grammar.TokenDfa} {turns step : Nat}

/-- The loop of a step ends with the completion of a decision, in a batch of its own. -/
theorem InService.ends_marked {first last : Service}
    (serving : InService config step
      ((List.range config.vehicleCount.toNat).map (decisionId config step)) [] first)
    (accepted : config.Accepted) (before : step < config.steps.toNat)
    (looped : attemptWhile (unserved config) (serveBatch config (arrivalOf config step)) turns
      first = .ok last) :
    InService config step [] [] last ∧
      Marked last.decisions last.serviceCursor last.scheduler.generation ∧
      first.scheduler.generation.toNat < last.scheduler.generation.toNat := by
  have starts : unserved config first = true := by
    have all := serving.completed
    rw [List.length_map, List.length_range] at all
    have some_vehicle : config.vehicleCount.toNat ≠ 0 := fun zero =>
      accepted.vehicles (UInt32.toNat_inj.mp zero)
    rw [unserved, decide_eq_true_iff, UInt32.lt_iff_toNat_lt]
    omega
  obtain ⟨⟨⟨live, served⟩, _, ended⟩, stopped⟩ := attempt_while_kept _ _ _ _ _
    (fun now => (∃ live, InService config step live [] now) ∧
      first.scheduler.generation.toNat ≤ now.scheduler.generation.toNat ∧
      (unserved config now = false →
        Marked now.decisions now.serviceCursor now.scheduler.generation ∧
          first.scheduler.generation.toNat < now.scheduler.generation.toNat))
    ⟨⟨_, serving⟩, Nat.le_refl _, by rw [starts]; nofun⟩ (by
      rintro now after _ continues ⟨⟨live, holds⟩, later, _⟩ turned
      obtain ⟨batch, _, live', _, passed⟩ := holds.pass accepted before turned
      have numbered := passed.generation
      refine ⟨⟨live', passed.inService⟩, by omega, fun stopped => ⟨?_, by omega⟩⟩
      -- the last batch of the step has taken the last decisions out of service
      have none_left := passed.inService.none_live stopped
      exact passed.marked.resolve_left fun same =>
        holds.some_live continues (same.symm.trans none_left)) looped
  obtain rfl := served.none_live stopped
  exact ⟨served, ended stopped⟩

/-- Where the loop of a step ends no lower than it began, every batch of it has fitted. -/
theorem InService.loop_fits {first last now : Service} {live : List SequenceId}
    (serving : InService config step live [] first) (accepted : config.Accepted)
    (before : step < config.steps.toNat)
    (looped : attemptWhile (unserved config) (serveBatch config (arrivalOf config step)) turns
      first = .ok last)
    (short : backlog first.scheduler * 2 ^ 35 < 2 ^ 64)
    (higher : first.serviceCursor ≤ last.serviceCursor)
    (visited : Visits (unserved config) (serveBatch config (arrivalOf config step)) first now)
    (continues : unserved config now = true) {batch : InferenceBatch}
    {scheduler : SequenceScheduler}
    (scheduled : now.scheduler.schedule .unlimited config.maximumBatchSize.toNat =
      (.ok batch, scheduler)) :
    now.serviceCursor.toNat + (serviceDuration batch).toNat < 2 ^ 64 := by
  have onward : ∀ start current next, unserved config current = true →
      ((∃ live, InService config step live [] current) ∧ Elapsed start current) →
      serveBatch config (arrivalOf config step) current = .ok next →
      (∃ live, InService config step live [] next) ∧ Elapsed start next := by
    rintro start current next _ ⟨⟨live, holds⟩, elapsed⟩ turned
    obtain ⟨_, _, live', _, passed⟩ := holds.pass accepted before turned
    exact ⟨⟨live', passed.inService⟩, elapsed.pass passed⟩
  obtain ⟨⟨live, holds⟩, elapsed⟩ := visited.kept
    (fun state => (∃ live, InService config step live [] state) ∧ Elapsed first state)
    ⟨⟨_, serving⟩, .refl first⟩ (onward first)
  obtain ⟨left, resumed⟩ := visited.resume looped
  cases left with
  | zero =>
    rw [attemptWhile, if_pos continues] at resumed
    cases resumed
  | succ left =>
    rw [attemptWhile, if_pos continues] at resumed
    obtain ⟨next, turned, rest⟩ := bind_eq_ok.mp resumed
    obtain ⟨formed, _, _, scheduled', passed⟩ := holds.pass accepted before turned
    obtain ⟨same, _⟩ := Prod.mk.inj (scheduled'.symm.trans scheduled)
    obtain rfl := Except.ok.inj same
    obtain ⟨⟨_, ended⟩, _⟩ := attempt_while_kept _ _ _ _ _
      (fun state => (∃ live, InService config step live [] state) ∧ Elapsed next state)
      ⟨⟨_, passed.inService⟩, .refl next⟩ (fun current next _ => onward _ current next) rest
    exact elapsed.fits passed ended short higher

/-- Between two steps: the cursor stands where the latest decision was completed. -/
structure Paused (config : ScenarioConfig) (step : Nat) {World Return : Type}
    (current : Scenario World Return) : Prop where
  between : BetweenSteps config step current
  marked : current.serviceCursor = 0 ∨ Marked (framesDecisions current.frames)
    current.serviceCursor current.scheduler.generation
  frames : current.frames.length = step
  counts : ∀ frame ∈ current.frames, frame.decisions.length = config.vehicleCount.toNat

theorem Paused.run_step {current next : Scenario World Return} (paused : Paused config step current)
    (accepted : config.Accepted) (before : step < config.steps.toNat)
    (ran : runStep simulation config turns dfa step current = .ok next) :
    Paused config (step + 1) next ∧
      (∃ added, framesDecisions next.frames = framesDecisions current.frames ++ added) ∧
      (InOrder (framesDecisions next.frames) → config.vehicleCount.toNat < 2 ^ 28 →
        StepFits simulation config dfa step current) := by
  obtain ⟨admitted, first, last, opened, looped, rfl⟩ := runStep_ok ran
  obtain ⟨admitting, serving⟩ := paused.between.open_step accepted before opened
  obtain ⟨served, marked, later⟩ := serving.ends_marked accepted before looped
  obtain ⟨turned, metrics, _, begun⟩ := openStep_ok opened
  obtain ⟨generation, waiting, _⟩ := paused.between.admitted accepted before turned
  have all : framesDecisions (closeStep simulation config step admitted last current).frames =
      framesDecisions current.frames ++ last.decisions := by
    rw [framesDecisions, closeStep, List.flatMap_append, List.flatMap_singleton]
    rfl
  obtain ⟨decision, member, completion, final⟩ := marked
  refine ⟨⟨served.between admitting, .inr ?_, ?_, ?_⟩, ⟨_, all⟩, ?_⟩
  · rw [all]
    exact ⟨decision, List.mem_append_right _ member, completion, final⟩
  · change (current.frames ++ [_]).length = _
    rw [List.length_append, paused.frames]
    rfl
  · intro frame present
    rcases List.mem_append.mp present with old | new
    · exact paused.counts frame old
    · rw [List.mem_singleton.mp new]
      exact served.count
  · intro inOrder few
    rw [all] at inOrder
    have last_member : decision ∈ framesDecisions current.frames ++ last.decisions :=
      List.mem_append_right _ member
    -- the step ends no lower than its arrival, and no lower than the step before it ended
    have higher : first.serviceCursor ≤ last.serviceCursor := by
      have arrived : arrivalOf config step ≤ last.serviceCursor := by
        obtain ⟨i, at_i⟩ := List.mem_iff_getElem?.mp member
        rw [← completion, ← (served.shapes i decision at_i).arrival]
        exact inOrder.causal decision last_member
      have continued : current.serviceCursor ≤ last.serviceCursor := by
        rcases paused.marked with zero | ⟨previous, present, cursor, number⟩
        · rw [zero]
          exact UInt64.zero_le
        · rw [← cursor, ← completion]
          refine inOrder.ordered previous (List.mem_append_left _ present) decision last_member ?_
          rw [number, final, UInt64.lt_iff_toNat_lt, ← generation]
          rw [begun] at later
          exact later
      rw [begun, UInt64.le_iff_toNat_le, larger_toNat]
      exact Nat.max_le.mpr ⟨UInt64.le_iff_toNat_le.mp continued, UInt64.le_iff_toNat_le.mp arrived⟩
    have short : backlog first.scheduler * 2 ^ 35 < 2 ^ 64 := by
      rw [begun]
      dsimp only
      rw [waiting]
      omega
    intro admitted' first' now batch scheduler opened' visited continues scheduled
    obtain ⟨rfl, rfl⟩ := Prod.mk.inj (Except.ok.inj (opened.symm.trans opened'))
    exact serving.loop_fits accepted before looped short higher visited continues scheduled

/-! ### The whole run -/

/-- The frames of a run that succeeds, and what their order says of the cursor. -/
theorem cursor_fits_of_order {finished : Finished Return}
    (ran : runScenario simulation config turns = .ok finished) :
    finished.result.frames.length = config.steps.toNat ∧
      (∀ frame ∈ finished.result.frames, frame.decisions.length = config.vehicleCount.toNat) ∧
      (InOrder (framesDecisions finished.result.frames) →
        config.vehicleCount.toNat < 2 ^ 28 → CursorFits simulation config turns) := by
  obtain ⟨dfa, begun, last, started, turned, result⟩ := runScenario_ok ran
  obtain ⟨accepted, between, cursor, _, frames, _⟩ := beginScenario_ok started
  have initially : Paused config 0 begun := by
    refine ⟨between, .inl cursor, by rw [frames]; rfl, ?_⟩
    rw [frames]
    nofun
  obtain ⟨paused, fits⟩ := attempt_turns_kept _ _ _ _
    (fun count (current : Scenario World Return) => Paused config count current ∧
      (InOrder (framesDecisions current.frames) → config.vehicleCount.toNat < 2 ^ 28 →
        ∀ step < count, ∀ state,
          attemptTurns (runStep simulation config turns dfa) step begun = .ok state →
          StepFits simulation config dfa step state))
    ⟨initially, nofun⟩ (by
      rintro index before current next reached ⟨paused, fits⟩ stepped
      obtain ⟨later, ⟨added, all⟩, here⟩ := paused.run_step accepted before stepped
      refine ⟨later, fun inOrder few step below state arrived => ?_⟩
      rcases Nat.lt_succ_iff_lt_or_eq.mp below with old | rfl
      · rw [all] at inOrder
        exact fits inOrder.earlier few step old state arrived
      · obtain rfl := Except.ok.inj (reached.symm.trans arrived)
        exact here inOrder few) turned
  rw [result]
  exact ⟨paused.frames, paused.counts, fun inOrder few =>
    (cursor_fits_iff_steps started).mpr (fits inOrder few)⟩

/-- The deadline of the last step is exact, so it fits. -/
theorem arrivals_fit_of_times {result : ScenarioResult Return}
    (accepted : config.Accepted) (frames : result.frames.length = config.steps.toNat)
    (counts : ∀ frame ∈ result.frames, frame.decisions.length = config.vehicleCount.toNat)
    (consistent : TimingConsistent config result) : ArrivalsFit config := by
  have some_step : config.steps.toNat ≠ 0 := fun zero =>
    accepted.steps (UInt32.toNat_inj.mp zero)
  have some_vehicle : config.vehicleCount.toNat ≠ 0 := fun zero =>
    accepted.vehicles (UInt32.toNat_inj.mp zero)
  obtain ⟨frame, last⟩ : ∃ frame, result.frames[config.steps.toNat - 1]? = some frame :=
    ⟨_, List.getElem?_eq_getElem (by omega)⟩
  have count := counts frame (List.mem_of_getElem? last)
  obtain ⟨decision, member⟩ := List.exists_mem_of_length_pos (l := frame.decisions) (by omega)
  have times := consistent.times _ frame last decision member
  rw [ArrivalsFit, ← times.arrival, ← times.deadline]
  exact decision.deadlineMicroseconds.toNat_lt

end

end MarketForge.Workloads
