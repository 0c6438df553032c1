import MarketForge.Serving.SchedulerRotation
import MarketForge.Workloads.RadarOverflow

/-!
# The service cursor as the configuration plans it

`plannedClock` computes over exact integers, from the configuration alone, where the service cursor
stands after each step. The batches of a step are those of a round robin over its decisions, which
`roundRobin` lists without a scheduler, and `exactDuration` is how long each lasts. A run follows
this plan for as long as its cursor does not wrap, so that no batch of a run that succeeds wraps it
exactly when the plan ends below 2^64 (`cursor_fits_iff`).
-/
namespace MarketForge.Workloads

open Library Serving

/-! ### The plan -/

/-- How many decisions a batch prefills and how many it decodes. -/
structure PlannedBatch where
  prefills : Nat
  decodes : Nat
  deriving DecidableEq, Repr

/-- The first batch when `queued` decisions wait for their prefill and, behind them, `decoding` for
their decode. -/
def firstBatch (maximum queued decoding : Nat) : PlannedBatch where
  prefills := min maximum queued
  decodes := min (maximum - queued) decoding

/-- The batches until none waits. What a batch prefills waits again, behind all others. -/
def roundRobin (maximum : Nat) : Nat → Nat → Nat → List PlannedBatch
  | 0, _, _ => []
  | turns + 1, queued, decoding =>
    if queued + decoding = 0 then []
    else
      firstBatch maximum queued decoding ::
        roundRobin maximum turns (queued - maximum)
          (decoding - (maximum - queued) + min maximum queued)

/-- Where the service cursor stands, and how many batches there have been. -/
structure Clock where
  cursor : Nat := 0
  generation : Nat := 0
  deriving DecidableEq, Repr

section

variable (config : ScenarioConfig)

/-- A decode has the first output token in its context. -/
def plannedDuration (generation : Nat) (batch : PlannedBatch) : Nat :=
  exactDuration (config.promptTokens.toNat + if batch.decodes ≠ 0 then 1 else 0) generation
    batch.prefills batch.decodes

def Clock.serve (clock : Clock) (batch : PlannedBatch) : Clock where
  cursor := clock.cursor + plannedDuration config (clock.generation + 1) batch
  generation := clock.generation + 1

/-- The batches of a step, in which every decision of it is served twice. -/
def plannedBatches : List PlannedBatch :=
  roundRobin config.maximumBatchSize.toNat (2 * config.vehicleCount.toNat)
    config.vehicleCount.toNat 0

/-- The clock at the first batch of a step, which waits for the decisions to arrive. -/
def Clock.opened (clock : Clock) (step : Nat) : Clock :=
  { clock with cursor := max clock.cursor (step * config.framePeriodMicroseconds.toNat) }

/-- The clock after some steps. -/
def plannedClock : Nat → Clock
  | 0 => {}
  | step + 1 =>
    (plannedBatches config).foldl (Clock.serve config) ((plannedClock step).opened config step)

/-- The last batch of the scenario ends before 2^64 microseconds. -/
def PlanFits : Prop := (plannedClock config config.steps.toNat).cursor < 2 ^ 64

end

example : plannedBatches { vehicleCount := 5, maximumBatchSize := 3 } =
    [⟨3, 0⟩, ⟨2, 1⟩, ⟨0, 3⟩, ⟨0, 1⟩] := by decide

/-! ### What waits -/

/-- The phase of the entry at an index. -/
def phaseAt (scheduler : SequenceScheduler) (index : Nat) : Option SequencePhase :=
  scheduler.entries[index]?.map Entry.phase

/-- What waits: `queued` decisions for their prefill and, behind them, `decoding` for their
decode. -/
def Lineup (queued decoding : Nat) (scheduler : SequenceScheduler) : Prop :=
  scheduler.waiting.map (phaseAt scheduler) =
    List.replicate queued (some .queued) ++ List.replicate decoding (some .decoding)

/-- What an entry waits for after a batch of its own: a decoded one waits no more. -/
def waitsAgain : Option SequencePhase → Option (Option SequencePhase)
  | some .queued => some (some .decoding)
  | _ => none

/-- Every decision has the prompt of the configuration. -/
def SamePrompts (config : ScenarioConfig) (scheduler : SequenceScheduler) : Prop :=
  ∀ entry ∈ scheduler.entries, entry.request.promptTokens = config.promptTokens

private theorem largest_replicate (count : Nat) (context largest : UInt32) :
    ((List.replicate count context).foldl larger largest).toNat =
      if count = 0 then largest.toNat else max largest.toNat context.toNat := by
  induction count generalizing largest with
  | zero => rfl
  | succ count ih =>
    rw [List.replicate_succ, List.foldl_cons, ih, larger_toNat32, if_neg (Nat.succ_ne_zero count)]
    split <;> omega

namespace Lineup

variable {config : ScenarioConfig} {queued decoding : Nat} {scheduler : SequenceScheduler}

theorem length (lineup : Lineup queued decoding scheduler) :
    scheduler.waiting.length = queued + decoding := by
  have lengths := congrArg List.length lineup
  rwa [List.length_map, List.length_append, List.length_replicate,
    List.length_replicate] at lengths

/-- Nothing but queued entries waits. -/
theorem of_queued {count : Nat} (all : scheduler.entries.countP isRunnable = count)
    (fresh : ∀ entry ∈ scheduler.entries, isRunnable entry = true → entry.phase = .queued) :
    Lineup count 0 scheduler := by
  rw [Lineup, List.replicate_zero, List.append_nil, List.eq_replicate_iff]
  constructor
  · rw [List.length_map, waiting_length, all]
  · intro phase member
    obtain ⟨index, waits, rfl⟩ := List.mem_map.mp member
    obtain ⟨entry, at_index, runs⟩ := mem_waiting.mp waits
    rw [phaseAt, at_index, Option.map_some, fresh entry (List.mem_of_getElem? at_index) runs]

theorem selected (lineup : Lineup queued decoding scheduler) (maximum : Nat) :
    (scheduler.waiting.take maximum).map (phaseAt scheduler) =
      List.replicate (min maximum queued) (some .queued) ++
        List.replicate (min (maximum - queued) decoding) (some .decoding) := by
  rw [List.map_take, lineup, List.take_append, List.take_replicate, List.take_replicate,
    List.length_replicate]

theorem omitted (lineup : Lineup queued decoding scheduler) (maximum : Nat) :
    (scheduler.waiting.drop maximum).map (phaseAt scheduler) =
      List.replicate (queued - maximum) (some .queued) ++
        List.replicate (decoding - (maximum - queued)) (some .decoding) := by
  rw [List.map_drop, lineup, List.drop_append, List.drop_replicate, List.drop_replicate,
    List.length_replicate]

/-- What the items of a batch copy from their entries, where the phase decides it. -/
theorem copied {β : Type} (lineup : Lineup queued decoding scheduler) (maximum : Nat)
    (copy : BatchItem → β) (read : Entry → β) (of : SequencePhase → β)
    (copies : ∀ (entry : Entry) slot,
      copy ⟨entry.id, entry.work, entry.contextTokens, slot⟩ = read entry)
    (agrees : ∀ entry ∈ scheduler.entries, isRunnable entry = true →
      read entry = of entry.phase) :
    (batchItems scheduler.entries (scheduler.waiting.take maximum)).map copy =
      List.replicate (min maximum queued) (of .queued) ++
        List.replicate (min (maximum - queued) decoding) (of .decoding) := by
  have phases : ((scheduler.waiting.take maximum).filterMap fun index =>
      scheduler.entries[index]?.map read) =
        ((scheduler.waiting.take maximum).map (phaseAt scheduler)).filterMap (Option.map of) := by
    rw [List.filterMap_map]
    apply List.filterMap_congr
    intro index chosen
    obtain ⟨entry, at_index, runs⟩ := mem_waiting.mp (List.mem_of_mem_take chosen)
    rw [Function.comp_apply, phaseAt, at_index, Option.map_some, Option.map_some, Option.map_some,
      agrees entry (List.mem_of_getElem? at_index) runs]
  have prefilled : Option.map of (some .queued) = some (of .queued) := rfl
  have decoded : Option.map of (some .decoding) = some (of .decoding) := rfl
  rw [batchItems_map _ _ copy read copies, phases, lineup.selected, List.filterMap_append,
    List.filterMap_replicate_of_some prefilled, List.filterMap_replicate_of_some decoded]

/-- The counts of a batch are those of the plan, and so is its context. -/
theorem batch (lineup : Lineup queued decoding scheduler) {live : List SequenceId}
    (scheduling : Scheduling live [] scheduler) (prompts : SamePrompts config scheduler)
    (accepted : config.Accepted) (maximum : Nat) {formed : InferenceBatch}
    (items : formed.items = batchItems scheduler.entries (scheduler.waiting.take maximum))
    (nonempty : formed.items ≠ []) :
    prefillCount formed = min maximum queued ∧
      decodeCount formed = min (maximum - queued) decoding ∧
      (maximumContext formed).toNat = config.promptTokens.toNat +
        if min (maximum - queued) decoding ≠ 0 then 1 else 0 := by
  have works := lineup.copied maximum BatchItem.work Entry.work
    (fun phase => if phase = .queued then .prefill else .decode) (fun _ _ => rfl) fun _ _ _ => rfl
  -- a decode has the token of the prefill behind the prompt
  have contexts := lineup.copied maximum BatchItem.contextTokens Entry.contextTokens
    (fun phase => config.promptTokens + if phase = .queued then 0 else 1) (fun _ _ => rfl) (by
      intro entry member runs
      have unfinished := ((scheduling.decisions entry member).runnable
        (scheduling.idle member)).mp runs
      rw [Entry.contextTokens, prompts entry member]
      rcases (scheduling.decisions entry member).progress with
        ⟨queued, tokens⟩ | ⟨decoding, tokens⟩ | finished
      · rw [tokens, if_pos queued]
      · rw [tokens, if_neg (by rw [decoding]; decide)]
      · exact absurd finished unfinished)
  rw [← items] at works contexts
  have lengths := congrArg List.length works
  rw [List.length_map, List.length_append, List.length_replicate,
    List.length_replicate] at lengths
  have prefills : prefillCount formed = min maximum queued := by
    have counted : prefillCount formed =
        (formed.items.map BatchItem.work).countP fun work => work = .prefill := by
      rw [List.countP_map]
      rfl
    rw [counted, works, List.countP_append, List.countP_replicate, List.countP_replicate]
    simp
  refine ⟨prefills, ?_, ?_⟩
  · rw [decodeCount, prefills, lengths]
    omega
  · have largest : maximumContext formed =
        (formed.items.map BatchItem.contextTokens).foldl larger 0 := by
      rw [List.foldl_map]
      rfl
    have positive := List.length_pos_of_ne_nil nonempty
    have prompt := accepted.fits
    have next : (config.promptTokens + 1).toNat = config.promptTokens.toNat + 1 := by
      simp only [UInt32.size] at prompt
      rw [UInt32.toNat_add]
      exact Nat.mod_eq_of_lt (by change _ + 1 < _; omega)
    rw [if_pos rfl, if_neg (by decide), UInt32.add_zero] at contexts
    rw [largest, contexts, List.foldl_append, largest_replicate, largest_replicate, next,
      UInt32.toNat_zero]
    split_ifs <;> omega

/-- After a batch: those that it left out, and then those that it has prefilled. -/
theorem next (lineup : Lineup queued decoding scheduler) {after : SequenceScheduler}
    {live : List SequenceId} (later : Scheduling live [] after) {maximum last : Nat}
    (final : (scheduler.waiting.take maximum).getLast? = some last) {ids : List SequenceId}
    (chosen : ∀ (i : Nat) entry, scheduler.entries[i]? = some entry →
      (entry.id ∈ ids ↔ i ∈ scheduler.waiting.take maximum))
    (entries : after.entries = scheduler.entries.map fun entry =>
      if entry.id ∈ ids then served entry.dispatched else entry)
    (moved : after.nextScanIndex = (last + 1) % scheduler.entries.length) :
    Lineup (queued - maximum) (decoding - (maximum - queued) + min maximum queued) after := by
  have row : ∀ index : Nat, after.entries[index]? = scheduler.entries[index]?.map fun entry =>
      if index ∈ scheduler.waiting.take maximum then served entry.dispatched else entry := by
    intro index
    rw [entries, List.getElem?_map]
    cases at_index : scheduler.entries[index]? with
    | none => rfl
    | some entry => simp only [Option.map_some, chosen index entry at_index]
  have kept : ∀ index ∉ scheduler.waiting.take maximum,
      after.entries[index]? = scheduler.entries[index]? := by
    intro index left_out
    simp only [row, if_neg left_out, Option.map_id']
  have rotated := waiting_rotated (by rw [entries, List.length_map]) final moved
    fun index left_out => by rw [kept index left_out]
  have omitted : (scheduler.waiting.drop maximum).map (phaseAt after) =
      (scheduler.waiting.drop maximum).map (phaseAt scheduler) := by
    apply List.map_congr_left
    intro index member
    have left_out : index ∉ scheduler.waiting.take maximum := fun taken =>
      List.disjoint_take_drop (waiting_nodup scheduler) (Nat.le_refl maximum) taken member
    rw [phaseAt, phaseAt, kept index left_out]
  -- a prefilled entry waits again as a decoding one, a decoded one is finished
  have again : ((scheduler.waiting.take maximum).filter fun index =>
      after.entries[index]?.any isRunnable).map (phaseAt after) =
        ((scheduler.waiting.take maximum).map (phaseAt scheduler)).filterMap waitsAgain := by
    rw [← List.filterMap_eq_map, List.filterMap_filter, List.filterMap_map]
    apply List.filterMap_congr
    intro index taken
    obtain ⟨entry, at_index, runs⟩ := mem_waiting.mp (List.mem_of_mem_take taken)
    have now : after.entries[index]? = some (served entry.dispatched) := by
      rw [row, at_index, Option.map_some, if_pos taken]
    have member := List.mem_of_getElem? now
    have runs_iff := (later.decisions _ member).runnable (later.idle member)
    have phase : (served entry.dispatched).phase =
        if entry.phase = .queued then .decoding else .finished := rfl
    rw [Function.comp_apply, Function.comp_apply, phaseAt, phaseAt, now, at_index, Option.any_some,
      Option.map_some, Option.map_some]
    obtain ⟨_, _, prefilled | decoded⟩ := EntryLifecycle.runnable_phase runs
    · rw [prefilled, if_pos rfl] at phase
      rw [if_pos (runs_iff.mpr (by rw [phase]; decide)), phase, prefilled]
      rfl
    · rw [decoded, if_neg (by decide)] at phase
      rw [if_neg (mt runs_iff.mp (not_not.mpr phase)), decoded]
      rfl
  have prefilled : waitsAgain (some .queued) = some (some .decoding) := rfl
  have decoded : waitsAgain (some .decoding) = none := rfl
  rw [Lineup, rotated, List.map_append, omitted, lineup.omitted, again, lineup.selected,
    List.filterMap_append, List.filterMap_replicate_of_some prefilled,
    List.filterMap_replicate_of_none decoded, List.append_nil, List.append_assoc,
    List.replicate_append_replicate]

end Lineup

/-! ### One batch -/

section

variable {config : ScenarioConfig} {step queued decoding : Nat} {live : List SequenceId}
  {current next : Service}

theorem completeItem_scheduler {arrival generation : UInt64} {item : BatchItem}
    (completed : completeItem arrival generation current item = .ok next) :
    next.scheduler =
      (current.scheduler.complete item.id 1 (decide (item.work = .decode))).2 := by
  unfold completeItem at completed
  dsimp only at completed
  split at completed
  next => cases completed
  next =>
    split at completed
    next =>
      obtain rfl := Except.ok.inj completed
      rfl
    next =>
      split at completed
      next => cases completed
      next =>
        split at completed
        next => cases completed
        next =>
          obtain rfl := Except.ok.inj completed
          rfl

/-- The completions of a batch serve each of its entries. -/
theorem InService.batch_entries (inService : InService config step live [] current)
    (accepted : config.Accepted) (before : step < config.steps.toNat)
    {batch : InferenceBatch} {scheduler : SequenceScheduler}
    (scheduled : current.scheduler.schedule .unlimited config.maximumBatchSize.toNat =
      (.ok batch, scheduler)) (nonempty : batch.items ≠ []) {cursor : UInt64}
    {metrics : WorkloadMetrics}
    (ran : batch.items.foldlM (completeItem (arrivalOf config step) batch.generation)
      { current with scheduler := scheduler, serviceCursor := cursor, metrics := metrics } =
        .ok next) :
    next.scheduler = { scheduler with
      entries := scheduler.entries.map fun entry =>
        if entry.id ∈ batch.items.map BatchItem.id then served entry else entry } := by
  -- what is served are the items of the batch that are not left
  obtain ⟨_, _, entries⟩ := attempt_each_kept
    (completeItem (arrivalOf config step) batch.generation) batch.items _ next
    (fun rest now => (∃ live, InService config step live rest now) ∧
      (∀ item ∈ rest, item ∈ batch.items) ∧
      now.scheduler = { scheduler with
        entries := scheduler.entries.map fun entry =>
          if entry.id ∈ batch.items.map BatchItem.id ∧ entry.id ∉ rest.map BatchItem.id then
            served entry
          else entry })
    ⟨⟨live, inService.begin_batch scheduled nonempty _ _⟩, fun _ member => member, by
      simp only [and_not_self, if_false, List.map_id']⟩ (by
      rintro item rest now after ⟨⟨others, holds⟩, listed, entries⟩ completed
      refine ⟨?_, fun other member => listed other (.tail _ member), ?_⟩
      · obtain ⟨_, _, _, effect⟩ :=
          completeItem_effect holds accepted before (arrivalOf config step) batch.generation
        cases effect with
        | prefilled turned kept =>
          obtain rfl := Except.ok.inj (turned.symm.trans completed)
          exact ⟨others, kept⟩
        | decoded _ _ _ turned kept =>
          obtain ⟨_, rfl⟩ := (turned after).mp completed
          exact ⟨_, kept _⟩
      · obtain ⟨absent, _⟩ := List.nodup_cons.mp holds.scheduling.once
        rw [completeItem_scheduler completed, holds.scheduling.complete_entries, entries]
        dsimp only
        rw [List.map_map]
        refine congrArg (fun entries => { scheduler with entries := entries })
          (List.map_congr_left fun entry _ => ?_)
        rw [Function.comp_apply]
        by_cases own : entry.id = item.id
        · have here : entry.id ∈ batch.items.map BatchItem.id := by
            rw [own]
            exact List.mem_map_of_mem (listed item List.mem_cons_self)
          have waited : ¬(entry.id ∈ batch.items.map BatchItem.id ∧
              entry.id ∉ (item :: rest).map BatchItem.id) := fun both =>
            both.2 (own ▸ List.mem_cons_self)
          rw [if_neg waited, if_pos own, if_pos ⟨here, own ▸ absent⟩]
        · simp only [List.map_cons, List.mem_cons, own, false_or]
          split
          next => exact if_neg own
          next => rfl) ran
  simpa using entries

/-- A service that is where the plan is. -/
structure OnPlan (config : ScenarioConfig) (queued decoding : Nat) (clock : Clock)
    (current : Service) : Prop where
  cursor : current.serviceCursor.toNat = clock.cursor
  generation : current.scheduler.generation.toNat = clock.generation
  prompts : SamePrompts config current.scheduler
  lineup : Lineup queued decoding current.scheduler

namespace OnPlan

variable {clock : Clock}

/-- The next batch lasts as long as planned. -/
theorem duration (onPlan : OnPlan config queued decoding clock current)
    (inService : InService config step live [] current) (accepted : config.Accepted)
    {batch : InferenceBatch} {scheduler : SequenceScheduler}
    (scheduled : current.scheduler.schedule .unlimited config.maximumBatchSize.toNat =
      (.ok batch, scheduler)) (nonempty : batch.items ≠ []) :
    (serviceDuration batch).toNat = plannedDuration config (clock.generation + 1)
      (firstBatch config.maximumBatchSize.toNat queued decoding) := by
  obtain ⟨_, _, formed, _⟩ := inService.scheduling.schedule_entries scheduled nonempty
  obtain ⟨_, _, numbered, _, room, _⟩ := inService.scheduling.schedule_ok scheduled nonempty
  have few : batch.items.length < 2 ^ 32 :=
    (Scheduling.batch_bounded scheduled).trans_lt config.maximumBatchSize.toNat_lt
  obtain ⟨prefills, decodes, context⟩ := onPlan.lineup.batch inService.scheduling onPlan.prompts
    accepted config.maximumBatchSize.toNat (congrArg InferenceBatch.items formed) nonempty
  rw [serviceDuration_toNat batch few, prefills, decodes, context, numbered,
    generation_next room, onPlan.generation]
  rfl

/-- The batch that is served is the planned one, and what waits then is what the plan has left. -/
theorem serve (onPlan : OnPlan config queued decoding clock current)
    (inService : InService config step live [] current) (accepted : config.Accepted)
    (before : step < config.steps.toNat)
    (fits : ∀ batch scheduler,
      current.scheduler.schedule .unlimited config.maximumBatchSize.toNat = (.ok batch, scheduler) →
      current.serviceCursor.toNat + (serviceDuration batch).toNat < 2 ^ 64)
    (turned : serveBatch config (arrivalOf config step) current = .ok next) :
    (∃ live', InService config step live' [] next) ∧
      OnPlan config (queued - config.maximumBatchSize.toNat)
        (decoding - (config.maximumBatchSize.toNat - queued) +
          min config.maximumBatchSize.toNat queued)
        (clock.serve config (firstBatch config.maximumBatchSize.toNat queued decoding)) next := by
  obtain ⟨_, _, live', scheduled, passed⟩ := inService.pass accepted before turned
  obtain ⟨batch, scheduler, again, nonempty, ran⟩ := serveBatch_ok turned
  obtain ⟨same, rfl⟩ := Prod.mk.inj (again.symm.trans scheduled)
  obtain rfl := Except.ok.inj same
  have lasts := onPlan.duration inService accepted scheduled nonempty
  have room := fits batch scheduler scheduled
  obtain ⟨last, final, _, chosen, flying⟩ :=
    inService.scheduling.schedule_entries scheduled nonempty
  have served := inService.batch_entries accepted before scheduled nonempty ran
  -- an item of the batch is dispatched and then served, and the others stay
  have entries : next.scheduler.entries = current.scheduler.entries.map fun entry =>
      if entry.id ∈ batch.items.map BatchItem.id then Workloads.served entry.dispatched
      else entry := by
    rw [served, flying]
    dsimp only
    rw [List.map_map]
    apply List.map_congr_left
    intro entry _
    rw [Function.comp_apply]
    by_cases own : entry.id ∈ batch.items.map BatchItem.id
    · rw [if_pos own, if_pos own]
      exact if_pos own
    · rw [if_neg own, if_neg own, if_neg own]
  refine ⟨⟨live', passed.inService⟩, ?_, ?_, ?_, ?_⟩
  · rw [passed.cursor, UInt64.toNat_add, Nat.mod_eq_of_lt room, lasts, onPlan.cursor]
    rfl
  · rw [passed.generation, onPlan.generation]
    rfl
  · intro entry member
    rw [entries] at member
    obtain ⟨source, present, rfl⟩ := List.mem_map.mp member
    have prompt := onPlan.prompts source present
    split
    next => exact prompt
    next => exact prompt
  · refine onPlan.lineup.next passed.inService.scheduling final chosen entries ?_
    rw [served, flying]

end OnPlan

/-! ### One step -/

/-- The batches left of a step take the clock to its end. -/
def PlanEnds (config : ScenarioConfig) (queued decoding : Nat) (clock finish : Clock) : Prop :=
  ∃ turns, 2 * queued + decoding ≤ turns ∧
    (roundRobin config.maximumBatchSize.toNat turns queued decoding).foldl (Clock.serve config)
      clock = finish

namespace PlanEnds

variable {clock finish : Clock}

theorem serve (ends : PlanEnds config queued decoding clock finish)
    (asked : config.maximumBatchSize.toNat ≠ 0) (some_left : queued + decoding ≠ 0) :
    PlanEnds config (queued - config.maximumBatchSize.toNat)
      (decoding - (config.maximumBatchSize.toNat - queued) +
        min config.maximumBatchSize.toNat queued)
      (clock.serve config (firstBatch config.maximumBatchSize.toNat queued decoding)) finish := by
  obtain ⟨turns, enough, rfl⟩ := ends
  cases turns with
  | zero => omega
  | succ turns =>
    refine ⟨turns, by omega, ?_⟩
    rw [roundRobin, if_neg some_left, List.foldl_cons]

theorem done (ends : PlanEnds config 0 0 clock finish) : clock = finish := by
  obtain ⟨turns, _, rfl⟩ := ends
  cases turns with
  | zero => rfl
  | succ turns => rfl

/-- Batches only move the cursor on. -/
theorem le (ends : PlanEnds config queued decoding clock finish) :
    clock.cursor ≤ finish.cursor := by
  obtain ⟨turns, _, rfl⟩ := ends
  generalize roundRobin config.maximumBatchSize.toNat turns queued decoding = batches
  induction batches generalizing clock with
  | nil => exact Nat.le_refl _
  | cons batch rest ih =>
    have later : (clock.serve config batch).cursor ≤
        (rest.foldl (Clock.serve config) (clock.serve config batch)).cursor := ih
    exact (Nat.le_add_right _ _).trans later

end PlanEnds

/-- A service of a step, at a batch, from which the plan leads to its end. -/
def OnCourse (config : ScenarioConfig) (step : Nat) (finish : Clock) (current : Service) : Prop :=
  ∃ live queued decoding clock, InService config step live [] current ∧
    OnPlan config queued decoding clock current ∧ PlanEnds config queued decoding clock finish

namespace OnCourse

variable {finish : Clock}

/-- The decisions that wait are those that are not complete. -/
private theorem left_iff {clock : Clock} (inService : InService config step live [] current)
    (onPlan : OnPlan config queued decoding clock current) :
    live = [] ↔ queued + decoding = 0 := by
  rw [← onPlan.lineup.length, List.length_eq_zero_iff, List.eq_nil_iff_forall_not_mem,
    List.eq_nil_iff_forall_not_mem]
  constructor
  · intro none_live index waits
    obtain ⟨entry, at_index, runs⟩ := mem_waiting.mp waits
    have member := List.mem_of_getElem? at_index
    exact none_live entry.id ((inService.scheduling.live_iff entry.id).mpr ⟨entry, member, rfl,
      ((inService.scheduling.decisions entry member).runnable
        (inService.scheduling.idle member)).mp runs⟩)
  · intro none_waits id is_live
    obtain ⟨entry, member, _, unfinished⟩ := (inService.scheduling.live_iff id).mp is_live
    obtain ⟨index, at_index⟩ := List.mem_iff_getElem?.mp member
    exact none_waits index (mem_waiting.mpr ⟨entry, at_index,
      ((inService.scheduling.decisions entry member).runnable
        (inService.scheduling.idle member)).mpr unfinished⟩)

theorem serve (onCourse : OnCourse config step finish current) (accepted : config.Accepted)
    (before : step < config.steps.toNat) (continues : unserved config current = true)
    (fits : ∀ batch scheduler,
      current.scheduler.schedule .unlimited config.maximumBatchSize.toNat = (.ok batch, scheduler) →
      current.serviceCursor.toNat + (serviceDuration batch).toNat < 2 ^ 64)
    (turned : serveBatch config (arrivalOf config step) current = .ok next) :
    OnCourse config step finish next := by
  obtain ⟨live, queued, decoding, clock, inService, onPlan, ends⟩ := onCourse
  have some_left : queued + decoding ≠ 0 :=
    mt (left_iff inService onPlan).mpr (inService.some_live continues)
  have asked : config.maximumBatchSize.toNat ≠ 0 := fun zero =>
    accepted.batch (UInt32.toNat_inj.mp zero)
  obtain ⟨⟨live', served⟩, later⟩ := onPlan.serve inService accepted before fits turned
  exact ⟨live', _, _, _, served, later, ends.serve asked some_left⟩

/-- At the end of the loop the plan is at its end. -/
theorem stop (onCourse : OnCourse config step finish current)
    (stopped : unserved config current = false) :
    InService config step [] [] current ∧ OnPlan config 0 0 finish current := by
  obtain ⟨live, queued, decoding, clock, inService, onPlan, ends⟩ := onCourse
  obtain rfl := inService.none_live stopped
  have nothing := (left_iff inService onPlan).mp rfl
  obtain rfl : queued = 0 := by omega
  obtain rfl : decoding = 0 := by omega
  exact ⟨inService, ends.done ▸ onPlan⟩

/-- Where the plan ends below 2^64, the next batch does not wrap the cursor. -/
theorem fits (onCourse : OnCourse config step finish current) (accepted : config.Accepted)
    (below : finish.cursor < 2 ^ 64) (batch : InferenceBatch) (scheduler : SequenceScheduler)
    (scheduled : current.scheduler.schedule .unlimited config.maximumBatchSize.toNat =
      (.ok batch, scheduler)) :
    current.serviceCursor.toNat + (serviceDuration batch).toNat < 2 ^ 64 := by
  obtain ⟨live, queued, decoding, clock, inService, onPlan, ends⟩ := onCourse
  by_cases nonempty : batch.items = []
  · -- an empty batch takes no time
    have none_taken : serviceDuration batch = 0 := by
      rw [serviceDuration, decodeCount, prefillCount, nonempty]
      rfl
    rw [none_taken]
    exact current.serviceCursor.toNat_lt
  · have asked : config.maximumBatchSize.toNat ≠ 0 := fun zero =>
      accepted.batch (UInt32.toNat_inj.mp zero)
    have some_left : queued + decoding ≠ 0 := by
      intro nothing
      obtain ⟨_, final, _⟩ := inService.scheduling.schedule_entries scheduled nonempty
      rw [← onPlan.lineup.length, List.length_eq_zero_iff] at nothing
      rw [nothing, List.take_nil] at final
      cases final
    have lasts := onPlan.duration inService accepted scheduled nonempty
    have next := (ends.serve asked some_left).le
    rw [onPlan.cursor, lasts]
    exact next.trans_lt below

end OnCourse

end

/-! ### The steps -/

section

variable {World Return : Type} {simulation : Simulation World Return} {config : ScenarioConfig}
  {dfa : Grammar.TokenDfa} {turns step : Nat} {current next : Scenario World Return}

/-- Between two steps: the scenario is where the plan is. -/
structure FollowsPlan (config : ScenarioConfig) (step : Nat) {World Return : Type}
    (current : Scenario World Return) : Prop where
  between : BetweenSteps config step current
  cursor : current.serviceCursor.toNat = (plannedClock config step).cursor
  generation : current.scheduler.generation.toNat = (plannedClock config step).generation
  prompts : SamePrompts config current.scheduler

/-- What an admission adds to what waits. -/
structure Queued (config : ScenarioConfig) (index : Nat) (scheduler : SequenceScheduler) :
    Prop where
  prompts : SamePrompts config scheduler
  count : scheduler.entries.countP isRunnable = index
  fresh : ∀ entry ∈ scheduler.entries, isRunnable entry = true → entry.phase = .queued

/-- All decisions of a step are queued when its first batch is formed. -/
theorem FollowsPlan.admitted (follows : FollowsPlan config step current)
    (accepted : config.Accepted) (before : step < config.steps.toNat)
    {admitted : Admission World Return}
    (turned : attemptTurns (admitVehicle simulation config dfa (arrivalOf config step))
      config.vehicleCount.toNat current.admission = .ok admitted) :
    Queued config config.vehicleCount.toNat admitted.scheduler := by
  have initially : Queued config 0 current.scheduler := by
    have none_runs : ∀ entry ∈ current.scheduler.entries, ¬isRunnable entry = true := by
      intro entry member runs
      have unfinished := ((follows.between.scheduling.decisions entry member).runnable
        (follows.between.scheduling.idle member)).mp runs
      have live :=
        (follows.between.scheduling.live_iff entry.id).mpr ⟨entry, member, rfl, unfinished⟩
      cases live
    exact ⟨follows.prompts, List.countP_eq_zero.mpr none_runs, fun entry member runs =>
      absurd runs (none_runs entry member)⟩
  obtain ⟨_, queued⟩ := attempt_turns_kept _ _ _ _
    (fun index (admission : Admission World Return) => Admitting config step index admission ∧
      Queued config index admission.scheduler)
    ⟨follows.between.admitting, initially⟩ (by
      rintro index inside now next _ ⟨admitting, queued⟩ admits
      obtain ⟨_, scheduler, _, _⟩ := admitVehicle_ok admits
      obtain ⟨after, enqueued, _⟩ := admitting.enqueue accepted before inside
      refine ⟨admitting.advance accepted before inside admits, ?_⟩
      have effect := @enqueue_effect now.scheduler .unlimited
        ⟨now.nextSequence, config.promptTokens, config.outputTokens⟩
      rw [scheduler, enqueued]
      rw [enqueued] at effect
      cases effect with
      | refused failed => cases failed
      | updated named => cases named
      | enqueued =>
        refine ⟨?_, ?_, ?_⟩
        · intro entry member
          rcases List.mem_append.mp member with old | new
          · exact queued.prompts entry old
          · rw [List.mem_singleton.mp new]
        · rw [List.countP_append, queued.count]
          rfl
        · intro entry member runs
          rcases List.mem_append.mp member with old | new
          · exact queued.fresh entry old runs
          · rw [List.mem_singleton.mp new]) turned
  exact queued

/-- The first batch of a step is formed where the plan opens the step. -/
theorem FollowsPlan.open_step (follows : FollowsPlan config step current)
    (accepted : config.Accepted) (before : step < config.steps.toNat)
    (arrives : step * config.framePeriodMicroseconds.toNat < 2 ^ 64)
    {admitted : Admission World Return} {first : Service}
    (opened : openStep simulation config dfa step current = .ok (admitted, first)) :
    OnCourse config step (plannedClock config (step + 1)) first := by
  obtain ⟨_, serving⟩ := follows.between.open_step accepted before opened
  obtain ⟨turned, metrics, _, begun⟩ := openStep_ok opened
  obtain ⟨generation, _⟩ := follows.between.admitted accepted before turned
  have queued := follows.admitted accepted before turned
  refine ⟨_, config.vehicleCount.toNat, 0, (plannedClock config step).opened config step, serving,
    ⟨?_, ?_, ?_, ?_⟩, 2 * config.vehicleCount.toNat, Nat.le_refl _, rfl⟩
  · rw [begun]
    dsimp only
    rw [larger_toNat, arrivalOf_toNat before arrives, follows.cursor]
    rfl
  · rw [begun]
    dsimp only
    rw [generation, follows.generation]
    rfl
  · rw [begun]
    exact queued.prompts
  · rw [begun]
    exact .of_queued queued.count queued.fresh

/-- A step whose batches all fit ends where the plan ends it. -/
theorem FollowsPlan.run_step (follows : FollowsPlan config step current)
    (accepted : config.Accepted) (before : step < config.steps.toNat)
    (arrives : step * config.framePeriodMicroseconds.toNat < 2 ^ 64)
    (fits : StepFits simulation config dfa step current)
    (ran : runStep simulation config turns dfa step current = .ok next) :
    FollowsPlan config (step + 1) next := by
  obtain ⟨admitted, first, last, opened, looped, rfl⟩ := runStep_ok ran
  obtain ⟨admitting, _⟩ := follows.between.open_step accepted before opened
  obtain ⟨onCourse, stopped⟩ := attempt_while_kept _ _ _ _ _
    (fun now => OnCourse config step (plannedClock config (step + 1)) now)
    (follows.open_step accepted before arrives opened) (fun now after visited continues holds =>
      holds.serve accepted before continues fun batch scheduler =>
        fits admitted first now batch scheduler opened visited continues) looped
  obtain ⟨served, onPlan⟩ := onCourse.stop stopped
  exact ⟨served.between admitting, onPlan.cursor, onPlan.generation, onPlan.prompts⟩

/-- No batch of a step wraps the cursor where the plan of the step ends below 2^64. -/
theorem FollowsPlan.step_fits (follows : FollowsPlan config step current)
    (accepted : config.Accepted) (before : step < config.steps.toNat)
    (arrives : step * config.framePeriodMicroseconds.toNat < 2 ^ 64)
    (below : (plannedClock config (step + 1)).cursor < 2 ^ 64) :
    StepFits simulation config dfa step current := by
  intro admitted first now batch scheduler opened visited _ scheduled
  have onCourse := visited.kept
    (fun now => OnCourse config step (plannedClock config (step + 1)) now)
    (follows.open_step accepted before arrives opened) (fun now after continues holds =>
      holds.serve accepted before continues (holds.fits accepted below))
  exact onCourse.fits accepted below batch scheduler scheduled

theorem FollowsPlan.initially {begun : Scenario World Return}
    (started : beginScenario simulation config = .ok (dfa, begun)) :
    FollowsPlan config 0 begun := by
  obtain ⟨_, between, cursor, _, _, scheduler⟩ := beginScenario_ok started
  refine ⟨between, ?_, ?_, ?_⟩
  · rw [cursor]
    rfl
  · rw [scheduler]
    rfl
  · rw [scheduler]
    nofun

theorem plannedClock_mono (config : ScenarioConfig) {first last : Nat} (later : first ≤ last) :
    (plannedClock config first).cursor ≤ (plannedClock config last).cursor := by
  induction later with
  | refl => exact Nat.le_refl _
  | @step before _ ih =>
    have ends : PlanEnds config config.vehicleCount.toNat 0
        ((plannedClock config before).opened config before) (plannedClock config (before + 1)) :=
      ⟨2 * config.vehicleCount.toNat, Nat.le_refl _, rfl⟩
    exact (ih.trans (Nat.le_max_left _ _)).trans ends.le

/-- In a run that succeeds no batch wraps the cursor exactly when the plan ends below 2^64. -/
theorem cursor_fits_iff {finished : Finished Return} (arrivals : ArrivalsFit config)
    (ran : runScenario simulation config turns = .ok finished) :
    CursorFits simulation config turns ↔ PlanFits config := by
  obtain ⟨dfa, begun, last, started, turned, _⟩ := runScenario_ok ran
  have accepted := (beginScenario_ok started).1
  have arrives : ∀ step < config.steps.toNat,
      step * config.framePeriodMicroseconds.toNat < 2 ^ 64 := by
    intro step before
    rw [← (arrivals.exact before).1]
    exact (arrivalOf config step).toNat_lt
  rw [cursor_fits_iff_steps started]
  constructor
  · intro fits
    have follows := attempt_turns_kept _ _ _ _ (fun step current => FollowsPlan config step current)
      (.initially started) (fun step before current next reached holds stepped =>
        holds.run_step accepted before (arrives step before) (fits step before current reached)
          stepped) turned
    rw [PlanFits, ← follows.cursor]
    exact last.serviceCursor.toNat_lt
  · intro below step early current reached
    have bounded : ∀ index < config.steps.toNat,
        (plannedClock config (index + 1)).cursor < 2 ^ 64 := fun index inside =>
      (plannedClock_mono config inside).trans_lt below
    have follows := attempt_turns_kept _ _ _ _ (fun step current => FollowsPlan config step current)
      (.initially started) (fun index inside state next _ holds stepped =>
        have before := inside.trans early
        holds.run_step accepted before (arrives index before)
          (holds.step_fits accepted before (arrives index before) (bounded index before)) stepped)
      reached
    exact follows.step_fits accepted early (arrives step early) (bounded step early)

/-! ### Exactly when the times are right -/

/-- The reported times are those over exact integers if neither the last deadline nor the plan of
the cursor reaches 2^64. In turn, where they are, the last deadline is below 2^64, and so is the
plan with fewer than 2^28 vehicles. -/
theorem timing_exact (simulation : Simulation World Return) (config : ScenarioConfig)
    (turns : Nat) (finished : Finished Return)
    (ran : runScenario simulation config turns = .ok finished) :
    (ArrivalsFit config ∧ PlanFits config → TimingConsistent config finished.result) ∧
      (TimingConsistent config finished.result →
        ArrivalsFit config ∧ (config.vehicleCount.toNat < 2 ^ 28 → PlanFits config)) := by
  obtain ⟨dfa, begun, _, started, _, _⟩ := runScenario_ok ran
  obtain ⟨frames, counts, fits⟩ := cursor_fits_of_order ran
  constructor
  · rintro ⟨arrivals, plan⟩
    exact timing_of_fits arrivals ((cursor_fits_iff arrivals ran).mpr plan) ran
  · intro consistent
    have arrivals := arrivals_fit_of_times (beginScenario_ok started).1 frames counts consistent
    have inOrder : InOrder (framesDecisions finished.result.frames) := by
      refine ⟨?_, consistent.ordered⟩
      intro decision member
      obtain ⟨frame, present, inside⟩ := List.mem_flatMap.mp member
      obtain ⟨step, at_step⟩ := List.mem_iff_getElem?.mp present
      have times := consistent.times step frame at_step decision inside
      exact UInt64.le_iff_toNat_le.mpr times.causal
    exact ⟨arrivals, fun few => (cursor_fits_iff arrivals ran).mp (fits inOrder few)⟩

/-- Two steps of three vehicles with the default times, served in batches of two: a batch of each
step prefills and decodes. -/
theorem timing_exact_six :
    let still : Simulation Unit Unit :=
      ⟨fun _ => (), fun _ _ _ => (.hold, none, ()), fun _ _ _ _ => ()⟩
    let config : ScenarioConfig :=
      { steps := 2, vehicleCount := 3, maximumBatchSize := 2, kvPageCount := 8 }
    plannedBatches config = [⟨2, 0⟩, ⟨1, 1⟩, ⟨0, 2⟩] ∧
      ∃ finished, runScenario still config 3 = .ok finished ∧
        TimingConsistent config finished.result := by
  intro still config
  refine ⟨by decide, ?_⟩
  have succeeds : (runScenario still config 3).isOk = true := by decide +kernel
  cases ran : runScenario still config 3 with
  | error stopped =>
    rw [ran] at succeeds
    cases succeeds
  | ok finished =>
    have arrivals : ArrivalsFit config := by
      rw [ArrivalsFit]
      decide
    have plan : PlanFits config := by
      rw [PlanFits]
      decide +kernel
    exact ⟨finished, rfl, (timing_exact still config 3 finished ran).1 ⟨arrivals, plan⟩⟩

/-- A deadline that stands for no deadline wraps from the second step on: a decision that meets it
is counted as a miss. -/
theorem timing_wraps :
    let still : Simulation Unit Unit :=
      ⟨fun _ => (), fun _ _ _ => (.hold, none, ()), fun _ _ _ _ => ()⟩
    let config : ScenarioConfig :=
      { steps := 2, vehicleCount := 1, kvPageCount := 5,
        decisionDeadlineMicroseconds := 18446744073709551615 }
    config.validConfig = true ∧ ∃ finished, runScenario still config 2 = .ok finished ∧
      ¬TimingConsistent config finished.result := by
  intro still config
  have evaluated : (match runScenario still config 2 with
      | .ok finished => decide (finished.result.metrics.deadlineMisses.toNat ≠
          (framesDecisions finished.result.frames).countP (late config))
      | .error _ => false) = true := by decide +kernel
  refine ⟨by decide +kernel, ?_⟩
  cases ran : runScenario still config 2 with
  | error stopped =>
    rw [ran] at evaluated
    cases evaluated
  | ok finished =>
    rw [ran] at evaluated
    exact ⟨finished, rfl, fun consistent => of_decide_eq_true evaluated consistent.misses⟩

end

end MarketForge.Workloads
