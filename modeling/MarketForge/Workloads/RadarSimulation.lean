import MarketForge.Grammar.TrieDfa
import MarketForge.Library.Attempts
import MarketForge.Library.BinaryFloat
import MarketForge.Serving.CacheMetrics

/-!
# The radar workload

`runScenario` simulates vehicles that ask for one decision each in every step. A decision is a
sequence of two tokens: it is admitted to the scheduler and to the paged cache, where it shares a
prefix with all others, and is served in batches until it is complete. A service cursor is the
clock of the batches.

Positions, velocities, noise and the choice of the actions are floating-point code that nothing
here depends on. They are the `Simulation`, an arbitrary one. Of the results, those that are
computed in floating point from the others are left out. Memory is always granted.
-/
namespace MarketForge.Workloads

open Grammar Library Serving

abbrev Double := BinaryFloat.Value

/-- `value <= 0.0`, which no NaN satisfies. -/
def atMostZero : Double → Bool
  | .nan => false
  | .infinity negative => negative
  | .finite value => decide (value ≤ 0)

def belowZero : Double → Bool
  | .nan => false
  | .infinity negative => negative
  | .finite value => decide (value < 0)

def isFinite : Double → Bool
  | .finite _ => true
  | .nan | .infinity _ => false

/-- `std::max`. -/
def larger {α : Type} [LT α] [DecidableLT α] (first second : α) : α :=
  if first < second then second else first

theorem larger_toNat (first second : UInt64) :
    (larger first second).toNat = max first.toNat second.toNat := by
  rw [larger]
  split
  next below =>
    rw [UInt64.lt_iff_toNat_lt] at below
    omega
  next reached =>
    rw [UInt64.lt_iff_toNat_lt] at reached
    omega

theorem larger_toNat32 (first second : UInt32) :
    (larger first second).toNat = max first.toNat second.toNat := by
  rw [larger]
  split
  next below =>
    rw [UInt32.lt_iff_toNat_lt] at below
    omega
  next reached =>
    rw [UInt32.lt_iff_toNat_lt] at reached
    omega

inductive MissionAction where
  | hold
  | investigate
  | intercept
  | evade
  | returnToBase
  deriving DecidableEq, Repr

/-- The value of the enumerator. -/
def MissionAction.index : MissionAction → Nat
  | .hold => 0
  | .investigate => 1
  | .intercept => 2
  | .evade => 3
  | .returnToBase => 4

structure ScenarioConfig where
  steps : UInt32 := 48
  vehicleCount : UInt32 := 32
  targetCount : UInt32 := 6
  maximumBatchSize : UInt32 := 8
  promptTokens : UInt32 := 68
  outputTokens : UInt32 := 2
  sharedPrefixTokens : UInt32 := 64
  kvTokensPerPage : UInt32 := 16
  kvPageCount : UInt32 := 256
  framePeriodMicroseconds : UInt64 := 20000
  decisionDeadlineMicroseconds : UInt64 := 8000
  seed : UInt64 := 0x56454c4f52554d
  simulationStepSeconds : Double := .finite (1 / 4)
  worldHalfExtent : Double := .finite 220
  radarRange : Double := .finite 180
  radarRangeNoise : Double := .finite (3 / 4)
  -- the value nearest to 0.006
  radarBearingNoiseRadians : Double := .finite (3458764513820541 / 576460752303423488)
  deriving DecidableEq

structure DecisionTrace where
  sequenceId : UInt64 := 0
  vehicleId : UInt32 := 0
  action : MissionAction := .hold
  arrivalMicroseconds : UInt64 := 0
  completionMicroseconds : UInt64 := 0
  deadlineMicroseconds : UInt64 := 0
  latencyMicroseconds : UInt64 := 0
  finalBatchGeneration : UInt64 := 0
  deadlineMet : Bool := false
  grammarValid : Bool := false
  deriving DecidableEq, Repr

structure TraceFrame (Return : Type) where
  step : UInt32
  radarReturns : List Return
  decisions : List DecisionTrace

structure WorkloadMetrics where
  decisions : UInt64 := 0
  radarReturns : UInt64 := 0
  schedulerBatches : UInt64 := 0
  prefillBatches : UInt64 := 0
  decodeBatches : UInt64 := 0
  deadlineMisses : UInt64 := 0
  grammarValidDecisions : UInt64 := 0
  sharedPrefixTokensReused : UInt64 := 0
  peakPhysicalKvPages : UInt64 := 0
  peakUnsharedKvPages : UInt64 := 0
  maximumBatchSize : UInt32 := 0
  deriving DecidableEq, Repr

structure ScenarioResult (Return : Type) where
  config : ScenarioConfig
  frames : List (TraceFrame Return)
  metrics : WorkloadMetrics

/-- The floating-point part of a scenario: the world it starts from, the action a vehicle chooses
with what it may have observed, and the movement at the end of a step. -/
structure Simulation (World Return : Type) where
  initial : ScenarioConfig → World
  choose : ScenarioConfig → World → Nat → MissionAction × Option Return × World
  advance : ScenarioConfig → World → List MissionAction → List Return → World

def prefixId : PrefixId := 1

def prefixSequenceId : SequenceId := 1

def firstDecisionSequenceId : SequenceId := 1000

def actionVocabularySize : UInt32 := 256

def actionTokens : List (List TokenId) := [[80, 11], [80, 23], [80, 37], [80, 41], [80, 59]]

def pagesFor (tokens pageSize : UInt32) : UInt64 :=
  (tokens.toUInt64 + pageSize.toUInt64 - 1) / pageSize.toUInt64

namespace ScenarioConfig

/-- The total a decision reserves, added in 32 bits. -/
def totalTokens (config : ScenarioConfig) : UInt32 := config.promptTokens + config.outputTokens

def validConfig (config : ScenarioConfig) : Bool :=
  if config.steps = 0 ∨ config.vehicleCount = 0 ∨ config.targetCount = 0 ∨
      config.maximumBatchSize = 0 ∨ config.outputTokens ≠ 2 ∨ config.sharedPrefixTokens = 0 ∨
      config.promptTokens < config.sharedPrefixTokens ∨
      config.promptTokens > UInt32.ofNat (UInt32.size - 1) - config.outputTokens ∨
      config.kvTokensPerPage = 0 ∨ config.kvPageCount = 0 ∨
      config.framePeriodMicroseconds = 0 ∨ config.decisionDeadlineMicroseconds = 0 ∨
      atMostZero config.simulationStepSeconds ∨ atMostZero config.worldHalfExtent ∨
      atMostZero config.radarRange ∨ belowZero config.radarRangeNoise ∨
      belowZero config.radarBearingNoiseRadians ∨ ¬isFinite config.simulationStepSeconds ∨
      ¬isFinite config.worldHalfExtent ∨ ¬isFinite config.radarRange ∨
      ¬isFinite config.radarRangeNoise ∨ ¬isFinite config.radarBearingNoiseRadians then
    false
  else
    let perSequencePages := pagesFor
      (config.promptTokens + config.outputTokens - config.sharedPrefixTokens) config.kvTokensPerPage
    let prefixPages := pagesFor config.sharedPrefixTokens config.kvTokensPerPage
    decide (prefixPages + perSequencePages * config.vehicleCount.toUInt64 ≤
      config.kvPageCount.toUInt64)

end ScenarioConfig

def buildActionDfa : Result TokenDfa :=
  TokenDfa.build (fun _ => true)
    (actionTokens.mapIdx fun index tokens => ⟨UInt32.ofNat index, tokens⟩)
    ⟨actionVocabularySize, 2, 5, 8, 8⟩

def grammarRoundTrip (dfa : TokenDfa) (action : MissionAction) : Bool :=
  match actionTokens[action.index]? with
  | none => false
  | some tokens =>
    match dfa.advanceAll TrieDfa.root tokens with
    | .error _ => false
    | .ok state =>
      match dfa.decodeTerminal state with
      | .error _ => false
      | .ok decoded => decide (decoded = UInt32.ofNat action.index)

def batchDurationMicroseconds (kind : WorkKind) (maximumContextTokens : UInt32) (batchSize : Nat)
    (generation : UInt64) : UInt64 :=
  let deterministicJitter := (generation * 37) % 101
  if kind = .prefill then
    800 + maximumContextTokens.toUInt64 * 7 + UInt64.ofNat batchSize * 35 + deterministicJitter
  else
    360 + UInt64.ofNat batchSize * 28 + deterministicJitter

/-- How many items of a batch are prefills. -/
def prefillCount (batch : InferenceBatch) : Nat :=
  batch.items.countP fun item => item.work = .prefill

def decodeCount (batch : InferenceBatch) : Nat := batch.items.length - prefillCount batch

def maximumContext (batch : InferenceBatch) : UInt32 :=
  batch.items.foldl (fun largest item => larger largest item.contextTokens) 0

/-- The duration of a batch: that of its prefills and that of its decodes. -/
def serviceDuration (batch : InferenceBatch) : UInt64 :=
  (if prefillCount batch ≠ 0 then
    batchDurationMicroseconds .prefill (maximumContext batch) (prefillCount batch) batch.generation
  else 0) +
  (if decodeCount batch ≠ 0 then
    batchDurationMicroseconds .decode (maximumContext batch) (decodeCount batch) batch.generation
  else 0)

abbrev Run (α : Type) := Attempt Status α

def failure {α : Type} (code : ErrorCode) : Run α := .error (.failed (.failure code))

section

variable {World Return : Type} (simulation : Simulation World Return) (config : ScenarioConfig)

/-- The variables of the loop that admits the decisions of a step. -/
structure Admission (World Return : Type) where
  world : World
  scheduler : SequenceScheduler
  cache : PagedKvCache
  nextSequence : SequenceId
  radarReturns : List Return := []
  decisions : List DecisionTrace := []

/-- One turn of that loop. The id of a vehicle is its index plus one, added in 32 bits. -/
def admitVehicle (dfa : TokenDfa) (arrival : UInt64) (index : Nat)
    (current : Admission World Return) : Run (Admission World Return) :=
  let (action, observation, world) := simulation.choose config current.world index
  let valid := grammarRoundTrip dfa action
  let sequenceId := current.nextSequence
  let decision : DecisionTrace :=
    ⟨sequenceId, UInt32.ofNat index + 1, action, arrival, 0,
      arrival + config.decisionDeadlineMicroseconds, 0, 0, false, valid⟩
  let (enqueued, scheduler) := current.scheduler.enqueue .unlimited
    ⟨sequenceId, config.promptTokens, config.outputTokens⟩
  let (created, cache) := current.cache.createSequence .unlimited sequenceId prefixId
  if ¬valid ∨ ¬enqueued.isOk ∨ ¬created.isOk then failure .invalidFormat
  else match cache.reserve .unlimited sequenceId config.totalTokens with
    | (.error _, _) => failure .insufficientMemory
    | (.ok reservation, cache) =>
      let (committed, cache) := cache.commit .unlimited reservation.id
      if ¬committed.isOk then failure .insufficientMemory
      else .ok ⟨world, scheduler, cache, sequenceId + 1,
        current.radarReturns ++ observation.toList, current.decisions ++ [decision]⟩

/-- The page counts after the admission. -/
def recordPages (cache : PagedKvCache) (metrics : WorkloadMetrics) : Run WorkloadMetrics :=
  match cache.metrics with
  | .error status => failure status.code
  | .ok cacheMetrics =>
    let physicalPages := cacheMetrics.mutablePages + cacheMetrics.sharedPrefixPages
    let unsharedPages :=
      pagesFor config.totalTokens config.kvTokensPerPage * config.vehicleCount.toUInt64
    .ok { metrics with
      peakPhysicalKvPages := larger metrics.peakPhysicalKvPages physicalPages
      peakUnsharedKvPages := larger metrics.peakUnsharedKvPages unsharedPages }

/-- The variables of the loop that serves the decisions of a step. -/
structure Service where
  scheduler : SequenceScheduler
  cache : PagedKvCache
  serviceCursor : UInt64
  decisions : List DecisionTrace
  completions : List UInt64
  metrics : WorkloadMetrics
  completed : UInt32 := 0

/-- The record of a decision whose last batch has ended. -/
def DecisionTrace.completedAt (decision : DecisionTrace)
    (serviceCursor arrival generation : UInt64) :
    DecisionTrace :=
  { decision with
    completionMicroseconds := serviceCursor
    latencyMicroseconds := serviceCursor - arrival
    finalBatchGeneration := generation
    deadlineMet := decide (serviceCursor ≤ decision.deadlineMicroseconds) }

/-- What the loop over the items writes when a decision is complete. The index and that of the
vehicle are ones of their vectors. -/
def recordDecision (arrival generation : UInt64) (index : Nat) (current : Service) : Service :=
  let decision := (current.decisions.getD index {}).completedAt current.serviceCursor arrival
    generation
  { current with
    decisions := current.decisions.set index decision
    completions := current.completions.modify (decision.vehicleId - 1).toNat (· + 1)
    metrics := { current.metrics with
      deadlineMisses := current.metrics.deadlineMisses + if decision.deadlineMet then 0 else 1
      grammarValidDecisions :=
        current.metrics.grammarValidDecisions + if decision.grammarValid then 1 else 0 }
    completed := current.completed + 1 }

/-- One turn of that loop. The vector of decisions is not empty. -/
def completeItem (arrival generation : UInt64) (current : Service) (item : BatchItem) :
    Run Service :=
  let terminal := decide (item.work = .decode)
  let (completed, scheduler) := current.scheduler.complete item.id 1 terminal
  if ¬completed.isOk then failure .invalidFormat
  else if ¬terminal then .ok { current with scheduler := scheduler }
  else
    let firstSequence := (current.decisions.headD {}).sequenceId
    if item.id < firstSequence ∨
        item.id ≥ firstSequence + UInt64.ofNat current.decisions.length then
      failure .invalidFormat
    else
      let (destroyed, cache) := current.cache.destroySequence item.id
      if ¬destroyed.isOk then failure .invalidFormat
      else .ok (recordDecision arrival generation (item.id - firstSequence).toNat
        { current with scheduler := scheduler, cache := cache })

/-- The counters of the batches. -/
def WorkloadMetrics.countBatch (metrics : WorkloadMetrics) (batch : InferenceBatch) :
    WorkloadMetrics :=
  { metrics with
    schedulerBatches := metrics.schedulerBatches + 1
    maximumBatchSize := larger metrics.maximumBatchSize (UInt32.ofNat batch.items.length)
    prefillBatches := metrics.prefillBatches + if prefillCount batch ≠ 0 then 1 else 0
    decodeBatches := metrics.decodeBatches + if decodeCount batch ≠ 0 then 1 else 0 }

/-- One turn of the loop that serves the decisions of a step. -/
def serveBatch (arrival : UInt64) (current : Service) : Run Service :=
  match current.scheduler.schedule .unlimited config.maximumBatchSize.toNat with
  | (.error _, _) => failure .invalidFormat
  | (.ok batch, scheduler) =>
    if batch.items = [] then failure .invalidFormat
    else
      batch.items.foldlM (completeItem arrival batch.generation) { current with
        scheduler := scheduler
        serviceCursor := current.serviceCursor + serviceDuration batch
        metrics := current.metrics.countBatch batch }

/-- `completed < config.vehicle_count`. -/
def unserved (current : Service) : Bool := decide (current.completed < config.vehicleCount)

/-- The variables of the loop over the steps. -/
structure Scenario (World Return : Type) where
  world : World
  scheduler : SequenceScheduler := {}
  cache : PagedKvCache
  nextSequence : SequenceId := firstDecisionSequenceId
  serviceCursor : UInt64 := 0
  completions : List UInt64
  metrics : WorkloadMetrics := {}
  frames : List (TraceFrame Return) := []

/-- The variables of the loop over the vehicles before its first turn. -/
def Scenario.admission (current : Scenario World Return) : Admission World Return where
  world := current.world
  scheduler := current.scheduler
  cache := current.cache
  nextSequence := current.nextSequence

/-- The arrival of the decisions of a step, multiplied in 64 bits. -/
def arrivalOf (step : Nat) : UInt64 := UInt64.ofNat step * config.framePeriodMicroseconds

/-- A step up to its first batch: every decision is admitted and the pages are counted. -/
def openStep (dfa : TokenDfa) (step : Nat) (current : Scenario World Return) :
    Run (Admission World Return × Service) := do
  let arrival := arrivalOf config step
  let admitted ← attemptTurns (admitVehicle simulation config dfa arrival)
    config.vehicleCount.toNat current.admission
  let metrics ← recordPages config admitted.cache current.metrics
  return (admitted, {
    scheduler := admitted.scheduler
    cache := admitted.cache
    serviceCursor := larger current.serviceCursor arrival
    decisions := admitted.decisions
    completions := current.completions
    metrics := metrics })

/-- The end of a step, when its decisions are complete. -/
def closeStep (step : Nat) (admitted : Admission World Return) (served : Service)
    (current : Scenario World Return) : Scenario World Return :=
  let decided := UInt64.ofNat served.decisions.length
  { world := simulation.advance config admitted.world
      (served.decisions.map DecisionTrace.action) admitted.radarReturns
    scheduler := served.scheduler
    cache := served.cache
    nextSequence := admitted.nextSequence
    serviceCursor := served.serviceCursor
    completions := served.completions
    metrics := { served.metrics with
      radarReturns := served.metrics.radarReturns + UInt64.ofNat admitted.radarReturns.length
      decisions := served.metrics.decisions + decided
      sharedPrefixTokensReused := served.metrics.sharedPrefixTokensReused +
        config.sharedPrefixTokens.toUInt64 * decided }
    frames := current.frames ++
      [⟨UInt32.ofNat step, admitted.radarReturns, served.decisions⟩] }

/-- One step. The loop over the batches is given a number of turns. -/
def runStep (turns : Nat) (dfa : TokenDfa) (step : Nat) (current : Scenario World Return) :
    Run (Scenario World Return) := do
  let (admitted, begun) ← openStep simulation config dfa step current
  let served ← attemptWhile (unserved config) (serveBatch config (arrivalOf config step)) turns
    begun
  return closeStep simulation config step admitted served current

/-- The cache with the tokens that all decisions share published. -/
def publishShared (cache : PagedKvCache) : Run PagedKvCache :=
  let (created, cache) := cache.createSequence .unlimited prefixSequenceId 0
  if ¬created.isOk then failure .invalidFormat
  else match cache.reserve .unlimited prefixSequenceId config.sharedPrefixTokens with
    | (.error _, _) => failure .invalidFormat
    | (.ok reservation, cache) =>
      let (committed, cache) := cache.commit .unlimited reservation.id
      let (published, cache) := cache.publishPrefix .unlimited prefixId prefixSequenceId
      if ¬committed.isOk ∨ ¬published.isOk then failure .invalidFormat else .ok cache

/-- The cache at the end, when the shared tokens are given back and every page must be free. -/
def releaseShared (cache : PagedKvCache) : Run PagedKvCache :=
  let (destroyed, cache) := cache.destroySequence prefixSequenceId
  let (released, cache) := cache.destroyPrefix prefixId
  if ¬destroyed.isOk ∨ ¬released.isOk then failure .invalidFormat
  else match cache.metrics with
    | .error _ => failure .invalidFormat
    | .ok finalMetrics =>
      if finalMetrics.freePages ≠ config.kvPageCount.toUInt64 then failure .invalidFormat
      else .ok cache

/-- The automaton and the state before the first step. -/
def beginScenario : Run (TokenDfa × Scenario World Return) :=
  if ¬config.validConfig then failure .invalidArgument
  else match buildActionDfa with
    | .error status => failure status.code
    | .ok dfa =>
      match PagedKvCache.create .unlimited config.kvPageCount config.kvTokensPerPage with
      | .error status => failure status.code
      | .ok cache => do
        let shared ← publishShared config cache
        return (dfa, {
          world := simulation.initial config
          cache := shared
          completions := List.replicate config.vehicleCount.toNat 0 })

/-- What a run returns, with the completions of each vehicle, from which the source computes
their fairness, and the cache it leaves. -/
structure Finished (Return : Type) where
  result : ScenarioResult Return
  completions : List UInt64
  cache : PagedKvCache

/-- A run in which no loop over batches has more turns than given. -/
def runScenario (turns : Nat) : Run (Finished Return) := do
  let (dfa, begun) ← beginScenario simulation config
  let last ← attemptTurns (runStep simulation config turns dfa) config.steps.toNat begun
  let cache ← releaseShared config last.cache
  return ⟨⟨config, last.frames, last.metrics⟩, last.completions, cache⟩

end

end MarketForge.Workloads
