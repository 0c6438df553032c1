import MarketForge.Core.Status
import MarketForge.Library.Keyed
import MarketForge.Library.Transition

/-!
# The sequence scheduler

`SequenceScheduler` forms batches of work from the sequences that wait for some. A sequence in
a batch is in flight until it is completed; it can be paused while idle, and cancelled at any
time, at once when idle and at its completion when in flight.

As in the source, a call that names a sequence looks it up and writes through the pointer found,
and every operation returns the state it leaves, failures included.
-/
namespace MarketForge.Serving

abbrev SequenceId := UInt64

inductive SequencePhase where
  | queued
  | decoding
  | paused
  | finished
  | cancelled
  deriving DecidableEq, Repr

inductive WorkKind where
  | prefill
  | decode
  deriving DecidableEq, Repr

structure SequenceRequest where
  id : SequenceId := 0
  promptTokens : UInt32 := 0
  maxOutputTokens : UInt32 := 0
  deriving DecidableEq, Repr

structure BatchItem where
  id : SequenceId
  work : WorkKind
  contextTokens : UInt32
  slot : Nat
  deriving DecidableEq, Repr

structure InferenceBatch where
  generation : UInt64
  items : List BatchItem
  deriving DecidableEq, Repr

structure SequenceState where
  id : SequenceId
  phase : SequencePhase
  promptTokens : UInt32
  generatedTokens : UInt32
  maxOutputTokens : UInt32
  inFlight : Bool
  cancelPending : Bool
  deriving DecidableEq, Repr

/-- The counters of a snapshot. Each counts entries of one vector, so none can wrap. -/
structure SchedulerSnapshot where
  generation : UInt64
  sequenceCount : Nat
  residentCount : Nat
  runnableCount : Nat
  inFlightCount : Nat
  pausedCount : Nat
  finishedCount : Nat
  cancelledCount : Nat
  deriving DecidableEq, Repr

structure Entry where
  request : SequenceRequest
  phase : SequencePhase := .queued
  resumePhase : SequencePhase := .queued
  inFlightWork : WorkKind := .prefill
  generatedTokens : UInt32 := 0
  inFlight : Bool := false
  cancelPending : Bool := false
  deriving DecidableEq, Repr

def isTerminal (phase : SequencePhase) : Bool :=
  phase == .finished || phase == .cancelled

def isRunnable (entry : Entry) : Bool :=
  !entry.inFlight && !entry.cancelPending && (entry.phase == .queued || entry.phase == .decoding)

namespace Entry

def id (entry : Entry) : SequenceId := entry.request.id

/-- The kind of work a runnable entry waits for. -/
def work (entry : Entry) : WorkKind := if entry.phase = .queued then .prefill else .decode

/-- The context of the next batch item, added in 32 bits. -/
def contextTokens (entry : Entry) : UInt32 := entry.request.promptTokens + entry.generatedTokens

def complete (entry : Entry) (emittedTokens : UInt32) (terminal : Bool) : Status × Entry :=
  if entry.inFlight = false ∨ (emittedTokens = 0 ∧ terminal = false) then
    (.failure .invalidArgument, entry)
  else
    let cleared := { entry with inFlight := false }
    if cleared.cancelPending then
      (.success, { cleared with cancelPending := false, phase := .cancelled })
    else
      let remaining := cleared.request.maxOutputTokens - cleared.generatedTokens
      if emittedTokens > remaining then
        (.failure .invalidArgument, { cleared with inFlight := true })
      else
        let generated := cleared.generatedTokens + emittedTokens
        (.success, { cleared with
          generatedTokens := generated
          phase :=
            if terminal ∨ generated = cleared.request.maxOutputTokens then .finished
            else .decoding })

def pause (entry : Entry) : Status × Entry :=
  if entry.inFlight ∨ isTerminal entry.phase then (.failure .invalidArgument, entry)
  else if entry.phase = .paused then (.success, entry)
  else (.success, { entry with resumePhase := entry.phase, phase := .paused })

def resume (entry : Entry) : Status × Entry :=
  if entry.phase ≠ .paused then (.failure .invalidArgument, entry)
  else (.success, { entry with phase := entry.resumePhase })

def cancel (entry : Entry) : Status × Entry :=
  if entry.phase = .finished then (.failure .invalidArgument, entry)
  else if entry.phase = .cancelled then (.success, entry)
  else if entry.inFlight then (.success, { entry with cancelPending := true })
  else (.success, { entry with phase := .cancelled })

end Entry

structure SequenceScheduler where
  entries : List Entry := []
  nextScanIndex : Nat := 0
  generation : UInt64 := 0
  deriving DecidableEq, Repr

/-- The scan of `schedule`: `remaining` offsets are left, the next one is `offset`. -/
def selectRunnable (entries : List Entry) (start limit : Nat) : Nat → Nat → List Nat → List Nat
  | 0, _, selected => selected
  | remaining + 1, offset, selected =>
    if selected.length < limit then
      let index := (start + offset) % entries.length
      if entries[index]?.any isRunnable then
        selectRunnable entries start limit remaining (offset + 1) (selected ++ [index])
      else selectRunnable entries start limit remaining (offset + 1) selected
    else selected

/-- The items of the selected entries, in order of selection. -/
def batchItems (entries : List Entry) (selected : List Nat) : List BatchItem :=
  selected.zipIdx.filterMap fun (index, slot) =>
    entries[index]?.map fun entry => ⟨entry.id, entry.work, entry.contextTokens, slot⟩

/-- The dispatch loop: every selected entry is put in flight with the work of its item. -/
def dispatch : List Entry → List (Nat × WorkKind) → List Entry
  | entries, [] => entries
  | entries, (index, work) :: rest =>
    dispatch (entries.modify index fun entry =>
      { entry with inFlight := true, inFlightWork := work }) rest

namespace SequenceScheduler

def find (scheduler : SequenceScheduler) (id : SequenceId) : Option Entry :=
  Keyed.find Entry.id scheduler.entries id

def enqueue (alloc : Allocator) (scheduler : SequenceScheduler) (request : SequenceRequest) :
    Status × SequenceScheduler :=
  if request.id = 0 ∨ request.promptTokens = 0 ∨ request.maxOutputTokens = 0 ∨
      request.promptTokens > UInt32.ofNat (UInt32.size - 1) - request.maxOutputTokens ∨
      (scheduler.find request.id).isSome then
    (.failure .invalidArgument, scheduler)
  else match alloc.caught [0] with
    | some code => (.failure code, scheduler)
    | none =>
      (.success, { scheduler with entries := scheduler.entries ++ [{ request := request }] })

def schedule (alloc : Allocator) (scheduler : SequenceScheduler) (maximumSequences : Nat) :
    Result InferenceBatch × SequenceScheduler :=
  let entries := scheduler.entries
  if maximumSequences = 0 then
    (.error (.failure .invalidArgument), scheduler)
  else if entries = [] then
    (.ok ⟨scheduler.generation, []⟩, scheduler)
  else match alloc.caught [0] with
    | some code => (.error (.failure code), scheduler)
    | none =>
      let limit := min maximumSequences entries.length
      let start := scheduler.nextScanIndex % entries.length
      let selected := selectRunnable entries start limit entries.length 0 []
      match selected.getLast? with
      | none => (.ok ⟨scheduler.generation, []⟩, scheduler)
      | some last =>
        if scheduler.generation = UInt64.ofNat (UInt64.size - 1) then
          (.error (.failure .arithmeticOverflow), scheduler)
        else match alloc.caught [1] with
          | some code => (.error (.failure code), scheduler)
          | none =>
            let batch : InferenceBatch := ⟨scheduler.generation + 1, batchItems entries selected⟩
            (.ok batch, {
              entries := dispatch entries (selected.zip (batch.items.map BatchItem.work))
              nextScanIndex := (last + 1) % entries.length
              generation := batch.generation })

/-- Apply an operation to the entry found, or refuse. -/
def onEntry (scheduler : SequenceScheduler) (id : SequenceId) (f : Entry → Status × Entry) :
    Status × SequenceScheduler :=
  match scheduler.find id with
  | none => (.failure .invalidArgument, scheduler)
  | some entry =>
    ((f entry).1, { scheduler with
      entries := Keyed.update Entry.id scheduler.entries id fun found => (f found).2 })

def complete (scheduler : SequenceScheduler) (id : SequenceId) (emittedTokens : UInt32)
    (terminal : Bool) : Status × SequenceScheduler :=
  scheduler.onEntry id fun entry => entry.complete emittedTokens terminal

def pause (scheduler : SequenceScheduler) (id : SequenceId) : Status × SequenceScheduler :=
  scheduler.onEntry id Entry.pause

def resume (scheduler : SequenceScheduler) (id : SequenceId) : Status × SequenceScheduler :=
  scheduler.onEntry id Entry.resume

def cancel (scheduler : SequenceScheduler) (id : SequenceId) : Status × SequenceScheduler :=
  scheduler.onEntry id Entry.cancel

def state (scheduler : SequenceScheduler) (id : SequenceId) : Result SequenceState :=
  match scheduler.find id with
  | none => .error (.failure .invalidArgument)
  | some entry => .ok {
      id := entry.request.id
      phase := entry.phase
      promptTokens := entry.request.promptTokens
      generatedTokens := entry.generatedTokens
      maxOutputTokens := entry.request.maxOutputTokens
      inFlight := entry.inFlight
      cancelPending := entry.cancelPending }

def snapshot (scheduler : SequenceScheduler) : SchedulerSnapshot where
  generation := scheduler.generation
  sequenceCount := scheduler.entries.length
  inFlightCount := scheduler.entries.countP fun entry => entry.inFlight
  pausedCount := scheduler.entries.countP fun entry => entry.phase == .paused
  finishedCount := scheduler.entries.countP fun entry => entry.phase == .finished
  cancelledCount := scheduler.entries.countP fun entry => entry.phase == .cancelled
  residentCount := scheduler.entries.countP fun entry => !isTerminal entry.phase
  runnableCount := scheduler.entries.countP isRunnable

end SequenceScheduler

/-- The six mutating calls. Those that grow a container carry the fate of their allocations. -/
inductive SchedulerCall where
  | enqueue (alloc : Allocator) (request : SequenceRequest)
  | schedule (alloc : Allocator) (maximumSequences : Nat)
  | complete (id : SequenceId) (emittedTokens : UInt32) (terminal : Bool)
  | pause (id : SequenceId)
  | resume (id : SequenceId)
  | cancel (id : SequenceId)

inductive SchedulerReply where
  | status (value : Status)
  | batch (value : Result InferenceBatch)
  deriving DecidableEq, Repr

/-- One call on the scheduler. -/
def schedulerStep (scheduler : SequenceScheduler) :
    SchedulerCall → SchedulerReply × SequenceScheduler
  | .enqueue alloc request => (scheduler.enqueue alloc request).map .status id
  | .schedule alloc maximumSequences => (scheduler.schedule alloc maximumSequences).map .batch id
  | .complete id emittedTokens terminal =>
    (scheduler.complete id emittedTokens terminal).map .status fun after => after
  | .pause id => (scheduler.pause id).map .status fun after => after
  | .resume id => (scheduler.resume id).map .status fun after => after
  | .cancel id => (scheduler.cancel id).map .status fun after => after

/-- The scheduler as a machine driven by its callers. -/
def schedulerMachine : Transition.Machine SequenceScheduler SchedulerCall SchedulerReply :=
  ⟨schedulerStep⟩

end MarketForge.Serving
