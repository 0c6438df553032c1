import MarketForge.Serving.SchedulerTraces

/-!
# Cancellation is final

A cancelled entry is settled, or in flight with the cancellation pending. Neither can be dispatched,
commit tokens or leave this state other than by the one completion that absorbs the cancellation.
-/
namespace MarketForge.Serving

/-- An entry that is cancelled, at once or when its item comes back. -/
def Entry.Closing (entry : Entry) : Prop :=
  (entry.phase = .cancelled ∧ entry.inFlight = false) ∨ entry.cancelPending = true

/-- What an event does to a closing entry. -/
structure StaysClosed (id : SequenceId) (event : SchedulerEvent) (entry next : Entry) : Prop where
  closing : next.Closing
  items : event.items id = []
  generated : next.generatedTokens = entry.generatedTokens
  completions : event.completes id + next.inFlight.toNat ≤ entry.inFlight.toNat
  settled : 0 < event.completes id → next.phase = .cancelled

theorem completes_other {id : SequenceId} {event : SchedulerEvent}
    (other : event.reply.failed = true ∨ event.call.target ≠ some id) : event.completes id = 0 := by
  obtain ⟨before, call, reply⟩ := event
  cases call with
  | complete target emitted terminal =>
    cases reply with
    | batch result => rfl
    | status status =>
      refine if_neg ?_
      rintro ⟨rfl, ok⟩
      rcases other with failed | elsewhere
      · simp [SchedulerReply.failed, ok] at failed
      · exact elsewhere rfl
  | _ => rfl

theorem completes_le_one (id : SequenceId) (event : SchedulerEvent) : event.completes id ≤ 1 := by
  rw [SchedulerEvent.completes]
  split
  next =>
    split
    next => exact Nat.le_refl 1
    next => exact Nat.zero_le 1
  next => exact Nat.zero_le 1

/-- A pending cancellation keeps its entry in flight, in a phase that goes on. -/
theorem EntryLifecycle.closing_live {entry : Entry} (sound : EntryLifecycle entry)
    (closing : entry.Closing) (unsettled : entry.phase ≠ .cancelled) :
    entry.inFlight = true ∧ (entry.phase = .queued ∨ entry.phase = .decoding) := by
  rcases closing with ⟨cancelled, _⟩ | pending
  · exact absurd cancelled unsettled
  · exact ⟨sound.pending pending, sound.flying (sound.pending pending)⟩

theorem EntryStep.closing {id : SequenceId} {event : SchedulerEvent} {entry : Entry}
    {now : Option Entry} (sound : EntryLifecycle entry) (closing : entry.Closing)
    (step : EntryStep id event (some entry) now) :
    ∃ next, now = some next ∧ StaysClosed id event entry next := by
  obtain ⟨before, call, reply⟩ := event
  cases step with
  | kept items other =>
    have none := completes_other other
    exact ⟨entry, rfl, closing, items, rfl, by omega, fun some => by omega⟩
  -- a closing entry is not runnable, so it is not dispatched
  | dispatched runs =>
    obtain ⟨_, settled, live⟩ := EntryLifecycle.runnable_phase runs
    rcases closing with ⟨cancelled, _⟩ | pending
    · simp [cancelled] at live
    · simp [settled] at pending
  | moved items named succeeded effect =>
    dsimp only at named succeeded effect
    subst succeeded
    cases effect with
    -- the completion that the cancellation waits for: the entry becomes cancelled here
    | @absorbed target emitted terminal inFlight pending =>
      refine ⟨_, rfl, .inl ⟨rfl, rfl⟩, items, rfl, ?_, fun _ => rfl⟩
      have one := completes_le_one id
        ⟨before, .complete target emitted terminal, .status .success⟩
      rw [inFlight]
      exact one
    | committed inFlight settled =>
      rcases closing with ⟨_, idle⟩ | pending
      · simp [inFlight] at idle
      · simp [settled] at pending
    -- a live entry that closes is in flight, and the other moves need an idle one
    | paused idle live =>
      have flying := sound.closing_live closing (by rcases live with h | h <;> simp [h])
      simp [idle] at flying
    | pausedAgain paused =>
      have flying := sound.closing_live closing (by simp [paused])
      simp [paused] at flying
    | resumed paused =>
      have flying := sound.closing_live closing (by simp [paused])
      simp [paused] at flying
    | cancelledAgain cancelled =>
      exact ⟨_, rfl, closing, items, rfl, (Nat.zero_add _).le, fun some => nomatch some⟩
    | cancelRequested inFlight live =>
      exact ⟨_, rfl, .inr rfl, items, rfl, (Nat.zero_add _).le, fun some => nomatch some⟩
    | cancelled idle live =>
      have flying := sound.closing_live closing (by rintro h; simp [isTerminal, h] at live)
      simp [idle] at flying

/-- A settled entry keeps its phase. -/
theorem EntryStep.terminal {id : SequenceId} {event : SchedulerEvent} {entry : Entry}
    {now : Option Entry} (sound : EntryLifecycle entry) (terminal : isTerminal entry.phase = true)
    (step : EntryStep id event (some entry) now) :
    ∃ next, now = some next ∧ next.phase = entry.phase := by
  have settled : ¬(entry.phase = .queued ∨ entry.phase = .decoding) := by
    rintro (phase | phase) <;> simp [isTerminal, phase] at terminal
  have idle : entry.inFlight ≠ true := fun flying => settled (sound.flying flying)
  cases step with
  | kept => exact ⟨entry, rfl, rfl⟩
  | dispatched runs => exact absurd (EntryLifecycle.runnable_phase runs).2.2 settled
  | moved items named succeeded effect =>
    generalize event.call = call at effect
    cases effect with
    | absorbed inFlight => exact absurd inFlight idle
    | committed inFlight => exact absurd inFlight idle
    | paused _ live => exact absurd live settled
    | pausedAgain => exact ⟨_, rfl, rfl⟩
    | resumed paused => simp [isTerminal, paused] at terminal
    | cancelledAgain => exact ⟨_, rfl, rfl⟩
    | cancelRequested inFlight => exact absurd inFlight idle
    | cancelled _ live => simp [live] at terminal

/-! ### Runs -/

/-- What later calls do to a sequence whose entry is closing. -/
structure Closed (id : SequenceId) (entry : Entry) (history : List SchedulerEvent)
    (scheduler : SequenceScheduler) : Prop where
  items : ∀ event ∈ history, event.items id = []
  found : ∃ next, scheduler.find id = some next ∧ next.Closing ∧
    next.generatedTokens = entry.generatedTokens ∧
    (history.map (SchedulerEvent.completes id)).sum + next.inFlight.toNat ≤ entry.inFlight.toNat ∧
    (0 < (history.map (SchedulerEvent.completes id)).sum → next.phase = .cancelled)

theorem Closed.extend {id : SequenceId} {entry : Entry} {history : List SchedulerEvent}
    {event : SchedulerEvent} {after : SequenceScheduler} (sound : SchedulerInvariant event.before)
    (closed : Closed id entry history event.before)
    (step : EntryStep id event (event.before.find id) (after.find id)) :
    Closed id entry (history ++ [event]) after := by
  obtain ⟨items, next, found, closing, generated, completions, settled⟩ := closed
  rw [found] at step
  have nextSound := sound.entries next (Keyed.find_mem found)
  obtain ⟨last, now, stays⟩ := step.closing nextSound closing
  constructor
  · intro other listed
    rcases List.mem_append.mp listed with old | new
    · exact items other old
    · rw [List.mem_singleton.mp new]
      exact stays.items
  · refine ⟨last, now, stays.closing, stays.generated.trans generated, ?_, ?_⟩
    · have one := stays.completions
      rw [List.map_append, List.sum_append, List.map_singleton, List.sum_singleton]
      omega
    · intro some
      rw [List.map_append, List.sum_append, List.map_singleton, List.sum_singleton] at some
      by_cases here : 0 < event.completes id
      · exact stays.settled here
      · -- the completion came before, and a cancelled entry stays cancelled
        have cancelled := settled (by omega)
        rw [now] at step
        obtain ⟨other, same, phase⟩ := step.terminal nextSound (by rw [cancelled]; rfl)
        rw [Option.some.inj same, phase, cancelled]

theorem Closed.run {id : SequenceId} {entry : Entry} {scheduler : SequenceScheduler}
    (sound : SchedulerInvariant scheduler) (found : scheduler.find id = some entry)
    (closing : entry.Closing) (later : List SchedulerCall) :
    Closed id entry (schedulerMachine.history scheduler later)
      (schedulerMachine.run scheduler later) := by
  have related := schedulerMachine.history_invariant
    (fun history scheduler => SchedulerInvariant scheduler ∧ Closed id entry history scheduler)
    ?_ scheduler ⟨sound, by simp, entry, found, closing, rfl, by simp, by simp⟩ later
  · exact related.2
  · rintro history current call ⟨sound, closed⟩
    have effect := schedulerStep_effect current call
    exact ⟨sound.step call, closed.extend sound (effect.entryStep sound id)⟩

/-- A settled sequence keeps its phase in every run. -/
theorem terminal_run {id : SequenceId} {entry : Entry} {scheduler : SequenceScheduler}
    (sound : SchedulerInvariant scheduler) (found : scheduler.find id = some entry)
    (terminal : isTerminal entry.phase = true) (later : List SchedulerCall) :
    ∃ next, (schedulerMachine.run scheduler later).find id = some next ∧
      next.phase = entry.phase := by
  have kept := schedulerMachine.run_invariant
    (fun scheduler => SchedulerInvariant scheduler ∧
      ∃ next, scheduler.find id = some next ∧ next.phase = entry.phase)
    ?_ scheduler ⟨sound, entry, found, rfl⟩ later
  · exact kept.2
  · rintro current call ⟨sound, next, found, phase⟩
    have step := (schedulerStep_effect current call).entryStep sound id
    rw [found] at step
    obtain ⟨last, now, same⟩ := step.terminal (sound.entries next (Keyed.find_mem found))
      (phase ▸ terminal)
    exact ⟨sound.step call, last, now, same.trans phase⟩

/-- A cancellation that succeeds leaves a closing entry. -/
theorem cancel_closing {scheduler : SequenceScheduler} (sound : SchedulerInvariant scheduler)
    {id : SequenceId}
    (cancelled : (schedulerStep scheduler (.cancel id)).1 = .status .success) :
    ∃ entry, (schedulerStep scheduler (.cancel id)).2.find id = some entry ∧ entry.Closing := by
  have effect := schedulerStep_effect scheduler (.cancel id)
  rw [cancelled] at effect
  generalize (schedulerStep scheduler (.cancel id)).2 = after at effect
  cases effect with
  | refused failed => cases failed
  | @updated _ target entry next named found effect =>
    obtain rfl : id = target := Option.some_inj.mp named
    have entrySound := sound.entries entry (Keyed.find_mem found)
    have keeps : next.id = id := effect.id_eq.trans (Keyed.find_key found)
    refine ⟨next, Keyed.find_update_self found keeps, ?_⟩
    cases effect with
    | cancelledAgain cancelled =>
      refine .inl ⟨cancelled, Bool.not_eq_true _ ▸ fun flying => ?_⟩
      have live := entrySound.flying flying
      simp [cancelled] at live
    | cancelRequested inFlight live => exact .inr rfl
    | cancelled idle live => exact .inl ⟨rfl, idle⟩

/-- Once a cancellation has succeeded, the sequence is in no batch and commits no token; at most one
more completion succeeds, of an item that was in flight, and leaves it cancelled. No sequence ever
leaves the phases finished and cancelled. -/
theorem cancellation_final (calls later : List SchedulerCall) (id : SequenceId) :
    ((schedulerStep (schedulerMachine.run {} calls) (.cancel id)).1 = .status .success →
      let after := (schedulerStep (schedulerMachine.run {} calls) (.cancel id)).2
      let history := schedulerMachine.history after later
      let final := schedulerMachine.run after later
      let completed := (history.map (SchedulerEvent.completes id)).sum
      (∀ event ∈ history, ∀ batch, event.reply = .batch (.ok batch) →
          ∀ item ∈ batch.items, item.id ≠ id) ∧
        final.generated id = after.generated id ∧
        completed ≤ (if after.flying id then 1 else 0) ∧
        (0 < completed → ∃ entry, final.find id = some entry ∧ entry.phase = .cancelled)) ∧
      ∀ entry, (schedulerMachine.run {} calls).find id = some entry →
        isTerminal entry.phase = true →
        ∃ next, (schedulerMachine.run {} (calls ++ later)).find id = some next ∧
          next.phase = entry.phase := by
  have sound := SchedulerInvariant.run calls
  constructor
  · intro cancelled after history final completed
    obtain ⟨entry, found, closing⟩ := cancel_closing sound cancelled
    obtain ⟨items, next, now, _, generated, completions, settled⟩ :=
      Closed.run (sound.step (.cancel id)) found closing later
    refine ⟨?_, ?_, ?_, ?_⟩
    · intro event listed batch replied item member own
      have none := items event listed
      rw [SchedulerEvent.items, replied] at none
      exact absurd own (by simpa using List.filter_eq_nil_iff.mp none item member)
    · rw [SequenceScheduler.generated, SequenceScheduler.generated, found, now]
      exact congrArg UInt32.toNat generated
    · have flying : after.flying id = entry.inFlight := by
        rw [SequenceScheduler.flying, found]
        rfl
      rw [flying]
      cases inFlight : entry.inFlight <;> rw [inFlight] at completions <;>
        exact (Nat.le_add_right _ _).trans completions
    · exact fun some => ⟨next, now, settled some⟩
  · intro entry found terminal
    rw [schedulerMachine.run_append]
    exact terminal_run sound found terminal later

/-- A cancellation that waits for the item in flight, with a rejected completion before it. -/
theorem cancellation_final_in_flight :
    let granted : Allocator := Allocator.unlimited
    let calls : List SchedulerCall := [.enqueue granted ⟨3, 4, 2⟩, .schedule granted 1]
    let later : List SchedulerCall := [.pause 3, .complete 3 0 false, .complete 3 9 false,
      .schedule granted 1, .complete 3 1 false]
    let after := (schedulerStep (schedulerMachine.run {} calls) (.cancel 3)).2
    let history := schedulerMachine.history after later
    (history.map (SchedulerEvent.completes 3)).sum ≤ 1 :=
  ((cancellation_final _ _ 3).1 (by decide)).2.2.1

end MarketForge.Serving
