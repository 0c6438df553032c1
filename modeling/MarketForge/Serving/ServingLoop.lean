import Mathlib.Algebra.Order.BigOperators.Group.List
import Mathlib.Algebra.Order.Group.Nat
import MarketForge.Library.Lookup
import MarketForge.Serving.SchedulerBudget

/-!
# The serving loop

The caller of the scheduler takes a batch, runs it and completes every item, over and over. Each
turn pays with the budgets of the sequences in its batch, so however the turns limit their batches
and however many tokens an item brings, the loop leaves no runnable sequence after as many turns
as tokens were owed.
-/
namespace MarketForge.Serving

/-- What running an entry in flight brings: the tokens emitted, and whether they are the last. -/
abbrev Decoder := Entry → UInt32 × Bool

/-- A decoder stays within the budget and ends what it does not extend. -/
def Decoder.Admissible (decoder : Decoder) : Prop :=
  ∀ entry : Entry, entry.inFlight = true →
    (decoder entry).1 ≤ entry.request.maxOutputTokens - entry.generatedTokens ∧
      ((decoder entry).1 ≠ 0 ∨ (decoder entry).2 = true)

/-- The call that completes an item. -/
def completion (decoder : Decoder) (scheduler : SequenceScheduler) (item : BatchItem) :
    SchedulerCall :=
  let brought := (scheduler.find item.id).elim (0, true) decoder
  .complete item.id brought.1 brought.2

/-- The calls after a batch. -/
def completions (decoder : Decoder) (scheduler : SequenceScheduler) (batch : InferenceBatch) :
    List SchedulerCall :=
  batch.items.map (completion decoder scheduler)

/-- One turn: a batch of at most `limit` sequences, run and completed. -/
def turn (limit : Nat) (decoder : Decoder) (scheduler : SequenceScheduler) : SequenceScheduler :=
  match scheduler.schedule .unlimited limit with
  | (.ok batch, after) => schedulerMachine.run after (completions decoder after batch)
  | (.error _, after) => after

def serve (scheduler : SequenceScheduler) : List (Nat × Decoder) → SequenceScheduler
  | [] => scheduler
  | (limit, decoder) :: turns => serve (turn limit decoder scheduler) turns

/-- An entry after its item came back. -/
def Entry.served (decoder : Decoder) (entry : Entry) : Entry :=
  (entry.dispatched.complete (decoder entry.dispatched).1 (decoder entry.dispatched).2).2

/-! ### One entry -/

section

variable {decoder : Decoder} (admissible : decoder.Admissible) {entry : Entry}
include admissible

/-- A runnable entry takes what its item brings. -/
theorem served_effect (runs : isRunnable entry = true) :
    (entry.dispatched.complete (decoder entry.dispatched).1 (decoder entry.dispatched).2).1 =
        .success ∧
      EntryEffect entry.dispatched
        (.complete entry.id (decoder entry.dispatched).1 (decoder entry.dispatched).2)
        (entry.served decoder) := by
  rcases complete_effect entry.dispatched entry.id (decoder entry.dispatched).1
    (decoder entry.dispatched).2 with ⟨refused, _⟩ | accepted
  · obtain ⟨_, settled, _⟩ := EntryLifecycle.runnable_phase runs
    obtain ⟨budget, progress⟩ := admissible entry.dispatched rfl
    -- what `complete` could refuse, the decoder does not do
    have some : ¬((decoder entry.dispatched).1 = 0 ∧ (decoder entry.dispatched).2 = false) := by
      rintro ⟨none, goes⟩
      exact progress.elim (absurd none) (by simp [goes])
    have flying : entry.dispatched.inFlight = true := rfl
    have quiet : entry.dispatched.cancelPending = false := settled
    rw [Entry.complete, if_neg (by simpa [flying] using some)] at refused
    simp only [quiet, Bool.false_eq_true, if_false] at refused
    rw [if_neg (UInt32.not_lt.mpr budget)] at refused
    cases refused
  · exact accepted

/-- It is runnable again, or it is finished. -/
theorem served_phase (runs : isRunnable entry = true) :
    (entry.served decoder).id = entry.id ∧ (entry.served decoder).request = entry.request ∧
      (entry.served decoder).inFlight = false ∧
      (isRunnable (entry.served decoder) = true ∨ (entry.served decoder).phase = .finished) := by
  obtain ⟨_, settled, _⟩ := EntryLifecycle.runnable_phase runs
  have effect := (served_effect admissible runs).2
  generalize entry.served decoder = after at effect ⊢
  cases effect with
  | absorbed inFlight pending =>
    exact absurd (settled.symm.trans pending) (by decide)
  | committed inFlight quiet =>
    refine ⟨rfl, rfl, rfl, ?_⟩
    dsimp only
    split
    next => exact .inr rfl
    next => exact .inl (by simp [isRunnable, quiet])

theorem served_owed (sound : EntryLifecycle entry)
    (budgeted : entry.request.maxOutputTokens ≠ 0) (runs : isRunnable entry = true) :
    (entry.served decoder).owed + 1 ≤ entry.owed := by
  have lowered := (served_effect admissible runs).2.owed (sound.dispatched runs)
  have paid := owed_dispatched sound budgeted runs
  omega

end

/-! ### One turn -/

theorem complete_id (entry : Entry) (emitted : UInt32) (terminal : Bool) :
    (entry.complete emitted terminal).2.id = entry.id := by
  rcases complete_effect entry entry.id emitted terminal with ⟨_, same⟩ | ⟨_, effect⟩
  · rw [same]
  · exact effect.id_eq

/-- An entry after what its item brought was given to it. -/
def Entry.taken (decoder : Decoder) (entry : Entry) : Entry :=
  (entry.complete (decoder entry).1 (decoder entry).2).2

/-- The completions of a batch act on the entries of its items, each on its own. -/
theorem run_completions {decoder : Decoder} {base : SequenceScheduler} (items : List BatchItem)
    (distinct : (items.map BatchItem.id).Nodup) (scheduler : SequenceScheduler)
    (unique : (scheduler.entries.map Entry.id).Nodup)
    (found : ∀ item ∈ items, ∃ entry, scheduler.find item.id = some entry ∧
      base.find item.id = some entry) :
    schedulerMachine.run scheduler (items.map (completion decoder base)) =
      { scheduler with entries := scheduler.entries.map fun entry =>
          if entry.id ∈ items.map BatchItem.id then entry.taken decoder else entry } := by
  induction items generalizing scheduler with
  | nil => simp
  | cons item rest ih =>
    obtain ⟨absent, others⟩ := List.nodup_cons.mp distinct
    obtain ⟨entry, here, there⟩ := found item List.mem_cons_self
    -- the call reads the entry of its item, which no earlier completion has touched
    have stepped : (schedulerMachine.step scheduler (completion decoder base item)).2 =
        { scheduler with entries := scheduler.entries.map fun entry =>
            if entry.id = item.id then entry.taken decoder else entry } := by
      change (scheduler.onEntry item.id _).2 = _
      rw [SequenceScheduler.onEntry, here, there]
      have taken := Keyed.update_congr (g := Entry.taken decoder)
        (f := fun found => (found.complete (decoder entry).1 (decoder entry).2).2) here rfl
      exact congrArg (fun entries => { scheduler with entries := entries })
        (taken.trans (Keyed.update_eq_map unique item.id (Entry.taken decoder)))
    have ids : (scheduler.entries.map fun entry =>
        if entry.id = item.id then entry.taken decoder else entry).map Entry.id =
          scheduler.entries.map Entry.id := by
      rw [List.map_map]
      refine List.map_congr_left fun entry _ => ?_
      rw [Function.comp_apply]
      split
      next => exact complete_id entry _ _
      next => rfl
    rw [List.map_cons, Transition.Machine.run_cons, stepped, ih others]
    case unique => rwa [ids]
    case found =>
      intro other listed
      obtain ⟨row, now, before⟩ := found other (.tail _ listed)
      have apart : row.id ≠ item.id := by
        intro same
        have named : row.id = other.id := Keyed.find_key now
        exact absent (same ▸ named ▸ List.mem_map_of_mem listed)
      refine ⟨row, ?_, before⟩
      rw [SequenceScheduler.find, Keyed.find_map,
        show Keyed.find Entry.id scheduler.entries other.id =
        some row from now, Option.map_some, if_neg apart]
      intro r
      split
      next => exact complete_id r _ _
      next => rfl
    rw [List.map_map]
    refine congrArg (fun entries => { scheduler with entries := entries })
      (List.map_congr_left fun entry _ => ?_)
    rw [Function.comp_apply, List.map_cons]
    by_cases own : entry.id = item.id
    · have kept : (entry.taken decoder).id = entry.id := complete_id entry _ _
      rw [if_pos own, kept, own, if_neg absent, if_pos List.mem_cons_self]
    · rw [if_neg own]
      simp only [List.mem_cons, own, false_or]

/-- What a turn does: the entries named were runnable and took what their items brought. -/
structure Turned (decoder : Decoder) (before after : SequenceScheduler)
    (named : List SequenceId) : Prop where
  runnable : ∀ entry ∈ before.entries, entry.id ∈ named → isRunnable entry = true
  entries : after.entries = before.entries.map fun entry =>
    if entry.id ∈ named then entry.served decoder else entry
  generation : after.generation.toNat ≤ before.generation.toNat + 1
  progress : (∃ entry ∈ before.entries, isRunnable entry = true) →
    ∃ entry ∈ before.entries, entry.id ∈ named

theorem Turned.idle {decoder : Decoder} {scheduler : SequenceScheduler}
    (none_waiting : scheduler.waiting = []) : Turned decoder scheduler scheduler [] where
  runnable := fun _ _ listed => absurd listed List.not_mem_nil
  entries := by simp
  generation := Nat.le_succ _
  progress := by
    rintro ⟨entry, member, runs⟩
    obtain ⟨index, at_index⟩ := List.mem_iff_getElem?.mp member
    have waits := mem_waiting.mpr ⟨entry, at_index, runs⟩
    rw [none_waiting] at waits
    cases waits

theorem Turned.of_batch {decoder : Decoder} {scheduler : SequenceScheduler}
    (unique : (scheduler.entries.map Entry.id).Nodup) {maximumSequences last : Nat}
    {selected : List Nat} (selection : selected = scheduler.waiting.take maximumSequences)
    (final : selected.getLast? = some last)
    (room : scheduler.generation ≠ UInt64.ofNat (UInt64.size - 1)) :
    let dispatched : SequenceScheduler :=
      { entries := scheduler.entries.mapIdx fun index entry =>
          if index ∈ selected then entry.dispatched else entry
        nextScanIndex := (last + 1) % scheduler.entries.length
        generation := scheduler.generation + 1 }
    let batch : InferenceBatch :=
      ⟨scheduler.generation + 1, batchItems scheduler.entries selected⟩
    Turned decoder scheduler
      (schedulerMachine.run dispatched (completions decoder dispatched batch))
      (batch.items.map BatchItem.id) := by
  intro dispatched batch
  have exact : ExactBatch scheduler maximumSequences batch dispatched :=
    .of_dispatched unique selection final room
  have named : ∀ id ∈ batch.items.map BatchItem.id,
      ∃ entry ∈ scheduler.entries, entry.id = id ∧ isRunnable entry = true := fun id listed =>
    batch_runnable selection listed
  have ids : dispatched.entries.map Entry.id = scheduler.entries.map Entry.id :=
    mapIdx_dispatched_ids _ _
  have distinct : (dispatched.entries.map Entry.id).Nodup := ids ▸ unique
  -- each selected entry is still found under its id, so every completion reaches one
  have completed := @run_completions decoder dispatched batch.items
    exact.distinct dispatched distinct (by
      intro item listed
      obtain ⟨entry, member, same, _⟩ := named item.id (List.mem_map_of_mem listed)
      have present : item.id ∈ dispatched.entries.map Entry.id := by
        rw [ids, ← same]
        exact List.mem_map_of_mem member
      obtain ⟨row, live, owner⟩ := List.mem_map.mp present
      have found := Keyed.find_of_mem distinct live owner
      exact ⟨row, found, found⟩)
  have filled : batch.items ≠ [] := by
    intro none
    -- a batch without items would have selected nothing
    have count := batchItems_length scheduler.entries selected
      (selection ▸ waiting_bounded_index)
    rw [show batchItems scheduler.entries selected = [] from none, List.length_nil] at count
    rw [List.length_eq_zero_iff.mp count.symm] at final
    cases final
  refine ⟨?_, ?_, ?_, ?_⟩
  · intro entry member listed
    obtain ⟨other, present, same, runs⟩ := named entry.id listed
    obtain rfl := Keyed.eq_of_key unique present member same
    exact runs
  · -- dispatched first, then completed: both act on the entries named
    rw [completions, completed, exact.entries, List.map_map]
    refine List.map_congr_left fun entry _ => ?_
    rw [Function.comp_apply]
    by_cases own : entry.id ∈ batch.items.map BatchItem.id
    · rw [if_pos own, if_pos own]
      exact if_pos own
    · rw [if_neg own, if_neg own, if_neg own]
  · rw [completions, completed]
    obtain ⟨next, same⟩ := exact.generation filled
    dsimp only
    rw [same, next]
  · intro _
    obtain ⟨item, listed⟩ := List.exists_mem_of_ne_nil _ filled
    obtain ⟨entry, member, same, _⟩ := named item.id (List.mem_map_of_mem listed)
    exact ⟨entry, member, same ▸ List.mem_map_of_mem listed⟩

/-- A turn is a turn of the declarative kind, and a run of the scheduler. -/
theorem turn_turned {decoder : Decoder} {scheduler : SequenceScheduler}
    (unique : (scheduler.entries.map Entry.id).Nodup) {limit : Nat} (asked : limit ≠ 0)
    (room : scheduler.generation ≠ UInt64.ofNat (UInt64.size - 1)) :
    (∃ named, Turned decoder scheduler (turn limit decoder scheduler) named) ∧
      ∃ calls, turn limit decoder scheduler = schedulerMachine.run scheduler calls := by
  obtain ⟨batch, outcome⟩ := schedule_succeeds scheduler limit asked room
  -- the schedule succeeds, so its effect is a batch or nothing to run
  have effect := @schedule_effect scheduler Allocator.unlimited limit
  have whole : scheduler.schedule .unlimited limit =
      (.ok batch, (scheduler.schedule .unlimited limit).2) := Prod.ext outcome rfl
  have run : turn limit decoder scheduler =
      schedulerMachine.run (scheduler.schedule .unlimited limit).2
        (completions decoder (scheduler.schedule .unlimited limit).2 batch) := by
    rw [turn, whole]
  refine ⟨?_, .schedule .unlimited limit ::
    completions decoder (scheduler.schedule .unlimited limit).2 batch, run⟩
  rw [run]
  rw [outcome] at effect
  generalize (scheduler.schedule .unlimited limit).2 = after at effect
  cases effect with
  | refused failed => cases failed
  | idle _ none_waiting => exact ⟨[], .idle none_waiting⟩
  | dispatched _ selection final room => exact ⟨_, .of_batch unique selection final room⟩

/-! ### The loop -/

/-- What the loop may have made of an entry: only runnable ones move, towards their end. -/
def Entry.Advanced (entry after : Entry) : Prop :=
  if isRunnable entry = true then
    after.request = entry.request ∧ (isRunnable after = true ∨ after.phase = .finished)
  else after = entry

theorem Entry.Advanced.refl (entry : Entry) : entry.Advanced entry := by
  rw [Entry.Advanced]
  split
  next runs => exact ⟨rfl, .inl runs⟩
  next => rfl

theorem Entry.Advanced.trans {entry middle after : Entry} (first : entry.Advanced middle)
    (second : middle.Advanced after) : entry.Advanced after := by
  rw [Entry.Advanced] at first second ⊢
  split at first
  next runs =>
    obtain ⟨request, outcome⟩ := first
    rw [if_pos runs]
    split at second
    next => exact ⟨second.1.trans request, second.2⟩
    next stopped =>
      rw [second]
      exact ⟨request, .inr (outcome.resolve_left stopped)⟩
  next idle =>
    rw [if_neg idle]
    subst first
    rwa [if_neg idle] at second

theorem Turned.advanced {decoder : Decoder} (admissible : decoder.Admissible)
    {before after : SequenceScheduler} {named : List SequenceId}
    (turned : Turned decoder before after named) {id : SequenceId} {entry : Entry}
    (found : before.find id = some entry) :
    ∃ moved, after.find id = some moved ∧ entry.Advanced moved := by
  have member : entry ∈ before.entries := Keyed.find_mem found
  -- serving an entry leaves its id, so the lookup finds it in its place
  have keeps : ∀ entry ∈ before.entries,
      (if entry.id ∈ named then entry.served decoder else entry).id = entry.id := by
    intro entry member
    split
    next own => exact (served_phase admissible (turned.runnable entry member own)).1
    next => rfl
  refine ⟨if entry.id ∈ named then entry.served decoder else entry, ?_, ?_⟩
  · have ids : (fun entry : Entry => decide (entry.id = id)) ∘
        (fun entry => if entry.id ∈ named then entry.served decoder else entry) =
        fun entry => decide (entry.id = id) := by
      funext entry
      simp only [Function.comp_apply]
      congr 1
      split
      next => rw [Entry.served, complete_id, Entry.id_dispatched]
      next => rfl
    rw [SequenceScheduler.find, turned.entries, Keyed.find, List.find?_map, ids]
    exact congrArg (Option.map _) found
  · split
    next own =>
      have runs := turned.runnable entry member own
      obtain ⟨_, request, _, outcome⟩ := served_phase admissible runs
      rw [Entry.Advanced, if_pos runs]
      exact ⟨request, outcome⟩
    next => exact .refl entry

theorem Turned.owed {decoder : Decoder} (admissible : decoder.Admissible)
    {before after : SequenceScheduler} {named : List SequenceId}
    (turned : Turned decoder before after named) (sound : BudgetInvariant before)
    (some_runs : ∃ entry ∈ before.entries, isRunnable entry = true) :
    after.owed + 1 ≤ before.owed := by
  have paid := sum_paid Entry.owed (Entry.served decoder) (fun entry => decide (entry.id ∈ named))
    before.entries (by
      intro entry member own
      have runs := turned.runnable entry member (of_decide_eq_true own)
      exact served_owed admissible (sound.entries entry member) (sound.budgeted entry member) runs)
  obtain ⟨entry, member, own⟩ := turned.progress some_runs
  -- somebody runs, so somebody pays
  have counted : 0 < before.entries.countP fun entry => decide (entry.id ∈ named) :=
    List.countP_pos_iff.mpr ⟨entry, member, decide_eq_true own⟩
  simp only [decide_eq_true_eq] at paid
  rw [SequenceScheduler.owed, SequenceScheduler.owed, turned.entries, List.map_map]
  change (before.entries.map fun entry =>
    Entry.owed (if entry.id ∈ named then entry.served decoder else entry)).sum + 1 ≤ _
  omega

/-- A turn leaves nothing runnable where nothing was. -/
theorem Turned.still {decoder : Decoder} {before after : SequenceScheduler}
    {named : List SequenceId} (turned : Turned decoder before after named)
    (none_runs : ∀ entry ∈ before.entries, isRunnable entry = false) :
    ∀ entry ∈ after.entries, isRunnable entry = false := by
  have kept : after.entries = before.entries.map id := by
    rw [turned.entries]
    refine List.map_congr_left fun entry member => if_neg fun own => ?_
    exact absurd (turned.runnable entry member own) (by simp [none_runs entry member])
  rw [kept, List.map_id]
  exact none_runs

theorem generation_room {scheduler : SequenceScheduler} {turns : Nat}
    (room : scheduler.generation.toNat + (turns + 1) < UInt64.size) :
    scheduler.generation ≠ UInt64.ofNat (UInt64.size - 1) := by
  intro full
  rw [full] at room
  have last : (UInt64.ofNat (UInt64.size - 1)).toNat = UInt64.size - 1 := by decide
  omega

/-- The induction over the turns: entries advance, and the debt falls until nothing is runnable. -/
theorem serve_sound (turns : List (Nat × Decoder)) (scheduler : SequenceScheduler)
    (sound : BudgetInvariant scheduler)
    (asked : ∀ t ∈ turns, t.1 ≠ 0 ∧ t.2.Admissible)
    (room : scheduler.generation.toNat + turns.length < UInt64.size) :
    (∀ id entry, scheduler.find id = some entry →
        ∃ after, (serve scheduler turns).find id = some after ∧ entry.Advanced after) ∧
      ((∀ entry ∈ scheduler.entries, isRunnable entry = false) ∨ scheduler.owed ≤ turns.length →
        ∀ entry ∈ (serve scheduler turns).entries, isRunnable entry = false) := by
  induction turns generalizing scheduler with
  | nil =>
    refine ⟨fun id entry found => ⟨entry, found, .refl entry⟩, fun done entry member => ?_⟩
    rcases done with none_runs | settled
    · exact none_runs entry member
    · -- a runnable entry is owed something
      by_contra runs
      have owing := owed_dispatched (sound.entries entry member) (sound.budgeted entry member)
        (by simpa using runs)
      have part : entry.owed ≤ scheduler.owed :=
        List.le_sum_of_mem (List.mem_map_of_mem member)
      rw [List.length_nil] at settled
      omega
  | cons first turns ih =>
    obtain ⟨limit, decoder⟩ := first
    obtain ⟨nonzero, admissible⟩ := asked _ List.mem_cons_self
    obtain ⟨⟨named, turned⟩, calls, run⟩ :=
      @turn_turned decoder scheduler sound.unique limit nonzero (generation_room room)
    have next : BudgetInvariant (turn limit decoder scheduler) := by
      rw [run]
      exact schedulerMachine.run_invariant BudgetInvariant (fun _ call kept => kept.step call) _
        sound calls
    have later : (turn limit decoder scheduler).generation.toNat + turns.length < UInt64.size := by
      have counted : (turn limit decoder scheduler).generation.toNat ≤ _ := turned.generation
      rw [List.length_cons] at room
      omega
    obtain ⟨advanced, drained⟩ := ih (turn limit decoder scheduler) next
      (fun t member => asked t (.tail _ member)) later
    refine ⟨fun id entry found => ?_, fun done => drained ?_⟩
    · obtain ⟨moved, present, step⟩ := turned.advanced admissible found
      obtain ⟨after, last, rest⟩ := advanced id moved present
      exact ⟨after, last, step.trans rest⟩
    · rcases Classical.em (∃ entry ∈ scheduler.entries, isRunnable entry = true) with runs | none
      · refine .inr ?_
        have paid : (turn limit decoder scheduler).owed + 1 ≤ scheduler.owed :=
          turned.owed admissible sound runs
        have settled : scheduler.owed ≤ turns.length + 1 := done.resolve_left (by
          obtain ⟨entry, member, runs⟩ := runs
          exact fun none_runs => by simp [none_runs entry member] at runs)
        omega
      · refine .inl (turned.still fun entry member => ?_)
        exact Bool.eq_false_iff.mpr fun runs => none ⟨entry, member, runs⟩

/-- From every state that a run reaches, as many turns as tokens are owed finish every runnable
sequence, whatever their batch limits and whatever their items bring, and touch no other. -/
theorem serving_loop_drains (calls : List SchedulerCall) (turns : List (Nat × Decoder))
    (asked : ∀ t ∈ turns, t.1 ≠ 0 ∧ t.2.Admissible)
    (room : (schedulerMachine.run {} calls).generation.toNat + turns.length < UInt64.size)
    (enough : (schedulerMachine.run {} calls).owed ≤ turns.length)
    (id : SequenceId) (entry : Entry)
    (found : (schedulerMachine.run {} calls).find id = some entry) :
    ∃ after, (serve (schedulerMachine.run {} calls) turns).find id = some after ∧
      if isRunnable entry = true then after.phase = .finished ∧ after.request = entry.request
      else after = entry := by
  obtain ⟨advanced, drained⟩ := serve_sound turns _ (BudgetInvariant.run calls) asked room
  obtain ⟨after, present, moved⟩ := advanced id entry found
  -- with as many turns as tokens owed, nothing runs at the end
  have stopped := drained (.inr enough) after (Keyed.find_mem present)
  refine ⟨after, present, ?_⟩
  rw [Entry.Advanced] at moved
  split at moved
  next runs =>
    rw [if_pos runs]
    exact ⟨moved.2.resolve_left (by simp [stopped]), moved.1⟩
  next idle =>
    rw [if_neg idle]
    exact moved

/-- One token a turn for two sequences, beside one that is paused. -/
theorem serving_loop_drains_paused :
    let reached := schedulerMachine.run {}
      [.enqueue .unlimited ⟨1, 4, 2⟩, .enqueue .unlimited ⟨2, 4, 1⟩,
        .enqueue .unlimited ⟨3, 4, 1⟩, .pause 3]
    let token : Decoder := fun entry =>
      if entry.generatedTokens < entry.request.maxOutputTokens then (1, false) else (0, true)
    ∃ after, (serve reached (List.replicate 4 (1, token))).find 1 = some after ∧
      after.phase = .finished := by
  intro reached token
  have admissible : token.Admissible := by
    intro entry _
    by_cases more : entry.generatedTokens < entry.request.maxOutputTokens
    · have room := UInt32.lt_iff_toNat_lt.mp more
      simp only [token, if_pos more]
      refine ⟨?_, .inl (by decide)⟩
      rw [UInt32.le_iff_toNat_le, UInt32.toNat_sub_of_le _ _ (UInt32.le_of_lt more),
        UInt32.toNat_one]
      omega
    · simp only [token, if_neg more]
      exact ⟨UInt32.zero_le, .inr trivial⟩
  obtain ⟨after, found, finished⟩ := serving_loop_drains
    [.enqueue .unlimited ⟨1, 4, 2⟩, .enqueue .unlimited ⟨2, 4, 1⟩,
      .enqueue .unlimited ⟨3, 4, 1⟩, .pause 3] (List.replicate 4 (1, token))
    (fun t member => by
      rw [List.eq_of_mem_replicate member]
      exact ⟨by decide, admissible⟩)
    (by decide) (by decide) 1 { request := ⟨1, 4, 2⟩ } (by decide)
  rw [if_pos (by decide)] at finished
  exact ⟨after, found, finished.1⟩

end MarketForge.Serving
