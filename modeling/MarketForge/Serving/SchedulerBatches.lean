import MarketForge.Serving.SchedulerAccounting

/-!
# Batches and refusals

The batch of a `schedule` that is not refused is the declarative selection: the first runnable
entries in circular order, as many as asked for. A call that fails, for whatever reason, leaves the
scheduler as it was.
-/
namespace MarketForge.Serving

/-! ### Refusals -/

theorem SchedulerEffect.unchanged {scheduler after : SequenceScheduler} {call : SchedulerCall}
    {reply : SchedulerReply} (effect : SchedulerEffect scheduler call reply after)
    (failed : reply.failed = true) : after = scheduler := by
  cases effect with
  | refused => rfl
  | idle => rfl
  | enqueued => cases failed
  | dispatched => cases failed
  | updated => cases failed

/-- A call that fails in a state that a run reaches leaves that state. -/
theorem failed_call_unchanged (calls : List SchedulerCall) (call : SchedulerCall)
    (failed : (schedulerStep (schedulerMachine.run {} calls) call).1.failed = true) :
    (schedulerStep (schedulerMachine.run {} calls) call).2 = schedulerMachine.run {} calls :=
  (schedulerStep_effect _ call).unchanged failed

/-- A completion beyond the budget, an allocation that fails and a sequence that is unknown. -/
theorem failed_call_unchanged_three :
    let calls : List SchedulerCall :=
      [.enqueue (fun _ => .granted) ⟨7, 3, 2⟩, .schedule (fun _ => .granted) 1]
    let scheduler := schedulerMachine.run {} calls
    (schedulerStep scheduler (.complete 7 5 false)).2 = scheduler ∧
      (schedulerStep scheduler (.enqueue (fun _ => .badAlloc) ⟨8, 3, 2⟩)).2 = scheduler ∧
      (schedulerStep scheduler (.cancel 9)).2 = scheduler :=
  ⟨failed_call_unchanged _ _ (by decide), failed_call_unchanged _ _ (by decide),
    failed_call_unchanged _ _ (by decide)⟩

/-! ### Batches -/

/-- The number of waiting entries is the number of runnable ones. -/
theorem waiting_length (scheduler : SequenceScheduler) :
    scheduler.waiting.length = scheduler.entries.countP isRunnable := by
  -- both lists enumerate the indices of the runnable entries without repetition
  have same : scheduler.waiting.Perm ((List.range scheduler.entries.length).filter
      fun index => scheduler.entries[index]?.any isRunnable) := by
    refine (List.perm_ext_iff_of_nodup (waiting_nodup scheduler)
      (List.nodup_range.filter _)).mpr fun index => ?_
    simp [SequenceScheduler.waiting, mem_circularOrder]
  have read : (List.range scheduler.entries.length).map (fun index => scheduler.entries[index]?) =
      scheduler.entries.map some := by
    refine List.ext_getElem? fun index => ?_
    by_cases inside : index < scheduler.entries.length
    · simp [inside]
    · simp [Nat.not_lt.mp inside]
  rw [same.length_eq, ← List.countP_eq_length_filter]
  change List.countP (Option.any isRunnable ∘ fun index => scheduler.entries[index]?) _ = _
  rw [← List.countP_map, read, List.countP_map]
  rfl

/-- The slots of a batch count its items. -/
theorem batchItems_slots (entries : List Entry) (selected : List Nat)
    (bounded : ∀ index ∈ selected, index < entries.length) :
    (batchItems entries selected).map BatchItem.slot = List.range selected.length := by
  rw [batchItems, List.map_filterMap, List.range_eq_range', ← List.zipIdx_map_snd,
    ← List.filterMap_eq_map]
  refine List.filterMap_congr fun pair listed => ?_
  have inside : pair.1 < entries.length := by
    refine bounded _ ?_
    rw [← List.zipIdx_map_fst 0 selected]
    exact List.mem_map_of_mem listed
  simp [inside]

/-- The ids of a batch are those of the selected entries. -/
theorem batchItems_ids (entries : List Entry) (selected : List Nat) :
    (batchItems entries selected).map BatchItem.id =
      selected.filterMap fun index => entries[index]?.map Entry.id :=
  batchItems_map entries selected BatchItem.id Entry.id fun _ _ => rfl

theorem batchItems_length (entries : List Entry) (selected : List Nat)
    (bounded : ∀ index ∈ selected, index < entries.length) :
    (batchItems entries selected).length = selected.length := by
  have slots := congrArg List.length (batchItems_slots entries selected bounded)
  rwa [List.length_map, List.length_range] at slots

/-- Entries with distinct ids have items with distinct ids. -/
theorem batchItems_distinct {entries : List Entry} (unique : (entries.map Entry.id).Nodup)
    {selected : List Nat} (distinct : selected.Nodup) :
    ((batchItems entries selected).map BatchItem.id).Nodup := by
  rw [batchItems_ids]
  refine distinct.filterMap ?_
  intro index other id first second
  rw [Option.mem_def, ← List.getElem?_map] at first second
  exact (List.getElem?_inj (List.getElem?_eq_some_iff.mp first).1 unique).mp
    (first.trans second.symm)

/-- A batch as the selection of the first runnable entries in circular order. -/
structure ExactBatch (scheduler : SequenceScheduler) (maximumSequences : Nat)
    (batch : InferenceBatch) (after : SequenceScheduler) : Prop where
  length : batch.items.length = min maximumSequences (scheduler.entries.countP isRunnable)
  distinct : (batch.items.map BatchItem.id).Nodup
  slots : batch.items.map BatchItem.slot = List.range batch.items.length
  first : batch.items.map BatchItem.id =
    (scheduler.waiting.take maximumSequences).filterMap fun index =>
      scheduler.entries[index]?.map Entry.id
  generation : batch.items ≠ [] → batch.generation.toNat = scheduler.generation.toNat + 1 ∧
    after.generation = batch.generation
  empty : batch.items = [] → batch.generation = scheduler.generation ∧ after = scheduler
  entries : after.entries = scheduler.entries.map fun entry =>
    if entry.id ∈ batch.items.map BatchItem.id then
      { entry with inFlight := true, inFlightWork := entry.work }
    else entry

/-- An entry has an item exactly if its index was selected. -/
theorem mem_batchItems_ids {entries : List Entry} (unique : (entries.map Entry.id).Nodup)
    {selected : List Nat} {index : Nat} {entry : Entry} (at_index : entries[index]? = some entry) :
    entry.id ∈ (batchItems entries selected).map BatchItem.id ↔ index ∈ selected := by
  rw [batchItems_ids, List.mem_filterMap]
  constructor
  · rintro ⟨other, listed, same⟩
    rw [← List.getElem?_map] at same
    have here : (entries.map Entry.id)[index]? = some entry.id := by
      rw [List.getElem?_map, at_index]
      rfl
    have equal := (List.getElem?_inj (List.getElem?_eq_some_iff.mp same).1 unique).mp
      (same.trans here.symm)
    rwa [← equal]
  · intro listed
    exact ⟨index, listed, by rw [at_index]; rfl⟩

theorem waiting_bounded_index {scheduler : SequenceScheduler} {maximumSequences : Nat} :
    ∀ index ∈ scheduler.waiting.take maximumSequences, index < scheduler.entries.length := by
  intro index listed
  obtain ⟨_, at_index, _⟩ := mem_waiting.mp (List.mem_of_mem_take listed)
  exact (List.getElem?_eq_some_iff.mp at_index).1

theorem ExactBatch.of_idle {scheduler : SequenceScheduler} {maximumSequences : Nat}
    (none_waiting : scheduler.waiting = []) :
    ExactBatch scheduler maximumSequences ⟨scheduler.generation, []⟩ scheduler := by
  constructor
  case length => simp [← waiting_length, none_waiting]
  case distinct => exact List.nodup_nil
  case slots => rfl
  case first => simp [none_waiting]
  case generation => exact fun some => absurd rfl some
  case empty => exact fun _ => ⟨rfl, rfl⟩
  case entries => simp

theorem ExactBatch.of_dispatched {scheduler : SequenceScheduler} {maximumSequences last : Nat}
    (unique : (scheduler.entries.map Entry.id).Nodup) {selected : List Nat}
    (selection : selected = scheduler.waiting.take maximumSequences)
    (final : selected.getLast? = some last)
    (room : scheduler.generation ≠ UInt64.ofNat (UInt64.size - 1)) :
    ExactBatch scheduler maximumSequences
      ⟨scheduler.generation + 1, batchItems scheduler.entries selected⟩
      { entries := scheduler.entries.mapIdx fun index entry =>
          if index ∈ selected then entry.dispatched else entry
        nextScanIndex := (last + 1) % scheduler.entries.length
        generation := scheduler.generation + 1 } := by
  have bounded : ∀ index ∈ selected, index < scheduler.entries.length := by
    rw [selection]
    exact waiting_bounded_index
  have count := batchItems_length scheduler.entries selected bounded
  have distinct : selected.Nodup := selection ▸ (waiting_nodup scheduler).take
  constructor
  case length =>
    dsimp only
    rw [count, selection, List.length_take, waiting_length]
  case distinct => exact batchItems_distinct unique distinct
  case slots =>
    dsimp only
    rw [count]
    exact batchItems_slots scheduler.entries selected bounded
  case first => rw [← selection, batchItems_ids]
  -- the counter is not at its last value, so its successor does not wrap
  case generation =>
    refine fun _ => ⟨?_, rfl⟩
    have small := scheduler.generation.toNat_lt
    have other : scheduler.generation.toNat ≠ UInt64.size - 1 := fun same => room (by
      rw [← same, UInt64.ofNat_toNat])
    rw [UInt64.toNat_add, UInt64.toNat_one]
    simp only [UInt64.size] at other
    exact Nat.mod_eq_of_lt (by omega)
  case empty =>
    intro none
    have empty := congrArg List.length none
    rw [count, List.length_nil] at empty
    rw [List.length_eq_zero_iff.mp empty] at final
    cases final
  -- entry by entry: a position is selected exactly if its id is in the batch
  case entries =>
    refine List.ext_getElem? fun index => ?_
    rw [List.getElem?_mapIdx, List.getElem?_map]
    cases at_index : scheduler.entries[index]? with
    | none => rfl
    | some entry =>
      simp only [Option.map_some, mem_batchItems_ids unique at_index]
      rfl

/-- Nothing but an allocation or the last generation refuses a batch. -/
theorem schedule_succeeds (scheduler : SequenceScheduler) (maximumSequences : Nat)
    (asked : maximumSequences ≠ 0)
    (room : scheduler.generation ≠ UInt64.ofNat (UInt64.size - 1)) :
    ∃ batch, (scheduler.schedule Allocator.unlimited maximumSequences).1 = .ok batch := by
  rw [SequenceScheduler.schedule]
  simp only [unlimited_caught, if_neg asked, if_neg room]
  split
  next => exact ⟨_, rfl⟩
  next =>
    split
    next => exact ⟨_, rfl⟩
    next => exact ⟨_, rfl⟩

/-- In every state that a run reaches below the last generation, a batch is the selection of the
first runnable entries, and putting them in flight is all that it changes. -/
theorem schedule_exact (calls : List SchedulerCall) (alloc : Allocator) (maximumSequences : Nat)
    (granted : ∀ point, alloc point = .granted) (asked : 1 ≤ maximumSequences)
    (room : (schedulerMachine.run {} calls).generation.toNat < 2 ^ 64 - 1) :
    ∃ batch, ((schedulerMachine.run {} calls).schedule alloc maximumSequences).1 = .ok batch ∧
      ExactBatch (schedulerMachine.run {} calls) maximumSequences batch
        ((schedulerMachine.run {} calls).schedule alloc maximumSequences).2 := by
  have unique := (SchedulerInvariant.run calls).unique
  generalize schedulerMachine.run {} calls = scheduler at room unique
  have below : scheduler.generation ≠ UInt64.ofNat (UInt64.size - 1) := by
    intro same
    rw [same] at room
    exact absurd room (by decide)
  obtain rfl : alloc = Allocator.unlimited := funext granted
  obtain ⟨batch, outcome⟩ := schedule_succeeds scheduler maximumSequences
    (Nat.one_le_iff_ne_zero.mp asked) below
  refine ⟨batch, outcome, ?_⟩
  have effect := @schedule_effect scheduler Allocator.unlimited maximumSequences
  rw [outcome] at effect
  generalize (scheduler.schedule Allocator.unlimited maximumSequences).2 = after at effect
  cases effect with
  | refused failed => cases failed
  | idle _ none_waiting => exact .of_idle none_waiting
  | dispatched _ selection final room => exact .of_dispatched unique selection final room

/-- Two runnable entries of three, from the middle of the table on. -/
theorem schedule_exact_three :
    let granted : Allocator := Allocator.unlimited
    let calls : List SchedulerCall := [.enqueue granted ⟨4, 1, 2⟩, .enqueue granted ⟨5, 1, 2⟩,
      .schedule granted 1, .complete 4 1 false, .enqueue granted ⟨6, 1, 2⟩]
    ∃ batch, ((schedulerMachine.run {} calls).schedule granted 2).1 = .ok batch ∧
      ExactBatch (schedulerMachine.run {} calls) 2 batch
        ((schedulerMachine.run {} calls).schedule granted 2).2 :=
  schedule_exact _ _ 2 (fun _ => rfl) (by decide) (by decide)

end MarketForge.Serving
