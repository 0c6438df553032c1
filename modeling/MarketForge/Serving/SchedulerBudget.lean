import MarketForge.Serving.SchedulerBatches

/-!
# The budget of a run

A sequence can be handed out as often as it has output tokens left to generate. `Entry.owed` counts
what is left of that; a batch uses up one for each of its items, and no call but `enqueue` adds
any. So a run hands out no more work than it was asked for, however its calls are interleaved.
-/
namespace MarketForge.Serving

/-- Batch items that an entry can still get. -/
def Entry.owed (entry : Entry) : Nat :=
  if isTerminal entry.phase then 0
  else entry.request.maxOutputTokens.toNat - entry.generatedTokens.toNat - entry.inFlight.toNat

def SequenceScheduler.owed (scheduler : SequenceScheduler) : Nat :=
  (scheduler.entries.map Entry.owed).sum

/-- The number of items that an event hands out. -/
def SchedulerEvent.handedOut (event : SchedulerEvent) : Nat :=
  match event.reply with
  | .batch (.ok batch) => batch.items.length
  | _ => 0

/-- The output tokens that an event admits. -/
def SchedulerEvent.admitted (event : SchedulerEvent) : Nat :=
  match event.call, event.reply with
  | .enqueue _ request, .status status =>
    if status.isOk then request.maxOutputTokens.toNat else 0
  | _, _ => 0

/-! ### One entry -/

/-- What holds between calls; a sequence without output tokens is not admitted. -/
structure BudgetInvariant (scheduler : SequenceScheduler) : Prop extends
    SchedulerInvariant scheduler where
  budgeted : ∀ entry ∈ scheduler.entries, entry.request.maxOutputTokens ≠ 0

theorem owed_live {entry : Entry} (live : isTerminal entry.phase = false) :
    entry.owed = entry.request.maxOutputTokens.toNat - entry.generatedTokens.toNat -
      entry.inFlight.toNat := by
  rw [Entry.owed, if_neg (by simp [live])]

theorem owed_terminal {entry : Entry} (terminal : isTerminal entry.phase = true) :
    entry.owed = 0 :=
  if_pos terminal

theorem phase_live {phase : SequencePhase} (live : phase = .queued ∨ phase = .decoding) :
    isTerminal phase = false := by
  rcases live with rfl | rfl <;> rfl

/-- A runnable entry has a token left, and its item is paid with it. -/
theorem owed_dispatched {entry : Entry} (sound : EntryLifecycle entry)
    (budgeted : entry.request.maxOutputTokens ≠ 0) (runs : isRunnable entry = true) :
    entry.dispatched.owed + 1 = entry.owed := by
  obtain ⟨idle, _, live⟩ := EntryLifecycle.runnable_phase runs
  -- a queued entry has no token yet, a decoding one is short of its budget
  have room : entry.generatedTokens.toNat < entry.request.maxOutputTokens.toNat := by
    have tokens := sound.tokens
    rcases live with queued | decoding
    · rw [queued] at tokens
      have none : entry.generatedTokens = 0 := tokens
      have some : entry.request.maxOutputTokens.toNat ≠ 0 := fun zero =>
        budgeted (UInt32.toNat_inj.mp zero)
      rw [none, UInt32.toNat_zero]
      exact Nat.pos_of_ne_zero some
    · rw [decoding] at tokens
      exact UInt32.lt_iff_toNat_lt.mp tokens.2
  rw [owed_live (phase_live live), @owed_live entry.dispatched (phase_live live), idle]
  change entry.request.maxOutputTokens.toNat - entry.generatedTokens.toNat - 1 + 1 = _ - 0
  omega

/-- A call on an entry never adds to what it is owed. -/
theorem EntryEffect.owed {entry after : Entry} {call : SchedulerCall}
    (effect : EntryEffect entry call after) (sound : EntryLifecycle entry) :
    after.owed ≤ entry.owed := by
  cases effect with
  | absorbed inFlight pending => exact (owed_terminal rfl).trans_le (Nat.zero_le _)
  | @committed _ emitted terminal inFlight settled progress budget =>
    obtain ⟨exact_sum, within⟩ := sound.generated_toNat budget
    rw [owed_live (phase_live (sound.flying inFlight)), inFlight]
    by_cases done : terminal = true ∨
        entry.generatedTokens + emitted = entry.request.maxOutputTokens
    · rw [owed_terminal (by simp [done, isTerminal])]
      exact Nat.zero_le _
    · -- going on takes a token, which stands for the item that comes back
      have emits : emitted.toNat ≠ 0 := fun zero =>
        progress.resolve_right (fun ends => done (.inl ends)) (UInt32.toNat_inj.mp zero)
      rw [owed_live (by simp [done, isTerminal])]
      change entry.request.maxOutputTokens.toNat - (entry.generatedTokens + emitted).toNat - 0 ≤
        entry.request.maxOutputTokens.toNat - entry.generatedTokens.toNat - 1
      omega
  | paused idle live =>
    rw [owed_live (phase_live live), owed_live rfl]
  | pausedAgain => exact le_rfl
  | resumed paused =>
    have live := phase_live (sound.resumable paused).1
    rw [@owed_live entry (by rw [paused]; rfl), owed_live (by exact live)]
  | cancelledAgain => exact le_rfl
  | cancelRequested inFlight live => rw [owed_live live, owed_live (by exact live)]
  | cancelled => exact (owed_terminal rfl).trans_le (Nat.zero_le _)

/-! ### A batch -/

/-- The items of a batch are those of runnable entries. -/
theorem batch_runnable {scheduler : SequenceScheduler} {maximumSequences : Nat}
    {selected : List Nat} (selection : selected = scheduler.waiting.take maximumSequences)
    {id : SequenceId} (listed : id ∈ (batchItems scheduler.entries selected).map BatchItem.id) :
    ∃ entry ∈ scheduler.entries, entry.id = id ∧ isRunnable entry = true := by
  subst selection
  obtain ⟨item, member, rfl⟩ := List.mem_map.mp listed
  obtain ⟨index, selected, entry, at_index, same, _⟩ := mem_batchItems member
  obtain ⟨_, found, runs⟩ := mem_waiting.mp (List.mem_of_mem_take selected)
  obtain rfl := Option.some_inj.mp (at_index.symm.trans found)
  exact ⟨entry, List.mem_of_getElem? at_index, same.symm, runs⟩

/-- Rows that a list of keys names are counted by the list. -/
theorem countP_keys {α κ : Type} [DecidableEq κ] (key : α → κ) {table : List α}
    (unique : (table.map key).Nodup) {keys : List κ} (distinct : keys.Nodup)
    (present : ∀ k ∈ keys, k ∈ table.map key) :
    table.countP (fun row => decide (key row ∈ keys)) = keys.length := by
  have counted : table.countP (fun row => decide (key row ∈ keys)) =
      (table.map key).countP fun k => decide (k ∈ keys) := by
    rw [List.countP_map]
    rfl
  have same : ((table.map key).filter fun k => decide (k ∈ keys)).Perm keys := by
    refine (List.perm_ext_iff_of_nodup (unique.filter _) distinct).mpr fun k => ?_
    rw [List.mem_filter, decide_eq_true_eq]
    exact ⟨And.right, fun listed => ⟨present k listed, listed⟩⟩
  rw [counted, List.countP_eq_length_filter, same.length_eq]

/-- A sum where the rows named give up one or more. -/
theorem sum_paid {α : Type} (size : α → Nat) (paid : α → α) (named : α → Bool) (table : List α)
    (one : ∀ row ∈ table, named row = true → size (paid row) + 1 ≤ size row) :
    (table.map fun row => size (if named row = true then paid row else row)).sum +
      table.countP named ≤ (table.map size).sum := by
  induction table with
  | nil => exact le_rfl
  | cons row rest ih =>
    have tail := ih fun other member => one other (.tail _ member)
    simp only [List.map_cons, List.sum_cons]
    by_cases hit : named row = true
    · have head := one row List.mem_cons_self hit
      rw [List.countP_cons_of_pos hit, if_pos hit]
      omega
    · rw [List.countP_cons_of_neg hit, if_neg hit]
      omega

/-- A batch is paid with one token for each of its items. -/
theorem owed_batch {scheduler : SequenceScheduler} (sound : BudgetInvariant scheduler)
    {maximumSequences last : Nat} {selected : List Nat}
    (selection : selected = scheduler.waiting.take maximumSequences)
    (final : selected.getLast? = some last)
    (room : scheduler.generation ≠ UInt64.ofNat (UInt64.size - 1)) :
    (batchItems scheduler.entries selected).length +
        ((scheduler.entries.mapIdx fun index entry =>
          if index ∈ selected then entry.dispatched else entry).map Entry.owed).sum ≤
      scheduler.owed := by
  have batch := ExactBatch.of_dispatched sound.unique selection final room
  have ids : ∀ id ∈ (batchItems scheduler.entries selected).map BatchItem.id,
      ∃ entry ∈ scheduler.entries, entry.id = id ∧ isRunnable entry = true := fun id listed =>
    batch_runnable selection listed
  -- the items name different entries, so they are as many as the entries that pay
  have counted := countP_keys Entry.id sound.unique batch.distinct fun id listed => by
    obtain ⟨entry, member, same, _⟩ := ids id listed
    exact List.mem_map.mpr ⟨entry, member, same⟩
  have paid := sum_paid Entry.owed Entry.dispatched
    (fun entry => decide (entry.id ∈ (batchItems scheduler.entries selected).map BatchItem.id))
    scheduler.entries (by
      intro entry member named
      obtain ⟨other, present, same, runs⟩ := ids entry.id (of_decide_eq_true named)
      obtain rfl := Keyed.eq_of_key sound.unique present member same
      exact (owed_dispatched (sound.entries _ present) (sound.budgeted _ present) runs).le)
  have entries := batch.entries
  dsimp only at entries counted
  rw [entries, List.map_map]
  rw [counted, List.length_map] at paid
  simp only [decide_eq_true_eq] at paid
  rw [Nat.add_comm]
  exact paid

/-! ### Runs -/

theorem enqueue_budgeted {alloc : Allocator} {scheduler : SequenceScheduler}
    {request : SequenceRequest} (accepted : (scheduler.enqueue alloc request).1.isOk = true) :
    request.maxOutputTokens ≠ 0 := by
  intro zero
  rw [SequenceScheduler.enqueue, if_pos (.inr (.inr (.inl zero)))] at accepted
  cases accepted

theorem EntryEffect.request {entry after : Entry} {call : SchedulerCall}
    (effect : EntryEffect entry call after) : after.request = entry.request := by
  cases effect <;> rfl

theorem BudgetInvariant.step {scheduler : SequenceScheduler} (sound : BudgetInvariant scheduler)
    (call : SchedulerCall) : BudgetInvariant (schedulerStep scheduler call).2 := by
  refine ⟨sound.toSchedulerInvariant.step call, fun entry member => ?_⟩
  -- a request without a token of output is refused before it is an entry
  have accepted : ∀ alloc request, call = .enqueue alloc request →
      (schedulerStep scheduler call).1 = .status .success → request.maxOutputTokens ≠ 0 := by
    rintro alloc request rfl success
    exact enqueue_budgeted (congrArg Status.isOk (SchedulerReply.status.inj success))
  have effect := schedulerStep_effect scheduler call
  generalize (schedulerStep scheduler call).1 = reply at accepted effect
  generalize (schedulerStep scheduler call).2 = after at effect member
  cases effect with
  | refused => exact sound.budgeted entry member
  | @enqueued alloc request =>
    rcases List.mem_append.mp member with old | new
    · exact sound.budgeted entry old
    · rw [List.mem_singleton.mp new]
      exact accepted alloc request rfl rfl
  | idle => exact sound.budgeted entry member
  | dispatched =>
    obtain ⟨index, bound, rfl⟩ := List.mem_mapIdx.mp member
    have old := sound.budgeted _ (List.getElem_mem bound)
    split
    next => exact old
    next => exact old
  | updated named found effect =>
    rcases (Keyed.mem_update_iff sound.unique found _ entry).mp member with rfl | ⟨old, _⟩
    · rw [effect.request]
      exact sound.budgeted _ (Keyed.find_mem found)
    · exact sound.budgeted entry old

theorem BudgetInvariant.run (calls : List SchedulerCall) :
    BudgetInvariant (schedulerMachine.run {} calls) :=
  schedulerMachine.run_invariant BudgetInvariant (fun _ call sound => sound.step call) {}
    ⟨⟨List.nodup_nil, by simp⟩, by simp⟩ calls

theorem handedOut_failed {scheduler : SequenceScheduler} {call : SchedulerCall}
    {reply : SchedulerReply} (failed : reply.failed = true) :
    SchedulerEvent.handedOut ⟨scheduler, call, reply⟩ = 0 := by
  rcases reply with status | error | batch
  · rfl
  · rfl
  · cases failed

/-- What an event hands out is paid by what the entries were owed or by what it admits. -/
theorem SchedulerEffect.paid {scheduler after : SequenceScheduler} {call : SchedulerCall}
    {reply : SchedulerReply} (effect : SchedulerEffect scheduler call reply after)
    (sound : BudgetInvariant scheduler) :
    SchedulerEvent.handedOut ⟨scheduler, call, reply⟩ + after.owed ≤
      scheduler.owed + SchedulerEvent.admitted ⟨scheduler, call, reply⟩ := by
  cases effect with
  | refused failed =>
    rw [handedOut_failed failed, Nat.zero_add]
    exact Nat.le_add_right _ _
  | @enqueued _ request proper fits fresh =>
    have fresh_owed : Entry.owed { request := request } = request.maxOutputTokens.toNat := rfl
    change 0 + (List.map Entry.owed (scheduler.entries ++ [_])).sum ≤ _ + _
    rw [List.map_append, List.sum_append, List.map_singleton, List.sum_singleton, fresh_owed,
      Nat.zero_add]
    exact le_rfl
  | idle => exact (Nat.zero_add _).trans_le (Nat.le_add_right _ _)
  | dispatched asked selection final room =>
    exact (owed_batch sound selection final room).trans (Nat.le_add_right _ _)
  | @updated _ id entry after named found effect =>
    -- one record changes, and the sums differ by what it is owed
    have lowered := effect.owed (sound.entries entry (Keyed.find_mem found))
    have before := ((Keyed.perm_of_find found).map Entry.owed).sum_eq
    have later := ((Keyed.update_perm found fun _ => after).map Entry.owed).sum_eq
    rw [List.map_cons, List.sum_cons] at before later
    change 0 + (List.map Entry.owed (Keyed.update Entry.id scheduler.entries id _)).sum ≤
      (List.map Entry.owed scheduler.entries).sum + _
    omega

/-- The accounts of a run: what was handed out and is still owed, against what was admitted. -/
structure BudgetKept (history : List SchedulerEvent) (scheduler : SequenceScheduler)
    (initially : Nat) : Prop where
  sound : BudgetInvariant scheduler
  paid : (history.map SchedulerEvent.handedOut).sum + scheduler.owed ≤
    initially + (history.map SchedulerEvent.admitted).sum

theorem BudgetKept.extend {history : List SchedulerEvent} {scheduler : SequenceScheduler}
    {initially : Nat} (kept : BudgetKept history scheduler initially) (call : SchedulerCall) :
    BudgetKept (history ++ [schedulerMachine.event scheduler call])
      (schedulerMachine.step scheduler call).2 initially := by
  have before := kept.paid
  have now := (schedulerStep_effect scheduler call).paid kept.sound
  refine ⟨kept.sound.step call, ?_⟩
  rw [List.map_append, List.sum_append, List.map_append, List.sum_append, List.map_singleton,
    List.sum_singleton, List.map_singleton, List.sum_singleton]
  change _ + SchedulerEvent.handedOut ⟨scheduler, call, (schedulerStep scheduler call).1⟩ +
    (schedulerStep scheduler call).2.owed ≤
    _ + (_ + SchedulerEvent.admitted ⟨scheduler, call, (schedulerStep scheduler call).1⟩)
  omega

/-- From every state that a run reaches, whatever is called next: the items handed out and those
still owed are no more than what was owed before and the output tokens admitted meanwhile. -/
theorem work_within_budget (calls during : List SchedulerCall) :
    let reached := schedulerMachine.run {} calls
    let history := schedulerMachine.history reached during
    (history.map SchedulerEvent.handedOut).sum + (schedulerMachine.run reached during).owed ≤
      reached.owed + (history.map SchedulerEvent.admitted).sum := by
  intro reached history
  have kept := schedulerMachine.history_invariant
    (fun history scheduler => BudgetKept history scheduler reached.owed)
    (fun _ _ call kept => kept.extend call) reached
    ⟨BudgetInvariant.run calls, by simp⟩ during
  exact kept.paid

end MarketForge.Serving
