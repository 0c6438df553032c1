import MarketForge.Serving.SchedulerAccounting

/-!
# Fairness of the scheduler

The scan of `schedule` starts one past the entry selected last and goes round the table once. While
a runnable sequence is passed over, the selected entries all lie between the scan pointer and its
entry, and the pointer moves past them: nothing is selected twice before it is. What lies between
shrinks with every batch, but an enqueued sequence enters it when the pointer has already passed
the entry.
-/
namespace MarketForge.Serving

/-! ### The order of the scan -/

/-- The offset at which a scan from `pointer` visits an entry of a table of `n`. -/
def scanOffset (n pointer index : Nat) : Nat :=
  if pointer ≤ index then index - pointer else index + n - pointer

/-- The scan visits `index` before `target`. It does not depend on the length of the table. -/
def Ahead (pointer target index : Nat) : Prop :=
  if pointer ≤ target then pointer ≤ index ∧ index < target else pointer ≤ index ∨ index < target

theorem ahead_iff_offset {n pointer target index : Nat} (pointed : pointer < n)
    (targeted : target < n) (indexed : index < n) :
    Ahead pointer target index ↔ scanOffset n pointer index < scanOffset n pointer target := by
  unfold Ahead scanOffset
  split_ifs <;> omega

theorem scanOffset_add {n pointer offset : Nat} (pointed : pointer < n) (within : offset < n) :
    scanOffset n pointer ((pointer + offset) % n) = offset := by
  unfold scanOffset
  rcases Nat.lt_or_ge (pointer + offset) n with short | wraps
  · rw [Nat.mod_eq_of_lt short, if_pos (by omega)]
    omega
  · rw [Nat.mod_eq_sub_mod wraps, Nat.mod_eq_of_lt (by omega), if_neg (by omega)]
    omega

/-- The scan visits the table in the order of the offsets. -/
theorem circularOrder_pairwise {n pointer : Nat} (pointed : pointer < n) :
    (circularOrder n pointer).Pairwise fun i j =>
      scanOffset n pointer i < scanOffset n pointer j := by
  rw [circularOrder, List.pairwise_map]
  refine List.Pairwise.imp_of_mem ?_ List.pairwise_lt_range
  intro first second early late below
  rwa [scanOffset_add pointed (List.mem_range.mp early),
    scanOffset_add pointed (List.mem_range.mp late)]

section

variable {scheduler : SequenceScheduler}

theorem waiting_pairwise (pointed : scheduler.nextScanIndex < scheduler.entries.length) :
    scheduler.waiting.Pairwise fun i j =>
      scanOffset scheduler.entries.length scheduler.nextScanIndex i <
        scanOffset scheduler.entries.length scheduler.nextScanIndex j := by
  unfold SequenceScheduler.waiting
  rw [Nat.mod_eq_of_lt pointed]
  exact (circularOrder_pairwise pointed).filter _

/-- When a waiting entry is left out, all that were selected came before it. -/
theorem selected_before (pointed : scheduler.nextScanIndex < scheduler.entries.length)
    {maximumSequences target : Nat} (waits : target ∈ scheduler.waiting)
    (omitted : target ∉ scheduler.waiting.take maximumSequences) {index : Nat}
    (selected : index ∈ scheduler.waiting.take maximumSequences) :
    scanOffset scheduler.entries.length scheduler.nextScanIndex index <
      scanOffset scheduler.entries.length scheduler.nextScanIndex target := by
  have sorted := waiting_pairwise pointed
  rw [← List.take_append_drop maximumSequences scheduler.waiting] at sorted waits
  have later := (List.mem_append.mp waits).resolve_left omitted
  exact (List.pairwise_append.mp sorted).2.2 index selected target later

/-- The entry selected last has the greatest offset. -/
theorem selected_last (pointed : scheduler.nextScanIndex < scheduler.entries.length)
    {maximumSequences last : Nat}
    (final : (scheduler.waiting.take maximumSequences).getLast? = some last) {index : Nat}
    (selected : index ∈ scheduler.waiting.take maximumSequences) :
    scanOffset scheduler.entries.length scheduler.nextScanIndex index ≤
      scanOffset scheduler.entries.length scheduler.nextScanIndex last := by
  have sorted := (waiting_pairwise pointed).sublist (List.take_sublist maximumSequences _)
  obtain ⟨before, ends⟩ := List.getLast?_eq_some_iff.mp final
  rw [ends] at sorted selected
  rcases List.mem_append.mp selected with earlier | same
  · exact ((List.pairwise_append.mp sorted).2.2 index earlier last (List.mem_singleton.mpr rfl)).le
  · rw [List.mem_singleton.mp same]

end

/-- What is ahead after the pointer moved past `last` was ahead and came after `last`. -/
theorem ahead_of_moved {n pointer target last index : Nat} (pointed : pointer < n)
    (targeted : target < n) (placed : last < n)
    (between : scanOffset n pointer last < scanOffset n pointer target)
    (ahead : Ahead ((last + 1) % n) target index) :
    Ahead pointer target index ∧ scanOffset n pointer last < scanOffset n pointer index := by
  unfold Ahead scanOffset at *
  rcases Nat.lt_or_ge (last + 1) n with inside | wraps
  · rw [Nat.mod_eq_of_lt inside] at ahead
    split_ifs at * <;> omega
  · have edge : last + 1 = n := by omega
    rw [edge, Nat.mod_self] at ahead
    split_ifs at * <;> omega

/-- The pointer comes closer to the target by more than the offset of `last`. -/
theorem offset_of_moved {n pointer target last : Nat} (pointed : pointer < n)
    (targeted : target < n) (placed : last < n)
    (between : scanOffset n pointer last < scanOffset n pointer target) :
    scanOffset n ((last + 1) % n) target + 1 ≤ scanOffset n pointer target := by
  unfold scanOffset at *
  rcases Nat.lt_or_ge (last + 1) n with inside | wraps
  · rw [Nat.mod_eq_of_lt inside]
    split_ifs at * <;> omega
  · have edge : last + 1 = n := by omega
    rw [edge, Nat.mod_self]
    split_ifs at * <;> omega

/-! ### Entries keep their places -/

/-- The entry of a sequence is at an index. -/
def SequenceScheduler.Placed (scheduler : SequenceScheduler) (id : SequenceId) (index : Nat) :
    Prop :=
  (scheduler.entries.map Entry.id)[index]? = some id

/-- What holds between calls, the scan pointer included. -/
structure ScanInvariant (scheduler : SequenceScheduler) : Prop extends
    SchedulerInvariant scheduler where
  pointed : scheduler.nextScanIndex < scheduler.entries.length ∨ scheduler.nextScanIndex = 0

section

variable {scheduler after : SequenceScheduler} {call : SchedulerCall} {reply : SchedulerReply}

theorem SequenceScheduler.Placed.lt {id : SequenceId} {index : Nat}
    (placed : scheduler.Placed id index) : index < scheduler.entries.length := by
  have bound := (List.getElem?_eq_some_iff.mp placed).1
  rwa [List.length_map] at bound

theorem SequenceScheduler.Placed.unique (sound : SchedulerInvariant scheduler) {id : SequenceId}
    {index other : Nat} (placed : scheduler.Placed id index)
    (placedOther : scheduler.Placed id other) : index = other :=
  (List.getElem?_inj (List.getElem?_eq_some_iff.mp placed).1 sound.unique).mp
    (Eq.trans placed (Eq.symm placedOther))

theorem placed_of_find {id : SequenceId} {entry : Entry}
    (found : scheduler.find id = some entry) :
    ∃ index, scheduler.Placed id index ∧ scheduler.entries[index]? = some entry := by
  obtain ⟨index, at_index⟩ := List.getElem?_of_mem (Keyed.find_mem found)
  refine ⟨index, ?_, at_index⟩
  rw [SequenceScheduler.Placed, List.getElem?_map, at_index]
  exact congrArg some (Keyed.find_key found)

/-- A call moves no entry: it adds one at the end or none. -/
theorem SchedulerEffect.placed (effect : SchedulerEffect scheduler call reply after)
    {id : SequenceId} {index : Nat} (placed : scheduler.Placed id index) :
    after.Placed id index := by
  unfold SequenceScheduler.Placed at *
  rcases effect.ids with same | ⟨new, _, extended⟩
  · rwa [same]
  · rw [extended, List.getElem?_append_left (List.getElem?_eq_some_iff.mp placed).1]
    exact placed

theorem SchedulerEffect.length_eq (effect : SchedulerEffect scheduler call reply after) :
    after.entries.length = scheduler.entries.length ∨
      after.entries.length = scheduler.entries.length + 1 := by
  rcases effect.ids with same | ⟨new, _, extended⟩
  · have lengths := congrArg List.length same
    simp only [List.length_map] at lengths
    exact .inl lengths
  · have lengths := congrArg List.length extended
    simp only [List.length_map, List.length_append, List.length_singleton] at lengths
    exact .inr lengths

theorem selected_placed {maximumSequences index : Nat}
    (selected : index ∈ scheduler.waiting.take maximumSequences) :
    index < scheduler.entries.length := by
  obtain ⟨_, at_index, _⟩ := mem_waiting.mp (List.mem_of_mem_take selected)
  exact (List.getElem?_eq_some_iff.mp at_index).1

theorem SchedulerEffect.pointed (effect : SchedulerEffect scheduler call reply after)
    (pointed : scheduler.nextScanIndex < scheduler.entries.length ∨
      scheduler.nextScanIndex = 0) :
    after.nextScanIndex < after.entries.length ∨ after.nextScanIndex = 0 := by
  have lengths := effect.length_eq
  cases effect with
  | refused => exact pointed
  | enqueued =>
    dsimp only
    rw [List.length_append]
    omega
  | idle => exact pointed
  | @dispatched _ _ last _ asked selection final room =>
    left
    subst selection
    have occupied := selected_placed (List.mem_of_getLast? final)
    dsimp only
    rw [List.length_mapIdx]
    exact Nat.mod_lt _ (Nat.zero_lt_of_lt occupied)
  | updated =>
    dsimp only at lengths ⊢
    omega

theorem ScanInvariant.step (sound : ScanInvariant scheduler) (call : SchedulerCall) :
    ScanInvariant (schedulerStep scheduler call).2 :=
  ⟨sound.toSchedulerInvariant.step call,
    (schedulerStep_effect scheduler call).pointed sound.pointed⟩

end

theorem ScanInvariant.run (calls : List SchedulerCall) :
    ScanInvariant (schedulerMachine.run {} calls) :=
  schedulerMachine.run_invariant ScanInvariant (fun _ call sound => sound.step call) {}
    ⟨⟨List.nodup_nil, by simp⟩, .inr rfl⟩ calls

/-! ### A sequence that is passed over -/

/-- The sequence is runnable at the event, if it is a `schedule` call, and not selected by it. -/
def SchedulerEvent.PassesOver (id : SequenceId) (event : SchedulerEvent) : Prop :=
  ∀ alloc maximumSequences, event.call = .schedule alloc maximumSequences →
    (event.before.find id).any isRunnable = true ∧ event.dispatches id = 0

/-- One for a `schedule` call that succeeded. -/
def SchedulerEvent.schedules (event : SchedulerEvent) : Nat :=
  match event.reply with
  | .batch (.ok _) => 1
  | _ => 0

/-- What a call does to the order in which entries come up, when it passes over the one at
`target`: the entries it hands out were ahead of it and are not any more. -/
structure PassedOver (scheduler : SequenceScheduler) (event : SchedulerEvent)
    (after : SequenceScheduler) (target : Nat) : Prop where
  ahead : ∀ id index, scheduler.Placed id index →
    Ahead after.nextScanIndex target index → Ahead scheduler.nextScanIndex target index
  handed : ∀ id, event.dispatches id = 0 ∨ event.dispatches id = 1 ∧
    ∃ index, scheduler.Placed id index ∧ Ahead scheduler.nextScanIndex target index ∧
      ¬Ahead after.nextScanIndex target index

section

variable {scheduler after : SequenceScheduler} {call : SchedulerCall} {reply : SchedulerReply}

theorem dispatches_failed (failed : reply.failed = true) (id : SequenceId) :
    SchedulerEvent.dispatches id ⟨scheduler, call, reply⟩ = 0 := by
  cases reply with
  | status => rfl
  | batch result =>
    cases result with
    | error => rfl
    | ok => cases failed

theorem schedules_failed (failed : reply.failed = true) :
    SchedulerEvent.schedules ⟨scheduler, call, reply⟩ = 0 := by
  cases reply with
  | status => rfl
  | batch result =>
    cases result with
    | error => rfl
    | ok => cases failed

/-- Handing out nothing and leaving the pointer alone passes over everything. -/
theorem PassedOver.of_quiet {target : Nat} {event : SchedulerEvent}
    (pointer : after.nextScanIndex = scheduler.nextScanIndex)
    (quiet : ∀ id, event.dispatches id = 0) : PassedOver scheduler event after target where
  ahead _ _ _ stays := pointer ▸ stays
  handed id := .inl (quiet id)

/-- A batch without a runnable sequence takes only entries that are ahead of it. -/
theorem PassedOver.of_batch (sound : ScanInvariant scheduler) {maximumSequences last target : Nat}
    {selected : List Nat} {alloc : Allocator} (waits : target ∈ scheduler.waiting)
    (omitted : target ∉ selected) (selection : selected = scheduler.waiting.take maximumSequences)
    (final : selected.getLast? = some last)
    (moved : after.nextScanIndex = (last + 1) % scheduler.entries.length) :
    PassedOver scheduler ⟨scheduler, .schedule alloc maximumSequences,
      .batch (.ok ⟨scheduler.generation + 1, batchItems scheduler.entries selected⟩)⟩ after
        target := by
  subst selection
  obtain ⟨_, at_target, _⟩ := mem_waiting.mp waits
  have targeted := (List.getElem?_eq_some_iff.mp at_target).1
  have pointed : scheduler.nextScanIndex < scheduler.entries.length := by
    have pointed := sound.pointed
    omega
  have lastSelected := List.mem_of_getLast? final
  have lastPlaced := selected_placed lastSelected
  have between := selected_before pointed waits omitted lastSelected
  constructor
  · intro id index placed stays
    rw [moved] at stays
    exact (ahead_of_moved pointed targeted lastPlaced between stays).1
  · intro id
    by_cases listed : id ∈ scheduler.entries.map Entry.id
    · obtain ⟨entry, member, rfl⟩ := List.mem_map.mp listed
      obtain ⟨index, at_index⟩ := List.getElem?_of_mem member
      have count := batchItems_count sound.unique
        ((waiting_nodup scheduler).sublist (List.take_sublist maximumSequences _)) at_index
      by_cases chosen : index ∈ scheduler.waiting.take maximumSequences
      · rw [if_pos chosen] at count
        refine .inr ⟨count, index, ?_, ?_, ?_⟩
        · rw [SequenceScheduler.Placed, List.getElem?_map, at_index]
          rfl
        · rw [ahead_iff_offset pointed targeted (selected_placed chosen)]
          exact selected_before pointed waits omitted chosen
        · intro stays
          rw [moved] at stays
          have later := (ahead_of_moved pointed targeted lastPlaced between stays).2
          exact absurd (selected_last pointed final chosen) (Nat.not_le.mpr later)
      · rw [if_neg chosen] at count
        exact .inl count
    · exact .inl (batchItems_count_absent listed)

/-- A sequence passed over by a batch was waiting and was left out. -/
theorem omitted_of_passesOver (sound : ScanInvariant scheduler) {id : SequenceId}
    {target maximumSequences : Nat} {alloc : Allocator} {selected : List Nat}
    {generation : UInt64} (placed : scheduler.Placed id target)
    (selection : selected = scheduler.waiting.take maximumSequences)
    (passing : SchedulerEvent.PassesOver id ⟨scheduler, .schedule alloc maximumSequences,
      .batch (.ok ⟨generation, batchItems scheduler.entries selected⟩)⟩) :
    target ∈ scheduler.waiting ∧ target ∉ scheduler.waiting.take maximumSequences := by
  obtain ⟨runs, omitted⟩ := passing alloc maximumSequences rfl
  obtain ⟨entry, found, runnable⟩ := (Option.any_eq_true _ _).mp runs
  obtain ⟨index, placedEntry, at_index⟩ := placed_of_find found
  obtain rfl := placed.unique sound.toSchedulerInvariant placedEntry
  refine ⟨mem_waiting.mpr ⟨entry, at_index, runnable⟩, fun chosen => ?_⟩
  have count := batchItems_count sound.unique
    ((waiting_nodup scheduler).sublist (List.take_sublist maximumSequences _)) at_index
  rw [if_pos chosen, Keyed.find_key found, ← selection] at count
  exact absurd (count.symm.trans omitted) (by decide)

theorem SchedulerEffect.passedOver (effect : SchedulerEffect scheduler call reply after)
    (sound : ScanInvariant scheduler) {id : SequenceId} {target : Nat}
    (placed : scheduler.Placed id target)
    (passing : SchedulerEvent.PassesOver id ⟨scheduler, call, reply⟩) :
    PassedOver scheduler ⟨scheduler, call, reply⟩ after target := by
  cases effect with
  | refused failed => exact .of_quiet rfl (dispatches_failed failed)
  | enqueued => exact .of_quiet rfl fun _ => rfl
  | idle => exact .of_quiet rfl fun _ => rfl
  | @dispatched alloc maximumSequences last selected asked selection final room =>
    obtain ⟨waits, omitted⟩ := omitted_of_passesOver sound placed selection passing
    exact .of_batch sound waits (selection ▸ omitted) selection final rfl
  | updated => exact .of_quiet rfl fun _ => rfl

end

/-- A sequence that is passed over and has no entry means that nothing was scheduled. -/
theorem dispatches_absent {scheduler : SequenceScheduler} {call : SchedulerCall} {id : SequenceId}
    (passing : SchedulerEvent.PassesOver id (schedulerMachine.event scheduler call))
    (absent : ∀ target, ¬scheduler.Placed id target) (other : SequenceId) :
    SchedulerEvent.dispatches other (schedulerMachine.event scheduler call) = 0 := by
  cases call with
  | schedule alloc maximumSequences =>
    obtain ⟨entry, found, _⟩ := (Option.any_eq_true _ _).mp (passing alloc maximumSequences rfl).1
    obtain ⟨target, placed, _⟩ := placed_of_find found
    exact absurd placed (absent target)
  | enqueue => rfl
  | complete => rfl
  | pause => rfl
  | resume => rfl
  | cancel => rfl

/-! ### No overtaking -/

/-- Over a stretch that passes over `id`, what was handed out came up once and is not ahead any
more. -/
structure NotOvertaken (id : SequenceId) (history : List SchedulerEvent)
    (scheduler : SequenceScheduler) : Prop where
  sound : ScanInvariant scheduler
  handed : (∀ event ∈ history, SchedulerEvent.PassesOver id event) → ∀ other,
    (history.map (SchedulerEvent.dispatches other)).sum = 0 ∨
      (history.map (SchedulerEvent.dispatches other)).sum = 1 ∧
        ∃ target index, scheduler.Placed id target ∧ scheduler.Placed other index ∧
          ¬Ahead scheduler.nextScanIndex target index

theorem NotOvertaken.extend {id : SequenceId} {history : List SchedulerEvent}
    {scheduler : SequenceScheduler} (stretch : NotOvertaken id history scheduler)
    (call : SchedulerCall) :
    NotOvertaken id (history ++ [schedulerMachine.event scheduler call])
      (schedulerMachine.step scheduler call).2 := by
  have effect := schedulerStep_effect scheduler call
  refine ⟨stretch.sound.step call, fun passing other => ?_⟩
  have before := stretch.handed (fun event member => passing event (List.mem_append_left _ member))
    other
  have now : SchedulerEvent.PassesOver id (schedulerMachine.event scheduler call) :=
    passing _ (List.mem_append_right _ (List.mem_singleton.mpr rfl))
  rw [List.map_append, List.sum_append, List.map_singleton, List.sum_singleton]
  by_cases present : ∃ target, scheduler.Placed id target
  · obtain ⟨target, placed⟩ := present
    have passed : PassedOver scheduler (schedulerMachine.event scheduler call) _ target :=
      effect.passedOver stretch.sound placed now
    rcases before with none | ⟨once, target', index, placed', placedOther, behind⟩
    · rcases passed.handed other with nothing | ⟨item, index, placedOther, _, behind⟩
      · exact .inl (by rw [none, nothing])
      · refine .inr ⟨by rw [none, item], target, index, effect.placed placed,
          effect.placed placedOther, behind⟩
    · -- an entry handed out before is not ahead, so it is not handed out again
      obtain rfl := placed.unique stretch.sound.toSchedulerInvariant placed'
      have stays : ¬Ahead _ target index := fun ahead =>
        behind (passed.ahead other index placedOther ahead)
      rcases passed.handed other with nothing | ⟨_, index', placedAgain, ahead, _⟩
      · refine .inr ⟨by rw [once, nothing], target, index,
          effect.placed placed, effect.placed placedOther, stays⟩
      · obtain rfl := placedOther.unique stretch.sound.toSchedulerInvariant placedAgain
        exact absurd ahead behind
  · have nothing := dispatches_absent now fun target placed => present ⟨target, placed⟩
    rcases before with none | ⟨_, target, _, placed, _⟩
    · exact .inl (by rw [none, nothing other])
    · exact absurd ⟨target, placed⟩ present

/-- No overtaking: over any stretch of a run in which a sequence is runnable at each `schedule` call
and selected by none, every sequence is selected at most once. -/
theorem not_overtaken (calls during : List SchedulerCall) (id : SequenceId)
    (waits : ∀ event ∈ schedulerMachine.history (schedulerMachine.run {} calls) during,
      SchedulerEvent.PassesOver id event) (other : SequenceId) :
    ((schedulerMachine.history (schedulerMachine.run {} calls) during).map
      (SchedulerEvent.dispatches other)).sum ≤ 1 := by
  have stretch := schedulerMachine.history_invariant (NotOvertaken id)
    (fun _ _ call stretch => stretch.extend call) (schedulerMachine.run {} calls)
    ⟨.run calls, fun _ _ => .inl rfl⟩ during
  rcases stretch.handed waits other with none | ⟨once, _⟩
  · omega
  · omega

/-- Three sequences in turns of one: the first waits while the two others and a new one are
served. -/
theorem not_overtaken_three :
    let calls : List SchedulerCall :=
      [.enqueue .unlimited ⟨1, 4, 9⟩, .enqueue .unlimited ⟨2, 4, 9⟩, .enqueue .unlimited ⟨3, 4, 9⟩,
        .schedule .unlimited 1, .complete 1 1 false]
    let during : List SchedulerCall :=
      [.schedule .unlimited 1, .complete 2 1 false, .enqueue .unlimited ⟨4, 4, 9⟩,
        .schedule .unlimited 2]
    ((schedulerMachine.history (schedulerMachine.run {} calls) during).map
      (SchedulerEvent.dispatches 2)).sum ≤ 1 :=
  not_overtaken
    [.enqueue .unlimited ⟨1, 4, 9⟩, .enqueue .unlimited ⟨2, 4, 9⟩, .enqueue .unlimited ⟨3, 4, 9⟩,
      .schedule .unlimited 1, .complete 1 1 false]
    [.schedule .unlimited 1, .complete 2 1 false, .enqueue .unlimited ⟨4, 4, 9⟩,
      .schedule .unlimited 2] 1
    (by
      intro event member
      simp only [Transition.Machine.history_cons, Transition.Machine.history_nil, List.mem_cons,
        List.not_mem_nil, or_false] at member
      rcases member with rfl | rfl | rfl | rfl <;> intro alloc maximumSequences same
      · decide
      · cases same
      · cases same
      · decide)
    2

/-! ### Waiting -/

/-- One for a sequence enqueued while the scan pointer is past the entry of `id`. -/
def SchedulerEvent.arrivesAhead (id : SequenceId) (event : SchedulerEvent) : Nat :=
  match event.call, event.reply with
  | .enqueue _ _, .status status =>
    if status.isOk ∧ (event.before.entries.map Entry.id).idxOf id <
      event.before.nextScanIndex then 1
    else 0
  | _, _ => 0

/-- How many entries the scan visits before the one of `id`. -/
structure Nearing (id : SequenceId) (start : Nat) (history : List SchedulerEvent)
    (scheduler : SequenceScheduler) : Prop where
  sound : ScanInvariant scheduler
  near : (∀ event ∈ history, SchedulerEvent.PassesOver id event) →
    ∃ target, scheduler.Placed id target ∧
      (history.map SchedulerEvent.schedules).sum +
          scanOffset scheduler.entries.length scheduler.nextScanIndex target ≤
        start + (history.map (SchedulerEvent.arrivesAhead id)).sum

theorem SchedulerEffect.nearing {scheduler after : SequenceScheduler} {call : SchedulerCall}
    {reply : SchedulerReply} (effect : SchedulerEffect scheduler call reply after)
    (sound : ScanInvariant scheduler) {id : SequenceId} {target : Nat}
    (placed : scheduler.Placed id target)
    (passing : SchedulerEvent.PassesOver id ⟨scheduler, call, reply⟩) :
    SchedulerEvent.schedules ⟨scheduler, call, reply⟩ +
        scanOffset after.entries.length after.nextScanIndex target ≤
      scanOffset scheduler.entries.length scheduler.nextScanIndex target +
        SchedulerEvent.arrivesAhead id ⟨scheduler, call, reply⟩ := by
  have targeted := placed.lt
  have pointed : scheduler.nextScanIndex < scheduler.entries.length := by
    have pointed := sound.pointed
    omega
  cases effect with
  | refused failed =>
    rw [schedules_failed failed, Nat.zero_add]
    exact Nat.le_add_right _ _
  | @enqueued alloc request =>
    -- the new entry comes up before the target if the pointer is past the target
    have index : (scheduler.entries.map Entry.id).idxOf id = target := by
      obtain ⟨bound, here⟩ := List.getElem?_eq_some_iff.mp placed
      rw [← here]
      exact sound.unique.idxOf_getElem target bound
    simp only [SchedulerEvent.schedules, SchedulerEvent.arrivesAhead, Status.isOk_success, index,
      true_and, List.length_append, List.length_singleton, scanOffset]
    split_ifs <;> omega
  | idle asked none_waiting =>
    obtain ⟨entry, found, runnable⟩ := (Option.any_eq_true _ _).mp (passing _ _ rfl).1
    obtain ⟨index, _, at_index⟩ := placed_of_find found
    have waits := mem_waiting.mpr ⟨entry, at_index, runnable⟩
    rw [none_waiting] at waits
    cases waits
  | @dispatched alloc maximumSequences last selected asked selection final room =>
    obtain ⟨waits, omitted⟩ := omitted_of_passesOver sound placed selection passing
    subst selection
    have lastSelected := List.mem_of_getLast? final
    have closer := offset_of_moved pointed targeted (selected_placed lastSelected)
      (selected_before pointed waits omitted lastSelected)
    dsimp only
    rw [List.length_mapIdx]
    change 1 + _ ≤ _ + 0
    omega
  | updated named found effect =>
    dsimp only
    rw [Keyed.update_length]
    change 0 + _ ≤ _
    omega

theorem Nearing.extend {id : SequenceId} {start : Nat} {history : List SchedulerEvent}
    {scheduler : SequenceScheduler} (nearing : Nearing id start history scheduler)
    (call : SchedulerCall) :
    Nearing id start (history ++ [schedulerMachine.event scheduler call])
      (schedulerMachine.step scheduler call).2 := by
  have effect := schedulerStep_effect scheduler call
  refine ⟨nearing.sound.step call, fun passing => ?_⟩
  obtain ⟨target, placed, near⟩ :=
    nearing.near fun event member => passing event (List.mem_append_left _ member)
  have now : SchedulerEvent.PassesOver id (schedulerMachine.event scheduler call) :=
    passing _ (List.mem_append_right _ (List.mem_singleton.mpr rfl))
  have closer := effect.nearing nearing.sound placed now
  refine ⟨target, effect.placed placed, ?_⟩
  rw [List.map_append, List.sum_append, List.map_singleton, List.sum_singleton, List.map_append,
    List.sum_append, List.map_singleton, List.sum_singleton]
  change _ + SchedulerEvent.schedules ⟨scheduler, call, (schedulerStep scheduler call).1⟩ +
    scanOffset (schedulerStep scheduler call).2.entries.length
      (schedulerStep scheduler call).2.nextScanIndex target ≤
    _ + (_ + SchedulerEvent.arrivesAhead id ⟨scheduler, call, (schedulerStep scheduler call).1⟩)
  omega

/-- A waiting sequence comes up in time: from a state with `n` sequences on, while it is runnable at
each `schedule` call and selected by none, fewer calls succeed than `n` and the sequences enqueued
while the scan pointer was past its entry. -/
theorem waiting_bounded (calls during : List SchedulerCall) (id : SequenceId)
    (runs : ((schedulerMachine.run {} calls).find id).any isRunnable = true)
    (waits : ∀ event ∈ schedulerMachine.history (schedulerMachine.run {} calls) during,
      SchedulerEvent.PassesOver id event) :
    ((schedulerMachine.history (schedulerMachine.run {} calls) during).map
        SchedulerEvent.schedules).sum <
      (schedulerMachine.run {} calls).entries.length +
        ((schedulerMachine.history (schedulerMachine.run {} calls) during).map
          (SchedulerEvent.arrivesAhead id)).sum := by
  have sound := ScanInvariant.run calls
  obtain ⟨entry, found, _⟩ := (Option.any_eq_true _ _).mp runs
  obtain ⟨target, placed, _⟩ := placed_of_find found
  generalize schedulerMachine.run {} calls = reached at *
  have nearing := schedulerMachine.history_invariant
    (Nearing id (scanOffset reached.entries.length reached.nextScanIndex target))
    (fun _ _ call nearing => nearing.extend call) reached
    ⟨sound, fun _ => ⟨target, placed, by simp⟩⟩ during
  obtain ⟨_, _, near⟩ := nearing.near waits
  have few : scanOffset reached.entries.length reached.nextScanIndex target <
      reached.entries.length := by
    have targeted := placed.lt
    unfold scanOffset
    split <;> omega
  omega

/-- A sequence enqueued before each call keeps the pointer from coming round: two sequences are
held, and two calls in a row leave out the one that waits. -/
theorem waiting_unbounded_by_count :
    ¬∀ (calls during : List SchedulerCall) (id : SequenceId),
      ((schedulerMachine.run {} calls).find id).any isRunnable = true →
      (∀ event ∈ schedulerMachine.history (schedulerMachine.run {} calls) during,
        SchedulerEvent.PassesOver id event) →
      ((schedulerMachine.history (schedulerMachine.run {} calls) during).map
          SchedulerEvent.schedules).sum <
        (schedulerMachine.run {} calls).entries.length := by
  intro bounded
  have two := bounded
    [.enqueue .unlimited ⟨1, 4, 9⟩, .enqueue .unlimited ⟨2, 4, 9⟩, .schedule .unlimited 1,
      .complete 1 1 false]
    [.enqueue .unlimited ⟨3, 4, 9⟩, .schedule .unlimited 1, .enqueue .unlimited ⟨4, 4, 9⟩,
      .schedule .unlimited 1] 1 (by decide) (by
      intro event member
      simp only [Transition.Machine.history_cons, Transition.Machine.history_nil, List.mem_cons,
        List.not_mem_nil, or_false] at member
      rcases member with rfl | rfl | rfl | rfl <;> intro alloc maximumSequences same
      · cases same
      · decide
      · cases same
      · decide)
  exact absurd two (by decide)

/-- The same run: two calls leave the sequence out, two sequences are held and two arrive ahead. -/
theorem waiting_bounded_two :
    let reached := schedulerMachine.run {}
      [.enqueue .unlimited ⟨1, 4, 9⟩, .enqueue .unlimited ⟨2, 4, 9⟩, .schedule .unlimited 1,
        .complete 1 1 false]
    let during : List SchedulerCall :=
      [.enqueue .unlimited ⟨3, 4, 9⟩, .schedule .unlimited 1, .enqueue .unlimited ⟨4, 4, 9⟩,
        .schedule .unlimited 1]
    ((schedulerMachine.history reached during).map SchedulerEvent.schedules).sum <
      reached.entries.length +
        ((schedulerMachine.history reached during).map (SchedulerEvent.arrivesAhead 1)).sum :=
  waiting_bounded
    [.enqueue .unlimited ⟨1, 4, 9⟩, .enqueue .unlimited ⟨2, 4, 9⟩, .schedule .unlimited 1,
      .complete 1 1 false]
    [.enqueue .unlimited ⟨3, 4, 9⟩, .schedule .unlimited 1, .enqueue .unlimited ⟨4, 4, 9⟩,
      .schedule .unlimited 1] 1 (by decide) (by
      intro event member
      simp only [Transition.Machine.history_cons, Transition.Machine.history_nil, List.mem_cons,
        List.not_mem_nil, or_false] at member
      rcases member with rfl | rfl | rfl | rfl <;> intro alloc maximumSequences same
      · cases same
      · decide
      · cases same
      · decide)

end MarketForge.Serving
