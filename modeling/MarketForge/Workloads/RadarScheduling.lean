import MarketForge.Library.Lookup
import MarketForge.Serving.SchedulerBatches
import MarketForge.Workloads.RadarSimulation

/-!
# The scheduler during a scenario

A decision is prefilled in one batch and decoded in a later one, so every entry is queued,
decoding or finished. `Scheduling` states which sequences are unfinished and which are in flight,
at every point of a step: between admissions, between batches and between the items of a batch.
The batches still needed are counted by `backlog`, which each completed item lowers by one.
-/
namespace MarketForge.Workloads

open Library Serving

/-- Completions an entry still needs. -/
def remaining (entry : Entry) : Nat :=
  if entry.phase = .queued then 2 else if entry.phase = .decoding then 1 else 0

def backlog (scheduler : SequenceScheduler) : Nat := (scheduler.entries.map remaining).sum

/-- The entries of a scenario, whether in flight or not. -/
structure DecisionEntry (entry : Entry) : Prop where
  output : entry.request.maxOutputTokens = 2
  settled : entry.cancelPending = false
  progress : (entry.phase = .queued ∧ entry.generatedTokens = 0) ∨
    (entry.phase = .decoding ∧ entry.generatedTokens = 1) ∨ entry.phase = .finished

/-- The entry after one more token. -/
def served (entry : Entry) : Entry :=
  { entry with
    inFlight := false
    generatedTokens := entry.generatedTokens + 1
    phase := if entry.phase = .queued then .decoding else .finished }

namespace DecisionEntry

variable {entry : Entry}

theorem runnable (decision : DecisionEntry entry) (idle : entry.inFlight = false) :
    isRunnable entry = true ↔ entry.phase ≠ .finished := by
  rcases decision.progress with ⟨queued, _⟩ | ⟨decoding, _⟩ | finished
  · simp [isRunnable, idle, decision.settled, queued]
  · simp [isRunnable, idle, decision.settled, decoding]
  · simp [isRunnable, finished]

theorem dispatched (decision : DecisionEntry entry) : DecisionEntry entry.dispatched :=
  ⟨decision.output, decision.settled, decision.progress⟩

/-- A token is accepted: the first leaves the entry decoding, the second finishes it. -/
theorem complete (decision : DecisionEntry entry) (flying : entry.inFlight = true)
    (unfinished : entry.phase ≠ .finished) :
    entry.complete 1 (decide (entry.work = .decode)) = (.success, served entry) := by
  rcases decision.progress with ⟨queued, none_yet⟩ | ⟨decoding, one⟩ | finished
  · simp [Entry.complete, flying, decision.settled, decision.output, none_yet, Entry.work, queued,
      served]
  · simp [Entry.complete, flying, decision.settled, decision.output, one, Entry.work, decoding,
      served]
  · exact absurd finished unfinished

theorem served (decision : DecisionEntry entry) (unfinished : entry.phase ≠ .finished) :
    DecisionEntry (served entry) ∧ remaining (Workloads.served entry) + 1 = remaining entry ∧
      ((Workloads.served entry).phase = .finished ↔ entry.work = .decode) := by
  rcases decision.progress with ⟨queued, none_yet⟩ | ⟨decoding, one⟩ | finished
  · refine ⟨⟨decision.output, decision.settled, ?_⟩, ?_, ?_⟩
    · simp [Workloads.served, queued, none_yet]
    · simp [Workloads.served, remaining, queued]
    · simp [Workloads.served, Entry.work, queued]
  · refine ⟨⟨decision.output, decision.settled, ?_⟩, ?_, ?_⟩
    · simp [Workloads.served, decoding]
    · simp [Workloads.served, remaining, decoding]
    · simp [Workloads.served, Entry.work, decoding]
  · exact absurd finished unfinished

end DecisionEntry

/-- The unfinished sequences and the items of the current batch that are not complete. -/
structure Scheduling (live : List SequenceId) (pending : List BatchItem)
    (scheduler : SequenceScheduler) : Prop where
  unique : (scheduler.entries.map Entry.id).Nodup
  distinct : live.Nodup
  decisions : ∀ entry ∈ scheduler.entries, DecisionEntry entry
  live_iff : ∀ id, id ∈ live ↔ ∃ entry ∈ scheduler.entries, entry.id = id ∧ entry.phase ≠ .finished
  flying_iff : ∀ entry ∈ scheduler.entries,
    entry.inFlight = true ↔ entry.id ∈ pending.map BatchItem.id
  items : ∀ item ∈ pending, ∃ entry ∈ scheduler.entries, entry.id = item.id ∧
    entry.work = item.work ∧ entry.phase ≠ .finished
  once : (pending.map BatchItem.id).Nodup

namespace Scheduling

theorem initially : Scheduling [] [] {} := by
  constructor <;> simp

variable {live : List SequenceId} {pending : List BatchItem} {scheduler : SequenceScheduler}

theorem idle (scheduling : Scheduling live [] scheduler) {entry : Entry}
    (member : entry ∈ scheduler.entries) : entry.inFlight = false := by
  rw [← Bool.not_eq_true, scheduling.flying_iff entry member]
  simp

/-- Nothing is left when every sequence is finished. -/
theorem backlog_zero (scheduling : Scheduling [] pending scheduler) : backlog scheduler = 0 := by
  apply List.sum_eq_zero
  intro amount member
  obtain ⟨entry, present, rfl⟩ := List.mem_map.mp member
  have finished : entry.phase = .finished := by
    by_contra unfinished
    have live : entry.id ∈ [] :=
      (scheduling.live_iff entry.id).mpr ⟨entry, present, rfl, unfinished⟩
    cases live
  simp [remaining, finished]

theorem backlog_pos (scheduling : Scheduling live pending scheduler) (some_live : live ≠ []) :
    0 < backlog scheduler := by
  obtain ⟨id, member⟩ := List.exists_mem_of_ne_nil live some_live
  obtain ⟨entry, present, _, unfinished⟩ := (scheduling.live_iff id).mp member
  have positive : 0 < remaining entry := by
    rcases (scheduling.decisions entry present).progress with ⟨queued, _⟩ | ⟨decoding, _⟩ | finished
    · simp [remaining, queued]
    · simp [remaining, decoding]
    · exact absurd finished unfinished
  have part : remaining entry ≤ backlog scheduler :=
    List.single_le_sum (by simp) _ (List.mem_map_of_mem present)
  omega

/-! ### Admission -/

theorem enqueue (scheduling : Scheduling live [] scheduler) (request : SequenceRequest)
    (proper : request.id ≠ 0) (prompt : request.promptTokens ≠ 0)
    (output : request.maxOutputTokens = 2)
    (fits : request.promptTokens.toNat + 2 < UInt32.size)
    (fresh : ∀ entry ∈ scheduler.entries, entry.id ≠ request.id) :
    ∃ after, scheduler.enqueue .unlimited request = (.success, after) ∧
      after.entries = scheduler.entries ++ [{ request := request }] ∧
      after.generation = scheduler.generation ∧
      Scheduling (live ++ [request.id]) [] after ∧ backlog after = backlog scheduler + 2 := by
  have unknown : scheduler.find request.id = none := Keyed.find_eq_none_iff.mpr fresh
  -- the guard of `enqueue` on the sum of the tokens
  have bounded :
      ¬request.promptTokens > UInt32.ofNat (UInt32.size - 1) - request.maxOutputTokens := by
    have largest : (UInt32.ofNat (UInt32.size - 1) - 2).toNat = UInt32.size - 3 := by decide
    rw [output, gt_iff_lt, UInt32.not_lt, UInt32.le_iff_toNat_le, largest]
    simp only [UInt32.size] at fits ⊢
    omega
  -- a live id has its entry
  have new : request.id ∉ live := by
    intro member
    obtain ⟨entry, present, same, _⟩ := (scheduling.live_iff request.id).mp member
    exact fresh entry present same
  refine ⟨{ scheduler with entries := scheduler.entries ++ [{ request := request }] }, ?_, rfl, rfl,
    ?_, ?_⟩
  · rw [SequenceScheduler.enqueue,
      if_neg (by simp [proper, prompt, output, unknown] at bounded ⊢; exact bounded)]
    rfl
  · constructor
    · rw [List.map_append, List.map_singleton, ← List.concat_eq_append]
      exact scheduling.unique.concat (Keyed.not_mem_keys_of_find unknown)
    · rw [← List.concat_eq_append]
      exact scheduling.distinct.concat new
    · intro entry member
      rcases List.mem_append.mp member with old | added
      · exact scheduling.decisions entry old
      · rw [List.mem_singleton.mp added]
        exact ⟨output, rfl, .inl ⟨rfl, rfl⟩⟩
    · intro id
      rw [List.mem_append, List.mem_singleton, scheduling.live_iff]
      simp only [List.mem_append, List.mem_singleton, or_and_right, exists_or, exists_eq_left]
      refine or_congr Iff.rfl ⟨fun same => ⟨same.symm, by rintro ⟨⟩⟩, fun here => here.1.symm⟩
    · intro entry member
      rcases List.mem_append.mp member with old | added
      · exact scheduling.flying_iff entry old
      · rw [List.mem_singleton.mp added]
        simp
    · simp
    · simp
  · simp [backlog, remaining]

/-! ### Batches -/

/-- No batch is larger than asked for. -/
theorem batch_bounded {maximum : Nat} {batch : InferenceBatch} {after : SequenceScheduler}
    (scheduled : scheduler.schedule .unlimited maximum = (.ok batch, after)) :
    batch.items.length ≤ maximum := by
  have effect := @schedule_effect scheduler .unlimited maximum
  rw [scheduled] at effect
  dsimp only at effect
  cases effect with
  | refused failed => cases failed
  | idle => exact Nat.zero_le _
  | @dispatched _ _ _ selected _ selection =>
    have lengths := congrArg List.length
      (batchItems_map scheduler.entries selected (fun _ => ()) (fun _ => ()) fun _ _ => rfl)
    rw [List.length_map] at lengths
    have most := List.length_filterMap_le
      (fun index => scheduler.entries[index]?.map fun _ => ()) selected
    have taken := List.length_take_le maximum scheduler.waiting
    rw [← selection] at taken
    dsimp only
    omega

/-- A batch puts in flight the sequences of its items and changes nothing else that matters. -/
theorem schedule_ok (scheduling : Scheduling live [] scheduler) {maximum : Nat}
    {batch : InferenceBatch} {after : SequenceScheduler}
    (scheduled : scheduler.schedule .unlimited maximum = (.ok batch, after))
    (nonempty : batch.items ≠ []) :
    Scheduling live batch.items after ∧ backlog after = backlog scheduler ∧
      batch.generation = scheduler.generation + 1 ∧
      after.generation = scheduler.generation + 1 ∧
      scheduler.generation ≠ UInt64.ofNat (UInt64.size - 1) ∧
      after.entries.map Entry.id = scheduler.entries.map Entry.id := by
  have effect := @schedule_effect scheduler .unlimited maximum
  rw [scheduled] at effect
  dsimp only at effect
  cases effect with
  | refused failed => cases failed
  | idle => exact absurd rfl nonempty
  | @dispatched _ _ _ selected _ selection _ room =>
    have apart : selected.Nodup := by
      rw [selection]
      exact (waiting_nodup scheduler).sublist (List.take_sublist _ _)
    have once := batchItems_distinct scheduling.unique apart
    have chosen_iff := fun (i : Nat) entry (at_i : scheduler.entries[i]? = some entry) =>
      @mem_batchItems_ids _ scheduling.unique selected i entry at_i
    have ids := mapIdx_dispatched_ids scheduler.entries selected
    -- what an entry was before and whether it was selected
    have origin : ∀ entry ∈ scheduler.entries.mapIdx (fun index entry =>
        if index ∈ selected then entry.dispatched else entry),
        ∃ (i : Nat) (source : Entry), scheduler.entries[i]? = some source ∧
          entry = if i ∈ selected then source.dispatched else source := by
      intro entry member
      obtain ⟨i, inside, rfl⟩ := List.mem_mapIdx.mp member
      exact ⟨i, scheduler.entries[i], List.getElem?_eq_getElem inside, rfl⟩
    refine ⟨⟨?_, scheduling.distinct, ?_, ?_, ?_, ?_, once⟩, ?_, rfl, rfl, room, ids⟩
    · rw [ids]
      exact scheduling.unique
    · intro entry member
      obtain ⟨i, source, at_i, rfl⟩ := origin entry member
      have old := scheduling.decisions source (List.mem_of_getElem? at_i)
      split
      next => exact old.dispatched
      next => exact old
    · intro id
      -- an entry keeps its id and its phase, whether it was selected or not
      have kept := mapIdx_dispatched_map (fun entry => (entry.id, entry.phase)) (fun _ => rfl)
        scheduler.entries selected
      have unfinished : ∀ entries : List Entry,
          (∃ entry ∈ entries, entry.id = id ∧ entry.phase ≠ .finished) ↔
            ∃ pair ∈ entries.map fun entry => (entry.id, entry.phase),
              pair.1 = id ∧ pair.2 ≠ .finished := by
        intro entries
        simp
      rw [scheduling.live_iff, unfinished, unfinished, kept]
    · intro entry member
      obtain ⟨i, source, at_i, rfl⟩ := origin entry member
      have listed := chosen_iff i source at_i
      split
      next chosen => exact ⟨fun _ => listed.mpr chosen, fun _ => rfl⟩
      next omitted =>
        rw [scheduling.idle (List.mem_of_getElem? at_i)]
        exact ⟨by rintro ⟨⟩, fun here => absurd (listed.mp here) omitted⟩
    · intro item member
      obtain ⟨i, chosen, source, at_i, named, work, _⟩ := mem_batchItems member
      have placed : (scheduler.entries.mapIdx fun index entry =>
          if index ∈ selected then entry.dispatched else entry)[i]? = some source.dispatched := by
        rw [List.getElem?_mapIdx, at_i, Option.map_some, if_pos chosen]
      obtain ⟨entry, again, runs⟩ := mem_waiting.mp (List.mem_of_mem_take (selection ▸ chosen))
      obtain rfl : source = entry := Option.some.inj (at_i.symm.trans again)
      have old := List.mem_of_getElem? at_i
      have unfinished := ((scheduling.decisions source old).runnable (scheduling.idle old)).mp runs
      exact ⟨_, List.mem_of_getElem? placed, named.symm, work.symm, unfinished⟩
    · exact congrArg List.sum
        (mapIdx_dispatched_map remaining (fun _ => rfl) scheduler.entries selected)

/-- The scheduler with a batch in flight, by the ids of its items. -/
theorem schedule_entries (scheduling : Scheduling live [] scheduler) {maximum : Nat}
    {batch : InferenceBatch} {after : SequenceScheduler}
    (scheduled : scheduler.schedule .unlimited maximum = (.ok batch, after))
    (nonempty : batch.items ≠ []) :
    ∃ last, (scheduler.waiting.take maximum).getLast? = some last ∧
      batch = ⟨scheduler.generation + 1,
        batchItems scheduler.entries (scheduler.waiting.take maximum)⟩ ∧
      (∀ (i : Nat) entry, scheduler.entries[i]? = some entry →
        (entry.id ∈ batch.items.map BatchItem.id ↔ i ∈ scheduler.waiting.take maximum)) ∧
      after = {
        entries := scheduler.entries.map fun entry =>
          if entry.id ∈ batch.items.map BatchItem.id then entry.dispatched else entry
        nextScanIndex := (last + 1) % scheduler.entries.length
        generation := scheduler.generation + 1 } := by
  have effect := @schedule_effect scheduler .unlimited maximum
  rw [scheduled] at effect
  dsimp only at effect
  cases effect with
  | refused failed => cases failed
  | idle => exact absurd rfl nonempty
  | @dispatched _ _ last selected _ selection final room =>
    subst selection
    have exact := ExactBatch.of_dispatched scheduling.unique rfl final room
    refine ⟨last, final, rfl, fun i entry at_i => mem_batchItems_ids scheduling.unique at_i, ?_⟩
    exact congrArg (fun entries : List Entry => SequenceScheduler.mk entries
      ((last + 1) % scheduler.entries.length) (scheduler.generation + 1)) exact.entries

/-- Some unfinished sequence waits, so a batch is formed. -/
theorem schedule_succeeds (scheduling : Scheduling live [] scheduler) (some_live : live ≠ [])
    {maximum : Nat} (asked : maximum ≠ 0)
    (room : scheduler.generation ≠ UInt64.ofNat (UInt64.size - 1)) :
    ∃ batch after, scheduler.schedule .unlimited maximum = (.ok batch, after) ∧
      batch.items ≠ [] := by
  obtain ⟨id, member⟩ := List.exists_mem_of_ne_nil live some_live
  obtain ⟨entry, present, _, unfinished⟩ := (scheduling.live_iff id).mp member
  have runs := ((scheduling.decisions entry present).runnable (scheduling.idle present)).mpr
    unfinished
  obtain ⟨i, at_i⟩ := List.mem_iff_getElem?.mp present
  have waits : i ∈ scheduler.waiting := mem_waiting.mpr ⟨entry, at_i, runs⟩
  have chosen : scheduler.waiting.take maximum ≠ [] := by
    rw [Ne, List.take_eq_nil_iff, not_or]
    exact ⟨asked, List.ne_nil_of_mem waits⟩
  have stored : scheduler.entries ≠ [] := List.ne_nil_of_mem present
  have final := List.getLast?_eq_some_getLast chosen
  have formed : (scheduler.schedule .unlimited maximum).1 = .ok ⟨scheduler.generation + 1,
      batchItems scheduler.entries (scheduler.waiting.take maximum)⟩ := by
    rw [SequenceScheduler.schedule]
    dsimp only
    rw [if_neg asked, if_neg stored, unlimited_caught]
    dsimp only
    rw [selectRunnable_waiting, final]
    dsimp only
    rw [if_neg room, unlimited_caught]
  refine ⟨_, (scheduler.schedule .unlimited maximum).2, Prod.ext formed rfl, ?_⟩
  -- the entry selected last has an item
  have last := List.getLast_mem chosen
  obtain ⟨source, at_last, _⟩ := mem_waiting.mp (List.mem_of_mem_take last)
  have listed := (mem_batchItems_ids scheduling.unique at_last).mpr last
  intro empty
  dsimp only at empty
  rw [empty] at listed
  cases listed

/-! ### Completion -/

/-- The entry that an item completes, and the call. -/
theorem complete_call {item : BatchItem}
    (scheduling : Scheduling live (item :: pending) scheduler) :
    ∃ entry ∈ scheduler.entries, entry.id = item.id ∧ entry.work = item.work ∧
      entry.phase ≠ .finished ∧
      scheduler.complete item.id 1 (decide (item.work = .decode)) = (.success, { scheduler with
        entries := Keyed.update Entry.id scheduler.entries item.id
          fun _ => Workloads.served entry }) := by
  obtain ⟨entry, present, named, work, unfinished⟩ := scheduling.items item List.mem_cons_self
  have found : Keyed.find Entry.id scheduler.entries item.id = some entry :=
    Keyed.find_of_mem scheduling.unique present named
  have flying : entry.inFlight = true := by
    rw [scheduling.flying_iff entry present, named]
    exact List.mem_cons_self
  have completed := (scheduling.decisions entry present).complete flying unfinished
  rw [work] at completed
  refine ⟨entry, present, named, work, unfinished, ?_⟩
  rw [SequenceScheduler.complete, SequenceScheduler.onEntry, SequenceScheduler.find, found]
  dsimp only
  rw [completed]
  have same : (entry.complete 1 (decide (item.work = .decode))).2 = Workloads.served entry := by
    rw [completed]
  rw [Keyed.update_congr (g := fun _ => Workloads.served entry) found same]

/-- An item of the batch is complete: its sequence has one token more, and the second is its
last. -/
theorem complete {item : BatchItem} (scheduling : Scheduling live (item :: pending) scheduler) :
    ∃ after, scheduler.complete item.id 1 (decide (item.work = .decode)) = (.success, after) ∧
      Scheduling (if item.work = .decode then live.erase item.id else live) pending after ∧
      item.id ∈ live ∧ backlog after + 1 = backlog scheduler ∧
      after.generation = scheduler.generation ∧
      after.entries.map Entry.id = scheduler.entries.map Entry.id := by
  obtain ⟨entry, present, named, work, unfinished, completed⟩ := scheduling.complete_call
  have found : Keyed.find Entry.id scheduler.entries item.id = some entry :=
    Keyed.find_of_mem scheduling.unique present named
  obtain ⟨after_decision, fewer, last_iff⟩ :=
    (scheduling.decisions entry present).served unfinished
  rw [work] at last_iff
  obtain ⟨absent, once⟩ := List.nodup_cons.mp scheduling.once
  have keeps : (Workloads.served entry).id = item.id := named
  have ids := Keyed.replace_keys scheduler.entries keeps
  have rows := Keyed.mem_update_iff scheduling.unique found fun _ => Workloads.served entry
  have in_service : item.id ∈ live :=
    (scheduling.live_iff item.id).mpr ⟨entry, present, named, unfinished⟩
  refine ⟨_, completed, ⟨?_, ?_, ?_, ?_, ?_, ?_, once⟩, in_service, ?_, rfl, ids⟩
  · rw [ids]
    exact scheduling.unique
  · split
    next => exact scheduling.distinct.erase _
    next => exact scheduling.distinct
  · intro row member
    rcases (rows row).mp member with rfl | ⟨old, _⟩
    · exact after_decision
    · exact scheduling.decisions row old
  · intro id
    simp only [rows]
    split
    next decoded =>
      -- the second token of a sequence is its last, so it is no longer live
      rw [scheduling.distinct.mem_erase_iff, scheduling.live_iff]
      constructor
      · rintro ⟨other, row, old, rfl, open_⟩
        exact ⟨row, .inr ⟨old, other⟩, rfl, open_⟩
      · rintro ⟨row, rfl | ⟨old, other⟩, rfl, open_⟩
        · exact absurd (last_iff.mpr decoded) open_
        · exact ⟨other, row, old, rfl, open_⟩
    next prefilled =>
      rw [scheduling.live_iff]
      constructor
      · rintro ⟨row, old, rfl, open_⟩
        by_cases here : row.id = item.id
        · exact ⟨_, .inl rfl, keeps.trans here.symm, fun last => prefilled (last_iff.mp last)⟩
        · exact ⟨row, .inr ⟨old, here⟩, rfl, open_⟩
      · rintro ⟨row, rfl | ⟨old, _⟩, rfl, open_⟩
        · exact ⟨entry, present, rfl, unfinished⟩
        · exact ⟨row, old, rfl, open_⟩
  · intro row member
    rcases (rows row).mp member with rfl | ⟨old, other⟩
    · rw [keeps]
      exact ⟨by rintro ⟨⟩, fun here => absurd here absent⟩
    · rw [scheduling.flying_iff row old, List.map_cons, List.mem_cons]
      exact or_iff_right other
  · intro later member
    obtain ⟨row, old, same, kind, open_⟩ := scheduling.items later (.tail _ member)
    -- a batch holds a sequence once, so a later item is of an entry that stays as it was
    have other : row.id ≠ item.id := by
      rw [same]
      intro here
      exact absent (here ▸ List.mem_map_of_mem member)
    exact ⟨row, (rows row).mpr (.inr ⟨old, other⟩), same, kind, open_⟩
  · have before := ((Keyed.perm_of_find found).map remaining).sum_eq
    have later := ((Keyed.update_perm found fun _ => Workloads.served entry).map remaining).sum_eq
    rw [List.map_cons, List.sum_cons] at before later
    rw [backlog, backlog]
    dsimp only
    omega

/-- The scheduler after the completion of an item: one entry is served. -/
theorem complete_entries {item : BatchItem}
    (scheduling : Scheduling live (item :: pending) scheduler) :
    (scheduler.complete item.id 1 (decide (item.work = .decode))).2 = { scheduler with
      entries := scheduler.entries.map fun entry =>
        if entry.id = item.id then Workloads.served entry else entry } := by
  obtain ⟨entry, present, named, _, _, completed⟩ := scheduling.complete_call
  have found : Keyed.find Entry.id scheduler.entries item.id = some entry :=
    Keyed.find_of_mem scheduling.unique present named
  have same := Keyed.update_congr (f := fun _ => Workloads.served entry)
    (g := Workloads.served) found rfl
  rw [completed, same, Keyed.update_eq_map scheduling.unique]

end Scheduling

end MarketForge.Workloads
