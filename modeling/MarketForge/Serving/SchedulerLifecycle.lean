import MarketForge.Serving.SchedulerEffects

/-!
# The lifecycle of scheduled sequences

`EntryLifecycle` is what holds of every entry after any run: which flags a phase allows, and the
token counts that go with it. From it follow that the context of a batch item is added without
wrapping and that the counters of a snapshot partition the entries.
-/
namespace MarketForge.Serving

/-- The token counts that a phase allows. -/
def Entry.tokensFit (entry : Entry) : SequencePhase → Prop
  | .queued => entry.generatedTokens = 0
  | .decoding =>
    0 < entry.generatedTokens ∧ entry.generatedTokens < entry.request.maxOutputTokens
  | .paused | .finished | .cancelled => True

/-- What holds of an entry between calls. -/
structure EntryLifecycle (entry : Entry) : Prop where
  named : entry.id ≠ 0
  pending : entry.cancelPending = true → entry.inFlight = true
  flying : entry.inFlight = true → entry.phase = .queued ∨ entry.phase = .decoding
  tokens : entry.tokensFit entry.phase
  resumable : entry.phase = .paused →
    (entry.resumePhase = .queued ∨ entry.resumePhase = .decoding) ∧
      entry.tokensFit entry.resumePhase
  budget : entry.generatedTokens ≤ entry.request.maxOutputTokens
  fits : entry.request.promptTokens.toNat + entry.request.maxOutputTokens.toNat < UInt32.size

/-- The counters of a snapshot split the entries. -/
structure SnapshotPartition (snapshot : SchedulerSnapshot) : Prop where
  settled : snapshot.sequenceCount =
    snapshot.residentCount + snapshot.finishedCount + snapshot.cancelledCount
  residents : snapshot.residentCount =
    snapshot.runnableCount + snapshot.inFlightCount + snapshot.pausedCount

/-- The next batch states, for each of its items, the full context of the entry. -/
def ContextsExact (scheduler : SequenceScheduler) : Prop :=
  ∀ alloc maximumSequences batch,
    (scheduler.schedule alloc maximumSequences).1 = .ok batch → ∀ item ∈ batch.items,
      ∃ entry, scheduler.find item.id = some entry ∧
        item.contextTokens.toNat =
          entry.request.promptTokens.toNat + entry.generatedTokens.toNat

namespace EntryLifecycle

theorem enqueued {request : SequenceRequest} (proper : request.id ≠ 0)
    (fits : request.promptTokens.toNat + request.maxOutputTokens.toNat < UInt32.size) :
    EntryLifecycle { request := request } where
  named := proper
  pending := by simp
  flying := by simp
  tokens := rfl
  resumable := by simp
  budget := UInt32.zero_le
  fits := fits

theorem runnable_phase {entry : Entry} (runs : isRunnable entry = true) :
    entry.inFlight = false ∧ entry.cancelPending = false ∧
      (entry.phase = .queued ∨ entry.phase = .decoding) := by
  simpa [isRunnable, and_assoc] using runs

theorem dispatched {entry : Entry} (sound : EntryLifecycle entry)
    (runs : isRunnable entry = true) : EntryLifecycle entry.dispatched where
  named := sound.named
  pending := fun _ => rfl
  flying := fun _ => (runnable_phase runs).2.2
  tokens := sound.tokens
  resumable := sound.resumable
  budget := sound.budget
  fits := sound.fits

/-- Emitted tokens within the budget are added without wrapping. -/
theorem generated_toNat {entry : Entry} (sound : EntryLifecycle entry) {emitted : UInt32}
    (budget : emitted ≤ entry.request.maxOutputTokens - entry.generatedTokens) :
    (entry.generatedTokens + emitted).toNat = entry.generatedTokens.toNat + emitted.toNat ∧
      entry.generatedTokens.toNat + emitted.toNat ≤ entry.request.maxOutputTokens.toNat := by
  have within := sound.budget
  rw [UInt32.le_iff_toNat_le, UInt32.toNat_sub_of_le _ _ within] at budget
  have small := entry.request.maxOutputTokens.toNat_lt
  rw [UInt32.le_iff_toNat_le] at within
  rw [UInt32.toNat_add]
  omega

theorem effect {entry after : Entry} {call : SchedulerCall} (sound : EntryLifecycle entry)
    (effect : EntryEffect entry call after) : EntryLifecycle after := by
  cases effect with
  | absorbed inFlight pending =>
    exact { sound with
      pending := by simp
      flying := by simp
      tokens := trivial
      resumable := by simp }
  | @committed _ emitted terminal inFlight settled progress budget =>
    obtain ⟨exact_sum, within⟩ := sound.generated_toNat budget
    refine { sound with
      pending := by simp [settled]
      flying := by simp
      tokens := ?_
      resumable := by dsimp only; split <;> simp
      budget := by simpa [UInt32.le_iff_toNat_le, exact_sum] using within }
    -- A sequence that goes on has emitted something and has some budget left.
    dsimp only
    split
    next => trivial
    next continues =>
      rw [not_or] at continues
      have emits : emitted ≠ 0 := progress.resolve_right continues.1
      have positive : emitted.toNat ≠ 0 := fun zero => emits (UInt32.toNat_inj.mp zero)
      have below := mt UInt32.toNat_inj.mp continues.2
      constructor
      · simp only [UInt32.lt_iff_toNat_lt, exact_sum, UInt32.toNat_zero]
        omega
      · simp only [UInt32.lt_iff_toNat_lt, exact_sum] at below ⊢
        omega
  | paused idle live =>
    exact { sound with
      flying := by simp [idle]
      tokens := trivial
      resumable := fun _ => ⟨live, sound.tokens⟩ }
  | pausedAgain paused => exact sound
  | resumed paused =>
    obtain ⟨live, fit⟩ := sound.resumable paused
    exact { sound with
      flying := fun _ => live
      tokens := fit
      resumable := fun stays => by rcases live with h | h <;> simp [h] at stays }
  | cancelledAgain cancelled => exact sound
  | cancelRequested inFlight live =>
    exact { sound with pending := fun _ => inFlight }
  | cancelled idle live =>
    exact { sound with
      flying := by simp [idle]
      tokens := trivial
      resumable := by simp }

/-- The context of an item fits 32 bits. -/
theorem contextTokens_toNat {entry : Entry} (sound : EntryLifecycle entry) :
    entry.contextTokens.toNat =
      entry.request.promptTokens.toNat + entry.generatedTokens.toNat := by
  have within := UInt32.le_iff_toNat_le.mp sound.budget
  have fits := sound.fits
  rw [Entry.contextTokens, UInt32.toNat_add]
  exact Nat.mod_eq_of_lt (by simp only [UInt32.size] at fits; omega)

/-- An entry that is not settled is counted once: as runnable, as in flight or as paused. -/
theorem resident {entry : Entry} (sound : EntryLifecycle entry) :
    (if (!isTerminal entry.phase) = true then 1 else 0) =
      (if isRunnable entry = true then 1 else 0) + (if entry.inFlight = true then 1 else 0) +
        (if (entry.phase == .paused) = true then 1 else 0) := by
  have flying := sound.flying
  have pending := sound.pending
  cases phase : entry.phase <;> cases inFlight : entry.inFlight <;>
    simp_all [isTerminal, isRunnable]

end EntryLifecycle

/-! ### The scheduler -/

theorem EntryEffect.id_eq {entry after : Entry} {call : SchedulerCall}
    (effect : EntryEffect entry call after) : after.id = entry.id := by
  cases effect <;> rfl

/-- A dispatch keeps what does not depend on the flag and the work of the entries in flight. -/
theorem mapIdx_dispatched_map {β : Type} (g : Entry → β)
    (keeps : ∀ entry : Entry, g entry.dispatched = g entry) (entries : List Entry)
    (selected : List Nat) :
    (entries.mapIdx fun index entry =>
      if index ∈ selected then entry.dispatched else entry).map g = entries.map g := by
  refine List.ext_getElem? fun index => ?_
  simp only [List.getElem?_map, List.getElem?_mapIdx, Option.map_map]
  refine congrArg (fun f => Option.map f _) (funext fun entry => ?_)
  simp only [Function.comp_apply]
  split
  next => exact keeps entry
  next => rfl

theorem mapIdx_dispatched_ids (entries : List Entry) (selected : List Nat) :
    (entries.mapIdx fun index entry =>
      if index ∈ selected then entry.dispatched else entry).map Entry.id =
        entries.map Entry.id :=
  mapIdx_dispatched_map Entry.id (fun _ => rfl) entries selected

/-- The ids are those of before, with that of a new entry at the end. -/
theorem SchedulerEffect.ids {scheduler after : SequenceScheduler} {call : SchedulerCall}
    {reply : SchedulerReply} (effect : SchedulerEffect scheduler call reply after) :
    after.entries.map Entry.id = scheduler.entries.map Entry.id ∨
      ∃ id, scheduler.find id = none ∧
        after.entries.map Entry.id = scheduler.entries.map Entry.id ++ [id] := by
  cases effect with
  | refused => exact .inl rfl
  | enqueued proper fits fresh => exact .inr ⟨_, fresh, by simp [Entry.id]⟩
  | idle => exact .inl rfl
  | dispatched => exact .inl (mapIdx_dispatched_ids _ _)
  | updated named found effect =>
    exact .inl (Keyed.replace_keys _ (effect.id_eq.trans (Keyed.find_key found)))

/-- Every entry is new, unchanged, put in flight or moved by the call. -/
theorem SchedulerEffect.entries {scheduler after : SequenceScheduler} {call : SchedulerCall}
    {reply : SchedulerReply} (unique : (scheduler.entries.map Entry.id).Nodup)
    (effect : SchedulerEffect scheduler call reply after) {entry : Entry}
    (member : entry ∈ after.entries) :
    (∃ request : SequenceRequest, entry = { request := request } ∧ request.id ≠ 0 ∧
        request.promptTokens.toNat + request.maxOutputTokens.toNat < UInt32.size) ∨
      ∃ source ∈ scheduler.entries, entry = source ∨
        (entry = source.dispatched ∧ isRunnable source = true) ∨
        EntryEffect source call entry := by
  cases effect with
  | refused => exact .inr ⟨entry, member, .inl rfl⟩
  | enqueued proper fits fresh =>
    rcases List.mem_append.mp member with old | new
    · exact .inr ⟨entry, old, .inl rfl⟩
    · exact .inl ⟨_, List.mem_singleton.mp new, proper, fits⟩
  | idle => exact .inr ⟨entry, member, .inl rfl⟩
  | dispatched asked selection =>
    obtain ⟨index, bound, rfl⟩ := List.mem_mapIdx.mp member
    refine .inr ⟨scheduler.entries[index], List.getElem_mem bound, ?_⟩
    split
    next chosen =>
      -- Only waiting entries are selected.
      rw [selection] at chosen
      obtain ⟨source, at_index, runs⟩ := mem_waiting.mp (List.mem_of_mem_take chosen)
      obtain ⟨_, rfl⟩ := List.getElem?_eq_some_iff.mp at_index
      exact .inr (.inl ⟨rfl, runs⟩)
    next => exact .inl rfl
  | updated named found effect =>
    rcases (Keyed.mem_update_iff unique found _ entry).mp member with rfl | ⟨old, _⟩
    · exact .inr ⟨_, Keyed.find_mem found, .inr (.inr effect)⟩
    · exact .inr ⟨entry, old, .inl rfl⟩

/-- What holds of the scheduler between calls. -/
structure SchedulerInvariant (scheduler : SequenceScheduler) : Prop where
  unique : (scheduler.entries.map Entry.id).Nodup
  entries : ∀ entry ∈ scheduler.entries, EntryLifecycle entry

namespace SchedulerInvariant

theorem step {scheduler : SequenceScheduler} (sound : SchedulerInvariant scheduler)
    (call : SchedulerCall) : SchedulerInvariant (schedulerStep scheduler call).2 := by
  have effect := schedulerStep_effect scheduler call
  constructor
  · rcases effect.ids with same | ⟨id, fresh, extended⟩
    · rw [same]
      exact sound.unique
    · rw [extended, ← List.concat_eq_append]
      exact sound.unique.concat (Keyed.not_mem_keys_of_find fresh)
  · intro entry member
    rcases effect.entries sound.unique member with ⟨request, rfl, proper, fits⟩ |
      ⟨source, old, rfl | ⟨rfl, runs⟩ | moved⟩
    · exact .enqueued proper fits
    · exact sound.entries _ old
    · exact (sound.entries source old).dispatched runs
    · exact (sound.entries source old).effect moved

theorem run (calls : List SchedulerCall) : SchedulerInvariant (schedulerMachine.run {} calls) :=
  schedulerMachine.run_invariant SchedulerInvariant (fun _ call sound => sound.step call) {}
    ⟨List.nodup_nil, by simp⟩ calls

/-- The flags decide in which counter of the snapshot an entry is counted. -/
theorem partition {scheduler : SequenceScheduler} (sound : SchedulerInvariant scheduler) :
    SnapshotPartition scheduler.snapshot := by
  obtain ⟨_, entries⟩ := sound
  unfold SequenceScheduler.snapshot
  generalize scheduler.entries = table at entries ⊢
  induction table with
  | nil => exact ⟨rfl, rfl⟩
  | cons entry rest ih =>
    obtain ⟨settled, residents⟩ := ih fun e member => entries e (.tail _ member)
    have resident := (entries entry List.mem_cons_self).resident
    simp only [List.countP_cons, List.length_cons] at settled residents ⊢
    constructor
    · cases phase : entry.phase <;> simp [isTerminal] at settled ⊢ <;> omega
    · dsimp only
      omega

/-- Every item of a batch is the item of the entry with its id. -/
theorem contexts {scheduler : SequenceScheduler} (sound : SchedulerInvariant scheduler) :
    ContextsExact scheduler := by
  intro alloc maximumSequences batch scheduled item member
  have effect := @schedule_effect scheduler alloc maximumSequences
  rw [scheduled] at effect
  generalize (scheduler.schedule alloc maximumSequences).2 = after at effect
  cases effect with
  | refused failed => cases failed
  | idle => cases member
  | dispatched =>
    obtain ⟨index, _, entry, at_index, id, _, context⟩ := mem_batchItems member
    have old := List.mem_of_getElem? at_index
    refine ⟨entry, Keyed.find_of_mem sound.unique old id.symm, ?_⟩
    rw [context, (sound.entries entry old).contextTokens_toNat]

end SchedulerInvariant

/-- After any run from the empty scheduler the ids are unique, every entry is in a possible
combination of phase, flags and token counts, the next batch states exact contexts and the
snapshot is a partition. -/
theorem lifecycle_sound (calls : List SchedulerCall) :
    let scheduler := schedulerMachine.run {} calls
    (scheduler.entries.map Entry.id).Nodup ∧
      (∀ entry ∈ scheduler.entries, EntryLifecycle entry) ∧ ContextsExact scheduler ∧
      SnapshotPartition scheduler.snapshot := by
  have sound := SchedulerInvariant.run calls
  exact ⟨sound.unique, sound.entries, sound.contexts, sound.partition⟩

end MarketForge.Serving
