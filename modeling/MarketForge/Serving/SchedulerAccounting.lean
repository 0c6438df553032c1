import MarketForge.Serving.SchedulerLifecycle
import Mathlib.Algebra.BigOperators.Group.List.Basic

/-!
# Work accounting of the scheduler

The history of a run determines what became of the work of a sequence: the batch items handed
out, the completions taken and the tokens committed. `WorkAccounts` ties these to the entry:
what is handed out and not completed is the one item in flight, and the generated tokens are
those committed. Completions name a sequence only, so this rests on the flags of its entry.
-/
namespace MarketForge.Serving

abbrev SchedulerEvent := Transition.Event SequenceScheduler SchedulerCall SchedulerReply

namespace SchedulerEvent

/-- The batch items that an event hands out for a sequence. -/
def dispatches (id : SequenceId) (event : SchedulerEvent) : Nat :=
  match event.reply with
  | .batch (.ok batch) => (batch.items.map BatchItem.id).count id
  | _ => 0

/-- One for a completion of the sequence that returned success. -/
def completes (id : SequenceId) (event : SchedulerEvent) : Nat :=
  match event.call, event.reply with
  | .complete target _ _, .status status => if target = id ∧ status.isOk then 1 else 0
  | _, _ => 0

/-- Whether a cancellation of the sequence was pending when the call came. -/
def cancelling (id : SequenceId) (event : SchedulerEvent) : Bool :=
  (event.before.find id).any Entry.cancelPending

/-- The tokens emitted by a successful completion that no cancellation absorbed. -/
def commits (id : SequenceId) (event : SchedulerEvent) : Nat :=
  match event.call, event.reply with
  | .complete target emitted _, .status status =>
    if target = id ∧ status.isOk ∧ ¬ event.cancelling id then emitted.toNat else 0
  | _, _ => 0

end SchedulerEvent

/-- Whether the sequence has an entry in flight. -/
def SequenceScheduler.flying (scheduler : SequenceScheduler) (id : SequenceId) : Bool :=
  (scheduler.find id).any Entry.inFlight

def SequenceScheduler.generated (scheduler : SequenceScheduler) (id : SequenceId) : Nat :=
  (scheduler.find id).elim 0 fun entry => entry.generatedTokens.toNat

/-- What one event does to the accounts of a sequence. -/
structure EventAccounts (id : SequenceId) (event : SchedulerEvent)
    (after : SequenceScheduler) : Prop where
  outstanding : (event.before.flying id).toNat + event.dispatches id =
    event.completes id + (after.flying id).toNat
  generated : event.before.generated id + event.commits id = after.generated id

/-- The accounts of a sequence over a history. -/
structure WorkAccounts (id : SequenceId) (history : List SchedulerEvent)
    (scheduler : SequenceScheduler) : Prop where
  outstanding : (history.map (SchedulerEvent.dispatches id)).sum =
    (history.map (SchedulerEvent.completes id)).sum + (scheduler.flying id).toNat
  generated : (history.map (SchedulerEvent.commits id)).sum = scheduler.generated id

/-! ### Accounts of one event -/

/-- An event that hands out and takes back nothing leaves the accounts alone when it leaves the
entry alone. -/
theorem EventAccounts.quiet {id : SequenceId} {event : SchedulerEvent}
    {after : SequenceScheduler} (dispatches : event.dispatches id = 0)
    (completes : event.completes id = 0) (commits : event.commits id = 0)
    (flying : after.flying id = event.before.flying id)
    (generated : after.generated id = event.before.generated id) :
    EventAccounts id event after := by
  constructor
  · rw [dispatches, completes, flying]
    omega
  · rw [commits, generated]
    omega

/-- For a sequence found before and after, the accounts are about its entry. -/
theorem EventAccounts.of_find {id : SequenceId} {event : SchedulerEvent}
    {scheduler : SequenceScheduler} {entry after : Entry}
    (found : event.before.find id = some entry) (kept : scheduler.find id = some after)
    (outstanding : entry.inFlight.toNat + event.dispatches id =
      event.completes id + after.inFlight.toNat)
    (generated : entry.generatedTokens.toNat + event.commits id = after.generatedTokens.toNat) :
    EventAccounts id event scheduler := by
  constructor
  · simpa [SequenceScheduler.flying, found, kept] using outstanding
  · simpa [SequenceScheduler.generated, found, kept] using generated

theorem EventAccounts.failed {id : SequenceId} {scheduler : SequenceScheduler}
    {call : SchedulerCall} {reply : SchedulerReply} (failed : reply.failed = true) :
    EventAccounts id ⟨scheduler, call, reply⟩ scheduler := by
  cases reply with
  | status status =>
    have unsuccessful : status.isOk = false := by simpa [SchedulerReply.failed] using failed
    cases call <;> refine .quiet ?_ ?_ ?_ rfl rfl <;>
      simp [SchedulerEvent.dispatches, SchedulerEvent.completes, SchedulerEvent.commits,
        unsuccessful]
  | batch result =>
    cases result with
    | error status => cases call <;> exact .quiet rfl rfl rfl rfl rfl
    | ok batch => cases failed

/-- The items of a batch carry distinct ids: an entry has one exactly if it is selected. -/
theorem batchItems_count {entries : List Entry} (unique : (entries.map Entry.id).Nodup)
    {selected : List Nat} (distinct : selected.Nodup) {index : Nat} {entry : Entry}
    (at_index : entries[index]? = some entry) :
    ((batchItems entries selected).map BatchItem.id).count entry.id =
      if index ∈ selected then 1 else 0 := by
  have same_index : ∀ (i j : Nat) (id : SequenceId), entries[i]?.map Entry.id = some id →
      entries[j]?.map Entry.id = some id → i = j := by
    intro i j id first second
    rw [← List.getElem?_map] at first second
    exact (List.getElem?_inj (List.getElem?_eq_some_iff.mp first).1 unique).mp
      (first.trans second.symm)
  rw [batchItems_map entries selected BatchItem.id Entry.id fun _ _ => rfl]
  rw [(distinct.filterMap fun i j id first second => same_index i j id first second).count]
  congr 1
  rw [List.mem_filterMap, eq_iff_iff]
  constructor
  · rintro ⟨i, member, read⟩
    rwa [← same_index i index _ read (by simp [at_index])]
  · intro member
    exact ⟨index, member, by simp [at_index]⟩

theorem batchItems_count_absent {entries : List Entry} {selected : List Nat} {id : SequenceId}
    (absent : id ∉ entries.map Entry.id) :
    ((batchItems entries selected).map BatchItem.id).count id = 0 := by
  rw [List.count_eq_zero]
  intro member
  obtain ⟨item, listed, rfl⟩ := List.mem_map.mp member
  obtain ⟨_, _, entry, at_index, same, _⟩ := mem_batchItems listed
  rw [same] at absent
  exact absent (List.mem_map_of_mem (List.mem_of_getElem? at_index))

/-- Finding an entry after a batch was dispatched. -/
theorem find_dispatched {scheduler : SequenceScheduler}
    (unique : (scheduler.entries.map Entry.id).Nodup) {selected : List Nat} {index : Nat}
    {entry : Entry} (at_index : scheduler.entries[index]? = some entry)
    {after : SequenceScheduler}
    (entries : after.entries = scheduler.entries.mapIdx fun index entry =>
      if index ∈ selected then entry.dispatched else entry)
    (ids : after.entries.map Entry.id = scheduler.entries.map Entry.id) :
    after.find entry.id = some (if index ∈ selected then entry.dispatched else entry) := by
  refine Keyed.find_of_mem (by rwa [ids]) ?_ (by split <;> rfl)
  obtain ⟨bound, rfl⟩ := List.getElem?_eq_some_iff.mp at_index
  rw [entries]
  exact List.mem_mapIdx.mpr ⟨index, bound, rfl⟩

theorem find_none_of_ids {scheduler after : SequenceScheduler} {id : SequenceId}
    (ids : after.entries.map Entry.id = scheduler.entries.map Entry.id)
    (absent : scheduler.find id = none) : after.find id = none := by
  apply Keyed.find_eq_none_iff.mpr
  intro entry member same
  have listed : id ∈ after.entries.map Entry.id := same ▸ List.mem_map_of_mem member
  rw [ids] at listed
  exact Keyed.not_mem_keys_of_find absent listed

/-- What the named entry does to the accounts of its sequence. -/
theorem EntryEffect.accounts {entry after : Entry} {call : SchedulerCall} {id : SequenceId}
    {before scheduler : SequenceScheduler} (sound : EntryLifecycle entry)
    (effect : EntryEffect entry call after) (named : call.target = some id)
    (found : before.find id = some entry) (kept : scheduler.find id = some after) :
    EventAccounts id ⟨before, call, .status .success⟩ scheduler := by
  cases effect with
  | absorbed inFlight pending =>
    obtain rfl : _ = id := Option.some_inj.mp named
    refine .of_find found kept ?_ ?_
    · simp [inFlight, SchedulerEvent.dispatches, SchedulerEvent.completes]
    · simp [SchedulerEvent.commits, SchedulerEvent.cancelling, found, pending]
  | committed inFlight settled progress budget =>
    obtain rfl : _ = id := Option.some_inj.mp named
    refine .of_find found kept ?_ ?_
    · simp [inFlight, SchedulerEvent.dispatches, SchedulerEvent.completes]
    · simp [(sound.generated_toNat budget).1, SchedulerEvent.commits, SchedulerEvent.cancelling,
        found, settled]
  | paused | pausedAgain | resumed | cancelledAgain | cancelRequested | cancelled =>
    exact .of_find found kept (Nat.add_comm _ _) rfl

/-- A call that names another sequence does not touch the accounts of this one. -/
theorem EventAccounts.other {id target : SequenceId} {scheduler after : SequenceScheduler}
    {call : SchedulerCall} (named : call.target = some target) (other : target ≠ id)
    (kept : after.find id = scheduler.find id) :
    EventAccounts id ⟨scheduler, call, .status .success⟩ after := by
  refine .quiet rfl ?_ ?_ (by simp [SequenceScheduler.flying, kept])
    (by simp [SequenceScheduler.generated, kept])
  · cases call with
    | complete => simp [SchedulerEvent.completes, Option.some_inj.mp named, other]
    | _ => rfl
  · cases call with
    | complete => simp [SchedulerEvent.commits, Option.some_inj.mp named, other]
    | _ => rfl

/-- A dispatch puts one item out for each selected entry, which was not in flight. -/
theorem EventAccounts.dispatched {scheduler after : SequenceScheduler}
    (sound : SchedulerInvariant scheduler) {alloc : Allocator} {maximumSequences : Nat}
    {generation : UInt64} {selected : List Nat}
    (selection : selected = scheduler.waiting.take maximumSequences)
    (entries : after.entries = scheduler.entries.mapIdx fun index entry =>
      if index ∈ selected then entry.dispatched else entry) {id : SequenceId} :
    EventAccounts id ⟨scheduler, .schedule alloc maximumSequences,
      .batch (.ok ⟨generation, batchItems scheduler.entries selected⟩)⟩ after := by
  have ids := mapIdx_dispatched_ids scheduler.entries selected
  rw [← entries] at ids
  cases found : scheduler.find id with
  | none =>
    have absent := find_none_of_ids ids found
    refine .quiet (batchItems_count_absent (Keyed.not_mem_keys_of_find found)) rfl rfl ?_ ?_
    · simp [SequenceScheduler.flying, found, absent]
    · simp [SequenceScheduler.generated, found, absent]
  | some entry =>
    obtain rfl := Keyed.find_key found
    obtain ⟨index, at_index⟩ := List.mem_iff_getElem?.mp (Keyed.find_mem found)
    have distinct : selected.Nodup := selection ▸ (waiting_nodup scheduler).take
    have count := batchItems_count sound.unique distinct at_index
    have kept := find_dispatched sound.unique at_index entries ids
    by_cases chosen : index ∈ selected
    · rw [if_pos chosen] at kept
      refine .of_find found kept ?_ rfl
      have runs : isRunnable entry = true := by
        rw [selection] at chosen
        obtain ⟨_, read, runs⟩ := mem_waiting.mp (List.mem_of_mem_take chosen)
        rwa [Option.some_inj.mp (at_index.symm.trans read)]
      have idle := (EntryLifecycle.runnable_phase runs).1
      simp [SchedulerEvent.dispatches, SchedulerEvent.completes, count, chosen, idle,
        Entry.dispatched]
    · rw [if_neg chosen] at kept
      refine .of_find found kept ?_ rfl
      simp [SchedulerEvent.dispatches, SchedulerEvent.completes, count, chosen]

/-- Every event balances the accounts of every sequence. -/
theorem SchedulerEffect.accounts {scheduler after : SequenceScheduler} {call : SchedulerCall}
    {reply : SchedulerReply} (sound : SchedulerInvariant scheduler)
    (effect : SchedulerEffect scheduler call reply after) (id : SequenceId) :
    EventAccounts id ⟨scheduler, call, reply⟩ after := by
  cases effect with
  | refused failed => exact .failed failed
  | @enqueued alloc request proper fits fresh =>
    -- The entry of `id` is the old one, or the new one, which is idle and has generated nothing.
    have split : ∀ fresh : Entry, Keyed.find Entry.id (scheduler.entries ++ [fresh]) id =
        (scheduler.find id).or (if fresh.id = id then some fresh else none) := by
      intro fresh
      simp [SequenceScheduler.find, Keyed.find, List.find?_singleton]
    refine .quiet rfl rfl rfl ?_ ?_
    · simp only [SequenceScheduler.flying]
      rw [SequenceScheduler.find, split]
      cases scheduler.find id <;> by_cases new : request.id = id <;> simp [Entry.id, new]
    · simp only [SequenceScheduler.generated]
      rw [SequenceScheduler.find, split]
      cases scheduler.find id <;> by_cases new : request.id = id <;> simp [Entry.id, new]
  | idle => exact .quiet rfl rfl rfl rfl rfl
  | @dispatched alloc maximumSequences last selected asked selection final room =>
    exact .dispatched sound selection rfl
  | @updated call target entry after named found effect =>
    have keeps : after.id = target := effect.id_eq.trans (Keyed.find_key found)
    by_cases own : target = id
    · subst own
      exact effect.accounts (sound.entries _ (Keyed.find_mem found)) named found
        (Keyed.find_update_self found keeps)
    · exact .other named own (Keyed.find_update_other keeps (Ne.symm own))

/-! ### Accounts of a run -/

theorem WorkAccounts.extend {id : SequenceId} {history : List SchedulerEvent}
    {event : SchedulerEvent} {after : SequenceScheduler}
    (accounts : WorkAccounts id history event.before) (balanced : EventAccounts id event after) :
    WorkAccounts id (history ++ [event]) after := by
  obtain ⟨outstanding, generated⟩ := accounts
  obtain ⟨moved, committed⟩ := balanced
  constructor
  · simp only [List.map_append, List.sum_append, List.map_singleton, List.sum_singleton]
    omega
  · simp only [List.map_append, List.sum_append, List.map_singleton, List.sum_singleton]
    omega

theorem WorkAccounts.run (calls : List SchedulerCall) (id : SequenceId) :
    WorkAccounts id (schedulerMachine.history {} calls) (schedulerMachine.run {} calls) := by
  have related := schedulerMachine.history_invariant
    (fun history scheduler => SchedulerInvariant scheduler ∧ WorkAccounts id history scheduler)
    ?_ {} ⟨.run [], ⟨rfl, rfl⟩⟩ calls
  · exact related.2
  · rintro history scheduler call ⟨sound, accounts⟩
    have effect := schedulerStep_effect scheduler call
    exact ⟨sound.step call, accounts.extend (effect.accounts sound id)⟩

/-- After every run and for every sequence: the items handed out are the completions taken and
the item in flight, so at most one is outstanding; the generated tokens are those of the
completions that no cancellation absorbed, and they stay within the budget. -/
theorem work_accounted (calls : List SchedulerCall) (id : SequenceId) :
    let history := schedulerMachine.history {} calls
    let scheduler := schedulerMachine.run {} calls
    let dispatched := (history.map (SchedulerEvent.dispatches id)).sum
    let completed := (history.map (SchedulerEvent.completes id)).sum
    let committed := (history.map (SchedulerEvent.commits id)).sum
    dispatched = completed + (if scheduler.flying id then 1 else 0) ∧
      dispatched ≤ completed + 1 ∧ committed = scheduler.generated id ∧
      ∀ entry, scheduler.find id = some entry →
        entry.generatedTokens.toNat = committed ∧
          committed ≤ entry.request.maxOutputTokens.toNat := by
  intro history scheduler dispatched completed committed
  have sound : SchedulerInvariant scheduler := .run calls
  obtain ⟨outstanding, generated⟩ : WorkAccounts id history scheduler := .run calls id
  refine ⟨?_, ?_, generated, ?_⟩
  · change dispatched = completed + (scheduler.flying id).toNat at outstanding
    rw [outstanding]
    cases scheduler.flying id <;> rfl
  · have bound := Bool.toNat_le (scheduler.flying id)
    change dispatched = completed + _ at outstanding
    omega
  · intro entry found
    have tokens : scheduler.generated id = entry.generatedTokens.toNat := by
      simp [SequenceScheduler.generated, found]
    have budget := (sound.entries entry (Keyed.find_mem found)).budget
    rw [UInt32.le_iff_toNat_le] at budget
    change committed = _ at generated
    exact ⟨by omega, by omega⟩

end MarketForge.Serving
