import MarketForge.Serving.SchedulerBatches

/-!
# What a run does to one sequence

`EntryStep` lists what an event does to the entry of one sequence, with the item it dispatches. From
it follow the trace of the items of a sequence: one prefill of the prompt, then decodes whose
context is the prompt with the tokens committed before, each larger than the last.
-/
namespace MarketForge.Serving

/-- The batch items that an event hands out for a sequence. -/
def SchedulerEvent.items (id : SequenceId) (event : SchedulerEvent) : List BatchItem :=
  match event.reply with
  | .batch (.ok batch) => batch.items.filter fun item => item.id = id
  | _ => []

/-- What an event does to the entry of a sequence. -/
inductive EntryStep (id : SequenceId) (event : SchedulerEvent) :
    Option Entry → Option Entry → Prop
  | kept {found : Option Entry} (items : event.items id = [])
      (other : event.reply.failed = true ∨ event.call.target ≠ some id) :
      EntryStep id event found found
  | enqueued {request : SequenceRequest} (items : event.items id = [])
      (untargeted : event.call.target = none)
      (fits : request.promptTokens.toNat + request.maxOutputTokens.toNat < UInt32.size) :
      EntryStep id event none (some { request := request })
  | dispatched {entry : Entry} {slot : Nat} (runs : isRunnable entry = true)
      (untargeted : event.call.target = none)
      (items : event.items id = [⟨id, entry.work, entry.contextTokens, slot⟩]) :
      EntryStep id event (some entry) (some entry.dispatched)
  | moved {entry after : Entry} (items : event.items id = [])
      (named : event.call.target = some id) (succeeded : event.reply = .status .success)
      (effect : EntryEffect entry event.call after) :
      EntryStep id event (some entry) (some after)

/-- A duplicate-free list has one element that satisfies a condition that only it satisfies. -/
theorem filter_unique {α : Type} {items : List α} (distinct : items.Nodup) {item : α}
    (listed : item ∈ items) (condition : α → Bool) (holds : condition item = true)
    (only : ∀ other ∈ items, condition other = true → other = item) :
    items.filter condition = [item] := by
  refine List.perm_singleton.mp ?_
  refine (List.perm_ext_iff_of_nodup (distinct.filter _) (List.nodup_singleton _)).mpr ?_
  intro other
  rw [List.mem_filter, List.mem_singleton]
  constructor
  · rintro ⟨member, here⟩
    exact only other member here
  · rintro rfl
    exact ⟨listed, holds⟩

/-- The item of a selected entry. -/
theorem batchItems_of_selected {entries : List Entry} (unique : (entries.map Entry.id).Nodup)
    {selected : List Nat} (distinct : selected.Nodup) {index : Nat} {entry : Entry}
    (at_index : entries[index]? = some entry) (chosen : index ∈ selected) :
    ∃ slot, (batchItems entries selected).filter (fun item => item.id = entry.id) =
      [⟨entry.id, entry.work, entry.contextTokens, slot⟩] := by
  have ids := batchItems_distinct unique distinct
  have own := (mem_batchItems_ids unique at_index).mpr chosen
  obtain ⟨item, listed, same⟩ := List.mem_map.mp own
  obtain ⟨other, _, source, read, sameId, work, context⟩ := mem_batchItems listed
  have here : source = entry := by
    have sourceId : source.id = entry.id := sameId.symm.trans same
    exact List.inj_on_of_nodup_map unique (List.mem_of_getElem? read)
      (List.mem_of_getElem? at_index) sourceId
  subst here
  obtain ⟨itemId, itemWork, itemContext, slot⟩ := item
  obtain rfl : itemId = source.id := same
  obtain rfl : itemWork = source.work := work
  obtain rfl : itemContext = source.contextTokens := context
  refine ⟨slot, filter_unique ids.of_map listed _ (by simp) ?_⟩
  intro other member sameAgain
  exact List.inj_on_of_nodup_map ids member listed (by simpa using sameAgain)

/-- Every event does one of these things to the entry of every sequence. -/
theorem SchedulerEffect.entryStep {scheduler after : SequenceScheduler} {call : SchedulerCall}
    {reply : SchedulerReply} (sound : SchedulerInvariant scheduler)
    (effect : SchedulerEffect scheduler call reply after) (id : SequenceId) :
    EntryStep id ⟨scheduler, call, reply⟩ (scheduler.find id) (after.find id) := by
  cases effect with
  | refused failed =>
    -- a call that fails hands out nothing
    refine .kept ?_ (.inl failed)
    cases reply with
    | status status => rfl
    | batch result =>
      cases result with
      | error status => rfl
      | ok batch => cases failed
  | @enqueued alloc request proper fits fresh =>
    have found : ({ scheduler with entries := scheduler.entries ++ [{ request := request }] } :
        SequenceScheduler).find id =
          (scheduler.find id).or (if request.id = id then some { request := request } else none) :=
      Keyed.find_append _
    rw [found]
    -- the new entry is the one looked for, or behind all others
    by_cases own : request.id = id
    · subst own
      rw [fresh, if_pos rfl]
      exact .enqueued rfl rfl fits
    · rw [if_neg own, Option.or_none]
      exact .kept rfl (.inr (by simp [SchedulerCall.target]))
  | idle => exact .kept rfl (.inr (by simp [SchedulerCall.target]))
  | @dispatched alloc maximumSequences last selected asked selection final room =>
    have ids := mapIdx_dispatched_ids scheduler.entries selected
    cases found : scheduler.find id with
    | none =>
      -- an id that no entry has is the id of no item
      rw [find_none_of_ids ids found]
      refine .kept ?_ (.inr (by simp [SchedulerCall.target]))
      rw [SchedulerEvent.items, List.filter_eq_nil_iff]
      intro item listed
      obtain ⟨_, _, entry, at_index, same, _⟩ := mem_batchItems listed
      have absent := Keyed.find_eq_none_iff.mp found entry (List.mem_of_getElem? at_index)
      rw [same]
      simpa using absent
    | some entry =>
      obtain rfl := Keyed.find_key found
      obtain ⟨index, at_index⟩ := List.mem_iff_getElem?.mp (Keyed.find_mem found)
      -- the entry is dispatched with one item when its index was selected, and kept when not
      have distinct : selected.Nodup := selection ▸ (waiting_nodup scheduler).take
      rw [find_dispatched sound.unique at_index rfl ids]
      by_cases chosen : index ∈ selected
      · have runs : isRunnable entry = true := by
          rw [selection] at chosen
          obtain ⟨_, read, runs⟩ := mem_waiting.mp (List.mem_of_mem_take chosen)
          rwa [Option.some_inj.mp (at_index.symm.trans read)]
        obtain ⟨slot, items⟩ := batchItems_of_selected sound.unique distinct at_index chosen
        rw [if_pos chosen]
        exact .dispatched runs rfl items
      · rw [if_neg chosen]
        refine .kept ?_ (.inr (by simp [SchedulerCall.target]))
        rw [SchedulerEvent.items, List.filter_eq_nil_iff]
        intro item listed own
        refine chosen ((mem_batchItems_ids sound.unique at_index).mp ?_)
        rw [← of_decide_eq_true own]
        exact List.mem_map_of_mem listed
  | @updated call target entry after named found effect =>
    -- an operation changes the entry it names, and no other
    have keeps : after.id = target := effect.id_eq.trans (Keyed.find_key found)
    by_cases own : target = id
    · subst own
      rw [found, SequenceScheduler.find, Keyed.find_update_self found keeps]
      exact .moved rfl named rfl effect
    · rw [SequenceScheduler.find, SequenceScheduler.find,
        Keyed.find_update_other keeps (Ne.symm own)]
      refine .kept rfl (.inr ?_)
      dsimp only
      rw [named]
      exact fun same => own (Option.some_inj.mp same)

/-! ### The trace of a sequence -/

/-- The items of a sequence in order, each with the tokens committed before it. -/
def dispatchTrace (id : SequenceId) : Nat → List SchedulerEvent → List (BatchItem × Nat)
  | _, [] => []
  | committed, event :: others =>
    (event.items id).map (·, committed) ++ dispatchTrace id (committed + event.commits id) others

theorem dispatch_trace_append (id : SequenceId) (committed : Nat) (history : List SchedulerEvent)
    (event : SchedulerEvent) :
    dispatchTrace id committed (history ++ [event]) = dispatchTrace id committed history ++
      (event.items id).map (·, committed + (history.map (SchedulerEvent.commits id)).sum) := by
  induction history generalizing committed with
  | nil => simp [dispatchTrace]
  | cons first others ih =>
    rw [List.cons_append, dispatchTrace, dispatchTrace, ih, List.map_cons, List.sum_cons,
      List.append_assoc, Nat.add_assoc]

/-- One prefill of the prompt, then decodes with growing contexts. -/
structure PrefilledOnce (promptTokens : Nat) (trace : List (BatchItem × Nat)) : Prop where
  first : ∀ item ∈ trace.head?, item.1.work = .prefill ∧ item.1.contextTokens.toNat = promptTokens
  later : ∀ item ∈ trace.tail, item.1.work = .decode
  contexts : ∀ item ∈ trace, item.1.contextTokens.toNat = promptTokens + item.2
  growing : (trace.map fun item => item.1.contextTokens.toNat).Pairwise (· < ·)

/-- The phase in which a paused sequence goes on. -/
def Entry.livePhase (entry : Entry) : SequencePhase :=
  if entry.phase = .paused then entry.resumePhase else entry.phase

/-- How far the trace of a sequence is, by the state of its entry. -/
structure Traced (entry : Entry) (trace : List (BatchItem × Nat)) : Prop where
  shaped : PrefilledOnce entry.request.promptTokens.toNat trace
  fresh : entry.inFlight = false → entry.livePhase = .queued → trace = []
  waiting : entry.inFlight = false → entry.livePhase = .decoding → trace ≠ [] ∧
    ∀ item ∈ trace, item.1.contextTokens.toNat <
      entry.request.promptTokens.toNat + entry.generatedTokens.toNat
  flying : entry.inFlight = true → trace ≠ [] ∧
    ∀ item ∈ trace, item.1.contextTokens.toNat ≤
      entry.request.promptTokens.toNat + entry.generatedTokens.toNat

theorem PrefilledOnce.nil (promptTokens : Nat) : PrefilledOnce promptTokens [] where
  first := fun _ listed => nomatch listed
  later := fun _ listed => nomatch listed
  contexts := fun _ listed => nomatch listed
  growing := List.Pairwise.nil

/-- The first item of a sequence. -/
theorem PrefilledOnce.singleton {promptTokens committed : Nat} {item : BatchItem}
    (work : item.work = .prefill) (context : item.contextTokens.toNat = promptTokens + committed)
    (none : committed = 0) : PrefilledOnce promptTokens [(item, committed)] := by
  subst none
  constructor
  case first => simp [work, context]
  case later => simp
  case contexts => simp [context]
  case growing => simp

/-- A later item of a sequence. -/
theorem PrefilledOnce.snoc {promptTokens committed : Nat} {trace : List (BatchItem × Nat)}
    {item : BatchItem} (shaped : PrefilledOnce promptTokens trace) (begun : trace ≠ [])
    (work : item.work = .decode) (context : item.contextTokens.toNat = promptTokens + committed)
    (larger : ∀ earlier ∈ trace, earlier.1.contextTokens.toNat < item.contextTokens.toNat) :
    PrefilledOnce promptTokens (trace ++ [(item, committed)]) := by
  obtain ⟨head, others, rfl⟩ := List.exists_cons_of_ne_nil begun
  constructor
  case first => exact shaped.first
  case later =>
    intro other listed
    rcases List.mem_append.mp listed with old | new
    · exact shaped.later other old
    · rw [List.mem_singleton.mp new]
      exact work
  case contexts =>
    intro other listed
    rcases List.mem_append.mp listed with old | new
    · exact shaped.contexts other old
    · rw [List.mem_singleton.mp new]
      exact context
  case growing =>
    rw [List.map_append, List.pairwise_append]
    refine ⟨shaped.growing, List.pairwise_singleton _ _, ?_⟩
    intro smaller earlier larger' last
    obtain ⟨other, listed, rfl⟩ := List.mem_map.mp earlier
    obtain rfl := List.mem_singleton.mp last
    exact larger other listed

/-- An entry that was just put in flight. -/
theorem Traced.dispatched {entry : Entry} {trace : List (BatchItem × Nat)} {id : SequenceId}
    {slot : Nat}
    (traced : Traced entry trace) (sound : EntryLifecycle entry)
    (runs : isRunnable entry = true) :
    Traced entry.dispatched
      (trace ++ [(⟨id, entry.work, entry.contextTokens, slot⟩,
        entry.generatedTokens.toNat)]) := by
  obtain ⟨idle, _, phase⟩ := EntryLifecycle.runnable_phase runs
  have context := sound.contextTokens_toNat
  have live : entry.livePhase = entry.phase := by
    rcases phase with queued | decoding
    · rw [Entry.livePhase, queued]
      rfl
    · rw [Entry.livePhase, decoding]
      rfl
  have smaller : ∀ item ∈ trace, item.1.contextTokens.toNat < entry.contextTokens.toNat := by
    rw [context]
    rcases phase with queued | decoding
    · simp [traced.fresh idle (live.trans queued)]
    · exact (traced.waiting idle (live.trans decoding)).2
  constructor
  case shaped =>
    rcases phase with queued | decoding
    · -- a queued entry has no item yet and has generated nothing
      have none : entry.generatedTokens = 0 := by
        have tokens := sound.tokens
        rwa [queued] at tokens
      rw [traced.fresh idle (live.trans queued)]
      refine .singleton ?_ context ?_
      · simp [Entry.work, queued]
      · rw [none]
        rfl
    · obtain ⟨begun, _⟩ := traced.waiting idle (live.trans decoding)
      exact traced.shaped.snoc begun (by simp [Entry.work, decoding]) context smaller
  case fresh => rintro ⟨⟩
  case waiting => rintro ⟨⟩
  case flying =>
    refine fun _ => ⟨by simp, ?_⟩
    intro item listed
    rcases List.mem_append.mp listed with old | new
    · exact (context ▸ smaller item old).le
    · rw [List.mem_singleton.mp new]
      exact context.le

/-- An operation on the entry adds no item, and leaves the trace as far as the entry says. -/
theorem Traced.moved {entry after : Entry} {call : SchedulerCall}
    {trace : List (BatchItem × Nat)} (traced : Traced entry trace) (sound : EntryLifecycle entry)
    (effect : EntryEffect entry call after) : Traced after trace := by
  cases effect with
  | absorbed inFlight pending =>
    exact ⟨traced.shaped, by simp [Entry.livePhase], by simp [Entry.livePhase], by simp⟩
  | @committed _ emitted terminal inFlight settled progress budget =>
    obtain ⟨exact_sum, _⟩ := sound.generated_toNat budget
    obtain ⟨begun, bounded⟩ := traced.flying inFlight
    refine ⟨traced.shaped, ?_, ?_, by simp⟩
    · intro _ live
      rw [Entry.livePhase] at live
      split at live <;> split at live <;> simp_all
    · -- a sequence that goes on has committed at least one token
      intro _ live
      have continues : terminal ≠ true := by
        rintro rfl
        simp [Entry.livePhase] at live
      have emits : emitted ≠ 0 := progress.resolve_right continues
      have positive : emitted.toNat ≠ 0 := fun zero => emits (UInt32.toNat_inj.mp zero)
      refine ⟨begun, fun item listed => ?_⟩
      have earlier := bounded item listed
      dsimp only
      omega
  | paused idle live =>
    have same : entry.livePhase = entry.phase := by
      rcases live with phase | phase <;> simp [Entry.livePhase, phase]
    exact ⟨traced.shaped, fun _ next => traced.fresh idle (same.trans next),
      fun _ next => traced.waiting idle (same.trans next), traced.flying⟩
  | pausedAgain paused => exact traced
  | resumed paused =>
    obtain ⟨live, _⟩ := sound.resumable paused
    have same : entry.livePhase = entry.resumePhase := by simp [Entry.livePhase, paused]
    have stays : ({ entry with phase := entry.resumePhase } : Entry).livePhase =
        entry.resumePhase := by
      rcases live with phase | phase <;> simp [Entry.livePhase, phase]
    exact ⟨traced.shaped, fun idle next => traced.fresh idle (same.trans (stays.symm.trans next)),
      fun idle next => traced.waiting idle (same.trans (stays.symm.trans next)), traced.flying⟩
  | cancelledAgain cancelled => exact traced
  | cancelRequested inFlight live =>
    exact ⟨traced.shaped, traced.fresh, traced.waiting, traced.flying⟩
  | cancelled idle live =>
    exact ⟨traced.shaped, by simp [Entry.livePhase], by simp [Entry.livePhase], by simp [idle]⟩

/-- The trace of a sequence, as its entry says. -/
def TraceKept (id : SequenceId) (history : List SchedulerEvent) (scheduler : SequenceScheduler) :
    Prop :=
  match scheduler.find id with
  | none => dispatchTrace id 0 history = []
  | some entry => Traced entry (dispatchTrace id 0 history)

theorem TraceKept.extend {id : SequenceId} {history : List SchedulerEvent}
    {event : SchedulerEvent} {after : SequenceScheduler} (sound : SchedulerInvariant event.before)
    (accounts : WorkAccounts id history event.before)
    (kept : TraceKept id history event.before)
    (step : EntryStep id event (event.before.find id) (after.find id)) :
    TraceKept id (history ++ [event]) after := by
  rw [TraceKept, dispatch_trace_append, Nat.zero_add, accounts.generated]
  rw [TraceKept] at kept
  generalize before : event.before.find id = found at step kept
  generalize after.find id = now at step
  cases step with
  | kept items =>
    rw [items, List.map_nil, List.append_nil]
    exact kept
  | enqueued items =>
    dsimp only at kept ⊢
    rw [items, List.map_nil, List.append_nil, kept]
    exact ⟨.nil _, fun _ _ => rfl, by simp [Entry.livePhase], by simp⟩
  | @dispatched entry slot runs untargeted items =>
    dsimp only at kept ⊢
    have entrySound := sound.entries entry (Keyed.find_mem before)
    have generated : event.before.generated id = entry.generatedTokens.toNat := by
      simp [SequenceScheduler.generated, before]
    rw [items, List.map_singleton, generated]
    exact kept.dispatched entrySound runs
  | @moved entry next items named succeeded effect =>
    dsimp only at kept ⊢
    rw [items, List.map_nil, List.append_nil]
    exact kept.moved (sound.entries entry (Keyed.find_mem before)) effect

/-- In every run, the items of every sequence are one prefill of its prompt and then decodes with
growing contexts: the prompt and the tokens committed before. -/
theorem prefill_once (calls : List SchedulerCall) (id : SequenceId) :
    ∃ promptTokens,
      (∀ entry, (schedulerMachine.run {} calls).find id = some entry →
        entry.request.promptTokens.toNat = promptTokens) ∧
      PrefilledOnce promptTokens (dispatchTrace id 0 (schedulerMachine.history {} calls)) := by
  have related := schedulerMachine.history_invariant
    (fun history scheduler => SchedulerInvariant scheduler ∧ WorkAccounts id history scheduler ∧
      TraceKept id history scheduler) ?_ {} ⟨.run [], ⟨rfl, rfl⟩, rfl⟩ calls
  · obtain ⟨_, _, kept⟩ := related
    rw [TraceKept] at kept
    cases found : (schedulerMachine.run {} calls).find id with
    | none =>
      rw [found] at kept
      dsimp only at kept
      rw [kept]
      exact ⟨0, by simp, .nil 0⟩
    | some entry =>
      rw [found] at kept
      refine ⟨entry.request.promptTokens.toNat, ?_, kept.shaped⟩
      intro other same
      rw [Option.some.inj same]
  · rintro history scheduler call ⟨sound, accounts, kept⟩
    have effect := schedulerStep_effect scheduler call
    exact ⟨sound.step call, accounts.extend (effect.accounts sound id),
      kept.extend sound accounts (effect.entryStep sound id)⟩

end MarketForge.Serving
