import MarketForge.Serving.SequenceScheduler
import Mathlib.Data.List.Range
import Mathlib.Data.Nat.ModEq

/-!
# What a call on the scheduler can do

`EntryEffect` lists what a successful call does to the entry it names and `SchedulerEffect` what
any call does to the scheduler. The scan of `schedule` is first shown to be a declarative
selection: the runnable entries in circular order (`waiting`), as many as the limit allows.
-/
namespace MarketForge.Serving

/-- An entry put in flight with the work it waited for. -/
def Entry.dispatched (entry : Entry) : Entry :=
  { entry with inFlight := true, inFlightWork := entry.work }

@[simp] theorem Entry.id_dispatched (entry : Entry) : entry.dispatched.id = entry.id := rfl

@[simp] theorem Entry.work_dispatched (entry : Entry) : entry.dispatched.work = entry.work := rfl

/-! ### The scan -/

/-- The indices below `n` in circular order from `start`. -/
def circularOrder (n start : Nat) : List Nat :=
  (List.range n).map fun offset => (start + offset) % n

theorem mem_circularOrder {n start i : Nat} : i ∈ circularOrder n start ↔ i < n := by
  simp only [circularOrder, List.mem_map, List.mem_range]
  constructor
  · rintro ⟨offset, bound, rfl⟩
    exact Nat.mod_lt _ (by omega)
  · intro bound
    -- The offset is the distance from `start` to `i`, going round at most once.
    refine ⟨(i + (n - start % n)) % n, Nat.mod_lt _ (by omega), ?_⟩
    have small := Nat.mod_lt start (by omega : 0 < n)
    rw [Nat.add_mod_mod, ← Nat.mod_add_mod]
    rw [show start % n + (i + (n - start % n)) = i + n by omega, Nat.add_mod_right,
      Nat.mod_eq_of_lt bound]

theorem circularOrder_nodup (n start : Nat) : (circularOrder n start).Nodup := by
  refine List.Nodup.map_on ?_ List.nodup_range
  intro a low b high same
  rw [List.mem_range] at low high
  have congruent : a % n = b % n := Nat.ModEq.add_left_cancel' start same
  rwa [Nat.mod_eq_of_lt low, Nat.mod_eq_of_lt high] at congruent

/-- The indices of the runnable entries, in the order in which `schedule` visits them. -/
def SequenceScheduler.waiting (scheduler : SequenceScheduler) : List Nat :=
  (circularOrder scheduler.entries.length
    (scheduler.nextScanIndex % scheduler.entries.length)).filter
      fun index => scheduler.entries[index]?.any isRunnable

theorem selectRunnable_eq (entries : List Entry) (start limit remaining offset : Nat)
    (selected : List Nat) :
    selectRunnable entries start limit remaining offset selected =
      selected ++ ((((List.range' offset remaining).map
        fun o => (start + o) % entries.length).filter
          fun index => entries[index]?.any isRunnable).take (limit - selected.length)) := by
  induction remaining generalizing offset selected with
  | zero => simp [selectRunnable]
  | succ remaining ih =>
    rw [selectRunnable, List.range'_succ, List.map_cons]
    by_cases room : selected.length < limit
    · rw [if_pos room]
      by_cases runs : entries[(start + offset) % entries.length]?.any isRunnable = true
      · -- The visited index is the first of the list still to take from.
        obtain ⟨free, count⟩ : ∃ free, limit - selected.length = free + 1 :=
          ⟨limit - selected.length - 1, by omega⟩
        have left : limit - (selected.length + 1) = free := by omega
        simp only [runs, if_true, ih, List.length_append, List.length_singleton, left, count,
          List.filter_cons_of_pos, List.take_succ_cons, List.append_assoc, List.cons_append,
          List.nil_append]
      · simp only [runs, if_false, ih, Bool.false_eq_true, List.filter_cons]
    · have full : limit - selected.length = 0 := by omega
      simp [room, full]

/-- The scan of `schedule` takes the first waiting entries, up to the limit. -/
theorem selectRunnable_waiting (scheduler : SequenceScheduler) (maximumSequences : Nat) :
    selectRunnable scheduler.entries (scheduler.nextScanIndex % scheduler.entries.length)
        (min maximumSequences scheduler.entries.length) scheduler.entries.length 0 [] =
      scheduler.waiting.take maximumSequences := by
  have bounded : scheduler.waiting.length ≤ scheduler.entries.length := by
    refine (List.length_filter_le _ _).trans ?_
    simp [circularOrder]
  rw [selectRunnable_eq, ← List.range_eq_range']
  change scheduler.waiting.take _ = _
  rcases Nat.le_total maximumSequences scheduler.entries.length with few | many
  · simp [Nat.min_eq_left few]
  · rw [List.take_of_length_le (by simpa [Nat.min_eq_right many] using bounded),
      List.take_of_length_le (bounded.trans many)]

theorem mem_waiting {scheduler : SequenceScheduler} {index : Nat} :
    index ∈ scheduler.waiting ↔
      ∃ entry, scheduler.entries[index]? = some entry ∧ isRunnable entry = true := by
  simp only [SequenceScheduler.waiting, List.mem_filter, mem_circularOrder, Option.any_eq_true]
  constructor
  · rintro ⟨_, entry, at_index, runs⟩
    exact ⟨entry, at_index, runs⟩
  · rintro ⟨entry, at_index, runs⟩
    exact ⟨(List.getElem?_eq_some_iff.mp at_index).1, entry, at_index, runs⟩

theorem waiting_nodup (scheduler : SequenceScheduler) : scheduler.waiting.Nodup :=
  (circularOrder_nodup _ _).filter _

/-! ### Items and dispatch -/

/-- Whatever an item copies from its entry is read off the selected entries in order. -/
theorem batchItems_map {β : Type} (entries : List Entry) (selected : List Nat)
    (h : BatchItem → β) (g : Entry → β)
    (copies : ∀ (e : Entry) slot, h ⟨e.id, e.work, e.contextTokens, slot⟩ = g e) :
    (batchItems entries selected).map h =
      selected.filterMap fun index => entries[index]?.map g := by
  have pointwise : (batchItems entries selected).map h =
      selected.zipIdx.filterMap ((fun index => entries[index]?.map g) ∘ Prod.fst) := by
    rw [batchItems, List.map_filterMap]
    refine List.filterMap_congr fun pair _ => ?_
    simp only [Option.map_map]
    exact congrArg (fun f => Option.map f _) (funext fun e => copies e pair.2)
  rw [pointwise, ← List.filterMap_map, List.zipIdx_map_fst]

theorem mem_batchItems {entries : List Entry} {selected : List Nat} {item : BatchItem}
    (member : item ∈ batchItems entries selected) :
    ∃ index ∈ selected, ∃ entry, entries[index]? = some entry ∧
      item.id = entry.id ∧ item.work = entry.work ∧ item.contextTokens = entry.contextTokens := by
  obtain ⟨⟨index, slot⟩, pair, made⟩ := List.mem_filterMap.mp member
  obtain ⟨entry, at_index, rfl⟩ := Option.map_eq_some_iff.mp made
  exact ⟨index, (List.mem_zipIdx pair).2.2 ▸ List.getElem_mem _, entry, at_index, rfl, rfl, rfl⟩

/-- Selected indices paired with what is read at each: no index is dropped. -/
theorem zip_filterMap {α β : Type} (f : α → Option β) (l : List α)
    (defined : ∀ a ∈ l, (f a).isSome) :
    (l.zip (l.filterMap f)).map Prod.fst = l ∧ ∀ p ∈ l.zip (l.filterMap f), f p.1 = some p.2 := by
  induction l with
  | nil => simp
  | cons a l ih =>
    obtain ⟨b, value⟩ := Option.isSome_iff_exists.mp (defined a List.mem_cons_self)
    obtain ⟨firsts, values⟩ := ih fun a' member => defined a' (.tail _ member)
    rw [List.filterMap_cons_some value, List.zip_cons_cons]
    refine ⟨by simp [firsts], ?_⟩
    intro p member
    rcases List.mem_cons.mp member with rfl | tail
    · exact value
    · exact values p tail

/-- The dispatch loop acts on each listed entry as `dispatched`, and on no other. -/
theorem dispatch_getElem? (entries : List Entry) (pairs : List (Nat × WorkKind))
    (works : ∀ p ∈ pairs, entries[p.1]?.map Entry.work = some p.2) (j : Nat) :
    (dispatch entries pairs)[j]? =
      entries[j]?.map fun entry => if j ∈ pairs.map Prod.fst then entry.dispatched else entry := by
  induction pairs generalizing entries with
  | nil => simp [dispatch]
  | cons pair rest ih =>
    obtain ⟨index, work⟩ := pair
    have own : entries[index]?.map Entry.work = some work := works _ List.mem_cons_self
    have modified : (entries.modify index fun entry =>
        { entry with inFlight := true, inFlightWork := work }) =
          entries.modify index Entry.dispatched := by
      obtain ⟨entry, at_index, rfl⟩ := Option.map_eq_some_iff.mp own
      refine List.ext_getElem? fun k => ?_
      by_cases here : index = k
      · subst here
        simp [at_index, Entry.dispatched]
      · simp [here]
    -- Putting an entry in flight does not change the work it waited for.
    have works' : ∀ p ∈ rest,
        (entries.modify index Entry.dispatched)[p.1]?.map Entry.work = some p.2 := by
      intro p member
      have before := works p (.tail _ member)
      by_cases here : index = p.1
      · simpa [here, Function.comp_def] using before
      · simpa [here] using before
    rw [dispatch, modified, ih _ works']
    by_cases here : index = j
    · subst here
      cases at_index : entries[index]? with
      | none => simp [at_index]
      | some entry => simp [at_index, Entry.dispatched, Entry.work]
    · have kept : (entries.modify index Entry.dispatched)[j]? = entries[j]? := by simp [here]
      rw [kept]
      simp only [List.map_cons, List.mem_cons, Ne.symm here, false_or]

/-- The whole dispatch of a batch of existing entries. -/
theorem dispatch_batchItems (entries : List Entry) (selected : List Nat)
    (bounded : ∀ index ∈ selected, index < entries.length) :
    dispatch entries (selected.zip ((batchItems entries selected).map BatchItem.work)) =
      entries.mapIdx fun index entry =>
        if index ∈ selected then entry.dispatched else entry := by
  have works := batchItems_map entries selected BatchItem.work Entry.work fun _ _ => rfl
  obtain ⟨firsts, values⟩ := zip_filterMap (fun index => entries[index]?.map Entry.work) selected
    fun index member => by simpa using bounded index member
  refine List.ext_getElem? fun j => ?_
  rw [works, dispatch_getElem? entries _ values, firsts, List.getElem?_mapIdx]

/-! ### Effects -/

def SchedulerReply.failed : SchedulerReply → Bool
  | .status value => !value.isOk
  | .batch (.error _) => true
  | .batch (.ok _) => false

/-- What a successful call does to the entry it names. -/
inductive EntryEffect (entry : Entry) : SchedulerCall → Entry → Prop
  | absorbed {id : SequenceId} {emitted : UInt32} {terminal : Bool}
      (inFlight : entry.inFlight = true) (pending : entry.cancelPending = true) :
      EntryEffect entry (.complete id emitted terminal)
        { entry with inFlight := false, cancelPending := false, phase := .cancelled }
  | committed {id : SequenceId} {emitted : UInt32} {terminal : Bool}
      (inFlight : entry.inFlight = true) (settled : entry.cancelPending = false)
      (progress : emitted ≠ 0 ∨ terminal = true)
      (budget : emitted ≤ entry.request.maxOutputTokens - entry.generatedTokens) :
      EntryEffect entry (.complete id emitted terminal)
        { entry with
          inFlight := false
          generatedTokens := entry.generatedTokens + emitted
          phase :=
            if terminal ∨ entry.generatedTokens + emitted = entry.request.maxOutputTokens then
              .finished
            else .decoding }
  | paused {id : SequenceId} (idle : entry.inFlight = false)
      (live : entry.phase = .queued ∨ entry.phase = .decoding) :
      EntryEffect entry (.pause id) { entry with resumePhase := entry.phase, phase := .paused }
  | pausedAgain {id : SequenceId} (paused : entry.phase = .paused) :
      EntryEffect entry (.pause id) entry
  | resumed {id : SequenceId} (paused : entry.phase = .paused) :
      EntryEffect entry (.resume id) { entry with phase := entry.resumePhase }
  | cancelledAgain {id : SequenceId} (cancelled : entry.phase = .cancelled) :
      EntryEffect entry (.cancel id) entry
  | cancelRequested {id : SequenceId} (inFlight : entry.inFlight = true)
      (live : isTerminal entry.phase = false) :
      EntryEffect entry (.cancel id) { entry with cancelPending := true }
  | cancelled {id : SequenceId} (idle : entry.inFlight = false)
      (live : isTerminal entry.phase = false) :
      EntryEffect entry (.cancel id) { entry with phase := .cancelled }

/-- The sequence a call names. -/
def SchedulerCall.target : SchedulerCall → Option SequenceId
  | .enqueue _ _ | .schedule _ _ => none
  | .complete id _ _ | .pause id | .resume id | .cancel id => some id

/-- The outcomes of the six mutating calls. -/
inductive SchedulerEffect (scheduler : SequenceScheduler) :
    SchedulerCall → SchedulerReply → SequenceScheduler → Prop
  | refused {call : SchedulerCall} {reply : SchedulerReply} (failed : reply.failed = true) :
      SchedulerEffect scheduler call reply scheduler
  | enqueued {alloc : Allocator} {request : SequenceRequest} (proper : request.id ≠ 0)
      (fits : request.promptTokens.toNat + request.maxOutputTokens.toNat < UInt32.size)
      (fresh : scheduler.find request.id = none) :
      SchedulerEffect scheduler (.enqueue alloc request) (.status .success)
        { scheduler with entries := scheduler.entries ++ [{ request := request }] }
  | idle {alloc : Allocator} {maximumSequences : Nat} (asked : maximumSequences ≠ 0)
      (none_waiting : scheduler.waiting = []) :
      SchedulerEffect scheduler (.schedule alloc maximumSequences)
        (.batch (.ok ⟨scheduler.generation, []⟩)) scheduler
  | dispatched {alloc : Allocator} {maximumSequences last : Nat} {selected : List Nat}
      (asked : maximumSequences ≠ 0)
      (selection : selected = scheduler.waiting.take maximumSequences)
      (final : selected.getLast? = some last)
      (room : scheduler.generation ≠ UInt64.ofNat (UInt64.size - 1)) :
      SchedulerEffect scheduler (.schedule alloc maximumSequences)
        (.batch (.ok ⟨scheduler.generation + 1, batchItems scheduler.entries selected⟩))
        { entries := scheduler.entries.mapIdx fun index entry =>
            if index ∈ selected then entry.dispatched else entry
          nextScanIndex := (last + 1) % scheduler.entries.length
          generation := scheduler.generation + 1 }
  | updated {call : SchedulerCall} {id : SequenceId} {entry after : Entry}
      (named : call.target = some id) (found : scheduler.find id = some entry)
      (effect : EntryEffect entry call after) :
      SchedulerEffect scheduler call (.status .success)
        { scheduler with entries := Keyed.update Entry.id scheduler.entries id fun _ => after }

section Effects

variable {scheduler : SequenceScheduler}

private theorem refused_call {call : SchedulerCall} {code : ErrorCode} (failed : code ≠ .ok) :
    SchedulerEffect scheduler call (.status (.failure code)) scheduler :=
  .refused (by simpa [SchedulerReply.failed] using failed)

theorem enqueue_effect (alloc : Allocator) (request : SequenceRequest) :
    SchedulerEffect scheduler (.enqueue alloc request)
      (.status (scheduler.enqueue alloc request).1) (scheduler.enqueue alloc request).2 := by
  unfold SequenceScheduler.enqueue
  split
  next => exact refused_call (by decide)
  next valid =>
    simp only [not_or, Bool.not_eq_true, Option.isSome_eq_false_iff, Option.isNone_iff_eq_none]
      at valid
    obtain ⟨proper, _, _, fits, fresh⟩ := valid
    split
    next code caught => exact refused_call (caught_ne_ok _ _ _ caught)
    next =>
      refine .enqueued proper ?_ fresh
      -- The subtraction in the guard cannot wrap.
      have largest : UInt32.ofNat (UInt32.size - 1) - request.maxOutputTokens =
          UInt32.ofNat (UInt32.size - 1 - request.maxOutputTokens.toNat) := by
        apply UInt32.toNat_inj.mp
        have bound := request.maxOutputTokens.toNat_lt
        rw [UInt32.toNat_sub_of_le _ _ (UInt32.le_iff_toNat_le.mpr ?_)]
        all_goals simp only [UInt32.toNat_ofNat', UInt32.size]; omega
      have bound := request.maxOutputTokens.toNat_lt
      rw [largest, gt_iff_lt, UInt32.lt_iff_toNat_lt, UInt32.toNat_ofNat'] at fits
      simp only [UInt32.size] at fits ⊢
      omega

theorem schedule_effect (alloc : Allocator) (maximumSequences : Nat) :
    SchedulerEffect scheduler (.schedule alloc maximumSequences)
      (.batch (scheduler.schedule alloc maximumSequences).1)
      (scheduler.schedule alloc maximumSequences).2 := by
  unfold SequenceScheduler.schedule
  simp only [selectRunnable_waiting]
  split
  next => exact .refused rfl
  next asked =>
    split
    next empty => exact .idle asked (by simp [SequenceScheduler.waiting, circularOrder, empty])
    next =>
      split
      next => exact .refused rfl
      next =>
        split
        next unselected =>
          have nothing := List.getLast?_eq_none_iff.mp unselected
          exact .idle asked ((List.take_eq_nil_iff.mp nothing).resolve_left asked)
        next last final =>
          split
          next => exact .refused rfl
          next room =>
            split
            next => exact .refused rfl
            next =>
              have bounded : ∀ index ∈ scheduler.waiting.take maximumSequences,
                  index < scheduler.entries.length := by
                intro index member
                obtain ⟨_, at_index, _⟩ := mem_waiting.mp (List.mem_of_mem_take member)
                exact (List.getElem?_eq_some_iff.mp at_index).1
              rw [dispatch_batchItems _ _ bounded]
              exact .dispatched asked rfl final room

/-- An operation on one entry is described by what it does when it succeeds: a refusal leaves
the entry as it was. -/
theorem onEntry_effect {call : SchedulerCall} {id : SequenceId} {f : Entry → Status × Entry}
    (named : call.target = some id)
    (described : ∀ entry, ((f entry).1 = .failure .invalidArgument ∧ (f entry).2 = entry) ∨
      ((f entry).1 = .success ∧ EntryEffect entry call (f entry).2)) :
    SchedulerEffect scheduler call (.status (scheduler.onEntry id f).1)
      (scheduler.onEntry id f).2 := by
  unfold SequenceScheduler.onEntry
  split
  next => exact refused_call (by decide)
  next entry found =>
    rcases described entry with ⟨refused, same⟩ | ⟨succeeded, effect⟩
    · rw [refused, Keyed.update_of_fixed found same]
      exact refused_call (by decide)
    · rw [succeeded, Keyed.update_congr (g := fun _ => (f entry).2) found rfl]
      exact .updated named found effect

theorem complete_effect (entry : Entry) (id : SequenceId) (emitted : UInt32) (terminal : Bool) :
    ((entry.complete emitted terminal).1 = .failure .invalidArgument ∧
        (entry.complete emitted terminal).2 = entry) ∨
      ((entry.complete emitted terminal).1 = .success ∧
        EntryEffect entry (.complete id emitted terminal) (entry.complete emitted terminal).2) := by
  unfold Entry.complete
  split
  next => exact .inl ⟨rfl, rfl⟩
  next accepted =>
    simp only [not_or, not_and, Bool.not_eq_false] at accepted
    obtain ⟨inFlight, progress⟩ := accepted
    dsimp only
    split
    next pending => exact .inr ⟨rfl, .absorbed inFlight pending⟩
    next settled =>
      split
      next =>
        -- The rejection restores the flag that was cleared first.
        refine .inl ⟨rfl, ?_⟩
        cases entry
        simp_all
      next budget =>
        refine .inr ⟨rfl, .committed inFlight (by simpa using settled) ?_
          (UInt32.not_lt.mp budget)⟩
        exact or_iff_not_imp_left.mpr fun none_emitted => progress (not_not.mp none_emitted)

theorem pause_effect (entry : Entry) (id : SequenceId) :
    (entry.pause.1 = .failure .invalidArgument ∧ entry.pause.2 = entry) ∨
      (entry.pause.1 = .success ∧ EntryEffect entry (.pause id) entry.pause.2) := by
  unfold Entry.pause
  split
  next => exact .inl ⟨rfl, rfl⟩
  next accepted =>
    simp only [not_or, Bool.not_eq_true] at accepted
    obtain ⟨idle, live⟩ := accepted
    split
    next paused => exact .inr ⟨rfl, .pausedAgain paused⟩
    next running =>
      refine .inr ⟨rfl, .paused idle ?_⟩
      cases phase : entry.phase <;> simp_all [isTerminal]

theorem resume_effect (entry : Entry) (id : SequenceId) :
    (entry.resume.1 = .failure .invalidArgument ∧ entry.resume.2 = entry) ∨
      (entry.resume.1 = .success ∧ EntryEffect entry (.resume id) entry.resume.2) := by
  unfold Entry.resume
  split
  next => exact .inl ⟨rfl, rfl⟩
  next paused => exact .inr ⟨rfl, .resumed (not_not.mp paused)⟩

theorem cancel_effect (entry : Entry) (id : SequenceId) :
    (entry.cancel.1 = .failure .invalidArgument ∧ entry.cancel.2 = entry) ∨
      (entry.cancel.1 = .success ∧ EntryEffect entry (.cancel id) entry.cancel.2) := by
  unfold Entry.cancel
  split
  next => exact .inl ⟨rfl, rfl⟩
  next unfinished =>
    split
    next cancelled => exact .inr ⟨rfl, .cancelledAgain cancelled⟩
    next uncancelled =>
      have live : isTerminal entry.phase = false := by simp [isTerminal, unfinished, uncancelled]
      split
      next inFlight => exact .inr ⟨rfl, .cancelRequested inFlight live⟩
      next idle => exact .inr ⟨rfl, .cancelled (by simpa using idle) live⟩

end Effects

/-- Every call ends in one of the listed ways. -/
theorem schedulerStep_effect (scheduler : SequenceScheduler) (call : SchedulerCall) :
    SchedulerEffect scheduler call (schedulerStep scheduler call).1
      (schedulerStep scheduler call).2 := by
  cases call with
  | enqueue alloc request => exact enqueue_effect alloc request
  | schedule alloc maximumSequences => exact schedule_effect alloc maximumSequences
  | complete id emitted terminal =>
    exact onEntry_effect rfl fun entry => complete_effect entry id emitted terminal
  | pause id => exact onEntry_effect rfl fun entry => pause_effect entry id
  | resume id => exact onEntry_effect rfl fun entry => resume_effect entry id
  | cancel id => exact onEntry_effect rfl fun entry => cancel_effect entry id

end MarketForge.Serving
