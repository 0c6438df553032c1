import MarketForge.Serving.PagedKvCache

/-!
# What a call on the cache can do

`CacheEffect` lists, once, every way a call can end: it is refused and the state stays as it
was, or it succeeds under the guards recorded here and leaves the state shown. Every invariant
of the cache is derived from this list (`cacheStep_effect`), never from the operations again.
-/
namespace MarketForge.Serving

open OwnershipLedger (assign)

def CacheReply.failed : CacheReply → Bool
  | .status value => !value.isOk
  | .reservation (.error _) => true
  | .reservation (.ok _) => false

/-- The outcomes of the seven mutating calls. -/
inductive CacheEffect (cache : PagedKvCache) : CacheCall → CacheReply → PagedKvCache → Prop
  | refused {call : CacheCall} {reply : CacheReply} (failed : reply.failed = true) :
      CacheEffect cache call reply cache
  | createdDetached {alloc : Allocator} {sequenceId : SequenceId} (proper : sequenceId ≠ 0)
      (fresh : cache.findSequence sequenceId = none) :
      CacheEffect cache (.createSequence alloc sequenceId 0) (.status .success)
        { cache with sequences := cache.sequences ++ [⟨sequenceId, 0, 0, 0, []⟩] }
  | createdAttached {alloc : Allocator} {sequenceId : SequenceId} {prefixId : PrefixId}
      {shared : Prefix} (proper : sequenceId ≠ 0)
      (fresh : cache.findSequence sequenceId = none) (named : prefixId ≠ 0)
      (found : cache.findPrefix prefixId = some shared)
      (room : shared.attachments ≠ UInt64.ofNat (UInt64.size - 1)) :
      CacheEffect cache (.createSequence alloc sequenceId prefixId) (.status .success)
        { cache with
          sequences := cache.sequences ++
            [⟨sequenceId, prefixId, shared.tokenCount, shared.tokenCount, []⟩]
          prefixes := Keyed.update Prefix.id cache.prefixes prefixId fun p =>
            { p with attachments := p.attachments + 1 } }
  | destroyedDetached {sequenceId : SequenceId} {sequence : Sequence}
      (found : cache.findSequence sequenceId = some sequence)
      (settled : cache.findSequenceReservation sequenceId = none)
      (detached : sequence.prefixId = 0) :
      CacheEffect cache (.destroySequence sequenceId) (.status .success)
        { cache with
          pages := assign cache.pages sequence.suffixPages {}
          sequences := Keyed.erase Sequence.id cache.sequences sequenceId }
  | destroyedAttached {sequenceId : SequenceId} {sequence : Sequence} {shared : Prefix}
      (found : cache.findSequence sequenceId = some sequence)
      (settled : cache.findSequenceReservation sequenceId = none)
      (attached : sequence.prefixId ≠ 0)
      (foundPrefix : cache.findPrefix sequence.prefixId = some shared)
      (referenced : shared.attachments ≠ 0) :
      CacheEffect cache (.destroySequence sequenceId) (.status .success)
        { cache with
          pages := assign cache.pages sequence.suffixPages {}
          prefixes := Keyed.update Prefix.id cache.prefixes sequence.prefixId fun p =>
            { p with attachments := p.attachments - 1 }
          sequences := Keyed.erase Sequence.id cache.sequences sequenceId }
  | reserved {alloc : Allocator} {sequenceId : SequenceId} {target : UInt32}
      {sequence : Sequence} {selected : List KvPageId}
      (found : cache.findSequence sequenceId = some sequence)
      (settled : cache.findSequenceReservation sequenceId = none)
      (grows : sequence.totalTokens ≤ target) (counter : cache.nextReservationId ≠ 0)
      (selection : selected =
        selectFree cache.pages 0 (cache.newPageCount sequence target).toNat)
      (enough : selected.length = (cache.newPageCount sequence target).toNat) :
      CacheEffect cache (.reserve alloc sequenceId target)
        (.reservation (.ok ⟨cache.nextReservationId, sequenceId, target, selected⟩))
        { cache with
          reservations := cache.reservations ++
            [⟨cache.nextReservationId, sequenceId, target, selected⟩]
          pages := assign cache.pages selected ⟨.reserved, cache.nextReservationId⟩
          nextReservationId := cache.nextReservationId + 1 }
  | committed {alloc : Allocator} {reservationId : ReservationId}
      {reservation : PendingReservation} {sequence : Sequence}
      (found : cache.findReservation reservationId = some reservation)
      (foundSequence : cache.findSequence reservation.sequenceId = some sequence) :
      CacheEffect cache (.commit alloc reservationId) (.status .success)
        { cache with
          sequences := Keyed.update Sequence.id cache.sequences reservation.sequenceId fun q =>
            { q with
              suffixPages := q.suffixPages ++ reservation.pages
              totalTokens := reservation.targetTokenCount }
          pages := assign cache.pages reservation.pages ⟨.mutableSequence, sequence.id⟩
          reservations := Keyed.erase PendingReservation.id cache.reservations reservationId }
  | rolledBack {reservationId : ReservationId} {reservation : PendingReservation}
      (found : cache.findReservation reservationId = some reservation) :
      CacheEffect cache (.rollback reservationId) (.status .success)
        { cache with
          pages := assign cache.pages reservation.pages {}
          reservations := Keyed.erase PendingReservation.id cache.reservations reservationId }
  | published {alloc : Allocator} {prefixId : PrefixId} {sequenceId : SequenceId}
      {sequence : Sequence} (found : cache.findSequence sequenceId = some sequence)
      (named : prefixId ≠ 0) (fresh : cache.findPrefix prefixId = none)
      (detached : sequence.prefixId = 0) (started : sequence.totalTokens ≠ 0)
      (settled : cache.findSequenceReservation sequenceId = none) :
      CacheEffect cache (.publishPrefix alloc prefixId sequenceId) (.status .success)
        { cache with
          prefixes := cache.prefixes ++
            [⟨prefixId, sequence.totalTokens, 1, sequence.suffixPages⟩]
          pages := assign cache.pages sequence.suffixPages ⟨.immutablePrefix, prefixId⟩
          sequences := Keyed.update Sequence.id cache.sequences sequenceId fun q =>
            { q with prefixId := prefixId, prefixTokens := q.totalTokens, suffixPages := [] } }
  | destroyedPrefix {prefixId : PrefixId} {shared : Prefix}
      (found : cache.findPrefix prefixId = some shared) (unused : shared.attachments = 0) :
      CacheEffect cache (.destroyPrefix prefixId) (.status .success)
        { cache with
          pages := assign cache.pages shared.pages {}
          prefixes := Keyed.erase Prefix.id cache.prefixes prefixId }

section Effects

variable {cache : PagedKvCache}

private theorem refused_status {call : CacheCall} {code : ErrorCode} (failed : code ≠ .ok) :
    CacheEffect cache call (.status (.failure code)) cache :=
  .refused (by simpa [CacheReply.failed] using failed)

private theorem refused_reservation {call : CacheCall} {status : Status} :
    CacheEffect cache call (.reservation (.error status)) cache :=
  .refused rfl

theorem createSequence_effect (alloc : Allocator) (sequenceId : SequenceId)
    (prefixId : PrefixId) :
    CacheEffect cache (.createSequence alloc sequenceId prefixId)
      (.status (cache.createSequence alloc sequenceId prefixId).1)
      (cache.createSequence alloc sequenceId prefixId).2 := by
  unfold PagedKvCache.createSequence
  split
  next => exact refused_status (by decide)
  next valid =>
    simp only [not_or, Bool.not_eq_true, Option.isSome_eq_false_iff, Option.isNone_iff_eq_none]
      at valid
    split
    next detached =>
      subst detached
      split
      next code caught => exact refused_status (caught_ne_ok _ _ _ caught)
      next => exact .createdDetached valid.1 valid.2
    next named =>
      split
      next => exact refused_status (by decide)
      next shared found =>
        split
        next => exact refused_status (by decide)
        next room =>
          split
          next code caught => exact refused_status (caught_ne_ok _ _ _ caught)
          next => exact .createdAttached valid.1 valid.2 named found room

theorem destroySequence_effect (sequenceId : SequenceId) :
    CacheEffect cache (.destroySequence sequenceId)
      (.status (cache.destroySequence sequenceId).1) (cache.destroySequence sequenceId).2 := by
  unfold PagedKvCache.destroySequence
  split
  next => exact refused_status (by decide)
  next sequence found =>
    split
    next => exact refused_status (by decide)
    next pending =>
      have settled : cache.findSequenceReservation sequenceId = none := by simpa using pending
      split
      next => exact refused_status (by decide)
      next linked =>
        split
        next => exact refused_status (by decide)
        next =>
          by_cases detached : sequence.prefixId = 0
          · rw [if_pos detached]
            exact .destroyedDetached found settled detached
          · rw [if_neg detached]
            cases foundPrefix : cache.findPrefix sequence.prefixId with
            | none => simp [detached, foundPrefix] at linked
            | some shared =>
              have referenced : shared.attachments ≠ 0 := by
                simpa [detached, foundPrefix] using linked
              exact .destroyedAttached found settled detached foundPrefix referenced

theorem reserve_effect (alloc : Allocator) (sequenceId : SequenceId) (target : UInt32) :
    CacheEffect cache (.reserve alloc sequenceId target)
      (.reservation (cache.reserve alloc sequenceId target).1)
      (cache.reserve alloc sequenceId target).2 := by
  unfold PagedKvCache.reserve
  split
  next => exact refused_reservation
  next sequence found =>
    split
    next => exact refused_reservation
    next valid =>
      simp only [not_or, Bool.not_eq_true, Option.isSome_eq_false_iff, Option.isNone_iff_eq_none,
        UInt32.not_lt] at valid
      obtain ⟨settled, grows, counter⟩ := valid
      split
      next => exact refused_reservation
      next =>
        dsimp only
        split
        next => exact refused_reservation
        next enough =>
          split
          next => exact refused_reservation
          next => exact .reserved found settled grows counter rfl (not_not.mp enough)

theorem commit_effect (alloc : Allocator) (reservationId : ReservationId) :
    CacheEffect cache (.commit alloc reservationId)
      (.status (cache.commit alloc reservationId).1) (cache.commit alloc reservationId).2 := by
  unfold PagedKvCache.commit
  split
  next => exact refused_status (by decide)
  next reservation found =>
    split
    next => exact refused_status (by decide)
    next sequence foundSequence =>
      split
      next => exact refused_status (by decide)
      next =>
        split
        next code caught => exact refused_status (caught_ne_ok _ _ _ caught)
        next => exact .committed found foundSequence

theorem rollback_effect (reservationId : ReservationId) :
    CacheEffect cache (.rollback reservationId)
      (.status (cache.rollback reservationId).1) (cache.rollback reservationId).2 := by
  unfold PagedKvCache.rollback
  split
  next => exact refused_status (by decide)
  next reservation found =>
    split
    next => exact refused_status (by decide)
    next => exact .rolledBack found

theorem publishPrefix_effect (alloc : Allocator) (prefixId : PrefixId)
    (sequenceId : SequenceId) :
    CacheEffect cache (.publishPrefix alloc prefixId sequenceId)
      (.status (cache.publishPrefix alloc prefixId sequenceId).1)
      (cache.publishPrefix alloc prefixId sequenceId).2 := by
  unfold PagedKvCache.publishPrefix
  split
  next => exact refused_status (by decide)
  next sequence found =>
    split
    next => exact refused_status (by decide)
    next valid =>
      simp only [not_or, Bool.not_eq_true, Option.isSome_eq_false_iff, Option.isNone_iff_eq_none,
        not_not] at valid
      obtain ⟨named, fresh, detached, started, _, settled⟩ := valid
      split
      next => exact refused_status (by decide)
      next =>
        split
        next code caught => exact refused_status (caught_ne_ok _ _ _ caught)
        next => exact .published found named fresh detached started settled

theorem destroyPrefix_effect (prefixId : PrefixId) :
    CacheEffect cache (.destroyPrefix prefixId)
      (.status (cache.destroyPrefix prefixId).1) (cache.destroyPrefix prefixId).2 := by
  unfold PagedKvCache.destroyPrefix
  split
  next => exact refused_status (by decide)
  next shared found =>
    split
    next => exact refused_status (by decide)
    next unused =>
      split
      next => exact refused_status (by decide)
      next => exact .destroyedPrefix found (not_not.mp unused)

end Effects

/-- Every call ends in one of the listed ways. -/
theorem cacheStep_effect (cache : PagedKvCache) (call : CacheCall) :
    CacheEffect cache call (cacheStep cache call).1 (cacheStep cache call).2 := by
  cases call with
  | createSequence alloc sequenceId prefixId =>
    exact createSequence_effect alloc sequenceId prefixId
  | destroySequence sequenceId => exact destroySequence_effect sequenceId
  | reserve alloc sequenceId target => exact reserve_effect alloc sequenceId target
  | commit alloc reservationId => exact commit_effect alloc reservationId
  | rollback reservationId => exact rollback_effect reservationId
  | publishPrefix alloc prefixId sequenceId =>
    exact publishPrefix_effect alloc prefixId sequenceId
  | destroyPrefix prefixId => exact destroyPrefix_effect prefixId

/-- A call that fails, whether a check or an allocation stopped it, leaves every table, the page
array and the counter as they were. -/
theorem failed_call_keeps_state (cache : PagedKvCache) (call : CacheCall)
    (failed : (cacheStep cache call).1.failed = true) : (cacheStep cache call).2 = cache := by
  have effect := cacheStep_effect cache call
  generalize (cacheStep cache call).1 = reply at failed effect
  generalize (cacheStep cache call).2 = after at effect ⊢
  -- the replies of all other effects are successes
  cases effect with
  | refused => rfl
  | createdDetached => cases failed
  | createdAttached => cases failed
  | destroyedDetached => cases failed
  | destroyedAttached => cases failed
  | reserved => cases failed
  | committed => cases failed
  | rolledBack => cases failed
  | published => cases failed
  | destroyedPrefix => cases failed

/-- The table of reservations cannot grow, after the pages were selected. -/
theorem failed_call_keeps_state_growth :
    let cache : PagedKvCache :=
      { pages := List.replicate 4 {}, tokensPerPage := 2, sequences := [⟨7, 0, 0, 0, []⟩] }
    let alloc : Allocator := fun point => if point = 3 then .badAlloc else .granted
    (cacheStep cache (.reserve alloc 7 5)).1 = .reservation (.error (.failure .allocationFailed)) ∧
      (cacheStep cache (.reserve alloc 7 5)).2 = cache :=
  ⟨by decide, failed_call_keeps_state
    { pages := List.replicate 4 {}, tokensPerPage := 2, sequences := [⟨7, 0, 0, 0, []⟩] }
    (.reserve (fun point => if point = 3 then .badAlloc else .granted) 7 5) (by decide)⟩

end MarketForge.Serving
