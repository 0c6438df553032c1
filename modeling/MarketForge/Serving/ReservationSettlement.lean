import MarketForge.Serving.CacheChecks
import MarketForge.Serving.PageTables

/-!
# Settlement of reservations

A reservation is issued by `reserve` and settled by one `commit` or `rollback`. Ids are issued in
increasing order until the counter wraps and nothing is issued any more, so an id that was settled
is never found again. While a reservation is pending, its record, the record of its sequence and
the pages shared with that sequence's prefix stay as they were when it was made.
-/
namespace MarketForge.Serving

open OwnershipLedger (assign getElem?_assign_of_mem getElem?_assign_of_not_mem)

/-- The id a successful `reserve` hands out. -/
def issuedId (e : Transition.Event PagedKvCache CacheCall CacheReply) : Option ReservationId :=
  match e.reply with
  | .reservation (.ok reservation) => some reservation.id
  | _ => none

/-- The id a successful `commit` or `rollback` settles. -/
def settledId (e : Transition.Event PagedKvCache CacheCall CacheReply) : Option ReservationId :=
  if e.reply.failed then none
  else match e.call with
    | .commit _ id => some id
    | .rollback id => some id
    | _ => none

/-! ### Ids -/

/-- What a call does to the table of reservations: it issues the next id, settles a pending one,
or leaves the table and the counter alone. -/
inductive ReservationEffect (cache after : PagedKvCache) :
    Option ReservationId → Option ReservationId → Prop
  | issues (record : PendingReservation) (counter : cache.nextReservationId ≠ 0)
      (named : record.id = cache.nextReservationId)
      (table : after.reservations = cache.reservations ++ [record])
      (next : after.nextReservationId = cache.nextReservationId + 1) :
      ReservationEffect cache after (some cache.nextReservationId) none
  | settles {id : ReservationId} {record : PendingReservation}
      (found : cache.findReservation id = some record)
      (table : after.reservations = Keyed.erase PendingReservation.id cache.reservations id)
      (next : after.nextReservationId = cache.nextReservationId) :
      ReservationEffect cache after none (some id)
  | leaves (table : after.reservations = cache.reservations)
      (next : after.nextReservationId = cache.nextReservationId) :
      ReservationEffect cache after none none

theorem CacheEffect.reservations {cache after : PagedKvCache} {call : CacheCall}
    {reply : CacheReply} (effect : CacheEffect cache call reply after) :
    ReservationEffect cache after (issuedId ⟨cache, call, reply⟩)
      (settledId ⟨cache, call, reply⟩) := by
  cases effect with
  | refused failed =>
    rw [settledId, if_pos failed]
    cases reply with
    | status value => exact .leaves rfl rfl
    | reservation value =>
      cases value with
      | error status => exact .leaves rfl rfl
      | ok reservation => cases failed
  | createdDetached => exact .leaves rfl rfl
  | createdAttached => exact .leaves rfl rfl
  | destroyedDetached => exact .leaves rfl rfl
  | destroyedAttached => exact .leaves rfl rfl
  | reserved found settled grows counter selection enough => exact .issues _ counter rfl rfl rfl
  | committed found foundSequence => exact .settles found rfl rfl
  | rolledBack found => exact .settles found rfl rfl
  | published => exact .leaves rfl rfl
  | destroyedPrefix => exact .leaves rfl rfl

/-- The ids issued and settled so far, beside the table of what is pending. -/
structure SettlementLog (history : List (Transition.Event PagedKvCache CacheCall CacheReply))
    (cache : PagedKvCache) : Prop where
  ids : CacheIds cache
  issued_once : (history.filterMap issuedId).Nodup
  issued_below : ∀ id ∈ history.filterMap issuedId,
    cache.nextReservationId = 0 ∨ id < cache.nextReservationId
  settled_once : (history.filterMap settledId).Nodup
  settled_issued : ∀ id ∈ history.filterMap settledId, id ∈ history.filterMap issuedId
  settled_gone : ∀ id ∈ history.filterMap settledId,
    id ∉ cache.reservations.map PendingReservation.id
  pending_issued : ∀ id ∈ cache.reservations.map PendingReservation.id,
    id ∈ history.filterMap issuedId

namespace SettlementLog

variable {history extended : List (Transition.Event PagedKvCache CacheCall CacheReply)}
  {cache after : PagedKvCache}

/-- All ids issued before are below the counter, so the next one is new. -/
theorem issues (log : SettlementLog history cache) (ids : CacheIds after)
    {record : PendingReservation} (counter : cache.nextReservationId ≠ 0)
    (named : record.id = cache.nextReservationId)
    (table : after.reservations = cache.reservations ++ [record])
    (next : after.nextReservationId = cache.nextReservationId + 1)
    (issued : extended.filterMap issuedId =
      history.filterMap issuedId ++ [cache.nextReservationId])
    (settled : extended.filterMap settledId = history.filterMap settledId) :
    SettlementLog extended after := by
  have below : ∀ id ∈ history.filterMap issuedId, id < cache.nextReservationId :=
    fun id earlier => (log.issued_below id earlier).resolve_left counter
  have new : cache.nextReservationId ∉ history.filterMap issuedId :=
    fun earlier => UInt64.lt_irrefl _ (below _ earlier)
  have names : after.reservations.map PendingReservation.id =
      cache.reservations.map PendingReservation.id ++ [cache.nextReservationId] := by
    rw [table, List.map_append, ← named]
    rfl
  refine ⟨ids, ?_, ?_, ?_, ?_, ?_, ?_⟩
  · rw [issued]
    exact List.nodup_append.mpr ⟨log.issued_once, List.nodup_singleton _,
      fun id earlier other last same => new (List.mem_singleton.mp last ▸ same ▸ earlier)⟩
  · rw [issued, next]
    intro id member
    rcases List.mem_append.mp member with earlier | last
    · exact CacheIds.issued_next (.inr (below id earlier))
    · exact CacheIds.issued_next (.inl (List.mem_singleton.mp last))
  · rw [settled]
    exact log.settled_once
  · rw [settled, issued]
    exact fun id member => List.mem_append_left _ (log.settled_issued id member)
  · rw [settled, names]
    intro id member pending
    rcases List.mem_append.mp pending with old | last
    · exact log.settled_gone id member old
    · exact new (List.mem_singleton.mp last ▸ log.settled_issued id member)
  · rw [issued, names]
    intro id pending
    rcases List.mem_append.mp pending with old | last
    · exact List.mem_append_left _ (log.pending_issued id old)
    · exact List.mem_append_right _ last

/-- What is settled was pending, so it had not been settled, and it leaves the table. -/
theorem settles (log : SettlementLog history cache) (ids : CacheIds after) {id : ReservationId}
    {record : PendingReservation} (found : cache.findReservation id = some record)
    (table : after.reservations = Keyed.erase PendingReservation.id cache.reservations id)
    (next : after.nextReservationId = cache.nextReservationId)
    (issued : extended.filterMap issuedId = history.filterMap issuedId)
    (settled : extended.filterMap settledId = history.filterMap settledId ++ [id]) :
    SettlementLog extended after := by
  have pending : id ∈ cache.reservations.map PendingReservation.id :=
    List.mem_map.mpr ⟨record, Keyed.find_mem found, Keyed.find_key found⟩
  refine ⟨ids, issued ▸ log.issued_once, ?_, ?_, ?_, ?_, ?_⟩
  · rw [issued, next]
    exact log.issued_below
  · rw [settled]
    exact List.nodup_append.mpr ⟨log.settled_once, List.nodup_singleton _,
      fun other earlier last same equal =>
        log.settled_gone other earlier (equal ▸ List.mem_singleton.mp same ▸ pending)⟩
  · rw [settled, issued]
    intro other member
    rcases List.mem_append.mp member with earlier | last
    · exact log.settled_issued other earlier
    · exact List.mem_singleton.mp last ▸ log.pending_issued id pending
  · rw [settled, table]
    intro other member still
    rcases List.mem_append.mp member with earlier | last
    · exact log.settled_gone other earlier
        ((Keyed.erase_keys_sublist cache.reservations id).subset still)
    · obtain ⟨kept, listed, named⟩ := List.mem_map.mp still
      exact ((Keyed.mem_erase_iff log.ids.reservations_unique).mp listed).2
        (named.trans (List.mem_singleton.mp last))
  · rw [issued, table]
    exact fun other still => log.pending_issued other
      ((Keyed.erase_keys_sublist cache.reservations id).subset still)

theorem leaves (log : SettlementLog history cache) (ids : CacheIds after)
    (table : after.reservations = cache.reservations)
    (next : after.nextReservationId = cache.nextReservationId)
    (issued : extended.filterMap issuedId = history.filterMap issuedId)
    (settled : extended.filterMap settledId = history.filterMap settledId) :
    SettlementLog extended after := by
  refine ⟨ids, issued ▸ log.issued_once, ?_, settled ▸ log.settled_once, ?_, ?_, ?_⟩
  · rw [issued, next]
    exact log.issued_below
  · rw [settled, issued]
    exact log.settled_issued
  · rw [settled, table]
    exact log.settled_gone
  · rw [issued, table]
    exact log.pending_issued

theorem step (history : List (Transition.Event PagedKvCache CacheCall CacheReply))
    (cache : PagedKvCache) (call : CacheCall) (log : SettlementLog history cache) :
    SettlementLog (history ++ [cacheMachine.event cache call])
      (cacheMachine.step cache call).2 := by
  have ids : CacheIds (cacheStep cache call).2 := (cacheStep_effect cache call).ids log.ids
  have effect : ReservationEffect cache (cacheStep cache call).2
      (issuedId (cacheMachine.event cache call)) (settledId (cacheMachine.event cache call)) :=
    (cacheStep_effect cache call).reservations
  change SettlementLog _ (cacheStep cache call).2
  have issuedNext : (history ++ [cacheMachine.event cache call]).filterMap issuedId =
      history.filterMap issuedId ++ (issuedId (cacheMachine.event cache call)).toList := by
    rw [List.filterMap_append, List.filterMap_cons, List.filterMap_nil]
    cases issuedId (cacheMachine.event cache call) <;> rfl
  have settledNext : (history ++ [cacheMachine.event cache call]).filterMap settledId =
      history.filterMap settledId ++ (settledId (cacheMachine.event cache call)).toList := by
    rw [List.filterMap_append, List.filterMap_cons, List.filterMap_nil]
    cases settledId (cacheMachine.event cache call) <;> rfl
  generalize issuedId (cacheMachine.event cache call) = issued at effect issuedNext
  generalize settledId (cacheMachine.event cache call) = settled at effect settledNext
  generalize (cacheStep cache call).2 = after at effect ids ⊢
  cases effect with
  | issues record counter named table next =>
    rw [Option.toList_none, List.append_nil] at settledNext
    exact log.issues ids counter named table next issuedNext settledNext
  | settles found table next =>
    rw [Option.toList_none, List.append_nil] at issuedNext
    exact log.settles ids found table next issuedNext settledNext
  | leaves table next =>
    rw [Option.toList_none, List.append_nil] at issuedNext settledNext
    exact log.leaves ids table next issuedNext settledNext

end SettlementLog

theorem settlement_log {alloc : Allocator} {pageCount tokensPerPage : UInt32}
    {cache : PagedKvCache}
    (created : PagedKvCache.create alloc pageCount tokensPerPage = .ok cache)
    (calls : List CacheCall) :
    SettlementLog (cacheMachine.history cache calls) (cacheMachine.run cache calls) := by
  refine cacheMachine.history_invariant _ SettlementLog.step cache ?_ calls
  obtain ⟨_, rfl⟩ := create_eq created
  exact ⟨by constructor <;> simp, by simp, by simp, by simp, by simp, by simp, by simp⟩

/-! ### What is pending stays as it was -/

/-- A reservation is pending for a sequence. -/
structure Pending (cache : PagedKvCache) (record : PendingReservation) (owner : Sequence) :
    Prop where
  reservation : cache.findReservation record.id = some record
  sequence : cache.findSequence record.sequenceId = some owner

/-- A sequence without a reservation is not the one that waits. -/
theorem Pending.other_sequence {cache : PagedKvCache} {record : PendingReservation}
    {owner : Sequence} (pending : Pending cache record owner) {s : SequenceId}
    (settled : cache.findSequenceReservation s = none) : record.sequenceId ≠ s :=
  Keyed.find_eq_none_iff.mp settled record (Keyed.find_mem pending.reservation)

/-- The sequence that waits is not destroyed. -/
theorem Pending.undestroyed {cache after : PagedKvCache} {record : PendingReservation}
    {owner : Sequence} (pending : Pending cache record owner) {call : CacheCall}
    {reply : CacheReply} (effect : CacheEffect cache call reply after)
    (destroys : call = .destroySequence record.sequenceId) : reply.failed = true := by
  subst destroys
  cases effect with
  | refused failed => exact failed
  | destroyedDetached found settled => exact absurd rfl (pending.other_sequence settled)
  | destroyedAttached found settled => exact absurd rfl (pending.other_sequence settled)

/-- A call that does not settle a reservation keeps it pending for an unchanged sequence. -/
theorem CacheEffect.pending {pageCount : Nat} {tokensPerPage : UInt32}
    {cache after : PagedKvCache} {call : CacheCall} {reply : CacheReply}
    (effect : CacheEffect cache call reply after)
    (holds : CacheInvariant pageCount tokensPerPage cache) {record : PendingReservation}
    {owner : Sequence} (pending : Pending cache record owner)
    (unsettled : settledId ⟨cache, call, reply⟩ ≠ some record.id) : Pending after record owner := by
  have appended : ∀ other : Sequence,
      Keyed.find Sequence.id (cache.sequences ++ [other]) record.sequenceId = some owner :=
    fun other => by
      rw [Keyed.find_append]
      exact congrArg (Option.or · _) pending.sequence
  cases effect with
  | refused => exact pending
  | createdDetached => exact ⟨pending.reservation, appended _⟩
  | createdAttached => exact ⟨pending.reservation, appended _⟩
  | destroyedDetached found settled =>
    exact ⟨pending.reservation,
      (Keyed.find_erase_other (pending.other_sequence settled)).trans pending.sequence⟩
  | destroyedAttached found settled =>
    exact ⟨pending.reservation,
      (Keyed.find_erase_other (pending.other_sequence settled)).trans pending.sequence⟩
  | reserved found settled grows counter selection enough =>
    refine ⟨?_, pending.sequence⟩
    rw [PagedKvCache.findReservation, Keyed.find_append]
    exact congrArg (Option.or · _) pending.reservation
  | @committed _ id settledRecord sequence found foundSequence =>
    have other : record.id ≠ id := fun same => unsettled (same ▸ rfl)
    -- A sequence waits for one reservation, so the settled one is that of another sequence.
    have elsewhere : record.sequenceId ≠ settledRecord.sequenceId := by
      intro same
      have one := Keyed.eq_of_key holds.accounts.one_pending
        (Keyed.find_mem pending.reservation) (Keyed.find_mem found) same
      exact other (one ▸ Keyed.find_key found)
    refine ⟨(Keyed.find_erase_other other).trans pending.reservation, ?_⟩
    rw [PagedKvCache.findSequence, Keyed.find_update Sequence.id cache.sequences _ _
      (fun q => { q with
        suffixPages := q.suffixPages ++ settledRecord.pages
        totalTokens := settledRecord.targetTokenCount }) fun _ => rfl]
    simp only [if_neg elsewhere, Option.map_id']
    exact pending.sequence
  | @rolledBack id settledRecord found =>
    have other : record.id ≠ id := fun same => unsettled (same ▸ rfl)
    exact ⟨(Keyed.find_erase_other other).trans pending.reservation, pending.sequence⟩
  | @published _ prefixId s sequence found named fresh detached started settled =>
    refine ⟨pending.reservation, ?_⟩
    rw [PagedKvCache.findSequence, Keyed.find_update Sequence.id cache.sequences _ _
      (fun q => { q with prefixId := prefixId, prefixTokens := q.totalTokens, suffixPages := [] })
      fun _ => rfl]
    simp only [if_neg (pending.other_sequence settled), Option.map_id']
    exact pending.sequence
  | destroyedPrefix => exact ⟨pending.reservation, pending.sequence⟩

/-- Nor do the pages change that the sequence shares with its prefix. -/
theorem CacheEffect.pending_shared {pageCount : Nat} {tokensPerPage : UInt32}
    {cache after : PagedKvCache} {call : CacheCall} {reply : CacheReply}
    (effect : CacheEffect cache call reply after)
    (holds : CacheInvariant pageCount tokensPerPage cache)
    (holdsAfter : CacheInvariant pageCount tokensPerPage after) {record : PendingReservation}
    {owner : Sequence} (pending : Pending cache record owner)
    (pendingAfter : Pending after record owner) :
    after.sharedPages owner = cache.sharedPages owner := by
  obtain ⟨q, found, grown, _⟩ := effect.table_grows pending.sequence holds
    (pending.undestroyed effect)
  obtain rfl := Option.some_inj.mp (found.symm.trans pendingAfter.sequence)
  -- Both lists have the length of the prefix, and one begins with the other.
  have before := shared_pages_length holds (Keyed.find_mem pending.sequence)
  have now := shared_pages_length holdsAfter (Keyed.find_mem pendingAfter.sequence)
  have lengths : (cache.sharedPages q).length = (after.sharedPages q).length := by
    rw [before, now, PagedKvCache.capacity, PagedKvCache.capacity, holds.pageSize,
      holdsAfter.pageSize]
  have whole : cache.sharedPages q ++ q.suffixPages = after.sharedPages q ++ q.suffixPages := by
    refine grown.eq_of_length ?_
    rw [List.length_append, List.length_append, lengths]
  exact (List.append_inj_left' whole rfl).symm

/-- Over a run that does not settle it, a reservation stays pending for an unchanged table. -/
theorem run_pending {pageCount : Nat} {tokensPerPage : UInt32} {cache : PagedKvCache}
    (holds : CacheInvariant pageCount tokensPerPage cache) (calls : List CacheCall)
    {record : PendingReservation} {owner : Sequence} (pending : Pending cache record owner)
    (unsettled : record.id ∉ (cacheMachine.history cache calls).filterMap settledId) :
    Pending (cacheMachine.run cache calls) record owner ∧
      (cacheMachine.run cache calls).sharedPages owner = cache.sharedPages owner := by
  induction calls generalizing cache with
  | nil => exact ⟨pending, rfl⟩
  | cons call calls ih =>
    have effect := cacheStep_effect cache call
    have later : record.id ∉
        (cacheMachine.history (cacheStep cache call).2 calls).filterMap settledId := by
      intro member
      apply unsettled
      rw [Transition.Machine.history_cons, ← List.singleton_append, List.filterMap_append]
      exact List.mem_append_right _ member
    have now : settledId ⟨cache, call, (cacheStep cache call).1⟩ ≠ some record.id := by
      intro same
      apply unsettled
      rw [List.mem_filterMap]
      exact ⟨_, List.mem_cons_self, same⟩
    have holdsNext : CacheInvariant pageCount tokensPerPage (cacheStep cache call).2 :=
      holds.step cache call
    have pendingNext := effect.pending holds pending now
    obtain ⟨pendingLast, sharedLast⟩ := ih holdsNext pendingNext later
    exact ⟨pendingLast,
      sharedLast.trans (effect.pending_shared holds holdsNext pending pendingNext)⟩

/-! ### Settling -/

/-- A commit extends the table of its sequence by the reserved pages and changes nothing else. -/
structure Committed (before after : PagedKvCache) (r : KvReservation) : Prop where
  sequence : ∃ q, before.findSequence r.sequenceId = some q ∧
    after.findSequence r.sequenceId = some { q with
      suffixPages := q.suffixPages ++ r.newPages
      totalTokens := r.targetTokenCount }
  others : ∀ t, t ≠ r.sequenceId → after.findSequence t = before.findSequence t
  attached : ∀ page ∈ r.newPages, before.pages[page]? = some ⟨.reserved, r.id⟩ ∧
    after.pages[page]? = some ⟨.mutableSequence, r.sequenceId⟩
  untouched : ∀ page, page ∉ r.newPages → after.pages[page]? = before.pages[page]?
  settled : after.reservations = Keyed.erase PendingReservation.id before.reservations r.id
  prefixes : after.prefixes = before.prefixes
  counter : after.nextReservationId = before.nextReservationId

/-- A rollback frees the reserved pages and changes nothing else; the table of its sequence is the
one from before the reservation. -/
structure RolledBack (start before after : PagedKvCache) (r : KvReservation) : Prop where
  table : ∀ (a b : Allocator) (table : KvPageTable),
    start.pageTable a r.sequenceId = .ok table → b.caught [0] = none →
      after.pageTable b r.sequenceId = .ok table
  sequences : after.sequences = before.sequences
  freed : ∀ page ∈ r.newPages, before.pages[page]? = some ⟨.reserved, r.id⟩ ∧
    after.pages[page]? = some {}
  untouched : ∀ page, page ∉ r.newPages → after.pages[page]? = before.pages[page]?
  settled : after.reservations = Keyed.erase PendingReservation.id before.reservations r.id
  prefixes : after.prefixes = before.prefixes
  counter : after.nextReservationId = before.nextReservationId

/-- The record that `reserve` files for the reservation it returns. -/
def KvReservation.record (r : KvReservation) : PendingReservation :=
  ⟨r.id, r.sequenceId, r.targetTokenCount, r.newPages⟩

section

variable {pageCount : Nat} {tokensPerPage : UInt32} {cache : PagedKvCache}

/-- The pages of a pending reservation carry its mark. -/
theorem pending_pages_reserved (holds : CacheInvariant pageCount tokensPerPage cache)
    {r : KvReservation} {owner : Sequence} (pending : Pending cache r.record owner) :
    ∀ page ∈ r.newPages, cache.pages[page]? = some ⟨.reserved, r.id⟩ := fun page listed =>
  (holds.ownedOnce.reserved_iff page r.id).mpr
    ⟨r.record, Keyed.find_mem pending.reservation, rfl, listed⟩

theorem pages_within {ids : List KvPageId} {mark : Page}
    (marked : ∀ page ∈ ids, cache.pages[page]? = some mark) :
    ∀ page ∈ ids, page < cache.pages.length := fun page listed =>
  (List.getElem?_eq_some_iff.mp (marked page listed)).1

theorem committed_of_success (holds : CacheInvariant pageCount tokensPerPage cache)
    {r : KvReservation} {owner : Sequence} (pending : Pending cache r.record owner)
    {alloc : Allocator} (success : (cache.commit alloc r.id).1 = .success) :
    Committed cache (cache.commit alloc r.id).2 r := by
  have effect := @commit_effect cache alloc r.id
  rw [success] at effect
  generalize (cache.commit alloc r.id).2 = after at effect ⊢
  cases effect with
  | refused failed => cases failed
  | @committed _ _ record sequence found foundSequence =>
    obtain rfl := Option.some_inj.mp (pending.reservation.symm.trans found)
    obtain rfl := Option.some_inj.mp (pending.sequence.symm.trans foundSequence)
    have reserved := pending_pages_reserved holds pending
    have rewritten :=
      fun t => Keyed.find_update Sequence.id cache.sequences r.sequenceId t (fun q =>
      { q with
        suffixPages := q.suffixPages ++ r.newPages
        totalTokens := r.targetTokenCount }) fun _ => rfl
    refine ⟨⟨owner, foundSequence, ?_⟩, fun t other => ?_,
      fun page listed => ⟨reserved page listed, ?_⟩,
      fun page outside => getElem?_assign_of_not_mem _ _ _ _ outside, rfl, rfl, rfl⟩
    · refine (rewritten r.sequenceId).trans ?_
      rw [show Keyed.find Sequence.id cache.sequences r.sequenceId = some owner from foundSequence,
        Option.map_some, if_pos rfl]
    · refine (rewritten t).trans ?_
      simp only [if_neg other, Option.map_id']
      rfl
    · have id : owner.id = r.sequenceId := Keyed.find_key foundSequence
      rw [← id]
      exact getElem?_assign_of_mem _ _ _ _ listed (pages_within reserved page listed)

theorem rolledBack_of_success {start : PagedKvCache}
    (holds : CacheInvariant pageCount tokensPerPage cache) {r : KvReservation} {owner : Sequence}
    (pending : Pending cache r.record owner)
    (found : start.findSequence r.sequenceId = some owner)
    (shared : cache.sharedPages owner = start.sharedPages owner)
    (success : (cache.rollback r.id).1 = .success) :
    RolledBack start cache (cache.rollback r.id).2 r := by
  have effect := @rollback_effect cache r.id
  have holdsAfter : CacheInvariant pageCount tokensPerPage (cache.rollback r.id).2 :=
    holds.step cache (.rollback r.id)
  rw [success] at effect
  generalize (cache.rollback r.id).2 = after at effect holdsAfter ⊢
  cases effect with
  | refused failed => cases failed
  | @rolledBack _ record foundRecord =>
    obtain rfl := Option.some_inj.mp (pending.reservation.symm.trans foundRecord)
    have reserved := pending_pages_reserved holds pending
    refine ⟨fun a b table made granted => ?_, rfl, fun page listed => ⟨reserved page listed, ?_⟩,
      fun page outside => getElem?_assign_of_not_mem _ _ _ _ outside, rfl, rfl, rfl⟩
    · obtain ⟨q, foundStart, rfl⟩ := pageTable_eq_ok made
      obtain rfl := Option.some_inj.mp (found.symm.trans foundStart)
      rw [← shared]
      exact pageTable_of_live holdsAfter granted pending.sequence
    · exact getElem?_assign_of_mem _ _ _ _ listed (pages_within reserved page listed)

/-- What a successful `reserve` leaves: the reservation is pending for its sequence. -/
theorem reserve_pending {alloc : Allocator} {s : SequenceId} {target : UInt32}
    {r : KvReservation} (holds : CacheInvariant pageCount tokensPerPage cache)
    (success : (cache.reserve alloc s target).1 = .ok r) :
    ∃ owner, cache.findSequence r.sequenceId = some owner ∧
      Pending (cache.reserve alloc s target).2 r.record owner ∧
      (cache.reserve alloc s target).2.sharedPages owner = cache.sharedPages owner ∧
      r.sequenceId = s ∧ r.targetTokenCount = target ∧ r.id = cache.nextReservationId ∧
      (cache.reserve alloc s target).2 = { cache with
        reservations := cache.reservations ++ [r.record]
        pages := assign cache.pages r.newPages ⟨.reserved, r.id⟩
        nextReservationId := cache.nextReservationId + 1 } ∧
      (∀ page ∈ r.newPages, cache.pages[page]? = some {}) ∧
      cache.findReservation r.id = none := by
  have effect := @reserve_effect cache alloc s target
  rw [success] at effect
  generalize (cache.reserve alloc s target).2 = after at effect ⊢
  cases effect with
  | refused failed => cases failed
  | @reserved _ _ _ sequence selected found settled grows counter selection enough =>
    have fresh : cache.findReservation cache.nextReservationId = none :=
      Keyed.find_eq_none_iff.mpr fun record member same =>
        holds.ids.next_fresh counter (List.mem_map.mpr ⟨record, member, same⟩)
    refine ⟨sequence, found, ⟨?_, found⟩, rfl, rfl, rfl, rfl, rfl, fun page listed => ?_, fresh⟩
    · have absent : Keyed.find PendingReservation.id cache.reservations cache.nextReservationId =
          none := fresh
      simp only [PagedKvCache.findReservation, KvReservation.record, Keyed.find_append, absent,
        if_true, Option.none_or]
    · exact holds.books.selected_free _ page (selection ▸ listed)

/-- Assigning two marks after the other to free pages, the last of them free, changes nothing. -/
theorem assign_free_again {pages : List Page} {ids : List KvPageId} {mark : Page}
    (free : ∀ page ∈ ids, pages[page]? = some {}) :
    assign (assign pages ids mark) ids {} = pages := by
  refine List.ext_getElem? fun page => ?_
  by_cases listed : page ∈ ids
  · have inside := (List.getElem?_eq_some_iff.mp (free page listed)).1
    rw [getElem?_assign_of_mem _ _ _ _ listed (by simpa using inside), free page listed]
  · rw [getElem?_assign_of_not_mem _ _ _ _ listed, getElem?_assign_of_not_mem _ _ _ _ listed]

/-- Undoing a reservation at once restores everything but the counter. -/
theorem rollback_restores {alloc : Allocator} {s : SequenceId} {target : UInt32}
    {r : KvReservation} (holds : CacheInvariant pageCount tokensPerPage cache)
    (success : (cache.reserve alloc s target).1 = .ok r) :
    (cache.reserve alloc s target).2.rollback r.id =
      (.success, { cache with nextReservationId := cache.nextReservationId + 1 }) := by
  obtain ⟨owner, _, pending, _, _, _, _, after, free, fresh⟩ := reserve_pending holds success
  have holdsNext : CacheInvariant pageCount tokensPerPage (cache.reserve alloc s target).2 :=
    holds.step cache (.reserve alloc s target)
  have marked := reservation_pages_marked holdsNext pending.reservation
  have found := pending.reservation
  have erased : Keyed.erase PendingReservation.id (cache.reservations ++ [r.record]) r.id =
      cache.reservations := Keyed.erase_append_new fresh
  rw [PagedKvCache.rollback, show r.id = r.record.id from rfl, found]
  dsimp only
  rw [if_neg (not_not.mpr marked), after]
  dsimp only [KvReservation.record] at erased ⊢
  rw [erased, assign_free_again free]

end

/-- Two-phase reservations settle exactly once. Over every run, the ids that `reserve` returns are
distinct, and every id is settled at most once, by a commit or a rollback, and only after it was
returned. From a reservation to its settlement, whatever else is called in between: a commit
extends the table of its sequence by the reserved pages up to the reserved target, a rollback
leaves the table as it was when the reservation was made and frees the reserved pages, and both
change nothing else. A rollback right after the reservation restores everything but the counter. -/
theorem reservations_settle_once (alloc : Allocator) (pageCount tokensPerPage : UInt32)
    (cache : PagedKvCache)
    (created : PagedKvCache.create alloc pageCount tokensPerPage = .ok cache)
    (calls : List CacheCall) :
    let history := cacheMachine.history cache calls
    let reached := cacheMachine.run cache calls
    (history.filterMap issuedId).Nodup ∧
    (history.filterMap settledId).Nodup ∧
    (∀ id ∈ history.filterMap settledId, id ∈ history.filterMap issuedId) ∧
    ∀ (a : Allocator) (s : SequenceId) (target : UInt32) (r : KvReservation),
      (reached.reserve a s target).1 = .ok r →
      (r.sequenceId = s ∧ r.targetTokenCount = target) ∧
      (reached.reserve a s target).2.rollback r.id =
        (.success, { reached with nextReservationId := reached.nextReservationId + 1 }) ∧
      ∀ during : List CacheCall,
        r.id ∉ (cacheMachine.history (reached.reserve a s target).2 during).filterMap settledId →
        let later := cacheMachine.run (reached.reserve a s target).2 during
        (∃ q, reached.findSequence s = some q ∧ later.findSequence s = some q) ∧
        (∀ b, (later.commit b r.id).1 = .success → Committed later (later.commit b r.id).2 r) ∧
        ((later.rollback r.id).1 = .success →
          RolledBack reached later (later.rollback r.id).2 r) := by
  intro history reached
  have log := settlement_log created calls
  have holds : CacheInvariant pageCount.toNat tokensPerPage reached :=
    CacheInvariant.run created calls
  refine ⟨log.issued_once, log.settled_once, log.settled_issued, ?_⟩
  intro a s target r success
  obtain ⟨owner, found, pending, shared, rfl, rfl, _⟩ := reserve_pending holds success
  refine ⟨⟨rfl, rfl⟩, rollback_restores holds success, fun during unsettled => ?_⟩
  have holdsNext : CacheInvariant pageCount.toNat tokensPerPage
      (reached.reserve a r.sequenceId r.targetTokenCount).2 :=
    holds.step reached (.reserve a r.sequenceId r.targetTokenCount)
  obtain ⟨pendingLater, sharedLater⟩ := run_pending holdsNext during pending unsettled
  have holdsLater := cacheMachine.run_invariant _ CacheInvariant.step _ holdsNext during
  exact ⟨⟨owner, found, pendingLater.sequence⟩,
    fun b committed => committed_of_success holdsLater pendingLater committed,
    fun rolledBack => rolledBack_of_success holdsLater pendingLater found
      (sharedLater.trans shared) rolledBack⟩

/-- A rollback after another sequence has taken and committed pages. -/
theorem reservations_settle_once_interleaved :
    let reached := cacheMachine.run { pages := List.replicate 4 {}, tokensPerPage := 2 }
      [.createSequence .unlimited 7 0, .createSequence .unlimited 8 0]
    let reserved := (reached.reserve .unlimited 7 3).2
    let later := cacheMachine.run reserved [.reserve .unlimited 8 2, .commit .unlimited 2]
    RolledBack reached later (later.rollback 1).2 ⟨1, 7, 3, [0, 1]⟩ :=
  ((reservations_settle_once .unlimited 4 2 { pages := List.replicate 4 {}, tokensPerPage := 2 }
    rfl [.createSequence .unlimited 7 0, .createSequence .unlimited 8 0]).2.2.2 .unlimited 7 3
      ⟨1, 7, 3, [0, 1]⟩ (by decide)).2.2 [.reserve .unlimited 8 2, .commit .unlimited 2]
        (by decide) |>.2.2 (by decide)

end MarketForge.Serving
