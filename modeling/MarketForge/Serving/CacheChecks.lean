import MarketForge.Serving.CacheAccounting

/-!
# The checks for corruption

The operations look for pages that do not carry their owner's mark and for records that name
missing ones. In a state that keeps the invariant they find none, so a call succeeds whenever its
arguments are right.
-/
namespace MarketForge.Serving

section

variable {pageCount : Nat} {tokensPerPage : UInt32} {cache : PagedKvCache}

theorem pagesMarked_iff (ids : List KvPageId) (mark : Page) :
    cache.pagesMarked ids mark = true ↔ ∀ p ∈ ids, cache.pages[p]? = some mark := by
  simp [PagedKvCache.pagesMarked]

theorem sequence_pages_marked (holds : CacheInvariant pageCount tokensPerPage cache)
    {id : SequenceId} {q : Sequence} (found : cache.findSequence id = some q) :
    cache.pagesMarked q.suffixPages ⟨.mutableSequence, id⟩ = true :=
  (pagesMarked_iff _ _).mpr fun p listed => (holds.ownedOnce.mutable_iff p id).mpr
    ⟨q, Keyed.find_mem found, Keyed.find_key found, listed⟩

theorem prefix_pages_marked (holds : CacheInvariant pageCount tokensPerPage cache)
    {id : PrefixId} {shared : Prefix} (found : cache.findPrefix id = some shared) :
    cache.pagesMarked shared.pages ⟨.immutablePrefix, id⟩ = true :=
  (pagesMarked_iff _ _).mpr fun p listed => (holds.ownedOnce.immutable_iff p id).mpr
    ⟨shared, Keyed.find_mem found, Keyed.find_key found, listed⟩

theorem reservation_pages_marked (holds : CacheInvariant pageCount tokensPerPage cache)
    {id : ReservationId} {r : PendingReservation} (found : cache.findReservation id = some r) :
    cache.pagesMarked r.pages ⟨.reserved, id⟩ = true :=
  (pagesMarked_iff _ _).mpr fun p listed => (holds.ownedOnce.reserved_iff p id).mpr
    ⟨r, Keyed.find_mem found, Keyed.find_key found, listed⟩

/-- The prefix of an attached sequence is there and is referenced. -/
theorem attachment_referenced (holds : CacheInvariant pageCount tokensPerPage cache)
    {q : Sequence} (member : q ∈ cache.sequences) (named : q.prefixId ≠ 0) :
    ∃ shared, cache.findPrefix q.prefixId = some shared ∧ shared.attachments ≠ 0 := by
  obtain ⟨shared, present, same, _⟩ := holds.accounts.attached q member named
  refine ⟨shared, Keyed.find_of_mem holds.ids.prefixes_unique present same, fun unused => ?_⟩
  have count := holds.accounts.attachments_counted shared present
  have positive := attachedTo_pos member
  rw [unused, same] at count
  exact absurd (count.trans_gt positive) (by simp)

/-- The sequence of a pending reservation is live. -/
theorem reservation_sequence_live (holds : CacheInvariant pageCount tokensPerPage cache)
    {id : ReservationId} {r : PendingReservation} (found : cache.findReservation id = some r) :
    ∃ q, cache.findSequence r.sequenceId = some q := by
  obtain ⟨q, member, owner, _⟩ := holds.accounts.pending_exact r (Keyed.find_mem found)
  exact ⟨q, Keyed.find_of_mem holds.ids.sequences_unique member owner⟩

/-! ### Calls that succeed -/

theorem rollback_succeeds (holds : CacheInvariant pageCount tokensPerPage cache)
    {id : ReservationId} {r : PendingReservation} (found : cache.findReservation id = some r) :
    (cache.rollback id).1 = .success := by
  rw [PagedKvCache.rollback, found]
  dsimp only
  rw [if_neg (not_not.mpr (reservation_pages_marked holds found))]

theorem destroySequence_succeeds (holds : CacheInvariant pageCount tokensPerPage cache)
    {id : SequenceId} {q : Sequence} (found : cache.findSequence id = some q)
    (settled : cache.findSequenceReservation id = none) :
    (cache.destroySequence id).1 = .success := by
  have linked : ¬(q.prefixId ≠ 0 ∧
      (cache.findPrefix q.prefixId).all (fun p => p.attachments = 0) = true) := by
    rintro ⟨named, unreferenced⟩
    obtain ⟨shared, foundPrefix, referenced⟩ :=
      attachment_referenced holds (Keyed.find_mem found) named
    rw [foundPrefix] at unreferenced
    exact referenced (by simpa using unreferenced)
  rw [PagedKvCache.destroySequence, found]
  dsimp only
  rw [settled, if_neg (by simp), if_neg linked,
    if_neg (not_not.mpr (sequence_pages_marked holds found))]

theorem destroyPrefix_succeeds (holds : CacheInvariant pageCount tokensPerPage cache)
    {id : PrefixId} {shared : Prefix} (found : cache.findPrefix id = some shared)
    (unused : shared.attachments = 0) : (cache.destroyPrefix id).1 = .success := by
  rw [PagedKvCache.destroyPrefix, found]
  dsimp only
  rw [if_neg (not_not.mpr unused), if_neg (not_not.mpr (prefix_pages_marked holds found))]

/-! ### No corruption is reported -/

def CacheReply.code : CacheReply → ErrorCode
  | .status value => value.code
  | .reservation (.error failure) => failure.code
  | .reservation (.ok _) => .ok

theorem caught_ne_invalidFormat {alloc : Allocator} {points : List Nat} {code : ErrorCode}
    (caught : alloc.caught points = some code) : code ≠ .invalidFormat := by
  obtain ⟨point, _, reported⟩ := List.exists_of_findSome?_eq_some caught
  cases fate : alloc point with
  | granted => simp [Allocation.caught, fate] at reported
  | badAlloc =>
    simp only [Allocation.caught, fate, Option.some.injEq] at reported
    exact reported ▸ by decide
  | lengthError =>
    simp only [Allocation.caught, fate, Option.some.injEq] at reported
    exact reported ▸ by decide

theorem createSequence_ne_invalidFormat (alloc : Allocator) (s : SequenceId) (p : PrefixId) :
    (cache.createSequence alloc s p).1.code ≠ .invalidFormat := by
  unfold PagedKvCache.createSequence
  split
  next => rintro ⟨⟩
  next =>
    split
    next =>
      split
      next code caught => exact caught_ne_invalidFormat caught
      next => rintro ⟨⟩
    next =>
      split
      next => rintro ⟨⟩
      next =>
        split
        next => rintro ⟨⟩
        next =>
          split
          next code caught => exact caught_ne_invalidFormat caught
          next => rintro ⟨⟩

theorem destroySequence_ne_invalidFormat (holds : CacheInvariant pageCount tokensPerPage cache)
    (s : SequenceId) : (cache.destroySequence s).1.code ≠ .invalidFormat := by
  -- an id that is found and settled is destroyed: the marks of its pages pass the check
  cases found : cache.findSequence s with
  | none => simp [PagedKvCache.destroySequence, found, Status.failure]
  | some q =>
    cases settled : cache.findSequenceReservation s with
    | none =>
      rw [destroySequence_succeeds holds found settled]
      decide
    | some r => simp [PagedKvCache.destroySequence, found, settled, Status.failure]

theorem reserve_ne_invalidFormat (alloc : Allocator) (s : SequenceId) (target : UInt32) :
    (CacheReply.reservation (cache.reserve alloc s target).1).code ≠ .invalidFormat := by
  unfold PagedKvCache.reserve
  split
  next => rintro ⟨⟩
  next =>
    split
    next => rintro ⟨⟩
    next =>
      dsimp only
      split
      next code caught => exact caught_ne_invalidFormat caught
      next =>
        split
        next => rintro ⟨⟩
        next =>
          split
          next code caught => exact caught_ne_invalidFormat caught
          next => rintro ⟨⟩

/-- The invariant refutes the two checks that would answer `invalidFormat`: the sequence of a
reservation is live, and its pages carry its mark. -/
theorem commit_ne_invalidFormat (holds : CacheInvariant pageCount tokensPerPage cache)
    (alloc : Allocator) (id : ReservationId) :
    (cache.commit alloc id).1.code ≠ .invalidFormat := by
  unfold PagedKvCache.commit
  cases found : cache.findReservation id with
  | none => rintro ⟨⟩
  | some r =>
    obtain ⟨q, live⟩ := reservation_sequence_live holds found
    dsimp only
    rw [live]
    dsimp only
    rw [if_neg (not_not.mpr (reservation_pages_marked holds found))]
    split
    next code caught => exact caught_ne_invalidFormat caught
    next => rintro ⟨⟩

/-- The same marks as for `commit`, read before anything is freed. -/
theorem rollback_ne_invalidFormat (holds : CacheInvariant pageCount tokensPerPage cache)
    (id : ReservationId) : (cache.rollback id).1.code ≠ .invalidFormat := by
  cases found : cache.findReservation id with
  | none => simp [PagedKvCache.rollback, found, Status.failure]
  | some r =>
    rw [rollback_succeeds holds found]
    decide

theorem publishPrefix_ne_invalidFormat (holds : CacheInvariant pageCount tokensPerPage cache)
    (alloc : Allocator) (p : PrefixId) (s : SequenceId) :
    (cache.publishPrefix alloc p s).1.code ≠ .invalidFormat := by
  unfold PagedKvCache.publishPrefix
  cases found : cache.findSequence s with
  | none => rintro ⟨⟩
  | some q =>
    dsimp only
    split
    next => rintro ⟨⟩
    next =>
      rw [if_neg (not_not.mpr (sequence_pages_marked holds found))]
      split
      next code caught => exact caught_ne_invalidFormat caught
      next => rintro ⟨⟩

theorem destroyPrefix_ne_invalidFormat (holds : CacheInvariant pageCount tokensPerPage cache)
    (p : PrefixId) : (cache.destroyPrefix p).1.code ≠ .invalidFormat := by
  unfold PagedKvCache.destroyPrefix
  cases found : cache.findPrefix p with
  | none => rintro ⟨⟩
  | some shared =>
    dsimp only
    split
    next => rintro ⟨⟩
    next =>
      rw [if_neg (not_not.mpr (prefix_pages_marked holds found))]
      rintro ⟨⟩

theorem cacheStep_ne_invalidFormat (holds : CacheInvariant pageCount tokensPerPage cache)
    (call : CacheCall) : (cacheStep cache call).1.code ≠ .invalidFormat := by
  cases call with
  | createSequence => exact createSequence_ne_invalidFormat _ _ _
  | destroySequence => exact destroySequence_ne_invalidFormat holds _
  | reserve => exact reserve_ne_invalidFormat _ _ _
  | commit => exact commit_ne_invalidFormat holds _ _
  | rollback => exact rollback_ne_invalidFormat holds _
  | publishPrefix => exact publishPrefix_ne_invalidFormat holds _ _ _
  | destroyPrefix => exact destroyPrefix_ne_invalidFormat holds _

end

/-! ### Teardown -/

/-- Everything is given back: there is no record left and every page is free. -/
structure Drained (pageCount : Nat) (cache : PagedKvCache) : Prop where
  sequences : cache.sequences = []
  prefixes : cache.prefixes = []
  reservations : cache.reservations = []
  pages : cache.pages = List.replicate pageCount ⟨.free, 0⟩

/-- A cache without records has only free pages. -/
theorem drained_of_empty {pageCount : Nat} {cache : PagedKvCache}
    (owned : CacheOwnership pageCount cache) (sequences : cache.sequences = [])
    (prefixes : cache.prefixes = []) (reservations : cache.reservations = []) :
    Drained pageCount cache := by
  refine ⟨sequences, prefixes, reservations, ?_⟩
  have unlisted : cache.listedPages = [] := by
    simp [PagedKvCache.listedPages, sequences, prefixes, reservations]
  rw [List.eq_replicate_iff]
  refine ⟨owned.count, fun page member => ?_⟩
  obtain ⟨p, at_p⟩ := List.mem_iff_getElem?.mp member
  have inside := (List.getElem?_eq_some_iff.mp at_p).1
  have free := (owned.ownedOnce.free_iff p (owned.count ▸ inside)).mpr (by simp [unlisted])
  exact Option.some_inj.mp (at_p.symm.trans free)

/-- What the three groups of a teardown need, and leave as it is. -/
private theorem rollbacks_drain {pageCount : Nat} {tokensPerPage : UInt32} {cache : PagedKvCache}
    (holds : CacheInvariant pageCount tokensPerPage cache) (ids : List ReservationId)
    (order : ids.Perm (cache.reservations.map PendingReservation.id)) :
    (∀ e ∈ cacheMachine.history cache (ids.map .rollback), e.reply = .status .success) ∧
      (CacheInvariant pageCount tokensPerPage (cacheMachine.run cache (ids.map .rollback)) ∧
        (cacheMachine.run cache (ids.map .rollback)).sequences = cache.sequences ∧
        (cacheMachine.run cache (ids.map .rollback)).prefixes = cache.prefixes) ∧
      (cacheMachine.run cache (ids.map .rollback)).reservations = [] := by
  apply cacheMachine.drain PendingReservation.id PagedKvCache.reservations CacheCall.rollback
    (fun s => CacheInvariant pageCount tokensPerPage s ∧ s.sequences = cache.sequences ∧
      s.prefixes = cache.prefixes) (fun reply => reply = .status .success) _ cache
    ⟨holds, rfl, rfl⟩ ids order
  rintro s id r ⟨invariant, sequences, prefixes⟩ found
  have succeeded : (cacheStep s (.rollback id)).1 = .status .success :=
    congrArg CacheReply.status (rollback_succeeds invariant found)
  have effect := cacheStep_effect s (.rollback id)
  have kept := invariant.step s (.rollback id)
  change CacheInvariant _ _ (cacheStep s (.rollback id)).2 at kept
  refine ⟨succeeded, ?_⟩
  change (CacheInvariant _ _ (cacheStep s (.rollback id)).2 ∧
    (cacheStep s (.rollback id)).2.sequences = _ ∧ (cacheStep s (.rollback id)).2.prefixes = _) ∧
      (cacheStep s (.rollback id)).2.reservations = _
  rw [succeeded] at effect
  generalize (cacheStep s (.rollback id)).2 = after at effect kept ⊢
  cases effect with
  | refused failed => cases failed
  | rolledBack => exact ⟨⟨kept, sequences, prefixes⟩, rfl⟩

private theorem destroys_drain {pageCount : Nat} {tokensPerPage : UInt32} {cache : PagedKvCache}
    (holds : CacheInvariant pageCount tokensPerPage cache) (settled : cache.reservations = [])
    (ids : List SequenceId) (order : ids.Perm (cache.sequences.map Sequence.id)) :
    (∀ e ∈ cacheMachine.history cache (ids.map .destroySequence), e.reply = .status .success) ∧
      (CacheInvariant pageCount tokensPerPage
          (cacheMachine.run cache (ids.map .destroySequence)) ∧
        (cacheMachine.run cache (ids.map .destroySequence)).reservations = [] ∧
        (cacheMachine.run cache (ids.map .destroySequence)).prefixes.map Prefix.id =
          cache.prefixes.map Prefix.id) ∧
      (cacheMachine.run cache (ids.map .destroySequence)).sequences = [] := by
  apply cacheMachine.drain Sequence.id PagedKvCache.sequences CacheCall.destroySequence
    (fun s => CacheInvariant pageCount tokensPerPage s ∧ s.reservations = [] ∧
      s.prefixes.map Prefix.id = cache.prefixes.map Prefix.id)
    (fun reply => reply = .status .success) _ cache ⟨holds, settled, rfl⟩ ids order
  rintro s id q ⟨invariant, nonePending, prefixes⟩ found
  have unreserved : s.findSequenceReservation id = none := by
    simp [PagedKvCache.findSequenceReservation, nonePending, Keyed.find]
  have succeeded : (cacheStep s (.destroySequence id)).1 = .status .success :=
    congrArg CacheReply.status (destroySequence_succeeds invariant found unreserved)
  have effect := cacheStep_effect s (.destroySequence id)
  have kept := invariant.step s (.destroySequence id)
  change CacheInvariant _ _ (cacheStep s (.destroySequence id)).2 at kept
  refine ⟨succeeded, ?_⟩
  change (CacheInvariant _ _ (cacheStep s (.destroySequence id)).2 ∧
    (cacheStep s (.destroySequence id)).2.reservations = _ ∧
      (cacheStep s (.destroySequence id)).2.prefixes.map Prefix.id = _) ∧
      (cacheStep s (.destroySequence id)).2.sequences = _
  rw [succeeded] at effect
  generalize (cacheStep s (.destroySequence id)).2 = after at effect kept ⊢
  cases effect with
  | refused failed => cases failed
  | destroyedDetached => exact ⟨⟨kept, nonePending, prefixes⟩, rfl⟩
  | @destroyedAttached _ sequence =>
    have sameIds : (Keyed.update Prefix.id s.prefixes sequence.prefixId fun p =>
        { p with attachments := p.attachments - 1 }).map Prefix.id = s.prefixes.map Prefix.id :=
      Keyed.update_keys _ _ _ fun _ => rfl
    exact ⟨⟨kept, nonePending, sameIds.trans prefixes⟩, rfl⟩

private theorem prefixes_drain {pageCount : Nat} {tokensPerPage : UInt32} {cache : PagedKvCache}
    (holds : CacheInvariant pageCount tokensPerPage cache) (settled : cache.reservations = [])
    (unattached : cache.sequences = []) (ids : List PrefixId)
    (order : ids.Perm (cache.prefixes.map Prefix.id)) :
    (∀ e ∈ cacheMachine.history cache (ids.map .destroyPrefix), e.reply = .status .success) ∧
      (CacheInvariant pageCount tokensPerPage (cacheMachine.run cache (ids.map .destroyPrefix)) ∧
        (cacheMachine.run cache (ids.map .destroyPrefix)).reservations = [] ∧
        (cacheMachine.run cache (ids.map .destroyPrefix)).sequences = []) ∧
      (cacheMachine.run cache (ids.map .destroyPrefix)).prefixes = [] := by
  apply cacheMachine.drain Prefix.id PagedKvCache.prefixes CacheCall.destroyPrefix
    (fun s => CacheInvariant pageCount tokensPerPage s ∧ s.reservations = [] ∧ s.sequences = [])
    (fun reply => reply = .status .success) _ cache ⟨holds, settled, unattached⟩ ids order
  rintro s id shared ⟨invariant, nonePending, noneLive⟩ found
  -- without sequences every reference count is zero
  have unused : shared.attachments = 0 := by
    have count := invariant.accounts.attachments_counted shared (Keyed.find_mem found)
    rw [noneLive] at count
    exact UInt64.toNat_inj.mp count
  have succeeded : (cacheStep s (.destroyPrefix id)).1 = .status .success :=
    congrArg CacheReply.status (destroyPrefix_succeeds invariant found unused)
  have effect := cacheStep_effect s (.destroyPrefix id)
  have kept := invariant.step s (.destroyPrefix id)
  change CacheInvariant _ _ (cacheStep s (.destroyPrefix id)).2 at kept
  refine ⟨succeeded, ?_⟩
  change (CacheInvariant _ _ (cacheStep s (.destroyPrefix id)).2 ∧
    (cacheStep s (.destroyPrefix id)).2.reservations = _ ∧
      (cacheStep s (.destroyPrefix id)).2.sequences = _) ∧
      (cacheStep s (.destroyPrefix id)).2.prefixes = _
  rw [succeeded] at effect
  generalize (cacheStep s (.destroyPrefix id)).2 = after at effect kept ⊢
  cases effect with
  | refused failed => cases failed
  | destroyedPrefix => exact ⟨⟨kept, nonePending, noneLive⟩, rfl⟩

/-- The cache can always be drained: from every state reached, rolling back all reservations, then
destroying all sequences, then all prefixes, in any order within each group, succeeds call by call
and leaves no record and no page in use. -/
theorem cache_drains (alloc : Allocator) (pageCount tokensPerPage : UInt32) (cache : PagedKvCache)
    (created : PagedKvCache.create alloc pageCount tokensPerPage = .ok cache)
    (calls : List CacheCall) (reservationIds : List ReservationId) (sequenceIds : List SequenceId)
    (prefixIds : List PrefixId) :
    let reached := cacheMachine.run cache calls
    let teardown : List CacheCall := reservationIds.map .rollback
      ++ sequenceIds.map .destroySequence ++ prefixIds.map .destroyPrefix
    reservationIds.Perm (reached.reservations.map PendingReservation.id) →
    sequenceIds.Perm (reached.sequences.map Sequence.id) →
    prefixIds.Perm (reached.prefixes.map Prefix.id) →
    (∀ e ∈ cacheMachine.history reached teardown, e.reply = .status .success) ∧
      Drained pageCount.toNat (cacheMachine.run reached teardown) := by
  intro reached teardown reservations sequences prefixes
  have holds : CacheInvariant pageCount.toNat tokensPerPage reached :=
    CacheInvariant.run created calls
  obtain ⟨first, ⟨holdsFirst, sameSequences, samePrefixes⟩, noneReserved⟩ :=
    rollbacks_drain holds reservationIds reservations
  obtain ⟨second, ⟨holdsSecond, stillNone, sameIds⟩, noneLive⟩ :=
    destroys_drain holdsFirst noneReserved sequenceIds (sameSequences ▸ sequences)
  obtain ⟨third, ⟨holdsThird, settled, dead⟩, nonePublished⟩ :=
    prefixes_drain holdsSecond stillNone noneLive prefixIds (by
      rw [sameIds, samePrefixes]
      exact prefixes)
  refine ⟨?_, ?_⟩
  · intro e member
    rw [cacheMachine.history_append, cacheMachine.history_append, cacheMachine.run_append,
      List.mem_append, List.mem_append] at member
    rcases member with (rolledBack | destroyed) | unpublished
    · exact first e rolledBack
    · exact second e destroyed
    · exact third e unpublished
  · rw [cacheMachine.run_append, cacheMachine.run_append]
    exact drained_of_empty holdsThird.toCacheOwnership dead nonePublished settled

/-- A prefix shared by two sequences, one of them with a reservation pending. -/
theorem cache_drains_shared :
    let calls : List CacheCall :=
      [.createSequence .unlimited 7 0, .reserve .unlimited 7 3, .commit .unlimited 1,
        .publishPrefix .unlimited 9 7, .createSequence .unlimited 8 9, .reserve .unlimited 8 6]
    let reached := cacheMachine.run { pages := List.replicate 4 {}, tokensPerPage := 2 } calls
    Drained 4 (cacheMachine.run reached
      ([2].map .rollback ++ [8, 7].map .destroySequence ++ [9].map .destroyPrefix)) :=
  (cache_drains .unlimited 4 2 { pages := List.replicate 4 {}, tokensPerPage := 2 } rfl
    [.createSequence .unlimited 7 0, .reserve .unlimited 7 3, .commit .unlimited 1,
      .publishPrefix .unlimited 9 7, .createSequence .unlimited 8 9, .reserve .unlimited 8 6]
    [2] [8, 7] [9] (by decide) (by decide) (by decide)).2

end MarketForge.Serving
