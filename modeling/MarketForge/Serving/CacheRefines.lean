import MarketForge.Library.Lookup
import MarketForge.Serving.CacheGrowth
import MarketForge.Serving.TokenLedger

/-!
# The paged cache keeps the ledger

`PagedKvCache.ledger` forgets the pages of a cache. In every reachable state a call on the cache is
answered as the ledger answers it and leaves the ledger of the next state (`cache_simulates`), so
whatever is called, no reply depends on which pages a sequence was given.
-/
namespace MarketForge.Serving

open OwnershipLedger (assign)

def Sequence.live (q : Sequence) : LiveSequence :=
  ⟨q.prefixId, q.prefixTokens.toNat, q.totalTokens.toNat⟩

def Prefix.live (p : Prefix) : LivePrefix := ⟨p.tokenCount.toNat, p.attachments.toNat⟩

def PendingReservation.promise (r : PendingReservation) : Promise :=
  ⟨r.sequenceId, r.targetTokenCount.toNat⟩

/-- The cache without its pages. -/
def PagedKvCache.ledger (cache : PagedKvCache) : TokenLedger where
  pageTokens := cache.tokensPerPage.toNat
  free := cache.freePages.length
  sequences := Keyed.lookup Sequence.id Sequence.live cache.sequences
  prefixes := Keyed.lookup Prefix.id Prefix.live cache.prefixes
  promises := Keyed.lookup PendingReservation.id PendingReservation.promise cache.reservations
  issued := (cache.nextReservationId - 1).toNat

section

variable {pageCount tokensPerPage : UInt32} {cache : PagedKvCache}

/-! ### Reading the ledger -/

theorem ledger_free : cache.ledger.free = cache.freePages.length := rfl

theorem ledger_sequence {s : SequenceId} {q : Sequence} (found : cache.findSequence s = some q) :
    cache.ledger.sequences s = some q.live :=
  congrArg (Option.map Sequence.live) found

theorem ledger_prefix {p : PrefixId} {shared : Prefix} (found : cache.findPrefix p = some shared) :
    cache.ledger.prefixes p = some shared.live :=
  congrArg (Option.map Prefix.live) found

theorem ledger_promise {id : ReservationId} {r : PendingReservation}
    (found : cache.findReservation id = some r) : cache.ledger.promises id = some r.promise :=
  congrArg (Option.map PendingReservation.promise) found

theorem ledger_promised (ids : CacheIds cache) (s : SequenceId) :
    cache.ledger.Promised s ↔ (cache.findSequenceReservation s).isSome := by
  constructor
  · rintro ⟨id, promise, open_, rfl⟩
    obtain ⟨r, found, rfl⟩ := Option.map_eq_some_iff.mp open_
    cases none : cache.findSequenceReservation r.promise.sequenceId with
    | some _ => rfl
    | none => exact absurd rfl (Keyed.find_eq_none_iff.mp none r (Keyed.find_mem found))
  · intro pending
    obtain ⟨r, found⟩ := Option.isSome_iff_exists.mp pending
    have listed := Keyed.find_of_mem ids.reservations_unique (Keyed.find_mem found) rfl
    have owner : r.sequenceId = s := Keyed.find_key found
    exact ⟨r.id, r.promise, congrArg (Option.map PendingReservation.promise) listed, owner⟩

/-- The counter stands at zero exactly when every identity was given out. -/
theorem ledger_exhausted : cache.ledger.issued = UInt64.size - 1 ↔ cache.nextReservationId = 0 := by
  change (cache.nextReservationId - 1).toNat = UInt64.size - 1 ↔ _
  rw [← UInt64.toNat_inj, UInt64.toNat_sub]
  have bound := cache.nextReservationId.toNat_lt
  simp only [UInt64.toNat_one, UInt64.toNat_zero, UInt64.size]
  omega

theorem ledger_issued_succ (counter : cache.nextReservationId ≠ 0) :
    cache.ledger.issued + 1 = cache.nextReservationId.toNat := by
  change (cache.nextReservationId - 1).toNat + 1 = _
  have bound := cache.nextReservationId.toNat_lt
  have started : cache.nextReservationId.toNat ≠ 0 := fun zero =>
    counter (UInt64.toNat_inj.mp zero)
  rw [UInt64.toNat_sub]
  simp only [UInt64.toNat_one]
  omega

theorem ledger_nextId (counter : cache.nextReservationId ≠ 0) :
    cache.ledger.nextId = cache.nextReservationId := by
  rw [TokenLedger.nextId, ledger_issued_succ counter, UInt64.ofNat_toNat]

theorem ledger_held (accounts : CacheAccounts cache) {q : Sequence} (member : q ∈ cache.sequences) :
    cache.ledger.held q.live = q.suffixPages.length :=
  (accounts.suffix_exact q member).symm

theorem ledger_lacking (accounts : CacheAccounts cache) {q : Sequence}
    (member : q ∈ cache.sequences) (target : UInt32) :
    cache.ledger.lacking q.live target.toNat = cache.lackingPages q target := by
  rw [TokenLedger.lacking, ledger_held accounts member]
  rfl

/-! ### Replies -/

/-- A refusal with a code, or the reply to a call that is applied. -/
private def answer (call : CacheCall) (accepted : LedgerReply) : Option ErrorCode → LedgerReply
  | some code => TokenLedger.refusedWith code call
  | none => accepted

private theorem step_reply (ledger : TokenLedger) (call : CacheCall) :
    (ledger.step call).1 = answer call (ledger.accepted call) (ledger.refusal call) := by
  rw [TokenLedger.step]
  cases ledger.refusal call <;> rfl

theorem createSequence_observed (alloc : Allocator) (s : SequenceId) (p : PrefixId) :
    (cacheStep cache (.createSequence alloc s p)).1.observed =
      (cache.ledger.step (.createSequence alloc s p)).1 := by
  have sequence : (cache.ledger.sequences s).isSome = (cache.findSequence s).isSome :=
    Option.isSome_map
  have shared : cache.ledger.prefixes p = (cache.findPrefix p).map Prefix.live := rfl
  rw [step_reply, TokenLedger.refusal, sequence, shared]
  change LedgerReply.status (cache.createSequence alloc s p).1 = _
  unfold PagedKvCache.createSequence
  split
  next => rfl
  next =>
    split
    next => cases alloc.caught [0] <;> rfl
    next =>
      cases cache.findPrefix p with
      | none => rfl
      | some p =>
        -- the ledger counts attachments in the naturals, the cache in a word
        have full : p.live.attachments = UInt64.size - 1 ↔
            p.attachments = UInt64.ofNat (UInt64.size - 1) := by
          rw [← UInt64.toNat_inj]
          rfl
        simp only [Option.map_some, full]
        split
        next => rfl
        next => cases alloc.caught [0] <;> rfl

theorem destroySequence_observed (holds : CacheInvariant pageCount.toNat tokensPerPage cache)
    (s : SequenceId) :
    (cacheStep cache (.destroySequence s)).1.observed =
      (cache.ledger.step (.destroySequence s)).1 := by
  have sequence : (cache.ledger.sequences s).isNone = (cache.findSequence s).isNone :=
    Option.isNone_map
  rw [step_reply, TokenLedger.refusal, sequence, ledger_promised holds.ids]
  change LedgerReply.status (cache.destroySequence s).1 = _
  cases found : cache.findSequence s with
  | none => simp [PagedKvCache.destroySequence, found, answer, TokenLedger.refusedWith]
  | some q =>
    cases settled : cache.findSequenceReservation s with
    | none =>
      rw [destroySequence_succeeds holds found settled]
      simp [answer, TokenLedger.accepted]
    | some r =>
      simp [PagedKvCache.destroySequence, found, settled, answer, TokenLedger.refusedWith]

theorem reserve_observed (holds : CacheInvariant pageCount.toNat tokensPerPage cache)
    (alloc : Allocator) (s : SequenceId) (target : UInt32) :
    (cacheStep cache (.reserve alloc s target)).1.observed =
      (cache.ledger.step (.reserve alloc s target)).1 := by
  have sequence : cache.ledger.sequences s = (cache.findSequence s).map Sequence.live := rfl
  rw [step_reply, TokenLedger.refusal, TokenLedger.accepted, sequence]
  change CacheReply.observed (.reservation (cache.reserve alloc s target).1) = _
  cases found : cache.findSequence s with
  | none =>
    rw [PagedKvCache.reserve, found]
    rfl
  | some q =>
    have shorter : target.toNat < q.live.totalTokens ↔ target < q.totalTokens :=
      UInt32.lt_iff_toNat_lt.symm
    simp only [Option.map_some, ledger_promised holds.ids, shorter, ledger_exhausted]
    by_cases refused : (cache.findSequenceReservation s).isSome ∨ target < q.totalTokens ∨
        cache.nextReservationId = 0
    · rw [if_pos refused, PagedKvCache.reserve, found]
      dsimp only
      rw [if_pos refused]
      rfl
    · rw [if_neg refused]
      simp only [not_or, Bool.not_eq_true, Option.isSome_eq_false_iff, Option.isNone_iff_eq_none,
        UInt32.not_lt] at refused
      obtain ⟨settled, grows, counter⟩ := refused
      -- the pages that the ledger counts are those that the scan looks for
      rw [reserve_outcome holds found settled counter grows,
        ledger_lacking holds.accounts (Keyed.find_mem found), ledger_nextId counter]
      cases alloc.caught [0] with
      | some code => rfl
      | none =>
        dsimp only
        change _ = answer _ _ (if cache.freePages.length < _ then _ else _)
        split
        next => rfl
        next enough =>
          cases alloc.caught [1, 2, 3] with
          | some code => rfl
          | none =>
            have taken : (cache.freePages.take (cache.lackingPages q target)).length =
                cache.lackingPages q target :=
              List.length_take_of_le (Nat.le_of_not_lt enough)
            simp only [CacheReply.observed, answer, Option.getD_some, taken]

theorem commit_observed (holds : CacheInvariant pageCount.toNat tokensPerPage cache)
    (alloc : Allocator) (id : ReservationId) :
    (cacheStep cache (.commit alloc id)).1.observed =
      (cache.ledger.step (.commit alloc id)).1 := by
  have promise : (cache.ledger.promises id).isNone = (cache.findReservation id).isNone :=
    Option.isNone_map
  rw [step_reply, TokenLedger.refusal, promise]
  change LedgerReply.status (cache.commit alloc id).1 = _
  rw [PagedKvCache.commit]
  cases found : cache.findReservation id with
  | none => rfl
  | some r =>
    -- the two failures that only a broken invariant could cause do not occur
    obtain ⟨q, live⟩ := reservation_sequence_live holds found
    dsimp only
    rw [live]
    dsimp only
    rw [if_neg (not_not.mpr (reservation_pages_marked holds found))]
    cases alloc.caught [0] <;> rfl

theorem rollback_observed (holds : CacheInvariant pageCount.toNat tokensPerPage cache)
    (id : ReservationId) :
    (cacheStep cache (.rollback id)).1.observed = (cache.ledger.step (.rollback id)).1 := by
  have promise : (cache.ledger.promises id).isNone = (cache.findReservation id).isNone :=
    Option.isNone_map
  rw [step_reply, TokenLedger.refusal, promise]
  change LedgerReply.status (cache.rollback id).1 = _
  cases found : cache.findReservation id with
  | none => simp [PagedKvCache.rollback, found, answer, TokenLedger.refusedWith]
  | some r =>
    rw [rollback_succeeds holds found]
    simp [answer, TokenLedger.accepted]

/-- A sequence with tokens and without a prefix has pages. -/
theorem stored_of_started (holds : CacheInvariant pageCount.toNat tokensPerPage cache)
    {q : Sequence} (member : q ∈ cache.sequences) (detached : q.prefixId = 0)
    (started : q.totalTokens ≠ 0) : q.suffixPages ≠ [] := by
  intro none
  have positive : cache.tokensPerPage ≠ 0 := holds.pageSize ▸ holds.positive
  have exact := holds.accounts.suffix_exact q member
  have covers := le_capacity_mul positive q.totalTokens.toNat
  rw [holds.accounts.detached q member detached, none, UInt32.toNat_zero, Nat.sub_zero,
    List.length_nil] at exact
  rw [← exact, Nat.zero_mul] at covers
  exact started (UInt32.toNat_inj.mp (Nat.le_zero.mp covers))

theorem publishPrefix_observed (holds : CacheInvariant pageCount.toNat tokensPerPage cache)
    (alloc : Allocator) (p : PrefixId) (s : SequenceId) :
    (cacheStep cache (.publishPrefix alloc p s)).1.observed =
      (cache.ledger.step (.publishPrefix alloc p s)).1 := by
  have sequence : cache.ledger.sequences s = (cache.findSequence s).map Sequence.live := rfl
  have shared : (cache.ledger.prefixes p).isSome = (cache.findPrefix p).isSome :=
    Option.isSome_map
  rw [step_reply, TokenLedger.refusal, sequence, shared]
  change LedgerReply.status (cache.publishPrefix alloc p s).1 = _
  rw [PagedKvCache.publishPrefix]
  cases found : cache.findSequence s with
  | none => rfl
  | some q =>
    have stored := stored_of_started holds (Keyed.find_mem found)
    have empty : q.live.totalTokens = 0 ↔ q.totalTokens = 0 := by
      rw [← UInt32.toNat_inj]
      rfl
    have attached : q.live.prefixId = q.prefixId := rfl
    simp only [Option.map_some, ledger_promised holds.ids, empty, attached]
    -- the code also asks for a page, which tokens imply
    have guard : (p = 0 ∨ (cache.findPrefix p).isSome ∨ q.prefixId ≠ 0 ∨ q.totalTokens = 0 ∨
        q.suffixPages = [] ∨ (cache.findSequenceReservation s).isSome) ↔
          (p = 0 ∨ (cache.findPrefix p).isSome ∨ q.prefixId ≠ 0 ∨ q.totalTokens = 0 ∨
            (cache.findSequenceReservation s).isSome) := by
      tauto
    simp only [guard]
    split
    next => rfl
    next =>
      rw [if_neg (not_not.mpr (sequence_pages_marked holds found))]
      cases alloc.caught [0, 1] <;> rfl

theorem destroyPrefix_observed (holds : CacheInvariant pageCount.toNat tokensPerPage cache)
    (p : PrefixId) :
    (cacheStep cache (.destroyPrefix p)).1.observed = (cache.ledger.step (.destroyPrefix p)).1 := by
  have shared : cache.ledger.prefixes p = (cache.findPrefix p).map Prefix.live := rfl
  rw [step_reply, TokenLedger.refusal, shared]
  change LedgerReply.status (cache.destroyPrefix p).1 = _
  rw [PagedKvCache.destroyPrefix]
  cases found : cache.findPrefix p with
  | none => rfl
  | some p =>
    -- a count in a word is zero exactly where the ledger's is
    have used : p.live.attachments ≠ 0 ↔ p.attachments ≠ 0 := by
      rw [ne_eq, ne_eq, ← UInt64.toNat_inj]
      rfl
    simp only [Option.map_some, used]
    split
    next => rfl
    next =>
      rw [if_neg (not_not.mpr (prefix_pages_marked holds found))]
      rfl

/-- Every call is answered as the ledger answers it. -/
theorem reply_observed (holds : CacheInvariant pageCount.toNat tokensPerPage cache)
    (call : CacheCall) : (cacheStep cache call).1.observed = (cache.ledger.step call).1 := by
  cases call with
  | createSequence alloc s p => exact createSequence_observed alloc s p
  | destroySequence s => exact destroySequence_observed holds s
  | reserve alloc s target => exact reserve_observed holds alloc s target
  | commit alloc id => exact commit_observed holds alloc id
  | rollback id => exact rollback_observed holds id
  | publishPrefix alloc p s => exact publishPrefix_observed holds alloc p s
  | destroyPrefix p => exact destroyPrefix_observed holds p

/-! ### States -/

theorem freePages_length : cache.freePages.length = pagesIn cache.pages .free := by
  have scan := selectFree_length cache.pages 0 (cache.freePages.length + pagesIn cache.pages .free)
  rw [selectFree_lowest, List.length_take] at scan
  omega

/-- Every page is free or in the list of one record. -/
theorem free_count (owned : CacheOwnership pageCount.toNat cache) :
    cache.freePages.length + ((cache.sequences.map fun q => q.suffixPages.length).sum +
      (cache.prefixes.map fun p => p.pages.length).sum +
      (cache.reservations.map fun r => r.pages.length).sum) = pageCount.toNat := by
  rw [← free_pages_count owned, freePages_length]
  simp [PagedKvCache.listedPages, List.length_flatMap, Nat.add_assoc]

/-- Two books that differ in nothing a caller can read. -/
theorem TokenLedger.same {a b : TokenLedger} (pageTokens : a.pageTokens = b.pageTokens)
    (free : a.free = b.free) (sequences : a.sequences = b.sequences)
    (prefixes : a.prefixes = b.prefixes) (promises : a.promises = b.promises)
    (issued : a.issued = b.issued) : a = b := by
  cases a
  cases b
  simp_all

theorem attach_absent {ledger : TokenLedger} {p : PrefixId} (absent : ledger.prefixes p = none)
    (count : Nat → Nat) : ledger.attach p count = ledger.prefixes := by
  rw [TokenLedger.attach, absent, Option.map_none, ← absent, Function.update_eq_self]

/-- The prefix table after its attachments were counted anew. -/
theorem attach_update {p : PrefixId} {shared : Prefix} (found : cache.findPrefix p = some shared)
    (count : UInt64 → UInt64) (exactly : Nat → Nat)
    (same : (count shared.attachments).toNat = exactly shared.attachments.toNat) :
    Keyed.lookup Prefix.id Prefix.live
        (Keyed.update Prefix.id cache.prefixes p fun p =>
          { p with attachments := count p.attachments }) =
      cache.ledger.attach p exactly := by
  rw [TokenLedger.attach, ledger_prefix found]
  refine (Keyed.lookup_update _ found _ ?_).trans ?_
  · intro _
    rfl
  · simp only [Prefix.live, same, Option.map_some]
    rfl

/-- Counting attachments moves no page. -/
theorem attach_pages (p : PrefixId) (count : UInt64 → UInt64) :
    (Keyed.update Prefix.id cache.prefixes p fun p =>
      { p with attachments := count p.attachments }).map (fun p => p.pages.length) =
      cache.prefixes.map fun p => p.pages.length :=
  Keyed.update_map _ _ _ _ fun _ => rfl

/-- No prefix has the identity that stands for none. -/
theorem ledger_prefix_zero (ids : CacheIds cache) : cache.ledger.prefixes 0 = none := by
  cases found : cache.findPrefix 0 with
  | none => exact congrArg (Option.map Prefix.live) found
  | some p =>
    exact absurd (List.mem_map.mpr ⟨p, Keyed.find_mem found, Keyed.find_key found⟩)
      ids.prefix_proper

section Applied

variable {after : PagedKvCache} {reply : CacheReply}
  (holds : CacheInvariant pageCount.toNat tokensPerPage cache)
  (kept : CacheInvariant pageCount.toNat tokensPerPage after)
include holds kept

/-! In each lemma `before` and `later` say that the free pages are what the lists leave over. -/

theorem CacheEffect.ledger_createSequence {alloc : Allocator} {s : SequenceId} {p : PrefixId}
    (effect : CacheEffect cache (.createSequence alloc s p) reply after)
    (success : reply.failed = false) :
    after.ledger = cache.ledger.applied (.createSequence alloc s p) := by
  have before := free_count holds.toCacheOwnership
  have later := free_count kept.toCacheOwnership
  cases effect with
  | refused failed => exact absurd failed (by simp [success])
  | @createdDetached _ s proper fresh =>
    have absent := ledger_prefix_zero holds.ids
    simp only [TokenLedger.applied, absent]
    apply TokenLedger.same
    case pageTokens => rfl
    case free =>
      simp only [List.map_append, List.sum_append, List.map_cons, List.map_nil, List.sum_cons,
        List.sum_nil, List.length_nil] at later
      simp only [ledger_free]
      omega
    case sequences =>
      exact Keyed.lookup_append Sequence.live (r := ⟨s, 0, 0, 0, []⟩) fresh
    case prefixes => exact (attach_absent absent _).symm
    case promises => rfl
    case issued => rfl
  | @createdAttached _ s p shared proper fresh named found room =>
    -- the guard on the maximum keeps the count from wrapping
    have counted : (shared.attachments + 1).toNat = shared.attachments.toNat + 1 := by
      have bound := shared.attachments.toNat_lt
      have below : shared.attachments.toNat ≠ 2 ^ 64 - 1 := fun full =>
        room (UInt64.toNat_inj.mp (full.trans (by decide)))
      rw [UInt64.toNat_add, UInt64.toNat_one]
      omega
    simp only [TokenLedger.applied, ledger_prefix found]
    apply TokenLedger.same
    case pageTokens => rfl
    case free =>
      simp only [attach_pages p (· + 1), List.map_append, List.sum_append, List.map_cons,
        List.map_nil, List.sum_cons, List.sum_nil, List.length_nil] at later
      simp only [ledger_free]
      omega
    case sequences =>
      exact Keyed.lookup_append Sequence.live
        (r := ⟨s, p, shared.tokenCount, shared.tokenCount, []⟩) fresh
    case prefixes => exact attach_update found (· + 1) (· + 1) counted
    case promises => rfl
    case issued => rfl

theorem CacheEffect.ledger_destroySequence {s : SequenceId}
    (effect : CacheEffect cache (.destroySequence s) reply after)
    (success : reply.failed = false) :
    after.ledger = cache.ledger.applied (.destroySequence s) := by
  have before := free_count holds.toCacheOwnership
  have later := free_count kept.toCacheOwnership
  cases effect with
  | refused failed => exact absurd failed (by simp [success])
  | @destroyedDetached s q found settled detached =>
    have absent : cache.ledger.prefixes q.live.prefixId = none := by
      change cache.ledger.prefixes q.prefixId = none
      rw [detached, ledger_prefix_zero holds.ids]
    have split := Keyed.sum_erase found fun q => q.suffixPages.length
    simp only [TokenLedger.applied, ledger_sequence found]
    apply TokenLedger.same
    case pageTokens => rfl
    case free =>
      dsimp only at later
      simp only [ledger_held holds.accounts (Keyed.find_mem found), ledger_free]
      omega
    case sequences => exact Keyed.lookup_erase _ holds.ids.sequences_unique s
    case prefixes => exact (attach_absent absent (· - 1)).symm
    case promises => rfl
    case issued => rfl
  | @destroyedAttached s q shared found settled attached foundPrefix referenced =>
    -- the prefix is referenced, so its count does not go below zero
    have counted : (shared.attachments - 1).toNat = shared.attachments.toNat - 1 := by
      have bound := shared.attachments.toNat_lt
      have used : shared.attachments.toNat ≠ 0 := fun zero =>
        referenced (UInt64.toNat_inj.mp zero)
      rw [UInt64.toNat_sub, UInt64.toNat_one]
      omega
    have split := Keyed.sum_erase found fun q => q.suffixPages.length
    simp only [TokenLedger.applied, ledger_sequence found]
    apply TokenLedger.same
    case pageTokens => rfl
    case free =>
      simp only [attach_pages q.prefixId (· - 1)] at later
      simp only [ledger_held holds.accounts (Keyed.find_mem found), ledger_free]
      omega
    case sequences => exact Keyed.lookup_erase _ holds.ids.sequences_unique s
    case prefixes => exact attach_update foundPrefix (· - 1) (· - 1) counted
    case promises => rfl
    case issued => rfl

theorem CacheEffect.ledger_reserve {alloc : Allocator} {s : SequenceId} {target : UInt32}
    (effect : CacheEffect cache (.reserve alloc s target) reply after)
    (success : reply.failed = false) :
    after.ledger = cache.ledger.applied (.reserve alloc s target) := by
  have before := free_count holds.toCacheOwnership
  have later := free_count kept.toCacheOwnership
  cases effect with
  | refused failed => exact absurd failed (by simp [success])
  | @reserved _ s target q selected found settled grows counter selection enough =>
    have exact := reserve_arithmetic holds (Keyed.find_mem found) grows
    have next := ledger_issued_succ counter
    rw [exact.lacking] at enough
    simp only [TokenLedger.applied, ledger_sequence found]
    apply TokenLedger.same
    case pageTokens => rfl
    case free =>
      simp only [List.map_append, List.sum_append, List.map_cons, List.map_nil, List.sum_cons,
        List.sum_nil, enough] at later
      simp only [TokenLedger.promise, ledger_lacking holds.accounts (Keyed.find_mem found),
        ledger_free]
      omega
    case sequences => rfl
    case prefixes => rfl
    case promises =>
      have fresh : cache.findReservation cache.nextReservationId = none :=
        Keyed.find_eq_none_iff.mpr fun r member same =>
          holds.ids.next_fresh counter (List.mem_map.mpr ⟨r, member, same⟩)
      simp only [TokenLedger.promise, ledger_nextId counter]
      exact Keyed.lookup_append PendingReservation.promise
        (r := ⟨cache.nextReservationId, s, target, selected⟩) fresh
    case issued =>
      change (cache.nextReservationId + 1 - 1).toNat = cache.ledger.issued + 1
      rw [next, UInt64.add_sub_cancel]

theorem CacheEffect.ledger_commit {alloc : Allocator} {id : ReservationId}
    (effect : CacheEffect cache (.commit alloc id) reply after)
    (success : reply.failed = false) : after.ledger = cache.ledger.applied (.commit alloc id) := by
  have before := free_count holds.toCacheOwnership
  have later := free_count kept.toCacheOwnership
  cases effect with
  | refused failed => exact absurd failed (by simp [success])
  | @committed _ id r q found foundSequence =>
    have grown := Keyed.sum_update foundSequence (fun q =>
      { q with
        suffixPages := q.suffixPages ++ r.pages
        totalTokens := r.targetTokenCount }) fun q => q.suffixPages.length
    have split := Keyed.sum_erase foundSequence fun q => q.suffixPages.length
    have closed := Keyed.sum_erase found fun r => r.pages.length
    simp only [TokenLedger.applied, ledger_promise found]
    apply TokenLedger.same
    case pageTokens => rfl
    case free =>
      simp only [List.length_append] at later grown
      simp only [ledger_free]
      omega
    case sequences =>
      simp only [PendingReservation.promise, ledger_sequence foundSequence, Option.map_some]
      exact Keyed.lookup_update Sequence.live foundSequence _ fun _ => rfl
    case prefixes => rfl
    case promises => exact Keyed.lookup_erase _ holds.ids.reservations_unique id
    case issued => rfl

theorem CacheEffect.ledger_rollback {id : ReservationId}
    (effect : CacheEffect cache (.rollback id) reply after)
    (success : reply.failed = false) : after.ledger = cache.ledger.applied (.rollback id) := by
  have before := free_count holds.toCacheOwnership
  have later := free_count kept.toCacheOwnership
  cases effect with
  | refused failed => exact absurd failed (by simp [success])
  | @rolledBack id r found =>
    obtain ⟨q, member, owner, grows, exact⟩ :=
      holds.accounts.pending_exact r (Keyed.find_mem found)
    have live : cache.findSequence r.sequenceId = some q :=
      Keyed.find_of_mem holds.ids.sequences_unique member owner
    have closed := Keyed.sum_erase found fun r => r.pages.length
    simp only [TokenLedger.applied, ledger_promise found]
    apply TokenLedger.same
    case pageTokens => rfl
    case free =>
      dsimp only at later
      simp only [PendingReservation.promise, ledger_sequence live, Option.map_some,
        Option.getD_some, ledger_lacking holds.accounts member, ledger_free]
      rw [PagedKvCache.lackingPages, ← exact]
      omega
    case sequences => rfl
    case prefixes => rfl
    case promises => exact Keyed.lookup_erase _ holds.ids.reservations_unique id
    case issued => rfl

theorem CacheEffect.ledger_publishPrefix {alloc : Allocator} {p : PrefixId} {s : SequenceId}
    (effect : CacheEffect cache (.publishPrefix alloc p s) reply after)
    (success : reply.failed = false) :
    after.ledger = cache.ledger.applied (.publishPrefix alloc p s) := by
  have before := free_count holds.toCacheOwnership
  have later := free_count kept.toCacheOwnership
  cases effect with
  | refused failed => exact absurd failed (by simp [success])
  | @published _ p s q found named fresh detached started settled =>
    have emptied := Keyed.sum_update found (fun q =>
      { q with prefixId := p, prefixTokens := q.totalTokens, suffixPages := [] })
      fun q => q.suffixPages.length
    have split := Keyed.sum_erase found fun q => q.suffixPages.length
    simp only [TokenLedger.applied, ledger_sequence found]
    apply TokenLedger.same
    case pageTokens => rfl
    case free =>
      simp only [List.map_append, List.sum_append, List.map_cons, List.map_nil, List.sum_cons,
        List.sum_nil] at later
      simp only [List.length_nil] at emptied
      simp only [ledger_free]
      omega
    case sequences => exact Keyed.lookup_update Sequence.live found _ fun _ => rfl
    case prefixes =>
      exact Keyed.lookup_append Prefix.live
        (r := ⟨p, q.totalTokens, 1, q.suffixPages⟩) fresh
    case promises => rfl
    case issued => rfl

theorem CacheEffect.ledger_destroyPrefix {p : PrefixId}
    (effect : CacheEffect cache (.destroyPrefix p) reply after)
    (success : reply.failed = false) : after.ledger = cache.ledger.applied (.destroyPrefix p) := by
  have before := free_count holds.toCacheOwnership
  have later := free_count kept.toCacheOwnership
  cases effect with
  | refused failed => exact absurd failed (by simp [success])
  | @destroyedPrefix p shared found unused =>
    have exact := holds.accounts.prefix_exact shared (Keyed.find_mem found)
    have split := Keyed.sum_erase found fun p => p.pages.length
    simp only [TokenLedger.applied, ledger_prefix found]
    apply TokenLedger.same
    case pageTokens => rfl
    case free =>
      have stored : cache.ledger.pages shared.live.tokenCount = shared.pages.length := exact.symm
      dsimp only at later
      simp only [stored, ledger_free]
      omega
    case sequences => rfl
    case prefixes => exact Keyed.lookup_erase _ holds.ids.prefixes_unique p
    case promises => rfl
    case issued => rfl

/-- What a call that succeeds does to the ledger. -/
theorem CacheEffect.ledger {call : CacheCall} (effect : CacheEffect cache call reply after)
    (success : reply.failed = false) : after.ledger = cache.ledger.applied call := by
  cases call with
  | createSequence => exact effect.ledger_createSequence holds kept success
  | destroySequence => exact effect.ledger_destroySequence holds kept success
  | reserve => exact effect.ledger_reserve holds kept success
  | commit => exact effect.ledger_commit holds kept success
  | rollback => exact effect.ledger_rollback holds kept success
  | publishPrefix => exact effect.ledger_publishPrefix holds kept success
  | destroyPrefix => exact effect.ledger_destroyPrefix holds kept success

end Applied

/-! ### The simulation -/

/-- Every call leaves the ledger of the state that it leaves. -/
theorem ledger_stepped (holds : CacheInvariant pageCount.toNat tokensPerPage cache)
    (call : CacheCall) : (cacheStep cache call).2.ledger = (cache.ledger.step call).2 := by
  have observed := congrArg LedgerReply.failed (reply_observed holds call)
  rw [observed_failed] at observed
  have effect := cacheStep_effect cache call
  have kept : CacheInvariant pageCount.toNat tokensPerPage (cacheStep cache call).2 :=
    holds.step cache call
  -- the ledger decides whether the call is refused, and the reply tells which effect it had
  cases refused : cache.ledger.refusal call with
  | some code =>
    simp only [TokenLedger.step, refused] at observed ⊢
    rw [TokenLedger.refusedWith_failed (TokenLedger.refusal_ne_ok refused)] at observed
    generalize (cacheStep cache call).1 = reply at observed effect
    generalize (cacheStep cache call).2 = after at effect ⊢
    cases effect with
    | refused => rfl
    | _ => cases observed
  | none =>
    simp only [TokenLedger.step, refused] at observed ⊢
    rw [TokenLedger.accepted_failed] at observed
    exact effect.ledger holds kept observed

/-- The ledger is an exact picture of the cache, call by call. -/
theorem cache_simulates (pageCount tokensPerPage : UInt32) :
    cacheMachine.Simulates ledgerMachine (CacheInvariant pageCount.toNat tokensPerPage)
      PagedKvCache.ledger CacheReply.observed where
  kept := CacheInvariant.step
  commutes := fun _ call holds =>
    Prod.ext (reply_observed holds call).symm (ledger_stepped holds call).symm

end

theorem created_ledger {alloc : Allocator} {pageCount tokensPerPage : UInt32}
    {cache : PagedKvCache}
    (created : PagedKvCache.create alloc pageCount tokensPerPage = .ok cache) :
    cache.ledger = .empty pageCount.toNat tokensPerPage.toNat := by
  have owned := CacheOwnership.create created
  have free := free_count owned
  obtain ⟨_, rfl⟩ := create_eq created
  apply TokenLedger.same
  case pageTokens => rfl
  case free =>
    rw [ledger_free]
    simpa [TokenLedger.empty] using free
  case sequences => rfl
  case prefixes => rfl
  case promises => rfl
  case issued => exact (by decide : ((1 : UInt64) - 1).toNat = 0)

/-- Whatever is called on a created cache, the replies, page identities left out, are those of a
ledger that knows no pages, and the cache keeps that ledger. -/
theorem cache_refines_ledger (alloc : Allocator) (pageCount tokensPerPage : UInt32)
    (cache : PagedKvCache)
    (created : PagedKvCache.create alloc pageCount tokensPerPage = .ok cache)
    (calls : List CacheCall) :
    let start := TokenLedger.empty pageCount.toNat tokensPerPage.toNat
    (cacheMachine.history cache calls).map (fun e => e.reply.observed) =
        (ledgerMachine.history start calls).map Transition.Event.reply ∧
      (cacheMachine.run cache calls).ledger = ledgerMachine.run start calls := by
  intro start
  have holds : CacheInvariant pageCount.toNat tokensPerPage cache := CacheInvariant.run created []
  have simulates := cache_simulates pageCount tokensPerPage
  have same : cache.ledger = start := created_ledger created
  refine ⟨?_, ?_⟩
  · rw [simulates.replies cache holds calls, same]
  · rw [simulates.run cache holds calls, same]

/-- A reservation between freed pages is granted for the number of free pages only. -/
theorem cache_refines_ledger_fragmented :
    let calls : List CacheCall :=
      [.createSequence .unlimited 7 0, .reserve .unlimited 7 2, .commit .unlimited 1,
        .createSequence .unlimited 5 0, .reserve .unlimited 5 2, .commit .unlimited 2,
        .destroySequence 7, .reserve .unlimited 5 8]
    ((ledgerMachine.history (.empty 4 2) calls).map Transition.Event.reply).getLast? =
      some (.granted 3 5 8 3) := by
  have refines := cache_refines_ledger .unlimited 4 2
    { pages := List.replicate 4 {}, tokensPerPage := 2 } rfl
    [.createSequence .unlimited 7 0, .reserve .unlimited 7 2, .commit .unlimited 1,
      .createSequence .unlimited 5 0, .reserve .unlimited 5 2, .commit .unlimited 2,
      .destroySequence 7, .reserve .unlimited 5 8]
  exact (congrArg List.getLast? refines.1.symm).trans (by decide)

/-- Two runs that leave one ledger leave caches that no calls tell apart, wherever their pages
lie. -/
theorem fragmentation_unobservable {alloc : Allocator} {pageCount tokensPerPage : UInt32}
    {cache : PagedKvCache}
    (created : PagedKvCache.create alloc pageCount tokensPerPage = .ok cache)
    (one other : List CacheCall)
    (same : (cacheMachine.run cache one).ledger = (cacheMachine.run cache other).ledger)
    (calls : List CacheCall) :
    (cacheMachine.history (cacheMachine.run cache one) calls).map (fun e => e.reply.observed) =
      (cacheMachine.history (cacheMachine.run cache other) calls).map
        fun e => e.reply.observed :=
  ((cache_simulates pageCount tokensPerPage).indistinguishable _ _
    (CacheInvariant.run created one) (CacheInvariant.run created other) same calls).1

end MarketForge.Serving
