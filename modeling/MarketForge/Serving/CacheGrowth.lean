import MarketForge.Serving.CacheMetrics

/-!
# Growing a sequence

With memory granted, the calls that create a sequence, reserve and commit its pages and publish a
prefix succeed whenever their arguments are right and enough pages are free. The pages that are
not free are the listed ones, so their number follows from the tables (`free_pages_count`).
-/
namespace MarketForge.Serving

open OwnershipLedger (assign)

/-! ### Free pages -/

/-- The scan finds as many free pages as there are, up to the number wanted. -/
theorem selectFree_length (pages : List Page) (index wanted : Nat) :
    (selectFree pages index wanted).length = min wanted (pagesIn pages .free) := by
  induction pages generalizing index wanted with
  | nil => simp [selectFree, pagesIn]
  | cons page rest ih =>
    cases wanted with
    | zero => simp [selectFree]
    | succ wanted =>
      rw [selectFree, pagesIn, List.countP_cons]
      by_cases free : page.state = .free
      · rw [if_pos free, List.length_cons, ih]
        simp only [free, decide_true, if_true, pagesIn]
        omega
      · rw [if_neg free, ih]
        simp only [free, decide_false, pagesIn]
        simp

section

variable {pageCount : Nat} {tokensPerPage : UInt32} {cache : PagedKvCache}

/-- A page is free or listed once. -/
theorem free_pages_count (owned : CacheOwnership pageCount cache) :
    pagesIn cache.pages .free + cache.listedPages.length = pageCount := by
  have once := owned.ownedOnce
  have listed : (List.range pageCount).countP (fun p => decide (p ∈ cache.listedPages)) =
      cache.listedPages.length := by
    rw [List.countP_eq_length_filter]
    apply List.Perm.length_eq
    rw [List.perm_ext_iff_of_nodup (List.nodup_range.filter _) once.listed_nodup]
    intro p
    simp only [List.mem_filter, List.mem_range, decide_eq_true_eq]
    exact ⟨And.right, fun member => ⟨once.listed_lt p member, member⟩⟩
  have array : cache.pages = (List.range pageCount).map fun p => cache.pages.getD p {} := by
    refine List.ext_getElem (by simp [owned.count]) fun p here _ => ?_
    simp [List.getD_eq_getElem?_getD, List.getElem?_eq_getElem here]
  have free : pagesIn cache.pages .free =
      (List.range pageCount).countP fun p => !decide (p ∈ cache.listedPages) := by
    conv_lhs => rw [pagesIn, array, List.countP_map]
    refine List.countP_congr fun p member => ?_
    have inside : p < cache.pages.length := owned.count ▸ List.mem_range.mp member
    have here : cache.pages[p]? = some (cache.pages.getD p {}) := by
      simp [List.getD_eq_getElem?_getD, List.getElem?_eq_getElem inside]
    have unlisted := once.free_iff p (List.mem_range.mp member)
    rw [here, Option.some_inj] at unlisted
    simp only [Function.comp_apply, decide_eq_true_eq, Bool.not_eq_true', decide_eq_false_iff_not]
    rw [← unlisted]
    refine ⟨fun state => owned.books.free_page here state, fun page => ?_⟩
    rw [page]
  have all : (List.range pageCount).length =
      (List.range pageCount).countP (fun p => decide (p ∈ cache.listedPages)) +
        (List.range pageCount).countP fun p => !decide (p ∈ cache.listedPages) := by
    rw [List.length_eq_countP_add_countP fun p => decide (p ∈ cache.listedPages)]
    simp
  rw [List.length_range, listed] at all
  omega

/-- Without reservations no page is pending. -/
theorem no_pending_pages (owned : CacheOwnership pageCount cache)
    (settled : cache.reservations = []) : pagesIn cache.pages .reserved = 0 := by
  rw [pagesIn, List.countP_eq_zero]
  intro page member
  obtain ⟨p, at_p⟩ := List.mem_iff_getElem?.mp member
  simp only [decide_eq_true_eq]
  intro pending
  obtain ⟨state, owner⟩ := page
  obtain rfl := pending
  obtain ⟨r, listed, _⟩ := (owned.ownedOnce.reserved_iff p owner).mp at_p
  rw [settled] at listed
  cases listed

/-! ### Calls that succeed -/

theorem createSequence_detached {id : SequenceId} (proper : id ≠ 0)
    (fresh : cache.findSequence id = none) :
    cache.createSequence .unlimited id 0 =
      (.success, { cache with sequences := cache.sequences ++ [⟨id, 0, 0, 0, []⟩] }) := by
  rw [PagedKvCache.createSequence, if_neg (by simp [proper, fresh]), if_pos rfl, unlimited_caught]

theorem createSequence_attached {id : SequenceId} {prefixId : PrefixId} {shared : Prefix}
    (proper : id ≠ 0) (fresh : cache.findSequence id = none) (named : prefixId ≠ 0)
    (found : cache.findPrefix prefixId = some shared)
    (room : shared.attachments ≠ UInt64.ofNat (UInt64.size - 1)) :
    cache.createSequence .unlimited id prefixId =
      (.success, { cache with
        sequences := cache.sequences ++ [⟨id, prefixId, shared.tokenCount, shared.tokenCount, []⟩]
        prefixes := Keyed.update Prefix.id cache.prefixes prefixId fun p =>
          { p with attachments := p.attachments + 1 } }) := by
  rw [PagedKvCache.createSequence, if_neg (by simp [proper, fresh]), if_neg named, found]
  dsimp only
  rw [if_neg room, unlimited_caught]

theorem reserve_succeeds {id : SequenceId} {q : Sequence} {target : UInt32}
    (found : cache.findSequence id = some q)
    (settled : cache.findSequenceReservation id = none) (grows : q.totalTokens ≤ target)
    (counter : cache.nextReservationId ≠ 0)
    (enough : (cache.newPageCount q target).toNat ≤ pagesIn cache.pages .free) :
    ∃ selected, cache.reserve .unlimited id target =
      (.ok ⟨cache.nextReservationId, id, target, selected⟩, { cache with
        reservations := cache.reservations ++ [⟨cache.nextReservationId, id, target, selected⟩]
        pages := assign cache.pages selected ⟨.reserved, cache.nextReservationId⟩
        nextReservationId := cache.nextReservationId + 1 }) := by
  have scanned : (selectFree cache.pages 0 (cache.newPageCount q target).toNat).length =
      (cache.newPageCount q target).toNat := by
    rw [selectFree_length]
    omega
  refine ⟨selectFree cache.pages 0 (cache.newPageCount q target).toNat, ?_⟩
  rw [PagedKvCache.reserve, found]
  dsimp only
  rw [settled, if_neg (by simp [counter, grows]), unlimited_caught]
  dsimp only
  rw [if_neg (not_not.mpr scanned), unlimited_caught]

theorem commit_succeeds (holds : CacheInvariant pageCount tokensPerPage cache)
    {id : ReservationId} {r : PendingReservation} {q : Sequence}
    (found : cache.findReservation id = some r)
    (foundSequence : cache.findSequence r.sequenceId = some q) :
    cache.commit .unlimited id = (.success, { cache with
      sequences := Keyed.update Sequence.id cache.sequences r.sequenceId fun q =>
        { q with
          suffixPages := q.suffixPages ++ r.pages
          totalTokens := r.targetTokenCount }
      pages := assign cache.pages r.pages ⟨.mutableSequence, q.id⟩
      reservations := Keyed.erase PendingReservation.id cache.reservations id }) := by
  rw [PagedKvCache.commit, found]
  dsimp only
  rw [foundSequence]
  dsimp only
  rw [if_neg (not_not.mpr (reservation_pages_marked holds found)), unlimited_caught]

theorem publishPrefix_succeeds (holds : CacheInvariant pageCount tokensPerPage cache)
    {prefixId : PrefixId} {id : SequenceId} {q : Sequence}
    (found : cache.findSequence id = some q) (named : prefixId ≠ 0)
    (fresh : cache.findPrefix prefixId = none) (detached : q.prefixId = 0)
    (started : q.totalTokens ≠ 0) (stored : q.suffixPages ≠ [])
    (settled : cache.findSequenceReservation id = none) :
    cache.publishPrefix .unlimited prefixId id = (.success, { cache with
      prefixes := cache.prefixes ++ [⟨prefixId, q.totalTokens, 1, q.suffixPages⟩]
      pages := assign cache.pages q.suffixPages ⟨.immutablePrefix, prefixId⟩
      sequences := Keyed.update Sequence.id cache.sequences id fun q =>
        { q with prefixId := prefixId, prefixTokens := q.totalTokens, suffixPages := [] } }) := by
  rw [PagedKvCache.publishPrefix, found]
  dsimp only
  rw [if_neg (by simp [named, fresh, detached, started, stored, settled]),
    if_neg (not_not.mpr (sequence_pages_marked holds found)), unlimited_caught]

/-! ### Single calls keep the invariant -/

namespace CacheInvariant

variable (holds : CacheInvariant pageCount tokensPerPage cache)
include holds

theorem createSequence (alloc : Allocator) (id : SequenceId) (prefixId : PrefixId) :
    CacheInvariant pageCount tokensPerPage (cache.createSequence alloc id prefixId).2 :=
  holds.step cache (.createSequence alloc id prefixId)

theorem destroySequence (id : SequenceId) :
    CacheInvariant pageCount tokensPerPage (cache.destroySequence id).2 :=
  holds.step cache (.destroySequence id)

theorem reserve (alloc : Allocator) (id : SequenceId) (target : UInt32) :
    CacheInvariant pageCount tokensPerPage (cache.reserve alloc id target).2 :=
  holds.step cache (.reserve alloc id target)

theorem commit (alloc : Allocator) (id : ReservationId) :
    CacheInvariant pageCount tokensPerPage (cache.commit alloc id).2 :=
  holds.step cache (.commit alloc id)

theorem publishPrefix (alloc : Allocator) (prefixId : PrefixId) (id : SequenceId) :
    CacheInvariant pageCount tokensPerPage (cache.publishPrefix alloc prefixId id).2 :=
  holds.step cache (.publishPrefix alloc prefixId id)

theorem destroyPrefix (prefixId : PrefixId) :
    CacheInvariant pageCount tokensPerPage (cache.destroyPrefix prefixId).2 :=
  holds.step cache (.destroyPrefix prefixId)

end CacheInvariant

/-! ### Both phases of growth -/

/-- What a reservation and its commit change when nothing else is pending. -/
structure Grown (cache : PagedKvCache) (id : SequenceId) (target : UInt32)
    (newPages : List KvPageId) (after : PagedKvCache) : Prop where
  sequences : after.sequences = Keyed.update Sequence.id cache.sequences id fun q =>
    { q with suffixPages := q.suffixPages ++ newPages, totalTokens := target }
  prefixes : after.prefixes = cache.prefixes
  reservations : after.reservations = []
  counter : after.nextReservationId = cache.nextReservationId + 1

theorem grow_succeeds (holds : CacheInvariant pageCount tokensPerPage cache) {id : SequenceId}
    {q : Sequence} {target : UInt32} (found : cache.findSequence id = some q)
    (settled : cache.reservations = []) (grows : q.totalTokens ≤ target)
    (counter : cache.nextReservationId ≠ 0)
    (enough : cache.capacity (target.toNat - q.prefixTokens.toNat) ≤
      pagesIn cache.pages .free + q.suffixPages.length) :
    ∃ reservation reserved committed,
      cache.reserve .unlimited id target = (.ok reservation, reserved) ∧
      reserved.commit .unlimited reservation.id = (.success, committed) ∧
      CacheInvariant pageCount tokensPerPage committed ∧
      Grown cache id target reservation.newPages committed := by
  have member : q ∈ cache.sequences := Keyed.find_mem found
  have wanted : q.suffixPages.length + (cache.newPageCount q target).toNat =
      cache.capacity (target.toNat - q.prefixTokens.toNat) := by
    apply newPageCount_toNat (by rw [holds.pageSize]; exact holds.positive)
    · exact UInt32.le_trans (holds.accounts.prefix_le q member) grows
    · rw [holds.accounts.suffix_exact q member]
      have more := UInt32.le_iff_toNat_le.mp grows
      exact capacity_le (by omega)
  obtain ⟨selected, reservation⟩ := reserve_succeeds found
    (by rw [PagedKvCache.findSequenceReservation, settled]; rfl) grows counter (by omega)
  rw [settled, List.nil_append] at reservation
  have reservedHolds := holds.reserve .unlimited id target
  rw [reservation] at reservedHolds
  have pending : Keyed.find PendingReservation.id
      [⟨cache.nextReservationId, id, target, selected⟩] cache.nextReservationId =
        some ⟨cache.nextReservationId, id, target, selected⟩ := by
    simp [Keyed.find]
  have commitment := commit_succeeds reservedHolds pending found
  have committedHolds := reservedHolds.commit .unlimited cache.nextReservationId
  rw [commitment] at committedHolds
  refine ⟨_, _, _, reservation, commitment, committedHolds, ?_⟩
  exact ⟨rfl, rfl, by simp [Keyed.erase], rfl⟩

end

end MarketForge.Serving
