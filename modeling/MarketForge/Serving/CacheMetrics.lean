import Mathlib.Algebra.Order.BigOperators.Group.List
import MarketForge.Core.Shape
import MarketForge.Serving.CacheChecks
import MarketForge.Serving.PageTables

/-!
# Metrics

`metrics` counts pages by state, checking the owner of each, and sums the tokens of the live
sequences in checked 64-bit arithmetic. In every state a run can reach with fewer than `2 ^ 30`
live sequences the checks pass and the numbers are the exact ones.
-/
namespace MarketForge.Serving

structure KvCacheMetrics where
  totalPages : UInt64 := 0
  freePages : UInt64 := 0
  pendingPages : UInt64 := 0
  mutablePages : UInt64 := 0
  sharedPrefixPages : UInt64 := 0
  sequenceCount : UInt64 := 0
  prefixCount : UInt64 := 0
  prefixAttachments : UInt64 := 0
  logicalPayloadTokens : UInt64 := 0
  logicalReservedTokens : UInt64 := 0
  logicalFragmentationTokens : UInt64 := 0
  physicalCommittedTokens : UInt64 := 0
  deriving DecidableEq, Repr

/-- The counter of the state of a page. -/
def countPage (result : KvCacheMetrics) (page : Page) : KvCacheMetrics :=
  match page.state with
  | .free => { result with freePages := result.freePages + 1 }
  | .reserved => { result with pendingPages := result.pendingPages + 1 }
  | .mutableSequence => { result with mutablePages := result.mutablePages + 1 }
  | .immutablePrefix => { result with sharedPrefixPages := result.sharedPrefixPages + 1 }

namespace PagedKvCache

/-- The owner that a page names exists and lists the page. -/
def ownerIsValid (cache : PagedKvCache) (page : Page) (pageId : KvPageId) : Bool :=
  match page.state with
  | .free => decide (page.owner = 0)
  | .reserved => (cache.findReservation page.owner).any fun r => r.pages.contains pageId
  | .mutableSequence => (cache.findSequence page.owner).any fun q => q.suffixPages.contains pageId
  | .immutablePrefix => (cache.findPrefix page.owner).any fun p => p.pages.contains pageId

/-- The loop over the pages from an index on. -/
def countPages (cache : PagedKvCache) : List Page → KvPageId → KvCacheMetrics →
    Result KvCacheMetrics
  | [], _, result => .ok result
  | page :: rest, pageId, result =>
    if cache.ownerIsValid page pageId then
      countPages cache rest (pageId + 1) (countPage result page)
    else .error (.failure .invalidFormat)

/-- One turn of the loop over the prefixes. -/
def countAttachments (result : KvCacheMetrics) (shared : Prefix) : Result KvCacheMetrics := do
  let sum ← checkedAdd result.prefixAttachments shared.attachments
  return { result with prefixAttachments := sum }

/-- One turn of the loop over the sequences. -/
def countTokens (cache : PagedKvCache) (result : KvCacheMetrics) (sequence : Sequence) :
    Result KvCacheMetrics := do
  let payload ← checkedAdd result.logicalPayloadTokens sequence.totalTokens.toUInt64
  if sequence.prefixId ≠ 0 ∧ (cache.attachedPrefix sequence).isNone then
    throw (.failure .invalidFormat)
  else
    let logicalPages := UInt64.ofNat sequence.suffixPages.length
      + UInt64.ofNat (cache.sharedPages sequence).length
    let logicalCapacity ← checkedMultiply logicalPages cache.tokensPerPage.toUInt64
    let reserved ← checkedAdd result.logicalReservedTokens logicalCapacity
    return { result with logicalPayloadTokens := payload, logicalReservedTokens := reserved }

def metrics (cache : PagedKvCache) : Result KvCacheMetrics := do
  let counted ← cache.countPages cache.pages 0
    { totalPages := UInt64.ofNat cache.pages.length
      sequenceCount := UInt64.ofNat cache.sequences.length
      prefixCount := UInt64.ofNat cache.prefixes.length }
  let attached ← cache.prefixes.foldlM countAttachments counted
  let result ← cache.sequences.foldlM cache.countTokens attached
  if result.logicalReservedTokens < result.logicalPayloadTokens then
    throw (.failure .invalidFormat)
  else
    let committedPages := result.mutablePages + result.sharedPrefixPages
    let committed ← checkedMultiply committedPages cache.tokensPerPage.toUInt64
    return { result with
      logicalFragmentationTokens := result.logicalReservedTokens - result.logicalPayloadTokens
      physicalCommittedTokens := committed }

end PagedKvCache

/-! ### Counting pages -/

/-- The pages in a state. -/
def pagesIn (pages : List Page) (state : PageState) : Nat := pages.countP fun p => p.state = state

theorem pages_in_all (pages : List Page) :
    pagesIn pages .free + pagesIn pages .reserved + pagesIn pages .mutableSequence
      + pagesIn pages .immutablePrefix = pages.length := by
  induction pages with
  | nil => rfl
  | cons page rest ih =>
    simp only [pagesIn, List.countP_cons, List.length_cons] at ih ⊢
    cases page.state <;> simp <;> omega

/-- The counters after the loop over the pages. -/
theorem countPage_foldl (pages : List Page) (result : KvCacheMetrics) :
    pages.foldl countPage result = { result with
      freePages := result.freePages + UInt64.ofNat (pagesIn pages .free)
      pendingPages := result.pendingPages + UInt64.ofNat (pagesIn pages .reserved)
      mutablePages := result.mutablePages + UInt64.ofNat (pagesIn pages .mutableSequence)
      sharedPrefixPages :=
        result.sharedPrefixPages + UInt64.ofNat (pagesIn pages .immutablePrefix) } := by
  induction pages generalizing result with
  | nil => simp [pagesIn]
  | cons page rest ih =>
    rw [List.foldl_cons, ih]
    cases state : page.state with
    | free => simp [countPage, pagesIn, state, UInt64.ofNat_add,
      UInt64.add_assoc, UInt64.add_comm 1]
    | reserved =>
      simp [countPage, pagesIn, state, UInt64.ofNat_add, UInt64.add_assoc, UInt64.add_comm 1]
    | mutableSequence =>
      simp [countPage, pagesIn, state, UInt64.ofNat_add, UInt64.add_assoc, UInt64.add_comm 1]
    | immutablePrefix =>
      simp [countPage, pagesIn, state, UInt64.ofNat_add, UInt64.add_assoc, UInt64.add_comm 1]

section

variable {pageCount : Nat} {tokensPerPage : UInt32} {cache : PagedKvCache}

theorem owner_is_valid (holds : CacheInvariant pageCount tokensPerPage cache) {p : KvPageId}
    {page : Page} (at_p : cache.pages[p]? = some page) : cache.ownerIsValid page p = true := by
  have owned := holds.ownedOnce
  obtain ⟨state, owner⟩ := page
  cases state with
  | free =>
    have blank := holds.books.free_page at_p rfl
    simp only [PagedKvCache.ownerIsValid, decide_eq_true_eq]
    exact congrArg Page.owner blank
  | reserved =>
    obtain ⟨r, member, same, listed⟩ := (owned.reserved_iff p owner).mp at_p
    have found : cache.findReservation owner = some r :=
      Keyed.find_of_mem holds.ids.reservations_unique member same
    simp [PagedKvCache.ownerIsValid, found, listed]
  | mutableSequence =>
    obtain ⟨q, member, same, listed⟩ := (owned.mutable_iff p owner).mp at_p
    have found : cache.findSequence owner = some q :=
      Keyed.find_of_mem holds.ids.sequences_unique member same
    simp [PagedKvCache.ownerIsValid, found, listed]
  | immutablePrefix =>
    obtain ⟨shared, member, same, listed⟩ := (owned.immutable_iff p owner).mp at_p
    have found : cache.findPrefix owner = some shared :=
      Keyed.find_of_mem holds.ids.prefixes_unique member same
    simp [PagedKvCache.ownerIsValid, found, listed]

/-- The loop over the pages finds every owner. -/
theorem countPages_ok (pages : List Page) (index : Nat) (result : KvCacheMetrics)
    (valid : ∀ (i : Nat) page, pages[i]? = some page →
      cache.ownerIsValid page (index + i) = true) :
    cache.countPages pages index result = .ok (pages.foldl countPage result) := by
  induction pages generalizing index result with
  | nil => rfl
  | cons page rest ih =>
    have first : cache.ownerIsValid page index = true := valid 0 page rfl
    rw [PagedKvCache.countPages, if_pos first]
    apply ih
    intro i other at_i
    have later := valid (i + 1) other at_i
    have position : index + 1 + i = index + (i + 1) := by omega
    rwa [← position] at later

/-! ### Summing attachments and tokens -/

theorem countAttachments_foldlM (prefixes : List Prefix) (result : KvCacheMetrics)
    (fits : result.prefixAttachments.toNat + (prefixes.map fun p => p.attachments.toNat).sum
      < 2 ^ 64) :
    ∃ sum : UInt64,
      prefixes.foldlM PagedKvCache.countAttachments result =
        .ok { result with prefixAttachments := sum } ∧
      sum.toNat =
        result.prefixAttachments.toNat + (prefixes.map fun p => p.attachments.toNat).sum := by
  induction prefixes generalizing result with
  | nil => exact ⟨result.prefixAttachments, rfl, rfl⟩
  | cons shared rest ih =>
    rw [List.map_cons, List.sum_cons] at fits ⊢
    have here : result.prefixAttachments.toNat + shared.attachments.toNat < 2 ^ 64 := by omega
    have exact : (result.prefixAttachments + shared.attachments).toNat =
        result.prefixAttachments.toNat + shared.attachments.toNat := by
      rw [UInt64.toNat_add, Nat.mod_eq_of_lt here]
    obtain ⟨sum, added, total⟩ := ih
      { result with prefixAttachments := result.prefixAttachments + shared.attachments }
      (by rw [exact]; omega)
    refine ⟨sum, ?_, by rw [total, exact]; omega⟩
    rw [List.foldlM_cons, PagedKvCache.countAttachments, ok_bind _ (checked_add_of_lt _ _ here)]
    exact added

/-- Every attachment is counted by exactly one prefix. -/
theorem attachments_sum (holds : CacheInvariant pageCount tokensPerPage cache) :
    (cache.prefixes.map fun p => p.attachments.toNat).sum =
      cache.sequences.countP fun q => q.prefixId ≠ 0 := by
  have counted : (cache.prefixes.map fun p => p.attachments.toNat) =
      cache.prefixes.map fun p => attachedTo cache.sequences p.id :=
    List.map_congr_left fun p member => holds.accounts.attachments_counted p member
  have named : ∀ q ∈ cache.sequences,
      q.prefixId ≠ 0 ↔ q.prefixId ∈ cache.prefixes.map Prefix.id := by
    intro q member
    constructor
    · intro attached
      obtain ⟨p, present, same, _⟩ := holds.accounts.attached q member attached
      exact List.mem_map.mpr ⟨p, present, same⟩
    · intro listed detached
      exact holds.ids.prefix_proper (detached ▸ listed)
  rw [counted]
  generalize cache.sequences = sequences at named ⊢
  induction sequences with
  | nil => simp [attachedTo]
  | cons q rest ih =>
    have others := ih fun other member => named other (.tail _ member)
    have split : (cache.prefixes.map fun p => attachedTo (q :: rest) p.id) =
        cache.prefixes.map fun p => attachedTo rest p.id + if q.prefixId = p.id then 1 else 0 :=
      List.map_congr_left fun p _ => attachedTo_cons q rest p.id
    have once : (cache.prefixes.map fun p => if q.prefixId = p.id then 1 else 0).sum =
        (cache.prefixes.map Prefix.id).count q.prefixId := by
      induction cache.prefixes with
      | nil => rfl
      | cons p prefixes ihp =>
        rw [List.map_cons, List.sum_cons, ihp, List.map_cons, List.count_cons, Nat.add_comm]
        by_cases same : q.prefixId = p.id
        · simp [same]
        · simp [same, Ne.symm same]
    rw [split, List.sum_map_add, others, once, List.countP_cons,
      holds.ids.prefixes_unique.count]
    simp [named q List.mem_cons_self]

/-- The tokens of the pages a table lists. -/
def PagedKvCache.reservedTokens (cache : PagedKvCache) (q : Sequence) : Nat :=
  (cache.sharedPages q ++ q.suffixPages).length * cache.tokensPerPage.toNat

/-- A table has room for its tokens, and at most two of its pages are not full. -/
theorem reserved_tokens_bounds (holds : CacheInvariant pageCount tokensPerPage cache)
    {q : Sequence} (member : q ∈ cache.sequences) :
    q.totalTokens.toNat ≤ cache.reservedTokens q ∧
      cache.reservedTokens q ≤ q.totalTokens.toNat + 2 * cache.tokensPerPage.toNat := by
  have positive : cache.tokensPerPage ≠ 0 := holds.pageSize ▸ holds.positive
  have within := UInt32.le_iff_toNat_le.mp (holds.accounts.prefix_le q member)
  have first := le_capacity_mul positive q.prefixTokens.toNat
  have rest := le_capacity_mul positive (q.totalTokens.toNat - q.prefixTokens.toNat)
  have firstMost := @capacity_mul_le cache q.prefixTokens.toNat
  have restMost := @capacity_mul_le cache (q.totalTokens.toNat - q.prefixTokens.toNat)
  unfold PagedKvCache.reservedTokens
  rw [List.length_append, shared_pages_length holds member, holds.accounts.suffix_exact q member,
    Nat.add_mul]
  omega

/-- A turn of the loop from the outcomes of its three checked operations. -/
theorem countTokens_eq {q : Sequence} {result : KvCacheMetrics}
    {payload capacity reserved : UInt64}
    (linked : ¬(q.prefixId ≠ 0 ∧ (cache.attachedPrefix q).isNone = true))
    (added : checkedAdd result.logicalPayloadTokens q.totalTokens.toUInt64 = .ok payload)
    (multiplied : checkedMultiply (UInt64.ofNat q.suffixPages.length +
      UInt64.ofNat (cache.sharedPages q).length) cache.tokensPerPage.toUInt64 = .ok capacity)
    (summed : checkedAdd result.logicalReservedTokens capacity = .ok reserved) :
    cache.countTokens result q = .ok { result with
      logicalPayloadTokens := payload
      logicalReservedTokens := reserved } := by
  unfold PagedKvCache.countTokens
  rw [ok_bind _ added, if_neg linked]
  dsimp only
  rw [ok_bind _ multiplied, ok_bind _ summed]
  rfl

theorem countTokens_ok (holds : CacheInvariant pageCount tokensPerPage cache) {q : Sequence}
    (member : q ∈ cache.sequences) (result : KvCacheMetrics)
    (payloadFits : result.logicalPayloadTokens.toNat + q.totalTokens.toNat < 2 ^ 64)
    (reservedFits : result.logicalReservedTokens.toNat + cache.reservedTokens q < 2 ^ 64) :
    ∃ payload reserved, cache.countTokens result q = .ok { result with
        logicalPayloadTokens := payload
        logicalReservedTokens := reserved } ∧
      payload.toNat = result.logicalPayloadTokens.toNat + q.totalTokens.toNat ∧
      reserved.toNat = result.logicalReservedTokens.toNat + cache.reservedTokens q := by
  have linked : ¬(q.prefixId ≠ 0 ∧ (cache.attachedPrefix q).isNone = true) := by
    rintro ⟨named, missing⟩
    obtain ⟨shared, attached, _⟩ := attached_prefix_found holds member named
    rw [attached] at missing
    cases missing
  -- the number of pages is far from wrapping
  have sharedFew : (cache.sharedPages q).length < 2 ^ 32 := by
    rw [shared_pages_length holds member]
    exact Nat.lt_of_le_of_lt (capacity_le_tokens _) q.prefixTokens.toNat_lt
  have suffixFew : q.suffixPages.length < 2 ^ 32 := by
    rw [holds.accounts.suffix_exact q member]
    exact Nat.lt_of_le_of_lt (Nat.le_trans (capacity_le_tokens _) (Nat.sub_le _ _))
      q.totalTokens.toNat_lt
  have pages : (UInt64.ofNat q.suffixPages.length +
      UInt64.ofNat (cache.sharedPages q).length).toNat =
        (cache.sharedPages q ++ q.suffixPages).length := by
    rw [UInt64.toNat_add, UInt64.toNat_ofNat', UInt64.toNat_ofNat', List.length_append]
    omega
  have capacity : (UInt64.ofNat q.suffixPages.length +
      UInt64.ofNat (cache.sharedPages q).length).toNat * cache.tokensPerPage.toUInt64.toNat =
        cache.reservedTokens q := by
    rw [pages, UInt32.toNat_toUInt64]
    rfl
  have multiplied := checked_multiply_of_lt (UInt64.ofNat q.suffixPages.length +
    UInt64.ofNat (cache.sharedPages q).length) cache.tokensPerPage.toUInt64
    (by rw [capacity]; omega)
  have product := (checked_multiply_iff _ _ _).mp multiplied
  rw [capacity] at product
  have payloadAdded := checked_add_of_lt result.logicalPayloadTokens q.totalTokens.toUInt64
    (by rwa [UInt32.toNat_toUInt64])
  have reservedAdded := checked_add_of_lt result.logicalReservedTokens
    ((UInt64.ofNat q.suffixPages.length + UInt64.ofNat (cache.sharedPages q).length) *
      cache.tokensPerPage.toUInt64) (by rwa [product])
  refine ⟨result.logicalPayloadTokens + q.totalTokens.toUInt64, result.logicalReservedTokens +
    (UInt64.ofNat q.suffixPages.length + UInt64.ofNat (cache.sharedPages q).length) *
      cache.tokensPerPage.toUInt64, ?_, ?_, ?_⟩
  · exact countTokens_eq linked payloadAdded multiplied reservedAdded
  · rw [(checked_add_iff _ _ _).mp payloadAdded, UInt32.toNat_toUInt64]
  · rw [(checked_add_iff _ _ _).mp reservedAdded, product]

theorem countTokens_foldlM (holds : CacheInvariant pageCount tokensPerPage cache)
    (sequences : List Sequence) (members : ∀ q ∈ sequences, q ∈ cache.sequences)
    (result : KvCacheMetrics)
    (payloadFits : result.logicalPayloadTokens.toNat
      + (sequences.map fun q => q.totalTokens.toNat).sum < 2 ^ 64)
    (reservedFits : result.logicalReservedTokens.toNat
      + (sequences.map cache.reservedTokens).sum < 2 ^ 64) :
    ∃ payload reserved, sequences.foldlM cache.countTokens result = .ok { result with
        logicalPayloadTokens := payload
        logicalReservedTokens := reserved } ∧
      payload.toNat = result.logicalPayloadTokens.toNat
        + (sequences.map fun q => q.totalTokens.toNat).sum ∧
      reserved.toNat = result.logicalReservedTokens.toNat
        + (sequences.map cache.reservedTokens).sum := by
  induction sequences generalizing result with
  | nil => exact ⟨_, _, rfl, rfl, rfl⟩
  | cons q rest ih =>
    rw [List.map_cons, List.sum_cons] at payloadFits reservedFits
    obtain ⟨payload, reserved, counted, payloadHere, reservedHere⟩ :=
      countTokens_ok holds (members q List.mem_cons_self) result (by omega) (by omega)
    obtain ⟨payloadLast, reservedLast, folded, payloadSum, reservedSum⟩ :=
      ih (fun other later => members other (.tail _ later))
        { result with logicalPayloadTokens := payload, logicalReservedTokens := reserved }
        (by rw [payloadHere]; omega) (by rw [reservedHere]; omega)
    refine ⟨payloadLast, reservedLast, ?_, ?_, ?_⟩
    · rw [List.foldlM_cons, ok_bind _ counted]
      exact folded
    · rw [payloadSum, payloadHere, List.map_cons, List.sum_cons]
      omega
    · rw [reservedSum, reservedHere, List.map_cons, List.sum_cons]
      omega

/-- The numbers `metrics` reports are the exact ones. -/
structure MetricsExact (cache : PagedKvCache) (m : KvCacheMetrics) : Prop where
  total : m.totalPages.toNat = cache.pages.length
  free : m.freePages.toNat = pagesIn cache.pages .free
  pending : m.pendingPages.toNat = pagesIn cache.pages .reserved
  mutablePages : m.mutablePages.toNat = pagesIn cache.pages .mutableSequence
  shared : m.sharedPrefixPages.toNat = pagesIn cache.pages .immutablePrefix
  partition : m.freePages.toNat + m.pendingPages.toNat + m.mutablePages.toNat
    + m.sharedPrefixPages.toNat = m.totalPages.toNat
  sequences : m.sequenceCount.toNat = cache.sequences.length
  attachments : m.prefixAttachments.toNat = cache.sequences.countP fun q => q.prefixId ≠ 0
  payload : m.logicalPayloadTokens.toNat = (cache.sequences.map fun q => q.totalTokens.toNat).sum
  reserved : m.logicalReservedTokens.toNat = (cache.sequences.map cache.reservedTokens).sum
  fragmentation : m.logicalFragmentationTokens.toNat + m.logicalPayloadTokens.toNat =
    m.logicalReservedTokens.toNat
  committed : m.physicalCommittedTokens.toNat =
    (m.mutablePages.toNat + m.sharedPrefixPages.toNat) * cache.tokensPerPage.toNat

private theorem sum_le_mul {α : Type} (values : List α) (size : α → Nat) (bound : Nat)
    (each : ∀ a ∈ values, size a ≤ bound) : (values.map size).sum ≤ values.length * bound := by
  have capped := List.sum_le_card_nsmul (values.map size) bound (by simpa using each)
  rwa [List.length_map, smul_eq_mul] at capped

/-- The sums over the live sequences do not wrap, and there is room for the payload. -/
theorem token_sums_fit (holds : CacheInvariant pageCount tokensPerPage cache)
    (few : cache.sequences.length ≤ 2 ^ 30) :
    (cache.sequences.map fun q => q.totalTokens.toNat).sum ≤
        (cache.sequences.map cache.reservedTokens).sum ∧
      (cache.sequences.map cache.reservedTokens).sum < 2 ^ 64 := by
  refine ⟨List.sum_le_sum fun q member => (reserved_tokens_bounds holds member).1, ?_⟩
  have each : ∀ q ∈ cache.sequences, cache.reservedTokens q ≤ 3 * 2 ^ 32 := fun q member => by
    have most := (reserved_tokens_bounds holds member).2
    have tokens := q.totalTokens.toNat_lt
    have size := cache.tokensPerPage.toNat_lt
    omega
  have total := sum_le_mul cache.sequences cache.reservedTokens (3 * 2 ^ 32) each
  have wide : cache.sequences.length * (3 * 2 ^ 32) ≤ 2 ^ 30 * (3 * 2 ^ 32) :=
    Nat.mul_le_mul_right _ few
  omega

/-- The outcome of `metrics` from those of its loops and checks. -/
theorem metrics_eq {counted attached summed : KvCacheMetrics} {committed : UInt64}
    (pages : cache.countPages cache.pages 0
      { totalPages := UInt64.ofNat cache.pages.length
        sequenceCount := UInt64.ofNat cache.sequences.length
        prefixCount := UInt64.ofNat cache.prefixes.length } = .ok counted)
    (prefixes : cache.prefixes.foldlM PagedKvCache.countAttachments counted = .ok attached)
    (sequences : cache.sequences.foldlM cache.countTokens attached = .ok summed)
    (room : ¬summed.logicalReservedTokens < summed.logicalPayloadTokens)
    (multiplied : checkedMultiply (summed.mutablePages + summed.sharedPrefixPages)
      cache.tokensPerPage.toUInt64 = .ok committed) :
    cache.metrics = .ok { summed with
      logicalFragmentationTokens := summed.logicalReservedTokens - summed.logicalPayloadTokens
      physicalCommittedTokens := committed } := by
  unfold PagedKvCache.metrics
  rw [ok_bind _ pages, ok_bind _ prefixes, ok_bind _ sequences, if_neg room]
  dsimp only
  rw [ok_bind _ multiplied]
  rfl

/-- What the loop over the pages finds in a state reached. -/
def PagedKvCache.pageCounts (cache : PagedKvCache) : KvCacheMetrics where
  totalPages := UInt64.ofNat cache.pages.length
  freePages := UInt64.ofNat (pagesIn cache.pages .free)
  pendingPages := UInt64.ofNat (pagesIn cache.pages .reserved)
  mutablePages := UInt64.ofNat (pagesIn cache.pages .mutableSequence)
  sharedPrefixPages := UInt64.ofNat (pagesIn cache.pages .immutablePrefix)
  sequenceCount := UInt64.ofNat cache.sequences.length
  prefixCount := UInt64.ofNat cache.prefixes.length

theorem countPages_all (holds : CacheInvariant pageCount tokensPerPage cache) :
    cache.countPages cache.pages 0
      { totalPages := UInt64.ofNat cache.pages.length
        sequenceCount := UInt64.ofNat cache.sequences.length
        prefixCount := UInt64.ofNat cache.prefixes.length } = .ok cache.pageCounts := by
  rw [countPages_ok]
  · rw [countPage_foldl]
    simp only [UInt64.zero_add]
    rfl
  · intro i page at_i
    rw [Nat.zero_add]
    exact owner_is_valid holds at_i

theorem metrics_exact (holds : CacheInvariant pageCount tokensPerPage cache)
    (fewPages : pageCount < 2 ^ 32) (few : cache.sequences.length ≤ 2 ^ 30) :
    ∃ m, cache.metrics = .ok m ∧ MetricsExact cache m := by
  obtain ⟨room, fits⟩ := token_sums_fit holds few
  have counts := pages_in_all cache.pages
  rw [holds.count] at counts
  have narrow := cache.tokensPerPage.toNat_lt
  have attachedCount := attachments_sum holds
  have attachedFew := List.countP_le_length (p := fun q : Sequence => decide (q.prefixId ≠ 0))
    (l := cache.sequences)
  -- the two loops end without an overflow, on sums that fit
  obtain ⟨attachments, prefixes, attachmentSum⟩ :=
    countAttachments_foldlM cache.prefixes cache.pageCounts (by
      rw [attachedCount]
      change 0 + _ < _
      omega)
  obtain ⟨payload, reserved, sequences, payloadSum, reservedSum⟩ :=
    countTokens_foldlM holds cache.sequences (fun _ member => member)
      { cache.pageCounts with prefixAttachments := attachments }
      (by
        change 0 + _ < _
        omega)
      (by
        change 0 + _ < _
        omega)
  change attachments.toNat = 0 + _ at attachmentSum
  change payload.toNat = 0 + _ at payloadSum
  change reserved.toNat = 0 + _ at reservedSum
  rw [Nat.zero_add] at attachmentSum payloadSum reservedSum
  -- the payload is part of what is reserved, so the subtraction does not wrap
  have covered : ¬reserved < payload := by
    rw [UInt64.lt_iff_toNat_lt]
    omega
  have inUse : (UInt64.ofNat (pagesIn cache.pages .mutableSequence) +
      UInt64.ofNat (pagesIn cache.pages .immutablePrefix)).toNat =
        pagesIn cache.pages .mutableSequence + pagesIn cache.pages .immutablePrefix := by
    rw [UInt64.toNat_add, UInt64.toNat_ofNat', UInt64.toNat_ofNat']
    omega
  -- the product of two 32-bit counts fits in 64 bits
  have committedFits : (UInt64.ofNat (pagesIn cache.pages .mutableSequence) +
      UInt64.ofNat (pagesIn cache.pages .immutablePrefix)).toNat *
        cache.tokensPerPage.toUInt64.toNat < 2 ^ 64 := by
    rw [inUse, UInt32.toNat_toUInt64]
    calc _ ≤ (2 ^ 32 - 1) * (2 ^ 32 - 1) := Nat.mul_le_mul (by omega) (by omega)
      _ < 2 ^ 64 := by decide
  have multiplied := checked_multiply_of_lt _ _ committedFits
  have product := (checked_multiply_iff _ _ _).mp multiplied
  rw [inUse, UInt32.toNat_toUInt64] at product
  have exactly : ∀ state, (UInt64.ofNat (pagesIn cache.pages state)).toNat =
      pagesIn cache.pages state := by
    intro state
    have most : pagesIn cache.pages state ≤ cache.pages.length := List.countP_le_length
    rw [holds.count] at most
    rw [UInt64.toNat_ofNat', Nat.mod_eq_of_lt (by omega)]
  refine ⟨_, metrics_eq (countPages_all holds) prefixes sequences covered multiplied, ?_⟩
  constructor <;> dsimp only [PagedKvCache.pageCounts]
  case total => rw [UInt64.toNat_ofNat', holds.count, Nat.mod_eq_of_lt (by omega)]
  case free => exact exactly _
  case pending => exact exactly _
  case mutablePages => exact exactly _
  case shared => exact exactly _
  case partition =>
    rw [exactly, exactly, exactly, exactly, UInt64.toNat_ofNat', holds.count,
      Nat.mod_eq_of_lt (by omega)]
    exact counts
  case sequences => rw [UInt64.toNat_ofNat', Nat.mod_eq_of_lt (by omega)]
  case attachments => rw [attachmentSum, attachedCount]
  case payload => exact payloadSum
  case reserved => exact reservedSum
  case fragmentation =>
    rw [UInt64.toNat_sub_of_le _ _ (UInt64.le_iff_toNat_le.mpr (by omega))]
    omega
  case committed => rw [exactly, exactly, product]

/-- A page table fails only for an unknown sequence or for want of memory. -/
theorem pageTable_ne_invalidFormat (holds : CacheInvariant pageCount tokensPerPage cache)
    (alloc : Allocator) (s : SequenceId) :
    cache.pageTable alloc s ≠ .error (.failure .invalidFormat) := by
  cases found : cache.findSequence s with
  | none => simp [PagedKvCache.pageTable, found, Status.failure]
  | some q =>
    cases granted : alloc.caught [0] with
    | none => simp [pageTable_of_live holds granted found]
    | some code =>
      have linked : ¬(q.prefixId ≠ 0 ∧ (cache.attachedPrefix q).isNone = true) := by
        rintro ⟨named, missing⟩
        obtain ⟨shared, attached, _⟩ :=
          attached_prefix_found holds (Keyed.find_mem found) named
        rw [attached] at missing
        cases missing
      have harmless := caught_ne_invalidFormat granted
      simp only [PagedKvCache.pageTable, found, granted, if_neg linked]
      intro same
      exact harmless (congrArg Status.code (Except.error.inj same))

/-- The checks for corrupted records never fail. In every state reached, no call reports
`invalid_format`, a live sequence has a page table whenever there is memory for it, and with fewer
than `2 ^ 30` live sequences `metrics` succeeds and its numbers are exact. -/
theorem corruption_unreachable (alloc : Allocator) (pageCount tokensPerPage : UInt32)
    (cache : PagedKvCache)
    (created : PagedKvCache.create alloc pageCount tokensPerPage = .ok cache)
    (calls : List CacheCall) :
    let reached := cacheMachine.run cache calls
    (∀ call, (cacheStep reached call).1.code ≠ .invalidFormat) ∧
    (∀ (granted : Allocator) (s : SequenceId),
      reached.pageTable granted s ≠ .error (.failure .invalidFormat)) ∧
    (∀ (granted : Allocator), granted.caught [0] = none → ∀ q ∈ reached.sequences,
      ∃ table, reached.pageTable granted q.id = .ok table ∧
        table.pages.length * tokensPerPage.toNat = reached.reservedTokens q) ∧
    (reached.sequences.length < 2 ^ 30 →
      ∃ m, reached.metrics = .ok m ∧ MetricsExact reached m) := by
  intro reached
  have holds : CacheInvariant pageCount.toNat tokensPerPage reached :=
    CacheInvariant.run created calls
  refine ⟨cacheStep_ne_invalidFormat holds, ?_, ?_, fun few =>
    metrics_exact holds pageCount.toNat_lt few.le⟩
  · exact pageTable_ne_invalidFormat holds
  · intro granted accepted q member
    have found : reached.findSequence q.id = some q :=
      Keyed.find_of_mem holds.ids.sequences_unique member rfl
    refine ⟨_, pageTable_of_live holds accepted found, ?_⟩
    rw [PagedKvCache.reservedTokens, holds.pageSize]

/-- Two sequences share a prefix of three tokens; one of them has a page of its own half full. -/
theorem corruption_unreachable_shared :
    let reached := cacheMachine.run { pages := List.replicate 4 {}, tokensPerPage := 2 }
      [.createSequence .unlimited 7 0, .reserve .unlimited 7 3, .commit .unlimited 1,
        .publishPrefix .unlimited 9 7, .createSequence .unlimited 8 9, .reserve .unlimited 8 4,
        .commit .unlimited 2]
    ∃ m, reached.metrics = .ok m ∧ MetricsExact reached m :=
  (corruption_unreachable .unlimited 4 2 { pages := List.replicate 4 {}, tokensPerPage := 2 } rfl
    [.createSequence .unlimited 7 0, .reserve .unlimited 7 3, .commit .unlimited 1,
      .publishPrefix .unlimited 9 7, .createSequence .unlimited 8 9, .reserve .unlimited 8 4,
      .commit .unlimited 2]).2.2.2 (by decide)

end

end MarketForge.Serving
