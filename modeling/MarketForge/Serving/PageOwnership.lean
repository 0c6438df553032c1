import MarketForge.Serving.CacheEffects

/-!
# Page ownership

The page array and the page lists of the three tables are two books about the same pages. This
module reads the cache as an ownership ledger and shows that every call is a sequence of
bookkeeping entries, so that the books agree after every run: no page is owned twice or lost.
-/
namespace MarketForge.Serving

open OwnershipLedger

/-- The ids by which records and pages refer to each other. -/
structure CacheIds (cache : PagedKvCache) : Prop where
  sequences_unique : (cache.sequences.map Sequence.id).Nodup
  prefixes_unique : (cache.prefixes.map Prefix.id).Nodup
  reservations_unique : (cache.reservations.map PendingReservation.id).Nodup
  sequence_proper : 0 ∉ cache.sequences.map Sequence.id
  prefix_proper : 0 ∉ cache.prefixes.map Prefix.id
  reservation_issued : ∀ r ∈ cache.reservations, r.id ≠ 0 ∧
    (cache.nextReservationId = 0 ∨ r.id < cache.nextReservationId)

namespace CacheIds

variable {cache : PagedKvCache}

/-- The counter has not issued its current value to a pending reservation. -/
theorem next_fresh (ids : CacheIds cache) (counter : cache.nextReservationId ≠ 0) :
    cache.nextReservationId ∉ cache.reservations.map PendingReservation.id := by
  rw [List.mem_map]
  rintro ⟨r, member, same⟩
  rcases (ids.reservation_issued r member).2 with exhausted | below
  · exact counter exhausted
  · rw [same] at below
    exact UInt64.lt_irrefl _ below

/-- An id issued now stays below the counter, or the counter wraps and stops. -/
theorem issued_next {id next : ReservationId} (before : id = next ∨ id < next) :
    next + 1 = 0 ∨ id < next + 1 := by
  by_cases wraps : next + 1 = 0
  · exact .inl wraps
  · right
    have exact : (next + 1).toNat = next.toNat + 1 := by
      have bound := next.toNat_lt
      have nonzero : (next + 1).toNat ≠ 0 := fun zero => wraps (UInt64.toNat_inj.mp zero)
      rw [UInt64.toNat_add, UInt64.toNat_one] at nonzero ⊢
      omega
    rw [UInt64.lt_iff_toNat_lt, exact]
    rcases before with rfl | below
    · omega
    · have := UInt64.lt_iff_toNat_lt.mp below
      omega

end CacheIds

private theorem appended_unique {ρ κ : Type} [DecidableEq κ] {key : ρ → κ} {table : List ρ}
    (unique : (table.map key).Nodup) {r : ρ} (fresh : key r ∉ table.map key) :
    ((table ++ [r]).map key).Nodup := by
  rw [List.map_append, List.nodup_append]
  refine ⟨unique, by simp, ?_⟩
  rintro k old k' new rfl
  simp only [List.map_cons, List.map_nil, List.mem_singleton] at new
  exact fresh (new ▸ old)

private theorem appended_proper {ρ κ : Type} {key : ρ → κ} {table : List ρ} {k : κ}
    (proper : k ∉ table.map key) {r : ρ} (different : key r ≠ k) :
    k ∉ (table ++ [r]).map key := by
  rw [List.map_append, List.mem_append, not_or]
  exact ⟨proper, by simpa using different.symm⟩

/-- Ids stay unique, proper and issued. -/
theorem CacheEffect.ids {cache after : PagedKvCache} {call : CacheCall} {reply : CacheReply}
    (effect : CacheEffect cache call reply after) (ids : CacheIds cache) : CacheIds after := by
  cases effect with
  | refused => exact ids
  | createdDetached proper fresh =>
    exact { ids with
      sequences_unique := appended_unique ids.sequences_unique (Keyed.not_mem_keys_of_find fresh)
      sequence_proper := appended_proper ids.sequence_proper proper }
  | createdAttached proper fresh named found room =>
    exact { ids with
      sequences_unique := appended_unique ids.sequences_unique (Keyed.not_mem_keys_of_find fresh)
      sequence_proper := appended_proper ids.sequence_proper proper
      prefixes_unique := Keyed.update_unique ids.prefixes_unique fun _ => rfl
      prefix_proper := Keyed.not_mem_update_keys ids.prefix_proper fun _ => rfl }
  | destroyedDetached found settled detached =>
    exact { ids with
      sequences_unique := Keyed.erase_unique ids.sequences_unique _
      sequence_proper := Keyed.not_mem_erase_keys ids.sequence_proper }
  | destroyedAttached found settled attached foundPrefix referenced =>
    exact { ids with
      sequences_unique := Keyed.erase_unique ids.sequences_unique _
      sequence_proper := Keyed.not_mem_erase_keys ids.sequence_proper
      prefixes_unique := Keyed.update_unique ids.prefixes_unique fun _ => rfl
      prefix_proper := Keyed.not_mem_update_keys ids.prefix_proper fun _ => rfl }
  | reserved found settled grows counter selection enough =>
    -- the id issued is the counter, which no reservation has reached yet
    refine { ids with
      reservations_unique := appended_unique ids.reservations_unique (ids.next_fresh counter)
      reservation_issued := ?_ }
    intro r member
    rcases List.mem_append.mp member with old | new
    · have issued := ids.reservation_issued r old
      exact ⟨issued.1, CacheIds.issued_next (.inr (issued.2.resolve_left counter))⟩
    · rw [List.mem_singleton.mp new]
      exact ⟨counter, CacheIds.issued_next (.inl rfl)⟩
  | committed found foundSequence =>
    exact { ids with
      reservations_unique := Keyed.erase_unique ids.reservations_unique _
      reservation_issued := fun r member =>
        ids.reservation_issued r (Keyed.mem_of_mem_erase member)
      sequences_unique := Keyed.update_unique ids.sequences_unique fun _ => rfl
      sequence_proper := Keyed.not_mem_update_keys ids.sequence_proper fun _ => rfl }
  | rolledBack found =>
    exact { ids with
      reservations_unique := Keyed.erase_unique ids.reservations_unique _
      reservation_issued := fun r member =>
        ids.reservation_issued r (Keyed.mem_of_mem_erase member) }
  | published found named fresh detached started settled =>
    exact { ids with
      prefixes_unique := appended_unique ids.prefixes_unique (Keyed.not_mem_keys_of_find fresh)
      prefix_proper := appended_proper ids.prefix_proper named
      sequences_unique := Keyed.update_unique ids.sequences_unique fun _ => rfl
      sequence_proper := Keyed.not_mem_update_keys ids.sequence_proper fun _ => rfl }
  | destroyedPrefix found unused =>
    exact { ids with
      prefixes_unique := Keyed.erase_unique ids.prefixes_unique _
      prefix_proper := Keyed.not_mem_erase_keys ids.prefix_proper }

/-! ### The tables as holdings -/

def Sequence.holding (q : Sequence) : Page × List KvPageId :=
  (⟨.mutableSequence, q.id⟩, q.suffixPages)

def Prefix.holding (p : Prefix) : Page × List KvPageId :=
  (⟨.immutablePrefix, p.id⟩, p.pages)

def PendingReservation.holding (r : PendingReservation) : Page × List KvPageId :=
  (⟨.reserved, r.id⟩, r.pages)

/-- Everything the three tables hold. -/
def holdingsOf (sequences : List Sequence) (prefixes : List Prefix)
    (reservations : List PendingReservation) : List (Page × List KvPageId) :=
  sequences.map Sequence.holding ++ prefixes.map Prefix.holding ++
    reservations.map PendingReservation.holding

def PagedKvCache.holdings (cache : PagedKvCache) : List (Page × List KvPageId) :=
  holdingsOf cache.sequences cache.prefixes cache.reservations

section Holdings

variable {S S' : List Sequence} {P P' : List Prefix} {R R' : List PendingReservation}

theorem holdingsOf_perm (sequences : S.Perm S') (prefixes : P.Perm P')
    (reservations : R.Perm R') : (holdingsOf S P R).Perm (holdingsOf S' P' R') :=
  ((sequences.map _).append (prefixes.map _)).append (reservations.map _)

theorem holdingsOf_sequence (q : Sequence) :
    holdingsOf (q :: S) P R = q.holding :: holdingsOf S P R := rfl

theorem holdingsOf_published (p : Prefix) :
    (holdingsOf S (p :: P) R).Perm (p.holding :: holdingsOf S P R) := by
  simp only [holdingsOf, List.map_cons, List.append_assoc, List.cons_append]
  exact List.perm_middle

theorem holdingsOf_reservation (r : PendingReservation) :
    (holdingsOf S P (r :: R)).Perm (r.holding :: holdingsOf S P R) := by
  simp only [holdingsOf, List.map_cons]
  exact List.perm_middle

/-- Changing only the reference count of a prefix leaves the holdings as they are. -/
theorem holdingsOf_attachments (id : PrefixId) (f : UInt64 → UInt64) :
    holdingsOf S
      (Keyed.update Prefix.id P id fun p => { p with attachments := f p.attachments }) R =
      holdingsOf S P R := by
  have kept : ∀ p : Prefix,
      ({ p with attachments := f p.attachments } : Prefix).holding = p.holding := fun _ => rfl
  unfold holdingsOf
  rw [Keyed.update_map Prefix.holding P id _ kept]

theorem sequence_owner_iff (id : SequenceId) :
    (⟨.mutableSequence, id⟩ : Page) ∈ (holdingsOf S P R).map Prod.fst ↔
      id ∈ S.map Sequence.id := by
  simp [holdingsOf, Sequence.holding, Prefix.holding, PendingReservation.holding]

theorem prefix_owner_iff (id : PrefixId) :
    (⟨.immutablePrefix, id⟩ : Page) ∈ (holdingsOf S P R).map Prod.fst ↔
      id ∈ P.map Prefix.id := by
  simp [holdingsOf, Sequence.holding, Prefix.holding, PendingReservation.holding]

theorem reservation_owner_iff (id : ReservationId) :
    (⟨.reserved, id⟩ : Page) ∈ (holdingsOf S P R).map Prod.fst ↔
      id ∈ R.map PendingReservation.id := by
  simp [holdingsOf, Sequence.holding, Prefix.holding, PendingReservation.holding]

/-- No owner's mark reads as free. -/
theorem owner_not_free {h : Page × List KvPageId} (member : h ∈ holdingsOf S P R) :
    h.1.state ≠ .free := by
  simp only [holdingsOf, List.mem_append, List.mem_map] at member
  rcases member with (⟨q, _, rfl⟩ | ⟨p, _, rfl⟩) | ⟨r, _, rfl⟩
  · simp [Sequence.holding]
  · simp [Prefix.holding]
  · simp [PendingReservation.holding]

end Holdings

/-! ### The scan for free pages -/

theorem selectFree_free (pages : List Page) (index wanted : Nat) :
    ∀ p : Nat, p ∈ selectFree pages index wanted → index ≤ p ∧
      ∃ page, pages[p - index]? = some page ∧ page.state = .free := by
  induction pages generalizing index wanted with
  | nil => intro p member; simp [selectFree] at member
  | cons page rest ih =>
    cases wanted with
    | zero => intro p member; simp [selectFree] at member
    | succ wanted =>
      have later : ∀ n, ∀ p : Nat, p ∈ selectFree rest (index + 1) n → index ≤ p ∧
          ∃ found, (page :: rest)[p - index]? = some found ∧ found.state = .free := by
        intro n p member
        obtain ⟨above, found, at_p, free⟩ := ih (index + 1) n p member
        refine ⟨by omega, found, ?_, free⟩
        rw [show p - index = (p - (index + 1)) + 1 by omega, List.getElem?_cons_succ]
        exact at_p
      intro p member
      simp only [selectFree] at member
      split at member
      next free =>
        rcases List.mem_cons.mp member with rfl | member
        · exact ⟨Nat.le_refl _, page, by simp, free⟩
        · exact later wanted p member
      next => exact later (wanted + 1) p member

/-- The scan lists pages in increasing order. -/
theorem selectFree_increasing (pages : List Page) (index wanted : Nat) :
    (selectFree pages index wanted).Pairwise (· < ·) := by
  induction pages generalizing index wanted with
  | nil => exact .nil
  | cons page rest ih =>
    cases wanted with
    | zero => exact .nil
    | succ wanted =>
      simp only [selectFree]
      split
      · refine .cons (fun (p : Nat) member => ?_) (ih _ _)
        exact (selectFree_free rest (index + 1) wanted p member).1
      · exact ih _ _

theorem selectFree_nodup (pages : List Page) (index wanted : Nat) :
    (selectFree pages index wanted).Nodup :=
  (selectFree_increasing pages index wanted).imp fun below => Nat.ne_of_lt below

/-! ### Every call keeps the books -/

/-- The page array and the tables agree on who owns which page. -/
def BooksAgree (cache : PagedKvCache) : Prop :=
  Consistent ({} : Page) cache.pages cache.holdings

/-- A page whose state reads free has no owner recorded either. -/
theorem BooksAgree.free_page {cache : PagedKvCache} (books : BooksAgree cache) {p : Nat}
    {page : Page} (at_p : cache.pages[p]? = some page) (free : page.state = .free) :
    page = {} := by
  by_contra marked
  obtain ⟨h, member, rfl⟩ := books.accounted p page at_p marked
  exact owner_not_free member free

theorem BooksAgree.selected_free {cache : PagedKvCache} (books : BooksAgree cache)
    (wanted : Nat) : ∀ p ∈ selectFree cache.pages 0 wanted, cache.pages[p]? = some {} := by
  intro p member
  obtain ⟨_, page, at_p, free⟩ := selectFree_free cache.pages 0 wanted p member
  rw [Nat.sub_zero] at at_p
  rw [at_p, books.free_page at_p free]

private theorem find_perm_sequences {cache : PagedKvCache} {id : SequenceId} {q : Sequence}
    (found : cache.findSequence id = some q) :
    cache.holdings.Perm (q.holding ::
      holdingsOf (Keyed.erase Sequence.id cache.sequences id) cache.prefixes cache.reservations) :=
  holdingsOf_perm (Keyed.perm_of_find found) (.refl _) (.refl _)

private theorem find_perm_prefixes {cache : PagedKvCache} {id : PrefixId} {p : Prefix}
    (found : cache.findPrefix id = some p) :
    cache.holdings.Perm (p.holding ::
      holdingsOf cache.sequences (Keyed.erase Prefix.id cache.prefixes id) cache.reservations) :=
  (holdingsOf_perm (.refl _) (Keyed.perm_of_find found) (.refl _)).trans (holdingsOf_published p)

private theorem find_perm_reservations {cache : PagedKvCache} {id : ReservationId}
    {r : PendingReservation} (found : cache.findReservation id = some r) :
    cache.holdings.Perm (r.holding ::
      holdingsOf cache.sequences cache.prefixes
        (Keyed.erase PendingReservation.id cache.reservations id)) :=
  (holdingsOf_perm (.refl _) (.refl _) (Keyed.perm_of_find found)).trans
    (holdingsOf_reservation r)

/-- A new sequence opens an empty account. -/
private theorem books_created {cache : PagedKvCache} (books : BooksAgree cache)
    (sequence : Sequence) (fresh : cache.findSequence sequence.id = none)
    (empty : sequence.suffixPages = []) :
    Consistent ({} : Page) cache.pages
      (holdingsOf (cache.sequences ++ [sequence]) cache.prefixes cache.reservations) := by
  have opened := books.openAccount (m := ⟨.mutableSequence, sequence.id⟩) (by simp)
    (mt (sequence_owner_iff _).mp (Keyed.not_mem_keys_of_find fresh))
  refine opened.perm ?_
  have front := holdingsOf_perm (P := cache.prefixes) (R := cache.reservations)
    (List.perm_append_singleton sequence cache.sequences).symm (.refl _) (.refl _)
  rw [holdingsOf_sequence, Sequence.holding, empty] at front
  exact front

theorem CacheEffect.books {cache after : PagedKvCache} {call : CacheCall} {reply : CacheReply}
    (effect : CacheEffect cache call reply after) (ids : CacheIds cache)
    (books : BooksAgree cache) : BooksAgree after := by
  cases effect with
  | refused => exact books
  | createdDetached proper fresh => exact books_created books _ fresh rfl
  | @createdAttached _ sequenceId prefixId shared proper fresh named found room =>
    -- one more attachment moves no page
    have created := books_created books
      ⟨sequenceId, prefixId, shared.tokenCount, shared.tokenCount, []⟩ fresh rfl
    unfold BooksAgree PagedKvCache.holdings
    rw [holdingsOf_attachments prefixId (· + 1)]
    exact created
  | @destroyedDetached sequenceId sequence found settled detached =>
    -- the account of the sequence comes to the front, gives its pages back and is closed
    have split := books.perm (find_perm_sequences found)
    exact split.give.closeAccount
  | @destroyedAttached sequenceId sequence shared found settled attached foundPrefix referenced =>
    have split := books.perm (find_perm_sequences found)
    unfold BooksAgree PagedKvCache.holdings
    rw [holdingsOf_attachments sequence.prefixId (· - 1)]
    exact split.give.closeAccount
  | @reserved _ sequenceId target sequence selected found settled grows counter selection enough =>
    -- an account of the reservation is opened, and the free pages move to it
    have opened := books.openAccount (m := ⟨.reserved, cache.nextReservationId⟩) (by simp)
      (mt (reservation_owner_iff _).mp (ids.next_fresh counter))
    have distinct : selected.Nodup := selection ▸ selectFree_nodup _ _ _
    have unowned : ∀ p ∈ selected, cache.pages[p]? = some {} := selection ▸ books.selected_free _
    refine (opened.take distinct unowned).perm ?_
    have front := holdingsOf_perm (S := cache.sequences) (P := cache.prefixes) (.refl _) (.refl _)
      (List.perm_append_singleton (⟨cache.nextReservationId, sequenceId, target, selected⟩ :
        PendingReservation) cache.reservations).symm
    exact (holdingsOf_reservation _).symm.trans front
  | @committed _ reservationId reservation sequence found foundSequence =>
    -- both accounts come to the front; the pages of the reservation move to the sequence
    have split : cache.holdings.Perm (reservation.holding :: sequence.holding ::
        holdingsOf (Keyed.erase Sequence.id cache.sequences reservation.sequenceId) cache.prefixes
          (Keyed.erase PendingReservation.id cache.reservations reservationId)) :=
      (holdingsOf_perm (Keyed.perm_of_find foundSequence) (.refl _)
        (Keyed.perm_of_find found)).trans (holdingsOf_reservation reservation)
    have moved := ((books.perm split).move).closeAccount
    have front := holdingsOf_perm (P := cache.prefixes)
      (R := Keyed.erase PendingReservation.id cache.reservations reservationId)
      (Keyed.update_perm foundSequence fun q =>
        { q with
          suffixPages := q.suffixPages ++ reservation.pages
          totalTokens := reservation.targetTokenCount }).symm (.refl _) (.refl _)
    exact moved.perm front
  | @rolledBack reservationId reservation found =>
    have split := books.perm (find_perm_reservations found)
    exact split.give.closeAccount
  | @published _ prefixId sequenceId sequence found named fresh detached started settled =>
    -- an account of the prefix is opened, and all pages of the sequence move to it
    have opened := books.openAccount (m := ⟨.immutablePrefix, prefixId⟩) (by simp)
      (mt (prefix_owner_iff _).mp (Keyed.not_mem_keys_of_find fresh))
    have split := opened.perm ((find_perm_sequences found).cons _)
    have moved := (split.perm (.swap _ _ _)).move
    have front := holdingsOf_perm (R := cache.reservations)
      (Keyed.update_perm found fun q =>
        { q with prefixId := prefixId, prefixTokens := q.totalTokens, suffixPages := [] }).symm
      (List.perm_append_singleton (⟨prefixId, sequence.totalTokens, 1, sequence.suffixPages⟩ :
        Prefix) cache.prefixes).symm (.refl _)
    exact moved.perm (((holdingsOf_published _).symm.cons _).trans front)
  | @destroyedPrefix prefixId shared found unused =>
    have split := books.perm (find_perm_prefixes found)
    exact split.give.closeAccount

/-! ### Ownership in every reachable state -/

/-- Ids and books of a cache with `pageCount` pages. -/
structure CacheOwnership (pageCount : Nat) (cache : PagedKvCache) : Prop where
  ids : CacheIds cache
  books : BooksAgree cache
  count : cache.pages.length = pageCount

theorem CacheEffect.pageCount {cache after : PagedKvCache} {call : CacheCall}
    {reply : CacheReply} (effect : CacheEffect cache call reply after) :
    after.pages.length = cache.pages.length := by
  cases effect <;> simp

theorem CacheOwnership.step {pageCount : Nat} (cache : PagedKvCache) (call : CacheCall)
    (owned : CacheOwnership pageCount cache) :
    CacheOwnership pageCount (cacheMachine.step cache call).2 := by
  have effect := cacheStep_effect cache call
  exact ⟨effect.ids owned.ids, effect.books owned.ids owned.books,
    effect.pageCount.trans owned.count⟩

theorem create_eq {alloc : Allocator} {pageCount tokensPerPage : UInt32} {cache : PagedKvCache}
    (created : PagedKvCache.create alloc pageCount tokensPerPage = .ok cache) :
    tokensPerPage ≠ 0 ∧
      cache = { pages := List.replicate pageCount.toNat {}, tokensPerPage := tokensPerPage } := by
  unfold PagedKvCache.create at created
  split at created
  next => cases created
  next valid =>
    split at created
    next => cases created
    next => exact ⟨fun zero => valid (.inr zero), (Except.ok.inj created).symm⟩

theorem CacheOwnership.create {alloc : Allocator} {pageCount tokensPerPage : UInt32}
    {cache : PagedKvCache}
    (created : PagedKvCache.create alloc pageCount tokensPerPage = .ok cache) :
    CacheOwnership pageCount.toNat cache := by
  obtain ⟨_, rfl⟩ := create_eq created
  refine ⟨?_, Consistent.initial _ _, by simp⟩
  constructor <;> simp

theorem CacheOwnership.run {alloc : Allocator} {pageCount tokensPerPage : UInt32}
    {cache : PagedKvCache}
    (created : PagedKvCache.create alloc pageCount tokensPerPage = .ok cache)
    (calls : List CacheCall) : CacheOwnership pageCount.toNat (cacheMachine.run cache calls) :=
  cacheMachine.run_invariant _ CacheOwnership.step cache (CacheOwnership.create created) calls

/-- Every page listed anywhere: by a sequence, a prefix or a pending reservation. -/
def PagedKvCache.listedPages (cache : PagedKvCache) : List KvPageId :=
  cache.sequences.flatMap Sequence.suffixPages ++ cache.prefixes.flatMap Prefix.pages ++
    cache.reservations.flatMap PendingReservation.pages

theorem holdings_listedPages (cache : PagedKvCache) :
    cache.holdings.flatMap Prod.snd = cache.listedPages := by
  simp only [PagedKvCache.holdings, holdingsOf, PagedKvCache.listedPages, List.flatMap_append,
    List.flatMap_map]
  rfl

/-- Each page has exactly one owner, the one its mark names, and the owner lists it once. -/
structure PagesOwnedOnce (pageCount : Nat) (cache : PagedKvCache) : Prop where
  count : cache.pages.length = pageCount
  listed_nodup : cache.listedPages.Nodup
  listed_lt : ∀ p ∈ cache.listedPages, p < pageCount
  mutable_iff : ∀ (p : Nat) (id : SequenceId),
    cache.pages[p]? = some ⟨.mutableSequence, id⟩ ↔
      ∃ q ∈ cache.sequences, q.id = id ∧ p ∈ q.suffixPages
  immutable_iff : ∀ (p : Nat) (id : PrefixId),
    cache.pages[p]? = some ⟨.immutablePrefix, id⟩ ↔
      ∃ shared ∈ cache.prefixes, shared.id = id ∧ p ∈ shared.pages
  reserved_iff : ∀ (p : Nat) (id : ReservationId),
    cache.pages[p]? = some ⟨.reserved, id⟩ ↔
      ∃ r ∈ cache.reservations, r.id = id ∧ p ∈ r.pages
  free_iff : ∀ p < pageCount, cache.pages[p]? = some ⟨.free, 0⟩ ↔ p ∉ cache.listedPages

/-- The two books of a consistent cache, read back table by table. -/
theorem CacheOwnership.ownedOnce {pageCount : Nat} {cache : PagedKvCache}
    (owned : CacheOwnership pageCount cache) : PagesOwnedOnce pageCount cache where
  count := owned.count
  listed_nodup := holdings_listedPages cache ▸ owned.books.slots_flatten_nodup
  listed_lt := by
    intro p listed
    rw [← holdings_listedPages, List.mem_flatMap] at listed
    obtain ⟨h, member, inside⟩ := listed
    exact owned.count ▸ owned.books.slot_lt member inside
  mutable_iff := by
    intro p id
    rw [owned.books.marked_iff (by simp)]
    simp [PagedKvCache.holdings, holdingsOf, or_and_right, exists_or, Sequence.holding,
      Prefix.holding, PendingReservation.holding]
  immutable_iff := by
    intro p id
    rw [owned.books.marked_iff (by simp)]
    simp [PagedKvCache.holdings, holdingsOf, or_and_right, exists_or, Sequence.holding,
      Prefix.holding, PendingReservation.holding]
  reserved_iff := by
    intro p id
    rw [owned.books.marked_iff (by simp)]
    simp [PagedKvCache.holdings, holdingsOf, or_and_right, exists_or, Sequence.holding,
      Prefix.holding, PendingReservation.holding]
  free_iff := by
    intro p bound
    rw [← holdings_listedPages]
    exact owned.books.free_iff (owned.count ▸ bound)

/-- No run of the cache ever gives a page two owners or loses one. -/
theorem pages_owned_once (alloc : Allocator) (pageCount tokensPerPage : UInt32)
    (cache : PagedKvCache)
    (created : PagedKvCache.create alloc pageCount tokensPerPage = .ok cache)
    (calls : List CacheCall) :
    PagesOwnedOnce pageCount.toNat (cacheMachine.run cache calls) :=
  (CacheOwnership.run created calls).ownedOnce

/-- A run that leaves pages in all four states. -/
theorem pages_owned_once_published :
    let calls : List CacheCall :=
      [.createSequence .unlimited 7 0, .reserve .unlimited 7 2, .commit .unlimited 1,
        .publishPrefix .unlimited 9 7, .reserve .unlimited 7 4, .commit .unlimited 2,
        .reserve .unlimited 7 5]
    let cache := cacheMachine.run { pages := List.replicate 4 {}, tokensPerPage := 2 } calls
    PagesOwnedOnce 4 cache ∧
      cache.pages = [⟨.immutablePrefix, 9⟩, ⟨.mutableSequence, 7⟩, ⟨.reserved, 3⟩, {}] :=
  ⟨pages_owned_once .unlimited 4 2 { pages := List.replicate 4 {}, tokensPerPage := 2 } rfl _,
    by decide⟩

end MarketForge.Serving
