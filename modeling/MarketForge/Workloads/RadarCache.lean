import MarketForge.Serving.CacheGrowth
import MarketForge.Workloads.RadarConfig

/-!
# The cache during a scenario

Between the calls of a scenario the cache holds the publisher of the shared prefix and one
sequence for each decision that is admitted and not complete (`SharedCache`). The page budget that
`validConfig` checks covers the prefix and one suffix for each vehicle, so every admission finds
its pages, and a decision that completes gives its pages back.
-/
namespace MarketForge.Workloads

open Library Serving

/-- The cache between calls, with the sequences of the decisions that are in service. -/
structure SharedCache (config : ScenarioConfig) (live : List SequenceId) (cache : PagedKvCache) :
    Prop where
  holds : CacheInvariant config.kvPageCount.toNat config.kvTokensPerPage cache
  ids : cache.sequences.map Sequence.id = prefixSequenceId :: live
  attached : ∀ q ∈ cache.sequences, q.prefixId = prefixId
  totals : ∀ q ∈ cache.sequences, q.totalTokens =
    if q.id = prefixSequenceId then config.sharedPrefixTokens else config.totalTokens
  prefixes : cache.prefixes.map (fun p => (p.id, p.tokenCount)) =
    [(prefixId, config.sharedPrefixTokens)]
  settled : cache.reservations = []

namespace SharedCache

variable {config : ScenarioConfig} {live : List SequenceId} {cache : PagedKvCache}

theorem live_distinct (shared : SharedCache config live cache) :
    prefixSequenceId ∉ live ∧ live.Nodup := by
  have unique := shared.holds.ids.sequences_unique
  rw [shared.ids] at unique
  exact List.nodup_cons.mp unique

theorem count (shared : SharedCache config live cache) :
    cache.sequences.length = live.length + 1 := by
  have lengths := congrArg List.length shared.ids
  rwa [List.length_map, List.length_cons] at lengths

/-- The one prefix, and what is found under its id. -/
theorem published (shared : SharedCache config live cache) :
    ∃ attachments pages,
      cache.prefixes = [⟨prefixId, config.sharedPrefixTokens, attachments, pages⟩] ∧
      cache.findPrefix prefixId =
        some ⟨prefixId, config.sharedPrefixTokens, attachments, pages⟩ ∧
      attachments.toNat = live.length + 1 ∧ pages.length = config.prefixPages := by
  obtain ⟨⟨_, _, attachments, pages⟩, listed, fields⟩ :=
    List.map_eq_singleton_iff.mp shared.prefixes
  obtain ⟨rfl, rfl⟩ := Prod.mk.inj fields
  refine ⟨attachments, pages, listed, ?_, ?_, ?_⟩
  · simp [PagedKvCache.findPrefix, Keyed.find, listed]
  · have counted := shared.holds.accounts.attachments_counted _ (listed ▸ List.mem_singleton_self _)
    rw [counted, ← shared.count, List.countP_eq_length]
    intro q member
    simpa using shared.attached q member
  · have stored := shared.holds.accounts.prefix_exact _ (listed ▸ List.mem_singleton_self _)
    rw [PagedKvCache.capacity, shared.holds.pageSize] at stored
    exact stored

theorem prefix_tokens (shared : SharedCache config live cache) {q : Sequence}
    (member : q ∈ cache.sequences) : q.prefixTokens = config.sharedPrefixTokens := by
  obtain ⟨attachments, pages, listed, _⟩ := shared.published
  have named : q.prefixId ≠ 0 := by
    rw [shared.attached q member]
    decide
  obtain ⟨other, present, _, same⟩ := shared.holds.accounts.attached q member named
  rw [listed, List.mem_singleton] at present
  rw [← same, present]

theorem no_reservation (shared : SharedCache config live cache) (id : SequenceId) :
    cache.findSequenceReservation id = none := by
  rw [PagedKvCache.findSequenceReservation, shared.settled]
  rfl

/-- The publisher has no pages of its own, every other sequence those of its suffix. -/
theorem suffix_length (accepted : config.Accepted) (shared : SharedCache config live cache)
    {q : Sequence} (member : q ∈ cache.sequences) :
    q.suffixPages.length = if q.id = prefixSequenceId then 0 else config.sequencePages := by
  have stored := shared.holds.accounts.suffix_exact q member
  rw [shared.prefix_tokens member, shared.totals q member] at stored
  rw [stored]
  split
  next => simp
  next =>
    rw [PagedKvCache.capacity, shared.holds.pageSize, accepted.total_toNat]
    rfl

theorem listed_length (accepted : config.Accepted) (shared : SharedCache config live cache) :
    cache.listedPages.length = config.prefixPages + live.length * config.sequencePages := by
  obtain ⟨attachments, pages, listed, _, _, common⟩ := shared.published
  have lengths : cache.sequences.map (fun q => q.suffixPages.length) =
      (cache.sequences.map Sequence.id).map fun id =>
        if id = prefixSequenceId then 0 else config.sequencePages := by
    rw [List.map_map]
    exact List.map_congr_left fun q member => shared.suffix_length accepted member
  have others : live.map (fun id => if id = prefixSequenceId then 0 else config.sequencePages) =
      live.map fun _ => config.sequencePages := by
    refine List.map_congr_left fun id member => if_neg ?_
    rintro rfl
    exact shared.live_distinct.1 member
  rw [PagedKvCache.listedPages, shared.settled, listed]
  simp only [List.length_append, List.length_flatMap, lengths, shared.ids, List.map_cons,
    List.sum_cons, if_true, others, List.map_const', List.sum_replicate, smul_eq_mul,
    List.map_nil, List.sum_nil, common]
  omega

theorem free_pages (accepted : config.Accepted) (shared : SharedCache config live cache) :
    pagesIn cache.pages .free + (config.prefixPages + live.length * config.sequencePages) =
      config.kvPageCount.toNat := by
  rw [← shared.listed_length accepted]
  exact free_pages_count shared.holds.toCacheOwnership

/-- The pages in use are the published ones and those of the decisions in service. -/
theorem metrics_exact (accepted : config.Accepted) (shared : SharedCache config live cache)
    (few : live.length < 2 ^ 30) :
    ∃ m, cache.metrics = .ok m ∧
      (m.mutablePages + m.sharedPrefixPages).toNat =
        config.prefixPages + live.length * config.sequencePages := by
  obtain ⟨m, counted, exact⟩ := Serving.metrics_exact shared.holds config.kvPageCount.toNat_lt
    (by rw [shared.count]; exact few)
  have free := shared.free_pages accepted
  have pending := no_pending_pages shared.holds.toCacheOwnership shared.settled
  have bound := config.kvPageCount.toNat_lt
  have partition := exact.partition
  rw [exact.free, exact.pending, exact.total, shared.holds.count, pending] at partition
  refine ⟨m, counted, ?_⟩
  rw [UInt64.toNat_add, Nat.mod_eq_of_lt (by omega)]
  omega

theorem unknown (shared : SharedCache config live cache) {id : SequenceId}
    (other : id ≠ prefixSequenceId) (fresh : id ∉ live) : cache.findSequence id = none := by
  rw [PagedKvCache.findSequence, Keyed.find_eq_none_iff]
  intro q member same
  have known : q.id ∈ cache.sequences.map Sequence.id := List.mem_map_of_mem member
  rw [shared.ids, same, List.mem_cons] at known
  exact known.elim other fresh

/-! ### Admission and completion -/

/-- Counting attachments changes neither the ids nor the token counts of the prefixes. -/
private theorem attachments_keep_prefixes (prefixes : List Prefix) (id : PrefixId)
    (counted : UInt64 → UInt64) :
    (Keyed.update Prefix.id prefixes id fun p =>
      { p with attachments := counted p.attachments }).map (fun p => (p.id, p.tokenCount)) =
        prefixes.map fun p => (p.id, p.tokenCount) :=
  Keyed.update_map _ prefixes id _ fun _ => rfl

/-- The pages of one more decision are free while fewer than `vehicle_count` are in service. -/
theorem room (accepted : config.Accepted) (shared : SharedCache config live cache)
    (few : live.length < config.vehicleCount.toNat) :
    config.sequencePages ≤ pagesIn cache.pages .free := by
  have free := shared.free_pages accepted
  have budget := accepted.room
  have others : (live.length + 1) * config.sequencePages ≤
      config.vehicleCount.toNat * config.sequencePages := Nat.mul_le_mul_right _ few
  rw [Nat.add_mul, Nat.one_mul, Nat.mul_comm config.vehicleCount.toNat] at others
  omega

/-- A decision is admitted while fewer than `vehicle_count` are in service: the three calls
succeed and the cache holds one sequence more. -/
theorem admission (accepted : config.Accepted) (shared : SharedCache config live cache)
    {id : SequenceId} (proper : id ≠ 0) (other : id ≠ prefixSequenceId) (fresh : id ∉ live)
    (few : live.length < config.vehicleCount.toNat) (counter : cache.nextReservationId ≠ 0) :
    ∃ created reserved reservation committed,
      cache.createSequence .unlimited id prefixId = (.success, created) ∧
      created.reserve .unlimited id config.totalTokens = (.ok reservation, reserved) ∧
      reserved.commit .unlimited reservation.id = (.success, committed) ∧
      SharedCache config (live ++ [id]) committed ∧
      committed.nextReservationId = cache.nextReservationId + 1 := by
  obtain ⟨attachments, pages, listed, foundPrefix, counted, _⟩ := shared.published
  have unknown := shared.unknown other fresh
  have attachable : attachments ≠ UInt64.ofNat (UInt64.size - 1) := by
    intro full
    have most : attachments.toNat = 2 ^ 64 - 1 := by
      rw [full]
      rfl
    have bound := config.vehicleCount.toNat_lt
    omega
  have above : config.sharedPrefixTokens ≤ config.totalTokens := by
    have prompt := accepted.prompt
    rw [UInt32.le_iff_toNat_le, accepted.total_toNat]
    omega
  -- the sequence starts with the shared tokens and no pages of its own
  have creation := createSequence_attached proper unknown (by decide) foundPrefix attachable
  have createdHolds := shared.holds.createSequence .unlimited id prefixId
  rw [creation] at createdHolds
  dsimp only at createdHolds
  have foundNew : Keyed.find Sequence.id (cache.sequences ++
      [⟨id, prefixId, config.sharedPrefixTokens, config.sharedPrefixTokens, []⟩]) id =
        some ⟨id, prefixId, config.sharedPrefixTokens, config.sharedPrefixTokens, []⟩ := by
    rw [Keyed.find_append]
    change (cache.findSequence id).or _ = _
    rw [unknown, if_pos rfl]
    rfl
  have enough := shared.room accepted few
  obtain ⟨reservation, reserved, committed, reservation_eq, commit_eq, holds, grown⟩ :=
    grow_succeeds createdHolds foundNew shared.settled above counter (by
      rw [PagedKvCache.capacity, accepted.total_toNat, shared.holds.pageSize]
      exact enough)
  refine ⟨_, reserved, reservation, committed, creation, reservation_eq, commit_eq, ?_,
    grown.counter⟩
  have sequences : committed.sequences = cache.sequences ++
      [⟨id, prefixId, config.sharedPrefixTokens, config.totalTokens, reservation.newPages⟩] := by
    rw [grown.sequences]
    exact Keyed.update_append_new unknown _ rfl _
  have prefixes := grown.prefixes
  refine ⟨holds, ?_, ?_, ?_, ?_, grown.reservations⟩
  · rw [sequences, List.map_append, shared.ids]
    rfl
  · rw [sequences]
    intro q member
    rcases List.mem_append.mp member with old | new
    · exact shared.attached q old
    · rw [List.mem_singleton.mp new]
  · rw [sequences]
    intro q member
    rcases List.mem_append.mp member with old | new
    · exact shared.totals q old
    · rw [List.mem_singleton.mp new, if_neg other]
  · rw [prefixes, attachments_keep_prefixes _ _ (· + 1)]
    exact shared.prefixes

/-- A decision in service can be destroyed, and only its sequence goes. -/
theorem complete (shared : SharedCache config live cache) {id : SequenceId} (member : id ∈ live) :
    ∃ after, cache.destroySequence id = (.success, after) ∧
      SharedCache config (live.erase id) after ∧
      after.nextReservationId = cache.nextReservationId := by
  have known : id ∈ cache.sequences.map Sequence.id := by
    rw [shared.ids]
    exact .tail _ member
  obtain ⟨q, present, named⟩ := List.mem_map.mp known
  have found : cache.findSequence id = some q :=
    Keyed.find_of_mem shared.holds.ids.sequences_unique present named
  have succeeded := destroySequence_succeeds shared.holds found (shared.no_reservation id)
  have holds := shared.holds.destroySequence id
  have effect := @destroySequence_effect cache id
  have other : id ≠ prefixSequenceId := by
    rintro rfl
    exact shared.live_distinct.1 member
  refine ⟨(cache.destroySequence id).2, Prod.ext succeeded rfl, ?_⟩
  rw [succeeded] at effect
  generalize (cache.destroySequence id).2 = after at effect holds ⊢
  cases effect with
  | refused failed => cases failed
  | destroyedDetached again _ detached =>
    have attached := shared.attached _ (Keyed.find_mem again)
    rw [detached] at attached
    cases attached
  | destroyedAttached =>
    refine ⟨⟨holds, ?_, ?_, ?_, ?_, shared.settled⟩, rfl⟩
    · dsimp only
      rw [Keyed.erase_keys, shared.ids, List.erase_cons_tail (by simpa using other.symm)]
    · exact fun q remaining => shared.attached q (Keyed.mem_of_mem_erase remaining)
    · exact fun q remaining => shared.totals q (Keyed.mem_of_mem_erase remaining)
    · dsimp only
      rw [attachments_keep_prefixes _ _ (· - 1)]
      exact shared.prefixes

end SharedCache

/-! ### The beginning and the end -/

section

variable {config : ScenarioConfig}

/-- A cache as it is created: every page is free. -/
def ScenarioConfig.emptyCache (config : ScenarioConfig) : PagedKvCache :=
  { pages := List.replicate config.kvPageCount.toNat {}, tokensPerPage := config.kvTokensPerPage }

theorem create_succeeds (accepted : config.Accepted) :
    PagedKvCache.create .unlimited config.kvPageCount config.kvTokensPerPage =
      .ok config.emptyCache := by
  rw [PagedKvCache.create, if_neg (by simp [accepted.pageCount, accepted.pageSize]),
    unlimited_caught]
  rfl

/-- The publisher creates its sequence and fills it with the shared tokens. -/
private theorem publisher_filled (accepted : config.Accepted) :
    ∃ created reservation reserved committed,
      config.emptyCache.createSequence .unlimited prefixSequenceId 0 = (.success, created) ∧
      created.reserve .unlimited prefixSequenceId config.sharedPrefixTokens =
        (.ok reservation, reserved) ∧
      reserved.commit .unlimited reservation.id = (.success, committed) ∧
      CacheInvariant config.kvPageCount.toNat config.kvTokensPerPage committed ∧
      (committed.sequences =
        [⟨prefixSequenceId, 0, 0, config.sharedPrefixTokens, reservation.newPages⟩] ∧
      committed.prefixes = [] ∧ committed.reservations = []) ∧
      committed.nextReservationId = 2 := by
  have empty : CacheInvariant config.kvPageCount.toNat config.kvTokensPerPage config.emptyCache :=
    CacheInvariant.run (create_succeeds accepted) []
  have creation := @createSequence_detached config.emptyCache prefixSequenceId (by decide) rfl
  have createdHolds := empty.createSequence .unlimited prefixSequenceId 0
  rw [creation] at createdHolds
  have foundNew : Keyed.find Sequence.id (config.emptyCache.sequences ++
      [⟨prefixSequenceId, 0, 0, 0, []⟩]) prefixSequenceId =
        some ⟨prefixSequenceId, 0, 0, 0, []⟩ := rfl
  have first : config.emptyCache.nextReservationId ≠ 0 := by
    change (1 : UInt64) ≠ 0
    decide
  have budget := accepted.room
  have free := free_pages_count empty.toCacheOwnership
  have unlisted : config.emptyCache.listedPages.length = 0 := rfl
  obtain ⟨reservation, reserved, committed, reservation_eq, commit_eq, holds, grown⟩ :=
    grow_succeeds createdHolds foundNew rfl UInt32.zero_le first (by
      change config.prefixPages ≤ pagesIn config.emptyCache.pages .free + 0
      omega)
  exact ⟨_, reservation, reserved, committed, creation, reservation_eq, commit_eq, holds,
    ⟨grown.sequences, grown.prefixes, grown.reservations⟩, grown.counter⟩

/-- What is filled is published: the first attachment is the publisher's. -/
theorem publishShared_succeeds (accepted : config.Accepted) :
    ∃ cache, publishShared config config.emptyCache = .ok cache ∧ SharedCache config [] cache ∧
      cache.nextReservationId = 2 := by
  obtain ⟨created, reservation, reserved, committed, creation, reservation_eq, commit_eq, holds,
    ⟨sequences, noPrefix, settled⟩, counter⟩ := publisher_filled accepted
  -- the prefix has tokens, so its pages are not none
  have stored : reservation.newPages ≠ [] := by
    have filled := holds.accounts.suffix_exact _ (sequences ▸ List.mem_singleton_self _)
    rw [PagedKvCache.capacity, holds.pageSize] at filled
    change _ = config.prefixPages at filled
    have positive := accepted.prefix_pages_pos
    intro none_new
    rw [none_new, List.length_nil] at filled
    omega
  have foundFilled : committed.findSequence prefixSequenceId =
      some ⟨prefixSequenceId, 0, 0, config.sharedPrefixTokens, reservation.newPages⟩ := by
    rw [PagedKvCache.findSequence, sequences]
    rfl
  have unpublished : committed.findPrefix prefixId = none := by
    rw [PagedKvCache.findPrefix, noPrefix]
    rfl
  have unreserved : committed.findSequenceReservation prefixSequenceId = none := by
    rw [PagedKvCache.findSequenceReservation, settled]
    rfl
  -- the publisher's sequence is still live and has no reservation, as `publish_prefix` asks
  have publication := publishPrefix_succeeds holds foundFilled (by decide) unpublished rfl
    accepted.shared stored unreserved
  have publishedHolds := holds.publishPrefix .unlimited prefixId prefixSequenceId
  rw [publication] at publishedHolds
  rw [sequences] at publication publishedHolds
  refine ⟨_, ?_, ⟨publishedHolds, rfl, ?_, ?_, ?_, settled⟩, counter⟩
  · rw [publishShared, creation]
    dsimp only
    rw [if_neg (by decide), reservation_eq]
    dsimp only
    rw [commit_eq, publication]
    rfl
  · intro q member
    obtain rfl := List.mem_singleton.mp member
    rfl
  · intro q member
    obtain rfl := List.mem_singleton.mp member
    rfl
  · rw [noPrefix]
    rfl

/-- The publisher's sequence is the last to go and takes the last attachment with it. -/
private theorem publisher_destroyed {cache : PagedKvCache} (shared : SharedCache config [] cache) :
    ∃ after pages, cache.destroySequence prefixSequenceId = (.success, after) ∧
      CacheInvariant config.kvPageCount.toNat config.kvTokensPerPage after ∧
      after.sequences = [] ∧
      after.prefixes = [⟨prefixId, config.sharedPrefixTokens, 0, pages⟩] ∧
      after.reservations = [] := by
  obtain ⟨attachments, pages, listed, _, counted, _⟩ := shared.published
  have single : attachments = 1 := UInt64.toNat_inj.mp counted
  obtain ⟨q, only, named⟩ := List.map_eq_singleton_iff.mp shared.ids
  have member : q ∈ cache.sequences := only ▸ List.mem_singleton_self _
  have found : cache.findSequence prefixSequenceId = some q :=
    Keyed.find_of_mem shared.holds.ids.sequences_unique member named
  have destroyed := destroySequence_succeeds shared.holds found (shared.no_reservation _)
  have holds := shared.holds.destroySequence prefixSequenceId
  have effect := @destroySequence_effect cache prefixSequenceId
  refine ⟨(cache.destroySequence prefixSequenceId).2, pages, Prod.ext destroyed rfl, holds, ?_⟩
  rw [destroyed] at effect
  generalize (cache.destroySequence prefixSequenceId).2 = after at effect
  cases effect with
  | refused failed => cases failed
  | destroyedDetached again _ detached =>
    have attached := shared.attached _ (Keyed.find_mem again)
    rw [detached] at attached
    cases attached
  | destroyedAttached again _ _ foundPrefix _ =>
    have attached := shared.attached _ (Keyed.find_mem again)
    refine ⟨?_, ?_, shared.settled⟩
    · dsimp only
      rw [only, Keyed.erase, List.eraseP_cons_of_pos (by simpa using named)]
    · dsimp only
      rw [attached, listed, single]
      simp [Keyed.update]

/-- At the end every page is free. -/
theorem releaseShared_succeeds {cache : PagedKvCache} (shared : SharedCache config [] cache) :
    ∃ released, releaseShared config cache = .ok released ∧
      Drained config.kvPageCount.toNat released := by
  obtain ⟨after, pages, destroyed, holds, sequences, prefixes, settled⟩ :=
    publisher_destroyed shared
  have found : after.findPrefix prefixId =
      some ⟨prefixId, config.sharedPrefixTokens, 0, pages⟩ := by
    rw [PagedKvCache.findPrefix, prefixes]
    rfl
  have succeeded := destroyPrefix_succeeds holds found rfl
  have effect := @destroyPrefix_effect after prefixId
  have releasedHolds := holds.destroyPrefix prefixId
  have released_eq : after.destroyPrefix prefixId =
      (.success, (after.destroyPrefix prefixId).2) := Prod.ext succeeded rfl
  rw [succeeded] at effect
  generalize (after.destroyPrefix prefixId).2 = released at effect releasedHolds released_eq
  have drained : Drained config.kvPageCount.toNat released := by
    cases effect with
    | refused failed => cases failed
    | destroyedPrefix =>
      apply drained_of_empty releasedHolds.toCacheOwnership sequences ?_ settled
      dsimp only
      rw [prefixes]
      rfl
  obtain ⟨m, counted, exact⟩ := metrics_exact releasedHolds config.kvPageCount.toNat_lt
    (by rw [drained.sequences]; exact Nat.zero_le _)
  have free := free_pages_count releasedHolds.toCacheOwnership
  have unlisted : released.listedPages.length = 0 := by
    simp [PagedKvCache.listedPages, drained.sequences, drained.prefixes, drained.reservations]
  have all : m.freePages = config.kvPageCount.toUInt64 := by
    apply UInt64.toNat_inj.mp
    rw [exact.free, UInt32.toNat_toUInt64]
    omega
  refine ⟨released, ?_, drained⟩
  rw [releaseShared, destroyed]
  dsimp only
  rw [released_eq]
  dsimp only
  rw [if_neg (by decide), counted]
  dsimp only
  rw [if_neg (not_not.mpr all)]

end

end MarketForge.Workloads
