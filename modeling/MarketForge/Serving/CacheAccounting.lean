import Mathlib.Algebra.Order.Floor.Div
import MarketForge.Serving.PageOwnership

/-!
# Reference counts and capacities

The counts the cache keeps beside the page lists: attachments of prefixes, token totals, and
page lists that are exactly as long as the tokens they hold require. The four parts depend on
each other and on the ids being unique, so they are one invariant, preserved call by call.
-/
namespace MarketForge.Serving

/-- Pages `tokens` need: the ceiling of the division by the page size. -/
def PagedKvCache.capacity (cache : PagedKvCache) (tokens : Nat) : Nat :=
  tokens ⌈/⌉ cache.tokensPerPage.toNat

/-- Reference counts and page counts are exact. -/
structure CacheAccounts (cache : PagedKvCache) : Prop where
  attachments_counted : ∀ p ∈ cache.prefixes,
    p.attachments.toNat = cache.sequences.countP fun q => q.prefixId = p.id
  attached : ∀ q ∈ cache.sequences, q.prefixId ≠ 0 →
    ∃ p ∈ cache.prefixes, p.id = q.prefixId ∧ p.tokenCount = q.prefixTokens
  detached : ∀ q ∈ cache.sequences, q.prefixId = 0 → q.prefixTokens = 0
  prefix_le : ∀ q ∈ cache.sequences, q.prefixTokens ≤ q.totalTokens
  suffix_exact : ∀ q ∈ cache.sequences,
    q.suffixPages.length = cache.capacity (q.totalTokens.toNat - q.prefixTokens.toNat)
  prefix_exact : ∀ p ∈ cache.prefixes, p.pages.length = cache.capacity p.tokenCount.toNat
  one_pending : (cache.reservations.map PendingReservation.sequenceId).Nodup
  pending_exact : ∀ r ∈ cache.reservations, ∃ q ∈ cache.sequences, q.id = r.sequenceId ∧
    q.totalTokens ≤ r.targetTokenCount ∧
    q.suffixPages.length + r.pages.length =
      cache.capacity (r.targetTokenCount.toNat - q.prefixTokens.toNat)

theorem pagesFor_toNat (tokens tokensPerPage : UInt32) (positive : tokensPerPage ≠ 0) :
    (pagesFor tokens tokensPerPage).toNat = tokens.toNat ⌈/⌉ tokensPerPage.toNat := by
  have left := tokens.toNat_lt
  have right := tokensPerPage.toNat_lt
  have nonzero : tokensPerPage.toNat ≠ 0 := fun zero => positive (UInt32.toNat_inj.mp zero)
  rw [Nat.ceilDiv_eq_add_pred_div, pagesFor, UInt64.toNat_div]
  congr 1
  rw [UInt64.toNat_sub, UInt64.toNat_add]
  simp only [UInt32.toNat_toUInt64, UInt64.toNat_one]
  omega

section Capacity

variable {cache : PagedKvCache}

theorem capacity_le {few many : Nat} (below : few ≤ many) :
    cache.capacity few ≤ cache.capacity many := by
  unfold PagedKvCache.capacity
  rw [Nat.ceilDiv_eq_add_pred_div, Nat.ceilDiv_eq_add_pred_div]
  exact Nat.div_le_div_right (by omega)

theorem tokensPerPage_pos (positive : cache.tokensPerPage ≠ 0) : 0 < cache.tokensPerPage.toNat :=
  Nat.pos_of_ne_zero fun zero => positive (UInt32.toNat_inj.mp zero)

theorem capacity_le_tokens (tokens : Nat) : cache.capacity tokens ≤ tokens := by
  unfold PagedKvCache.capacity
  rcases Nat.eq_zero_or_pos cache.tokensPerPage.toNat with zero | positive
  · simp [zero]
  · rw [ceilDiv_le_iff_le_smul positive, smul_eq_mul]
    exact Nat.le_mul_of_pos_left _ positive

/-- The pages for a number of tokens hold them. -/
theorem le_capacity_mul (positive : cache.tokensPerPage ≠ 0) (tokens : Nat) :
    tokens ≤ cache.capacity tokens * cache.tokensPerPage.toNat := by
  have covers := (ceilDiv_le_iff_le_smul (tokensPerPage_pos positive)).mp
    (le_refl (cache.capacity tokens))
  rwa [smul_eq_mul, Nat.mul_comm] at covers

/-- At most one page is not full. -/
theorem capacity_mul_le (tokens : Nat) :
    cache.capacity tokens * cache.tokensPerPage.toNat ≤ tokens + cache.tokensPerPage.toNat := by
  unfold PagedKvCache.capacity
  rw [Nat.ceilDiv_eq_add_pred_div]
  exact Nat.le_trans (Nat.div_mul_le_self _ _) (Nat.sub_le _ _)

theorem div_lt_capacity (positive : cache.tokensPerPage ≠ 0) {token tokens : Nat}
    (below : token < tokens) : token / cache.tokensPerPage.toNat < cache.capacity tokens := by
  rw [Nat.div_lt_iff_lt_mul (tokensPerPage_pos positive)]
  exact Nat.lt_of_lt_of_le below (le_capacity_mul positive tokens)

@[simp] theorem capacity_zero : cache.capacity 0 = 0 :=
  Nat.le_zero.mp (capacity_le_tokens 0)

/-- The page count of `reserve` is exact: nothing wraps on the way. -/
theorem newPageCount_toNat (positive : cache.tokensPerPage ≠ 0) {q : Sequence} {target : UInt32}
    (below : q.prefixTokens ≤ target)
    (exact : q.suffixPages.length ≤ cache.capacity (target.toNat - q.prefixTokens.toNat)) :
    q.suffixPages.length + (cache.newPageCount q target).toNat =
      cache.capacity (target.toNat - q.prefixTokens.toNat) := by
  have tokens : (target - q.prefixTokens).toNat = target.toNat - q.prefixTokens.toNat :=
    UInt32.toNat_sub_of_le _ _ below
  have required : (pagesFor (target - q.prefixTokens) cache.tokensPerPage).toNat =
      cache.capacity (target.toNat - q.prefixTokens.toNat) := by
    rw [pagesFor_toNat _ _ positive, tokens]; rfl
  have small := @capacity_le_tokens cache (target.toNat - q.prefixTokens.toNat)
  have bound := target.toNat_lt
  have existing : (UInt64.ofNat q.suffixPages.length).toNat = q.suffixPages.length := by
    rw [UInt64.toNat_ofNat']
    omega
  unfold PagedKvCache.newPageCount
  dsimp only
  split
  next more =>
    rw [gt_iff_lt, UInt64.lt_iff_toNat_lt] at more
    rw [UInt64.toNat_sub_of_le _ _ (UInt64.le_iff_toNat_le.mpr more.le), required, existing]
    omega
  next enough =>
    rw [gt_iff_lt, UInt64.lt_iff_toNat_lt, required, existing] at enough
    simp only [UInt64.toNat_zero]
    omega

end Capacity

/-! ### Counting attachments -/

/-- Live sequences attached to a prefix. -/
def attachedTo (sequences : List Sequence) (id : PrefixId) : Nat :=
  sequences.countP fun q => q.prefixId = id

theorem attachedTo_perm {S S' : List Sequence} (same : S.Perm S') (id : PrefixId) :
    attachedTo S id = attachedTo S' id :=
  same.countP_eq _

theorem attachedTo_cons (q : Sequence) (S : List Sequence) (id : PrefixId) :
    attachedTo (q :: S) id = attachedTo S id + if q.prefixId = id then 1 else 0 := by
  simp [attachedTo, List.countP_cons]

theorem attachedTo_append (S : List Sequence) (q : Sequence) (id : PrefixId) :
    attachedTo (S ++ [q]) id = attachedTo S id + if q.prefixId = id then 1 else 0 := by
  rw [attachedTo_perm (List.perm_append_singleton q S), attachedTo_cons]

/-- Removing a sequence that was found lowers the count of its own prefix only. -/
theorem attachedTo_erase {S : List Sequence} {key : SequenceId} {q : Sequence}
    (found : Keyed.find Sequence.id S key = some q) (id : PrefixId) :
    attachedTo S id =
      attachedTo (Keyed.erase Sequence.id S key) id + if q.prefixId = id then 1 else 0 := by
  rw [attachedTo_perm (Keyed.perm_of_find found), attachedTo_cons]

/-- Rewriting a sequence that was found moves its own attachment only. -/
theorem attachedTo_update {S : List Sequence} {key : SequenceId} {q : Sequence}
    (found : Keyed.find Sequence.id S key = some q) (f : Sequence → Sequence) (id : PrefixId) :
    attachedTo (Keyed.update Sequence.id S key f) id =
      attachedTo (Keyed.erase Sequence.id S key) id + if (f q).prefixId = id then 1 else 0 := by
  rw [attachedTo_perm (Keyed.update_perm found f), attachedTo_cons]

theorem attachedTo_pos {S : List Sequence} {q : Sequence} (member : q ∈ S) :
    0 < attachedTo S q.prefixId :=
  List.countP_pos_iff.mpr ⟨q, member, by simp⟩

theorem attachedTo_eq_zero {S : List Sequence} {id : PrefixId}
    (absent : ∀ q ∈ S, q.prefixId ≠ id) : attachedTo S id = 0 :=
  List.countP_eq_zero.mpr fun q member => by simpa using absent q member

/-! ### The accounts are kept by every call -/

section Steps

variable {cache : PagedKvCache}

/-- A sequence with a pending reservation is not settled. -/
private theorem settled_ne {sequenceId : SequenceId}
    (settled : cache.findSequenceReservation sequenceId = none) {r : PendingReservation}
    (member : r ∈ cache.reservations) : r.sequenceId ≠ sequenceId :=
  Keyed.find_eq_none_iff.mp settled r member

/-- The prefix a sequence names is the record found under that id. -/
private theorem prefix_of_id (ids : CacheIds cache) {p : Prefix} (member : p ∈ cache.prefixes)
    {id : PrefixId} {shared : Prefix} (found : cache.findPrefix id = some shared)
    (same : p.id = id) : p = shared :=
  Keyed.eq_of_key ids.prefixes_unique member (Keyed.find_mem found)
    (same.trans (Keyed.find_key found).symm)

private theorem sequence_of_id (ids : CacheIds cache) {q : Sequence}
    (member : q ∈ cache.sequences) {id : SequenceId} {sequence : Sequence}
    (found : cache.findSequence id = some sequence) (same : q.id = id) : q = sequence :=
  Keyed.eq_of_key ids.sequences_unique member (Keyed.find_mem found)
    (same.trans (Keyed.find_key found).symm)

private theorem id_ne_zero (ids : CacheIds cache) {p : Prefix} (member : p ∈ cache.prefixes) :
    p.id ≠ 0 :=
  fun zero => ids.prefix_proper (List.mem_map.mpr ⟨p, member, zero⟩)

/-- Counting attachments does not hide a prefix from the sequences that name it. -/
private theorem attached_update {P : List Prefix} {id : PrefixId} (count : UInt64 → UInt64)
    (unique : (P.map Prefix.id).Nodup) {prefixId : PrefixId} {tokens : UInt32}
    (attached : ∃ p ∈ P, p.id = prefixId ∧ p.tokenCount = tokens) :
    ∃ p ∈ Keyed.update Prefix.id P id fun p => { p with attachments := count p.attachments },
      p.id = prefixId ∧ p.tokenCount = tokens := by
  obtain ⟨p, member, same, exact⟩ := attached
  by_cases hit : p.id = id
  · have found := Keyed.find_of_mem unique member hit
    exact ⟨_, (Keyed.mem_update_iff unique found _ _).mpr (.inl rfl), same, exact⟩
  · cases found : Keyed.find Prefix.id P id with
    | none => exact ⟨p, by rwa [Keyed.update_of_absent found], same, exact⟩
    | some r =>
      exact ⟨p, (Keyed.mem_update_iff unique found _ _).mpr (.inr ⟨member, hit⟩), same, exact⟩

theorem accounts_createdDetached (ids : CacheIds cache) (accounts : CacheAccounts cache)
    (sequenceId : SequenceId) :
    CacheAccounts
      { cache with sequences := cache.sequences ++ [⟨sequenceId, 0, 0, 0, []⟩] } where
  attachments_counted := by
    intro p member
    have other : (0 : PrefixId) ≠ p.id := (id_ne_zero ids member).symm
    have count := attachedTo_append cache.sequences ⟨sequenceId, 0, 0, 0, []⟩ p.id
    rw [if_neg other, Nat.add_zero] at count
    exact (accounts.attachments_counted p member).trans count.symm
  attached := by
    intro q member named
    rcases List.mem_append.mp member with old | new
    · exact accounts.attached q old named
    · rw [List.mem_singleton.mp new] at named
      exact absurd rfl named
  detached := by
    intro q member named
    rcases List.mem_append.mp member with old | new
    · exact accounts.detached q old named
    · rw [List.mem_singleton.mp new]
  prefix_le := by
    intro q member
    rcases List.mem_append.mp member with old | new
    · exact accounts.prefix_le q old
    · rw [List.mem_singleton.mp new]; exact UInt32.le_refl _
  suffix_exact := by
    intro q member
    rcases List.mem_append.mp member with old | new
    · exact accounts.suffix_exact q old
    · rw [List.mem_singleton.mp new]; simp
  prefix_exact := accounts.prefix_exact
  one_pending := accounts.one_pending
  pending_exact := by
    intro r member
    obtain ⟨q, present, rest⟩ := accounts.pending_exact r member
    exact ⟨q, List.mem_append_left _ present, rest⟩

theorem accounts_createdAttached (ids : CacheIds cache) (accounts : CacheAccounts cache)
    (sequenceId : SequenceId) {prefixId : PrefixId} {shared : Prefix} (named : prefixId ≠ 0)
    (found : cache.findPrefix prefixId = some shared)
    (room : shared.attachments ≠ UInt64.ofNat (UInt64.size - 1)) :
    CacheAccounts
      { cache with
        sequences := cache.sequences ++
          [⟨sequenceId, prefixId, shared.tokenCount, shared.tokenCount, []⟩]
        prefixes := Keyed.update Prefix.id cache.prefixes prefixId fun p =>
          { p with attachments := p.attachments + 1 } } where
  attachments_counted := by
    intro p member
    have count := attachedTo_append cache.sequences
      ⟨sequenceId, prefixId, shared.tokenCount, shared.tokenCount, []⟩ p.id
    refine Eq.trans ?_ count.symm
    rcases (Keyed.mem_update_iff ids.prefixes_unique found _ _).mp member with rfl | ⟨old, other⟩
    · -- The guard on the maximum keeps the increment from wrapping.
      have exact : (shared.attachments + 1).toNat = shared.attachments.toNat + 1 := by
        have bound := shared.attachments.toNat_lt
        have below : shared.attachments.toNat ≠ 2 ^ 64 - 1 := fun full =>
          room (UInt64.toNat_inj.mp (full.trans (by decide)))
        rw [UInt64.toNat_add, UInt64.toNat_one]
        omega
      have before := accounts.attachments_counted shared (Keyed.find_mem found)
      have same : prefixId = shared.id := (Keyed.find_key found).symm
      rw [exact, before, if_pos same]
      rfl
    · rw [if_neg (Ne.symm other), Nat.add_zero]
      exact accounts.attachments_counted p old
  attached := by
    intro q member linked
    rcases List.mem_append.mp member with old | new
    · exact attached_update (· + 1) ids.prefixes_unique (accounts.attached q old linked)
    -- the new sequence starts with the tokens of its prefix and with no page of its own
    · rw [List.mem_singleton.mp new]
      exact attached_update (· + 1) ids.prefixes_unique
        ⟨shared, Keyed.find_mem found, Keyed.find_key found, rfl⟩
  detached := by
    intro q member unnamed
    rcases List.mem_append.mp member with old | new
    · exact accounts.detached q old unnamed
    · rw [List.mem_singleton.mp new] at unnamed
      exact absurd unnamed named
  prefix_le := by
    intro q member
    rcases List.mem_append.mp member with old | new
    · exact accounts.prefix_le q old
    · rw [List.mem_singleton.mp new]; exact UInt32.le_refl _
  suffix_exact := by
    intro q member
    rcases List.mem_append.mp member with old | new
    · exact accounts.suffix_exact q old
    · rw [List.mem_singleton.mp new]; simp
  prefix_exact := by
    intro p member
    rcases (Keyed.mem_update_iff ids.prefixes_unique found _ _).mp member with rfl | ⟨old, _⟩
    · exact accounts.prefix_exact shared (Keyed.find_mem found)
    · exact accounts.prefix_exact p old
  one_pending := accounts.one_pending
  pending_exact := by
    intro r member
    obtain ⟨q, present, rest⟩ := accounts.pending_exact r member
    exact ⟨q, List.mem_append_left _ present, rest⟩

/-- Pending reservations keep their sequence when a settled one is removed. -/
private theorem pending_after_erase (accounts : CacheAccounts cache) (ids : CacheIds cache)
    {sequenceId : SequenceId} (settled : cache.findSequenceReservation sequenceId = none)
    {r : PendingReservation} (member : r ∈ cache.reservations) :
    ∃ q ∈ Keyed.erase Sequence.id cache.sequences sequenceId, q.id = r.sequenceId ∧
      q.totalTokens ≤ r.targetTokenCount ∧
      q.suffixPages.length + r.pages.length =
        cache.capacity (r.targetTokenCount.toNat - q.prefixTokens.toNat) := by
  obtain ⟨q, present, owner, rest⟩ := accounts.pending_exact r member
  have kept : q.id ≠ sequenceId := owner ▸ settled_ne settled member
  exact ⟨q, (Keyed.mem_erase_iff ids.sequences_unique).mpr ⟨present, kept⟩, owner, rest⟩

theorem accounts_destroyedDetached (ids : CacheIds cache) (accounts : CacheAccounts cache)
    {sequenceId : SequenceId} {sequence : Sequence} (pages : List Page)
    (found : cache.findSequence sequenceId = some sequence)
    (settled : cache.findSequenceReservation sequenceId = none)
    (detached : sequence.prefixId = 0) :
    CacheAccounts
      { cache with
        pages := pages
        sequences := Keyed.erase Sequence.id cache.sequences sequenceId } where
  attachments_counted := by
    intro p member
    have count := attachedTo_erase found p.id
    rw [if_neg (detached ▸ (id_ne_zero ids member).symm), Nat.add_zero] at count
    exact (accounts.attachments_counted p member).trans count
  attached := fun q member => accounts.attached q (Keyed.mem_of_mem_erase member)
  detached := fun q member => accounts.detached q (Keyed.mem_of_mem_erase member)
  prefix_le := fun q member => accounts.prefix_le q (Keyed.mem_of_mem_erase member)
  suffix_exact := fun q member => accounts.suffix_exact q (Keyed.mem_of_mem_erase member)
  prefix_exact := accounts.prefix_exact
  one_pending := accounts.one_pending
  pending_exact := fun _ member => pending_after_erase accounts ids settled member

theorem accounts_destroyedAttached (ids : CacheIds cache) (accounts : CacheAccounts cache)
    {sequenceId : SequenceId} {sequence : Sequence} {shared : Prefix} (pages : List Page)
    (found : cache.findSequence sequenceId = some sequence)
    (settled : cache.findSequenceReservation sequenceId = none)
    (foundPrefix : cache.findPrefix sequence.prefixId = some shared)
    (referenced : shared.attachments ≠ 0) :
    CacheAccounts
      { cache with
        pages := pages
        prefixes := Keyed.update Prefix.id cache.prefixes sequence.prefixId fun p =>
          { p with attachments := p.attachments - 1 }
        sequences := Keyed.erase Sequence.id cache.sequences sequenceId } where
  attachments_counted := by
    intro p member
    rcases (Keyed.mem_update_iff ids.prefixes_unique foundPrefix _ _).mp member with
      rfl | ⟨old, other⟩
    · -- the prefix of the sequence loses one attachment and one sequence
      have before : shared.attachments.toNat = attachedTo cache.sequences shared.id :=
        accounts.attachments_counted shared (Keyed.find_mem foundPrefix)
      have count := attachedTo_erase found shared.id
      rw [if_pos (Keyed.find_key foundPrefix).symm] at count
      have exact : (shared.attachments - 1).toNat = shared.attachments.toNat - 1 := by
        have nonzero : shared.attachments.toNat ≠ 0 := fun zero =>
          referenced (UInt64.toNat_inj.mp zero)
        rw [UInt64.toNat_sub_of_le _ _ (UInt64.le_iff_toNat_le.mpr (by
          rw [UInt64.toNat_one]; omega)), UInt64.toNat_one]
      change (shared.attachments - 1).toNat =
        attachedTo (Keyed.erase Sequence.id cache.sequences sequenceId) shared.id
      omega
    · -- another prefix loses neither
      have count := attachedTo_erase found p.id
      rw [if_neg (Ne.symm other), Nat.add_zero] at count
      exact (accounts.attachments_counted p old).trans count
  attached := fun q member named =>
    attached_update (· - 1) ids.prefixes_unique
      (accounts.attached q (Keyed.mem_of_mem_erase member) named)
  detached := fun q member => accounts.detached q (Keyed.mem_of_mem_erase member)
  prefix_le := fun q member => accounts.prefix_le q (Keyed.mem_of_mem_erase member)
  suffix_exact := fun q member => accounts.suffix_exact q (Keyed.mem_of_mem_erase member)
  prefix_exact := by
    intro p member
    rcases (Keyed.mem_update_iff ids.prefixes_unique foundPrefix _ _).mp member with rfl | ⟨old, _⟩
    · exact accounts.prefix_exact shared (Keyed.find_mem foundPrefix)
    · exact accounts.prefix_exact p old
  one_pending := accounts.one_pending
  pending_exact := fun _ member => pending_after_erase accounts ids settled member

theorem accounts_reserved (accounts : CacheAccounts cache) (positive : cache.tokensPerPage ≠ 0)
    {sequenceId : SequenceId} {target : UInt32} {sequence : Sequence} (pages : List Page)
    (next : ReservationId) {selected : List KvPageId}
    (found : cache.findSequence sequenceId = some sequence)
    (settled : cache.findSequenceReservation sequenceId = none)
    (grows : sequence.totalTokens ≤ target)
    (enough : selected.length = (cache.newPageCount sequence target).toNat) :
    CacheAccounts
      { cache with
        reservations := cache.reservations ++
          [⟨cache.nextReservationId, sequenceId, target, selected⟩]
        pages := pages
        nextReservationId := next } where
  attachments_counted := accounts.attachments_counted
  attached := accounts.attached
  detached := accounts.detached
  prefix_le := accounts.prefix_le
  suffix_exact := accounts.suffix_exact
  prefix_exact := accounts.prefix_exact
  one_pending := by
    rw [List.map_append, List.nodup_append]
    refine ⟨accounts.one_pending, by simp, ?_⟩
    rintro owner old owner' new rfl
    obtain ⟨r, member, rfl⟩ := List.mem_map.mp old
    exact settled_ne settled member (by simpa using new)
  pending_exact := by
    intro r member
    rcases List.mem_append.mp member with old | new
    · exact accounts.pending_exact r old
    · rw [List.mem_singleton.mp new]
      have present := Keyed.find_mem found
      have below := accounts.prefix_le sequence present
      have covered : sequence.suffixPages.length ≤
          cache.capacity (target.toNat - sequence.prefixTokens.toNat) := by
        rw [accounts.suffix_exact sequence present]
        have := UInt32.le_iff_toNat_le.mp grows
        exact capacity_le (by omega)
      refine ⟨sequence, present, Keyed.find_key found, grows, ?_⟩
      rw [enough]
      exact newPageCount_toNat positive (UInt32.le_trans below grows) covered

theorem accounts_committed (ids : CacheIds cache) (accounts : CacheAccounts cache)
    {reservationId : ReservationId} {reservation : PendingReservation} {sequence : Sequence}
    (pages : List Page) (found : cache.findReservation reservationId = some reservation)
    (foundSequence : cache.findSequence reservation.sequenceId = some sequence) :
    CacheAccounts
      { cache with
        sequences := Keyed.update Sequence.id cache.sequences reservation.sequenceId fun q =>
          { q with
            suffixPages := q.suffixPages ++ reservation.pages
            totalTokens := reservation.targetTokenCount }
        pages := pages
        reservations := Keyed.erase PendingReservation.id cache.reservations reservationId } := by
  have member := Keyed.mem_update_iff ids.sequences_unique foundSequence fun q =>
    { q with
      suffixPages := q.suffixPages ++ reservation.pages
      totalTokens := reservation.targetTokenCount }
  have present := Keyed.find_mem foundSequence
  -- The sequence the reservation was made for is the one it is attached to.
  obtain ⟨owner, ownerPresent, ownerId, grows, exact⟩ :=
    accounts.pending_exact reservation (Keyed.find_mem found)
  obtain rfl := sequence_of_id ids ownerPresent foundSequence ownerId
  constructor
  case attachments_counted =>
    intro p prefixMember
    have before := attachedTo_erase foundSequence p.id
    have after := attachedTo_update foundSequence (fun q =>
      { q with
        suffixPages := q.suffixPages ++ reservation.pages
        totalTokens := reservation.targetTokenCount }) p.id
    exact (accounts.attachments_counted p prefixMember).trans (before.trans after.symm)
  case attached =>
    intro q hq named
    rcases (member q).mp hq with rfl | ⟨old, _⟩
    · exact accounts.attached owner present named
    · exact accounts.attached q old named
  case detached =>
    intro q hq unnamed
    rcases (member q).mp hq with rfl | ⟨old, _⟩
    · exact accounts.detached owner present unnamed
    · exact accounts.detached q old unnamed
  case prefix_le =>
    intro q hq
    rcases (member q).mp hq with rfl | ⟨old, _⟩
    · exact UInt32.le_trans (accounts.prefix_le owner present) grows
    · exact accounts.prefix_le q old
  case suffix_exact =>
    intro q hq
    rcases (member q).mp hq with rfl | ⟨old, _⟩
    · rw [List.length_append]
      exact exact
    · exact accounts.suffix_exact q old
  case prefix_exact => exact accounts.prefix_exact
  case one_pending =>
    exact (List.eraseP_sublist.map _).nodup accounts.one_pending
  case pending_exact =>
    intro r hr
    obtain ⟨old, other⟩ := (Keyed.mem_erase_iff ids.reservations_unique).mp hr
    obtain ⟨q, hq, hid, rest⟩ := accounts.pending_exact r old
    have different : q.id ≠ reservation.sequenceId := by
      intro same
      have sameRecord := List.inj_on_of_nodup_map accounts.one_pending old (Keyed.find_mem found)
        (hid.symm.trans same)
      exact other (sameRecord ▸ Keyed.find_key found)
    exact ⟨q, (member q).mpr (.inr ⟨hq, different⟩), hid, rest⟩

theorem accounts_rolledBack (accounts : CacheAccounts cache) (pages : List Page)
    (reservationId : ReservationId) :
    CacheAccounts
      { cache with
        pages := pages
        reservations := Keyed.erase PendingReservation.id cache.reservations reservationId } :=
  { accounts with
    one_pending := (List.eraseP_sublist.map _).nodup accounts.one_pending
    pending_exact := fun r member => accounts.pending_exact r (Keyed.mem_of_mem_erase member) }

theorem accounts_published (ids : CacheIds cache) (accounts : CacheAccounts cache)
    {prefixId : PrefixId} {sequenceId : SequenceId} {sequence : Sequence} (pages : List Page)
    (found : cache.findSequence sequenceId = some sequence) (named : prefixId ≠ 0)
    (fresh : cache.findPrefix prefixId = none) (detached : sequence.prefixId = 0)
    (settled : cache.findSequenceReservation sequenceId = none) :
    CacheAccounts
      { cache with
        prefixes := cache.prefixes ++
          [⟨prefixId, sequence.totalTokens, 1, sequence.suffixPages⟩]
        pages := pages
        sequences := Keyed.update Sequence.id cache.sequences sequenceId fun q =>
          { q with prefixId := prefixId, prefixTokens := q.totalTokens, suffixPages := [] } } := by
  have member := Keyed.mem_update_iff ids.sequences_unique found fun q =>
    { q with prefixId := prefixId, prefixTokens := q.totalTokens, suffixPages := [] }
  have present := Keyed.find_mem found
  -- Nobody was attached to the id before: an attachment names a live prefix.
  have unattached : ∀ q ∈ cache.sequences, q.prefixId ≠ prefixId := by
    intro q hq same
    obtain ⟨p, hp, hid, _⟩ := accounts.attached q hq (same ▸ named)
    exact Keyed.find_eq_none_iff.mp fresh p hp (hid.trans same)
  constructor
  case attachments_counted =>
    intro p prefixMember
    have before := attachedTo_erase found p.id
    have after := attachedTo_update found (fun q =>
      { q with prefixId := prefixId, prefixTokens := q.totalTokens, suffixPages := [] }) p.id
    refine Eq.trans ?_ after.symm
    rcases List.mem_append.mp prefixMember with old | new
    · have other : prefixId ≠ p.id := fun same =>
        Keyed.find_eq_none_iff.mp fresh p old same.symm
      have notZero : sequence.prefixId ≠ p.id := detached ▸ (id_ne_zero ids old).symm
      rw [if_neg other]
      rw [if_neg notZero] at before
      exact (accounts.attachments_counted p old).trans before
    · rw [List.mem_singleton.mp new]
      rw [attachedTo_eq_zero fun q hq => unattached q (Keyed.mem_of_mem_erase hq), if_pos rfl]
      rfl
  case attached =>
    intro q hq _
    rcases (member q).mp hq with rfl | ⟨old, _⟩
    · exact ⟨⟨prefixId, sequence.totalTokens, 1, sequence.suffixPages⟩,
        List.mem_append_right _ List.mem_cons_self, rfl, rfl⟩
    · obtain ⟨p, hp, rest⟩ := accounts.attached q old ‹_›
      exact ⟨p, List.mem_append_left _ hp, rest⟩
  case detached =>
    intro q hq unnamed
    rcases (member q).mp hq with rfl | ⟨old, _⟩
    · exact absurd unnamed named
    · exact accounts.detached q old unnamed
  case prefix_le =>
    intro q hq
    rcases (member q).mp hq with rfl | ⟨old, _⟩
    · exact UInt32.le_refl _
    · exact accounts.prefix_le q old
  case suffix_exact =>
    intro q hq
    rcases (member q).mp hq with rfl | ⟨old, _⟩
    · simp
    · exact accounts.suffix_exact q old
  case prefix_exact =>
    intro p prefixMember
    rcases List.mem_append.mp prefixMember with old | new
    · exact accounts.prefix_exact p old
    · -- The whole sequence becomes the prefix: it had none of its own before.
      rw [List.mem_singleton.mp new]
      have exact := accounts.suffix_exact sequence present
      rw [accounts.detached sequence present detached, UInt32.toNat_zero, Nat.sub_zero] at exact
      exact exact
  case one_pending => exact accounts.one_pending
  case pending_exact =>
    intro r hr
    obtain ⟨q, hq, hid, rest⟩ := accounts.pending_exact r hr
    have different : q.id ≠ sequenceId := hid ▸ settled_ne settled hr
    exact ⟨q, (member q).mpr (.inr ⟨hq, different⟩), hid, rest⟩

theorem accounts_destroyedPrefix (ids : CacheIds cache) (accounts : CacheAccounts cache)
    {prefixId : PrefixId} {shared : Prefix} (pages : List Page)
    (found : cache.findPrefix prefixId = some shared) (unused : shared.attachments = 0) :
    CacheAccounts
      { cache with
        pages := pages
        prefixes := Keyed.erase Prefix.id cache.prefixes prefixId } :=
  { accounts with
    attachments_counted := fun p member =>
      accounts.attachments_counted p (Keyed.mem_of_mem_erase member)
    prefix_exact := fun p member => accounts.prefix_exact p (Keyed.mem_of_mem_erase member)
    attached := by
      intro q member named
      obtain ⟨p, present, same, tokens⟩ := accounts.attached q member named
      refine ⟨p, (Keyed.mem_erase_iff ids.prefixes_unique).mpr ⟨present, ?_⟩, same, tokens⟩
      -- A prefix somebody is attached to has a positive count.
      intro hit
      obtain rfl := prefix_of_id ids present found hit
      have count : p.attachments.toNat = attachedTo cache.sequences p.id :=
        accounts.attachments_counted p present
      have positive := attachedTo_pos member
      rw [← same, ← count, unused] at positive
      simp at positive }

end Steps

theorem CacheEffect.accounts {after : PagedKvCache} {cache : PagedKvCache} {call : CacheCall}
    {reply : CacheReply} (effect : CacheEffect cache call reply after) (ids : CacheIds cache)
    (accounts : CacheAccounts cache) (positive : cache.tokensPerPage ≠ 0) :
    CacheAccounts after := by
  cases effect with
  | refused => exact accounts
  | createdDetached proper fresh => exact accounts_createdDetached ids accounts _
  | createdAttached proper fresh named found room =>
    exact accounts_createdAttached ids accounts _ named found room
  | destroyedDetached found settled detached =>
    exact accounts_destroyedDetached ids accounts _ found settled detached
  | destroyedAttached found settled attached foundPrefix referenced =>
    exact accounts_destroyedAttached ids accounts _ found settled foundPrefix referenced
  | reserved found settled grows counter selection enough =>
    exact accounts_reserved accounts positive _ _ found settled grows enough
  | committed found foundSequence => exact accounts_committed ids accounts _ found foundSequence
  | rolledBack found => exact accounts_rolledBack accounts _ _
  | published found named fresh detached started settled =>
    exact accounts_published ids accounts _ found named fresh detached settled
  | destroyedPrefix found unused => exact accounts_destroyedPrefix ids accounts _ found unused

theorem CacheEffect.tokensPerPage {cache after : PagedKvCache} {call : CacheCall}
    {reply : CacheReply} (effect : CacheEffect cache call reply after) :
    after.tokensPerPage = cache.tokensPerPage := by
  cases effect <;> rfl

/-- The full invariant of a cache of `pageCount` pages of `tokensPerPage` tokens. -/
structure CacheInvariant (pageCount : Nat) (tokensPerPage : UInt32) (cache : PagedKvCache) : Prop
    extends CacheOwnership pageCount cache where
  accounts : CacheAccounts cache
  pageSize : cache.tokensPerPage = tokensPerPage
  positive : tokensPerPage ≠ 0

theorem CacheInvariant.step {pageCount : Nat} {tokensPerPage : UInt32} (cache : PagedKvCache)
    (call : CacheCall) (holds : CacheInvariant pageCount tokensPerPage cache) :
    CacheInvariant pageCount tokensPerPage (cacheMachine.step cache call).2 := by
  have effect := cacheStep_effect cache call
  exact ⟨holds.toCacheOwnership.step cache call,
    effect.accounts holds.ids holds.accounts (holds.pageSize ▸ holds.positive),
    effect.tokensPerPage.trans holds.pageSize, holds.positive⟩

theorem CacheInvariant.run {alloc : Allocator} {pageCount tokensPerPage : UInt32}
    {cache : PagedKvCache}
    (created : PagedKvCache.create alloc pageCount tokensPerPage = .ok cache)
    (calls : List CacheCall) :
    CacheInvariant pageCount.toNat tokensPerPage (cacheMachine.run cache calls) := by
  refine cacheMachine.run_invariant _ CacheInvariant.step cache ?_ calls
  have owned := CacheOwnership.create created
  obtain ⟨positive, rfl⟩ := create_eq created
  exact ⟨owned, by constructor <;> simp, rfl, positive⟩

/-- Reference counts and page counts are exact after every run. -/
theorem accounts_exact (alloc : Allocator) (pageCount tokensPerPage : UInt32)
    (cache : PagedKvCache)
    (created : PagedKvCache.create alloc pageCount tokensPerPage = .ok cache)
    (calls : List CacheCall) :
    CacheAccounts (cacheMachine.run cache calls) ∧
      (cacheMachine.run cache calls).tokensPerPage = tokensPerPage :=
  have holds := CacheInvariant.run created calls
  ⟨holds.accounts, holds.pageSize⟩

/-- A prefix shared by two sequences, one of them with a reservation pending. -/
theorem accounts_exact_shared :
    let calls : List CacheCall :=
      [.createSequence .unlimited 7 0, .reserve .unlimited 7 3, .commit .unlimited 1,
        .publishPrefix .unlimited 9 7, .createSequence .unlimited 8 9, .reserve .unlimited 8 6]
    let cache := cacheMachine.run { pages := List.replicate 4 {}, tokensPerPage := 2 } calls
    (CacheAccounts cache ∧ cache.tokensPerPage = 2) ∧
      cache.prefixes = [⟨9, 3, 2, [0, 1]⟩] ∧ cache.reservations = [⟨2, 8, 6, [2, 3]⟩] :=
  ⟨accounts_exact .unlimited 4 2 { pages := List.replicate 4 {}, tokensPerPage := 2 } rfl _,
    by decide, by decide⟩

end MarketForge.Serving
