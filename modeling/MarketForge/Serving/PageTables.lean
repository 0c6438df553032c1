import MarketForge.Serving.CacheAccounting

/-!
# Page tables

`page_table` lists the pages of a sequence: those of the prefix it is attached to, then its own.
While a sequence lives its table only grows at the end, whatever else happens to the cache, and
two sequences have pages in common only through the prefix they share.
-/
namespace MarketForge.Serving

structure KvPageTable where
  sequenceId : SequenceId
  prefixId : PrefixId
  prefixTokens : UInt32
  totalTokens : UInt32
  sharedPrefixPages : UInt32
  pages : List KvPageId
  deriving DecidableEq, Repr

namespace PagedKvCache

/-- The prefix a sequence is attached to. -/
def attachedPrefix (cache : PagedKvCache) (sequence : Sequence) : Option Prefix :=
  if sequence.prefixId = 0 then none else cache.findPrefix sequence.prefixId

/-- The pages of that prefix. -/
def sharedPages (cache : PagedKvCache) (sequence : Sequence) : List KvPageId :=
  ((cache.attachedPrefix sequence).map Prefix.pages).getD []

def pageTable (alloc : Allocator) (cache : PagedKvCache) (sequenceId : SequenceId) :
    Result KvPageTable :=
  match cache.findSequence sequenceId with
  | none => .error (.failure .invalidArgument)
  | some sequence =>
    if sequence.prefixId ≠ 0 ∧ (cache.attachedPrefix sequence).isNone then
      .error (.failure .invalidFormat)
    else match alloc.caught [0] with
      | some code => .error (.failure code)
      | none =>
        .ok {
          sequenceId
          prefixId := sequence.prefixId
          prefixTokens := sequence.prefixTokens
          totalTokens := sequence.totalTokens
          sharedPrefixPages := UInt32.ofNat (cache.sharedPages sequence).length
          pages := cache.sharedPages sequence ++ sequence.suffixPages }

end PagedKvCache

/-- Where a token is stored: the index of its page in the table, and its place in the page. The
tokens of the prefix fill its pages from the start, the others those after them. -/
def KvPageTable.slot (table : KvPageTable) (tokensPerPage token : Nat) : Nat × Nat :=
  if token < table.prefixTokens.toNat then (token / tokensPerPage, token % tokensPerPage)
  else
    (table.sharedPrefixPages.toNat + (token - table.prefixTokens.toNat) / tokensPerPage,
      (token - table.prefixTokens.toNat) % tokensPerPage)

/-! ### The table of a live sequence -/

section

variable {pageCount : Nat} {tokensPerPage : UInt32} {cache : PagedKvCache}

theorem attached_prefix_found (holds : CacheInvariant pageCount tokensPerPage cache)
    {q : Sequence} (member : q ∈ cache.sequences) (named : q.prefixId ≠ 0) :
    ∃ shared, cache.attachedPrefix q = some shared ∧ shared ∈ cache.prefixes ∧
      shared.id = q.prefixId ∧ shared.tokenCount = q.prefixTokens := by
  obtain ⟨shared, present, same, tokens⟩ := holds.accounts.attached q member named
  refine ⟨shared, ?_, present, same, tokens⟩
  rw [PagedKvCache.attachedPrefix, if_neg named]
  exact Keyed.find_of_mem holds.ids.prefixes_unique present same

/-- The number of pages shared with the prefix is exact. -/
theorem shared_pages_length (holds : CacheInvariant pageCount tokensPerPage cache)
    {q : Sequence} (member : q ∈ cache.sequences) :
    (cache.sharedPages q).length = cache.capacity q.prefixTokens.toNat := by
  by_cases detached : q.prefixId = 0
  · rw [holds.accounts.detached q member detached]
    simp [PagedKvCache.sharedPages, PagedKvCache.attachedPrefix, detached]
  · obtain ⟨shared, attached, present, _, tokens⟩ := attached_prefix_found holds member detached
    rw [PagedKvCache.sharedPages, attached, ← tokens]
    exact holds.accounts.prefix_exact shared present

/-- A page table was made from the record of a live sequence. -/
theorem pageTable_eq_ok {alloc : Allocator} {s : SequenceId} {table : KvPageTable}
    (made : cache.pageTable alloc s = .ok table) :
    ∃ q, cache.findSequence s = some q ∧ table = {
      sequenceId := s
      prefixId := q.prefixId
      prefixTokens := q.prefixTokens
      totalTokens := q.totalTokens
      sharedPrefixPages := UInt32.ofNat (cache.sharedPages q).length
      pages := cache.sharedPages q ++ q.suffixPages } := by
  unfold PagedKvCache.pageTable at made
  split at made
  next => cases made
  next q found =>
    split at made
    next => cases made
    next =>
      split at made
      next => cases made
      next => exact ⟨q, found, (Except.ok.inj made).symm⟩

/-- A live sequence has a page table whenever there is memory for it. -/
theorem pageTable_of_live (holds : CacheInvariant pageCount tokensPerPage cache)
    {alloc : Allocator} (granted : alloc.caught [0] = none) {s : SequenceId} {q : Sequence}
    (found : cache.findSequence s = some q) :
    cache.pageTable alloc s = .ok {
      sequenceId := s
      prefixId := q.prefixId
      prefixTokens := q.prefixTokens
      totalTokens := q.totalTokens
      sharedPrefixPages := UInt32.ofNat (cache.sharedPages q).length
      pages := cache.sharedPages q ++ q.suffixPages } := by
  unfold PagedKvCache.pageTable
  rw [found]
  dsimp only
  split
  next broken =>
    obtain ⟨shared, attached, _⟩ := attached_prefix_found holds (Keyed.find_mem found) broken.1
    rw [attached] at broken
    exact absurd broken.2 (by simp)
  next => rw [granted]

end

/-! ### Tables only grow -/

/-- The pages shared through a prefix do not depend on its reference count. -/
private theorem shared_update_attachments (cache : PagedKvCache) (id : PrefixId)
    (count : UInt64 → UInt64) (sequences : List Sequence) (pages : List Page) (q : Sequence) :
    ({ cache with
        pages := pages
        sequences := sequences
        prefixes := Keyed.update Prefix.id cache.prefixes id fun p =>
          { p with attachments := count p.attachments } } : PagedKvCache).sharedPages q =
      cache.sharedPages q := by
  unfold PagedKvCache.sharedPages PagedKvCache.attachedPrefix PagedKvCache.findPrefix
  split
  next => rfl
  next =>
    dsimp only
    rw [Keyed.find_update Prefix.id cache.prefixes id q.prefixId
      (fun p => { p with attachments := count p.attachments }) fun _ => rfl, Option.map_map]
    congr 2
    funext p
    simp only [Function.comp_apply]
    split <;> rfl

section OneCall

variable {pageCount : Nat} {tokensPerPage : UInt32} {cache after : PagedKvCache}

/-- Nor do they depend on a new prefix. -/
private theorem shared_of_published (holds : CacheInvariant pageCount tokensPerPage cache)
    {q : Sequence} (member : q ∈ cache.sequences) (added : Prefix) (sequences : List Sequence)
    (pages : List Page) :
    ({ cache with
        prefixes := cache.prefixes ++ [added]
        pages := pages
        sequences := sequences } : PagedKvCache).sharedPages q = cache.sharedPages q := by
  by_cases unattached : q.prefixId = 0
  · simp [PagedKvCache.sharedPages, PagedKvCache.attachedPrefix, unattached]
  · obtain ⟨shared, attached, _⟩ := attached_prefix_found holds member unattached
    have old : Keyed.find Prefix.id cache.prefixes q.prefixId = some shared := by
      rwa [PagedKvCache.attachedPrefix, if_neg unattached] at attached
    simp [PagedKvCache.sharedPages, PagedKvCache.attachedPrefix, PagedKvCache.findPrefix,
      unattached, Keyed.find_append, old]

/-- A prefix somebody is attached to is not destroyed. -/
private theorem shared_of_destroyed (holds : CacheInvariant pageCount tokensPerPage cache)
    {q : Sequence} (member : q ∈ cache.sequences) {id : PrefixId} {shared : Prefix}
    (found : cache.findPrefix id = some shared) (unused : shared.attachments = 0)
    (pages : List Page) :
    ({ cache with
        pages := pages
        prefixes := Keyed.erase Prefix.id cache.prefixes id } : PagedKvCache).sharedPages q =
      cache.sharedPages q := by
  unfold PagedKvCache.sharedPages PagedKvCache.attachedPrefix PagedKvCache.findPrefix
  split
  next => rfl
  next attached =>
    have other : q.prefixId ≠ id := by
      intro same
      have count := holds.accounts.attachments_counted shared (Keyed.find_mem found)
      have positive := attachedTo_pos member
      rw [Keyed.find_key found, ← same, unused] at count
      exact absurd (count.trans_gt positive) (by simp)
    rw [Keyed.find_erase_other other]

/-- A sequence has a record in the next state, its table keeps its pages in their places, and its
tokens do not become fewer. -/
def TableGrows (cache after : PagedKvCache) (s : SequenceId) (q : Sequence) : Prop :=
  ∃ q', after.findSequence s = some q' ∧
    cache.sharedPages q ++ q.suffixPages <+: after.sharedPages q' ++ q'.suffixPages ∧
    q.totalTokens ≤ q'.totalTokens

/-- The record stays, and what is shared with it. -/
theorem TableGrows.same {s : SequenceId} {q : Sequence} (found : after.findSequence s = some q)
    (shared : after.sharedPages q = cache.sharedPages q) : TableGrows cache after s q :=
  ⟨q, found, by rw [shared], UInt32.le_refl _⟩

variable {reply : CacheReply} {s : SequenceId} {q : Sequence}
  (found : cache.findSequence s = some q)
include found

theorem CacheEffect.createSequence_grows {alloc : Allocator} {id : SequenceId} {p : PrefixId}
    (effect : CacheEffect cache (.createSequence alloc id p) reply after) :
    TableGrows cache after s q := by
  have appended : ∀ other : Sequence,
      Keyed.find Sequence.id (cache.sequences ++ [other]) s = some q := fun other => by
    rw [Keyed.find_append]
    exact congrArg (Option.or · _) found
  cases effect with
  | refused => exact .same found rfl
  | createdDetached => exact .same (appended _) rfl
  | createdAttached => exact .same (appended _) (shared_update_attachments cache _ (· + 1) ..)

theorem CacheEffect.destroySequence_grows {id : SequenceId}
    (effect : CacheEffect cache (.destroySequence id) reply after)
    (kept : id = s → reply.failed = true) : TableGrows cache after s q := by
  cases effect with
  | refused => exact .same found rfl
  | destroyedDetached =>
    have other : s ≠ id := fun same => nomatch kept same.symm
    exact .same ((Keyed.find_erase_other other).trans found) rfl
  | destroyedAttached =>
    have other : s ≠ id := fun same => nomatch kept same.symm
    exact .same ((Keyed.find_erase_other other).trans found)
      (shared_update_attachments cache _ (· - 1) ..)

theorem CacheEffect.commit_grows (holds : CacheInvariant pageCount tokensPerPage cache)
    {alloc : Allocator} {id : ReservationId}
    (effect : CacheEffect cache (.commit alloc id) reply after) : TableGrows cache after s q := by
  cases effect with
  | refused => exact .same found rfl
  | @committed _ _ reservation sequence foundReservation foundSequence =>
    have rewritten := Keyed.find_update Sequence.id cache.sequences reservation.sequenceId s
      (fun q =>
        { q with
          suffixPages := q.suffixPages ++ reservation.pages
          totalTokens := reservation.targetTokenCount }) fun _ => rfl
    refine ⟨_, rewritten.trans (congrArg (Option.map _) found), ?_, ?_⟩
    · split
      next =>
        rw [← List.append_assoc]
        exact List.prefix_append _ _
      next => exact List.prefix_rfl
    · split
      next same =>
        -- the reservation was made for this sequence
        obtain ⟨owner, present, ownerId, grows, _⟩ :=
          holds.accounts.pending_exact reservation (Keyed.find_mem foundReservation)
        have owned : owner = q :=
          Keyed.eq_of_key holds.ids.sequences_unique present (Keyed.find_mem found)
            (ownerId.trans (same.symm.trans (Keyed.find_key found).symm))
        exact owned ▸ grows
      next => exact UInt32.le_refl _

theorem CacheEffect.publishPrefix_grows (holds : CacheInvariant pageCount tokensPerPage cache)
    {alloc : Allocator} {p : PrefixId} {id : SequenceId}
    (effect : CacheEffect cache (.publishPrefix alloc p id) reply after) :
    TableGrows cache after s q := by
  cases effect with
  | refused => exact .same found rfl
  | @published _ _ _ sequence foundSequence named fresh detached started settled =>
    have rewritten := Keyed.find_update Sequence.id cache.sequences id s (fun q =>
      { q with prefixId := p, prefixTokens := q.totalTokens, suffixPages := [] }) fun _ => rfl
    refine ⟨_, rewritten.trans (congrArg (Option.map _) found), ?_, ?_⟩
    · split
      next same =>
        -- its own pages become those of the prefix it is now attached to
        subst same
        have own : sequence = q := Option.some_inj.mp (foundSequence.symm.trans found)
        subst own
        have before : cache.sharedPages sequence = [] := by
          simp [PagedKvCache.sharedPages, PagedKvCache.attachedPrefix, detached]
        have attached : Keyed.find Prefix.id (cache.prefixes ++
            [⟨p, sequence.totalTokens, 1, sequence.suffixPages⟩]) p =
              some ⟨p, sequence.totalTokens, 1, sequence.suffixPages⟩ := by
          rw [Keyed.find_append, if_pos rfl]
          exact congrArg (Option.or · _) fresh
        rw [before, List.nil_append, List.append_nil]
        simp [PagedKvCache.sharedPages, PagedKvCache.attachedPrefix, PagedKvCache.findPrefix,
          named, attached]
      next other => rw [shared_of_published holds (Keyed.find_mem found)]
    · split
      next => exact UInt32.le_refl _
      next => exact UInt32.le_refl _

theorem CacheEffect.destroyPrefix_grows (holds : CacheInvariant pageCount tokensPerPage cache)
    {p : PrefixId} (effect : CacheEffect cache (.destroyPrefix p) reply after) :
    TableGrows cache after s q := by
  cases effect with
  | refused => exact .same found rfl
  | destroyedPrefix foundPrefix unused =>
    exact .same found (shared_of_destroyed holds (Keyed.find_mem found) foundPrefix unused _)

/-- What one call does to the record of a sequence that it does not destroy. -/
theorem CacheEffect.table_grows {call : CacheCall} (effect : CacheEffect cache call reply after)
    (holds : CacheInvariant pageCount tokensPerPage cache)
    (kept : call = .destroySequence s → reply.failed = true) : TableGrows cache after s q := by
  cases call with
  | createSequence => exact effect.createSequence_grows found
  | destroySequence => exact effect.destroySequence_grows found fun same => kept (same ▸ rfl)
  | reserve =>
    cases effect with
    | refused => exact .same found rfl
    | reserved => exact .same found rfl
  | commit => exact effect.commit_grows found holds
  | rollback =>
    cases effect with
    | refused => exact .same found rfl
    | rolledBack => exact .same found rfl
  | publishPrefix => exact effect.publishPrefix_grows found holds
  | destroyPrefix => exact effect.destroyPrefix_grows found holds

end OneCall

/-- No call in the history destroys the sequence. -/
def Undestroyed (s : SequenceId)
    (history : List (Transition.Event PagedKvCache CacheCall CacheReply)) : Prop :=
  ∀ e ∈ history, e.call = .destroySequence s → e.reply.failed = true

/-- A run without a destruction of the sequence extends its table. -/
theorem run_table_grows {pageCount : Nat} {tokensPerPage : UInt32} {cache : PagedKvCache}
    (holds : CacheInvariant pageCount tokensPerPage cache) (calls : List CacheCall)
    {s : SequenceId} {q : Sequence} (found : cache.findSequence s = some q)
    (alive : Undestroyed s (cacheMachine.history cache calls)) :
    ∃ q', (cacheMachine.run cache calls).findSequence s = some q' ∧
      cache.sharedPages q ++ q.suffixPages <+:
        (cacheMachine.run cache calls).sharedPages q' ++ q'.suffixPages ∧
      q.totalTokens ≤ q'.totalTokens := by
  induction calls generalizing cache q with
  | nil => exact ⟨q, found, List.prefix_rfl, UInt32.le_refl _⟩
  | cons call calls ih =>
    obtain ⟨q', foundNext, grown, more⟩ := (cacheStep_effect cache call).table_grows found holds
      (alive (cacheMachine.event cache call) List.mem_cons_self)
    obtain ⟨q'', foundLast, grownLast, moreLast⟩ := ih (holds.step cache call) foundNext
      fun e later => alive e (.tail _ later)
    exact ⟨q'', foundLast, grown.trans grownLast, UInt32.le_trans more moreLast⟩

/-! ### Who lists a page -/

section

variable {pageCount : Nat} {tokensPerPage : UInt32} {cache : PagedKvCache}

theorem shared_page_marked (holds : CacheInvariant pageCount tokensPerPage cache) {q : Sequence}
    {page : KvPageId} (listed : page ∈ cache.sharedPages q) :
    q.prefixId ≠ 0 ∧ cache.pages[page]? = some ⟨.immutablePrefix, q.prefixId⟩ := by
  unfold PagedKvCache.sharedPages PagedKvCache.attachedPrefix at listed
  split at listed
  next => exact absurd listed (by simp)
  next named =>
    cases found : cache.findPrefix q.prefixId with
    | none => rw [found] at listed; exact absurd listed (by simp)
    | some shared =>
      rw [found] at listed
      exact ⟨named, (holds.ownedOnce.immutable_iff page q.prefixId).mpr
        ⟨shared, Keyed.find_mem found, Keyed.find_key found, listed⟩⟩

theorem suffix_page_marked (holds : CacheInvariant pageCount tokensPerPage cache) {q : Sequence}
    (member : q ∈ cache.sequences) {page : KvPageId} (listed : page ∈ q.suffixPages) :
    cache.pages[page]? = some ⟨.mutableSequence, q.id⟩ :=
  (holds.ownedOnce.mutable_iff page q.id).mpr ⟨q, member, rfl, listed⟩

/-- No table lists a page twice. -/
theorem table_nodup (holds : CacheInvariant pageCount tokensPerPage cache) {q : Sequence}
    (member : q ∈ cache.sequences) : (cache.sharedPages q ++ q.suffixPages).Nodup := by
  have own : q.holding ∈ cache.holdings := by
    simp only [PagedKvCache.holdings, holdingsOf, List.mem_append]
    exact .inl (.inl (List.mem_map_of_mem member))
  rw [List.nodup_append]
  refine ⟨?_, holds.books.slots_nodup q.holding own, ?_⟩
  · by_cases detached : q.prefixId = 0
    · simp [PagedKvCache.sharedPages, PagedKvCache.attachedPrefix, detached]
    · obtain ⟨shared, attached, present, _⟩ := attached_prefix_found holds member detached
      have held : shared.holding ∈ cache.holdings := by
        simp only [PagedKvCache.holdings, holdingsOf, List.mem_append]
        exact .inl (.inr (List.mem_map_of_mem present))
      rw [PagedKvCache.sharedPages, attached]
      exact holds.books.slots_nodup shared.holding held
  · rintro page inShared other inSuffix rfl
    have marked := (shared_page_marked holds inShared).2
    rw [suffix_page_marked holds member inSuffix] at marked
    cases marked

/-- Two sequences list the same page only through the prefix both are attached to. -/
theorem common_page_shared (holds : CacheInvariant pageCount tokensPerPage cache)
    {q other : Sequence} (member : q ∈ cache.sequences) (otherMember : other ∈ cache.sequences)
    (different : q.id ≠ other.id) {page : KvPageId}
    (listed : page ∈ cache.sharedPages q ++ q.suffixPages)
    (otherListed : page ∈ cache.sharedPages other ++ other.suffixPages) :
    q.prefixId = other.prefixId ∧ q.prefixId ≠ 0 ∧ page ∈ cache.sharedPages q := by
  rcases List.mem_append.mp listed with shared | own
  · obtain ⟨named, marked⟩ := shared_page_marked holds shared
    rcases List.mem_append.mp otherListed with otherShared | otherOwn
    · have otherMarked := (shared_page_marked holds otherShared).2
      rw [marked] at otherMarked
      exact ⟨congrArg Page.owner (Option.some_inj.mp otherMarked), named, shared⟩
    · rw [suffix_page_marked holds otherMember otherOwn] at marked
      cases marked
  · have marked := suffix_page_marked holds member own
    rcases List.mem_append.mp otherListed with otherShared | otherOwn
    · rw [(shared_page_marked holds otherShared).2] at marked
      cases marked
    · rw [suffix_page_marked holds otherMember otherOwn] at marked
      exact absurd (congrArg Page.owner (Option.some_inj.mp marked)).symm different

end

/-- Every token of a table has a slot of its own, on a page the table lists. -/
def KvPageTable.SlotsValid (table : KvPageTable) (tokensPerPage : Nat) : Prop :=
  (∀ token < table.totalTokens.toNat, (table.slot tokensPerPage token).1 < table.pages.length) ∧
    ∀ token < table.totalTokens.toNat, ∀ other < table.totalTokens.toNat,
      table.slot tokensPerPage token = table.slot tokensPerPage other → token = other

theorem table_slots_valid {pageCount : Nat} {tokensPerPage : UInt32} {cache : PagedKvCache}
    (holds : CacheInvariant pageCount tokensPerPage cache) {alloc : Allocator} {s : SequenceId}
    {table : KvPageTable} (made : cache.pageTable alloc s = .ok table) :
    table.SlotsValid tokensPerPage.toNat := by
  obtain ⟨q, found, rfl⟩ := pageTable_eq_ok made
  have member := Keyed.find_mem found
  have positive : cache.tokensPerPage ≠ 0 := holds.pageSize ▸ holds.positive
  have shared := shared_pages_length holds member
  have suffix := holds.accounts.suffix_exact q member
  have fits : (UInt32.ofNat (cache.sharedPages q).length).toNat = (cache.sharedPages q).length := by
    rw [UInt32.toNat_ofNat', Nat.mod_eq_of_lt]
    have small := @capacity_le_tokens cache q.prefixTokens.toNat
    have bound := q.prefixTokens.toNat_lt
    omega
  have begun : ∀ token < q.prefixTokens.toNat,
      token / tokensPerPage.toNat < (cache.sharedPages q).length := fun token below => by
    rw [shared, ← holds.pageSize]
    exact div_lt_capacity positive below
  refine ⟨fun token below => ?_, fun token below other otherBelow same => ?_⟩
  · rw [List.length_append]
    unfold KvPageTable.slot
    split
    next inPrefix => exact Nat.lt_of_lt_of_le (begun token inPrefix) (Nat.le_add_right _ _)
    next past =>
      have here : (token - q.prefixTokens.toNat) / tokensPerPage.toNat < q.suffixPages.length := by
        rw [suffix, ← holds.pageSize]
        apply div_lt_capacity positive
        dsimp only at below past
        omega
      dsimp only
      rw [fits]
      omega
  · -- quotient and remainder give a token back; the two parts of the table have different pages
    have back : ∀ a b : Nat, a / tokensPerPage.toNat = b / tokensPerPage.toNat →
        a % tokensPerPage.toNat = b % tokensPerPage.toNat → a = b :=
          fun a b quotient remainder => by
      rw [← Nat.div_add_mod a tokensPerPage.toNat, quotient, remainder, Nat.div_add_mod]
    unfold KvPageTable.slot at same
    dsimp only at same
    rw [fits] at same
    split at same
    next inPrefix =>
      split at same
      next => exact back _ _ (congrArg Prod.fst same) (congrArg Prod.snd same)
      next =>
        have reached := Nat.le_of_eq (congrArg Prod.fst same).symm
        exact absurd (begun token inPrefix)
          (Nat.not_lt.mpr (Nat.le_trans (Nat.le_add_right _ _) reached))
    next past =>
      split at same
      next inPrefix =>
        have reached := Nat.le_of_eq (congrArg Prod.fst same)
        exact absurd (begun other inPrefix)
          (Nat.not_lt.mpr (Nat.le_trans (Nat.le_add_right _ _) reached))
      next =>
        have first := congrArg Prod.fst same
        dsimp only at first
        have distance := back _ _ (Nat.add_left_cancel first) (congrArg Prod.snd same)
        omega

/-- Page tables are stable and do not alias. While a sequence is not destroyed, its table at a later
point of a run extends the one at an earlier point, and its tokens do not become fewer. In every
state reached, a table lists no page twice and has a slot for every token, and two sequences share a
page only if both are attached to one prefix: then they share exactly its pages. -/
theorem page_tables_stable (alloc : Allocator) (pageCount tokensPerPage : UInt32)
    (cache : PagedKvCache)
    (created : PagedKvCache.create alloc pageCount tokensPerPage = .ok cache)
    (calls : List CacheCall) :
    let reached := cacheMachine.run cache calls
    (∀ (during : List CacheCall) (s : SequenceId) (a b : Allocator) (earlier : KvPageTable),
      Undestroyed s (cacheMachine.history reached during) →
      reached.pageTable a s = .ok earlier → b.caught [0] = none →
      ∃ later, (cacheMachine.run reached during).pageTable b s = .ok later ∧
        earlier.pages <+: later.pages ∧ earlier.totalTokens ≤ later.totalTokens) ∧
    (∀ (a : Allocator) (s : SequenceId) (table : KvPageTable),
      reached.pageTable a s = .ok table →
      table.pages.Nodup ∧ table.SlotsValid tokensPerPage.toNat) ∧
    ∀ (a b : Allocator) (s t : SequenceId) (first second : KvPageTable), s ≠ t →
      reached.pageTable a s = .ok first → reached.pageTable b t = .ok second →
      (∀ page ∈ first.pages, page ∈ second.pages →
        first.prefixId = second.prefixId ∧ first.prefixId ≠ 0) ∧
      (first.prefixId = second.prefixId → first.prefixId ≠ 0 →
        ∃ shared, reached.findPrefix first.prefixId = some shared ∧
          ∀ page, page ∈ first.pages ∧ page ∈ second.pages ↔ page ∈ shared.pages) := by
  intro reached
  have holds : CacheInvariant pageCount.toNat tokensPerPage reached :=
    CacheInvariant.run created calls
  refine ⟨?_, ?_, ?_⟩
  · intro during s a b earlier alive made granted
    -- the sequence stays live, and its table only grows
    obtain ⟨q, found, rfl⟩ := pageTable_eq_ok made
    obtain ⟨q', foundLater, grown, more⟩ := run_table_grows holds during found alive
    have holdsLater := cacheMachine.run_invariant _ CacheInvariant.step reached holds during
    exact ⟨_, pageTable_of_live holdsLater granted foundLater, grown, more⟩
  · intro a s table made
    refine ⟨?_, table_slots_valid holds made⟩
    obtain ⟨q, found, rfl⟩ := pageTable_eq_ok made
    exact table_nodup holds (Keyed.find_mem found)
  · intro a b s t first second different madeFirst madeSecond
    -- a page of two tables belongs to the prefix that both sequences are attached to
    obtain ⟨q, found, rfl⟩ := pageTable_eq_ok madeFirst
    obtain ⟨other, foundOther, rfl⟩ := pageTable_eq_ok madeSecond
    have apart : q.id ≠ other.id := by
      rw [Keyed.find_key found, Keyed.find_key foundOther]
      exact different
    have common : ∀ page ∈ reached.sharedPages q ++ q.suffixPages,
        page ∈ reached.sharedPages other ++ other.suffixPages →
          q.prefixId = other.prefixId ∧ q.prefixId ≠ 0 ∧ page ∈ reached.sharedPages q :=
      fun page inFirst inSecond => common_page_shared holds (Keyed.find_mem found)
        (Keyed.find_mem foundOther) apart inFirst inSecond
    refine ⟨fun page inFirst inSecond => ?_, fun same named => ?_⟩
    · obtain ⟨together, named, _⟩ := common page inFirst inSecond
      exact ⟨together, named⟩
    · obtain ⟨shared, attached, present, id, _⟩ :=
        attached_prefix_found holds (Keyed.find_mem found) named
      dsimp only at same named ⊢
      -- sequences attached to one prefix share exactly the pages of its record
      have mine : reached.sharedPages q = shared.pages := by
        rw [PagedKvCache.sharedPages, attached]
        rfl
      have theirs : reached.sharedPages other = shared.pages := by
        rw [← mine, PagedKvCache.sharedPages, PagedKvCache.sharedPages,
          PagedKvCache.attachedPrefix, PagedKvCache.attachedPrefix, same]
      refine ⟨shared, Keyed.find_of_mem holds.ids.prefixes_unique present id, fun page => ?_⟩
      constructor
      · rintro ⟨inFirst, inSecond⟩
        exact mine ▸ (common page inFirst inSecond).2.2
      · intro inShared
        exact ⟨List.mem_append_left _ (mine ▸ inShared), List.mem_append_left _ (theirs ▸ inShared)⟩

/-- A sequence publishes its pages and goes on; another one attaches to them. -/
theorem page_tables_stable_published :
    let reached := cacheMachine.run { pages := List.replicate 4 {}, tokensPerPage := 2 }
      [.createSequence .unlimited 7 0, .reserve .unlimited 7 3, .commit .unlimited 1]
    let during : List CacheCall :=
      [.publishPrefix .unlimited 9 7, .createSequence .unlimited 8 9, .reserve .unlimited 7 5,
        .commit .unlimited 2]
    ∃ later, (cacheMachine.run reached during).pageTable .unlimited 7 = .ok later ∧
      [0, 1] <+: later.pages ∧ 3 ≤ later.totalTokens :=
  (page_tables_stable .unlimited 4 2 { pages := List.replicate 4 {}, tokensPerPage := 2 } rfl
    [.createSequence .unlimited 7 0, .reserve .unlimited 7 3, .commit .unlimited 1]).1
    [.publishPrefix .unlimited 9 7, .createSequence .unlimited 8 9, .reserve .unlimited 7 5,
      .commit .unlimited 2] 7 .unlimited .unlimited ⟨7, 0, 0, 3, 0, [0, 1]⟩
    (by simp [Undestroyed, Transition.Machine.event]) (by decide) (by decide)

end MarketForge.Serving
