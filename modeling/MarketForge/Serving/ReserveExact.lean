import MarketForge.Serving.ReservationSettlement

/-!
# What a reservation takes

In every reachable state `reserve` asks for the pages that the target lacks, no more and no less,
and takes the lowest free ones. Its subtractions are exact because a sequence never holds more
pages than its tokens need (`CacheAccounts`).
-/
namespace MarketForge.Serving

open OwnershipLedger (assign)

/-! ### The scan -/

/-- The free pages in increasing order. -/
def PagedKvCache.freePages (cache : PagedKvCache) : List KvPageId :=
  (List.range cache.pages.length).filter fun page =>
    cache.pages[page]?.any fun found => decide (found.state = .free)

/-- The scan lists the first free pages from its index on. -/
theorem selectFree_eq_take (pages : List Page) (index wanted : Nat) :
    selectFree pages index wanted =
      ((List.range' index pages.length).filter fun page =>
        pages[page - index]?.any fun found => decide (found.state = .free)).take wanted := by
  induction pages generalizing index wanted with
  | nil => simp [selectFree]
  | cons page rest ih =>
    cases wanted with
    | zero => simp [selectFree]
    | succ wanted =>
      -- behind the first page the indices are those of the rest
      have later : (List.range' (index + 1) rest.length).filter (fun other =>
          (page :: rest)[other - index]?.any fun found => decide (found.state = .free)) =
            (List.range' (index + 1) rest.length).filter fun other =>
              rest[other - (index + 1)]?.any fun found => decide (found.state = .free) := by
        refine List.filter_congr fun other listed => ?_
        have above := (List.mem_range'_1.mp listed).1
        rw [show other - index = other - (index + 1) + 1 by omega, List.getElem?_cons_succ]
      rw [selectFree, List.length_cons, List.range'_succ, List.filter_cons, later, Nat.sub_self,
        List.getElem?_cons_zero, Option.any_some]
      by_cases free : page.state = .free
      · rw [if_pos free, decide_eq_true free, if_pos rfl, List.take_succ_cons, ih]
      · rw [if_neg free, decide_eq_false free, if_neg (by simp), ih]

theorem selectFree_lowest (cache : PagedKvCache) (wanted : Nat) :
    selectFree cache.pages 0 wanted = cache.freePages.take wanted := by
  rw [selectFree_eq_take, PagedKvCache.freePages, List.range_eq_range']
  rfl

/-! ### The arithmetic -/

/-- The pages that a sequence lacks for a target, over exact numbers. -/
def PagedKvCache.lackingPages (cache : PagedKvCache) (q : Sequence) (target : UInt32) : Nat :=
  cache.capacity (target.toNat - q.prefixTokens.toNat) - q.suffixPages.length

/-- Every number that `reserve` computes for a target is the exact one. -/
structure ReserveArithmetic (cache : PagedKvCache) (q : Sequence) (target : UInt32) : Prop where
  ordered : q.prefixTokens.toNat ≤ target.toNat
  suffix : (target - q.prefixTokens).toNat = target.toNat - q.prefixTokens.toNat
  rounding : ((target - q.prefixTokens).toUInt64 + cache.tokensPerPage.toUInt64 - 1).toNat + 1 =
    (target - q.prefixTokens).toNat + cache.tokensPerPage.toNat
  required : (pagesFor (target - q.prefixTokens) cache.tokensPerPage).toNat =
    cache.capacity (target.toNat - q.prefixTokens.toNat)
  existing : (UInt64.ofNat q.suffixPages.length).toNat = q.suffixPages.length
  covered : q.suffixPages.length ≤ cache.capacity (target.toNat - q.prefixTokens.toNat)
  lacking : (cache.newPageCount q target).toNat = cache.lackingPages q target
  pageIds : ∀ page < cache.pages.length, (UInt32.ofNat page).toNat = page

section

variable {pageCount tokensPerPage : UInt32} {cache : PagedKvCache}

theorem reserve_arithmetic (holds : CacheInvariant pageCount.toNat tokensPerPage cache)
    {q : Sequence} (live : q ∈ cache.sequences) {target : UInt32} (grows : q.totalTokens ≤ target) :
    ReserveArithmetic cache q target := by
  have positive : cache.tokensPerPage ≠ 0 := holds.pageSize ▸ holds.positive
  have started := holds.accounts.prefix_le q live
  have below : q.prefixTokens ≤ target := UInt32.le_trans started grows
  have suffix : (target - q.prefixTokens).toNat = target.toNat - q.prefixTokens.toNat :=
    UInt32.toNat_sub_of_le _ _ below
  -- the pages held are those of the tokens held, and the target has no fewer tokens
  have held := holds.accounts.suffix_exact q live
  have more := UInt32.le_iff_toNat_le.mp grows
  have covered : q.suffixPages.length ≤
      cache.capacity (target.toNat - q.prefixTokens.toNat) := by
    rw [held]
    exact capacity_le (by omega)
  have few := @capacity_le_tokens cache (target.toNat - q.prefixTokens.toNat)
  have bound := target.toNat_lt
  constructor
  case ordered => exact UInt32.le_iff_toNat_le.mp below
  case suffix => exact suffix
  case rounding =>
    -- two words of 32 bits add up below `2 ^ 64`, and one is taken off a page size above zero
    have left := (target - q.prefixTokens).toNat_lt
    have right := cache.tokensPerPage.toNat_lt
    have nonzero : cache.tokensPerPage.toNat ≠ 0 := fun zero =>
      positive (UInt32.toNat_inj.mp zero)
    rw [UInt64.toNat_sub, UInt64.toNat_add]
    simp only [UInt32.toNat_toUInt64, UInt64.toNat_one]
    omega
  case required => rw [pagesFor_toNat _ _ positive, suffix, PagedKvCache.capacity]
  case existing =>
    rw [UInt64.toNat_ofNat']
    omega
  case covered => exact covered
  case lacking =>
    have exact := newPageCount_toNat positive below covered
    rw [PagedKvCache.lackingPages]
    omega
  case pageIds =>
    intro page inside
    have count := holds.count
    have room := pageCount.toNat_lt
    rw [UInt32.toNat_ofNat', Nat.mod_eq_of_lt (by omega)]

/-! ### The call -/

/-- A reservation for a live sequence fails for want of memory or of pages only. -/
theorem reserve_outcome (holds : CacheInvariant pageCount.toNat tokensPerPage cache)
    {s : SequenceId} {q : Sequence} {target : UInt32} (found : cache.findSequence s = some q)
    (settled : cache.findSequenceReservation s = none) (counter : cache.nextReservationId ≠ 0)
    (grows : q.totalTokens ≤ target) (a : Allocator) :
    (cache.reserve a s target).1 =
      match a.caught [0] with
      | some code => .error (.failure code)
      | none =>
        if cache.freePages.length < cache.lackingPages q target then
          .error (.failure .insufficientMemory)
        else
          match a.caught [1, 2, 3] with
          | some code => .error (.failure code)
          | none => .ok ⟨cache.nextReservationId, s, target,
              cache.freePages.take (cache.lackingPages q target)⟩ := by
  have exact := reserve_arithmetic holds (Keyed.find_mem found) grows
  rw [PagedKvCache.reserve, found]
  dsimp only
  rw [settled, if_neg (by simp [counter, grows]), exact.lacking, selectFree_lowest]
  cases a.caught [0] with
  | some code => rfl
  | none =>
    dsimp only
    -- the list that the scan fills is short exactly when too few pages are free
    rw [List.length_take]
    by_cases short : cache.freePages.length < cache.lackingPages q target
    · rw [if_pos short, if_pos (by omega)]
    · rw [if_neg short, if_neg (by omega)]
      cases a.caught [1, 2, 3] <;> rfl

/-- A reservation takes the lowest free pages, as many as its target lacks. -/
theorem reserve_takes (holds : CacheInvariant pageCount.toNat tokensPerPage cache)
    {s : SequenceId} {q : Sequence} {target : UInt32} (found : cache.findSequence s = some q)
    (settled : cache.findSequenceReservation s = none) (counter : cache.nextReservationId ≠ 0)
    (grows : q.totalTokens ≤ target) {a : Allocator} {r : KvReservation}
    (success : (cache.reserve a s target).1 = .ok r) :
    r.newPages = cache.freePages.take (cache.lackingPages q target) ∧
      r.newPages.length = cache.lackingPages q target := by
  rw [reserve_outcome holds found settled counter grows] at success
  split at success
  next => exact absurd success (by simp)
  next =>
    split at success
    next => exact absurd success (by simp)
    next enough =>
      split at success
      next => exact absurd success (by simp)
      next =>
        obtain rfl := Except.ok.inj success
        refine ⟨rfl, ?_⟩
        rw [List.length_take]
        omega

/-- Fewer pages than a number of tokens needs do not hold them. -/
theorem lt_of_lt_capacity (positive : cache.tokensPerPage ≠ 0) {fewer tokens : Nat}
    (below : fewer < cache.capacity tokens) : fewer * cache.tokensPerPage.toNat < tokens := by
  by_contra enough
  have fits := (ceilDiv_le_iff_le_smul (tokensPerPage_pos positive) (b := tokens) (c := fewer)).mpr
    (by rw [smul_eq_mul, Nat.mul_comm]; omega)
  rw [PagedKvCache.capacity] at below
  omega

/-! ### The commit -/

/-- The suffix pages of a sequence hold the suffix tokens of its target, and with fewer pages they
would not. -/
structure HoldsExactly (cache : PagedKvCache) (s : SequenceId) (q : Sequence) (target : UInt32) :
    Prop where
  found : cache.findSequence s = some q
  reached : q.totalTokens = target
  enough : target.toNat - q.prefixTokens.toNat ≤
    q.suffixPages.length * cache.tokensPerPage.toNat
  minimal : ∀ fewer < q.suffixPages.length,
    fewer * cache.tokensPerPage.toNat < target.toNat - q.prefixTokens.toNat

theorem holds_exactly (holds : CacheInvariant pageCount.toNat tokensPerPage cache)
    {s : SequenceId} {q : Sequence} (found : cache.findSequence s = some q) :
    HoldsExactly cache s q q.totalTokens := by
  have positive : cache.tokensPerPage ≠ 0 := holds.pageSize ▸ holds.positive
  have held := holds.accounts.suffix_exact q (Keyed.find_mem found)
  refine ⟨found, rfl, ?_, fun fewer below => ?_⟩
  · rw [held]
    exact le_capacity_mul positive _
  · rw [held] at below
    exact lt_of_lt_capacity positive below

end

/-- In every state that a run reaches, and for every live sequence without a reservation and every
target from its tokens on: the arithmetic of `reserve` is exact; it succeeds if and only if memory
is granted and the pages that the target lacks are free; it takes the lowest free pages, exactly
as many as the target lacks; and after the commit of that reservation, whatever is called in
between, the pages of the sequence hold the suffix of the target and no fewer would. -/
theorem reserve_exact (alloc : Allocator) (pageCount tokensPerPage : UInt32)
    (cache : PagedKvCache)
    (created : PagedKvCache.create alloc pageCount tokensPerPage = .ok cache)
    (calls : List CacheCall) (s : SequenceId) (q : Sequence) (target : UInt32)
    (found : (cacheMachine.run cache calls).findSequence s = some q)
    (settled : (cacheMachine.run cache calls).findSequenceReservation s = none)
    (counter : (cacheMachine.run cache calls).nextReservationId ≠ 0)
    (grows : q.totalTokens ≤ target) :
    let reached := cacheMachine.run cache calls
    ReserveArithmetic reached q target ∧
    (∀ a : Allocator, (∃ r, (reached.reserve a s target).1 = .ok r) ↔
      (a.caught [0] = none ∧ a.caught [1, 2, 3] = none) ∧
        reached.lackingPages q target ≤ reached.freePages.length) ∧
    ∀ (a : Allocator) (r : KvReservation), (reached.reserve a s target).1 = .ok r →
      r.newPages = reached.freePages.take (reached.lackingPages q target) ∧
      r.newPages.length = reached.lackingPages q target ∧
      (reached.reserve a s target).2.pages =
        assign reached.pages r.newPages ⟨.reserved, r.id⟩ ∧
      ∀ during : List CacheCall,
        r.id ∉ (cacheMachine.history (reached.reserve a s target).2 during).filterMap settledId →
        let later := cacheMachine.run (reached.reserve a s target).2 during
        ∀ b, (later.commit b r.id).1 = .success →
          ∃ grown, HoldsExactly (later.commit b r.id).2 s grown target ∧
            grown.prefixTokens = q.prefixTokens ∧
            grown.suffixPages = q.suffixPages ++ r.newPages := by
  intro reached
  have holds : CacheInvariant pageCount.toNat tokensPerPage reached :=
    CacheInvariant.run created calls
  have outcome := reserve_outcome holds found settled counter grows
  refine ⟨reserve_arithmetic holds (Keyed.find_mem found) grows, fun a => ?_, fun a r success => ?_⟩
  · rw [outcome a]
    cases a.caught [0] with
    | some code => simp
    | none =>
      dsimp only
      by_cases short : reached.freePages.length < reached.lackingPages q target
      · rw [if_pos short]
        simp [Nat.not_le_of_lt short]
      · rw [if_neg short]
        cases a.caught [1, 2, 3] <;> simp [Nat.le_of_not_lt short]
  · obtain ⟨taken, count⟩ := reserve_takes holds found settled counter grows success
    obtain ⟨owner, live, pending, _, rfl, rfl, _, after, _⟩ := reserve_pending holds success
    obtain rfl := Option.some_inj.mp (live.symm.trans found)
    refine ⟨taken, count, by rw [after], fun during unsettled => ?_⟩
    intro later b success
    have holdsNext : CacheInvariant pageCount.toNat tokensPerPage
        (reached.reserve a r.sequenceId r.targetTokenCount).2 :=
      holds.step reached (.reserve a r.sequenceId r.targetTokenCount)
    have holdsLater : CacheInvariant pageCount.toNat tokensPerPage later :=
      cacheMachine.run_invariant _ CacheInvariant.step _ holdsNext during
    -- the sequence waits unchanged, and the commit appends the pages that were taken
    have waiting := (run_pending holdsNext during pending unsettled).1
    obtain ⟨before, foundBefore, foundAfter⟩ :=
      (committed_of_success holdsLater waiting success).sequence
    obtain rfl := Option.some_inj.mp (waiting.sequence.symm.trans foundBefore)
    exact ⟨_, holds_exactly (holdsLater.step later (.commit b r.id)) foundAfter, rfl, rfl⟩

/-- A sequence on a shared prefix that ends inside a page, between pages that were freed. -/
theorem reserve_exact_fragmented :
    let reached := cacheMachine.run { pages := List.replicate 6 {}, tokensPerPage := 2 }
      [.createSequence .unlimited 7 0, .reserve .unlimited 7 3, .commit .unlimited 1,
        .publishPrefix .unlimited 9 7, .createSequence .unlimited 8 9,
        .createSequence .unlimited 5 0, .reserve .unlimited 5 2, .commit .unlimited 2,
        .reserve .unlimited 8 5, .commit .unlimited 3, .destroySequence 5]
    reached.freePages = [2, 4, 5] ∧
    ReserveArithmetic reached ⟨8, 9, 3, 5, [3]⟩ 8 ∧
    ∃ grown, HoldsExactly (((reached.reserve .unlimited 8 8).2.commit .unlimited 4).2) 8 grown 8 ∧
      grown.prefixTokens = 3 ∧ grown.suffixPages = [3] ++ [2, 4] :=
  have exact := reserve_exact .unlimited 6 2 { pages := List.replicate 6 {}, tokensPerPage := 2 }
    rfl [.createSequence .unlimited 7 0, .reserve .unlimited 7 3, .commit .unlimited 1,
      .publishPrefix .unlimited 9 7, .createSequence .unlimited 8 9,
      .createSequence .unlimited 5 0, .reserve .unlimited 5 2, .commit .unlimited 2,
      .reserve .unlimited 8 5, .commit .unlimited 3, .destroySequence 5]
    8 ⟨8, 9, 3, 5, [3]⟩ 8 (by decide) (by decide) (by decide) (by decide)
  ⟨by decide, exact.1, (exact.2.2 .unlimited ⟨4, 8, 8, [2, 4]⟩ (by decide)).2.2.2 [] (by decide)
    .unlimited (by decide)⟩

end MarketForge.Serving
