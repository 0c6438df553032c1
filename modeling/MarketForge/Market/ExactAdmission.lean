import Mathlib.Algebra.BigOperators.Ring.Finset
import Mathlib.Algebra.Order.BigOperators.Group.List
import MarketForge.Market.OrderIndependence

/-!
# Exact admission

A market whose cash fits a signed 64-bit total and whose shares fit an unsigned 32-bit one keeps
these totals, and every sum that clearing forms is the holding of some accounts that are told
apart: so none of the guards against overflow fires, the allocation exhausts the matched quantity
on both sides, and a batch is refused only by admission.
-/
namespace MarketForge

open BatchMarket

/-- What a batch needs of the accounts, in exact integers. -/
structure CoveredBatch (accounts : List Account) (actions : List AgentAction) : Prop where
  distinct : (actions.map AgentAction.agent).Nodup
  existing : ∀ submission ∈ actions, submission.agent ∈ accounts.map Account.id
  buyers : ∀ submission ∈ actions, submission.action.kind = .buyYes → ∀ account ∈ accounts,
    account.id = submission.agent →
      ((submission.action.quantity * submission.action.priceTick * 10000 : Nat) : Int) ≤
        account.cash.toInt
  sellers : ∀ submission ∈ actions, submission.action.kind = .sellYes → ∀ account ∈ accounts,
    account.id = submission.agent → submission.action.quantity ≤ account.yesShares.toNat

/-- The price of an order at its limit, as admission computes it, is exact. -/
theorem limit_notional (action : Action) :
    (notional action.quantity action.priceTick).toInt =
      (action.quantity * action.priceTick * 10000 : Nat) := by
  have valid := action.valid
  split at valid
  next => exact notional_toInt (by omega) (by omega)
  next => exact notional_toInt valid.1.2 valid.2.2

/-- The test of admission over sorted accounts is the covering of the batch. -/
theorem admitted_iff_covered {accounts : List Account}
    (increasing : (accounts.map Account.id).Pairwise (· < ·)) (actions : List AgentAction) :
    Admitted accounts actions ↔ CoveredBatch accounts actions := by
  have unique : (accounts.map Account.id).Nodup :=
    increasing.imp fun less => UInt32.ne_of_lt less
  have same : ∀ a ∈ accounts, ∀ b ∈ accounts, a.id = b.id → a = b :=
    fun a first b second => List.inj_on_of_nodup_map unique first second
  constructor
  · intro admitted
    refine ⟨admitted.distinct, ?_, ?_, ?_⟩
    · intro submission member
      obtain ⟨account, found, covers⟩ := admitted.admissible submission member
      exact List.mem_map.mpr ⟨account, List.mem_of_getElem? found, covers.owner⟩
    · intro submission member buys account listed owner
      obtain ⟨holder, found, covers⟩ := admitted.admissible submission member
      obtain rfl := same holder (List.mem_of_getElem? found) account listed
        (covers.owner.trans owner.symm)
      rw [← limit_notional, ← Int64.le_iff_toInt_le]
      exact covers.buy buys
    · intro submission member sells account listed owner
      obtain ⟨holder, found, covers⟩ := admitted.admissible submission member
      obtain rfl := same holder (List.mem_of_getElem? found) account listed
        (covers.owner.trans owner.symm)
      exact covers.sell sells
  · intro covered
    refine ⟨covered.distinct, fun submission member => ?_⟩
    obtain ⟨account, found, owner⟩ :=
      lowerBound_existing increasing (covered.existing submission member)
    have listed := List.mem_of_getElem? found
    refine ⟨account, found, owner, fun buys => ?_, fun sells => ?_⟩
    · rw [Int64.le_iff_toInt_le, limit_notional]
      exact covered.buyers submission member buys account listed owner
    · exact covered.sellers submission member sells account listed owner

/-! ### Holdings of distinct accounts -/

/-- What is charged to distinct accounts, each within its holding, is within the total. -/
theorem charges_le_total {α : Type} (holding : α → Int) (empty : α) (nothing : holding empty = 0)
    {charges : List (Nat × Int)} {accounts : List α}
    (held : ∀ account ∈ accounts, 0 ≤ holding account)
    (distinct : (charges.map Prod.fst).Nodup)
    (within : ∀ charge ∈ charges, ∃ account, accounts[charge.1]? = some account ∧
      charge.2 ≤ holding account) :
    (charges.map Prod.snd).sum ≤ (accounts.map holding).sum := by
  induction charges generalizing accounts with
  | nil =>
    refine List.sum_nonneg fun value listed => ?_
    obtain ⟨account, member, rfl⟩ := List.mem_map.mp listed
    exact held account member
  | cons charge rest ih =>
    obtain ⟨account, found, covered⟩ := within charge List.mem_cons_self
    obtain ⟨apart, distinct⟩ := List.nodup_cons.mp distinct
    -- The charged account is emptied, which leaves the others as they are.
    have later : (rest.map Prod.snd).sum ≤ ((accounts.set charge.1 empty).map holding).sum :=
      ih (fun other member => ?_) distinct (fun other member => ?_)
    · rw [sum_map_set holding found, nothing] at later
      rw [List.map_cons, List.sum_cons]
      omega
    · rcases List.mem_or_eq_of_mem_set member with kept | rfl
      · exact held other kept
      · exact nothing.ge
    · have elsewhere : charge.1 ≠ other.1 := by
        intro same
        exact apart (same ▸ List.mem_map_of_mem member)
      rw [List.getElem?_set_ne elsewhere]
      exact within other (.tail _ member)

theorem cash_charges {accounts : List Account} (charges : List (Nat × Int))
    (solvent : ∀ account ∈ accounts, 0 ≤ account.cash.toInt)
    (distinct : (charges.map Prod.fst).Nodup)
    (within : ∀ charge ∈ charges, ∃ account, accounts[charge.1]? = some account ∧
      charge.2 ≤ account.cash.toInt) :
    (charges.map Prod.snd).sum ≤ (accounts.map cashOf).sum :=
  charges_le_total cashOf {} rfl solvent distinct within

theorem share_charges (accounts : List Account) (charges : List (Nat × Int))
    (distinct : (charges.map Prod.fst).Nodup)
    (within : ∀ charge ∈ charges, ∃ account, accounts[charge.1]? = some account ∧
      charge.2 ≤ account.yesShares.toNat) :
    (charges.map Prod.snd).sum ≤ (accounts.map sharesOf).sum :=
  charges_le_total sharesOf {} rfl (fun _ _ => Int.natCast_nonneg _) distinct within

/-! ### The sums of the scan -/

/-- Submissions of distinct agents are charged to distinct accounts. -/
theorem Admitted.indices {accounts : List Account} {actions : List AgentAction}
    (admitted : Admitted accounts actions) :
    (actions.map fun a => lowerBound accounts a.agent).Nodup := by
  have agents := admitted.distinct
  rw [List.Nodup, List.pairwise_map] at agents ⊢
  refine agents.imp_of_mem fun {first second} member member' different same => ?_
  obtain ⟨account, found, covers⟩ := admitted.admissible first member
  obtain ⟨account', found', covers'⟩ := admitted.admissible second member'
  rw [same, found'] at found
  obtain rfl := Option.some_inj.mp found
  exact different (covers.owner.symm.trans covers'.owner)

/-- The charges of the submissions that are chosen. -/
def chargesOf (accounts : List Account) (chosen : AgentAction → Bool) (amount : AgentAction → Int)
    (actions : List AgentAction) : List (Nat × Int) :=
  (actions.filter chosen).map fun a => (lowerBound accounts a.agent, amount a)

theorem chargesOf_distinct {accounts : List Account} {actions : List AgentAction}
    (admitted : Admitted accounts actions) (chosen : AgentAction → Bool)
    (amount : AgentAction → Int) :
    ((chargesOf accounts chosen amount actions).map Prod.fst).Nodup := by
  rw [chargesOf, List.map_map]
  exact (List.filter_sublist.map _).nodup admitted.indices

/-- What is bid at a tick is at most what the buyers hold, at the lowest price there is. -/
theorem demand_le_cash {accounts : List Account} {actions : List AgentAction}
    (admitted : Admitted accounts actions)
    (solvent : ∀ account ∈ accounts, 0 ≤ account.cash.toInt) (tick : Nat) :
    ((demand actions tick : Nat) : Int) ≤ (accounts.map cashOf).sum := by
  have bound := cash_charges _ solvent
    (chargesOf_distinct admitted (fun a => a.isBuy && decide (tick ≤ a.action.priceTick))
      fun a => (a.action.quantity : Int)) ?_
  · rw [chargesOf, List.map_map] at bound
    rw [demand, Nat.cast_list_sum, List.map_map]
    exact bound
  · intro charge listed
    obtain ⟨submission, chosen, rfl⟩ := List.mem_map.mp listed
    obtain ⟨member, wanted⟩ := List.mem_filter.mp chosen
    obtain ⟨account, found, covers⟩ := admitted.admissible submission member
    have buys : submission.action.kind = .buyYes := by
      rw [Bool.and_eq_true] at wanted
      exact of_decide_eq_true wanted.1
    refine ⟨account, found, ?_⟩
    have covered := covers.buy buys
    rw [Int64.le_iff_toInt_le, limit_notional] at covered
    have limits := (submission.action.bounds (by simp [buys])).2
    -- A tick is at least one, so the price is at least the quantity.
    have cheap : submission.action.quantity ≤
        submission.action.quantity * submission.action.priceTick * 10000 := by
      rw [Nat.mul_assoc]
      exact Nat.le_mul_of_pos_right _ (by omega)
    dsimp only
    omega

/-- What is offered at a tick is at most what the sellers hold. -/
theorem supply_le_shares {accounts : List Account} {actions : List AgentAction}
    (admitted : Admitted accounts actions) (tick : Nat) :
    ((supply actions tick : Nat) : Int) ≤ (accounts.map sharesOf).sum := by
  have bound := share_charges accounts _
    (chargesOf_distinct admitted (fun a => a.isSell && decide (a.action.priceTick ≤ tick))
      fun a => (a.action.quantity : Int)) ?_
  · rw [chargesOf, List.map_map] at bound
    rw [supply, Nat.cast_list_sum, List.map_map]
    exact bound
  · intro charge listed
    obtain ⟨submission, chosen, rfl⟩ := List.mem_map.mp listed
    obtain ⟨member, wanted⟩ := List.mem_filter.mp chosen
    obtain ⟨account, found, covers⟩ := admitted.admissible submission member
    have sells : submission.action.kind = .sellYes := by
      rw [Bool.and_eq_true] at wanted
      exact of_decide_eq_true wanted.1
    exact ⟨account, found, Int.ofNat_le.mpr (covers.sell sells)⟩

/-- A scan whose sums are all formed finds a candidate. -/
theorem scanTicks_total {buys sells : List Order} {lastTradedTick : Nat}
    (demanded : ∀ tick, (accumulate (buyEligible tick) buys 0).isSome)
    (supplied : ∀ tick, (accumulate (sellEligible tick) sells 0).isSome)
    (ticks : List Nat) (best : ClearingCandidate) :
    ∃ found, scanTicks buys sells lastTradedTick ticks best = some found := by
  induction ticks generalizing best with
  | nil => exact ⟨best, rfl⟩
  | cons tick rest ih =>
    obtain ⟨wanted, asked⟩ := Option.isSome_iff_exists.mp (demanded tick)
    obtain ⟨offered, given⟩ := Option.isSome_iff_exists.mp (supplied tick)
    rw [scanTicks, asked, given]
    exact ih _

/-! ### The allocation exhausts the matched quantity -/

theorem allocate_exhausts (eligible : Nat → Bool) (orders : List Order) (remaining : Nat) :
    (allocate eligible orders remaining).2 = remaining - acceptedQuantity eligible orders := by
  induction orders generalizing remaining with
  | nil => rfl
  | cons order rest ih =>
    rw [allocate]
    by_cases counts : eligible order.limit = true
    · have sum : acceptedQuantity eligible (order :: rest) =
          order.quantity + acceptedQuantity eligible rest := by
        rw [acceptedQuantity, List.filter_cons_of_pos (by exact counts), List.map_cons,
          List.sum_cons]
        rfl
      split
      next finished =>
        have nothing := finished.resolve_left (not_not.mpr counts)
        dsimp only
        rw [ih, nothing, Nat.zero_sub, Nat.zero_sub]
      next =>
        dsimp only
        rw [ih, sum]
        omega
    · have sum : acceptedQuantity eligible (order :: rest) = acceptedQuantity eligible rest := by
        rw [acceptedQuantity, List.filter_cons_of_neg (by exact counts)]
        rfl
      rw [if_pos (.inl counts)]
      dsimp only
      rw [ih, sum]

theorem allocate_sorted {κ : Type} [LinearOrder κ] {eligible : Nat → Bool} (key : Order → κ)
    {book : List Order} {matched : Nat} (enough : matched ≤ acceptedQuantity eligible book) :
    (allocate eligible (sortBy key book) matched).2 = 0 := by
  have sums : acceptedQuantity eligible (sortBy key book) = acceptedQuantity eligible book :=
    (((sortBy_perm key book).filter _).map Order.quantity).sum_eq
  rw [allocate_exhausts, sums]
  omega

/-! ### The fills are settled -/

/-- The guard of `checked_add_cash` admits the sums that fit. -/
theorem checkedAddCash_of_fits {value delta : Cash}
    (low : -2 ^ 63 ≤ value.toInt + delta.toInt) (high : value.toInt + delta.toInt < 2 ^ 63) :
    ∃ output, checkedAddCash value delta = some output := by
  have valueLow := value.le_toInt
  have valueHigh := value.toInt_lt
  have deltaLow := delta.le_toInt
  have deltaHigh := delta.toInt_lt
  refine ⟨value + delta, if_neg ?_⟩
  simp only [gt_iff_lt, Int64.lt_iff_toInt_lt, Int64.toInt_zero, not_or, not_and, not_lt]
  constructor
  · intro positive
    rw [toInt_sub_of_fits] <;> rw [Int64.toInt_maxValue] <;> omega
  · intro negative
    rw [toInt_sub_of_fits] <;> rw [Int64.toInt_minValue] <;> omega

theorem settle_buy {tick : Nat} {order : Order} {account : Account} (few : order.fill ≤ 8)
    (bounded : tick ≤ 99) (buys : order.side = .buyYes)
    (covered : ((order.fill * tick * 10000 : Nat) : Int) ≤ account.cash.toInt)
    (room : account.yesShares.toNat + order.fill ≤ 2 ^ 32 - 1) :
    ∃ settled, settle tick order account = some settled := by
  have price := notional_toInt few bounded
  have held := account.cash.toInt_lt
  have product : order.fill * tick ≤ 8 * 99 := Nat.mul_le_mul few bounded
  have negated : (-notional order.fill tick).toInt = -(notional order.fill tick).toInt := by
    rw [Int64.toInt_neg]
    exact Int.bmod_eq_of_le (by omega) (by omega)
  obtain ⟨cash, added⟩ : ∃ cash,
      checkedAddCash account.cash (-notional order.fill tick) = some cash :=
    checkedAddCash_of_fits (by omega) (by omega)
  have size : UInt32.size = 2 ^ 32 := rfl
  rw [settle, if_pos buys, added]
  exact ⟨_, if_neg (by omega)⟩

theorem settle_sell {tick : Nat} {order : Order} {account : Account} (few : order.fill ≤ 8)
    (bounded : tick ≤ 99) (sells : order.side = .sellYes) (solvent : 0 ≤ account.cash.toInt)
    (room : account.cash.toInt + ((order.fill * tick * 10000 : Nat) : Int) < 2 ^ 63)
    (covered : order.fill ≤ account.yesShares.toNat) :
    ∃ settled, settle tick order account = some settled := by
  have price := notional_toInt few bounded
  obtain ⟨cash, added⟩ : ∃ cash,
      checkedAddCash account.cash (notional order.fill tick) = some cash :=
    checkedAddCash_of_fits (by omega) (by omega)
  rw [settle, if_neg (by simp [sells]), added]
  exact ⟨_, if_neg (Nat.not_lt.mpr covered)⟩

/-- Orders on distinct accounts, each of which settles, are all applied. -/
theorem applyOrders_total {tick : Nat} {orders : List Order} {accounts : List Account}
    (fills : List Fill) (distinct : (orders.map Order.accountIndex).Nodup)
    (settles : ∀ o ∈ orders, ∃ account settled, accounts[o.accountIndex]? = some account ∧
      settle tick o account = some settled) :
    ∃ outcome, applyOrders tick orders accounts fills = some outcome := by
  induction orders generalizing accounts fills with
  | nil => exact ⟨_, rfl⟩
  | cons order rest ih =>
    obtain ⟨⟨account, settled, found, success⟩, later⟩ := List.forall_mem_cons.mp settles
    obtain ⟨apart, distinct⟩ := List.nodup_cons.mp distinct
    rw [applyOrders]
    split
    next => exact ih fills distinct later
    next =>
      rw [found]
      dsimp only
      rw [success]
      refine ih _ distinct fun other member => ?_
      obtain ⟨account', settled', found', success'⟩ := later other member
      have elsewhere : order.accountIndex ≠ other.accountIndex :=
        fun same => apart (same ▸ List.mem_map_of_mem member)
      exact ⟨account', settled', by rwa [List.getElem?_set_ne elsewhere], success'⟩

/-! ### The trade of an admitted batch -/

/-- Every sell of a trade is covered by the shares of its account. -/
def SellsCovered (accounts : List Account) (sells : List Order) : Prop :=
  ∀ o ∈ sells, ∃ account, accounts[o.accountIndex]? = some account ∧
    o.fill ≤ account.yesShares.toNat

theorem sellsCovered_of_filled {accounts : List Account} {actions : List AgentAction}
    {tick matched : Nat} {sells : List Order} (admitted : Admitted accounts actions)
    (sold : FilledSide (sellEligible tick) (sellsOf accounts actions) sells matched) :
    SellsCovered accounts sells := by
  intro o member
  obtain ⟨submission, submitted, sell, terms⟩ := sold.submission member
  obtain ⟨account, found, covers⟩ := admitted.admissible submission submitted
  have index : o.accountIndex = lowerBound accounts submission.agent :=
    congrArg Order.accountIndex terms
  have quantity : o.quantity = submission.action.quantity := congrArg Order.quantity terms
  have covered := covers.sell (of_decide_eq_true sell)
  exact ⟨account, index ▸ found, ((sold.bounds o member).1.trans quantity.le).trans covered⟩

namespace TradedBooks

variable {accounts : List Account} {tick matched : Nat} {buys sells : List Order}

/-- A buy is paid for by its account. -/
theorem payment (books : TradedBooks accounts tick matched buys sells)
    (solvent : ∀ account ∈ accounts, 0 ≤ account.cash.toInt) {order : Order}
    (member : order ∈ buys) {account : Account}
    (found : accounts[order.accountIndex]? = some account) :
    ((order.fill * tick * 10000 : Nat) : Int) ≤ account.cash.toInt := by
  have funded := solvent account (List.mem_of_getElem? found)
  by_cases filled : order.fill = 0
  · rw [filled, Nat.zero_mul, Nat.zero_mul]
    exact funded
  · have left := books.solvent (List.mem_append_left _ member) filled found funded
    rw [cashChange, if_pos (books.buySides order member)] at left
    omega

/-- What a seller holds and what all buyers pay is within the total. -/
theorem cash_room (books : TradedBooks accounts tick matched buys sells)
    (solvent : ∀ account ∈ accounts, 0 ≤ account.cash.toInt) {order : Order}
    (member : order ∈ sells) {account : Account}
    (found : accounts[order.accountIndex]? = some account) :
    account.cash.toInt + ((order.fill * tick * 10000 : Nat) : Int) ≤
      (accounts.map cashOf).sum := by
  have indices := books.indices
  rw [List.map_append, List.nodup_append] at indices
  obtain ⟨distinct, _, apart⟩ := indices
  have bound := cash_charges ((order.accountIndex, account.cash.toInt) ::
    buys.map fun o => (o.accountIndex, ((o.fill * (tick * 10000) : Nat) : Int))) solvent ?_ ?_
  · have paid : (buys.map fun o => ((o.fill * (tick * 10000) : Nat) : Int)).sum =
        ((matched * (tick * 10000) : Nat) : Int) := by
      rw [← books.bought, ← List.sum_map_mul_right, Nat.cast_list_sum, List.map_map]
      rfl
    have share : order.fill * (tick * 10000) ≤ matched * (tick * 10000) :=
      Nat.mul_le_mul_right _ (books.sold ▸ List.le_sum_of_mem (List.mem_map_of_mem member))
    rw [List.map_cons, List.sum_cons, List.map_map] at bound
    have total : account.cash.toInt + ((matched * (tick * 10000) : Nat) : Int) ≤
        (accounts.map cashOf).sum := paid ▸ bound
    rw [Nat.mul_assoc]
    omega
  · rw [List.map_cons, List.map_map, List.nodup_cons]
    refine ⟨fun repeated => ?_, distinct⟩
    exact apart _ repeated _ (List.mem_map_of_mem member) rfl
  · refine List.forall_mem_cons.mpr ⟨⟨account, found, le_refl _⟩, fun charge listed => ?_⟩
    obtain ⟨o, buy, rfl⟩ := List.mem_map.mp listed
    obtain ⟨payer, charged, _⟩ := (books.placed o (List.mem_append_left _ buy)).account
    have paid := books.payment solvent buy charged
    rw [Nat.mul_assoc] at paid
    exact ⟨payer, charged, paid⟩

/-- What a buyer holds and what all sellers give is within the total. -/
theorem share_room (books : TradedBooks accounts tick matched buys sells)
    (covered : SellsCovered accounts sells) {order : Order} (member : order ∈ buys)
    {account : Account} (found : accounts[order.accountIndex]? = some account) :
    ((account.yesShares.toNat + order.fill : Nat) : Int) ≤ (accounts.map sharesOf).sum := by
  have indices := books.indices
  rw [List.map_append, List.nodup_append] at indices
  obtain ⟨_, distinct, apart⟩ := indices
  have bound := share_charges accounts ((order.accountIndex, (account.yesShares.toNat : Int)) ::
    sells.map fun o => (o.accountIndex, (o.fill : Int))) ?_ ?_
  · have given : (sells.map fun o => (o.fill : Int)).sum = (matched : Int) := by
      rw [← books.sold, Nat.cast_list_sum, List.map_map]
      rfl
    have share : order.fill ≤ matched :=
      books.bought ▸ List.le_sum_of_mem (List.mem_map_of_mem member)
    rw [List.map_cons, List.sum_cons, List.map_map] at bound
    have total : (account.yesShares.toNat : Int) + matched ≤ (accounts.map sharesOf).sum :=
      given ▸ bound
    omega
  · rw [List.map_cons, List.map_map, List.nodup_cons]
    refine ⟨fun repeated => ?_, distinct⟩
    exact apart _ (List.mem_map_of_mem member) _ repeated rfl
  · refine List.forall_mem_cons.mpr ⟨⟨account, found, le_refl _⟩, fun charge listed => ?_⟩
    obtain ⟨o, sell, rfl⟩ := List.mem_map.mp listed
    obtain ⟨holder, charged, enough⟩ := covered o sell
    exact ⟨holder, charged, Int.ofNat_le.mpr enough⟩

/-- Every order of a trade settles where the totals fit the account fields. -/
theorem settles (books : TradedBooks accounts tick matched buys sells) (bounded : tick ≤ 99)
    (covered : SellsCovered accounts sells)
    (solvent : ∀ account ∈ accounts, 0 ≤ account.cash.toInt)
    (cash : (accounts.map cashOf).sum ≤ 2 ^ 63 - 1)
    (shares : (accounts.map sharesOf).sum ≤ 2 ^ 32 - 1) :
    ∀ o ∈ buys ++ sells, ∃ account settled, accounts[o.accountIndex]? = some account ∧
      settle tick o account = some settled := by
  intro o member
  have placed := books.placed o member
  obtain ⟨account, found, _⟩ := placed.account
  have few : o.fill ≤ 8 := placed.few.1.trans placed.few.2
  have success : ∃ settled, settle tick o account = some settled := by
    rcases List.mem_append.mp member with buy | sell
    · have room := books.share_room covered buy found
      exact settle_buy few bounded (books.buySides o buy) (books.payment solvent buy found)
        (by omega)
    · have room := books.cash_room solvent sell found
      obtain ⟨holder, charged, enough⟩ := covered o sell
      obtain rfl := Option.some_inj.mp (found.symm.trans charged)
      exact settle_sell few bounded (books.sellSides o sell)
        (solvent account (List.mem_of_getElem? found)) (by omega) enough
  obtain ⟨settled, settles⟩ := success
  exact ⟨account, settled, found, settles⟩

end TradedBooks

/-! ### Every reachable market -/

/-- What clearing does with books whose sums are formed, exhausted and settled. -/
theorem clearBooks_total {market : BatchMarket} {count : Nat} {buys sells : List Order}
    {best : ClearingCandidate}
    (search : scanTicks buys sells market.lastTradedTick ticks noCandidate = some best)
    (fits : best.matchedQuantity ≤ UInt32.size - 1)
    (bought : (allocate (buyEligible best.tick) (sortBy buyPriority buys)
      best.matchedQuantity).2 = 0)
    (sold : (allocate (sellEligible best.tick) (sortBy sellPriority sells)
      best.matchedQuantity).2 = 0)
    (applies : ∃ outcome, applyOrders best.tick
      ((allocate (buyEligible best.tick) (sortBy buyPriority buys) best.matchedQuantity).1 ++
        (allocate (sellEligible best.tick) (sortBy sellPriority sells) best.matchedQuantity).1)
      market.accounts [] = some outcome) :
    ∃ result after, clearBooks ampleMemory market count buys sells = (.ok result, after) := by
  rw [clearBooks, search]
  dsimp only
  by_cases unmatched : best.matchedQuantity = 0
  · exact ⟨_, _, if_pos unmatched⟩
  · obtain ⟨outcome, applied⟩ := applies
    rw [if_neg unmatched, if_neg (Nat.not_lt.mpr fits), if_neg (by simp [bought, sold]),
      if_neg (not_or.mpr ⟨ampleMemory_grants _, ampleMemory_grants _⟩), applied]
    exact ⟨_, _, rfl⟩

/-- An admitted batch clears, when the totals fit and memory does not run out. -/
theorem clear_admitted_total {market : BatchMarket} {actions : List AgentAction}
    (solvent : ∀ account ∈ market.accounts, 0 ≤ account.cash.toInt)
    (cash : (market.accounts.map cashOf).sum ≤ 2 ^ 63 - 1)
    (shares : (market.accounts.map sharesOf).sum ≤ 2 ^ 32 - 1)
    (admitted : Admitted market.accounts actions) :
    ∃ result after, clear ampleMemory market actions = (.ok result, after) := by
  have demanded := demand_le_cash admitted solvent
  have supplied := supply_le_shares admitted
  have wide : UInt64.size = 2 ^ 64 := rfl
  have narrow : UInt32.size = 2 ^ 32 := rfl
  have smallBuys : ∀ o ∈ buysOf market.accounts actions, o.quantity ≤ UInt64.size - 1 :=
    (distinctBook market.accounts admitted.distinct AgentAction.isBuy
      fun a buy => by simp_all [AgentAction.isBuy]).small
  have smallSells : ∀ o ∈ sellsOf market.accounts actions, o.quantity ≤ UInt64.size - 1 :=
    (distinctBook market.accounts admitted.distinct AgentAction.isSell
      fun a sell => by simp_all [AgentAction.isSell]).small
  -- The sums at a tick are the demand and the supply there, which fit.
  obtain ⟨best, search⟩ : ∃ best, scanTicks (buysOf market.accounts actions)
      (sellsOf market.accounts actions) market.lastTradedTick ticks noCandidate = some best := by
    refine scanTicks_total (fun tick => ?_) (fun tick => ?_) _ _
    · have sum : acceptedQuantity (buyEligible tick) (buysOf market.accounts actions) =
          demand actions tick := (demand_eq _ _ _).symm
      have fits := demanded tick
      rw [accumulate_bounded smallBuys (Nat.zero_le _), sum, if_pos (by omega)]
      rfl
    · have sum : acceptedQuantity (sellEligible tick) (sellsOf market.accounts actions) =
          supply actions tick := (supply_eq _ _ _).symm
      have fits := supplied tick
      rw [accumulate_bounded smallSells (Nat.zero_le _), sum, if_pos (by omega)]
      rfl
  obtain ⟨candidate, bestTick⟩ := scan_bestTick search
  have inRange := Finset.mem_Icc.mp bestTick.1
  have matched : best.matchedQuantity = min (demand actions best.tick) (supply actions best.tick) :=
    congrArg ClearingCandidate.matchedQuantity candidate
  have buyEnough : best.matchedQuantity ≤
      acceptedQuantity (buyEligible best.tick) (buysOf market.accounts actions) :=
    (matched.le.trans (min_le_left _ _)).trans (demand_eq _ _ _).le
  have sellEnough : best.matchedQuantity ≤
      acceptedQuantity (sellEligible best.tick) (sellsOf market.accounts actions) :=
    (matched.le.trans (min_le_right _ _)).trans (supply_eq _ _ _).le
  have fits := supplied best.tick
  rw [clear_of_admitted ⟨rfl, rfl⟩ admitted fun _ _ => rfl]
  refine clearBooks_total search (by omega) (allocate_sorted buyPriority buyEnough)
    (allocate_sorted sellPriority sellEnough) ?_
  have bought := allocate_filled (orders_fresh market.accounts AgentAction.isBuy actions)
    (Prod.ext rfl (allocate_sorted buyPriority buyEnough))
  have sold := allocate_filled (orders_fresh market.accounts AgentAction.isSell actions)
    (Prod.ext rfl (allocate_sorted sellPriority sellEnough))
  have books := tradedBooks_of_filled admitted bought sold
  exact applyOrders_total [] books.indices
    (books.settles inRange.2 (sellsCovered_of_filled admitted sold) solvent cash shares)

/-- A batch that is not admitted is refused by the admission loop. -/
theorem clear_unadmitted {memory : Memory} {market : BatchMarket} {actions : List AgentAction}
    (unadmitted : ¬ Admitted market.accounts actions) :
    ∃ status, clear memory market actions = (.error status, market) ∧
      (status = .failure .invalidArgument ∨ status = .failure .insufficientResources ∨
        status = .failure .allocationFailed) := by
  rw [clear_eq]
  split
  next => exact ⟨_, rfl, .inr (.inr rfl)⟩
  next =>
    cases collected : collectOrders memory market.accounts 2 actions [] [] [] with
    | error status => exact ⟨status, rfl, collectOrders_error collected⟩
    | ok books => exact absurd (collectOrders_ok (show _ = Except.ok (books.1, books.2) from
        collected)).1 unadmitted

/-- A market that refuses exactly the batches it has to, and keeps its state when it refuses. -/
structure ExactlyAdmits (market : BatchMarket) : Prop where
  admission : ∀ memory actions, ¬ Starved memory market actions →
    ((∃ result after, clear memory market actions = (.ok result, after)) ↔
      CoveredBatch market.accounts actions)
  noOverflow : ∀ memory actions,
    (clear memory market actions).1 ≠ .error (.failure .arithmeticOverflow)
  exhausted : ∀ memory actions,
    (clear memory market actions).1 ≠ .error (.failure .invalidFormat)
  rejected : ∀ memory actions status, (clear memory market actions).1 = .error status →
    (clear memory market actions).2 = market

theorem exactlyAdmits {market : BatchMarket}
    (increasing : (market.accounts.map Account.id).Pairwise (· < ·))
    (solvent : ∀ account ∈ market.accounts, 0 ≤ account.cash.toInt)
    (cash : (market.accounts.map cashOf).sum ≤ 2 ^ 63 - 1)
    (shares : (market.accounts.map sharesOf).sum ≤ 2 ^ 32 - 1) : ExactlyAdmits market := by
  -- What a call reports when it fails: a refusal of the batch, or of memory.
  have failures : ∀ memory actions status, (clear memory market actions).1 = .error status →
      status = .failure .invalidArgument ∨ status = .failure .insufficientResources ∨
        status = .failure .allocationFailed := by
    intro memory actions status failed
    by_cases starved : Starved memory market actions
    · exact .inr (.inr (Except.error.inj (failed.symm.trans starved)))
    · by_cases admitted : Admitted market.accounts actions
      · obtain ⟨result, after, cleared⟩ := clear_admitted_total solvent cash shares admitted
        rw [clear_served starved, cleared] at failed
        cases failed
      · obtain ⟨reported, refused, reason⟩ := @clear_unadmitted memory _ _ admitted
        rw [refused] at failed
        exact Except.error.inj failed ▸ reason
  refine ⟨fun memory actions served => ?_, fun memory actions overflow => ?_,
    fun memory actions unfilled => ?_, fun memory actions status failed => ?_⟩
  · rw [← admitted_iff_covered increasing]
    constructor
    · rintro ⟨result, after, accepted⟩
      exact (clear_admitted accepted).2.1
    · intro admitted
      rw [clear_served served]
      exact clear_admitted_total solvent cash shares admitted
  · have reason := failures memory actions _ overflow
    revert reason
    decide
  · have reason := failures memory actions _ unfilled
    revert reason
    decide
  · have effect := clear_effect memory market actions
    rw [failed] at effect
    generalize (clear memory market actions).2 = after at effect
    cases effect
    rfl

/-- In every market reached by batches from one that `create` builds over accounts whose cash
and shares fit their fields in total, clearing succeeds exactly on covered batches of distinct
agents with accounts, memory aside; it never reports an overflow or an allocation that does not
exhaust, and a rejected batch leaves the market as it was. -/
theorem batch_exactly_admitted {memory : Memory} {accounts : List Account} {referenceTick : Nat}
    {market : BatchMarket} (created : create memory accounts referenceTick = .ok market)
    (cash : (accounts.map cashOf).sum ≤ 2 ^ 63 - 1)
    (shares : (accounts.map sharesOf).sum ≤ 2 ^ 32 - 1) (batches : List BatchCall) :
    ExactlyAdmits (marketMachine.run market batches) := by
  have sound := reached_sound created batches
  exact exactlyAdmits (sound.ids ▸ (create_sound created).1) sound.solvent
    (sound.cash.trans_le cash) (sound.shares.trans_le shares)

/-- All the cash there can be, with one agent: its sell passes although a credit of its price
would overflow, since no other agent can pay for it. -/
theorem batch_exactly_admitted_full_total :
    ∃ result after, clear ampleMemory ⟨[⟨0, Int64.maxValue, 4294967295⟩, ⟨1, 0, 0⟩], 50⟩
      [⟨0, ⟨.sellYes, 8, 99, by decide⟩⟩, ⟨1, .hold⟩] = (.ok result, after) := by
  have created : create ampleMemory [⟨1, 0, 0⟩, ⟨0, Int64.maxValue, 4294967295⟩] 50 =
      .ok ⟨[⟨0, Int64.maxValue, 4294967295⟩, ⟨1, 0, 0⟩], 50⟩ := by decide +kernel
  have exact_market := batch_exactly_admitted created (by decide) (by decide) []
  refine (exact_market.admission ampleMemory _ ?_).mpr ?_
  · unfold Starved
    decide +kernel
  · refine ⟨by decide, by decide, by decide, by decide⟩

end MarketForge
