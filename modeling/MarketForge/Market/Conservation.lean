import MarketForge.Library.Keyed
import MarketForge.Market.ClearingPrice
import MarketForge.Market.Settlement

/-!
# Conservation and solvency

Over any run of batches the market keeps its accounts and the exact totals of cash and shares,
no account goes into debt, and every account moves exactly by the fills reported for its owner.
-/
namespace MarketForge

open BatchMarket

/-! ### The books of an admitted batch -/

/-- An order without its fill. -/
def Order.terms (order : Order) : Order := { order with fill := 0 }

/-- The filled side of a batch: its orders up to order, with fills that exhaust the matched
quantity on eligible orders only. -/
structure FilledSide (eligible : Nat → Bool) (book filled : List Order) (matched : Nat) : Prop where
  terms : (filled.map Order.terms).Perm book
  bounds : ∀ o ∈ filled, o.fill ≤ o.quantity ∧ (o.fill ≠ 0 → eligible o.limit = true)
  total : (filled.map Order.fill).sum = matched

theorem allocate_filled {κ : Type} [LinearOrder κ] {eligible : Nat → Bool} {key : Order → κ}
    {book filled : List Order} {matched : Nat} (fresh : ∀ o ∈ book, o.fill = 0)
    (allocated : allocate eligible (sortBy key book) matched = (filled, 0)) :
    FilledSide eligible book filled matched := by
  have unfilled : ∀ o ∈ sortBy key book, o.fill = 0 :=
    fun o member => fresh o ((sortBy_perm key book).mem_iff.mp member)
  have terms := allocate_map eligible (sortBy key book) matched Order.terms fun _ _ => rfl
  have bounds := allocate_fill eligible (sortBy key book) matched unfilled
  have total := allocate_sum eligible (sortBy key book) matched unfilled
  rw [allocated] at terms bounds total
  refine ⟨?_, bounds, total⟩
  -- The orders of a book start without fills, so they are their own terms.
  have same : (sortBy key book).map Order.terms = sortBy key book := by
    conv_rhs => rw [← List.map_id (sortBy key book)]
    refine List.map_congr_left fun o member => ?_
    rw [Order.terms, ← unfilled o member]
    rfl
  rw [terms, same]
  exact sortBy_perm key book

/-- The orders of a batch start without fills. -/
theorem orders_fresh (accounts : List Account) (kept : AgentAction → Bool)
    (actions : List AgentAction) :
    ∀ o ∈ (actions.filter kept).map (orderOf accounts), o.fill = 0 := by
  intro o member
  obtain ⟨submission, _, rfl⟩ := List.mem_map.mp member
  rfl

/-- What is known of each order of a batch that trades. -/
structure Placed (accounts : List Account) (tick : Nat) (order : Order) : Prop where
  account : ∃ account, accounts[order.accountIndex]? = some account ∧ account.id = order.agent ∧
    (order.side = .buyYes → order.quantity * order.limit * 10000 ≤ account.cash.toInt)
  side : order.side = .buyYes ∨ order.side = .sellYes
  few : order.fill ≤ order.quantity ∧ order.quantity ≤ 8
  price : order.side = .buyYes → order.fill ≠ 0 → tick ≤ order.limit

theorem placed_of_terms {accounts : List Account} {actions : List AgentAction} {tick : Nat}
    (admitted : Admitted accounts actions) {submission : AgentAction}
    (member : submission ∈ actions) (acts : submission.action.kind ≠ .hold) {order : Order}
    (terms : order.terms = orderOf accounts submission) (fill : order.fill ≤ order.quantity)
    (price : order.side = .buyYes → order.fill ≠ 0 → tick ≤ order.limit) :
    Placed accounts tick order := by
  have index : order.accountIndex = lowerBound accounts submission.agent :=
    congrArg Order.accountIndex terms
  have agent : order.agent = submission.agent := congrArg Order.agent terms
  have side : order.side = submission.action.kind := congrArg Order.side terms
  have quantity : order.quantity = submission.action.quantity := congrArg Order.quantity terms
  have limit : order.limit = submission.action.priceTick := congrArg Order.limit terms
  obtain ⟨⟨_, few⟩, _, ticks⟩ := submission.action.bounds acts
  obtain ⟨account, found, covers⟩ := admitted.admissible submission member
  refine ⟨⟨account, index ▸ found, covers.owner.trans agent.symm, fun buys => ?_⟩, ?_,
    ⟨fill, quantity ▸ few⟩, price⟩
  · have covered := covers.buy (side ▸ buys)
    rw [Int64.le_iff_toInt_le, notional_toInt few ticks] at covered
    rw [quantity, limit]
    exact_mod_cast covered
  · rw [side]
    cases kind : submission.action.kind with
    | hold => exact absurd kind acts
    | buyYes => exact .inl rfl
    | sellYes => exact .inr rfl

/-- An agent has at most one order in the two books. -/
theorem books_agents (accounts : List Account) {actions : List AgentAction}
    (distinct : (actions.map AgentAction.agent).Nodup) :
    ((buysOf accounts actions ++ sellsOf accounts actions).map Order.agent).Nodup := by
  have agents : (buysOf accounts actions ++ sellsOf accounts actions).map Order.agent =
      (actions.filter AgentAction.isBuy ++ actions.filter AgentAction.isSell).map
        AgentAction.agent := by
    rw [List.map_append, List.map_append, buysOf, sellsOf, List.map_map, List.map_map]
    rfl
  -- The sells are among the submissions that are not buys.
  have sells : (actions.filter AgentAction.isSell).Sublist
      (actions.filter fun a => !a.isBuy) := by
    apply List.monotone_filter_right
    intro a sell
    cases kind : a.action.kind <;> simp_all [AgentAction.isBuy, AgentAction.isSell]
  have split := List.filter_append_perm AgentAction.isBuy actions
  rw [agents]
  have whole := (split.map AgentAction.agent).nodup_iff.mpr distinct
  exact ((sells.append_left _).map AgentAction.agent).nodup whole

/-- The two filled books of a trade at `tick`. -/
structure TradedBooks (accounts : List Account) (tick matched : Nat)
    (buys sells : List Order) : Prop where
  placed : ∀ o ∈ buys ++ sells, Placed accounts tick o
  agents : ((buys ++ sells).map Order.agent).Nodup
  buySides : ∀ o ∈ buys, o.side = .buyYes
  sellSides : ∀ o ∈ sells, o.side = .sellYes
  bought : (buys.map Order.fill).sum = matched
  sold : (sells.map Order.fill).sum = matched

/-- A filled order is that of a submission on its side of the batch. -/
theorem FilledSide.submission {eligible : Nat → Bool} {accounts : List Account}
    {actions : List AgentAction} {kept : AgentAction → Bool} {filled : List Order} {matched : Nat}
    (side : FilledSide eligible ((actions.filter kept).map (orderOf accounts)) filled matched)
    {order : Order} (member : order ∈ filled) :
    ∃ submission ∈ actions, kept submission = true ∧ order.terms = orderOf accounts submission := by
  have listed := side.terms.mem_iff.mp (List.mem_map_of_mem member)
  obtain ⟨submission, chosen, same⟩ := List.mem_map.mp listed
  obtain ⟨submitted, wanted⟩ := List.mem_filter.mp chosen
  exact ⟨submission, submitted, wanted, same.symm⟩

theorem tradedBooks_of_filled {accounts : List Account} {actions : List AgentAction}
    {tick matched : Nat} {buys sells : List Order} (admitted : Admitted accounts actions)
    (bought : FilledSide (buyEligible tick) (buysOf accounts actions) buys matched)
    (sold : FilledSide (sellEligible tick) (sellsOf accounts actions) sells matched) :
    TradedBooks accounts tick matched buys sells := by
  have buyTerms : ∀ o ∈ buys, ∃ submission ∈ actions, submission.action.kind = .buyYes ∧
      o.terms = orderOf accounts submission := by
    intro o member
    obtain ⟨submission, submitted, buy, terms⟩ := bought.submission member
    exact ⟨submission, submitted, of_decide_eq_true buy, terms⟩
  have sellTerms : ∀ o ∈ sells, ∃ submission ∈ actions, submission.action.kind = .sellYes ∧
      o.terms = orderOf accounts submission := by
    intro o member
    obtain ⟨submission, submitted, sell, terms⟩ := sold.submission member
    exact ⟨submission, submitted, of_decide_eq_true sell, terms⟩
  have buySides : ∀ o ∈ buys, o.side = .buyYes := by
    intro o member
    obtain ⟨submission, _, kind, terms⟩ := buyTerms o member
    exact (congrArg Order.side terms).trans kind
  have sellSides : ∀ o ∈ sells, o.side = .sellYes := by
    intro o member
    obtain ⟨submission, _, kind, terms⟩ := sellTerms o member
    exact (congrArg Order.side terms).trans kind
  refine ⟨?_, ?_, buySides, sellSides, bought.total, sold.total⟩
  · intro o member
    rcases List.mem_append.mp member with buy | sell
    · obtain ⟨submission, submitted, kind, terms⟩ := buyTerms o buy
      obtain ⟨within, eligible⟩ := bought.bounds o buy
      refine placed_of_terms admitted submitted (by simp [kind]) terms within fun _ filled => ?_
      simpa [buyEligible] using eligible filled
    · obtain ⟨submission, submitted, kind, terms⟩ := sellTerms o sell
      refine placed_of_terms admitted submitted (by simp [kind]) terms (sold.bounds o sell).1 ?_
      simp [sellSides o sell]
  · have whole := ((bought.terms.append sold.terms).map Order.agent).nodup_iff.mpr
      (books_agents accounts admitted.distinct)
    rw [← List.map_append, List.map_map] at whole
    exact whole

namespace TradedBooks

variable {accounts : List Account} {tick matched : Nat} {buys sells : List Order}

/-- Orders of distinct agents are charged to distinct accounts. -/
theorem indices (books : TradedBooks accounts tick matched buys sells) :
    ((buys ++ sells).map Order.accountIndex).Nodup := by
  have agents := books.agents
  rw [List.Nodup, List.pairwise_map] at agents ⊢
  refine agents.imp_of_mem fun {first second} member member' different same => ?_
  obtain ⟨account, found, owner, _⟩ := (books.placed first member).account
  obtain ⟨account', found', owner', _⟩ := (books.placed second member').account
  rw [same, found'] at found
  obtain rfl := Option.some_inj.mp found
  exact different (owner.symm.trans owner')

/-- A change proportional to the fill on each side, with opposite rates, sums to nothing. -/
theorem balanced (books : TradedBooks accounts tick matched buys sells) (rate : Int)
    {change : Order → Int} (pays : ∀ o ∈ buys, change o = -rate * o.fill)
    (receives : ∀ o ∈ sells, change o = rate * o.fill) :
    ((buys ++ sells).map change).sum = 0 := by
  have scaled : ∀ (orders : List Order) (c : Int),
      (orders.map fun o => c * (o.fill : Int)).sum = c * ((orders.map Order.fill).sum : Nat) := by
    intro orders c
    induction orders with
    | nil => simp
    | cons o rest ih =>
      simp only [List.map_cons, List.sum_cons, ih]
      push_cast
      ring
  rw [List.map_append, List.sum_append, List.map_congr_left pays, List.map_congr_left receives,
    scaled, scaled, books.bought, books.sold]
  ring

/-- Cash paid is cash received. -/
theorem cash_balanced (books : TradedBooks accounts tick matched buys sells) :
    ((buys ++ sells).map (cashChange tick)).sum = 0 := by
  apply books.balanced (tick * 10000)
  · intro o member
    simp only [cashChange, books.buySides o member, if_true]
    push_cast
    ring
  · intro o member
    simp only [cashChange, books.sellSides o member, reduceCtorEq, if_false]
    push_cast
    ring

/-- Shares bought are shares sold. -/
theorem shares_balanced (books : TradedBooks accounts tick matched buys sells) :
    ((buys ++ sells).map shareChange).sum = 0 := by
  apply books.balanced (-1)
  · intro o member
    simp [shareChange, books.buySides o member]
  · intro o member
    simp [shareChange, books.sellSides o member]

/-- A buy pays no more than the admission had seen in its account. -/
theorem solvent (books : TradedBooks accounts tick matched buys sells) {order : Order}
    (member : order ∈ buys ++ sells) (filled : order.fill ≠ 0) {account : Account}
    (found : accounts[order.accountIndex]? = some account) (before : 0 ≤ account.cash.toInt) :
    0 ≤ account.cash.toInt + cashChange tick order := by
  have placed := books.placed order member
  rcases placed.side with buys | sells
  · obtain ⟨_, found', _, covered⟩ := placed.account
    obtain rfl := Option.some_inj.mp (found.symm.trans found')
    have limit := placed.price buys filled
    have price : order.fill * tick * 10000 ≤ order.quantity * order.limit * 10000 :=
      Nat.mul_le_mul_right _ (Nat.mul_le_mul placed.few.1 limit)
    have enough := covered buys
    rw [cashChange, if_pos buys]
    exact_mod_cast by omega
  · rw [cashChange, if_neg (by simp [sells])]
    omega

end TradedBooks

/-! ### What a batch does to the market -/

/-- The shares a fill brings its agent. -/
def Fill.shares (fill : Fill) : Int :=
  if fill.side = .buyYes then fill.quantity else -(fill.quantity : Int)

/-- The shares that the reported fills bring an agent. -/
def netShares (fills : List Fill) (agent : AgentId) : Int :=
  ((fills.filter fun fill => decide (fill.agent = agent)).map Fill.shares).sum

/-- The fills a call reports. -/
def reportedFills : Result BatchResult → List Fill
  | .ok result => result.fills
  | .error _ => []

/-- The tick a call reports. -/
def reportedTick : Result BatchResult → Nat
  | .ok result => result.clearingTick
  | .error _ => 0

/-- Every account moves by the fills reported for its owner, in exact integers. -/
def AccountsExact (market : BatchMarket) (reply : Result BatchResult) (after : BatchMarket) :
    Prop :=
  ∀ (i : Nat) before now, market.accounts[i]? = some before → after.accounts[i]? = some now →
    Moved before now
      (-(netShares (reportedFills reply) before.id * (reportedTick reply * 10000)))
      (netShares (reportedFills reply) before.id)

theorem netShares_perm {fills fills' : List Fill} (perm : fills.Perm fills') (agent : AgentId) :
    netShares fills agent = netShares fills' agent :=
  ((perm.filter _).map _).sum_eq

theorem netShares_eq_zero {fills : List Fill} {agent : AgentId}
    (absent : ∀ fill ∈ fills, fill.agent ≠ agent) : netShares fills agent = 0 := by
  have none_left : fills.filter (fun fill => decide (fill.agent = agent)) = [] :=
    List.filter_eq_nil_iff.mpr fun fill member => by simpa using absent fill member
  rw [netShares, none_left]
  rfl

theorem netShares_of_mem {fills : List Fill} (distinct : (fills.map Fill.agent).Nodup)
    {fill : Fill} (member : fill ∈ fills) : netShares fills fill.agent = fill.shares := by
  have only := Keyed.filter_key_perm distinct (Keyed.find_of_mem distinct member rfl)
  rw [netShares, (only.map Fill.shares).sum_eq]
  simp

/-- The trade of an admitted batch: its books, and what applying them leaves. -/
theorem ClearEffect.books {market : BatchMarket} {actions : List AgentAction}
    {best : ClearingCandidate} {buys sells : List Order} {updated : List Account}
    {fills : List Fill} (admitted : Admitted market.accounts actions)
    (bounded : best.tick ≤ 99)
    (bought : allocate (buyEligible best.tick)
      (sortBy buyPriority (buysOf market.accounts actions)) best.matchedQuantity = (buys, 0))
    (sold : allocate (sellEligible best.tick)
      (sortBy sellPriority (sellsOf market.accounts actions)) best.matchedQuantity = (sells, 0))
    (applied : applyOrders best.tick (buys ++ sells) market.accounts [] = some (updated, fills)) :
    TradedBooks market.accounts best.tick best.matchedQuantity buys sells ∧
      Applied best.tick (buys ++ sells) market.accounts [] updated fills := by
  have books := tradedBooks_of_filled admitted (allocate_filled (orders_fresh _ _ _) bought)
    (allocate_filled (orders_fresh _ _ _) sold)
  refine ⟨books, applyOrders_applied bounded (fun o member => ?_) applied⟩
  have few := (books.placed o member).few
  omega

/-- The account at an index is moved by the one filled order charged to it, or not at all. -/
theorem TradedBooks.account_moved {accounts updated : List Account} {tick matched : Nat}
    {buys sells : List Order} {fills : List Fill}
    (books : TradedBooks accounts tick matched buys sells)
    (applied : Applied tick (buys ++ sells) accounts [] updated fills)
    {i : Nat} {before now : Account} (read : accounts[i]? = some before)
    (write : updated[i]? = some now) :
    (∃ o ∈ buys ++ sells, o.fill ≠ 0 ∧ o.agent = before.id ∧
        accounts[o.accountIndex]? = some before ∧
        Moved before now (cashChange tick o) (shareChange o)) ∨
      (now = before ∧ ∀ o ∈ buys ++ sells, o.fill ≠ 0 → o.accountIndex ≠ i) := by
  by_cases charged : ∃ o ∈ buys ++ sells, o.fill ≠ 0 ∧ o.accountIndex = i
  · obtain ⟨o, member, filled, rfl⟩ := charged
    obtain ⟨account, settled, found, written, moved⟩ :=
      applied.touched books.indices o member filled
    obtain ⟨account', found', owner, _⟩ := (books.placed o member).account
    obtain rfl := Option.some_inj.mp (found.symm.trans read)
    obtain rfl := Option.some_inj.mp (found.symm.trans found')
    obtain rfl := Option.some_inj.mp (written.symm.trans write)
    exact .inl ⟨o, member, filled, owner.symm, found, moved⟩
  · have apart : ∀ o ∈ buys ++ sells, o.fill ≠ 0 → o.accountIndex ≠ i :=
      fun o member filled same => charged ⟨o, member, filled, same⟩
    rw [applied.untouched i apart, read] at write
    exact .inr ⟨(Option.some_inj.mp write).symm, apart⟩

/-- The fills of distinct agents tell each account what it moved by. -/
theorem TradedBooks.accountsExact {accounts updated : List Account} {last tick matched : Nat}
    {buys sells : List Order} {fills reported : List Fill}
    (unique : (accounts.map Account.id).Nodup)
    (books : TradedBooks accounts tick matched buys sells)
    (applied : Applied tick (buys ++ sells) accounts [] updated fills)
    (sorted : reported.Perm fills) :
    AccountsExact ⟨accounts, last⟩ (.ok ⟨true, tick, matched, reported⟩) ⟨updated, tick⟩ := by
  have listed : fills =
      ((buys ++ sells).filter fun o => decide (o.fill ≠ 0)).map Order.toFill := applied.fills
  have distinct : (fills.map Fill.agent).Nodup := by
    rw [listed, List.map_map]
    exact (List.filter_sublist.map _).nodup books.agents
  intro i before now read write
  change Moved before now (-(netShares reported before.id * (tick * 10000)))
    (netShares reported before.id)
  rw [netShares_perm sorted]
  rcases books.account_moved applied read write with
    ⟨o, member, filled, owner, _, moved⟩ | ⟨rfl, apart⟩
  · have reports : o.toFill ∈ fills := by
      rw [listed]
      exact List.mem_map_of_mem (List.mem_filter.mpr ⟨member, by simpa using filled⟩)
    have net : netShares fills before.id = shareChange o :=
      owner ▸ netShares_of_mem distinct reports
    have cash : cashChange tick o = -(shareChange o * (tick * 10000)) := by
      unfold cashChange shareChange
      split <;> push_cast <;> ring
    rw [net, ← cash]
    exact moved
  · -- A fill of the owner would be charged to this index.
    have silent : netShares fills now.id = 0 := by
      apply netShares_eq_zero
      intro fill member owner
      rw [listed] at member
      obtain ⟨o, chosen, rfl⟩ := List.mem_map.mp member
      obtain ⟨placed, filled⟩ := List.mem_filter.mp chosen
      obtain ⟨account, found, owns, _⟩ := (books.placed o placed).account
      refine apart o placed (by simpa using filled) ?_
      refine (List.getElem?_inj ?_ unique).mp ?_
      · simpa using (List.getElem?_eq_some_iff.mp found).1
      · rw [List.getElem?_map, List.getElem?_map, found, read]
        exact congrArg some (owns.trans owner)
    rw [silent]
    exact ⟨rfl, by simp, by simp⟩

/-! ### Runs -/

/-- What every batch keeps: the accounts by id, the totals, solvency and a proper last tick. -/
structure MarketSound (ids : List AgentId) (cash shares : Int) (market : BatchMarket) : Prop where
  ids : market.accounts.map Account.id = ids
  cash : (market.accounts.map cashOf).sum = cash
  shares : (market.accounts.map sharesOf).sum = shares
  solvent : ∀ account ∈ market.accounts, 0 ≤ account.cash.toInt
  tick : 1 ≤ market.lastTradedTick ∧ market.lastTradedTick ≤ 99

theorem MarketSound.step {ids : List AgentId} {cash shares : Int} {market after : BatchMarket}
    {actions : List AgentAction} {reply : Result BatchResult} (unique : ids.Nodup)
    (sound : MarketSound ids cash shares market)
    (effect : ClearEffect market actions reply after) :
    MarketSound ids cash shares after ∧ AccountsExact market reply after := by
  have still : AccountsExact market (.ok {}) market := by
    intro i before now read write
    obtain rfl := Option.some_inj.mp (read.symm.trans write)
    exact ⟨rfl, by simp [netShares, reportedFills], by simp [netShares, reportedFills]⟩
  cases effect with
  | refused => exact ⟨sound, still⟩
  | untraded => exact ⟨sound, still⟩
  | @traded best buys sells updated fills admitted search matched bought sold apply =>
    have inRange := Finset.mem_Icc.mp (scan_bestTick search).2.1
    obtain ⟨books, applied⟩ := ClearEffect.books admitted inRange.2 bought sold apply
    refine ⟨⟨applied.ids.trans sound.ids, ?_, ?_, ?_, inRange⟩, ?_⟩
    · rw [applied.cash, books.cash_balanced, sound.cash, Int.add_zero]
    · rw [applied.shares, books.shares_balanced, sound.shares, Int.add_zero]
    · intro account member
      obtain ⟨i, write⟩ := List.mem_iff_getElem?.mp member
      have same_length : updated.length = market.accounts.length := by
        simpa using congrArg List.length applied.ids
      have inside := (List.getElem?_eq_some_iff.mp write).1
      have read := List.getElem?_eq_getElem (same_length ▸ inside)
      have before := sound.solvent _ (List.mem_of_getElem? read)
      rcases books.account_moved applied read write with
        ⟨o, placed, filled, _, charged, moved⟩ | ⟨rfl, _⟩
      · rw [moved.cash]
        exact books.solvent placed filled charged before
      · exact before
    · exact books.accountsExact (sound.ids ▸ unique) applied (sortBy_perm _ _)

/-- The accounts that `create` accepts are sorted strictly by id and solvent. -/
theorem accountsInvalid_false (previous : Option AgentId) {accounts : List Account}
    (sorted : accounts.Pairwise fun a b => a.id.toNat ≤ b.id.toNat)
    (after : ∀ id ∈ previous, ∀ account ∈ accounts, id.toNat ≤ account.id.toNat)
    (valid : accountsInvalid previous accounts = false) :
    (accounts.map Account.id).Pairwise (· < ·) ∧ (∀ account ∈ accounts, 0 ≤ account.cash.toInt) ∧
      ∀ id ∈ previous, ∀ account ∈ accounts, id < account.id := by
  induction accounts generalizing previous with
  | nil => simp
  | cons account rest ih =>
    obtain ⟨below, sorted⟩ := List.pairwise_cons.mp sorted
    simp only [accountsInvalid, Bool.or_eq_false_iff, decide_eq_false_iff_not] at valid
    obtain ⟨⟨solvent, different⟩, valid⟩ := valid
    have next : ∀ id ∈ some account.id, ∀ other ∈ rest, id.toNat ≤ other.id.toNat := by
      rintro id ⟨⟩ other member
      exact below other member
    obtain ⟨increasing, funded, above⟩ := ih _ sorted next valid
    have first : ∀ id ∈ previous, id < account.id := by
      intro id named
      have weak := after id named account List.mem_cons_self
      have distinct : id.toNat ≠ account.id.toNat := fun same =>
        different (by rw [Option.mem_def.mp named, UInt32.toNat_inj.mp same])
      rw [UInt32.lt_iff_toNat_lt]
      omega
    refine ⟨?_, ?_, ?_⟩
    · rw [List.map_cons, List.pairwise_cons]
      refine ⟨fun id listed => ?_, increasing⟩
      obtain ⟨other, member, rfl⟩ := List.mem_map.mp listed
      exact above _ rfl other member
    · refine List.forall_mem_cons.mpr ⟨?_, funded⟩
      rw [Int64.lt_iff_toInt_lt, Int64.toInt_zero] at solvent
      omega
    · intro id named other member
      rcases List.mem_cons.mp member with rfl | tail
      · exact first id named
      · exact UInt32.lt_trans (first id named) (above _ rfl other tail)

theorem create_sound {memory : Memory} {accounts : List Account} {referenceTick : Nat}
    {market : BatchMarket} (created : create memory accounts referenceTick = .ok market) :
    (market.accounts.map Account.id).Pairwise (· < ·) ∧
      MarketSound (market.accounts.map Account.id) (accounts.map cashOf).sum
        (accounts.map sharesOf).sum market := by
  unfold create at created
  split at created
  next => cases created
  next arguments =>
    split at created
    next => cases created
    next =>
      dsimp only at created
      split at created
      next => cases created
      next valid =>
        obtain rfl := Except.ok.inj created
        have perm := sortBy_perm (fun account : Account => account.id.toNat) accounts
        have sorted := sortBy_sorted (fun account : Account => account.id.toNat) accounts
        obtain ⟨increasing, solvent, _⟩ :=
          accountsInvalid_false none sorted (by simp) (by simpa using valid)
        refine ⟨increasing, rfl, (perm.map _).sum_eq, (perm.map _).sum_eq, solvent, ?_⟩
        simp only [not_or, not_lt] at arguments
        exact ⟨arguments.2.1, arguments.2.2⟩

/-- The invariant holds in every market that batches reach from one that `create` builds. -/
theorem reached_sound {memory : Memory} {accounts : List Account} {referenceTick : Nat}
    {market : BatchMarket} (created : create memory accounts referenceTick = .ok market)
    (batches : List BatchCall) :
    MarketSound (market.accounts.map Account.id) (accounts.map cashOf).sum
      (accounts.map sharesOf).sum (marketMachine.run market batches) := by
  obtain ⟨increasing, initial⟩ := create_sound created
  have unique : (market.accounts.map Account.id).Nodup :=
    increasing.imp fun less => UInt32.ne_of_lt less
  exact marketMachine.run_invariant _ (fun state batch held =>
    (held.step unique (clear_effect batch.memory state batch.actions)).1) market initial batches

/-- Over every run of batches, accepted or rejected, from every market that `create` builds: the
account ids stay as they are, strictly increasing, the exact totals of cash and shares stay those
of the initial accounts, no cash is negative and the last traded tick is a tick; and the next
batch moves every account exactly by its fills. -/
theorem market_conserves {memory : Memory} {accounts : List Account} {referenceTick : Nat}
    {market : BatchMarket} (created : create memory accounts referenceTick = .ok market)
    (batches : List BatchCall) :
    let reached := marketMachine.run market batches
    reached.accounts.map Account.id = market.accounts.map Account.id ∧
      (reached.accounts.map Account.id).Pairwise (· < ·) ∧
      (reached.accounts.map cashOf).sum = (accounts.map cashOf).sum ∧
      (reached.accounts.map sharesOf).sum = (accounts.map sharesOf).sum ∧
      (∀ account ∈ reached.accounts, 0 ≤ account.cash.toInt) ∧
      (1 ≤ reached.lastTradedTick ∧ reached.lastTradedTick ≤ 99) ∧
      ∀ batch, AccountsExact reached (marketMachine.step reached batch).1
        (marketMachine.step reached batch).2 := by
  intro reached
  have increasing := (create_sound created).1
  have unique : (market.accounts.map Account.id).Nodup :=
    increasing.imp fun less => UInt32.ne_of_lt less
  have sound := reached_sound created batches
  exact ⟨sound.ids, sound.ids ▸ increasing, sound.cash, sound.shares, sound.solvent, sound.tick,
    fun batch => (sound.step unique (clear_effect batch.memory reached batch.actions)).2⟩

/-- One trade between two agents leaves their total cash as it was. -/
theorem market_conserves_one_trade :
    ((marketMachine.run ⟨[⟨0, 5000000, 0⟩, ⟨2, 0, 5⟩], 50⟩
      [⟨fun _ => true, [⟨0, ⟨.buyYes, 2, 60, by decide⟩⟩, ⟨2, ⟨.sellYes, 2, 55, by decide⟩⟩]⟩]
        ).accounts.map cashOf).sum = 5000000 := by
  have created : create (fun _ => true) [⟨2, 0, 5⟩, ⟨0, 5000000, 0⟩] 50 =
      .ok ⟨[⟨0, 5000000, 0⟩, ⟨2, 0, 5⟩], 50⟩ := by decide +kernel
  exact (market_conserves created _).2.2.1

end MarketForge
