import MarketForge.Market.Residual

/-!
# Fills by priority

The fills of a batch that trades: each side sums to the matched quantity, within the limits of its
orders, and goes to the eligible orders in the order of their priority, so that at most one order of
a side is filled in part. Every account with a fill pays or receives its price, no other account
moves.
-/
namespace MarketForge

open BatchMarket

/-! ### Allocation in order -/

/-- With nothing left to allocate, nothing is filled. -/
theorem allocate_nothing (eligible : Nat → Bool) {orders : List Order}
    (fresh : ∀ o ∈ orders, o.fill = 0) : ∀ o ∈ (allocate eligible orders 0).1, o.fill = 0 := by
  induction orders with
  | nil => exact fun _ member => nomatch member
  | cons order rest ih =>
    rw [allocate, if_pos (.inr rfl)]
    intro o member
    rcases List.mem_cons.mp member with rfl | later
    · exact fresh _ List.mem_cons_self
    · exact ih (fun other listed => fresh other (.tail _ listed)) o later

/-- After an eligible order that is not filled completely, nothing is filled. -/
theorem allocate_pairwise (eligible : Nat → Bool) {orders : List Order} (remaining : Nat)
    (fresh : ∀ o ∈ orders, o.fill = 0) :
    (allocate eligible orders remaining).1.Pairwise fun first second =>
      eligible first.limit = true → first.fill < first.quantity → second.fill = 0 := by
  induction orders generalizing remaining with
  | nil => exact List.Pairwise.nil
  | cons order rest ih =>
    have rested := fun o listed => fresh o (.tail _ listed)
    rw [allocate]
    split
    next passed =>
      refine List.Pairwise.cons (fun second later wanted _ => ?_) (ih remaining rested)
      -- an eligible order is passed over only when nothing is left
      obtain rfl := passed.resolve_left (not_not.mpr wanted)
      exact allocate_nothing eligible rested second later
    next taken =>
      refine List.Pairwise.cons (fun second later _ short => ?_) (ih _ rested)
      dsimp only at short
      have spent : remaining - min order.quantity remaining = 0 := by omega
      rw [spent] at later
      exact allocate_nothing eligible rested second later

/-- In a sorted list, what holds of each earlier and later element holds of elements with smaller
and larger keys. -/
theorem pairwise_of_key {α κ : Type} [LinearOrder κ] {key : α → κ} {related : α → α → Prop}
    {items : List α} (sorted : items.Pairwise fun first second => key first ≤ key second)
    (pairs : items.Pairwise related) {first second : α} (firstListed : first ∈ items)
    (secondListed : second ∈ items) (before : key first < key second) : related first second := by
  induction items with
  | nil => cases firstListed
  | cons item rest ih =>
    obtain ⟨least, laterSorted⟩ := List.pairwise_cons.mp sorted
    obtain ⟨related, laterPairs⟩ := List.pairwise_cons.mp pairs
    rcases List.mem_cons.mp firstListed with rfl | firstLater
    · rcases List.mem_cons.mp secondListed with rfl | secondLater
      · exact absurd before (lt_irrefl _)
      · exact related second secondLater
    · rcases List.mem_cons.mp secondListed with rfl | secondLater
      · exact absurd before (not_lt.mpr (least first firstLater))
      · exact ih laterSorted laterPairs firstLater secondLater

section

variable {accounts : List Account} {actions : List AgentAction} {tick matched : Nat}
  {kept : AgentAction → Bool} {eligible : Nat → Bool} {filled : List Order}

/-- The order of a submission on its filled side. -/
theorem FilledSide.order_terms
    (side : FilledSide eligible ((actions.filter kept).map (orderOf accounts)) filled matched)
    {submission : AgentAction} (member : submission ∈ actions) (chosen : kept submission = true) :
    ∃ o ∈ filled, o.terms = orderOf accounts submission := by
  have booked : orderOf accounts submission ∈ (actions.filter kept).map (orderOf accounts) :=
    List.mem_map_of_mem (List.mem_filter.mpr ⟨member, chosen⟩)
  exact List.mem_map.mp (side.terms.mem_iff.mpr booked)

/-- A submission behind one that is eligible and not filled completely receives nothing. -/
theorem priority_kept {κ : Type} [LinearOrder κ] {key : Order → κ}
    (ignores : ∀ (o : Order) fill, key { o with fill := fill } = key o)
    (allocated : allocate eligible (sortBy key ((actions.filter kept).map (orderOf accounts)))
      matched = (filled, 0))
    {reported : List Fill} (reports : ∀ o ∈ filled, fillOf reported o.agent = o.fill)
    {first second : AgentAction} (firstListed : first ∈ actions) (firstKept : kept first = true)
    (secondListed : second ∈ actions) (secondKept : kept second = true)
    (before : key (orderOf accounts first) < key (orderOf accounts second))
    (wanted : eligible first.action.priceTick = true)
    (short : fillOf reported first.agent < first.action.quantity) :
    fillOf reported second.agent = 0 := by
  have fresh := orders_fresh accounts kept actions
  have perm := sortBy_perm key ((actions.filter kept).map (orderOf accounts))
  have side := allocate_filled fresh allocated
  have unfilled : ∀ o ∈ sortBy key ((actions.filter kept).map (orderOf accounts)), o.fill = 0 :=
    fun o listed => fresh o (perm.mem_iff.mp listed)
  have pairs := allocate_pairwise eligible matched unfilled
  have keys := allocate_map eligible (sortBy key ((actions.filter kept).map (orderOf accounts)))
    matched key ignores
  rw [allocated] at pairs keys
  have sorted : filled.Pairwise fun earlier later => key earlier ≤ key later := by
    have whole := sortBy_sorted key ((actions.filter kept).map (orderOf accounts))
    rw [← List.pairwise_map (f := key), ← keys, List.pairwise_map] at whole
    exact whole
  obtain ⟨o, oListed, oTerms⟩ := side.order_terms firstListed firstKept
  obtain ⟨p, pListed, pTerms⟩ := side.order_terms secondListed secondKept
  have oKey : key o = key (orderOf accounts first) := (ignores o 0).symm.trans (congrArg key oTerms)
  have pKey : key p = key (orderOf accounts second) :=
    (ignores p 0).symm.trans (congrArg key pTerms)
  have oAgent : o.agent = first.agent := congrArg Order.agent oTerms
  have pAgent : p.agent = second.agent := congrArg Order.agent pTerms
  have oLimit : o.limit = first.action.priceTick := congrArg Order.limit oTerms
  have oQuantity : o.quantity = first.action.quantity := congrArg Order.quantity oTerms
  rw [← oAgent, reports o oListed, ← oQuantity] at short
  rw [← pAgent, reports p pListed]
  exact pairwise_of_key sorted pairs oListed pListed (by rw [oKey, pKey]; exact before)
    (by rw [oLimit]; exact wanted) short

end

/-! ### The fills of a batch -/

/-- The quantity filled on a side. -/
def filledQuantity (side : ActionKind) (fills : List Fill) : Nat :=
  ((fills.filter fun fill => decide (fill.side = side)).map Fill.quantity).sum

/-- A submission can be filled at a tick. -/
def Eligible (tick : Nat) (submission : AgentAction) : Prop :=
  (submission.action.kind = .buyYes ∧ tick ≤ submission.action.priceTick) ∨
    (submission.action.kind = .sellYes ∧ submission.action.priceTick ≤ tick)

/-- A better price for the other side, or the same price and a smaller agent id. -/
def BetterPriority (first second : AgentAction) : Prop :=
  (if first.action.kind = .buyYes then second.action.priceTick < first.action.priceTick
    else first.action.priceTick < second.action.priceTick) ∨
    (first.action.priceTick = second.action.priceTick ∧ first.agent < second.agent)

/-- The fill of a submission is part of it. -/
def PartlyFilled (fills : List Fill) (submission : AgentAction) : Prop :=
  0 < fillOf fills submission.agent ∧ fillOf fills submission.agent < submission.action.quantity

/-- What a batch that trades reports, and does to the accounts. -/
structure FilledByPriority (market : BatchMarket) (actions : List AgentAction)
    (result : BatchResult) (after : BatchMarket) : Prop where
  bought : filledQuantity .buyYes result.fills = result.matchedQuantity
  sold : filledQuantity .sellYes result.fills = result.matchedQuantity
  limits : ∀ fill ∈ result.fills, ∃ submission ∈ actions, submission.agent = fill.agent ∧
    submission.action.kind = fill.side ∧ Eligible result.clearingTick submission ∧
    1 ≤ fill.quantity ∧ fill.quantity ≤ submission.action.quantity
  priority : ∀ first ∈ actions, ∀ second ∈ actions, first.action.kind = second.action.kind →
    Eligible result.clearingTick first → BetterPriority first second →
    fillOf result.fills first.agent < first.action.quantity →
    fillOf result.fills second.agent = 0
  single : ∀ first ∈ actions, ∀ second ∈ actions, first.action.kind = second.action.kind →
    PartlyFilled result.fills first → PartlyFilled result.fills second → first = second
  increasing : (result.fills.map Fill.agent).Pairwise (· < ·)
  length : after.accounts.length = market.accounts.length
  charged : ∀ (i : Nat) before now, market.accounts[i]? = some before →
    after.accounts[i]? = some now → ∀ fill ∈ result.fills, fill.agent = before.id →
      Moved before now (-(fill.shares * (result.clearingTick * 10000))) fill.shares
  untouched : ∀ (i : Nat) before now, market.accounts[i]? = some before →
    after.accounts[i]? = some now → (∀ fill ∈ result.fills, fill.agent ≠ before.id) → now = before

theorem buy_priority_lt {accounts : List Account} {first second : AgentAction}
    (buys : first.action.kind = .buyYes) :
    buyPriority (orderOf accounts first) < buyPriority (orderOf accounts second) ↔
      BetterPriority first second := by
  rw [buyPriority, buyPriority, Prod.Lex.toLex_lt_toLex, BetterPriority, if_pos buys]
  simp only [orderOf, UInt32.lt_iff_toNat_lt]
  omega

theorem sell_priority_lt {accounts : List Account} {first second : AgentAction}
    (sells : first.action.kind = .sellYes) :
    sellPriority (orderOf accounts first) < sellPriority (orderOf accounts second) ↔
      BetterPriority first second := by
  rw [sellPriority, sellPriority, Prod.Lex.toLex_lt_toLex, BetterPriority, if_neg (by simp [sells])]
  simp only [orderOf, UInt32.lt_iff_toNat_lt]
  omega

/-- The reported fills of a side sum to what its orders were filled with. -/
theorem filled_quantity_of_orders (side : ActionKind) {orders : List Order} {reported : List Fill}
    (reports : reported.Perm ((orders.filter fun o => decide (o.fill ≠ 0)).map Order.toFill)) :
    filledQuantity side reported =
      ((orders.filter fun o => decide (o.side = side)).map Order.fill).sum := by
  rw [filledQuantity, ((reports.filter _).map Fill.quantity).sum_eq]
  clear reports
  induction orders with
  | nil => rfl
  | cons order rest ih =>
    by_cases here : order.side = side <;> by_cases filled : order.fill = 0 <;>
      simp_all [Order.toFill]

theorem TradedBooks.quantities {accounts : List Account} {tick matched : Nat}
    {buys sells : List Order} (books : TradedBooks accounts tick matched buys sells)
    {reported : List Fill}
    (reports : reported.Perm
      (((buys ++ sells).filter fun o => decide (o.fill ≠ 0)).map Order.toFill)) :
    filledQuantity .buyYes reported = matched ∧ filledQuantity .sellYes reported = matched := by
  rw [filled_quantity_of_orders .buyYes reports, filled_quantity_of_orders .sellYes reports,
    List.filter_append, List.filter_append]
  have bought : buys.filter (fun o => decide (o.side = .buyYes)) = buys :=
    List.filter_eq_self.mpr fun o listed => decide_eq_true (books.buySides o listed)
  have unsold : buys.filter (fun o => decide (o.side = .sellYes)) = [] :=
    List.filter_eq_nil_iff.mpr fun o listed => by simp [books.buySides o listed]
  have sold : sells.filter (fun o => decide (o.side = .sellYes)) = sells :=
    List.filter_eq_self.mpr fun o listed => decide_eq_true (books.sellSides o listed)
  have unbought : sells.filter (fun o => decide (o.side = .buyYes)) = [] :=
    List.filter_eq_nil_iff.mpr fun o listed => by simp [books.sellSides o listed]
  rw [bought, unsold, sold, unbought, List.append_nil, List.nil_append]
  exact ⟨books.bought, books.sold⟩

/-- Only one order of a side can be filled in part when the priorities of a side are total. -/
theorem single_of_priority {actions : List AgentAction} {tick : Nat} {fills : List Fill}
    (distinct : (actions.map AgentAction.agent).Nodup)
    (eligible : ∀ submission ∈ actions, 0 < fillOf fills submission.agent →
      Eligible tick submission)
    (priority : ∀ first ∈ actions, ∀ second ∈ actions, first.action.kind = second.action.kind →
      Eligible tick first → BetterPriority first second →
      fillOf fills first.agent < first.action.quantity → fillOf fills second.agent = 0) :
    ∀ first ∈ actions, ∀ second ∈ actions, first.action.kind = second.action.kind →
      PartlyFilled fills first → PartlyFilled fills second → first = second := by
  intro first firstListed second secondListed same firstPart secondPart
  by_contra different
  have agents : first.agent ≠ second.agent := fun equal =>
    different (List.inj_on_of_nodup_map distinct firstListed secondListed equal)
  have total : BetterPriority first second ∨ BetterPriority second first := by
    have apart : first.agent.toNat ≠ second.agent.toNat := fun equal =>
      agents (UInt32.toNat_inj.mp equal)
    rw [BetterPriority, BetterPriority, ← same]
    simp only [UInt32.lt_iff_toNat_lt]
    split <;> omega
  rcases total with before | after
  · have none := priority first firstListed second secondListed same
      (eligible first firstListed firstPart.1) before firstPart.2
    exact Nat.ne_of_gt secondPart.1 none
  · have none := priority second secondListed first firstListed same.symm
      (eligible second secondListed secondPart.1) after secondPart.2
    exact Nat.ne_of_gt firstPart.1 none

section

variable {accounts : List Account} {actions : List AgentAction} {tick matched : Nat}
  {filledBuys filledSells : List Order} {reported : List Fill}

/-- Every reported fill is part of an eligible submission. -/
theorem reported_limits
    (bought : FilledSide (buyEligible tick) (buysOf accounts actions) filledBuys matched)
    (sold : FilledSide (sellEligible tick) (sellsOf accounts actions) filledSells matched)
    (reports : reported.Perm
      (((filledBuys ++ filledSells).filter fun o => decide (o.fill ≠ 0)).map Order.toFill)) :
    ∀ fill ∈ reported, ∃ submission ∈ actions, submission.agent = fill.agent ∧
      submission.action.kind = fill.side ∧ Eligible tick submission ∧
      1 ≤ fill.quantity ∧ fill.quantity ≤ submission.action.quantity := by
  intro fill listed
  obtain ⟨o, chosen, rfl⟩ := List.mem_map.mp (reports.mem_iff.mp listed)
  obtain ⟨present, nonzero⟩ := List.mem_filter.mp chosen
  have filled : o.fill ≠ 0 := of_decide_eq_true nonzero
  rcases List.mem_append.mp present with buy | sell
  · obtain ⟨submission, submitted, kind, terms⟩ := bought.submission buy
    obtain ⟨within, open_order⟩ := bought.bounds o buy
    have limit : o.limit = submission.action.priceTick := congrArg Order.limit terms
    have quantity : o.quantity = submission.action.quantity := congrArg Order.quantity terms
    refine ⟨submission, submitted, (congrArg Order.agent terms).symm,
      (congrArg Order.side terms).symm, .inl ⟨of_decide_eq_true kind, ?_⟩,
      Nat.one_le_iff_ne_zero.mpr filled, quantity ▸ within⟩
    rw [← limit]
    exact of_decide_eq_true (open_order filled)
  · obtain ⟨submission, submitted, kind, terms⟩ := sold.submission sell
    obtain ⟨within, open_order⟩ := sold.bounds o sell
    have limit : o.limit = submission.action.priceTick := congrArg Order.limit terms
    have quantity : o.quantity = submission.action.quantity := congrArg Order.quantity terms
    refine ⟨submission, submitted, (congrArg Order.agent terms).symm,
      (congrArg Order.side terms).symm, .inr ⟨of_decide_eq_true kind, ?_⟩,
      Nat.one_le_iff_ne_zero.mpr filled, quantity ▸ within⟩
    rw [← limit]
    exact of_decide_eq_true (open_order filled)

/-- On both sides, what is behind an eligible order that is not filled completely gets nothing. -/
theorem side_priorities
    (bought : allocate (buyEligible tick) (sortBy buyPriority (buysOf accounts actions)) matched =
      (filledBuys, 0))
    (sold : allocate (sellEligible tick) (sortBy sellPriority (sellsOf accounts actions)) matched =
      (filledSells, 0))
    (exactly : ∀ o ∈ filledBuys ++ filledSells, fillOf reported o.agent = o.fill) :
    ∀ first ∈ actions, ∀ second ∈ actions, first.action.kind = second.action.kind →
      Eligible tick first → BetterPriority first second →
      fillOf reported first.agent < first.action.quantity → fillOf reported second.agent = 0 := by
  intro first firstListed second secondListed same eligible before short
  rcases eligible with ⟨buys, wanted⟩ | ⟨sells, wanted⟩
  · refine priority_kept (fun _ _ => rfl) bought
      (fun o listed => exactly o (List.mem_append_left _ listed)) firstListed
      (decide_eq_true buys) secondListed (decide_eq_true (same.symm.trans buys)) ?_
      (decide_eq_true wanted) short
    exact (buy_priority_lt buys).mpr before
  · refine priority_kept (fun _ _ => rfl) sold
      (fun o listed => exactly o (List.mem_append_right _ listed)) firstListed
      (decide_eq_true sells) secondListed (decide_eq_true (same.symm.trans sells)) ?_
      (decide_eq_true wanted) short
    exact (sell_priority_lt sells).mpr before

end

theorem fill_of_positive {reported : List Fill} {agent : AgentId}
    (filled : 0 < fillOf reported agent) : ∃ fill ∈ reported, fill.agent = agent := by
  rw [fillOf] at filled
  cases found : Keyed.find Fill.agent reported agent with
  | none =>
    rw [found] at filled
    cases filled
  | some fill => exact ⟨fill, Keyed.find_mem found, Keyed.find_key found⟩

/-- The fills of a batch that trades. -/
theorem clear_filled {market after : BatchMarket} {actions : List AgentAction}
    {result : BatchResult} (unique : (market.accounts.map Account.id).Nodup)
    (effect : ClearEffect market actions (.ok result) after) (traded : result.traded = true) :
    FilledByPriority market actions result after := by
  cases effect with
  | untraded => cases traded
  | @traded best filledBuys filledSells updated fills admitted search matched bought sold apply =>
    obtain ⟨_, best_tick⟩ := scan_bestTick search
    have bounded := (Finset.mem_Icc.mp best_tick.1).2
    obtain ⟨books, applied⟩ := ClearEffect.books admitted bounded bought sold apply
    have buySide := allocate_filled (orders_fresh _ _ _) bought
    have sellSide := allocate_filled (orders_fresh _ _ _) sold
    -- the report is the fills in the order of their agents; which sort made it does not matter
    have sorted := sortBy_sorted (fun fill : Fill => fill.agent.toNat) fills
    have perm := sortBy_perm (fun fill : Fill => fill.agent.toNat) fills
    generalize sortBy (fun fill : Fill => fill.agent.toNat) fills = reported at sorted perm
    have exact_accounts : AccountsExact ⟨market.accounts, market.lastTradedTick⟩ _ _ :=
      books.accountsExact unique applied perm
    have reports : reported.Perm
        (((filledBuys ++ filledSells).filter fun o => decide (o.fill ≠ 0)).map Order.toFill) := by
      rw [applied.fills] at perm
      exact perm
    -- an agent has one order, so what is reported of it is the fill of that order
    have exactly : ∀ o ∈ filledBuys ++ filledSells, fillOf reported o.agent = o.fill :=
      fun o listed => fillOf_order books.agents reports listed
    have distinct : (reported.map Fill.agent).Nodup := by
      rw [(reports.map Fill.agent).nodup_iff, List.map_map]
      exact (List.filter_sublist.map _).nodup books.agents
    obtain ⟨buyTotal, sellTotal⟩ := books.quantities reports
    have limits := reported_limits buySide sellSide reports
    have priority := side_priorities bought sold exactly
    have eligible : ∀ submission ∈ actions, 0 < fillOf reported submission.agent →
        Eligible best.tick submission := by
      intro submission submitted filled
      -- the agent of a fill has one submission in the batch
      obtain ⟨fill, listed, owner⟩ := fill_of_positive filled
      obtain ⟨other, present, agent, _, wanted, _⟩ := limits fill listed
      obtain rfl := List.inj_on_of_nodup_map admitted.distinct present submitted
        (agent.trans owner)
      exact wanted
    constructor
    case bought => exact buyTotal
    case sold => exact sellTotal
    case limits => exact limits
    case priority => exact priority
    case single => exact single_of_priority admitted.distinct eligible priority
    case increasing =>
      rw [List.Nodup, List.pairwise_map] at distinct
      rw [List.pairwise_map]
      refine (sorted.and distinct).imp fun {first second} pair => ?_
      obtain ⟨order, apart⟩ := pair
      rw [UInt32.lt_iff_toNat_lt]
      exact lt_of_le_of_ne order fun same => apart (UInt32.toNat_inj.mp same)
    case length => simpa using congrArg List.length applied.ids
    case charged =>
      intro i before now read write fill listed owner
      have moved := exact_accounts i before now read write
      rw [← owner] at moved
      rwa [reportedFills, reportedTick, netShares_of_mem distinct listed] at moved
    case untouched =>
      intro i before now read write silent
      -- an account that moves has an order with a fill, which the report would show
      rcases books.account_moved applied read write with ⟨o, listed, filled, owner, _⟩ | ⟨same, _⟩
      · have reportedFill : o.toFill ∈ reported := reports.mem_iff.mpr
          (List.mem_map_of_mem (List.mem_filter.mpr ⟨listed, by simpa using filled⟩))
        exact absurd owner (silent o.toFill reportedFill)
      · exact same

/-- In every market that a run of batches reaches, a batch that trades is filled by priority and
settled account by account. -/
theorem fills_by_priority {memory : Memory} {accounts : List Account} {referenceTick : Nat}
    {market : BatchMarket} (created : create memory accounts referenceTick = .ok market)
    (batches : List BatchCall) (batch : BatchCall) {result : BatchResult} {after : BatchMarket}
    (accepted : marketMachine.step (marketMachine.run market batches) batch = (.ok result, after))
    (traded : result.traded = true) :
    FilledByPriority (marketMachine.run market batches) batch.actions result after := by
  have increasing := (create_sound created).1
  have sound := reached_sound created batches
  have unique : ((marketMachine.run market batches).accounts.map Account.id).Nodup := by
    rw [sound.ids]
    exact increasing.imp fun less => UInt32.ne_of_lt less
  have effect := clear_effect batch.memory (marketMachine.run market batches) batch.actions
  change ClearEffect _ _ (marketMachine.step _ batch).1 (marketMachine.step _ batch).2 at effect
  rw [accepted] at effect
  exact clear_filled unique effect traded

/-- The buy at 70 comes before the two at 60, of which the smaller agent is filled in part. -/
theorem fills_by_priority_three :
    let market : BatchMarket :=
      ⟨[⟨0, 5000000, 0⟩, ⟨1, 5000000, 0⟩, ⟨2, 5000000, 0⟩, ⟨3, 0, 5⟩], 60⟩
    let actions : List AgentAction := [⟨2, ⟨.buyYes, 2, 60, by decide⟩⟩,
      ⟨1, ⟨.buyYes, 2, 60, by decide⟩⟩, ⟨0, ⟨.buyYes, 2, 70, by decide⟩⟩,
      ⟨3, ⟨.sellYes, 3, 60, by decide⟩⟩]
    FilledByPriority market actions
      ⟨true, 60, 3, [⟨0, .buyYes, 2⟩, ⟨1, .buyYes, 1⟩, ⟨3, .sellYes, 3⟩]⟩
      ⟨[⟨0, 3800000, 2⟩, ⟨1, 4400000, 1⟩, ⟨2, 5000000, 0⟩, ⟨3, 1800000, 2⟩], 60⟩ := by
  intro market actions
  have created : create (fun _ => true) market.accounts 60 = .ok market := by decide +kernel
  exact fills_by_priority created [] ⟨fun _ => true, actions⟩ (by decide +kernel) rfl

end MarketForge
