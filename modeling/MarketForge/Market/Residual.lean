import Mathlib.Algebra.Order.BigOperators.Group.List
import MarketForge.Market.Conservation

/-!
# The residual book

An order that is left with something unfilled has a limit at which more was asked for than was
matched: its own side was filled by priority and ran out before it, or it was not eligible and
comes on top of what was. Two such orders whose limits cross would match more at the limit of the
sell than the best tick does.
-/
namespace MarketForge

open BatchMarket

/-- The quantity reported for an agent; nothing without a fill. -/
def fillOf (fills : List Fill) (agent : AgentId) : Nat :=
  ((Keyed.find Fill.agent fills agent).map Fill.quantity).getD 0

/-! ### Allocation by priority -/

/-- What is allocated does not cover the eligible orders up to one that stays unfilled. -/
theorem allocate_unfilled {κ : Type} [LinearOrder κ] {eligible : Nat → Bool} {key : Order → κ}
    (ignores : ∀ (o : Order) fill, key { o with fill := fill } = key o) {orders : List Order}
    (sorted : orders.Pairwise fun first second => key first ≤ key second)
    (fresh : ∀ o ∈ orders, o.fill = 0) {remaining : Nat} {o : Order}
    (member : o ∈ (allocate eligible orders remaining).1) (open_order : eligible o.limit = true)
    (unfilled : o.fill < o.quantity) :
    remaining < ((orders.filter fun other =>
      eligible other.limit && decide (key other ≤ key o)).map Order.quantity).sum := by
  induction orders generalizing remaining with
  | nil => cases member
  | cons order rest ih =>
    obtain ⟨first, later⟩ := List.pairwise_cons.mp sorted
    have rested := fun o' listed => fresh o' (.tail _ listed)
    rw [allocate] at member
    split at member
    next passed =>
      rcases List.mem_cons.mp member with rfl | listed
      · -- an eligible order is passed over only when nothing is left
        have spent : remaining = 0 := passed.resolve_left (not_not.mpr open_order)
        rw [List.filter_cons_of_pos (by simp [open_order]), List.map_cons, List.sum_cons]
        omega
      · have short := ih later rested listed
        rw [List.filter_cons]
        split
        · rw [List.map_cons, List.sum_cons]
          omega
        · exact short
    next taken =>
      rw [not_or, not_not] at taken
      rcases List.mem_cons.mp member with rfl | listed
      · have whole : remaining < order.quantity := by
          dsimp only at unfilled
          omega
        have same := ignores order (min order.quantity remaining)
        rw [List.filter_cons_of_pos (by simp [taken.1, same]), List.map_cons, List.sum_cons]
        omega
      · have short := ih later rested listed
        -- the order comes first, so it counts
        have earlier : key order ≤ key o := by
          have keys := allocate_map eligible rest (remaining - min order.quantity remaining) key
            ignores
          obtain ⟨other, present, same⟩ := List.mem_map.mp (keys ▸ List.mem_map_of_mem listed)
          exact same ▸ first other present
        rw [List.filter_cons_of_pos (by simp [taken.1, earlier]), List.map_cons, List.sum_cons]
        omega

/-! ### What an unfilled order says about its limit -/

/-- A book asks for no less when more of it counts, and for more when an order comes on top. -/
theorem quantities_le {few many : Order → Bool} (wider : ∀ o, few o = true → many o = true)
    (orders : List Order) :
    ((orders.filter few).map Order.quantity).sum ≤
      ((orders.filter many).map Order.quantity).sum := by
  induction orders with
  | nil => exact Nat.le_refl _
  | cons order rest ih =>
    by_cases counts : few order = true
    · rw [List.filter_cons_of_pos counts, List.filter_cons_of_pos (wider order counts)]
      simpa using ih
    · rw [List.filter_cons_of_neg counts, List.filter_cons]
      split
      · rw [List.map_cons, List.sum_cons]
        omega
      · exact ih

theorem quantities_lt {few many : Order → Bool} (wider : ∀ o, few o = true → many o = true)
    {orders : List Order} {o : Order} (member : o ∈ orders) (left_out : few o = false)
    (counts : many o = true) (asks : 0 < o.quantity) :
    ((orders.filter few).map Order.quantity).sum <
      ((orders.filter many).map Order.quantity).sum := by
  induction orders with
  | nil => cases member
  | cons order rest ih =>
    have others := quantities_le wider rest
    rcases List.mem_cons.mp member with rfl | listed
    · rw [List.filter_cons_of_neg (by simp [left_out]), List.filter_cons_of_pos counts,
        List.map_cons, List.sum_cons]
      omega
    · have more := ih listed
      by_cases both : few order = true
      · rw [List.filter_cons_of_pos both, List.filter_cons_of_pos (wider order both)]
        simpa using more
      · rw [List.filter_cons_of_neg both, List.filter_cons]
        split
        · rw [List.map_cons, List.sum_cons]
          omega
        · exact more

section

variable {accounts : List Account} {actions : List AgentAction} {tick matched : Nat}

/-- An order not filled to its quantity has a limit at which more is asked for than is matched. The
limits that count there are those `acceptable` relates to its own. -/
theorem unfilled_asks_more {κ : Type} [LinearOrder κ] {key : Order → κ} {eligible : Nat → Bool}
    {acceptable : Nat → Nat → Bool} {book filled : List Order}
    (ignores : ∀ (o : Order) fill, key { o with fill := fill } = key o)
    (fresh : ∀ o ∈ book, o.fill = 0)
    (allocated : allocate eligible (sortBy key book) matched = (filled, 0))
    (covered : matched ≤ ((book.filter fun o => eligible o.limit).map Order.quantity).sum)
    (prior : ∀ o other : Order, key other ≤ key o → acceptable o.limit other.limit = true)
    (looser : ∀ limit other, eligible limit = false → eligible other = true →
      acceptable limit other = true)
    {o : Order} (member : o ∈ filled) (unfilled : o.fill < o.quantity) :
    matched <
      ((book.filter fun other => acceptable o.limit other.limit).map Order.quantity).sum := by
  have perm := sortBy_perm key book
  by_cases open_order : eligible o.limit = true
  · -- The orders before it in priority take all that is matched, and they are acceptable to it.
    have listed : o ∈ (allocate eligible (sortBy key book) matched).1 := by
      rw [allocated]
      exact member
    have short := allocate_unfilled ignores (sortBy_sorted key book)
      (fun o present => fresh o (perm.mem_iff.mp present)) listed open_order unfilled
    rw [((perm.filter _).map Order.quantity).sum_eq] at short
    refine short.trans_le (quantities_le (fun other counts => ?_) book)
    rw [Bool.and_eq_true, decide_eq_true_eq] at counts
    exact prior o other counts.2
  · -- It comes on top of the eligible orders, which cover what is matched.
    have closed : eligible o.limit = false := Bool.eq_false_iff.mpr open_order
    have terms := (allocate_filled fresh allocated).terms
    have submitted : o.terms ∈ book := terms.mem_iff.mp (List.mem_map_of_mem member)
    refine covered.trans_lt (quantities_lt (fun other counts => ?_) submitted closed ?_ ?_)
    · exact looser o.limit other.limit closed counts
    · exact prior o o.terms (ignores o 0).le
    · exact Nat.zero_lt_of_lt unfilled

theorem unfilled_buy {filled : List Order}
    (allocated : allocate (buyEligible tick) (sortBy buyPriority
      (buysOf accounts actions)) matched =
      (filled, 0))
    (covered : matched ≤ demand actions tick) {o : Order} (member : o ∈ filled)
    (unfilled : o.fill < o.quantity) : matched < demand actions o.limit := by
  rw [demand_eq accounts] at covered ⊢
  refine unfilled_asks_more (fun _ _ => rfl) (orders_fresh _ _ _) allocated covered ?_ ?_ member
    unfilled
  · intro o other before
    rw [buyPriority, buyPriority, Prod.Lex.toLex_le_toLex] at before
    simp only [buyEligible, decide_eq_true_eq]
    omega
  · intro limit other closed counts
    simp only [buyEligible, decide_eq_true_eq, decide_eq_false_iff_not] at closed counts ⊢
    omega

theorem unfilled_sell {filled : List Order}
    (allocated : allocate (sellEligible tick) (sortBy sellPriority (sellsOf accounts actions))
      matched = (filled, 0))
    (covered : matched ≤ supply actions tick) {o : Order} (member : o ∈ filled)
    (unfilled : o.fill < o.quantity) : matched < supply actions o.limit := by
  rw [supply_eq accounts] at covered ⊢
  refine unfilled_asks_more (fun _ _ => rfl) (orders_fresh _ _ _) allocated covered ?_ ?_ member
    unfilled
  · intro o other before
    rw [sellPriority, sellPriority, Prod.Lex.toLex_le_toLex] at before
    simp only [sellEligible, decide_eq_true_eq]
    omega
  · intro limit other closed counts
    simp only [sellEligible, decide_eq_true_eq, decide_eq_false_iff_not] at closed counts ⊢
    omega

end

/-! ### The reported fills -/

/-- The quantity of a submission that a batch leaves unfilled. -/
def unfilledQuantity (result : BatchResult) (submission : AgentAction) : Nat :=
  submission.action.quantity - fillOf result.fills submission.agent

/-- The fill reported for the agent of an order is that of the order. -/
theorem fillOf_order {orders : List Order} (agents : (orders.map Order.agent).Nodup)
    {reported : List Fill}
    (reports : reported.Perm ((orders.filter fun o => decide (o.fill ≠ 0)).map Order.toFill))
    {o : Order} (member : o ∈ orders) : fillOf reported o.agent = o.fill := by
  have unique : (reported.map Fill.agent).Nodup := by
    rw [(reports.map Fill.agent).nodup_iff, List.map_map]
    exact (List.filter_sublist.map _).nodup agents
  by_cases filled : o.fill = 0
  · -- Another order would report a fill of this agent.
    have silent : Keyed.find Fill.agent reported o.agent = none := by
      refine Keyed.find_eq_none_iff.mpr fun fill listed same => ?_
      obtain ⟨other, chosen, rfl⟩ := List.mem_map.mp (reports.mem_iff.mp listed)
      obtain ⟨present, nonzero⟩ := List.mem_filter.mp chosen
      have one : other = o := List.inj_on_of_nodup_map agents present member same
      exact of_decide_eq_true nonzero (one ▸ filled)
    rw [fillOf, silent, filled]
    rfl
  · have listed : o.toFill ∈ reported :=
      reports.mem_iff.mpr
        (List.mem_map_of_mem (List.mem_filter.mpr ⟨member, by simpa using filled⟩))
    have found : Keyed.find Fill.agent reported o.agent = some o.toFill :=
      Keyed.find_of_mem unique listed rfl
    rw [fillOf, found]
    rfl

/-- A submission of the batch has an order on its filled side. -/
theorem FilledSide.order_of {accounts : List Account} {actions : List AgentAction}
    {eligible : Nat → Bool} {matched : Nat} {filled : List Order} {kept : AgentAction → Bool}
    (side : FilledSide eligible ((actions.filter kept).map (orderOf accounts)) filled matched)
    {submission : AgentAction} (member : submission ∈ actions) (chosen : kept submission = true) :
    ∃ o ∈ filled, o.agent = submission.agent ∧ o.quantity = submission.action.quantity ∧
      o.limit = submission.action.priceTick := by
  have booked : orderOf accounts submission ∈ (actions.filter kept).map (orderOf accounts) :=
    List.mem_map_of_mem (List.mem_filter.mpr ⟨member, chosen⟩)
  obtain ⟨o, listed, same⟩ := List.mem_map.mp (side.terms.mem_iff.mpr booked)
  exact ⟨o, listed, congrArg Order.agent same, congrArg Order.quantity same,
    congrArg Order.limit same⟩

/-! ### No crossing is left -/

/-- No buy and sell with something unfilled have limits that cross. -/
def Uncrossed (actions : List AgentAction) (result : BatchResult) : Prop :=
  ∀ buy ∈ actions, ∀ sell ∈ actions, buy.action.kind = .buyYes → sell.action.kind = .sellYes →
    0 < unfilledQuantity result buy → 0 < unfilledQuantity result sell →
      buy.action.priceTick < sell.action.priceTick

theorem demand_antitone (actions : List AgentAction) {tick other : Nat} (below : tick ≤ other) :
    demand actions other ≤ demand actions tick := by
  rw [demand_eq [], demand_eq []]
  refine quantities_le (fun o counts => ?_) _
  simp only [buyEligible, decide_eq_true_eq] at counts ⊢
  omega

/-- At the limit of a sell more than the best tick matches cannot be asked for on both sides. -/
theorem best_limits {actions : List AgentAction} {lastTradedTick tick : Nat}
    (best : BestTick actions lastTradedTick tick) {limit : Nat} (proper : 1 ≤ limit ∧ limit ≤ 99) :
    ¬ (matchedAt actions tick < demand actions limit ∧
      matchedAt actions tick < supply actions limit) := by
  rintro ⟨wanted, offered⟩
  have greatest := Finset.le_sup (f := matchedAt actions) (Finset.mem_Icc.mpr proper)
  rw [← bestTick_matched best] at greatest
  have less : matchedAt actions tick < matchedAt actions limit := lt_min wanted offered
  omega

theorem clear_uncrossed {market after : BatchMarket} {actions : List AgentAction}
    {result : BatchResult} (effect : ClearEffect market actions (.ok result) after) :
    Uncrossed actions result := by
  intro buy bought_from sell sold_to buys sells buyLeft sellLeft
  by_contra crossing
  rw [not_lt] at crossing
  cases effect with
  | @untraded best admitted search unmatched =>
    -- The limits cross, so something could be traded.
    obtain ⟨candidate, best_tick⟩ := scan_bestTick search
    obtain ⟨tick, inRange, matched⟩ := (crossing_iff actions).mp
      ⟨buy, bought_from, sell, sold_to, buys, sells, crossing⟩
    have greatest := Finset.le_sup (f := matchedAt actions) inRange
    rw [← bestTick_matched best_tick] at greatest
    rw [candidate] at unmatched
    exact matched (Nat.le_zero.mp (unmatched ▸ greatest))
  | @traded best filledBuys filledSells updated fills admitted search matched bought sold apply =>
    obtain ⟨candidate, best_tick⟩ := scan_bestTick search
    have quantity : best.matchedQuantity = matchedAt actions best.tick :=
      congrArg ClearingCandidate.matchedQuantity candidate
    have bounded := (Finset.mem_Icc.mp best_tick.1).2
    obtain ⟨books, applied⟩ := ClearEffect.books admitted bounded bought sold apply
    have reports : (sortBy (fun fill : Fill => fill.agent.toNat) fills).Perm
        (((filledBuys ++ filledSells).filter fun o => decide (o.fill ≠ 0)).map Order.toFill) := by
      rw [applied.fills]
      exact sortBy_perm _ _
    obtain ⟨b, b_listed, b_agent, b_quantity, b_limit⟩ :=
      (allocate_filled (orders_fresh _ _ _) bought).order_of bought_from
        (by simp [AgentAction.isBuy, buys])
    obtain ⟨s, s_listed, s_agent, s_quantity, s_limit⟩ :=
      (allocate_filled (orders_fresh _ _ _) sold).order_of sold_to
        (by simp [AgentAction.isSell, sells])
    have b_fill := fillOf_order books.agents reports (List.mem_append_left _ b_listed)
    have s_fill := fillOf_order books.agents reports (List.mem_append_right _ s_listed)
    rw [unfilledQuantity, ← b_agent, b_fill, ← b_quantity] at buyLeft
    rw [unfilledQuantity, ← s_agent, s_fill, ← s_quantity] at sellLeft
    have wanted := unfilled_buy bought (quantity ▸ Nat.min_le_left _ _) b_listed (by omega)
    have offered := unfilled_sell sold (quantity ▸ Nat.min_le_right _ _) s_listed (by omega)
    -- At the limit of the sell the buy is acceptable too.
    have limits := (sell.action.bounds (by simp [sells])).2
    rw [quantity, b_limit] at wanted
    rw [quantity, s_limit] at offered
    exact best_limits best_tick limits
      ⟨wanted.trans_le (demand_antitone actions crossing), offered⟩

/-- An accepted batch leaves no crossed residual book, in whatever state the market is. -/
theorem no_crossed_residual {memory : Memory} {market after : BatchMarket}
    {actions : List AgentAction} {result : BatchResult}
    (accepted : clear memory market actions = (.ok result, after)) : Uncrossed actions result := by
  have effect := clear_effect memory market actions
  rw [accepted] at effect
  exact clear_uncrossed effect

/-- One of two shares asked at 55 is sold; the buy at 50 stays below what is left. -/
theorem no_crossed_residual_partly_filled :
    Uncrossed [⟨0, ⟨.buyYes, 1, 60, by decide⟩⟩, ⟨1, ⟨.buyYes, 1, 50, by decide⟩⟩,
        ⟨2, ⟨.sellYes, 2, 55, by decide⟩⟩]
      ⟨true, 55, 1, [⟨0, .buyYes, 1⟩, ⟨2, .sellYes, 1⟩]⟩ :=
  no_crossed_residual (show clear (fun _ => true)
    ⟨[⟨0, 5000000, 0⟩, ⟨1, 5000000, 0⟩, ⟨2, 0, 5⟩], 50⟩ _ =
      (_, ⟨[⟨0, 4450000, 1⟩, ⟨1, 5000000, 0⟩, ⟨2, 550000, 4⟩], 55⟩) by decide +kernel)

end MarketForge
