import Mathlib.Algebra.BigOperators.Ring.Finset
import MarketForge.Library.PriceSupport
import MarketForge.Market.PriorityFills

/-!
# The gains from trade of a batch

The limits of the orders read as the values of their agents: a trade moves shares from agents that
value them less to agents that value them more. An accepted batch executes the trade with the
largest gains among all that its orders allow, at one price or at many, and among those with these
gains one that moves the most shares. No two agents can improve by an exchange between them, so
some price supports the fills; it need not be the clearing tick.
-/
namespace MarketForge

open BatchMarket PriceSupport

/-! ### Trades -/

/-- The quantity that a trade gives to the buys of a batch. -/
def boughtBy (actions : List AgentAction) (quantity : AgentId → Nat) : Nat :=
  ((actions.filter AgentAction.isBuy).map fun s => quantity s.agent).sum

/-- The quantity that a trade takes from the sells of a batch. -/
def soldBy (actions : List AgentAction) (quantity : AgentId → Nat) : Nat :=
  ((actions.filter AgentAction.isSell).map fun s => quantity s.agent).sum

/-- A quantity for every agent, within its order, with as much bought as sold. -/
structure Trade (actions : List AgentAction) (quantity : AgentId → Nat) : Prop where
  within : ∀ s ∈ actions, quantity s.agent ≤ s.action.quantity
  balanced : boughtBy actions quantity = soldBy actions quantity

/-- What the buyers would pay for the trade less what the sellers ask for it, in ticks. -/
def gainsFromTrade (actions : List AgentAction) (quantity : AgentId → Nat) : ℤ :=
  ((actions.filter AgentAction.isBuy).map fun s => (s.action.priceTick : ℤ) *
    quantity s.agent).sum -
    ((actions.filter AgentAction.isSell).map fun s =>
      (s.action.priceTick : ℤ) * quantity s.agent).sum

def sideOf : ActionKind → Side
  | .hold => .abstains
  | .buyYes => .buys
  | .sellYes => .sells

/-- The exchange between the submissions of a batch. -/
def exchangeOf (actions : List AgentAction) : Exchange AgentAction ℤ where
  members := actions
  side s := sideOf s.action.kind
  value s := s.action.priceTick
  bound s := s.action.quantity

/-- The allocation of a trade to the submissions. -/
def allocationOf (quantity : AgentId → Nat) (s : AgentAction) : ℤ := quantity s.agent

theorem sideOf_buys {kind : ActionKind} : sideOf kind = .buys ↔ kind = .buyYes := by
  cases kind <;> simp [sideOf]

theorem sideOf_sells {kind : ActionKind} : sideOf kind = .sells ↔ kind = .sellYes := by
  cases kind <;> simp [sideOf]

/-- A signed sum over a batch is that over its buys less that over its sells. -/
theorem sum_signed (f : AgentAction → ℤ) (actions : List AgentAction) :
    (actions.map fun s => (sideOf s.action.kind).sign * f s).sum =
      ((actions.filter AgentAction.isBuy).map f).sum -
        ((actions.filter AgentAction.isSell).map f).sum := by
  induction actions with
  | nil => rfl
  | cons s rest ih =>
    rw [List.map_cons, List.sum_cons, ih, List.filter_cons, List.filter_cons]
    cases kind : s.action.kind with
    | hold => simp [sideOf, Side.sign, AgentAction.isBuy, AgentAction.isSell, kind]
    | buyYes =>
      simp [sideOf, Side.sign, AgentAction.isBuy, AgentAction.isSell, kind]
      ring
    | sellYes =>
      simp [sideOf, Side.sign, AgentAction.isBuy, AgentAction.isSell, kind]
      ring

theorem gains_exchange (actions : List AgentAction) (quantity : AgentId → Nat) :
    (exchangeOf actions).gains (allocationOf quantity) = gainsFromTrade actions quantity := by
  have signed := sum_signed (fun s => (s.action.priceTick : ℤ) * quantity s.agent) actions
  rw [gainsFromTrade, ← signed]
  simp only [Exchange.gains, exchangeOf, allocationOf, mul_assoc]

theorem net_exchange (actions : List AgentAction) (quantity : AgentId → Nat) :
    (exchangeOf actions).net (allocationOf quantity) =
      (boughtBy actions quantity : ℤ) - soldBy actions quantity := by
  have signed := sum_signed (fun s => (quantity s.agent : ℤ)) actions
  rw [boughtBy, soldBy, Nat.cast_list_sum, Nat.cast_list_sum, List.map_map, List.map_map]
  exact signed

theorem Trade.feasible {actions : List AgentAction} {quantity : AgentId → Nat}
    (trade : Trade actions quantity) :
    (exchangeOf actions).Feasible (allocationOf quantity) where
  nonneg _ _ := Int.natCast_nonneg _
  within s member := Int.ofNat_le.mpr (trade.within s member)
  balanced := by rw [net_exchange, trade.balanced, sub_self]

/-! ### What a price allows -/

/-- A sum of smaller terms, all but the kept ones zero. -/
theorem sum_le_kept {α : Type} {f g : α → Nat} {keep : α → Bool} {items : List α}
    (below : ∀ a ∈ items, f a ≤ g a) (kept : ∀ a ∈ items, f a ≠ 0 → keep a = true) :
    (items.map f).sum ≤ ((items.filter keep).map g).sum := by
  induction items with
  | nil => exact Nat.le_refl 0
  | cons a rest ih =>
    have first := below a List.mem_cons_self
    have others := ih (fun b later => below b (.tail _ later)) fun b later => kept b (.tail _ later)
    rw [List.map_cons, List.sum_cons, List.filter_cons]
    by_cases keeps : keep a = true
    · rw [if_pos keeps, List.map_cons, List.sum_cons]
      omega
    · have zero : f a = 0 := by
        by_contra some
        exact keeps (kept a List.mem_cons_self some)
      rw [if_neg keeps, zero, Nat.zero_add]
      exact others

section

variable {actions : List AgentAction} {quantity : AgentId → Nat} {price : ℤ}

/-- Who trades at a price that supports the trade does not lose by it. -/
theorem supported_limits (supports : (exchangeOf actions).Supports price (allocationOf quantity))
    {s : AgentAction} (member : s ∈ actions) (trades : quantity s.agent ≠ 0) :
    (s.action.kind = .buyYes → price ≤ s.action.priceTick) ∧
      (s.action.kind = .sellYes → s.action.priceTick ≤ price) := by
  have some : allocationOf quantity s ≠ 0 := Int.natCast_ne_zero.mpr trades
  -- a supporting price leaves no quantity with a loser
  have earns : 0 ≤ (exchangeOf actions).margin price s := by
    by_contra loses
    exact some (supports.empty s member (not_le.mp loses))
  constructor
  · intro buys
    simp only [Exchange.margin, exchangeOf, buys, sideOf, Side.sign] at earns
    omega
  · intro sells
    simp only [Exchange.margin, exchangeOf, sells, sideOf, Side.sign] at earns
    omega

/-- The tick at a price, within the ticks of the market. -/
def tickAt (price : ℤ) : Nat := (max 1 (min 99 price)).toNat

/-- At a price that supports a trade, no more moves than is asked for and offered there. -/
theorem Trade.le_matched (trade : Trade actions quantity)
    (supports : (exchangeOf actions).Supports price (allocationOf quantity)) :
    boughtBy actions quantity ≤ matchedAt actions (tickAt price) := by
  -- every buyer's limit reaches the price, so its quantity is in the demand there
  have asked : boughtBy actions quantity ≤ demand actions (tickAt price) := by
    rw [boughtBy, demand, ← List.filter_filter, List.filter_comm]
    refine sum_le_kept (fun s listed => trade.within s (List.mem_filter.mp listed).1)
      fun s listed some => ?_
    obtain ⟨member, buys⟩ := List.mem_filter.mp listed
    have kind : s.action.kind = .buyYes := of_decide_eq_true buys
    have limit := (supported_limits supports member some).1 kind
    have bounds := (s.action.bounds (by simp [kind])).2
    rw [decide_eq_true_eq, tickAt]
    omega
  have offered : soldBy actions quantity ≤ supply actions (tickAt price) := by
    rw [soldBy, supply, ← List.filter_filter, List.filter_comm]
    refine sum_le_kept (fun s listed => trade.within s (List.mem_filter.mp listed).1)
      fun s listed some => ?_
    obtain ⟨member, sells⟩ := List.mem_filter.mp listed
    have kind : s.action.kind = .sellYes := of_decide_eq_true sells
    have limit := (supported_limits supports member some).2 kind
    have bounds := (s.action.bounds (by simp [kind])).2
    rw [decide_eq_true_eq, tickAt]
    omega
  exact le_min asked (trade.balanced ▸ offered)

end

/-! ### The fills of a batch -/

/-- The fills that a batch reports for the submissions of a side sum to what that side trades. -/
theorem FilledSide.reported_sum {accounts : List Account} {actions : List AgentAction}
    {eligible : Nat → Bool} {kept : AgentAction → Bool} {filled : List Order} {matched : Nat}
    (side : FilledSide eligible ((actions.filter kept).map (orderOf accounts)) filled matched)
    {reported : List Fill} (exactly : ∀ o ∈ filled, fillOf reported o.agent = o.fill) :
    ((actions.filter kept).map fun s => fillOf reported s.agent).sum = matched := by
  have terms := (side.terms.map fun o => fillOf reported o.agent).sum_eq
  rw [List.map_map, List.map_map] at terms
  rw [← side.total, ← List.map_congr_left exactly]
  exact terms.symm

/-- What is known of the fills of an accepted batch. -/
structure FillsTrade (actions : List AgentAction) (result : BatchResult) : Prop where
  trade : Trade actions (fillOf result.fills)
  matched : boughtBy actions (fillOf result.fills) = result.matchedQuantity
  greatest : ∀ tick ∈ Finset.Icc 1 99, matchedAt actions tick ≤ result.matchedQuantity
  settled : Exchange.Settled (exchangeOf actions) (allocationOf (fillOf result.fills))

/-- Nothing is left to improve: on a side by the priority, across the sides by the price. -/
theorem FilledByPriority.settled {market after : BatchMarket} {actions : List AgentAction}
    {result : BatchResult} (distinct : (actions.map AgentAction.agent).Nodup)
    (filled : FilledByPriority market actions result after)
    (uncrossed : Uncrossed actions result) :
    Exchange.Settled (exchangeOf actions) (allocationOf (fillOf result.fills)) := by
  have eligible : ∀ s ∈ actions, 0 < allocationOf (fillOf result.fills) s →
      Eligible result.clearingTick s := by
    intro s member some
    obtain ⟨fill, listed, owner⟩ := fill_of_positive (Int.natCast_pos.mp some)
    obtain ⟨other, present, agent, _, wanted, _⟩ := filled.limits fill listed
    obtain rfl := List.inj_on_of_nodup_map distinct present member (agent.trans owner)
    exact wanted
  constructor
  case buyers =>
    intro i iMember j jMember iBuys jBuys room some
    have iKind := sideOf_buys.mp iBuys
    have jKind := sideOf_buys.mp jBuys
    by_contra better
    rw [exchangeOf, not_le, Int.ofNat_lt] at better
    -- a buy with a higher limit is eligible too, and comes first
    have wanted : Eligible result.clearingTick j := eligible j jMember some
    have first : Eligible result.clearingTick i := by
      rcases wanted with ⟨_, high⟩ | ⟨sells, _⟩
      · exact .inl ⟨iKind, high.trans better.le⟩
      · simp [jKind] at sells
    have none_left := filled.priority i iMember j jMember (iKind.trans jKind.symm) first
      (.inl (by rwa [if_pos iKind])) (Int.ofNat_lt.mp room)
    exact (Int.natCast_pos.mp some).ne' none_left
  case sellers =>
    intro i iMember j jMember iSells jSells room some
    have iKind := sideOf_sells.mp iSells
    have jKind := sideOf_sells.mp jSells
    by_contra better
    rw [exchangeOf, not_le, Int.ofNat_lt] at better
    have wanted : Eligible result.clearingTick j := eligible j jMember some
    have first : Eligible result.clearingTick i := by
      rcases wanted with ⟨buys, _⟩ | ⟨_, low⟩
      · simp [jKind] at buys
      · exact .inr ⟨iKind, better.le.trans low⟩
    have none_left := filled.priority i iMember j jMember (iKind.trans jKind.symm) first
      (.inl (by rwa [if_neg (by simp [iKind])])) (Int.ofNat_lt.mp room)
    exact (Int.natCast_pos.mp some).ne' none_left
  case left =>
    intro i iMember j jMember iBuys jSells iRoom jRoom
    exact Int.ofNat_le.mpr (uncrossed i iMember j jMember (sideOf_buys.mp iBuys)
      (sideOf_sells.mp jSells) (Nat.sub_pos_of_lt (Int.ofNat_lt.mp iRoom))
      (Nat.sub_pos_of_lt (Int.ofNat_lt.mp jRoom))).le
  case traded =>
    intro i iMember j jMember iBuys jSells iSome jSome
    have iKind := sideOf_buys.mp iBuys
    have jKind := sideOf_sells.mp jSells
    -- the clearing tick is between the limits
    rcases eligible i iMember iSome with ⟨_, high⟩ | ⟨sells, _⟩
    · rcases eligible j jMember jSome with ⟨buys, _⟩ | ⟨_, low⟩
      · simp [jKind] at buys
      · exact Int.ofNat_le.mpr (low.trans high)
    · simp [iKind] at sells

/-- The fills of an accepted batch are a trade that nobody can improve, of the quantity that the
tick scan found. -/
theorem clear_fillsTrade {market after : BatchMarket} {actions : List AgentAction}
    {result : BatchResult} (unique : (market.accounts.map Account.id).Nodup)
    (effect : ClearEffect market actions (.ok result) after) : FillsTrade actions result := by
  have uncrossed := clear_uncrossed effect
  cases effect with
  | @untraded best admitted search unmatched =>
    obtain ⟨candidate, best_tick⟩ := scan_bestTick search
    have nothing : ∀ agent, fillOf [] agent = 0 := fun _ => rfl
    have zero : ∀ kept : AgentAction → Bool,
        ((actions.filter kept).map fun s => fillOf [] s.agent).sum = 0 := by
      intro kept
      simp [nothing]
    constructor
    case trade =>
      exact ⟨fun s _ => Nat.zero_le _,
        (zero AgentAction.isBuy).trans (zero AgentAction.isSell).symm⟩
    case matched => exact zero _
    case greatest =>
      intro tick inRange
      have greatest := Finset.le_sup (f := matchedAt actions) inRange
      rw [← bestTick_matched best_tick] at greatest
      rw [candidate] at unmatched
      exact greatest.trans unmatched.le
    case settled =>
      -- nobody trades, so only the members left over matter
      have idle : ∀ s, ¬ 0 < allocationOf (fillOf []) s := by
        intro s some
        simp [allocationOf, nothing] at some
      constructor
      case buyers => exact fun i _ j _ _ _ _ some => absurd some (idle j)
      case sellers => exact fun i _ j _ _ _ _ some => absurd some (idle j)
      case left =>
        intro i iMember j jMember iBuys jSells iRoom jRoom
        exact Int.ofNat_le.mpr (uncrossed i iMember j jMember (sideOf_buys.mp iBuys)
          (sideOf_sells.mp jSells) (Int.ofNat_lt.mp iRoom) (Int.ofNat_lt.mp jRoom)).le
      case traded => exact fun i _ j _ _ _ some _ => absurd some (idle i)
  | @traded best filledBuys filledSells updated fills admitted search matched bought sold apply =>
    have filled := clear_filled unique
      (.traded admitted search matched bought sold apply) rfl
    obtain ⟨candidate, best_tick⟩ := scan_bestTick search
    have bounded := (Finset.mem_Icc.mp best_tick.1).2
    obtain ⟨books, applied⟩ := ClearEffect.books admitted bounded bought sold apply
    have reports : (sortBy (fun fill : Fill => fill.agent.toNat) fills).Perm
        (((filledBuys ++ filledSells).filter fun o => decide (o.fill ≠ 0)).map Order.toFill) := by
      rw [applied.fills]
      exact sortBy_perm _ _
    -- every order is reported with what the allocation gave it
    have exactly := fun o listed => fillOf_order (o := o) books.agents reports listed
    have buySide := (allocate_filled (orders_fresh _ _ _) bought).reported_sum
      fun o listed => exactly o (List.mem_append_left _ listed)
    have sellSide := (allocate_filled (orders_fresh _ _ _) sold).reported_sum
      fun o listed => exactly o (List.mem_append_right _ listed)
    constructor
    case trade =>
      refine ⟨fun s member => ?_, buySide.trans sellSide.symm⟩
      -- more than was asked for would be a fill, and fills keep to their orders
      by_contra more
      obtain ⟨fill, listed, owner⟩ := fill_of_positive (Nat.zero_lt_of_lt (not_le.mp more))
      obtain ⟨other, present, agent, _, _, _, few⟩ := filled.limits fill listed
      obtain rfl := List.inj_on_of_nodup_map admitted.distinct present member (agent.trans owner)
      have found := Keyed.find_of_mem
        (filled.increasing.imp fun less => UInt32.ne_of_lt less) listed owner
      rw [fillOf, found] at more
      exact more few
    case matched => exact buySide
    case greatest =>
      intro tick inRange
      have greatest := Finset.le_sup (f := matchedAt actions) inRange
      rw [← bestTick_matched best_tick] at greatest
      exact greatest.trans (congrArg ClearingCandidate.matchedQuantity candidate).ge
    case settled => exact filled.settled admitted.distinct uncrossed

/-- In every market that a run of batches reaches, an accepted batch executes a trade with the
largest gains that its orders allow; and no other trade with these gains moves more shares. -/
theorem gains_from_trade_maximal {memory : Memory} {accounts : List Account} {referenceTick : Nat}
    {market : BatchMarket} (created : create memory accounts referenceTick = .ok market)
    (batches : List BatchCall) (batch : BatchCall) {result : BatchResult} {after : BatchMarket}
    (accepted : marketMachine.step (marketMachine.run market batches) batch = (.ok result, after)) :
    let fills := fillOf result.fills
    Trade batch.actions fills ∧ boughtBy batch.actions fills = result.matchedQuantity ∧
      ∀ other, Trade batch.actions other →
        gainsFromTrade batch.actions other ≤ gainsFromTrade batch.actions fills ∧
        (gainsFromTrade batch.actions other = gainsFromTrade batch.actions fills →
          boughtBy batch.actions other ≤ result.matchedQuantity) := by
  have increasing := (create_sound created).1
  have unique : ((marketMachine.run market batches).accounts.map Account.id).Nodup := by
    rw [(reached_sound created batches).ids]
    exact increasing.imp fun less => UInt32.ne_of_lt less
  have effect := clear_effect batch.memory (marketMachine.run market batches) batch.actions
  change ClearEffect _ _ (marketMachine.step _ batch).1 (marketMachine.step _ batch).2 at effect
  rw [accepted] at effect
  have fills := clear_fillsTrade unique effect
  -- no two members can improve, so a price supports the fills and bounds every other trade
  obtain ⟨price, supports⟩ := fills.settled.supports fills.trade.feasible
  refine ⟨fills.trade, fills.matched, fun other trade => ⟨?_, fun same => ?_⟩⟩
  · rw [← gains_exchange, ← gains_exchange]
    exact supports.gains_le fills.trade.feasible.balanced trade.feasible
  · rw [← gains_exchange, ← gains_exchange] at same
    have too := supports.of_gains_eq fills.trade.feasible.balanced trade.feasible same
    refine (trade.le_matched too).trans (fills.greatest _ (Finset.mem_Icc.mpr ?_))
    rw [tickAt]
    omega

/-- Two shares asked at 55 go to the buyers at 70 and 60, which gains 20 ticks; a third one, to the
buyer at 50, would lose 5 of them. -/
theorem gains_from_trade_maximal_three :
    let actions : List AgentAction := [⟨0, ⟨.buyYes, 1, 50, by decide⟩⟩,
      ⟨1, ⟨.buyYes, 1, 60, by decide⟩⟩, ⟨2, ⟨.buyYes, 1, 70, by decide⟩⟩,
      ⟨3, ⟨.sellYes, 3, 55, by decide⟩⟩]
    let fills : List Fill := [⟨1, .buyYes, 1⟩, ⟨2, .buyYes, 1⟩, ⟨3, .sellYes, 2⟩]
    Trade actions (fillOf fills) ∧ gainsFromTrade actions (fillOf fills) = 20 ∧
      ∀ other, Trade actions other → gainsFromTrade actions other ≤ 20 := by
  intro actions fills
  let market : BatchMarket := ⟨[⟨0, 5000000, 0⟩, ⟨1, 5000000, 0⟩, ⟨2, 5000000, 0⟩, ⟨3, 0, 5⟩], 60⟩
  have created : create (fun _ => true) market.accounts 60 = .ok market := by decide +kernel
  let cleared : BatchMarket :=
    ⟨[⟨0, 5000000, 0⟩, ⟨1, 4400000, 1⟩, ⟨2, 4400000, 1⟩, ⟨3, 1200000, 3⟩], 60⟩
  have accepted : marketMachine.step (marketMachine.run market []) ⟨fun _ => true, actions⟩ =
      (.ok ⟨true, 60, 2, fills⟩, cleared) := by decide +kernel
  have maximal := gains_from_trade_maximal created [] ⟨fun _ => true, actions⟩ accepted
  have gains : gainsFromTrade actions (fillOf fills) = 20 := by decide
  exact ⟨maximal.1, gains, fun other trade => (maximal.2.2 other trade).1.trans gains.le⟩

end MarketForge
