import Mathlib.Algebra.GroupWithZero.Nat
import Mathlib.Data.Finset.Lattice.Fold
import Mathlib.Order.Interval.Finset.Nat
import Mathlib.Order.Lattice.Nat
import MarketForge.Library.RunningBest
import MarketForge.Market.ClearEffects

/-!
# The clearing price

`demand` and `supply` are the quantities of a batch acceptable at a tick. The scan of `clear`
finds the tick that is best in the order `Preferred`: most matched, then least imbalance, then
closest to the last traded tick, then lowest.
-/
namespace MarketForge

open BatchMarket

/-- The total quantity of the buys of a batch with limit at least `tick`. -/
def demand (actions : List AgentAction) (tick : Nat) : Nat :=
  ((actions.filter fun a => a.isBuy && decide (tick ≤ a.action.priceTick)).map
    fun a => a.action.quantity).sum

/-- The total quantity of the sells of a batch with limit at most `tick`. -/
def supply (actions : List AgentAction) (tick : Nat) : Nat :=
  ((actions.filter fun a => a.isSell && decide (a.action.priceTick ≤ tick)).map
    fun a => a.action.quantity).sum

/-- Some buy is willing to pay what some sell asks. -/
def Crossing (actions : List AgentAction) : Prop :=
  ∃ buy ∈ actions, ∃ sell ∈ actions, buy.action.kind = .buyYes ∧ sell.action.kind = .sellYes ∧
    sell.action.priceTick ≤ buy.action.priceTick

/-- The quantity traded at a tick. -/
def matchedAt (actions : List AgentAction) (tick : Nat) : Nat :=
  min (demand actions tick) (supply actions tick)

def imbalanceAt (actions : List AgentAction) (tick : Nat) : Nat :=
  ((demand actions tick : ℤ) - supply actions tick).natAbs

def distanceTo (lastTradedTick tick : Nat) : Nat := ((tick : ℤ) - lastTradedTick).natAbs

/-- The lexicographic preference of one tick over another. -/
def Preferred (actions : List AgentAction) (lastTradedTick : Nat) (tick other : Nat) : Prop :=
  matchedAt actions other < matchedAt actions tick ∨
    matchedAt actions tick = matchedAt actions other ∧
      (imbalanceAt actions tick < imbalanceAt actions other ∨
        imbalanceAt actions tick = imbalanceAt actions other ∧
          (distanceTo lastTradedTick tick < distanceTo lastTradedTick other ∨
            distanceTo lastTradedTick tick = distanceTo lastTradedTick other ∧ tick < other))

/-- The tick preferred to every other one. -/
def BestTick (actions : List AgentAction) (lastTradedTick tick : Nat) : Prop :=
  tick ∈ Finset.Icc 1 99 ∧
    ∀ other ∈ Finset.Icc 1 99, other ≠ tick → Preferred actions lastTradedTick tick other

/-! ### The order on candidates -/

theorem betterClearingCandidate_trans (x y z : ClearingCandidate)
    (first : betterClearingCandidate x y) (second : betterClearingCandidate y z) :
    betterClearingCandidate x z := by
  unfold betterClearingCandidate at *
  omega

theorem betterClearingCandidate_total (x y : ClearingCandidate) (different : x.tick ≠ y.tick) :
    betterClearingCandidate x y ∨ betterClearingCandidate y x := by
  unfold betterClearingCandidate
  omega

theorem BestTick.unique {actions : List AgentAction} {lastTradedTick tick other : Nat}
    (best : BestTick actions lastTradedTick tick)
    (best' : BestTick actions lastTradedTick other) : other = tick := by
  by_contra different
  have one := best.2 other best'.1 different
  have two := best'.2 tick best.1 (Ne.symm different)
  unfold Preferred at one two
  omega

/-! ### The scan -/

theorem accumulate_eq {acceptable : Nat → Bool} {orders : List Order} {total sum : Nat}
    (accumulated : accumulate acceptable orders total = some sum) :
    sum = total + ((orders.filter fun o => acceptable o.limit).map Order.quantity).sum := by
  induction orders generalizing total with
  | nil => simpa [accumulate] using accumulated.symm
  | cons order rest ih =>
    rw [accumulate] at accumulated
    split at accumulated
    next accepted =>
      split at accumulated
      next => cases accumulated
      next =>
        rw [ih accumulated, List.filter_cons_of_pos (by simpa using accepted), List.map_cons,
          List.sum_cons, Nat.add_assoc]
    next declined =>
      rw [ih accumulated, List.filter_cons_of_neg (by simpa using declined)]

theorem demand_eq (accounts : List Account) (actions : List AgentAction) (tick : Nat) :
    demand actions tick = (((buysOf accounts actions).filter fun o =>
      buyEligible tick o.limit).map Order.quantity).sum := by
  rw [buysOf, List.filter_map, List.map_map, List.filter_filter, demand]
  refine congrArg (fun l => (List.map _ l).sum) (List.filter_congr fun a _ => ?_)
  exact Bool.and_comm _ _

theorem supply_eq (accounts : List Account) (actions : List AgentAction) (tick : Nat) :
    supply actions tick = (((sellsOf accounts actions).filter fun o =>
      sellEligible tick o.limit).map Order.quantity).sum := by
  rw [sellsOf, List.filter_map, List.map_map, List.filter_filter, supply]
  refine congrArg (fun l => (List.map _ l).sum) (List.filter_congr fun a _ => ?_)
  exact Bool.and_comm _ _

theorem accumulate_buys {accounts : List Account} {actions : List AgentAction} {tick sum : Nat}
    (accumulated : accumulate (buyEligible tick) (buysOf accounts actions) 0 = some sum) :
    sum = demand actions tick := by
  rw [accumulate_eq accumulated, Nat.zero_add, demand_eq accounts]

theorem accumulate_sells {accounts : List Account} {actions : List AgentAction} {tick sum : Nat}
    (accumulated : accumulate (sellEligible tick) (sellsOf accounts actions) 0 = some sum) :
    sum = supply actions tick := by
  rw [accumulate_eq accumulated, Nat.zero_add, supply_eq accounts]

/-- The candidate of a tick for a whole batch. -/
def candidateAt (actions : List AgentAction) (lastTradedTick tick : Nat) : ClearingCandidate :=
  candidateOf lastTradedTick tick (demand actions tick) (supply actions tick)

/-- One round of the scan replaces the best candidate as a running best does, the first one
unconditionally. -/
theorem scanTicks_cons {accounts : List Account} {actions : List AgentAction}
    {lastTradedTick tick : Nat} {rest : List Nat} {best result : ClearingCandidate}
    (scanned : scanTicks (buysOf accounts actions) (sellsOf accounts actions) lastTradedTick
      (tick :: rest) best = some result) :
    scanTicks (buysOf accounts actions) (sellsOf accounts actions) lastTradedTick rest
      (if best.tick = 0 ∨
          betterClearingCandidate (candidateAt actions lastTradedTick tick) best then
        candidateAt actions lastTradedTick tick else best) = some result := by
  rw [scanTicks] at scanned
  split at scanned
  next d s demanded supplied =>
    obtain rfl := accumulate_buys demanded
    obtain rfl := accumulate_sells supplied
    exact scanned
  next => cases scanned

theorem scanTicks_rest {accounts : List Account} {actions : List AgentAction}
    {lastTradedTick : Nat} {rest : List Nat} {best result : ClearingCandidate}
    (proper : ∀ tick ∈ rest, tick ≠ 0) (started : best.tick ≠ 0)
    (scanned : scanTicks (buysOf accounts actions) (sellsOf accounts actions) lastTradedTick
      rest best = some result) :
    result = RunningBest.scan betterClearingCandidate best
      (rest.map (candidateAt actions lastTradedTick)) := by
  induction rest generalizing best with
  | nil => exact (Option.some_inj.mp scanned).symm
  | cons tick rest ih =>
    have next := scanTicks_cons scanned
    simp only [started, false_or] at next
    rw [List.map_cons, RunningBest.scan]
    refine ih (fun t member => proper t (.tail _ member)) ?_ next
    split
    next => exact proper tick List.mem_cons_self
    next => exact started

theorem mem_ticks {tick : Nat} : tick ∈ ticks ↔ tick ∈ Finset.Icc 1 99 := by
  rw [ticks, List.mem_range'_1, Finset.mem_Icc]
  omega

/-- The order of the source on candidates is the preference among their ticks. -/
theorem preferred_of_better {actions : List AgentAction} {lastTradedTick tick other : Nat}
    (better : betterClearingCandidate (candidateAt actions lastTradedTick tick)
      (candidateAt actions lastTradedTick other)) :
    Preferred actions lastTradedTick tick other := by
  have imbalance : ∀ t, (candidateAt actions lastTradedTick t).imbalance =
      imbalanceAt actions t := by
    intro t
    simp only [candidateAt, candidateOf, imbalanceAt]
    split
    · omega
    · omega
  unfold betterClearingCandidate at better
  rwa [imbalance, imbalance] at better

/-- The scan of `clear` ends with the candidate of the best tick. -/
theorem scan_bestTick {accounts : List Account} {actions : List AgentAction}
    {lastTradedTick : Nat} {best : ClearingCandidate}
    (scanned : scanTicks (buysOf accounts actions) (sellsOf accounts actions) lastTradedTick
      ticks noCandidate = some best) :
    best = candidateAt actions lastTradedTick best.tick ∧
      BestTick actions lastTradedTick best.tick := by
  -- The first tick is taken unconditionally, so the scan is a running best over all ticks.
  have first := scanTicks_cons scanned
  simp only [noCandidate, true_or, if_true] at first
  have survivor := scanTicks_rest (by decide) Nat.one_ne_zero first
  have member : best ∈ ticks.map (candidateAt actions lastTradedTick) :=
    survivor ▸ RunningBest.scan_mem _ _
  have distinct : (ticks.map (candidateAt actions lastTradedTick)).Pairwise
      fun x y => betterClearingCandidate x y ∨ betterClearingCandidate y x := by
    rw [List.pairwise_map]
    refine (List.nodup_range' : (List.range' 1 99).Nodup).imp fun {t u} different => ?_
    exact betterClearingCandidate_total _ _ different
  have beats : ∀ x ∈ ticks.map (candidateAt actions lastTradedTick),
      x = best ∨ betterClearingCandidate best x :=
    survivor ▸ RunningBest.scan_best betterClearingCandidate_trans _ _ distinct
  obtain ⟨tick, listed, rfl⟩ := List.mem_map.mp member
  refine ⟨rfl, mem_ticks.mp listed, fun other inRange different => ?_⟩
  rcases beats _ (List.mem_map_of_mem (mem_ticks.mpr inRange)) with same | better
  · exact absurd (congrArg ClearingCandidate.tick same) different
  · exact preferred_of_better better

/-- The traded quantity is that of the best tick. -/
theorem bestTick_matched {actions : List AgentAction} {lastTradedTick tick : Nat}
    (best : BestTick actions lastTradedTick tick) :
    matchedAt actions tick = (Finset.Icc 1 99).sup (matchedAt actions) := by
  apply le_antisymm
  · exact Finset.le_sup best.1
  · apply Finset.sup_le
    intro other member
    by_cases same : other = tick
    · rw [same]
    · have preferred := best.2 other member same
      unfold Preferred at preferred
      omega

/-! ### Trading -/

theorem quantity_sum_ne_zero {actions : List AgentAction} {wanted : AgentAction → Bool}
    (orders : ∀ a ∈ actions, wanted a = true → a.action.kind ≠ .hold) :
    ((actions.filter wanted).map fun a => a.action.quantity).sum ≠ 0 ↔
      ∃ a ∈ actions, wanted a = true := by
  rw [ne_eq, List.sum_eq_zero_iff_forall_eq_nat]
  constructor
  · intro positive
    by_contra none_wanted
    have empty : actions.filter wanted = [] :=
      List.filter_eq_nil_iff.mpr fun a member chosen => none_wanted ⟨a, member, chosen⟩
    simp [empty] at positive
  · rintro ⟨a, member, chosen⟩ zero
    have bounds := a.action.bounds (orders a member chosen)
    have none_asked := zero _ (List.mem_map_of_mem (List.mem_filter.mpr ⟨member, chosen⟩))
    have := bounds.1.1
    omega

/-- Something can be traded at some tick exactly when two limits cross. -/
theorem crossing_iff (actions : List AgentAction) :
    Crossing actions ↔ ∃ tick ∈ Finset.Icc 1 99, matchedAt actions tick ≠ 0 := by
  have demanded : ∀ tick, demand actions tick ≠ 0 ↔ ∃ a ∈ actions,
      (a.isBuy && decide (tick ≤ a.action.priceTick)) = true := fun tick =>
    quantity_sum_ne_zero fun a _ chosen => by simp_all [AgentAction.isBuy]
  have supplied : ∀ tick, supply actions tick ≠ 0 ↔ ∃ a ∈ actions,
      (a.isSell && decide (a.action.priceTick ≤ tick)) = true := fun tick =>
    quantity_sum_ne_zero fun a _ chosen => by simp_all [AgentAction.isSell]
  have both : ∀ tick, matchedAt actions tick ≠ 0 ↔
      demand actions tick ≠ 0 ∧ supply actions tick ≠ 0 := by
    intro tick
    unfold matchedAt
    omega
  constructor
  · rintro ⟨buy, bought, sell, sold, buys, sells, cross⟩
    -- At the limit of the sell both orders are acceptable.
    have limits := (sell.action.bounds (by simp [sells])).2
    refine ⟨sell.action.priceTick, Finset.mem_Icc.mpr limits, (both _).mpr ⟨?_, ?_⟩⟩
    · exact (demanded _).mpr ⟨buy, bought, by simp [AgentAction.isBuy, buys, cross]⟩
    · exact (supplied _).mpr ⟨sell, sold, by simp [AgentAction.isSell, sells]⟩
  · rintro ⟨tick, _, matched⟩
    obtain ⟨wanted, offered⟩ := (both tick).mp matched
    obtain ⟨buy, bought, buys⟩ := (demanded tick).mp wanted
    obtain ⟨sell, sold, sells⟩ := (supplied tick).mp offered
    simp only [AgentAction.isBuy, AgentAction.isSell, Bool.and_eq_true, decide_eq_true_eq]
      at buys sells
    exact ⟨buy, bought, sell, sold, buys.1, sells.1, sells.2.trans buys.2⟩

/-- What an accepted batch reports about its price and quantity. -/
structure OptimalClearing (market : BatchMarket) (actions : List AgentAction)
    (result : BatchResult) (after : BatchMarket) : Prop where
  traded : result.traded = true ↔ Crossing actions
  quantity : result.traded = true →
    result.matchedQuantity = (Finset.Icc 1 99).sup (matchedAt actions)
  tick : result.traded = true → BestTick actions market.lastTradedTick result.clearingTick ∧
    ∀ other, BestTick actions market.lastTradedTick other → other = result.clearingTick
  unchanged : result.traded = false → after = market

theorem clear_optimal {market after : BatchMarket} {actions : List AgentAction}
    {result : BatchResult} (effect : ClearEffect market actions (.ok result) after) :
    OptimalClearing market actions result after := by
  cases effect with
  | @untraded best admitted search unmatched =>
    obtain ⟨candidate, best_tick⟩ := scan_bestTick search
    refine ⟨?_, by simp, by simp, fun _ => rfl⟩
    -- The best tick matches nothing, so no tick does.
    rw [crossing_iff]
    constructor
    · intro traded
      cases traded
    · rintro ⟨tick, inRange, matched⟩
      have greatest := Finset.le_sup (f := matchedAt actions) inRange
      rw [← bestTick_matched best_tick] at greatest
      rw [candidate] at unmatched
      exact absurd (Nat.le_zero.mp (unmatched ▸ greatest)) matched
  | @traded best buys sells updated fills admitted search matched bought sold applied =>
    obtain ⟨candidate, best_tick⟩ := scan_bestTick search
    have quantity : best.matchedQuantity = matchedAt actions best.tick :=
      congrArg ClearingCandidate.matchedQuantity candidate
    refine ⟨?_, fun _ => ?_, fun _ => ⟨best_tick, fun _ => best_tick.unique⟩, by simp⟩
    · rw [crossing_iff]
      exact iff_of_true rfl ⟨best.tick, best_tick.1, quantity ▸ matched⟩
    · exact quantity.trans (bestTick_matched best_tick)

/-- Every accepted batch clears at the optimal price, in whatever state the market is. -/
theorem clearing_price_optimal {memory : Memory} {market after : BatchMarket}
    {actions : List AgentAction} {result : BatchResult}
    (accepted : clear memory market actions = (.ok result, after)) :
    OptimalClearing market actions result after := by
  have effect := clear_effect memory market actions
  rw [accepted] at effect
  exact clear_optimal effect

/-- A crossed book: two shares are bid at 60 and asked at 55, and trade at 55. -/
theorem clearing_price_optimal_crossed :
    OptimalClearing ⟨[⟨0, 5000000, 0⟩, ⟨2, 0, 5⟩], 50⟩
      [⟨0, ⟨.buyYes, 2, 60, by decide⟩⟩, ⟨2, ⟨.sellYes, 2, 55, by decide⟩⟩]
      ⟨true, 55, 2, [⟨0, .buyYes, 2⟩, ⟨2, .sellYes, 2⟩]⟩
      ⟨[⟨0, 3900000, 2⟩, ⟨2, 1100000, 3⟩], 55⟩ :=
  clearing_price_optimal (show clear (fun _ => true) _ _ = _ by decide +kernel)

end MarketForge
