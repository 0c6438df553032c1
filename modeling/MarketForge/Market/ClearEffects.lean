import MarketForge.Market.BatchMarket

/-!
# What clearing a batch can do

The admission loop is shown to accept exactly admissible batches of distinct agents and to turn
the buys and the sells of the batch, in order, into orders (`collectOrders_ok`). `ClearEffect` lists
the outcomes of `clear` over these orders; everything else about the market is derived from it.
-/
namespace MarketForge

namespace AgentAction

def isBuy (submission : AgentAction) : Bool := decide (submission.action.kind = .buyYes)

def isSell (submission : AgentAction) : Bool := decide (submission.action.kind = .sellYes)

end AgentAction

/-- The order of a submission. -/
def orderOf (accounts : List Account) (submission : AgentAction) : Order where
  accountIndex := lowerBound accounts submission.agent
  agent := submission.agent
  side := submission.action.kind
  quantity := submission.action.quantity
  limit := submission.action.priceTick

def buysOf (accounts : List Account) (actions : List AgentAction) : List Order :=
  (actions.filter AgentAction.isBuy).map (orderOf accounts)

def sellsOf (accounts : List Account) (actions : List AgentAction) : List Order :=
  (actions.filter AgentAction.isSell).map (orderOf accounts)

/-- What admission asks of an account for a submission. -/
structure Covers (account : Account) (submission : AgentAction) : Prop where
  owner : account.id = submission.agent
  buy : submission.action.kind = .buyYes →
    notional submission.action.quantity submission.action.priceTick ≤ account.cash
  sell : submission.action.kind = .sellYes →
    submission.action.quantity ≤ account.yesShares.toNat

def Admissible (accounts : List Account) (submission : AgentAction) : Prop :=
  ∃ account, accounts[lowerBound accounts submission.agent]? = some account ∧
    Covers account submission

/-- A batch of distinct agents whose orders are covered by their accounts. -/
structure Admitted (accounts : List Account) (actions : List AgentAction) : Prop where
  distinct : (actions.map AgentAction.agent).Nodup
  admissible : ∀ submission ∈ actions, Admissible accounts submission

namespace BatchMarket

/-- One round of the admission loop: the submission is new and covered, and the rest of the
batch is admitted with the books grown by its order. -/
theorem collectOrders_cons {memory : Memory} {accounts : List Account} {point : Nat}
    {submission : AgentAction} {rest : List AgentAction} {submitted : List AgentId}
    {buys sells : List Order} {books : List Order × List Order}
    (admitted : collectOrders memory accounts point (submission :: rest) submitted buys sells =
      .ok books) :
    submission.agent ∉ submitted ∧ Admissible accounts submission ∧
      collectOrders memory accounts (point + 1) rest (submission.agent :: submitted)
        (buys ++ buysOf accounts [submission]) (sells ++ sellsOf accounts [submission]) =
          .ok books := by
  rw [collectOrders] at admitted
  split at admitted
  next => cases admitted
  next new =>
    split at admitted
    next => cases admitted
    next =>
      dsimp only at admitted
      split at admitted
      next => cases admitted
      next account found =>
        split at admitted
        next => cases admitted
        next owned =>
          rw [not_not] at owned
          -- the agent is new, its account exists and belongs to it; what is covered depends on the
          -- kind
          refine ⟨new, ?_⟩
          cases kind : submission.action.kind with
          | hold =>
            simp only [kind] at admitted
            refine ⟨⟨account, found, owned, by simp [kind], by simp [kind]⟩, ?_⟩
            simpa [buysOf, sellsOf, AgentAction.isBuy, AgentAction.isSell, kind] using admitted
          | buyYes =>
            simp only [kind] at admitted
            split at admitted
            next => cases admitted
            next covered =>
              refine ⟨⟨account, found, owned, fun _ => Int64.not_lt.mp covered, by simp [kind]⟩, ?_⟩
              simpa [buysOf, sellsOf, AgentAction.isBuy, AgentAction.isSell, orderOf, kind]
                using admitted
          | sellYes =>
            simp only [kind] at admitted
            split at admitted
            next => cases admitted
            next covered =>
              refine ⟨⟨account, found, owned, by simp [kind], fun _ => Nat.not_lt.mp covered⟩, ?_⟩
              simpa [buysOf, sellsOf, AgentAction.isBuy, AgentAction.isSell, orderOf, kind]
                using admitted

theorem buysOf_cons (accounts : List Account) (submission : AgentAction)
    (rest : List AgentAction) :
    buysOf accounts (submission :: rest) =
      buysOf accounts [submission] ++ buysOf accounts rest := by
  rw [← List.singleton_append, buysOf, List.filter_append, List.map_append]
  rfl

theorem sellsOf_cons (accounts : List Account) (submission : AgentAction)
    (rest : List AgentAction) :
    sellsOf accounts (submission :: rest) =
      sellsOf accounts [submission] ++ sellsOf accounts rest := by
  rw [← List.singleton_append, sellsOf, List.filter_append, List.map_append]
  rfl

/-- The admission loop over the rest of a batch. -/
theorem collectOrders_rest {memory : Memory} {accounts : List Account} {point : Nat}
    {actions : List AgentAction} {submitted : List AgentId} {buys sells : List Order}
    {books : List Order × List Order}
    (admitted : collectOrders memory accounts point actions submitted buys sells = .ok books) :
    (∀ submission ∈ actions, submission.agent ∉ submitted) ∧ Admitted accounts actions ∧
      books = (buys ++ buysOf accounts actions, sells ++ sellsOf accounts actions) := by
  induction actions generalizing point submitted buys sells with
  | nil =>
    refine ⟨by simp, ⟨List.nodup_nil, by simp⟩, ?_⟩
    simpa [collectOrders, buysOf, sellsOf] using admitted.symm
  | cons submission rest ih =>
    obtain ⟨new, admissible, remaining⟩ := collectOrders_cons admitted
    obtain ⟨others, ⟨distinct, covered⟩, books⟩ := ih remaining
    refine ⟨?_, ⟨?_, ?_⟩, ?_⟩
    · intro other member
      rcases List.mem_cons.mp member with rfl | tail
      · exact new
      · exact fun seen => others other tail (.tail _ seen)
    · rw [List.map_cons, List.nodup_cons]
      refine ⟨fun repeated => ?_, distinct⟩
      obtain ⟨other, member, same⟩ := List.mem_map.mp repeated
      exact others other member (same ▸ List.mem_cons_self)
    · exact List.forall_mem_cons.mpr ⟨admissible, covered⟩
    · rw [books, buysOf_cons accounts submission rest, sellsOf_cons accounts submission rest,
        List.append_assoc, List.append_assoc]

theorem collectOrders_ok {memory : Memory} {accounts : List Account} {actions : List AgentAction}
    {point : Nat} {buys sells : List Order}
    (admitted : collectOrders memory accounts point actions [] [] [] = .ok (buys, sells)) :
    Admitted accounts actions ∧ buys = buysOf accounts actions ∧
      sells = sellsOf accounts actions := by
  obtain ⟨_, admissible, books⟩ := collectOrders_rest admitted
  exact ⟨admissible, Prod.mk.inj books⟩

end BatchMarket

open BatchMarket

/-- The outcomes of `clear`. -/
inductive ClearEffect (market : BatchMarket) (actions : List AgentAction) :
    Result BatchResult → BatchMarket → Prop
  | refused {status : Status} : ClearEffect market actions (.error status) market
  | untraded {best : ClearingCandidate} (admitted : Admitted market.accounts actions)
      (search : scanTicks (buysOf market.accounts actions) (sellsOf market.accounts actions)
        market.lastTradedTick ticks noCandidate = some best)
      (unmatched : best.matchedQuantity = 0) :
      ClearEffect market actions (.ok {}) market
  | traded {best : ClearingCandidate} {buys sells : List Order} {updated : List Account}
      {fills : List Fill} (admitted : Admitted market.accounts actions)
      (search : scanTicks (buysOf market.accounts actions) (sellsOf market.accounts actions)
        market.lastTradedTick ticks noCandidate = some best)
      (matched : best.matchedQuantity ≠ 0)
      (bought : allocate (buyEligible best.tick)
        (sortBy buyPriority (buysOf market.accounts actions)) best.matchedQuantity = (buys, 0))
      (sold : allocate (sellEligible best.tick)
        (sortBy sellPriority (sellsOf market.accounts actions)) best.matchedQuantity = (sells, 0))
      (applied : applyOrders best.tick (buys ++ sells) market.accounts [] =
        some (updated, fills)) :
      ClearEffect market actions
        (.ok ⟨true, best.tick, best.matchedQuantity, sortBy (fun fill => fill.agent.toNat) fills⟩)
        ⟨updated, best.tick⟩

/-- Every batch ends in one of the listed ways. -/
theorem clear_effect (memory : Memory) (market : BatchMarket) (actions : List AgentAction) :
    ClearEffect market actions (clear memory market actions).1
      (clear memory market actions).2 := by
  unfold clear
  split
  next => exact .refused
  next =>
    split
    next => exact .refused
    next buys sells books =>
      obtain ⟨admitted, rfl, rfl⟩ := collectOrders_ok books
      split
      next => exact .refused
      next best search =>
        split
        next unmatched => exact .untraded admitted search unmatched
        next matched =>
          split
          next => exact .refused
          next =>
            dsimp only
            split
            next => exact .refused
            next settled =>
              rw [not_or, not_not, not_not] at settled
              split
              next => exact .refused
              next =>
                split
                next => exact .refused
                next updated fills applied =>
                  exact .traded admitted search matched (Prod.ext rfl settled.1)
                    (Prod.ext rfl settled.2) applied

end MarketForge
