import Mathlib.Data.List.Sort
import Mathlib.Data.Prod.Lex
import MarketForge.Grammar.Action
import MarketForge.Library.Transition

/-!
# The batch market

`clear` settles a batch of submissions at one price. The orders are admitted against the accounts
as they are, the price is searched by a scan over all ticks, the matched quantity is allocated on
each side by priority, and the fills are applied to a copy of the accounts that replaces them
only when everything has succeeded.

Quantities, ticks and running totals are natural numbers: the first two are bounded by `Action`
and the totals are guarded where the source guards them. Cash and share counts keep their
fixed widths.
-/
namespace MarketForge

abbrev AgentId := UInt32

/-- The `cash_t` of the source. -/
abbrev Cash := Int64

structure Account where
  id : AgentId := 0
  cash : Cash := 0
  yesShares : UInt32 := 0
  deriving DecidableEq, Repr

structure AgentAction where
  agent : AgentId
  action : Action
  deriving DecidableEq

structure Fill where
  agent : AgentId
  side : ActionKind
  quantity : Nat
  deriving DecidableEq, Repr

structure BatchResult where
  traded : Bool := false
  clearingTick : Nat := 0
  matchedQuantity : Nat := 0
  fills : List Fill := []
  deriving DecidableEq, Repr

structure ClearingCandidate where
  matchedQuantity : Nat
  imbalance : Nat
  referenceDistance : Nat
  tick : Nat
  deriving DecidableEq, Repr

structure Order where
  accountIndex : Nat
  agent : AgentId
  side : ActionKind
  quantity : Nat
  limit : Nat
  fill : Nat := 0
  deriving DecidableEq, Repr

def cashUnitsPerTick : Cash := 10000

/-- The price of a quantity at a tick, as both the admission and the settlement compute it. -/
def notional (quantity tick : Nat) : Cash :=
  Int64.ofNat quantity * Int64.ofNat tick * cashUnitsPerTick

def checkedAddCash (value delta : Cash) : Option Cash :=
  if (delta > 0 ∧ value > Int64.maxValue - delta) ∨
      (delta < 0 ∧ value < Int64.minValue - delta) then none
  else some (value + delta)

def betterClearingCandidate (candidate incumbent : ClearingCandidate) : Prop :=
  candidate.matchedQuantity > incumbent.matchedQuantity ∨
    (candidate.matchedQuantity = incumbent.matchedQuantity ∧
      (candidate.imbalance < incumbent.imbalance ∨
        (candidate.imbalance = incumbent.imbalance ∧
          (candidate.referenceDistance < incumbent.referenceDistance ∨
            (candidate.referenceDistance = incumbent.referenceDistance ∧
              candidate.tick < incumbent.tick)))))

instance : DecidableRel betterClearingCandidate := fun candidate incumbent => by
  unfold betterClearingCandidate
  infer_instance

/-- `std::sort` by a key. Where it is used on keys that may repeat, the result is discarded. -/
def sortBy {α κ : Type} [LinearOrder κ] (key : α → κ) (items : List α) : List α :=
  items.insertionSort fun left right => key left ≤ key right

theorem sortBy_perm {α κ : Type} [LinearOrder κ] (key : α → κ) (items : List α) :
    (sortBy key items).Perm items :=
  List.perm_insertionSort _ _

theorem sortBy_sorted {α κ : Type} [LinearOrder κ] (key : α → κ) (items : List α) :
    (sortBy key items).Pairwise fun left right => key left ≤ key right := by
  have total : Std.Total fun left right : α => key left ≤ key right :=
    ⟨fun left right => le_total (key left) (key right)⟩
  have trans : IsTrans α fun left right => key left ≤ key right := ⟨fun _ _ _ => le_trans⟩
  exact List.pairwise_insertionSort _ _

/-- `std::lower_bound` on accounts sorted by id. -/
def lowerBound (accounts : List Account) (agent : AgentId) : Nat :=
  accounts.findIdx fun account => !decide (account.id < agent)

structure BatchMarket where
  accounts : List Account
  lastTradedTick : Nat
  deriving DecidableEq, Repr

namespace BatchMarket

/-- The check of the sorted accounts: negative cash, or the id of the account before. -/
def accountsInvalid : Option AgentId → List Account → Bool
  | _, [] => false
  | previous, account :: rest =>
    decide (account.cash < 0) || decide (previous = some account.id) ||
      accountsInvalid (some account.id) rest

def create (memory : Memory) (accounts : List Account) (referenceTick : Nat) :
    Result BatchMarket :=
  if accounts = [] ∨ referenceTick < 1 ∨ referenceTick > 99 then
    .error (.failure .invalidArgument)
  else if ¬ memory 0 then .error (.failure .allocationFailed)
  else
    let sorted := sortBy (fun account => account.id.toNat) accounts
    if accountsInvalid none sorted then .error (.failure .invalidArgument)
    else .ok ⟨sorted, referenceTick⟩

/-- The admission loop. The set of submitted agents is represented by their list; `point` is the
allocation point of the next insertion into it. -/
def collectOrders (memory : Memory) (accounts : List Account) (point : Nat) :
    List AgentAction → List AgentId → List Order → List Order → Result (List Order × List Order)
  | [], _, buys, sells => .ok (buys, sells)
  | submission :: rest, submitted, buys, sells =>
    if submission.agent ∈ submitted then .error (.failure .invalidArgument)
    else if ¬ memory point then .error (.failure .allocationFailed)
    else
      let index := lowerBound accounts submission.agent
      match accounts[index]? with
      | none => .error (.failure .invalidArgument)
      | some account =>
        let submitted := submission.agent :: submitted
        let action := submission.action
        let order : Order :=
          { accountIndex := index, agent := submission.agent, side := action.kind,
            quantity := action.quantity, limit := action.priceTick }
        if account.id ≠ submission.agent then .error (.failure .invalidArgument)
        else match action.kind with
          | .hold => collectOrders memory accounts (point + 1) rest submitted buys sells
          | .buyYes =>
            if account.cash < notional action.quantity action.priceTick then
              .error (.failure .insufficientResources)
            else collectOrders memory accounts (point + 1) rest submitted (buys ++ [order]) sells
          | .sellYes =>
            if account.yesShares.toNat < action.quantity then
              .error (.failure .insufficientResources)
            else collectOrders memory accounts (point + 1) rest submitted buys (sells ++ [order])

/-- The guarded sum of the quantities of the orders whose limit is acceptable. -/
def accumulate (acceptable : Nat → Bool) : List Order → Nat → Option Nat
  | [], total => some total
  | order :: rest, total =>
    if acceptable order.limit then
      if total > UInt64.size - 1 - order.quantity then none
      else accumulate acceptable rest (total + order.quantity)
    else accumulate acceptable rest total

def buyEligible (tick limit : Nat) : Bool := decide (limit ≥ tick)

def sellEligible (tick limit : Nat) : Bool := decide (limit ≤ tick)

/-- The candidate of a tick at which `demand` meets `supply`. -/
def candidateOf (lastTradedTick tick demand supply : Nat) : ClearingCandidate where
  matchedQuantity := min demand supply
  imbalance := if demand ≥ supply then demand - supply else supply - demand
  referenceDistance := ((tick : Int) - (lastTradedTick : Int)).natAbs
  tick := tick

/-- The scan over the ticks with the best candidate so far. Tick 0 marks that there is none. -/
def scanTicks (buys sells : List Order) (lastTradedTick : Nat) :
    List Nat → ClearingCandidate → Option ClearingCandidate
  | [], best => some best
  | tick :: ticks, best =>
    match accumulate (buyEligible tick) buys 0, accumulate (sellEligible tick) sells 0 with
    | some demand, some supply =>
      let candidate := candidateOf lastTradedTick tick demand supply
      scanTicks buys sells lastTradedTick ticks
        (if best.tick = 0 ∨ betterClearingCandidate candidate best then candidate else best)
    | _, _ => none

def ticks : List Nat := List.range' 1 99

/-- The values before the scan. -/
def noCandidate : ClearingCandidate := ⟨0, UInt64.size - 1, UInt32.size - 1, 0⟩

/-- Fill eligible orders in the given order; what remains is returned with them. -/
def allocate (eligible : Nat → Bool) : List Order → Nat → List Order × Nat
  | [], remaining => ([], remaining)
  | order :: rest, remaining =>
    if ¬ eligible order.limit ∨ remaining = 0 then
      let (filled, left) := allocate eligible rest remaining
      (order :: filled, left)
    else
      let fill := min order.quantity remaining
      let (filled, left) := allocate eligible rest (remaining - fill)
      ({ order with fill := fill } :: filled, left)

/-- The account of an order after its fill. -/
def settle (clearingTick : Nat) (order : Order) (account : Account) : Option Account :=
  let amount := notional order.fill clearingTick
  if order.side = .buyYes then
    match checkedAddCash account.cash (-amount) with
    | none => none
    | some cash =>
      if account.yesShares.toNat > UInt32.size - 1 - order.fill then none
      else some { account with
        cash := cash, yesShares := account.yesShares + UInt32.ofNat order.fill }
  else
    match checkedAddCash account.cash amount with
    | none => none
    | some cash =>
      if account.yesShares.toNat < order.fill then none
      else some { account with
        cash := cash, yesShares := account.yesShares - UInt32.ofNat order.fill }

/-- The apply loop over a copy of the accounts, with the fills recorded so far. -/
def applyOrders (clearingTick : Nat) :
    List Order → List Account → List Fill → Option (List Account × List Fill)
  | [], updated, fills => some (updated, fills)
  | order :: rest, updated, fills =>
    if order.fill = 0 then applyOrders clearingTick rest updated fills
    else match updated[order.accountIndex]? with
      | none => none
      | some account =>
        match settle clearingTick order account with
        | none => none
        | some settled =>
          applyOrders clearingTick rest (updated.set order.accountIndex settled)
            (fills ++ [⟨order.agent, order.side, order.fill⟩])

/-- Buys by descending limit, then by agent. -/
def buyPriority (order : Order) : ℤ ×ₗ ℕ := toLex (-(order.limit : ℤ), order.agent.toNat)

/-- Sells by ascending limit, then by agent. -/
def sellPriority (order : Order) : ℤ ×ₗ ℕ := toLex ((order.limit : ℤ), order.agent.toNat)

def clear (memory : Memory) (market : BatchMarket) (actions : List AgentAction) :
    Result BatchResult × BatchMarket :=
  -- The reservations of the two books.
  if ¬ memory 0 ∨ ¬ memory 1 then (.error (.failure .allocationFailed), market)
  else match collectOrders memory market.accounts 2 actions [] [] [] with
    | .error status => (.error status, market)
    | .ok (buys, sells) =>
      match scanTicks buys sells market.lastTradedTick ticks noCandidate with
      | none => (.error (.failure .arithmeticOverflow), market)
      | some best =>
        if best.matchedQuantity = 0 then (.ok {}, market)
        else if best.matchedQuantity > UInt32.size - 1 then
          (.error (.failure .arithmeticOverflow), market)
        else
          let (filledBuys, buysLeft) :=
            allocate (buyEligible best.tick) (sortBy buyPriority buys) best.matchedQuantity
          let (filledSells, sellsLeft) :=
            allocate (sellEligible best.tick) (sortBy sellPriority sells) best.matchedQuantity
          if buysLeft ≠ 0 ∨ sellsLeft ≠ 0 then (.error (.failure .invalidFormat), market)
          -- The copy of the accounts and the reservation of the fills.
          else if ¬ memory (actions.length + 2) ∨ ¬ memory (actions.length + 3) then
            (.error (.failure .allocationFailed), market)
          else match applyOrders best.tick (filledBuys ++ filledSells) market.accounts [] with
            | none => (.error (.failure .arithmeticOverflow), market)
            | some (updated, fills) =>
              (.ok {
                traded := true
                clearingTick := best.tick
                matchedQuantity := best.matchedQuantity
                fills := sortBy (fun fill => fill.agent.toNat) fills },
                ⟨updated, best.tick⟩)

end BatchMarket

/-- One batch, with the fate of its allocations. -/
structure BatchCall where
  memory : Memory
  actions : List AgentAction

/-- The market as a machine driven by batches. -/
def marketMachine : Transition.Machine BatchMarket BatchCall (Result BatchResult) where
  step market call := BatchMarket.clear call.memory market call.actions

end MarketForge
