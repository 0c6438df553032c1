import Mathlib.Algebra.BigOperators.Group.List.Basic
import Mathlib.Tactic.Ring
import MarketForge.Market.ClearEffects

/-!
# Settlement

The allocation fills each side up to the matched quantity and the fills move cash and shares
between the accounts. What one order moves is exact (`settle_exact`); since both sides are filled
with the same quantity the totals are conserved, and since an agent has one order, covered at a
limit at least as bad as the price, every account stays solvent.
-/
namespace MarketForge

open BatchMarket

/-! ### Fixed-width cash -/

theorem toInt_add_of_fits {a b : Cash} (low : -2 ^ 63 ≤ a.toInt + b.toInt)
    (high : a.toInt + b.toInt < 2 ^ 63) : (a + b).toInt = a.toInt + b.toInt := by
  rw [Int64.toInt_add]
  exact Int.bmod_eq_of_le (by omega) (by omega)

theorem toInt_sub_of_fits {a b : Cash} (low : -2 ^ 63 ≤ a.toInt - b.toInt)
    (high : a.toInt - b.toInt < 2 ^ 63) : (a - b).toInt = a.toInt - b.toInt := by
  rw [Int64.toInt_sub]
  exact Int.bmod_eq_of_le (by omega) (by omega)

/-- The guard of `checked_add_cash` admits exactly the sums that fit. -/
theorem checkedAddCash_eq_some {value delta output : Cash}
    (added : checkedAddCash value delta = some output) :
    output.toInt = value.toInt + delta.toInt := by
  have low := value.le_toInt
  have high := value.toInt_lt
  have deltaLow := delta.le_toInt
  have deltaHigh := delta.toInt_lt
  unfold checkedAddCash at added
  split at added
  next => cases added
  next fits =>
    obtain rfl := Option.some_inj.mp added
    simp only [gt_iff_lt, Int64.lt_iff_toInt_lt, Int64.toInt_zero, not_or, not_and, not_lt]
      at fits
    -- The bound that is subtracted from is on the far side of the other operand.
    apply toInt_add_of_fits
    · by_cases negative : delta.toInt < 0
      · have guard := fits.2 negative
        rw [toInt_sub_of_fits] at guard <;> rw [Int64.toInt_minValue] at * <;> omega
      · omega
    · by_cases positive : 0 < delta.toInt
      · have guard := fits.1 positive
        rw [toInt_sub_of_fits] at guard <;> rw [Int64.toInt_maxValue] at * <;> omega
      · omega

theorem notional_toInt {quantity tick : Nat} (few : quantity ≤ 8) (bounded : tick ≤ 99) :
    (notional quantity tick).toInt = (quantity * tick * 10000 : Nat) := by
  have product : quantity * tick ≤ 8 * 99 := Nat.mul_le_mul few bounded
  have units : cashUnitsPerTick.toInt = 10000 := rfl
  have inner : (Int64.ofNat quantity * Int64.ofNat tick).toInt = (quantity * tick : Nat) := by
    rw [Int64.toInt_mul, Int64.toInt_ofNat_of_lt (by omega), Int64.toInt_ofNat_of_lt (by omega),
      ← Int.natCast_mul]
    exact Int.bmod_eq_of_le (by omega) (by omega)
  rw [notional, Int64.toInt_mul, inner, units, Int.bmod_eq_of_le (by omega) (by omega)]
  push_cast
  rfl

/-! ### One order -/

/-- The cash an order's fill adds to its account. -/
def cashChange (tick : Nat) (order : Order) : Int :=
  if order.side = .buyYes then -((order.fill * tick * 10000 : Nat) : Int)
  else ((order.fill * tick * 10000 : Nat) : Int)

/-- The shares an order's fill adds to its account. -/
def shareChange (order : Order) : Int :=
  if order.side = .buyYes then order.fill else -(order.fill : Int)

/-- What an account holds after a change of cash and shares. -/
structure Moved (before after : Account) (cash shares : Int) : Prop where
  id : after.id = before.id
  cash : after.cash.toInt = before.cash.toInt + cash
  shares : (after.yesShares.toNat : Int) = before.yesShares.toNat + shares

/-- Settling an order moves exactly the price of its fill, without wrapping. -/
theorem settle_exact {tick : Nat} {order : Order} {account settled : Account}
    (few : order.fill ≤ 8) (bounded : tick ≤ 99)
    (success : settle tick order account = some settled) :
    Moved account settled (cashChange tick order) (shareChange order) := by
  have price := notional_toInt few bounded
  have small : (UInt32.ofNat order.fill).toNat = order.fill :=
    UInt32.toNat_ofNat_of_lt' (by simp only [UInt32.size]; omega)
  have product : order.fill * tick ≤ 8 * 99 := Nat.mul_le_mul few bounded
  have held := account.yesShares.toNat_lt
  unfold settle at success
  dsimp only at success
  by_cases buys : order.side = .buyYes
  · rw [if_pos buys] at success
    split at success
    next => cases success
    next cash added =>
      split at success
      next => cases success
      next room =>
        obtain rfl := Option.some_inj.mp success
        have negated : (-notional order.fill tick).toInt = -(notional order.fill tick).toInt := by
          rw [Int64.toInt_neg]
          exact Int.bmod_eq_of_le (by omega) (by omega)
        refine ⟨rfl, ?_, ?_⟩
        · rw [checkedAddCash_eq_some added, negated, price, cashChange, if_pos buys]
        · simp only [UInt32.size] at room
          simp only [UInt32.toNat_add, small, shareChange, if_pos buys]
          omega
  · rw [if_neg buys] at success
    split at success
    next => cases success
    next cash added =>
      split at success
      next => cases success
      next enough =>
        obtain rfl := Option.some_inj.mp success
        refine ⟨rfl, ?_, ?_⟩
        · rw [checkedAddCash_eq_some added, price, cashChange, if_neg buys]
        · have covered : UInt32.ofNat order.fill ≤ account.yesShares := by
            rw [UInt32.le_iff_toNat_le, small]
            omega
          simp only [UInt32.toNat_sub_of_le _ _ covered, small, shareChange, if_neg buys]
          omega

/-! ### Allocation -/

/-- Allocation only writes fills. -/
theorem allocate_map {β : Type} (eligible : Nat → Bool) (orders : List Order) (remaining : Nat)
    (g : Order → β) (ignores : ∀ (o : Order) fill, g { o with fill := fill } = g o) :
    (allocate eligible orders remaining).1.map g = orders.map g := by
  induction orders generalizing remaining with
  | nil => rfl
  | cons order rest ih =>
    rw [allocate]
    split
    next => simp [ih]
    next => simp [ih, ignores]

/-- A fill never exceeds its order and goes to eligible orders only. -/
theorem allocate_fill (eligible : Nat → Bool) (orders : List Order) (remaining : Nat)
    (unfilled : ∀ o ∈ orders, o.fill = 0) :
    ∀ o ∈ (allocate eligible orders remaining).1,
      o.fill ≤ o.quantity ∧ (o.fill ≠ 0 → eligible o.limit = true) := by
  induction orders generalizing remaining with
  | nil => simp [allocate]
  | cons order rest ih =>
    have tail := fun left => ih left fun o member => unfilled o (.tail _ member)
    have empty := unfilled order List.mem_cons_self
    rw [allocate]
    split
    next =>
      intro o member
      rcases List.mem_cons.mp member with rfl | later
      · simp [empty]
      · exact tail _ o later
    next open_order =>
      intro o member
      rcases List.mem_cons.mp member with rfl | later
      · rw [not_or, not_not] at open_order
        exact ⟨Nat.min_le_left _ _, fun _ => open_order.1⟩
      · exact tail _ o later

/-- What is filled and what is left make up what was to be allocated. -/
theorem allocate_sum (eligible : Nat → Bool) (orders : List Order) (remaining : Nat)
    (unfilled : ∀ o ∈ orders, o.fill = 0) :
    ((allocate eligible orders remaining).1.map Order.fill).sum +
      (allocate eligible orders remaining).2 = remaining := by
  induction orders generalizing remaining with
  | nil => simp [allocate]
  | cons order rest ih =>
    have tail := fun left => ih left fun o member => unfilled o (.tail _ member)
    have empty := unfilled order List.mem_cons_self
    rw [allocate]
    split
    next =>
      have filled := tail remaining
      simp only [List.map_cons, List.sum_cons]
      omega
    next =>
      have filled := tail (remaining - min order.quantity remaining)
      simp only [List.map_cons, List.sum_cons]
      omega

/-! ### The apply loop -/

def Order.toFill (order : Order) : Fill := ⟨order.agent, order.side, order.fill⟩

/-- Replacing one element of a list changes a sum by the difference. -/
theorem sum_map_set {α : Type} (f : α → Int) {l : List α} {i : Nat} {a b : α}
    (at_index : l[i]? = some a) :
    ((l.set i b).map f).sum = (l.map f).sum + (f b - f a) := by
  induction l generalizing i with
  | nil => simp at at_index
  | cons x xs ih =>
    cases i with
    | zero =>
      obtain rfl : x = a := by simpa using at_index
      simp only [List.set_cons_zero, List.map_cons, List.sum_cons]
      ring
    | succ i =>
      have rest := ih (i := i) (by simpa using at_index)
      simp only [List.set_cons_succ, List.map_cons, List.sum_cons, rest]
      ring

def cashOf (account : Account) : Int := account.cash.toInt

def sharesOf (account : Account) : Int := account.yesShares.toNat

/-- What the apply loop leaves: the totals moved by the changes of the orders, the accounts of
filled orders moved and the others as they were. -/
structure Applied (tick : Nat) (orders : List Order) (accounts : List Account)
    (fills : List Fill) (updated : List Account) (fills' : List Fill) : Prop where
  ids : updated.map Account.id = accounts.map Account.id
  cash : (updated.map cashOf).sum = (accounts.map cashOf).sum + (orders.map (cashChange tick)).sum
  shares : (updated.map sharesOf).sum = (accounts.map sharesOf).sum + (orders.map shareChange).sum
  fills : fills' = fills ++ (orders.filter fun o => decide (o.fill ≠ 0)).map Order.toFill
  untouched : ∀ i, (∀ o ∈ orders, o.fill ≠ 0 → o.accountIndex ≠ i) → updated[i]? = accounts[i]?
  touched : (orders.map Order.accountIndex).Nodup → ∀ o ∈ orders, o.fill ≠ 0 →
    ∃ account settled, accounts[o.accountIndex]? = some account ∧
      updated[o.accountIndex]? = some settled ∧
      Moved account settled (cashChange tick o) (shareChange o)

theorem applyOrders_applied {tick : Nat} {orders : List Order} {accounts updated : List Account}
    {fills fills' : List Fill} (bounded : tick ≤ 99) (few : ∀ o ∈ orders, o.fill ≤ 8)
    (success : applyOrders tick orders accounts fills = some (updated, fills')) :
    Applied tick orders accounts fills updated fills' := by
  induction orders generalizing accounts fills with
  | nil =>
    obtain ⟨rfl, rfl⟩ := Prod.mk.inj (Option.some_inj.mp success)
    exact ⟨rfl, by simp, by simp, by simp, fun _ _ => rfl, by simp⟩
  | cons order rest ih =>
    have later := fun o member => few o (.tail _ member)
    rw [applyOrders] at success
    split at success
    next unfilled =>
      -- an order without a fill settles nothing
      have applied := ih later success
      have cash : cashChange tick order = 0 := by simp [cashChange, unfilled]
      have shares : shareChange order = 0 := by simp [shareChange, unfilled]
      refine ⟨applied.ids, ?_, ?_, ?_, fun i others => ?_, fun distinct o member filled => ?_⟩
      · rw [applied.cash, List.map_cons, List.sum_cons, cash, Int.zero_add]
      · rw [applied.shares, List.map_cons, List.sum_cons, shares, Int.zero_add]
      · rw [applied.fills, List.filter_cons_of_neg (by simpa using unfilled)]
      · exact applied.untouched i fun o member => others o (.tail _ member)
      · rcases List.mem_cons.mp member with rfl | tail
        · exact absurd unfilled filled
        · exact applied.touched (List.nodup_cons.mp distinct).2 o tail filled
    next filled =>
      split at success
      next => cases success
      next account at_index =>
        split at success
        next => cases success
        next settled settles =>
          -- the later orders are applied to the accounts with this one settled
          have moved := settle_exact (few order List.mem_cons_self) bounded settles
          have applied := ih later success
          obtain ⟨inside, value⟩ := List.getElem?_eq_some_iff.mp at_index
          refine ⟨?_, ?_, ?_, ?_, fun i others => ?_, fun distinct o member taken => ?_⟩
          · rw [applied.ids, List.map_set, moved.id]
            refine List.ext_getElem? fun i => ?_
            by_cases here : order.accountIndex = i
            · subst here
              simp [inside, value]
            · simp [here]
          · rw [applied.cash, sum_map_set cashOf at_index, List.map_cons, List.sum_cons,
              cashOf, cashOf, moved.cash]
            ring
          · rw [applied.shares, sum_map_set sharesOf at_index, List.map_cons, List.sum_cons,
              sharesOf, sharesOf, moved.shares]
            ring
          · rw [applied.fills, List.filter_cons_of_pos (by simpa using filled), List.map_cons,
              List.append_assoc, List.singleton_append]
            rfl
          · rw [applied.untouched i fun o member => others o (.tail _ member)]
            simp [others order List.mem_cons_self filled]
          · -- The account of a later order is another one, and later orders leave this one.
            obtain ⟨apart, distinct⟩ := List.nodup_cons.mp distinct
            have elsewhere : ∀ later ∈ rest, later.accountIndex ≠ order.accountIndex :=
              fun later listed same => apart (same ▸ List.mem_map_of_mem listed)
            rcases List.mem_cons.mp member with rfl | tail
            · refine ⟨account, settled, at_index, ?_, moved⟩
              rw [applied.untouched _ fun later listed _ => elsewhere later listed]
              simp [inside]
            · obtain ⟨before, after, read, write, exact_move⟩ :=
                applied.touched distinct o tail taken
              refine ⟨before, after, ?_, write, exact_move⟩
              rwa [List.getElem?_set_ne (Ne.symm (elsewhere o tail))] at read

end MarketForge
