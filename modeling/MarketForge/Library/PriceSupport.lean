import Mathlib.Algebra.Order.BigOperators.Group.List
import Mathlib.Algebra.Order.Ring.Defs
import Mathlib.Data.List.MinMax
import Mathlib.Tactic.Linarith
import Mathlib.Tactic.Ring

/-!
# Allocations supported by a price

The members of an exchange buy, sell or abstain; each has a value for a unit and a bound on what it
trades. An allocation gives every member a quantity, and it is balanced when as much is bought as
sold. A price supports it when who gains at that price trades up to the bound and who loses trades
nothing. A supported allocation has the largest gains of all balanced ones, every other allocation
with these gains is supported by the same price, and a price exists as soon as no two members can
improve by an exchange between them.
-/
namespace PriceSupport

variable {ι R : Type}

inductive Side where
  | buys
  | sells
  | abstains
  deriving DecidableEq

/-- The members of an exchange. -/
structure Exchange (ι R : Type) where
  members : List ι
  side : ι → Side
  value : ι → R
  bound : ι → R

/-- The sign of a trade: what is bought counts for, what is sold against. -/
def Side.sign [CommRing R] : Side → R
  | .buys => 1
  | .sells => -1
  | .abstains => 0

namespace Exchange

variable [CommRing R] [LinearOrder R] (exchange : Exchange ι R)

/-- What is bought less what is sold. -/
def net (allocation : ι → R) : R :=
  (exchange.members.map fun i => (exchange.side i).sign * allocation i).sum

/-- The value that the allocation moves from its sellers to its buyers. -/
def gains (allocation : ι → R) : R :=
  (exchange.members.map fun i => (exchange.side i).sign * exchange.value i * allocation i).sum

structure Feasible (allocation : ι → R) : Prop where
  nonneg : ∀ i ∈ exchange.members, 0 ≤ allocation i
  within : ∀ i ∈ exchange.members, allocation i ≤ exchange.bound i
  balanced : exchange.net allocation = 0

/-- What a member gains by a unit at a price. -/
def margin (price : R) (i : ι) : R := (exchange.side i).sign * (exchange.value i - price)

structure Supports (price : R) (allocation : ι → R) : Prop where
  full : ∀ i ∈ exchange.members, 0 < exchange.margin price i → allocation i = exchange.bound i
  empty : ∀ i ∈ exchange.members, exchange.margin price i < 0 → allocation i = 0

variable {exchange} {allocation other : ι → R} {price : R}

/-! ### Where a price comes from -/

/-- No two members improve by an exchange of a unit between them. -/
structure Settled (exchange : Exchange ι R) (allocation : ι → R) : Prop where
  buyers : ∀ i ∈ exchange.members, ∀ j ∈ exchange.members, exchange.side i = .buys →
    exchange.side j = .buys → allocation i < exchange.bound i → 0 < allocation j →
      exchange.value i ≤ exchange.value j
  sellers : ∀ i ∈ exchange.members, ∀ j ∈ exchange.members, exchange.side i = .sells →
    exchange.side j = .sells → allocation i < exchange.bound i → 0 < allocation j →
      exchange.value j ≤ exchange.value i
  left : ∀ i ∈ exchange.members, ∀ j ∈ exchange.members, exchange.side i = .buys →
    exchange.side j = .sells → allocation i < exchange.bound i →
      allocation j < exchange.bound j → exchange.value i ≤ exchange.value j
  traded : ∀ i ∈ exchange.members, ∀ j ∈ exchange.members, exchange.side i = .buys →
    exchange.side j = .sells → 0 < allocation i → 0 < allocation j →
      exchange.value j ≤ exchange.value i

/-- A value between the values of two lists. -/
theorem exists_between {low high : List R} (ordered : ∀ l ∈ low, ∀ h ∈ high, l ≤ h) :
    ∃ price, (∀ l ∈ low, l ≤ price) ∧ ∀ h ∈ high, price ≤ h := by
  cases greatest : low.maximum with
  | coe price =>
    obtain ⟨listed, above⟩ := List.maximum_eq_coe_iff.mp greatest
    exact ⟨price, above, ordered price listed⟩
  | bot =>
    -- with nothing below, the least of the upper values will do
    obtain rfl := List.maximum_eq_bot.mp greatest
    cases least : high.minimum with
    | coe price => exact ⟨price, by simp, (List.minimum_eq_coe_iff.mp least).2⟩
    | top =>
      obtain rfl := List.minimum_eq_top.mp least
      exact ⟨0, by simp, by simp⟩

/-- Who would trade more, or less, below a price: buyers with room left and sellers that trade. -/
def wanting (exchange : Exchange ι R) (allocation : ι → R) : List ι :=
  exchange.members.filter fun i =>
    (decide (exchange.side i = .buys) && decide (allocation i < exchange.bound i)) ||
      (decide (exchange.side i = .sells) && decide (0 < allocation i))

/-- Who would trade more, or less, above a price: sellers with room left and buyers that trade. -/
def offering (exchange : Exchange ι R) (allocation : ι → R) : List ι :=
  exchange.members.filter fun i =>
    (decide (exchange.side i = .sells) && decide (allocation i < exchange.bound i)) ||
      (decide (exchange.side i = .buys) && decide (0 < allocation i))

theorem mem_wanting {i : ι} : i ∈ wanting exchange allocation ↔ i ∈ exchange.members ∧
    ((exchange.side i = .buys ∧ allocation i < exchange.bound i) ∨
      (exchange.side i = .sells ∧ 0 < allocation i)) := by
  simp [wanting]

theorem mem_offering {i : ι} : i ∈ offering exchange allocation ↔ i ∈ exchange.members ∧
    ((exchange.side i = .sells ∧ allocation i < exchange.bound i) ∨
      (exchange.side i = .buys ∧ 0 < allocation i)) := by
  simp [offering]

theorem Settled.ordered (settled : Settled exchange allocation) {i j : ι}
    (wants : i ∈ wanting exchange allocation) (offers : j ∈ offering exchange allocation) :
    exchange.value i ≤ exchange.value j := by
  obtain ⟨iMember, iWants⟩ := mem_wanting.mp wants
  obtain ⟨jMember, jOffers⟩ := mem_offering.mp offers
  rcases iWants with ⟨iBuys, iRoom⟩ | ⟨iSells, iTrades⟩
  · rcases jOffers with ⟨jSells, jRoom⟩ | ⟨jBuys, jTrades⟩
    · exact settled.left i iMember j jMember iBuys jSells iRoom jRoom
    · exact settled.buyers i iMember j jMember iBuys jBuys iRoom jTrades
  · rcases jOffers with ⟨jSells, jRoom⟩ | ⟨jBuys, jTrades⟩
    · exact settled.sellers j jMember i iMember jSells iSells jRoom iTrades
    · exact settled.traded j jMember i iMember jBuys iSells jTrades iTrades

/-! ### Gains -/

variable [IsStrictOrderedRing R]

omit [LinearOrder R] [IsStrictOrderedRing R] in
/-- At any price, the gains of a balanced allocation are the margins of what it trades. -/
theorem gains_eq_margins (price : R) (balanced : exchange.net allocation = 0) :
    exchange.gains allocation =
      (exchange.members.map fun i => exchange.margin price i * allocation i).sum := by
  have split : ∀ members : List ι,
      (members.map fun i => exchange.margin price i * allocation i).sum =
        (members.map fun i => (exchange.side i).sign * exchange.value i * allocation i).sum -
          price * (members.map fun i => (exchange.side i).sign * allocation i).sum := by
    intro members
    induction members with
    | nil => simp
    | cons i rest ih =>
      rw [List.map_cons, List.sum_cons, ih, List.map_cons, List.sum_cons, List.map_cons,
        List.sum_cons, margin]
      ring
  rw [split, ← gains, ← net, balanced, mul_zero, sub_zero]

/-- Member by member, a supported allocation earns the most at its price. -/
theorem Supports.margin_le (supports : exchange.Supports price allocation)
    (feasible : exchange.Feasible other) {i : ι} (member : i ∈ exchange.members) :
    exchange.margin price i * other i ≤ exchange.margin price i * allocation i := by
  rcases lt_trichotomy (exchange.margin price i) 0 with loses | even | gains
  · rw [supports.empty i member loses, mul_zero]
    exact mul_nonpos_of_nonpos_of_nonneg loses.le (feasible.nonneg i member)
  · rw [even, zero_mul, zero_mul]
  · rw [supports.full i member gains]
    exact mul_le_mul_of_nonneg_left (feasible.within i member) gains.le

/-- A supported allocation has the largest gains. -/
theorem Supports.gains_le (supports : exchange.Supports price allocation)
    (balanced : exchange.net allocation = 0) (feasible : exchange.Feasible other) :
    exchange.gains other ≤ exchange.gains allocation := by
  rw [gains_eq_margins price feasible.balanced, gains_eq_margins price balanced]
  exact List.sum_le_sum fun i member => supports.margin_le feasible member

theorem eq_of_sum_eq {f g : ι → R} {members : List ι} (below : ∀ i ∈ members, f i ≤ g i)
    (same : (members.map f).sum = (members.map g).sum) : ∀ i ∈ members, f i = g i := by
  induction members with
  | nil => exact fun _ none => absurd none List.not_mem_nil
  | cons i rest ih =>
    have first := below i List.mem_cons_self
    have others : (rest.map f).sum ≤ (rest.map g).sum :=
      List.sum_le_sum fun j later => below j (.tail _ later)
    simp only [List.map_cons, List.sum_cons] at same
    intro j member
    rcases List.mem_cons.mp member with rfl | later
    · linarith
    · exact ih (fun j later => below j (.tail _ later)) (by linarith) j later

/-- An allocation with the same gains is supported by the same price. -/
theorem Supports.of_gains_eq (supports : exchange.Supports price allocation)
    (balanced : exchange.net allocation = 0) (feasible : exchange.Feasible other)
    (same : exchange.gains other = exchange.gains allocation) :
    exchange.Supports price other := by
  rw [gains_eq_margins price feasible.balanced, gains_eq_margins price balanced] at same
  have each := eq_of_sum_eq (fun i member => supports.margin_le feasible member) same
  constructor
  case full =>
    intro i member gains
    rw [← supports.full i member gains]
    exact mul_left_cancel₀ gains.ne' (each i member)
  case empty =>
    intro i member loses
    rw [← supports.empty i member loses]
    exact mul_left_cancel₀ loses.ne (each i member)

/-- When no two members can improve, some price supports the allocation. -/
theorem Settled.supports (settled : Settled exchange allocation)
    (feasible : exchange.Feasible allocation) : ∃ price, exchange.Supports price allocation := by
  have ordered : ∀ l ∈ (wanting exchange allocation).map exchange.value,
      ∀ h ∈ (offering exchange allocation).map exchange.value, l ≤ h := by
    intro l inLow h inHigh
    obtain ⟨i, wants, rfl⟩ := List.mem_map.mp inLow
    obtain ⟨j, offers, rfl⟩ := List.mem_map.mp inHigh
    exact settled.ordered wants offers
  -- all who want more value it less than all who would give some up
  obtain ⟨price, above, below⟩ := exists_between ordered
  -- so the price bounds the values of both
  have wanted : ∀ i ∈ wanting exchange allocation, exchange.value i ≤ price :=
    fun i listed => above _ (List.mem_map_of_mem listed)
  have offered : ∀ i ∈ offering exchange allocation, price ≤ exchange.value i :=
    fun i listed => below _ (List.mem_map_of_mem listed)
  refine ⟨price, fun i member gains => ?_, fun i member loses => ?_⟩
  · by_contra short
    have room := lt_of_le_of_ne (feasible.within i member) short
    cases side : exchange.side i with
    | buys =>
      have low := wanted i (mem_wanting.mpr ⟨member, .inl ⟨side, room⟩⟩)
      rw [margin, side, Side.sign] at gains
      linarith
    | sells =>
      have high := offered i (mem_offering.mpr ⟨member, .inl ⟨side, room⟩⟩)
      rw [margin, side, Side.sign] at gains
      linarith
    | abstains => simp [margin, side, Side.sign] at gains
  · by_contra trades
    have some := lt_of_le_of_ne (feasible.nonneg i member) (Ne.symm trades)
    cases side : exchange.side i with
    | buys =>
      have high := offered i (mem_offering.mpr ⟨member, .inr ⟨side, some⟩⟩)
      rw [margin, side, Side.sign] at loses
      linarith
    | sells =>
      have low := wanted i (mem_wanting.mpr ⟨member, .inr ⟨side, some⟩⟩)
      rw [margin, side, Side.sign] at loses
      linarith
    | abstains => simp [margin, side, Side.sign] at loses

end Exchange

end PriceSupport
