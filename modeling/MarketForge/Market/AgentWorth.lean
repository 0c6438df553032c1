import Mathlib.Algebra.Order.Ring.Int
import MarketForge.Market.PriorityFills

/-!
# What an agent's account is worth to it

An agent that values a share by an amount of cash holds its cash and that amount for every share.
If it never bids above the amount and never asks below it, no batch makes its account worth less,
whatever the other agents submit: every fill is at the clearing tick, within the limit of its
order, and no other order touches the account.
-/
namespace MarketForge

open BatchMarket

/-- What an account is worth at an amount of cash for a share. -/
def worth (value : ℤ) (account : Account) : ℤ := cashOf account + value * sharesOf account

/-- The agent's orders pay at most the value for a share and ask at least the value. -/
def WithinValue (agent : AgentId) (value : ℤ) (actions : List AgentAction) : Prop :=
  ∀ s ∈ actions, s.agent = agent →
    (s.action.kind = .buyYes → (s.action.priceTick : ℤ) * 10000 ≤ value) ∧
      (s.action.kind = .sellYes → value ≤ (s.action.priceTick : ℤ) * 10000)

instance (agent : AgentId) (value : ℤ) (actions : List AgentAction) :
    Decidable (WithinValue agent value actions) := by
  unfold WithinValue
  infer_instance

/-- An account that moves by shares at a price is worth more by what they gain. -/
theorem Moved.worth_eq {before now : Account} {shares price : ℤ}
    (moved : Moved before now (-(shares * price)) shares) (value : ℤ) :
    worth value now = worth value before + shares * (value - price) := by
  have cash : cashOf now = cashOf before + -(shares * price) := moved.cash
  have held : sharesOf now = sharesOf before + shares := moved.shares
  rw [worth, worth, cash, held]
  ring

/-- The fills of a batch that trades gain by the value of their agent. -/
theorem FilledByPriority.worth_le {market after : BatchMarket} {actions : List AgentAction}
    {result : BatchResult} (filled : FilledByPriority market actions result after) {i : Nat}
    {before now : Account} (read : market.accounts[i]? = some before)
    (write : after.accounts[i]? = some now) {value : ℤ}
    (within : WithinValue before.id value actions) : worth value before ≤ worth value now := by
  by_cases charged : ∃ fill ∈ result.fills, fill.agent = before.id
  · obtain ⟨fill, listed, owner⟩ := charged
    rw [(filled.charged i before now read write fill listed owner).worth_eq]
    obtain ⟨s, submitted, agent, side, eligible, _, _⟩ := filled.limits fill listed
    obtain ⟨bids, asks⟩ := within s submitted (agent.trans owner)
    -- the fill is at the clearing tick, on the good side of the agent's limit
    have gain : 0 ≤ fill.shares * (value - (result.clearingTick : ℤ) * 10000) := by
      rcases eligible with ⟨buys, high⟩ | ⟨sells, low⟩
      · have paid := bids buys
        rw [Fill.shares, if_pos (side.symm.trans buys)]
        exact mul_nonneg (Int.natCast_nonneg _) (by omega)
      · have asked := asks sells
        rw [Fill.shares, if_neg (by rw [← side, sells]; decide)]
        exact mul_nonneg_of_nonpos_of_nonpos (by omega) (by omega)
    omega
  · have silent : ∀ fill ∈ result.fills, fill.agent ≠ before.id :=
      fun fill listed owner => charged ⟨fill, listed, owner⟩
    rw [filled.untouched i before now read write silent]

/-- One batch, accepted or not. -/
theorem ClearEffect.worth_le {market after : BatchMarket} {actions : List AgentAction}
    {reply : Result BatchResult} (unique : (market.accounts.map Account.id).Nodup)
    (effect : ClearEffect market actions reply after) {i : Nat} {before now : Account}
    (read : market.accounts[i]? = some before) (write : after.accounts[i]? = some now) {value : ℤ}
    (within : WithinValue before.id value actions) : worth value before ≤ worth value now := by
  cases effect with
  | refused => rw [Option.some_inj.mp (read.symm.trans write)]
  | untraded => rw [Option.some_inj.mp (read.symm.trans write)]
  | traded admitted search matched bought sold apply =>
    have filled := clear_filled unique (.traded admitted search matched bought sold apply) rfl
    exact filled.worth_le read write within

/-- What holds of an account along a run: it stays at its index under its id. -/
structure Owned (ids : List AgentId) (i : Nat) (agent : AgentId) (value least : ℤ)
    (market : BatchMarket) : Prop where
  ids : market.accounts.map Account.id = ids
  account : ∃ account, market.accounts[i]? = some account ∧ account.id = agent ∧
    least ≤ worth value account

theorem Owned.step {ids : List AgentId} (unique : ids.Nodup) {i : Nat} {agent : AgentId}
    {value least : ℤ} {market after : BatchMarket} {actions : List AgentAction}
    {reply : Result BatchResult} (owned : Owned ids i agent value least market)
    (effect : ClearEffect market actions reply after) (kept : after.accounts.map Account.id = ids)
    (within : WithinValue agent value actions) : Owned ids i agent value least after := by
  obtain ⟨before, read, rfl, bound⟩ := owned.account
  have same_length : after.accounts.length = market.accounts.length := by
    simpa using congrArg List.length (kept.trans owned.ids.symm)
  have inside := (List.getElem?_eq_some_iff.mp read).1
  have write := List.getElem?_eq_getElem (same_length.symm ▸ inside)
  refine ⟨kept, _, write, ?_, bound.trans (effect.worth_le (owned.ids ▸ unique) read write within)⟩
  -- the ids at the index agree, since the list of ids is the same
  have ids := congrArg (fun list => list[i]?) (kept.trans owned.ids.symm)
  simp only [List.getElem?_map, write, read, Option.map_some, Option.some_inj] at ids
  exact ids

/-- The batches of a run keep it, as long as they are within the value. -/
theorem Owned.run {ids : List AgentId} (unique : ids.Nodup) {i : Nat} {agent : AgentId}
    {value least cash shares : ℤ} {market : BatchMarket}
    (owned : Owned ids i agent value least market) (sound : MarketSound ids cash shares market)
    (batches : List BatchCall)
    (within : ∀ batch ∈ batches, WithinValue agent value batch.actions) :
    Owned ids i agent value least (marketMachine.run market batches) := by
  induction batches generalizing market with
  | nil => exact owned
  | cons batch rest ih =>
    have effect := clear_effect batch.memory market batch.actions
    have next := (sound.step unique effect).1
    exact ih (owned.step unique effect next.ids (within batch List.mem_cons_self)) next
      fun later listed => within later (.tail _ listed)

/-- Over every run of batches, the account of an agent that bids at most its value and asks at
least its value is worth no less at the end than at the start, whatever the others submit. -/
theorem worth_never_falls {memory : Memory} {accounts : List Account} {referenceTick : Nat}
    {market : BatchMarket} (created : create memory accounts referenceTick = .ok market)
    (batches : List BatchCall) {i : Nat} {before now : Account} {value : ℤ}
    (within : ∀ batch ∈ batches, WithinValue before.id value batch.actions)
    (read : market.accounts[i]? = some before)
    (write : (marketMachine.run market batches).accounts[i]? = some now) :
    now.id = before.id ∧ worth value before ≤ worth value now := by
  have increasing := (create_sound created).1
  have unique : (market.accounts.map Account.id).Nodup :=
    increasing.imp fun less => UInt32.ne_of_lt less
  have sound := reached_sound created []
  obtain ⟨account, found, owner, bound⟩ :=
    (Owned.run unique ⟨rfl, before, read, rfl, le_rfl⟩ sound batches within).account
  obtain rfl := Option.some_inj.mp (found.symm.trans write)
  exact ⟨owner, bound⟩

/-- An agent with a value of 60 ticks buys at 58 and sells at 64. -/
theorem worth_never_falls_two_batches :
    worth 600000 ⟨0, 5000000, 0⟩ ≤ worth 600000 ⟨0, 5060000, 0⟩ := by
  let buy : BatchCall := ⟨fun _ => true,
    [⟨0, ⟨.buyYes, 1, 58, by decide⟩⟩, ⟨2, ⟨.sellYes, 2, 50, by decide⟩⟩]⟩
  let sell : BatchCall := ⟨fun _ => true,
    [⟨0, ⟨.sellYes, 1, 64, by decide⟩⟩, ⟨2, ⟨.buyYes, 2, 70, by decide⟩⟩]⟩
  have created : create (fun _ => true) [⟨0, 5000000, 0⟩, ⟨2, 5000000, 5⟩] 58 =
      .ok ⟨[⟨0, 5000000, 0⟩, ⟨2, 5000000, 5⟩], 58⟩ := by decide +kernel
  exact (worth_never_falls (i := 0) created [buy, sell] (by decide) rfl (by decide +kernel)).2

end MarketForge
