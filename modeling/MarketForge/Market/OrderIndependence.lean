import MarketForge.Market.ClearingPrice
import MarketForge.Market.Conservation

/-!
# Independence of the order of submission

A permuted batch is admitted when the batch is, its books are permutations of the books of the
batch, and nothing after admission sees their order: the scan adds up quantities and the
allocation goes through the books sorted by keys that are unique, since agents are distinct.
A hold of an agent that did not submit passes admission and leaves the books as they are.
-/
namespace MarketForge

open BatchMarket

/-! ### Sums and sorted books -/

/-- The quantity of the orders of a book whose limit is acceptable. -/
def acceptedQuantity (acceptable : Nat → Bool) (orders : List Order) : Nat :=
  ((orders.filter fun o => acceptable o.limit).map Order.quantity).sum

/-- The guarded sum is the sum when that fits. -/
theorem accumulate_bounded {acceptable : Nat → Bool} {orders : List Order} {total : Nat}
    (small : ∀ o ∈ orders, o.quantity ≤ UInt64.size - 1) (fits : total ≤ UInt64.size - 1) :
    accumulate acceptable orders total =
      if total + acceptedQuantity acceptable orders ≤ UInt64.size - 1 then
        some (total + acceptedQuantity acceptable orders) else none := by
  induction orders generalizing total with
  | nil => exact (if_pos fits).symm
  | cons order rest ih =>
    have quantity := small order List.mem_cons_self
    have later : ∀ o ∈ rest, o.quantity ≤ UInt64.size - 1 :=
      fun o member => small o (.tail _ member)
    rw [accumulate]
    by_cases counts : acceptable order.limit = true
    · have sum : acceptedQuantity acceptable (order :: rest) =
          order.quantity + acceptedQuantity acceptable rest := by
        rw [acceptedQuantity, List.filter_cons_of_pos (by exact counts), List.map_cons,
          List.sum_cons]
        rfl
      rw [if_pos counts, sum, ← Nat.add_assoc]
      split
      next beyond => rw [if_neg (by omega)]
      next room => exact ih later (by omega)
    · have sum : acceptedQuantity acceptable (order :: rest) =
          acceptedQuantity acceptable rest := by
        rw [acceptedQuantity, List.filter_cons_of_neg (by exact counts)]
        rfl
      rw [if_neg counts, sum]
      exact ih later fits

theorem accumulate_perm (acceptable : Nat → Bool) {orders permuted : List Order}
    (small : ∀ o ∈ orders, o.quantity ≤ UInt64.size - 1) (perm : orders.Perm permuted) :
    accumulate acceptable orders 0 = accumulate acceptable permuted 0 := by
  have small' : ∀ o ∈ permuted, o.quantity ≤ UInt64.size - 1 :=
    fun o member => small o (perm.mem_iff.mpr member)
  have sums : acceptedQuantity acceptable orders = acceptedQuantity acceptable permuted :=
    ((perm.filter _).map Order.quantity).sum_eq
  rw [accumulate_bounded small (Nat.zero_le _), accumulate_bounded small' (Nat.zero_le _), sums]

/-- The scan reads the books only through the sums at each tick. -/
theorem scanTicks_congr {buys sells buys' sells' : List Order} (lastTradedTick : Nat)
    (demanded : ∀ tick, accumulate (buyEligible tick) buys 0 =
      accumulate (buyEligible tick) buys' 0)
    (supplied : ∀ tick,
      accumulate (sellEligible tick) sells 0 = accumulate (sellEligible tick) sells' 0)
    (ticks : List Nat) (best : ClearingCandidate) :
    scanTicks buys sells lastTradedTick ticks best =
      scanTicks buys' sells' lastTradedTick ticks best := by
  induction ticks generalizing best with
  | nil => rfl
  | cons tick rest ih =>
    rw [scanTicks, scanTicks, demanded, supplied]
    split
    next => exact ih _
    next => rfl

/-- Sorting by keys that tell the items apart forgets the order of the items. -/
theorem sortBy_perm_eq {α κ : Type} [LinearOrder κ] {key : α → κ} {items permuted : List α}
    (apart : ∀ x ∈ items, ∀ y ∈ items, key x = key y → x = y) (perm : items.Perm permuted) :
    sortBy key items = sortBy key permuted := by
  have sorted := sortBy_perm key items
  have sorted' := sortBy_perm key permuted
  refine List.Perm.eq_of_pairwise (fun x y listed listed' before after => ?_)
    (sortBy_sorted key items) (sortBy_sorted key permuted) ((sorted.trans perm).trans sorted'.symm)
  exact apart x (sorted.mem_iff.mp listed) y (perm.mem_iff.mpr (sorted'.mem_iff.mp listed'))
    (le_antisymm before after)

/-! ### Admission -/

namespace BatchMarket

/-- The refusal of a submission by its account, if there is one. -/
def refusal (accounts : List Account) (submission : AgentAction) : Option Status :=
  match accounts[lowerBound accounts submission.agent]? with
  | none => some (.failure .invalidArgument)
  | some account =>
    if account.id ≠ submission.agent then some (.failure .invalidArgument)
    else match submission.action.kind with
      | .hold => none
      | .buyYes =>
        if account.cash < notional submission.action.quantity submission.action.priceTick then
          some (.failure .insufficientResources)
        else none
      | .sellYes =>
        if account.yesShares.toNat < submission.action.quantity then
          some (.failure .insufficientResources)
        else none

theorem refusal_of_admissible {accounts : List Account} {submission : AgentAction}
    (admissible : Admissible accounts submission) : refusal accounts submission = none := by
  obtain ⟨account, found, owner, buy, sell⟩ := admissible
  rw [refusal, found]
  dsimp only
  rw [if_neg (not_not.mpr owner)]
  cases kind : submission.action.kind with
  | hold => rfl
  | buyYes => exact if_neg (Int64.not_lt.mpr (buy kind))
  | sellYes => exact if_neg (Nat.not_lt.mpr (sell kind))

/-- A submission is refused for its agent or its account, not for memory. -/
theorem refusal_status {accounts : List Account} {submission : AgentAction} {status : Status}
    (refused : refusal accounts submission = some status) :
    status = .failure .invalidArgument ∨ status = .failure .insufficientResources := by
  unfold refusal at refused
  split at refused
  next => exact .inl (Option.some_inj.mp refused).symm
  next account found =>
    split at refused
    next => exact .inl (Option.some_inj.mp refused).symm
    next =>
      split at refused
      next => cases refused
      next =>
        split at refused
        next => exact .inr (Option.some_inj.mp refused).symm
        next => cases refused
      next =>
        split at refused
        next => exact .inr (Option.some_inj.mp refused).symm
        next => cases refused

/-- One round of the admission loop. -/
theorem collectOrders_round (memory : Memory) (accounts : List Account) (point : Nat)
    (submission : AgentAction) (rest : List AgentAction) (submitted : List AgentId)
    (buys sells : List Order) :
    collectOrders memory accounts point (submission :: rest) submitted buys sells =
      if submission.agent ∈ submitted then .error (.failure .invalidArgument)
      else if ¬ memory point then .error (.failure .allocationFailed)
      else match refusal accounts submission with
        | some status => .error status
        | none => collectOrders memory accounts (point + 1) rest (submission.agent :: submitted)
            (buys ++ buysOf accounts [submission]) (sells ++ sellsOf accounts [submission]) := by
  rw [collectOrders, refusal]
  refine if_congr Iff.rfl rfl (if_congr Iff.rfl rfl ?_)
  dsimp only
  cases found : accounts[lowerBound accounts submission.agent]? with
  | none => rfl
  | some account =>
    dsimp only
    by_cases owned : account.id = submission.agent
    · rw [if_neg (not_not.mpr owned), if_neg (not_not.mpr owned)]
      cases kind : submission.action.kind with
      | hold => simp [buysOf, sellsOf, AgentAction.isBuy, AgentAction.isSell, kind]
      | buyYes =>
        dsimp only
        split
        next => rfl
        next => simp [buysOf, sellsOf, AgentAction.isBuy, AgentAction.isSell, orderOf, kind]
      | sellYes =>
        dsimp only
        split
        next => rfl
        next => simp [buysOf, sellsOf, AgentAction.isBuy, AgentAction.isSell, orderOf, kind]
    · rw [if_pos owned, if_pos owned]

/-- A new, covered submission passes a round of the admission loop. -/
theorem collectOrders_step {memory : Memory} {accounts : List Account} {point : Nat}
    {submission : AgentAction} {rest : List AgentAction} {submitted : List AgentId}
    {buys sells : List Order} (new : submission.agent ∉ submitted) (granted : memory point = true)
    (admissible : Admissible accounts submission) :
    collectOrders memory accounts point (submission :: rest) submitted buys sells =
      collectOrders memory accounts (point + 1) rest (submission.agent :: submitted)
        (buys ++ buysOf accounts [submission]) (sells ++ sellsOf accounts [submission]) := by
  rw [collectOrders_round, if_neg new, if_neg (not_not.mpr granted),
    refusal_of_admissible admissible]

/-- Every insertion into the set of submitted agents was granted. -/
theorem collectOrders_granted {memory : Memory} {accounts : List Account} {point : Nat}
    {actions : List AgentAction} {submitted : List AgentId} {buys sells : List Order}
    {books : List Order × List Order}
    (admitted : collectOrders memory accounts point actions submitted buys sells = .ok books) :
    ∀ i < actions.length, memory (point + i) = true := by
  induction actions generalizing point submitted buys sells with
  | nil => simp
  | cons submission rest ih =>
    intro i inside
    cases i with
    | zero =>
      rw [collectOrders] at admitted
      split at admitted
      next => cases admitted
      next =>
        split at admitted
        next => cases admitted
        next granted => exact not_not.mp granted
    | succ i =>
      have later := ih (collectOrders_cons admitted).2.2 i (Nat.lt_of_succ_lt_succ inside)
      rwa [Nat.add_right_comm] at later

/-- An admissible batch of new, distinct agents is collected when memory is granted. -/
theorem collectOrders_admitted {memory : Memory} {accounts : List Account} {point : Nat}
    {actions : List AgentAction} {submitted : List AgentId} {buys sells : List Order}
    (admitted : Admitted accounts actions)
    (new : ∀ submission ∈ actions, submission.agent ∉ submitted)
    (granted : ∀ i < actions.length, memory (point + i) = true) :
    collectOrders memory accounts point actions submitted buys sells =
      .ok (buys ++ buysOf accounts actions, sells ++ sellsOf accounts actions) := by
  induction actions generalizing point submitted buys sells with
  | nil => simp [collectOrders, buysOf, sellsOf]
  | cons submission rest ih =>
    obtain ⟨first, later⟩ := List.forall_mem_cons.mp new
    obtain ⟨covered, others⟩ := List.forall_mem_cons.mp admitted.admissible
    obtain ⟨apart, distinct⟩ := List.nodup_cons.mp admitted.distinct
    have served : memory point = true := granted 0 (Nat.zero_lt_succ _)
    rw [collectOrders_step first served covered, ih ⟨distinct, others⟩,
      buysOf_cons accounts submission rest, sellsOf_cons accounts submission rest,
      List.append_assoc, List.append_assoc]
    · intro other member seen
      rcases List.mem_cons.mp seen with same | before
      · exact apart (same ▸ List.mem_map_of_mem member)
      · exact later other member before
    · intro i inside
      rw [Nat.add_assoc, Nat.add_comm 1]
      exact granted (i + 1) (Nat.succ_lt_succ inside)

end BatchMarket

theorem Admitted.perm {accounts : List Account} {actions permuted : List AgentAction}
    (admitted : Admitted accounts actions) (perm : actions.Perm permuted) :
    Admitted accounts permuted where
  distinct := (perm.map AgentAction.agent).nodup_iff.mp admitted.distinct
  admissible := fun submission member =>
    admitted.admissible submission (perm.mem_iff.mpr member)

/-! ### After admission -/

/-- What `clear` does with the books it has collected; `count` is the length of the batch. -/
def clearBooks (memory : Memory) (market : BatchMarket) (count : Nat) (buys sells : List Order) :
    Result BatchResult × BatchMarket :=
  match scanTicks buys sells market.lastTradedTick ticks noCandidate with
  | none => (.error (.failure .arithmeticOverflow), market)
  | some best =>
    if best.matchedQuantity = 0 then (.ok {}, market)
    else if best.matchedQuantity > UInt32.size - 1 then
      (.error (.failure .arithmeticOverflow), market)
    else
      let (filledBuys, buysLeft) :=
        allocate (buyEligible best.tick) (sortBy buyPriority buys) best.matchedQuantity
      let (filledSells, sellsLeft) :=
        allocate (sellEligible best.tick) (sortBy sellPriority sells) best.matchedQuantity
      if buysLeft ≠ 0 ∨ sellsLeft ≠ 0 then (.error (.failure .invalidFormat), market)
      else if ¬ memory (count + 2) ∨ ¬ memory (count + 3) then
        (.error (.failure .allocationFailed), market)
      else match applyOrders best.tick (filledBuys ++ filledSells) market.accounts [] with
        | none => (.error (.failure .arithmeticOverflow), market)
        | some (updated, fills) =>
          (.ok {
            traded := true
            clearingTick := best.tick
            matchedQuantity := best.matchedQuantity
            fills := sortBy (fun fill => fill.agent.toNat) fills },
            ⟨updated, best.tick⟩)

theorem clear_eq (memory : Memory) (market : BatchMarket) (actions : List AgentAction) :
    clear memory market actions =
      if ¬ memory 0 ∨ ¬ memory 1 then (.error (.failure .allocationFailed), market)
      else match collectOrders memory market.accounts 2 actions [] [] [] with
        | .error status => (.error status, market)
        | .ok (buys, sells) => clearBooks memory market actions.length buys sells :=
  rfl

/-- An accepted batch was admitted with every allocation granted. -/
theorem clear_admitted {memory : Memory} {market after : BatchMarket} {actions : List AgentAction}
    {result : BatchResult} (accepted : clear memory market actions = (.ok result, after)) :
    (memory 0 = true ∧ memory 1 = true) ∧ Admitted market.accounts actions ∧
      ∀ i < actions.length, memory (2 + i) = true := by
  rw [clear_eq] at accepted
  split at accepted
  next => cases accepted
  next reserved =>
    rw [not_or, not_not, not_not] at reserved
    split at accepted
    next => cases accepted
    next buys sells collected =>
      exact ⟨reserved, (collectOrders_ok collected).1, collectOrders_granted collected⟩

theorem clear_of_admitted {memory : Memory} {market : BatchMarket} {actions : List AgentAction}
    (reserved : memory 0 = true ∧ memory 1 = true) (admitted : Admitted market.accounts actions)
    (granted : ∀ i < actions.length, memory (2 + i) = true) :
    clear memory market actions = clearBooks memory market actions.length
      (buysOf market.accounts actions) (sellsOf market.accounts actions) := by
  rw [clear_eq, if_neg (by simp [reserved]), collectOrders_admitted admitted (by simp) granted]
  rfl

/-! ### Permuted batches -/

/-- The orders of a book are small and are told apart by their agents. -/
structure DistinctBook (book : List Order) : Prop where
  small : ∀ o ∈ book, o.quantity ≤ UInt64.size - 1
  apart : ∀ x ∈ book, ∀ y ∈ book, x.agent.toNat = y.agent.toNat → x = y

theorem distinctBook (accounts : List Account) {actions : List AgentAction}
    (distinct : (actions.map AgentAction.agent).Nodup) (kept : AgentAction → Bool)
    (acts : ∀ submission, kept submission = true → submission.action.kind ≠ .hold) :
    DistinctBook ((actions.filter kept).map (orderOf accounts)) := by
  constructor
  · intro o member
    obtain ⟨submission, listed, rfl⟩ := List.mem_map.mp member
    obtain ⟨⟨_, few⟩, _⟩ := submission.action.bounds (acts _ (List.mem_filter.mp listed).2)
    exact few.trans (by decide)
  · intro x member y member' same
    have agents : (((actions.filter kept).map (orderOf accounts)).map Order.agent).Nodup := by
      rw [List.map_map]
      exact (List.filter_sublist.map _).nodup distinct
    exact List.inj_on_of_nodup_map agents member member' (UInt32.toNat_inj.mp same)

/-- What follows admission does not see the order of the books. -/
theorem clearBooks_perm (memory : Memory) (market : BatchMarket) (count : Nat)
    {buys buys' sells sells' : List Order} (buyBook : DistinctBook buys)
    (sellBook : DistinctBook sells) (buyPerm : buys.Perm buys') (sellPerm : sells.Perm sells') :
    clearBooks memory market count buys sells = clearBooks memory market count buys' sells' := by
  have scan := scanTicks_congr market.lastTradedTick
    (fun tick => accumulate_perm (buyEligible tick) buyBook.small buyPerm)
    (fun tick => accumulate_perm (sellEligible tick) sellBook.small sellPerm) ticks noCandidate
  -- Equal priorities are priorities of one agent.
  have bought : sortBy buyPriority buys = sortBy buyPriority buys' :=
    sortBy_perm_eq (fun x member y member' same =>
      buyBook.apart x member y member' (congrArg (fun key => (ofLex key).2) same)) buyPerm
  have sold : sortBy sellPriority sells = sortBy sellPriority sells' :=
    sortBy_perm_eq (fun x member y member' same =>
      sellBook.apart x member y member' (congrArg (fun key => (ofLex key).2) same)) sellPerm
  rw [clearBooks, clearBooks, scan, bought, sold]

theorem clear_perm {memory : Memory} {market after : BatchMarket}
    {actions permuted : List AgentAction} {result : BatchResult} (perm : actions.Perm permuted)
    (accepted : clear memory market actions = (.ok result, after)) :
    clear memory market permuted = (.ok result, after) := by
  obtain ⟨reserved, admitted, granted⟩ := clear_admitted accepted
  have granted' : ∀ i < permuted.length, memory (2 + i) = true := perm.length_eq ▸ granted
  have buyBook := distinctBook market.accounts admitted.distinct AgentAction.isBuy
    fun a buy => by simp_all [AgentAction.isBuy]
  have sellBook := distinctBook market.accounts admitted.distinct AgentAction.isSell
    fun a sell => by simp_all [AgentAction.isSell]
  calc clear memory market permuted
      = clearBooks memory market permuted.length (buysOf market.accounts permuted)
          (sellsOf market.accounts permuted) :=
        clear_of_admitted reserved (admitted.perm perm) granted'
    _ = clearBooks memory market actions.length (buysOf market.accounts actions)
          (sellsOf market.accounts actions) := by
        rw [perm.length_eq]
        exact (clearBooks_perm memory market _ buyBook sellBook ((perm.filter _).map _)
          ((perm.filter _).map _)).symm
    _ = clear memory market actions := (clear_of_admitted reserved admitted granted).symm
    _ = (.ok result, after) := accepted

/-! ### Inserted holds -/

/-- A batch with holds inserted, each for an existing agent that had not submitted. -/
inductive WithHolds (accounts : List Account) (actions : List AgentAction) :
    List AgentAction → Prop
  | same : WithHolds accounts actions actions
  | insert {before after : List AgentAction} {agent : AgentId}
      (padded : WithHolds accounts actions (before ++ after))
      (existing : agent ∈ accounts.map Account.id)
      (idle : agent ∉ (before ++ after).map AgentAction.agent) :
      WithHolds accounts actions (before ++ ⟨agent, .hold⟩ :: after)

/-- A call that is refused an allocation. -/
def Starved (memory : Memory) (market : BatchMarket) (actions : List AgentAction) : Prop :=
  (clear memory market actions).1 = .error (.failure .allocationFailed)

/-- The memory that grants every allocation. -/
def ampleMemory : Memory := fun _ => true

theorem ampleMemory_grants (point : Nat) : ¬ ¬ ampleMemory point = true := not_not.mpr rfl

/-- The account of an existing agent is found where the accounts are sorted strictly. -/
theorem lowerBound_existing {accounts : List Account} {agent : AgentId}
    (increasing : (accounts.map Account.id).Pairwise (· < ·))
    (existing : agent ∈ accounts.map Account.id) :
    ∃ account, accounts[lowerBound accounts agent]? = some account ∧ account.id = agent := by
  induction accounts with
  | nil => cases existing
  | cons account rest ih =>
    rw [List.map_cons, List.pairwise_cons] at increasing
    obtain ⟨above, increasing⟩ := increasing
    by_cases below : account.id < agent
    · have later : agent ∈ rest.map Account.id := by
        rcases List.mem_cons.mp existing with rfl | later
        · exact absurd below (UInt32.lt_irrefl _)
        · exact later
      have next : lowerBound (account :: rest) agent = lowerBound rest agent + 1 := by
        simp [lowerBound, List.findIdx_cons, below]
      rw [next]
      exact ih increasing later
    · have here : account.id = agent := by
        rcases List.mem_cons.mp existing with same | later
        · exact same.symm
        · exact absurd (above _ later) below
      have first : lowerBound (account :: rest) agent = 0 := by
        simp [lowerBound, List.findIdx_cons, below]
      rw [first]
      exact ⟨account, rfl, here⟩

theorem hold_admissible {accounts : List Account} {agent : AgentId}
    (increasing : (accounts.map Account.id).Pairwise (· < ·))
    (existing : agent ∈ accounts.map Account.id) : Admissible accounts ⟨agent, .hold⟩ := by
  obtain ⟨account, found, owner⟩ := lowerBound_existing increasing existing
  exact ⟨account, found, ⟨owner, by simp [Action.hold], by simp [Action.hold]⟩⟩

/-- A loop that was not refused memory does what it does with ample memory, wherever its
allocations are counted from and whatever agents outside the batch were seen before. -/
theorem collectOrders_served {memory : Memory} {accounts : List Account} {point : Nat}
    {actions : List AgentAction} {submitted : List AgentId} {buys sells : List Order}
    (served : collectOrders memory accounts point actions submitted buys sells ≠
      .error (.failure .allocationFailed))
    (point' : Nat) {submitted' : List AgentId}
    (seen : ∀ submission ∈ actions, submission.agent ∈ submitted' ↔ submission.agent ∈ submitted) :
    collectOrders ampleMemory accounts point' actions submitted' buys sells =
      collectOrders memory accounts point actions submitted buys sells := by
  induction actions generalizing point point' submitted submitted' buys sells with
  | nil => rfl
  | cons submission rest ih =>
    obtain ⟨first, others⟩ := List.forall_mem_cons.mp seen
    have next : ∀ other ∈ rest, other.agent ∈ submission.agent :: submitted' ↔
        other.agent ∈ submission.agent :: submitted := by
      intro other member
      rw [List.mem_cons, List.mem_cons, others other member]
    rw [collectOrders_round] at served
    rw [collectOrders_round, collectOrders_round]
    by_cases repeated : submission.agent ∈ submitted
    · rw [if_pos repeated, if_pos (first.mpr repeated)]
    · have new : submission.agent ∉ submitted' := fun before => repeated (first.mp before)
      rw [if_neg repeated] at served ⊢
      rw [if_neg new, if_neg (ampleMemory_grants point')]
      by_cases granted : memory point = true
      · rw [if_neg (not_not.mpr granted)] at served ⊢
        cases refused : refusal accounts submission with
        | some status => rfl
        | none =>
          rw [refused] at served
          exact ih served (point' + 1) next
      · rw [if_pos granted] at served
        exact absurd rfl served

theorem collectOrders_ample (accounts : List Account) (actions : List AgentAction) (point : Nat)
    (submitted : List AgentId) (buys sells : List Order) :
    collectOrders ampleMemory accounts point actions submitted buys sells ≠
      .error (.failure .allocationFailed) := by
  induction actions generalizing point submitted buys sells with
  | nil => exact fun starved => by cases starved
  | cons submission rest ih =>
    rw [collectOrders_round, if_neg (ampleMemory_grants point)]
    by_cases repeated : submission.agent ∈ submitted
    · rw [if_pos repeated]
      exact fun same => absurd (Except.error.inj same) (by decide)
    · rw [if_neg repeated]
      cases refused : refusal accounts submission with
      | none => exact ih _ _ _ _
      | some status =>
        intro same
        obtain rfl := Except.error.inj same
        rcases refusal_status refused with starved | starved <;> exact absurd starved (by decide)

/-- What the admission loop refuses, it refuses for the batch or for memory. -/
theorem collectOrders_error {memory : Memory} {accounts : List Account} {point : Nat}
    {actions : List AgentAction} {submitted : List AgentId} {buys sells : List Order}
    {status : Status}
    (refused : collectOrders memory accounts point actions submitted buys sells = .error status) :
    status = .failure .invalidArgument ∨ status = .failure .insufficientResources ∨
      status = .failure .allocationFailed := by
  induction actions generalizing point submitted buys sells with
  | nil => cases refused
  | cons submission rest ih =>
    rw [collectOrders_round] at refused
    split at refused
    next => exact .inl (Except.error.inj refused).symm
    next =>
      split at refused
      next => exact .inr (.inr (Except.error.inj refused).symm)
      next =>
        split at refused
        next reason =>
          obtain rfl := Except.error.inj refused
          exact (refusal_status reason).imp_right .inl
        next => exact ih refused

/-- A hold of an agent that does not submit passes through the admission loop. -/
theorem collectOrders_hold {accounts : List Account} {before after : List AgentAction}
    {agent : AgentId} (increasing : (accounts.map Account.id).Pairwise (· < ·))
    (existing : agent ∈ accounts.map Account.id)
    (idle : agent ∉ (before ++ after).map AgentAction.agent) {point : Nat}
    {submitted : List AgentId} (new : agent ∉ submitted) {buys sells : List Order} :
    collectOrders ampleMemory accounts point (before ++ ⟨agent, .hold⟩ :: after) submitted buys
        sells =
      collectOrders ampleMemory accounts point (before ++ after) submitted buys sells := by
  induction before generalizing point submitted buys sells with
  | nil =>
    rw [List.nil_append] at idle
    rw [List.nil_append, List.nil_append,
      collectOrders_step new rfl (hold_admissible increasing existing)]
    have holds : buysOf accounts [⟨agent, .hold⟩] = [] ∧ sellsOf accounts [⟨agent, .hold⟩] = [] :=
      ⟨rfl, rfl⟩
    rw [holds.1, holds.2, List.append_nil, List.append_nil]
    refine collectOrders_served (collectOrders_ample _ _ _ _ _ _) (point + 1) ?_
    -- No later submission is of the agent that holds.
    intro submission member
    have other : submission.agent ≠ agent := fun same => idle (same ▸ List.mem_map_of_mem member)
    rw [List.mem_cons, or_iff_right other]
  | cons submission rest ih =>
    rw [List.cons_append, List.map_cons, List.mem_cons, not_or] at idle
    rw [List.cons_append, List.cons_append, collectOrders_round, collectOrders_round,
      if_neg (ampleMemory_grants point), if_neg (ampleMemory_grants point)]
    refine if_congr Iff.rfl rfl ?_
    cases refused : refusal accounts submission with
    | some status => rfl
    | none =>
      have later : agent ∉ submission.agent :: submitted := by
        rw [List.mem_cons, not_or]
        exact ⟨idle.1, new⟩
      exact ih idle.2 later

/-- After admission memory matters only for the copy of the accounts and the fills. -/
theorem clearBooks_copied {memory memory' : Memory} {count count' : Nat}
    (same : (¬ memory (count + 2) = true ∨ ¬ memory (count + 3) = true) ↔
      (¬ memory' (count' + 2) = true ∨ ¬ memory' (count' + 3) = true))
    (market : BatchMarket) (buys sells : List Order) :
    clearBooks memory market count buys sells = clearBooks memory' market count' buys sells := by
  simp only [clearBooks, same]

theorem clearBooks_served {memory : Memory} {market : BatchMarket} {count : Nat}
    {buys sells : List Order} (served : (clearBooks memory market count buys sells).1 ≠
      .error (.failure .allocationFailed)) :
    clearBooks memory market count buys sells = clearBooks ampleMemory market count buys sells := by
  have granted : ¬ (¬ ampleMemory (count + 2) = true ∨ ¬ ampleMemory (count + 3) = true) :=
    not_or.mpr ⟨ampleMemory_grants _, ampleMemory_grants _⟩
  by_cases refused : ¬ memory (count + 2) = true ∨ ¬ memory (count + 3) = true
  · -- The copy is not reached, so nothing asks for memory.
    unfold clearBooks at served
    split at served
    next search => simp only [clearBooks, search]
    next best search =>
      split at served
      next unmatched => simp only [clearBooks, search, unmatched, if_true]
      next matched =>
        split at served
        next large => simp only [clearBooks, search, if_neg matched, if_pos large]
        next small =>
          dsimp only at served
          split at served
          next unfilled =>
            simp only [clearBooks, search, if_neg matched, if_neg small, if_pos unfilled]
          next => exact absurd rfl served
  · exact clearBooks_copied (iff_of_false refused granted) market buys sells

/-- A call that is not refused memory does what it does with ample memory. -/
theorem clear_served {memory : Memory} {market : BatchMarket} {actions : List AgentAction}
    (served : ¬ Starved memory market actions) :
    clear memory market actions = clear ampleMemory market actions := by
  rw [Starved, clear_eq] at served
  rw [clear_eq, clear_eq]
  by_cases reserved : ¬ memory 0 = true ∨ ¬ memory 1 = true
  · rw [if_pos reserved] at served
    exact absurd rfl served
  · rw [if_neg reserved] at served ⊢
    rw [if_neg (not_or.mpr ⟨ampleMemory_grants 0, ampleMemory_grants 1⟩)]
    have admission : collectOrders memory market.accounts 2 actions [] [] [] ≠
        .error (.failure .allocationFailed) := by
      intro refused
      rw [refused] at served
      exact served rfl
    rw [collectOrders_served admission 2 fun _ _ => Iff.rfl]
    cases collected : collectOrders memory market.accounts 2 actions [] [] [] with
    | error status => rfl
    | ok books =>
      rw [collected] at served
      exact clearBooks_served served

theorem clear_hold {market : BatchMarket} {before after : List AgentAction} {agent : AgentId}
    (increasing : (market.accounts.map Account.id).Pairwise (· < ·))
    (existing : agent ∈ market.accounts.map Account.id)
    (idle : agent ∉ (before ++ after).map AgentAction.agent) :
    clear ampleMemory market (before ++ ⟨agent, .hold⟩ :: after) =
      clear ampleMemory market (before ++ after) := by
  rw [clear_eq, clear_eq, collectOrders_hold increasing existing idle (List.not_mem_nil)]
  refine if_congr Iff.rfl rfl ?_
  cases collected : collectOrders ampleMemory market.accounts 2 (before ++ after) [] [] [] with
  | error status => rfl
  | ok books => exact clearBooks_copied Iff.rfl market books.1 books.2

theorem clear_withHolds {market : BatchMarket} {actions padded : List AgentAction}
    (increasing : (market.accounts.map Account.id).Pairwise (· < ·))
    (holds : WithHolds market.accounts actions padded) :
    clear ampleMemory market padded = clear ampleMemory market actions := by
  induction holds with
  | same => rfl
  | insert _ existing idle ih => exact (clear_hold increasing existing idle).trans ih

/-! ### Every reachable market -/

/-- A market for which neither the order of a batch nor holds of other agents matter. -/
structure OrderIndependent (market : BatchMarket) : Prop where
  permuted : ∀ memory actions permuted, actions.Perm permuted → ∀ result after,
    clear memory market actions = (.ok result, after) ↔
      clear memory market permuted = (.ok result, after)
  padded : ∀ actions padded, WithHolds market.accounts actions padded → ∀ memory memory',
    ¬ Starved memory market actions → ¬ Starved memory' market padded →
      clear memory market actions = clear memory' market padded

/-- In every market reached by batches from one that `create` builds, a batch and its permutations
are accepted alike, with one result and one state after it, and holds inserted for existing agents
that did not submit change nothing, as long as both calls get the memory they ask for. -/
theorem batch_order_independent {memory : Memory} {accounts : List Account} {referenceTick : Nat}
    {market : BatchMarket} (created : create memory accounts referenceTick = .ok market)
    (batches : List BatchCall) : OrderIndependent (marketMachine.run market batches) := by
  have sound := reached_sound created batches
  have increasing : ((marketMachine.run market batches).accounts.map Account.id).Pairwise (· < ·) :=
    sound.ids ▸ (create_sound created).1
  constructor
  · intro memory actions permuted perm result after
    exact ⟨clear_perm perm, clear_perm perm.symm⟩
  · intro actions padded holds memory memory' served served'
    rw [clear_served served, clear_served served', clear_withHolds increasing holds]

/-- A sell before a buy, and a hold between them, clear as the buy before the sell. -/
theorem batch_order_independent_reversed :
    clear ampleMemory ⟨[⟨0, 5000000, 0⟩, ⟨1, 0, 0⟩, ⟨2, 0, 5⟩], 50⟩
      [⟨2, ⟨.sellYes, 2, 55, by decide⟩⟩, ⟨1, .hold⟩, ⟨0, ⟨.buyYes, 2, 60, by decide⟩⟩] =
        (.ok ⟨true, 55, 2, [⟨0, .buyYes, 2⟩, ⟨2, .sellYes, 2⟩]⟩,
          ⟨[⟨0, 3900000, 2⟩, ⟨1, 0, 0⟩, ⟨2, 1100000, 3⟩], 55⟩) := by
  have created : create ampleMemory [⟨2, 0, 5⟩, ⟨0, 5000000, 0⟩, ⟨1, 0, 0⟩] 50 =
      .ok ⟨[⟨0, 5000000, 0⟩, ⟨1, 0, 0⟩, ⟨2, 0, 5⟩], 50⟩ := by decide +kernel
  obtain ⟨permuted, padded⟩ := batch_order_independent created []
  have holds : WithHolds [⟨0, 5000000, 0⟩, ⟨1, 0, 0⟩, ⟨2, 0, 5⟩]
      [⟨2, ⟨.sellYes, 2, 55, by decide⟩⟩, ⟨0, ⟨.buyYes, 2, 60, by decide⟩⟩]
      ([⟨2, ⟨.sellYes, 2, 55, by decide⟩⟩] ++ ⟨1, .hold⟩ ::
        [⟨0, ⟨.buyYes, 2, 60, by decide⟩⟩]) :=
    .insert .same (by decide) (by decide)
  have same := padded _ _ holds ampleMemory ampleMemory
    (by unfold Starved; decide +kernel) (by unfold Starved; decide +kernel)
  refine same.symm.trans ((permuted ampleMemory _ _ (.swap _ _ []) _ _).mp ?_)
  decide +kernel

end MarketForge
