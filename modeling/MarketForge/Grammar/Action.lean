import MarketForge.Core.Status

/-!
# Market actions

An `Action` can only be built with the quantities and ticks its constructors accept.
-/
namespace MarketForge

inductive ActionKind where
  | hold
  | buyYes
  | sellYes
  deriving DecidableEq, Repr

/-- The bounds that the constructors of `Action` check. -/
def Action.inBounds (quantity priceTick : Nat) : Prop :=
  (1 ≤ quantity ∧ quantity ≤ 8) ∧ 1 ≤ priceTick ∧ priceTick ≤ 99

instance (quantity priceTick : Nat) : Decidable (Action.inBounds quantity priceTick) :=
  inferInstanceAs (Decidable (_ ∧ _))

structure Action where
  kind : ActionKind
  quantity : Nat
  priceTick : Nat
  valid : if kind = .hold then quantity = 0 ∧ priceTick = 0 else Action.inBounds quantity priceTick
  deriving DecidableEq

namespace Action

def hold : Action := ⟨.hold, 0, 0, by simp⟩

def buyYes (quantity priceTick : Nat) : Result Action :=
  if bounds : inBounds quantity priceTick then .ok ⟨.buyYes, quantity, priceTick, by simpa⟩
  else .error (.failure .invalidArgument)

def sellYes (quantity priceTick : Nat) : Result Action :=
  if bounds : inBounds quantity priceTick then .ok ⟨.sellYes, quantity, priceTick, by simpa⟩
  else .error (.failure .invalidArgument)

/-- An action that is not `hold` has an order's quantity and limit. -/
theorem bounds (action : Action) (acts : action.kind ≠ .hold) :
    inBounds action.quantity action.priceTick := by
  simpa [acts] using action.valid

end Action

end MarketForge
