/-!
# What a caller observes

A machine takes a call and returns an observation. Two states are told apart only by the
observations of some sequence of calls, so states that a simulation relates are the same to every
caller.
-/
namespace MarketForge.Library

section

variable {State Call Seen : Type}

/-- The observations of the calls of a sequence, from a state on. -/
def observations (step : State → Call → Seen × State) : State → List Call → List Seen
  | _, [] => []
  | state, call :: others => (step state call).1 :: observations step (step state call).2 others

/-- A relation that every call keeps, with the same observation on both sides, relates only states
that no sequence of calls tells apart. -/
theorem observations_eq (step : State → Call → Seen × State) (related : State → State → Prop)
    (each : ∀ left right, related left right → ∀ call,
      (step left call).1 = (step right call).1 ∧ related (step left call).2 (step right call).2)
    (left right : State) (holds : related left right) (calls : List Call) :
    observations step left calls = observations step right calls := by
  induction calls generalizing left right with
  | nil => rfl
  | cons call others ih =>
    obtain ⟨seen, kept⟩ := each left right holds call
    rw [observations, observations, seen, ih _ _ kept]

end

end MarketForge.Library
