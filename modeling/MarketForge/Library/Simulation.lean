import MarketForge.Library.Transition

/-!
# Simulation by an abstraction function

A concrete machine is simulated by an abstract one when every step, seen through an abstraction of
the states and an observation of the replies, is the abstract step on the same call. Runs then
agree as a whole, and two concrete states with one abstraction cannot be told apart by any calls.
-/
namespace Transition.Machine

variable {State Call Reply State' Reply' : Type}

/-- Wherever `inv` holds, a step of `concrete` is the step of `abstract`. -/
structure Simulates (concrete : Machine State Call Reply) (abstract : Machine State' Call Reply')
    (inv : State → Prop) (state : State → State') (observe : Reply → Reply') : Prop where
  kept : ∀ s c, inv s → inv (concrete.step s c).2
  commutes : ∀ s c, inv s →
    abstract.step (state s) c = (observe (concrete.step s c).1, state (concrete.step s c).2)

namespace Simulates

variable {concrete : Machine State Call Reply} {abstract : Machine State' Call Reply'}
  {inv : State → Prop} {state : State → State'} {observe : Reply → Reply'}
  (simulates : Simulates concrete abstract inv state observe)
include simulates

theorem run (s : State) (initial : inv s) (calls : List Call) :
    state (concrete.run s calls) = abstract.run (state s) calls := by
  induction calls generalizing s with
  | nil => rfl
  | cons c cs ih =>
    have next := ih (concrete.step s c).2 (simulates.kept s c initial)
    rw [run_cons, run_cons, simulates.commutes s c initial]
    exact next

theorem replies (s : State) (initial : inv s) (calls : List Call) :
    (concrete.history s calls).map (fun e => observe e.reply) =
      (abstract.history (state s) calls).map Event.reply := by
  induction calls generalizing s with
  | nil => rfl
  | cons c cs ih =>
    have next := ih (concrete.step s c).2 (simulates.kept s c initial)
    have commutes := simulates.commutes s c initial
    rw [history_cons, history_cons, List.map_cons, List.map_cons, next, event, event, commutes]

/-- One abstraction, the same answers for ever. -/
theorem indistinguishable (s t : State) (first : inv s) (second : inv t) (same : state s = state t)
    (calls : List Call) :
    (concrete.history s calls).map (fun e => observe e.reply) =
        (concrete.history t calls).map (fun e => observe e.reply) ∧
      state (concrete.run s calls) = state (concrete.run t calls) := by
  constructor
  · rw [simulates.replies s first, simulates.replies t second, same]
  · rw [simulates.run s first, simulates.run t second, same]

end Simulates

end Transition.Machine
