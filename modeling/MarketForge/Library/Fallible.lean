import Mathlib.Logic.Basic

/-!
# Sequences that can fail

The second step of a sequence runs when the first has succeeded, with the value of the first.
-/
namespace MarketForge

variable {ε α β : Type} {action : Except ε α}

theorem bind_eq_ok {next : α → Except ε β} {result : β} :
    (action >>= next) = .ok result ↔ ∃ value, action = .ok value ∧ next value = .ok result := by
  cases action with
  | error error => simp [bind, Except.bind]
  | ok value => simp [bind, Except.bind]

theorem ok_bind {value : α} (next : α → Except ε β) (done : action = .ok value) :
    (action >>= next) = next value := by
  rw [done]
  rfl

end MarketForge
