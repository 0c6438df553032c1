import Mathlib.Data.List.Basic

/-!
# Running best

A scan that keeps the better of the best element so far and the next one. Under a strict order
that compares any two distinct elements of the list, the survivor beats all the others.
-/
namespace RunningBest

variable {α : Type} (better : α → α → Prop) [DecidableRel better]

/-- The survivor of a scan that starts with `best`. -/
def scan (best : α) : List α → α
  | [] => best
  | x :: xs => scan (if better x best then x else best) xs

variable {better}

theorem scan_mem (best : α) (xs : List α) : scan better best xs ∈ best :: xs := by
  induction xs generalizing best with
  | nil => exact List.mem_cons_self
  | cons x xs ih =>
    have kept := ih (if better x best then x else best)
    rw [scan]
    rcases List.mem_cons.mp kept with same | tail
    · rw [same]
      split
      · simp
      · simp
    · simp [tail]

/-- The survivor beats every other element. -/
theorem scan_best (trans : ∀ x y z, better x y → better y z → better x z) (best : α)
    (xs : List α) (total : (best :: xs).Pairwise fun x y => better x y ∨ better y x) :
    ∀ x ∈ best :: xs, x = scan better best xs ∨ better (scan better best xs) x := by
  induction xs generalizing best with
  | nil =>
    intro x member
    exact .inl (List.mem_singleton.mp member)
  | cons y xs ih =>
    have first := List.pairwise_cons.mp total
    have second := List.pairwise_cons.mp first.2
    rw [scan]
    -- The loser of the first comparison is beaten by the winner and so by the survivor.
    split
    next wins =>
      have others := ih y first.2
      intro x member
      rcases List.mem_cons.mp member with rfl | tail
      · rcases others y List.mem_cons_self with same | beats
        · exact .inr (same ▸ wins)
        · exact .inr (trans _ _ _ beats wins)
      · exact others x tail
    next loses =>
      have wins : better best y := (first.1 y List.mem_cons_self).resolve_right loses
      have others := ih best (List.pairwise_cons.mpr
        ⟨fun x member => first.1 x (.tail _ member), second.2⟩)
      intro x member
      rcases List.mem_cons.mp member with rfl | tail
      · exact others x List.mem_cons_self
      · rcases List.mem_cons.mp tail with rfl | tail
        · rcases others best List.mem_cons_self with same | beats
          · exact .inr (same ▸ wins)
          · exact .inr (trans _ _ _ beats wins)
        · exact others x (.tail _ tail)

end RunningBest
