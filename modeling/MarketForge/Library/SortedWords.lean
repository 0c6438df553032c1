import Mathlib.Data.List.Lex
import Mathlib.Data.List.Infix
import Mathlib.Order.Lattice

/-!
# Words in lexicographic order

A word is at most its extensions, so in a sorted list of words a prefix comes first
(`pairwise_incomparable_iff`), and the words with its first letter follow it without a gap
(`head_past`): a search for extensions may stop at the first word with another first letter.
-/
namespace SortedWords

variable {α : Type}

/-- A word that starts with another letter is no extension. -/
theorem not_isPrefix_of_head {a b : List α} (present : a ≠ []) (heads : b.take 1 ≠ a.take 1) :
    ¬ a.IsPrefix b := by
  rintro ⟨u, rfl⟩
  cases a with
  | nil => exact present rfl
  | cons x a => simp at heads

variable [LinearOrder α]

theorem le_of_isPrefix {a b : List α} (initial : a.IsPrefix b) : a ≤ b := by
  obtain ⟨u, rfl⟩ := initial
  induction a with
  | nil =>
    cases u with
    | nil => exact le_refl _
    | cons x u => exact le_of_lt (List.Lex.nil)
  | cons x a ih => exact List.cons_le_cons x ih

theorem head_le {x y : α} {a b : List α} (ordered : x :: a ≤ y :: b) : x ≤ y := by
  rcases lt_or_eq_of_le ordered with below | same
  · exact List.head_le_of_lt below
  · exact (List.cons.inj same).1.le

/-- Once the first letter has changed, it does not come back. -/
theorem head_past {a b c : List α} (spelled : a ≠ [] ∧ b ≠ [] ∧ c ≠ []) (first : a ≤ b)
    (second : b ≤ c) (heads : b.take 1 ≠ a.take 1) : c.take 1 ≠ a.take 1 := by
  obtain ⟨x, a, rfl⟩ := List.exists_cons_of_ne_nil spelled.1
  obtain ⟨y, b, rfl⟩ := List.exists_cons_of_ne_nil spelled.2.1
  obtain ⟨z, c, rfl⟩ := List.exists_cons_of_ne_nil spelled.2.2
  have below : x ≤ y := head_le first
  have above : y ≤ z := head_le second
  simp only [List.take_succ_cons, List.take_zero, ne_eq, List.cons.injEq, and_true] at heads ⊢
  rintro rfl
  exact heads (le_antisymm above below)

/-- Among distinct sorted words it is enough to look for extensions further on. -/
theorem pairwise_incomparable_iff {l : List (List α)} (sorted : l.Pairwise (· ≤ ·))
    (distinct : l.Nodup) :
    (l.Pairwise fun a b => ¬ a.IsPrefix b) ↔
      l.Pairwise fun a b => ¬ a.IsPrefix b ∧ ¬ b.IsPrefix a := by
  constructor
  · intro apart
    refine (apart.and (sorted.and distinct)).imp fun {a b} h => ⟨h.1, fun initial => ?_⟩
    exact h.2.2 (le_antisymm h.2.1 (le_of_isPrefix initial))
  · intro apart
    exact apart.imp And.left

end SortedWords
