import Mathlib.Algebra.BigOperators.Group.List.Basic
import Mathlib.Data.List.Lex
import Mathlib.Tactic.Ring

/-!
# Mixed-radix numerals

A numeral has one digit below each of a list of radices, the most significant first. Evaluation
runs left to right, so that a prefix read so far is a number of its own. The numerals of fixed
radices count up to the product of the radices, in lexicographic order and without gaps.
-/
namespace MarketForge.MixedRadix

/-- One digit for every radix, each below its radix. -/
def Numeral (radices digits : List Nat) : Prop := List.Forall₂ (· < ·) digits radices

/-- The number read when the digits follow a prefix that is already read. -/
def evaluate : Nat → List Nat → List Nat → Nat
  | start, radix :: radices, digit :: digits => evaluate (start * radix + digit) radices digits
  | start, _, _ => start

@[simp] theorem evaluate_nil (start : Nat) (digits : List Nat) :
    evaluate start [] digits = start := by simp [evaluate]

@[simp] theorem evaluate_cons (start radix digit : Nat) (radices digits : List Nat) :
    evaluate start (radix :: radices) (digit :: digits) =
      evaluate (start * radix + digit) radices digits := rfl

@[simp] theorem numeral_nil (digits : List Nat) : Numeral [] digits ↔ digits = [] := by
  simp [Numeral]

theorem numeral_cons (radix digit : Nat) (radices digits : List Nat) :
    Numeral (radix :: radices) (digit :: digits) ↔ digit < radix ∧ Numeral radices digits := by
  simp [Numeral]

/-- A radix of a numeral has a digit below it. -/
theorem numeral_product_pos (radices digits : List Nat) (numeral : Numeral radices digits) :
    0 < radices.prod := by
  induction numeral with
  | nil => simp
  | @cons digit radix digits radices below _ ih =>
    rw [List.prod_cons]
    exact Nat.mul_pos (by omega) ih

/-- What is read before weighs the product of the radices that follow. -/
theorem evaluate_start (start : Nat) (radices digits : List Nat)
    (numeral : Numeral radices digits) :
    evaluate start radices digits = start * radices.prod + evaluate 0 radices digits := by
  induction numeral generalizing start with
  | nil => simp
  | @cons digit radix digits radices _ _ ih =>
    rw [evaluate_cons, evaluate_cons, ih (start * radix + digit), ih (0 * radix + digit),
      List.prod_cons]
    ring

theorem evaluate_digit (radix digit : Nat) (radices digits : List Nat)
    (numeral : Numeral radices digits) :
    evaluate 0 (radix :: radices) (digit :: digits) =
      digit * radices.prod + evaluate 0 radices digits := by
  rw [evaluate_cons, Nat.zero_mul, Nat.zero_add, evaluate_start digit radices digits numeral]

/-- A numeral stays below the product of its radices. -/
theorem evaluate_lt (radices digits : List Nat) (numeral : Numeral radices digits) :
    evaluate 0 radices digits < radices.prod := by
  induction numeral with
  | nil => simp
  | @cons digit radix digits radices below rest ih =>
    rw [evaluate_digit radix digit radices digits rest, List.prod_cons]
    calc digit * radices.prod + evaluate 0 radices digits
        < digit * radices.prod + radices.prod := by omega
      _ = (digit + 1) * radices.prod := by ring
      _ ≤ radix * radices.prod := Nat.mul_le_mul_right _ below

/-- A numeral that comes first in lexicographic order is the smaller number. -/
theorem evaluate_strict (radices left right : List Nat) (numeral : Numeral radices left)
    (other : Numeral radices right) (before : List.Lex (· < ·) left right) :
    evaluate 0 radices left < evaluate 0 radices right := by
  induction radices generalizing left right with
  | nil =>
    rw [numeral_nil] at numeral other
    subst numeral other
    cases before
  | cons radix radices ih =>
    cases numeral with
    | @cons digit _ digits _ _ rest =>
      cases other with
      | @cons digit' _ digits' _ _ rest' =>
        rw [evaluate_digit radix digit radices digits rest,
          evaluate_digit radix digit' radices digits' rest']
        cases before with
        | rel smaller =>
          -- the digits behind never make up for a leading digit
          have bound := evaluate_lt radices digits rest
          have weight : (digit + 1) * radices.prod ≤ digit' * radices.prod :=
            Nat.mul_le_mul_right _ smaller
          rw [Nat.add_mul] at weight
          omega
        | cons behind =>
          have smaller := ih digits digits' rest rest' behind
          omega

/-- Two numerals with one value are the same. -/
theorem evaluate_injective (radices left right : List Nat) (numeral : Numeral radices left)
    (other : Numeral radices right)
    (same : evaluate 0 radices left = evaluate 0 radices right) : left = right := by
  rcases trichotomous_of (List.Lex (· < ·)) left right with before | equal | behind
  · have smaller := evaluate_strict radices left right numeral other before
    omega
  · exact equal
  · have smaller := evaluate_strict radices right left other numeral behind
    omega

/-- Every number below the product of the radices has a numeral. -/
theorem evaluate_surjective (radices : List Nat) (number : Nat) (below : number < radices.prod) :
    ∃ digits, Numeral radices digits ∧ evaluate 0 radices digits = number := by
  induction radices generalizing number with
  | nil =>
    rw [List.prod_nil] at below
    exact ⟨[], by simp, by simp; omega⟩
  | cons radix radices ih =>
    rw [List.prod_cons] at below
    have positive : 0 < radices.prod := by
      by_contra zero
      rw [Nat.eq_zero_of_not_pos zero, Nat.mul_zero] at below
      exact absurd below (Nat.not_lt_zero _)
    obtain ⟨digits, numeral, rest⟩ := ih (number % radices.prod) (Nat.mod_lt _ positive)
    have leading : number / radices.prod < radix := (Nat.div_lt_iff_lt_mul positive).mpr below
    use number / radices.prod :: digits
    constructor
    · exact (numeral_cons _ _ _ _).mpr ⟨leading, numeral⟩
    · rw [evaluate_digit radix _ radices digits numeral, rest]
      exact Nat.div_add_mod' number radices.prod

/-- A prefix read so far, continued by any digits, is below the bound it started under. -/
theorem prefix_bound (start radix digit bound : Nat) (radices : List Nat) (below : digit < radix)
    (room : (start + 1) * (radix :: radices).prod ≤ bound) :
    (start * radix + digit + 1) * radices.prod ≤ bound := by
  have step : start * radix + digit + 1 ≤ (start + 1) * radix := by
    rw [Nat.add_mul]
    omega
  calc (start * radix + digit + 1) * radices.prod
      ≤ (start + 1) * radix * radices.prod := Nat.mul_le_mul_right _ step
    _ = (start + 1) * (radix :: radices).prod := by rw [List.prod_cons, Nat.mul_assoc]
    _ ≤ bound := room

end MarketForge.MixedRadix
