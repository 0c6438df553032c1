import Mathlib.Algebra.BigOperators.Group.Finset.Basic
import Mathlib.Analysis.SpecialFunctions.Trigonometric.Basic
import Mathlib.Tactic.Ring

/-!
# Rotation by halves

A vector of an even number of entries, read as pairs of an entry of its lower half and the entry of
the same place in its upper half. Each pair turns by an angle of its own. The inner product of two
turned vectors depends on the differences of the angles only.
-/
namespace MarketForge.Library.HalfRotation

open Finset

/-! ## One pair -/

/-- The pair, turned by the angle. -/
noncomputable def turn (angle : ℝ) (pair : ℝ × ℝ) : ℝ × ℝ :=
  (pair.1 * Real.cos angle - pair.2 * Real.sin angle,
    pair.2 * Real.cos angle + pair.1 * Real.sin angle)

def inner (first second : ℝ × ℝ) : ℝ := first.1 * second.1 + first.2 * second.2

@[simp] theorem turn_zero (pair : ℝ × ℝ) : turn 0 pair = pair := by
  simp [turn]

theorem turn_add (angle shift : ℝ) (pair : ℝ × ℝ) :
    turn (angle + shift) pair = turn shift (turn angle pair) := by
  simp only [turn, Real.cos_add, Real.sin_add, Prod.mk.injEq]
  constructor
  · ring
  · ring

/-- A common angle is not seen by the inner product. -/
theorem inner_turn (angle : ℝ) (first second : ℝ × ℝ) :
    inner (turn angle first) (turn angle second) = inner first second := by
  have unit : Real.cos angle ^ 2 + Real.sin angle ^ 2 = 1 := Real.cos_sq_add_sin_sq angle
  calc inner (turn angle first) (turn angle second)
      = (Real.cos angle ^ 2 + Real.sin angle ^ 2) * inner first second := by
        simp only [inner, turn]
        ring
    _ = inner first second := by rw [unit, one_mul]

theorem inner_turn_add (left right shift : ℝ) (first second : ℝ × ℝ) :
    inner (turn (left + shift) first) (turn (right + shift) second) =
      inner (turn left first) (turn right second) := by
  rw [turn_add, turn_add, inner_turn]

/-! ## A vector of pairs -/

def pair (half : ℕ) (vector : ℕ → ℝ) (dimension : ℕ) : ℝ × ℝ :=
  (vector dimension, vector (half + dimension))

/-- The pairs of the result are the turned pairs of the vector. -/
def TurnedBy (half : ℕ) (angle : ℕ → ℝ) (before after : ℕ → ℝ) : Prop :=
  ∀ dimension < half, pair half after dimension =
    turn (angle dimension) (pair half before dimension)

def dot (count : ℕ) (left right : ℕ → ℝ) : ℝ := ∑ column ∈ range count, left column * right column

theorem dot_pairs (half : ℕ) (left right : ℕ → ℝ) :
    dot (half + half) left right =
      ∑ dimension ∈ range half, inner (pair half left dimension) (pair half right dimension) := by
  simp only [dot, inner, pair]
  rw [sum_range_add, sum_add_distrib]

/-- Two vectors turned by angles, and the same two turned by angles that are greater by the same
amounts, have one inner product. -/
theorem dot_turned_add (half : ℕ) (left right shift : ℕ → ℝ)
    (query key turnedQuery turnedKey laterQuery laterKey : ℕ → ℝ)
    (queryTurned : TurnedBy half left query turnedQuery)
    (keyTurned : TurnedBy half right key turnedKey)
    (queryLater : TurnedBy half (left + shift) query laterQuery)
    (keyLater : TurnedBy half (right + shift) key laterKey) :
    dot (half + half) laterQuery laterKey = dot (half + half) turnedQuery turnedKey := by
  rw [dot_pairs, dot_pairs]
  apply sum_congr rfl
  intro dimension member
  have below := mem_range.mp member
  rw [queryTurned dimension below, keyTurned dimension below, queryLater dimension below,
    keyLater dimension below]
  exact inner_turn_add _ _ _ _ _

theorem dot_turned (half : ℕ) (angle before after : ℕ → ℝ)
    (turned : TurnedBy half angle before after) :
    dot (half + half) after after = dot (half + half) before before := by
  rw [dot_pairs, dot_pairs]
  apply sum_congr rfl
  intro dimension member
  rw [turned dimension (mem_range.mp member)]
  exact inner_turn _ _ _

theorem TurnedBy.congr (half : ℕ) (angle before other after : ℕ → ℝ)
    (turned : TurnedBy half angle before after)
    (same : ∀ column < half + half, other column = before column) :
    TurnedBy half angle other after := by
  intro dimension below
  have pairs : pair half other dimension = pair half before dimension := by
    simp only [pair, same dimension (by omega), same (half + dimension) (by omega)]
  rw [pairs]
  exact turned dimension below

/-- Without an angle, nothing moves. -/
theorem TurnedBy.fixed (half : ℕ) (angle before after : ℕ → ℝ)
    (turned : TurnedBy half angle before after) (still : ∀ dimension < half, angle dimension = 0)
    (column : ℕ) (inside : column < half + half) : after column = before column := by
  have pairs : ∀ dimension < half, pair half after dimension = pair half before dimension := by
    intro dimension below
    rw [turned dimension below, still dimension below, turn_zero]
  by_cases lower : column < half
  · exact congrArg Prod.fst (pairs column lower)
  · have upper := congrArg Prod.snd (pairs (column - half) (by omega))
    simp only [pair] at upper
    rwa [show half + (column - half) = column by omega] at upper

end MarketForge.Library.HalfRotation
