import Mathlib.Algebra.Order.Floor.Ring
import Mathlib.Data.Int.Log
import Mathlib.Data.Rat.Floor
import Mathlib.Order.WithBot
import Mathlib.Tactic.Linarith

/-!
# Binary floating point

Values of a binary interchange format as rational numbers, infinities and NaN, the rounding to
nearest with ties to even, and the fused multiply-add that rounds once. Zeros are not signed:
comparisons do not tell them apart. Rounding is monotone.
-/
namespace BinaryFloat

structure Format where
  precision : Nat
  minExponent : Int
  maxExponent : Int
  positive : 0 < precision

def binary16 : Format := ⟨11, -14, 15, by decide⟩

def binary32 : Format := ⟨24, -126, 127, by decide⟩

inductive Value where
  | nan
  | infinity (negative : Bool)
  | finite (value : ℚ)
  deriving DecidableEq

/-! ### Rounding -/

/-- The nearest integer, the even one of two. -/
def halfEven (x : ℚ) : ℤ :=
  if x - ⌊x⌋ < 1 / 2 then ⌊x⌋
  else if 1 / 2 < x - ⌊x⌋ then ⌊x⌋ + 1
  else if ⌊x⌋ % 2 = 0 then ⌊x⌋
  else ⌊x⌋ + 1

namespace Format

/-- The exponent of the last place of a magnitude. -/
def lastPlace (format : Format) (x : ℚ) : ℤ :=
  max (Int.log 2 x) format.minExponent - (format.precision - 1)

/-- A magnitude rounded as if the exponent had no upper bound. -/
def magnitude (format : Format) (x : ℚ) : ℚ :=
  halfEven (x / 2 ^ format.lastPlace x) * 2 ^ format.lastPlace x

def nearest (format : Format) (x : ℚ) : ℚ :=
  if x < 0 then -format.magnitude (-x) else format.magnitude x

/-- Results of this magnitude and more overflow. -/
def limit (format : Format) : ℚ := 2 ^ (format.maxExponent + 1)

end Format

namespace Value

def round (format : Format) : Value → Value
  | .finite x =>
    if format.nearest x ≤ -format.limit then .infinity true
    else if format.limit ≤ format.nearest x then .infinity false
    else .finite (format.nearest x)
  | other => other

/-- The exact product. -/
def product : Value → Value → Value
  | .finite x, .finite y => .finite (x * y)
  | .infinity s, .infinity t => .infinity (s != t)
  | .infinity s, .finite y => if y = 0 then .nan else .infinity (s != decide (y < 0))
  | .finite x, .infinity t => if x = 0 then .nan else .infinity (decide (x < 0) != t)
  | _, _ => .nan

/-- The exact sum. -/
def sum : Value → Value → Value
  | .finite x, .finite y => .finite (x + y)
  | .infinity s, .infinity t => if s = t then .infinity s else .nan
  | .infinity s, .finite _ => .infinity s
  | .finite _, .infinity t => .infinity t
  | _, _ => .nan

def fma (format : Format) (x y z : Value) : Value := ((x.product y).sum z).round format

end Value

/-! ### The order of the values -/

/-- Numbers with both infinities. -/
abbrev Extended := WithBot (WithTop ℚ)

/-- What a comparison sees: NaN, or a number of a linear order. -/
inductive Score (K : Type) where
  | nan
  | number (value : K)
  deriving DecidableEq

/-- Scores in an order that puts NaN below every number. -/
def Score.rank {K : Type} : Score K → WithBot K
  | .nan => ⊥
  | .number value => value

theorem Score.rank_inj {K : Type} {a b : Score K} (same : a.rank = b.rank) : a = b := by
  cases a with
  | nan =>
    cases b with
    | nan => rfl
    | number y => exact absurd same.symm (WithBot.coe_ne_bot)
  | number x =>
    cases b with
    | nan => exact absurd same (WithBot.coe_ne_bot)
    | number y => exact congrArg Score.number (WithBot.coe_injective same)

def Value.score : Value → Score Extended
  | .nan => .nan
  | .infinity true => .number ⊥
  | .infinity false => .number ((⊤ : WithTop ℚ) : Extended)
  | .finite x => .number ((x : WithTop ℚ) : Extended)

/-! ### Rounding is monotone -/

theorem halfEven_int (n : ℤ) : halfEven n = n := by
  simp [halfEven]

theorem floor_le_halfEven (x : ℚ) : ⌊x⌋ ≤ halfEven x := by
  unfold halfEven
  split_ifs <;> omega

theorem halfEven_le_floor_add_one (x : ℚ) : halfEven x ≤ ⌊x⌋ + 1 := by
  unfold halfEven
  split_ifs <;> omega

theorem halfEven_mono {x y : ℚ} (below : x ≤ y) : halfEven x ≤ halfEven y := by
  rcases Int.lt_or_eq_of_le (Int.floor_le_floor below) with apart | same
  · calc halfEven x ≤ ⌊x⌋ + 1 := halfEven_le_floor_add_one x
      _ ≤ ⌊y⌋ := apart
      _ ≤ halfEven y := floor_le_halfEven y
  · -- between the same integers the fractions decide
    have fractions : x - ⌊x⌋ ≤ y - ⌊x⌋ := by linarith
    unfold halfEven
    rw [← same]
    split_ifs <;> first | omega | linarith

section

variable (format : Format)

private theorem two_zpow_pos (n : ℤ) : (0 : ℚ) < 2 ^ n := zpow_pos two_pos n

/-- Below the top of its binade a magnitude rounds to at most that top. -/
theorem magnitude_le {x : ℚ} (n : ℤ) (within : x ≤ 2 ^ n)
    (coarse : format.lastPlace x ≤ n) : format.magnitude x ≤ 2 ^ n := by
  have steps : ((2 ^ (n - format.lastPlace x).toNat : ℤ) : ℚ) = 2 ^ n / 2 ^ format.lastPlace x := by
    rw [← zpow_sub₀ two_ne_zero, Int.cast_pow, ← zpow_natCast, Int.toNat_of_nonneg (by omega)]
    rfl
  have scaled : x / 2 ^ format.lastPlace x ≤ ((2 ^ (n - format.lastPlace x).toNat : ℤ) : ℚ) := by
    rw [steps]
    exact div_le_div_of_nonneg_right within (two_zpow_pos _).le
  have rounded : (halfEven (x / 2 ^ format.lastPlace x) : ℚ) ≤ 2 ^ n / 2 ^ format.lastPlace x := by
    rw [← steps]
    have least := halfEven_mono scaled
    rw [halfEven_int] at least
    exact_mod_cast least
  exact (le_div_iff₀ (two_zpow_pos _)).mp rounded

theorem le_magnitude {x : ℚ} (n : ℤ) (within : 2 ^ n ≤ x)
    (coarse : format.lastPlace x ≤ n) : 2 ^ n ≤ format.magnitude x := by
  have steps : ((2 ^ (n - format.lastPlace x).toNat : ℤ) : ℚ) = 2 ^ n / 2 ^ format.lastPlace x := by
    rw [← zpow_sub₀ two_ne_zero, Int.cast_pow, ← zpow_natCast, Int.toNat_of_nonneg (by omega)]
    rfl
  have scaled : ((2 ^ (n - format.lastPlace x).toNat : ℤ) : ℚ) ≤ x / 2 ^ format.lastPlace x := by
    rw [steps]
    exact div_le_div_of_nonneg_right within (two_zpow_pos _).le
  have rounded : 2 ^ n / 2 ^ format.lastPlace x ≤ (halfEven (x / 2 ^ format.lastPlace x) : ℚ) := by
    rw [← steps]
    have most := halfEven_mono scaled
    rw [halfEven_int] at most
    exact_mod_cast most
  exact (div_le_iff₀ (two_zpow_pos _)).mp rounded

theorem magnitude_zero : format.magnitude 0 = 0 := by
  simp [Format.magnitude, halfEven]

theorem magnitude_nonneg {x : ℚ} (nonneg : 0 ≤ x) : 0 ≤ format.magnitude x := by
  have scaled : 0 ≤ x / 2 ^ format.lastPlace x := div_nonneg nonneg (two_zpow_pos _).le
  have rounded : (0 : ℚ) ≤ halfEven (x / 2 ^ format.lastPlace x) := by
    have least := halfEven_mono scaled
    rw [show halfEven 0 = 0 from halfEven_int 0] at least
    exact_mod_cast least
  exact mul_nonneg rounded (two_zpow_pos _).le

theorem magnitude_mono {x y : ℚ} (nonneg : 0 ≤ x) (below : x ≤ y) :
    format.magnitude x ≤ format.magnitude y := by
  rcases nonneg.eq_or_lt with rfl | positive
  · rw [magnitude_zero]
    exact magnitude_nonneg format below
  have logs : Int.log 2 x ≤ Int.log 2 y := Int.log_mono_right positive below
  have width := format.positive
  rcases (show format.lastPlace x ≤ format.lastPlace y by
    unfold Format.lastPlace
    omega).eq_or_lt with same | finer
  · -- one binade: the multiples of the last place are compared
    unfold Format.magnitude
    rw [← same]
    have scaled := div_le_div_of_nonneg_right below (two_zpow_pos (format.lastPlace x)).le
    exact mul_le_mul_of_nonneg_right (by exact_mod_cast halfEven_mono scaled) (two_zpow_pos _).le
  · -- two binades: the power of two between them separates the results
    have top : x ≤ 2 ^ (Int.log 2 y) := by
      have bound := Int.lt_zpow_succ_log_self (b := 2) one_lt_two x
      have order : Int.log 2 x + 1 ≤ Int.log 2 y := by
        unfold Format.lastPlace at finer
        omega
      exact bound.le.trans (zpow_le_zpow_right₀ one_le_two order)
    have bottom : 2 ^ (Int.log 2 y) ≤ y :=
      Int.zpow_log_le_self (b := 2) one_lt_two (positive.trans_le below)
    calc format.magnitude x ≤ 2 ^ (Int.log 2 y) := magnitude_le format _ top (by
          unfold Format.lastPlace at finer ⊢
          omega)
      _ ≤ format.magnitude y := le_magnitude format _ bottom (by
          unfold Format.lastPlace at finer ⊢
          omega)

theorem nearest_mono {x y : ℚ} (below : x ≤ y) : format.nearest x ≤ format.nearest y := by
  unfold Format.nearest
  split
  next negative =>
    split
    next => exact neg_le_neg (magnitude_mono format (by linarith) (by linarith))
    next nonneg =>
      have left := magnitude_nonneg format (x := -x) (by linarith)
      have right := magnitude_nonneg format (not_lt.mp nonneg)
      linarith
  next nonneg =>
    rw [if_neg (by linarith)]
    exact magnitude_mono format (not_lt.mp nonneg) below

theorem limit_pos : 0 < format.limit := two_zpow_pos _

private theorem round_finite_mono {x y : ℚ} (below : x ≤ y) :
    ((Value.finite x).round format).score.rank ≤ ((Value.finite y).round format).score.rank := by
  have rounded := nearest_mono format below
  have positive := limit_pos format
  simp only [Value.round]
  by_cases low : format.nearest x ≤ -format.limit
  · rw [if_pos low]
    split_ifs <;> simp [Value.score, Score.rank]
  · rw [if_neg low, if_neg (by linarith : ¬format.nearest y ≤ -format.limit)]
    by_cases high : format.limit ≤ format.nearest y
    · rw [if_pos high]
      split_ifs <;> simp [Value.score, Score.rank]
    · rw [if_neg high, if_neg (by linarith : ¬format.limit ≤ format.nearest x)]
      simp [Value.score, Score.rank, rounded]

theorem round_nan_iff (v : Value) : (v.round format).score = .nan ↔ v.score = .nan := by
  cases v with
  | nan => rfl
  | infinity negative => rfl
  | finite x =>
    simp only [Value.round]
    split_ifs <;> simp [Value.score]

private theorem rank_le_top (s : Score Extended) :
    s.rank ≤ (((⊤ : WithTop ℚ) : Extended) : WithBot Extended) := by
  cases s with
  | nan => exact bot_le
  | number value => exact WithBot.coe_le_coe.mpr le_top

private theorem bottom_le_rank {s : Score Extended} (number : s ≠ .nan) :
    ((⊥ : Extended) : WithBot Extended) ≤ s.rank := by
  cases s with
  | nan => exact absurd rfl number
  | number value => exact WithBot.coe_le_coe.mpr bot_le

/-- A value that is not greater does not round to a greater one; NaN rounds to NaN. -/
theorem round_rank_mono {v w : Value} (below : v.score.rank ≤ w.score.rank) :
    (v.round format).score.rank ≤ (w.round format).score.rank := by
  cases v with
  | nan => exact bot_le
  | infinity negative =>
    cases negative with
    | true =>
      apply bottom_le_rank
      rw [Ne, round_nan_iff]
      intro absent
      rw [absent] at below
      exact absurd below (by simp [Value.score, Score.rank])
    | false =>
      -- nothing else is as great
      have greatest : w.score.rank = (Value.infinity false).score.rank :=
        le_antisymm (rank_le_top _) below
      have same := Score.rank_inj greatest
      cases w with
      | nan => cases same
      | infinity other => exact below
      | finite y => simp [Value.score] at same
  | finite x =>
    cases w with
    | nan => exact absurd below (by simp [Value.score, Score.rank])
    | infinity other =>
      cases other with
      | true => exact absurd below (by simp [Value.score, Score.rank])
      | false => exact rank_le_top _
    | finite y =>
      apply round_finite_mono
      simpa [Value.score, Score.rank] using below

end

end BinaryFloat
