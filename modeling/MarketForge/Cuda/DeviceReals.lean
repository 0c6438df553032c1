import MarketForge.Cuda.DeviceRow
import Mathlib.Analysis.SpecialFunctions.Pow.Real

/-!
# The operations of the kernels over the real numbers

FP32 without rounding. A number below all FP32 numbers stands for the negative infinity from which
the kernels take their maxima.
-/
namespace MarketForge.Cuda

noncomputable scoped instance deviceReals : DeviceFloat ℝ where
  zero := 0
  one := 1
  negInfinity := -2 ^ 128
  fmaf a b c := a * b + c
  fmaxf := max
  expf := Real.exp
  rsqrtf x := (Real.sqrt x)⁻¹
  powf base exponent := base ^ exponent
  sinf := Real.sin
  cosf := Real.cos
  ofUInt64 n := (n.toNat : ℝ)
  isFinite _ := true
  isPositive x := decide (0 < x)

namespace DeviceFloat

@[simp] theorem zero_real : (zero : ℝ) = 0 := rfl

@[simp] theorem one_real : (one : ℝ) = 1 := rfl

@[simp] theorem negInfinity_real : (negInfinity : ℝ) = -2 ^ 128 := rfl

@[simp] theorem fmaf_real (a b c : ℝ) : fmaf a b c = a * b + c := rfl

@[simp] theorem fmaxf_real (a b : ℝ) : fmaxf a b = max a b := rfl

@[simp] theorem expf_real (x : ℝ) : expf x = Real.exp x := rfl

@[simp] theorem powf_real (base exponent : ℝ) : powf base exponent = base ^ exponent := rfl

@[simp] theorem sinf_real (x : ℝ) : sinf x = Real.sin x := rfl

@[simp] theorem cosf_real (x : ℝ) : cosf x = Real.cos x := rfl

@[simp] theorem ofUInt64_real (n : UInt64) : (ofUInt64 n : ℝ) = n.toNat := rfl

@[simp] theorem isFinite_real (x : ℝ) : isFinite x = true := rfl

@[simp] theorem isPositive_real (x : ℝ) : isPositive x = decide (0 < x) := rfl

end DeviceFloat

@[simp] theorem load_real (x : ℝ) : (Stored.load x : ℝ) = x := rfl

@[simp] theorem store_real (x : ℝ) : (Stored.store x : ℝ) = x := rfl

end MarketForge.Cuda
