import MarketForge.Cuda.AttentionKernel
import MarketForge.Cuda.DeviceReals
import MarketForge.Cuda.RmsNormKernel
import Mathlib.Algebra.BigOperators.Field

/-!
# Rows over the real numbers

The strides and the tree of a block only change the order of its sums. So over the real numbers a
normalized row is divided by the root of its mean square, and a row of the attention is a mean of
the values of its keys. Late threads change the weights of that mean. Without them the weights are
the softmax of the scores, whatever the maximum that is subtracted from all of them.
-/
namespace MarketForge.Cuda

open BarrierBlock Finset

namespace RmsNormInput

variable {call : RmsNormInput ℝ ℝ}

theorem rowSum_real (elements : Nat → ℝ) :
    call.rowSum elements = ∑ column ∈ range call.hiddenSize.toNat, elements column ^ 2 := by
  have turn : (fun (sum : ℝ) column => DeviceFloat.fmaf (elements column) (elements column) sum) =
      fun sum column => sum + elements column ^ 2 := by
    funext sum column
    rw [DeviceFloat.fmaf_real, sq, add_comm]
  have lanes : call.localSum elements = fun thread =>
      (threadIndices thread call.hiddenSize.toNat).foldl
        (fun sum column => sum + elements column ^ 2) 0 := by
    funext thread
    exact congrArg (fun turn => List.foldl turn 0 _) turn
  rw [rowSum, lanes]
  exact BlockReduction.reduce_strided_add (fun _ column => elements column ^ 2) _ 8

theorem rmsNormRow_real (elements : Nat → ℝ) (column : Nat) :
    call.rmsNormRow elements column =
      elements column / √((∑ column ∈ range call.hiddenSize.toNat, elements column ^ 2) /
        call.hiddenSize.toNat + call.epsilon) * call.weight (UInt64.ofNat column) := by
  rw [rmsNormRow, rowSum_real]
  rfl

end RmsNormInput

namespace AttentionInput

variable (input : AttentionInput ℝ) (vector : UInt64)

/-- What a key weighs before the weights are scaled, with the maximum that its thread has seen. -/
noncomputable def keyWeight (late : Nat → Bool) (keyToken : Nat) : ℝ :=
  input.weight vector (input.seen vector late (keyToken % blockDim)) keyToken

/-- One element of the value of a key. -/
def keyValue (keyToken dimension : Nat) : ℝ :=
  input.valueCache (input.cacheOffset vector keyToken + UInt64.ofNat dimension)

variable {input vector}

theorem rowMaximum_le_iff (bound : ℝ) :
    input.rowMaximum vector ≤ bound ↔
      -2 ^ 128 ≤ bound ∧ ∀ keyToken < (input.validKeys vector).toNat,
        input.logit vector keyToken ≤ bound :=
  BlockReduction.scanReduce_le_iff id
    (fun keyToken bound => input.logit vector keyToken ≤ bound) _ 8
    bound (fun _ _ _ => max_le_iff) fun _ _ => rfl

theorem denominator_real (late : Nat → Bool) :
    input.denominator vector late =
      ∑ keyToken ∈ range (input.validKeys vector).toNat, input.keyWeight vector late keyToken :=
  BlockReduction.reduce_strided_add
    (fun thread keyToken => input.weight vector (input.seen vector late thread) keyToken) _ 8

/-- A row is a mean of the values, also with late threads. -/
theorem attentionRow_mean (room : ¬ input.maximumContext < input.validKeys vector)
    (late : Nat → Bool) (dimension : Nat) :
    input.attentionRow ℝ vector late dimension =
      (∑ keyToken ∈ range (input.validKeys vector).toNat,
        input.keyWeight vector late keyToken * input.keyValue vector keyToken dimension) /
      ∑ keyToken ∈ range (input.validKeys vector).toNat, input.keyWeight vector late keyToken := by
  have turn : input.mixTurn vector late dimension = fun (sum : ℝ) keyToken =>
      sum + input.keyWeight vector late keyToken * input.keyValue vector keyToken dimension /
        input.denominator vector late := by
    funext sum keyToken
    simp only [mixTurn, keyWeight, keyValue, DeviceFloat.fmaf_real, DeviceFloat.one_real, load_real]
    ring
  rw [attentionRow, if_neg room, mixed, turn, BlockReduction.foldl_add_eq,
    ← List.sum_toFinset _ List.nodup_range, List.toFinset_range, ← sum_div, denominator_real]
  exact zero_add _

/-- Where no thread is late, a row is the mean of the values under the softmax of the scores. -/
theorem attentionRow_softmax (room : ¬ input.maximumContext < input.validKeys vector)
    (dimension : Nat) :
    input.attentionRow ℝ vector (fun _ => false) dimension =
      (∑ keyToken ∈ range (input.validKeys vector).toNat,
        Real.exp (input.logit vector keyToken) * input.keyValue vector keyToken dimension) /
      ∑ keyToken ∈ range (input.validKeys vector).toNat,
        Real.exp (input.logit vector keyToken) := by
  have shifted : ∀ keyToken, input.keyWeight vector (fun _ => false) keyToken =
      Real.exp (-input.rowMaximum vector) * Real.exp (input.logit vector keyToken) := by
    intro keyToken
    rw [← Real.exp_add, neg_add_eq_sub]
    rfl
  simp only [attentionRow_mean room, shifted, mul_assoc, ← mul_sum]
  exact mul_div_mul_left _ _ (Real.exp_ne_zero _)

/-- Among keys of one score, at most one for each thread, those of late threads weigh less. -/
theorem keyWeight_level (some_key : 0 < (input.validKeys vector).toNat)
    (few : (input.validKeys vector).toNat ≤ blockDim)
    (level : ∀ keyToken < (input.validKeys vector).toNat, (input.logit vector keyToken : ℝ) = 0)
    (late : Nat → Bool) {keyToken : Nat} (below : keyToken < (input.validKeys vector).toNat) :
    input.keyWeight vector late keyToken = if late keyToken then Real.exp (-1) else 1 := by
  have maximum : (input.rowMaximum vector : ℝ) = 0 := by
    refine le_antisymm ((rowMaximum_le_iff 0).mpr ⟨by norm_num, fun key within => ?_⟩) ?_
    · exact (level key within).le
    · exact level 0 some_key ▸ ((rowMaximum_le_iff _).mp le_rfl).2 0 some_key
  have leader : input.localSum vector (0 : ℝ) 0 = 1 := by
    have alone : (range (input.validKeys vector).toNat).filter (· % blockDim = 0) = {0} := by
      ext key
      rw [mem_filter, mem_range, mem_singleton]
      constructor
      · rintro ⟨within, own⟩
        rwa [Nat.mod_eq_of_lt (within.trans_le few)] at own
      · rintro rfl
        exact ⟨some_key, rfl⟩
    refine (BlockReduction.strided_sum (input.weight vector 0) (by decide) _).trans ?_
    rw [alone, sum_singleton, weight, level 0 some_key, sub_self]
    exact Real.exp_zero
  rw [keyWeight, weight, level keyToken below, Nat.mod_eq_of_lt (below.trans_le few), seen, maximum,
    leader]
  split <;> simp

end AttentionInput

end MarketForge.Cuda
