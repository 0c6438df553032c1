import MarketForge.Cpu.DecoderLayer
import MarketForge.Library.CausalStack

/-!
# The network, row by row

What the operators compute, without memory: each row of an output as a function of rows of the
inputs. A decoder layer is a causal stage over such rows, and the model is a stack of them. The
weights are read from a store that nothing writes to.
-/
namespace MarketForge.Cpu

open Library FloatOps

section

variable {F : Type} [FloatOps F]

/-! ## Rows of the operators -/

def rmsRow (weight : Nat → F) (width : Nat) (epsilon : F) (row : Nat → F) : Nat → F :=
  let sumSquares := forRange width (fun column sum => sum + row column * row column) zero
  let inverseRms := one / sqrt (sumSquares / ofNat width + epsilon)
  fun column => row column * inverseRms * weight column

def linearRow (weight : Nat → F) (width : Nat) (row : Nat → F) : Nat → F := fun outputColumn =>
  forRange width (fun column sum => sum + row column * weight (outputColumn * width + column)) zero

/-- Column `dimension` of a head turns with column `dimension + headDim / 2`. -/
def ropeRow (spec : RopeSpec F) (headDim position : Nat) (row : Nat → F) : Nat → F := fun column =>
  let half := headDim / 2
  if column % headDim < half then
    let angle := ropeAngle spec headDim position (column % headDim)
    row column * cos angle - row (column + half) * sin angle
  else
    let angle := ropeAngle spec headDim position (column % headDim - half)
    row column * cos angle + row (column - half) * sin angle

def attentionScore (scale : F) (headDim : Nat) (query key : Nat → F) : F :=
  forRange headDim (fun dimension dot => dot + query dimension * key dimension) zero * scale

/-- The softmax of so many scores, shifted by their maximum. -/
def softmaxRow (count : Nat) (score : Nat → F) : Nat → F :=
  let maximum :=
    forRange count (fun index maximum => FloatOps.max maximum (score index)) negInfinity
  let denominator := forRange count (fun index sum => sum + exp (score index - maximum)) zero
  let inverseDenominator := one / denominator
  fun index => exp (score index - maximum) * inverseDenominator

/-- The values of the valid keys, weighted by the softmax of their scores. -/
def attentionVector (scale : F) (headDim validKeys : Nat) (query : Nat → F)
    (keys values : Nat → Nat → F) : Nat → F := fun dimension =>
  let weights := softmaxRow validKeys fun keyToken =>
    attentionScore scale headDim query (keys keyToken)
  forRange validKeys (fun keyToken weightedValue =>
    weightedValue + weights keyToken * values keyToken dimension) zero

/-- Each query head attends to the keys and values of its group. -/
def attentionRow (queryHeads kvHeads headDim validKeys : Nat) (query : Nat → F)
    (keys values : Nat → Nat → F) : Nat → F := fun column =>
  let head := column / headDim
  let kvHead := head / (queryHeads / kvHeads)
  attentionVector (attentionScale headDim) headDim validKeys
    (fun dimension => query (head * headDim + dimension))
    (fun keyToken dimension => keys keyToken (kvHead * headDim + dimension))
    (fun keyToken dimension => values keyToken (kvHead * headDim + dimension)) (column % headDim)

def addRow (row addend : Nat → F) : Nat → F := fun column => row column + addend column

def gateRow (gate up : Nat → F) : Nat → F := fun column => silu (gate column) * up column

/-! ## The decoder layer -/

/-- The contents of a weight. -/
def weightOf (store : FlatMemory F) (view : FloatView) : Nat → F := fun index =>
  store (view.data + index)

variable (store : FlatMemory F) (spec : DecoderLayerSpec F) (weights : LayerWeights Nat)

def attentionInput (row : Nat → F) : Nat → F :=
  rmsRow (weightOf store weights.inputNorm) spec.hiddenSize.toNat spec.rmsNormEpsilon row

def queryRow (position : Nat) (row : Nat → F) : Nat → F :=
  ropeRow spec.rope spec.headDim.toNat position
    (linearRow (weightOf store weights.attention.query) spec.hiddenSize.toNat
      (attentionInput store spec weights row))

def keyRow (position : Nat) (row : Nat → F) : Nat → F :=
  ropeRow spec.rope spec.headDim.toNat position
    (linearRow (weightOf store weights.attention.key) spec.hiddenSize.toNat
      (attentionInput store spec weights row))

def valueRow (row : Nat → F) : Nat → F :=
  linearRow (weightOf store weights.attention.value) spec.hiddenSize.toNat
    (attentionInput store spec weights row)

/-- The row with what it attends to added. -/
def attendedRow (position : Nat) (row : Nat → F) (keys values : Nat → Nat → F) : Nat → F :=
  addRow row (linearRow (weightOf store weights.attention.output) spec.hiddenSize.toNat
    (attentionRow spec.queryHeads.toNat spec.kvHeads.toNat spec.headDim.toNat (position + 1)
      (queryRow store spec weights position row) keys values))

/-- The row with the output of the MLP added. -/
def mlpRow (row : Nat → F) : Nat → F :=
  let normalized := rmsRow (weightOf store weights.postAttentionNorm) spec.hiddenSize.toNat
    spec.rmsNormEpsilon row
  let gated := gateRow
    (linearRow (weightOf store weights.mlp.gate) spec.hiddenSize.toNat normalized)
    (linearRow (weightOf store weights.mlp.up) spec.hiddenSize.toNat normalized)
  addRow row (linearRow (weightOf store weights.mlp.down) spec.intermediateSize.toNat gated)

/-- A decoder layer as a stage over rows. -/
def decoderStage : Stage (Nat → F) (Nat → F) (Nat → F) where
  key := keyRow store spec weights
  value := fun _ => valueRow store spec weights
  output := fun position row keys values =>
    mlpRow store spec weights (attendedRow store spec weights position row keys values)

theorem softmax_row_congr (count : Nat) (score other : Nat → F)
    (same : ∀ index < count, score index = other index) :
    ∀ index < count, softmaxRow count score index = softmaxRow count other index := by
  have maximum : forRange count (fun index maximum => FloatOps.max maximum (score index))
      (negInfinity : F) =
        forRange count (fun index maximum => FloatOps.max maximum (other index)) negInfinity :=
    for_range_congr count _ _ _ fun index below _ => by rw [same index below]
  intro index below
  unfold softmaxRow
  rw [maximum, same index below]
  congr 2
  exact for_range_congr count _ _ _ fun index below _ => by rw [same index below]

theorem attention_vector_congr (scale : F) (headDim validKeys : Nat) (query : Nat → F)
    (keys values otherKeys otherValues : Nat → Nat → F)
    (sameKeys : ∀ keyToken < validKeys, keys keyToken = otherKeys keyToken)
    (sameValues : ∀ keyToken < validKeys, values keyToken = otherValues keyToken) :
    attentionVector scale headDim validKeys query keys values =
      attentionVector scale headDim validKeys query otherKeys otherValues := by
  funext dimension
  unfold attentionVector
  apply for_range_congr
  intro keyToken below current
  have weight := softmax_row_congr validKeys
    (fun keyToken => attentionScore scale headDim query (keys keyToken))
    (fun keyToken => attentionScore scale headDim query (otherKeys keyToken))
    (fun keyToken below => by rw [sameKeys keyToken below]) keyToken below
  rw [weight, sameValues keyToken below]

theorem decoder_stage_causal : (decoderStage store spec weights).Causal := by
  intro position row keys values otherKeys otherValues sameKeys sameValues
  have attended : attendedRow store spec weights position row keys values =
      attendedRow store spec weights position row otherKeys otherValues := by
    unfold attendedRow
    congr 2
    funext column
    apply congrFun (attention_vector_congr _ _ _ _ _ _ _ _ _ _)
    · intro keyToken below
      rw [sameKeys keyToken (by omega)]
    · intro keyToken below
      rw [sameValues keyToken (by omega)]
  simp only [decoderStage, attended]

end

end MarketForge.Cpu
