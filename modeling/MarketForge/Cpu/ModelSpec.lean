import Mathlib.Tactic.Linarith
import Mathlib.Tactic.Ring
import MarketForge.Cpu.Operators

/-!
# Model specifications

The dimensions of a model, their validation, and the number of its parameters, computed with
checked arithmetic.
-/
namespace MarketForge.Cpu

open FloatOps

inductive Architecture where
  | smollm2Llama
  | qwen2
  deriving DecidableEq, Repr

structure ModelSpec (F : Type) where
  architecture : Architecture
  layers : UInt32
  hiddenSize : UInt32
  intermediateSize : UInt32
  queryHeads : UInt32
  kvHeads : UInt32
  headDim : UInt32
  vocabularySize : UInt32
  maxPositions : UInt32
  rmsNormEpsilon : F
  ropeTheta : F
  qkvBias : Bool
  tiedEmbeddings : Bool

section

variable {F : Type}

def addTo (total : UInt64) (value : Result UInt64) : Result UInt64 := do
  checkedAdd total (← value)

def matrixParameters (rows columns : UInt64) : Result UInt64 := checkedMultiply rows columns

/-- The seven matrices of a layer. Whatever fails here is reported as an overflow. -/
def addMatrices (matrices : List (UInt64 × UInt64)) : Result UInt64 :=
  match matrices.foldlM (fun perLayer (rows, columns) =>
      addTo perLayer (matrixParameters rows columns)) 0 with
  | .error _ => .error (.failure .arithmeticOverflow)
  | .ok perLayer => .ok perLayer

/-- The biases of the query, key and value projections. -/
def addBiases (qkvBias : Bool) (perLayer queryWidth kvWidth : UInt64) : Result UInt64 :=
  if qkvBias then do
    let twoKvBiases ← checkedMultiply kvWidth 2
    addTo perLayer (checkedAdd queryWidth twoKvBiases)
  else .ok perLayer

/-- A zero among the dimensions that every model needs. -/
def ModelSpec.Degenerate (spec : ModelSpec F) : Prop :=
  spec.layers = 0 ∨ spec.hiddenSize = 0 ∨ spec.intermediateSize = 0 ∨ spec.queryHeads = 0
    ∨ spec.kvHeads = 0 ∨ spec.headDim = 0 ∨ spec.vocabularySize = 0

instance (spec : ModelSpec F) : Decidable spec.Degenerate :=
  inferInstanceAs (Decidable (_ ∨ _))

/-- Both architectures pass the check of the architecture. -/
def estimateParameterCount (spec : ModelSpec F) : Result UInt64 :=
  if spec.Degenerate then .error (.failure .invalidModel)
  else if spec.queryHeads % spec.kvHeads ≠ 0 then .error (.failure .invalidModel)
  else
    let hidden := spec.hiddenSize.toUInt64
    let intermediate := spec.intermediateSize.toUInt64
    match checkedMultiply spec.queryHeads.toUInt64 spec.headDim.toUInt64,
        checkedMultiply spec.kvHeads.toUInt64 spec.headDim.toUInt64 with
    | .ok queryWidth, .ok kvWidth =>
      if queryWidth ≠ hidden then .error (.failure .invalidModel)
      else do
        let total ← matrixParameters spec.vocabularySize.toUInt64 hidden
        let perLayer ← addMatrices [(hidden, queryWidth), (hidden, kvWidth), (hidden, kvWidth),
          (queryWidth, hidden), (hidden, intermediate), (hidden, intermediate),
          (intermediate, hidden)]
        let perLayer ← addTo perLayer (checkedMultiply hidden 2)
        let perLayer ← addBiases spec.qkvBias perLayer queryWidth kvWidth
        let total ← addTo total (checkedMultiply perLayer spec.layers.toUInt64)
        let total ← checkedAdd total hidden
        if spec.tiedEmbeddings then .ok total
        else addTo total (matrixParameters spec.vocabularySize.toUInt64 hidden)
    | _, _ => .error (.failure .arithmeticOverflow)

def validate [FloatOps F] (spec : ModelSpec F) : Status :=
  if spec.Degenerate ∨ spec.maxPositions = 0 then .failure .invalidModel
  else if spec.queryHeads % spec.kvHeads ≠ 0 then .failure .invalidModel
  else
    match checkedMultiply spec.queryHeads.toUInt64 spec.headDim.toUInt64 with
    | .error _ => .failure .invalidModel
    | .ok queryWidth =>
      if queryWidth ≠ spec.hiddenSize.toUInt64 then .failure .invalidModel
      else if isFinite spec.rmsNormEpsilon = false ∨ le spec.rmsNormEpsilon zero = true
          ∨ isFinite spec.ropeTheta = false ∨ le spec.ropeTheta zero = true then
        .failure .invalidModel
      else
        match estimateParameterCount spec with
        | .error status => status
        | .ok _ => .success

/-! ## The exact count -/

theorem add_to_computes {value : Result UInt64} {number : Nat} (total : UInt64)
    (exact : Computes value number) : Computes (addTo total value) (total.toNat + number) := by
  refine Computes.bind exact (Nat.le_add_left _ _) fun count same => ?_
  rw [← same]
  exact Computes.add total count

theorem add_matrices_computes (matrices : List (UInt64 × UInt64)) :
    Computes (addMatrices matrices)
      (matrices.map fun matrix => matrix.1.toNat * matrix.2.toNat).sum := by
  have loop : ∀ (rest : List (UInt64 × UInt64)) (perLayer : UInt64),
      Computes (rest.foldlM (fun perLayer (rows, columns) =>
          addTo perLayer (matrixParameters rows columns)) perLayer)
        (perLayer.toNat + (rest.map fun matrix => matrix.1.toNat * matrix.2.toNat).sum) := by
    intro rest
    induction rest with
    | nil => exact Computes.returned
    | cons matrix others ih =>
      intro perLayer
      rw [List.foldlM_cons, List.map_cons, List.sum_cons]
      refine Computes.bind (add_to_computes perLayer (Computes.multiply matrix.1 matrix.2))
        (by omega) fun count same => ?_
      rw [← Nat.add_assoc, ← same]
      exact ih count
  have exact := loop matrices 0
  rw [show (0 : UInt64).toNat = 0 from rfl, Nat.zero_add] at exact
  refine ⟨fun count => ?_, fun status failed => ?_⟩
  · rw [← exact.exact count, addMatrices]
    split
    next failed => rw [failed]; simp
    next perLayer computed => rw [computed]
  · rw [addMatrices] at failed
    split at failed
    next => exact (Except.error.inj failed).symm
    next => cases failed

namespace ModelSpec

/-- The floats of a key or of a value of one token. -/
def kvWidth (spec : ModelSpec F) : Nat := spec.kvHeads.toNat * spec.headDim.toNat

/-- The parameters of one layer: four projections of the attention, three of the
perceptron, two norms and, where the model has them, the biases of the first three. -/
def layerParameters (spec : ModelSpec F) : Nat :=
  let hidden := spec.hiddenSize.toNat
  2 * hidden * hidden + 2 * hidden * spec.kvWidth + 3 * hidden * spec.intermediateSize.toNat
    + 2 * hidden + if spec.qkvBias then hidden + 2 * spec.kvWidth else 0

def parameters (spec : ModelSpec F) : Nat :=
  let hidden := spec.hiddenSize.toNat
  spec.vocabularySize.toNat * hidden * (if spec.tiedEmbeddings then 1 else 2)
    + spec.layers.toNat * spec.layerParameters + hidden

/-- The conditions on the dimensions that the count asks for. -/
structure Structural (spec : ModelSpec F) : Prop where
  nonzero : ¬spec.Degenerate
  grouped : spec.queryHeads % spec.kvHeads = 0
  width : spec.queryHeads.toNat * spec.headDim.toNat = spec.hiddenSize.toNat

end ModelSpec

/-- Two 32-bit counts multiply within a machine word. -/
theorem checked_multiply_words (lhs rhs : UInt32) :
    ∃ product, checkedMultiply lhs.toUInt64 rhs.toUInt64 = .ok product ∧
      product.toNat = lhs.toNat * rhs.toNat := by
  have small : lhs.toNat * rhs.toNat < 2 ^ 32 * 2 ^ 32 :=
    Nat.mul_lt_mul'' lhs.toNat_lt rhs.toNat_lt
  refine ⟨lhs.toUInt64 * rhs.toUInt64, checked_multiply_of_lt _ _ ?_, ?_⟩
  · rw [UInt32.toNat_toUInt64, UInt32.toNat_toUInt64]
    omega
  · rw [UInt64.toNat_mul, UInt32.toNat_toUInt64, UInt32.toNat_toUInt64, Nat.mod_eq_of_lt (by omega)]

theorem add_biases_computes (biased : Bool) (perLayer queryWidth kvWidth : UInt64) :
    Computes (addBiases biased perLayer queryWidth kvWidth)
      (perLayer.toNat + if biased then queryWidth.toNat + 2 * kvWidth.toNat else 0) := by
  cases biased with
  | false => exact Computes.returned perLayer
  | true =>
    refine Computes.bind (Computes.multiply kvWidth 2) ?_ fun twice same => ?_
    · rw [show (2 : UInt64).toNat = 2 from rfl, if_pos rfl]
      omega
    · have two : (2 : UInt64).toNat = 2 := rfl
      rw [if_pos rfl, Nat.mul_comm 2, ← two, ← same]
      exact add_to_computes perLayer (Computes.add queryWidth twice)

/-- The count is the exact number of parameters, or fails when no machine word holds it. -/
theorem estimate_computes (spec : ModelSpec F) (structural : spec.Structural) :
    Computes (estimateParameterCount spec) spec.parameters := by
  obtain ⟨queryWidth, queryComputed, queryExact⟩ :=
    checked_multiply_words spec.queryHeads spec.headDim
  obtain ⟨kvWidth, kvComputed, kvExact⟩ := checked_multiply_words spec.kvHeads spec.headDim
  have same : queryWidth = spec.hiddenSize.toUInt64 := by
    rw [← UInt64.toNat_inj, queryExact, structural.width, UInt32.toNat_toUInt64]
  have someLayer : 1 ≤ spec.layers.toNat := by
    have nonzero : spec.layers ≠ 0 := fun zero => structural.nonzero (Or.inl zero)
    exact Nat.pos_of_ne_zero fun zero => nonzero (UInt32.toNat_inj.mp zero)
  rw [estimateParameterCount, if_neg structural.nonzero, if_neg (by simp [structural.grouped])]
  dsimp only
  rw [queryComputed, kvComputed]
  dsimp only
  rw [if_neg (by simp [same]), same]
  have hiddenExact := UInt32.toNat_toUInt64 spec.hiddenSize
  have intermediateExact := UInt32.toNat_toUInt64 spec.intermediateSize
  -- Every number on the way is a part of the final one.
  have layerTotal : spec.layerParameters ≤ spec.layers.toNat * spec.layerParameters :=
    Nat.le_mul_of_pos_left _ someLayer
  have layersTotal : spec.layers.toNat * spec.layerParameters ≤ spec.parameters := by
    rw [ModelSpec.parameters]
    omega
  have embeddingTotal : spec.vocabularySize.toNat * spec.hiddenSize.toNat
      + spec.layers.toNat * spec.layerParameters + spec.hiddenSize.toNat ≤ spec.parameters := by
    rw [ModelSpec.parameters]
    split <;> omega
  have matrices : ([(spec.hiddenSize.toUInt64, spec.hiddenSize.toUInt64),
      (spec.hiddenSize.toUInt64, kvWidth), (spec.hiddenSize.toUInt64, kvWidth),
      (spec.hiddenSize.toUInt64, spec.hiddenSize.toUInt64),
      (spec.hiddenSize.toUInt64, spec.intermediateSize.toUInt64),
      (spec.hiddenSize.toUInt64, spec.intermediateSize.toUInt64),
      (spec.intermediateSize.toUInt64, spec.hiddenSize.toUInt64)].map
        fun matrix => matrix.1.toNat * matrix.2.toNat).sum =
      2 * spec.hiddenSize.toNat * spec.hiddenSize.toNat
        + 2 * spec.hiddenSize.toNat * spec.kvWidth
        + 3 * spec.hiddenSize.toNat * spec.intermediateSize.toNat := by
    simp only [List.map_cons, List.map_nil, List.sum_cons, List.sum_nil, hiddenExact,
      intermediateExact, kvExact, ModelSpec.kvWidth]
    ring
  have layerParts : spec.layerParameters = 2 * spec.hiddenSize.toNat * spec.hiddenSize.toNat
      + 2 * spec.hiddenSize.toNat * spec.kvWidth
      + 3 * spec.hiddenSize.toNat * spec.intermediateSize.toNat + 2 * spec.hiddenSize.toNat
      + if spec.qkvBias then spec.hiddenSize.toNat + 2 * spec.kvWidth else 0 := rfl
  refine Computes.bind (Computes.multiply _ _) (by
    rw [UInt32.toNat_toUInt64, hiddenExact]
    omega) fun embedding embeddingSame => ?_
  rw [UInt32.toNat_toUInt64, hiddenExact] at embeddingSame
  refine Computes.bind (add_matrices_computes _) (by omega) fun sevenMatrices matricesSame => ?_
  rw [matrices] at matricesSame
  refine Computes.bind (add_to_computes sevenMatrices (Computes.multiply _ 2)) ?_
    fun withNorms normsSame => ?_
  · rw [hiddenExact, show (2 : UInt64).toNat = 2 from rfl]
    omega
  rw [hiddenExact, show (2 : UInt64).toNat = 2 from rfl] at normsSame
  refine Computes.bind (add_biases_computes spec.qkvBias withNorms _ kvWidth) ?_
    fun perLayer layerSame => ?_
  · rw [hiddenExact, kvExact, ← ModelSpec.kvWidth]
    omega
  rw [hiddenExact, kvExact, ← ModelSpec.kvWidth] at layerSame
  have exactLayer : perLayer.toNat = spec.layerParameters := by omega
  refine Computes.bind (add_to_computes embedding (Computes.multiply perLayer _)) ?_
    fun withLayers layersSame => ?_
  · rw [exactLayer, UInt32.toNat_toUInt64, Nat.mul_comm]
    omega
  rw [exactLayer, UInt32.toNat_toUInt64, Nat.mul_comm spec.layerParameters] at layersSame
  refine Computes.bind (Computes.add withLayers _) (by omega) fun total totalSame => ?_
  rw [hiddenExact] at totalSame
  have finalParts : spec.parameters = spec.vocabularySize.toNat * spec.hiddenSize.toNat
      * (if spec.tiedEmbeddings then 1 else 2)
      + spec.layers.toNat * spec.layerParameters + spec.hiddenSize.toNat := rfl
  cases tied : spec.tiedEmbeddings with
  | true =>
    rw [if_pos tied, Nat.mul_one] at finalParts
    rw [if_pos rfl, finalParts, ← embeddingSame, ← layersSame, ← totalSame]
    exact Computes.returned total
  | false =>
    rw [if_neg (by simp [tied]), Nat.mul_two] at finalParts
    have sum : spec.parameters =
        total.toNat + spec.vocabularySize.toUInt64.toNat * spec.hiddenSize.toUInt64.toNat := by
      rw [UInt32.toNat_toUInt64, hiddenExact]
      omega
    rw [if_neg (by decide), sum]
    exact add_to_computes total (Computes.multiply _ _)

/-- A valid specification has sound dimensions and a representable number of parameters. -/
theorem validate_ok [FloatOps F] (spec : ModelSpec F) (valid : (validate spec).isOk = true) :
    spec.Structural ∧ ∃ count, estimateParameterCount spec = .ok count := by
  obtain ⟨queryWidth, computed, exact⟩ := checked_multiply_words spec.queryHeads spec.headDim
  rw [validate] at valid
  split at valid
  next => exact absurd valid (by decide)
  next nonzero =>
    split at valid
    next => exact absurd valid (by decide)
    next grouped =>
      rw [computed] at valid
      dsimp only at valid
      split at valid
      next => exact absurd valid (by decide)
      next width =>
        split at valid
        next => exact absurd valid (by decide)
        next =>
          have structural : spec.Structural := by
            refine ⟨fun zero => nonzero (Or.inl zero), not_not.mp grouped, ?_⟩
            rw [← exact, not_not.mp width, UInt32.toNat_toUInt64]
          refine ⟨structural, ?_⟩
          cases estimate : estimateParameterCount spec with
          | ok count => exact ⟨count, rfl⟩
          | error status =>
            obtain rfl := (estimate_computes spec structural).overflow status estimate
            rw [estimate] at valid
            exact absurd valid (by decide)

end

end MarketForge.Cpu
