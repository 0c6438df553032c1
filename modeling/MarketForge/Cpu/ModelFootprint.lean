import MarketForge.Cpu.Binary32
import MarketForge.Cpu.ModelSpec

/-!
# Capacity planning

The memory a model takes, computed with checked arithmetic: its weights as they are stored and
as they are materialized, one token of its caches, and the peak of a runtime plan. Every number
on the way is a part of the final one, so a plan is refused only when no machine word holds it.
-/
namespace MarketForge.Cpu

open FloatOps

structure ModelFootprint where
  parameterCount : UInt64
  sourceWeightBytes : UInt64
  materializedWeightBytes : UInt64
  peakCpuWeightBytes : UInt64
  kvBytesPerToken : UInt64
  deriving DecidableEq, Repr

structure RuntimeMemoryPlan where
  residentKvTokens : UInt64 := 0
  workspaceBytes : UInt64 := 0
  reserveBytes : UInt64 := 0
  deriving DecidableEq, Repr

section

variable {F : Type}

/-- The keys and values of one token in all layers. -/
def kvBytesPerToken (spec : ModelSpec F) (kvSize : UInt32) : Result UInt64 := do
  let kvBytes ← checkedMultiply 2 spec.layers.toUInt64
  let kvBytes ← checkedMultiply kvBytes spec.kvHeads.toUInt64
  let kvBytes ← checkedMultiply kvBytes spec.headDim.toUInt64
  checkedMultiply kvBytes kvSize.toUInt64

def estimateModelFootprint [FloatOps F] (spec : ModelSpec F)
    (sourceWeightDtype materializedWeightDtype kvDtype : DType) : Result ModelFootprint :=
  let validation := validate spec
  if validation.isOk = false then .error validation
  else
    match estimateParameterCount spec, dtypeSize sourceWeightDtype,
        dtypeSize materializedWeightDtype, dtypeSize kvDtype with
    | .ok parameters, .ok sourceSize, .ok materializedSize, .ok kvSize =>
      match checkedMultiply parameters sourceSize.toUInt64,
          checkedMultiply parameters materializedSize.toUInt64 with
      | .ok sourceBytes, .ok materializedBytes => do
        let peakWeights ← checkedAdd sourceBytes materializedBytes
        let kvBytes ← kvBytesPerToken spec kvSize
        return ⟨parameters, sourceBytes, materializedBytes, peakWeights, kvBytes⟩
      | _, _ => .error (.failure .arithmeticOverflow)
    | _, _, _, _ => .error (.failure .unsupportedDtype)

end

def estimatePeakRuntimeBytes (footprint : ModelFootprint) (plan : RuntimeMemoryPlan) :
    Result UInt64 := do
  let kvBytes ← checkedMultiply footprint.kvBytesPerToken plan.residentKvTokens
  let total ← checkedAdd footprint.peakCpuWeightBytes kvBytes
  let total ← checkedAdd total plan.workspaceBytes
  checkedAdd total plan.reserveBytes

def fitsMemoryBudget (footprint : ModelFootprint) (plan : RuntimeMemoryPlan)
    (availableBytes : UInt64) : Result Bool :=
  match estimatePeakRuntimeBytes footprint plan with
  | .error status => .error status
  | .ok required => .ok (decide (required ≤ availableBytes))

/-! ## Validation -/

section

variable {F : Type} [FloatOps F]

/-- The fields that the validation checks and the parameter count does not. -/
structure ModelSpec.Usable (spec : ModelSpec F) : Prop where
  positions : spec.maxPositions ≠ 0
  epsilon : isFinite spec.rmsNormEpsilon = true ∧ le spec.rmsNormEpsilon zero = false
  theta : isFinite spec.ropeTheta = true ∧ le spec.ropeTheta zero = false

/-- A specification whose fields pass their checks is valid exactly when its parameters can be
counted in a machine word. -/
theorem validate_iff (spec : ModelSpec F) (structural : spec.Structural) :
    (validate spec).isOk = true ↔ spec.Usable ∧ spec.parameters < 2 ^ 64 := by
  obtain ⟨queryWidth, computed, exact⟩ := checked_multiply_words spec.queryHeads spec.headDim
  have width : queryWidth = spec.hiddenSize.toUInt64 := by
    rw [← UInt64.toNat_inj, exact, structural.width, UInt32.toNat_toUInt64]
  have counted := estimate_computes spec structural
  constructor
  · intro valid
    obtain ⟨_, estimate⟩ := validate_ok spec valid
    refine ⟨?_, counted.ok_iff.mp estimate⟩
    rw [validate] at valid
    split at valid
    next => exact absurd valid (by decide)
    next nonzero =>
      rw [if_neg (by simp [structural.grouped]), computed] at valid
      dsimp only at valid
      rw [if_neg (by simp [width])] at valid
      split at valid
      next => exact absurd valid (by decide)
      next floats =>
        simp only [not_or, Bool.not_eq_false, Bool.not_eq_true] at floats nonzero
        exact ⟨nonzero.2, ⟨floats.1, floats.2.1⟩, ⟨floats.2.2.1, floats.2.2.2⟩⟩
  · rintro ⟨usable, fits⟩
    obtain ⟨count, estimate⟩ := counted.ok_iff.mpr fits
    have nonzero : ¬(spec.Degenerate ∨ spec.maxPositions = 0) :=
      not_or.mpr ⟨structural.nonzero, usable.positions⟩
    rw [validate, if_neg nonzero, if_neg (by simp [structural.grouped]), computed]
    dsimp only
    rw [if_neg (by simp [width]), if_neg (by simp [usable.epsilon, usable.theta]), estimate]
    rfl

end

/-! ## Footprints -/

section

variable {F : Type}

/-- The bytes of the keys and values of one token. -/
def ModelSpec.kvTokenBytes (spec : ModelSpec F) (kvDtype : DType) : Nat :=
  2 * spec.layers.toNat * spec.kvHeads.toNat * spec.headDim.toNat * kvDtype.size

/-- The five numbers of a footprint, without the bound of a machine word. -/
structure ModelFootprint.Exact (footprint : ModelFootprint) (spec : ModelSpec F)
    (source materialized kv : DType) : Prop where
  parameterCount : footprint.parameterCount.toNat = spec.parameters
  sourceBytes : footprint.sourceWeightBytes.toNat = spec.parameters * source.size
  materializedBytes :
    footprint.materializedWeightBytes.toNat = spec.parameters * materialized.size
  peakBytes : footprint.peakCpuWeightBytes.toNat =
    spec.parameters * source.size + spec.parameters * materialized.size
  kvBytes : footprint.kvBytesPerToken.toNat = spec.kvTokenBytes kv

/-- One more nonzero factor keeps a product exact. -/
theorem multiply_computes {first : Result UInt64} {value : Nat} (factor : UInt64)
    (positive : 0 < factor.toNat) (step : Computes first value) :
    Computes (first >>= fun product => checkedMultiply product factor)
      (value * factor.toNat) := by
  apply Computes.bind step (Nat.le_mul_of_pos_right _ positive)
  intro product same
  rw [← same]
  exact Computes.multiply product factor

theorem kv_bytes_computes (spec : ModelSpec F) (structural : spec.Structural) (kv : DType)
    (kvSize : UInt32) (known : dtypeSize kv = .ok kvSize) :
    Computes (kvBytesPerToken spec kvSize) (spec.kvTokenBytes kv) := by
  have word (field : UInt32) (nonzero : field ≠ 0) : 0 < field.toUInt64.toNat := by
    rw [UInt32.toNat_toUInt64]
    exact Nat.pos_of_ne_zero fun zero => nonzero (UInt32.toNat_inj.mp zero)
  have dimensions := structural.nonzero
  simp only [ModelSpec.Degenerate, not_or] at dimensions
  obtain ⟨_, _, _, _, kvHeads, headDim, _⟩ := dimensions
  have size : 0 < kvSize.toUInt64.toNat := by
    rw [UInt32.toNat_toUInt64, dtype_size_ok kv kvSize known]
    cases kv <;> decide
  -- each factor is at least one, so no product on the way exceeds the last one
  have pairs := Computes.multiply 2 spec.layers.toUInt64
  have chain := multiply_computes _ size (multiply_computes _ (word _ headDim)
    (multiply_computes _ (word _ kvHeads) pairs))
  have exact : (2 : UInt64).toNat * spec.layers.toUInt64.toNat * spec.kvHeads.toUInt64.toNat
      * spec.headDim.toUInt64.toNat * kvSize.toUInt64.toNat = spec.kvTokenBytes kv := by
    simp only [UInt32.toNat_toUInt64, dtype_size_ok kv kvSize known, ModelSpec.kvTokenBytes]
    rfl
  rw [exact] at chain
  simpa only [kvBytesPerToken, bind_assoc] using chain

/-- What the estimate returns are the five exact numbers, and it returns them whenever they are
machine words. -/
theorem footprint_iff [FloatOps F] (spec : ModelSpec F) (structural : spec.Structural)
    (source materialized kv : DType) (footprint : ModelFootprint) :
    estimateModelFootprint spec source materialized kv = .ok footprint ↔
      spec.Usable ∧ footprint.Exact spec source materialized kv := by
  have valid := validate_iff spec structural
  have counted := estimate_computes spec structural
  have sizes : ∀ dtype, ∃ size, dtypeSize dtype = .ok size := fun dtype => by
    cases dtype <;> exact ⟨_, rfl⟩
  obtain ⟨sourceSize, sourceKnown⟩ := sizes source
  obtain ⟨materializedSize, materializedKnown⟩ := sizes materialized
  obtain ⟨kvSize, kvKnown⟩ := sizes kv
  have kvComputes := kv_bytes_computes spec structural kv kvSize kvKnown
  have sourceExact := dtype_size_ok source sourceSize sourceKnown
  have materializedExact := dtype_size_ok materialized materializedSize materializedKnown
  constructor
  · intro estimated
    -- each step of the estimate that succeeds gives its exact number
    unfold estimateModelFootprint at estimated
    dsimp only at estimated
    split at estimated
    next => cases estimated
    next accepted =>
      rw [Bool.not_eq_false] at accepted
      obtain ⟨usable, fits⟩ := valid.mp accepted
      obtain ⟨parameters, estimate⟩ := counted.ok_iff.mpr fits
      have parametersExact := (counted.exact parameters).mp estimate
      simp only [estimate, sourceKnown, materializedKnown, kvKnown] at estimated
      split at estimated
      next sourceBytes materializedBytes sourceDone materializedDone =>
        obtain ⟨peakWeights, peakDone, estimated⟩ := bind_eq_ok.mp estimated
        obtain ⟨kvBytes, kvDone, estimated⟩ := bind_eq_ok.mp estimated
        obtain rfl := Except.ok.inj estimated
        have bytes := (checked_multiply_iff _ _ _).mp sourceDone
        have others := (checked_multiply_iff _ _ _).mp materializedDone
        rw [UInt32.toNat_toUInt64, parametersExact] at bytes others
        rw [sourceExact] at bytes
        rw [materializedExact] at others
        have peak := (checked_add_iff _ _ _).mp peakDone
        rw [bytes, others] at peak
        have kvExact := (kvComputes.exact kvBytes).mp kvDone
        exact ⟨usable, parametersExact, bytes, others, peak, kvExact⟩
      next => cases estimated
  · rintro ⟨usable, exact⟩
    -- exact numbers that are words are what each step computes
    have fits : spec.parameters < 2 ^ 64 := by
      rw [← exact.parameterCount]
      exact footprint.parameterCount.toNat_lt
    have estimate := (counted.exact footprint.parameterCount).mpr exact.parameterCount
    have accepted := valid.mpr ⟨usable, fits⟩
    have sourceDone : checkedMultiply footprint.parameterCount sourceSize.toUInt64 =
        .ok footprint.sourceWeightBytes := by
      rw [checked_multiply_iff, exact.sourceBytes, exact.parameterCount, UInt32.toNat_toUInt64,
        sourceExact]
    have materializedDone : checkedMultiply footprint.parameterCount materializedSize.toUInt64 =
        .ok footprint.materializedWeightBytes := by
      rw [checked_multiply_iff, exact.materializedBytes, exact.parameterCount,
        UInt32.toNat_toUInt64, materializedExact]
    have peakDone : checkedAdd footprint.sourceWeightBytes footprint.materializedWeightBytes =
        .ok footprint.peakCpuWeightBytes := by
      rw [checked_add_iff, exact.peakBytes, exact.sourceBytes, exact.materializedBytes]
    have kvDone := (kvComputes.exact footprint.kvBytesPerToken).mpr exact.kvBytes
    rw [estimateModelFootprint, if_neg (by simp [accepted])]
    simp only [estimate, sourceKnown, materializedKnown, kvKnown, sourceDone, materializedDone,
      ok_bind _ peakDone, ok_bind _ kvDone]
    rfl

/-- All five numbers of a footprint are machine words. -/
def ModelSpec.FootprintFits (spec : ModelSpec F) (source materialized kv : DType) : Prop :=
  spec.parameters < 2 ^ 64 ∧ spec.parameters * source.size < 2 ^ 64 ∧
    spec.parameters * materialized.size < 2 ^ 64 ∧
    spec.parameters * source.size + spec.parameters * materialized.size < 2 ^ 64 ∧
    spec.kvTokenBytes kv < 2 ^ 64

theorem exact_footprint_iff (spec : ModelSpec F) (source materialized kv : DType) :
    (∃ footprint : ModelFootprint, footprint.Exact spec source materialized kv) ↔
      spec.FootprintFits source materialized kv := by
  constructor
  · rintro ⟨footprint, exact⟩
    refine ⟨?_, ?_, ?_, ?_, ?_⟩
    · exact exact.parameterCount ▸ footprint.parameterCount.toNat_lt
    · exact exact.sourceBytes ▸ footprint.sourceWeightBytes.toNat_lt
    · exact exact.materializedBytes ▸ footprint.materializedWeightBytes.toNat_lt
    · exact exact.peakBytes ▸ footprint.peakCpuWeightBytes.toNat_lt
    · exact exact.kvBytes ▸ footprint.kvBytesPerToken.toNat_lt
  · rintro ⟨parameters, sourceBytes, materializedBytes, peak, kvBytes⟩
    have word : ∀ number < 2 ^ 64, (UInt64.ofNat number).toNat = number := fun number fits => by
      rw [UInt64.toNat_ofNat', Nat.mod_eq_of_lt fits]
    exact ⟨⟨.ofNat _, .ofNat _, .ofNat _, .ofNat _, .ofNat _⟩, word _ parameters,
      word _ sourceBytes, word _ materializedBytes, word _ peak, word _ kvBytes⟩

end

/-! ## Plans -/

/-- The bytes a plan takes at its peak. -/
def RuntimeMemoryPlan.required (plan : RuntimeMemoryPlan) (footprint : ModelFootprint) : Nat :=
  footprint.peakCpuWeightBytes.toNat
    + footprint.kvBytesPerToken.toNat * plan.residentKvTokens.toNat
    + plan.workspaceBytes.toNat + plan.reserveBytes.toNat

theorem peak_bytes_computes (footprint : ModelFootprint) (plan : RuntimeMemoryPlan) :
    Computes (estimatePeakRuntimeBytes footprint plan) (plan.required footprint) := by
  have parts : plan.required footprint = footprint.peakCpuWeightBytes.toNat
      + footprint.kvBytesPerToken.toNat * plan.residentKvTokens.toNat
      + plan.workspaceBytes.toNat + plan.reserveBytes.toNat := rfl
  apply Computes.bind (Computes.multiply _ _) (by omega)
  intro kvBytes kvSame
  apply Computes.bind (Computes.add _ _) (by omega)
  intro weights weightsSame
  apply Computes.bind (Computes.add _ _) (by omega)
  intro total totalSame
  have whole : plan.required footprint = total.toNat + plan.reserveBytes.toNat := by omega
  rw [whole]
  exact Computes.add _ _

/-- A budget holds a plan exactly when the exact requirement is within it. -/
theorem fits_memory_budget_iff (footprint : ModelFootprint) (plan : RuntimeMemoryPlan)
    (availableBytes : UInt64) (answer : Bool) :
    fitsMemoryBudget footprint plan availableBytes = .ok answer ↔
      plan.required footprint < 2 ^ 64 ∧
        answer = decide (plan.required footprint ≤ availableBytes.toNat) := by
  have computes := peak_bytes_computes footprint plan
  rw [← computes.ok_iff, fitsMemoryBudget]
  cases estimate : estimatePeakRuntimeBytes footprint plan with
  | error status => simp
  | ok required =>
    have exact := (computes.exact required).mp estimate
    simp [UInt64.le_iff_toNat_le, exact, eq_comm]

/-- The parameter count, the footprint and the peak of a plan are the exact numbers, reported
exactly when machine words hold them; no plan that exceeds a budget is reported to fit. -/
theorem capacity_planning_exact {F : Type} [FloatOps F] (spec : ModelSpec F)
    (structural : spec.Structural) :
    Computes (estimateParameterCount spec) spec.parameters ∧
    (∀ source materialized kv,
      ((∃ footprint, estimateModelFootprint spec source materialized kv = .ok footprint) ↔
        spec.Usable ∧ spec.FootprintFits source materialized kv) ∧
      ∀ footprint, estimateModelFootprint spec source materialized kv = .ok footprint →
        footprint.Exact spec source materialized kv) ∧
    ∀ (footprint : ModelFootprint) (plan : RuntimeMemoryPlan),
      Computes (estimatePeakRuntimeBytes footprint plan) (plan.required footprint) ∧
      ∀ available, fitsMemoryBudget footprint plan available = .ok true →
        plan.required footprint ≤ available.toNat := by
  refine ⟨estimate_computes spec structural, ?_, ?_⟩
  · intro source materialized kv
    have estimated := footprint_iff spec structural source materialized kv
    constructor
    · simp only [estimated, exists_and_left, exact_footprint_iff]
    · exact fun footprint done => ((estimated footprint).mp done).2
  · intro footprint plan
    refine ⟨peak_bytes_computes footprint plan, fun available fits => ?_⟩
    obtain ⟨_, answer⟩ := (fits_memory_budget_iff footprint plan available true).mp fits
    exact of_decide_eq_true answer.symm

/-- The specification in `smollm2_135m_profile`. -/
def smollm2Profile : ModelSpec BinaryFloat.Value where
  architecture := .smollm2Llama
  layers := 30
  hiddenSize := 576
  intermediateSize := 1536
  queryHeads := 9
  kvHeads := 3
  headDim := 64
  vocabularySize := 49152
  maxPositions := 8192
  rmsNormEpsilon := bitCast 0x3727c5ac
  ropeTheta := .finite 100000
  qkvBias := false
  tiedEmbeddings := true

/-- The profile of the smaller model has 134515008 parameters. -/
theorem capacity_planning_exact_smollm2 :
    Computes (estimateParameterCount smollm2Profile) 134515008 := by
  have structural : smollm2Profile.Structural := ⟨by decide, by decide, by decide⟩
  exact (@capacity_planning_exact _ plainFloats smollm2Profile structural).1

end MarketForge.Cpu
