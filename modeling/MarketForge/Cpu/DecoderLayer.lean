import MarketForge.Cpu.Operators

/-!
# The decoder layer

`smollm2_decoder_layer_f32`: one validation of everything the layer touches, then the operators
on slices of the workspace, with the residual sums in place.
-/
namespace MarketForge.Cpu

open Library FloatOps

section

variable {F : Type} [FloatOps F]

structure DecoderLayerSpec (F : Type) where
  hiddenSize : UInt32
  intermediateSize : UInt32
  queryHeads : UInt32
  kvHeads : UInt32
  headDim : UInt32
  rmsNormEpsilon : F
  rope : RopeSpec F

structure DecoderLayerTrace where
  afterAttention : FloatView
  afterMlp : FloatView

/-- The floats of a workspace, and how many there are. -/
structure CpuWorkspace where
  data : Nat
  capacity : UInt64

/-- The product of several factors. -/
def product (factors : List UInt64) : Result UInt64 := factors.foldlM checkedMultiply 1

/-- The floats both phases of the layer need, or the failure of a product or sum. -/
def requiredDecoderLayerWorkspaceFloats (spec : DecoderLayerSpec F)
    (batchSize queryTokens maximumContext : UInt64) : Result UInt64 :=
  match checkedMultiply batchSize queryTokens with
  | .error status => .error status
  | .ok rows =>
    let rowHidden := checkedMultiply rows spec.hiddenSize.toUInt64
    let rowKv := do
      let kvWidth ← checkedMultiply spec.kvHeads.toUInt64 spec.headDim.toUInt64
      checkedMultiply rows kvWidth
    let logits := product [batchSize, queryTokens, spec.queryHeads.toUInt64, maximumContext]
    let rowIntermediate := checkedMultiply rows spec.intermediateSize.toUInt64
    match rowHidden, rowKv, logits, rowIntermediate with
    | .ok rowHidden, .ok rowKv, .ok logits, .ok rowIntermediate =>
      let attentionPhase := do
        let threeHidden ← checkedMultiply rowHidden 3
        let twoKv ← checkedMultiply rowKv 2
        let slices ← checkedAdd threeHidden twoKv
        checkedAdd slices logits
      let mlpPhase := do
        let twoIntermediate ← checkedMultiply rowIntermediate 2
        checkedAdd twoIntermediate rowHidden
      match attentionPhase, mlpPhase with
      | .ok attentionPhase, .ok mlpPhase => .ok (max attentionPhase mlpPhase)
      | _, _ => .error (.failure .arithmeticOverflow)
    | _, _, _, _ => .error (.failure .arithmeticOverflow)

/-! ## Validation -/

def specCheck (spec : DecoderLayerSpec F) : Status :=
  if spec.hiddenSize = 0 ∨ spec.intermediateSize = 0 ∨ spec.queryHeads = 0 ∨ spec.kvHeads = 0
      ∨ spec.headDim = 0 ∨ spec.queryHeads % spec.kvHeads ≠ 0
      ∨ spec.queryHeads.toNat * spec.headDim.toNat ≠ spec.hiddenSize.toNat
      ∨ isFinite spec.rmsNormEpsilon = false ∨ le spec.rmsNormEpsilon (zero : F)
      ∨ isFinite spec.rope.theta = false ∨ le spec.rope.theta (zero : F)
      ∨ spec.rope.maxPositions = 0 then
    .failure .invalidModel
  else .success

def hiddenCheck (spec : DecoderLayerSpec F) (hidden : FloatView) : Status :=
  let status := validateF32Host hidden
  if status.isOk = false then status
  else if hidden.shape.rank ≠ 3 ∨ extent hidden 0 = 0 ∨ extent hidden 1 = 0
      ∨ extent hidden 2 ≠ spec.hiddenSize.toNat then
    .failure .invalidShape
  else .success

/-- Every position follows the ones before it, in the cache and within the model's range. -/
def positionsFollow (spec : DecoderLayerSpec F) (batch tokens maximumContext : Nat)
    (positions contextLengths : List UInt32) : Bool :=
  (List.range batch).all fun batchIndex =>
    let context := (contextLengths.getD batchIndex 0).toNat
    decide (tokens ≤ context) && decide (context ≤ maximumContext)
      && (List.range tokens).all fun token =>
        let position := (positions.getD (batchIndex * tokens + token) 0).toNat
        decide (position = context - tokens + token)
          && decide (position < spec.rope.maxPositions.toNat)

def cacheCheck (spec : DecoderLayerSpec F) (hidden : FloatView) (cache : CpuKvView)
    (positions contextLengths : List UInt32) : Status :=
  let batch := extent hidden 0
  let tokens := extent hidden 1
  let views := firstFailure [validateF32Host cache.key, validateF32Host cache.value]
  if views.isOk = false then views
  else if cache.key.shape.rank ≠ 4 ∨ cache.value.shape ≠ cache.key.shape
      ∨ extent cache.key 0 ≠ batch ∨ extent cache.key 2 ≠ spec.kvHeads.toNat
      ∨ extent cache.key 3 ≠ spec.headDim.toNat then
    .failure .invalidShape
  else if extent cache.key 1 = 0 ∨ positions.length ≠ batch * tokens
      ∨ contextLengths.length ≠ batch then
    .failure .invalidShape
  else if positionsFollow spec batch tokens (extent cache.key 1) positions contextLengths = false
  then .failure .invalidArgument
  else .success

def weightsCheck (spec : DecoderLayerSpec F) (weights : LayerWeights Nat) : Status :=
  let hiddenSize := spec.hiddenSize.toUInt64
  let intermediate := spec.intermediateSize.toUInt64
  let kvWidth := spec.kvHeads.toUInt64 * spec.headDim.toUInt64
  firstFailure [validateWeight weights.inputNorm [hiddenSize],
    validateWeight weights.attention.query [hiddenSize, hiddenSize],
    validateWeight weights.attention.key [kvWidth, hiddenSize],
    validateWeight weights.attention.value [kvWidth, hiddenSize],
    validateWeight weights.attention.output [hiddenSize, hiddenSize],
    validateWeight weights.postAttentionNorm [hiddenSize],
    validateWeight weights.mlp.gate [intermediate, hiddenSize],
    validateWeight weights.mlp.up [intermediate, hiddenSize],
    validateWeight weights.mlp.down [hiddenSize, intermediate]]

def workspaceCheck (spec : DecoderLayerSpec F) (hidden : FloatView) (cache : CpuKvView)
    (workspace : CpuWorkspace) : Status :=
  match requiredDecoderLayerWorkspaceFloats spec (UInt64.ofNat (extent hidden 0))
      (UInt64.ofNat (extent hidden 1)) (UInt64.ofNat (extent cache.key 1)) with
  | .error _ => .failure .insufficientMemory
  | .ok required =>
    if workspace.capacity < required then .failure .insufficientMemory else .success

def CpuWorkspace.view (workspace : CpuWorkspace) : FloatView :=
  makeF32View workspace.data [workspace.capacity]

def separationCheck (weights : LayerWeights Nat) (hidden : FloatView) (cache : CpuKvView)
    (workspace : CpuWorkspace) : Status :=
  firstFailure ([validateNoOverlap hidden cache.key, validateNoOverlap hidden cache.value,
      validateNoOverlap hidden workspace.view, validateNoOverlap cache.key cache.value,
      validateNoOverlap cache.key workspace.view, validateNoOverlap cache.value workspace.view]
    ++ weights.all.flatMap fun weight =>
      [validateNoOverlap weight hidden, validateNoOverlap weight cache.key,
        validateNoOverlap weight cache.value, validateNoOverlap weight workspace.view])

def traceViewCheck (weights : LayerWeights Nat) (hidden : FloatView) (cache : CpuKvView)
    (workspace : CpuWorkspace) (view : FloatView) : Status :=
  let status := validateF32Host view
  if status.isOk = false then status
  else if view.shape ≠ hidden.shape then .failure .invalidShape
  else firstFailure ([validateNoOverlap hidden view, validateNoOverlap cache.key view,
    validateNoOverlap cache.value view, validateNoOverlap workspace.view view]
      ++ weights.all.map fun weight => validateNoOverlap weight view)

def traceCheck (weights : LayerWeights Nat) (hidden : FloatView) (cache : CpuKvView)
    (workspace : CpuWorkspace) : Option DecoderLayerTrace → Status
  | none => .success
  | some trace =>
    firstFailure [traceViewCheck weights hidden cache workspace trace.afterAttention,
      traceViewCheck weights hidden cache workspace trace.afterMlp,
      validateNoOverlap trace.afterAttention trace.afterMlp]

def validateLayer (weights : LayerWeights Nat) (spec : DecoderLayerSpec F) (hidden : FloatView)
    (cache : CpuKvView) (positions contextLengths : List UInt32) (workspace : CpuWorkspace)
    (trace : Option DecoderLayerTrace) : Status :=
  firstFailure [specCheck spec, hiddenCheck spec hidden,
    cacheCheck spec hidden cache positions contextLengths, weightsCheck spec weights,
    workspaceCheck spec hidden cache workspace, separationCheck weights hidden cache workspace,
    traceCheck weights hidden cache workspace trace]

/-! ## The layer -/

/-- A loop that always succeeds. -/
def always (effect : FlatMemory F → FlatMemory F) : Operation F :=
  fun memory => (.success, effect memory)

/-- `target[index] += addend[index]`. -/
def addRows (target addend count : Nat) : FlatMemory F → FlatMemory F :=
  fill target count fun memory index => memory (target + index) + memory (addend + index)

def silu (value : F) : F := value / (one + exp (-value))

/-- The gate becomes the product of its SiLU and the up projection. -/
def gateRows (gate up count : Nat) : FlatMemory F → FlatMemory F :=
  fill gate count fun memory index => silu (memory (gate + index)) * memory (up + index)

/-- The slices of the workspace, for so many rows. -/
structure LayerSlices where
  normalized : Nat
  query : Nat
  key : Nat
  value : Nat
  attention : Nat
  logits : Nat
  gate : Nat
  up : Nat

/-- The attention phase and the MLP phase each take their slices from the start. -/
def layerSlices (spec : DecoderLayerSpec F) (workspace : CpuWorkspace) (rows : Nat) :
    LayerSlices :=
  let rowHidden := rows * spec.hiddenSize.toNat
  let rowKv := rows * (spec.kvHeads.toNat * spec.headDim.toNat)
  let rowIntermediate := rows * spec.intermediateSize.toNat
  { normalized := workspace.data
    query := workspace.data + rowHidden
    key := workspace.data + rowHidden + rowHidden
    value := workspace.data + rowHidden + rowHidden + rowKv
    attention := workspace.data + rowHidden + rowHidden + rowKv + rowKv
    logits := workspace.data + rowHidden + rowHidden + rowKv + rowKv + rowHidden
    gate := workspace.data + rowHidden
    up := workspace.data + rowHidden + rowIntermediate }

def traceCopy (view : Option FloatView) (source count : Nat) : List (Operation F) :=
  match view with
  | none => []
  | some view => [always (copyFloats view.data source count)]

def smollm2DecoderLayerF32 (weights : LayerWeights Nat) (spec : DecoderLayerSpec F)
    (hidden : FloatView) (cache : CpuKvView) (positions contextLengths : List UInt32)
    (workspace : CpuWorkspace) (trace : Option DecoderLayerTrace) : Operation F :=
  let batch := extent hidden 0
  let tokens := extent hidden 1
  let rows := batch * tokens
  let hiddenSize := spec.hiddenSize.toNat
  let kvWidth := spec.kvHeads.toNat * spec.headDim.toNat
  let rowHidden := rows * hiddenSize
  let rowIntermediate := rows * spec.intermediateSize.toNat
  let slices := layerSlices spec workspace rows
  let view := fun (data : Nat) (extents : List Nat) => makeF32View data (extents.map UInt64.ofNat)
  let hiddenShape := [batch, tokens, hiddenSize]
  let flatHiddenShape := [rows, hiddenSize]
  let flatKvShape := [rows, kvWidth]
  let queryShape := [batch, tokens, spec.queryHeads.toNat, spec.headDim.toNat]
  let keyValueShape := [batch, tokens, spec.kvHeads.toNat, spec.headDim.toNat]
  let flatIntermediateShape := [rows, spec.intermediateSize.toNat]
  let normalized := view slices.normalized flatHiddenShape
  let queryHeads := view slices.query queryShape
  let keyHeads := view slices.key keyValueShape
  let validation :=
    validateLayer weights spec hidden cache positions contextLengths workspace trace
  fun memory =>
    if validation.isOk = false then (validation, memory)
    else
      runAll
        ([rmsNormF32 hidden weights.inputNorm spec.rmsNormEpsilon
            (view slices.normalized hiddenShape),
          linearF32 normalized weights.attention.query (view slices.query flatHiddenShape),
          linearF32 normalized weights.attention.key (view slices.key flatKvShape),
          linearF32 normalized weights.attention.value (view slices.value flatKvShape),
          applyRopeF32 queryHeads keyHeads positions spec.rope,
          appendKvF32 keyHeads (view slices.value keyValueShape) positions cache,
          attentionImpl queryHeads cache.key cache.value contextLengths
            (view slices.attention queryShape) slices.logits,
          linearF32 (view slices.attention flatHiddenShape) weights.attention.output normalized,
          always (addRows hidden.data slices.normalized rowHidden)]
        ++ traceCopy (trace.map DecoderLayerTrace.afterAttention) hidden.data rowHidden
        ++ [rmsNormF32 hidden weights.postAttentionNorm spec.rmsNormEpsilon
            (view slices.normalized hiddenShape),
          linearF32 normalized weights.mlp.gate (view slices.gate flatIntermediateShape),
          linearF32 normalized weights.mlp.up (view slices.up flatIntermediateShape),
          always (gateRows slices.gate slices.up rowIntermediate),
          linearF32 (view slices.gate flatIntermediateShape) weights.mlp.down normalized,
          always (addRows hidden.data slices.normalized rowHidden)]
        ++ traceCopy (trace.map DecoderLayerTrace.afterMlp) hidden.data rowHidden)
        memory

end

end MarketForge.Cpu
