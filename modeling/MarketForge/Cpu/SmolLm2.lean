import MarketForge.Cpu.DecoderLayer
import MarketForge.Cpu.ModelSpec

/-!
# The language model on the CPU

`CpuSmolLm2`: what `load` fixes for the lifetime of a model, and `reset`, `prefill`, `decode` and
`logits` over its buffers of floats.
-/
namespace MarketForge.Cpu

open Library FloatOps

structure GreedyToken (F : Type) where
  tokenId : UInt32
  logit : F
  runnerUpLogit : F

/-- An allocation that holds floats only. -/
structure HostBuffer where
  data : Nat
  floats : Nat
  deriving DecidableEq, Repr

namespace HostBuffer

/-- So many floats from the address on lie in the buffer. -/
def Contains (buffer : HostBuffer) (data count : Nat) : Prop :=
  buffer.data ≤ data ∧ data + count ≤ buffer.data + buffer.floats

instance (buffer : HostBuffer) (data count : Nat) : Decidable (buffer.Contains data count) :=
  inferInstanceAs (Decidable (_ ∧ _))

/-- Two allocations have no address in common. -/
def Separate (left right : HostBuffer) : Prop :=
  Apart left.data left.floats right.data right.floats

instance (left right : HostBuffer) : Decidable (left.Separate right) :=
  inferInstanceAs (Decidable (_ ∨ _))

end HostBuffer

/-- The storage of the workspace. -/
def CpuWorkspace.storage (workspace : CpuWorkspace) : HostBuffer :=
  ⟨workspace.data, workspace.capacity.toNat⟩

/-- The members that `load` sets and nothing changes. The buffers are allocations of their own,
of the sizes `load` computes; the weights were copied into the first of them. -/
structure LoadedModel (F : Type) where
  spec : ModelSpec F
  fp32Weights : HostBuffer
  embedding : FloatView
  finalNorm : FloatView
  outputHead : FloatView
  layers : List (LayerWeights Nat)
  kv : HostBuffer
  execution : HostBuffer
  workspace : CpuWorkspace
  maximumContext : UInt32
  maximumPrefillTokens : UInt32
  layer_count : layers.length = spec.layers.toNat
  embedding_elements :
    embedding.shape.elements = spec.vocabularySize.toNat * spec.hiddenSize.toNat
  weights_contained : ∀ view ∈ embedding :: finalNorm :: outputHead ::
    layers.flatMap LayerWeights.all, fp32Weights.Contains view.data view.shape.elements
  kv_floats : kv.floats = 2 * spec.layers.toNat * (maximumContext.toNat
    * (spec.kvHeads.toNat * spec.headDim.toNat))
  execution_floats : execution.floats = maximumPrefillTokens.toNat * spec.hiddenSize.toNat
    + spec.hiddenSize.toNat + spec.vocabularySize.toNat
  buffers_separate :
    [fp32Weights, kv, execution, workspace.storage].Pairwise HostBuffer.Separate

namespace LoadedModel

variable {F : Type} (model : LoadedModel F)

def layerSpec : DecoderLayerSpec F where
  hiddenSize := model.spec.hiddenSize
  intermediateSize := model.spec.intermediateSize
  queryHeads := model.spec.queryHeads
  kvHeads := model.spec.kvHeads
  headDim := model.spec.headDim
  rmsNormEpsilon := model.spec.rmsNormEpsilon
  rope := { theta := model.spec.ropeTheta, maxPositions := model.spec.maxPositions }

/-- The floats of one token in one cache. -/
def kvWidth : Nat := model.spec.kvHeads.toNat * model.spec.headDim.toNat

/-- The floats of one cache: the keys or the values of one layer. -/
def cacheFloats : Nat := model.maximumContext.toNat * model.kvWidth

def keyCache (layer : Nat) : Nat := model.kv.data + layer * 2 * model.cacheFloats

def valueCache (layer : Nat) : Nat := model.keyCache layer + model.cacheFloats

def cacheView (layer : Nat) : CpuKvView :=
  let cacheShape := [1, model.maximumContext.toUInt64, model.spec.kvHeads.toUInt64,
    model.spec.headDim.toUInt64]
  { key := makeF32View (model.keyCache layer) cacheShape
    value := makeF32View (model.valueCache layer) cacheShape }

def normalizedLast : Nat :=
  model.execution.data + model.maximumPrefillTokens.toNat * model.spec.hiddenSize.toNat

def logitsData : Nat := model.normalizedLast + model.spec.hiddenSize.toNat

end LoadedModel

/-- The model with the members that its calls change. -/
structure CpuSmolLm2 (F : Type) extends LoadedModel F where
  positions : List UInt32
  contextLength : UInt32
  floats : FlatMemory F

namespace CpuSmolLm2

variable {F : Type} [FloatOps F]

/-- `std::memset` of the caches. -/
def reset (model : CpuSmolLm2 F) : CpuSmolLm2 F :=
  { model with
    contextLength := 0
    floats := fill model.kv.data model.kv.floats (fun _ _ => zero) model.floats }

/-- The embedding rows of the tokens, one after the other. -/
def embedTokens (model : LoadedModel F) (tokenIds : List UInt32) : FlatMemory F → FlatMemory F :=
  let hiddenSize := model.spec.hiddenSize.toNat
  forRange tokenIds.length fun token =>
    copyFloats (model.execution.data + token * hiddenSize)
      (model.embedding.data + (tokenIds.getD token 0).toNat * hiddenSize) hiddenSize

def layerCalls (model : LoadedModel F) (tokenCount : Nat) (positions contextLengths : List UInt32) :
    List (Operation F) :=
  let hidden := makeF32View model.execution.data
    [1, UInt64.ofNat tokenCount, model.spec.hiddenSize.toUInt64]
  model.layers.zipIdx.map fun (weights, layer) =>
    smollm2DecoderLayerF32 weights model.layerSpec hidden (model.cacheView layer) positions
      contextLengths model.workspace none

/-- The final norm of the last row and its logits. -/
def headCalls (model : LoadedModel F) (tokenCount : Nat) : List (Operation F) :=
  let hiddenSize := model.spec.hiddenSize.toNat
  let oneHidden := [1, model.spec.hiddenSize.toUInt64]
  let oneVocabulary := [1, model.spec.vocabularySize.toUInt64]
  let lastHidden := model.execution.data + (tokenCount - 1) * hiddenSize
  [rmsNormF32 (makeF32View lastHidden oneHidden) model.finalNorm model.spec.rmsNormEpsilon
      (makeF32View model.normalizedLast oneHidden),
    linearF32 (makeF32View model.normalizedLast oneHidden) model.outputHead
      (makeF32View model.logitsData oneVocabulary)]

/-- One turn of the loop that looks for the two largest logits. -/
def greedyTurn (logits : Nat → F) (token : Nat) : Result (GreedyToken F) → Result (GreedyToken F)
  | .error status => .error status
  | .ok best =>
    let value := logits token
    if isFinite value = false then .error (.failure .invalidArgument (UInt32.ofNat token))
    else if lt best.logit value then
      .ok { tokenId := UInt32.ofNat token, logit := value, runnerUpLogit := best.logit }
    else if lt best.runnerUpLogit value then .ok { best with runnerUpLogit := value }
    else .ok best

/-- The largest logit and the runner-up, or the first token whose logit is not finite. -/
def greedyToken (logits : Nat → F) (vocabularySize : Nat) : Result (GreedyToken F) :=
  forRange vocabularySize (greedyTurn logits)
    (.ok { tokenId := 0, logit := negInfinity, runnerUpLogit := negInfinity })

def forward (model : CpuSmolLm2 F) (tokenIds : List UInt32) :
    Result (GreedyToken F) × CpuSmolLm2 F :=
  if tokenIds.isEmpty ∨ model.maximumPrefillTokens.toNat < tokenIds.length
      ∨ (model.maximumContext - model.contextLength).toNat < tokenIds.length then
    (.error (.failure .invalidArgument), model)
  else
    match tokenIds.find? fun token => model.spec.vocabularySize ≤ token with
    | some token => (.error (.failure .invalidArgument token), model)
    | none =>
      let tokenCount := tokenIds.length
      let newPositions := (List.range tokenCount).map fun token =>
        model.contextLength + UInt32.ofNat token
      let contextLengths := [model.contextLength + UInt32.ofNat tokenCount]
      let called := runAll
        (layerCalls model.toLoadedModel tokenCount newPositions contextLengths
          ++ headCalls model.toLoadedModel tokenCount)
        (embedTokens model.toLoadedModel tokenIds model.floats)
      let written := { model with
        positions := newPositions ++ model.positions.drop tokenCount
        floats := called.2 }
      if called.1.isOk = false then (.error called.1, written)
      else
        match greedyToken (fun token => called.2 (model.logitsData + token))
          model.spec.vocabularySize.toNat with
        | .error status => (.error status, written)
        | .ok token =>
          (.ok token,
            { written with contextLength := model.contextLength + UInt32.ofNat tokenCount })

def prefill (model : CpuSmolLm2 F) (tokenIds : List UInt32) :
    Result (GreedyToken F) × CpuSmolLm2 F :=
  if model.contextLength ≠ 0 ∨ tokenIds.isEmpty
      ∨ model.maximumPrefillTokens.toNat < tokenIds.length then
    (.error (.failure .invalidArgument), model)
  else model.forward tokenIds

def decode (model : CpuSmolLm2 F) (tokenId : UInt32) : Result (GreedyToken F) × CpuSmolLm2 F :=
  if model.contextLength = 0 then (.error (.failure .invalidArgument), model)
  else model.forward [tokenId]

def logits (model : CpuSmolLm2 F) : List F :=
  (List.range model.spec.vocabularySize.toNat).map fun token =>
    model.floats (model.logitsData + token)

/-- One float of the keys of a layer. -/
def keyAt (model : CpuSmolLm2 F) (layer position column : Nat) : F :=
  model.floats (model.keyCache layer + position * model.kvWidth + column)

/-- One float of the values of a layer. -/
def valueAt (model : CpuSmolLm2 F) (layer position column : Nat) : F :=
  model.floats (model.valueCache layer + position * model.kvWidth + column)

/-- Decoding of one token after the other, after a call with the given outcome. A failure ends
the sequence. -/
def decodeAll : List UInt32 → Result (GreedyToken F) × CpuSmolLm2 F →
    Result (GreedyToken F) × CpuSmolLm2 F
  | [], outcome => outcome
  | _ :: _, (.error status, model) => (.error status, model)
  | tokenId :: others, (.ok _, model) => decodeAll others (model.decode tokenId)

end CpuSmolLm2

end MarketForge.Cpu
