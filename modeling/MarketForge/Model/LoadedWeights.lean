import MarketForge.Cpu.ModelSpec
import MarketForge.Model.Safetensors

/-!
# Loaded weights

The tensors a SmolLM2 checkpoint has to contain, and the binding of a parsed file to the named
views of the model.
-/
namespace MarketForge.Model

open Cpu

structure ExpectedTensor where
  name : List UInt8
  shape : Shape
  deriving DecidableEq

def shapeOf (extents : List UInt64) : Result Shape := makeShape extents

/-- The beginning of the names of the tensors of one layer. -/
def layerPrefix (layer : Nat) : List UInt8 :=
  ascii "model.layers." ++ ascii (toString layer) ++ ascii "."

/-- The tensors of one layer, in the order in which they are checked. -/
def layerTensors (layer : Nat) (norm query keyValue gateUp down : Shape) : List ExpectedTensor :=
  let start := layerPrefix layer
  [⟨start ++ ascii "input_layernorm.weight", norm⟩,
    ⟨start ++ ascii "self_attn.q_proj.weight", query⟩,
    ⟨start ++ ascii "self_attn.k_proj.weight", keyValue⟩,
    ⟨start ++ ascii "self_attn.v_proj.weight", keyValue⟩,
    ⟨start ++ ascii "self_attn.o_proj.weight", query⟩,
    ⟨start ++ ascii "post_attention_layernorm.weight", norm⟩,
    ⟨start ++ ascii "mlp.gate_proj.weight", gateUp⟩,
    ⟨start ++ ascii "mlp.up_proj.weight", gateUp⟩,
    ⟨start ++ ascii "mlp.down_proj.weight", down⟩]

def smollm2ExpectedTensors {F : Type} (spec : ModelSpec F) : Result (List ExpectedTensor) :=
  let hidden := spec.hiddenSize.toUInt64
  let kvWidth := spec.kvHeads.toUInt64 * spec.headDim.toUInt64
  match shapeOf [spec.vocabularySize.toUInt64, hidden], shapeOf [hidden],
      shapeOf [hidden, hidden], shapeOf [kvWidth, hidden],
      shapeOf [spec.intermediateSize.toUInt64, hidden],
      shapeOf [hidden, spec.intermediateSize.toUInt64] with
  | .ok embedding, .ok norm, .ok query, .ok keyValue, .ok gateUp, .ok down =>
    .ok (⟨ascii "model.embed_tokens.weight", embedding⟩ ::
      (List.range spec.layers.toNat).flatMap (fun layer =>
        layerTensors layer norm query keyValue gateUp down) ++
      [⟨ascii "model.norm.weight", norm⟩])
  | _, _, _, _, _, _ => .error (.failure .invalidModel)

def requireTensor (file : SafeTensorFile) (expected : ExpectedTensor) (detail : UInt32) :
    Result (ConstTensorView UInt64) :=
  match file.record expected.name with
  | none => .error (.failure .missingTensor detail)
  | some record =>
    if record.shape ≠ expected.shape ∨ record.dtype ≠ .bf16 then
      .error (.failure .invalidTensor detail)
    else file.tensor expected.name

structure LoadedWeights where
  file : SafeTensorFile
  embedding : ConstTensorView UInt64
  finalNorm : ConstTensorView UInt64
  outputHead : ConstTensorView UInt64
  outputHeadAliasesEmbedding : Bool
  layers : List (LayerWeights UInt64)

namespace LoadedWeights

/-- `views[index]`; the bound views are as many as the expected tensors, which every index of
the source stays below. -/
def viewAt (views : List (ConstTensorView UInt64)) (index : Nat) : ConstTensorView UInt64 :=
  views.getD index { data := 0, shape := .ofExtents [], dtype := .f32, memory := .host }

/-- The views from the cursor on become the fields of one layer. -/
def layerAt (views : List (ConstTensorView UInt64)) (cursor : Nat) : LayerWeights UInt64 where
  inputNorm := viewAt views cursor
  attention :=
    { query := viewAt views (cursor + 1)
      key := viewAt views (cursor + 2)
      value := viewAt views (cursor + 3)
      output := viewAt views (cursor + 4) }
  postAttentionNorm := viewAt views (cursor + 5)
  mlp :=
    { gate := viewAt views (cursor + 6)
      up := viewAt views (cursor + 7)
      down := viewAt views (cursor + 8) }

/-- The loop that hands the views out to the layers, with the cursor behind them. -/
def bindLayers (views : List (ConstTensorView UInt64)) : Nat → Nat × List (LayerWeights UInt64)
  | 0 => (1, [])
  | layer + 1 =>
    let (cursor, layers) := bindLayers views layer
    (cursor + 9, layers ++ [layerAt views cursor])

/-- The names a checkpoint may use. -/
def allowed (expected : List ExpectedTensor) : List (List UInt8) :=
  expected.map ExpectedTensor.name ++ [ascii "lm_head.weight"]

/-- The output head and whether it is the embedding. `file.tensor` finds every tensor of a parsed
file; the source aborts where it would not. -/
def bindOutputHead {F : Type} (file : SafeTensorFile) (spec : ModelSpec F) (expectedCount : Nat)
    (embedding : ConstTensorView UInt64) : Result (ConstTensorView UInt64 × Bool) :=
  match file.record (ascii "lm_head.weight") with
  | none => .ok (embedding, true)
  | some outputRecord =>
    let invalid := Status.failure .invalidTensor (UInt32.ofNat (expectedCount + 1))
    match shapeOf [spec.vocabularySize.toUInt64, spec.hiddenSize.toUInt64] with
    | .error _ => .error invalid
    | .ok expectedOutput =>
      if outputRecord.shape ≠ expectedOutput ∨ outputRecord.dtype ≠ .bf16 then .error invalid
      else do return (← file.tensor (ascii "lm_head.weight"), false)

def bind {F : Type} [FloatOps F] (file : SafeTensorFile) (spec : ModelSpec F) :
    Result LoadedWeights :=
  if spec.architecture ≠ .smollm2Llama ∨ spec.qkvBias = true ∨ spec.tiedEmbeddings = false
      ∨ (validate spec).isOk = false then
    .error (.failure .invalidModel)
  else do
    let expected ← smollm2ExpectedTensors spec
    match file.metadata.records.findIdx? fun record => !(allowed expected).contains record.name with
    | some index => .error (.failure .unexpectedTensor (UInt32.ofNat (index + 1)))
    | none =>
      let views ← expected.zipIdx.mapM fun (tensor, index) =>
        requireTensor file tensor (UInt32.ofNat (index + 1))
      let embedding := viewAt views 0
      let (cursor, layers) := bindLayers views spec.layers.toNat
      let (outputHead, aliasesEmbedding) ← bindOutputHead file spec expected.length embedding
      return {
        file
        embedding
        finalNorm := viewAt views cursor
        outputHead
        outputHeadAliasesEmbedding := aliasesEmbedding
        layers }

end LoadedWeights

end MarketForge.Model
