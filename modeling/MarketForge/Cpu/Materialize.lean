import MarketForge.Cpu.SmolLm2
import MarketForge.Model.LoadedWeights

/-!
# Materializing the weights

`materialize_smollm2`: the BF16 tensors of a bound checkpoint are decoded one after the other into
one allocation of floats, in an order of its own.
-/
namespace MarketForge.Cpu

open Library Model FloatOps

/-- `HostBuffer::allocate` for 64-byte alignment, with the address that `operator new` returns. -/
def HostBuffer.allocate (address : Option Nat) (bytes : UInt64) : Result HostBuffer :=
  if bytes = 0 then .ok ⟨0, 0⟩
  else
    match address with
    | none => .error (.failure .allocationFailed)
    | some data => .ok ⟨data, bytes.toNat / 4⟩

structure MaterializedWeights where
  storage : HostBuffer
  embedding : FloatView
  finalNorm : FloatView
  outputHead : FloatView
  layers : List (LayerWeights Nat)

/-- The cursor of the source and the floats it writes. -/
structure Writer (F : Type) where
  cursor : UInt64
  floats : FlatMemory F

section

variable {F : Type}

/-- `std::bit_cast<float>` is the parameter. -/
def decodeBf16 (bitCast : UInt32 → F) (first second : UInt8) : F :=
  let low := first.toUInt16
  let high := second.toUInt16
  let bf16 := low ||| high <<< 8
  bitCast (bf16.toUInt32 <<< 16)

/-- The float at an index behind a pointer into the mapping. -/
def sourceFloat (bitCast : UInt32 → F) (mapping : ByteSpan) (data : UInt64) (index : Nat) : F :=
  let offset := data.toNat + (UInt64.ofNat index * 2).toNat
  decodeBf16 bitCast (mapping.data.getD offset 0) (mapping.data.getD (offset + 1) 0)

variable [FloatOps F] (bitCast : UInt32 → F) (mapping : ByteSpan) (destination : Nat)
  (parameterCount : UInt64)

/-- The loop over the elements from an index on; it ends at a float that is not finite. -/
def appendElements (data : UInt64) : Nat → Nat → Writer F → Status × Writer F
  | 0, _, writer => (.success, writer)
  | remaining + 1, index, writer =>
    let value := sourceFloat bitCast mapping data index
    if isFinite value = false then (.failure .invalidTensor, writer)
    else
      appendElements data remaining (index + 1)
        { cursor := writer.cursor + 1
          floats := Function.update writer.floats (destination + writer.cursor.toNat) value }

/-- A pointer into the mapping is null when the mapping is empty. -/
def append (tensor : ConstTensorView UInt64) (writer : Writer F) : Result FloatView × Writer F :=
  if tensor.dtype ≠ .bf16 ∨ tensor.memory ≠ .host then (.error (.failure .invalidTensor), writer)
  else
    match checkedNumel tensor.shape with
    | .error _ => (.error (.failure .invalidTensor), writer)
    | .ok count =>
      if parameterCount < writer.cursor ∨ parameterCount - writer.cursor < count
          ∨ (count ≠ 0 ∧ mapping.data = []) then
        (.error (.failure .invalidTensor), writer)
      else
        let (status, written) :=
          appendElements bitCast mapping destination tensor.data count.toNat 0 writer
        if status.isOk = false then (.error status, written)
        else
          (.ok { data := destination + writer.cursor.toNat
                 shape := tensor.shape
                 dtype := .f32
                 memory := .host }, written)

/-- All nine tensors are appended before any result is looked at. -/
def appendLayer (layer : LayerWeights UInt64) (writer : Writer F) :
    Result (LayerWeights Nat) × Writer F :=
  let next := append bitCast mapping destination parameterCount
  let (inputNorm, writer) := next layer.inputNorm writer
  let (query, writer) := next layer.attention.query writer
  let (key, writer) := next layer.attention.key writer
  let (value, writer) := next layer.attention.value writer
  let (output, writer) := next layer.attention.output writer
  let (postNorm, writer) := next layer.postAttentionNorm writer
  let (gate, writer) := next layer.mlp.gate writer
  let (up, writer) := next layer.mlp.up writer
  let (down, writer) := next layer.mlp.down writer
  match inputNorm, query, key, value, output, postNorm, gate, up, down with
  | .ok inputNorm, .ok query, .ok key, .ok value, .ok output, .ok postNorm, .ok gate, .ok up,
      .ok down =>
    (.ok ⟨inputNorm, ⟨query, key, value, output⟩, postNorm, ⟨gate, up, down⟩⟩, writer)
  | _, _, _, _, _, _, _, _, _ => (.error (.failure .invalidTensor), writer)

def appendLayers : List (LayerWeights UInt64) → List (LayerWeights Nat) → Writer F →
    Result (List (LayerWeights Nat)) × Writer F
  | [], layers, writer => (.ok layers, writer)
  | sourceLayer :: others, layers, writer =>
    match appendLayer bitCast mapping destination parameterCount sourceLayer writer with
    | (.error status, writer) => (.error status, writer)
    | (.ok layer, writer) => appendLayers others (layers ++ [layer]) writer

/-- The tensors into the storage, in the order of the source. -/
def appendModel (source : LoadedWeights) (storage : HostBuffer) (writer : Writer F) :
    Result MaterializedWeights × Writer F :=
  let next := append bitCast mapping storage.data parameterCount
  match next source.embedding writer with
  | (.error status, writer) => (.error status, writer)
  | (.ok embedding, writer) =>
    match appendLayers bitCast mapping storage.data parameterCount source.layers [] writer with
    | (.error status, writer) => (.error status, writer)
    | (.ok layers, writer) =>
      match next source.finalNorm writer with
      | (.error _, writer) => (.error (.failure .invalidTensor), writer)
      | (.ok finalNorm, writer) =>
        if writer.cursor ≠ parameterCount then (.error (.failure .invalidTensor), writer)
        else (.ok ⟨storage, embedding, finalNorm, embedding, layers⟩, writer)

def materializeSmollm2 (address : Option Nat) (source : LoadedWeights) (spec : ModelSpec F)
    (floats : FlatMemory F) : Result MaterializedWeights × Writer F :=
  let writer : Writer F := { cursor := 0, floats }
  if source.outputHeadAliasesEmbedding = false ∨ source.layers.length ≠ spec.layers.toNat then
    (.error (.failure .invalidModel), writer)
  else
    let allocated := do
      let parameterCount ← estimateParameterCount spec
      let storageBytes ← checkedMultiply parameterCount 4
      return (parameterCount, ← HostBuffer.allocate address storageBytes)
    match allocated with
    | .error status => (.error status, writer)
    | .ok (parameterCount, storage) =>
      appendModel bitCast source.file.mapping parameterCount source storage writer

end

end MarketForge.Cpu
