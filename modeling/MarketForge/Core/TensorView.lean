import MarketForge.Core.Shape

/-!
# Tensor views

A view is a data pointer with a shape, an element type and a kind of memory. What a pointer is
depends on the component: an offset into a mapping, or an address of the process.
-/
namespace MarketForge

inductive MemoryKind where
  | host
  | device
  deriving DecidableEq, Repr

structure TensorView (Pointer : Type) where
  data : Pointer
  shape : Shape
  dtype : DType
  memory : MemoryKind
  deriving DecidableEq, Repr

/-- The same record for tensors that are only read. -/
abbrev ConstTensorView (Pointer : Type) := TensorView Pointer

/-! ## The weights of one decoder layer -/

structure AttentionWeights (Pointer : Type) where
  query : ConstTensorView Pointer
  key : ConstTensorView Pointer
  value : ConstTensorView Pointer
  output : ConstTensorView Pointer
  deriving DecidableEq, Repr

structure MlpWeights (Pointer : Type) where
  gate : ConstTensorView Pointer
  up : ConstTensorView Pointer
  down : ConstTensorView Pointer
  deriving DecidableEq, Repr

structure LayerWeights (Pointer : Type) where
  inputNorm : ConstTensorView Pointer
  attention : AttentionWeights Pointer
  postAttentionNorm : ConstTensorView Pointer
  mlp : MlpWeights Pointer
  deriving DecidableEq, Repr

/-- The nine tensors of a layer, in the order in which they are checked. -/
def LayerWeights.all {Pointer : Type} (weights : LayerWeights Pointer) :
    List (ConstTensorView Pointer) :=
  [weights.inputNorm, weights.attention.query, weights.attention.key, weights.attention.value,
    weights.attention.output, weights.postAttentionNorm, weights.mlp.gate, weights.mlp.up,
    weights.mlp.down]

end MarketForge
