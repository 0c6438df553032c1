import MarketForge.Core.TensorView
import MarketForge.Library.Loops

/-!
# The CPU operators

The operators of the decoder layer on a flat memory of floats. Each checks its views first and
then runs its loops; the loops are definitions of their own, over plain addresses. Arithmetic on
floats is whatever the machine does: an uninterpreted structure. Indices are natural numbers, as
the checks bound every count by a machine word.
-/
namespace MarketForge.Cpu

open Library

/-- The operations of `float` the operators use. -/
class FloatOps (F : Type) extends Add F, Sub F, Mul F, Div F, Neg F where
  zero : F
  one : F
  negInfinity : F
  sqrt : F → F
  exp : F → F
  cos : F → F
  sin : F → F
  pow : F → F → F
  ofNat : Nat → F
  lt : F → F → Bool
  le : F → F → Bool
  isFinite : F → Bool

/-- `std::max`. -/
def FloatOps.max {F : Type} [FloatOps F] (left right : F) : F :=
  if FloatOps.lt left right then right else left

/-! ## Views and their checks -/

/-- A pointer to floats. Such pointers are aligned, so an address counts floats, and the address
zero is the null pointer. -/
abbrev FloatView := TensorView Nat

/-- `shape.extents[axis]` as a count. -/
def extent (view : FloatView) (axis : Nat) : Nat :=
  (view.shape.extents.toList.getD axis 0).toNat

/-- A view in host memory. The source makes them of at most four extents. -/
def makeF32View (data : Nat) (extents : List UInt64) : FloatView :=
  { data, shape := .ofExtents extents, dtype := .f32, memory := .host }

/-- The element count that the checks found representable. -/
def elementCount (view : FloatView) : Nat :=
  match checkedNumel view.shape with
  | .error _ => 0
  | .ok elements => elements.toNat

/-- The first failure of several checks. -/
def firstFailure (checks : List Status) : Status :=
  (checks.find? fun status => !status.isOk).getD .success

/-- A range of byte addresses. -/
structure MemoryRange where
  beginAt : Nat
  endAt : Nat
  deriving DecidableEq, Repr

def validateTensorView (view : FloatView) : Status :=
  match checkedNbytes view.shape view.dtype with
  | .error status => status
  | .ok bytes => if bytes ≠ 0 ∧ view.data = 0 then .failure .invalidArgument else .success

def memoryRange (view : FloatView) : Result MemoryRange :=
  match checkedNbytes view.shape view.dtype with
  | .error status => .error status
  | .ok bytes =>
    if bytes = 0 then .ok ⟨0, 0⟩
    else if view.data = 0 then .error (.failure .invalidArgument)
    else if 0xffffffffffffffff - bytes.toNat < 4 * view.data then
      .error (.failure .arithmeticOverflow)
    else .ok ⟨4 * view.data, 4 * view.data + bytes.toNat⟩

def overlaps (left right : MemoryRange) : Bool :=
  if left.beginAt = left.endAt ∨ right.beginAt = right.endAt then false
  else decide (left.beginAt < right.endAt) && decide (right.beginAt < left.endAt)

def exactlyAliases (left right : MemoryRange) : Bool :=
  decide (left.beginAt = right.beginAt) && decide (left.endAt = right.endAt)

def validateF32Host (view : FloatView) : Status :=
  if view.dtype ≠ .f32 ∨ view.memory ≠ .host then
    .failure (if view.dtype ≠ .f32 then .unsupportedDtype else .invalidArgument)
  else validateTensorView view

def requireShape (shape : Shape) (rank : UInt8) (extents : List UInt64) : Status :=
  if shape.rank ≠ rank ∨ extents.length ≠ rank.toNat then .failure .invalidShape
  else
    match extents.zipIdx.find? fun entry => shape.extents.toList[entry.2]? ≠ some entry.1 with
    | some (_, axis) => .failure .invalidShape (UInt32.ofNat axis)
    | none => .success

def validateOutputAlias (input output : FloatView) (allowExactAlias : Bool) : Status :=
  match memoryRange input, memoryRange output with
  | .error status, _ => status
  | _, .error status => status
  | .ok inputRange, .ok outputRange =>
    if overlaps inputRange outputRange
      && !(allowExactAlias && exactlyAliases inputRange outputRange)
    then .failure .invalidArgument
    else .success

def validateNoOverlap (left right : FloatView) : Status := validateOutputAlias left right false

def validateWeight (weight : FloatView) (extents : List UInt64) : Status :=
  let status := validateF32Host weight
  if status.isOk then requireShape weight.shape (UInt8.ofNat extents.length) extents else status

/-! ## Operations on memory -/

/-- A call that returns a status and may have written to memory. -/
abbrev Operation (F : Type) := FlatMemory F → Status × FlatMemory F

/-- Nothing is written unless the check passes. -/
def guarded {F : Type} (check : Status) (effect : FlatMemory F → FlatMemory F) : Operation F :=
  fun memory => if check.isOk then (.success, effect memory) else (check, memory)

/-- A sequence of calls, up to the first that fails. -/
def runAll {F : Type} : List (Operation F) → Operation F
  | [], memory => (.success, memory)
  | operation :: others, memory =>
    match operation memory with
    | (status, memory) => if status.isOk then runAll others memory else (status, memory)

section

variable {F : Type} [FloatOps F]

open FloatOps

/-- `std::memcpy` of floats. -/
def copyFloats (destination source count : Nat) : FlatMemory F → FlatMemory F :=
  fill destination count fun memory index => memory (source + index)

/-! ## RMS norm -/

def rmsNormCheck (input weight : FloatView) (epsilon : F) (output : FloatView) : Status :=
  let views := firstFailure [validateF32Host input, validateF32Host weight, validateF32Host output]
  if views.isOk = false then views
  else if isFinite epsilon = false ∨ le epsilon (zero : F) ∨ input.shape.rank = 0
      ∨ weight.shape.rank ≠ 1 ∨ output.shape ≠ input.shape
      ∨ extent input (input.shape.rank.toNat - 1) ≠ extent weight 0 then
    .failure .invalidShape
  else
    let aliases := firstFailure [validateOutputAlias input output true,
      validateNoOverlap weight output]
    if aliases.isOk = false then aliases
    else
      match checkedNumel input.shape with
      | .error status => status
      | .ok elementCount =>
        if extent weight 0 = 0 ∨ elementCount.toNat % extent weight 0 ≠ 0 then
          .failure .invalidShape
        else .success

def rmsNormRows (input weight output rows hidden : Nat) (epsilon : F) :
    FlatMemory F → FlatMemory F :=
  forRange rows fun row memory =>
    let sumSquares := forRange hidden (fun column sum =>
      let value := memory (input + row * hidden + column)
      sum + value * value) zero
    let inverseRms := one / sqrt (sumSquares / ofNat hidden + epsilon)
    fill (output + row * hidden) hidden (fun memory column =>
      memory (input + row * hidden + column) * inverseRms * memory (weight + column)) memory

def rmsNormF32 (input weight : FloatView) (epsilon : F) (output : FloatView) : Operation F :=
  let hidden := extent weight 0
  guarded (rmsNormCheck input weight epsilon output)
    (rmsNormRows input.data weight.data output.data (elementCount input / hidden) hidden epsilon)

/-! ## Linear -/

def linearCheck (input weight output : FloatView) : Status :=
  let views := firstFailure [validateF32Host input, validateF32Host weight, validateF32Host output]
  if views.isOk = false then views
  else if input.shape.rank ≠ 2 ∨ weight.shape.rank ≠ 2 ∨ output.shape.rank ≠ 2
      ∨ extent input 0 = 0 ∨ extent input 1 = 0 ∨ extent weight 0 = 0
      ∨ extent weight 1 ≠ extent input 1 ∨ extent output 0 ≠ extent input 0
      ∨ extent output 1 ≠ extent weight 0 then
    .failure .invalidShape
  else firstFailure [validateNoOverlap input output, validateNoOverlap weight output]

def linearRows (input weight output rows inputWidth outputWidth : Nat) :
    FlatMemory F → FlatMemory F :=
  forRange rows fun row =>
    fill (output + row * outputWidth) outputWidth fun memory outputColumn =>
      forRange inputWidth (fun inputColumn sum =>
        sum + memory (input + row * inputWidth + inputColumn)
          * memory (weight + outputColumn * inputWidth + inputColumn)) zero

/-- The portable path: the matrix product is three nested loops. -/
def linearF32 (input weight output : FloatView) : Operation F :=
  guarded (linearCheck input weight output)
    (linearRows input.data weight.data output.data (extent input 0) (extent input 1)
      (extent weight 0))

/-! ## Rotary embedding -/

structure RopeSpec (F : Type) where
  theta : F
  maxPositions : UInt32

def validateRopeTensor (view : FloatView) : Status :=
  let status := validateF32Host view
  if status.isOk = false then status
  else if view.shape.rank ≠ 4 ∨ extent view 0 = 0 ∨ extent view 1 = 0 ∨ extent view 2 = 0
      ∨ extent view 3 = 0 ∨ extent view 3 % 2 ≠ 0 then
    .failure .invalidShape
  else .success

def applyRopeCheck (query key : FloatView) (positions : List UInt32) (spec : RopeSpec F) : Status :=
  let tensors := firstFailure [validateRopeTensor query, validateRopeTensor key]
  if tensors.isOk = false then tensors
  else if extent query 0 ≠ extent key 0 ∨ extent query 1 ≠ extent key 1
      ∨ extent query 3 ≠ extent key 3 ∨ positions.length ≠ extent query 0 * extent query 1
      ∨ isFinite spec.theta = false ∨ le spec.theta (zero : F) ∨ spec.maxPositions = 0 then
    .failure .invalidShape
  else
    match memoryRange query, memoryRange key with
    | .error status, _ => status
    | _, .error status => status
    | .ok queryRange, .ok keyRange =>
      if overlaps queryRange keyRange then .failure .invalidArgument
      else if positions.any fun position => spec.maxPositions ≤ position then
        .failure .invalidArgument
      else .success

/-- The angle of one pair of dimensions. -/
def ropeAngle (spec : RopeSpec F) (headDim position dimension : Nat) : F :=
  ofNat position / pow spec.theta (ofNat (2 * dimension) / ofNat headDim)

/-- The lambda `rotate`: the heads of one token, in place. -/
def rotate (spec : RopeSpec F) (data heads headDim row position : Nat) :
    FlatMemory F → FlatMemory F :=
  forRange heads fun head =>
    let vectorOffset := data + (row * heads + head) * headDim
    let half := headDim / 2
    forRange half fun dimension memory =>
      let angle := ropeAngle spec headDim position dimension
      let cosine := cos angle
      let sine := sin angle
      let first := memory (vectorOffset + dimension)
      let second := memory (vectorOffset + half + dimension)
      let memory := Function.update memory (vectorOffset + dimension)
        (first * cosine - second * sine)
      Function.update memory (vectorOffset + half + dimension) (second * cosine + first * sine)

def ropeRows (spec : RopeSpec F) (query key batch tokens queryHeads keyHeads headDim : Nat)
    (positions : List UInt32) : FlatMemory F → FlatMemory F :=
  forRange batch fun batchIndex => forRange tokens fun token memory =>
    let row := batchIndex * tokens + token
    let position := (positions.getD row 0).toNat
    let memory := rotate spec query queryHeads headDim row position memory
    rotate spec key keyHeads headDim row position memory

def applyRopeF32 (query key : FloatView) (positions : List UInt32) (spec : RopeSpec F) :
    Operation F :=
  guarded (applyRopeCheck query key positions spec)
    (ropeRows spec query.data key.data (extent query 0) (extent query 1) (extent query 2)
      (extent key 2) (extent query 3) positions)

/-! ## Cache append -/

structure CpuKvView where
  key : FloatView
  value : FloatView

def appendKvCheck (key value : FloatView) (positions : List UInt32) (cache : CpuKvView) : Status :=
  let views := firstFailure [validateF32Host key, validateF32Host value, validateF32Host cache.key,
    validateF32Host cache.value]
  if views.isOk = false then views
  else if key.shape.rank ≠ 4 ∨ value.shape ≠ key.shape ∨ cache.key.shape.rank ≠ 4
      ∨ cache.value.shape ≠ cache.key.shape ∨ extent key 0 ≠ extent cache.key 0
      ∨ extent key 2 ≠ extent cache.key 2 ∨ extent key 3 ≠ extent cache.key 3
      ∨ positions.length ≠ extent key 0 * extent key 1 then
    .failure .invalidShape
  else if positions.any fun position => extent cache.key 1 ≤ position.toNat then
    .failure .invalidArgument
  else firstFailure [validateNoOverlap key cache.key, validateNoOverlap key cache.value,
    validateNoOverlap value cache.key, validateNoOverlap value cache.value]

def appendRows (key value keyCache valueCache batch tokens maximumContext tokenWidth : Nat)
    (positions : List UInt32) : FlatMemory F → FlatMemory F :=
  forRange batch fun batchIndex => forRange tokens fun token memory =>
    let row := batchIndex * tokens + token
    let position := (positions.getD row 0).toNat
    let sourceOffset := row * tokenWidth
    let destinationOffset := (batchIndex * maximumContext + position) * tokenWidth
    let memory := copyFloats (keyCache + destinationOffset) (key + sourceOffset) tokenWidth memory
    copyFloats (valueCache + destinationOffset) (value + sourceOffset) tokenWidth memory

def appendKvF32 (key value : FloatView) (positions : List UInt32) (cache : CpuKvView) :
    Operation F :=
  guarded (appendKvCheck key value positions cache)
    (appendRows key.data value.data cache.key.data cache.value.data (extent key 0) (extent key 1)
      (extent cache.key 1) (extent key 2 * extent key 3) positions)

/-! ## Attention -/

/-- The scaled scores of the valid keys in the scratch, and their maximum. -/
def scoreKeys (scale : F) (query logits : Nat) (key : Nat → Nat) (headDim validKeys : Nat)
    (memory : FlatMemory F) : FlatMemory F × F :=
  forRange validKeys (fun keyToken state =>
    let dot := forRange headDim (fun dimension dot =>
      dot + state.1 (query + dimension) * state.1 (key keyToken + dimension)) zero
    let memory := Function.update state.1 (logits + keyToken) (dot * scale)
    (memory, FloatOps.max state.2 (memory (logits + keyToken)))) (memory, negInfinity)

/-- The exponentials of the scores in their place, and their sum. -/
def exponentiate (logits validKeys : Nat) (maximum : F) (memory : FlatMemory F) :
    FlatMemory F × F :=
  forRange validKeys (fun keyToken state =>
    let memory := Function.update state.1 (logits + keyToken)
      (exp (state.1 (logits + keyToken) - maximum))
    (memory, state.2 + memory (logits + keyToken))) (memory, zero)

/-- One query head of one token. The addresses of the query vector, of the scratch and of the
output are fixed; those of the key and value vectors depend on the key token. -/
def attentionHead (scale : F) (query logits output : Nat) (key value : Nat → Nat)
    (headDim validKeys : Nat) (memory : FlatMemory F) : FlatMemory F :=
  let scored := scoreKeys scale query logits key headDim validKeys memory
  let exponentials := exponentiate logits validKeys scored.2 scored.1
  let inverseDenominator := one / exponentials.2
  let memory := fill logits validKeys
    (fun memory keyToken => memory (logits + keyToken) * inverseDenominator) exponentials.1
  fill output headDim (fun memory dimension =>
    forRange validKeys (fun keyToken weightedValue =>
      weightedValue + memory (logits + keyToken) * memory (value keyToken + dimension)) zero) memory

def attentionScale (headDim : Nat) : F := one / sqrt (ofNat headDim)

def attentionRows (query keyCache valueCache output scratch batch tokens queryHeads kvHeads
    headDim maximumContext : Nat) (contextLengths : List UInt32) : FlatMemory F → FlatMemory F :=
  let groups := queryHeads / kvHeads
  forRange batch fun batchIndex => forRange tokens fun token => forRange queryHeads fun queryHead =>
    let queryStart := (contextLengths.getD batchIndex 0).toNat - tokens
    let validKeys := queryStart + token + 1
    let kvHead := queryHead / groups
    let row := (batchIndex * tokens + token) * queryHeads + queryHead
    let cacheOffset := fun keyToken =>
      ((batchIndex * maximumContext + keyToken) * kvHeads + kvHead) * headDim
    attentionHead (attentionScale headDim) (query + row * headDim)
      (scratch + row * maximumContext) (output + row * headDim)
      (fun keyToken => keyCache + cacheOffset keyToken)
      (fun keyToken => valueCache + cacheOffset keyToken) headDim validKeys

/-- The loops of attention on views that were checked before. -/
def attentionImpl (query keyCache valueCache : FloatView) (contextLengths : List UInt32)
    (output : FloatView) (scratch : Nat) : Operation F :=
  fun memory =>
    (.success, attentionRows query.data keyCache.data valueCache.data output.data scratch
      (extent query 0) (extent query 1) (extent query 2) (extent keyCache 2) (extent query 3)
      (extent keyCache 1) contextLengths memory)

end

end MarketForge.Cpu
