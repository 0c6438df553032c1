import MarketForge.Cpu.OperatorEffects
import MarketForge.Library.Checked

/-!
# The loops of the operators, checked

The loops of the norm, the product, the embedding, the append and the attention, with the products
and sums of their indices as words and every access in the span of its tensor. On spans of the
sizes that the checks of the operators ask for they do not stop, and compute what the loops compute.
-/
namespace MarketForge.Cpu

open Library FloatOps
open Library.Checked (mul add sub cell loop Span)

section

variable {F : Type}

/-- `std::memcpy` of so many floats between offsets of two spans. -/
def copyChecked (target source : Span) (targetOffset sourceOffset count : Nat)
    (memory : FlatMemory F) : Option (FlatMemory F) := do
  let _ ← mul count 4
  let target ← target.subspan targetOffset count
  let source ← source.subspan sourceOffset count
  pure (copyFloats target.data source.data count memory)

theorem copy_checked (target source : Span) (targetOffset sourceOffset count : Nat)
    (memory : FlatMemory F) (bytes : count * 4 < 2 ^ 64)
    (inTarget : targetOffset + count ≤ target.count)
    (inSource : sourceOffset + count ≤ source.count) :
    copyChecked target source targetOffset sourceOffset count memory =
      some (copyFloats (target.data + targetOffset) (source.data + sourceOffset) count memory) := by
  simp [copyChecked, Checked.mul_some bytes, Span.subspan_some inTarget, Span.subspan_some inSource]

variable [FloatOps F]

/-! ## RMS norm -/

def rmsNormRowsChecked (input weight output : Span) (rows hidden : Nat) (epsilon : F) :
    FlatMemory F → Option (FlatMemory F) :=
  loop rows fun row memory => do
    let sumSquares ← loop hidden (fun column sum => do
      let index ← cell row hidden column
      let value ← input.read index memory
      pure (sum + value * value)) zero
    let inverseRms := one / sqrt (sumSquares / ofNat hidden + epsilon)
    loop hidden (fun column memory => do
      let index ← cell row hidden column
      let value ← input.read index memory
      let factor ← weight.read column memory
      output.write index (value * inverseRms * factor) memory) memory

theorem rms_norm_rows_checked (input weight output : Span) (rows hidden : Nat) (epsilon : F)
    (memory : FlatMemory F) (fits : rows * hidden < 2 ^ 64)
    (inputSize : input.count = rows * hidden)
    (weightSize : weight.count = hidden) (outputSize : output.count = rows * hidden) :
    rmsNormRowsChecked input weight output rows hidden epsilon memory =
      some (rmsNormRows input.data weight.data output.data rows hidden epsilon memory) := by
  apply Checked.loop_some
  intro row below current
  have index : ∀ column < hidden, cell row hidden column = some (row * hidden + column) :=
    fun column inside => Checked.cell_some below inside fits
  have inMatrix : ∀ column < hidden, row * hidden + column < rows * hidden :=
    fun column inside => Grid.cell_lt below inside
  have summed := Checked.loop_some hidden (fun column sum => do
      let index ← cell row hidden column
      let value ← input.read index current
      pure (sum + value * value)) (fun column sum =>
        sum + current (input.data + row * hidden + column)
          * current (input.data + row * hidden + column)) (zero : F) (by
    intro column inside sum
    simp [index column inside, Span.read_some (inputSize ▸ inMatrix column inside), Nat.add_assoc])
  rw [Checked.bind_known summed]
  apply Checked.loop_some
  intro column inside current
  simp [index column inside, Span.read_some (inputSize ▸ inMatrix column inside),
    Span.read_some (weightSize ▸ inside), Span.write_some (outputSize ▸ inMatrix column inside),
    Nat.add_assoc]

/-! ## Linear -/

def linearRowsChecked (input weight output : Span) (rows inputWidth outputWidth : Nat) :
    FlatMemory F → Option (FlatMemory F) :=
  loop rows fun row => loop outputWidth fun outputColumn memory => do
    let sum ← loop inputWidth (fun inputColumn sum => do
      let inputIndex ← cell row inputWidth inputColumn
      let weightIndex ← cell outputColumn inputWidth inputColumn
      let value ← input.read inputIndex memory
      let factor ← weight.read weightIndex memory
      pure (sum + value * factor)) zero
    let outputIndex ← cell row outputWidth outputColumn
    output.write outputIndex sum memory

theorem linear_rows_checked (input weight output : Span) (rows inputWidth outputWidth : Nat)
    (memory : FlatMemory F) (inputFits : rows * inputWidth < 2 ^ 64)
    (weightFits : outputWidth * inputWidth < 2 ^ 64) (outputFits : rows * outputWidth < 2 ^ 64)
    (inputSize : input.count = rows * inputWidth)
    (weightSize : weight.count = outputWidth * inputWidth)
    (outputSize : output.count = rows * outputWidth) :
    linearRowsChecked input weight output rows inputWidth outputWidth memory =
      some (linearRows input.data weight.data output.data rows inputWidth outputWidth memory) := by
  apply Checked.loop_some
  intro row below current
  apply Checked.loop_some
  intro outputColumn inside current
  have summed := Checked.loop_some inputWidth (fun inputColumn sum => do
      let inputIndex ← cell row inputWidth inputColumn
      let weightIndex ← cell outputColumn inputWidth inputColumn
      let value ← input.read inputIndex current
      let factor ← weight.read weightIndex current
      pure (sum + value * factor)) (fun inputColumn sum =>
        sum + current (input.data + row * inputWidth + inputColumn)
          * current (weight.data + outputColumn * inputWidth + inputColumn)) (zero : F) (by
    intro inputColumn within sum
    have inInput : row * inputWidth + inputColumn < input.count :=
      inputSize ▸ Grid.cell_lt below within
    have inWeight : outputColumn * inputWidth + inputColumn < weight.count :=
      weightSize ▸ Grid.cell_lt inside within
    simp [Checked.cell_some below within inputFits, Checked.cell_some inside within weightFits,
      Span.read_some inInput, Span.read_some inWeight, Nat.add_assoc])
  have inOutput : row * outputWidth + outputColumn < output.count :=
    outputSize ▸ Grid.cell_lt below inside
  rw [summed]
  simp [Checked.cell_some below inside outputFits, Span.write_some inOutput, Nat.add_assoc]

/-! ## Rotary embedding -/

def rotateChecked (spec : RopeSpec F) (tensor : Span) (tokens heads headDim batchIndex token
    position : Nat) : FlatMemory F → Option (FlatMemory F) :=
  loop heads fun head memory => do
    let row ← cell batchIndex tokens token
    let vector ← cell row heads head
    let vectorOffset ← mul vector headDim
    let half := headDim / 2
    loop half (fun dimension memory => do
      let _ ← mul 2 dimension
      let angle := ropeAngle spec headDim position dimension
      let lower ← add vectorOffset dimension
      let upperStart ← add vectorOffset half
      let upper ← add upperStart dimension
      let first ← tensor.read lower memory
      let second ← tensor.read upper memory
      let memory ← tensor.write lower (first * cos angle - second * sin angle) memory
      tensor.write upper (second * cos angle + first * sin angle) memory) memory

def ropeRowsChecked (spec : RopeSpec F) (query key : Span)
    (batch tokens queryHeads keyHeads headDim : Nat) (positions : List UInt32) :
    FlatMemory F → Option (FlatMemory F) :=
  loop batch fun batchIndex => loop tokens fun token memory => do
    let row ← cell batchIndex tokens token
    let position ← positions[row]?
    let memory ← rotateChecked spec query tokens queryHeads headDim batchIndex token
      position.toNat memory
    rotateChecked spec key tokens keyHeads headDim batchIndex token position.toNat memory

theorem rotate_checked (spec : RopeSpec F) (tensor : Span)
    (batch tokens heads headDim batchIndex token position : Nat) (memory : FlatMemory F)
    (inBatch : batchIndex < batch) (inTokens : token < tokens) (someWidth : 0 < headDim)
    (fits : batch * tokens * heads * headDim < 2 ^ 64)
    (size : tensor.count = batch * tokens * heads * headDim) :
    rotateChecked spec tensor tokens heads headDim batchIndex token position memory =
      some (rotate spec tensor.data heads headDim (batchIndex * tokens + token) position
        memory) := by
  apply Checked.loop_some
  intro head inHeads current
  have cells : batch * tokens * heads ≤ batch * tokens * heads * headDim :=
    Nat.le_mul_of_pos_right _ someWidth
  have rows : batch * tokens ≤ batch * tokens * heads :=
    Nat.le_mul_of_pos_right _ (Nat.zero_lt_of_lt inHeads)
  have rowBelow : batchIndex * tokens + token < batch * tokens := Grid.cell_lt inBatch inTokens
  have vectorBelow : (batchIndex * tokens + token) * heads + head < batch * tokens * heads :=
    Grid.cell_lt rowBelow inHeads
  have last : ((batchIndex * tokens + token) * heads + head) * headDim + headDim ≤
      batch * tokens * heads * headDim := Grid.row_end headDim vectorBelow
  rw [Checked.bind_known (Checked.cell_some inBatch inTokens (by omega)),
    Checked.bind_known (Checked.cell_some rowBelow inHeads (by omega)),
    Checked.bind_known (Checked.mul_some (by omega))]
  generalize ((batchIndex * tokens + token) * heads + head) * headDim = offset at last
  apply Checked.loop_some
  intro dimension inHalf current
  simp (disch := omega) only [Checked.mul_some, Checked.add_some, Span.read_some, Span.write_some,
    Option.bind_eq_bind, Option.bind_some]
  simp only [Nat.add_assoc]

theorem rope_rows_checked (spec : RopeSpec F) (query key : Span)
    (batch tokens queryHeads keyHeads headDim : Nat) (positions : List UInt32)
    (memory : FlatMemory F) (someQueryHeads : 0 < queryHeads)
    (someWidth : 0 < headDim) (positionCount : positions.length = batch * tokens)
    (queryFits : batch * tokens * queryHeads * headDim < 2 ^ 64)
    (keyFits : batch * tokens * keyHeads * headDim < 2 ^ 64)
    (querySize : query.count = batch * tokens * queryHeads * headDim)
    (keySize : key.count = batch * tokens * keyHeads * headDim) :
    ropeRowsChecked spec query key batch tokens queryHeads keyHeads headDim positions memory =
      some (ropeRows spec query.data key.data batch tokens queryHeads keyHeads headDim positions
        memory) := by
  have rows : batch * tokens ≤ batch * tokens * queryHeads * headDim :=
    Nat.le_trans (Nat.le_mul_of_pos_right _ someQueryHeads) (Nat.le_mul_of_pos_right _ someWidth)
  apply Checked.loop_some
  intro batchIndex inBatch current
  apply Checked.loop_some
  intro token inTokens current
  have listed : batchIndex * tokens + token < positions.length :=
    positionCount ▸ Grid.cell_lt inBatch inTokens
  rw [Checked.bind_known (Checked.cell_some inBatch inTokens (by omega)),
    Checked.bind_known (Checked.entry_some 0 listed),
    Checked.bind_known (rotate_checked spec query batch tokens queryHeads headDim batchIndex token _
      current inBatch inTokens someWidth queryFits querySize)]
  exact rotate_checked spec key batch tokens keyHeads headDim batchIndex token _ _ inBatch inTokens
    someWidth keyFits keySize

/-! ## Cache append -/

def appendRowsChecked (key value keyCache valueCache : Span)
    (batch tokens maximumContext heads headDim : Nat) (positions : List UInt32)
    (memory : FlatMemory F) : Option (FlatMemory F) := do
  let tokenWidth ← mul heads headDim
  loop batch (fun batchIndex => loop tokens fun token memory => do
    let row ← cell batchIndex tokens token
    let position ← positions[row]?
    let sourceOffset ← mul row tokenWidth
    let destination ← cell batchIndex maximumContext position.toNat
    let destinationOffset ← mul destination tokenWidth
    let memory ← copyChecked keyCache key destinationOffset sourceOffset tokenWidth memory
    copyChecked valueCache value destinationOffset sourceOffset tokenWidth memory) memory

omit [FloatOps F] in
theorem append_rows_checked (key value keyCache valueCache : Span)
    (batch tokens maximumContext heads headDim : Nat) (positions : List UInt32)
    (memory : FlatMemory F) (someBatch : 0 < batch) (someTokens : 0 < tokens)
    (someWidth : 0 < heads * headDim) (positionCount : positions.length = batch * tokens)
    (inContext : ∀ row < batch * tokens, (positions.getD row 0).toNat < maximumContext)
    (sourceFits : batch * tokens * (heads * headDim) * 4 < 2 ^ 64)
    (cacheFits : batch * maximumContext * (heads * headDim) < 2 ^ 64)
    (keySize : key.count = batch * tokens * (heads * headDim))
    (valueSize : value.count = batch * tokens * (heads * headDim))
    (keyCacheSize : keyCache.count = batch * maximumContext * (heads * headDim))
    (valueCacheSize : valueCache.count = batch * maximumContext * (heads * headDim)) :
    appendRowsChecked key value keyCache valueCache batch tokens maximumContext heads headDim
        positions memory =
      some (appendRows key.data value.data keyCache.data valueCache.data batch tokens
        maximumContext (heads * headDim) positions memory) := by
  have someRows : 0 < batch * tokens := Nat.mul_pos someBatch someTokens
  have width : heads * headDim ≤ batch * tokens * (heads * headDim) :=
    Nat.le_mul_of_pos_left _ someRows
  have rows : batch * tokens ≤ batch * tokens * (heads * headDim) :=
    Nat.le_mul_of_pos_right _ someWidth
  have cacheRows : batch * maximumContext ≤ batch * maximumContext * (heads * headDim) :=
    Nat.le_mul_of_pos_right _ someWidth
  rw [appendRowsChecked, Checked.bind_known (Checked.mul_some (by omega))]
  apply Checked.loop_some
  intro batchIndex inBatch current
  apply Checked.loop_some
  intro token inTokens current
  have rowBelow : batchIndex * tokens + token < batch * tokens := Grid.cell_lt inBatch inTokens
  have listed : batchIndex * tokens + token < positions.length := positionCount ▸ rowBelow
  have inCache := inContext _ rowBelow
  have destinationBelow : batchIndex * maximumContext
      + (positions.getD (batchIndex * tokens + token) 0).toNat < batch * maximumContext :=
    Grid.cell_lt inBatch inCache
  -- the row and the place it is copied to end within their tensors
  have source : (batchIndex * tokens + token) * (heads * headDim) + heads * headDim ≤
      batch * tokens * (heads * headDim) := Grid.row_end _ rowBelow
  have target : (batchIndex * maximumContext
      + (positions.getD (batchIndex * tokens + token) 0).toNat) * (heads * headDim)
        + heads * headDim ≤ batch * maximumContext * (heads * headDim) :=
    Grid.row_end _ destinationBelow
  rw [Checked.bind_known (Checked.cell_some inBatch inTokens (by omega)),
    Checked.bind_known (Checked.entry_some 0 listed),
    Checked.bind_known (Checked.mul_some (by omega)),
    Checked.bind_known (Checked.cell_some inBatch inCache (by omega)),
    Checked.bind_known (Checked.mul_some (by omega)),
    Checked.bind_known (copy_checked _ _ _ _ _ _ (by omega) (by omega) (by omega))]
  exact copy_checked _ _ _ _ _ _ (by omega) (by omega) (by omega)

/-! ## Attention -/

/-- The index of an entry of the keys or of the values. -/
def cacheIndex (maximumContext kvHeads headDim batchIndex kvHead keyToken dimension : Nat) :
    Option Nat := do
  let row ← cell batchIndex maximumContext keyToken
  let vector ← cell row kvHeads kvHead
  cell vector headDim dimension

def scoreKeysChecked (scale : F) (query logits keyCache : Span)
    (vector maximumContext kvHeads headDim batchIndex kvHead validKeys : Nat)
    (memory : FlatMemory F) : Option (FlatMemory F × F) :=
  loop validKeys (fun keyToken state => do
    let dot ← loop headDim (fun dimension dot => do
      let queryOffset ← cell vector headDim dimension
      let keyOffset ← cacheIndex maximumContext kvHeads headDim batchIndex kvHead keyToken dimension
      let value ← query.read queryOffset state.1
      let factor ← keyCache.read keyOffset state.1
      pure (dot + value * factor)) zero
    let memory ← logits.write keyToken (dot * scale) state.1
    let score ← logits.read keyToken memory
    pure (memory, FloatOps.max state.2 score)) (memory, negInfinity)

def exponentiateChecked (logits : Span) (validKeys : Nat) (maximum : F) (memory : FlatMemory F) :
    Option (FlatMemory F × F) :=
  loop validKeys (fun keyToken state => do
    let score ← logits.read keyToken state.1
    let memory ← logits.write keyToken (exp (score - maximum)) state.1
    let probability ← logits.read keyToken memory
    pure (memory, state.2 + probability)) (memory, zero)

def weighValuesChecked (logits valueCache output : Span)
    (vector maximumContext kvHeads headDim batchIndex kvHead validKeys : Nat) :
    FlatMemory F → Option (FlatMemory F) :=
  loop headDim fun dimension memory => do
    let weightedValue ← loop validKeys (fun keyToken weightedValue => do
      let valueOffset ←
        cacheIndex maximumContext kvHeads headDim batchIndex kvHead keyToken dimension
      let probability ← logits.read keyToken memory
      let value ← valueCache.read valueOffset memory
      pure (weightedValue + probability * value)) zero
    let outputOffset ← cell vector headDim dimension
    output.write outputOffset weightedValue memory

def attentionHeadChecked (scale : F) (query logits keyCache valueCache output : Span)
    (vector maximumContext kvHeads headDim batchIndex kvHead validKeys : Nat)
    (memory : FlatMemory F) : Option (FlatMemory F) := do
  let (scored, maximum) ← scoreKeysChecked scale query logits keyCache vector maximumContext kvHeads
    headDim batchIndex kvHead validKeys memory
  let (exponentials, denominator) ← exponentiateChecked logits validKeys maximum scored
  let inverseDenominator := one / denominator
  let normalized ← loop validKeys (fun keyToken memory => do
    let probability ← logits.read keyToken memory
    logits.write keyToken (probability * inverseDenominator) memory) exponentials
  weighValuesChecked logits valueCache output vector maximumContext kvHeads headDim batchIndex
    kvHead validKeys normalized

def attentionRowsChecked (query keyCache valueCache output scratch : Span)
    (batch tokens queryHeads kvHeads headDim maximumContext : Nat) (contextLengths : List UInt32) :
    FlatMemory F → Option (FlatMemory F) :=
  let groups := queryHeads / kvHeads
  loop batch fun batchIndex memory => do
    let context ← contextLengths[batchIndex]?
    let queryStart ← sub context.toNat tokens
    loop tokens (fun token memory => do
      let lastKey ← add queryStart token
      let validKeys ← add lastKey 1
      loop queryHeads (fun queryHead memory => do
        let row ← cell batchIndex tokens token
        let vector ← cell row queryHeads queryHead
        let scratchOffset ← mul vector maximumContext
        let logits ← scratch.subspan scratchOffset maximumContext
        attentionHeadChecked (attentionScale headDim) query logits keyCache valueCache output vector
          maximumContext kvHeads headDim batchIndex (queryHead / groups) validKeys memory) memory)
      memory

/-- An entry of a valid key or value is an entry of the cache. -/
theorem cache_index {batch maximumContext kvHeads headDim batchIndex kvHead keyToken
    dimension : Nat} (inBatch : batchIndex < batch) (inContext : keyToken < maximumContext)
    (inHeads : kvHead < kvHeads) (inside : dimension < headDim)
    (fits : batch * maximumContext * kvHeads * headDim < 2 ^ 64) :
    cacheIndex maximumContext kvHeads headDim batchIndex kvHead keyToken dimension =
        some (((batchIndex * maximumContext + keyToken) * kvHeads + kvHead) * headDim
          + dimension) ∧
      ((batchIndex * maximumContext + keyToken) * kvHeads + kvHead) * headDim + dimension <
        batch * maximumContext * kvHeads * headDim := by
  have cells : batch * maximumContext * kvHeads ≤ batch * maximumContext * kvHeads * headDim :=
    Nat.le_mul_of_pos_right _ (Nat.zero_lt_of_lt inside)
  have rows : batch * maximumContext ≤ batch * maximumContext * kvHeads :=
    Nat.le_mul_of_pos_right _ (Nat.zero_lt_of_lt inHeads)
  have rowBelow := Grid.cell_lt inBatch inContext
  have vectorBelow := Grid.cell_lt rowBelow inHeads
  constructor
  · rw [cacheIndex, Checked.bind_known (Checked.cell_some inBatch inContext (by omega)),
      Checked.bind_known (Checked.cell_some rowBelow inHeads (by omega))]
    exact Checked.cell_some vectorBelow inside fits
  · exact Grid.cell_lt vectorBelow inside

/-- The spans that one head of one token works on. -/
structure HeadBounds (query logits keyCache valueCache output : Span)
    (cells vector batch maximumContext kvHeads headDim batchIndex kvHead validKeys : Nat) :
    Prop where
  inBatch : batchIndex < batch
  inHeads : kvHead < kvHeads
  inCells : vector < cells
  valid : validKeys ≤ maximumContext
  queryFits : cells * headDim < 2 ^ 64
  cacheFits : batch * maximumContext * kvHeads * headDim < 2 ^ 64
  querySize : query.count = cells * headDim
  outputSize : output.count = cells * headDim
  keySize : keyCache.count = batch * maximumContext * kvHeads * headDim
  valueSize : valueCache.count = batch * maximumContext * kvHeads * headDim
  scratchSize : logits.count = maximumContext

section

variable {query logits keyCache valueCache output : Span}
  {cells vector batch maximumContext kvHeads headDim batchIndex kvHead validKeys : Nat}
  (bounds : HeadBounds query logits keyCache valueCache output cells vector batch maximumContext
    kvHeads headDim batchIndex kvHead validKeys)

include bounds

theorem score_keys_checked (scale : F) (memory : FlatMemory F) :
    scoreKeysChecked scale query logits keyCache vector maximumContext kvHeads headDim batchIndex
        kvHead validKeys memory =
      some (scoreKeys scale (query.data + vector * headDim) logits.data (fun keyToken =>
        keyCache.data + ((batchIndex * maximumContext + keyToken) * kvHeads + kvHead) * headDim)
        headDim validKeys memory) := by
  apply Checked.loop_some
  intro keyToken before state
  have valid := bounds.valid
  have inScratch : keyToken < logits.count := by
    rw [bounds.scratchSize]
    omega
  have multiplied := Checked.loop_some headDim (fun dimension dot => do
      let queryOffset ← cell vector headDim dimension
      let keyOffset ← cacheIndex maximumContext kvHeads headDim batchIndex kvHead keyToken dimension
      let value ← query.read queryOffset state.1
      let factor ← keyCache.read keyOffset state.1
      pure (dot + value * factor)) (fun dimension dot =>
        dot + state.1 (query.data + vector * headDim + dimension) * state.1 (keyCache.data
          + ((batchIndex * maximumContext + keyToken) * kvHeads + kvHead) * headDim + dimension))
      (zero : F) (by
    intro dimension inside dot
    obtain ⟨index, inCache⟩ := cache_index bounds.inBatch (by omega : keyToken < maximumContext)
      bounds.inHeads inside bounds.cacheFits
    have inQuery : vector * headDim + dimension < query.count :=
      bounds.querySize ▸ Grid.cell_lt bounds.inCells inside
    rw [← bounds.keySize] at inCache
    simp [Checked.cell_some bounds.inCells inside bounds.queryFits, index, Span.read_some inQuery,
      Span.read_some inCache, Nat.add_assoc])
  rw [multiplied]
  simp [Span.write_some inScratch, Span.read_some inScratch]

theorem exponentiate_checked (maximum : F) (memory : FlatMemory F) :
    exponentiateChecked logits validKeys maximum memory =
      some (exponentiate logits.data validKeys maximum memory) := by
  apply Checked.loop_some
  intro keyToken before state
  have valid := bounds.valid
  have inScratch : keyToken < logits.count := by
    rw [bounds.scratchSize]
    omega
  simp [Span.write_some inScratch, Span.read_some inScratch]

theorem weigh_values_checked (memory : FlatMemory F) :
    weighValuesChecked logits valueCache output vector maximumContext kvHeads headDim batchIndex
        kvHead validKeys memory =
      some (fill (output.data + vector * headDim) headDim (fun memory dimension =>
        forRange validKeys (fun keyToken weightedValue =>
          weightedValue + memory (logits.data + keyToken) * memory (valueCache.data
            + ((batchIndex * maximumContext + keyToken) * kvHeads + kvHead) * headDim + dimension))
          zero) memory) := by
  apply Checked.loop_some
  intro dimension inside current
  have valid := bounds.valid
  have summed := Checked.loop_some validKeys (fun keyToken weightedValue => do
      let valueOffset ←
        cacheIndex maximumContext kvHeads headDim batchIndex kvHead keyToken dimension
      let probability ← logits.read keyToken current
      let value ← valueCache.read valueOffset current
      pure (weightedValue + probability * value)) (fun keyToken weightedValue =>
        weightedValue + current (logits.data + keyToken) * current (valueCache.data
          + ((batchIndex * maximumContext + keyToken) * kvHeads + kvHead) * headDim + dimension))
      (zero : F) (by
    intro keyToken before weightedValue
    have inScratch : keyToken < logits.count := by
      rw [bounds.scratchSize]
      omega
    obtain ⟨index, inCache⟩ := cache_index bounds.inBatch (by omega : keyToken < maximumContext)
      bounds.inHeads inside bounds.cacheFits
    rw [← bounds.valueSize] at inCache
    simp [index, Span.read_some inScratch, Span.read_some inCache, Nat.add_assoc])
  have inOutput : vector * headDim + dimension < output.count :=
    bounds.outputSize ▸ Grid.cell_lt bounds.inCells inside
  rw [summed]
  simp [Checked.cell_some bounds.inCells inside bounds.queryFits, Span.write_some inOutput,
    Nat.add_assoc]

theorem attention_head_checked (scale : F) (memory : FlatMemory F) :
    attentionHeadChecked scale query logits keyCache valueCache output vector maximumContext kvHeads
        headDim batchIndex kvHead validKeys memory =
      some (attentionHead scale (query.data + vector * headDim) logits.data
        (output.data + vector * headDim) (fun keyToken => keyCache.data
          + ((batchIndex * maximumContext + keyToken) * kvHeads + kvHead) * headDim)
        (fun keyToken => valueCache.data
          + ((batchIndex * maximumContext + keyToken) * kvHeads + kvHead) * headDim)
        headDim validKeys memory) := by
  have valid := bounds.valid
  rw [attentionHeadChecked, Checked.bind_known (score_keys_checked bounds _ _)]
  dsimp only
  rw [Checked.bind_known (exponentiate_checked bounds _ _)]
  have normalized : ∀ (inverse : F) (current : FlatMemory F),
      loop validKeys (fun keyToken memory => do
      let probability ← logits.read keyToken memory
      logits.write keyToken (probability * inverse) memory) current =
      some (fill logits.data validKeys
        (fun memory keyToken => memory (logits.data + keyToken) * inverse) current) := by
    intro inverse current
    apply Checked.loop_some
    intro keyToken before current
    have inScratch : keyToken < logits.count := by
      rw [bounds.scratchSize]
      omega
    simp [Span.write_some inScratch, Span.read_some inScratch]
  rw [Checked.bind_known (normalized _ _)]
  exact weigh_values_checked bounds _

end

/-- The spans that attention works on. -/
structure AttentionBounds (query keyCache valueCache output scratch : Span)
    (batch tokens queryHeads kvHeads headDim maximumContext : Nat)
    (contextLengths : List UInt32) : Prop where
  someWidth : 0 < headDim
  groups : queryHeads % kvHeads = 0
  contextCount : contextLengths.length = batch
  contexts : ∀ batchIndex < batch, tokens ≤ (contextLengths.getD batchIndex 0).toNat ∧
    (contextLengths.getD batchIndex 0).toNat ≤ maximumContext
  queryFits : batch * tokens * queryHeads * headDim < 2 ^ 64
  cacheFits : batch * maximumContext * kvHeads * headDim < 2 ^ 64
  scratchFits : scratch.count < 2 ^ 64
  querySize : query.count = batch * tokens * queryHeads * headDim
  outputSize : output.count = batch * tokens * queryHeads * headDim
  keySize : keyCache.count = batch * maximumContext * kvHeads * headDim
  valueSize : valueCache.count = batch * maximumContext * kvHeads * headDim
  scratchSize : batch * tokens * queryHeads * maximumContext ≤ scratch.count

theorem attention_rows_checked (query keyCache valueCache output scratch : Span)
    (batch tokens queryHeads kvHeads headDim maximumContext : Nat) (contextLengths : List UInt32)
    (memory : FlatMemory F)
    (bounds : AttentionBounds query keyCache valueCache output scratch batch tokens queryHeads
      kvHeads headDim maximumContext contextLengths) :
    attentionRowsChecked query keyCache valueCache output scratch batch tokens queryHeads kvHeads
        headDim maximumContext contextLengths memory =
      some (attentionRows query.data keyCache.data valueCache.data output.data scratch.data batch
        tokens queryHeads kvHeads headDim maximumContext contextLengths memory) := by
  obtain ⟨someWidth, groups, contextCount, contexts, queryFits, cacheFits, scratchFits, querySize,
    outputSize, keySize, valueSize, scratchSize⟩ := bounds
  apply Checked.loop_some
  intro batchIndex inBatch current
  obtain ⟨reaches, within⟩ := contexts batchIndex inBatch
  have listed : batchIndex < contextLengths.length := contextCount ▸ inBatch
  have word := (contextLengths.getD batchIndex 0).toNat_lt
  rw [Checked.bind_known (Checked.entry_some 0 listed),
    Checked.bind_known (Checked.sub_some reaches)]
  apply Checked.loop_some
  intro token inTokens current
  rw [Checked.bind_known (Checked.add_some (by omega)),
    Checked.bind_known (Checked.add_some (by omega))]
  apply Checked.loop_some
  intro queryHead inHeads current
  have vectors : batch * tokens * queryHeads ≤ batch * tokens * queryHeads * headDim :=
    Nat.le_mul_of_pos_right _ someWidth
  have rows : batch * tokens ≤ batch * tokens * queryHeads :=
    Nat.le_mul_of_pos_right _ (Nat.zero_lt_of_lt inHeads)
  have rowBelow := Grid.cell_lt inBatch inTokens
  have vectorBelow := Grid.cell_lt rowBelow inHeads
  -- the scores of this cell end within the scratch
  have lastScore : ((batchIndex * tokens + token) * queryHeads + queryHead) * maximumContext
      + maximumContext ≤ batch * tokens * queryHeads * maximumContext := Grid.row_end _ vectorBelow
  rw [Checked.bind_known (Checked.cell_some inBatch inTokens (by omega)),
    Checked.bind_known (Checked.cell_some rowBelow inHeads (by omega)),
    Checked.bind_known (Checked.mul_some (by omega)),
    Checked.bind_known (Span.subspan_some (by omega))]
  have head : HeadBounds query
      ⟨scratch.data + ((batchIndex * tokens + token) * queryHeads + queryHead) * maximumContext,
        maximumContext⟩ keyCache valueCache output (batch * tokens * queryHeads)
      ((batchIndex * tokens + token) * queryHeads + queryHead) batch maximumContext kvHeads headDim
      batchIndex (queryHead / (queryHeads / kvHeads))
      ((contextLengths.getD batchIndex 0).toNat - tokens + token + 1) := by
    constructor
    case inHeads => exact group_below queryHeads kvHeads queryHead groups inHeads
    case valid => omega
    case scratchSize => rfl
    all_goals assumption
  exact attention_head_checked head _ current

end

end MarketForge.Cpu
