import MarketForge.Cpu.CheckedCalls

/-!
# The decoder layer, checked

The layer with its sizes computed by checked products, its slices carved from the workspace by a
cursor, and its calls checked. It does not stop on any input, and returns what the layer returns:
no product wraps, and no access leaves the floats that a view declares or a slice was given.
-/
namespace MarketForge.Cpu

open Library FloatOps
open Library.Checked (mul add sub cell loop Span)

section

variable {F : Type}

/-! ## Loops between the calls -/

def addRowsChecked [FloatOps F] (target addend : Span) (count : Nat) :
    FlatMemory F → Option (FlatMemory F) :=
  loop count fun index memory => do
    let value ← target.read index memory
    let summand ← addend.read index memory
    target.write index (value + summand) memory

def gateRowsChecked [FloatOps F] (gate up : Span) (count : Nat) :
    FlatMemory F → Option (FlatMemory F) :=
  loop count fun index memory => do
    let value ← gate.read index memory
    let factor ← up.read index memory
    gate.write index (silu value * factor) memory

def traceCopyChecked (view : Option FloatView) (source : Span) (count : Nat) :
    List (CheckedOperation F) :=
  match view with
  | none => []
  | some view => [alwaysChecked (copyChecked (spanOf view) source 0 0 count)]

theorem always_agrees (checked : FlatMemory F → Option (FlatMemory F))
    (effect : FlatMemory F → FlatMemory F)
    (safe : ∀ memory, checked memory = some (effect memory)) :
    Agrees (alwaysChecked checked) (always effect) := by
  intro memory
  rw [alwaysChecked, safe memory]
  rfl

theorem add_rows_agrees [FloatOps F] (target addend : Span) (count : Nat)
    (inTarget : count ≤ target.count) (inAddend : count ≤ addend.count) :
    Agrees (F := F) (alwaysChecked (addRowsChecked target addend count))
      (always (addRows target.data addend.data count)) := by
  apply always_agrees
  intro memory
  apply Checked.loop_some
  intro index below current
  rw [Checked.bind_known (Span.read_some (by omega))]
  rw [Span.read_some (by omega)]
  exact Span.write_some (by omega)

theorem gate_rows_agrees [FloatOps F] (gate up : Span) (count : Nat) (inGate : count ≤ gate.count)
    (inUp : count ≤ up.count) :
    Agrees (F := F) (alwaysChecked (gateRowsChecked gate up count))
      (always (gateRows gate.data up.data count)) := by
  apply always_agrees
  intro memory
  apply Checked.loop_some
  intro index below current
  rw [Checked.bind_known (Span.read_some (by omega))]
  rw [Span.read_some (by omega)]
  exact Span.write_some (by omega)

theorem trace_copy_agrees (view : Option FloatView) (source : Span) (count : Nat)
    (bytes : count * 4 < 2 ^ 64) (inSource : count ≤ source.count)
    (inView : ∀ buffer ∈ view, count ≤ buffer.shape.elements) :
    List.Forall₂ (Agrees (F := F)) (traceCopyChecked view source count)
      (traceCopy view source.data count) := by
  cases view with
  | none => exact List.Forall₂.nil
  | some buffer =>
    have inBuffer : 0 + count ≤ (spanOf buffer).count := by
      rw [Nat.zero_add]
      exact inView buffer rfl
    apply List.Forall₂.cons _ List.Forall₂.nil
    apply always_agrees
    intro memory
    exact copy_checked _ _ _ _ _ memory bytes inBuffer (by omega)

/-- A view on a span that has the floats it declares. -/
def viewOn (span : Span) (extents : List Nat) : Option FloatView :=
  let view := sliceView span.data extents
  if view.shape.elements ≤ span.count then some view else none

theorem view_on_some {span : Span} {extents : List Nat}
    (slice : Addressable span.data extents) (fits : extents.prod ≤ span.count) :
    viewOn span extents = some (sliceView span.data extents) := by
  rw [viewOn, slice.elements]
  exact if_pos fits

end

/-! ## The validation -/

section

variable {F : Type}

def positionsFollowChecked (spec : DecoderLayerSpec F) (batch tokens maximumContext : Nat)
    (positions contextLengths : List UInt32) : Option Bool :=
  Checked.all batch fun batchIndex => do
    let context ← contextLengths[batchIndex]?
    if context.toNat < tokens ∨ maximumContext < context.toNat then pure false
    else do
      let start ← sub context.toNat tokens
      Checked.all tokens fun token => do
        let row ← cell batchIndex tokens token
        let position ← positions[row]?
        let expected ← add start token
        pure (decide (position.toNat = expected)
          && decide (position.toNat < spec.rope.maxPositions.toNat))

def cacheCheckChecked (spec : DecoderLayerSpec F) (hidden : FloatView) (cache : CpuKvView)
    (positions contextLengths : List UInt32) : Option Status :=
  let batch := extent hidden 0
  let tokens := extent hidden 1
  let views := firstFailure [validateF32Host cache.key, validateF32Host cache.value]
  if views.isOk = false then some views
  else if cache.key.shape.rank ≠ 4 ∨ cache.value.shape ≠ cache.key.shape
      ∨ extent cache.key 0 ≠ batch ∨ extent cache.key 2 ≠ spec.kvHeads.toNat
      ∨ extent cache.key 3 ≠ spec.headDim.toNat then
    some (.failure .invalidShape)
  else do
    let rows ← mul batch tokens
    if extent cache.key 1 = 0 ∨ positions.length ≠ rows ∨ contextLengths.length ≠ batch then
      some (.failure .invalidShape)
    else do
      let follow ← positionsFollowChecked spec batch tokens (extent cache.key 1) positions
        contextLengths
      if follow = false then some (.failure .invalidArgument) else some .success

theorem positions_follow_checked (spec : DecoderLayerSpec F) (batch tokens maximumContext : Nat)
    (positions contextLengths : List UInt32) (fits : batch * tokens < 2 ^ 64)
    (positionCount : positions.length = batch * tokens)
    (contextCount : contextLengths.length = batch) :
    positionsFollowChecked spec batch tokens maximumContext positions contextLengths =
      some (positionsFollow spec batch tokens maximumContext positions contextLengths) := by
  apply Checked.all_some
  intro batchIndex inBatch
  have listed : batchIndex < contextLengths.length := contextCount ▸ inBatch
  rw [Checked.bind_known (Checked.entry_some 0 listed)]
  have word := (contextLengths.getD batchIndex 0).toNat_lt
  generalize (contextLengths.getD batchIndex 0).toNat = reached at word
  dsimp only
  by_cases outside : reached < tokens ∨ maximumContext < reached
  · rw [if_pos outside]
    have fails : (decide (tokens ≤ reached) && decide (reached ≤ maximumContext)) = false := by
      simp
      omega
    rw [fails]
    rfl
  · have holds : (decide (tokens ≤ reached) && decide (reached ≤ maximumContext)) = true := by
      simp
      omega
    rw [if_neg outside, Checked.bind_known (Checked.sub_some (by omega)), holds, Bool.true_and]
    apply Checked.all_some
    intro token inTokens
    have below : batchIndex * tokens + token < positions.length :=
      positionCount ▸ Grid.cell_lt inBatch inTokens
    rw [Checked.bind_known (Checked.cell_some inBatch inTokens fits),
      Checked.bind_known (Checked.entry_some 0 below),
      Checked.bind_known (Checked.add_some (by omega))]
    rfl

theorem cache_check_checked (spec : DecoderLayerSpec F) (hidden : FloatView) (cache : CpuKvView)
    (positions contextLengths : List UInt32)
    (fits : extent hidden 0 * extent hidden 1 < 2 ^ 64) :
    cacheCheckChecked spec hidden cache positions contextLengths =
      some (cacheCheck spec hidden cache positions contextLengths) := by
  rw [cacheCheckChecked, cacheCheck]
  split
  next => rfl
  next =>
    split
    next => rfl
    next =>
      rw [Checked.bind_known (Checked.mul_some fits)]
      split
      next => rfl
      next counts =>
        simp only [not_or, not_not] at counts
        rw [Checked.bind_known (positions_follow_checked spec _ _ _ positions contextLengths fits
          counts.2.1 counts.2.2)]
        split <;> rfl

end

/-! ## The layer -/

namespace LayerInput

section

variable {F : Type} [FloatOps F] (input : LayerInput F)

def validationChecked : Option Status := do
  let _ ← mul input.queryHeads input.headDim
  let spec := specCheck input.spec
  if spec.isOk = false then some spec
  else
    let hidden := hiddenCheck input.spec input.hidden
    if hidden.isOk = false then some hidden
    else do
      let cache ← cacheCheckChecked input.spec input.hidden input.cache input.positions
        input.contextLengths
      if cache.isOk = false then some cache
      else do
        -- the width of the keys and values that the weights are checked for
        let _ ← mul input.kvHeads input.headDim
        some (firstFailure [weightsCheck input.spec input.weights,
          workspaceCheck input.spec input.hidden input.cache input.workspace,
          separationCheck input.weights input.hidden input.cache input.workspace,
          traceCheck input.weights input.hidden input.cache input.workspace input.trace])

theorem first_failure_cons (status : Status) (others : List Status) :
    firstFailure (status :: others) =
      if status.isOk = false then status else firstFailure others := by
  rw [firstFailure, List.find?_cons]
  cases ok : status.isOk with
  | false => simp
  | true => simp [firstFailure]

omit [FloatOps F] in
theorem heads_words : input.queryHeads * input.headDim < 2 ^ 64 ∧
    input.kvHeads * input.headDim < 2 ^ 64 := by
  have query : input.queryHeads * input.headDim < 2 ^ 32 * 2 ^ 32 :=
    Nat.mul_lt_mul'' input.spec.queryHeads.toNat_lt input.spec.headDim.toNat_lt
  have kv : input.kvHeads * input.headDim < 2 ^ 32 * 2 ^ 32 :=
    Nat.mul_lt_mul'' input.spec.kvHeads.toNat_lt input.spec.headDim.toNat_lt
  omega

theorem validation_checked : input.validationChecked = some input.validation := by
  rw [validationChecked, validation, validateLayer,
    Checked.bind_known (Checked.mul_some input.heads_words.1)]
  rw [first_failure_cons (specCheck _)]
  by_cases spec : (specCheck input.spec).isOk = false
  · rw [if_pos spec, if_pos spec]
  rw [if_neg spec, if_neg spec, first_failure_cons (hiddenCheck _ _)]
  by_cases hidden : (hiddenCheck input.spec input.hidden).isOk = false
  · rw [if_pos hidden, if_pos hidden]
  rw [if_neg hidden, if_neg hidden]
  -- the rows of valid hidden rows are counted by a word
  have fits : extent input.hidden 0 * extent input.hidden 1 < 2 ^ 64 := by
    obtain ⟨valid, ranked, _, _, width⟩ :=
      hidden_check_ok input.spec input.hidden (Bool.not_eq_false _ ▸ hidden)
    have bytes := valid_bytes_lt input.hidden valid
    have elements : input.hidden.shape.elements =
        extent input.hidden 0 * extent input.hidden 1 * input.hiddenSize := by
      rw [elements_extents input.hidden (by simp [ranked]), ranked]
      simp [List.range_succ, width, hiddenSize, Nat.mul_assoc]
    have rows := Nat.le_mul_of_pos_right (extent input.hidden 0 * extent input.hidden 1)
      (spec_checked input.spec (Bool.not_eq_false _ ▸ spec)).someHidden
    rw [elements, hiddenSize] at bytes
    omega
  rw [Checked.bind_known (cache_check_checked _ _ _ _ _ fits),
    first_failure_cons (cacheCheck _ _ _ _ _)]
  by_cases cache : (cacheCheck input.spec input.hidden input.cache input.positions
      input.contextLengths).isOk = false
  · rw [if_pos cache, if_pos cache]
  rw [if_neg cache, if_neg cache, Checked.mul_some input.heads_words.2]
  rfl

/-! ## The two phases -/

omit [FloatOps F] in
/-- The floats of the workspace. -/
def scratch : Span := ⟨input.workspace.data, input.workspace.capacity.toNat⟩

/-- What the attention phase takes: the norm, the queries, the keys, the values, the attention and
the scores. -/
def attentionSizes (rowHidden rowKv logitsCount : Nat) : List Nat :=
  [rowHidden, rowHidden, rowKv, rowKv, rowHidden, logitsCount]

/-- What the MLP phase takes: the norm, the gate and the up projection. -/
def mlpSizes (rowHidden rowIntermediate : Nat) : List Nat :=
  [rowHidden, rowIntermediate, rowIntermediate]

def attentionPhaseChecked (rows kvWidth rowHidden : Nat) : CheckedOperation F := fun memory => do
  let rowKv ← mul rows kvWidth
  let rowHeads ← mul rows input.queryHeads
  let logitsCount ← mul rowHeads input.maximumContext
  match ← input.scratch.carve 0 (attentionSizes rowHidden rowKv logitsCount) with
  | [normalized, query, key, value, attention, logits] =>
    let queryShape := [input.batch, input.tokens, input.queryHeads, input.headDim]
    let keyValueShape := [input.batch, input.tokens, input.kvHeads, input.headDim]
    let normalizedHidden ← viewOn normalized [input.batch, input.tokens, input.hiddenSize]
    let queryFlat ← viewOn query [rows, input.hiddenSize]
    let keyFlat ← viewOn key [rows, kvWidth]
    let valueFlat ← viewOn value [rows, kvWidth]
    let queryHeads ← viewOn query queryShape
    let keyHeads ← viewOn key keyValueShape
    let valueHeads ← viewOn value keyValueShape
    let attentionHeads ← viewOn attention queryShape
    let normalizedFlat ← viewOn normalized [rows, input.hiddenSize]
    let attentionFlat ← viewOn attention [rows, input.hiddenSize]
    runAllChecked
      ([rmsNormChecked input.hidden input.weights.inputNorm input.spec.rmsNormEpsilon
          normalizedHidden,
        linearChecked normalizedFlat input.weights.attention.query queryFlat,
        linearChecked normalizedFlat input.weights.attention.key keyFlat,
        linearChecked normalizedFlat input.weights.attention.value valueFlat,
        applyRopeChecked queryHeads keyHeads input.positions input.spec.rope,
        appendKvChecked keyHeads valueHeads input.positions input.cache,
        attentionImplChecked queryHeads input.cache.key input.cache.value input.contextLengths
          attentionHeads logits,
        linearChecked attentionFlat input.weights.attention.output normalizedFlat,
        alwaysChecked (addRowsChecked (spanOf input.hidden) normalized rowHidden)]
      ++ traceCopyChecked (input.trace.map DecoderLayerTrace.afterAttention) (spanOf input.hidden)
        rowHidden) memory
  | _ => none

def mlpPhaseChecked (rows rowHidden : Nat) : CheckedOperation F := fun memory => do
  let rowIntermediate ← mul rows input.intermediateSize
  match ← input.scratch.carve 0 (mlpSizes rowHidden rowIntermediate) with
  | [postNorm, gate, up] =>
    let postNormHidden ← viewOn postNorm [input.batch, input.tokens, input.hiddenSize]
    let postNormFlat ← viewOn postNorm [rows, input.hiddenSize]
    let gateView ← viewOn gate [rows, input.intermediateSize]
    let upView ← viewOn up [rows, input.intermediateSize]
    runAllChecked
      ([rmsNormChecked input.hidden input.weights.postAttentionNorm input.spec.rmsNormEpsilon
          postNormHidden,
        linearChecked postNormFlat input.weights.mlp.gate gateView,
        linearChecked postNormFlat input.weights.mlp.up upView,
        alwaysChecked (gateRowsChecked gate up rowIntermediate),
        linearChecked gateView input.weights.mlp.down postNormFlat,
        alwaysChecked (addRowsChecked (spanOf input.hidden) postNorm rowHidden)]
      ++ traceCopyChecked (input.trace.map DecoderLayerTrace.afterMlp) (spanOf input.hidden)
        rowHidden) memory
  | _ => none

def runChecked : CheckedOperation F := fun memory => do
  let validation ← input.validationChecked
  if validation.isOk = false then some (validation, memory)
  else do
    let rows ← mul input.batch input.tokens
    let kvWidth ← mul input.kvHeads input.headDim
    let rowHidden ← mul rows input.hiddenSize
    let (status, memory) ← input.attentionPhaseChecked rows kvWidth rowHidden memory
    if status.isOk = false then some (status, memory)
    else input.mlpPhaseChecked rows rowHidden memory

/-- The calls of the attention phase. -/
def attentionCalls : List (Operation F) :=
  input.projectCalls ++ input.appendCall ::
    [attentionImpl input.queryView input.cache.key input.cache.value input.contextLengths
      (sliceView input.slices.attention
        [input.batch, input.tokens, input.queryHeads, input.headDim]) input.slices.logits,
    linearF32 (sliceView input.slices.attention [input.rows, input.hiddenSize])
      input.weights.attention.output input.normalized,
    always (addRows input.hidden.data input.slices.normalized (input.rows * input.hiddenSize))]
  ++ traceCopy (input.trace.map DecoderLayerTrace.afterAttention) input.hidden.data
    (input.rows * input.hiddenSize)

/-- The calls of the MLP phase. -/
def mlpCalls : List (Operation F) :=
  [rmsNormF32 input.hidden input.weights.postAttentionNorm input.spec.rmsNormEpsilon
      input.normalizedHidden,
    linearF32 input.normalized input.weights.mlp.gate
      (sliceView input.slices.gate [input.rows, input.intermediateSize]),
    linearF32 input.normalized input.weights.mlp.up
      (sliceView input.slices.up [input.rows, input.intermediateSize]),
    always (gateRows input.slices.gate input.slices.up (input.rows * input.intermediateSize)),
    linearF32 (sliceView input.slices.gate [input.rows, input.intermediateSize])
      input.weights.mlp.down input.normalized,
    always (addRows input.hidden.data input.slices.normalized (input.rows * input.hiddenSize))]
  ++ traceCopy (input.trace.map DecoderLayerTrace.afterMlp) input.hidden.data
    (input.rows * input.hiddenSize)

theorem phases : input.projectCalls ++ input.appendCall :: input.laterCalls =
    input.attentionCalls ++ input.mlpCalls := by
  simp [laterCalls, attentionCalls, mlpCalls]

variable {input} (passed : input.validation.isOk = true)

/-! ## The phases do not stop -/

variable (input) in
/-- The sizes that the layer multiplies are words. -/
structure LayerWords : Prop where
  hidden : input.rows * input.hiddenSize * 4 < 2 ^ 64
  rows : input.rows < 2 ^ 64
  kv : input.rows * input.kvWidth < 2 ^ 64
  heads : input.rows * input.queryHeads < 2 ^ 64
  attentionPhase : 3 * (input.rows * input.hiddenSize) + 2 * (input.rows * input.kvWidth)
    + input.rows * input.queryHeads * input.maximumContext < 2 ^ 64
  mlpPhase : 2 * (input.rows * input.intermediateSize) + input.rows * input.hiddenSize < 2 ^ 64

include passed

theorem words : LayerWords input := by
  have shaped := shaped passed
  obtain ⟨attentionPhase, mlpPhase⟩ := sized passed
  have bytes := valid_bytes_lt input.hidden shaped.hiddenValid
  rw [hidden_elements shaped] at bytes
  have capacity := input.workspace.capacity.toNat_lt
  have rows := Nat.le_mul_of_pos_right input.rows shaped.someHidden
  have heads := Nat.le_mul_of_pos_right (input.rows * input.queryHeads) shaped.someContext
  constructor
  all_goals omega

/-- The buffers of a trace hold the hidden rows. -/
theorem traced_fit : ∀ trace ∈ input.trace,
    input.rows * input.hiddenSize ≤ trace.afterAttention.shape.elements ∧
      input.rows * input.hiddenSize ≤ trace.afterMlp.shape.elements := by
  have fit : ∀ view ∈ input.traced, input.rows * input.hiddenSize ≤ view.shape.elements := by
    intro view listed
    rw [((separate passed).traces view listed).2.1, hidden_elements (shaped passed)]
  intro trace given
  rw [traced, Option.mem_def.mp given] at fit
  exact ⟨fit _ (by simp), fit _ (by simp)⟩

theorem attention_phase_bounds :
    AttentionBounds (spanOf input.queryView) (spanOf input.cache.key) (spanOf input.cache.value)
      (spanOf (sliceView input.slices.attention
        [input.batch, input.tokens, input.queryHeads, input.headDim]))
      ⟨input.slices.logits, input.rows * input.queryHeads * input.maximumContext⟩
      (extent input.queryView 0) (extent input.queryView 1) (extent input.queryView 2)
      (extent input.cache.key 2) (extent input.queryView 3) (extent input.cache.key 1)
      input.contextLengths := by
  have shaped := shaped passed
  have ready := layer_ready passed
  have words := words passed
  have extents : ∀ axis < 4, extent input.queryView axis =
      [input.batch, input.tokens, input.queryHeads, input.headDim].getD axis 0 :=
    fun axis inside => ready.queryHeads.extent axis (by simpa using inside)
  have cacheElements := heads_elements input.cache.key shaped.keyRank
  have cacheBytes := valid_bytes_lt input.cache.key shaped.keyValid
  have queryElements := ready.queryHeads.elements
  have attentionElements := ready.attentionHeads.elements
  have product : [input.batch, input.tokens, input.queryHeads, input.headDim].prod =
      input.batch * input.tokens * input.queryHeads * input.headDim := by
    simp [Nat.mul_assoc]
  have hidden : input.batch * input.tokens * input.queryHeads * input.headDim =
      input.rows * input.hiddenSize := by
    rw [← shaped.heads, ← Nat.mul_assoc]
    rfl
  rw [shaped.cacheBatch, shaped.cacheHeads, shaped.cacheWidth] at cacheElements
  rw [extents 0 (by omega), extents 1 (by omega), extents 2 (by omega), extents 3 (by omega),
    shaped.cacheHeads]
  -- the workspace size that was computed without overflow bounds the two products below
  have hiddenWord := words.hidden
  have phaseWord := words.attentionPhase
  constructor
  case someWidth => exact shaped.someHeadDim
  case groups => exact shaped.groups
  case contextCount => exact shaped.contextCount
  case contexts => exact shaped.contexts
  case queryFits =>
    show input.batch * input.tokens * input.queryHeads * input.headDim < _
    omega
  case cacheFits =>
    show input.batch * extent input.cache.key 1 * input.kvHeads * input.headDim < _
    omega
  case scratchFits =>
    show input.rows * input.queryHeads * input.maximumContext < _
    omega
  case querySize => exact queryElements.trans product
  case outputSize => exact attentionElements.trans product
  case keySize => exact cacheElements
  case valueSize => rw [spanOf, shaped.sameCaches]; exact cacheElements
  case scratchSize => exact Nat.le_refl _

variable (input) in
/-- The views of the layer on the spans that their slices are given. -/
structure LayerViews : Prop where
  normalizedHidden : viewOn ⟨input.slices.normalized, input.rows * input.hiddenSize⟩
    [input.batch, input.tokens, input.hiddenSize] = some input.normalizedHidden
  matrix : ∀ data columns, Addressable data [input.rows, columns] →
    viewOn ⟨data, input.rows * columns⟩ [input.rows, columns] =
      some (sliceView data [input.rows, columns])
  queryHeads : ∀ data, Addressable data
      [input.batch, input.tokens, input.queryHeads, input.headDim] →
    viewOn ⟨data, input.rows * input.hiddenSize⟩
        [input.batch, input.tokens, input.queryHeads, input.headDim] =
      some (sliceView data [input.batch, input.tokens, input.queryHeads, input.headDim])
  kvHeads : ∀ data, Addressable data [input.batch, input.tokens, input.kvHeads, input.headDim] →
    viewOn ⟨data, input.rows * input.kvWidth⟩
        [input.batch, input.tokens, input.kvHeads, input.headDim] =
      some (sliceView data [input.batch, input.tokens, input.kvHeads, input.headDim])

theorem layer_views : LayerViews input := by
  have queries := heads_product (shaped passed)
  have keys := @kv_product F input
  constructor
  case normalizedHidden =>
    apply view_on_some (layer_ready passed).normalizedHidden
    simp [rows, Nat.mul_assoc]
  case matrix => exact fun data columns slice => view_on_some slice (by simp)
  case queryHeads =>
    exact fun data slice => view_on_some slice (by simpa using Nat.le_of_eq queries)
  case kvHeads => exact fun data slice => view_on_some slice (by simpa using Nat.le_of_eq keys)

theorem attention_carved :
    input.scratch.carve 0 (attentionSizes (input.rows * input.hiddenSize)
        (input.rows * input.kvWidth) (input.rows * input.queryHeads * input.maximumContext)) =
      some [⟨input.slices.normalized, input.rows * input.hiddenSize⟩,
        ⟨input.slices.query, input.rows * input.hiddenSize⟩,
        ⟨input.slices.key, input.rows * input.kvWidth⟩,
        ⟨input.slices.value, input.rows * input.kvWidth⟩,
        ⟨input.slices.attention, input.rows * input.hiddenSize⟩,
        ⟨input.slices.logits, input.rows * input.queryHeads * input.maximumContext⟩] := by
  have phase := (sized passed).attentionPhase
  apply Span.carve_some _ _ _ input.workspace.capacity.toNat_lt
  simp only [attentionSizes, List.sum_cons, List.sum_nil, scratch]
  omega

theorem mlp_carved :
    input.scratch.carve 0 (mlpSizes (input.rows * input.hiddenSize)
        (input.rows * input.intermediateSize)) =
      some [⟨input.slices.normalized, input.rows * input.hiddenSize⟩,
        ⟨input.slices.gate, input.rows * input.intermediateSize⟩,
        ⟨input.slices.up, input.rows * input.intermediateSize⟩] := by
  have phase := (sized passed).mlpPhase
  apply Span.carve_some _ _ _ input.workspace.capacity.toNat_lt
  simp only [mlpSizes, List.sum_cons, List.sum_nil, scratch]
  omega

theorem attention_phase_agrees :
    Agrees (input.attentionPhaseChecked input.rows input.kvWidth (input.rows * input.hiddenSize))
      (runAll input.attentionCalls) := by
  have ready := layer_ready passed
  have words := words passed
  have views := layer_views passed
  have whole := hidden_elements (shaped passed)
  have phaseWord := words.attentionPhase
  have someKeys : 0 < input.keyView.shape.elements := by
    rw [keyView, ready.keyHeads.elements]
    exact List.prod_pos ready.keyHeads.positive
  intro memory
  rw [attentionPhaseChecked, Checked.bind_known (Checked.mul_some words.kv),
    Checked.bind_known (Checked.mul_some words.heads),
    Checked.bind_known (Checked.mul_some (by omega)),
    Checked.bind_known (attention_carved passed)]
  dsimp only
  -- the views of the calls, in the order in which the layer makes them
  rw [Checked.bind_known views.normalizedHidden,
    Checked.bind_known (views.matrix _ _ ready.query),
    Checked.bind_known (views.matrix _ _ ready.key),
    Checked.bind_known (views.matrix _ _ ready.value),
    Checked.bind_known (views.queryHeads _ ready.queryHeads),
    Checked.bind_known (views.kvHeads _ ready.keyHeads),
    Checked.bind_known (views.kvHeads _ ready.valueHeads),
    Checked.bind_known (views.queryHeads _ ready.attentionHeads),
    Checked.bind_known (views.matrix _ _ ready.normalized),
    Checked.bind_known (views.matrix _ _ ready.attention)]
  apply run_all_agrees
  apply List.rel_append
  · simp only [projectCalls, List.cons_append, List.nil_append, List.forall₂_cons,
      List.Forall₂.nil, and_true]
    refine ⟨?norm, ?query, ?key, ?value, ?rope, ?append, ?attention, ?output, ?sum⟩
    case norm => exact rms_norm_agrees _ _ _ _
    case query => exact linear_agrees _ _ _
    case key => exact linear_agrees _ _ _
    case value => exact linear_agrees _ _ _
    case rope => exact apply_rope_agrees _ _ _ _
    case append => exact append_kv_agrees _ _ _ _ someKeys
    case attention => exact attention_impl_agrees _ _ _ _ _ _ (attention_phase_bounds passed)
    case output => exact linear_agrees _ _ _
    case sum =>
      exact add_rows_agrees (spanOf input.hidden) _ _ (Nat.le_of_eq whole.symm) (Nat.le_refl _)
  · apply trace_copy_agrees _ _ _ words.hidden (Nat.le_of_eq whole.symm)
    intro buffer listed
    obtain ⟨trace, given, rfl⟩ := Option.mem_map.mp listed
    exact (traced_fit passed trace given).1

theorem mlp_phase_agrees :
    Agrees (input.mlpPhaseChecked input.rows (input.rows * input.hiddenSize))
      (runAll input.mlpCalls) := by
  have ready := layer_ready passed
  have words := words passed
  have views := layer_views passed
  have whole := hidden_elements (shaped passed)
  have phaseWord := words.mlpPhase
  intro memory
  rw [mlpPhaseChecked, Checked.bind_known (Checked.mul_some (by omega)),
    Checked.bind_known (mlp_carved passed)]
  dsimp only
  rw [Checked.bind_known views.normalizedHidden,
    Checked.bind_known (views.matrix _ _ ready.normalized),
    Checked.bind_known (views.matrix _ _ ready.gate),
    Checked.bind_known (views.matrix _ _ ready.up)]
  apply run_all_agrees
  apply List.rel_append
  · simp only [List.forall₂_cons, List.Forall₂.nil, and_true]
    refine ⟨?norm, ?gate, ?up, ?silu, ?down, ?total⟩
    case norm => exact rms_norm_agrees _ _ _ _
    case gate => exact linear_agrees _ _ _
    case up => exact linear_agrees _ _ _
    case silu => exact gate_rows_agrees _ _ _ (Nat.le_refl _) (Nat.le_refl _)
    case down => exact linear_agrees _ _ _
    case total =>
      exact add_rows_agrees (spanOf input.hidden) _ _ (Nat.le_of_eq whole.symm) (Nat.le_refl _)
  · apply trace_copy_agrees _ _ _ words.hidden (Nat.le_of_eq whole.symm)
    intro buffer listed
    obtain ⟨trace, given, rfl⟩ := Option.mem_map.mp listed
    exact (traced_fit passed trace given).2

omit passed in
/-- The checked layer never stops, and returns what the layer returns. -/
theorem run_agrees (input : LayerInput F) : Agrees input.runChecked input.run := by
  intro memory
  rw [runChecked, Checked.bind_known (validation_checked input), run_eq]
  by_cases invalid : input.validation.isOk = false
  · rw [if_pos invalid, if_pos invalid]
  have passed := Bool.not_eq_false _ ▸ invalid
  have words := words passed
  have hiddenWord := words.hidden
  have rowsKnown : mul input.batch input.tokens = some input.rows := Checked.mul_some words.rows
  have widthKnown : mul input.kvHeads input.headDim = some input.kvWidth :=
    Checked.mul_some input.heads_words.2
  rw [if_neg invalid, if_neg invalid, Checked.bind_known rowsKnown, Checked.bind_known widthKnown,
    Checked.bind_known (Checked.mul_some (by omega)),
    Checked.bind_known (attention_phase_agrees passed memory), phases, run_all_split]
  dsimp only
  by_cases attended : (runAll input.attentionCalls memory).1.isOk = false
  · rw [if_pos attended, if_neg (Bool.eq_false_iff.mp attended)]
  · rw [if_neg attended, if_pos (Bool.not_eq_false _ ▸ attended)]
    exact mlp_phase_agrees passed _

end

end LayerInput

/-! ## Memory safety -/

/-- Spans between two addresses that share no float. -/
structure SpansFit (starts ends : Nat) (spans : List Span) : Prop where
  apart : spans.Pairwise fun first second => Apart first.data first.count second.data second.count
  within : ∀ taken ∈ spans, starts ≤ taken.data ∧ taken.data + taken.count ≤ ends

theorem laid_fit (counts : List Nat) (data limit : Nat) (fits : counts.sum ≤ limit) :
    SpansFit data (data + limit) (Span.laid data counts) := by
  constructor
  case apart => exact Span.laid_apart counts data
  case within =>
    intro taken listed
    have inside := Span.laid_within counts data taken listed
    omega

/-- The scores of each cell, in the scratch of the attention. -/
def scoreSpans (scratch cells maximumContext : Nat) : List Span :=
  (List.range cells).map fun cell => ⟨scratch + cell * maximumContext, maximumContext⟩

theorem score_spans_fit (scratch cells maximumContext : Nat) :
    SpansFit scratch (scratch + cells * maximumContext)
      (scoreSpans scratch cells maximumContext) := by
  constructor
  case apart =>
    rw [scoreSpans, List.pairwise_map]
    apply List.Pairwise.imp _ List.pairwise_lt_range
    intro first second before
    exact rows_apart scratch maximumContext first second (Nat.ne_of_lt before)
  case within =>
    intro taken listed
    obtain ⟨cell, below, rfl⟩ := List.mem_map.mp listed
    have last : cell * maximumContext + maximumContext ≤ cells * maximumContext :=
      Grid.row_end maximumContext (List.mem_range.mp below)
    dsimp only
    omega

section

variable {F : Type} [FloatOps F]

/-- The spans of both phases fit what the layer's requirement certifies. -/
theorem layer_spans_fit {input : LayerInput F} (passed : input.validation.isOk = true) :
    ∃ required, requiredDecoderLayerWorkspaceFloats input.spec (UInt64.ofNat input.batch)
        (UInt64.ofNat input.tokens) (UInt64.ofNat input.maximumContext) = .ok required ∧
      required.toNat ≤ input.workspace.capacity.toNat ∧
      ∀ sizes ∈ [LayerInput.attentionSizes (input.rows * input.hiddenSize)
            (input.rows * input.kvWidth) (input.rows * input.queryHeads * input.maximumContext),
          LayerInput.mlpSizes (input.rows * input.hiddenSize)
            (input.rows * input.intermediateSize)],
        ∃ spans, input.scratch.carve 0 sizes = some spans ∧
          SpansFit input.workspace.data (input.workspace.data + required.toNat) spans := by
  obtain ⟨required, computed, enough⟩ := workspace_check_ok input.spec input.hidden input.cache
    input.workspace (first_failure_ok _ passed _ (by simp))
  have phases := required_floats_ok input.spec _ _ _ required computed
  have word : ∀ view axis, (UInt64.ofNat (extent view axis)).toNat = extent view axis :=
    fun view axis => Nat.mod_eq_of_lt (UInt64.toNat_lt _)
  rw [word, word, word] at phases
  have attentionPhase : 3 * (input.rows * input.hiddenSize) + 2 * (input.rows * input.kvWidth)
      + input.rows * input.queryHeads * input.maximumContext ≤ required.toNat := phases.1
  have mlpPhase : 2 * (input.rows * input.intermediateSize) + input.rows * input.hiddenSize ≤
      required.toNat := phases.2
  have carved : ∀ sizes : List Nat, sizes.sum ≤ required.toNat →
      ∃ spans, input.scratch.carve 0 sizes = some spans ∧
        SpansFit input.workspace.data (input.workspace.data + required.toNat) spans := by
    intro sizes fits
    have inWorkspace : 0 + sizes.sum ≤ input.scratch.count := by
      rw [Nat.zero_add]
      exact Nat.le_trans fits enough
    exact ⟨_, Span.carve_some sizes 0 inWorkspace input.workspace.capacity.toNat_lt,
      laid_fit sizes input.workspace.data required.toNat fits⟩
  refine ⟨required, computed, enough, ?_⟩
  simp only [List.forall_mem_cons, List.not_mem_nil, false_implies, implies_true, and_true]
  constructor
  · apply carved
    simp only [LayerInput.attentionSizes, List.sum_cons, List.sum_nil]
    omega
  · apply carved
    simp only [LayerInput.mlpSizes, List.sum_cons, List.sum_nil]
    omega

/-- The layer and the attention are safe. With every product, every index and every access checked
they do not stop, and return what they return without the checks; and for calls that pass their
checks, the spans that they take from the workspace share no float and end within the floats that
their requirement certifies. -/
theorem layer_memory_safe :
    (∀ input : LayerInput F, Agrees input.runChecked input.run ∧
      (input.validation.isOk = true →
        ∃ required, requiredDecoderLayerWorkspaceFloats input.spec (UInt64.ofNat input.batch)
            (UInt64.ofNat input.tokens) (UInt64.ofNat input.maximumContext) = .ok required ∧
          required.toNat ≤ input.workspace.capacity.toNat ∧
          ∀ sizes ∈ [LayerInput.attentionSizes (input.rows * input.hiddenSize)
                (input.rows * input.kvWidth) (input.rows * input.queryHeads * input.maximumContext),
              LayerInput.mlpSizes (input.rows * input.hiddenSize)
                (input.rows * input.intermediateSize)],
            ∃ spans, input.scratch.carve 0 sizes = some spans ∧
              SpansFit input.workspace.data (input.workspace.data + required.toNat) spans)) ∧
    (∀ (query keyCache valueCache output : FloatView) (contextLengths : List UInt32)
        (workspace : CpuWorkspace),
      Agrees (F := F)
        (attentionF32Checked query keyCache valueCache contextLengths output workspace)
        (attentionF32 query keyCache valueCache contextLengths output workspace) ∧
      ∀ memory : FlatMemory F,
        (attentionCheck query keyCache valueCache contextLengths output workspace memory).isOk =
          true →
        ∃ required, requiredAttentionWorkspaceFloats query keyCache = .ok required ∧
          required.toNat ≤ workspace.capacity.toNat ∧
          SpansFit workspace.data (workspace.data + required.toNat)
            (scoreSpans workspace.data (extent query 0 * extent query 1 * extent query 2)
              (extent keyCache 1))) := by
  constructor
  case left =>
    intro input
    exact ⟨LayerInput.run_agrees input, layer_spans_fit⟩
  case right =>
    intro query keyCache valueCache output contextLengths workspace
    constructor
    · exact attention_f32_agrees query keyCache valueCache contextLengths output workspace
    · intro memory passed
      obtain ⟨_, required, computed, enough⟩ := attention_check_ok passed
      refine ⟨required, computed, enough, ?_⟩
      rw [required_attention_ok query keyCache required computed]
      exact score_spans_fit _ _ _

end

/-- A layer of two heads of two dimensions that share their keys, over two tokens. -/
def evenHeads : LayerInput BinaryFloat.Value :=
  let tensor := fun (data : Nat) (extents : List UInt64) => makeF32View data extents
  { weights :=
      { inputNorm := tensor 100 [4]
        attention :=
          { query := tensor 104 [4, 4], key := tensor 120 [2, 4], value := tensor 128 [2, 4]
            output := tensor 136 [4, 4] }
        postAttentionNorm := tensor 152 [4]
        mlp := { gate := tensor 156 [3, 4], up := tensor 168 [3, 4], down := tensor 180 [4, 3] } }
    spec :=
      { hiddenSize := 4, intermediateSize := 3, queryHeads := 2, kvHeads := 1, headDim := 2
        rmsNormEpsilon := .finite 1, rope := ⟨.finite 10000, 8⟩ }
    hidden := tensor 200 [1, 2, 4]
    cache := { key := tensor 208 [1, 3, 1, 2], value := tensor 214 [1, 3, 1, 2] }
    positions := [0, 1]
    contextLengths := [2]
    workspace := ⟨300, 44⟩
    trace := none }

/-- The slices of this layer, and the scores of two tokens with two heads over three keys. -/
theorem layer_memory_safe_even_heads :
    (∃ required, requiredDecoderLayerWorkspaceFloats evenHeads.spec 1 2 3 = .ok required ∧
      required.toNat ≤ 44 ∧ ∀ sizes ∈ [[8, 8, 4, 4, 8, 12], [8, 6, 6]],
        ∃ spans, evenHeads.scratch.carve 0 sizes = some spans ∧
          SpansFit 300 (300 + required.toNat) spans) ∧
    ∃ required, requiredAttentionWorkspaceFloats (makeF32View 1 [1, 2, 2, 2])
        (makeF32View 9 [1, 3, 1, 2]) = .ok required ∧
      required.toNat ≤ 12 ∧ SpansFit 40 (40 + required.toNat) (scoreSpans 40 4 3) := by
  constructor
  case left => exact ((@layer_memory_safe _ plainFloats).1 evenHeads).2 (by decide +kernel)
  case right =>
    exact ((@layer_memory_safe _ plainFloats).2 (makeF32View 1 [1, 2, 2, 2])
      (makeF32View 9 [1, 3, 1, 2]) (makeF32View 15 [1, 3, 1, 2]) (makeF32View 21 [1, 2, 2, 2]) [3]
      ⟨40, 12⟩).2 (fun _ => .finite 1) (by decide +kernel)

end MarketForge.Cpu
