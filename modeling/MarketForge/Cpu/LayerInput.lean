import MarketForge.Cpu.DecoderLayer
import MarketForge.Cpu.ViewRanges

/-!
# Validated layer calls

Everything that a call of the decoder layer takes, and what a call that passes the validation may
rely on: the extents of its tensors, the size of the workspace, and that no two of its tensors
share a float.
-/
namespace MarketForge.Cpu

open Library FloatOps

/-- What a call of the layer takes. -/
structure LayerInput (F : Type) where
  weights : LayerWeights Nat
  spec : DecoderLayerSpec F
  hidden : FloatView
  cache : CpuKvView
  positions : List UInt32
  contextLengths : List UInt32
  workspace : CpuWorkspace
  trace : Option DecoderLayerTrace

namespace LayerInput

section

variable {F : Type} (input : LayerInput F)

def batch : Nat := extent input.hidden 0
def tokens : Nat := extent input.hidden 1
def rows : Nat := input.batch * input.tokens
def maximumContext : Nat := extent input.cache.key 1
def hiddenSize : Nat := input.spec.hiddenSize.toNat
def intermediateSize : Nat := input.spec.intermediateSize.toNat
def queryHeads : Nat := input.spec.queryHeads.toNat
def kvHeads : Nat := input.spec.kvHeads.toNat
def headDim : Nat := input.spec.headDim.toNat
def kvWidth : Nat := input.kvHeads * input.headDim
def slices : LayerSlices := layerSlices input.spec input.workspace input.rows

def context (batchIndex : Nat) : Nat := (input.contextLengths.getD batchIndex 0).toNat
def position (row : Nat) : Nat := (input.positions.getD row 0).toNat

/-- The buffers of the trace, when there is one. -/
def traced : List FloatView :=
  match input.trace with
  | none => []
  | some trace => [trace.afterAttention, trace.afterMlp]

end

section

variable {F : Type} [FloatOps F] (input : LayerInput F)

def validation : Status :=
  validateLayer input.weights input.spec input.hidden input.cache input.positions
    input.contextLengths input.workspace input.trace

def run : Operation F :=
  smollm2DecoderLayerF32 input.weights input.spec input.hidden input.cache input.positions
    input.contextLengths input.workspace input.trace

end

end LayerInput

/-! ## What the validation gives -/

/-- A valid weight with these extents. -/
structure WeightShaped (weight : FloatView) (extents : List Nat) : Prop where
  valid : (validateF32Host weight).isOk = true
  rank : weight.shape.rank = UInt8.ofNat extents.length
  elements : weight.shape.elements = extents.prod
  extents : ∀ axis < extents.length, extent weight axis = extents.getD axis 0

theorem weight_shaped (weight : FloatView) (extents : List UInt64)
    (passed : (validateWeight weight extents).isOk = true) :
    WeightShaped weight (extents.map UInt64.toNat) := by
  obtain ⟨elements, same⟩ := weight_ok weight extents passed
  unfold validateWeight at passed
  dsimp only at passed
  split at passed
  next valid =>
    constructor
    case valid => exact valid
    case rank =>
      rw [List.length_map]
      exact (require_shape_ok _ _ _ passed).1
    case elements => exact elements
    case extents =>
      intro axis inside
      rw [List.length_map] at inside
      rw [same axis inside, List.getD_eq_getElem?_getD, List.getD_eq_getElem?_getD,
        List.getElem?_map, List.getElem?_eq_getElem inside]
      rfl
  next failed => exact absurd passed failed

section

variable {F : Type} (input : LayerInput F)

/-- The extents of the tensors, and the positions of the rows. -/
structure LayerShaped [FloatOps F] : Prop where
  someBatch : 0 < input.batch
  someTokens : 0 < input.tokens
  someContext : 0 < input.maximumContext
  someHidden : 0 < input.hiddenSize
  someIntermediate : 0 < input.intermediateSize
  someQueryHeads : 0 < input.queryHeads
  someKvHeads : 0 < input.kvHeads
  someHeadDim : 0 < input.headDim
  groups : input.queryHeads % input.kvHeads = 0
  heads : input.queryHeads * input.headDim = input.hiddenSize
  epsilonFinite : isFinite input.spec.rmsNormEpsilon = true
  epsilonPositive : le input.spec.rmsNormEpsilon (zero : F) = false
  hiddenValid : (validateF32Host input.hidden).isOk = true
  hiddenRank : input.hidden.shape.rank = 3
  hiddenWidth : extent input.hidden 2 = input.hiddenSize
  keyValid : (validateF32Host input.cache.key).isOk = true
  valueValid : (validateF32Host input.cache.value).isOk = true
  keyRank : input.cache.key.shape.rank = 4
  sameCaches : input.cache.value.shape = input.cache.key.shape
  cacheBatch : extent input.cache.key 0 = input.batch
  cacheHeads : extent input.cache.key 2 = input.kvHeads
  cacheWidth : extent input.cache.key 3 = input.headDim
  positionCount : input.positions.length = input.rows
  contextCount : input.contextLengths.length = input.batch
  contexts : ∀ batchIndex < input.batch,
    input.tokens ≤ input.context batchIndex ∧ input.context batchIndex ≤ input.maximumContext
  follow : ∀ batchIndex < input.batch, ∀ token < input.tokens,
    input.position (batchIndex * input.tokens + token) =
      input.context batchIndex - input.tokens + token

/-- The nine weights. -/
structure LayerWeighted : Prop where
  inputNorm : WeightShaped input.weights.inputNorm [input.hiddenSize]
  query : WeightShaped input.weights.attention.query [input.hiddenSize, input.hiddenSize]
  key : WeightShaped input.weights.attention.key [input.kvWidth, input.hiddenSize]
  value : WeightShaped input.weights.attention.value [input.kvWidth, input.hiddenSize]
  output : WeightShaped input.weights.attention.output [input.hiddenSize, input.hiddenSize]
  postAttentionNorm : WeightShaped input.weights.postAttentionNorm [input.hiddenSize]
  gate : WeightShaped input.weights.mlp.gate [input.intermediateSize, input.hiddenSize]
  up : WeightShaped input.weights.mlp.up [input.intermediateSize, input.hiddenSize]
  down : WeightShaped input.weights.mlp.down [input.hiddenSize, input.intermediateSize]

/-- The workspace holds the slices of each phase. -/
structure LayerSized : Prop where
  attentionPhase : 3 * (input.rows * input.hiddenSize) + 2 * (input.rows * input.kvWidth)
    + input.rows * input.queryHeads * input.maximumContext ≤ input.workspace.capacity.toNat
  mlpPhase : 2 * (input.rows * input.intermediateSize) + input.rows * input.hiddenSize ≤
    input.workspace.capacity.toNat

/-- The tensors and the workspace share no float. -/
structure LayerSeparate : Prop where
  hiddenKey : Separate input.hidden input.cache.key
  hiddenValue : Separate input.hidden input.cache.value
  hiddenWorkspace : Separate input.hidden input.workspace.view
  keyValue : Separate input.cache.key input.cache.value
  keyWorkspace : Separate input.cache.key input.workspace.view
  valueWorkspace : Separate input.cache.value input.workspace.view
  weights : ∀ weight ∈ input.weights.all, Separate weight input.hidden ∧
    Separate weight input.cache.key ∧ Separate weight input.cache.value ∧
    Separate weight input.workspace.view
  traces : ∀ view ∈ input.traced, (validateF32Host view).isOk = true ∧
    view.shape = input.hidden.shape ∧ Separate input.workspace.view view

end

section

variable {F : Type} [FloatOps F] (input : LayerInput F)

/-- The numbers of a checked specification. -/
structure SpecChecked (spec : DecoderLayerSpec F) : Prop where
  someHidden : 0 < spec.hiddenSize.toNat
  someIntermediate : 0 < spec.intermediateSize.toNat
  someQueryHeads : 0 < spec.queryHeads.toNat
  someKvHeads : 0 < spec.kvHeads.toNat
  someHeadDim : 0 < spec.headDim.toNat
  groups : spec.queryHeads.toNat % spec.kvHeads.toNat = 0
  heads : spec.queryHeads.toNat * spec.headDim.toNat = spec.hiddenSize.toNat
  epsilonFinite : isFinite spec.rmsNormEpsilon = true
  epsilonPositive : le spec.rmsNormEpsilon (zero : F) = false

theorem spec_checked (spec : DecoderLayerSpec F) (passed : (specCheck spec).isOk = true) :
    SpecChecked spec := by
  obtain ⟨_, groups, heads⟩ := spec_check_ok spec passed
  have positive : ∀ size : UInt32, size ≠ 0 → 0 < size.toNat := fun size nonzero =>
    Nat.pos_of_ne_zero fun none => nonzero (UInt32.toNat_inj.mp none)
  unfold specCheck at passed
  split at passed
  next => simp at passed
  next valid =>
    simp only [not_or] at valid
    obtain ⟨hidden, intermediate, queryHeads, kvHeads, headDim, _, _, finite, small, _⟩ := valid
    constructor
    case someHidden => exact positive _ hidden
    case someIntermediate => exact positive _ intermediate
    case someQueryHeads => exact positive _ queryHeads
    case someKvHeads => exact positive _ kvHeads
    case someHeadDim => exact positive _ headDim
    case groups => exact groups
    case heads => exact heads
    case epsilonFinite => simpa using finite
    case epsilonPositive => simpa using small

omit [FloatOps F] in
theorem hidden_check_ok (spec : DecoderLayerSpec F) (hidden : FloatView)
    (passed : (hiddenCheck spec hidden).isOk = true) :
    (validateF32Host hidden).isOk = true ∧ hidden.shape.rank = 3 ∧ 0 < extent hidden 0 ∧
      0 < extent hidden 1 ∧ extent hidden 2 = spec.hiddenSize.toNat := by
  unfold hiddenCheck at passed
  obtain ⟨valid, passed⟩ := status_guard_ok passed
  obtain ⟨shape, _⟩ := refusal_guard_ok rfl passed
  simp only [not_or, not_not] at shape
  obtain ⟨ranked, batch, tokens, width⟩ := shape
  exact ⟨valid, ranked, Nat.pos_of_ne_zero batch, Nat.pos_of_ne_zero tokens, width⟩

/-- What the check of the cache and of the positions has found. -/
structure CacheChecked (spec : DecoderLayerSpec F) (hidden : FloatView) (cache : CpuKvView)
    (positions contextLengths : List UInt32) : Prop where
  keyValid : (validateF32Host cache.key).isOk = true
  valueValid : (validateF32Host cache.value).isOk = true
  keyRank : cache.key.shape.rank = 4
  sameCaches : cache.value.shape = cache.key.shape
  batch : extent cache.key 0 = extent hidden 0
  heads : extent cache.key 2 = spec.kvHeads.toNat
  width : extent cache.key 3 = spec.headDim.toNat
  someContext : 0 < extent cache.key 1
  positionCount : positions.length = extent hidden 0 * extent hidden 1
  contextCount : contextLengths.length = extent hidden 0
  follow : ∀ batchIndex < extent hidden 0,
    (extent hidden 1 ≤ (contextLengths.getD batchIndex 0).toNat ∧
      (contextLengths.getD batchIndex 0).toNat ≤ extent cache.key 1) ∧
    ∀ token < extent hidden 1,
      (positions.getD (batchIndex * extent hidden 1 + token) 0).toNat =
        (contextLengths.getD batchIndex 0).toNat - extent hidden 1 + token

omit [FloatOps F] in
theorem cache_checked (spec : DecoderLayerSpec F) (hidden : FloatView) (cache : CpuKvView)
    (positions contextLengths : List UInt32)
    (passed : (cacheCheck spec hidden cache positions contextLengths).isOk = true) :
    CacheChecked spec hidden cache positions contextLengths := by
  unfold cacheCheck at passed
  obtain ⟨views, passed⟩ := status_guard_ok passed
  have valid := first_failure_ok _ views
  obtain ⟨shapes, passed⟩ := refusal_guard_ok rfl passed
  simp only [not_or, not_not] at shapes
  obtain ⟨keyRank, sameCaches, batch, heads, width⟩ := shapes
  obtain ⟨counts, passed⟩ := refusal_guard_ok rfl passed
  simp only [not_or, not_not] at counts
  obtain ⟨someContext, positionCount, contextCount⟩ := counts
  obtain ⟨follow, _⟩ := refusal_guard_ok rfl passed
  rw [Bool.not_eq_false] at follow
  constructor
  case keyValid => exact valid _ (by simp)
  case valueValid => exact valid _ (by simp)
  case someContext => exact Nat.pos_of_ne_zero someContext
  case follow =>
    intro batchIndex below
    have sequence := List.all_eq_true.mp follow batchIndex (List.mem_range.mpr below)
    simp only [Bool.and_eq_true, decide_eq_true_eq, List.all_eq_true, List.mem_range] at sequence
    exact ⟨sequence.1, fun token inside => (sequence.2 token inside).1⟩
  all_goals assumption

namespace LayerInput

variable {input} (passed : input.validation.isOk = true)

include passed

theorem shaped : LayerShaped input := by
  have each := first_failure_ok _ passed
  have spec := spec_checked input.spec (each _ (by simp))
  obtain ⟨valid, ranked, batch, tokens, width⟩ :=
    hidden_check_ok input.spec input.hidden (each _ (by simp))
  have cache := cache_checked input.spec input.hidden input.cache input.positions
    input.contextLengths (each _ (by simp))
  constructor
  case contexts => exact fun batchIndex below => (cache.follow batchIndex below).1
  case follow => exact fun batchIndex below => (cache.follow batchIndex below).2
  case someHidden => exact spec.someHidden
  case someIntermediate => exact spec.someIntermediate
  case someQueryHeads => exact spec.someQueryHeads
  case someKvHeads => exact spec.someKvHeads
  case someHeadDim => exact spec.someHeadDim
  case groups => exact spec.groups
  case heads => exact spec.heads
  case epsilonFinite => exact spec.epsilonFinite
  case epsilonPositive => exact spec.epsilonPositive
  case someContext => exact cache.someContext
  case keyValid => exact cache.keyValid
  case valueValid => exact cache.valueValid
  case keyRank => exact cache.keyRank
  case sameCaches => exact cache.sameCaches
  case cacheBatch => exact cache.batch
  case cacheHeads => exact cache.heads
  case cacheWidth => exact cache.width
  case positionCount => exact cache.positionCount
  case contextCount => exact cache.contextCount
  all_goals assumption

theorem weighted : LayerWeighted input := by
  have each := first_failure_ok _ passed
  have weights := first_failure_ok _ (each (weightsCheck input.spec input.weights) (by simp))
  have hidden : input.spec.hiddenSize.toUInt64.toNat = input.hiddenSize := UInt32.toNat_toUInt64 _
  have intermediate : input.spec.intermediateSize.toUInt64.toNat = input.intermediateSize :=
    UInt32.toNat_toUInt64 _
  have width : (input.spec.kvHeads.toUInt64 * input.spec.headDim.toUInt64).toNat =
      input.kvWidth := by
    have bound : input.spec.kvHeads.toNat * input.spec.headDim.toNat < 2 ^ 32 * 2 ^ 32 :=
      Nat.mul_lt_mul'' input.spec.kvHeads.toNat_lt input.spec.headDim.toNat_lt
    rw [UInt64.toNat_mul, UInt32.toNat_toUInt64, UInt32.toNat_toUInt64, Nat.mod_eq_of_lt (by omega)]
    rfl
  simp only [List.forall_mem_cons] at weights
  obtain ⟨inputNorm, query, key, value, output, postAttentionNorm, gate, up, down, _⟩ := weights
  have shapes := And.intro (weight_shaped _ _ inputNorm) (weight_shaped _ _ postAttentionNorm)
  have attention := And.intro (And.intro (weight_shaped _ _ query) (weight_shaped _ _ key))
    (And.intro (weight_shaped _ _ value) (weight_shaped _ _ output))
  have mlp := And.intro (weight_shaped _ _ gate)
    (And.intro (weight_shaped _ _ up) (weight_shaped _ _ down))
  simp only [List.map_cons, List.map_nil, hidden, intermediate, width] at shapes attention mlp
  exact ⟨shapes.1, attention.1.1, attention.1.2, attention.2.1, attention.2.2, shapes.2, mlp.1,
    mlp.2.1, mlp.2.2⟩

theorem weight_valid : ∀ weight ∈ input.weights.all, (validateF32Host weight).isOk = true := by
  have weighted := weighted passed
  simp only [LayerWeights.all, List.forall_mem_cons, List.not_mem_nil, false_implies,
    implies_true, and_true]
  exact ⟨weighted.inputNorm.valid, weighted.query.valid, weighted.key.valid, weighted.value.valid,
    weighted.output.valid, weighted.postAttentionNorm.valid, weighted.gate.valid,
    weighted.up.valid, weighted.down.valid⟩

theorem sized : LayerSized input := by
  have each := first_failure_ok _ passed
  obtain ⟨required, computed, enough⟩ := workspace_check_ok input.spec input.hidden input.cache
    input.workspace (each _ (by simp))
  obtain ⟨attentionPhase, mlpPhase⟩ := required_floats_ok input.spec _ _ _ required computed
  have word : ∀ view axis, (UInt64.ofNat (extent view axis)).toNat = extent view axis :=
    fun view axis => Nat.mod_eq_of_lt (UInt64.toNat_lt _)
  rw [word, word, word] at attentionPhase
  rw [word, word] at mlpPhase
  exact ⟨Nat.le_trans attentionPhase enough, Nat.le_trans mlpPhase enough⟩

/-- The buffers of a trace have the shape of the hidden rows, apart from the workspace. -/
theorem traced_ok : ∀ view ∈ input.traced, (validateF32Host view).isOk = true ∧
    view.shape = input.hidden.shape ∧ Separate input.workspace.view view := by
  have each := first_failure_ok _ passed
  have traced := each (traceCheck input.weights input.hidden input.cache input.workspace
    input.trace) (by simp)
  -- each of the two buffers passes the same check
  have buffer : ∀ view, (traceViewCheck input.weights input.hidden input.cache input.workspace
      view).isOk = true → (validateF32Host view).isOk = true ∧
        view.shape = input.hidden.shape ∧ Separate input.workspace.view view := by
    intro view checked
    unfold traceViewCheck at checked
    dsimp only at checked
    split at checked
    next failed => rw [failed] at checked; cases checked
    next valid =>
      rw [Bool.not_eq_false] at valid
      split at checked
      next => simp at checked
      next same =>
        have apart := first_failure_ok _ checked (validateNoOverlap input.workspace.view view)
          (by simp)
        exact ⟨valid, not_not.mp same,
          (no_overlap_iff _ _ rfl (view_bytes_ok view valid).1).mp apart⟩
  intro view listed
  unfold LayerInput.traced at listed
  cases given : input.trace with
  | none =>
    rw [given] at listed
    cases listed
  | some trace =>
    rw [given] at listed traced
    have checks := first_failure_ok _ traced
    simp only [List.mem_cons, List.not_mem_nil, or_false] at listed
    rcases listed with rfl | rfl
    · exact buffer _ (checks _ (by simp))
    · exact buffer _ (checks _ (by simp))

theorem separate : LayerSeparate input := by
  have each := first_failure_ok _ passed
  have apart := first_failure_ok _ (each (separationCheck input.weights input.hidden input.cache
    input.workspace) (by simp))
  have shaped := shaped passed
  have hidden := (view_bytes_ok _ shaped.hiddenValid).1
  have key := (view_bytes_ok _ shaped.keyValid).1
  have value := (view_bytes_ok _ shaped.valueValid).1
  constructor
  case hiddenKey => exact (no_overlap_iff _ _ hidden key).mp (apart _ (by simp))
  case hiddenValue => exact (no_overlap_iff _ _ hidden value).mp (apart _ (by simp))
  case hiddenWorkspace => exact (no_overlap_iff _ _ hidden rfl).mp (apart _ (by simp))
  case keyValue => exact (no_overlap_iff _ _ key value).mp (apart _ (by simp))
  case keyWorkspace => exact (no_overlap_iff _ _ key rfl).mp (apart _ (by simp))
  case valueWorkspace => exact (no_overlap_iff _ _ value rfl).mp (apart _ (by simp))
  case weights =>
    intro weight listed
    have single := (view_bytes_ok _ (weight_valid passed weight listed)).1
    have against : ∀ status ∈ [validateNoOverlap weight input.hidden,
        validateNoOverlap weight input.cache.key, validateNoOverlap weight input.cache.value,
        validateNoOverlap weight input.workspace.view], status.isOk = true := fun status mine =>
      apart status (List.mem_append_right _ (List.mem_flatMap.mpr ⟨weight, listed, mine⟩))
    exact ⟨(no_overlap_iff _ _ single hidden).mp (against _ (by simp)),
      (no_overlap_iff _ _ single key).mp (against _ (by simp)),
      (no_overlap_iff _ _ single value).mp (against _ (by simp)),
      (no_overlap_iff _ _ single rfl).mp (against _ (by simp))⟩
  case traces => exact traced_ok passed

end LayerInput

end

/-! ## Slices of the workspace -/

/-- So many floats from this address on are floats of the workspace. -/
structure InWorkspace (workspace : CpuWorkspace) (data count : Nat) : Prop where
  starts : workspace.data ≤ data
  ends : data + count ≤ workspace.data + workspace.capacity.toNat

theorem workspace_elements (workspace : CpuWorkspace) :
    workspace.view.shape.elements = workspace.capacity.toNat := by
  rw [CpuWorkspace.view, elements_make _ _ (by simp)]
  simp

theorem InWorkspace.within {workspace : CpuWorkspace} {data count : Nat}
    (slice : InWorkspace workspace data count) (address : Nat)
    (inside : Within data count address) :
    Covers workspace.view address := by
  obtain ⟨starts, ends⟩ := slice
  unfold Covers
  rw [workspace_elements, show workspace.view.data = workspace.data from rfl]
  unfold Within at inside ⊢
  omega

/-- A slice of a workspace that ends within memory does so too. -/
theorem InWorkspace.addressable {workspace : CpuWorkspace} {data : Nat} {extents : List Nat}
    (slice : InWorkspace workspace data extents.prod)
    (ends : ∃ range, memoryRange workspace.view = .ok range) (short : extents.length ≤ 6)
    (positive : ∀ extent ∈ extents, 0 < extent) : Addressable data extents := by
  obtain ⟨range, computed⟩ := ends
  have some : 0 < extents.prod := List.prod_pos positive
  have elements := workspace_elements workspace
  obtain ⟨starts, ends⟩ := slice
  have fits := memory_range_fits workspace.view range rfl computed (by omega)
  have nonnull := memory_range_ok workspace.view range rfl computed
  rw [if_neg (by omega)] at nonnull
  have begins : workspace.view.data = workspace.data := rfl
  constructor
  case short => exact short
  case positive => exact positive
  case nonnull => omega
  case fits => omega

/-- What is separate from the workspace is separate from its slices. -/
theorem Separate.slice {view : FloatView} {workspace : CpuWorkspace} {data : Nat}
    {extents : List Nat} (separate : Separate view workspace.view)
    (slice : InWorkspace workspace data extents.prod) (addressable : Addressable data extents) :
    Separate view (sliceView data extents) := by
  constructor
  case leftEnds => exact separate.leftEnds
  case rightEnds => exact ⟨_, addressable.range⟩
  case apart =>
    rintro ⟨address, inView, inSlice⟩
    unfold Covers at inSlice
    rw [addressable.elements] at inSlice
    exact separate.apart ⟨address, inView, slice.within address inSlice⟩

theorem Addressable.separate {left right : Nat} {leftExtents rightExtents : List Nat}
    (leftSlice : Addressable left leftExtents) (rightSlice : Addressable right rightExtents)
    (apart : Apart left leftExtents.prod right rightExtents.prod) :
    Separate (sliceView left leftExtents) (sliceView right rightExtents) := by
  constructor
  case leftEnds => exact ⟨_, leftSlice.range⟩
  case rightEnds => exact ⟨_, rightSlice.range⟩
  case apart =>
    rintro ⟨address, inLeft, inRight⟩
    unfold Covers at inLeft inRight
    rw [leftSlice.elements] at inLeft
    rw [rightSlice.elements] at inRight
    exact Apart.outside _ _ _ _ address apart inLeft inRight

/-- Where the slices of both phases lie. -/
structure LayerSliced {F : Type} (input : LayerInput F) : Prop where
  normalized : InWorkspace input.workspace input.slices.normalized (input.rows * input.hiddenSize)
  query : InWorkspace input.workspace input.slices.query (input.rows * input.hiddenSize)
  key : InWorkspace input.workspace input.slices.key (input.rows * input.kvWidth)
  value : InWorkspace input.workspace input.slices.value (input.rows * input.kvWidth)
  attention : InWorkspace input.workspace input.slices.attention (input.rows * input.hiddenSize)
  logits : InWorkspace input.workspace input.slices.logits
    (input.rows * input.queryHeads * input.maximumContext)
  gate : InWorkspace input.workspace input.slices.gate (input.rows * input.intermediateSize)
  up : InWorkspace input.workspace input.slices.up (input.rows * input.intermediateSize)
  normalizedQuery : input.slices.query = input.slices.normalized + input.rows * input.hiddenSize
  queryKey : input.slices.key = input.slices.query + input.rows * input.hiddenSize
  keyValue : input.slices.value = input.slices.key + input.rows * input.kvWidth
  valueAttention : input.slices.attention = input.slices.value + input.rows * input.kvWidth
  attentionLogits : input.slices.logits = input.slices.attention + input.rows * input.hiddenSize
  normalizedGate : input.slices.gate = input.slices.normalized + input.rows * input.hiddenSize
  gateUp : input.slices.up = input.slices.gate + input.rows * input.intermediateSize

/-- Each phase takes its slices one behind the other, and they all fit. -/
theorem layer_sliced {F : Type} (input : LayerInput F) (sized : LayerSized input) :
    LayerSliced input := by
  obtain ⟨attentionPhase, mlpPhase⟩ := sized
  have starts : input.slices.normalized = input.workspace.data := rfl
  have normalizedQuery : input.slices.query =
      input.slices.normalized + input.rows * input.hiddenSize := rfl
  have queryKey : input.slices.key = input.slices.query + input.rows * input.hiddenSize := rfl
  have keyValue : input.slices.value = input.slices.key + input.rows * input.kvWidth := rfl
  have valueAttention : input.slices.attention =
      input.slices.value + input.rows * input.kvWidth := rfl
  have attentionLogits : input.slices.logits =
      input.slices.attention + input.rows * input.hiddenSize := rfl
  have normalizedGate : input.slices.gate =
      input.slices.normalized + input.rows * input.hiddenSize := rfl
  have gateUp : input.slices.up = input.slices.gate + input.rows * input.intermediateSize := rfl
  constructor
  case normalized => exact ⟨by omega, by omega⟩
  case query => exact ⟨by omega, by omega⟩
  case key => exact ⟨by omega, by omega⟩
  case value => exact ⟨by omega, by omega⟩
  case attention => exact ⟨by omega, by omega⟩
  case logits => exact ⟨by omega, by omega⟩
  case gate => exact ⟨by omega, by omega⟩
  case up => exact ⟨by omega, by omega⟩
  all_goals assumption

end MarketForge.Cpu
