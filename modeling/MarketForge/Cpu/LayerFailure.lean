import MarketForge.Cpu.Attention
import MarketForge.Cpu.Binary32
import MarketForge.Cpu.LayerInput
import MarketForge.Cpu.OperatorFrames

/-!
# Failed calls

An operator that fails has written nothing. The decoder layer writes to its workspace only until
the keys and values join the caches; every call behind that point passes its check, so a layer call
that fails has left the hidden rows, the caches and the trace alone.
-/
namespace MarketForge.Cpu

open Library FloatOps

section

variable {F : Type}

/-! ## Sequences of calls -/

/-- A sequence of calls stops at the first part that fails. -/
theorem run_all_split (calls others : List (Operation F)) (memory : FlatMemory F) :
    runAll (calls ++ others) memory =
      if (runAll calls memory).1.isOk = true then runAll others (runAll calls memory).2
      else runAll calls memory := by
  induction calls generalizing memory with
  | nil => rfl
  | cons operation calls ih =>
    have first : ∀ rest, runAll (operation :: rest) memory =
        if (operation memory).1.isOk = true then runAll rest (operation memory).2
        else operation memory := fun rest => rfl
    by_cases passed : (operation memory).1.isOk = true
    · have reached : runAll (operation :: calls) memory = runAll calls (operation memory).2 := by
        rw [first, if_pos passed]
      rw [List.cons_append, first, if_pos passed, reached]
      exact ih _
    · have stopped : runAll (operation :: calls) memory = operation memory := by
        rw [first, if_neg passed]
      rw [List.cons_append, first, if_neg passed, stopped, if_neg passed]

theorem run_all_succeeds (calls : List (Operation F)) (memory : FlatMemory F)
    (each : ∀ operation ∈ calls, ∀ memory, (operation memory).1.isOk = true) :
    (runAll calls memory).1.isOk = true := by
  induction calls generalizing memory with
  | nil => rfl
  | cons operation others ih =>
    rw [runAll]
    dsimp only
    rw [each operation List.mem_cons_self memory]
    exact ih _ fun operation listed => each operation (List.mem_cons_of_mem _ listed)

/-- Nothing is written by a call that fails. -/
def Atomic (operation : Operation F) : Prop :=
  ∀ memory, (operation memory).1.isOk = false → (operation memory).2 = memory

theorem guarded_atomic (check : Status) (effect : FlatMemory F → FlatMemory F)
    (memory : FlatMemory F) (failed : (guarded check effect memory).1.isOk = false) :
    (guarded check effect memory).2 = memory := by
  by_cases passed : check.isOk = true
  · rw [guarded_succeeds check effect memory passed] at failed
    cases failed
  · rw [guarded, if_neg passed]

/-- Calls up to one that writes nothing when it fails, and calls behind it that do not fail: a
failure has written where the first calls write. -/
theorem run_all_failed (written : Nat → Prop) (calls later : List (Operation F))
    (middle : Operation F) (memory : FlatMemory F)
    (confined : ∀ operation ∈ calls, Confined written operation) (atomic : Atomic middle)
    (succeed : ∀ operation ∈ later, ∀ memory, (operation memory).1.isOk = true)
    (failed : (runAll (calls ++ middle :: later) memory).1.isOk = false) :
    SameExcept written memory (runAll (calls ++ middle :: later) memory).2 := by
  have first := run_all_confined written calls confined memory
  rw [run_all_split] at failed ⊢
  by_cases ran : (runAll calls memory).1.isOk = true
  · rw [if_pos ran] at failed ⊢
    have step : runAll (middle :: later) (runAll calls memory).2 =
        if (middle (runAll calls memory).2).1.isOk = true
        then runAll later (middle (runAll calls memory).2).2
        else middle (runAll calls memory).2 := rfl
    rw [step] at failed ⊢
    by_cases written : (middle (runAll calls memory).2).1.isOk = true
    · rw [if_pos written, run_all_succeeds later _ succeed] at failed
      cases failed
    · rw [if_neg written, atomic _ (Bool.eq_false_iff.mpr written)]
      exact first
  · rw [if_neg ran]
    exact first

/-! ## Checks that pass -/

theorem slice_rank (data : Nat) (extents : List Nat) :
    (sliceView data extents).shape.rank = UInt8.ofNat extents.length := by
  simp [makeF32View, Shape.ofExtents]

/-- A product of slices with a weight of these extents passes its check. -/
theorem linear_check_passes (input output rows inputWidth outputWidth : Nat) (weight : FloatView)
    (inputSlice : Addressable input [rows, inputWidth])
    (outputSlice : Addressable output [rows, outputWidth])
    (shape : WeightShaped weight [outputWidth, inputWidth])
    (inputApart : Separate (sliceView input [rows, inputWidth])
      (sliceView output [rows, outputWidth]))
    (weightApart : Separate weight (sliceView output [rows, outputWidth])) :
    (linearCheck (sliceView input [rows, inputWidth]) weight
      (sliceView output [rows, outputWidth])).isOk = true := by
  have inputRows := inputSlice.extent 0 (by simp)
  have inputColumns := inputSlice.extent 1 (by simp)
  have outputRows := outputSlice.extent 0 (by simp)
  have outputColumns := outputSlice.extent 1 (by simp)
  have weightRows := shape.extents 0 (by simp)
  have weightColumns := shape.extents 1 (by simp)
  have someRows := inputSlice.positive rows (by simp)
  have someInput := inputSlice.positive inputWidth (by simp)
  have someOutput := outputSlice.positive outputWidth (by simp)
  simp only [List.getD_cons_zero, List.getD_cons_succ] at inputRows inputColumns outputRows
  simp only [List.getD_cons_zero, List.getD_cons_succ] at outputColumns weightRows weightColumns
  rw [linearCheck, if_neg, if_neg]
  · apply first_failure_all
    simp only [List.forall_mem_cons, List.not_mem_nil, false_implies, implies_true, and_true]
    constructor
    · exact (no_overlap_iff _ _ rfl rfl).mpr inputApart
    · exact (no_overlap_iff _ _ (view_bytes_ok weight shape.valid).1 rfl).mpr weightApart
  · rw [inputRows, inputColumns, outputRows, outputColumns, weightRows, weightColumns, slice_rank,
      slice_rank, shape.rank]
    simp [someRows.ne', someInput.ne', someOutput.ne']
  · rw [Bool.not_eq_false]
    apply first_failure_all
    simp [inputSlice.valid, outputSlice.valid, shape.valid]

/-- The norm of valid rows into a slice of their shape passes its check. -/
theorem norm_check_passes [FloatOps F] (input weight : FloatView) (epsilon : F) (output : Nat)
    (extents : List Nat) (rows hidden : Nat) (finite : isFinite epsilon = true)
    (positive : le epsilon (zero : F) = false) (inputValid : (validateF32Host input).isOk = true)
    (shape : WeightShaped weight [hidden]) (slice : Addressable output extents)
    (sameShape : (sliceView output extents).shape = input.shape)
    (ranked : input.shape.rank ≠ 0)
    (width : extent input (input.shape.rank.toNat - 1) = hidden)
    (elements : input.shape.elements = rows * hidden) (someHidden : 0 < hidden)
    (inputApart : Separate input (sliceView output extents))
    (weightApart : Separate weight (sliceView output extents)) :
    (rmsNormCheck input weight epsilon (sliceView output extents)).isOk = true := by
  have weightSize : extent weight 0 = hidden := by simpa using shape.extents 0 (by simp)
  have inputSingle := (view_bytes_ok input inputValid).1
  obtain ⟨count, counted, exact⟩ : ∃ count, checkedNumel input.shape = .ok count ∧
      count.toNat = rows * hidden := by
    obtain ⟨_, bytes, computed, _⟩ := view_bytes_ok input inputValid
    unfold checkedNbytes at computed
    cases counted : checkedNumel input.shape with
    | error status => rw [counted] at computed; cases computed
    | ok count => exact ⟨count, rfl, by rw [(checked_numel_ok _ _ counted).1, elements]⟩
  rw [rmsNormCheck]
  dsimp only
  rw [if_neg, if_neg, if_neg, counted]
  · dsimp only
    rw [if_neg]
    · rfl
    · rw [weightSize, exact, Nat.mul_mod_left]
      simp [someHidden.ne']
  · rw [Bool.not_eq_false]
    apply first_failure_all
    simp only [List.forall_mem_cons, List.not_mem_nil, false_implies, implies_true, and_true]
    constructor
    · obtain ⟨inputRange, inputComputed⟩ := inputApart.leftEnds
      obtain ⟨outputRange, outputComputed⟩ := inputApart.rightEnds
      exact (output_alias_iff input _ true inputRange outputRange inputSingle rfl inputComputed
        outputComputed).mpr fun shared => absurd shared inputApart.apart
    · exact (no_overlap_iff _ _ (view_bytes_ok weight shape.valid).1 rfl).mpr weightApart
  · rw [finite, positive, sameShape, width, weightSize, shape.rank]
    simp [ranked]
  · rw [Bool.not_eq_false]
    apply first_failure_all
    simp [inputValid, slice.valid, shape.valid]

end

/-! ## The calls of the layer -/

namespace LayerInput

section

variable {F : Type} [FloatOps F] (input : LayerInput F)

def normalized : FloatView :=
  sliceView input.slices.normalized [input.rows, input.hiddenSize]

def normalizedHidden : FloatView :=
  sliceView input.slices.normalized [input.batch, input.tokens, input.hiddenSize]

def queryView : FloatView :=
  sliceView input.slices.query [input.batch, input.tokens, input.queryHeads, input.headDim]

def keyView : FloatView :=
  sliceView input.slices.key [input.batch, input.tokens, input.kvHeads, input.headDim]

def valueView : FloatView :=
  sliceView input.slices.value [input.batch, input.tokens, input.kvHeads, input.headDim]

/-- The calls before the caches change. -/
def projectCalls : List (Operation F) :=
  [rmsNormF32 input.hidden input.weights.inputNorm input.spec.rmsNormEpsilon input.normalizedHidden,
    linearF32 input.normalized input.weights.attention.query
      (sliceView input.slices.query [input.rows, input.hiddenSize]),
    linearF32 input.normalized input.weights.attention.key
      (sliceView input.slices.key [input.rows, input.kvWidth]),
    linearF32 input.normalized input.weights.attention.value
      (sliceView input.slices.value [input.rows, input.kvWidth]),
    applyRopeF32 input.queryView input.keyView input.positions input.spec.rope]

def appendCall : Operation F :=
  appendKvF32 input.keyView input.valueView input.positions input.cache

/-- The calls behind the change of the caches. -/
def laterCalls : List (Operation F) :=
  [attentionImpl input.queryView input.cache.key input.cache.value input.contextLengths
      (sliceView input.slices.attention
        [input.batch, input.tokens, input.queryHeads, input.headDim]) input.slices.logits,
    linearF32 (sliceView input.slices.attention [input.rows, input.hiddenSize])
      input.weights.attention.output input.normalized,
    always (addRows input.hidden.data input.slices.normalized (input.rows * input.hiddenSize))]
  ++ traceCopy (input.trace.map DecoderLayerTrace.afterAttention) input.hidden.data
    (input.rows * input.hiddenSize)
  ++ [rmsNormF32 input.hidden input.weights.postAttentionNorm input.spec.rmsNormEpsilon
      input.normalizedHidden,
    linearF32 input.normalized input.weights.mlp.gate
      (sliceView input.slices.gate [input.rows, input.intermediateSize]),
    linearF32 input.normalized input.weights.mlp.up
      (sliceView input.slices.up [input.rows, input.intermediateSize]),
    always (gateRows input.slices.gate input.slices.up (input.rows * input.intermediateSize)),
    linearF32 (sliceView input.slices.gate [input.rows, input.intermediateSize])
      input.weights.mlp.down input.normalized,
    always (addRows input.hidden.data input.slices.normalized (input.rows * input.hiddenSize))]
  ++ traceCopy (input.trace.map DecoderLayerTrace.afterMlp) input.hidden.data
    (input.rows * input.hiddenSize)

theorem run_eq (memory : FlatMemory F) :
    input.run memory =
      if input.validation.isOk = false then (input.validation, memory)
      else runAll (input.projectCalls ++ input.appendCall :: input.laterCalls) memory := by
  unfold run smollm2DecoderLayerF32
  rfl

variable {input}

/-! ## The views of the slices -/

variable (input) in
/-- The slices with the extents that the calls give them. -/
structure LayerReady : Prop where
  normalized : Addressable input.slices.normalized [input.rows, input.hiddenSize]
  normalizedHidden :
    Addressable input.slices.normalized [input.batch, input.tokens, input.hiddenSize]
  query : Addressable input.slices.query [input.rows, input.hiddenSize]
  queryHeads : Addressable input.slices.query
    [input.batch, input.tokens, input.queryHeads, input.headDim]
  key : Addressable input.slices.key [input.rows, input.kvWidth]
  keyHeads : Addressable input.slices.key
    [input.batch, input.tokens, input.kvHeads, input.headDim]
  value : Addressable input.slices.value [input.rows, input.kvWidth]
  valueHeads : Addressable input.slices.value
    [input.batch, input.tokens, input.kvHeads, input.headDim]
  attention : Addressable input.slices.attention [input.rows, input.hiddenSize]
  attentionHeads : Addressable input.slices.attention
    [input.batch, input.tokens, input.queryHeads, input.headDim]
  gate : Addressable input.slices.gate [input.rows, input.intermediateSize]
  up : Addressable input.slices.up [input.rows, input.intermediateSize]

theorem heads_product (shaped : LayerShaped input) :
    input.batch * (input.tokens * (input.queryHeads * input.headDim)) =
      input.rows * input.hiddenSize := by
  rw [shaped.heads, ← Nat.mul_assoc]
  rfl

omit [FloatOps F] in
theorem kv_product : input.batch * (input.tokens * (input.kvHeads * input.headDim)) =
    input.rows * input.kvWidth := by
  rw [← Nat.mul_assoc]
  rfl

theorem layer_ready (passed : input.validation.isOk = true) : LayerReady input := by
  have shaped := shaped passed
  have sliced := layer_sliced input (sized passed)
  have ends := (separate passed).hiddenWorkspace.rightEnds
  have someRows : 0 < input.rows := Nat.mul_pos shaped.someBatch shaped.someTokens
  have someWidth : 0 < input.kvWidth := Nat.mul_pos shaped.someKvHeads shaped.someHeadDim
  have hidden := heads_product shaped
  have width := @kv_product F input
  have matrix : ∀ data columns, InWorkspace input.workspace data (input.rows * columns) →
      0 < columns → Addressable data [input.rows, columns] := fun data columns inside some =>
    InWorkspace.addressable (by simpa using inside) ends (by simp) (by simp [someRows, some])
  -- a tensor of heads covers the floats of the matrix it is a view of
  have tensor : ∀ data heads, 0 < heads → InWorkspace input.workspace data
      (input.batch * (input.tokens * (heads * input.headDim))) →
      Addressable data [input.batch, input.tokens, heads, input.headDim] :=
    fun data heads some inside =>
      InWorkspace.addressable (by simpa using inside) ends (by simp)
        (by simp [shaped.someBatch, shaped.someTokens, some, shaped.someHeadDim])
  constructor
  case normalized => exact matrix _ _ sliced.normalized shaped.someHidden
  case normalizedHidden =>
    apply InWorkspace.addressable _ ends (by simp)
      (by simp [shaped.someBatch, shaped.someTokens, shaped.someHidden])
    simpa [← Nat.mul_assoc, rows] using sliced.normalized
  case query => exact matrix _ _ sliced.query shaped.someHidden
  case queryHeads => exact tensor _ _ shaped.someQueryHeads (by rw [hidden]; exact sliced.query)
  case key => exact matrix _ _ sliced.key someWidth
  case keyHeads => exact tensor _ _ shaped.someKvHeads (by rw [width]; exact sliced.key)
  case value => exact matrix _ _ sliced.value someWidth
  case valueHeads => exact tensor _ _ shaped.someKvHeads (by rw [width]; exact sliced.value)
  case attention => exact matrix _ _ sliced.attention shaped.someHidden
  case attentionHeads =>
    exact tensor _ _ shaped.someQueryHeads (by rw [hidden]; exact sliced.attention)
  case gate => exact matrix _ _ sliced.gate shaped.someIntermediate
  case up => exact matrix _ _ sliced.up shaped.someIntermediate

theorem hidden_elements (shaped : LayerShaped input) :
    input.hidden.shape.elements = input.rows * input.hiddenSize := by
  rw [elements_extents input.hidden (by simp [shaped.hiddenRank]), shaped.hiddenRank]
  simp [List.range_succ, shaped.hiddenWidth, rows, batch, tokens, Nat.mul_assoc]

/-- The hidden rows have the shape of the slice that their norm goes to. -/
theorem hidden_shape (shaped : LayerShaped input) :
    input.normalizedHidden.shape = input.hidden.shape := by
  rw [valid_shape input.hidden shaped.hiddenValid input.slices.normalized, shaped.hiddenRank]
  simp [List.range_succ, shaped.hiddenWidth, normalizedHidden, batch, tokens]

/-! ## Before the caches change -/

theorem norm_call_confined (shaped : LayerShaped input) (sliced : LayerSliced input)
    (weight : FloatView) (shape : WeightShaped weight [input.hiddenSize]) :
    Confined (Covers input.workspace.view)
      (rmsNormF32 input.hidden weight input.spec.rmsNormEpsilon input.normalizedHidden) := by
  have width : extent weight 0 = input.hiddenSize := by simpa using shape.extents 0 (by simp)
  apply guarded_confined
  intro memory
  rw [width, element_count_ok input.hidden shaped.hiddenValid, hidden_elements shaped,
    Nat.mul_div_cancel _ shaped.someHidden]
  apply SameExcept.mono _ _ _ _ _ (rms_norm_rows_frame _ _ _ _ _ _ memory)
  exact sliced.normalized.within

theorem linear_call_confined (inputData output rows inputWidth outputWidth : Nat)
    (weight : FloatView) (shape : WeightShaped weight [outputWidth, inputWidth])
    (inputSlice : Addressable inputData [rows, inputWidth])
    (slice : InWorkspace input.workspace output (rows * outputWidth)) :
    Confined (Covers input.workspace.view) (linearF32 (F := F)
      (sliceView inputData [rows, inputWidth]) weight (sliceView output [rows, outputWidth])) := by
  have count : extent (sliceView inputData [rows, inputWidth]) 0 = rows := by
    simpa using inputSlice.extent 0 (by simp)
  have width : extent weight 0 = outputWidth := by simpa using shape.extents 0 (by simp)
  apply guarded_confined
  intro memory
  rw [count, width]
  apply SameExcept.mono _ _ _ _ _ (linear_rows_frame _ _ _ _ _ _ memory)
  exact slice.within

/-- The calls before the change of the caches write to the workspace. -/
theorem project_calls_confined (passed : input.validation.isOk = true) :
    ∀ operation ∈ input.projectCalls, Confined (Covers input.workspace.view) operation := by
  have shaped := shaped passed
  have weighted := weighted passed
  have ready := layer_ready passed
  have sliced := layer_sliced input (sized passed)
  rw [projectCalls]
  simp only [List.forall_mem_cons, List.not_mem_nil, false_implies, implies_true, and_true]
  refine ⟨?norm, ?query, ?key, ?value, ?rope⟩
  case norm => exact norm_call_confined shaped sliced _ weighted.inputNorm
  case query =>
    exact linear_call_confined _ _ _ _ _ _ weighted.query ready.normalized sliced.query
  case key => exact linear_call_confined _ _ _ _ _ _ weighted.key ready.normalized sliced.key
  case value => exact linear_call_confined _ _ _ _ _ _ weighted.value ready.normalized sliced.value
  case rope =>
    have extents : ∀ axis, axis < 4 → extent input.queryView axis =
        [input.batch, input.tokens, input.queryHeads, input.headDim].getD axis 0 :=
      fun axis inside => ready.queryHeads.extent axis (by simpa using inside)
    have keyHeads : extent input.keyView 2 = input.kvHeads := ready.keyHeads.extent 2 (by simp)
    apply guarded_confined
    intro memory
    rw [extents 0 (by omega), extents 1 (by omega), extents 2 (by omega), extents 3 (by omega),
      keyHeads]
    apply SameExcept.mono _ _ _ _ _ (rope_rows_frame _ _ _ _ _ _ _ _ _ memory)
    rintro address (inQuery | inKey)
    · apply sliced.query.within
      rwa [← heads_product shaped, ← Nat.mul_assoc]
    · apply sliced.key.within
      rwa [← kv_product, ← Nat.mul_assoc]

/-! ## Behind the change -/

theorem linear_call_succeeds (inputData output rows inputWidth outputWidth : Nat)
    (weight : FloatView) (shape : WeightShaped weight [outputWidth, inputWidth])
    (inputSlice : Addressable inputData [rows, inputWidth])
    (outputSlice : Addressable output [rows, outputWidth])
    (apart : Apart inputData (rows * inputWidth) output (rows * outputWidth))
    (weightApart : Separate weight input.workspace.view)
    (slice : InWorkspace input.workspace output (rows * outputWidth)) (memory : FlatMemory F) :
    (linearF32 (sliceView inputData [rows, inputWidth]) weight
      (sliceView output [rows, outputWidth]) memory).1.isOk = true := by
  rw [linearF32, guarded_succeeds]
  · rfl
  · exact linear_check_passes inputData output rows inputWidth outputWidth weight inputSlice
      outputSlice shape (inputSlice.separate outputSlice (by simpa using apart))
      (weightApart.slice (by simpa using slice) outputSlice)

theorem norm_call_succeeds (shaped : LayerShaped input) (ready : LayerReady input)
    (sliced : LayerSliced input) (separate : LayerSeparate input) (weight : FloatView)
    (listed : weight ∈ input.weights.all) (shape : WeightShaped weight [input.hiddenSize])
    (memory : FlatMemory F) :
    (rmsNormF32 input.hidden weight input.spec.rmsNormEpsilon input.normalizedHidden
      memory).1.isOk = true := by
  have inside : InWorkspace input.workspace input.slices.normalized
      [input.batch, input.tokens, input.hiddenSize].prod := by
    simpa [← Nat.mul_assoc, rows] using sliced.normalized
  rw [rmsNormF32, guarded_succeeds]
  · rfl
  · apply norm_check_passes input.hidden weight _ _ _ input.rows input.hiddenSize
      shaped.epsilonFinite shaped.epsilonPositive shaped.hiddenValid shape ready.normalizedHidden
      (hidden_shape shaped)
    case ranked => simp [shaped.hiddenRank]
    case width =>
      rw [shaped.hiddenRank]
      exact shaped.hiddenWidth
    case elements => exact hidden_elements shaped
    case someHidden => exact shaped.someHidden
    case inputApart => exact separate.hiddenWorkspace.slice inside ready.normalizedHidden
    case weightApart =>
      exact (separate.weights weight listed).2.2.2.slice inside ready.normalizedHidden

/-- The calls behind the change of the caches pass their checks. -/
theorem later_calls_succeed (passed : input.validation.isOk = true) :
    ∀ operation ∈ input.laterCalls, ∀ memory, (operation memory).1.isOk = true := by
  have shaped := shaped passed
  have weighted := weighted passed
  have ready := layer_ready passed
  have sliced := layer_sliced input (sized passed)
  have separate := separate passed
  -- what the checks before the first call give: shapes, slices and separate buffers
  have weightApart : ∀ weight ∈ input.weights.all, Separate weight input.workspace.view :=
    fun weight listed => (separate.weights weight listed).2.2.2
  have traced : ∀ view source count, ∀ operation ∈ traceCopy (F := F) view source count,
      ∀ memory, (operation memory).1.isOk = true := by
    intro view source count operation listed memory
    cases view with
    | none => cases listed
    | some view =>
      obtain rfl := List.mem_singleton.mp listed
      rfl
  have places := sliced
  obtain ⟨normalized, _, _, _, attention, _, gate, up, normalizedQuery, queryKey, keyValue,
    valueAttention, _, normalizedGate, gateUp⟩ := places
  rw [laterCalls]
  simp only [List.forall_mem_append, List.forall_mem_cons, List.not_mem_nil, false_implies,
    implies_true, and_true]
  refine ⟨⟨⟨⟨?attention, ?output, ?sum⟩, ?afterAttention⟩, ?norm, ?gate, ?up, ?silu, ?down, ?total⟩,
    ?afterMlp⟩
  case attention => exact fun _ => rfl
  case output =>
    apply linear_call_succeeds _ _ _ _ _ _ weighted.output ready.attention ready.normalized _
      (weightApart _ (by simp [LayerWeights.all])) normalized
    unfold Apart
    omega
  case sum => exact fun _ => rfl
  case afterAttention => exact traced _ _ _
  case norm =>
    exact norm_call_succeeds shaped ready sliced separate _ (by simp [LayerWeights.all])
      weighted.postAttentionNorm
  case gate =>
    apply linear_call_succeeds _ _ _ _ _ _ weighted.gate ready.normalized ready.gate _
      (weightApart _ (by simp [LayerWeights.all])) gate
    unfold Apart
    omega
  case up =>
    apply linear_call_succeeds _ _ _ _ _ _ weighted.up ready.normalized ready.up _
      (weightApart _ (by simp [LayerWeights.all])) up
    unfold Apart
    omega
  case silu => exact fun _ => rfl
  case down =>
    apply linear_call_succeeds _ _ _ _ _ _ weighted.down ready.gate ready.normalized _
      (weightApart _ (by simp [LayerWeights.all])) normalized
    unfold Apart
    omega
  case total => exact fun _ => rfl
  case afterMlp => exact traced _ _ _

/-- A layer call that fails has written to its workspace only. -/
theorem failed_run_confined (memory : FlatMemory F) (failed : (input.run memory).1.isOk = false) :
    SameExcept (Covers input.workspace.view) memory (input.run memory).2 ∧
      (input.validation.isOk = false → (input.run memory).2 = memory) := by
  rw [run_eq] at failed ⊢
  by_cases invalid : input.validation.isOk = false
  · rw [if_pos invalid]
    exact ⟨SameExcept.refl _ memory, fun _ => rfl⟩
  · have passed := Bool.not_eq_false _ ▸ invalid
    rw [if_neg invalid] at failed ⊢
    have atomic : Atomic input.appendCall := by
      intro memory
      rw [appendCall, appendKvF32]
      exact guarded_atomic _ _ memory
    constructor
    · exact run_all_failed _ _ _ _ memory (project_calls_confined passed) atomic
        (later_calls_succeed passed) failed
    · exact fun contrary => absurd contrary invalid

end

end LayerInput

section

variable {F : Type} [FloatOps F]

theorem attention_f32_atomic (query keyCache valueCache : FloatView) (contextLengths : List UInt32)
    (output : FloatView) (workspace : CpuWorkspace) :
    Atomic (attentionF32 (F := F) query keyCache valueCache contextLengths output workspace) := by
  intro memory failed
  unfold attentionF32 at failed ⊢
  dsimp only at failed ⊢
  split
  next => rfl
  next passed =>
    rw [if_neg passed] at failed
    cases failed

/-- A failure leaves the outputs alone. A layer call that fails has changed the workspace only, so
the hidden rows, the caches and the buffers of the trace are what they were; an operator that fails
has changed nothing. -/
theorem failure_leaves_outputs :
    (∀ (input : LayerInput F) (memory : FlatMemory F), (input.run memory).1.isOk = false →
      SameExcept (Covers input.workspace.view) memory (input.run memory).2 ∧
      ∀ view ∈ [input.hidden, input.cache.key, input.cache.value] ++ input.traced,
        ∀ address, Covers view address → (input.run memory).2 address = memory address) ∧
    (∀ (input weight output : FloatView) (epsilon : F),
      Atomic (rmsNormF32 input weight epsilon output)) ∧
    (∀ input weight output : FloatView, Atomic (linearF32 (F := F) input weight output)) ∧
    (∀ (input output : FloatView) (validLengths : List UInt32),
      Atomic (softmaxF32 (F := F) input validLengths output)) ∧
    (∀ (query key : FloatView) (positions : List UInt32) (spec : RopeSpec F),
      Atomic (applyRopeF32 query key positions spec)) ∧
    (∀ (key value : FloatView) (positions : List UInt32) (cache : CpuKvView),
      Atomic (appendKvF32 (F := F) key value positions cache)) ∧
    (∀ (query keyCache valueCache output : FloatView) (contextLengths : List UInt32)
        (workspace : CpuWorkspace),
      Atomic
        (attentionF32 (F := F) query keyCache valueCache contextLengths output workspace)) := by
  refine ⟨?layer, ?norm, ?linear, ?softmax, ?rope, ?append, ?attention⟩
  case layer =>
    intro input memory failed
    obtain ⟨confined, untouched⟩ := LayerInput.failed_run_confined memory failed
    refine ⟨confined, fun view listed address inView => ?_⟩
    by_cases invalid : input.validation.isOk = false
    · rw [untouched invalid]
    · have passed := Bool.not_eq_false _ ▸ invalid
      have separate := LayerInput.separate passed
      -- no float of the tensors belongs to the workspace
      have apart : ¬Overlap view input.workspace.view := by
        simp only [List.mem_append, List.mem_cons, List.not_mem_nil, or_false] at listed
        rcases listed with (rfl | rfl | rfl) | traced
        · exact separate.hiddenWorkspace.apart
        · exact separate.keyWorkspace.apart
        · exact separate.valueWorkspace.apart
        · rintro ⟨shared, inTrace, inWorkspace⟩
          exact (separate.traces view traced).2.2.apart ⟨shared, inWorkspace, inTrace⟩
      exact confined address fun inWorkspace => apart ⟨address, inView, inWorkspace⟩
  case norm => exact fun _ _ _ _ => guarded_atomic _ _
  case linear => exact fun _ _ _ => guarded_atomic _ _
  case softmax => exact fun _ _ _ memory => guarded_atomic _ _ memory
  case rope => exact fun _ _ _ _ => guarded_atomic _ _
  case append => exact fun _ _ _ _ => guarded_atomic _ _
  case attention =>
    intro query keyCache valueCache output contextLengths workspace
    exact attention_f32_atomic query keyCache valueCache contextLengths output workspace

end

/-- A layer of one head of one dimension, which cannot turn. -/
def oddHead : LayerInput BinaryFloat.Value :=
  let tensor := fun (data : Nat) (extents : List UInt64) => makeF32View data extents
  { weights :=
      { inputNorm := tensor 4 [1]
        attention :=
          { query := tensor 5 [1, 1], key := tensor 6 [1, 1], value := tensor 7 [1, 1]
            output := tensor 8 [1, 1] }
        postAttentionNorm := tensor 9 [1]
        mlp := { gate := tensor 10 [1, 1], up := tensor 11 [1, 1], down := tensor 12 [1, 1] } }
    spec :=
      { hiddenSize := 1, intermediateSize := 1, queryHeads := 1, kvHeads := 1, headDim := 1
        rmsNormEpsilon := .finite 1, rope := ⟨.finite 10000, 8⟩ }
    hidden := tensor 1 [1, 1, 1]
    cache := { key := tensor 2 [1, 1, 1, 1], value := tensor 3 [1, 1, 1, 1] }
    positions := [0]
    contextLengths := [1]
    workspace := ⟨13, 6⟩
    trace := none }

/-- The call passes the validation and fails when the heads turn: the norm is in the workspace, and
the hidden row is what it was. -/
theorem failure_leaves_outputs_odd_head :
    let memory : FlatMemory BinaryFloat.Value := fun _ => .finite 1
    let run := @LayerInput.run _ plainFloats oddHead memory
    @LayerInput.validation _ plainFloats oddHead = .success ∧
      run.2 13 ≠ memory 13 ∧ run.2 1 = memory 1 := by
  intro memory run
  have failed : run.1.isOk = false := by decide +kernel
  have kept := ((@failure_leaves_outputs _ plainFloats).1 oddHead memory failed).2 oddHead.hidden
    (by simp) 1 (by unfold Covers Within; decide)
  exact ⟨by decide +kernel, by decide +kernel, kept⟩

end MarketForge.Cpu
