import MarketForge.Cpu.CallEffects

/-!
# Calls of the decoder layer

A layer call on the rows of one sequence, as numbers: where its tensors lie, and the loops it runs
on them. A call that succeeds has passed its checks and has run four phases: it makes the queries,
keys and values of the rows, appends keys and values to the caches, adds what the rows attend to,
and adds the output of the MLP.
-/
namespace MarketForge.Cpu

open Library FloatOps

section

variable {F : Type}

/-- A call of the layer on the rows of one sequence: where its tensors lie, how many rows there are
and how many positions came before them. -/
structure LayerCall (F : Type) where
  spec : DecoderLayerSpec F
  weights : LayerWeights Nat
  hidden : Nat
  keyCache : Nat
  valueCache : Nat
  maximumContext : UInt32
  workspace : CpuWorkspace
  context : Nat
  tokens : Nat

namespace LayerCall

variable (call : LayerCall F)

def hiddenSize : Nat := call.spec.hiddenSize.toNat

def kvWidth : Nat := call.spec.kvHeads.toNat * call.spec.headDim.toNat

def intermediateSize : Nat := call.spec.intermediateSize.toNat

def slices : LayerSlices := layerSlices call.spec call.workspace call.tokens

def hiddenView : FloatView :=
  makeF32View call.hidden [1, UInt64.ofNat call.tokens, call.spec.hiddenSize.toUInt64]

def cacheView : CpuKvView :=
  let shape := [1, call.maximumContext.toUInt64, call.spec.kvHeads.toUInt64,
    call.spec.headDim.toUInt64]
  { key := makeF32View call.keyCache shape, value := makeF32View call.valueCache shape }

/-- What the checks of a successful call establish. -/
structure Checked : Prop where
  positive : 0 < call.hiddenSize
  groups : call.spec.queryHeads.toNat % call.spec.kvHeads.toNat = 0
  heads : call.spec.queryHeads.toNat * call.spec.headDim.toNat = call.hiddenSize
  attentionPhase : 3 * (call.tokens * call.hiddenSize) + 2 * (call.tokens * call.kvWidth)
    + call.tokens * call.spec.queryHeads.toNat * call.maximumContext.toNat
      ≤ call.workspace.capacity.toNat
  mlpPhase : 2 * (call.tokens * call.intermediateSize) + call.tokens * call.hiddenSize
    ≤ call.workspace.capacity.toNat
  inputNorm : IsVector call.weights.inputNorm call.hiddenSize
  query : IsMatrix call.weights.attention.query call.hiddenSize call.hiddenSize
  key : IsMatrix call.weights.attention.key call.kvWidth call.hiddenSize
  value : IsMatrix call.weights.attention.value call.kvWidth call.hiddenSize
  output : IsMatrix call.weights.attention.output call.hiddenSize call.hiddenSize
  postAttentionNorm : IsVector call.weights.postAttentionNorm call.hiddenSize
  gate : IsMatrix call.weights.mlp.gate call.intermediateSize call.hiddenSize
  up : IsMatrix call.weights.mlp.up call.intermediateSize call.hiddenSize
  down : IsMatrix call.weights.mlp.down call.hiddenSize call.intermediateSize

theorem hidden_extents (small : call.tokens < 2 ^ 32) :
    extent call.hiddenView 0 = 1 ∧ extent call.hiddenView 1 = call.tokens ∧
      extent call.hiddenView 2 = call.hiddenSize := by
  have tokens : (UInt64.ofNat call.tokens).toNat = call.tokens := by
    rw [UInt64.toNat_ofNat', Nat.mod_eq_of_lt (by omega)]
  refine ⟨?_, ?_, ?_⟩
  · exact extent_make _ _ 0 (by decide)
  · exact (extent_make _ _ 1 (by decide)).trans tokens
  · exact (extent_make _ _ 2 (by decide)).trans (UInt32.toNat_toUInt64 _)

theorem hidden_elements (small : call.tokens < 2 ^ 32) :
    call.hiddenView.shape.elements = call.tokens * call.hiddenSize := by
  have tokens : (UInt64.ofNat call.tokens).toNat = call.tokens := by
    rw [UInt64.toNat_ofNat', Nat.mod_eq_of_lt (by omega)]
  rw [hiddenView, elements_make _ _ (by simp)]
  simp [hiddenSize, tokens]

theorem cache_extents :
    extent call.cacheView.key 1 = call.maximumContext.toNat ∧
      extent call.cacheView.key 2 = call.spec.kvHeads.toNat := by
  refine ⟨?_, ?_⟩
  · exact (extent_make _ _ 1 (by decide)).trans (UInt32.toNat_toUInt64 _)
  · exact (extent_make _ _ 2 (by decide)).trans (UInt32.toNat_toUInt64 _)

theorem kv_width_exact :
    (call.spec.kvHeads.toUInt64 * call.spec.headDim.toUInt64).toNat = call.kvWidth := by
  have bound : call.spec.kvHeads.toNat * call.spec.headDim.toNat < 2 ^ 32 * 2 ^ 32 :=
    Nat.mul_lt_mul'' call.spec.kvHeads.toNat_lt call.spec.headDim.toNat_lt
  rw [UInt64.toNat_mul, UInt32.toNat_toUInt64, UInt32.toNat_toUInt64, Nat.mod_eq_of_lt (by omega)]
  rfl

variable [FloatOps F] (positions contextLengths : List UInt32)

/-! ## The phases -/

def project (memory : FlatMemory F) : FlatMemory F :=
  let memory := rmsNormRows call.hidden call.weights.inputNorm.data call.slices.normalized
    call.tokens call.hiddenSize call.spec.rmsNormEpsilon memory
  let memory := linearRows call.slices.normalized call.weights.attention.query.data
    call.slices.query call.tokens call.hiddenSize call.hiddenSize memory
  let memory := linearRows call.slices.normalized call.weights.attention.key.data
    call.slices.key call.tokens call.hiddenSize call.kvWidth memory
  let memory := linearRows call.slices.normalized call.weights.attention.value.data
    call.slices.value call.tokens call.hiddenSize call.kvWidth memory
  ropeRows call.spec.rope call.slices.query call.slices.key 1 call.tokens
    call.spec.queryHeads.toNat call.spec.kvHeads.toNat call.spec.headDim.toNat positions memory

def append : FlatMemory F → FlatMemory F :=
  appendRows call.slices.key call.slices.value call.keyCache call.valueCache 1 call.tokens
    call.maximumContext.toNat call.kvWidth positions

def attend (memory : FlatMemory F) : FlatMemory F :=
  let memory := attentionRows call.slices.query call.keyCache call.valueCache call.slices.attention
    call.slices.logits 1 call.tokens call.spec.queryHeads.toNat call.spec.kvHeads.toNat
    call.spec.headDim.toNat call.maximumContext.toNat contextLengths memory
  let memory := linearRows call.slices.attention call.weights.attention.output.data
    call.slices.normalized call.tokens call.hiddenSize call.hiddenSize memory
  addRows call.hidden call.slices.normalized (call.tokens * call.hiddenSize) memory

def transform (memory : FlatMemory F) : FlatMemory F :=
  let memory := rmsNormRows call.hidden call.weights.postAttentionNorm.data call.slices.normalized
    call.tokens call.hiddenSize call.spec.rmsNormEpsilon memory
  let memory := linearRows call.slices.normalized call.weights.mlp.gate.data call.slices.gate
    call.tokens call.hiddenSize call.intermediateSize memory
  let memory := linearRows call.slices.normalized call.weights.mlp.up.data call.slices.up
    call.tokens call.hiddenSize call.intermediateSize memory
  let memory := gateRows call.slices.gate call.slices.up
    (call.tokens * call.intermediateSize) memory
  let memory := linearRows call.slices.gate call.weights.mlp.down.data call.slices.normalized
    call.tokens call.intermediateSize call.hiddenSize memory
  addRows call.hidden call.slices.normalized (call.tokens * call.hiddenSize) memory

/-- The layer as the source calls it. -/
def operation : Operation F :=
  smollm2DecoderLayerF32 call.weights call.spec call.hiddenView call.cacheView positions
    contextLengths call.workspace none

def effect (memory : FlatMemory F) : FlatMemory F :=
  call.transform
    (call.attend contextLengths (call.append positions (call.project positions memory)))

/-! ## Validation -/

theorem validation_ok (small : call.tokens < 2 ^ 32)
    (passed : (validateLayer call.weights call.spec call.hiddenView call.cacheView positions
      contextLengths call.workspace none).isOk = true) : call.Checked := by
  have each := first_failure_ok _ passed
  obtain ⟨positive, groups, heads⟩ := spec_check_ok call.spec (each _ (by simp))
  obtain ⟨required, computed, enough⟩ := workspace_check_ok call.spec call.hiddenView call.cacheView
    call.workspace (each _ (by simp))
  have weights := first_failure_ok _ (each (weightsCheck call.spec call.weights) (by simp))
  -- the floats that the check computes for one sequence
  obtain ⟨one, tokens, _⟩ := hidden_extents call small
  obtain ⟨attentionPhase, mlpPhase⟩ := required_floats_ok call.spec _ _ _ required computed
  rw [one, tokens, (cache_extents call).1] at attentionPhase
  rw [one, tokens] at mlpPhase
  have exact : (UInt64.ofNat 1).toNat * (UInt64.ofNat call.tokens).toNat = call.tokens := by
    rw [UInt64.toNat_ofNat', UInt64.toNat_ofNat', Nat.mod_eq_of_lt (by omega),
      Nat.mod_eq_of_lt (by omega), Nat.one_mul]
  have context : (UInt64.ofNat call.maximumContext.toNat).toNat = call.maximumContext.toNat := by
    have bound := call.maximumContext.toNat_lt
    rw [UInt64.toNat_ofNat', Nat.mod_eq_of_lt (by omega)]
  rw [exact, context] at attentionPhase
  rw [exact] at mlpPhase
  have size : call.spec.hiddenSize.toUInt64.toNat = call.hiddenSize := UInt32.toNat_toUInt64 _
  have intermediate : call.spec.intermediateSize.toUInt64.toNat = call.intermediateSize :=
    UInt32.toNat_toUInt64 _
  have width := kv_width_exact call
  simp only [List.forall_mem_cons] at weights
  obtain ⟨inputNorm, query, key, value, output, postAttentionNorm, gate, up, down, _⟩ := weights
  refine ⟨positive, groups, heads, Nat.le_trans attentionPhase enough,
    Nat.le_trans mlpPhase enough, ?_, ?_, ?_, ?_, ?_, ?_, ?_, ?_, ?_⟩
  · exact size ▸ vector_ok _ _ inputNorm
  · exact size ▸ matrix_ok _ _ _ query
  · exact width ▸ size ▸ matrix_ok _ _ _ key
  · exact width ▸ size ▸ matrix_ok _ _ _ value
  · exact size ▸ matrix_ok _ _ _ output
  · exact size ▸ vector_ok _ _ postAttentionNorm
  · exact intermediate ▸ size ▸ matrix_ok _ _ _ gate
  · exact intermediate ▸ size ▸ matrix_ok _ _ _ up
  · exact intermediate ▸ size ▸ matrix_ok _ _ _ down

/-! ## The calls of the layer -/

/-- The calls up to the sum with what the rows attend to. -/
def attentionCalls : List (Operation F) :=
  let normalized := sliceView call.slices.normalized [call.tokens, call.hiddenSize]
  let queryHeads := sliceView call.slices.query
    [1, call.tokens, call.spec.queryHeads.toNat, call.spec.headDim.toNat]
  let keyHeads := sliceView call.slices.key
    [1, call.tokens, call.spec.kvHeads.toNat, call.spec.headDim.toNat]
  [rmsNormF32 call.hiddenView call.weights.inputNorm call.spec.rmsNormEpsilon
      (sliceView call.slices.normalized [1, call.tokens, call.hiddenSize]),
    linearF32 normalized call.weights.attention.query
      (sliceView call.slices.query [call.tokens, call.hiddenSize]),
    linearF32 normalized call.weights.attention.key
      (sliceView call.slices.key [call.tokens, call.kvWidth]),
    linearF32 normalized call.weights.attention.value
      (sliceView call.slices.value [call.tokens, call.kvWidth]),
    applyRopeF32 queryHeads keyHeads positions call.spec.rope,
    appendKvF32 keyHeads (sliceView call.slices.value
      [1, call.tokens, call.spec.kvHeads.toNat, call.spec.headDim.toNat]) positions call.cacheView,
    attentionImpl queryHeads call.cacheView.key call.cacheView.value contextLengths
      (sliceView call.slices.attention
        [1, call.tokens, call.spec.queryHeads.toNat, call.spec.headDim.toNat]) call.slices.logits,
    linearF32 (sliceView call.slices.attention [call.tokens, call.hiddenSize])
      call.weights.attention.output normalized,
    always (addRows call.hidden call.slices.normalized (call.tokens * call.hiddenSize))]

/-- The calls of the MLP. -/
def mlpCalls : List (Operation F) :=
  let normalized := sliceView call.slices.normalized [call.tokens, call.hiddenSize]
  let gate := sliceView call.slices.gate [call.tokens, call.intermediateSize]
  [rmsNormF32 call.hiddenView call.weights.postAttentionNorm call.spec.rmsNormEpsilon
      (sliceView call.slices.normalized [1, call.tokens, call.hiddenSize]),
    linearF32 normalized call.weights.mlp.gate gate,
    linearF32 normalized call.weights.mlp.up
      (sliceView call.slices.up [call.tokens, call.intermediateSize]),
    always (gateRows call.slices.gate call.slices.up (call.tokens * call.intermediateSize)),
    linearF32 gate call.weights.mlp.down normalized,
    always (addRows call.hidden call.slices.normalized (call.tokens * call.hiddenSize))]

theorem operation_eq (small : call.tokens < 2 ^ 32) (memory : FlatMemory F) :
    call.operation positions contextLengths memory =
      let validation := validateLayer call.weights call.spec call.hiddenView call.cacheView
        positions contextLengths call.workspace none
      if validation.isOk = false then (validation, memory)
      else runAll (call.attentionCalls positions contextLengths ++ call.mlpCalls) memory := by
  obtain ⟨one, count, _⟩ := hidden_extents call small
  unfold operation smollm2DecoderLayerF32
  simp only [one, count, Nat.one_mul, traceCopy, Option.map_none, List.append_nil,
    List.cons_append, List.nil_append]
  rfl

theorem attention_calls_ok (small : call.tokens < 2 ^ 32) (checked : call.Checked)
    (memory : FlatMemory F)
    (succeeded : (runAll (call.attentionCalls positions contextLengths) memory).1.isOk = true) :
    call.spec.headDim.toNat % 2 = 0 ∧
      (runAll (call.attentionCalls positions contextLengths) memory).2 =
        call.attend contextLengths (call.append positions (call.project positions memory)) := by
  have fewRows : call.tokens < 2 ^ 64 := by omega
  have narrow : call.hiddenSize < 2 ^ 64 := by
    have bound := call.spec.hiddenSize.toNat_lt
    unfold hiddenSize
    omega
  have word : ∀ count : UInt32, count.toNat < 2 ^ 64 := fun count => by
    have bound := count.toNat_lt
    omega
  have dims := And.intro (word call.spec.kvHeads) (word call.spec.headDim)
  unfold attentionCalls at succeeded ⊢
  obtain ⟨normed, rest⟩ := run_all_cons _ _ _ succeeded
  rw [rest, rms_norm_ok _ _ _ _ _ _ _ checked.inputNorm checked.positive
    (hidden_elements call small) normed] at succeeded ⊢
  obtain ⟨queried, rest⟩ := run_all_cons _ _ _ succeeded
  rw [rest, linear_slices_ok _ _ _ _ _ _ _ checked.query fewRows narrow queried] at succeeded ⊢
  obtain ⟨keyed, rest⟩ := run_all_cons _ _ _ succeeded
  rw [rest, linear_slices_ok _ _ _ _ _ _ _ checked.key fewRows narrow keyed] at succeeded ⊢
  obtain ⟨valued, rest⟩ := run_all_cons _ _ _ succeeded
  rw [rest, linear_slices_ok _ _ _ _ _ _ _ checked.value fewRows narrow valued] at succeeded ⊢
  obtain ⟨turned, rest⟩ := run_all_cons _ _ _ succeeded
  obtain ⟨even, rotated⟩ := rope_slices_ok _ _ _ _ _ _ _ _ _ fewRows (word _) dims.1 dims.2 turned
  rw [rest, rotated] at succeeded ⊢
  refine ⟨even, ?_⟩
  obtain ⟨appended, rest⟩ := run_all_cons _ _ _ succeeded
  rw [rest, append_slices_ok _ _ _ _ _ _ _ _ fewRows dims.1 dims.2 appended] at succeeded ⊢
  obtain ⟨_, rest⟩ := run_all_cons _ _ _ succeeded
  rw [rest, attention_slices _ _ _ _ _ _ _ _ _ _ fewRows (word _) dims.2] at succeeded ⊢
  obtain ⟨projected, rest⟩ := run_all_cons _ _ _ succeeded
  rw [rest, linear_slices_ok _ _ _ _ _ _ _ checked.output fewRows narrow projected] at succeeded ⊢
  rw [(cache_extents call).1, (cache_extents call).2]
  rfl

theorem mlp_calls_ok (small : call.tokens < 2 ^ 32) (checked : call.Checked)
    (memory : FlatMemory F) (succeeded : (runAll call.mlpCalls memory).1.isOk = true) :
    (runAll call.mlpCalls memory).2 = call.transform memory := by
  have fewRows : call.tokens < 2 ^ 64 := by omega
  have narrow : call.hiddenSize < 2 ^ 64 ∧ call.intermediateSize < 2 ^ 64 := by
    have bounds := And.intro call.spec.hiddenSize.toNat_lt call.spec.intermediateSize.toNat_lt
    unfold hiddenSize intermediateSize
    omega
  unfold mlpCalls at succeeded ⊢
  obtain ⟨normed, rest⟩ := run_all_cons _ _ _ succeeded
  rw [rest, rms_norm_ok _ _ _ _ _ _ _ checked.postAttentionNorm checked.positive
    (hidden_elements call small) normed] at succeeded ⊢
  obtain ⟨gated, rest⟩ := run_all_cons _ _ _ succeeded
  rw [rest, linear_slices_ok _ _ _ _ _ _ _ checked.gate fewRows narrow.1 gated] at succeeded ⊢
  obtain ⟨upped, rest⟩ := run_all_cons _ _ _ succeeded
  rw [rest, linear_slices_ok _ _ _ _ _ _ _ checked.up fewRows narrow.1 upped] at succeeded ⊢
  obtain ⟨_, rest⟩ := run_all_cons _ _ _ succeeded
  rw [rest] at succeeded ⊢
  obtain ⟨downed, rest⟩ := run_all_cons _ _ _ succeeded
  rw [rest, linear_slices_ok _ _ _ _ _ _ _ checked.down fewRows narrow.2 downed]
  rfl

/-- A call that succeeds has passed its checks and has the effect of its phases. -/
theorem operation_ok (small : call.tokens < 2 ^ 32) (memory : FlatMemory F)
    (succeeded : (call.operation positions contextLengths memory).1.isOk = true) :
    call.Checked ∧ call.spec.headDim.toNat % 2 = 0 ∧
      (call.operation positions contextLengths memory).2 =
        call.effect positions contextLengths memory := by
  rw [operation_eq call positions contextLengths small] at succeeded ⊢
  dsimp only at succeeded ⊢
  split at succeeded
  next failed => rw [failed] at succeeded; cases succeeded
  next passed =>
    have checked := validation_ok call positions contextLengths small (Bool.not_eq_false _ ▸ passed)
    obtain ⟨attended, rest⟩ := run_all_append _ _ _ succeeded
    obtain ⟨even, effect⟩ := attention_calls_ok call positions contextLengths small checked memory
      attended
    rw [rest] at succeeded
    refine ⟨checked, even, ?_⟩
    rw [if_neg passed, rest, mlp_calls_ok call small checked _ succeeded, effect]
    rfl

end LayerCall

end

end MarketForge.Cpu
