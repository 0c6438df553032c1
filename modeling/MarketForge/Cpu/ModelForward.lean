import MarketForge.Cpu.ModelLayout

/-!
# The memory of a forward pass

What the calls of a forward pass leave: the rows of the tokens run through the layers, with their
keys and values behind the cached ones, and the logits of the last row. A pass that fails leaves the
weights and the cached rows as they were.
-/
namespace MarketForge.Cpu

open Library FloatOps

section

variable {F : Type} [FloatOps F]

/-! ## What the checks of the head establish -/

omit [FloatOps F] in
private theorem elements_rank_one (view : FloatView) (rank : view.shape.rank = 1) :
    view.shape.elements = extent view 0 := by
  have length : view.shape.extents.toList.length = 6 := Vector.length_toList
  cases listed : view.shape.extents.toList with
  | nil => simp [listed] at length
  | cons first rest => simp [Shape.elements, Shape.dims, extent, listed, rank]

omit [FloatOps F] in
private theorem elements_rank_two (view : FloatView) (rank : view.shape.rank = 2) :
    view.shape.elements = extent view 0 * extent view 1 := by
  have length : view.shape.extents.toList.length = 6 := Vector.length_toList
  cases listed : view.shape.extents.toList with
  | nil => simp [listed] at length
  | cons first rest =>
    cases rest with
    | nil => simp [listed] at length
    | cons second others => simp [Shape.elements, Shape.dims, extent, listed, rank]

theorem norm_check_vector (input weight output : FloatView) (epsilon : F)
    (passed : (rmsNormCheck input weight epsilon output).isOk = true) :
    IsVector weight (extent input (input.shape.rank.toNat - 1)) ∧
      0 < extent input (input.shape.rank.toNat - 1) := by
  rw [rmsNormCheck] at passed
  obtain ⟨_, passed⟩ := status_guard_ok passed
  obtain ⟨shapes, passed⟩ := refusal_guard_ok rfl passed
  simp only [not_or, not_not] at shapes
  obtain ⟨_, _, _, rank, _, width⟩ := shapes
  obtain ⟨_, passed⟩ := status_guard_ok passed
  have positive : extent weight 0 ≠ 0 := by
    split at passed
    next status counted => exact absurd passed (by simp [checked_numel_error _ _ counted])
    next =>
      obtain ⟨divides, _⟩ := refusal_guard_ok rfl passed
      exact (not_or.mp divides).1
  rw [width]
  exact ⟨⟨elements_rank_one weight rank, rfl⟩, Nat.pos_of_ne_zero positive⟩

omit [FloatOps F] in
theorem linear_check_matrix (input weight output : FloatView)
    (passed : (linearCheck input weight output).isOk = true) :
    IsMatrix weight (extent output 1) (extent input 1) := by
  rw [linearCheck] at passed
  obtain ⟨_, passed⟩ := status_guard_ok passed
  obtain ⟨shapes, _⟩ := refusal_guard_ok rfl passed
  simp only [not_or, not_not] at shapes
  obtain ⟨_, rank, _, _, _, _, width, _, rows⟩ := shapes
  rw [rows, ← width]
  exact ⟨elements_rank_two weight rank, rfl⟩

/-- The norm of one row, as the head calls it. -/
theorem norm_one_ok (input output : Nat) (size : UInt32) (weight : FloatView) (epsilon : F)
    (memory : FlatMemory F)
    (succeeded : (rmsNormF32 (makeF32View input [1, size.toUInt64]) weight epsilon
      (makeF32View output [1, size.toUInt64]) memory).1.isOk = true) :
    weight.shape.elements = size.toNat ∧
      (rmsNormF32 (makeF32View input [1, size.toUInt64]) weight epsilon
        (makeF32View output [1, size.toUInt64]) memory).2 =
          rmsNormRows input weight.data output 1 size.toNat epsilon memory := by
  obtain ⟨vector, positive⟩ := norm_check_vector _ _ _ _ (guarded_ok _ _ _ succeeded).1
  have width : extent (makeF32View input [1, size.toUInt64]) 1 = size.toNat :=
    (extent_make input _ 1 (by decide)).trans (UInt32.toNat_toUInt64 _)
  have rank : (makeF32View input [1, size.toUInt64]).shape.rank.toNat - 1 = 1 := rfl
  rw [rank, width] at vector positive
  refine ⟨vector.elements, ?_⟩
  exact rms_norm_ok _ _ _ _ memory 1 size.toNat vector positive
    (by rw [elements_make _ _ (by simp)]; simp) succeeded

/-- The product of one row, as the head calls it. -/
theorem linear_one_ok (input output : Nat) (inputSize outputSize : UInt32) (weight : FloatView)
    (memory : FlatMemory F)
    (succeeded : (linearF32 (makeF32View input [1, inputSize.toUInt64]) weight
      (makeF32View output [1, outputSize.toUInt64]) memory).1.isOk = true) :
    weight.shape.elements = outputSize.toNat * inputSize.toNat ∧
      (linearF32 (makeF32View input [1, inputSize.toUInt64]) weight
        (makeF32View output [1, outputSize.toUInt64]) memory).2 =
          linearRows input weight.data output 1 inputSize.toNat outputSize.toNat memory := by
  have matrix := linear_check_matrix _ _ _ (guarded_ok _ _ _ succeeded).1
  have width : ∀ data (size : UInt32), extent (makeF32View data [1, size.toUInt64]) 1 =
      size.toNat := fun data size =>
    (extent_make data _ 1 (by decide)).trans (UInt32.toNat_toUInt64 _)
  rw [width, width] at matrix
  have slices : ∀ data (size : UInt32), makeF32View data [1, size.toUInt64] =
      sliceView data [1, size.toNat] := fun data size => by
    rw [sliceView, List.map_cons, List.map_singleton, UInt64.ofNat_uInt32ToNat]
    rfl
  have narrow : inputSize.toNat < 2 ^ 64 := by
    have bound := inputSize.toNat_lt
    omega
  rw [slices, slices] at succeeded ⊢
  exact ⟨matrix.elements, linear_slices_ok _ _ _ _ _ _ _ matrix (by decide) narrow succeeded⟩

end

namespace LoadedModel

variable {F : Type} (model : LoadedModel F)

/-! ## The embedding -/

/-- The embedding of a token. -/
def embeddingRow (store : FlatMemory F) (token : UInt32) : Nat → F := fun column =>
  store (model.embedding.data + token.toNat * model.hiddenSize + column)

theorem embed_spec (store memory : FlatMemory F) (tokenIds : List UInt32)
    (few : tokenIds.length ≤ model.maximumPrefillTokens.toNat)
    (valid : ∀ token ∈ tokenIds, token < model.spec.vocabularySize)
    (held : Holds model.fp32Weights store memory) :
    StoresRows (CpuSmolLm2.embedTokens model tokenIds memory) model.execution.data tokenIds.length
        model.hiddenSize (fun row => model.embeddingRow store (tokenIds.getD row 0)) ∧
      SameExcept (Within model.execution.data (tokenIds.length * model.hiddenSize)) memory
        (CpuSmolLm2.embedTokens model tokenIds memory) := by
  rw [CpuSmolLm2.embedTokens]
  refine rows_spec model.execution.data tokenIds.length model.hiddenSize _ _ memory ?_
  intro row below current same
  have listed : tokenIds.getD row 0 ∈ tokenIds := by
    rw [List.getD_eq_getElem?_getD, List.getElem?_eq_getElem below, Option.getD_some]
    exact List.getElem_mem below
  have token : (tokenIds.getD row 0).toNat < model.spec.vocabularySize.toNat :=
    UInt32.lt_iff_toNat_lt.mp (valid _ listed)
  have contained := model.weights_contained model.embedding (by simp)
  rw [model.embedding_elements] at contained
  have last : (tokenIds.getD row 0).toNat * model.hiddenSize + model.hiddenSize ≤
      model.spec.vocabularySize.toNat * model.spec.hiddenSize.toNat := Grid.row_end _ token
  have source : model.fp32Weights.Contains
      (model.embedding.data + (tokenIds.getD row 0).toNat * model.hiddenSize) model.hiddenSize := by
    obtain ⟨first, ending⟩ := contained
    exact ⟨by omega, by omega⟩
  have rows := model.hidden_contained few
  have destination : model.execution.Contains (model.execution.data + row * model.hiddenSize)
      model.hiddenSize := by
    have fits : row * model.hiddenSize + model.hiddenSize ≤ tokenIds.length * model.hiddenSize :=
      Grid.row_end _ below
    obtain ⟨first, ending⟩ := rows
    exact ⟨by omega, by omega⟩
  have kept : Stores current (model.embedding.data + (tokenIds.getD row 0).toNat * model.hiddenSize)
      model.hiddenSize (model.embeddingRow store (tokenIds.getD row 0)) := by
    intro column inside
    have here := source.within _ ⟨Nat.le_add_right _ column, Nat.add_lt_add_left inside _⟩
    rw [same _ fun written => model.separated.weightsExecution.outside rows _ here
      (within_mono _ _ _ _ (Nat.mul_le_mul_right _ below.le) written)]
    exact held _ here
  exact copy_floats_spec _ _ _ _ current
    (model.separated.weightsExecution.parts source destination) kept

/-! ## The layers -/

/-- A layer call writes to no cache of another layer. -/
theorem other_cache_unwritten {context tokens layer index : Nat} {weights : LayerWeights Nat}
    (extent : model.Extent context tokens) (below : index < 2 * model.spec.layers.toNat)
    (keys : index ≠ 2 * layer) (values : index ≠ 2 * layer + 1) (address : Nat)
    (inside : Within (model.cacheAt index) model.cacheFloats address) :
    ¬(model.layerCall context tokens layer weights).Written address := by
  have separate := model.separated
  have window := model.window_fits extent
  have contained := model.cache_contained index 0 model.cacheFloats below (by omega)
  rintro ((inHidden | inWorkspace) | (inKeys | inValues))
  · exact separate.kvExecution.outside (model.hidden_contained extent.few) _
      (contained.within _ inside) inHidden
  · exact separate.kvWorkspace.outside ⟨Nat.le_refl _, Nat.le_refl _⟩ _
      (contained.within _ inside) inWorkspace
  · have apart := model.caches_apart keys
    rw [← keyCache_at] at apart
    change Within (model.keyCache layer + context * model.kvWidth) (tokens * model.kvWidth) address
      at inKeys
    unfold Apart at apart
    unfold Within at inside inKeys
    omega
  · have apart := model.caches_apart values
    rw [← valueCache_at] at apart
    change Within (model.valueCache layer + context * model.kvWidth) (tokens * model.kvWidth)
      address at inValues
    unfold Apart at apart
    unfold Within at inside inValues
    omega

section

variable [FloatOps F]

/-- The stages of the model, with the weights of a store. -/
def stages (store : FlatMemory F) : List (Stage (Nat → F) (Nat → F) (Nat → F)) :=
  model.layers.map (decoderStage store model.layerSpec)

theorem layer_call_listed {context tokens : Nat} {positions contextLengths : List UInt32}
    {layer : Nat} {operation : Operation F}
    (found : (CpuSmolLm2.layerCalls model tokens positions contextLengths)[layer]? =
      some operation) :
    ∃ weights, model.layers[layer]? = some weights ∧
      operation = (model.layerCall context tokens layer weights).operation positions
        contextLengths := by
  rw [CpuSmolLm2.layerCalls, List.getElem?_map, List.getElem?_zipIdx, Nat.zero_add] at found
  cases listed : model.layers[layer]? with
  | none =>
    rw [listed] at found
    cases found
  | some weights =>
    rw [listed] at found
    exact ⟨weights, rfl, (Option.some.inj found).symm⟩

/-- The memory after the calls of the first layers. -/
structure LayersDone (store : FlatMemory F) (context tokens : Nat)
    (cachedKeys cachedValues : Nat → Nat → Nat → F) (inputs : Nat → Nat → F) (done : Nat)
    (memory : FlatMemory F) : Prop where
  held : Holds model.fp32Weights store memory
  rows : StoresRows memory model.execution.data tokens model.hiddenSize fun row =>
    statesFrom (model.stages store) context cachedKeys cachedValues inputs done (context + row)
  keys : ∀ (layer : Nat) stage, (model.stages store)[layer]? = some stage →
    StoresRows memory (model.keyCache layer) (if layer < done then context + tokens else context)
      model.kvWidth (stage.keysFrom context (cachedKeys layer)
        (statesFrom (model.stages store) context cachedKeys cachedValues inputs layer))
  values : ∀ (layer : Nat) stage, (model.stages store)[layer]? = some stage →
    StoresRows memory (model.valueCache layer)
      (if layer < done then context + tokens else context) model.kvWidth
      (stage.valuesFrom context (cachedValues layer)
        (statesFrom (model.stages store) context cachedKeys cachedValues inputs layer))

theorem stage_inside {model : LoadedModel F} {store : FlatMemory F} {layer : Nat} {stage}
    (found : (model.stages store)[layer]? = some stage) : layer < model.spec.layers.toNat := by
  obtain ⟨inside, _⟩ := List.getElem?_eq_some_iff.mp found
  rwa [stages, List.length_map, model.layer_count] at inside

/-- A layer changes how many rows are cached for itself only. -/
theorem rows_elsewhere {context tokens layer other : Nat} (here : other ≠ layer) :
    (if other < layer + 1 then context + tokens else context) =
      if other < layer then context + tokens else context := by
  by_cases earlier : other < layer
  · rw [if_pos earlier, if_pos (by omega)]
  · rw [if_neg earlier, if_neg (by omega)]

/-- One more layer: its rows and caches are those of its stage, the other caches stay. -/
theorem LayersDone.advance {model : LoadedModel F} {store memory : FlatMemory F}
    {context tokens layer : Nat} {cachedKeys cachedValues : Nat → Nat → Nat → F}
    {inputs : Nat → Nat → F} {weights : LayerWeights Nat} {positions contextLengths : List UInt32}
    (done : model.LayersDone store context tokens cachedKeys cachedValues inputs layer memory)
    (extent : model.Extent context tokens) (listed : model.layers[layer]? = some weights)
    (follow : ∀ token < tokens, (positions.getD token 0).toNat = context + token)
    (length : (contextLengths.getD 0 0).toNat = context + tokens)
    (succeeded : ((model.layerCall context tokens layer weights).operation positions contextLengths
      memory).1.isOk = true) :
    model.LayersDone store context tokens cachedKeys cachedValues inputs (layer + 1)
      ((model.layerCall context tokens layer weights).operation positions contextLengths
        memory).2 := by
  -- the layer of the network that this call computes
  have stage : (model.stages store)[layer]? =
      some (decoderStage store model.layerSpec weights) := by
    rw [stages, List.getElem?_map, listed]
    rfl
  have placed := model.layer_placed extent listed
  obtain ⟨checked, even, effect⟩ := LayerCall.operation_ok _ positions contextLengths
    extent.small memory succeeded
  have keys := done.keys layer _ stage
  have values := done.values layer _ stage
  rw [if_neg (Nat.lt_irrefl layer)] at keys values
  -- its inputs: the rows of the layer before, and the cached rows of the context
  obtain ⟨rows, newKeys, newValues, others⟩ := LayerCall.effect_spec
    (model.layerCall context tokens layer weights) positions contextLengths model.fp32Weights store
    memory (statesFrom (model.stages store) context cachedKeys cachedValues inputs layer)
    (cachedKeys layer) (cachedValues layer) checked even placed follow length
    ⟨done.held, done.rows,
      StoresRows.congr _ _ _ _ _ _ (fun row below => by
        rw [Stage.keysFrom, if_pos (show row < context from below)]) keys,
      StoresRows.congr _ _ _ _ _ _ (fun row below => by
        rw [Stage.valuesFrom, if_pos (show row < context from below)]) values⟩
  rw [effect]
  -- a call writes to the two caches of its layer only
  have kept : ∀ (index rows : Nat) (value : Nat → Nat → F), index < 2 * model.spec.layers.toNat →
      index ≠ 2 * layer → index ≠ 2 * layer + 1 → rows ≤ context + tokens →
      StoresRows memory (model.cacheAt index) rows model.kvWidth value →
      StoresRows (LayerCall.effect (model.layerCall context tokens layer weights) positions
        contextLengths memory) (model.cacheAt index) rows model.kvWidth value := by
    intro index rows value below offKeys offValues few stored
    have fits : rows * model.kvWidth ≤ model.cacheFloats :=
      Nat.mul_le_mul_right _ (few.trans extent.fits)
    exact StoresRows.frame _ _ _ _ _ _ _ others (fun address inside =>
      model.other_cache_unwritten extent below offKeys offValues address
        (within_mono _ _ _ _ fits inside)) stored
  constructor
  case held => exact placed.weights_kept others done.held
  case rows =>
    refine StoresRows.congr _ _ _ _ _ _ (fun row _ => ?_) rows
    rw [statesFrom, stage]
    rfl
  case keys =>
    intro other otherStage found
    by_cases here : other = layer
    · subst here
      obtain rfl := Option.some.inj (stage.symm.trans found)
      rw [if_pos (Nat.lt_succ_self other)]
      exact newKeys
    · have below := stage_inside found
      have stored := done.keys other otherStage found
      rw [keyCache_at] at stored ⊢
      rw [rows_elsewhere here]
      exact kept (2 * other) _ _ (by omega) (by omega) (by omega) (by split <;> omega) stored
  case values =>
    intro other otherStage found
    by_cases here : other = layer
    · subst here
      obtain rfl := Option.some.inj (stage.symm.trans found)
      rw [if_pos (Nat.lt_succ_self other)]
      exact newValues
    · have below := stage_inside found
      have stored := done.values other otherStage found
      rw [valueCache_at] at stored ⊢
      rw [rows_elsewhere here]
      exact kept (2 * other + 1) _ _ (by omega) (by omega) (by omega) (by split <;> omega) stored

theorem layers_spec {store memory : FlatMemory F} {context tokens : Nat}
    {cachedKeys cachedValues : Nat → Nat → Nat → F} {inputs : Nat → Nat → F}
    {positions contextLengths : List UInt32}
    (done : model.LayersDone store context tokens cachedKeys cachedValues inputs 0 memory)
    (extent : model.Extent context tokens)
    (follow : ∀ token < tokens, (positions.getD token 0).toNat = context + token)
    (length : (contextLengths.getD 0 0).toNat = context + tokens)
    (succeeded : (runAll (CpuSmolLm2.layerCalls model tokens positions contextLengths)
      memory).1.isOk = true) :
    model.LayersDone store context tokens cachedKeys cachedValues inputs model.layers.length
      (runAll (CpuSmolLm2.layerCalls model tokens positions contextLengths) memory).2 := by
  have count : (CpuSmolLm2.layerCalls model tokens positions contextLengths).length =
      model.layers.length := by
    rw [CpuSmolLm2.layerCalls, List.length_map, List.length_zipIdx]
  rw [← count]
  refine run_all_invariant _ memory
    (fun layer current => model.LayersDone store context tokens cachedKeys cachedValues inputs layer
      current) done ?_ succeeded
  intro layer operation found current holds called
  obtain ⟨weights, listed, rfl⟩ : ∃ weights, model.layers[layer]? = some weights ∧
      operation = (model.layerCall context tokens layer weights).operation positions
        contextLengths := model.layer_call_listed found
  exact holds.advance extent listed follow length called

/-! ## The head -/

/-- The logits of a row. -/
def logitRow (store : FlatMemory F) (row : Nat → F) : Nat → F :=
  linearRow (weightOf store model.outputHead) model.hiddenSize
    (rmsRow (weightOf store model.finalNorm) model.hiddenSize model.spec.rmsNormEpsilon row)

/-- The calls of the head as loops over one row. -/
theorem head_calls_ok (tokens : Nat) (memory : FlatMemory F)
    (succeeded : (runAll (CpuSmolLm2.headCalls model tokens) memory).1.isOk = true) :
    model.finalNorm.shape.elements = model.hiddenSize ∧
      model.outputHead.shape.elements = model.spec.vocabularySize.toNat * model.hiddenSize ∧
      (runAll (CpuSmolLm2.headCalls model tokens) memory).2 =
        linearRows model.normalizedLast model.outputHead.data model.logitsData 1 model.hiddenSize
          model.spec.vocabularySize.toNat
          (rmsNormRows (model.execution.data + (tokens - 1) * model.hiddenSize)
            model.finalNorm.data model.normalizedLast 1 model.hiddenSize model.spec.rmsNormEpsilon
            memory) := by
  rw [CpuSmolLm2.headCalls] at succeeded ⊢
  obtain ⟨normed, rest⟩ := run_all_cons _ _ _ succeeded
  obtain ⟨vector, normEffect⟩ := norm_one_ok _ _ _ _ _ memory normed
  rw [rest, normEffect] at succeeded ⊢
  obtain ⟨projected, rest⟩ := run_all_cons _ _ _ succeeded
  obtain ⟨matrix, effect⟩ := linear_one_ok _ _ _ _ _ _ projected
  rw [rest, effect]
  exact ⟨vector, matrix, rfl⟩

omit [FloatOps F] in
/-- The weights are apart from what a pass writes to the execution buffer. -/
theorem weight_apart {view : FloatView} {data count : Nat}
    (listed : view ∈ model.embedding :: model.finalNorm :: model.outputHead ::
      model.layers.flatMap LayerWeights.all)
    (contained : model.execution.Contains data count) :
    Apart view.data view.shape.elements data count :=
  model.separated.weightsExecution.parts (model.weights_contained view listed) contained

omit [FloatOps F] in
theorem last_row_contained {context tokens : Nat} (extent : model.Extent context tokens) :
    model.execution.Contains (model.execution.data + (tokens - 1) * model.hiddenSize)
      model.hiddenSize ∧
    model.execution.data + (tokens - 1) * model.hiddenSize + model.hiddenSize ≤
      model.normalizedLast := by
  have positive := extent.positive
  have rows : (tokens - 1) * model.hiddenSize + model.hiddenSize ≤
      model.maximumPrefillTokens.toNat * model.spec.hiddenSize.toNat :=
    Grid.row_end _ (by have few := extent.few; omega)
  have floats := model.execution_floats
  refine ⟨⟨by omega, by omega⟩, ?_⟩
  rw [normalizedLast]
  omega

/-- The head leaves the logits of the last row. -/
theorem head_spec {store memory : FlatMemory F} {context tokens : Nat} {row : Nat → F}
    (extent : model.Extent context tokens) (held : Holds model.fp32Weights store memory)
    (stored : Stores memory (model.execution.data + (tokens - 1) * model.hiddenSize)
      model.hiddenSize row)
    (succeeded : (runAll (CpuSmolLm2.headCalls model tokens) memory).1.isOk = true) :
    Stores (runAll (CpuSmolLm2.headCalls model tokens) memory).2 model.logitsData
      model.spec.vocabularySize.toNat (model.logitRow store row) := by
  obtain ⟨vector, matrix, effect⟩ := model.head_calls_ok tokens memory succeeded
  obtain ⟨_, before⟩ := model.last_row_contained extent
  have normalized := model.normalized_contained
  have logits := model.logits_contained
  have normWeight : Apart model.finalNorm.data model.finalNorm.shape.elements _ _ :=
    model.weight_apart (by simp) normalized
  have headWeight : Apart model.outputHead.data model.outputHead.shape.elements _ _ :=
    model.weight_apart (by simp) logits
  rw [vector] at normWeight
  rw [matrix] at headWeight
  have one : ∀ data width (value : Nat → F) (current : FlatMemory F),
      Stores current data width value → StoresRows current data 1 width fun _ => value := by
    intro data width value current here turn below
    obtain rfl := Nat.lt_one_iff.mp below
    rwa [Nat.zero_mul, Nat.add_zero]
  obtain ⟨normed, normFrame⟩ := rms_norm_rows_spec
    (model.execution.data + (tokens - 1) * model.hiddenSize) model.finalNorm.data
    model.normalizedLast 1 model.hiddenSize model.spec.rmsNormEpsilon (fun _ => row)
    (weightOf store model.finalNorm) memory (.inr (.inl (by rwa [Nat.one_mul])))
    (by rwa [Nat.one_mul]) (one _ _ _ _ stored)
    (held.weight _ _ _ _ _ (vector ▸ model.weights_contained model.finalNorm (by simp)))
  rw [Nat.one_mul] at normFrame
  have heldAfter := held.frame _ _ _ _ _ normFrame fun address inside =>
    model.separated.weightsExecution.outside normalized address inside
  obtain ⟨projected, _⟩ := linear_rows_spec model.normalizedLast model.outputHead.data
    model.logitsData 1 model.hiddenSize model.spec.vocabularySize.toNat _
    (weightOf store model.outputHead) _
    (.inl (by rw [Nat.one_mul, logitsData, hiddenSize])) (by rwa [Nat.one_mul]) normed
    (heldAfter.weight _ _ _ _ _ (matrix ▸ model.weights_contained model.outputHead (by simp)))
  have row := projected 0 Nat.zero_lt_one
  rw [Nat.zero_mul, Nat.add_zero] at row
  rw [effect]
  exact row

/-! ## What a pass writes, whether it succeeds or fails -/

theorem layer_calls_confined {context tokens : Nat} {positions contextLengths : List UInt32}
    (extent : model.Extent context tokens)
    (follow : ∀ token < tokens, (positions.getD token 0).toNat = context + token)
    (length : (contextLengths.getD 0 0).toNat = context + tokens) :
    ∀ operation ∈ CpuSmolLm2.layerCalls model tokens positions contextLengths,
      Steady operation ∧ Confined (model.Written context tokens) operation := by
  intro operation listed
  obtain ⟨layer, found⟩ := List.mem_iff_getElem?.mp listed
  obtain ⟨weights, here, rfl⟩ : ∃ weights, model.layers[layer]? = some weights ∧
      operation = (model.layerCall context tokens layer weights).operation positions
        contextLengths := model.layer_call_listed found
  refine ⟨LayerCall.operation_steady _ positions contextLengths extent.small, fun memory => ?_⟩
  exact SameExcept.mono _ _ _ _ (model.layer_written extent here)
    (LayerCall.operation_confined _ positions contextLengths extent.small
      (model.layer_placed extent here) follow length memory)

theorem head_calls_confined (tokens : Nat) :
    ∀ operation ∈ CpuSmolLm2.headCalls model tokens,
      Steady operation ∧
        Confined (Within model.execution.data model.execution.floats) operation := by
  have normalized := model.normalized_contained
  have logits := model.logits_contained
  rw [CpuSmolLm2.headCalls]
  simp only [List.forall_mem_cons, List.not_mem_nil, false_implies, implies_true, and_true]
  refine ⟨⟨guarded_steady _ _, ?_⟩, ⟨guarded_steady _ _, ?_⟩⟩
  · refine confined_of_ok _ _ _ _ rfl fun memory succeeded => ?_
    rw [(norm_one_ok _ _ _ _ _ memory succeeded).2]
    refine SameExcept.mono _ _ _ _ ?_ (rms_norm_rows_frame _ _ _ _ _ _ memory)
    intro address inside
    rw [Nat.one_mul] at inside
    exact normalized.within address inside
  · refine confined_of_ok _ _ _ _ rfl fun memory succeeded => ?_
    rw [(linear_one_ok _ _ _ _ _ memory succeeded).2]
    refine SameExcept.mono _ _ _ _ ?_ (linear_rows_frame _ _ _ _ _ _ memory)
    intro address inside
    rw [Nat.one_mul] at inside
    exact logits.within address inside

end

end LoadedModel

end MarketForge.Cpu
