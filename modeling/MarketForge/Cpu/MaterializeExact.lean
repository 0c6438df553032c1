import Mathlib.Algebra.BigOperators.Ring.List
import MarketForge.Cpu.Materialize
import MarketForge.Model.WeightBinding

/-!
# What materializing a checkpoint guarantees

The estimate of the parameters is the number of elements of the expected tensors, and so the
storage is filled exactly: the views lie in it one behind the other and hold the decoded floats.
-/
namespace MarketForge.Cpu

open Library Model FloatOps

variable {F : Type}

/-! ## The estimate and the expected tensors -/

theorem layer_elements (spec : ModelSpec F)
    (unbiased : spec.qkvBias = false) :
    (LayerTensor.all.map fun role => (role.extents spec).prod).sum = spec.layerParameters := by
  simp only [LayerTensor.all, LayerTensor.extents, List.map_cons, List.map_nil, List.sum_cons,
    List.sum_nil, List.prod_cons, List.prod_nil, ModelSpec.layerParameters, unbiased]
  rw [if_neg (by decide)]
  ring

theorem model_elements (spec : ModelSpec F)
    (unbiased : spec.qkvBias = false) (tied : spec.tiedEmbeddings = true) :
    ((modelTensors spec.layers.toNat).map fun tensor => (tensor.extents spec).prod).sum =
      spec.parameters := by
  have layers : ∀ count : Nat, (((List.range count).flatMap fun index =>
      LayerTensor.all.map (ModelTensor.layer index)).map
        fun tensor => (tensor.extents spec).prod).sum = count * spec.layerParameters := by
    intro count
    induction count with
    | zero => simp
    | succ count ih =>
      rw [List.range_succ, List.flatMap_append, List.map_append, List.sum_append, ih,
        List.flatMap_singleton, List.map_map, Nat.succ_mul, ← layer_elements spec unbiased]
      rfl
  rw [modelTensors, List.map_append, List.map_cons, List.sum_append, List.sum_cons, layers]
  simp only [ModelTensor.extents, List.map_cons, List.map_nil, List.sum_cons, List.sum_nil,
    List.prod_cons, List.prod_nil, ModelSpec.parameters, tied, if_true]
  ring

theorem expected_elements (spec : ModelSpec F) (tensor : ModelTensor) :
    (expectedTensor spec tensor).shape.elements = (tensor.extents spec).prod := by
  rw [Shape.elements, expected_dims]

/-- The elements of a list of tensors. -/
def totalElements (tensors : List (ConstTensorView UInt64)) : Nat :=
  (tensors.map fun tensor => tensor.shape.elements).sum

@[simp] theorem total_elements_append (left right : List (ConstTensorView UInt64)) :
    totalElements (left ++ right) = totalElements left + totalElements right := by
  rw [totalElements, List.map_append, List.sum_append]
  rfl

@[simp] theorem total_elements_cons (tensor : ConstTensorView UInt64)
    (tensors : List (ConstTensorView UInt64)) :
    totalElements (tensor :: tensors) = tensor.shape.elements + totalElements tensors := by
  rw [totalElements, List.map_cons, List.sum_cons]
  rfl

@[simp] theorem total_elements_nil : totalElements [] = 0 := rfl

/-! ## One tensor -/

section

variable [FloatOps F] (bitCast : UInt32 → F) (mapping : ByteSpan)

/-- A tensor that can be appended: BF16 values of the mapping, all of them finite. -/
structure Ready (tensor : ConstTensorView UInt64) : Prop where
  dtype : tensor.dtype = .bf16
  memory : tensor.memory = .host
  counted : ∃ count, checkedNumel tensor.shape = .ok count ∧ count.toNat = tensor.shape.elements
  inside : tensor.data.toNat + 2 * tensor.shape.elements ≤ mapping.data.length
  finite : ∀ index < tensor.shape.elements,
    isFinite (sourceFloat bitCast mapping tensor.data index) = true

/-- Finite elements are all stored, at the cursor, and nothing else changes. -/
theorem append_elements_spec (destination : Nat) (data : UInt64) (remaining index : Nat)
    (writer : Writer F) (fits : writer.cursor.toNat + remaining < 2 ^ 64)
    (finite : ∀ step < remaining,
      isFinite (sourceFloat bitCast mapping data (index + step)) = true) :
    ∃ written, appendElements bitCast mapping destination data remaining index writer =
        (.success, written) ∧
      written.cursor.toNat = writer.cursor.toNat + remaining ∧
      Stores written.floats (destination + writer.cursor.toNat) remaining
        (fun step => sourceFloat bitCast mapping data (index + step)) ∧
      SameExcept (Within (destination + writer.cursor.toNat) remaining) writer.floats
        written.floats := by
  induction remaining generalizing index writer with
  | zero =>
    exact ⟨writer, rfl, rfl, fun _ below => absurd below (Nat.not_lt_zero _),
      SameExcept.refl _ _⟩
  | succ remaining ih =>
    have first := finite 0 (by omega)
    rw [Nat.add_zero] at first
    have next : (writer.cursor + 1).toNat = writer.cursor.toNat + 1 := by
      rw [UInt64.toNat_add, show (1 : UInt64).toNat = 1 from rfl, Nat.mod_eq_of_lt (by omega)]
    obtain ⟨written, run, cursor, stored, others⟩ := ih (index + 1)
      { cursor := writer.cursor + 1
        floats := Function.update writer.floats (destination + writer.cursor.toNat)
          (sourceFloat bitCast mapping data index) }
      (by dsimp only; omega)
      fun step below => by
        have later := finite (step + 1) (by omega)
        rwa [← Nat.add_assoc, Nat.add_right_comm] at later
    dsimp only at cursor stored others
    rw [next] at cursor stored others
    refine ⟨written, ?_, by omega, ?_, ?_⟩
    · rw [appendElements, if_neg (by simp [first])]
      exact run
    · intro step below
      cases step with
      | zero =>
        -- The later elements lie behind the first one.
        rw [Nat.add_zero, others _ fun inside => by have := inside.1; omega,
          Function.update_self]
        rfl
      | succ step =>
        have value := stored step (by omega)
        rw [show destination + writer.cursor.toNat + (step + 1) =
          destination + (writer.cursor.toNat + 1) + step by omega, value]
        dsimp only
        rw [Nat.add_assoc, Nat.add_comm 1]
    · intro address outside
      rw [others address fun inside => outside ⟨by have := inside.1; omega, by
        have := inside.2; omega⟩]
      refine Function.update_of_ne (fun here => outside ?_) _ _
      exact ⟨by omega, by omega⟩

/-- A tensor that fits is appended at the cursor. -/
theorem append_spec (destination : Nat) (parameterCount : UInt64)
    (tensor : ConstTensorView UInt64) (writer : Writer F)
    (ready : Ready bitCast mapping tensor)
    (fits : writer.cursor.toNat + tensor.shape.elements ≤ parameterCount.toNat) :
    ∃ written, append bitCast mapping destination parameterCount tensor writer =
        (.ok ⟨destination + writer.cursor.toNat, tensor.shape, .f32, .host⟩, written) ∧
      written.cursor.toNat = writer.cursor.toNat + tensor.shape.elements ∧
      Stores written.floats (destination + writer.cursor.toNat) tensor.shape.elements
        (sourceFloat bitCast mapping tensor.data) ∧
      SameExcept (Within (destination + writer.cursor.toNat) tensor.shape.elements)
        writer.floats written.floats := by
  obtain ⟨count, counted, exact⟩ := ready.counted
  have bound := parameterCount.toNat_lt
  obtain ⟨written, run, cursor, stored, others⟩ := append_elements_spec bitCast mapping destination
    tensor.data tensor.shape.elements 0 writer (by omega) fun step below => by
      rw [Nat.zero_add]
      exact ready.finite step below
  have room : ¬(parameterCount < writer.cursor ∨ parameterCount - writer.cursor < count
      ∨ (count ≠ 0 ∧ mapping.data = [])) := by
    have early : writer.cursor ≤ parameterCount := by
      rw [UInt64.le_iff_toNat_le]
      omega
    rw [not_or, not_or, UInt64.lt_iff_toNat_lt, UInt64.lt_iff_toNat_lt,
      UInt64.toNat_sub_of_le _ _ early]
    refine ⟨by omega, by omega, ?_⟩
    rintro ⟨some_, empty⟩
    have inside := ready.inside
    rw [empty, List.length_nil] at inside
    exact some_ (UInt64.toNat_inj.mp (by rw [exact, UInt64.toNat_zero]; omega))
  refine ⟨written, ?_, cursor, fun step below => ?_, others⟩
  · rw [append, if_neg (by simp [ready.dtype, ready.memory]), counted]
    dsimp only
    rw [if_neg room, exact, run]
    rfl
  · rw [stored step below]
    dsimp only
    rw [Nat.zero_add]

/-! ## All tensors -/

/-- The address behind a view. -/
def viewEnd (view : FloatView) : Nat := view.data + view.shape.elements

/-- A view of floats that are the decoded values of a tensor of the file. -/
structure Decoded (floats : FlatMemory F) (tensor : ConstTensorView UInt64) (view : FloatView) :
    Prop where
  shape : view.shape = tensor.shape
  dtype : view.dtype = .f32
  memory : view.memory = .host
  values : ∀ index < tensor.shape.elements, ∃ first second,
    mapping.data[tensor.data.toNat + 2 * index]? = some first ∧
      mapping.data[tensor.data.toNat + 2 * index + 1]? = some second ∧
        floats (view.data + index) = decodeBf16 bitCast first second

omit [FloatOps F] in
/-- The element is read from the two bytes of its place. -/
theorem source_float_bytes (tensor : ConstTensorView UInt64) (index : Nat)
    (below : index < tensor.shape.elements)
    (inside : tensor.data.toNat + 2 * tensor.shape.elements ≤ mapping.data.length) :
    ∃ first second, mapping.data[tensor.data.toNat + 2 * index]? = some first ∧
      mapping.data[tensor.data.toNat + 2 * index + 1]? = some second ∧
        sourceFloat bitCast mapping tensor.data index = decodeBf16 bitCast first second := by
  have room := mapping.addressable
  have offset : (UInt64.ofNat index * 2).toNat = 2 * index := by
    rw [UInt64.toNat_mul, UInt64.toNat_ofNat', show (2 : UInt64).toNat = 2 from rfl,
      Nat.mod_eq_of_lt (show index < 2 ^ 64 by omega), Nat.mod_eq_of_lt (by omega), Nat.mul_comm]
  have low : tensor.data.toNat + 2 * index < mapping.data.length := by omega
  have high : tensor.data.toNat + 2 * index + 1 < mapping.data.length := by omega
  refine ⟨_, _, List.getElem?_eq_getElem low, List.getElem?_eq_getElem high, ?_⟩
  rw [sourceFloat, offset, List.getD_eq_getElem _ _ low, List.getD_eq_getElem _ _ high]

/-- The tensors so far: their views follow each other up to the cursor and hold their values, and
nothing else was written. -/
structure Progress (destination : Nat) (floats : FlatMemory F)
    (tensors : List (ConstTensorView UInt64)) (views : List FloatView) (writer : Writer F) :
    Prop where
  cursor : writer.cursor.toNat = totalElements tensors
  decoded : List.Forall₂ (Decoded bitCast mapping writer.floats) tensors views
  tiled : Tiles (fun view : FloatView => view.data) viewEnd destination views
    (destination + writer.cursor.toNat)
  others : SameExcept (Within destination writer.cursor.toNat) floats writer.floats

theorem append_progress {destination : Nat} {parameterCount : UInt64} {floats : FlatMemory F}
    {tensors : List (ConstTensorView UInt64)} {views : List FloatView} {writer : Writer F}
    (tensor : ConstTensorView UInt64) (ready : Ready bitCast mapping tensor)
    (progress : Progress bitCast mapping destination floats tensors views writer)
    (fits : totalElements (tensors ++ [tensor]) ≤ parameterCount.toNat) :
    ∃ view written, append bitCast mapping destination parameterCount tensor writer =
        (.ok view, written) ∧
      Progress bitCast mapping destination floats (tensors ++ [tensor]) (views ++ [view])
        written := by
  have total : totalElements (tensors ++ [tensor]) =
      writer.cursor.toNat + tensor.shape.elements := by
    simp [progress.cursor]
  obtain ⟨written, run, cursor, stored, others⟩ := append_spec bitCast mapping destination
    parameterCount tensor writer ready (by omega)
  refine ⟨_, written, run, by rw [total, cursor], ?_, ?_, ?_⟩
  · obtain ⟨sameLength, each⟩ := List.forall₂_iff_zip.mp progress.decoded
    refine List.rel_append (List.forall₂_iff_zip.mpr ⟨sameLength, fun {source view} paired => ?_⟩)
      (List.Forall₂.cons ?_ List.Forall₂.nil)
    · -- The views so far end before the cursor, where the new elements begin.
      have before := (progress.tiled.inside view (List.of_mem_zip paired).2).2
      obtain ⟨shape, dtype, memory, values⟩ := each paired
      refine ⟨shape, dtype, memory, fun index below => ?_⟩
      rw [viewEnd, shape] at before
      rw [others _ fun inside => by have := inside.1; omega]
      exact values index below
    · refine ⟨rfl, rfl, rfl, fun index below => ?_⟩
      obtain ⟨first, second, low, high, value⟩ :=
        source_float_bytes bitCast mapping tensor index below ready.inside
      exact ⟨first, second, low, high, (stored index below).trans value⟩
  · have next := progress.tiled.snoc
      ⟨destination + writer.cursor.toNat, tensor.shape, .f32, .host⟩ rfl (Nat.le_add_right _ _)
    rwa [viewEnd, Nat.add_assoc, ← cursor] at next
  · intro address outside
    rw [others address fun inside => outside ⟨by have := inside.1; omega, by
      have := inside.2; omega⟩]
    exact progress.others address fun inside => outside (within_mono _ _ _ _ (by omega) inside)

/-- All tensors of a model, in the order in which they are appended. -/
def sourceTensors (source : LoadedWeights) : List (ConstTensorView UInt64) :=
  source.embedding :: source.layers.flatMap LayerWeights.all ++ [source.finalNorm]

def MaterializedWeights.views (weights : MaterializedWeights) : List FloatView :=
  weights.embedding :: weights.layers.flatMap LayerWeights.all ++ [weights.finalNorm]

theorem append_layer_progress {destination : Nat} {parameterCount : UInt64}
    {floats : FlatMemory F} {tensors : List (ConstTensorView UInt64)} {views : List FloatView}
    {writer : Writer F} (layer : LayerWeights UInt64)
    (ready : ∀ tensor ∈ layer.all, Ready bitCast mapping tensor)
    (progress : Progress bitCast mapping destination floats tensors views writer)
    (fits : totalElements (tensors ++ layer.all) ≤ parameterCount.toNat) :
    ∃ weights written, appendLayer bitCast mapping destination parameterCount layer writer =
        (.ok weights, written) ∧
      Progress bitCast mapping destination floats (tensors ++ layer.all) (views ++ weights.all)
        written := by
  have step : ∀ (before : List (ConstTensorView UInt64)) (tensor : ConstTensorView UInt64)
      (after : List (ConstTensorView UInt64)) (views : List FloatView) (writer : Writer F),
      layer.all = before ++ tensor :: after →
      Progress bitCast mapping destination floats (tensors ++ before) views writer →
      ∃ view written, append bitCast mapping destination parameterCount tensor writer =
          (.ok view, written) ∧
        Progress bitCast mapping destination floats (tensors ++ (before ++ [tensor]))
          (views ++ [view]) written := by
    intro before tensor after views writer split progress
    rw [← List.append_assoc]
    refine append_progress bitCast mapping tensor (ready tensor (by simp [split])) progress ?_
    -- The tensors up to this one need no more room than all of them.
    simp only [split, total_elements_append, total_elements_cons, total_elements_nil] at fits ⊢
    omega
  obtain ⟨inputNorm, _, run₁, progress⟩ := step [] layer.inputNorm _ _ _ rfl
    (by rwa [List.append_nil])
  obtain ⟨query, _, run₂, progress⟩ := step _ layer.attention.query _ _ _ rfl progress
  obtain ⟨key, _, run₃, progress⟩ := step _ layer.attention.key _ _ _ rfl progress
  obtain ⟨value, _, run₄, progress⟩ := step _ layer.attention.value _ _ _ rfl progress
  obtain ⟨output, _, run₅, progress⟩ := step _ layer.attention.output _ _ _ rfl progress
  obtain ⟨postNorm, _, run₆, progress⟩ := step _ layer.postAttentionNorm _ _ _ rfl progress
  obtain ⟨gate, _, run₇, progress⟩ := step _ layer.mlp.gate _ _ _ rfl progress
  obtain ⟨up, _, run₈, progress⟩ := step _ layer.mlp.up _ _ _ rfl progress
  obtain ⟨down, written, run₉, progress⟩ := step _ layer.mlp.down _ _ _ rfl progress
  refine ⟨⟨inputNorm, ⟨query, key, value, output⟩, postNorm, ⟨gate, up, down⟩⟩, written, ?_, ?_⟩
  · rw [appendLayer]
    dsimp only
    rw [run₁, run₂, run₃, run₄, run₅, run₆, run₇, run₈, run₉]
  · simpa [LayerWeights.all] using progress

theorem append_layers_progress {destination : Nat} {parameterCount : UInt64}
    {floats : FlatMemory F} (layers : List (LayerWeights UInt64))
    {tensors : List (ConstTensorView UInt64)} {views : List FloatView}
    (before : List (LayerWeights Nat)) {writer : Writer F}
    (ready : ∀ tensor ∈ layers.flatMap LayerWeights.all, Ready bitCast mapping tensor)
    (progress : Progress bitCast mapping destination floats tensors
      (views ++ before.flatMap LayerWeights.all) writer)
    (fits : totalElements (tensors ++ layers.flatMap LayerWeights.all) ≤ parameterCount.toNat) :
    ∃ weights written,
      appendLayers bitCast mapping destination parameterCount layers before writer =
        (.ok weights, written) ∧
      Progress bitCast mapping destination floats (tensors ++ layers.flatMap LayerWeights.all)
        (views ++ weights.flatMap LayerWeights.all) written := by
  induction layers generalizing tensors before writer with
  | nil => exact ⟨before, writer, rfl, by simpa using progress⟩
  | cons layer others ih =>
    rw [List.flatMap_cons, ← List.append_assoc] at fits
    rw [List.flatMap_cons] at ready
    have layerFits : totalElements (tensors ++ layer.all) ≤ parameterCount.toNat := by
      rw [total_elements_append] at fits
      omega
    obtain ⟨weights, written, run, progress⟩ := append_layer_progress bitCast mapping layer
      (fun tensor listed => ready tensor (List.mem_append_left _ listed)) progress layerFits
    obtain ⟨all, final, rest, progress⟩ := ih (before ++ [weights])
      (fun tensor listed => ready tensor (List.mem_append_right _ listed))
      (by simpa [List.append_assoc] using progress) fits
    refine ⟨all, final, ?_, ?_⟩
    · rw [appendLayers, run]
      exact rest
    · rwa [List.flatMap_cons, ← List.append_assoc]

/-- A model whose tensors fit the storage exactly is appended completely. -/
theorem append_model_progress {parameterCount : UInt64} {floats : FlatMemory F}
    (source : LoadedWeights) (storage : HostBuffer)
    (ready : ∀ tensor ∈ sourceTensors source, Ready bitCast mapping tensor)
    (exact : totalElements (sourceTensors source) = parameterCount.toNat) :
    ∃ weights written, appendModel bitCast mapping parameterCount source storage ⟨0, floats⟩ =
        (.ok weights, written) ∧
      weights.storage = storage ∧ weights.outputHead = weights.embedding ∧
      written.cursor = parameterCount ∧
      Progress bitCast mapping storage.data floats (sourceTensors source) weights.views
        written := by
  have start : Progress bitCast mapping storage.data floats [] [] ⟨0, floats⟩ :=
    ⟨rfl, List.Forall₂.nil, Tiles.done _, SameExcept.refl _ _⟩
  have total := exact
  simp only [sourceTensors, total_elements_append, total_elements_cons, total_elements_nil] at total
  have embeddingListed : source.embedding ∈ sourceTensors source := by simp [sourceTensors]
  have normListed : source.finalNorm ∈ sourceTensors source := by simp [sourceTensors]
  -- three appends in the order of the file's views; each fits since all of them together do
  have embeddingFits : totalElements ([] ++ [source.embedding]) ≤ parameterCount.toNat := by
    simp only [total_elements_append, total_elements_cons, total_elements_nil]
    omega
  obtain ⟨embedding, _, run, progress⟩ := append_progress bitCast mapping source.embedding
    (ready _ embeddingListed) start embeddingFits
  have layersFit : totalElements ([] ++ [source.embedding] ++
      source.layers.flatMap LayerWeights.all) ≤ parameterCount.toNat := by
    simp only [total_elements_append, total_elements_cons, total_elements_nil]
    omega
  obtain ⟨layers, _, runLayers, progress⟩ := append_layers_progress bitCast mapping source.layers []
    (fun tensor listed => ready tensor (by
      rw [sourceTensors]
      exact List.mem_append_left _ (List.mem_cons_of_mem _ listed)))
    (by simpa using progress) layersFit
  have whole : [] ++ [source.embedding] ++ source.layers.flatMap LayerWeights.all ++
      [source.finalNorm] = sourceTensors source := by
    simp [sourceTensors]
  have normFits : totalElements ([] ++ [source.embedding] ++
      source.layers.flatMap LayerWeights.all ++ [source.finalNorm]) ≤ parameterCount.toNat :=
    whole ▸ exact.le
  obtain ⟨finalNorm, written, runNorm, progress⟩ := append_progress bitCast mapping
    source.finalNorm (ready _ normListed) progress normFits
  rw [whole] at progress
  -- the count that `append_model` compares at the end
  have filled : written.cursor = parameterCount := by
    rw [← UInt64.toNat_inj, progress.cursor, exact]
  refine ⟨⟨storage, embedding, finalNorm, embedding, layers⟩, written, ?_, rfl, rfl, filled, ?_⟩
  · rw [appendModel, run]
    dsimp only
    rw [runLayers]
    dsimp only
    rw [runNorm]
    dsimp only
    rw [if_neg (by simp [filled])]
  · simpa [MaterializedWeights.views] using progress

end

/-! ## The tensors of a bound checkpoint -/

section

variable {file : SafeTensorFile} {spec : ModelSpec F} {source : LoadedWeights}

/-- The tensors are appended in the order of their roles. -/
theorem source_tensors_roles (bound : BoundTo file spec source) :
    List.Forall₂ (fun (tensor : ModelTensor) view => file.tensor tensor.name = .ok view)
      (modelTensors spec.layers.toNat) (sourceTensors source) := by
  have layers : List.Forall₂ (fun index layer => ∀ role : LayerTensor,
      file.tensor (ModelTensor.layer index role).name = .ok (role.field layer))
      (List.range spec.layers.toNat) source.layers := by
    refine List.forall₂_iff_get.mpr ⟨by rw [List.length_range, bound.layer_count], ?_⟩
    intro index below inside role
    rw [List.get_eq_getElem, List.getElem_range]
    exact bound.layer_tensors index _ (List.getElem?_eq_getElem inside) role
  have each : List.Forall₂ (fun (tensor : ModelTensor) view => file.tensor tensor.name = .ok view)
      ((List.range spec.layers.toNat).flatMap fun index =>
        LayerTensor.all.map (ModelTensor.layer index))
      (source.layers.flatMap LayerWeights.all) := by
    refine List.rel_flatMap layers fun index layer fields => ?_
    have ordered : layer.all = LayerTensor.all.map fun role => role.field layer := rfl
    rw [ordered, List.forall₂_map_left_iff, List.forall₂_map_right_iff, List.forall₂_same]
    exact fun role _ => fields role
  have last : List.Forall₂ (fun (tensor : ModelTensor) view => file.tensor tensor.name = .ok view)
      [.finalNorm] [source.finalNorm] := List.Forall₂.cons bound.final_norm List.Forall₂.nil
  have front : List.Forall₂ (fun (tensor : ModelTensor) view => file.tensor tensor.name = .ok view)
      (.embedding :: (List.range spec.layers.toNat).flatMap fun index =>
        LayerTensor.all.map (ModelTensor.layer index))
      (source.embedding :: source.layers.flatMap LayerWeights.all) :=
    List.Forall₂.cons bound.embedding each
  exact List.rel_append front last

/-- What the view of a tensor of the model takes over from its record. -/
theorem held_view (known : ParsedFile file) {tensor : ModelTensor}
    {view : ConstTensorView UInt64} (held : Model.Holds file spec tensor)
    (viewed : file.tensor tensor.name = .ok view) :
    view.dtype = .bf16 ∧ view.memory = .host ∧
      view.shape.elements = (tensor.extents spec).prod ∧
      ∃ count, checkedNumel view.shape = .ok count ∧ count.toNat = view.shape.elements := by
  obtain ⟨record, found, dtype, dims⟩ := held
  rw [tensor_of_record known _ record found] at viewed
  obtain rfl := Except.ok.inj viewed
  have listed := ((record_iff known _ record).mp found).1
  have elements : record.shape.elements = (tensor.extents spec).prod := by
    rw [Shape.elements, dims]
  refine ⟨dtype, rfl, elements, ?_⟩
  have short : record.shape.dims.length ≤ Shape.maxRank := by
    rw [← List.length_map UInt64.toNat, dims]
    exact Nat.le_trans (extents_fit spec tensor).1 (by decide)
  exact checked_numel_made record.shape (known.shapes record listed) short
    (known.sound.records record listed).products

/-- The tensors of a bound file have the elements of the model. -/
theorem source_elements (known : ParsedFile file) (bound : BoundTo file spec source)
    (held : ∀ tensor ∈ modelTensors spec.layers.toNat, Model.Holds file spec tensor) :
    totalElements (sourceTensors source) =
      ((modelTensors spec.layers.toNat).map fun tensor => (tensor.extents spec).prod).sum := by
  have same : List.Forall₂ (fun (tensor : ModelTensor) (view : ConstTensorView UInt64) =>
      (tensor.extents spec).prod = view.shape.elements)
      (modelTensors spec.layers.toNat) (sourceTensors source) := by
    obtain ⟨sameLength, each⟩ := List.forall₂_iff_zip.mp (source_tensors_roles bound)
    refine List.forall₂_iff_zip.mpr ⟨sameLength, fun {tensor view} paired => ?_⟩
    exact (held_view known (held tensor (List.of_mem_zip paired).1) (each paired)).2.2.1.symm
  rw [totalElements]
  congr 1
  have equal : List.Forall₂ Eq
      ((modelTensors spec.layers.toNat).map fun tensor => (tensor.extents spec).prod)
      ((sourceTensors source).map fun view => view.shape.elements) := by
    rwa [List.forall₂_map_left_iff, List.forall₂_map_right_iff]
  rw [List.forall₂_eq_eq_eq] at equal
  exact equal.symm

/-- The bytes of the file are those of the tensors of the model. -/
theorem model_bytes {mapping : ByteSpan} {maximumHeaderBytes : UInt64}
    (parsed : SafeTensorFile.parse mapping maximumHeaderBytes = .ok file)
    (holds : HoldsModel file spec false) :
    2 * ((modelTensors spec.layers.toNat).map fun tensor => (tensor.extents spec).prod).sum ≤
      mapping.data.length := by
  have known := parsed_file parsed
  rw [SafeTensorFile.parse] at parsed
  split at parsed
  next => cases parsed
  next metadata accepted =>
    obtain rfl := Except.ok.inj parsed
    obtain ⟨members, checked⟩ := (parse_metadata_iff _ _ _).mp accepted
    have total := records_total checked
    have region := region_size_exact mapping
    -- The size of a tensor as a function of its name alone.
    let size : List UInt8 → Nat := fun name =>
      ((SafeTensorFile.record ⟨mapping, metadata⟩ name).map fun record =>
        record.shape.elements * record.dtype.size).getD 0
    have recorded : (metadata.records.map TensorRecord.name).map size =
        metadata.records.map fun record => record.shape.elements * record.dtype.size := by
      rw [List.map_map]
      refine List.map_congr_left fun record listed => ?_
      simp [size, record_of_mem known record listed]
    have expected : ((modelTensors spec.layers.toNat).map ModelTensor.name).map size =
        (modelTensors spec.layers.toNat).map fun tensor => 2 * (tensor.extents spec).prod := by
      rw [List.map_map]
      refine List.map_congr_left fun tensor listed => ?_
      obtain ⟨record, found, dtype, dims⟩ := holds.tensors tensor (List.mem_append_left _ listed)
      simp [size, found, dtype, DType.size, Shape.elements, dims, Nat.mul_comm]
    have names := holds.names
    rw [checkpointTensors, if_neg (by decide), List.append_nil] at names
    have sums := (names.map size).sum_eq
    rw [recorded, expected, List.sum_map_mul_left] at sums
    omega

end

/-! ## The materialized weights -/

section

variable [FloatOps F] (bitCast : UInt32 → F)

/-- The storage is filled exactly, with the views of the tensors one behind the other. -/
structure Materialized (source : LoadedWeights) (address count : Nat) (floats : FlatMemory F)
    (weights : MaterializedWeights) (written : Writer F) : Prop where
  storage : weights.storage = ⟨address, count⟩
  cursor : written.cursor.toNat = count
  inside : SameExcept (Within address count) floats written.floats
  apart : weights.views.Pairwise fun left right =>
    Apart left.data left.shape.elements right.data right.shape.elements
  covered : ∀ position, Within address count position ↔
    ∃ view ∈ weights.views, Within view.data view.shape.elements position
  decoded : List.Forall₂ (Decoded bitCast source.file.mapping written.floats)
    (sourceTensors source) weights.views
  layer_count : weights.layers.length = source.layers.length
  shared_head : weights.outputHead = weights.embedding

theorem parse_mapping {mapping : ByteSpan} {maximumHeaderBytes : UInt64} {file : SafeTensorFile}
    (parsed : SafeTensorFile.parse mapping maximumHeaderBytes = .ok file) :
    file.mapping = mapping := by
  rw [SafeTensorFile.parse] at parsed
  split at parsed
  next => cases parsed
  next => exact (Except.ok.inj parsed) ▸ rfl

/-- The storage of a count that fits four times in a machine word. -/
theorem allocate_exact {count : UInt64} (positive : 0 < count.toNat)
    (small : 4 * count.toNat < 2 ^ 64) (address : Nat) :
    checkedMultiply count 4 = .ok (count * 4) ∧
      HostBuffer.allocate (some address) (count * 4) = .ok ⟨address, count.toNat⟩ := by
  have four : (4 : UInt64).toNat = 4 := rfl
  have storageBytes : (count * 4).toNat = 4 * count.toNat := by
    rw [UInt64.toNat_mul, four, Nat.mod_eq_of_lt (by omega), Nat.mul_comm]
  have nonzero : count * 4 ≠ 0 := by
    rw [ne_eq, ← UInt64.toNat_inj, storageBytes, UInt64.toNat_zero]
    omega
  refine ⟨checked_multiply_of_lt count 4 (by rw [four]; omega), ?_⟩
  rw [HostBuffer.allocate, if_neg nonzero, storageBytes, Nat.mul_div_cancel_left _ (by decide)]

section Bound

variable {spec : ModelSpec F} {file : SafeTensorFile} {source : LoadedWeights}
  (known : ParsedFile file)
include known

/-- A bound file whose records name no output head holds the model without one. -/
theorem holds_headless (bindable : Bindable spec)
    (binding : LoadedWeights.bind file spec = .ok source)
    (headless : ModelTensor.outputHead.name ∉ file.metadata.records.map TensorRecord.name) :
    HoldsModel file spec false := by
  obtain ⟨explicitHead, holds⟩ := holds_model_of_bound known spec bindable source binding
  cases explicitHead with
  | false => exact holds
  | true => exact absurd (holds.names.mem_iff.mpr (by simp [checkpointTensors])) headless

variable {bitCast}

/-- The tensors of a bound file are fit to be appended where their values are finite. -/
theorem sources_ready (bound : BoundTo file spec source)
    (held : ∀ tensor ∈ modelTensors spec.layers.toNat, Model.Holds file spec tensor)
    (finite : ∀ tensor ∈ sourceTensors source, ∀ index < tensor.shape.elements,
      isFinite (sourceFloat bitCast file.mapping tensor.data index) = true) :
    ∀ tensor ∈ sourceTensors source, Ready bitCast file.mapping tensor := by
  intro view listed
  obtain ⟨tensor, role, viewed⟩ := forall₂_right (source_tensors_roles bound) view listed
  obtain ⟨dtype, memory, _, counted⟩ := held_view known (held tensor role) viewed
  have placed := known.views.inside _ _ viewed
  rw [dtype, DType.size, Nat.mul_comm] at placed
  exact ⟨dtype, memory, counted, placed, finite _ listed⟩

end Bound

variable {bitCast}

omit [FloatOps F] in
/-- Appends that fill the storage have materialized the model. -/
theorem materialized_of_progress {source : LoadedWeights} {address : Nat} {count : UInt64}
    {floats : FlatMemory F} {weights : MaterializedWeights} {written : Writer F}
    (stored : weights.storage = ⟨address, count.toNat⟩)
    (head : weights.outputHead = weights.embedding) (cursor : written.cursor = count)
    (progress : Progress bitCast source.file.mapping address floats (sourceTensors source)
      weights.views written) :
    Materialized bitCast source address count.toNat floats weights written := by
  have tiled := progress.tiled
  rw [cursor] at tiled
  have others := progress.others
  rw [cursor] at others
  refine {
    storage := stored
    cursor := by rw [cursor]
    inside := others
    apart := tiled.pairwise.imp fun before => Or.inl before
    covered := fun position => ⟨?_, ?_⟩
    decoded := progress.decoded
    layer_count := ?_
    shared_head := head }
  · rintro ⟨above, below⟩
    exact tiled.covered position above below
  · rintro ⟨view, listed, above, below⟩
    obtain ⟨low, high⟩ := tiled.inside view listed
    dsimp only [viewEnd] at low high
    exact ⟨by omega, by omega⟩
  · have lengths := progress.decoded.length_eq
    have nine : ∀ {Pointer : Type} (layers : List (LayerWeights Pointer)),
        (layers.flatMap LayerWeights.all).length = 9 * layers.length := by
      intro Pointer layers
      rw [List.length_flatMap]
      simp [LayerWeights.all, Nat.mul_comm]
    simp only [sourceTensors, MaterializedWeights.views, List.length_append, List.length_cons,
      nine] at lengths
    omega

variable (bitCast)

/-- The estimate is the number of elements of the expected tensors, and a bound file without an
output head and with finite values is materialized completely. -/
theorem materialize_exact (spec : ModelSpec F) (bindable : Bindable spec) :
    ∃ count expected, estimateParameterCount spec = .ok count ∧
      smollm2ExpectedTensors spec = .ok expected ∧
      count.toNat = (expected.map fun tensor => tensor.shape.elements).sum ∧
      ∀ (mapping : MappedFile) (maximumHeaderBytes : UInt64) (file : SafeTensorFile)
        (source : LoadedWeights),
        SafeTensorFile.parse mapping.toByteSpan maximumHeaderBytes = .ok file →
        LoadedWeights.bind file spec = .ok source →
        ModelTensor.outputHead.name ∉ file.metadata.records.map TensorRecord.name →
        (∀ tensor ∈ sourceTensors source, ∀ index < tensor.shape.elements,
          isFinite (sourceFloat bitCast mapping.toByteSpan tensor.data index) = true) →
        ∀ (address : Nat) (floats : FlatMemory F), ∃ weights written,
          materializeSmollm2 bitCast (some address) source spec floats = (.ok weights, written) ∧
            Materialized bitCast source address count.toNat floats weights written := by
  obtain ⟨structural, count, estimate⟩ := validate_ok spec bindable.valid
  have exact : count.toNat = spec.parameters :=
    ((estimate_computes spec structural).exact count).mp estimate
  have roles := model_elements spec bindable.unbiased bindable.tied
  refine ⟨count, _, estimate, expected_tensors_eq spec, ?_, ?_⟩
  · rw [exact, ← roles, List.map_map]
    congr 1
    exact List.map_congr_left fun tensor _ => (expected_elements spec tensor).symm
  · intro mapping maximumHeaderBytes file source parsed binding headless finite address floats
    have known := parsed_file parsed
    have bound := bound_to known spec bindable source binding
    have holds := holds_headless known bindable binding headless
    have held : ∀ tensor ∈ modelTensors spec.layers.toNat, Model.Holds file spec tensor :=
      fun tensor listed => holds.tensors tensor (List.mem_append_left _ listed)
    have total : totalElements (sourceTensors source) = count.toNat := by
      rw [source_elements known bound held, roles, exact]
    -- Twice the count fits in a file, so four times the count fits in a machine word.
    have bytes := model_bytes parsed holds
    rw [roles, ← exact] at bytes
    have sized := mapping.sized
    have positive : 0 < count.toNat := by
      have filled := embedding_filled spec structural
      rw [exact, ModelSpec.parameters, bindable.tied, if_pos rfl]
      omega
    obtain ⟨scaled, allocated⟩ := allocate_exact positive (by omega) address
    have ready := sources_ready known bound held (by rwa [parse_mapping parsed])
    rw [← bound.file_kept] at ready
    obtain ⟨weights, written, run, stored, head, cursor, progress⟩ := append_model_progress bitCast
      source.file.mapping source ⟨address, count.toNat⟩ ready total
    refine ⟨weights, written, ?_, materialized_of_progress stored head cursor progress⟩
    have shared : source.outputHeadAliasesEmbedding = true := bound.aliases.mpr headless
    rw [materializeSmollm2, if_neg (by simp [shared, bound.layer_count])]
    dsimp only
    rw [ok_bind _ estimate, ok_bind _ scaled, ok_bind _ allocated]
    exact run

end

/-- A checkpoint of eleven ones is materialized into eleven floats. -/
theorem materialize_exact_one_layer : ∃ source weights written,
    @LoadedWeights.bind _ plainFloats ⟨oneLayerFile, oneLayerMetadata⟩ oneLayerSpec = .ok source ∧
      @materializeSmollm2 _ plainFloats bitCast (some 64) source oneLayerSpec (fun _ => .nan) =
        (.ok weights, written) ∧
      Materialized bitCast source 64 11 (fun _ => .nan) weights written := by
  obtain ⟨count, expected, estimate, _, _, materialized⟩ :=
    @materialize_exact _ plainFloats bitCast oneLayerSpec one_layer_bindable
  have eleven : estimateParameterCount oneLayerSpec = .ok 11 := by decide +kernel
  obtain rfl := Except.ok.inj (estimate.symm.trans eleven)
  have checked : ((@LoadedWeights.bind _ plainFloats ⟨oneLayerFile, oneLayerMetadata⟩
      oneLayerSpec).toOption.map fun source => (sourceTensors source).all fun tensor =>
        (List.range tensor.shape.elements).all fun index =>
          finite (sourceFloat bitCast oneLayerFile tensor.data index)) = some true := by
    decide +kernel
  cases binding : @LoadedWeights.bind _ plainFloats ⟨oneLayerFile, oneLayerMetadata⟩
      oneLayerSpec with
  | error status => rw [binding] at checked; cases checked
  | ok source =>
    rw [binding] at checked
    have finites := List.all_eq_true.mp (Option.some.inj checked)
    obtain ⟨weights, written, run, exact⟩ := materialized ⟨oneLayerFile, by decide +kernel⟩ 4096 _
      source one_layer_parsed binding (by decide +kernel)
      (fun tensor listed index below => List.all_eq_true.mp (finites tensor listed) index
        (List.mem_range.mpr below)) 64 fun _ => .nan
    exact ⟨source, weights, written, rfl, run, exact⟩

end MarketForge.Cpu
