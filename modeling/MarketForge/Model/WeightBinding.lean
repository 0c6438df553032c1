import MarketForge.Cpu.Binary32
import MarketForge.Model.SafetensorsSound
import MarketForge.Model.WeightNames

/-!
# What binding a checkpoint guarantees

Binding succeeds exactly for the files that hold the tensors of the model, and then every field
of every layer is the view of the tensor with its name.
-/
namespace MarketForge.Model

open Cpu

variable {F : Type}

/-! ## The two sides of the equivalence -/

/-- The file has a tensor of this role, of the right type and extents. -/
def Holds (file : SafeTensorFile) (spec : ModelSpec F) (tensor : ModelTensor) : Prop :=
  ∃ record, file.record tensor.name = some record ∧ record.dtype = .bf16 ∧
    record.shape.dims.map UInt64.toNat = tensor.extents spec

/-- The tensors of a checkpoint that may state its output head explicitly. -/
def checkpointTensors (spec : ModelSpec F) (explicitHead : Bool) : List ModelTensor :=
  modelTensors spec.layers.toNat ++ if explicitHead then [.outputHead] else []

/-- The names of the file are those of the model, each once, and every tensor is as expected. -/
structure HoldsModel (file : SafeTensorFile) (spec : ModelSpec F) (explicitHead : Bool) : Prop where
  names : (file.metadata.records.map TensorRecord.name).Perm
    ((checkpointTensors spec explicitHead).map ModelTensor.name)
  tensors : ∀ tensor ∈ checkpointTensors spec explicitHead, Holds file spec tensor

/-- Every member of the loaded weights is the view of its tensor. -/
structure BoundTo (file : SafeTensorFile) (spec : ModelSpec F)
    (weights : LoadedWeights) : Prop where
  file_kept : weights.file = file
  embedding : file.tensor ModelTensor.embedding.name = .ok weights.embedding
  final_norm : file.tensor ModelTensor.finalNorm.name = .ok weights.finalNorm
  layer_count : weights.layers.length = spec.layers.toNat
  layer_tensors : ∀ (index : Nat) (layer : LayerWeights UInt64),
    weights.layers[index]? = some layer →
    ∀ role : LayerTensor, file.tensor (ModelTensor.layer index role).name = .ok (role.field layer)
  aliases : weights.outputHeadAliasesEmbedding = true ↔
    ModelTensor.outputHead.name ∉ file.metadata.records.map TensorRecord.name
  shared_head : weights.outputHeadAliasesEmbedding = true → weights.outputHead = weights.embedding
  own_head : weights.outputHeadAliasesEmbedding = false →
    file.tensor ModelTensor.outputHead.name = .ok weights.outputHead ∧
      weights.outputHead.data ≠ weights.embedding.data

/-! ## The expected tensors -/

def expectedTensor (spec : ModelSpec F) (tensor : ModelTensor) : ExpectedTensor where
  name := tensor.name
  shape := .ofExtents ((tensor.extents spec).map UInt64.ofNat)

/-- The list of the source names every role of the model once, with its extents. -/
theorem expected_tensors_eq (spec : ModelSpec F) : smollm2ExpectedTensors spec =
    .ok ((modelTensors spec.layers.toNat).map (expectedTensor spec)) := by
  have width : spec.kvHeads.toUInt64 * spec.headDim.toUInt64 = UInt64.ofNat spec.kvWidth := by
    rw [ModelSpec.kvWidth, UInt64.ofNat_mul, UInt64.ofNat_uInt32ToNat, UInt64.ofNat_uInt32ToNat]
  have word : ∀ count : UInt32, count.toUInt64 = UInt64.ofNat count.toNat := fun count =>
    (UInt64.ofNat_uInt32ToNat count).symm
  have vector : ∀ extent : UInt64, shapeOf [extent] = .ok (.ofExtents [extent]) := fun _ => rfl
  have matrix : ∀ rows columns : UInt64,
      shapeOf [rows, columns] = .ok (.ofExtents [rows, columns]) :=
    fun _ _ => rfl
  rw [smollm2ExpectedTensors, width, word, word, word, matrix, vector,
    matrix, matrix, matrix, matrix]
  simp only [modelTensors, List.map_append, List.map_cons, List.map_flatMap, List.map_map]
  rfl

theorem extents_fit (spec : ModelSpec F) (tensor : ModelTensor) :
    (tensor.extents spec).length ≤ 2 ∧ ∀ extent ∈ tensor.extents spec, extent < 2 ^ 64 := by
  have hidden := spec.hiddenSize.toNat_lt
  have intermediate := spec.intermediateSize.toNat_lt
  have vocabulary := spec.vocabularySize.toNat_lt
  have width : spec.kvWidth < 2 ^ 32 * 2 ^ 32 :=
    Nat.mul_lt_mul'' spec.kvHeads.toNat_lt spec.headDim.toNat_lt
  have pair : ∀ (first second : Nat), first < 2 ^ 64 → second < 2 ^ 64 →
      ([first, second].length ≤ 2 ∧ ∀ extent ∈ [first, second], extent < 2 ^ 64) := by
    intro first second firstFits secondFits
    refine ⟨by simp, ?_⟩
    rw [List.forall_mem_cons, List.forall_mem_singleton]
    exact ⟨firstFits, secondFits⟩
  have single : ∀ first : Nat, first < 2 ^ 64 →
      ([first].length ≤ 2 ∧ ∀ extent ∈ [first], extent < 2 ^ 64) := by
    intro first fits
    refine ⟨by simp, ?_⟩
    rwa [List.forall_mem_singleton]
  cases tensor with
  | embedding => exact pair _ _ (by omega) (by omega)
  | outputHead => exact pair _ _ (by omega) (by omega)
  | finalNorm => exact single _ (by omega)
  | layer index role =>
    cases role with
    | inputNorm | postAttentionNorm => exact single _ (by omega)
    | _ => exact pair _ _ (by omega) (by omega)

/-- The dimensions of an expected shape are its extents. -/
theorem expected_dims (spec : ModelSpec F) (tensor : ModelTensor) :
    (expectedTensor spec tensor).shape.dims.map UInt64.toNat = tensor.extents spec := by
  obtain ⟨short, fits⟩ := extents_fit spec tensor
  have dims : (expectedTensor spec tensor).shape.dims =
      (tensor.extents spec).map UInt64.ofNat :=
    shape_of_extents_dims _ (by
      rw [List.length_map]
      exact Nat.le_trans short (by decide))
  rw [dims, List.map_map]
  refine (List.map_congr_left fun extent listed => ?_).trans (List.map_id _)
  rw [Function.comp_apply, UInt64.toNat_ofNat', Nat.mod_eq_of_lt (fits extent listed), id]

/-- A made shape is the expected one exactly when it has its extents. -/
theorem expected_shape_iff (spec : ModelSpec F) (tensor : ModelTensor) (shape : Shape)
    (made : shape = .ofExtents shape.dims) :
    shape = (expectedTensor spec tensor).shape ↔
      shape.dims.map UInt64.toNat = tensor.extents spec := by
  constructor
  · intro same
    rw [same, expected_dims]
  · intro same
    have words : shape.dims = (tensor.extents spec).map UInt64.ofNat := by
      rw [← same, List.map_map]
      refine ((List.map_congr_left fun extent _ => ?_).trans (List.map_id _)).symm
      rw [Function.comp_apply, UInt64.ofNat_toNat, id]
    rw [made, words, expectedTensor]

/-! ## Records and views -/

/-- The shape of a record is made from the extents of the header. -/
theorem parse_tensor_record_shape (name : List UInt8) (value : JsonValue) (dataSize : UInt64)
    (record : TensorRecord) (parsed : parseTensorRecord name value dataSize = .ok record) :
    record.shape = .ofExtents record.shape.dims := by
  have fields : ∀ dtypeValue shapeValues beginValue endValue,
      parseTensorFields name dtypeValue shapeValues beginValue endValue dataSize = .ok record →
        record.shape = .ofExtents record.shape.dims := by
    intro dtypeValue shapeValues beginValue endValue accepted
    obtain ⟨_, _, accepted⟩ := bind_eq_ok.mp accepted
    obtain ⟨extents, _, accepted⟩ := bind_eq_ok.mp accepted
    obtain ⟨shape, made, accepted⟩ := bind_eq_ok.mp accepted
    obtain ⟨_, _, accepted⟩ := bind_eq_ok.mp accepted
    obtain ⟨_, _, accepted⟩ := bind_eq_ok.mp accepted
    split at accepted
    next => cases accepted
    next =>
      obtain ⟨_, _, accepted⟩ := bind_eq_ok.mp accepted
      split at accepted
      next => cases accepted
      next =>
        obtain rfl := Except.ok.inj accepted
        dsimp only
        rw [make_shape_dims extents shape made]
        rw [makeShape] at made
        split at made
        next => cases made
        next => exact (Except.ok.inj made).symm
  cases value with
  | object members =>
    rw [parseTensorRecord] at parsed
    split at parsed
    next => cases parsed
    next =>
      split at parsed
      next =>
        split at parsed
        next => cases parsed
        next => exact fields _ _ _ _ parsed
      next => cases parsed
  | _ => cases parsed

theorem parse_records_shape (dataSize : UInt64) (members : List (List UInt8 × JsonValue))
    (records result : List TensorRecord)
    (parsed : parseRecords dataSize members records = .ok result)
    (before : ∀ record ∈ records, record.shape = .ofExtents record.shape.dims) :
    ∀ record ∈ result, record.shape = .ofExtents record.shape.dims := by
  induction members generalizing records with
  | nil =>
    obtain rfl := Except.ok.inj parsed
    exact before
  | cons member members ih =>
    obtain ⟨name, value⟩ := member
    rw [parseRecords] at parsed
    split at parsed
    next =>
      dsimp only at parsed
      split at parsed
      next => exact ih records parsed before
      next => cases parsed
    next =>
      split at parsed
      next => cases parsed
      next record accepted =>
        refine ih (records ++ [record]) parsed fun other listed => ?_
        rcases List.mem_append.mp listed with earlier | last
        · exact before other earlier
        · obtain rfl := List.mem_singleton.mp last
          exact parse_tensor_record_shape name value dataSize other accepted

/-- What the proofs need of a parsed file. -/
structure ParsedFile (file : SafeTensorFile) : Prop where
  sound : MetadataSound file.mapping file.metadata
  shapes : ∀ record ∈ file.metadata.records, record.shape = .ofExtents record.shape.dims
  views : ViewsSound file

theorem parsed_file {mapping : ByteSpan} {maximumHeaderBytes : UInt64} {file : SafeTensorFile}
    (parsed : SafeTensorFile.parse mapping maximumHeaderBytes = .ok file) : ParsedFile file := by
  rw [SafeTensorFile.parse] at parsed
  split at parsed
  next => cases parsed
  next metadata accepted =>
    obtain rfl := Except.ok.inj parsed
    obtain ⟨sound, _, views⟩ := safetensors_sound mapping maximumHeaderBytes metadata accepted
    obtain ⟨members, checked⟩ := (parse_metadata_iff _ _ _).mp accepted
    exact ⟨sound, parse_records_shape _ members [] _ checked.records (by simp), views⟩

section

variable {file : SafeTensorFile}

/-- A name of the file has the record of its place. -/
theorem record_of_mem (known : ParsedFile file) (record : TensorRecord)
    (listed : record ∈ file.metadata.records) : file.record record.name = some record := by
  cases found : file.record record.name with
  | none => exact absurd (List.find?_eq_none.mp found record listed) (by simp)
  | some other =>
    have otherListed := List.mem_of_find?_eq_some found
    have named : other.name = record.name := by simpa using List.find?_some found
    exact congrArg some (List.inj_on_of_nodup_map known.sound.distinct otherListed listed named)

theorem record_iff (known : ParsedFile file) (name : List UInt8) (record : TensorRecord) :
    file.record name = some record ↔ record ∈ file.metadata.records ∧ record.name = name := by
  constructor
  · intro found
    exact ⟨List.mem_of_find?_eq_some found, by simpa using List.find?_some found⟩
  · rintro ⟨listed, rfl⟩
    exact record_of_mem known record listed

/-- Every tensor of a parsed file has a view. -/
theorem tensor_of_record (known : ParsedFile file) (name : List UInt8) (record : TensorRecord)
    (found : file.record name = some record) :
    file.tensor name =
      .ok ⟨file.metadata.dataStart + record.beginAt, record.shape, record.dtype, .host⟩ := by
  have listed := ((record_iff known name record).mp found).1
  obtain ⟨start, inside⟩ := known.sound.placed record listed
  have ordered := (known.sound.records record listed).ordered
  have placed : ¬file.mapping.size < file.metadata.dataStart + record.beginAt := by
    rw [UInt64.lt_iff_toNat_lt, start, span_size_exact]
    omega
  rw [SafeTensorFile.tensor, found]
  dsimp only
  rw [if_neg placed]

/-- The check of one tensor succeeds exactly when the file has the tensor, with its view. -/
theorem require_tensor_iff (known : ParsedFile file) (spec : ModelSpec F) (tensor : ModelTensor)
    (detail : UInt32) (view : ConstTensorView UInt64) :
    requireTensor file (expectedTensor spec tensor) detail = .ok view ↔
      Holds file spec tensor ∧ file.tensor tensor.name = .ok view := by
  rw [requireTensor, show (expectedTensor spec tensor).name = tensor.name from rfl]
  cases found : file.record tensor.name with
  | none =>
    dsimp only
    refine ⟨nofun, ?_⟩
    rintro ⟨⟨record, listed, _⟩, _⟩
    exact absurd (found.symm.trans listed) (by simp)
  | some record =>
    have listed := ((record_iff known _ record).mp found).1
    have shape := expected_shape_iff spec tensor record.shape (known.shapes record listed)
    dsimp only
    split
    next wrong =>
      refine ⟨nofun, ?_⟩
      rintro ⟨⟨other, otherFound, dtype, dims⟩, _⟩
      obtain rfl := Option.some.inj (found.symm.trans otherFound)
      rcases wrong with misshaped | mistyped
      · exact absurd (shape.mpr dims) misshaped
      · exact absurd dtype mistyped
    next right =>
      rw [not_or, not_not, not_not, shape] at right
      exact ⟨fun viewed => ⟨⟨record, found, right.2, right.1⟩, viewed⟩, And.right⟩

/-! ## The loops of the binding -/

theorem bind_layers_eq (views : List (ConstTensorView UInt64)) (layers : Nat) :
    LoadedWeights.bindLayers views layers =
      (1 + 9 * layers, (List.range layers).map fun layer =>
        LoadedWeights.layerAt views (1 + 9 * layer)) := by
  induction layers with
  | zero => rfl
  | succ layer ih =>
    rw [LoadedWeights.bindLayers, ih, List.range_succ, List.map_append]
    rfl

/-- The checks of all expected tensors, in order. -/
def requireAll (file : SafeTensorFile) (expected : List ExpectedTensor) :
    Result (List (ConstTensorView UInt64)) :=
  expected.zipIdx.mapM fun (tensor, index) => requireTensor file tensor (UInt32.ofNat (index + 1))

/-- Every role of the model then has its view, at the place of the role in the list. -/
theorem require_all_ok (known : ParsedFile file) (spec : ModelSpec F)
    (roles : List ModelTensor) (views : List (ConstTensorView UInt64))
    (accepted : requireAll file (roles.map (expectedTensor spec)) = .ok views) (index : Nat)
    (tensor : ModelTensor) (placed : roles[index]? = some tensor) :
    Holds file spec tensor ∧
      file.tensor tensor.name = .ok (LoadedWeights.viewAt views index) := by
  obtain ⟨sameLength, each⟩ := List.forall₂_iff_get.mp ((map_ok_iff _ _ _).mp accepted)
  obtain ⟨inside, same⟩ := List.getElem?_eq_some_iff.mp placed
  have inPairs : index < ((roles.map (expectedTensor spec)).zipIdx).length := by
    simpa using inside
  have inViews : index < views.length := sameLength ▸ inPairs
  have view : LoadedWeights.viewAt views index = views.get ⟨index, inViews⟩ := by
    rw [LoadedWeights.viewAt, List.getD_eq_getElem?_getD, List.getElem?_eq_getElem inViews]
    rfl
  have checked := each index inPairs inViews
  rw [List.get_eq_getElem, List.getElem_zipIdx, List.getElem_map, same, ← view] at checked
  exact (require_tensor_iff known spec tensor _ _).mp checked

theorem require_all_succeeds (known : ParsedFile file) (spec : ModelSpec F)
    (roles : List ModelTensor) (holds : ∀ tensor ∈ roles, Holds file spec tensor) :
    ∃ views, requireAll file (roles.map (expectedTensor spec)) = .ok views := by
  refine map_succeeds _ _ fun entry listed => ?_
  obtain ⟨expected, index⟩ := entry
  obtain ⟨tensor, role, rfl⟩ := List.mem_map.mp (List.fst_mem_of_mem_zipIdx listed)
  obtain ⟨record, found, _⟩ := holds tensor role
  exact ⟨_, (require_tensor_iff known spec tensor _ _).mpr
    ⟨holds tensor role, tensor_of_record known _ record found⟩⟩

/-- The output head is the embedding, or a tensor of its own with the extents of the embedding. -/
theorem output_head_iff (known : ParsedFile file) (spec : ModelSpec F) (expectedCount : Nat)
    (embedding head : ConstTensorView UInt64) (aliases : Bool) :
    LoadedWeights.bindOutputHead file spec expectedCount embedding = .ok (head, aliases) ↔
      (file.record ModelTensor.outputHead.name = none ∧ head = embedding ∧ aliases = true) ∨
      (Holds file spec .outputHead ∧ file.tensor ModelTensor.outputHead.name = .ok head ∧
        aliases = false) := by
  have named : ModelTensor.outputHead.name = ascii "lm_head.weight" := rfl
  have word : ∀ count : UInt32, count.toUInt64 = UInt64.ofNat count.toNat := fun count =>
    (UInt64.ofNat_uInt32ToNat count).symm
  have made : shapeOf [spec.vocabularySize.toUInt64, spec.hiddenSize.toUInt64] =
      .ok (expectedTensor spec .outputHead).shape := by
    rw [word, word]
    rfl
  rw [LoadedWeights.bindOutputHead, named]
  cases found : file.record (ascii "lm_head.weight") with
  | none =>
    dsimp only
    constructor
    · intro accepted
      obtain ⟨rfl, rfl⟩ := Prod.mk.inj (Except.ok.inj accepted)
      exact Or.inl ⟨rfl, rfl, rfl⟩
    · rintro (⟨_, rfl, rfl⟩ | ⟨⟨record, listed, _⟩, _⟩)
      · rfl
      · exact absurd (found.symm.trans listed) (by simp)
  | some record =>
    -- with a record, the shape and the type decide
    have listed := ((record_iff known _ record).mp found).1
    have shape := expected_shape_iff spec .outputHead record.shape (known.shapes record listed)
    dsimp only
    rw [made]
    dsimp only
    split
    next wrong =>
      refine ⟨nofun, ?_⟩
      rintro (⟨absent, _⟩ | ⟨⟨other, otherFound, dtype, dims⟩, _⟩)
      · cases absent
      · obtain rfl := Option.some.inj (found.symm.trans otherFound)
        rcases wrong with misshaped | mistyped
        · exact absurd (shape.mpr dims) misshaped
        · exact absurd dtype mistyped
    next right =>
      rw [not_or, not_not, not_not, shape] at right
      constructor
      · intro accepted
        obtain ⟨view, viewed, accepted⟩ := bind_eq_ok.mp accepted
        obtain ⟨rfl, rfl⟩ := Prod.mk.inj (Except.ok.inj accepted)
        exact Or.inr ⟨⟨record, found, right.2, right.1⟩, viewed, rfl⟩
      · rintro (⟨absent, _⟩ | ⟨_, viewed, rfl⟩)
        · cases absent
        · rw [viewed]
          rfl

/-! ## The binding -/

/-- The conditions on a specification under which files are bound. -/
structure Bindable [FloatOps F] (spec : ModelSpec F) : Prop where
  architecture : spec.architecture = .smollm2Llama
  tied : spec.tiedEmbeddings = true
  unbiased : spec.qkvBias = false
  valid : (validate spec).isOk = true

/-- What the binding computes, behind its checks. -/
theorem bind_eq_iff [FloatOps F] (known : ParsedFile file) (spec : ModelSpec F)
    (bindable : Bindable spec) (weights : LoadedWeights) :
    LoadedWeights.bind file spec = .ok weights ↔
      (∀ record ∈ file.metadata.records,
        record.name ∈ (modelTensors spec.layers.toNat).map ModelTensor.name ∨
          record.name = ModelTensor.outputHead.name) ∧
      ∃ views head aliases,
        requireAll file ((modelTensors spec.layers.toNat).map (expectedTensor spec)) = .ok views ∧
        ((file.record ModelTensor.outputHead.name = none ∧
            head = LoadedWeights.viewAt views 0 ∧ aliases = true) ∨
          (Holds file spec .outputHead ∧ file.tensor ModelTensor.outputHead.name = .ok head ∧
            aliases = false)) ∧
        weights =
          { file
            embedding := LoadedWeights.viewAt views 0
            finalNorm := LoadedWeights.viewAt views (1 + 9 * spec.layers.toNat)
            outputHead := head
            outputHeadAliasesEmbedding := aliases
            layers := (List.range spec.layers.toNat).map fun layer =>
              LoadedWeights.layerAt views (1 + 9 * layer) } := by
  -- a bindable model passes the first refusal
  have admitted : ¬(spec.architecture ≠ .smollm2Llama ∨ spec.qkvBias = true
      ∨ spec.tiedEmbeddings = false ∨ (validate spec).isOk = false) := by
    simp [bindable.architecture, bindable.tied, bindable.unbiased, bindable.valid]
  have allowed : (LoadedWeights.allowed
      ((modelTensors spec.layers.toNat).map (expectedTensor spec))) =
        (modelTensors spec.layers.toNat).map ModelTensor.name ++ [ModelTensor.outputHead.name] := by
    rw [LoadedWeights.allowed, List.map_map]
    rfl
  rw [LoadedWeights.bind, if_neg admitted]
  constructor
  · intro accepted
    -- the steps of `bind` one after the other, each of which succeeded
    obtain ⟨expected, listed, accepted⟩ := bind_eq_ok.mp accepted
    rw [expected_tensors_eq] at listed
    obtain rfl := Except.ok.inj listed
    split at accepted
    next => cases accepted
    next unexpected =>
      rw [allowed, List.findIdx?_eq_none_iff] at unexpected
      obtain ⟨views, required, accepted⟩ := bind_eq_ok.mp accepted
      rw [bind_layers_eq] at accepted
      dsimp only at accepted
      obtain ⟨⟨head, aliases⟩, bound, accepted⟩ := bind_eq_ok.mp accepted
      obtain rfl := Except.ok.inj accepted
      refine ⟨fun record member => ?_, views, head, aliases, required,
        (output_head_iff known spec _ _ head aliases).mp bound, rfl⟩
      simpa only [Bool.not_eq_eq_eq_not, Bool.not_false, List.contains_iff_mem, List.mem_append,
        List.mem_singleton] using unexpected record member
  · rintro ⟨names, views, head, aliases, required, output, rfl⟩
    -- the other way round each step succeeds
    have expectedOnly : (file.metadata.records.findIdx? fun record =>
        !((modelTensors spec.layers.toNat).map ModelTensor.name
          ++ [ModelTensor.outputHead.name]).contains record.name) = none := by
      rw [List.findIdx?_eq_none_iff]
      intro record member
      simpa only [Bool.not_eq_eq_eq_not, Bool.not_false, List.contains_iff_mem, List.mem_append,
        List.mem_singleton] using names record member
    have bound := (output_head_iff known spec
      ((modelTensors spec.layers.toNat).map (expectedTensor spec)).length _ head aliases).mpr output
    rw [requireAll] at required
    rw [ok_bind _ (expected_tensors_eq spec), allowed, expectedOnly]
    dsimp only
    rw [ok_bind _ required, bind_layers_eq]
    dsimp only
    rw [ok_bind _ bound]
    rfl

/-- Two tensors of a file with different names have different addresses, unless one is empty. -/
theorem data_ne (known : ParsedFile file) (spec : ModelSpec F) (left right : ModelTensor)
    (different : left ≠ right) (leftHeld : Holds file spec left) (rightHeld : Holds file spec right)
    (leftFilled : 0 < (left.extents spec).prod) (rightFilled : 0 < (right.extents spec).prod)
    (leftView rightView : ConstTensorView UInt64)
    (leftViewed : file.tensor left.name = .ok leftView)
    (rightViewed : file.tensor right.name = .ok rightView) : leftView.data ≠ rightView.data := by
  -- A view of a held tensor spans at least the byte it starts at.
  have starts : ∀ (tensor : ModelTensor) (view : ConstTensorView UInt64), Holds file spec tensor →
      0 < (tensor.extents spec).prod → file.tensor tensor.name = .ok view →
        Spans view view.data.toNat := by
    rintro tensor view ⟨record, found, dtype, dims⟩ filled viewed
    rw [tensor_of_record known _ record found] at viewed
    obtain rfl := Except.ok.inj viewed
    refine ⟨Nat.le_refl _, ?_⟩
    dsimp only
    rw [Shape.elements, dims, dtype, DType.size]
    omega
  intro same
  have different_names : left.name ≠ right.name := fun names =>
    different (ModelTensor.name_injective left right names)
  refine known.views.apart _ _ leftView rightView different_names leftViewed rightViewed
    leftView.data.toNat ⟨starts left leftView leftHeld leftFilled leftViewed, ?_⟩
  rw [same]
  exact starts right rightView rightHeld rightFilled rightViewed

theorem embedding_filled (spec : ModelSpec F) (structural : spec.Structural) :
    0 < spec.vocabularySize.toNat * spec.hiddenSize.toNat := by
  have nonzero := structural.nonzero
  simp only [ModelSpec.Degenerate, not_or, ← UInt32.toNat_inj, UInt32.toNat_zero] at nonzero
  exact Nat.mul_pos (by omega) (by omega)

/-- The fields of a bound layer come from the nine places of the layer in the list. -/
theorem layer_field (views : List (ConstTensorView UInt64)) (cursor : Nat) (role : LayerTensor) :
    ∃ place, LayerTensor.all[place]? = some role ∧
      role.field (LoadedWeights.layerAt views cursor) =
        LoadedWeights.viewAt views (cursor + place) := by
  cases role with
  | inputNorm => exact ⟨0, rfl, rfl⟩
  | query => exact ⟨1, rfl, rfl⟩
  | key => exact ⟨2, rfl, rfl⟩
  | value => exact ⟨3, rfl, rfl⟩
  | output => exact ⟨4, rfl, rfl⟩
  | postAttentionNorm => exact ⟨5, rfl, rfl⟩
  | gate => exact ⟨6, rfl, rfl⟩
  | up => exact ⟨7, rfl, rfl⟩
  | down => exact ⟨8, rfl, rfl⟩

section

variable [FloatOps F]

theorem bound_to (known : ParsedFile file) (spec : ModelSpec F) (bindable : Bindable spec)
    (weights : LoadedWeights) (bound : LoadedWeights.bind file spec = .ok weights) :
    BoundTo file spec weights := by
  obtain ⟨_, views, head, aliases, required, output, rfl⟩ :=
    (bind_eq_iff known spec bindable weights).mp bound
  have placed := require_all_ok known spec _ views required
  obtain ⟨embeddingHeld, embeddingViewed⟩ := placed 0 .embedding rfl
  have absent : file.record ModelTensor.outputHead.name = none ↔
      ModelTensor.outputHead.name ∉ file.metadata.records.map TensorRecord.name := by
    simp [SafeTensorFile.record, List.find?_eq_none]
  refine {
    file_kept := rfl
    embedding := embeddingViewed
    final_norm := (placed _ .finalNorm (model_tensors_final _)).2
    layer_count := by simp
    layer_tensors := ?_
    aliases := ?_
    shared_head := ?_
    own_head := ?_ }
  · intro index layer listed role
    obtain ⟨inside, rfl⟩ := List.getElem?_eq_some_iff.mp listed
    rw [List.length_map, List.length_range] at inside
    rw [List.getElem_map, List.getElem_range]
    obtain ⟨place, ordered, field⟩ := layer_field views (1 + 9 * index) role
    rw [field]
    exact (placed _ _ (model_tensors_layer _ index place inside role ordered)).2
  · rw [← absent]
    rcases output with ⟨missing, _, rfl⟩ | ⟨⟨record, found, _⟩, _, rfl⟩
    · simp [missing]
    · simp [found]
  · intro shared
    rcases output with ⟨_, rfl, _⟩ | ⟨_, _, rfl⟩
    · rfl
    · cases shared
  · intro separate
    rcases output with ⟨_, _, rfl⟩ | ⟨held, viewed, _⟩
    · cases separate
    · have filled := embedding_filled spec (validate_ok spec bindable.valid).1
      refine ⟨viewed, data_ne known spec .outputHead .embedding (by decide) held embeddingHeld
        ?_ ?_ head _ viewed embeddingViewed⟩
      all_goals simpa [ModelTensor.extents] using filled

omit [FloatOps F] in
theorem checkpoint_names_nodup (spec : ModelSpec F) (explicitHead : Bool) :
    ((checkpointTensors spec explicitHead).map ModelTensor.name).Nodup := by
  refine List.Nodup.map ModelTensor.name_injective ?_
  rw [checkpointTensors]
  cases explicitHead with
  | false => simpa using model_tensors_nodup spec.layers.toNat
  | true =>
    refine List.Nodup.append (model_tensors_nodup _) (by simp) ?_
    intro tensor listed other
    obtain rfl := List.mem_singleton.mp (by simpa using other)
    rw [mem_model_tensors] at listed
    simp at listed

/-- A bound file holds the model. -/
theorem holds_model_of_bound (known : ParsedFile file) (spec : ModelSpec F)
    (bindable : Bindable spec) (weights : LoadedWeights)
    (bound : LoadedWeights.bind file spec = .ok weights) :
    ∃ explicitHead, HoldsModel file spec explicitHead := by
  obtain ⟨names, views, head, aliases, required, output, _⟩ :=
    (bind_eq_iff known spec bindable weights).mp bound
  have held : ∀ tensor ∈ modelTensors spec.layers.toNat, Holds file spec tensor := by
    intro tensor listed
    obtain ⟨index, inside, same⟩ := List.getElem_of_mem listed
    exact (require_all_ok known spec _ views required index tensor
      (List.getElem?_eq_some_iff.mpr ⟨inside, same⟩)).1
  have holds : ∀ tensor ∈ checkpointTensors spec (!aliases), Holds file spec tensor := by
    intro tensor listed
    rcases List.mem_append.mp listed with ordinary | extra
    · exact held tensor ordinary
    · rcases output with ⟨_, _, rfl⟩ | ⟨headHeld, _, rfl⟩
      · simp at extra
      · obtain rfl : tensor = .outputHead := by simpa using extra
        exact headHeld
  refine ⟨!aliases, ?_, holds⟩
  rw [List.perm_ext_iff_of_nodup known.sound.distinct (checkpoint_names_nodup spec _)]
  intro name
  constructor
  · intro listed
    obtain ⟨record, member, rfl⟩ := List.mem_map.mp listed
    rw [checkpointTensors, List.map_append, List.mem_append]
    rcases names record member with ordinary | extra
    · exact Or.inl ordinary
    · -- The head is in the file, so it was bound as a tensor of its own.
      rcases output with ⟨missing, _, _⟩ | ⟨_, _, rfl⟩
      · have found := (record_iff known _ record).mpr ⟨member, extra⟩
        exact absurd (missing.symm.trans found) (by simp)
      · exact Or.inr (by simp [extra])
  · intro listed
    obtain ⟨tensor, member, rfl⟩ := List.mem_map.mp listed
    obtain ⟨record, found, _⟩ := holds tensor member
    obtain ⟨recorded, named⟩ := (record_iff known _ record).mp found
    exact List.mem_map.mpr ⟨record, recorded, named⟩

/-- A file that holds the model is bound. -/
theorem bound_of_holds_model (known : ParsedFile file) (spec : ModelSpec F)
    (bindable : Bindable spec) (explicitHead : Bool)
    (holds : HoldsModel file spec explicitHead) :
    ∃ weights, LoadedWeights.bind file spec = .ok weights := by
  obtain ⟨views, required⟩ := require_all_succeeds known spec (modelTensors spec.layers.toNat)
    fun tensor listed => holds.tensors tensor (List.mem_append_left _ listed)
  have names : ∀ record ∈ file.metadata.records,
      record.name ∈ (modelTensors spec.layers.toNat).map ModelTensor.name ∨
        (record.name = ModelTensor.outputHead.name ∧ explicitHead = true) := by
    intro record member
    have listed := holds.names.mem_iff.mp (List.mem_map.mpr ⟨record, member, rfl⟩)
    rw [checkpointTensors, List.map_append, List.mem_append] at listed
    rcases listed with ordinary | extra
    · exact Or.inl ordinary
    · cases explicitHead with
      | false => simp at extra
      | true => exact Or.inr ⟨by simpa using extra, rfl⟩
  have known_names := fun record member => (names record member).imp_right And.left
  cases found : file.record ModelTensor.outputHead.name with
  | none =>
    exact ⟨_, (bind_eq_iff known spec bindable _).mpr
      ⟨known_names, views, _, true, required, Or.inl ⟨found, rfl, rfl⟩, rfl⟩⟩
  | some record =>
    obtain ⟨member, named⟩ := (record_iff known _ record).mp found
    have explicit : explicitHead = true := by
      rcases names record member with ordinary | ⟨_, explicit⟩
      · -- No tensor of the model has the name of the head.
        obtain ⟨tensor, listed, same⟩ := List.mem_map.mp ordinary
        obtain rfl := ModelTensor.name_injective tensor .outputHead (same.trans named)
        rw [mem_model_tensors] at listed
        simp at listed
      · exact explicit
    subst explicit
    have held := holds.tensors .outputHead (by simp [checkpointTensors])
    exact ⟨_, (bind_eq_iff known spec bindable _).mpr ⟨known_names, views, _, false, required,
      Or.inr ⟨held, tensor_of_record known _ record found, rfl⟩, rfl⟩⟩

/-- A parsed file is bound exactly when its tensors are those of the model, and the members of
the result are the views of the tensors with their names. -/
theorem bind_exact {mapping : ByteSpan} {maximumHeaderBytes : UInt64} {file : SafeTensorFile}
    (spec : ModelSpec F) (parsed : SafeTensorFile.parse mapping maximumHeaderBytes = .ok file)
    (bindable : Bindable spec) :
    ((∃ weights, LoadedWeights.bind file spec = .ok weights) ↔
        ∃ explicitHead, HoldsModel file spec explicitHead) ∧
      ∀ weights, LoadedWeights.bind file spec = .ok weights → BoundTo file spec weights := by
  have known := parsed_file parsed
  refine ⟨⟨?_, ?_⟩, bound_to known spec bindable⟩
  · rintro ⟨weights, bound⟩
    exact holds_model_of_bound known spec bindable weights bound
  · rintro ⟨explicitHead, holds⟩
    exact bound_of_holds_model known spec bindable explicitHead holds

end

end

/-! ## A checkpoint of one layer -/

def oneLayerSpec : ModelSpec BinaryFloat.Value where
  architecture := .smollm2Llama
  layers := 1
  hiddenSize := 1
  intermediateSize := 1
  queryHeads := 1
  kvHeads := 1
  headDim := 1
  vocabularySize := 1
  maxPositions := 1
  rmsNormEpsilon := .finite (1 / 1024)
  ropeTheta := .finite 10000
  qkvBias := false
  tiedEmbeddings := true

/-- The member of the header for a tensor of one element of two bytes. -/
def oneElementMember (tensor : ModelTensor) (index : Nat) : List UInt8 :=
  ascii "\"" ++ tensor.name ++ ascii "\":\x7b\"dtype\":\"BF16\",\"shape\":[" ++
    ascii (if (tensor.extents oneLayerSpec).length = 1 then "1" else "1,1") ++
    ascii "],\"data_offsets\":[" ++ ascii (toString (2 * index)) ++ ascii "," ++
    ascii (toString (2 * index + 2)) ++ ascii "]\x7d"

def oneLayerHeader : List UInt8 :=
  ascii "\x7b" ++ (((modelTensors 1).zipIdx.map fun (tensor, index) =>
    oneElementMember tensor index).intersperse (ascii ",")).flatten ++ ascii "\x7d"

/-- The header is 993 bytes long, and every parameter is one. -/
def oneLayerFile : ByteSpan where
  data := [225, 3, 0, 0, 0, 0, 0, 0] ++ oneLayerHeader ++ (List.replicate 11 [128, 63]).flatten
  addressable := by decide +kernel

def oneLayerMetadata : SafeTensorMetadata where
  dataStart := 1001
  records := (modelTensors 1).zipIdx.map fun (tensor, index) =>
    { name := tensor.name
      dtype := .bf16
      shape := (expectedTensor oneLayerSpec tensor).shape
      beginAt := UInt64.ofNat (2 * index)
      endAt := UInt64.ofNat (2 * index + 2) }

theorem one_layer_parsed :
    SafeTensorFile.parse oneLayerFile 4096 = .ok ⟨oneLayerFile, oneLayerMetadata⟩ := by
  have accepted : parseSafetensorsMetadata oneLayerFile 4096 = .ok oneLayerMetadata := by
    decide +kernel
  rw [SafeTensorFile.parse, accepted]

theorem one_layer_bindable : @Bindable BinaryFloat.Value plainFloats oneLayerSpec :=
  @Bindable.mk _ plainFloats _ rfl rfl rfl (by decide +kernel)

theorem bind_exact_one_layer : ∃ weights,
    @LoadedWeights.bind BinaryFloat.Value plainFloats
      ⟨oneLayerFile, oneLayerMetadata⟩ oneLayerSpec =
        .ok weights ∧
      BoundTo ⟨oneLayerFile, oneLayerMetadata⟩ oneLayerSpec weights := by
  obtain ⟨_, bound⟩ := @bind_exact _ plainFloats _ _ _ oneLayerSpec one_layer_parsed
    one_layer_bindable
  have succeeds : (@LoadedWeights.bind BinaryFloat.Value plainFloats
      ⟨oneLayerFile, oneLayerMetadata⟩ oneLayerSpec).toBool = true := by
    decide +kernel
  cases computed : @LoadedWeights.bind BinaryFloat.Value plainFloats
      ⟨oneLayerFile, oneLayerMetadata⟩ oneLayerSpec with
  | error status => rw [computed] at succeeds; cases succeeds
  | ok weights => exact ⟨weights, rfl, bound weights computed⟩

end MarketForge.Model
