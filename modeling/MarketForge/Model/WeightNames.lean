import Mathlib.Data.List.Nodup
import MarketForge.Model.LoadedWeights

/-!
# The tensors of a model by their role

Every tensor of a SmolLM2 model has a role, and the role determines its name and its extents. No
two roles share a name, for any number of layers.
-/
namespace MarketForge.Model

open Cpu

/-! ## Decimal names of layers -/

/-- A decimal digit keeps its code as a byte. -/
private theorem digit_byte (letter : Char) (digit : letter.isDigit = true) :
    isDigit (UInt8.ofNat letter.toNat) = true ∧
      (UInt8.ofNat letter.toNat).toNat = letter.toNat := by
  have range : 48 ≤ letter.toNat ∧ letter.toNat ≤ 57 := by
    simpa [Char.isDigit, UInt32.le_iff_toNat_le] using digit
  have exact : (UInt8.ofNat letter.toNat).toNat = letter.toNat := by
    rw [UInt8.toNat_ofNat', Nat.mod_eq_of_lt (by omega)]
  refine ⟨?_, exact⟩
  simp only [isDigit, Bool.and_eq_true, decide_eq_true_eq, UInt8.le_iff_toNat_le, exact]
  exact range

theorem ascii_number (number : Nat) : ascii (toString number) =
    (Nat.toDigits 10 number).map fun letter => UInt8.ofNat letter.toNat := by
  rw [ascii, Nat.toString_eq_ofList_toDigits, String.toList_ofList]

theorem ascii_number_digits (number : Nat) :
    ∀ byte ∈ ascii (toString number), isDigit byte = true := by
  intro byte listed
  rw [ascii_number] at listed
  obtain ⟨letter, isLetter, rfl⟩ := List.mem_map.mp listed
  exact (digit_byte letter (Nat.isDigit_of_mem_toDigits (by decide) (by decide) isLetter)).1

/-- The decimal text of a number has the number as its value. -/
theorem decimal_ascii (number : Nat) : decimal (ascii (toString number)) = number := by
  have loop : ∀ (letters : List Char) (value : Nat), (∀ letter ∈ letters, letter.isDigit = true) →
      (letters.map fun letter => UInt8.ofNat letter.toNat).foldl
          (fun value digit => value * 10 + (digit.toNat - Byte.zero.toNat)) value =
        Nat.ofDigitChars 10 letters value := by
    intro letters
    induction letters with
    | nil => intro value _; rfl
    | cons letter others ih =>
      intro value digits
      rw [List.map_cons, List.foldl_cons, Nat.ofDigitChars_cons,
        (digit_byte letter (digits letter (by simp))).2, Nat.mul_comm value]
      exact ih _ fun other listed => digits other (by simp [listed])
  rw [ascii_number, decimal, loop _ 0 fun letter isLetter =>
    Nat.isDigit_of_mem_toDigits (by decide) (by decide) isLetter]
  exact Nat.ofDigitChars_ten_toDigits

/-! ## Roles -/

/-- The role of a tensor in its layer. -/
inductive LayerTensor where
  | inputNorm
  | query
  | key
  | value
  | output
  | postAttentionNorm
  | gate
  | up
  | down
  deriving DecidableEq, Repr

namespace LayerTensor

def all : List LayerTensor :=
  [inputNorm, query, key, value, output, postAttentionNorm, gate, up, down]

theorem mem_all (tensor : LayerTensor) : tensor ∈ all := by
  cases tensor <;> decide

def suffix : LayerTensor → String
  | inputNorm => "input_layernorm.weight"
  | query => "self_attn.q_proj.weight"
  | key => "self_attn.k_proj.weight"
  | value => "self_attn.v_proj.weight"
  | output => "self_attn.o_proj.weight"
  | postAttentionNorm => "post_attention_layernorm.weight"
  | gate => "mlp.gate_proj.weight"
  | up => "mlp.up_proj.weight"
  | down => "mlp.down_proj.weight"

def extents {F : Type} (spec : ModelSpec F) : LayerTensor → List Nat
  | inputNorm | postAttentionNorm => [spec.hiddenSize.toNat]
  | query | output => [spec.hiddenSize.toNat, spec.hiddenSize.toNat]
  | key | value => [spec.kvWidth, spec.hiddenSize.toNat]
  | gate | up => [spec.intermediateSize.toNat, spec.hiddenSize.toNat]
  | down => [spec.hiddenSize.toNat, spec.intermediateSize.toNat]

/-- The field of the layer that the tensor fills. -/
def field {Pointer : Type} (weights : LayerWeights Pointer) :
    LayerTensor → ConstTensorView Pointer
  | inputNorm => weights.inputNorm
  | query => weights.attention.query
  | key => weights.attention.key
  | value => weights.attention.value
  | output => weights.attention.output
  | postAttentionNorm => weights.postAttentionNorm
  | gate => weights.mlp.gate
  | up => weights.mlp.up
  | down => weights.mlp.down

theorem suffix_injective (left right : LayerTensor)
    (same : ascii left.suffix = ascii right.suffix) : left = right := by
  revert same
  cases left <;> cases right <;> decide

end LayerTensor

/-- The role of a tensor in the model. -/
inductive ModelTensor where
  | embedding
  | layer (index : Nat) (tensor : LayerTensor)
  | finalNorm
  | outputHead
  deriving DecidableEq, Repr

namespace ModelTensor

def name : ModelTensor → List UInt8
  | embedding => ascii "model.embed_tokens.weight"
  | layer index tensor => layerPrefix index ++ ascii tensor.suffix
  | finalNorm => ascii "model.norm.weight"
  | outputHead => ascii "lm_head.weight"

def extents {F : Type} (spec : ModelSpec F) : ModelTensor → List Nat
  | embedding | outputHead => [spec.vocabularySize.toNat, spec.hiddenSize.toNat]
  | layer _ tensor => tensor.extents spec
  | finalNorm => [spec.hiddenSize.toNat]

/-- The digits of the layer end at the dot behind them, so a name states its layer. -/
theorem layer_name_injective (left right : Nat) (leftTensor rightTensor : LayerTensor)
    (same : (layer left leftTensor).name = (layer right rightTensor).name) :
    left = right ∧ leftTensor = rightTensor := by
  have dot : isDigit (UInt8.ofNat '.'.toNat) = false := by decide
  have digits : ∀ (index : Nat) (rest : List UInt8),
      (ascii (toString index) ++ (UInt8.ofNat '.'.toNat :: rest)).takeWhile isDigit =
        ascii (toString index) := by
    intro index rest
    rw [List.takeWhile_append_of_pos (ascii_number_digits index),
      List.takeWhile_cons_of_neg (by rw [dot]; decide), List.append_nil]
  have opened : ∀ (index : Nat) (tensor : LayerTensor), (layer index tensor).name =
      ascii "model.layers." ++
        (ascii (toString index) ++ (UInt8.ofNat '.'.toNat :: ascii tensor.suffix)) := by
    intro index tensor
    simp only [name, layerPrefix, List.append_assoc]
    rfl
  rw [opened, opened] at same
  have behind := List.append_cancel_left same
  have numbers := congrArg (List.takeWhile isDigit) behind
  rw [digits, digits] at numbers
  have index : left = right := by rw [← decimal_ascii left, numbers, decimal_ascii]
  subst index
  have suffixes := List.append_cancel_left behind
  exact ⟨rfl, LayerTensor.suffix_injective _ _ (List.cons.inj suffixes).2⟩

/-- The letters in which the four kinds of names differ. -/
private def initials : ModelTensor → List UInt8
  | embedding => ascii "model.e"
  | layer _ _ => ascii "model.l"
  | finalNorm => ascii "model.n"
  | outputHead => ascii "lm_head"

private theorem name_initials (tensor : ModelTensor) : tensor.name.take 7 = tensor.initials := by
  cases tensor <;> rfl

theorem name_injective (left right : ModelTensor) (same : left.name = right.name) :
    left = right := by
  have letters : left.initials = right.initials := by
    rw [← name_initials, same, name_initials]
  cases left with
  | layer index tensor =>
    cases right with
    | layer other otherTensor =>
      obtain ⟨rfl, rfl⟩ := layer_name_injective index other tensor otherTensor same
      rfl
    | _ => exact absurd letters (by change ascii _ ≠ ascii _; decide)
  | _ => cases right <;> first | rfl | exact absurd letters (by change ascii _ ≠ ascii _; decide)

end ModelTensor

/-- The tensors every checkpoint of a model has to contain, in the order of the source. -/
def modelTensors (layers : Nat) : List ModelTensor :=
  .embedding :: (List.range layers).flatMap (fun index => LayerTensor.all.map (.layer index)) ++
    [.finalNorm]

theorem mem_model_tensors (layers : Nat) (tensor : ModelTensor) :
    tensor ∈ modelTensors layers ↔ tensor = .embedding ∨ tensor = .finalNorm ∨
      ∃ index role, index < layers ∧ tensor = .layer index role := by
  simp only [modelTensors, List.mem_append, List.mem_cons, List.mem_flatMap, List.mem_range,
    List.mem_map, List.not_mem_nil, or_false]
  constructor
  · rintro ((first | ⟨index, inside, role, _, rfl⟩) | last)
    · exact Or.inl first
    · exact Or.inr (Or.inr ⟨index, role, inside, rfl⟩)
    · exact Or.inr (Or.inl last)
  · rintro (first | last | ⟨index, role, inside, rfl⟩)
    · exact Or.inl (Or.inl first)
    · exact Or.inr last
    · exact Or.inl (Or.inr ⟨index, inside, role, role.mem_all, rfl⟩)

theorem model_tensors_nodup (layers : Nat) : (modelTensors layers).Nodup := by
  have chunks : ((List.range layers).flatMap
      fun index => LayerTensor.all.map (ModelTensor.layer index)).Nodup := by
    rw [List.nodup_flatMap]
    refine ⟨fun index _ => List.Nodup.map ?_ (by decide), ?_⟩
    · intro left right same
      exact (ModelTensor.layer.inj same).2
    · refine List.Pairwise.imp ?_ (List.nodup_range (n := layers))
      rintro left right different tensor inLeft inRight
      obtain ⟨_, _, rfl⟩ := List.mem_map.mp inLeft
      obtain ⟨_, _, same⟩ := List.mem_map.mp inRight
      exact different (ModelTensor.layer.inj same).1.symm
  simp only [modelTensors, List.nodup_append, List.nodup_cons, chunks]
  simp +contextual [eq_comm]

theorem model_tensors_length (layers : Nat) : (modelTensors layers).length = 9 * layers + 2 := by
  have chunks : ((List.range layers).flatMap
      fun index => LayerTensor.all.map (ModelTensor.layer index)).length = 9 * layers := by
    rw [List.length_flatMap]
    simp [LayerTensor.all, Nat.mul_comm]
  simp [modelTensors, chunks]

/-- The tensors of a layer stand behind those of the layers before it. -/
theorem model_tensors_layer (layers index place : Nat) (inside : index < layers)
    (role : LayerTensor) (placed : LayerTensor.all[place]? = some role) :
    (modelTensors layers)[1 + 9 * index + place]? = some (.layer index role) := by
  have below : place < 9 := (List.getElem?_eq_some_iff.mp placed).1
  have chunk : ∀ count, index < count → ((List.range count).flatMap
      fun index => LayerTensor.all.map (ModelTensor.layer index))[9 * index + place]? =
        some (.layer index role) := by
    intro count
    induction count with
    | zero => omega
    | succ count ih =>
      intro bound
      have length : ((List.range count).flatMap
          fun index => LayerTensor.all.map (ModelTensor.layer index)).length = 9 * count := by
        rw [List.length_flatMap]
        simp [LayerTensor.all, Nat.mul_comm]
      rw [List.range_succ, List.flatMap_append, List.flatMap_singleton]
      rcases Nat.lt_or_eq_of_le (Nat.le_of_lt_succ bound) with before | rfl
      · rw [List.getElem?_append_left (by omega)]
        exact ih before
      · rw [List.getElem?_append_right (by omega), length, Nat.add_sub_cancel_left,
          List.getElem?_map, placed]
        rfl
  have found := chunk layers inside
  rw [modelTensors, List.getElem?_append_left
    (by rw [List.length_cons]; have bound := (List.getElem?_eq_some_iff.mp found).1; omega),
    show 1 + 9 * index + place = (9 * index + place) + 1 by omega, List.getElem?_cons_succ]
  exact found

theorem model_tensors_final (layers : Nat) :
    (modelTensors layers)[1 + 9 * layers]? = some .finalNorm := by
  have length := model_tensors_length layers
  simp only [modelTensors, List.length_append, List.length_cons, List.length_nil] at length
  rw [modelTensors, List.getElem?_append_right (by simp only [List.length_cons]; omega)]
  simp only [List.length_cons]
  rw [show 1 + 9 * layers - (_ + 1) = 0 by omega]
  rfl

end MarketForge.Model
