import MarketForge.Cpu.Binary32
import MarketForge.Cpu.Softmax
import MarketForge.Cpu.ViewRanges

/-!
# Operators in place

The norm and the softmax may write over their input. An accepted call whose output is its input
leaves what the same call leaves in an output of its own; an output that shares some of the
input's floats only, or a float of the weight, is refused.
-/
namespace MarketForge.Cpu

open Library FloatOps

section

variable {F : Type} [FloatOps F]

/-! ## What the checks give -/

/-- A call refuses when it reports a failure and leaves the memory alone. -/
def Refuses (operation : Operation F) (memory : FlatMemory F) : Prop :=
  (operation memory).1.isOk = false ∧ (operation memory).2 = memory

omit [FloatOps F] in
theorem guarded_refuses (check : Status) (effect : FlatMemory F → FlatMemory F)
    (memory : FlatMemory F) (failed : ¬check.isOk = true) :
    Refuses (guarded check effect) memory := by
  rw [Refuses, guarded, if_neg failed]
  exact ⟨Bool.eq_false_iff.mpr failed, rfl⟩

/-- What the check of the norm has found. -/
structure RmsNormAccepted (input weight output : FloatView) : Prop where
  inputValid : (validateF32Host input).isOk = true
  weightValid : (validateF32Host weight).isOk = true
  outputValid : (validateF32Host output).isOk = true
  sameShape : output.shape = input.shape
  vector : weight.shape.elements = extent weight 0
  positive : 0 < extent weight 0
  whole : input.shape.elements = input.shape.elements / extent weight 0 * extent weight 0
  aliases : Overlap input output → SameRange input output
  weightApart : ¬Overlap weight output

theorem rms_norm_check_ok (input weight output : FloatView) (epsilon : F)
    (passed : (rmsNormCheck input weight epsilon output).isOk = true) :
    RmsNormAccepted input weight output := by
  unfold rmsNormCheck at passed
  obtain ⟨views, passed⟩ := status_guard_ok passed
  have valid := first_failure_ok _ views
  have inputValid := valid (validateF32Host input) (by simp)
  have weightValid := valid (validateF32Host weight) (by simp)
  have outputValid := valid (validateF32Host output) (by simp)
  obtain ⟨shapes, passed⟩ := refusal_guard_ok rfl passed
  simp only [not_or, not_not] at shapes
  obtain ⟨_, _, _, ranked, same, _⟩ := shapes
  obtain ⟨aliases, passed⟩ := status_guard_ok passed
  have apart := first_failure_ok _ aliases
  have inPlace := apart (validateOutputAlias input output true) (by simp)
  have weightApart := apart (validateNoOverlap weight output) (by simp)
  split at passed
  next status counted =>
    rw [checked_numel_error input.shape status counted] at passed
    cases passed
  next elementCount counted =>
    obtain ⟨whole, _⟩ := refusal_guard_ok rfl passed
    rw [not_or, not_not, (checked_numel_ok _ _ counted).1] at whole
    constructor
    case inputValid => exact inputValid
    case weightValid => exact weightValid
    case outputValid => exact outputValid
    case sameShape => exact same
    case vector => exact vector_elements weight ranked
    case positive => exact Nat.pos_of_ne_zero whole.1
    case whole => exact (Nat.div_mul_cancel (Nat.dvd_of_mod_eq_zero whole.2)).symm
    case aliases => exact output_alias_ok input output inputValid outputValid inPlace
    case weightApart => exact no_overlap_ok weight output weightValid outputValid weightApart

/-- What the check of the softmax has found. -/
structure SoftmaxAccepted (input : FloatView) (validLengths : List UInt32) (output : FloatView)
    (memory : FlatMemory F) : Prop where
  inputValid : (validateF32Host input).isOk = true
  outputValid : (validateF32Host output).isOk = true
  sameShape : output.shape = input.shape
  elements : input.shape.elements = extent input 0 * extent input 1
  aliases : Overlap input output → SameRange input output
  rows : ∀ row < extent input 0, 0 < (validLengths.getD row 0).toNat ∧
    (validLengths.getD row 0).toNat ≤ extent input 1 ∧
    ∀ column < (validLengths.getD row 0).toNat,
      isFinite (memory (input.data + row * extent input 1 + column)) = true

theorem softmax_check_ok (input : FloatView) (validLengths : List UInt32) (output : FloatView)
    (memory : FlatMemory F)
    (passed : (softmaxCheck input validLengths output memory).isOk = true) :
    SoftmaxAccepted input validLengths output memory := by
  unfold softmaxCheck at passed
  obtain ⟨checked, passed⟩ := status_guard_ok passed
  have rows := (softmax_rows_check_iff _ _ _ _ memory).mp passed
  unfold softmaxViewsCheck at checked
  obtain ⟨views, checked⟩ := status_guard_ok checked
  have valid := first_failure_ok _ views
  have inputValid := valid (validateF32Host input) (by simp)
  have outputValid := valid (validateF32Host output) (by simp)
  obtain ⟨shapes, checked⟩ := refusal_guard_ok rfl checked
  simp only [not_or, not_not] at shapes
  obtain ⟨ranked, same, _⟩ := shapes
  constructor
  case inputValid => exact inputValid
  case outputValid => exact outputValid
  case sameShape => exact same
  case elements => exact matrix_elements input ranked
  case aliases => exact output_alias_ok input output inputValid outputValid checked
  case rows => exact rows

/-! ## Results -/

omit [FloatOps F] in
/-- Where an output may lie: it is the input, or apart from it. -/
theorem output_place (input output : FloatView) (same : output.shape = input.shape)
    (aliases : Overlap input output → SameRange input output)
    (some : 0 < input.shape.elements) :
    input.data = output.data ∨
      Apart input.data input.shape.elements output.data input.shape.elements := by
  by_cases shared : Overlap input output
  · exact .inl (aliases shared).1
  · have apart := apart_of_no_overlap input output shared some (by rwa [same])
    rw [same] at apart
    exact .inr apart

/-- What an accepted norm leaves in its output, wherever the output lies. -/
theorem rms_norm_f32_result (input weight output : FloatView) (epsilon : F)
    (memory : FlatMemory F)
    (accepted : (rmsNormF32 input weight epsilon output memory).1.isOk = true) :
    let hidden := extent weight 0
    ∀ index < input.shape.elements,
      (rmsNormF32 input weight epsilon output memory).2 (output.data + index) =
        rmsRow (fun column => memory (weight.data + column)) hidden epsilon
          (fun column => memory (input.data + index / hidden * hidden + column))
          (index % hidden) := by
  intro hidden index inside
  rw [rmsNormF32] at accepted ⊢
  obtain ⟨passed, after⟩ := guarded_ok _ _ _ accepted
  have checked := rms_norm_check_ok input weight output epsilon passed
  have place := output_place input output checked.sameShape checked.aliases (by omega)
  have weightApart : Apart weight.data hidden output.data input.shape.elements := by
    have apart := apart_of_no_overlap weight output checked.weightApart
      (by rw [checked.vector]; exact checked.positive) (by rw [checked.sameShape]; omega)
    rwa [checked.vector, checked.sameShape] at apart
  rw [checked.whole] at place weightApart
  have rowBelow : index / hidden < input.shape.elements / hidden := by
    apply Nat.div_lt_of_lt_mul
    rw [Nat.mul_comm]
    exact checked.whole ▸ inside
  have spec := (rms_norm_rows_spec input.data weight.data output.data
    (input.shape.elements / hidden) hidden epsilon
    (fun row column => memory (input.data + row * hidden + column))
    (fun column => memory (weight.data + column)) memory place weightApart
    (fun _ _ _ _ => rfl) (fun _ _ => rfl)).1 (index / hidden) rowBelow (index % hidden)
    (Nat.mod_lt _ checked.positive)
  rw [Nat.add_assoc, Nat.div_add_mod'] at spec
  rw [after, element_count_ok input checked.inputValid]
  exact spec

/-- What an accepted softmax leaves in its output, wherever the output lies. -/
theorem softmax_f32_result (input : FloatView) (validLengths : List UInt32) (output : FloatView)
    (memory : FlatMemory F)
    (accepted : (softmaxF32 input validLengths output memory).1.isOk = true) :
    let columns := extent input 1
    ∀ index < input.shape.elements,
      (softmaxF32 input validLengths output memory).2 (output.data + index) =
        maskedRow (validLengths.getD (index / columns) 0).toNat
          (fun column => memory (input.data + index / columns * columns + column))
          (index % columns) := by
  intro columns index inside
  rw [softmaxF32] at accepted ⊢
  obtain ⟨passed, after⟩ := guarded_ok _ _ _ accepted
  have checked := softmax_check_ok input validLengths output memory passed
  have place := output_place input output checked.sameShape checked.aliases (by omega)
  rw [checked.elements] at place inside
  have someColumns : 0 < columns := Nat.pos_of_ne_zero fun none => by
    rw [show extent input 1 = 0 from none, Nat.mul_zero] at inside
    exact absurd inside (Nat.not_lt_zero _)
  have rowBelow : index / columns < extent input 0 := by
    apply Nat.div_lt_of_lt_mul
    rwa [Nat.mul_comm]
  have spec := (softmax_rows_spec input.data output.data (extent input 0) columns validLengths
    (fun row column => memory (input.data + row * columns + column)) memory
    (fun row below => (checked.rows row below).2.1) place (fun _ _ _ _ => rfl)).1
    (index / columns) rowBelow (index % columns) (Nat.mod_lt _ someColumns)
  rw [Nat.add_assoc, Nat.div_add_mod'] at spec
  rw [after]
  exact spec

/-- The norm and the softmax in place. An accepted call that writes over its input leaves what an
accepted call with an output of its own leaves there. A call whose output shares floats with the
input without being it, or shares any with the weight of the norm, is refused. -/
theorem in_place_calls (memory : FlatMemory F) :
    (∀ (input weight output other : FloatView) (epsilon : F),
      SameRange input output →
      (rmsNormF32 input weight epsilon output memory).1.isOk = true →
      ¬Overlap input other →
      (rmsNormF32 input weight epsilon other memory).1.isOk = true →
      ∀ index < input.shape.elements,
        (rmsNormF32 input weight epsilon output memory).2 (output.data + index) =
          (rmsNormF32 input weight epsilon other memory).2 (other.data + index)) ∧
    (∀ (input output other : FloatView) (validLengths : List UInt32),
      SameRange input output →
      (softmaxF32 input validLengths output memory).1.isOk = true →
      ¬Overlap input other →
      (softmaxF32 input validLengths other memory).1.isOk = true →
      ∀ index < input.shape.elements,
        (softmaxF32 input validLengths output memory).2 (output.data + index) =
          (softmaxF32 input validLengths other memory).2 (other.data + index)) ∧
    (∀ (input weight output : FloatView) (epsilon : F),
      (Overlap input output ∧ ¬SameRange input output) ∨ Overlap weight output →
      Refuses (rmsNormF32 input weight epsilon output) memory) ∧
    (∀ (input output : FloatView) (validLengths : List UInt32),
      Overlap input output ∧ ¬SameRange input output →
      Refuses (softmaxF32 input validLengths output) memory) := by
  refine ⟨?norm, ?softmax, ?normRefuses, ?softmaxRefuses⟩
  case norm =>
    intro input weight output other epsilon _ accepted _ acceptedOther index inside
    -- both results are read off the memory before the call
    rw [rms_norm_f32_result input weight output epsilon memory accepted index inside,
      rms_norm_f32_result input weight other epsilon memory acceptedOther index inside]
  case softmax =>
    intro input output other validLengths _ accepted _ acceptedOther index inside
    rw [softmax_f32_result input validLengths output memory accepted index inside,
      softmax_f32_result input validLengths other memory acceptedOther index inside]
  case normRefuses =>
    intro input weight output epsilon crossing
    apply guarded_refuses
    intro passed
    have checked := rms_norm_check_ok input weight output epsilon passed
    rcases crossing with ⟨shared, different⟩ | weightShared
    · exact different (checked.aliases shared)
    · exact checked.weightApart weightShared
  case softmaxRefuses =>
    rintro input output validLengths ⟨shared, different⟩
    rw [Refuses, softmaxF32]
    refine guarded_refuses (softmaxCheck input validLengths output memory) _ memory ?_
    intro passed
    have checked := softmax_check_ok input validLengths output memory passed
    exact different (checked.aliases shared)

end

/-- A matrix of two rows and two columns at an address. -/
def twoByTwo (data : Nat) : FloatView := ⟨data, .ofExtents [2, 2], .f32, .host⟩

/-- Two rows normalised and weighed in place and into an output of their own, and refused over a
part of themselves. -/
theorem in_place_calls_two_rows :
    let memory : FlatMemory BinaryFloat.Value := fun address => .finite address
    let weight : FloatView := ⟨192, .ofExtents [2], .f32, .host⟩
    (∀ index < 4,
      (@rmsNormF32 _ plainFloats (twoByTwo 64) weight (.finite 1) (twoByTwo 64) memory).2
          (64 + index) =
        (@rmsNormF32 _ plainFloats (twoByTwo 64) weight (.finite 1) (twoByTwo 128) memory).2
          (128 + index)) ∧
    (∀ index < 4,
      (@softmaxF32 _ plainFloats (twoByTwo 64) [2, 1] (twoByTwo 64) memory).2 (64 + index) =
        (@softmaxF32 _ plainFloats (twoByTwo 64) [2, 1] (twoByTwo 128) memory).2 (128 + index)) ∧
    Refuses (@rmsNormF32 _ plainFloats (twoByTwo 64) weight (.finite 1) (twoByTwo 65)) memory ∧
    Refuses (@softmaxF32 _ plainFloats (twoByTwo 64) [2, 1] (twoByTwo 66)) memory := by
  intro memory weight
  have four (data : Nat) : (twoByTwo data).shape.elements = 4 := by
    show (Shape.ofExtents [2, 2]).elements = 4
    decide
  have apart : ¬Overlap (twoByTwo 64) (twoByTwo 128) := by
    rintro ⟨address, inFirst, inSecond⟩
    rw [Covers, four] at inFirst inSecond
    simp only [Within, twoByTwo] at inFirst inSecond
    omega
  -- the last two addresses of the input are in the output
  have crossing (data : Nat) (below : data < 67) (above : 65 ≤ data) :
      Overlap (twoByTwo 64) (twoByTwo data) ∧ ¬SameRange (twoByTwo 64) (twoByTwo data) := by
    refine ⟨⟨67, ?_, ?_⟩, fun same => ?_⟩
    · rw [Covers, four]
      simp only [Within, twoByTwo]
      omega
    · rw [Covers, four]
      simp only [Within, twoByTwo]
      omega
    · have start := same.1
      simp only [twoByTwo] at start
      omega
  obtain ⟨norm, softmax, normRefuses, softmaxRefuses⟩ := @in_place_calls _ plainFloats memory
  exact ⟨norm (twoByTwo 64) weight (twoByTwo 64) (twoByTwo 128) (.finite 1) ⟨rfl, rfl⟩
      (by decide +kernel) apart (by decide +kernel),
    softmax (twoByTwo 64) (twoByTwo 64) (twoByTwo 128) [2, 1] ⟨rfl, rfl⟩ (by decide +kernel) apart
      (by decide +kernel),
    normRefuses (twoByTwo 64) weight (twoByTwo 65) (.finite 1)
      (.inl (crossing 65 (by decide) (by decide))),
    softmaxRefuses (twoByTwo 64) (twoByTwo 66) [2, 1] (crossing 66 (by decide) (by decide))⟩

end MarketForge.Cpu
