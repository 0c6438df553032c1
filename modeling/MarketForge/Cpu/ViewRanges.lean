import MarketForge.Core.RowMajor
import MarketForge.Cpu.CallEffects
import Mathlib.Algebra.BigOperators.Group.List.Lemmas
import Mathlib.Algebra.Order.BigOperators.GroupWithZero.List
import Mathlib.Algebra.Order.Ring.Nat

/-!
# The memory of a view

A view covers as many floats as its shape has elements. What passes the checks of two views
shares no float, and what shares some but not all of them does not pass.
-/
namespace MarketForge.Cpu

open Library

/-- The float at this address belongs to the view. -/
def Covers (view : FloatView) (address : Nat) : Prop :=
  Within view.data view.shape.elements address

/-- Some float belongs to both views. -/
def Overlap (left right : FloatView) : Prop := ∃ address, Covers left address ∧ Covers right address

/-- The views cover the same floats, from the same address on. -/
def SameRange (left right : FloatView) : Prop :=
  left.data = right.data ∧ left.shape.elements = right.shape.elements

/-! ## Elements of a view -/

/-- The extents up to the rank, as counts. -/
theorem dims_extents (view : FloatView) (ranked : view.shape.rank.toNat ≤ 6) :
    view.shape.dims.map UInt64.toNat = (List.range view.shape.rank.toNat).map (extent view) := by
  have size : view.shape.extents.toList.length = 6 := view.shape.extents.length_toList
  rw [Shape.dims]
  apply List.ext_getElem
  · rw [List.length_map, List.length_take, size, List.length_map, List.length_range]
    exact min_eq_left ranked
  · intro axis inside _
    rw [List.length_map, List.length_take, size] at inside
    have stored : axis < view.shape.extents.toList.length := by omega
    simp only [List.getElem_map, List.getElem_take, List.getElem_range, extent,
      List.getD_eq_getElem?_getD, List.getElem?_eq_getElem stored, Option.getD_some]

/-- The elements of a view are counted by its extents. -/
theorem elements_extents (view : FloatView) (ranked : view.shape.rank.toNat ≤ 6) :
    view.shape.elements = ((List.range view.shape.rank.toNat).map (extent view)).prod := by
  rw [Shape.elements, dims_extents view ranked]

theorem vector_elements (view : FloatView) (ranked : view.shape.rank = 1) :
    view.shape.elements = extent view 0 := by
  rw [elements_extents view (by simp [ranked]), ranked]
  simp

theorem matrix_elements (view : FloatView) (ranked : view.shape.rank = 2) :
    view.shape.elements = extent view 0 * extent view 1 := by
  rw [elements_extents view (by simp [ranked]), ranked]
  simp [List.range_succ]

theorem tensor_elements (view : FloatView) (ranked : view.shape.rank = 4) :
    view.shape.elements =
      extent view 0 * extent view 1 * (extent view 2 * extent view 3) := by
  rw [elements_extents view (by simp [ranked]), ranked]
  simp [List.range_succ, Nat.mul_assoc]

/-- A valid view has the shape that its extents make. -/
theorem valid_shape (view : FloatView) (valid : (validateF32Host view).isOk = true) (data : Nat) :
    view.shape =
      (sliceView data ((List.range view.shape.rank.toNat).map (extent view))).shape := by
  have canonical : (validateShape view.shape).isOk = true := by
    unfold validateF32Host validateTensorView at valid
    split at valid
    next => split at valid <;> simp at valid
    next =>
      unfold checkedNbytes checkedNumel at valid
      dsimp only at valid
      cases checked : (validateShape view.shape).isOk with
      | true => rfl
      | false => simp [checked] at valid
  have ranked : view.shape.rank.toNat ≤ 6 := by
    unfold validateShape at canonical
    split at canonical
    next => simp at canonical
    next short => exact Nat.le_of_not_lt short
  have words : (view.shape.dims.map UInt64.toNat).map UInt64.ofNat = view.shape.dims := by
    simp [List.map_map, Function.comp_def]
  rw [← dims_extents view ranked]
  show view.shape = Shape.ofExtents ((view.shape.dims.map UInt64.toNat).map UInt64.ofNat)
  rw [words]
  exact canonical_shape view.shape canonical

/-! ## Ranges of bytes -/

/-- A byte count that is not returned is not a success either. -/
theorem checked_nbytes_error (shape : Shape) (dtype : DType) (status : Status)
    (failed : checkedNbytes shape dtype = .error status) : status.isOk = false := by
  unfold checkedNbytes at failed
  split at failed
  next reason counted =>
    obtain rfl := Except.error.inj failed
    exact checked_numel_error shape reason counted
  next elements _ =>
    split at failed
    next reason unknown => cases dtype <;> cases unknown
    next width _ => exact (Computes.multiply elements width.toUInt64).overflow _ failed ▸ rfl

/-- The elements of a view that passes its check have a byte count. -/
theorem view_bytes_ok (view : FloatView) (passed : (validateF32Host view).isOk = true) :
    view.dtype = .f32 ∧ ∃ bytes, checkedNbytes view.shape view.dtype = .ok bytes ∧
      bytes.toNat = view.shape.elements * 4 ∧ (bytes ≠ 0 → view.data ≠ 0) := by
  unfold validateF32Host validateTensorView at passed
  split at passed
  next => split at passed <;> simp at passed
  next host =>
    simp only [not_or, not_not] at host
    refine ⟨host.1, ?_⟩
    cases counted : checkedNbytes view.shape view.dtype with
    | error status =>
      have failed := checked_nbytes_error view.shape view.dtype status counted
      rw [counted] at passed
      exact absurd passed (by simp [failed])
    | ok bytes =>
      obtain ⟨exact, _⟩ := checked_nbytes_ok view.shape view.dtype bytes counted
      rw [host.1] at exact
      refine ⟨bytes, rfl, exact, ?_⟩
      intro some_bytes null
      rw [counted] at passed
      simp [some_bytes, null] at passed

/-- The bytes of a valid view are a word. -/
theorem valid_bytes_lt (view : FloatView) (valid : (validateF32Host view).isOk = true) :
    view.shape.elements * 4 < 2 ^ 64 := by
  obtain ⟨_, bytes, _, exact, _⟩ := view_bytes_ok view valid
  rw [← exact]
  exact bytes.toNat_lt

/-- The bytes of a view are those of its floats. An empty view has an empty range at zero. -/
theorem memory_range_ok (view : FloatView) (range : MemoryRange) (single : view.dtype = .f32)
    (computed : memoryRange view = .ok range) :
    if view.shape.elements = 0 then range = ⟨0, 0⟩
    else range = ⟨4 * view.data, 4 * view.data + 4 * view.shape.elements⟩ ∧ view.data ≠ 0 := by
  unfold memoryRange at computed
  split at computed
  next => cases computed
  next bytes counted =>
    obtain ⟨exact, _⟩ := checked_nbytes_ok view.shape view.dtype bytes counted
    rw [single, DType.size] at exact
    split at computed
    next none =>
      obtain rfl := Except.ok.inj computed
      rw [if_pos (by simpa [none] using exact.symm)]
    next some_bytes =>
      have nonempty : view.shape.elements ≠ 0 := fun none => by
        rw [none, Nat.zero_mul] at exact
        exact some_bytes (UInt64.toNat_inj.mp exact)
      split at computed
      next => cases computed
      next nonnull =>
        split at computed
        next => cases computed
        next =>
          obtain rfl := Except.ok.inj computed
          rw [if_neg nonempty, exact, Nat.mul_comm view.shape.elements]
          exact ⟨rfl, nonnull⟩

/-- The views of two byte ranges share a float exactly when the ranges share a byte. -/
theorem overlaps_iff (left right : FloatView) (leftRange rightRange : MemoryRange)
    (leftSingle : left.dtype = .f32) (rightSingle : right.dtype = .f32)
    (leftComputed : memoryRange left = .ok leftRange)
    (rightComputed : memoryRange right = .ok rightRange) :
    overlaps leftRange rightRange = true ↔ Overlap left right := by
  have leftBytes := memory_range_ok left leftRange leftSingle leftComputed
  have rightBytes := memory_range_ok right rightRange rightSingle rightComputed
  unfold Overlap Covers Within
  by_cases leftEmpty : left.shape.elements = 0
  · rw [if_pos leftEmpty] at leftBytes
    subst leftBytes
    simp [overlaps, leftEmpty]
  by_cases rightEmpty : right.shape.elements = 0
  · rw [if_pos rightEmpty] at rightBytes
    subst rightBytes
    simp [overlaps, rightEmpty]
  · rw [if_neg leftEmpty] at leftBytes
    rw [if_neg rightEmpty] at rightBytes
    obtain ⟨rfl, _⟩ := leftBytes
    obtain ⟨rfl, _⟩ := rightBytes
    rw [overlaps, if_neg (by simp only [not_or]; omega), Bool.and_eq_true, decide_eq_true_eq,
      decide_eq_true_eq]
    dsimp only
    constructor
    · intro crossing
      -- the later of the two first floats belongs to both
      use max left.data right.data
      omega
    · rintro ⟨address, inLeft, inRight⟩
      omega

theorem exactly_aliases_iff (left right : FloatView) (leftRange rightRange : MemoryRange)
    (leftSingle : left.dtype = .f32) (rightSingle : right.dtype = .f32)
    (leftComputed : memoryRange left = .ok leftRange)
    (rightComputed : memoryRange right = .ok rightRange) (shared : Overlap left right) :
    exactlyAliases leftRange rightRange = true ↔ SameRange left right := by
  have leftBytes := memory_range_ok left leftRange leftSingle leftComputed
  have rightBytes := memory_range_ok right rightRange rightSingle rightComputed
  obtain ⟨address, inLeft, inRight⟩ := shared
  unfold Covers Within at inLeft inRight
  rw [if_neg (by omega)] at leftBytes rightBytes
  obtain ⟨rfl, _⟩ := leftBytes
  obtain ⟨rfl, _⟩ := rightBytes
  rw [exactlyAliases, Bool.and_eq_true, decide_eq_true_eq, decide_eq_true_eq, SameRange]
  dsimp only
  omega

/-! ## Checks of two views -/

/-- An output passes when it shares no float with the input, or exactly all of them where that is
allowed. -/
theorem output_alias_iff (input output : FloatView) (allowExactAlias : Bool)
    (inputRange outputRange : MemoryRange) (inputSingle : input.dtype = .f32)
    (outputSingle : output.dtype = .f32) (inputComputed : memoryRange input = .ok inputRange)
    (outputComputed : memoryRange output = .ok outputRange) :
    (validateOutputAlias input output allowExactAlias).isOk = true ↔
      (Overlap input output → allowExactAlias = true ∧ SameRange input output) := by
  have crossing := overlaps_iff input output inputRange outputRange inputSingle outputSingle
    inputComputed outputComputed
  rw [validateOutputAlias, inputComputed, outputComputed]
  dsimp only
  by_cases shared : Overlap input output
  · have exact := exactly_aliases_iff input output inputRange outputRange inputSingle outputSingle
      inputComputed outputComputed shared
    rw [crossing.mpr shared, Bool.true_and]
    cases allowExactAlias with
    | false => simp [shared]
    | true =>
      rw [Bool.true_and]
      by_cases same : SameRange input output
      · simp [exact.mpr same, shared, same]
      · simp [Bool.eq_false_iff.mpr (mt exact.mp same), shared, same]
  · rw [Bool.eq_false_iff.mpr (mt crossing.mp shared)]
    simp [shared]

/-- A range that is not computed is not a success either. -/
theorem memory_range_error (view : FloatView) (status : Status)
    (failed : memoryRange view = .error status) : status.isOk = false := by
  unfold memoryRange at failed
  split at failed
  next reason counted =>
    obtain rfl := Except.error.inj failed
    exact checked_nbytes_error view.shape view.dtype reason counted
  next =>
    split at failed
    next => cases failed
    next =>
      split at failed
      next => exact Except.error.inj failed ▸ rfl
      next =>
        split at failed
        next => exact Except.error.inj failed ▸ rfl
        next => cases failed

/-- A range that is computed ends within memory. -/
theorem memory_range_fits (view : FloatView) (range : MemoryRange) (single : view.dtype = .f32)
    (computed : memoryRange view = .ok range) (some : 0 < view.shape.elements) :
    4 * view.data + 4 * view.shape.elements < 2 ^ 64 := by
  unfold memoryRange at computed
  split at computed
  next => cases computed
  next bytes counted =>
    have exact := (checked_nbytes_ok view.shape view.dtype bytes counted).1
    rw [single, DType.size] at exact
    have bound := bytes.toNat_lt
    split at computed
    next none =>
      rw [none, UInt64.toNat_zero] at exact
      omega
    next =>
      split at computed
      next => cases computed
      next =>
        split at computed
        next => cases computed
        next fits => omega

/-- What passes the check of an output has ranges. -/
theorem output_alias_ranges (input output : FloatView) (allowExactAlias : Bool)
    (passed : (validateOutputAlias input output allowExactAlias).isOk = true) :
    ∃ inputRange outputRange,
      memoryRange input = .ok inputRange ∧ memoryRange output = .ok outputRange := by
  cases inputComputed : memoryRange input with
  | error status =>
    rw [validateOutputAlias, inputComputed] at passed
    exact absurd passed (by simp [memory_range_error input status inputComputed])
  | ok inputRange =>
    cases outputComputed : memoryRange output with
    | error status =>
      rw [validateOutputAlias, inputComputed, outputComputed] at passed
      exact absurd passed (by simp [memory_range_error output status outputComputed])
    | ok outputRange => exact ⟨inputRange, outputRange, rfl, rfl⟩

/-- Views that pass the check of an output in place share no float or all of them. -/
theorem output_alias_ok (input output : FloatView)
    (inputValid : (validateF32Host input).isOk = true)
    (outputValid : (validateF32Host output).isOk = true)
    (passed : (validateOutputAlias input output true).isOk = true)
    (shared : Overlap input output) : SameRange input output := by
  obtain ⟨inputRange, outputRange, inputComputed, outputComputed⟩ :=
    output_alias_ranges input output true passed
  have inputSingle := (view_bytes_ok input inputValid).1
  have outputSingle := (view_bytes_ok output outputValid).1
  exact ((output_alias_iff input output true inputRange outputRange inputSingle outputSingle
    inputComputed outputComputed).mp passed shared).2

/-- The views have ranges, and share no float. -/
structure Separate (left right : FloatView) : Prop where
  leftEnds : ∃ range, memoryRange left = .ok range
  rightEnds : ∃ range, memoryRange right = .ok range
  apart : ¬Overlap left right

/-- The check of two views against each other. -/
theorem no_overlap_iff (left right : FloatView) (leftSingle : left.dtype = .f32)
    (rightSingle : right.dtype = .f32) :
    (validateNoOverlap left right).isOk = true ↔ Separate left right := by
  constructor
  · intro passed
    obtain ⟨leftRange, rightRange, leftComputed, rightComputed⟩ :=
      output_alias_ranges left right false passed
    constructor
    case leftEnds => exact ⟨leftRange, leftComputed⟩
    case rightEnds => exact ⟨rightRange, rightComputed⟩
    case apart =>
      intro shared
      exact absurd ((output_alias_iff left right false leftRange rightRange leftSingle rightSingle
        leftComputed rightComputed).mp passed shared).1 (by decide)
  · rintro ⟨⟨leftRange, leftComputed⟩, ⟨rightRange, rightComputed⟩, apart⟩
    exact (output_alias_iff left right false leftRange rightRange leftSingle rightSingle
      leftComputed rightComputed).mpr fun shared => absurd shared apart

/-- Views that pass the check against each other share no float. -/
theorem no_overlap_ok (left right : FloatView) (leftValid : (validateF32Host left).isOk = true)
    (rightValid : (validateF32Host right).isOk = true)
    (passed : (validateNoOverlap left right).isOk = true) : ¬Overlap left right :=
  ((no_overlap_iff left right (view_bytes_ok left leftValid).1
    (view_bytes_ok right rightValid).1).mp passed).apart

/-- Two nonempty views that share no float lie apart. -/
theorem apart_of_no_overlap (left right : FloatView) (separate : ¬Overlap left right)
    (leftSome : 0 < left.shape.elements) (rightSome : 0 < right.shape.elements) :
    Apart left.data left.shape.elements right.data right.shape.elements := by
  by_contra crossing
  unfold Apart at crossing
  apply separate
  use max left.data right.data
  unfold Covers Within
  omega

/-! ## Slices -/

/-- A slice of floats with these extents, none of them zero, that ends within memory. -/
structure Addressable (data : Nat) (extents : List Nat) : Prop where
  short : extents.length ≤ 6
  positive : ∀ extent ∈ extents, 0 < extent
  nonnull : data ≠ 0
  fits : 4 * data + 4 * extents.prod < 2 ^ 64

namespace Addressable

variable {data : Nat} {extents : List Nat} (slice : Addressable data extents)

include slice

theorem leading_le (count : Nat) : (extents.take count).prod ≤ extents.prod := by
  rw [← List.prod_take_mul_prod_drop extents count]
  exact Nat.le_mul_of_pos_right _ (List.prod_pos fun extent behind =>
    slice.positive extent (List.mem_of_mem_drop behind))

theorem extent_le (extent : Nat) (listed : extent ∈ extents) : extent ≤ extents.prod :=
  Nat.le_of_dvd (List.prod_pos slice.positive) (List.dvd_prod listed)

/-- The extents are machine words. -/
theorem words : (extents.map UInt64.ofNat).map UInt64.toNat = extents := by
  rw [List.map_map]
  apply (List.map_congr_left fun extent listed => ?_).trans (List.map_id extents)
  have bound := slice.extent_le extent listed
  have fits := slice.fits
  exact Nat.mod_eq_of_lt (by omega)

theorem extent (axis : Nat) (inside : axis < extents.length) :
    Cpu.extent (sliceView data extents) axis = extents.getD axis 0 := by
  have short := slice.short
  apply extent_slice data extents axis (by omega)
  have listed : extents.getD axis 0 ∈ extents := by
    rw [List.getD_eq_getElem?_getD, List.getElem?_eq_getElem inside]
    exact List.getElem_mem inside
  have bound := slice.extent_le _ listed
  have fits := slice.fits
  omega

theorem elements : (sliceView data extents).shape.elements = extents.prod := by
  rw [elements_make _ _ (by simpa using slice.short), slice.words]

theorem bytes : ∃ bytes, checkedNbytes (sliceView data extents).shape .f32 = .ok bytes ∧
    bytes.toNat = extents.prod * 4 := by
  have dims : (sliceView data extents).shape.dims = extents.map UInt64.ofNat :=
    shape_of_extents_dims _ (by simpa [Shape.maxRank] using slice.short)
  have fits := slice.fits
  have exact : (sliceView data extents).shape.Exact := by
    intro count
    rw [dims, List.map_take, slice.words]
    have bound := slice.leading_le count
    omega
  have counted := checked_nbytes_made (sliceView data extents).shape .f32
    (by rw [dims]; rfl) (by rw [dims]; simpa [Shape.maxRank] using slice.short) exact
    (by rw [slice.elements]; simp only [DType.size]; omega)
  rwa [slice.elements] at counted

theorem valid : (validateF32Host (sliceView data extents)).isOk = true := by
  obtain ⟨bytes, counted, _⟩ := slice.bytes
  have nonnull : (sliceView data extents).data ≠ 0 := slice.nonnull
  rw [validateF32Host, if_neg (by simp [makeF32View]), validateTensorView,
    show (sliceView data extents).dtype = .f32 from rfl, counted]
  simp [nonnull]

theorem range : memoryRange (sliceView data extents) =
    .ok ⟨4 * data, 4 * data + 4 * extents.prod⟩ := by
  obtain ⟨bytes, counted, exact⟩ := slice.bytes
  have fits := slice.fits
  have some : bytes ≠ 0 := fun none => by
    have positive := List.prod_pos slice.positive
    rw [none, UInt64.toNat_zero] at exact
    omega
  have nonnull : (sliceView data extents).data ≠ 0 := slice.nonnull
  rw [memoryRange, show (sliceView data extents).dtype = .f32 from rfl, counted]
  dsimp only
  rw [if_neg some, if_neg nonnull, show (sliceView data extents).data = data from rfl,
    if_neg (by rw [exact]; omega), exact, Nat.mul_comm 4 extents.prod]

end Addressable

end MarketForge.Cpu
