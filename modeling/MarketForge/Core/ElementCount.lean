import Mathlib.Algebra.BigOperators.Group.List.Basic
import Mathlib.Data.List.Perm.Basic
import Mathlib.Data.List.TakeWhile
import MarketForge.Core.Shape

/-!
# Element counts

When the left-to-right product of the extents is the exact element count. The product is checked
after every extent, so a zero extent keeps the count representable only once it has been reached:
the extents in front of it still have to multiply to a machine word.
-/
namespace MarketForge

namespace Shape

/-- The count is exact: it is returned when it is a machine word, and an overflow is reported
when it is not. -/
def ExactCount (shape : Shape) : Prop := Computes (checkedNumel shape) shape.elements

/-- The byte count is returned exactly when it is a machine word. -/
def ExactBytes (shape : Shape) (dtype : DType) : Prop :=
  (∃ bytes, checkedNbytes shape dtype = .ok bytes) ↔ shape.elements * dtype.size < 2 ^ 64

/-- The outcome is the same for every order of the extents. -/
def OrderFree (shape : Shape) : Prop :=
  ∀ extents, extents.Perm shape.dims → checkedNumel (.ofExtents extents) = checkedNumel shape

/-- The product of the extents in front of the first zero. -/
def leadingProduct (extents : List UInt64) : Nat :=
  ((extents.takeWhile (· ≠ 0)).map UInt64.toNat).prod

/-- The product of the extents that are not zero. -/
def nonzeroProduct (extents : List UInt64) : Nat :=
  ((extents.filter (· ≠ 0)).map UInt64.toNat).prod

theorem leading_product_cons (extent : UInt64) (others : List UInt64) :
    leadingProduct (extent :: others) =
      if extent = 0 then 1 else extent.toNat * leadingProduct others := by
  by_cases zero : extent = 0 <;> simp [leadingProduct, zero]

theorem nonzero_product_cons (extent : UInt64) (others : List UInt64) :
    nonzeroProduct (extent :: others) =
      if extent = 0 then nonzeroProduct others else extent.toNat * nonzeroProduct others := by
  by_cases zero : extent = 0 <;> simp [nonzeroProduct, zero]

private theorem extent_pos (extent : UInt64) (nonzero : extent ≠ 0) : 0 < extent.toNat :=
  Nat.pos_of_ne_zero fun none => nonzero (UInt64.toNat_inj.mp none)

theorem leading_product_pos (extents : List UInt64) : 0 < leadingProduct extents := by
  induction extents with
  | nil => simp [leadingProduct]
  | cons extent others ih =>
    rw [leading_product_cons]
    split
    · exact Nat.one_pos
    next nonzero => exact Nat.mul_pos (extent_pos extent nonzero) ih

theorem leading_le_nonzero (extents : List UInt64) :
    leadingProduct extents ≤ nonzeroProduct extents := by
  induction extents with
  | nil => simp [leadingProduct, nonzeroProduct]
  | cons extent others ih =>
    rw [leading_product_cons, nonzero_product_cons]
    split
    · exact Nat.le_trans (leading_product_pos others) ih
    · exact Nat.mul_le_mul_left _ ih

theorem leading_product_no_zero (extents : List UInt64) (noZero : 0 ∉ extents) :
    leadingProduct extents = (extents.map UInt64.toNat).prod := by
  have whole : extents.takeWhile (· ≠ 0) = extents := by
    rw [List.takeWhile_eq_self_iff]
    intro extent listed
    simp only [decide_eq_true_eq]
    exact fun zero => noZero (zero ▸ listed)
  rw [leadingProduct, whole]

theorem nonzero_product_perm {left right : List UInt64} (same : left.Perm right) :
    nonzeroProduct left = nonzeroProduct right :=
  ((same.filter _).map _).prod_eq

/-- The extents that are not zero come first, and the zeros behind them. -/
theorem leading_product_zeros_last (extents : List UInt64) :
    leadingProduct (extents.filter (· ≠ 0) ++ extents.filter (· = 0)) =
      nonzeroProduct extents := by
  have front : ∀ extent ∈ extents.filter (· ≠ 0), decide (extent ≠ 0) = true :=
    fun extent listed => (List.mem_filter.mp listed).2
  have behind : (extents.filter (· = 0)).takeWhile (· ≠ 0) = [] := by
    rw [List.takeWhile_eq_nil_iff]
    intro nonempty
    have listed := List.get_mem (extents.filter (· = 0)) ⟨0, nonempty⟩
    simpa using (List.mem_filter.mp listed).2
  rw [leadingProduct, List.takeWhile_append_of_pos front, behind, List.append_nil,
    nonzeroProduct]

theorem product_zero (extents : List UInt64) (zero : 0 ∈ extents) :
    (extents.map UInt64.toNat).prod = 0 := by
  induction extents with
  | nil => cases zero
  | cons extent others ih =>
    rw [List.map_cons, List.prod_cons]
    rcases List.mem_cons.mp zero with rfl | behind
    · rw [UInt64.toNat_zero, Nat.zero_mul]
    · rw [ih behind, Nat.mul_zero]

end Shape

/-! ## The checked product -/

/-- A checked product is returned exactly when the factors in front of the first zero multiply to
a machine word. -/
theorem checked_product_iff (extents : List UInt64) (initial : UInt64) :
    (∃ product, extents.foldlM checkedMultiply initial = .ok product) ↔
      initial.toNat * Shape.leadingProduct extents < 2 ^ 64 := by
  induction extents generalizing initial with
  | nil =>
    have bound := initial.toNat_lt
    simpa [Shape.leadingProduct, pure, Except.pure] using bound
  | cons extent others ih =>
    rw [Shape.leading_product_cons]
    by_cases fits : initial.toNat * extent.toNat < 2 ^ 64
    · have product : (initial * extent).toNat = initial.toNat * extent.toNat := by
        rw [UInt64.toNat_mul, Nat.mod_eq_of_lt fits]
      rw [List.foldlM_cons, ok_bind _ (checked_multiply_of_lt initial extent fits),
        ih (initial * extent), product]
      split
      next zero =>
        -- from here on the product stays zero, whatever follows
        have bound := initial.toNat_lt
        simp [zero, bound]
      next => rw [Nat.mul_assoc]
    · constructor
      · rintro ⟨product, computed⟩
        rw [List.foldlM_cons] at computed
        obtain ⟨next, step, _⟩ := bind_eq_ok.mp computed
        have exact := (checked_multiply_iff initial extent next).mp step
        have bound := next.toNat_lt
        omega
      · intro small
        split at small
        next zero => simp [zero] at fits
        next =>
          have grows := Nat.le_mul_of_pos_right (initial.toNat * extent.toNat)
            (Shape.leading_product_pos others)
          rw [Nat.mul_assoc] at grows
          omega

/-- A checked product that is not returned reports an overflow. -/
theorem checked_product_overflow (extents : List UInt64) (initial : UInt64) (status : Status)
    (failed : extents.foldlM checkedMultiply initial = .error status) :
    status = .failure .arithmeticOverflow := by
  induction extents generalizing initial with
  | nil => cases failed
  | cons extent others ih =>
    rw [List.foldlM_cons] at failed
    cases step : checkedMultiply initial extent with
    | error reason =>
      rw [step] at failed
      obtain rfl := Except.error.inj failed
      exact (Computes.multiply initial extent).overflow reason step
    | ok next =>
      rw [step] at failed
      exact ih next failed

/-! ## The element count -/

section Canonical

variable (shape : Shape) (canonical : (validateShape shape).isOk = true)
include canonical

theorem checked_numel_canonical :
    checkedNumel shape = shape.dims.foldlM checkedMultiply 1 := by
  rw [checkedNumel, if_neg (by simp [canonical])]

theorem checked_numel_succeeds_iff :
    (∃ count, checkedNumel shape = .ok count) ↔ Shape.leadingProduct shape.dims < 2 ^ 64 := by
  have product := checked_product_iff shape.dims 1
  rw [checked_numel_canonical shape canonical, product]
  have one : (1 : UInt64).toNat = 1 := rfl
  rw [one, Nat.one_mul]

theorem exact_count_iff_ok :
    shape.ExactCount ↔
      ((∃ count, checkedNumel shape = .ok count) ↔ shape.elements < 2 ^ 64) := by
  constructor
  · exact Computes.ok_iff
  · intro succeeds
    constructor
    · intro count
      constructor
      · exact fun computed => (checked_numel_ok shape count computed).1
      · intro exact
        obtain ⟨other, computed⟩ := succeeds.mpr (by rw [← exact]; exact count.toNat_lt)
        have equal := (checked_numel_ok shape other computed).1
        rw [computed, UInt64.toNat_inj.mp (exact.trans equal.symm)]
    · intro status failed
      rw [checked_numel_canonical shape canonical] at failed
      exact checked_product_overflow shape.dims 1 status failed

/-- Without a zero extent every intermediate product is at most the count. -/
theorem exact_count_no_zero (noZero : 0 ∉ shape.dims) : shape.ExactCount := by
  rw [exact_count_iff_ok shape canonical, checked_numel_succeeds_iff shape canonical,
    Shape.leading_product_no_zero shape.dims noZero, Shape.elements]

theorem exact_count_iff :
    shape.ExactCount ↔ (0 ∈ shape.dims → Shape.leadingProduct shape.dims < 2 ^ 64) := by
  by_cases zero : 0 ∈ shape.dims
  · have none : shape.elements = 0 := Shape.product_zero shape.dims zero
    rw [exact_count_iff_ok shape canonical, checked_numel_succeeds_iff shape canonical, none]
    simp [zero]
  · have exact := exact_count_no_zero shape canonical zero
    simp [zero, exact]

theorem exact_bytes_iff (dtype : DType) :
    shape.ExactBytes dtype ↔ (0 ∈ shape.dims → Shape.leadingProduct shape.dims < 2 ^ 64) := by
  have counted := exact_count_iff shape canonical
  have positive : 0 < dtype.size := by cases dtype <;> decide
  constructor
  · intro exact zero
    have none : shape.elements = 0 := Shape.product_zero shape.dims zero
    rw [Shape.ExactBytes, none, Nat.zero_mul] at exact
    obtain ⟨bytes, computed⟩ := exact.mpr (by omega)
    unfold checkedNbytes at computed
    cases count : checkedNumel shape with
    | error status => rw [count] at computed; cases computed
    | ok elements => exact (checked_numel_succeeds_iff shape canonical).mp ⟨elements, count⟩
  · intro leading
    have exact := counted.mpr leading
    constructor
    · rintro ⟨bytes, computed⟩
      rw [← (checked_nbytes_ok shape dtype bytes computed).1]
      exact bytes.toNat_lt
    · intro fits
      have small : shape.elements < 2 ^ 64 :=
        Nat.lt_of_le_of_lt (Nat.le_mul_of_pos_right _ positive) fits
      obtain ⟨elements, count⟩ := exact.ok_iff.mpr small
      obtain ⟨width, known⟩ : ∃ width, dtypeSize dtype = .ok width := by
        cases dtype <;> exact ⟨_, rfl⟩
      use elements * width.toUInt64
      simp only [checkedNbytes, count, known]
      apply checked_multiply_of_lt
      rwa [UInt32.toNat_toUInt64, (exact.exact elements).mp count, dtype_size_ok dtype width known]

end Canonical

/-! ## Orders of the extents -/

/-- Two computations of one number have one outcome. -/
theorem Computes.unique {first second : Result UInt64} {value : Nat}
    (exact : Computes first value) (other : Computes second value) : first = second := by
  cases done : first with
  | ok count =>
    have equal := (exact.exact count).mp done
    exact ((other.exact count).mpr equal).symm
  | error status =>
    cases done' : second with
    | ok count =>
      have equal := (other.exact count).mp done'
      have computed := (exact.exact count).mpr equal
      rw [done] at computed
      cases computed
    | error status' => rw [exact.overflow status done, other.overflow status' done']

/-- Any order of the extents makes a canonical shape. -/
theorem reordered_shape (shape : Shape) (extents : List UInt64)
    (same : extents.Perm shape.dims) :
    (validateShape (.ofExtents extents)).isOk = true ∧
      (Shape.ofExtents extents).dims = extents := by
  have short : extents.length ≤ Shape.maxRank := by
    rw [same.length_eq, Shape.dims, List.length_take, Vector.length_toList]
    exact Nat.min_le_right _ _
  exact ⟨by rw [validate_made_shape extents short]; rfl, shape_of_extents_dims extents short⟩

theorem reordered_elements (shape : Shape) (extents : List UInt64)
    (same : extents.Perm shape.dims) :
    (Shape.ofExtents extents).elements = shape.elements := by
  rw [Shape.elements, (reordered_shape shape extents same).2]
  exact (same.map _).prod_eq

/-- Every order of extents that multiply to a machine word, zeros apart, has an exact count. -/
theorem exact_count_reordered (shape : Shape)
    (bounded : 0 ∈ shape.dims → Shape.nonzeroProduct shape.dims < 2 ^ 64)
    (extents : List UInt64) (same : extents.Perm shape.dims) :
    (Shape.ofExtents extents).ExactCount := by
  obtain ⟨valid, dims⟩ := reordered_shape shape extents same
  rw [exact_count_iff _ valid, dims]
  intro zero
  rw [same.mem_iff] at zero
  calc Shape.leadingProduct extents ≤ Shape.nonzeroProduct extents :=
        Shape.leading_le_nonzero extents
    _ = Shape.nonzeroProduct shape.dims := Shape.nonzero_product_perm same
    _ < 2 ^ 64 := bounded zero

theorem order_free_of_bounded (shape : Shape) (canonical : (validateShape shape).isOk = true)
    (bounded : 0 ∈ shape.dims → Shape.nonzeroProduct shape.dims < 2 ^ 64) :
    shape.OrderFree := by
  have exact : shape.ExactCount := by
    rw [exact_count_iff shape canonical]
    exact fun zero => Nat.lt_of_le_of_lt (Shape.leading_le_nonzero _) (bounded zero)
  intro extents same
  have reordered := exact_count_reordered shape bounded extents same
  rw [Shape.ExactCount, reordered_elements shape extents same] at reordered
  exact reordered.unique exact

/-- An exact count that no order changes: the nonzero extents multiply to a machine word, since
the count is also taken with the zeros at the end. -/
theorem bounded_of_order_free (shape : Shape) (exact : shape.ExactCount) (free : shape.OrderFree)
    (zero : 0 ∈ shape.dims) : Shape.nonzeroProduct shape.dims < 2 ^ 64 := by
  have same : (shape.dims.filter (· ≠ 0) ++ shape.dims.filter (· = 0)).Perm shape.dims := by
    have split := List.filter_append_perm (fun extent : UInt64 => decide (extent ≠ 0)) shape.dims
    simpa only [ne_eq, decide_not, Bool.not_not] using split
  obtain ⟨valid, dims⟩ := reordered_shape shape _ same
  obtain ⟨count, computed⟩ := exact.ok_iff.mpr (by
    rw [Shape.elements, Shape.product_zero shape.dims zero]
    omega)
  rw [← free _ same] at computed
  have leading := (checked_numel_succeeds_iff _ valid).mp ⟨count, computed⟩
  rwa [dims, Shape.leading_product_zeros_last] at leading

/-- Element and byte counts are exact when the extents in front of a first zero multiply to a
machine word. All orders of the extents have one outcome too when all nonzero extents do. -/
theorem checked_numel_exact_iff (shape : Shape) (canonical : (validateShape shape).isOk = true) :
    ((shape.ExactCount ∧ ∀ dtype, shape.ExactBytes dtype) ↔
      (0 ∈ shape.dims → Shape.leadingProduct shape.dims < 2 ^ 64)) ∧
    ((shape.ExactCount ∧ (∀ dtype, shape.ExactBytes dtype) ∧ shape.OrderFree) ↔
      (0 ∈ shape.dims → Shape.nonzeroProduct shape.dims < 2 ^ 64)) := by
  have counts : (shape.ExactCount ∧ ∀ dtype, shape.ExactBytes dtype) ↔
      (0 ∈ shape.dims → Shape.leadingProduct shape.dims < 2 ^ 64) := by
    rw [exact_count_iff shape canonical]
    constructor
    · exact fun both => both.1
    · intro leading
      exact ⟨leading, fun dtype => (exact_bytes_iff shape canonical dtype).mpr leading⟩
  refine ⟨counts, ?_⟩
  constructor
  · rintro ⟨exact, _, free⟩ zero
    exact bounded_of_order_free shape exact free zero
  · intro bounded
    have leading : 0 ∈ shape.dims → Shape.leadingProduct shape.dims < 2 ^ 64 := fun zero =>
      Nat.lt_of_le_of_lt (Shape.leading_le_nonzero _) (bounded zero)
    obtain ⟨exact, bytes⟩ := counts.mpr leading
    exact ⟨exact, bytes, order_free_of_bounded shape canonical bounded⟩

/-- An empty tensor whose zero extent comes first is counted exactly. -/
theorem checked_numel_exact_iff_empty :
    (Shape.ofExtents [0, 2, 4]).ExactCount ∧ (Shape.ofExtents [0, 2, 4]).OrderFree := by
  have holds := (checked_numel_exact_iff (.ofExtents [0, 2, 4]) (by decide)).2.mpr
    (fun _ => by decide)
  exact ⟨holds.1, holds.2.2⟩

/-- An empty tensor with its zero extent last: the count is zero, and an overflow is reported.
With the zero extent first the same count is returned. -/
theorem zero_extent_last_overflows :
    validateShape (.ofExtents [0x8000000000000000, 2, 0]) = .success ∧
    (Shape.ofExtents [0x8000000000000000, 2, 0]).elements = 0 ∧
    checkedNumel (.ofExtents [0x8000000000000000, 2, 0]) = .error (.failure .arithmeticOverflow) ∧
    checkedNbytes (.ofExtents [0x8000000000000000, 2, 0]) .i8 =
      .error (.failure .arithmeticOverflow) ∧
    checkedNumel (.ofExtents [0, 0x8000000000000000, 2]) = .ok 0 ∧
    ¬(Shape.ofExtents [0x8000000000000000, 2, 0]).ExactCount := by
  have failed : checkedNumel (.ofExtents [0x8000000000000000, 2, 0]) =
      .error (.failure .arithmeticOverflow) := by decide
  refine ⟨by decide, by decide, failed, by decide, by decide, ?_⟩
  intro exact
  have counted := (exact.exact 0).mpr (by decide)
  rw [failed] at counted
  cases counted

end MarketForge
