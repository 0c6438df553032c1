import Mathlib.Algebra.BigOperators.Group.List.Basic
import MarketForge.Core.Status

/-!
# Checked arithmetic, element types and shapes

Sums and products of 64-bit counts that fail instead of wrapping, and the element and byte
counts of a shape computed with them.
-/
namespace MarketForge

/-! ## Checked arithmetic -/

def checkedAdd (lhs rhs : UInt64) : Result UInt64 :=
  if 0xffffffffffffffff - lhs < rhs then .error (.failure .arithmeticOverflow) else .ok (lhs + rhs)

def checkedMultiply (lhs rhs : UInt64) : Result UInt64 :=
  if lhs ≠ 0 ∧ 0xffffffffffffffff / lhs < rhs then .error (.failure .arithmeticOverflow)
  else .ok (lhs * rhs)

/-- The sum is returned exactly when it is representable. -/
theorem checked_add_iff (lhs rhs sum : UInt64) :
    checkedAdd lhs rhs = .ok sum ↔ sum.toNat = lhs.toNat + rhs.toNat := by
  have room : (0xffffffffffffffff - lhs).toNat = 0xffffffffffffffff - lhs.toNat := by
    rw [UInt64.toNat_sub_of_le _ _ (UInt64.le_iff_toNat_le.mpr (by
      have bound := lhs.toNat_lt
      simp only [UInt64.reduceToNat]
      omega))]
    rfl
  have bounds := And.intro lhs.toNat_lt rhs.toNat_lt
  have representable := sum.toNat_lt
  unfold checkedAdd
  split
  next overflow =>
    rw [UInt64.lt_iff_toNat_lt, room] at overflow
    simp only [reduceCtorEq, false_iff]
    omega
  next fits =>
    rw [UInt64.lt_iff_toNat_lt, room] at fits
    rw [Except.ok.injEq, ← UInt64.toNat_inj, UInt64.toNat_add, Nat.mod_eq_of_lt (by omega)]
    exact eq_comm

/-- The product is returned exactly when it is representable. -/
theorem checked_multiply_iff (lhs rhs product : UInt64) :
    checkedMultiply lhs rhs = .ok product ↔ product.toNat = lhs.toNat * rhs.toNat := by
  have representable := product.toNat_lt
  have quotient : (0xffffffffffffffff / lhs).toNat = 0xffffffffffffffff / lhs.toNat :=
    UInt64.toNat_div _ _
  unfold checkedMultiply
  split
  next overflow =>
    obtain ⟨nonzero, tooLarge⟩ := overflow
    rw [UInt64.lt_iff_toNat_lt, quotient] at tooLarge
    have positive : 0 < lhs.toNat :=
      Nat.pos_of_ne_zero fun zero => nonzero (UInt64.toNat_inj.mp zero)
    have large := (Nat.div_lt_iff_lt_mul positive).mp tooLarge
    rw [Nat.mul_comm] at large
    simp only [reduceCtorEq, false_iff]
    omega
  next fits =>
    have small : lhs.toNat * rhs.toNat < 2 ^ 64 := by
      by_cases zero : lhs = 0
      · simp [zero]
      · have positive : 0 < lhs.toNat :=
          Nat.pos_of_ne_zero fun none => zero (UInt64.toNat_inj.mp none)
        have bounded : ¬0xffffffffffffffff / lhs.toNat < rhs.toNat := by
          rw [← quotient, ← UInt64.lt_iff_toNat_lt]
          exact fun large => fits ⟨zero, large⟩
        rw [Nat.div_lt_iff_lt_mul positive, Nat.mul_comm] at bounded
        omega
    rw [Except.ok.injEq, ← UInt64.toNat_inj, UInt64.toNat_mul, Nat.mod_eq_of_lt small]
    exact eq_comm

theorem checked_add_of_lt (lhs rhs : UInt64) (fits : lhs.toNat + rhs.toNat < 2 ^ 64) :
    checkedAdd lhs rhs = .ok (lhs + rhs) := by
  rw [checked_add_iff, UInt64.toNat_add, Nat.mod_eq_of_lt fits]

theorem checked_multiply_of_lt (lhs rhs : UInt64) (fits : lhs.toNat * rhs.toNat < 2 ^ 64) :
    checkedMultiply lhs rhs = .ok (lhs * rhs) := by
  rw [checked_multiply_iff, UInt64.toNat_mul, Nat.mod_eq_of_lt fits]

/-! ## Exact computations -/

/-- The computation returns exactly this number, or reports an overflow when no machine word
holds it. -/
structure Computes (computation : Result UInt64) (value : Nat) : Prop where
  exact : ∀ count, computation = .ok count ↔ count.toNat = value
  overflow : ∀ status, computation = .error status → status = .failure .arithmeticOverflow

namespace Computes

theorem returned (count : UInt64) : Computes (.ok count) count.toNat where
  exact other := by
    rw [Except.ok.injEq, ← UInt64.toNat_inj]
    exact eq_comm
  overflow _ failed := by cases failed

theorem add (lhs rhs : UInt64) : Computes (checkedAdd lhs rhs) (lhs.toNat + rhs.toNat) where
  exact := checked_add_iff lhs rhs
  overflow status failed := by
    rw [checkedAdd] at failed
    split at failed
    next => exact (Except.error.inj failed).symm
    next => cases failed

theorem multiply (lhs rhs : UInt64) :
    Computes (checkedMultiply lhs rhs) (lhs.toNat * rhs.toNat) where
  exact := checked_multiply_iff lhs rhs
  overflow status failed := by
    rw [checkedMultiply] at failed
    split at failed
    next => exact (Except.error.inj failed).symm
    next => cases failed

/-- A step is exact when everything behind it is and no later number is smaller: an overflow of
the step is then an overflow of the whole. -/
theorem bind {first : Result UInt64} {next : UInt64 → Result UInt64} {value total : Nat}
    (step : Computes first value) (grows : value ≤ total)
    (behind : ∀ count : UInt64, count.toNat = value → Computes (next count) total) :
    Computes (first >>= next) total where
  exact result := by
    constructor
    · intro computed
      obtain ⟨count, done, rest⟩ := bind_eq_ok.mp computed
      exact ((behind count ((step.exact count).mp done)).exact result).mp rest
    · intro exact
      have fits : (UInt64.ofNat value).toNat = value := by
        have bound := result.toNat_lt
        rw [UInt64.toNat_ofNat', Nat.mod_eq_of_lt (by omega)]
      rw [(step.exact (UInt64.ofNat value)).mpr fits]
      exact ((behind _ fits).exact result).mpr exact
  overflow status failed := by
    cases done : first with
    | error reason =>
      rw [done] at failed
      obtain rfl := Except.error.inj failed
      exact step.overflow reason done
    | ok count =>
      rw [done] at failed
      exact (behind count ((step.exact count).mp done)).overflow status failed

/-- An exact computation succeeds exactly when a machine word holds its number. -/
theorem ok_iff {computation : Result UInt64} {value : Nat} (exact : Computes computation value) :
    (∃ count, computation = .ok count) ↔ value < 2 ^ 64 := by
  constructor
  · rintro ⟨count, computed⟩
    have bound := count.toNat_lt
    rwa [(exact.exact count).mp computed] at bound
  · intro fits
    refine ⟨UInt64.ofNat value, (exact.exact _).mpr ?_⟩
    rw [UInt64.toNat_ofNat', Nat.mod_eq_of_lt fits]

end Computes

/-! ## Element types -/

inductive DType where
  | f32
  | f16
  | bf16
  | i8
  | i32
  | u32
  deriving DecidableEq, Repr

def dtypeSize : DType → Result UInt32
  | .f32 | .i32 | .u32 => .ok 4
  | .f16 | .bf16 => .ok 2
  | .i8 => .ok 1

/-- The bytes of one element. -/
def DType.size : DType → Nat
  | .f32 | .i32 | .u32 => 4
  | .f16 | .bf16 => 2
  | .i8 => 1

theorem dtype_size_ok (dtype : DType) (size : UInt32) (known : dtypeSize dtype = .ok size) :
    size.toNat = dtype.size := by
  cases dtype <;> obtain rfl := Except.ok.inj known <;> rfl

/-! ## Shapes -/

def Shape.maxRank : Nat := 6

structure Shape where
  extents : Vector UInt64 Shape.maxRank
  rank : UInt8
  deriving DecidableEq, Repr

namespace Shape

/-- The extents up to the rank. -/
def dims (shape : Shape) : List UInt64 := shape.extents.toList.take shape.rank.toNat

/-- The number of elements, without the bound of a machine word. -/
def elements (shape : Shape) : Nat := (shape.dims.map UInt64.toNat).prod

end Shape

/-- Zeros follow the extents up to the maximal rank. -/
def Shape.ofExtents (extents : List UInt64) : Shape where
  extents := Vector.ofFn fun index => extents.getD index 0
  rank := UInt8.ofNat extents.length

def makeShape (extents : List UInt64) : Result Shape :=
  if Shape.maxRank < extents.length then .error (.failure .invalidShape)
  else .ok (.ofExtents extents)

/-- The first extent past the rank that is not zero makes a shape invalid. -/
def validateShape (shape : Shape) : Status :=
  if Shape.maxRank < shape.rank.toNat then .failure .invalidShape
  else
    match (shape.extents.toList.zipIdx.drop shape.rank.toNat).find? fun entry => entry.1 ≠ 0 with
    | some (_, index) => .failure .invalidShape (UInt32.ofNat index)
    | none => .success

def checkedNumel (shape : Shape) : Result UInt64 :=
  let validation := validateShape shape
  if validation.isOk = false then .error validation
  else shape.dims.foldlM checkedMultiply 1

def checkedNbytes (shape : Shape) (dtype : DType) : Result UInt64 :=
  match checkedNumel shape with
  | .error status => .error status
  | .ok elements =>
    match dtypeSize dtype with
    | .error status => .error status
    | .ok bytesPerElement => checkedMultiply elements bytesPerElement.toUInt64

/-- The first extents of a shape multiply to a machine word, for every number of them. -/
def Shape.Exact (shape : Shape) : Prop :=
  ∀ count, ((shape.dims.take count).map UInt64.toNat).prod < 2 ^ 64

/-- A product of extents that is returned is exact, and so are the products on the way. -/
theorem checked_product (extents : List UInt64) (initial product : UInt64)
    (computed : extents.foldlM checkedMultiply initial = .ok product) :
    product.toNat = initial.toNat * (extents.map UInt64.toNat).prod ∧
      ∀ count, initial.toNat * ((extents.take count).map UInt64.toNat).prod < 2 ^ 64 := by
  induction extents generalizing initial with
  | nil =>
    obtain rfl := Except.ok.inj computed
    simpa using initial.toNat_lt
  | cons extent others ih =>
    rw [List.foldlM_cons] at computed
    cases step : checkedMultiply initial extent with
    | error status => rw [step] at computed; exact absurd computed (by simp [bind, Except.bind])
    | ok next =>
      rw [step] at computed
      have exact := (checked_multiply_iff initial extent next).mp step
      obtain ⟨whole, parts⟩ := ih next computed
      refine ⟨?_, ?_⟩
      · rw [whole, exact, List.map_cons, List.prod_cons, Nat.mul_assoc]
      · intro count
        cases count with
        | zero => simpa using initial.toNat_lt
        | succ count =>
          have bound := parts count
          rw [exact, Nat.mul_assoc] at bound
          simpa using bound

/-- Every product on the way to an element count is exact. -/
theorem checked_numel_ok (shape : Shape) (count : UInt64)
    (computed : checkedNumel shape = .ok count) :
    count.toNat = shape.elements ∧ shape.Exact := by
  unfold checkedNumel at computed
  dsimp only at computed
  split at computed
  next => exact absurd computed (by simp)
  next =>
    obtain ⟨whole, parts⟩ := checked_product shape.dims 1 count computed
    refine ⟨by simpa [Shape.elements] using whole, fun first => ?_⟩
    simpa using parts first

private theorem checked_product_error (extents : List UInt64) (initial : UInt64) (status : Status)
    (failed : extents.foldlM checkedMultiply initial = .error status) : status.isOk = false := by
  induction extents generalizing initial with
  | nil => cases failed
  | cons extent others ih =>
    rw [List.foldlM_cons] at failed
    cases step : checkedMultiply initial extent with
    | error overflow =>
      rw [step] at failed
      obtain rfl := Except.error.inj failed
      unfold checkedMultiply at step
      split at step
      next => exact Except.error.inj step ▸ rfl
      next => cases step
    | ok next =>
      rw [step] at failed
      exact ih next failed

/-- An element count that is not returned is not a success either. -/
theorem checked_numel_error (shape : Shape) (status : Status)
    (failed : checkedNumel shape = .error status) : status.isOk = false := by
  unfold checkedNumel at failed
  dsimp only at failed
  split at failed
  next invalid => exact Except.error.inj failed ▸ invalid
  next => exact checked_product_error shape.dims 1 status failed

theorem checked_nbytes_ok (shape : Shape) (dtype : DType) (bytes : UInt64)
    (computed : checkedNbytes shape dtype = .ok bytes) :
    bytes.toNat = shape.elements * dtype.size ∧ shape.Exact := by
  unfold checkedNbytes at computed
  split at computed
  next => exact absurd computed (by simp)
  next elements counted =>
    split at computed
    next => exact absurd computed (by simp)
    next width known =>
      obtain ⟨exact, parts⟩ := checked_numel_ok shape elements counted
      have product := (checked_multiply_iff _ _ _).mp computed
      rw [UInt32.toNat_toUInt64, exact, dtype_size_ok dtype width known] at product
      exact ⟨product, parts⟩

theorem shape_of_extents_dims (extents : List UInt64) (short : extents.length ≤ Shape.maxRank) :
    (Shape.ofExtents extents).dims = extents := by
  have bound : extents.length ≤ 6 := short
  have rank : (UInt8.ofNat extents.length).toNat = extents.length := by
    rw [UInt8.toNat_ofNat', Nat.mod_eq_of_lt (by omega)]
  apply List.ext_getElem
  · simp only [Shape.dims, Shape.ofExtents, rank, List.length_take, Vector.length_toList,
      Shape.maxRank]
    omega
  · intro index _ inside
    simp [Shape.dims, Shape.ofExtents, List.getD_eq_getElem?_getD,
      List.getElem?_eq_getElem inside]

/-- A made shape has the extents it was made from. -/
theorem make_shape_dims (extents : List UInt64) (shape : Shape)
    (made : makeShape extents = .ok shape) : shape.dims = extents := by
  unfold makeShape at made
  split at made
  next => exact absurd made (by simp)
  next short =>
    obtain rfl := Except.ok.inj made
    exact shape_of_extents_dims extents (by omega)

/-! ## Shapes as they are made -/

/-- No extent behind the rank of a made shape is set. -/
theorem validate_made_shape (extents : List UInt64) (short : extents.length ≤ Shape.maxRank) :
    validateShape (.ofExtents extents) = .success := by
  have bound : extents.length ≤ 6 := short
  have rank : (Shape.ofExtents extents).rank.toNat = extents.length := by
    rw [Shape.ofExtents, UInt8.toNat_ofNat', Nat.mod_eq_of_lt (by omega)]
  have behind : ((Shape.ofExtents extents).extents.toList.zipIdx.drop extents.length).find?
      (fun entry => entry.1 ≠ 0) = none := by
    rw [List.find?_eq_none]
    intro entry listed
    obtain ⟨place, inside, rfl⟩ := List.getElem_of_mem listed
    simp [Shape.ofExtents, List.getD_eq_getElem?_getD]
  rw [validateShape, rank, if_neg (by omega), behind]

/-- Checked products succeed as long as every product on the way is a machine word. -/
theorem checked_product_fits (extents : List UInt64) (initial : UInt64)
    (fits : ∀ count, initial.toNat * ((extents.take count).map UInt64.toNat).prod < 2 ^ 64) :
    ∃ product, extents.foldlM checkedMultiply initial = .ok product := by
  induction extents generalizing initial with
  | nil => exact ⟨initial, rfl⟩
  | cons extent others ih =>
    have first := fits 1
    simp only [List.take_succ_cons, List.take_zero, List.map_cons, List.map_nil, List.prod_cons,
      List.prod_nil, Nat.mul_one] at first
    have step := checked_multiply_of_lt initial extent first
    obtain ⟨product, rest⟩ := ih (initial * extent) fun count => by
      have next := fits (count + 1)
      rw [List.take_succ_cons, List.map_cons, List.prod_cons, ← Nat.mul_assoc] at next
      rwa [UInt64.toNat_mul, Nat.mod_eq_of_lt first]
    exact ⟨product, by rw [List.foldlM_cons, ok_bind _ step, rest]⟩

/-- The elements of a made shape are counted whenever the products on the way are exact. -/
theorem checked_numel_made (shape : Shape) (made : shape = .ofExtents shape.dims)
    (short : shape.dims.length ≤ Shape.maxRank) (exact : shape.Exact) :
    ∃ count, checkedNumel shape = .ok count ∧ count.toNat = shape.elements := by
  have valid : validateShape shape = .success := by
    rw [made]
    exact validate_made_shape shape.dims short
  obtain ⟨count, product⟩ := checked_product_fits shape.dims 1 fun count => by
    have word : (1 : UInt64).toNat = 1 := rfl
    rw [word, Nat.one_mul]
    exact exact count
  have counted : checkedNumel shape = .ok count := by
    rw [checkedNumel, valid]
    exact product
  exact ⟨count, counted, (checked_numel_ok shape count counted).1⟩

/-- The bytes of a made shape are counted when they fit a machine word. -/
theorem checked_nbytes_made (shape : Shape) (dtype : DType) (made : shape = .ofExtents shape.dims)
    (short : shape.dims.length ≤ Shape.maxRank) (exact : shape.Exact)
    (fits : shape.elements * dtype.size < 2 ^ 64) :
    ∃ bytes, checkedNbytes shape dtype = .ok bytes ∧
      bytes.toNat = shape.elements * dtype.size := by
  obtain ⟨count, counted, elements⟩ := checked_numel_made shape made short exact
  obtain ⟨width, known⟩ : ∃ width, dtypeSize dtype = .ok width := by
    cases dtype <;> exact ⟨_, rfl⟩
  have widthExact := dtype_size_ok dtype width known
  have product := checked_multiply_of_lt count width.toUInt64 (by
    rwa [UInt32.toNat_toUInt64, elements, widthExact])
  have computed : checkedNbytes shape dtype = .ok (count * width.toUInt64) := by
    rw [checkedNbytes, counted]
    dsimp only
    rw [known]
    exact product
  exact ⟨_, computed, (checked_nbytes_ok shape dtype _ computed).1⟩

end MarketForge
