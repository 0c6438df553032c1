import MarketForge.Core.Shape
import MarketForge.Library.MixedRadix

/-!
# Row-major addressing

The offset of an element of a tensor from its indices. The offsets are the mixed-radix numerals
whose radices are the extents, evaluated with checked arithmetic.
-/
namespace MarketForge

/-- The loop over the axes, with the offset of the axes in front. -/
def rowMajorLoop : Nat → UInt64 → List UInt64 → List UInt64 → Result UInt64
  | axis, offset, extent :: extents, index :: indices =>
    if extent ≤ index then .error (.failure .invalidArgument (UInt32.ofNat axis))
    else
      checkedMultiply offset extent >>= fun scaled =>
        checkedAdd scaled index >>= fun next => rowMajorLoop (axis + 1) next extents indices
  | _, offset, _, _ => .ok offset

def rowMajorOffset (shape : Shape) (indices : List UInt64) : Result UInt64 :=
  if (validateShape shape).isOk = false ∨ indices.length ≠ shape.rank.toNat then
    .error (.failure .invalidShape)
  else rowMajorLoop 0 0 shape.dims indices

/-- One index for every axis, each below its extent. -/
def Shape.Contains (shape : Shape) (indices : List UInt64) : Prop :=
  List.Forall₂ (· < ·) indices shape.dims

instance (shape : Shape) (indices : List UInt64) : Decidable (shape.Contains indices) :=
  inferInstanceAs (Decidable (List.Forall₂ (· < ·) indices shape.dims))

/-- The number the indices of an element are read as. -/
def Shape.place (shape : Shape) (indices : List UInt64) : Nat :=
  MixedRadix.evaluate 0 (shape.dims.map UInt64.toNat) (indices.map UInt64.toNat)

/-! ## Indices as numerals -/

theorem numeral_words (extents indices : List UInt64) :
    MixedRadix.Numeral (extents.map UInt64.toNat) (indices.map UInt64.toNat) ↔
      List.Forall₂ (· < ·) indices extents := by
  rw [MixedRadix.Numeral, List.forall₂_map_left_iff, List.forall₂_map_right_iff]
  simp only [UInt64.lt_iff_toNat_lt]

/-- Digits below machine words are machine words. -/
theorem numeral_of_words (extents : List UInt64) (digits : List Nat)
    (numeral : MixedRadix.Numeral (extents.map UInt64.toNat) digits) :
    ∃ indices : List UInt64, indices.map UInt64.toNat = digits := by
  induction extents generalizing digits with
  | nil =>
    cases numeral
    exact ⟨[], rfl⟩
  | cons extent others ih =>
    cases numeral with
    | @cons digit _ digits _ below rest =>
      obtain ⟨indices, words⟩ := ih digits rest
      have bound := extent.toNat_lt
      use UInt64.ofNat digit :: indices
      rw [List.map_cons, words, UInt64.toNat_ofNat', Nat.mod_eq_of_lt (by omega)]

theorem lex_words (left right : List UInt64) (before : List.Lex (· < ·) left right) :
    List.Lex (· < ·) (left.map UInt64.toNat) (right.map UInt64.toNat) := by
  induction before with
  | nil => exact .nil
  | cons _ ih => exact .cons ih
  | rel smaller => exact .rel (UInt64.lt_iff_toNat_lt.mp smaller)

/-! ## The loop -/

/-- A loop that succeeds has compared every index with its extent. -/
private theorem row_major_loop_inside (axis : Nat) (offset result : UInt64)
    (extents indices : List UInt64) (aligned : indices.length = extents.length)
    (done : rowMajorLoop axis offset extents indices = .ok result) :
    List.Forall₂ (· < ·) indices extents := by
  induction extents generalizing axis offset indices with
  | nil => rw [List.length_eq_zero_iff.mp aligned]; exact .nil
  | cons extent others ih =>
    cases indices with
    | nil => simp at aligned
    | cons index rest =>
      rw [rowMajorLoop] at done
      split at done
      next => cases done
      next below =>
        obtain ⟨scaled, _, done⟩ := bind_eq_ok.mp done
        obtain ⟨next, _, done⟩ := bind_eq_ok.mp done
        have behind := ih (axis + 1) next rest (by simpa using aligned) done
        exact .cons (UInt64.not_le.mp below) behind

/-- No step of the loop overflows while the numerals that start with the indices read so far
are machine words. -/
private theorem row_major_loop_exact (axis : Nat) (offset : UInt64)
    (extents indices : List UInt64) (inside : List.Forall₂ (· < ·) indices extents)
    (room : (offset.toNat + 1) * (extents.map UInt64.toNat).prod ≤ 2 ^ 64) :
    ∃ result, rowMajorLoop axis offset extents indices = .ok result ∧
      result.toNat = MixedRadix.evaluate offset.toNat (extents.map UInt64.toNat)
        (indices.map UInt64.toNat) := by
  induction inside generalizing axis offset with
  | nil => exact ⟨offset, rfl, by simp⟩
  | @cons index extent indices extents below rest ih =>
    have smaller := UInt64.lt_iff_toNat_lt.mp below
    have bound := MixedRadix.prefix_bound offset.toNat extent.toNat index.toNat (2 ^ 64)
      (extents.map UInt64.toNat) smaller room
    have positive := MixedRadix.numeral_product_pos _ _ ((numeral_words extents indices).mpr rest)
    -- at least one numeral goes on from here, so what is read so far is a machine word
    have fits : offset.toNat * extent.toNat + index.toNat < 2 ^ 64 :=
      Nat.lt_of_lt_of_le (Nat.le_mul_of_pos_right _ positive) bound
    have scaled : (offset * extent).toNat = offset.toNat * extent.toNat := by
      rw [UInt64.toNat_mul, Nat.mod_eq_of_lt (by omega)]
    have next : (offset * extent + index).toNat = offset.toNat * extent.toNat + index.toNat := by
      rw [UInt64.toNat_add, scaled, Nat.mod_eq_of_lt fits]
    obtain ⟨result, done, exact⟩ := ih (axis + 1) (offset * extent + index) (by rwa [next])
    refine ⟨result, ?_, by simpa [next] using exact⟩
    rw [rowMajorLoop, if_neg (UInt64.not_le.mpr below),
      ok_bind _ (checked_multiply_of_lt offset extent (by omega)),
      ok_bind _ (checked_add_of_lt _ index (by rwa [scaled]))]
    exact done

/-! ## Offsets -/

theorem dims_length (shape : Shape) (canonical : (validateShape shape).isOk = true) :
    shape.dims.length = shape.rank.toNat := by
  have short : shape.rank.toNat ≤ Shape.maxRank := by
    unfold validateShape at canonical
    split at canonical
    next => simp at canonical
    next short => omega
  rw [Shape.dims, List.length_take, Vector.length_toList]
  omega

/-- Only the indices of an element have an offset. -/
theorem row_major_offset_inside (shape : Shape) (indices : List UInt64) (offset : UInt64)
    (done : rowMajorOffset shape indices = .ok offset) : shape.Contains indices := by
  unfold rowMajorOffset at done
  split at done
  next => cases done
  next valid =>
    simp only [not_or, Bool.not_eq_false, ne_eq, not_not] at valid
    apply row_major_loop_inside 0 0 offset shape.dims indices _ done
    rw [valid.2, dims_length shape valid.1]

/-- A canonical shape is the one that its extents make. -/
theorem canonical_shape (shape : Shape) (canonical : (validateShape shape).isOk = true) :
    shape = .ofExtents shape.dims := by
  have length := dims_length shape canonical
  have behind : ∀ axis (inside : axis < 6), shape.rank.toNat ≤ axis →
      shape.extents[axis] = 0 := by
    intro axis inside after
    unfold validateShape at canonical
    split at canonical
    next => simp at canonical
    next =>
      split at canonical
      next => simp at canonical
      next none =>
        rw [List.find?_eq_none] at none
        have listed : (shape.extents[axis], axis) ∈
            shape.extents.toList.zipIdx.drop shape.rank.toNat := by
          have stored : axis < shape.extents.toList.length := by
            rw [shape.extents.length_toList]
            exact inside
          rw [List.mem_iff_getElem?]
          use axis - shape.rank.toNat
          rw [List.getElem?_drop, Nat.add_sub_cancel' after, List.getElem?_zipIdx,
            List.getElem?_eq_getElem stored]
          simp
          rfl
        simpa using none _ listed
  have extents : shape.extents = (Shape.ofExtents shape.dims).extents := by
    apply Vector.ext
    intro axis inside
    by_cases before : axis < shape.rank.toNat
    · simp [Shape.ofExtents, Shape.dims, List.getD_eq_getElem?_getD, before, inside]
    · rw [behind axis inside (by omega)]
      simp [Shape.ofExtents, Shape.dims, List.getD_eq_getElem?_getD, before]
  have rank : shape.rank = (Shape.ofExtents shape.dims).rank := by
    rw [Shape.ofExtents, length]
    simp
  show Shape.mk shape.extents shape.rank =
    Shape.mk (Shape.ofExtents shape.dims).extents (Shape.ofExtents shape.dims).rank
  rw [← extents, ← rank]

/-- The offset of an element is its place in row-major order. -/
theorem row_major_offset_exact (shape : Shape) (canonical : (validateShape shape).isOk = true)
    (fits : shape.elements < 2 ^ 64) (indices : List UInt64) (inside : shape.Contains indices) :
    ∃ offset, rowMajorOffset shape indices = .ok offset ∧
      offset.toNat = shape.place indices := by
  have aligned : indices.length = shape.rank.toNat := by
    rw [List.Forall₂.length_eq inside, dims_length shape canonical]
  have room : ((0 : UInt64).toNat + 1) * (shape.dims.map UInt64.toNat).prod ≤ 2 ^ 64 := by
    rw [UInt64.toNat_zero, Nat.zero_add, Nat.one_mul]
    exact Nat.le_of_lt fits
  obtain ⟨offset, done, exact⟩ := row_major_loop_exact 0 0 shape.dims indices inside room
  refine ⟨offset, ?_, exact⟩
  rw [rowMajorOffset, if_neg (by simp [canonical, aligned])]
  exact done

private theorem row_major_offset_place (shape : Shape) (indices : List UInt64) (offset : UInt64)
    (canonical : (validateShape shape).isOk = true) (fits : shape.elements < 2 ^ 64)
    (done : rowMajorOffset shape indices = .ok offset) :
    MixedRadix.Numeral (shape.dims.map UInt64.toNat) (indices.map UInt64.toNat) ∧
      offset.toNat = shape.place indices := by
  have inside := row_major_offset_inside shape indices offset done
  obtain ⟨other, again, exact⟩ := row_major_offset_exact shape canonical fits indices inside
  obtain rfl := Except.ok.inj (done.symm.trans again)
  exact ⟨(numeral_words _ _).mpr inside, exact⟩

/-- The offsets of a canonical shape number its elements: they exist exactly for index tuples
inside the extents, take every number below the element count once, and grow in lexicographic
order. -/
theorem row_major_offset_bijection (shape : Shape)
    (canonical : (validateShape shape).isOk = true) (fits : shape.elements < 2 ^ 64) :
    (∀ indices, (∃ offset, rowMajorOffset shape indices = .ok offset) ↔
      shape.Contains indices) ∧
    (∀ indices offset, rowMajorOffset shape indices = .ok offset →
      offset.toNat < shape.elements) ∧
    (∀ number < shape.elements, ∃! indices,
      ∃ offset, rowMajorOffset shape indices = .ok offset ∧ offset.toNat = number) ∧
    (∀ left right first second, rowMajorOffset shape left = .ok first →
      rowMajorOffset shape right = .ok second → List.Lex (· < ·) left right →
      first < second) := by
  refine ⟨?domain, ?range, ?bijective, ?increasing⟩
  case domain =>
    intro indices
    constructor
    · rintro ⟨offset, done⟩
      exact row_major_offset_inside shape indices offset done
    · intro inside
      obtain ⟨offset, done, _⟩ := row_major_offset_exact shape canonical fits indices inside
      exact ⟨offset, done⟩
  case range =>
    intro indices offset done
    obtain ⟨numeral, exact⟩ := row_major_offset_place shape indices offset canonical fits done
    rw [exact]
    exact MixedRadix.evaluate_lt _ _ numeral
  case bijective =>
    intro number below
    -- the digits of the number in the radices that the extents are
    obtain ⟨digits, numeral, value⟩ :=
      MixedRadix.evaluate_surjective (shape.dims.map UInt64.toNat) number below
    obtain ⟨indices, rfl⟩ := numeral_of_words shape.dims digits numeral
    have inside : shape.Contains indices := (numeral_words _ _).mp numeral
    obtain ⟨offset, done, exact⟩ := row_major_offset_exact shape canonical fits indices inside
    use indices, ⟨offset, done, exact.trans value⟩
    rintro others ⟨other, reached, same⟩
    obtain ⟨numeral', exact'⟩ :=
      row_major_offset_place shape others other canonical fits reached
    have equal := MixedRadix.evaluate_injective _ _ _ numeral' numeral (by
      rw [value, ← same, exact', Shape.place])
    exact List.map_injective_iff.mpr (fun _ _ => UInt64.toNat_inj.mp) equal
  case increasing =>
    intro left right first second done done' before
    obtain ⟨numeral, exact⟩ := row_major_offset_place shape left first canonical fits done
    obtain ⟨numeral', exact'⟩ := row_major_offset_place shape right second canonical fits done'
    rw [UInt64.lt_iff_toNat_lt, exact, exact']
    exact MixedRadix.evaluate_strict _ _ _ numeral numeral' (lex_words left right before)

/-- The twenty-four elements of a shape with three axes. -/
theorem row_major_offset_bijection_three_axes :
    (∃ offset, rowMajorOffset (.ofExtents [2, 3, 4]) [1, 1, 2] = .ok offset) ∧
    ∃! indices, ∃ offset,
      rowMajorOffset (.ofExtents [2, 3, 4]) indices = .ok offset ∧ offset.toNat = 18 := by
  have shape := row_major_offset_bijection (.ofExtents [2, 3, 4]) (by decide) (by decide)
  constructor
  · exact (shape.1 [1, 1, 2]).mpr (by decide)
  · exact shape.2.2.1 18 (by decide)

end MarketForge
