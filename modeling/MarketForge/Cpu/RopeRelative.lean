import MarketForge.Cpu.OperatorEffects
import MarketForge.Cpu.ViewRanges
import MarketForge.Library.Grid
import MarketForge.Library.HalfRotation
import Mathlib.Analysis.SpecialFunctions.Pow.Real

/-!
# Relative positions

The rotary embedding over the real numbers. An accepted call turns every head of the query and of
the key by angles that are proportional to the position of its token, so the product of two heads
depends on the difference of their positions.
-/
namespace MarketForge.Cpu

open Library FloatOps

section

variable {F : Type} [FloatOps F]

/-! ## Accepted calls -/

/-- What the check of the embedding has found. -/
structure RopeAccepted (query key : FloatView) (positions : List UInt32) : Prop where
  queryValid : (validateF32Host query).isOk = true
  keyValid : (validateF32Host key).isOk = true
  positionCount : positions.length = extent query 0 * extent query 1
  queryElements : query.shape.elements =
    extent query 0 * extent query 1 * (extent query 2 * extent query 3)
  keyElements : key.shape.elements = extent key 0 * extent key 1 * (extent key 2 * extent key 3)
  sameBatch : extent query 0 = extent key 0
  sameTokens : extent query 1 = extent key 1
  sameWidth : extent query 3 = extent key 3
  even : extent query 3 % 2 = 0
  queryPositive : 0 < query.shape.elements
  keyPositive : 0 < key.shape.elements
  separate : ¬Overlap query key

/-- A tensor of heads that passes its check. -/
theorem rope_tensor_ok (view : FloatView) (passed : (validateRopeTensor view).isOk = true) :
    (validateF32Host view).isOk = true ∧
      view.shape.elements = extent view 0 * extent view 1 * (extent view 2 * extent view 3) ∧
      0 < view.shape.elements := by
  obtain ⟨valid, ranked, someBatch, someTokens, someHeads, someWidth, _⟩ :=
    rope_tensor_shape view passed
  have elements := tensor_elements view ranked
  refine ⟨valid, elements, ?_⟩
  rw [elements]
  exact Nat.mul_pos
    (Nat.mul_pos (Nat.pos_of_ne_zero someBatch) (Nat.pos_of_ne_zero someTokens))
    (Nat.mul_pos (Nat.pos_of_ne_zero someHeads) (Nat.pos_of_ne_zero someWidth))

theorem rope_accepted (query key : FloatView) (positions : List UInt32) (spec : RopeSpec F)
    (passed : (applyRopeCheck query key positions spec).isOk = true) :
    RopeAccepted query key positions := by
  have even := rope_check_ok query key positions spec passed
  obtain ⟨queryTensor, keyTensor⟩ := rope_check_tensors query key positions spec passed
  obtain ⟨queryValid, queryElements, queryPositive⟩ := rope_tensor_ok query queryTensor
  obtain ⟨keyValid, keyElements, keyPositive⟩ := rope_tensor_ok key keyTensor
  unfold applyRopeCheck at passed
  obtain ⟨_, passed⟩ := status_guard_ok passed
  obtain ⟨shapes, passed⟩ := refusal_guard_ok rfl passed
  simp only [not_or, not_not] at shapes
  obtain ⟨sameBatch, sameTokens, sameWidth, positionCount, _⟩ := shapes
  split at passed
  next status queryFailed =>
    rw [memory_range_error query status queryFailed] at passed
    cases passed
  next status keyFailed _ =>
    rw [memory_range_error key status keyFailed] at passed
    cases passed
  next queryRange keyRange queryComputed keyComputed =>
    obtain ⟨crossing, _⟩ := refusal_guard_ok rfl passed
    constructor
    case separate =>
      rwa [overlaps_iff query key queryRange keyRange (view_bytes_ok query queryValid).1
        (view_bytes_ok key keyValid).1 queryComputed keyComputed] at crossing
    all_goals assumption

theorem apply_rope_ok (query key : FloatView) (positions : List UInt32) (spec : RopeSpec F)
    (memory : FlatMemory F) (passed : (applyRopeCheck query key positions spec).isOk = true) :
    (applyRopeF32 query key positions spec memory).1.isOk = true := by
  rw [applyRopeF32, guarded_succeeds _ _ _ passed]
  rfl

/-! ## Calls on one head -/

theorem one_head_extents (headDim : Nat) (some : 0 < headDim) (fits : headDim < 2 ^ 59)
    (data axis : Nat) (inside : axis < 6) :
    extent (sliceView data [1, 1, 1, headDim]) axis = [1, 1, 1, headDim].getD axis 0 := by
  apply extent_slice data _ axis inside
  rcases axis with _ | _ | _ | _ | axis
  all_goals simp
  omega

theorem one_head_accepted (spec : RopeSpec F) (headDim : Nat) (position : UInt32)
    (even : headDim % 2 = 0) (some : 0 < headDim) (fits : headDim < 2 ^ 59)
    (finite : isFinite spec.theta = true) (positive : le spec.theta (zero : F) = false)
    (below : position < spec.maxPositions) (memory : FlatMemory F) :
    (applyRopeF32 (sliceView 1 [1, 1, 1, headDim]) (sliceView (1 + headDim) [1, 1, 1, headDim])
      [position] spec memory).1.isOk = true := by
  have queryFits : Addressable 1 [1, 1, 1, headDim] :=
    ⟨by simp, by simp [some], by simp, by simp; omega⟩
  have keyFits : Addressable (1 + headDim) [1, 1, 1, headDim] :=
    ⟨by simp, by simp [some], by simp, by simp; omega⟩
  have extents := one_head_extents headDim some fits
  have tensor : ∀ data, Addressable data [1, 1, 1, headDim] →
      (validateRopeTensor (sliceView data [1, 1, 1, headDim])).isOk = true := by
    intro data slice
    rw [validateRopeTensor, if_neg (by simp [slice.valid]), if_neg]
    · rfl
    · rw [extents data 0 (by omega), extents data 1 (by omega), extents data 2 (by omega),
        extents data 3 (by omega)]
      simp [even, some.ne']
      rfl
  have bounded : spec.maxPositions ≠ 0 := fun none => by simp [none] at below
  apply apply_rope_ok
  rw [applyRopeCheck, if_neg, if_neg]
  · rw [queryFits.range, keyFits.range]
    -- the query ends where the key begins
    have separate : overlaps ⟨4 * 1, 4 * 1 + 4 * [1, 1, 1, headDim].prod⟩
        ⟨4 * (1 + headDim), 4 * (1 + headDim) + 4 * [1, 1, 1, headDim].prod⟩ = false := by
      simp [overlaps]
      omega
    dsimp only
    rw [if_neg (by rw [separate]; decide), if_neg (by simpa using below)]
    rfl
  · rw [extents _ 0 (by omega), extents _ 1 (by omega), extents _ 3 (by omega)]
    simp [extents, finite, positive, bounded]
  · rw [Bool.not_eq_false]
    apply first_failure_all
    simp [tensor _ queryFits, tensor _ keyFits]

end

section

variable {F : Type} {ops : FloatOps F} {spec : RopeSpec F}

/-- An accepted call of the embedding, with the arithmetic that it uses. -/
structure RopeCall (ops : FloatOps F) (spec : RopeSpec F) where
  query : FloatView
  key : FloatView
  positions : List UInt32
  memory : FlatMemory F
  accepted : (applyRopeF32 query key positions spec memory).1.isOk = true

/-- A head of some token, of the query or of the key of a call. -/
structure RopeHead (ops : FloatOps F) (spec : RopeSpec F) where
  call : RopeCall ops spec
  tensor : FloatView
  member : tensor = call.query ∨ tensor = call.key
  batchIndex : Nat
  token : Nat
  head : Nat
  inBatch : batchIndex < extent tensor 0
  inTokens : token < extent tensor 1
  inHeads : head < extent tensor 2

namespace RopeHead

variable (vector : RopeHead ops spec)

def headDim : Nat := extent vector.tensor 3

def row : Nat := vector.batchIndex * extent vector.tensor 1 + vector.token

def offset : Nat :=
  vector.tensor.data + (vector.row * extent vector.tensor 2 + vector.head) * vector.headDim

def position : Nat := (vector.call.positions.getD vector.row 0).toNat

/-- The head before the call. -/
def before (column : Nat) : F := vector.call.memory (vector.offset + column)

/-- The head after the call. -/
def after (column : Nat) : F :=
  (applyRopeF32 vector.call.query vector.call.key vector.call.positions spec
    vector.call.memory).2 (vector.offset + column)

end RopeHead

/-- The rows that a call leaves in the query and in the key. -/
theorem rope_call_rows (call : RopeCall ops spec) (tensor : FloatView)
    (member : tensor = call.query ∨ tensor = call.key) :
    StoresRows (applyRopeF32 call.query call.key call.positions spec call.memory).2 tensor.data
      (extent tensor 0 * extent tensor 1) (extent tensor 2 * extent tensor 3) fun row =>
        ropeRow spec (extent tensor 3) (call.positions.getD row 0).toNat fun column =>
          call.memory (tensor.data + row * (extent tensor 2 * extent tensor 3) + column) := by
  have succeeded := call.accepted
  rw [applyRopeF32] at succeeded ⊢
  obtain ⟨passed, result⟩ := guarded_ok _ _ _ succeeded
  have checked := rope_accepted call.query call.key call.positions spec passed
  have apart := apart_of_no_overlap call.query call.key checked.separate checked.queryPositive
    checked.keyPositive
  rw [checked.queryElements, checked.keyElements, ← checked.sameBatch, ← checked.sameTokens,
    ← checked.sameWidth] at apart
  have rotated := (rope_rows_spec spec call.query.data call.key.data (extent call.query 0)
    (extent call.query 1) (extent call.query 2) (extent call.key 2) (extent call.query 3)
    call.positions _ _ call.memory checked.even apart (fun _ _ _ _ => rfl)
    (fun _ _ _ _ => rfl)).1
  rw [result]
  rcases member with rfl | rfl
  · exact rotated.1
  · rw [← checked.sameBatch, ← checked.sameTokens, ← checked.sameWidth]
    exact rotated.2

namespace RopeHead

variable (vector : RopeHead ops spec)

theorem even : vector.headDim % 2 = 0 := by
  have succeeded := vector.call.accepted
  rw [applyRopeF32] at succeeded
  have checked := rope_accepted _ _ _ _ (guarded_ok _ _ _ succeeded).1
  unfold headDim
  rcases vector.member with query | key
  · rw [query, checked.even]
  · rw [key, ← checked.sameWidth, checked.even]

/-- A call leaves each head turned for the position of its token. -/
theorem after_eq (column : Nat) (inside : column < vector.headDim) :
    vector.after column = ropeRow spec vector.headDim vector.position vector.before column := by
  have rowBelow : vector.row < extent vector.tensor 0 * extent vector.tensor 1 :=
    Grid.cell_lt vector.inBatch vector.inTokens
  have columnBelow : vector.head * vector.headDim + column <
      extent vector.tensor 2 * extent vector.tensor 3 := Grid.cell_lt vector.inHeads inside
  have flat : ∀ dimension, vector.offset + dimension =
      vector.tensor.data + vector.row * (extent vector.tensor 2 * extent vector.tensor 3)
        + (vector.head * vector.headDim + dimension) := fun dimension => by
    unfold offset headDim
    ring
  have stored := rope_call_rows vector.call vector.tensor vector.member vector.row rowBelow _
    columnBelow
  rw [← flat] at stored
  have rotated := rope_row_head spec vector.headDim vector.position vector.head (fun cell =>
    vector.call.memory (vector.tensor.data
      + vector.row * (extent vector.tensor 2 * extent vector.tensor 3) + cell)) column inside
  have initial : vector.before = fun dimension => vector.call.memory (vector.tensor.data
      + vector.row * (extent vector.tensor 2 * extent vector.tensor 3)
      + (vector.head * vector.headDim + dimension)) := by
    funext dimension
    rw [before, flat]
  rw [after, stored, initial]
  exact rotated.symm

end RopeHead

end

/-! ## Over the real numbers -/

/-- The operations of the real numbers. There is no negative infinity among them; the embedding
does not ask for one, so that any number may stand for it. -/
@[reducible]
noncomputable def exactReals (negInfinity : ℝ) : FloatOps ℝ where
  zero := 0
  one := 1
  negInfinity := negInfinity
  sqrt := Real.sqrt
  exp := Real.exp
  cos := Real.cos
  sin := Real.sin
  pow := fun base exponent => base ^ exponent
  ofNat := fun number => (number : ℝ)
  lt := fun left right => decide (left < right)
  le := fun left right => decide (left ≤ right)
  isFinite := fun _ => true

section

variable (negInfinity : ℝ) (spec : RopeSpec ℝ)

noncomputable abbrev exactAngle (headDim position dimension : Nat) : ℝ :=
  @ropeAngle ℝ (exactReals negInfinity) spec headDim position dimension

theorem exact_angle (headDim position dimension : Nat) :
    exactAngle negInfinity spec headDim position dimension =
      (position : ℝ) / spec.theta ^ (((2 * dimension : ℕ) : ℝ) / headDim) := rfl

/-- The angles are proportional to the position. -/
theorem exact_angle_add (headDim position shift : Nat) :
    exactAngle negInfinity spec headDim (position + shift) =
      exactAngle negInfinity spec headDim position + exactAngle negInfinity spec headDim shift := by
  funext dimension
  rw [Pi.add_apply, exact_angle, exact_angle, exact_angle, Nat.cast_add, add_div]

theorem exact_angle_zero (headDim dimension : Nat) :
    exactAngle negInfinity spec headDim 0 dimension = 0 := by
  rw [exact_angle, Nat.cast_zero, zero_div]

/-- A turned row is turned pair by pair. -/
theorem rope_row_turned (headDim position : Nat) (row : Nat → ℝ) (even : headDim % 2 = 0) :
    HalfRotation.TurnedBy (headDim / 2) (exactAngle negInfinity spec headDim position) row
      (@ropeRow ℝ (exactReals negInfinity) spec headDim position row) := by
  intro dimension below
  have lower : dimension % headDim = dimension := Nat.mod_eq_of_lt (by omega)
  have upper : (headDim / 2 + dimension) % headDim = headDim / 2 + dimension :=
    Nat.mod_eq_of_lt (by omega)
  simp only [HalfRotation.pair, HalfRotation.turn, ropeRow, lower, upper, if_pos below,
    if_neg (show ¬headDim / 2 + dimension < headDim / 2 by omega), Nat.add_sub_cancel_left,
    Nat.add_comm dimension]
  rfl

variable {negInfinity spec}

/-- What an accepted call leaves of a head. -/
theorem exact_head_turned (vector : RopeHead (exactReals negInfinity) spec) :
    HalfRotation.TurnedBy (vector.headDim / 2)
      (exactAngle negInfinity spec vector.headDim vector.position) vector.before vector.after := by
  intro dimension below
  have even := vector.even
  have turned := rope_row_turned negInfinity spec vector.headDim vector.position vector.before even
    dimension below
  rw [← turned, HalfRotation.pair, HalfRotation.pair, vector.after_eq _ (by omega),
    vector.after_eq _ (by omega)]

end

/-- Every vector of an even number of entries is a head of some accepted call, at every position
below the bound. -/
theorem rope_head_exists (negInfinity : ℝ) (spec : RopeSpec ℝ) (headDim : Nat) (position : UInt32)
    (vector : Nat → ℝ) (even : headDim % 2 = 0) (some : 0 < headDim) (fits : headDim < 2 ^ 59)
    (theta : 0 < spec.theta) (below : position < spec.maxPositions) :
    ∃ head : RopeHead (exactReals negInfinity) spec, head.headDim = headDim ∧
      head.position = position.toNat ∧ head.before = fun column => vector column := by
  have accepted := @one_head_accepted ℝ (exactReals negInfinity) spec headDim position even some
    fits rfl (decide_eq_false (not_le.mpr theta)) below fun address => vector (address - 1)
  have extents := one_head_extents headDim some fits 1
  have row : extent (sliceView 1 [1, 1, 1, headDim]) 0 = 1 := extents 0 (by omega)
  have tokens : extent (sliceView 1 [1, 1, 1, headDim]) 1 = 1 := extents 1 (by omega)
  have heads : extent (sliceView 1 [1, 1, 1, headDim]) 2 = 1 := extents 2 (by omega)
  have width : extent (sliceView 1 [1, 1, 1, headDim]) 3 = headDim := extents 3 (by omega)
  let call : RopeCall (exactReals negInfinity) spec :=
    { query := sliceView 1 [1, 1, 1, headDim]
      key := sliceView (1 + headDim) [1, 1, 1, headDim]
      positions := [position]
      memory := fun address => vector (address - 1)
      accepted := accepted }
  use { call, tensor := call.query, member := .inl rfl, batchIndex := 0, token := 0, head := 0,
        inBatch := by rw [row]; decide
        inTokens := by rw [tokens]; decide
        inHeads := by rw [heads]; decide }
  refine ⟨width, by simp [RopeHead.position, RopeHead.row, call], ?_⟩
  funext column
  simp [RopeHead.before, RopeHead.offset, RopeHead.row, call, makeF32View]

/-- The embedding encodes relative positions. Two heads that calls have turned at positions `m` and
`n` have the inner product of the same two heads turned at positions `m + d` and `n + d`; a turned
head keeps its squared norm, and a head of position zero stays as it is. The heads may belong to
queries or to keys, of one call or of several, at any place of any layout. -/
theorem rope_relative_position (negInfinity : ℝ) (spec : RopeSpec ℝ) :
    (∀ (query key laterQuery laterKey : RopeHead (exactReals negInfinity) spec)
        (headDim m n d : Nat),
      query.headDim = headDim → key.headDim = headDim →
      laterQuery.headDim = headDim → laterKey.headDim = headDim →
      query.position = m → key.position = n →
      laterQuery.position = m + d → laterKey.position = n + d →
      (∀ column < headDim, laterQuery.before column = query.before column) →
      (∀ column < headDim, laterKey.before column = key.before column) →
      HalfRotation.dot headDim laterQuery.after laterKey.after =
        HalfRotation.dot headDim query.after key.after) ∧
    (∀ vector : RopeHead (exactReals negInfinity) spec,
      HalfRotation.dot vector.headDim vector.after vector.after =
        HalfRotation.dot vector.headDim vector.before vector.before) ∧
    (∀ vector : RopeHead (exactReals negInfinity) spec, vector.position = 0 →
      ∀ column < vector.headDim, vector.after column = vector.before column) := by
  have halves : ∀ vector : RopeHead (exactReals negInfinity) spec,
      vector.headDim / 2 + vector.headDim / 2 = vector.headDim := fun vector => by
    have even := vector.even
    omega
  refine ⟨?relative, ?norm, ?zero⟩
  case relative =>
    intro query key laterQuery laterKey headDim m n d queryWidth keyWidth laterQueryWidth
      laterKeyWidth queryAt keyAt laterQueryAt laterKeyAt sameQuery sameKey
    have whole := halves query
    rw [queryWidth] at whole
    have queryTurned := exact_head_turned query
    have keyTurned := exact_head_turned key
    have queryLater := exact_head_turned laterQuery
    have keyLater := exact_head_turned laterKey
    rw [queryWidth, queryAt] at queryTurned
    rw [keyWidth, keyAt] at keyTurned
    rw [laterQueryWidth, laterQueryAt, exact_angle_add] at queryLater
    rw [laterKeyWidth, laterKeyAt, exact_angle_add] at keyLater
    rw [← whole] at sameQuery sameKey ⊢
    -- both angles are larger by that of the shift, which an inner product does not see
    exact HalfRotation.dot_turned_add _ _ _ _ _ _ _ _ _ _ queryTurned keyTurned
      (queryLater.congr _ _ _ _ _ fun column inside => (sameQuery column inside).symm)
      (keyLater.congr _ _ _ _ _ fun column inside => (sameKey column inside).symm)
  case norm =>
    intro vector
    have kept := HalfRotation.dot_turned _ _ _ _ (exact_head_turned vector)
    rwa [halves vector] at kept
  case zero =>
    intro vector start column inside
    have turned := exact_head_turned vector
    rw [start] at turned
    exact turned.fixed _ _ _ _ (fun dimension _ => exact_angle_zero _ _ _ _) column
      (by rwa [halves vector])

/-- A query of two entries and a key of two entries, at the positions 5 and 2 and at 8 and 5. -/
theorem rope_relative_position_pair :
    let spec : RopeSpec ℝ := ⟨10000, 16⟩
    ∃ query key laterQuery laterKey : RopeHead (exactReals 0) spec,
      query.position = 5 ∧ key.position = 2 ∧ laterQuery.position = 8 ∧ laterKey.position = 5 ∧
      HalfRotation.dot 2 laterQuery.after laterKey.after =
        HalfRotation.dot 2 query.after key.after := by
  intro spec
  have head := fun position vector below => rope_head_exists 0 spec 2 position vector (by decide)
    (by decide) (by decide) (by norm_num [spec]) below
  obtain ⟨query, queryWidth, queryAt, queryIs⟩ := head 5 (fun column => 3 + column) (by decide)
  obtain ⟨key, keyWidth, keyAt, keyIs⟩ := head 2 (fun column => 1 - column) (by decide)
  obtain ⟨laterQuery, laterQueryWidth, laterQueryAt, laterQueryIs⟩ :=
    head 8 (fun column => 3 + column) (by decide)
  obtain ⟨laterKey, laterKeyWidth, laterKeyAt, laterKeyIs⟩ :=
    head 5 (fun column => 1 - column) (by decide)
  use query, key, laterQuery, laterKey
  refine ⟨queryAt, keyAt, laterQueryAt, laterKeyAt, ?_⟩
  exact (rope_relative_position 0 spec).1 query key laterQuery laterKey 2 5 2 3 queryWidth keyWidth
    laterQueryWidth laterKeyWidth queryAt keyAt laterQueryAt laterKeyAt
    (fun column _ => by rw [laterQueryIs, queryIs]) (fun column _ => by rw [laterKeyIs, keyIs])

end MarketForge.Cpu
