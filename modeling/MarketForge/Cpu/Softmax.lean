import MarketForge.Cpu.OperatorEffects

/-!
# The softmax operator

`softmax_f32`: it first reads every valid element of every row, and writes only when all of them
are finite. A row then takes four passes, each of which writes behind what it has read, so that
the output may be the input itself.
-/
namespace MarketForge.Cpu

open Library FloatOps

section

variable {F : Type} [FloatOps F]

/-! ## The operator -/

def softmaxViewsCheck (input : FloatView) (validLengths : List UInt32) (output : FloatView) :
    Status :=
  let views := firstFailure [validateF32Host input, validateF32Host output]
  if views.isOk = false then views
  else if input.shape.rank ≠ 2 ∨ output.shape ≠ input.shape ∨ extent input 0 = 0
      ∨ extent input 1 = 0 ∨ validLengths.length ≠ extent input 0 then
    .failure .invalidShape
  else validateOutputAlias input output true

/-- The pass over the valid elements, which names the first row it refuses. -/
def softmaxRowsCheck (input rows columns : Nat) (validLengths : List UInt32)
    (memory : FlatMemory F) : Status :=
  let refused := (List.range rows).find? fun row =>
    let valid := (validLengths.getD row 0).toNat
    decide (valid = 0) || decide (columns < valid) || (List.range valid).any fun column =>
      !isFinite (memory (input + row * columns + column))
  match refused with
  | some row => .failure .invalidArgument (UInt32.ofNat row)
  | none => .success

def softmaxCheck (input : FloatView) (validLengths : List UInt32) (output : FloatView)
    (memory : FlatMemory F) : Status :=
  let views := softmaxViewsCheck input validLengths output
  if views.isOk = false then views
  else softmaxRowsCheck input.data (extent input 0) (extent input 1) validLengths memory

/-- The exponentials of the input in the output, and their sum. -/
def exponentiateInto (input output valid : Nat) (maximum : F) (memory : FlatMemory F) :
    FlatMemory F × F :=
  forRange valid (fun column state =>
    let memory := Function.update state.1 (output + column)
      (exp (state.1 (input + column) - maximum))
    (memory, state.2 + memory (output + column))) (memory, zero)

/-- One row: the maximum, the exponentials, the scaling and the zeros behind the valid part. -/
def softmaxInto (input output columns valid : Nat) (memory : FlatMemory F) : FlatMemory F :=
  let maximum := forRange valid (fun column maximum =>
    FloatOps.max maximum (memory (input + column))) negInfinity
  let exponentials := exponentiateInto input output valid maximum memory
  let inverseDenominator := one / exponentials.2
  let memory := fill output valid
    (fun memory column => memory (output + column) * inverseDenominator) exponentials.1
  fill (output + valid) (columns - valid) (fun _ _ => zero) memory

def softmaxRows (input output rows columns : Nat) (validLengths : List UInt32) :
    FlatMemory F → FlatMemory F :=
  forRange rows fun row => softmaxInto (input + row * columns) (output + row * columns) columns
    (validLengths.getD row 0).toNat

def softmaxF32 (input : FloatView) (validLengths : List UInt32) (output : FloatView) :
    Operation F := fun memory =>
  guarded (softmaxCheck input validLengths output memory)
    (softmaxRows input.data output.data (extent input 0) (extent input 1) validLengths) memory

/-! ## What a row becomes -/

/-- The softmax of the valid part of a row, and zeros behind it. -/
def maskedRow (valid : Nat) (score : Nat → F) : Nat → F := fun column =>
  if column < valid then softmaxRow valid score column else zero

theorem exponentiate_into_spec (input output columns valid : Nat) (maximum : F) (score : Nat → F)
    (memory : FlatMemory F) (fits : valid ≤ columns)
    (place : input = output ∨ Apart input columns output columns)
    (stored : Stores memory input columns score) :
    Stores (exponentiateInto input output valid maximum memory).1 output valid
        (fun column => exp (score column - maximum)) ∧
      (exponentiateInto input output valid maximum memory).2 =
        forRange valid (fun column sum => sum + exp (score column - maximum)) zero ∧
      SameExcept (Within output valid) memory
        (exponentiateInto input output valid maximum memory).1 := by
  apply for_range_invariant valid _ (memory, (zero : F)) (fun done state =>
    Stores state.1 output done (fun column => exp (score column - maximum)) ∧
      state.2 = forRange done (fun column sum => sum + exp (score column - maximum)) zero ∧
      SameExcept (Within output done) memory state.1)
  · exact ⟨fun _ below => absurd below (Nat.not_lt_zero _), rfl, SameExcept.refl _ memory⟩
  · rintro done below ⟨current, sum⟩ ⟨raised, summed, same⟩
    dsimp only at raised summed same ⊢
    -- the element of this turn is still the input's: the turns before wrote in front of it
    have here : current (input + done) = score done := by
      rw [same]
      · exact stored done (by omega)
      · intro within
        unfold Within at within
        rcases place with rfl | apart
        · omega
        · unfold Apart at apart
          omega
    rw [here, Function.update_self]
    refine ⟨?_, ?_, ?_⟩
    · intro column earlier
      by_cases last : column = done
      · rw [last, Function.update_self]
      · rw [Function.update_of_ne (by omega)]
        exact raised column (by omega)
    · rw [summed]
      rfl
    · intro address outside
      unfold Within at outside
      rw [Function.update_of_ne (by omega)]
      exact same address fun within => by unfold Within at within; omega

theorem softmax_into_spec (input output columns valid : Nat) (score : Nat → F)
    (memory : FlatMemory F) (fits : valid ≤ columns)
    (place : input = output ∨ Apart input columns output columns)
    (stored : Stores memory input columns score) :
    Stores (softmaxInto input output columns valid memory) output columns
        (maskedRow valid score) ∧
      SameExcept (Within output columns) memory
        (softmaxInto input output columns valid memory) := by
  -- the first pass only reads; the next three each write a part of the row
  have maximum : forRange valid (fun column maximum =>
      FloatOps.max maximum (memory (input + column))) negInfinity =
        forRange valid (fun column maximum => FloatOps.max maximum (score column)) negInfinity :=
    for_range_congr valid _ _ _ fun column below maximum => by
      rw [stored column (by omega)]
  unfold softmaxInto
  dsimp only
  rw [maximum]
  obtain ⟨raised, denominator, raisedOthers⟩ := exponentiate_into_spec input output columns valid
    (forRange valid (fun column maximum => FloatOps.max maximum (score column)) negInfinity) score
    memory fits place stored
  rw [denominator]
  generalize (exponentiateInto input output valid _ memory).1 = exponentials at raised raisedOthers
  obtain ⟨scaled, scaledOthers⟩ := fill_spec output valid
    (fun memory column => memory (output + column) * (one / forRange valid (fun column sum =>
      sum + exp (score column - forRange valid (fun column maximum =>
        FloatOps.max maximum (score column)) negInfinity)) zero)) exponentials
    (fun column below current same => by
      rw [same _ fun within => by unfold Within at within; omega])
  -- the columns past the valid length are zeros, which leave the scaled ones alone
  generalize fill output valid _ exponentials = normalized at scaled scaledOthers
  obtain ⟨cleared, clearedOthers⟩ := fill_spec (output + valid) (columns - valid)
    (fun _ _ => (zero : F)) normalized (fun _ _ _ _ => rfl)
  constructor
  · intro column inside
    unfold maskedRow
    split
    next below =>
      rw [clearedOthers _ fun within => by unfold Within at within; omega, scaled column below,
        raised column below]
      rfl
    next behind =>
      have value := cleared (column - valid) (by omega)
      rwa [Nat.add_assoc, Nat.add_sub_cancel' (by omega)] at value
  · have wide : ∀ address, Within output valid address → Within output columns address :=
      fun address => within_mono output valid columns address fits
    apply SameExcept.trans _ _ _ _ (SameExcept.mono _ _ _ _ wide raisedOthers)
    apply SameExcept.trans _ _ _ _ (SameExcept.mono _ _ _ _ wide scaledOthers)
    apply SameExcept.mono _ _ _ _ _ clearedOthers
    intro address inside
    unfold Within at inside ⊢
    omega

/-- Every row becomes its masked softmax; the output may be the input. -/
theorem softmax_rows_spec (input output rows columns : Nat) (validLengths : List UInt32)
    (value : Nat → Nat → F) (memory : FlatMemory F)
    (fits : ∀ row < rows, (validLengths.getD row 0).toNat ≤ columns)
    (place : input = output ∨ Apart input (rows * columns) output (rows * columns))
    (stored : StoresRows memory input rows columns value) :
    StoresRows (softmaxRows input output rows columns validLengths memory) output rows columns
        (fun row => maskedRow (validLengths.getD row 0).toNat (value row)) ∧
      SameExcept (Within output (rows * columns)) memory
        (softmaxRows input output rows columns validLengths memory) := by
  apply rows_spec
  intro row below current same
  have last : row * columns + columns ≤ rows * columns := Grid.row_end columns below
  have inputRow : Stores current (input + row * columns) columns (value row) := by
    apply Stores.frame _ _ _ _ _ _ same _ (stored row below)
    intro address inside within
    unfold Within at inside within
    rcases place with rfl | apart
    · omega
    · unfold Apart at apart
      omega
  apply softmax_into_spec _ _ columns _ (value row) current (fits row below) _ inputRow
  rcases place with rfl | apart
  · exact .inl rfl
  · right
    unfold Apart at apart ⊢
    omega

/-! ## Accepted calls -/

/-- An accepted row has a valid length within the columns, and finite valid elements. -/
theorem softmax_rows_check_iff (input rows columns : Nat) (validLengths : List UInt32)
    (memory : FlatMemory F) :
    (softmaxRowsCheck input rows columns validLengths memory).isOk = true ↔
      ∀ row < rows, 0 < (validLengths.getD row 0).toNat ∧
        (validLengths.getD row 0).toNat ≤ columns ∧
        ∀ column < (validLengths.getD row 0).toNat,
          isFinite (memory (input + row * columns + column)) = true := by
  unfold softmaxRowsCheck
  dsimp only
  split
  next row found =>
    have listed := List.mem_range.mp (List.mem_of_find?_eq_some found)
    have refused := List.find?_some found
    constructor
    · intro passed
      simp at passed
    · intro accepted
      obtain ⟨positive, fits, finite⟩ := accepted row listed
      simp only [Bool.or_eq_true, decide_eq_true_eq, List.any_eq_true, List.mem_range,
        Bool.not_eq_true'] at refused
      rcases refused with (none | long) | ⟨column, below, infinite⟩
      · omega
      · omega
      · rw [finite column below] at infinite
        cases infinite
  next none =>
    rw [List.find?_eq_none] at none
    constructor
    · intro _ row below
      have accepted := none row (List.mem_range.mpr below)
      simp only [Bool.or_eq_true, decide_eq_true_eq, List.any_eq_true, List.mem_range,
        Bool.not_eq_true', not_or, not_exists, not_and, Bool.not_eq_false] at accepted
      exact ⟨by omega, by omega, accepted.2⟩
    · exact fun _ => rfl

end

end MarketForge.Cpu
