import MarketForge.Cpu.SmolLm2

/-!
# What a successful call has checked and done

A call that succeeds has passed its checks and has run its loops. The checks give the extents and
the element counts that the loops were run with.
-/
namespace MarketForge.Cpu

open Library FloatOps

section

variable {F : Type}

/-! ## Sequences of calls -/

theorem guarded_ok (check : Status) (effect : FlatMemory F → FlatMemory F) (memory : FlatMemory F)
    (succeeded : (guarded check effect memory).1.isOk = true) :
    check.isOk = true ∧ (guarded check effect memory).2 = effect memory := by
  unfold guarded at succeeded ⊢
  split
  next passed => exact ⟨passed, rfl⟩
  next failed =>
    rw [if_neg failed] at succeeded
    exact absurd succeeded failed

theorem guarded_succeeds (check : Status) (effect : FlatMemory F → FlatMemory F)
    (memory : FlatMemory F) (passed : check.isOk = true) :
    guarded check effect memory = (.success, effect memory) := by
  rw [guarded, if_pos passed]

/-- The first call of a sequence that succeeds has succeeded, and so have the others after it. -/
theorem run_all_cons (operation : Operation F) (others : List (Operation F)) (memory : FlatMemory F)
    (succeeded : (runAll (operation :: others) memory).1.isOk = true) :
    (operation memory).1.isOk = true ∧
      runAll (operation :: others) memory = runAll others (operation memory).2 := by
  rw [runAll] at succeeded ⊢
  cases called : operation memory with
  | mk status after =>
    rw [called] at succeeded
    dsimp only at succeeded ⊢
    cases passed : status.isOk with
    | true => exact ⟨rfl, by simp⟩
    | false => simp [passed] at succeeded

theorem run_all_append (calls others : List (Operation F)) (memory : FlatMemory F)
    (succeeded : (runAll (calls ++ others) memory).1.isOk = true) :
    (runAll calls memory).1.isOk = true ∧
      runAll (calls ++ others) memory = runAll others (runAll calls memory).2 := by
  induction calls generalizing memory with
  | nil => exact ⟨rfl, rfl⟩
  | cons operation calls ih =>
    rw [List.cons_append] at succeeded ⊢
    obtain ⟨first, rest⟩ := run_all_cons operation (calls ++ others) memory succeeded
    rw [rest] at succeeded ⊢
    obtain ⟨called, after⟩ := ih (operation memory).2 succeeded
    have whole : runAll (operation :: calls) memory = runAll calls (operation memory).2 := by
      rw [runAll]
      simp [first]
    rw [whole]
    exact ⟨called, after⟩

/-- What each call of a sequence keeps, counted by the calls before it, the sequence keeps. -/
theorem run_all_invariant (calls : List (Operation F)) (memory : FlatMemory F)
    (holds : Nat → FlatMemory F → Prop) (initially : holds 0 memory)
    (step : ∀ index, ∀ operation, calls[index]? = some operation → ∀ current, holds index current →
      (operation current).1.isOk = true → holds (index + 1) (operation current).2)
    (succeeded : (runAll calls memory).1.isOk = true) :
    holds calls.length (runAll calls memory).2 := by
  induction calls generalizing memory holds with
  | nil => exact initially
  | cons operation others ih =>
    obtain ⟨first, rest⟩ := run_all_cons operation others memory succeeded
    rw [rest] at succeeded ⊢
    have started := step 0 operation rfl memory initially first
    exact ih _ (fun index => holds (index + 1)) started
      (fun index operation found => step (index + 1) operation (by simpa using found)) succeeded

/-! ## Checks -/

/-- A check that passes its first part and a second one passes both. -/
theorem status_guard_ok {status rest : Status}
    (passed : (if status.isOk = false then status else rest).isOk = true) :
    status.isOk = true ∧ rest.isOk = true := by
  split at passed
  next failed => rw [failed] at passed; cases passed
  next ok => exact ⟨Bool.not_eq_false _ ▸ ok, passed⟩

theorem refusal_guard_ok {refused : Prop} [Decidable refused] {failure rest : Status}
    (fails : failure.isOk = false)
    (passed : (if refused then failure else rest).isOk = true) : ¬refused ∧ rest.isOk = true := by
  split at passed
  next => rw [fails] at passed; cases passed
  next accepted => exact ⟨accepted, passed⟩

theorem first_failure_ok (checks : List Status) (passed : (firstFailure checks).isOk = true) :
    ∀ check ∈ checks, check.isOk = true := by
  intro check listed
  unfold firstFailure at passed
  cases found : checks.find? fun status => !status.isOk with
  | none =>
    have ok := List.find?_eq_none.mp found check listed
    simpa using ok
  | some failure =>
    have failed := List.find?_some found
    rw [found] at passed
    simp_all

theorem first_failure_all (checks : List Status) (passed : ∀ check ∈ checks, check.isOk = true) :
    (firstFailure checks).isOk = true := by
  unfold firstFailure
  cases found : checks.find? fun status => !status.isOk with
  | none => rfl
  | some failure =>
    have listed := List.mem_of_find?_eq_some found
    exact passed failure listed

/-! ## Extents -/

theorem extent_make (data : Nat) (extents : List UInt64) (axis : Nat) (inside : axis < 6) :
    extent (makeF32View data extents) axis = (extents.getD axis 0).toNat := by
  simp [extent, makeF32View, Shape.ofExtents, List.getD_eq_getElem?_getD, inside, Shape.maxRank]

theorem elements_make (data : Nat) (extents : List UInt64) (short : extents.length ≤ 6) :
    (makeF32View data extents).shape.elements = (extents.map UInt64.toNat).prod := by
  rw [Shape.elements, makeF32View, shape_of_extents_dims extents short]

/-- A view that passes the check has a representable element count. -/
theorem element_count_ok (view : FloatView) (passed : (validateF32Host view).isOk = true) :
    elementCount view = view.shape.elements := by
  unfold validateF32Host validateTensorView at passed
  split at passed
  next => split at passed <;> simp at passed
  next =>
    unfold checkedNbytes at passed
    unfold elementCount
    cases counted : checkedNumel view.shape with
    | ok elements => exact (checked_numel_ok view.shape elements counted).1
    | error status =>
      rw [counted] at passed
      exact absurd passed (by simp [checked_numel_error view.shape status counted])

theorem require_shape_ok (shape : Shape) (rank : UInt8) (extents : List UInt64)
    (passed : (requireShape shape rank extents).isOk = true) :
    shape.rank = rank ∧ extents.length = rank.toNat ∧
      ∀ axis (inside : axis < extents.length),
        shape.extents.toList[axis]? = some extents[axis] := by
  unfold requireShape at passed
  split at passed
  next => simp at passed
  next ranked =>
    rw [not_or, not_not, not_not] at ranked
    refine ⟨ranked.1, ranked.2, fun axis inside => ?_⟩
    split at passed
    next => simp at passed
    next none_differs =>
      have listed : (extents[axis], axis) ∈ extents.zipIdx := by
        rw [List.mem_zipIdx_iff_getElem?]
        exact List.getElem?_eq_getElem inside
      simpa using List.find?_eq_none.mp none_differs _ listed

/-- A weight that passes its check has the extents it was checked for. -/
theorem weight_ok (weight : FloatView) (extents : List UInt64)
    (passed : (validateWeight weight extents).isOk = true) :
    weight.shape.elements = (extents.map UInt64.toNat).prod ∧
      ∀ axis < extents.length, extent weight axis = (extents.getD axis 0).toNat := by
  unfold validateWeight at passed
  dsimp only at passed
  split at passed
  next =>
    obtain ⟨rank, length, same⟩ := require_shape_ok _ _ _ passed
    constructor
    · have dims : weight.shape.dims = extents := by
        apply List.ext_getElem?
        intro axis
        rw [Shape.dims, rank, ← length, List.getElem?_take]
        split
        next inside => rw [same axis inside, List.getElem?_eq_getElem inside]
        next outside => rw [List.getElem?_eq_none (by omega)]
      rw [Shape.elements, dims]
    · intro axis inside
      rw [extent, List.getD_eq_getElem?_getD, same axis inside, List.getD_eq_getElem?_getD,
        List.getElem?_eq_getElem inside]
  next failed => exact absurd passed failed

/-- A weight with so many elements. -/
structure IsVector (weight : FloatView) (size : Nat) : Prop where
  elements : weight.shape.elements = size
  size : extent weight 0 = size

/-- A weight with so many rows and columns. -/
structure IsMatrix (weight : FloatView) (rows columns : Nat) : Prop where
  elements : weight.shape.elements = rows * columns
  rows : extent weight 0 = rows

theorem vector_ok (weight : FloatView) (size : UInt64)
    (passed : (validateWeight weight [size]).isOk = true) : IsVector weight size.toNat := by
  obtain ⟨elements, extents⟩ := weight_ok weight [size] passed
  exact ⟨by simpa using elements, extents 0 (by simp)⟩

theorem matrix_ok (weight : FloatView) (rows columns : UInt64)
    (passed : (validateWeight weight [rows, columns]).isOk = true) :
    IsMatrix weight rows.toNat columns.toNat := by
  obtain ⟨elements, extents⟩ := weight_ok weight [rows, columns] passed
  exact ⟨by simpa using elements, extents 0 (by simp)⟩

/-! ## The workspace -/

/-- The floats that the workspace check asks for hold the slices of both phases. -/
theorem required_floats_ok (spec : DecoderLayerSpec F)
    (batchSize queryTokens maximumContext required : UInt64)
    (computed : requiredDecoderLayerWorkspaceFloats spec batchSize queryTokens maximumContext =
      .ok required) :
    let rows := batchSize.toNat * queryTokens.toNat
    3 * (rows * spec.hiddenSize.toNat) + 2 * (rows * (spec.kvHeads.toNat * spec.headDim.toNat))
        + rows * spec.queryHeads.toNat * maximumContext.toNat ≤ required.toNat ∧
      2 * (rows * spec.intermediateSize.toNat) + rows * spec.hiddenSize.toNat ≤ required.toNat := by
  unfold requiredDecoderLayerWorkspaceFloats at computed
  split at computed
  next => cases computed
  next rows rowsOk =>
    dsimp only at computed
    split at computed
    next rowHidden rowKv logits rowIntermediate hiddenOk kvOk logitsOk intermediateOk =>
      split at computed
      next attentionPhase mlpPhase attentionOk mlpOk =>
        obtain ⟨kvWidth, widthOk, kvOk⟩ := bind_eq_ok.mp kvOk
        obtain ⟨threeHidden, threeOk, attentionOk⟩ := bind_eq_ok.mp attentionOk
        obtain ⟨twoKv, twoKvOk, attentionOk⟩ := bind_eq_ok.mp attentionOk
        obtain ⟨slices, slicesOk, attentionOk⟩ := bind_eq_ok.mp attentionOk
        obtain ⟨twoIntermediate, twoOk, mlpOk⟩ := bind_eq_ok.mp mlpOk
        -- every product and sum was checked, so each word is the exact number
        have logitsExact := (checked_product _ _ _ logitsOk).1
        simp only [checked_multiply_iff, checked_add_iff, UInt32.toNat_toUInt64]
          at rowsOk hiddenOk kvOk intermediateOk widthOk threeOk twoKvOk slicesOk attentionOk
        simp only [checked_multiply_iff, checked_add_iff, UInt64.reduceToNat] at twoOk mlpOk
        simp only [List.map_cons, List.map_nil, List.prod_cons, List.prod_nil,
          UInt32.toNat_toUInt64, UInt64.toNat_one, Nat.one_mul, Nat.mul_one] at logitsExact
        simp only [UInt64.reduceToNat] at threeOk twoKvOk
        -- the two phases share the space, so the larger one is required
        have largest : attentionPhase.toNat ≤ required.toNat ∧ mlpPhase.toNat ≤ required.toNat := by
          have larger : required = if attentionPhase ≤ mlpPhase then mlpPhase else attentionPhase :=
            (Except.ok.inj computed).symm
          split at larger
          next order =>
            rw [larger]
            exact ⟨UInt64.le_iff_toNat_le.mp order, Nat.le_refl _⟩
          next order =>
            rw [UInt64.le_iff_toNat_le] at order
            rw [larger]
            exact ⟨Nat.le_refl _, by omega⟩
        rw [widthOk] at kvOk
        rw [← Nat.mul_assoc, ← Nat.mul_assoc] at logitsExact
        rw [rowsOk] at hiddenOk kvOk intermediateOk
        omega
      next => cases computed
    next => cases computed

/-! ## The validation of a layer -/

variable [FloatOps F]

theorem spec_check_ok (spec : DecoderLayerSpec F) (passed : (specCheck spec).isOk = true) :
    0 < spec.hiddenSize.toNat ∧ spec.queryHeads.toNat % spec.kvHeads.toNat = 0 ∧
      spec.queryHeads.toNat * spec.headDim.toNat = spec.hiddenSize.toNat := by
  unfold specCheck at passed
  split at passed
  next => simp at passed
  next valid =>
    simp only [not_or, not_not] at valid
    obtain ⟨some_hidden, _, _, _, _, groups, heads, _⟩ := valid
    refine ⟨Nat.pos_of_ne_zero fun none => some_hidden (UInt32.toNat_inj.mp none), ?_, heads⟩
    rw [← UInt32.toNat_mod, groups]
    rfl

omit [FloatOps F] in
theorem workspace_check_ok (spec : DecoderLayerSpec F) (hidden : FloatView) (cache : CpuKvView)
    (workspace : CpuWorkspace) (passed : (workspaceCheck spec hidden cache workspace).isOk = true) :
    ∃ required, requiredDecoderLayerWorkspaceFloats spec (UInt64.ofNat (extent hidden 0))
        (UInt64.ofNat (extent hidden 1)) (UInt64.ofNat (extent cache.key 1)) = .ok required ∧
      required.toNat ≤ workspace.capacity.toNat := by
  unfold workspaceCheck at passed
  split at passed
  next => simp at passed
  next required computed =>
    split at passed
    next => simp at passed
    next enough =>
      rw [UInt64.lt_iff_toNat_lt] at enough
      exact ⟨required, computed, by omega⟩

omit [FloatOps F] in
theorem rope_tensor_shape (view : FloatView) (passed : (validateRopeTensor view).isOk = true) :
    (validateF32Host view).isOk = true ∧ view.shape.rank = 4 ∧ extent view 0 ≠ 0 ∧
      extent view 1 ≠ 0 ∧ extent view 2 ≠ 0 ∧ extent view 3 ≠ 0 ∧ extent view 3 % 2 = 0 := by
  unfold validateRopeTensor at passed
  obtain ⟨valid, passed⟩ := status_guard_ok passed
  obtain ⟨shaped, _⟩ := refusal_guard_ok rfl passed
  simp only [not_or, not_not] at shaped
  exact ⟨valid, shaped⟩

theorem rope_check_tensors (query key : FloatView) (positions : List UInt32) (spec : RopeSpec F)
    (passed : (applyRopeCheck query key positions spec).isOk = true) :
    (validateRopeTensor query).isOk = true ∧ (validateRopeTensor key).isOk = true := by
  unfold applyRopeCheck at passed
  have valid := first_failure_ok _ (status_guard_ok passed).1
  exact ⟨valid _ (by simp), valid _ (by simp)⟩

theorem rope_check_ok (query key : FloatView) (positions : List UInt32) (spec : RopeSpec F)
    (passed : (applyRopeCheck query key positions spec).isOk = true) :
    extent query 3 % 2 = 0 := by
  have tensor := (rope_check_tensors query key positions spec passed).1
  obtain ⟨_, _, _, _, _, _, even⟩ := rope_tensor_shape query tensor
  exact even

/-! ## Calls on slices -/

/-- A view of a slice, with extents that are counts. -/
abbrev sliceView (data : Nat) (extents : List Nat) : FloatView :=
  makeF32View data (extents.map UInt64.ofNat)

omit [FloatOps F] in
theorem extent_slice (data : Nat) (extents : List Nat) (axis : Nat) (inside : axis < 6)
    (small : extents.getD axis 0 < 2 ^ 64) :
    extent (sliceView data extents) axis = extents.getD axis 0 := by
  have entry : (extents.map UInt64.ofNat).getD axis 0 = UInt64.ofNat (extents.getD axis 0) := by
    rw [List.getD_eq_getElem?_getD, List.getD_eq_getElem?_getD, List.getElem?_map]
    cases extents[axis]? with
    | none => rfl
    | some extent => rfl
  rw [extent_make _ _ axis inside, entry, UInt64.toNat_ofNat', Nat.mod_eq_of_lt small]

theorem linear_slices_ok (input output rows inputWidth outputWidth : Nat) (weight : FloatView)
    (memory : FlatMemory F) (shape : IsMatrix weight outputWidth inputWidth)
    (fewRows : rows < 2 ^ 64) (narrow : inputWidth < 2 ^ 64)
    (succeeded : (linearF32 (sliceView input [rows, inputWidth]) weight
      (sliceView output [rows, outputWidth]) memory).1.isOk = true) :
    (linearF32 (sliceView input [rows, inputWidth]) weight
      (sliceView output [rows, outputWidth]) memory).2 =
        linearRows input weight.data output rows inputWidth outputWidth memory := by
  have count : extent (sliceView input [rows, inputWidth]) 0 = rows :=
    extent_slice _ _ 0 (by decide) fewRows
  have width : extent (sliceView input [rows, inputWidth]) 1 = inputWidth :=
    extent_slice _ _ 1 (by decide) narrow
  rw [linearF32] at succeeded ⊢
  rw [(guarded_ok _ _ _ succeeded).2, count, width, shape.rows]
  rfl

/-- The norm of rows: any view of so many elements will do as the input. -/
theorem rms_norm_ok (input weight output : FloatView) (epsilon : F) (memory : FlatMemory F)
    (rows hidden : Nat) (shape : IsVector weight hidden) (positive : 0 < hidden)
    (elements : input.shape.elements = rows * hidden)
    (succeeded : (rmsNormF32 input weight epsilon output memory).1.isOk = true) :
    (rmsNormF32 input weight epsilon output memory).2 =
      rmsNormRows input.data weight.data output.data rows hidden epsilon memory := by
  rw [rmsNormF32] at succeeded ⊢
  obtain ⟨passed, after⟩ := guarded_ok _ _ _ succeeded
  have valid : (validateF32Host input).isOk = true := by
    unfold rmsNormCheck at passed
    exact first_failure_ok _ (status_guard_ok passed).1 _ (by simp)
  rw [after, element_count_ok input valid, elements, shape.size, Nat.mul_div_cancel _ positive]

theorem rope_slices_ok (query key rows queryHeads keyHeads headDim : Nat) (positions : List UInt32)
    (spec : RopeSpec F) (memory : FlatMemory F) (fewRows : rows < 2 ^ 64)
    (fewQueries : queryHeads < 2 ^ 64) (fewKeys : keyHeads < 2 ^ 64) (narrow : headDim < 2 ^ 64)
    (succeeded : (applyRopeF32 (sliceView query [1, rows, queryHeads, headDim])
      (sliceView key [1, rows, keyHeads, headDim]) positions spec memory).1.isOk = true) :
    headDim % 2 = 0 ∧ (applyRopeF32 (sliceView query [1, rows, queryHeads, headDim])
      (sliceView key [1, rows, keyHeads, headDim]) positions spec memory).2 =
        ropeRows spec query key 1 rows queryHeads keyHeads headDim positions memory := by
  have one : extent (sliceView query [1, rows, queryHeads, headDim]) 0 = 1 :=
    extent_slice _ _ 0 (by decide) (by simp)
  have count : extent (sliceView query [1, rows, queryHeads, headDim]) 1 = rows :=
    extent_slice _ _ 1 (by decide) fewRows
  have heads : extent (sliceView query [1, rows, queryHeads, headDim]) 2 = queryHeads :=
    extent_slice _ _ 2 (by decide) fewQueries
  have kvHeads : extent (sliceView key [1, rows, keyHeads, headDim]) 2 = keyHeads :=
    extent_slice _ _ 2 (by decide) fewKeys
  have last : extent (sliceView query [1, rows, queryHeads, headDim]) 3 = headDim :=
    extent_slice _ _ 3 (by decide) narrow
  rw [applyRopeF32] at succeeded ⊢
  obtain ⟨passed, after⟩ := guarded_ok _ _ _ succeeded
  have even := rope_check_ok _ _ _ _ passed
  rw [last] at even
  refine ⟨even, ?_⟩
  rw [after, one, count, heads, kvHeads, last]
  rfl

omit [FloatOps F] in
theorem append_slices_ok (key value rows keyHeads headDim : Nat) (positions : List UInt32)
    (cache : CpuKvView) (memory : FlatMemory F) (fewRows : rows < 2 ^ 64)
    (fewKeys : keyHeads < 2 ^ 64) (narrow : headDim < 2 ^ 64)
    (succeeded : (appendKvF32 (sliceView key [1, rows, keyHeads, headDim])
      (sliceView value [1, rows, keyHeads, headDim]) positions cache memory).1.isOk = true) :
    (appendKvF32 (sliceView key [1, rows, keyHeads, headDim])
      (sliceView value [1, rows, keyHeads, headDim]) positions cache memory).2 =
        appendRows key value cache.key.data cache.value.data 1 rows (extent cache.key 1)
          (keyHeads * headDim) positions memory := by
  have one : extent (sliceView key [1, rows, keyHeads, headDim]) 0 = 1 :=
    extent_slice _ _ 0 (by decide) (by simp)
  have count : extent (sliceView key [1, rows, keyHeads, headDim]) 1 = rows :=
    extent_slice _ _ 1 (by decide) fewRows
  have kvHeads : extent (sliceView key [1, rows, keyHeads, headDim]) 2 = keyHeads :=
    extent_slice _ _ 2 (by decide) fewKeys
  have last : extent (sliceView key [1, rows, keyHeads, headDim]) 3 = headDim :=
    extent_slice _ _ 3 (by decide) narrow
  rw [appendKvF32] at succeeded ⊢
  rw [(guarded_ok _ _ _ succeeded).2, one, count, kvHeads, last]
  rfl

theorem attention_slices (query output scratch rows queryHeads headDim : Nat)
    (keyCache valueCache : FloatView) (contextLengths : List UInt32) (memory : FlatMemory F)
    (fewRows : rows < 2 ^ 64) (fewQueries : queryHeads < 2 ^ 64) (narrow : headDim < 2 ^ 64) :
    (attentionImpl (sliceView query [1, rows, queryHeads, headDim]) keyCache valueCache
      contextLengths (sliceView output [1, rows, queryHeads, headDim]) scratch memory).2 =
        attentionRows query keyCache.data valueCache.data output scratch 1 rows queryHeads
          (extent keyCache 2) headDim (extent keyCache 1) contextLengths memory := by
  have one : extent (sliceView query [1, rows, queryHeads, headDim]) 0 = 1 :=
    extent_slice _ _ 0 (by decide) (by simp)
  have count : extent (sliceView query [1, rows, queryHeads, headDim]) 1 = rows :=
    extent_slice _ _ 1 (by decide) fewRows
  have heads : extent (sliceView query [1, rows, queryHeads, headDim]) 2 = queryHeads :=
    extent_slice _ _ 2 (by decide) fewQueries
  have last : extent (sliceView query [1, rows, queryHeads, headDim]) 3 = headDim :=
    extent_slice _ _ 3 (by decide) narrow
  rw [attentionImpl, one, count, heads, last]
  rfl

end

end MarketForge.Cpu
