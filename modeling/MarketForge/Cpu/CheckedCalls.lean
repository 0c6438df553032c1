import MarketForge.Cpu.CheckedOperators
import MarketForge.Cpu.InPlace
import MarketForge.Cpu.LayerFailure
import MarketForge.Cpu.RopeRelative

/-!
# Checked calls

The operators with every product and sum of 64 bits and every access checked, where a view is
backed by the floats that its shape counts. The checked calls do not stop, and return what the
operators return.
-/
namespace MarketForge.Cpu

open Library FloatOps
open Library.Checked (mul add sub cell loop Span)

section

variable {F : Type}

/-! ## Checked calls -/

/-- A call that stops where an access or a product is out of range. -/
abbrev CheckedOperation (F : Type) := FlatMemory F → Option (Status × FlatMemory F)

/-- The floats that a view declares. -/
def spanOf (view : FloatView) : Span := ⟨view.data, view.shape.elements⟩

def guardedChecked (check : Status) (effect : FlatMemory F → Option (FlatMemory F)) :
    CheckedOperation F := fun memory =>
  if check.isOk then (effect memory).map fun after => (.success, after) else some (check, memory)

def alwaysChecked (effect : FlatMemory F → Option (FlatMemory F)) : CheckedOperation F :=
  fun memory => (effect memory).map fun after => (.success, after)

def runAllChecked : List (CheckedOperation F) → CheckedOperation F
  | [], memory => some (.success, memory)
  | operation :: others, memory => do
    let (status, memory) ← operation memory
    if status.isOk then runAllChecked others memory else some (status, memory)

/-- The checked call never stops, and does what the call does. -/
def Agrees (checked : CheckedOperation F) (operation : Operation F) : Prop :=
  ∀ memory, checked memory = some (operation memory)

theorem guarded_agrees (check : Status) (checked : FlatMemory F → Option (FlatMemory F))
    (effect : FlatMemory F → FlatMemory F)
    (safe : check.isOk = true → ∀ memory, checked memory = some (effect memory)) :
    Agrees (guardedChecked check checked) (guarded check effect) := by
  intro memory
  rw [guardedChecked, guarded]
  by_cases passed : check.isOk = true
  · rw [if_pos passed, if_pos passed, safe passed memory]
    rfl
  · rw [if_neg passed, if_neg passed]

theorem run_all_agrees (checked : List (CheckedOperation F)) (calls : List (Operation F))
    (each : List.Forall₂ Agrees checked calls) : Agrees (runAllChecked checked) (runAll calls) := by
  intro memory
  induction each generalizing memory with
  | nil => rfl
  | @cons first operation others rest agrees _ ih =>
    rw [runAllChecked, agrees memory, runAll]
    dsimp only [Option.bind_eq_bind, Option.bind_some]
    cases (operation memory).1.isOk with
    | true => exact ih _
    | false => rfl

variable [FloatOps F]

/-! ## The operators -/

def rmsNormChecked (input weight : FloatView) (epsilon : F) (output : FloatView) :
    CheckedOperation F :=
  let hidden := extent weight 0
  guardedChecked (rmsNormCheck input weight epsilon output)
    (rmsNormRowsChecked (spanOf input) (spanOf weight) (spanOf output) (elementCount input / hidden)
      hidden epsilon)

def linearChecked (input weight output : FloatView) : CheckedOperation F :=
  guardedChecked (linearCheck input weight output)
    (linearRowsChecked (spanOf input) (spanOf weight) (spanOf output) (extent input 0)
      (extent input 1) (extent weight 0))

def applyRopeChecked (query key : FloatView) (positions : List UInt32) (spec : RopeSpec F) :
    CheckedOperation F := fun memory =>
  let tensors := firstFailure [validateRopeTensor query, validateRopeTensor key]
  if tensors.isOk = false then some (tensors, memory)
  else do
    -- the number of positions that the check expects
    let _ ← mul (extent query 0) (extent query 1)
    guardedChecked (applyRopeCheck query key positions spec)
      (ropeRowsChecked spec (spanOf query) (spanOf key) (extent query 0) (extent query 1)
        (extent query 2) (extent key 2) (extent query 3) positions) memory

def appendKvChecked (key value : FloatView) (positions : List UInt32) (cache : CpuKvView) :
    CheckedOperation F := fun memory =>
  let check := appendKvCheck key value positions cache
  let views := firstFailure [validateF32Host key, validateF32Host value, validateF32Host cache.key,
    validateF32Host cache.value]
  if views.isOk = false ∨ key.shape.rank ≠ 4 then some (check, memory)
  else do
    -- the number of positions that the check expects
    let _ ← mul (extent key 0) (extent key 1)
    guardedChecked check
      (appendRowsChecked (spanOf key) (spanOf value) (spanOf cache.key) (spanOf cache.value)
        (extent key 0) (extent key 1) (extent cache.key 1) (extent key 2) (extent key 3) positions)
      memory

def attentionImplChecked (query keyCache valueCache : FloatView) (contextLengths : List UInt32)
    (output : FloatView) (scratch : Span) : CheckedOperation F :=
  alwaysChecked (attentionRowsChecked (spanOf query) (spanOf keyCache) (spanOf valueCache)
    (spanOf output) scratch (extent query 0) (extent query 1) (extent query 2) (extent keyCache 2)
    (extent query 3) (extent keyCache 1) contextLengths)

def queriesFiniteChecked (query : Span) (count : Nat) (memory : FlatMemory F) : Option Bool :=
  Checked.all count fun index => do
    let value ← query.read index memory
    pure (isFinite value)

def cachesFiniteChecked (keyCache valueCache : Span) (batch maximumContext kvHeads headDim : Nat)
    (contextLengths : List UInt32) (memory : FlatMemory F) : Option Bool :=
  Checked.all batch fun batchIndex => do
    let context ← contextLengths[batchIndex]?
    Checked.all context.toNat fun token => Checked.all kvHeads fun head =>
      Checked.all headDim fun dimension => do
        let index ← cacheIndex maximumContext kvHeads headDim batchIndex head token dimension
        let key ← keyCache.read index memory
        let value ← valueCache.read index memory
        pure (isFinite key && isFinite value)

def attentionF32Checked (query keyCache valueCache : FloatView) (contextLengths : List UInt32)
    (output : FloatView) (workspace : CpuWorkspace) : CheckedOperation F := fun memory =>
  let validation := validateAttentionShapes query keyCache valueCache output contextLengths
  if validation.isOk = false then some (validation, memory)
  else
    match requiredAttentionWorkspaceFloats query keyCache with
    | .error _ => some (.failure .insufficientMemory, memory)
    | .ok required =>
      if workspace.capacity < required then some (.failure .insufficientMemory, memory)
      else
        match checkedNumel query.shape with
        | .error _ => some (.failure .invalidShape, memory)
        | .ok queryCount => do
          let queries ← queriesFiniteChecked (spanOf query) queryCount.toNat memory
          if queries = false then some (.failure .invalidArgument, memory)
          else do
            let caches ← cachesFiniteChecked (spanOf keyCache) (spanOf valueCache)
              (extent keyCache 0) (extent keyCache 1) (extent keyCache 2) (extent keyCache 3)
              contextLengths memory
            if caches = false then some (.failure .invalidArgument, memory)
            else do
              let scratch ← Span.subspan ⟨workspace.data, workspace.capacity.toNat⟩ 0 required.toNat
              attentionImplChecked query keyCache valueCache contextLengths output scratch memory

/-! ## The operators do not stop -/

theorem rms_norm_agrees (input weight : FloatView) (epsilon : F) (output : FloatView) :
    Agrees (rmsNormChecked input weight epsilon output)
      (rmsNormF32 input weight epsilon output) := by
  apply guarded_agrees
  intro passed memory
  have checked := rms_norm_check_ok input weight output epsilon passed
  have bytes := valid_bytes_lt input checked.inputValid
  have count := element_count_ok input checked.inputValid
  have whole := checked.whole
  rw [← count] at whole
  apply rms_norm_rows_checked
  case fits => omega
  case inputSize =>
    rw [← whole, count]
    rfl
  case weightSize => exact checked.vector
  case outputSize =>
    rw [← whole, count, ← checked.sameShape]
    rfl

/-- What the check of the product has found. -/
structure LinearAccepted (input weight output : FloatView) : Prop where
  inputValid : (validateF32Host input).isOk = true
  weightValid : (validateF32Host weight).isOk = true
  outputValid : (validateF32Host output).isOk = true
  inputElements : input.shape.elements = extent input 0 * extent input 1
  weightElements : weight.shape.elements = extent weight 0 * extent input 1
  outputElements : output.shape.elements = extent input 0 * extent weight 0

theorem linear_accepted (input weight output : FloatView)
    (passed : (linearCheck input weight output).isOk = true) :
    LinearAccepted input weight output := by
  unfold linearCheck at passed
  obtain ⟨views, passed⟩ := status_guard_ok passed
  have valid := first_failure_ok _ views
  obtain ⟨shapes, _⟩ := refusal_guard_ok rfl passed
  simp only [not_or, not_not] at shapes
  obtain ⟨inputRank, weightRank, outputRank, _, _, _, width, rows, columns⟩ := shapes
  constructor
  case inputValid => exact valid _ (by simp)
  case weightValid => exact valid _ (by simp)
  case outputValid => exact valid _ (by simp)
  case inputElements => exact matrix_elements input inputRank
  case weightElements => rw [matrix_elements weight weightRank, width]
  case outputElements => rw [matrix_elements output outputRank, rows, columns]

theorem linear_agrees (input weight output : FloatView) :
    Agrees (F := F) (linearChecked input weight output) (linearF32 input weight output) := by
  apply guarded_agrees
  intro passed memory
  have checked := linear_accepted input weight output passed
  have inputBytes := valid_bytes_lt input checked.inputValid
  have weightBytes := valid_bytes_lt weight checked.weightValid
  have outputBytes := valid_bytes_lt output checked.outputValid
  rw [checked.inputElements] at inputBytes
  rw [checked.weightElements] at weightBytes
  rw [checked.outputElements] at outputBytes
  apply linear_rows_checked
  case inputFits => omega
  case weightFits => omega
  case outputFits => omega
  case inputSize => exact checked.inputElements
  case weightSize => exact checked.weightElements
  case outputSize => exact checked.outputElements

theorem apply_rope_agrees (query key : FloatView) (positions : List UInt32) (spec : RopeSpec F) :
    Agrees (applyRopeChecked query key positions spec) (applyRopeF32 query key positions spec) := by
  intro memory
  rw [applyRopeChecked]
  split
  next failed =>
    have check : applyRopeCheck query key positions spec =
        firstFailure [validateRopeTensor query, validateRopeTensor key] := by
      rw [applyRopeCheck, if_pos failed]
    rw [applyRopeF32, guarded, check, failed]
    rfl
  next tensors =>
    have valid := first_failure_ok _ (Bool.not_eq_false _ ▸ tensors)
    obtain ⟨queryValid, elements, positive⟩ :=
      rope_tensor_ok query (valid (validateRopeTensor query) (by simp))
    have rows : extent query 0 * extent query 1 ≤ query.shape.elements := by
      rw [elements] at positive ⊢
      exact Nat.le_mul_of_pos_right _ (Nat.pos_of_mul_pos_left positive)
    have bytes := valid_bytes_lt query queryValid
    rw [Checked.bind_known (Checked.mul_some (by omega))]
    apply guarded_agrees
    intro passed memory
    have checked := rope_accepted query key positions spec passed
    have keyBytes := valid_bytes_lt key checked.keyValid
    have queryElements := checked.queryElements
    have keyElements := checked.keyElements
    rw [← checked.sameBatch, ← checked.sameTokens, ← checked.sameWidth] at keyElements
    rw [← Nat.mul_assoc] at queryElements keyElements
    have some := checked.queryPositive
    rw [checked.queryElements] at some
    have someVector := Nat.pos_of_mul_pos_left some
    apply rope_rows_checked
    case someQueryHeads => exact Nat.pos_of_mul_pos_right someVector
    case someWidth => exact Nat.pos_of_mul_pos_left someVector
    case positionCount => exact checked.positionCount
    case queryFits => omega
    case keyFits => omega
    case querySize => exact queryElements
    case keySize => exact keyElements

/-- What the check of the append has found. -/
structure AppendAccepted (key value : FloatView) (positions : List UInt32) (cache : CpuKvView) :
    Prop where
  keyValid : (validateF32Host key).isOk = true
  cacheValid : (validateF32Host cache.key).isOk = true
  sameRows : value.shape = key.shape
  cacheRank : cache.key.shape.rank = 4
  sameCaches : cache.value.shape = cache.key.shape
  sameBatch : extent key 0 = extent cache.key 0
  sameHeads : extent key 2 = extent cache.key 2
  sameWidth : extent key 3 = extent cache.key 3
  positionCount : positions.length = extent key 0 * extent key 1
  inContext : ∀ row < positions.length, (positions.getD row 0).toNat < extent cache.key 1

theorem append_accepted (key value : FloatView) (positions : List UInt32) (cache : CpuKvView)
    (passed : (appendKvCheck key value positions cache).isOk = true) :
    AppendAccepted key value positions cache := by
  unfold appendKvCheck at passed
  obtain ⟨views, passed⟩ := status_guard_ok passed
  have valid := first_failure_ok _ views
  obtain ⟨shapes, passed⟩ := refusal_guard_ok rfl passed
  simp only [not_or, not_not] at shapes
  obtain ⟨_, sameRows, cacheRank, sameCaches, sameBatch, sameHeads, sameWidth, positionCount⟩ :=
    shapes
  obtain ⟨inContext, _⟩ := refusal_guard_ok rfl passed
  constructor
  case keyValid => exact valid _ (by simp)
  case cacheValid => exact valid _ (by simp)
  case inContext =>
    intro row listed
    simp only [List.any_eq_true, not_exists, not_and, decide_eq_true_eq, not_le] at inContext
    rw [List.getD_eq_getElem?_getD, List.getElem?_eq_getElem listed, Option.getD_some]
    exact inContext _ (List.getElem_mem listed)
  all_goals assumption

omit [FloatOps F] in
/-- Keys that are not empty are appended without a stop. -/
theorem append_kv_agrees (key value : FloatView) (positions : List UInt32) (cache : CpuKvView)
    (some : 0 < key.shape.elements) :
    Agrees (F := F) (appendKvChecked key value positions cache)
      (appendKvF32 key value positions cache) := by
  intro memory
  rw [appendKvChecked]
  split
  -- a call that fails before the product is formed
  next early =>
    have failed : (appendKvCheck key value positions cache).isOk = false := by
      rw [appendKvCheck]
      rcases early with views | ranked
      · rw [if_pos views, views]
      · split
        next views => exact views
        next => rw [if_pos (.inl ranked)]; rfl
    rw [appendKvF32, guarded, if_neg (Bool.eq_false_iff.mp failed)]
  -- the product of the first two axes is a factor of the element count, which fits
  next reached =>
    simp only [not_or, not_not, Bool.not_eq_false] at reached
    obtain ⟨views, ranked⟩ := reached
    have elements := tensor_elements key ranked
    have bytes := valid_bytes_lt key (first_failure_ok _ views _ (by simp))
    rw [elements] at some bytes
    have someWidth := Nat.pos_of_mul_pos_left some
    have someRows := Nat.pos_of_mul_pos_right some
    have rows := Nat.le_mul_of_pos_right (extent key 0 * extent key 1) someWidth
    rw [Checked.bind_known (Checked.mul_some (by omega))]
    apply guarded_agrees
    intro passed memory
    have checked := append_accepted key value positions cache passed
    -- every offset of a row lies below the element counts of the views
    have cacheBytes := valid_bytes_lt cache.key checked.cacheValid
    have cacheElements := tensor_elements cache.key checked.cacheRank
    rw [← checked.sameBatch, ← checked.sameHeads, ← checked.sameWidth] at cacheElements
    apply append_rows_checked
    case someBatch => exact Nat.pos_of_mul_pos_right someRows
    case someTokens => exact Nat.pos_of_mul_pos_left someRows
    case someWidth => exact someWidth
    case positionCount => exact checked.positionCount
    case inContext =>
      intro row below
      exact checked.inContext row (checked.positionCount ▸ below)
    case sourceFits => exact bytes
    case cacheFits => omega
    case keySize => exact elements
    case valueSize => rw [spanOf, checked.sameRows, elements]
    case keyCacheSize => exact cacheElements
    case valueCacheSize => rw [spanOf, checked.sameCaches, cacheElements]

theorem attention_impl_agrees (query keyCache valueCache : FloatView) (contextLengths : List UInt32)
    (output : FloatView) (scratch : Span)
    (bounds : AttentionBounds (spanOf query) (spanOf keyCache) (spanOf valueCache) (spanOf output)
      scratch (extent query 0) (extent query 1) (extent query 2) (extent keyCache 2)
      (extent query 3) (extent keyCache 1) contextLengths) :
    Agrees (F := F) (attentionImplChecked query keyCache valueCache contextLengths output scratch)
      (attentionImpl query keyCache valueCache contextLengths output scratch.data) := by
  intro memory
  rw [attentionImplChecked, alwaysChecked, attention_rows_checked _ _ _ _ _ _ _ _ _ _ _ _ _ bounds]
  rfl

/-! ## Attention -/

/-- Four extents that make the elements of a tensor. -/
theorem heads_elements (view : FloatView) (ranked : view.shape.rank = 4) :
    view.shape.elements = extent view 0 * extent view 1 * extent view 2 * extent view 3 := by
  rw [tensor_elements view ranked, ← Nat.mul_assoc]

theorem attention_bounds {query keyCache valueCache output : FloatView}
    {contextLengths : List UInt32}
    (shaped : AttentionShaped query keyCache valueCache output contextLengths) (scratch : Span)
    (enough : extent query 0 * extent query 1 * extent query 2 * extent keyCache 1 ≤ scratch.count)
    (word : scratch.count < 2 ^ 64) :
    AttentionBounds (spanOf query) (spanOf keyCache) (spanOf valueCache) (spanOf output) scratch
      (extent query 0) (extent query 1) (extent query 2) (extent keyCache 2) (extent query 3)
      (extent keyCache 1) contextLengths := by
  have queryBytes := valid_bytes_lt query shaped.queryValid
  have keyBytes := valid_bytes_lt keyCache shaped.keyValid
  have queryElements := heads_elements query shaped.queryRank
  have keyElements := heads_elements keyCache shaped.keyRank
  rw [shaped.sameBatch, shaped.sameWidth] at keyElements
  constructor
  case someWidth => exact shaped.someWidth
  case groups => exact shaped.groups
  case contextCount => exact shaped.lengths
  case contexts => exact shaped.contexts
  case queryFits => omega
  case cacheFits => omega
  case scratchFits => exact word
  case querySize => exact queryElements
  case outputSize => rw [spanOf, shaped.sameOutput, queryElements]
  case keySize => exact keyElements
  case valueSize => rw [spanOf, shaped.sameCaches, keyElements]
  case scratchSize => exact enough

theorem queries_finite_checked (query : Span) (count : Nat) (memory : FlatMemory F)
    (inside : count ≤ query.count) :
    queriesFiniteChecked query count memory = some (queriesFinite query.data count memory) := by
  apply Checked.all_some
  intro index below
  rw [Span.read_some (by omega)]
  rfl

theorem caches_finite_checked (keyCache valueCache : Span)
    (batch maximumContext kvHeads headDim : Nat) (contextLengths : List UInt32)
    (memory : FlatMemory F) (contextCount : contextLengths.length = batch)
    (contexts : ∀ batchIndex < batch, (contextLengths.getD batchIndex 0).toNat ≤ maximumContext)
    (fits : batch * maximumContext * kvHeads * headDim < 2 ^ 64)
    (keySize : keyCache.count = batch * maximumContext * kvHeads * headDim)
    (valueSize : valueCache.count = batch * maximumContext * kvHeads * headDim) :
    cachesFiniteChecked keyCache valueCache batch maximumContext kvHeads headDim contextLengths
        memory =
      some (cachesFinite keyCache.data valueCache.data batch maximumContext kvHeads headDim
        contextLengths memory) := by
  apply Checked.all_some
  intro batchIndex inBatch
  have listed : batchIndex < contextLengths.length := contextCount ▸ inBatch
  have within := contexts batchIndex inBatch
  rw [Checked.bind_known (Checked.entry_some 0 listed)]
  apply Checked.all_some
  intro token inContext
  apply Checked.all_some
  intro head inHeads
  apply Checked.all_some
  intro dimension inside
  obtain ⟨index, inCache⟩ := cache_index inBatch (by omega : token < maximumContext) inHeads inside
    fits
  rw [Checked.bind_known index, Checked.bind_known (Span.read_some (keySize ▸ inCache))]
  rw [Span.read_some (valueSize ▸ inCache)]
  rfl

/-- The operator returns what its check returns, or attends. -/
theorem attention_f32_checked {query keyCache valueCache output : FloatView}
    {contextLengths : List UInt32} {workspace : CpuWorkspace} {memory : FlatMemory F}
    {status : Status}
    (checked : attentionCheck query keyCache valueCache contextLengths output workspace memory =
      status) :
    attentionF32 query keyCache valueCache contextLengths output workspace memory =
      if status.isOk = false then (status, memory)
      else attentionImpl query keyCache valueCache contextLengths output workspace.data memory := by
  subst checked
  rfl

theorem attention_f32_agrees (query keyCache valueCache : FloatView) (contextLengths : List UInt32)
    (output : FloatView) (workspace : CpuWorkspace) :
    Agrees (F := F) (attentionF32Checked query keyCache valueCache contextLengths output workspace)
      (attentionF32 query keyCache valueCache contextLengths output workspace) := by
  intro memory
  rw [attentionF32Checked]
  -- each early return: the check ends with the same status, before any loop runs
  by_cases failed : (validateAttentionShapes query keyCache valueCache output contextLengths).isOk
      = false
  · rw [if_pos failed]
    have check : attentionCheck query keyCache valueCache contextLengths output workspace memory =
        validateAttentionShapes query keyCache valueCache output contextLengths := by
      simp only [attentionCheck, if_pos failed]
    rw [attention_f32_checked check, if_pos failed]
  rw [if_neg failed]
  have shaped := attention_shapes_ok query keyCache valueCache output contextLengths
    (Bool.not_eq_false _ ▸ failed)
  cases computed : requiredAttentionWorkspaceFloats query keyCache with
  | error status =>
    have check : attentionCheck query keyCache valueCache contextLengths output workspace memory =
        .failure .insufficientMemory := by
      simp only [attentionCheck, if_neg failed, computed]
    rw [attention_f32_checked check]
    rfl
  | ok required =>
    dsimp only
    by_cases small : workspace.capacity < required
    · have check : attentionCheck query keyCache valueCache contextLengths output workspace memory =
          .failure .insufficientMemory := by
        simp only [attentionCheck, if_neg failed, computed, if_pos small]
      rw [if_pos small, attention_f32_checked check]
      rfl
    rw [if_neg small]
    cases counted : checkedNumel query.shape with
    | error status =>
      have check : attentionCheck query keyCache valueCache contextLengths output workspace memory =
          .failure .invalidShape := by
        simp only [attentionCheck, if_neg failed, computed, if_neg small, counted]
      rw [attention_f32_checked check]
      rfl
    | ok queryCount =>
      have exact := required_attention_ok query keyCache required computed
      have enough : required.toNat ≤ workspace.capacity.toNat := by
        rw [UInt64.lt_iff_toNat_lt] at small
        omega
      -- from here on the loops run, on spans that the shapes and the requirement bound
      have queriesRead : queriesFiniteChecked (spanOf query) queryCount.toNat memory =
          some (queriesFinite query.data queryCount.toNat memory) :=
        queries_finite_checked (spanOf query) _ memory
          (Nat.le_of_eq (checked_numel_ok _ _ counted).1)
      have bounds := attention_bounds shaped ⟨workspace.data + 0, required.toNat⟩
        (Nat.le_of_eq exact.symm) required.toNat_lt
      have cachesRead : cachesFiniteChecked (spanOf keyCache) (spanOf valueCache)
          (extent keyCache 0) (extent keyCache 1) (extent keyCache 2) (extent keyCache 3)
          contextLengths memory = some (cachesFinite keyCache.data valueCache.data
            (extent keyCache 0) (extent keyCache 1) (extent keyCache 2) (extent keyCache 3)
            contextLengths memory) := by
        rw [shaped.sameBatch, shaped.sameWidth]
        exact caches_finite_checked _ _ _ _ _ _ _ _ bounds.contextCount
          (fun batchIndex below => (bounds.contexts batchIndex below).2) bounds.cacheFits
          bounds.keySize bounds.valueSize
      dsimp only
      rw [Checked.bind_known queriesRead]
      by_cases queries : queriesFinite query.data queryCount.toNat memory = false
      · have check : attentionCheck query keyCache valueCache contextLengths output workspace memory
            = .failure .invalidArgument := by
          simp only [attentionCheck, if_neg failed, computed, if_neg small, counted, if_pos queries]
        rw [if_pos queries, attention_f32_checked check]
        rfl
      rw [if_neg queries, Checked.bind_known cachesRead]
      by_cases caches : cachesFinite keyCache.data valueCache.data (extent keyCache 0)
          (extent keyCache 1) (extent keyCache 2) (extent keyCache 3) contextLengths memory = false
      · have check : attentionCheck query keyCache valueCache contextLengths output workspace memory
            = .failure .invalidArgument := by
          simp only [attentionCheck, if_neg failed, computed, if_neg small, counted, if_neg queries,
            if_pos caches]
        rw [if_pos caches, attention_f32_checked check]
        rfl
      have check : attentionCheck query keyCache valueCache contextLengths output workspace memory
          = .success := by
        simp only [attentionCheck, if_neg failed, computed, if_neg small, counted, if_neg queries,
          if_neg caches]
      rw [if_neg caches,
        Checked.bind_known (Span.subspan_some (by rw [Nat.zero_add]; exact enough))]
      rw [attention_impl_agrees _ _ _ _ _ _ bounds memory, attention_f32_checked check]
      rfl

end

end MarketForge.Cpu
