import MarketForge.Cpu.DecoderLayer
import MarketForge.Cpu.Softmax
import MarketForge.Cpu.ViewRanges
import MarketForge.Library.Grid

/-!
# The attention operator

`attention_f32`: the checks of the shapes and of the workspace, a pass over everything the loops
will read, then the loops that the decoder layer shares.
-/
namespace MarketForge.Cpu

open Library FloatOps

section

variable {F : Type} [FloatOps F]

/-! ## The operator -/

def validateAttentionShapes (query keyCache valueCache output : FloatView)
    (contextLengths : List UInt32) : Status :=
  let views := firstFailure [validateF32Host query, validateF32Host keyCache,
    validateF32Host valueCache, validateF32Host output]
  if views.isOk = false then views
  else if query.shape.rank ≠ 4 ∨ keyCache.shape.rank ≠ 4 ∨ valueCache.shape ≠ keyCache.shape
      ∨ output.shape ≠ query.shape then
    .failure .invalidShape
  else
    let batch := extent query 0
    let tokens := extent query 1
    let queryHeads := extent query 2
    let headDim := extent query 3
    let maximumContext := extent keyCache 1
    let kvHeads := extent keyCache 2
    if batch = 0 ∨ tokens = 0 ∨ queryHeads = 0 ∨ headDim = 0 ∨ maximumContext = 0 ∨ kvHeads = 0
        ∨ extent keyCache 0 ≠ batch ∨ extent keyCache 3 ≠ headDim ∨ queryHeads % kvHeads ≠ 0
        ∨ contextLengths.length ≠ batch then
      .failure .invalidShape
    else if contextLengths.any fun context =>
        decide (context.toNat < tokens) || decide (maximumContext < context.toNat) then
      .failure .invalidArgument
    else firstFailure [validateNoOverlap query output, validateNoOverlap keyCache output,
      validateNoOverlap valueCache output]

def requiredAttentionWorkspaceFloats (query keyCache : FloatView) : Result UInt64 :=
  if query.shape.rank ≠ 4 ∨ keyCache.shape.rank ≠ 4 then .error (.failure .invalidShape)
  else product [UInt64.ofNat (extent query 0), UInt64.ofNat (extent query 1),
    UInt64.ofNat (extent query 2), UInt64.ofNat (extent keyCache 1)]

/-- The offset of a vector in a tensor of four extents, in elements. -/
def headOffset (tokens heads headDim batchIndex token head : Nat) : Nat :=
  ((batchIndex * tokens + token) * heads + head) * headDim

/-- The pass over the queries. -/
def queriesFinite (query count : Nat) (memory : FlatMemory F) : Bool :=
  (List.range count).all fun index => isFinite (memory (query + index))

/-- The pass over the keys and values of each sequence, up to its context. -/
def cachesFinite (keyCache valueCache batch maximumContext kvHeads headDim : Nat)
    (contextLengths : List UInt32) (memory : FlatMemory F) : Bool :=
  (List.range batch).all fun batchIndex =>
    (List.range (contextLengths.getD batchIndex 0).toNat).all fun token =>
      (List.range kvHeads).all fun head =>
        (List.range headDim).all fun dimension =>
          let index := headOffset maximumContext kvHeads headDim batchIndex token head + dimension
          isFinite (memory (keyCache + index)) && isFinite (memory (valueCache + index))

def attentionCheck (query keyCache valueCache : FloatView) (contextLengths : List UInt32)
    (output : FloatView) (workspace : CpuWorkspace) (memory : FlatMemory F) : Status :=
  let validation := validateAttentionShapes query keyCache valueCache output contextLengths
  if validation.isOk = false then validation
  else
    match requiredAttentionWorkspaceFloats query keyCache with
    | .error _ => .failure .insufficientMemory
    | .ok required =>
      if workspace.capacity < required then .failure .insufficientMemory
      else
        match checkedNumel query.shape with
        | .error _ => .failure .invalidShape
        | .ok queryCount =>
          if queriesFinite query.data queryCount.toNat memory = false then
            .failure .invalidArgument
          else if cachesFinite keyCache.data valueCache.data (extent keyCache 0) (extent keyCache 1)
              (extent keyCache 2) (extent keyCache 3) contextLengths memory = false then
            .failure .invalidArgument
          else .success

def attentionF32 (query keyCache valueCache : FloatView) (contextLengths : List UInt32)
    (output : FloatView) (workspace : CpuWorkspace) : Operation F := fun memory =>
  let checked := attentionCheck query keyCache valueCache contextLengths output workspace memory
  if checked.isOk = false then (checked, memory)
  else attentionImpl query keyCache valueCache contextLengths output workspace.data memory

/-! ## What the checks give -/

/-- What the check of the shapes has found. -/
structure AttentionShaped (query keyCache valueCache output : FloatView)
    (contextLengths : List UInt32) : Prop where
  queryValid : (validateF32Host query).isOk = true
  keyValid : (validateF32Host keyCache).isOk = true
  valueValid : (validateF32Host valueCache).isOk = true
  outputValid : (validateF32Host output).isOk = true
  queryRank : query.shape.rank = 4
  keyRank : keyCache.shape.rank = 4
  sameCaches : valueCache.shape = keyCache.shape
  sameOutput : output.shape = query.shape
  someBatch : 0 < extent query 0
  someTokens : 0 < extent query 1
  someHeads : 0 < extent query 2
  someWidth : 0 < extent query 3
  someContext : 0 < extent keyCache 1
  someKvHeads : 0 < extent keyCache 2
  sameBatch : extent keyCache 0 = extent query 0
  sameWidth : extent keyCache 3 = extent query 3
  groups : extent query 2 % extent keyCache 2 = 0
  lengths : contextLengths.length = extent query 0
  contexts : ∀ batchIndex < extent query 0,
    extent query 1 ≤ (contextLengths.getD batchIndex 0).toNat ∧
      (contextLengths.getD batchIndex 0).toNat ≤ extent keyCache 1
  queryApart : ¬Overlap query output
  keyApart : ¬Overlap keyCache output
  valueApart : ¬Overlap valueCache output

theorem attention_shapes_ok (query keyCache valueCache output : FloatView)
    (contextLengths : List UInt32)
    (passed : (validateAttentionShapes query keyCache valueCache output contextLengths).isOk
      = true) : AttentionShaped query keyCache valueCache output contextLengths := by
  unfold validateAttentionShapes at passed
  obtain ⟨views, passed⟩ := status_guard_ok passed
  have valid := first_failure_ok _ views
  have queryValid := valid (validateF32Host query) (by simp)
  have keyValid := valid (validateF32Host keyCache) (by simp)
  have valueValid := valid (validateF32Host valueCache) (by simp)
  have outputValid := valid (validateF32Host output) (by simp)
  obtain ⟨ranks, passed⟩ := refusal_guard_ok rfl passed
  simp only [not_or, not_not] at ranks
  obtain ⟨queryRank, keyRank, sameCaches, sameOutput⟩ := ranks
  obtain ⟨shapes, passed⟩ := refusal_guard_ok rfl passed
  simp only [not_or, not_not] at shapes
  obtain ⟨someBatch, someTokens, someHeads, someWidth, someContext, someKvHeads, sameBatch,
    sameWidth, groups, lengths⟩ := shapes
  obtain ⟨contexts, passed⟩ := refusal_guard_ok rfl passed
  have apart := first_failure_ok _ passed
  constructor
  case queryApart =>
    exact no_overlap_ok query output queryValid outputValid (apart _ (by simp))
  case keyApart =>
    exact no_overlap_ok keyCache output keyValid outputValid (apart _ (by simp))
  case valueApart =>
    exact no_overlap_ok valueCache output valueValid outputValid (apart _ (by simp))
  case contexts =>
    intro batchIndex below
    have listed : batchIndex < contextLengths.length := by omega
    simp only [List.any_eq_true, not_exists, not_and, Bool.or_eq_true, decide_eq_true_eq, not_or,
      not_lt] at contexts
    rw [List.getD_eq_getElem?_getD, List.getElem?_eq_getElem listed, Option.getD_some]
    exact contexts _ (List.getElem_mem listed)
  all_goals first | assumption | exact Nat.pos_of_ne_zero (by assumption)

/-- A call that passes has the shapes, and a workspace for the scores of all its cells. -/
theorem attention_check_ok {query keyCache valueCache output : FloatView}
    {contextLengths : List UInt32} {workspace : CpuWorkspace} {memory : FlatMemory F}
    (passed : (attentionCheck query keyCache valueCache contextLengths output workspace
      memory).isOk = true) :
    (validateAttentionShapes query keyCache valueCache output contextLengths).isOk = true ∧
      ∃ required, requiredAttentionWorkspaceFloats query keyCache = .ok required ∧
        required.toNat ≤ workspace.capacity.toNat := by
  unfold attentionCheck at passed
  obtain ⟨shapes, passed⟩ := status_guard_ok passed
  refine ⟨shapes, ?_⟩
  split at passed
  next => simp at passed
  next required computed =>
    obtain ⟨enough, _⟩ := refusal_guard_ok rfl passed
    rw [UInt64.lt_iff_toNat_lt] at enough
    exact ⟨required, computed, by omega⟩

omit [FloatOps F] in
theorem required_attention_ok (query keyCache : FloatView) (required : UInt64)
    (computed : requiredAttentionWorkspaceFloats query keyCache = .ok required) :
    required.toNat =
      extent query 0 * extent query 1 * extent query 2 * extent keyCache 1 := by
  unfold requiredAttentionWorkspaceFloats at computed
  split at computed
  next => cases computed
  next =>
    have word : ∀ view axis, (UInt64.ofNat (extent view axis)).toNat = extent view axis :=
      fun view axis => Nat.mod_eq_of_lt (UInt64.toNat_lt _)
    have exact := (checked_product _ _ _ computed).1
    simpa [word, Nat.mul_assoc] using exact

/-! ## The cells of the loops -/

/-- The loops over the sequences, the tokens and the heads are one loop. -/
theorem attention_rows_flat (query keyCache valueCache output scratch batch tokens queryHeads
    kvHeads headDim maximumContext : Nat) (contextLengths : List UInt32) (memory : FlatMemory F) :
    attentionRows query keyCache valueCache output scratch batch tokens queryHeads kvHeads headDim
        maximumContext contextLengths memory =
      forRange (batch * tokens * queryHeads) (fun cell =>
        let batchIndex := cell / queryHeads / tokens
        let token := cell / queryHeads % tokens
        let kvHead := cell % queryHeads / (queryHeads / kvHeads)
        attentionHead (attentionScale headDim) (query + cell * headDim)
          (scratch + cell * maximumContext) (output + cell * headDim)
          (fun keyToken => keyCache +
            headOffset maximumContext kvHeads headDim batchIndex keyToken kvHead)
          (fun keyToken => valueCache +
            headOffset maximumContext kvHeads headDim batchIndex keyToken kvHead)
          headDim ((contextLengths.getD batchIndex 0).toNat - tokens + token + 1)) memory := by
  unfold attentionRows
  dsimp only
  rw [for_range_pairs batch tokens fun batchIndex token => forRange queryHeads fun queryHead =>
    attentionHead (attentionScale headDim)
      (query + ((batchIndex * tokens + token) * queryHeads + queryHead) * headDim)
      (scratch + ((batchIndex * tokens + token) * queryHeads + queryHead) * maximumContext)
      (output + ((batchIndex * tokens + token) * queryHeads + queryHead) * headDim)
      (fun keyToken => keyCache + ((batchIndex * maximumContext + keyToken) * kvHeads +
        queryHead / (queryHeads / kvHeads)) * headDim)
      (fun keyToken => valueCache + ((batchIndex * maximumContext + keyToken) * kvHeads +
        queryHead / (queryHeads / kvHeads)) * headDim)
      headDim ((contextLengths.getD batchIndex 0).toNat - tokens + token + 1), for_range_pairs]
  simp only [Nat.div_add_mod']
  rfl

/-- Every cell attends to the keys and values of its sequence and of its group. -/
theorem attention_cells_spec (query keyCache valueCache output scratch batch tokens queryHeads
    kvHeads headDim maximumContext : Nat) (contextLengths : List UInt32) (memory : FlatMemory F)
    (contexts : ∀ batchIndex < batch, tokens ≤ (contextLengths.getD batchIndex 0).toNat ∧
      (contextLengths.getD batchIndex 0).toNat ≤ maximumContext)
    (groups : queryHeads % kvHeads = 0)
    (apart : AttentionApart query keyCache valueCache output scratch (batch * tokens * queryHeads)
      headDim maximumContext (batch * maximumContext * (kvHeads * headDim)))
    (cell : Nat) (below : cell < batch * tokens * queryHeads) :
    let batchIndex := cell / queryHeads / tokens
    let kvHead := cell % queryHeads / (queryHeads / kvHeads)
    Stores (attentionRows query keyCache valueCache output scratch batch tokens queryHeads kvHeads
        headDim maximumContext contextLengths memory) (output + cell * headDim) headDim
      (attentionVector (attentionScale headDim) headDim
        ((contextLengths.getD batchIndex 0).toNat - tokens + cell / queryHeads % tokens + 1)
        (fun dimension => memory (query + cell * headDim + dimension))
        (fun keyToken dimension => memory (keyCache +
          headOffset maximumContext kvHeads headDim batchIndex keyToken kvHead + dimension))
        (fun keyToken dimension => memory (valueCache +
          headOffset maximumContext kvHeads headDim batchIndex keyToken kvHead + dimension))) := by
  rw [attention_rows_flat]
  have stored := (paired_turns_spec scratch maximumContext output headDim
    (batch * tokens * queryHeads) (fun cell =>
      attentionHead (attentionScale headDim) (query + cell * headDim)
        (scratch + cell * maximumContext) (output + cell * headDim)
        (fun keyToken => keyCache + headOffset maximumContext kvHeads headDim
          (cell / queryHeads / tokens) keyToken (cell % queryHeads / (queryHeads / kvHeads)))
        (fun keyToken => valueCache + headOffset maximumContext kvHeads headDim
          (cell / queryHeads / tokens) keyToken (cell % queryHeads / (queryHeads / kvHeads)))
        headDim ((contextLengths.getD (cell / queryHeads / tokens) 0).toNat - tokens
          + cell / queryHeads % tokens + 1)) (fun cell after =>
      Stores after (output + cell * headDim) headDim
        (attentionVector (attentionScale headDim) headDim
          ((contextLengths.getD (cell / queryHeads / tokens) 0).toNat - tokens
            + cell / queryHeads % tokens + 1)
          (fun dimension => memory (query + cell * headDim + dimension))
          (fun keyToken dimension => memory (keyCache + headOffset maximumContext kvHeads headDim
            (cell / queryHeads / tokens) keyToken (cell % queryHeads / (queryHeads / kvHeads))
              + dimension))
          (fun keyToken dimension => memory (valueCache + headOffset maximumContext kvHeads headDim
            (cell / queryHeads / tokens) keyToken (cell % queryHeads / (queryHeads / kvHeads))
              + dimension)))) memory apart.scratchOutput
    (fun cell _ before after same => Stores.stable before after _ _ _
      fun address inside => same address (.inr inside))
    (by
      intro cell below current same
      have someHeads : 0 < queryHeads := Nat.pos_of_ne_zero fun none => by simp [none] at below
      have row : cell / queryHeads < batch * tokens :=
        Nat.div_lt_of_lt_mul (Nat.mul_comm _ _ ▸ below)
      have someTokens : 0 < tokens := Nat.pos_of_ne_zero fun none => by simp [none] at row
      have batchIndex : cell / queryHeads / tokens < batch :=
        Nat.div_lt_of_lt_mul (Nat.mul_comm _ _ ▸ row)
      have token := Nat.mod_lt (cell / queryHeads) someTokens
      have head := Nat.mod_lt cell someHeads
      obtain ⟨reaches, within⟩ := contexts _ batchIndex
      -- the rows are named by what the memory before the loops holds
      refine attention_turn_spec query keyCache valueCache output scratch _ headDim maximumContext _
        cell _ _ _ _ _ memory current (by omega) apart below (fun keyToken valid => ?_) same
        (fun _ _ => rfl) (fun _ _ _ _ => rfl) (fun _ _ _ _ => rfl)
      exact head_last (batch * maximumContext) kvHeads headDim _ _
        (Grid.cell_lt batchIndex (by omega)) (group_below queryHeads kvHeads _ groups head))).1
  exact stored cell below

end

end MarketForge.Cpu
