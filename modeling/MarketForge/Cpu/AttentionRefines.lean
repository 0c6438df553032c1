import MarketForge.Cpu.Attention
import MarketForge.Cpu.Binary32
import MarketForge.Cpu.InPlace

/-!
# Attention and its specification

What an accepted call of `attention_f32` leaves for one query head of one token: the values of its
group, weighted by the softmax of the scaled scores of the keys up to the token's own position. The
softmax is the one of `softmax_f32`, which accepts the row of the scores when they are finite.
-/
namespace MarketForge.Cpu

open Library FloatOps

section

variable {F : Type} [FloatOps F]

/-! ## Accepted calls -/

/-- The floats of the workspace belong to no tensor of the call. -/
structure WorkspaceSeparate (query keyCache valueCache output : FloatView)
    (workspace : CpuWorkspace) : Prop where
  query : ¬Overlap query workspace.view
  keys : ¬Overlap keyCache workspace.view
  values : ¬Overlap valueCache workspace.view
  output : ¬Overlap output workspace.view

variable (F) in
/-- An accepted call of attention, with a workspace of its own. -/
structure AttentionCall where
  query : FloatView
  keyCache : FloatView
  valueCache : FloatView
  contextLengths : List UInt32
  output : FloatView
  workspace : CpuWorkspace
  memory : FlatMemory F
  accepted : (attentionF32 query keyCache valueCache contextLengths output workspace
    memory).1.isOk = true
  separate : WorkspaceSeparate query keyCache valueCache output workspace

namespace AttentionCall

variable (call : AttentionCall F)

def batch : Nat := extent call.query 0
def tokens : Nat := extent call.query 1
def queryHeads : Nat := extent call.query 2
def headDim : Nat := extent call.query 3
def maximumContext : Nat := extent call.keyCache 1
def kvHeads : Nat := extent call.keyCache 2
def groups : Nat := call.queryHeads / call.kvHeads

def result : FlatMemory F :=
  (attentionF32 call.query call.keyCache call.valueCache call.contextLengths call.output
    call.workspace call.memory).2

def context (batchIndex : Nat) : Nat := (call.contextLengths.getD batchIndex 0).toNat

/-- The keys `0..context - tokens + token`. -/
def validKeys (batchIndex token : Nat) : Nat := call.context batchIndex - call.tokens + token + 1

def queryVector (batchIndex token head dimension : Nat) : F :=
  call.memory (call.query.data
    + headOffset call.tokens call.queryHeads call.headDim batchIndex token head + dimension)

def keyVector (batchIndex kvHead keyToken dimension : Nat) : F :=
  call.memory (call.keyCache.data
    + headOffset call.maximumContext call.kvHeads call.headDim batchIndex keyToken kvHead
    + dimension)

def valueVector (batchIndex kvHead keyToken dimension : Nat) : F :=
  call.memory (call.valueCache.data
    + headOffset call.maximumContext call.kvHeads call.headDim batchIndex keyToken kvHead
    + dimension)

def outputVector (batchIndex token head dimension : Nat) : F :=
  call.result (call.output.data
    + headOffset call.tokens call.queryHeads call.headDim batchIndex token head + dimension)

/-- The scaled dot product of a query and a key of its group. -/
def score (batchIndex token head keyToken : Nat) : F :=
  attentionScore (attentionScale call.headDim) call.headDim
    (call.queryVector batchIndex token head)
    (call.keyVector batchIndex (head / call.groups) keyToken)

end AttentionCall

/-- The sum of so many vectors in order, each with its weight. -/
def weightedSum (count : Nat) (weights : Nat → F) (vectors : Nat → Nat → F) : Nat → F :=
  fun dimension => forRange count (fun index sum =>
    sum + weights index * vectors index dimension) zero

theorem weighted_sum_congr (count : Nat) (weights other : Nat → F) (vectors others : Nat → Nat → F)
    (dimension : Nat) (sameWeights : ∀ index < count, weights index = other index)
    (sameVectors : ∀ index < count, vectors index dimension = others index dimension) :
    weightedSum count weights vectors dimension = weightedSum count other others dimension := by
  apply for_range_congr
  intro index below sum
  rw [sameWeights index below, sameVectors index below]

/-! ## What a call leaves -/

namespace AttentionCall

variable (call : AttentionCall F)

theorem checked : (attentionCheck call.query call.keyCache call.valueCache call.contextLengths
    call.output call.workspace call.memory).isOk = true := by
  have accepted := call.accepted
  unfold attentionF32 at accepted
  dsimp only at accepted
  split at accepted
  next failed => rw [failed] at accepted; cases accepted
  next passed => exact Bool.not_eq_false _ ▸ passed

theorem result_eq : call.result = attentionRows call.query.data call.keyCache.data
    call.valueCache.data call.output.data call.workspace.data call.batch call.tokens
    call.queryHeads call.kvHeads call.headDim call.maximumContext call.contextLengths
    call.memory := by
  rw [result, attentionF32, if_neg (by rw [call.checked]; decide), attentionImpl]
  rfl

theorem shaped : AttentionShaped call.query call.keyCache call.valueCache call.output
    call.contextLengths :=
  attention_shapes_ok _ _ _ _ _ (attention_check_ok call.checked).1

/-- The scratch of all cells fits the workspace. -/
theorem scratch_fits : call.batch * call.tokens * call.queryHeads * call.maximumContext ≤
    call.workspace.capacity.toNat := by
  obtain ⟨_, required, computed, enough⟩ := attention_check_ok call.checked
  rwa [required_attention_ok _ _ _ computed] at enough

theorem apart : AttentionApart call.query.data call.keyCache.data call.valueCache.data
    call.output.data call.workspace.data (call.batch * call.tokens * call.queryHeads) call.headDim
    call.maximumContext (call.batch * call.maximumContext * (call.kvHeads * call.headDim)) := by
  have shaped := call.shaped
  have fits := call.scratch_fits
  have someCells : 0 < call.batch * call.tokens * call.queryHeads :=
    Nat.mul_pos (Nat.mul_pos shaped.someBatch shaped.someTokens) shaped.someHeads
  have someScratch : 0 < call.batch * call.tokens * call.queryHeads * call.maximumContext :=
    Nat.mul_pos someCells shaped.someContext
  have queryElements : call.query.shape.elements =
      call.batch * call.tokens * call.queryHeads * call.headDim :=
    (tensor_elements call.query shaped.queryRank).trans (Nat.mul_assoc _ _ _).symm
  have outputElements : call.output.shape.elements =
      call.batch * call.tokens * call.queryHeads * call.headDim := by
    rw [shaped.sameOutput, queryElements]
  have keyElements : call.keyCache.shape.elements =
      call.batch * call.maximumContext * (call.kvHeads * call.headDim) := by
    rw [tensor_elements call.keyCache shaped.keyRank, shaped.sameBatch, shaped.sameWidth]
    rfl
  have valueElements : call.valueCache.shape.elements =
      call.batch * call.maximumContext * (call.kvHeads * call.headDim) := by
    rw [shaped.sameCaches, keyElements]
  have workspaceElements : call.workspace.view.shape.elements = call.workspace.capacity.toNat := by
    rw [CpuWorkspace.view, elements_make _ _ (by simp)]
    simp
  have someQuery : 0 < call.query.shape.elements := by
    rw [queryElements]
    exact Nat.mul_pos someCells shaped.someWidth
  have someKeys : 0 < call.keyCache.shape.elements := by
    rw [keyElements]
    exact Nat.mul_pos (Nat.mul_pos shaped.someBatch shaped.someContext)
      (Nat.mul_pos shaped.someKvHeads shaped.someWidth)
  -- tensors that share no float with the workspace lie apart from the scratch in it
  have offScratch : ∀ tensor : FloatView, 0 < tensor.shape.elements →
      ¬Overlap tensor call.workspace.view → Apart tensor.data tensor.shape.elements
        call.workspace.data
        (call.batch * call.tokens * call.queryHeads * call.maximumContext) := by
    intro tensor some separate
    have apart := apart_of_no_overlap tensor call.workspace.view separate some (by omega)
    rw [workspaceElements] at apart
    unfold Apart at apart ⊢
    rw [show call.workspace.view.data = call.workspace.data from rfl] at apart
    omega
  have queryOff := offScratch call.query someQuery call.separate.query
  have keysOff := offScratch call.keyCache someKeys call.separate.keys
  have valuesOff := offScratch call.valueCache (by omega) call.separate.values
  have outputOff := offScratch call.output (by omega) call.separate.output
  have queryOutput := apart_of_no_overlap _ _ shaped.queryApart someQuery (by omega)
  have keysOutput := apart_of_no_overlap _ _ shaped.keyApart someKeys (by omega)
  have valuesOutput := apart_of_no_overlap _ _ shaped.valueApart (by omega) (by omega)
  rw [queryElements] at queryOff queryOutput
  rw [keyElements] at keysOff keysOutput
  rw [valueElements] at valuesOff valuesOutput
  rw [outputElements] at outputOff queryOutput keysOutput valuesOutput
  exact ⟨outputOff.symm, queryOff, queryOutput, keysOff, keysOutput, valuesOff, valuesOutput⟩

/-- The output of one head, with the softmax as a row of its own. -/
theorem output_vector (batchIndex token head dimension : Nat) (inBatch : batchIndex < call.batch)
    (inTokens : token < call.tokens) (inHeads : head < call.queryHeads)
    (inside : dimension < call.headDim) :
    call.outputVector batchIndex token head dimension =
      weightedSum (call.validKeys batchIndex token)
        (softmaxRow (call.validKeys batchIndex token) (call.score batchIndex token head))
        (call.valueVector batchIndex (head / call.groups)) dimension := by
  have shaped := call.shaped
  have row : batchIndex * call.tokens + token < call.batch * call.tokens :=
    Grid.cell_lt inBatch inTokens
  have cell : (batchIndex * call.tokens + token) * call.queryHeads + head <
      call.batch * call.tokens * call.queryHeads := Grid.cell_lt row inHeads
  have stored := attention_cells_spec call.query.data call.keyCache.data call.valueCache.data
    call.output.data call.workspace.data call.batch call.tokens call.queryHeads call.kvHeads
    call.headDim call.maximumContext call.contextLengths call.memory shaped.contexts shaped.groups
    call.apart _ cell dimension inside
  have cellRow : ((batchIndex * call.tokens + token) * call.queryHeads + head) / call.queryHeads =
      batchIndex * call.tokens + token := Grid.cell_div inHeads
  have cellHead : ((batchIndex * call.tokens + token) * call.queryHeads + head) % call.queryHeads =
      head := Grid.cell_mod inHeads
  have rowBatch : (batchIndex * call.tokens + token) / call.tokens = batchIndex :=
    Grid.cell_div inTokens
  have rowToken : (batchIndex * call.tokens + token) % call.tokens = token :=
    Grid.cell_mod inTokens
  rw [← call.result_eq, cellRow, cellHead, rowBatch, rowToken] at stored
  exact stored

end AttentionCall

theorem attention_score_congr (scale : F) (headDim : Nat) (query otherQuery key otherKey : Nat → F)
    (sameQuery : ∀ dimension < headDim, query dimension = otherQuery dimension)
    (sameKey : ∀ dimension < headDim, key dimension = otherKey dimension) :
    attentionScore scale headDim query key = attentionScore scale headDim otherQuery otherKey := by
  unfold attentionScore
  congr 1
  apply for_range_congr
  intro dimension inside dot
  rw [sameQuery dimension inside, sameKey dimension inside]

/-! ## The softmax of one row -/

theorem softmax_single_row (row weights : FloatView) (length : UInt32)
    (viewed : (softmaxViewsCheck row [length] weights).isOk = true) : extent row 0 = 1 := by
  unfold softmaxViewsCheck at viewed
  dsimp only at viewed
  split at viewed
  next failed => rw [failed] at viewed; cases viewed
  next =>
    split at viewed
    next => simp at viewed
    next shapes =>
      simp only [not_or, not_not] at shapes
      exact shapes.2.2.2.2.symm

/-- The check of a row by itself is the finiteness of its valid part. -/
theorem softmax_row_accepted (row weights : FloatView) (length : UInt32) (store : FlatMemory F)
    (some : 0 < length.toNat) (fits : length.toNat ≤ extent row 1)
    (viewed : (softmaxViewsCheck row [length] weights).isOk = true) :
    (softmaxF32 row [length] weights store).1.isOk = true ↔
      ∀ column < length.toNat, isFinite (store (row.data + column)) = true := by
  have single := softmax_single_row row weights length viewed
  have checked : softmaxCheck row [length] weights store =
      softmaxRowsCheck row.data (extent row 0) (extent row 1) [length] store := by
    rw [softmaxCheck, if_neg (by rw [viewed]; decide)]
  have rows := softmax_rows_check_iff row.data (extent row 0) (extent row 1) [length] store
  rw [← checked, single] at rows
  constructor
  · intro accepted
    have finite := (rows.mp (guarded_ok _ _ _ accepted).1 0 Nat.one_pos).2.2
    simpa using finite
  · intro finite
    rw [softmaxF32, guarded_succeeds]
    · rfl
    · apply rows.mpr
      intro index first
      obtain rfl : index = 0 := by omega
      exact ⟨by simpa using some, by simpa using fits, by simpa using finite⟩

theorem softmax_row_finite (row weights : FloatView) (length : UInt32) (store : FlatMemory F)
    (accepted : (softmaxF32 row [length] weights store).1.isOk = true) :
    ∀ column < length.toNat, isFinite (store (row.data + column)) = true := by
  have passed := (guarded_ok _ _ _ accepted).1
  have rows := (softmax_check_ok row [length] weights store passed).rows
  unfold softmaxCheck at passed
  have single := softmax_single_row row weights length (status_guard_ok passed).1
  simpa using (rows 0 (by omega)).2.2

/-- What an accepted row becomes. -/
theorem softmax_row_result (row weights : FloatView) (length : UInt32) (store : FlatMemory F)
    (score : Nat → F) (fits : length.toNat ≤ extent row 1)
    (viewed : (softmaxViewsCheck row [length] weights).isOk = true)
    (stored : ∀ column < length.toNat, store (row.data + column) = score column)
    (accepted : (softmaxF32 row [length] weights store).1.isOk = true) :
    ∀ column < length.toNat,
      (softmaxF32 row [length] weights store).2 (weights.data + column) =
        softmaxRow length.toNat score column := by
  intro column below
  have checked := softmax_check_ok row [length] weights store (guarded_ok _ _ _ accepted).1
  have inside : column < row.shape.elements := by
    rw [checked.elements, softmax_single_row row weights length viewed, Nat.one_mul]
    omega
  have result := softmax_f32_result row [length] weights store accepted column inside
  rw [Nat.div_eq_of_lt (by omega), Nat.mod_eq_of_lt (by omega),
    Nat.zero_mul, Nat.add_zero] at result
  rw [result]
  show maskedRow length.toNat (fun column => store (row.data + column)) column = _
  rw [maskedRow, if_pos below]
  exact softmax_row_congr _ _ _ stored column below

/-! ## The specification -/

/-- Calls whose tensors have the same shapes, up to the number of heads in the caches. -/
structure AlignedCalls (call other : AttentionCall F) : Prop where
  query : other.query.shape = call.query.shape
  contexts : other.contextLengths = call.contextLengths
  maximumContext : other.maximumContext = call.maximumContext

namespace AlignedCalls

variable {call other : AttentionCall F} (aligned : AlignedCalls call other)

include aligned

theorem tokens : other.tokens = call.tokens := by
  rw [AttentionCall.tokens, AttentionCall.tokens, extent, aligned.query, extent]

theorem headDim : other.headDim = call.headDim := by
  rw [AttentionCall.headDim, AttentionCall.headDim, extent, aligned.query, extent]

theorem queryHeads : other.queryHeads = call.queryHeads := by
  rw [AttentionCall.queryHeads, AttentionCall.queryHeads, extent, aligned.query, extent]

theorem batch : other.batch = call.batch := by
  rw [AttentionCall.batch, AttentionCall.batch, extent, aligned.query, extent]

theorem validKeys (batchIndex token : Nat) :
    other.validKeys batchIndex token = call.validKeys batchIndex token := by
  rw [AttentionCall.validKeys, AttentionCall.validKeys, AttentionCall.context,
    AttentionCall.context, aligned.contexts, aligned.tokens]

end AlignedCalls

/-- Heads with the same query that read the same keys and values have the same output. -/
theorem output_vector_congr (call other : AttentionCall F) (aligned : AlignedCalls call other)
    (batchIndex token head : Nat) (inBatch : batchIndex < call.batch)
    (inTokens : token < call.tokens) (inHeads : head < call.queryHeads)
    (sameQuery : ∀ dimension < call.headDim,
      other.queryVector batchIndex token head dimension =
        call.queryVector batchIndex token head dimension)
    (sameCaches : ∀ keyToken < call.validKeys batchIndex token, ∀ dimension < call.headDim,
      other.keyVector batchIndex (head / other.groups) keyToken dimension =
          call.keyVector batchIndex (head / call.groups) keyToken dimension ∧
        other.valueVector batchIndex (head / other.groups) keyToken dimension =
          call.valueVector batchIndex (head / call.groups) keyToken dimension) :
    ∀ dimension < call.headDim, other.outputVector batchIndex token head dimension =
      call.outputVector batchIndex token head dimension := by
  intro dimension inside
  rw [other.output_vector batchIndex token head dimension (by rwa [aligned.batch])
      (by rwa [aligned.tokens]) (by rwa [aligned.queryHeads]) (by rwa [aligned.headDim]),
    call.output_vector batchIndex token head dimension inBatch inTokens inHeads inside,
    aligned.validKeys]
  have scores : ∀ keyToken < call.validKeys batchIndex token,
      other.score batchIndex token head keyToken = call.score batchIndex token head keyToken := by
    intro keyToken valid
    rw [AttentionCall.score, AttentionCall.score, aligned.headDim]
    exact attention_score_congr _ _ _ _ _ _ sameQuery fun column inRow =>
      (sameCaches keyToken valid column inRow).1
  exact weighted_sum_congr _ _ _ _ _ _ (softmax_row_congr _ _ _ scores)
    fun keyToken valid => (sameCaches keyToken valid dimension inside).2

/-- The valid keys are within the cache, and their number is a word of the lengths. -/
theorem AttentionCall.valid_keys_le (call : AttentionCall F) (batchIndex token : Nat)
    (inBatch : batchIndex < call.batch) (inTokens : token < call.tokens) :
    call.validKeys batchIndex token ≤ call.context batchIndex ∧
      call.context batchIndex ≤ call.maximumContext := by
  obtain ⟨reaches, fits⟩ := call.shaped.contexts batchIndex inBatch
  change call.tokens ≤ call.context batchIndex at reaches
  rw [AttentionCall.validKeys]
  exact ⟨by omega, fits⟩

/-- On the scores of the valid keys of a head, `softmax_f32` is accepted if and only if they are
finite, and then its output is their softmax. -/
theorem AttentionCall.softmax_of_scores (call : AttentionCall F) (batchIndex token head : Nat)
    (inBatch : batchIndex < call.batch) (inTokens : token < call.tokens)
    (row weights : FloatView) (store : FlatMemory F)
    (viewed : (softmaxViewsCheck row [UInt32.ofNat (call.validKeys batchIndex token)]
      weights).isOk = true)
    (columns : extent row 1 = call.maximumContext)
    (stored : ∀ keyToken < call.validKeys batchIndex token,
      store (row.data + keyToken) = call.score batchIndex token head keyToken) :
    let count := call.validKeys batchIndex token
    let run := softmaxF32 row [UInt32.ofNat count] weights store
    (run.1.isOk = true ↔
      ∀ keyToken < count, isFinite (call.score batchIndex token head keyToken) = true) ∧
    (run.1.isOk = true → ∀ keyToken < count, run.2 (weights.data + keyToken) =
      softmaxRow count (call.score batchIndex token head) keyToken) := by
  intro count run
  obtain ⟨inContext, inCache⟩ := call.valid_keys_le batchIndex token inBatch inTokens
  -- the number of the valid keys is passed to the softmax as a word, which does not wrap it
  have word : (UInt32.ofNat count).toNat = count := by
    apply Nat.mod_eq_of_lt
    exact Nat.lt_of_le_of_lt inContext (UInt32.toNat_lt _)
  have fits : (UInt32.ofNat count).toNat ≤ extent row 1 := by
    rw [word, columns]
    exact Nat.le_trans inContext inCache
  have decided := softmax_row_accepted row weights (UInt32.ofNat count) store
    (by rw [word]; exact Nat.succ_pos _) fits viewed
  rw [word] at decided
  constructor
  · rw [decided]
    constructor
    · intro finite keyToken valid
      rw [← stored keyToken valid]
      exact finite keyToken valid
    · intro finite keyToken valid
      rw [stored keyToken valid]
      exact finite keyToken valid
  · intro accepted
    have result := softmax_row_result row weights (UInt32.ofNat count) store
      (call.score batchIndex token head) fits viewed (by rwa [word]) accepted
    rwa [word] at result

/-- Attention refines its specification. The output of a head is the sum of the values of its
group, with the softmax of the scaled scores of the valid keys as the weights. `softmax_f32` on
the row of the scores is accepted if and only if they are finite, and then its output is these
weights. A head depends on its query and on the valid keys and values of its group only, and the
call on caches in which every head is repeated for its group leaves the same output. -/
theorem attention_refines (call : AttentionCall F) :
    (∀ batchIndex < call.batch, ∀ token < call.tokens, ∀ head < call.queryHeads,
      let count := call.validKeys batchIndex token
      let values := call.valueVector batchIndex (head / call.groups)
      (∀ dimension < call.headDim, call.outputVector batchIndex token head dimension =
        weightedSum count (softmaxRow count (call.score batchIndex token head)) values
          dimension) ∧
      ∀ (row weights : FloatView) (store : FlatMemory F),
        (softmaxViewsCheck row [UInt32.ofNat count] weights).isOk = true →
        extent row 1 = call.maximumContext →
        (∀ keyToken < count,
          store (row.data + keyToken) = call.score batchIndex token head keyToken) →
        let run := softmaxF32 row [UInt32.ofNat count] weights store
        (run.1.isOk = true ↔
          ∀ keyToken < count, isFinite (call.score batchIndex token head keyToken) = true) ∧
        (run.1.isOk = true →
          (∀ keyToken < count, run.2 (weights.data + keyToken) =
            softmaxRow count (call.score batchIndex token head) keyToken) ∧
          ∀ dimension < call.headDim, call.outputVector batchIndex token head dimension =
            weightedSum count (fun keyToken => run.2 (weights.data + keyToken)) values
              dimension)) ∧
    (∀ other : AttentionCall F, AlignedCalls call other → other.kvHeads = call.kvHeads →
      ∀ batchIndex < call.batch, ∀ token < call.tokens, ∀ head < call.queryHeads,
      (∀ dimension < call.headDim, other.queryVector batchIndex token head dimension =
        call.queryVector batchIndex token head dimension) →
      (∀ keyToken < call.validKeys batchIndex token, ∀ dimension < call.headDim,
        other.keyVector batchIndex (head / call.groups) keyToken dimension =
            call.keyVector batchIndex (head / call.groups) keyToken dimension ∧
          other.valueVector batchIndex (head / call.groups) keyToken dimension =
            call.valueVector batchIndex (head / call.groups) keyToken dimension) →
      ∀ dimension < call.headDim, other.outputVector batchIndex token head dimension =
        call.outputVector batchIndex token head dimension) ∧
    (∀ expanded : AttentionCall F, AlignedCalls call expanded →
      expanded.kvHeads = call.queryHeads →
      (∀ batchIndex < call.batch, ∀ token < call.tokens, ∀ head < call.queryHeads,
        ∀ dimension < call.headDim, expanded.queryVector batchIndex token head dimension =
          call.queryVector batchIndex token head dimension) →
      (∀ batchIndex < call.batch, ∀ keyToken < call.context batchIndex,
        ∀ head < call.queryHeads, ∀ dimension < call.headDim,
        expanded.keyVector batchIndex head keyToken dimension =
            call.keyVector batchIndex (head / call.groups) keyToken dimension ∧
          expanded.valueVector batchIndex head keyToken dimension =
            call.valueVector batchIndex (head / call.groups) keyToken dimension) →
      ∀ batchIndex < call.batch, ∀ token < call.tokens, ∀ head < call.queryHeads,
        ∀ dimension < call.headDim, expanded.outputVector batchIndex token head dimension =
          call.outputVector batchIndex token head dimension) := by
  refine ⟨?specification, ?causal, ?expansion⟩
  case specification =>
    intro batchIndex inBatch token inTokens head inHeads count values
    have output := fun dimension inside =>
      call.output_vector batchIndex token head dimension inBatch inTokens inHeads inside
    refine ⟨output, fun row weights store viewed columns stored => ?_⟩
    obtain ⟨accepted, result⟩ := call.softmax_of_scores batchIndex token head inBatch inTokens
      row weights store viewed columns stored
    refine ⟨accepted, fun success => ⟨result success, fun dimension inside => ?_⟩⟩
    rw [output dimension inside]
    exact weighted_sum_congr _ _ _ _ _ _
      (fun keyToken valid => (result success keyToken valid).symm) fun _ _ => rfl
  case causal =>
    intro other aligned sameHeads batchIndex inBatch token inTokens head inHeads
      sameQuery sameCaches
    have groups : other.groups = call.groups := by
      rw [AttentionCall.groups, AttentionCall.groups, aligned.queryHeads, sameHeads]
    apply output_vector_congr call other aligned batchIndex token head inBatch inTokens inHeads
      sameQuery
    rwa [groups]
  case expansion =>
    intro expanded aligned repeated sameQueries sameCaches batchIndex inBatch token inTokens head
      inHeads
    -- every query head has a head of the expanded caches to itself
    have groups : expanded.groups = 1 := by
      rw [AttentionCall.groups, aligned.queryHeads, repeated]
      exact Nat.div_self call.shaped.someHeads
    apply output_vector_congr call expanded aligned batchIndex token head inBatch inTokens inHeads
      (sameQueries batchIndex inBatch token inTokens head inHeads)
    rw [groups, Nat.div_one]
    intro keyToken valid
    have reached := (call.valid_keys_le batchIndex token inBatch inTokens).1
    exact sameCaches batchIndex inBatch keyToken (by omega) head inHeads

end

/-! ## Calls beyond the specification -/

/-- Binary32 with the exponential of zero, and of numbers so far below zero that it vanishes. -/
@[reducible]
def steepFloats : FloatOps BinaryFloat.Value :=
  binary32Ops { sqrt := id
                exp := fun x => if x = .finite 0 then .finite 1 else .finite 0
                cos := id
                sin := id
                pow := fun base _ => base }

/-- A tensor of one head with one entry for each of so many tokens. -/
def oneHead (data : Nat) (tokens : UInt64) : FloatView :=
  ⟨data, .ofExtents [1, tokens, 1, 1], .f32, .host⟩

def finites (entries : List ℚ) : FlatMemory BinaryFloat.Value := fun address =>
  .finite (entries.getD address 0)

/-- Two accepted calls whose output no accepted softmax explains. In the first, finite entries have
an infinite score, and `softmax_f32` refuses every row that holds it. In the second, the query is
in the workspace, so that the first score overwrites it before the second is formed. -/
theorem attention_beyond_softmax :
    (let memory := finites [0, 2 ^ 100, 2 ^ 100, 1, 0, 0]
      let score := @attentionScore _ steepFloats (@attentionScale _ steepFloats 1) 1
        (fun dimension => memory (1 + dimension)) (fun dimension => memory (2 + dimension))
      (@attentionF32 _ steepFloats (oneHead 1 1) (oneHead 2 1) (oneHead 3 1)
        [1] (oneHead 4 1) ⟨5, 1⟩
        memory).1.isOk = true ∧
      ∀ (row weights : FloatView) (store : FlatMemory BinaryFloat.Value), store row.data = score →
        (@softmaxF32 _ steepFloats row [1] weights store).1.isOk = false) ∧
    (let memory := finites [0, -200, 200, 3, 4, 0, 1, 0]
      let score := fun keyToken => @attentionScore _ steepFloats (@attentionScale _ steepFloats 1) 1
        (fun dimension => memory (6 + dimension))
        (fun dimension => memory (1 + keyToken + dimension))
      let run := @attentionF32 _ steepFloats (oneHead 6 1) (oneHead 1 2) (oneHead 3 2) [2]
        (oneHead 5 1) ⟨6, 2⟩ memory
      run.1.isOk = true ∧
      run.2 5 ≠ @weightedSum _ steepFloats 2 (@softmaxRow _ steepFloats 2 score)
        (fun keyToken dimension => memory (3 + keyToken + dimension)) 0) := by
  constructor
  case left =>
    refine ⟨by decide +kernel, fun row weights store stored => ?_⟩
    rw [← Bool.not_eq_true]
    intro accepted
    have finite := @softmax_row_finite _ steepFloats row weights 1 store accepted 0 (by decide)
    rw [Nat.add_zero, stored] at finite
    exact absurd finite (by decide +kernel)
  case right =>
    exact ⟨by decide +kernel, by decide +kernel⟩

/-- Views over different floats share none. -/
theorem no_overlap_of_apart (left right : FloatView)
    (apart : Apart left.data left.shape.elements right.data right.shape.elements) :
    ¬Overlap left right := by
  rintro ⟨address, inLeft, inRight⟩
  exact Apart.outside _ _ _ _ address apart inLeft inRight

/-- A query at address 7 over the keys and values of two tokens, with a workspace at address 8. -/
def twoTokens : @AttentionCall _ steepFloats :=
  @AttentionCall.mk _ steepFloats (oneHead 7 1) (oneHead 1 2) (oneHead 3 2) [2] (oneHead 5 1) ⟨8, 2⟩
    (finites [0, -200, 200, 3, 4, 0, 0, 1]) (by decide +kernel)
    { query := no_overlap_of_apart _ _ (by unfold Apart; decide)
      keys := no_overlap_of_apart _ _ (by unfold Apart; decide)
      values := no_overlap_of_apart _ _ (by unfold Apart; decide)
      output := no_overlap_of_apart _ _ (by unfold Apart; decide) }

/-- The query attends to the second token. -/
theorem attention_refines_two_tokens :
    @AttentionCall.outputVector _ steepFloats twoTokens 0 0 0 0 = .finite 4 := by
  have output := ((@attention_refines _ steepFloats twoTokens).1 0 (by decide) 0 (by decide) 0
    (by decide)).1 0 (by decide)
  rw [output]
  decide +kernel

end MarketForge.Cpu
