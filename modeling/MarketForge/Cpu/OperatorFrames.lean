import MarketForge.Cpu.LayerStage
import MarketForge.Library.Grid

/-!
# What a call may write, and what its status depends on

The status of a call depends on its views and positions, never on what the memory holds, and a call
writes to its own slices only, whether it succeeds or fails. A failed layer call has thus left the
weights and the cached rows before the context alone.
-/
namespace MarketForge.Cpu

open Library FloatOps

section

variable {F : Type}

/-! ## Calls -/

/-- The status of a call is the same in every memory. -/
def Steady (operation : Operation F) : Prop :=
  ∀ memory other, (operation memory).1 = (operation other).1

/-- A call writes to nothing but the given addresses. -/
def Confined (written : Nat → Prop) (operation : Operation F) : Prop :=
  ∀ memory, SameExcept written memory (operation memory).2

theorem guarded_steady (check : Status) (effect : FlatMemory F → FlatMemory F) :
    Steady (guarded check effect) := by
  intro memory other
  rw [guarded, guarded]
  cases check.isOk <;> rfl

/-- A call that fails its check writes nothing, so only its successes matter. -/
theorem confined_of_ok (written : Nat → Prop) (operation : Operation F) (check : Status)
    (effect : FlatMemory F → FlatMemory F) (checks : operation = guarded check effect)
    (each : ∀ memory, (operation memory).1.isOk = true →
      SameExcept written memory (operation memory).2) : Confined written operation := by
  intro memory
  by_cases passed : check.isOk = true
  · apply each
    rw [checks, guarded, if_pos passed]
    rfl
  · rw [checks, guarded, if_neg passed]
    exact SameExcept.refl written memory

theorem guarded_confined (written : Nat → Prop) (check : Status)
    (effect : FlatMemory F → FlatMemory F)
    (each : ∀ memory, SameExcept written memory (effect memory)) :
    Confined written (guarded check effect) := by
  apply confined_of_ok written _ check effect rfl
  intro memory succeeded
  rw [(guarded_ok _ _ _ succeeded).2]
  exact each memory

theorem run_all_steady (calls : List (Operation F)) (each : ∀ operation ∈ calls, Steady operation) :
    Steady (runAll calls) := by
  induction calls with
  | nil => exact fun _ _ => rfl
  | cons operation others ih =>
    intro memory other
    have same := each operation List.mem_cons_self memory other
    have rest := ih fun operation listed => each operation (List.mem_cons_of_mem _ listed)
    rw [runAll, runAll]
    dsimp only
    rw [same]
    cases (operation other).1.isOk with
    | true => exact rest _ _
    | false => rfl

theorem run_all_confined (written : Nat → Prop) (calls : List (Operation F))
    (each : ∀ operation ∈ calls, Confined written operation) : Confined written (runAll calls) := by
  induction calls with
  | nil => exact fun memory => SameExcept.refl written memory
  | cons operation others ih =>
    intro memory
    have first := each operation List.mem_cons_self memory
    have rest := ih fun operation listed => each operation (List.mem_cons_of_mem _ listed)
    rw [runAll]
    dsimp only
    cases (operation memory).1.isOk with
    | true => exact SameExcept.trans _ _ _ _ first (rest _)
    | false => exact first

/-! ## Loops -/

/-- A loop that fills the rows of a matrix one by one writes to the matrix. -/
theorem rows_frame (output rows width : Nat) (body : Nat → FlatMemory F → FlatMemory F)
    (memory : FlatMemory F)
    (each : ∀ row < rows, ∀ current,
      SameExcept (Within (output + row * width) width) current (body row current)) :
    SameExcept (Within output (rows * width)) memory (forRange rows body memory) :=
  turns_frame rows body _ memory fun row below current =>
    SameExcept.mono _ _ _ _ (fun address => within_row output rows width row address below)
      (each row below current)

/-- The rows of consecutive positions of one sequence join the caches from the context on. -/
theorem append_rows_frame (key value keyCache valueCache tokens maximumContext width context : Nat)
    (positions : List UInt32) (memory : FlatMemory F)
    (follow : ∀ token < tokens, (positions.getD token 0).toNat = context + token) :
    SameExcept (fun address => Within (keyCache + context * width) (tokens * width) address ∨
        Within (valueCache + context * width) (tokens * width) address) memory
      (appendRows key value keyCache valueCache 1 tokens
        maximumContext width positions memory) := by
  rw [appendRows, for_range_one]
  refine turns_frame tokens _ _ memory fun token below current => ?_
  have place : (context + token) * width = context * width + token * width := Nat.add_mul _ _ _
  dsimp only
  rw [Nat.zero_mul, Nat.zero_mul, Nat.zero_add, Nat.zero_add, follow token below, place,
    ← Nat.add_assoc, ← Nat.add_assoc]
  refine SameExcept.trans _ _ (copyFloats (keyCache + context * width + token * width)
    (key + token * width) width current) _ ?_ ?_
  · refine SameExcept.mono _ _ _ _ ?_ (fill_frame _ width _ current)
    exact fun address inside => .inl (within_row _ tokens width token address below inside)
  · refine SameExcept.mono _ _ _ _ ?_ (fill_frame _ width _ _)
    exact fun address inside => .inr (within_row _ tokens width token address below inside)

variable [FloatOps F]

theorem rms_norm_rows_frame (input weight output rows hidden : Nat) (epsilon : F)
    (memory : FlatMemory F) :
    SameExcept (Within output (rows * hidden)) memory
      (rmsNormRows input weight output rows hidden epsilon memory) :=
  rows_frame output rows hidden _ memory fun _ _ current => fill_frame _ _ _ current

theorem linear_rows_frame (input weight output rows inputWidth outputWidth : Nat)
    (memory : FlatMemory F) :
    SameExcept (Within output (rows * outputWidth)) memory
      (linearRows input weight output rows inputWidth outputWidth memory) :=
  rows_frame output rows outputWidth _ memory fun _ _ current => fill_frame _ _ _ current

/-- The heads of one token turn in place. -/
theorem rotate_frame (spec : RopeSpec F) (data rows heads headDim row position : Nat)
    (memory : FlatMemory F) (below : row < rows) :
    SameExcept (Within data (rows * (heads * headDim))) memory
      (rotate spec data heads headDim row position memory) := by
  rw [rotate]
  refine turns_frame heads _ _ memory fun head inside current => ?_
  refine turns_frame (headDim / 2) _ _ current fun dimension half current => ?_
  have last := head_last rows heads headDim row head below inside
  refine SameExcept.trans _ _ _ _ (update_frame _ _ _ _ ?_) (update_frame _ _ _ _ ?_)
  · exact ⟨by omega, by omega⟩
  · exact ⟨by omega, by omega⟩

theorem rope_rows_frame (spec : RopeSpec F)
    (query key batch tokens queryHeads keyHeads headDim : Nat)
    (positions : List UInt32) (memory : FlatMemory F) :
    SameExcept (fun address => Within query (batch * tokens * (queryHeads * headDim)) address ∨
        Within key (batch * tokens * (keyHeads * headDim)) address) memory
      (ropeRows spec query key batch tokens queryHeads keyHeads headDim positions memory) := by
  rw [ropeRows]
  apply turns_frame batch
  intro batchIndex inBatch current
  apply turns_frame tokens
  intro token inTokens current
  have row : batchIndex * tokens + token < batch * tokens := Grid.cell_lt inBatch inTokens
  exact SameExcept.trans _ _ _ _
    (SameExcept.mono _ _ _ _ (fun _ => .inl) (rotate_frame spec query _ queryHeads headDim _ _
      current row))
    (SameExcept.mono _ _ _ _ (fun _ => .inr) (rotate_frame spec key _ keyHeads headDim _ _ _ row))

/-- One head writes to its scratch and to its output. -/
theorem attention_head_frame (scale : F) (query logits output : Nat) (key value : Nat → Nat)
    (headDim validKeys : Nat) (memory : FlatMemory F) :
    SameExcept (fun address => Within logits validKeys address ∨ Within output headDim address)
      memory (attentionHead scale query logits output key value headDim validKeys memory) := by
  have scored : SameExcept (Within logits validKeys) memory
      (scoreKeys scale query logits key headDim validKeys memory).1 :=
    for_range_invariant validKeys _ _ (fun _ (state : FlatMemory F × F) =>
      SameExcept (Within logits validKeys) memory state.1) (SameExcept.refl _ memory)
      fun keyToken below state before =>
        SameExcept.trans _ _ _ _ before (update_frame _ _ _ _ ⟨by omega, by omega⟩)
  have raised : ∀ (maximum : F) (current : FlatMemory F), SameExcept (Within logits validKeys)
      current (exponentiate logits validKeys maximum current).1 := fun maximum current =>
    for_range_invariant validKeys _ _ (fun _ (state : FlatMemory F × F) =>
      SameExcept (Within logits validKeys) current state.1) (SameExcept.refl _ current)
      fun keyToken below state before =>
        SameExcept.trans _ _ _ _ before (update_frame _ _ _ _ ⟨by omega, by omega⟩)
  rw [attentionHead]
  refine SameExcept.trans _ _ _ _ ?_
    (SameExcept.mono _ _ _ _ (fun _ => .inr) (fill_frame output headDim _ _))
  refine SameExcept.mono _ _ _ _ (fun _ => .inl) ?_
  exact SameExcept.trans _ _ _ _ (SameExcept.trans _ _ _ _ scored (raised _ _))
    (fill_frame logits validKeys _ _)

theorem attention_rows_frame (query keyCache valueCache output scratch tokens queryHeads kvHeads
    headDim maximumContext context : Nat) (contextLengths : List UInt32) (memory : FlatMemory F)
    (length : (contextLengths.getD 0 0).toNat = context + tokens)
    (fits : context + tokens ≤ maximumContext) :
    SameExcept (fun address => Within scratch (tokens * queryHeads * maximumContext) address ∨
        Within output (tokens * queryHeads * headDim) address) memory
      (attentionRows query keyCache valueCache output scratch 1 tokens queryHeads kvHeads headDim
        maximumContext contextLengths memory) := by
  rw [attention_rows_cells query keyCache valueCache output
    scratch tokens queryHeads kvHeads headDim
    maximumContext context contextLengths memory length]
  refine turns_frame (tokens * queryHeads) _ _ memory fun cell below current => ?_
  have token : cell / queryHeads < tokens := Nat.div_lt_of_lt_mul (Nat.mul_comm _ _ ▸ below)
  refine SameExcept.mono _ _ _ _ ?_ (attention_head_frame _ _ _ _ _ _ _ _ current)
  rintro address (inScratch | inOutput)
  · exact .inl (within_row scratch _ maximumContext cell address below
      (within_mono _ _ _ _ (by omega) inScratch))
  · exact .inr (within_row output _ headDim cell address below inOutput)

/-! ## The layer -/

namespace LayerCall

variable (call : LayerCall F) (positions contextLengths : List UInt32)

theorem attention_calls_steady :
    ∀ operation ∈ call.attentionCalls positions contextLengths, Steady operation := by
  rw [attentionCalls]
  simp only [List.forall_mem_cons, List.not_mem_nil, false_implies, implies_true, and_true]
  refine ⟨?_, ?_, ?_, ?_, ?_, ?_, fun _ _ => rfl, ?_, fun _ _ => rfl⟩
  all_goals exact guarded_steady _ _

theorem mlp_calls_steady : ∀ operation ∈ call.mlpCalls, Steady operation := by
  rw [mlpCalls]
  simp only [List.forall_mem_cons, List.not_mem_nil, false_implies, implies_true, and_true]
  refine ⟨?_, ?_, ?_, fun _ _ => rfl, ?_, fun _ _ => rfl⟩
  all_goals exact guarded_steady _ _

theorem operation_steady (small : call.tokens < 2 ^ 32) :
    Steady (call.operation positions contextLengths) := by
  intro memory other
  rw [operation_eq call positions contextLengths small,
    operation_eq call positions contextLengths small]
  dsimp only
  split
  next => rfl
  next =>
    apply run_all_steady
    intro operation listed
    rcases List.mem_append.mp listed with first | second
    · exact call.attention_calls_steady positions contextLengths operation first
    · exact call.mlp_calls_steady operation second

/-- A product of slices writes to its output. -/
theorem linear_slice_confined (written : Nat → Prop)
    (input output rows inputWidth outputWidth : Nat) (weight : FloatView)
    (shape : IsMatrix weight outputWidth inputWidth) (fewRows : rows < 2 ^ 64)
    (narrow : inputWidth < 2 ^ 64)
    (included : ∀ address, Within output (rows * outputWidth) address → written address) :
    Confined written (linearF32 (F := F) (sliceView input [rows, inputWidth]) weight
      (sliceView output [rows, outputWidth])) := by
  refine confined_of_ok written _ _ _ rfl fun memory succeeded => ?_
  rw [linear_slices_ok _ _ _ _ _ _ _ shape fewRows narrow succeeded]
  exact SameExcept.mono _ _ _ _ included (linear_rows_frame _ _ _ _ _ _ memory)

/-- A norm of the rows writes to its output. -/
theorem norm_confined (written : Nat → Prop) (small : call.tokens < 2 ^ 32) (output : FloatView)
    (weight : FloatView) (shape : IsVector weight call.hiddenSize) (positive : 0 < call.hiddenSize)
    (included : ∀ address, Within output.data (call.tokens * call.hiddenSize) address →
      written address) :
    Confined written (rmsNormF32 call.hiddenView weight call.spec.rmsNormEpsilon output) := by
  refine confined_of_ok written _ _ _ rfl fun memory succeeded => ?_
  rw [rms_norm_ok _ _ _ _ _ _ _ shape positive (hidden_elements call small) succeeded]
  exact SameExcept.mono _ _ _ _ included (rms_norm_rows_frame _ _ _ _ _ _ memory)

/-- The sum with the rows writes to the rows. -/
theorem sum_confined (target addend count : Nat) (written : Nat → Prop)
    (included : ∀ address, Within target count address → written address) :
    Confined (F := F) written (always (addRows target addend count)) := fun memory =>
  SameExcept.mono _ _ _ _ included (fill_frame target count _ memory)

theorem attention_calls_confined (small : call.tokens < 2 ^ 32) (checked : call.Checked)
    {range : HostBuffer} (placed : call.Placed range)
    (follow : ∀ token < call.tokens, (positions.getD token 0).toNat = call.context + token)
    (length : (contextLengths.getD 0 0).toNat = call.context + call.tokens) :
    ∀ operation ∈ call.attentionCalls positions contextLengths,
      Confined call.Written operation := by
  have fewRows : call.tokens < 2 ^ 64 := by omega
  have word : ∀ count : UInt32, count.toNat < 2 ^ 64 := fun count => by
    have bound := count.toNat_lt
    omega
  obtain ⟨inNormalized, inQuery, inKey, inValue, inAttention, inLogits⟩ :=
    checked.attentionSlices.contained
  -- a slice of the workspace is scratch
  have workspace : ∀ data count, call.workspace.storage.Contains data count →
      ∀ address, Within data count address → call.Written address :=
    fun data count contained address inside => .inl (.inr (contained.within address inside))
  have heads : call.tokens * call.spec.queryHeads.toNat * call.spec.headDim.toNat =
      call.tokens * call.hiddenSize := by
    rw [Nat.mul_assoc, checked.heads]
  rw [attentionCalls]
  simp only [List.forall_mem_cons, List.not_mem_nil, false_implies, implies_true, and_true]
  refine ⟨?_, ?_, ?_, ?_, ?_, ?_, ?_, ?_, ?_⟩
  · exact call.norm_confined _ small _ _ checked.inputNorm checked.positive
      (workspace _ _ inNormalized)
  · exact linear_slice_confined _ _ _ _ _ _ _ checked.query fewRows (word _)
      (workspace _ _ inQuery)
  · exact linear_slice_confined _ _ _ _ _ _ _ checked.key fewRows (word _) (workspace _ _ inKey)
  · exact linear_slice_confined _ _ _ _ _ _ _ checked.value fewRows (word _)
      (workspace _ _ inValue)
  · refine confined_of_ok _ _ _ _ rfl fun memory succeeded => ?_
    rw [(rope_slices_ok _ _ _ _ _ _ _ _ _ fewRows (word _) (word _) (word _) succeeded).2]
    have turned := rope_rows_frame call.spec.rope call.slices.query call.slices.key 1 call.tokens
      call.spec.queryHeads.toNat call.spec.kvHeads.toNat call.spec.headDim.toNat positions memory
    rw [Nat.one_mul] at turned
    refine SameExcept.mono _ _ _ _ ?_ turned
    rintro address (inQueries | inKeys)
    · rw [checked.heads] at inQueries
      exact workspace _ _ inQuery address inQueries
    · exact workspace _ _ inKey address inKeys
  · refine confined_of_ok _ _ _ _ rfl fun memory succeeded => ?_
    rw [append_slices_ok _ _ _ _ _ _ _ _ fewRows (word _) (word _) succeeded]
    exact SameExcept.mono _ _ _ _ (fun _ => .inr)
      (append_rows_frame _ _ _ _ _ _ _ call.context positions memory follow)
  · intro memory
    rw [attention_slices _ _ _ _ _ _ _ _ _ _ fewRows (word _) (word _)]
    rw [(cache_extents call).1]
    refine SameExcept.mono _ _ _ _ ?_ (attention_rows_frame _ _ _ _ _ _ _ _ _ _ call.context
      contextLengths memory length placed.fits)
    rintro address (inScratch | inOutput)
    · exact workspace _ _ inLogits address inScratch
    · rw [heads] at inOutput
      exact workspace _ _ inAttention address inOutput
  · exact linear_slice_confined _ _ _ _ _ _ _ checked.output fewRows (word _)
      (workspace _ _ inNormalized)
  · exact sum_confined _ _ _ _ fun _ inside => .inl (.inl inside)

theorem mlp_calls_confined (small : call.tokens < 2 ^ 32) (checked : call.Checked) :
    ∀ operation ∈ call.mlpCalls, Confined call.Written operation := by
  have fewRows : call.tokens < 2 ^ 64 := by omega
  have word : ∀ count : UInt32, count.toNat < 2 ^ 64 := fun count => by
    have bound := count.toNat_lt
    omega
  have inNormalized := checked.attentionSlices.contained.1
  obtain ⟨atNormalized, atGate, atUp, fits⟩ := checked.mlpSlices
  have workspace : ∀ data count, call.workspace.storage.Contains data count →
      ∀ address, Within data count address → call.Written address :=
    fun data count contained address inside => .inl (.inr (contained.within address inside))
  have inGate : call.workspace.storage.Contains call.slices.gate
      (call.tokens * call.intermediateSize) := call.in_workspace (by omega) (by omega)
  have inUp : call.workspace.storage.Contains call.slices.up
      (call.tokens * call.intermediateSize) := call.in_workspace (by omega) (by omega)
  rw [mlpCalls]
  simp only [List.forall_mem_cons, List.not_mem_nil, false_implies, implies_true, and_true]
  refine ⟨?_, ?_, ?_, ?_, ?_, ?_⟩
  · exact call.norm_confined _ small _ _ checked.postAttentionNorm checked.positive
      (workspace _ _ inNormalized)
  · exact linear_slice_confined _ _ _ _ _ _ _ checked.gate fewRows (word _) (workspace _ _ inGate)
  · exact linear_slice_confined _ _ _ _ _ _ _ checked.up fewRows (word _) (workspace _ _ inUp)
  · exact fun memory => SameExcept.mono _ _ _ _ (workspace _ _ inGate)
      (fill_frame _ _ _ memory)
  · exact linear_slice_confined _ _ _ _ _ _ _ checked.down fewRows (word _)
      (workspace _ _ inNormalized)
  · exact sum_confined _ _ _ _ fun _ inside => .inl (.inl inside)

/-- A layer call that fails has written where one that succeeds writes. -/
theorem operation_confined (small : call.tokens < 2 ^ 32) {range : HostBuffer}
    (placed : call.Placed range)
    (follow : ∀ token < call.tokens, (positions.getD token 0).toNat = call.context + token)
    (length : (contextLengths.getD 0 0).toNat = call.context + call.tokens) :
    Confined call.Written (call.operation positions contextLengths) := by
  intro memory
  rw [operation_eq call positions contextLengths small]
  dsimp only
  split
  next => exact SameExcept.refl _ memory
  next passed =>
    have checked := validation_ok call positions contextLengths small (Bool.not_eq_false _ ▸ passed)
    apply run_all_confined
    intro operation listed
    rcases List.mem_append.mp listed with first | second
    · exact call.attention_calls_confined positions contextLengths small checked placed follow
        length operation first
    · exact call.mlp_calls_confined small checked operation second

end LayerCall

end

end MarketForge.Cpu
