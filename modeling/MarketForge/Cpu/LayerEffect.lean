import MarketForge.Cpu.LayerCall
import MarketForge.Cpu.OperatorEffects

/-!
# The effect of a decoder layer

The phases of a layer call on slices that do not meet, with the weights in a range of their own:
what each of them stores, and that together they are one stage over the rows of the sequence.
-/
namespace MarketForge.Cpu

open Library FloatOps

section

variable {F : Type}

/-! ## Ranges -/

namespace HostBuffer

theorem Separate.parts {left right : HostBuffer} (separate : left.Separate right)
    {data count other otherCount : Nat} (here : left.Contains data count)
    (there : right.Contains other otherCount) : Apart data count other otherCount := by
  unfold Separate Apart at separate
  unfold Contains at here there
  unfold Apart
  omega

theorem Separate.symm {left right : HostBuffer} (separate : left.Separate right) :
    right.Separate left :=
  Apart.symm _ _ _ _ separate

/-- A range that is written does not meet a range that is separate from it. -/
theorem Separate.outside {left right : HostBuffer} (separate : left.Separate right)
    {data count : Nat} (there : right.Contains data count) (address : Nat)
    (inside : Within left.data left.floats address) : ¬Within data count address := by
  unfold Separate Apart at separate
  unfold Contains at there
  unfold Within at inside ⊢
  omega

theorem Contains.within {buffer : HostBuffer} {data count : Nat}
    (contained : buffer.Contains data count) (address : Nat) (inside : Within data count address) :
    Within buffer.data buffer.floats address := by
  unfold Contains at contained
  unfold Within at inside ⊢
  omega

end HostBuffer

/-- The memory holds the contents of a range. -/
def Holds (range : HostBuffer) (store memory : FlatMemory F) : Prop :=
  ∀ address, Within range.data range.floats address → memory address = store address

theorem Holds.frame (range : HostBuffer) (store before after : FlatMemory F)
    (written : Nat → Prop) (same : SameExcept written before after)
    (outside : ∀ address, Within range.data range.floats address → ¬written address)
    (held : Holds range store before) : Holds range store after :=
  fun address inside => (same address (outside address inside)).trans (held address inside)

theorem Holds.weight (range : HostBuffer) (store memory : FlatMemory F) (view : FloatView)
    (size : Nat) (held : Holds range store memory) (contained : range.Contains view.data size) :
    Stores memory view.data size (weightOf store view) :=
  fun column inside => held _ (contained.within _ ⟨by omega, by omega⟩)

namespace LayerCall

variable (call : LayerCall F)

def hiddenRange : HostBuffer := ⟨call.hidden, call.tokens * call.hiddenSize⟩

def keyRange : HostBuffer := ⟨call.keyCache, call.maximumContext.toNat * call.kvWidth⟩

def valueRange : HostBuffer := ⟨call.valueCache, call.maximumContext.toNat * call.kvWidth⟩

/-- The weights are in a range of their own, and so are the rows, the caches and the workspace. -/
structure Placed (range : HostBuffer) : Prop where
  fits : call.context + call.tokens ≤ call.maximumContext.toNat
  contained : ∀ view ∈ call.weights.all, range.Contains view.data view.shape.elements
  hiddenWorkspace : call.hiddenRange.Separate call.workspace.storage
  keysWorkspace : call.keyRange.Separate call.workspace.storage
  valuesWorkspace : call.valueRange.Separate call.workspace.storage
  hiddenKeys : call.hiddenRange.Separate call.keyRange
  hiddenValues : call.hiddenRange.Separate call.valueRange
  caches : call.keyRange.Separate call.valueRange
  weightsHidden : range.Separate call.hiddenRange
  weightsWorkspace : range.Separate call.workspace.storage
  weightsKeys : range.Separate call.keyRange
  weightsValues : range.Separate call.valueRange

/-- A weight of the call lies in the range. -/
theorem Placed.weight {call : LayerCall F} {range : HostBuffer} (placed : call.Placed range)
    {view : FloatView} {size : Nat} (elements : view.shape.elements = size)
    (listed : view ∈ call.weights.all) : range.Contains view.data size :=
  elements ▸ placed.contained view listed

/-- The slices of the attention phase follow each other from the start of the workspace. -/
structure AttentionSlices : Prop where
  normalized : call.slices.normalized = call.workspace.data
  query : call.slices.query = call.workspace.data + call.tokens * call.hiddenSize
  key : call.slices.key = call.slices.query + call.tokens * call.hiddenSize
  value : call.slices.value = call.slices.key + call.tokens * call.kvWidth
  attention : call.slices.attention = call.slices.value + call.tokens * call.kvWidth
  logits : call.slices.logits = call.slices.attention + call.tokens * call.hiddenSize
  fits : call.slices.logits + call.tokens * call.spec.queryHeads.toNat * call.maximumContext.toNat
    ≤ call.workspace.data + call.workspace.capacity.toNat

/-- So do the slices of the MLP. -/
structure MlpSlices : Prop where
  normalized : call.slices.normalized = call.workspace.data
  gate : call.slices.gate = call.workspace.data + call.tokens * call.hiddenSize
  up : call.slices.up = call.slices.gate + call.tokens * call.intermediateSize
  fits : call.slices.up + call.tokens * call.intermediateSize
    ≤ call.workspace.data + call.workspace.capacity.toNat

theorem Checked.attentionSlices {call : LayerCall F} (checked : call.Checked) :
    call.AttentionSlices := by
  have enough := checked.attentionPhase
  refine ⟨rfl, rfl, rfl, rfl, rfl, rfl, ?_⟩
  change call.workspace.data + call.tokens * call.hiddenSize + call.tokens * call.hiddenSize
    + call.tokens * call.kvWidth + call.tokens * call.kvWidth + call.tokens * call.hiddenSize
    + call.tokens * call.spec.queryHeads.toNat * call.maximumContext.toNat ≤ _
  omega

theorem Checked.mlpSlices {call : LayerCall F} (checked : call.Checked) : call.MlpSlices := by
  have enough := checked.mlpPhase
  refine ⟨rfl, rfl, rfl, ?_⟩
  change call.workspace.data + call.tokens * call.hiddenSize + call.tokens * call.intermediateSize
    + call.tokens * call.intermediateSize ≤ _
  omega

theorem in_workspace {data count : Nat} (first : call.workspace.data ≤ data)
    (last : data + count ≤ call.workspace.data + call.workspace.capacity.toNat) :
    call.workspace.storage.Contains data count :=
  ⟨first, last⟩

/-- Every slice of the attention phase lies in the workspace. -/
theorem AttentionSlices.contained {call : LayerCall F} (slices : call.AttentionSlices) :
    call.workspace.storage.Contains call.slices.normalized (call.tokens * call.hiddenSize) ∧
      call.workspace.storage.Contains call.slices.query (call.tokens * call.hiddenSize) ∧
      call.workspace.storage.Contains call.slices.key (call.tokens * call.kvWidth) ∧
      call.workspace.storage.Contains call.slices.value (call.tokens * call.kvWidth) ∧
      call.workspace.storage.Contains call.slices.attention (call.tokens * call.hiddenSize) ∧
      call.workspace.storage.Contains call.slices.logits
        (call.tokens * call.spec.queryHeads.toNat * call.maximumContext.toNat) := by
  obtain ⟨normalized, query, key, value, attention, logits, fits⟩ := slices
  refine ⟨?_, ?_, ?_, ?_, ?_, ?_⟩
  all_goals exact call.in_workspace (by omega) (by omega)

/-- Only the workspace may differ. -/
abbrev WorkspaceOnly (before after : FlatMemory F) : Prop :=
  SameExcept (Within call.workspace.storage.data call.workspace.storage.floats) before after

/-- A loop that writes to a slice leaves the weights and what is outside the workspace alone. -/
theorem slice_written {range : HostBuffer} (placed : call.Placed range)
    {store memory before after : FlatMemory F} {data count : Nat}
    (contained : call.workspace.storage.Contains data count)
    (same : SameExcept (Within data count) before after)
    (state : Holds range store before ∧ call.WorkspaceOnly memory before) :
    Holds range store after ∧ call.WorkspaceOnly memory after :=
  ⟨Holds.frame _ _ _ _ _ same (placed.weightsWorkspace.outside contained) state.1,
    SameExcept.trans _ _ _ _ state.2 (SameExcept.mono _ _ _ _ contained.within same)⟩

/-! ## What the phases store -/

variable [FloatOps F] (positions contextLengths : List UInt32)

/-- The queries, keys and values of the rows, in their slices. -/
theorem project_spec (range : HostBuffer) (store memory : FlatMemory F) (states : Nat → Nat → F)
    (checked : call.Checked) (even : call.spec.headDim.toNat % 2 = 0) (placed : call.Placed range)
    (follow : ∀ token < call.tokens, (positions.getD token 0).toNat = call.context + token)
    (held : Holds range store memory)
    (stored : StoresRows memory call.hidden call.tokens call.hiddenSize
      fun row => states (call.context + row)) :
    (StoresRows (call.project positions memory) call.slices.query call.tokens call.hiddenSize
        (fun row => queryRow store call.spec call.weights (call.context + row)
          (states (call.context + row))) ∧
      StoresRows (call.project positions memory) call.slices.key call.tokens call.kvWidth
        (fun row => keyRow store call.spec call.weights (call.context + row)
          (states (call.context + row))) ∧
      StoresRows (call.project positions memory) call.slices.value call.tokens call.kvWidth
        (fun row => valueRow store call.spec call.weights (states (call.context + row)))) ∧
    call.WorkspaceOnly memory (call.project positions memory) := by
  have slices := checked.attentionSlices
  obtain ⟨inNormalized, inQuery, inKey, inValue, _, _⟩ := slices.contained
  obtain ⟨atNormalized, atQuery, atKey, atValue, _, _, _⟩ := slices
  have inputNorm := placed.weight checked.inputNorm.elements (by simp [LayerWeights.all])
  have query := placed.weight checked.query.elements (by simp [LayerWeights.all])
  have key := placed.weight checked.key.elements (by simp [LayerWeights.all])
  have value := placed.weight checked.value.elements (by simp [LayerWeights.all])
  unfold project
  dsimp only
  -- the rows, normalized
  obtain ⟨normed, same⟩ := rms_norm_rows_spec call.hidden call.weights.inputNorm.data
    call.slices.normalized call.tokens call.hiddenSize call.spec.rmsNormEpsilon _
    (weightOf store call.weights.inputNorm) memory
    (.inr (placed.hiddenWorkspace.parts ⟨Nat.le_refl _, Nat.le_refl _⟩ inNormalized))
    (placed.weightsWorkspace.parts inputNorm inNormalized) stored (held.weight _ _ _ _ _ inputNorm)
  have state := call.slice_written placed inNormalized same ⟨held, SameExcept.refl _ memory⟩
  generalize rmsNormRows _ _ _ _ _ _ memory = normedMemory at normed state ⊢
  clear same
  -- the three products of the normalized rows
  obtain ⟨queried, same⟩ := linear_rows_spec call.slices.normalized
    call.weights.attention.query.data call.slices.query call.tokens call.hiddenSize call.hiddenSize
    _ (weightOf store call.weights.attention.query) normedMemory (by unfold Apart; omega)
    (placed.weightsWorkspace.parts query inQuery) normed (state.1.weight _ _ _ _ _ query)
  have normed := StoresRows.frame _ _ _ _ _ _ _ same
    (fun address inside => by unfold Within at inside ⊢; omega) normed
  have state := call.slice_written placed inQuery same state
  generalize linearRows _ _ _ _ _ _ normedMemory = queriedMemory at normed queried state ⊢
  clear same
  obtain ⟨keyed, same⟩ := linear_rows_spec call.slices.normalized
    call.weights.attention.key.data call.slices.key call.tokens call.hiddenSize call.kvWidth
    _ (weightOf store call.weights.attention.key) queriedMemory (by unfold Apart; omega)
    (placed.weightsWorkspace.parts key inKey) normed (state.1.weight _ _ _ _ _ key)
  have normed := StoresRows.frame _ _ _ _ _ _ _ same
    (fun address inside => by unfold Within at inside ⊢; omega) normed
  have queried := StoresRows.frame _ _ _ _ _ _ _ same
    (fun address inside => by unfold Within at inside ⊢; omega) queried
  have state := call.slice_written placed inKey same state
  generalize linearRows _ _ _ _ _ _ queriedMemory = keyedMemory at normed queried keyed state ⊢
  clear same
  obtain ⟨valued, same⟩ := linear_rows_spec call.slices.normalized
    call.weights.attention.value.data call.slices.value call.tokens call.hiddenSize call.kvWidth
    _ (weightOf store call.weights.attention.value) keyedMemory (by unfold Apart; omega)
    (placed.weightsWorkspace.parts value inValue) normed (state.1.weight _ _ _ _ _ value)
  have queried := StoresRows.frame _ _ _ _ _ _ _ same
    (fun address inside => by unfold Within at inside ⊢; omega) queried
  have keyed := StoresRows.frame _ _ _ _ _ _ _ same
    (fun address inside => by unfold Within at inside ⊢; omega) keyed
  have state := call.slice_written placed inValue same state
  generalize linearRows _ _ _ _ _ _ keyedMemory = valuedMemory at queried keyed valued state ⊢
  clear same
  -- the queries and keys, turned by their positions
  have rows : 1 * call.tokens = call.tokens := Nat.one_mul _
  obtain ⟨⟨turnedQueries, turnedKeys⟩, same⟩ := rope_rows_spec call.spec.rope call.slices.query
    call.slices.key 1 call.tokens call.spec.queryHeads.toNat call.spec.kvHeads.toNat
    call.spec.headDim.toNat positions _ _ valuedMemory even
    (by rw [rows, checked.heads]; exact .inl (by omega))
    (by rw [rows, checked.heads]; exact queried)
    (by rw [rows]; exact keyed)
  rw [rows, checked.heads] at turnedQueries same
  rw [rows] at turnedKeys
  have valued := StoresRows.frame _ _ _ _ _ _ _ same
    (fun address inside => by
      change Within call.slices.value (call.tokens * call.kvWidth) address at inside
      change ¬(Within call.slices.query (call.tokens * call.hiddenSize) address ∨
        Within call.slices.key (call.tokens * call.kvWidth) address)
      unfold Within at inside ⊢
      omega) valued
  refine ⟨⟨?_, ?_, valued⟩, ?_⟩
  · refine StoresRows.congr _ _ _ _ _ _ (fun row below => ?_) turnedQueries
    rw [follow row below]
    rfl
  · refine StoresRows.congr _ _ _ _ _ _ (fun row below => ?_) turnedKeys
    rw [follow row below]
    rfl
  · refine SameExcept.trans _ _ _ _ state.2 (SameExcept.mono _ _ _ _ ?_ same)
    rintro address (inQueries | inKeys)
    · exact inQuery.within address inQueries
    · exact inKey.within address inKeys

end LayerCall

end

end MarketForge.Cpu
