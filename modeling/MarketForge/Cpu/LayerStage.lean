import MarketForge.Cpu.LayerEffect

/-!
# A decoder layer as a stage

The phases of a layer call after the projections: the new keys and values join the caches, the rows
attend to them, and the MLP follows. Together with the projections they compute the decoder stage
that resumes at the context, in place.
-/
namespace MarketForge.Cpu

open Library FloatOps

section

variable {F : Type}

section

variable [FloatOps F]

/-! ## Sums and gates of matrices -/

theorem add_matrix_spec (target addend rows width : Nat) (value added : Nat → Nat → F)
    (memory : FlatMemory F) (apart : Apart addend (rows * width) target (rows * width))
    (stored : StoresRows memory target rows width value)
    (addendStored : StoresRows memory addend rows width added) :
    StoresRows (addRows target addend (rows * width) memory) target rows width
        (fun row => addRow (value row) (added row)) ∧
      SameExcept (Within target (rows * width)) memory
        (addRows target addend (rows * width) memory) := by
  rw [stores_rows_cells] at stored addendStored ⊢
  exact add_rows_spec target addend (rows * width) _ _ memory apart stored addendStored

theorem gate_matrix_spec (gate up rows width : Nat) (value other : Nat → Nat → F)
    (memory : FlatMemory F) (apart : Apart up (rows * width) gate (rows * width))
    (stored : StoresRows memory gate rows width value)
    (upStored : StoresRows memory up rows width other) :
    StoresRows (gateRows gate up (rows * width) memory) gate rows width
        (fun row => gateRow (value row) (other row)) ∧
      SameExcept (Within gate (rows * width)) memory (gateRows gate up (rows * width) memory) := by
  rw [stores_rows_cells] at stored upStored ⊢
  exact gate_rows_spec gate up (rows * width) _ _ memory apart stored upStored

end

namespace LayerCall

variable (call : LayerCall F)

/-! ## What a call writes -/

/-- The rows of the positions from the context on, in the caches. -/
def KeyWindow (address : Nat) : Prop :=
  Within (call.keyCache + call.context * call.kvWidth) (call.tokens * call.kvWidth) address

def ValueWindow (address : Nat) : Prop :=
  Within (call.valueCache + call.context * call.kvWidth) (call.tokens * call.kvWidth) address

def InWorkspace (address : Nat) : Prop :=
  Within call.workspace.storage.data call.workspace.storage.floats address

def InHidden (address : Nat) : Prop :=
  Within call.hidden (call.tokens * call.hiddenSize) address

/-- The addresses a call may write to. -/
def Written (address : Nat) : Prop :=
  (call.InHidden address ∨ call.InWorkspace address) ∨
    (call.KeyWindow address ∨ call.ValueWindow address)

/-- The rows of a cache up to the end of the call. -/
theorem Placed.cached {call : LayerCall F} {range : HostBuffer} (placed : call.Placed range)
    {rows : Nat} (few : rows ≤ call.context + call.tokens) :
    call.keyRange.Contains call.keyCache (rows * call.kvWidth) ∧
      call.valueRange.Contains call.valueCache (rows * call.kvWidth) := by
  have fits : rows * call.kvWidth ≤ call.maximumContext.toNat * call.kvWidth :=
    Nat.mul_le_mul_right _ (few.trans placed.fits)
  exact ⟨⟨Nat.le_refl _, Nat.add_le_add_left fits _⟩, ⟨Nat.le_refl _, Nat.add_le_add_left fits _⟩⟩

/-- The windows lie in the caches. -/
theorem Placed.windows {call : LayerCall F} {range : HostBuffer} (placed : call.Placed range) :
    call.keyRange.Contains (call.keyCache + call.context * call.kvWidth)
        (call.tokens * call.kvWidth) ∧
      call.valueRange.Contains (call.valueCache + call.context * call.kvWidth)
        (call.tokens * call.kvWidth) := by
  have fits : call.context * call.kvWidth + call.tokens * call.kvWidth ≤
      call.maximumContext.toNat * call.kvWidth := by
    rw [← Nat.add_mul]
    exact Nat.mul_le_mul_right _ placed.fits
  refine ⟨⟨Nat.le_add_right _ _, ?_⟩, ⟨Nat.le_add_right _ _, ?_⟩⟩
  · change _ ≤ call.keyCache + call.maximumContext.toNat * call.kvWidth
    omega
  · change _ ≤ call.valueCache + call.maximumContext.toNat * call.kvWidth
    omega

/-- The rows, as the range they lie in. -/
theorem hidden_contained :
    call.hiddenRange.Contains call.hidden (call.tokens * call.hiddenSize) :=
  ⟨Nat.le_refl _, Nat.le_refl _⟩

/-- No call writes to the weights. -/
theorem Placed.weights_kept {call : LayerCall F} {range : HostBuffer} (placed : call.Placed range)
    {store before after : FlatMemory F} (same : SameExcept call.Written before after)
    (held : Holds range store before) : Holds range store after := by
  refine Holds.frame _ _ _ _ _ same ?_ held
  rintro address inside ((inHidden | inWorkspace) | (inKeys | inValues))
  · exact placed.weightsHidden.outside call.hidden_contained address inside inHidden
  · exact placed.weightsWorkspace.outside ⟨Nat.le_refl _, Nat.le_refl _⟩ address inside inWorkspace
  · exact placed.weightsKeys.outside placed.windows.1 address inside inKeys
  · exact placed.weightsValues.outside placed.windows.2 address inside inValues

/-- Neither attention nor the MLP writes to a cache. -/
theorem Placed.caches_kept {call : LayerCall F} {range : HostBuffer} (placed : call.Placed range)
    {before after : FlatMemory F} {keys values : Nat → Nat → F}
    (same : SameExcept (fun address => call.InHidden address ∨ call.InWorkspace address)
      before after)
    (keysStored :
      StoresRows before call.keyCache (call.context + call.tokens) call.kvWidth keys)
    (valuesStored :
      StoresRows before call.valueCache (call.context + call.tokens) call.kvWidth values) :
    StoresRows after call.keyCache (call.context + call.tokens) call.kvWidth keys ∧
      StoresRows after call.valueCache (call.context + call.tokens) call.kvWidth values := by
  obtain ⟨keyRows, valueRows⟩ := placed.cached (Nat.le_refl (call.context + call.tokens))
  have whole : call.workspace.storage.Contains call.workspace.storage.data
      call.workspace.storage.floats := ⟨Nat.le_refl _, Nat.le_refl _⟩
  refine ⟨StoresRows.frame _ _ _ _ _ _ _ same (fun address inside => ?_) keysStored,
    StoresRows.frame _ _ _ _ _ _ _ same (fun address inside => ?_) valuesStored⟩
  · rintro (inHidden | inWorkspace)
    · exact placed.hiddenKeys.symm.outside call.hidden_contained address
        (keyRows.within address inside) inHidden
    · exact placed.keysWorkspace.outside whole address (keyRows.within address inside) inWorkspace
  · rintro (inHidden | inWorkspace)
    · exact placed.hiddenValues.symm.outside call.hidden_contained address
        (valueRows.within address inside) inHidden
    · exact placed.valuesWorkspace.outside whole address (valueRows.within address inside)
        inWorkspace

/-! ## The caches -/

variable (positions contextLengths : List UInt32)

/-- The rows of the slices follow the cached ones. -/
theorem append_spec (range : HostBuffer) (memory : FlatMemory F) (keys values : Nat → Nat → F)
    (checked : call.Checked) (placed : call.Placed range)
    (follow : ∀ token < call.tokens, (positions.getD token 0).toNat = call.context + token)
    (keysCached : StoresRows memory call.keyCache call.context call.kvWidth keys)
    (valuesCached : StoresRows memory call.valueCache call.context call.kvWidth values)
    (keysStored : StoresRows memory call.slices.key call.tokens call.kvWidth
      fun row => keys (call.context + row))
    (valuesStored : StoresRows memory call.slices.value call.tokens call.kvWidth
      fun row => values (call.context + row)) :
    (StoresRows (call.append positions memory) call.keyCache (call.context + call.tokens)
        call.kvWidth keys ∧
      StoresRows (call.append positions memory) call.valueCache (call.context + call.tokens)
        call.kvWidth values) ∧
      SameExcept (fun address => call.KeyWindow address ∨ call.ValueWindow address) memory
        (call.append positions memory) := by
  obtain ⟨_, _, inKey, inValue, _, _⟩ := checked.attentionSlices.contained
  obtain ⟨keyWindow, valueWindow⟩ := placed.windows
  obtain ⟨⟨keysAppended, valuesAppended⟩, same⟩ := append_rows_spec call.slices.key
    call.slices.value call.keyCache call.valueCache call.tokens call.maximumContext.toNat
    call.kvWidth call.context positions _ _ memory follow
    ((placed.keysWorkspace.parts keyWindow inKey).symm)
    ((placed.valuesWorkspace.parts valueWindow inKey).symm)
    ((placed.keysWorkspace.parts keyWindow inValue).symm)
    ((placed.valuesWorkspace.parts valueWindow inValue).symm)
    (placed.caches.parts keyWindow valueWindow) keysStored valuesStored
  -- the rows before the context are neither among the new keys nor among the new values
  have keysKept : StoresRows (call.append positions memory) call.keyCache call.context call.kvWidth
      keys := by
    refine StoresRows.frame _ _ _ _ _ _ _ same (fun address inside => ?_) keysCached
    rintro (inKeys | inValues)
    · unfold Within at inside inKeys
      omega
    · exact placed.caches.outside valueWindow address
        ((placed.cached (Nat.le_add_right _ _)).1.within address inside) inValues
  have valuesKept : StoresRows (call.append positions memory) call.valueCache call.context
      call.kvWidth values := by
    refine StoresRows.frame _ _ _ _ _ _ _ same (fun address inside => ?_) valuesCached
    rintro (inKeys | inValues)
    · exact placed.caches.symm.outside keyWindow address
        ((placed.cached (Nat.le_add_right _ _)).2.within address inside) inKeys
    · unfold Within at inside inValues
      omega
  exact ⟨⟨StoresRows.append _ _ _ _ _ _ keysKept keysAppended,
    StoresRows.append _ _ _ _ _ _ valuesKept valuesAppended⟩, same⟩

/-! ## Attention and MLP -/

variable [FloatOps F]

/-- Each row with what it attends to, in place. -/
theorem attend_spec (range : HostBuffer) (store memory : FlatMemory F)
    (rows queries keys values : Nat → Nat → F) (checked : call.Checked)
    (placed : call.Placed range)
    (length : (contextLengths.getD 0 0).toNat = call.context + call.tokens)
    (held : Holds range store memory)
    (stored : StoresRows memory call.hidden call.tokens call.hiddenSize rows)
    (queriesStored : StoresRows memory call.slices.query call.tokens call.hiddenSize queries)
    (keysStored : StoresRows memory call.keyCache (call.context + call.tokens) call.kvWidth keys)
    (valuesStored : StoresRows memory call.valueCache (call.context + call.tokens) call.kvWidth
      values) :
    StoresRows (call.attend contextLengths memory) call.hidden call.tokens call.hiddenSize
        (fun row => addRow (rows row) (linearRow (weightOf store call.weights.attention.output)
          call.hiddenSize (attentionRow call.spec.queryHeads.toNat call.spec.kvHeads.toNat
            call.spec.headDim.toNat (call.context + row + 1) (queries row) keys values))) ∧
      SameExcept (fun address => call.InHidden address ∨ call.InWorkspace address) memory
        (call.attend contextLengths memory) := by
  have slices := checked.attentionSlices
  obtain ⟨inNormalized, inQuery, _, _, inAttention, inLogits⟩ := slices.contained
  obtain ⟨atNormalized, atQuery, atKey, atValue, atAttention, atLogits, _⟩ := slices
  obtain ⟨keyRows, valueRows⟩ := placed.cached (Nat.le_refl (call.context + call.tokens))
  have output := placed.weight checked.output.elements (by simp [LayerWeights.all])
  have heads : call.tokens * call.spec.queryHeads.toNat * call.spec.headDim.toNat =
      call.tokens * call.hiddenSize := by
    rw [Nat.mul_assoc, checked.heads]
  have separate : AttentionSeparate call.slices.query call.keyCache call.valueCache
      call.slices.attention call.slices.logits call.tokens call.context call.spec.queryHeads.toNat
      call.spec.kvHeads.toNat call.spec.headDim.toNat call.maximumContext.toNat := by
    constructor
    case scratchOutput => rw [heads]; unfold Apart; omega
    case queryScratch => rw [checked.heads]; unfold Apart; omega
    case queryOutput => rw [checked.heads, heads]; unfold Apart; omega
    case keysScratch => exact placed.keysWorkspace.parts keyRows inLogits
    case keysOutput => rw [heads]; exact placed.keysWorkspace.parts keyRows inAttention
    case valuesScratch => exact placed.valuesWorkspace.parts valueRows inLogits
    case valuesOutput => rw [heads]; exact placed.valuesWorkspace.parts valueRows inAttention
  rw [attend]
  -- the rows attend into their slice, with the scores in the scratch
  obtain ⟨attended, same⟩ := attention_rows_spec call.slices.query call.keyCache call.valueCache
    call.slices.attention call.slices.logits call.tokens call.context call.spec.queryHeads.toNat
    call.spec.kvHeads.toNat call.spec.headDim.toNat call.maximumContext.toNat contextLengths
    queries keys values memory length placed.fits checked.groups separate
    (by rw [checked.heads]; exact queriesStored) keysStored valuesStored
  rw [checked.heads] at attended
  rw [heads] at same
  have inScratch : ∀ address, Within call.slices.logits
      (call.tokens * call.spec.queryHeads.toNat * call.maximumContext.toNat) address ∨
      Within call.slices.attention (call.tokens * call.hiddenSize) address →
      call.InWorkspace address := by
    rintro address (inScores | inOutput)
    · exact inLogits.within address inScores
    · exact inAttention.within address inOutput
  have changed : call.WorkspaceOnly memory _ := SameExcept.mono _ _ _ _ inScratch same
  generalize attentionRows _ _ _ _ _ _ _ _ _ _ _ _ memory = attendedMemory at attended changed ⊢
  clear same
  have state : Holds range store attendedMemory ∧ call.WorkspaceOnly memory attendedMemory :=
    ⟨Holds.frame _ _ _ _ _ changed (placed.weightsWorkspace.outside
      ⟨Nat.le_refl _, Nat.le_refl _⟩) held, changed⟩
  -- the product with the output weights, and the residual sum
  obtain ⟨projected, same⟩ := linear_rows_spec call.slices.attention
    call.weights.attention.output.data call.slices.normalized call.tokens call.hiddenSize
    call.hiddenSize _ (weightOf store call.weights.attention.output) attendedMemory
    (by unfold Apart; omega) (placed.weightsWorkspace.parts output inNormalized) attended
    (state.1.weight _ _ _ _ _ output)
  have state := call.slice_written placed inNormalized same state
  generalize linearRows _ _ _ _ _ _ attendedMemory = projectedMemory at projected state ⊢
  clear same
  have kept : StoresRows projectedMemory call.hidden call.tokens call.hiddenSize rows :=
    StoresRows.frame _ _ _ _ _ _ _ state.2 (placed.hiddenWorkspace.outside
      ⟨Nat.le_refl _, Nat.le_refl _⟩) stored
  obtain ⟨summed, same⟩ := add_matrix_spec call.hidden call.slices.normalized call.tokens
    call.hiddenSize _ _ projectedMemory
    ((placed.hiddenWorkspace.parts call.hidden_contained inNormalized).symm) kept projected
  exact ⟨summed, SameExcept.trans _ _ _ _
    (SameExcept.mono _ _ _ _ (fun _ => .inr) state.2)
    (SameExcept.mono _ _ _ _ (fun _ => .inl) same)⟩

/-- Each row with the output of the MLP added, in place. -/
theorem transform_spec (range : HostBuffer) (store memory : FlatMemory F)
    (rows : Nat → Nat → F) (checked : call.Checked) (placed : call.Placed range)
    (held : Holds range store memory)
    (stored : StoresRows memory call.hidden call.tokens call.hiddenSize rows) :
    StoresRows (call.transform memory) call.hidden call.tokens call.hiddenSize
        (fun row => mlpRow store call.spec call.weights (rows row)) ∧
      SameExcept (fun address => call.InHidden address ∨ call.InWorkspace address) memory
        (call.transform memory) := by
  have slices := checked.mlpSlices
  have inNormalized := checked.attentionSlices.contained.1
  obtain ⟨atNormalized, atGate, atUp, fits⟩ := slices
  have inGate : call.workspace.storage.Contains call.slices.gate
      (call.tokens * call.intermediateSize) := call.in_workspace (by omega) (by omega)
  have inUp : call.workspace.storage.Contains call.slices.up
      (call.tokens * call.intermediateSize) := call.in_workspace (by omega) (by omega)
  have norm := placed.weight checked.postAttentionNorm.elements (by simp [LayerWeights.all])
  have gate := placed.weight checked.gate.elements (by simp [LayerWeights.all])
  have up := placed.weight checked.up.elements (by simp [LayerWeights.all])
  have down := placed.weight checked.down.elements (by simp [LayerWeights.all])
  rw [transform]
  -- the rows, normalized
  obtain ⟨normed, same⟩ := rms_norm_rows_spec call.hidden call.weights.postAttentionNorm.data
    call.slices.normalized call.tokens call.hiddenSize call.spec.rmsNormEpsilon _
    (weightOf store call.weights.postAttentionNorm) memory
    (.inr (placed.hiddenWorkspace.parts call.hidden_contained inNormalized))
    (placed.weightsWorkspace.parts norm inNormalized) stored (held.weight _ _ _ _ _ norm)
  have state := call.slice_written placed inNormalized same ⟨held, SameExcept.refl _ memory⟩
  generalize rmsNormRows _ _ _ _ _ _ memory = normedMemory at normed state ⊢
  clear same
  -- the gate and up products of the normalized rows
  obtain ⟨gated, same⟩ := linear_rows_spec call.slices.normalized call.weights.mlp.gate.data
    call.slices.gate call.tokens call.hiddenSize call.intermediateSize _
    (weightOf store call.weights.mlp.gate) normedMemory (by unfold Apart; omega)
    (placed.weightsWorkspace.parts gate inGate) normed (state.1.weight _ _ _ _ _ gate)
  have normed := StoresRows.frame _ _ _ _ _ _ _ same
    (fun address inside => by unfold Within at inside ⊢; omega) normed
  have state := call.slice_written placed inGate same state
  generalize linearRows _ _ _ _ _ _ normedMemory = gatedMemory at normed gated state ⊢
  clear same
  obtain ⟨upped, same⟩ := linear_rows_spec call.slices.normalized call.weights.mlp.up.data
    call.slices.up call.tokens call.hiddenSize call.intermediateSize _
    (weightOf store call.weights.mlp.up) gatedMemory (by unfold Apart; omega)
    (placed.weightsWorkspace.parts up inUp) normed (state.1.weight _ _ _ _ _ up)
  have gated := StoresRows.frame _ _ _ _ _ _ _ same
    (fun address inside => by unfold Within at inside ⊢; omega) gated
  have state := call.slice_written placed inUp same state
  generalize linearRows _ _ _ _ _ _ gatedMemory = uppedMemory at gated upped state ⊢
  clear same
  -- the gated rows, their product with the down weights, and the residual sum
  obtain ⟨activated, same⟩ := gate_matrix_spec call.slices.gate call.slices.up call.tokens
    call.intermediateSize _ _ uppedMemory (by unfold Apart; omega) gated upped
  have state := call.slice_written placed inGate same state
  generalize gateRows _ _ _ uppedMemory = activatedMemory at activated state ⊢
  clear same
  obtain ⟨lowered, same⟩ := linear_rows_spec call.slices.gate call.weights.mlp.down.data
    call.slices.normalized call.tokens call.intermediateSize call.hiddenSize _
    (weightOf store call.weights.mlp.down) activatedMemory (by unfold Apart; omega)
    (placed.weightsWorkspace.parts down inNormalized) activated (state.1.weight _ _ _ _ _ down)
  have state := call.slice_written placed inNormalized same state
  generalize linearRows _ _ _ _ _ _ activatedMemory = loweredMemory at lowered state ⊢
  clear same
  have kept : StoresRows loweredMemory call.hidden call.tokens call.hiddenSize rows :=
    StoresRows.frame _ _ _ _ _ _ _ state.2 (placed.hiddenWorkspace.outside
      ⟨Nat.le_refl _, Nat.le_refl _⟩) stored
  obtain ⟨summed, same⟩ := add_matrix_spec call.hidden call.slices.normalized call.tokens
    call.hiddenSize _ _ loweredMemory
    ((placed.hiddenWorkspace.parts call.hidden_contained inNormalized).symm) kept lowered
  exact ⟨summed, SameExcept.trans _ _ _ _
    (SameExcept.mono _ _ _ _ (fun _ => .inr) state.2)
    (SameExcept.mono _ _ _ _ (fun _ => .inl) same)⟩

/-! ## The whole layer -/

/-- What a call finds: the weights, the rows of its positions and the caches before them. -/
structure Ready (range : HostBuffer) (store : FlatMemory F)
    (states cachedKeys cachedValues : Nat → Nat → F) (memory : FlatMemory F) : Prop where
  held : Holds range store memory
  rows : StoresRows memory call.hidden call.tokens call.hiddenSize
    fun row => states (call.context + row)
  keys : StoresRows memory call.keyCache call.context call.kvWidth cachedKeys
  values : StoresRows memory call.valueCache call.context call.kvWidth cachedValues

/-- What it leaves: the rows after the stage, and the caches up to them. -/
structure Resumed (store : FlatMemory F) (states cachedKeys cachedValues : Nat → Nat → F)
    (before after : FlatMemory F) : Prop where
  rows : StoresRows after call.hidden call.tokens call.hiddenSize fun row =>
    (decoderStage store call.spec call.weights).resume call.context cachedKeys cachedValues states
      (call.context + row)
  keys : StoresRows after call.keyCache (call.context + call.tokens) call.kvWidth
    ((decoderStage store call.spec call.weights).keysFrom call.context cachedKeys states)
  values : StoresRows after call.valueCache (call.context + call.tokens) call.kvWidth
    ((decoderStage store call.spec call.weights).valuesFrom call.context cachedValues states)
  others : SameExcept call.Written before after

theorem effect_spec (range : HostBuffer) (store memory : FlatMemory F)
    (states cachedKeys cachedValues : Nat → Nat → F) (checked : call.Checked)
    (even : call.spec.headDim.toNat % 2 = 0) (placed : call.Placed range)
    (follow : ∀ token < call.tokens, (positions.getD token 0).toNat = call.context + token)
    (length : (contextLengths.getD 0 0).toNat = call.context + call.tokens)
    (ready : call.Ready range store states cachedKeys cachedValues memory) :
    call.Resumed store states cachedKeys cachedValues memory
      (call.effect positions contextLengths memory) := by
  obtain ⟨held, rows, keys, values⟩ := ready
  have inQuery := checked.attentionSlices.contained.2.1
  obtain ⟨keyWindow, valueWindow⟩ := placed.windows
  obtain ⟨keysBefore, valuesBefore⟩ := placed.cached (Nat.le_add_right call.context call.tokens)
  have whole : call.workspace.storage.Contains call.workspace.storage.data
      call.workspace.storage.floats := ⟨Nat.le_refl _, Nat.le_refl _⟩
  rw [effect]
  -- the projections stay in the workspace
  obtain ⟨⟨queried, keyed, valued⟩, same⟩ := call.project_spec positions range store memory states
    checked even placed follow held rows
  have held := Holds.frame _ _ _ _ _ same (placed.weightsWorkspace.outside whole) held
  have rows := StoresRows.frame _ _ _ _ _ _ _ same (placed.hiddenWorkspace.outside whole) rows
  have keys := StoresRows.frame _ _ _ _ _ _ _ same (fun address inside =>
    placed.keysWorkspace.outside whole address (keysBefore.within address inside)) keys
  have values := StoresRows.frame _ _ _ _ _ _ _ same (fun address inside =>
    placed.valuesWorkspace.outside whole address (valuesBefore.within address inside)) values
  have written : SameExcept call.Written memory (call.project positions memory) :=
    SameExcept.mono _ _ _ _ (fun _ inside => .inl (.inr inside)) same
  generalize call.project positions memory = projected at *
  clear same
  -- the new keys and values follow the cached ones
  obtain ⟨⟨keys, values⟩, same⟩ := call.append_spec positions range projected
    ((decoderStage store call.spec call.weights).keysFrom call.context cachedKeys states)
    ((decoderStage store call.spec call.weights).valuesFrom call.context cachedValues states)
    checked placed follow
    (StoresRows.congr _ _ _ _ _ _ (fun row below => by rw [Stage.keysFrom, if_pos below]) keys)
    (StoresRows.congr _ _ _ _ _ _ (fun row below => by rw [Stage.valuesFrom, if_pos below]) values)
    (StoresRows.congr _ _ _ _ _ _ (fun row _ => by
      rw [Stage.keysFrom, if_neg (by omega)]
      rfl) keyed)
    (StoresRows.congr _ _ _ _ _ _ (fun row _ => by
      rw [Stage.valuesFrom, if_neg (by omega)]
      rfl) valued)
  have written := SameExcept.trans _ _ _ _ written
    (SameExcept.mono _ _ _ _ (fun _ inside => .inr inside) same)
  have held := Holds.frame _ _ _ _ _ same (fun address inside => by
    rintro (inKeys | inValues)
    · exact placed.weightsKeys.outside keyWindow address inside inKeys
    · exact placed.weightsValues.outside valueWindow address inside inValues) held
  have rows := StoresRows.frame _ _ _ _ _ _ _ same (fun address inside => by
    rintro (inKeys | inValues)
    · exact placed.hiddenKeys.outside keyWindow address inside inKeys
    · exact placed.hiddenValues.outside valueWindow address inside inValues) rows
  have queried := StoresRows.frame _ _ _ _ _ _ _ same (fun address inside => by
    rintro (inKeys | inValues)
    · exact placed.keysWorkspace.symm.outside keyWindow address (inQuery.within address inside)
        inKeys
    · exact placed.valuesWorkspace.symm.outside valueWindow address (inQuery.within address inside)
        inValues) queried
  generalize call.append positions projected = appended at *
  clear same
  obtain ⟨attended, same⟩ := call.attend_spec contextLengths range store appended _ _ _ _ checked
    placed length held rows queried keys values
  have written := SameExcept.trans _ _ _ _ written
    (SameExcept.mono _ _ _ _ (fun _ inside => .inl inside) same)
  obtain ⟨keys, values⟩ := placed.caches_kept same keys values
  have held := placed.weights_kept (SameExcept.mono _ _ _ _ (fun _ inside => .inl inside) same) held
  generalize call.attend contextLengths appended = attendedMemory at *
  clear same
  obtain ⟨transformed, same⟩ := call.transform_spec range store attendedMemory _ checked placed held
    attended
  obtain ⟨keys, values⟩ := placed.caches_kept same keys values
  exact ⟨transformed, keys, values, SameExcept.trans _ _ _ _ written
    (SameExcept.mono _ _ _ _ (fun _ inside => .inl inside) same)⟩

end LayerCall

end

end MarketForge.Cpu
