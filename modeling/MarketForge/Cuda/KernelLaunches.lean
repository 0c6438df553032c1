import MarketForge.Cuda.AttentionRace
import MarketForge.Cuda.DeviceGrid
import MarketForge.Cuda.DeviceMemory
import MarketForge.Cuda.RowReals
import MarketForge.Library.BlockAssembly
import Mathlib.Tactic.NormNum.RealSqrt

/-!
# Launches of the normalization and attention kernels

The host functions check sizes, addresses and limits, then launch one block for each row. An
accepted call leaves no room for a wrap of the offsets, so that the blocks keep to their rows.
-/
namespace MarketForge.Cuda

open BarrierBlock

variable {F H : Type}

/-- A launch that writes one buffer, with a grid of blocks that may find anything in their shared
memory. -/
def launchRows {L : Type} (blocks : Nat) (output : UInt64)
    (phases : DeviceMemory H → Nat → List (Nat → Program (BlockMemory F L H))) : Launch H :=
  fun memory memory' => ∃ own : Nat → (Nat → F) × L, ∃ after,
    GridRuns deviceSplit blocks blockDim (phases memory) own (memory output) after ∧
      memory' = Function.update memory output after

theorem launchRows_iff {L : Type} {blocks : Nat} {output : UInt64}
    {phases : DeviceMemory H → Nat → List (Nat → Program (BlockMemory F L H))}
    {memory memory' : DeviceMemory H} :
    launchRows blocks output phases memory memory' ↔
      (∀ address, address ≠ output → memory' address = memory address) ∧
      ∃ own, GridRuns deviceSplit blocks blockDim (phases memory) own (memory output)
        (memory' output) := by
  constructor
  · rintro ⟨own, after, ran, rfl⟩
    refine ⟨fun address other => Function.update_of_ne other .., own, ?_⟩
    rwa [Function.update_self]
  · rintro ⟨others, own, ran⟩
    refine ⟨own, memory' output, ran, funext fun address => ?_⟩
    by_cases here : address = output
    · rw [here, Function.update_self]
    · rw [Function.update_of_ne here]
      exact others address here

/-! ### Normalization -/

/-- The arguments of a block, with the input read in place if it is the output buffer. -/
def rmsNormInput (input weight output : BufferView) (hiddenSize : UInt64) (epsilon : F)
    (memory : DeviceMemory H) : RmsNormInput F H where
  input := if input.address = output.address then .inPlace else .apart (memory input.address)
  weight := memory weight.address
  hiddenSize := hiddenSize
  epsilon := epsilon

/-- `rms_norm_f32` and `rms_norm_f16`, which check the same with another size of an element. -/
def rmsNormCall [DeviceFloat F] [Stored F H] (elementBytes : UInt64)
    (input weight output : BufferView) (rows hiddenSize : UInt64) (epsilon : F)
    (stream : StreamHandle) (launch : Status) : Result (Launch H) :=
  if rows = 0 ∨ hiddenSize = 0 ∨ DeviceFloat.isFinite epsilon = false ∨
      DeviceFloat.isPositive epsilon = false ∨ stream.valid = false then
    .error (.failure .invalidArgument)
  else if uint64Max / hiddenSize < rows then .error (.failure .arithmeticOverflow)
  else if uint64Max / elementBytes < rows * hiddenSize ∨ uint64Max / elementBytes < hiddenSize then
    .error (.failure .arithmeticOverflow)
  else if input.sizeBytes ≠ rows * hiddenSize * elementBytes ∨
      output.sizeBytes ≠ rows * hiddenSize * elementBytes ∨
      weight.sizeBytes ≠ hiddenSize * elementBytes ∨ input.address = 0 ∨ output.address = 0 ∨
      weight.address = 0 ∨ weight.address = input.address ∨ weight.address = output.address then
    .error (.failure .invalidArgument)
  else if intMax < rows then .error (.failure .resourceLimit)
  else if launch.isOk then
    .ok (launchRows rows.toNat output.address fun memory row =>
      (rmsNormInput input weight output hiddenSize epsilon memory).rmsNormPhases
        (UInt64.ofNat row))
  else .error launch

def rmsNormF32 [DeviceFloat F] (input weight output : BufferView) (rows hiddenSize : UInt64)
    (epsilon : F) (stream : StreamHandle) (launch : Status) : Result (Launch F) :=
  rmsNormCall 4 input weight output rows hiddenSize epsilon stream launch

def rmsNormF16 [DeviceFloat F] [Stored F H] (input weight output : BufferView)
    (rows hiddenSize : UInt64) (epsilon : F) (stream : StreamHandle) (launch : Status) :
    Result (Launch H) :=
  rmsNormCall 2 input weight output rows hiddenSize epsilon stream launch

/-! ### Attention -/

def attentionInput (query keyCache valueCache : BufferView) (positions : UInt64 → UInt32)
    (tokens maximumContext queryHeads keyValueHeads headDim : UInt64) (memory : DeviceMemory H) :
    AttentionInput H where
  query := memory query.address
  keyCache := memory keyCache.address
  valueCache := memory valueCache.address
  positions := positions
  tokens := tokens
  maximumContext := maximumContext
  queryHeads := queryHeads
  keyValueHeads := keyValueHeads
  headDim := headDim

def threadsPerBlock64 : UInt64 := 256

def maximumSupportedContext : UInt64 := 8192

variable (F) in
def attentionF16 [DeviceFloat F] [Stored F H]
    (query keyCache valueCache positions output : BufferView) (positionOf : UInt64 → UInt32)
    (batch tokens maximumContext queryHeads keyValueHeads headDim : UInt64)
    (stream : StreamHandle) (launch : Status) : Result (Launch H) :=
  if batch = 0 ∨ tokens = 0 ∨ maximumContext = 0 ∨ maximumSupportedContext < maximumContext ∨
      queryHeads = 0 ∨ keyValueHeads = 0 ∨ queryHeads % keyValueHeads ≠ 0 ∨ headDim = 0 ∨
      threadsPerBlock64 < headDim ∨ stream.valid = false then
    .error (.failure .invalidArgument)
  else match checkedProduct [batch, tokens, queryHeads, headDim],
      checkedProduct [batch, maximumContext, keyValueHeads, headDim],
      checkedProduct [batch, tokens] with
  | .ok queryElements, .ok cacheElements, .ok packedTokens =>
    if uint64Max / 2 < queryElements ∨ uint64Max / 2 < cacheElements ∨
        uint64Max / 4 < packedTokens then
      .error (.failure .arithmeticOverflow)
    else if query.sizeBytes ≠ queryElements * 2 ∨ output.sizeBytes ≠ queryElements * 2 ∨
        keyCache.sizeBytes ≠ cacheElements * 2 ∨ valueCache.sizeBytes ≠ cacheElements * 2 ∨
        positions.sizeBytes ≠ packedTokens * 4 ∨ query.address = 0 ∨ output.address = 0 ∨
        keyCache.address = 0 ∨ valueCache.address = 0 ∨ positions.address = 0 ∨
        query.address = output.address ∨ keyCache.address = valueCache.address ∨
        output.address = keyCache.address ∨ output.address = valueCache.address ∨
        output.address = positions.address then
      .error (.failure .invalidArgument)
    else if intMax < queryElements / headDim then .error (.failure .resourceLimit)
    else if launch.isOk then
      .ok (launchRows (queryElements / headDim).toNat output.address fun memory vector =>
        (attentionInput query keyCache valueCache positionOf tokens maximumContext queryHeads
          keyValueHeads headDim memory).attentionPhases (F := F) (UInt64.ofNat vector))
    else .error launch
  | _, _, _ => .error (.failure .arithmeticOverflow)

/-! ### What accepted calls give -/

theorem rmsNormCall_ok [DeviceFloat F] [Stored F H] {elementBytes : UInt64}
    {input weight output : BufferView} {rows hiddenSize : UInt64} {epsilon : F}
    {stream : StreamHandle} {status : Status} {launch : Launch H}
    (accepted : rmsNormCall elementBytes input weight output rows hiddenSize epsilon stream status =
      .ok launch) :
    rows.toNat * hiddenSize.toNat ≤ 2 ^ 64 ∧ weight.address ≠ output.address ∧
      launch = launchRows rows.toNat output.address fun memory row =>
        (rmsNormInput input weight output hiddenSize epsilon memory).rmsNormPhases
          (UInt64.ofNat row) := by
  obtain ⟨_, accepted⟩ := guard_ok accepted
  obtain ⟨bounded, accepted⟩ := guard_ok accepted
  obtain ⟨_, accepted⟩ := guard_ok accepted
  obtain ⟨places, accepted⟩ := guard_ok accepted
  obtain ⟨_, accepted⟩ := guard_ok accepted
  simp only [not_or] at places
  exact ⟨(le_of_not_quotient_lt bounded).le, places.2.2.2.2.2.2.2, (launch_ok accepted).symm⟩

theorem attentionF16_ok [DeviceFloat F] [Stored F H]
    {query keyCache valueCache positions output : BufferView} {positionOf : UInt64 → UInt32}
    {batch tokens maximumContext queryHeads keyValueHeads headDim : UInt64}
    {stream : StreamHandle} {status : Status} {launch : Launch H}
    (accepted : attentionF16 F query keyCache valueCache positions output positionOf batch tokens
      maximumContext queryHeads keyValueHeads headDim stream status = .ok launch) :
    batch.toNat * tokens.toNat * queryHeads.toNat * headDim.toNat ≤ 2 ^ 64 ∧
      launch = launchRows (batch.toNat * tokens.toNat * queryHeads.toNat) output.address
        fun memory vector =>
          (attentionInput query keyCache valueCache positionOf tokens maximumContext queryHeads
            keyValueHeads headDim memory).attentionPhases (F := F) (UInt64.ofNat vector) := by
  -- the checked products name the sizes, the guards after them compare
  obtain ⟨_, accepted⟩ := guard_ok accepted
  split at accepted
  next queryElements cacheElements packedTokens products cached packed =>
    obtain ⟨_, accepted⟩ := guard_ok accepted
    obtain ⟨_, accepted⟩ := guard_ok accepted
    obtain ⟨_, accepted⟩ := guard_ok accepted
    obtain ⟨nonzero, product⟩ := checkedProduct_ok products
    simp only [List.map_cons, List.map_nil, List.prod_cons, List.prod_nil, Nat.mul_one] at product
    have whole : queryElements.toNat =
        batch.toNat * tokens.toNat * queryHeads.toNat * headDim.toNat := by
      rw [product, Nat.mul_assoc, Nat.mul_assoc]
    -- the host divides the query elements by the width again, which is exact
    have positive : 0 < headDim.toNat := Nat.pos_of_ne_zero fun zero =>
      nonzero headDim (by simp) (UInt64.toNat_inj.mp zero)
    have vectors : (queryElements / headDim).toNat =
        batch.toNat * tokens.toNat * queryHeads.toNat := by
      rw [UInt64.toNat_div, whole, Nat.mul_div_cancel _ positive]
    have bounded := queryElements.toNat_lt
    rw [whole] at bounded
    refine ⟨bounded.le, ?_⟩
    rw [← vectors]
    exact (launch_ok accepted).symm
  next => cases accepted

/-! ### Blocks keep to their rows -/

section Confinement

variable [DeviceFloat F] [Stored F H]

theorem rmsNormPhases_confined {blocks : Nat} {call : RmsNormInput F H}
    (fits : blocks * call.hiddenSize.toNat ≤ 2 ^ 64) {block : Nat} (among : block < blocks) :
    ∀ phase ∈ call.rmsNormPhases (UInt64.ofNat block), ∀ thread,
      RowConfined blocks call.hiddenSize block (phase thread) := by
  -- in place a block reads its own row, otherwise a buffer that no block writes
  have reads : ∀ column < call.hiddenSize.toNat, ∀ next : H → Program (RmsNormMemory F H),
      (∀ stored, RowConfined blocks call.hiddenSize block (next stored)) →
      RowConfined blocks call.hiddenSize block
        (.read (call.element (UInt64.ofNat block) column) next) := by
    intro column below next onward
    unfold RmsNormInput.element RowInput.element
    cases call.input with
    | apart buffer => exact .read (fun _ _ _ => rfl) onward
    | inPlace => exact confined_readOwn among below onward
  intro phase listed thread
  rw [RmsNormInput.rmsNormPhases, List.mem_cons, List.mem_append, List.mem_singleton] at listed
  rcases listed with rfl | tree | rfl
  · refine .forEach (fun column visited _ onward later => ?_) (fun _ => ?_) _
    · exact reads column (BlockReduction.strided_lt (by decide) visited) _ fun _ => later _
    · exact confined_setCell _ _ trivial
  · exact confined_treePhases 8 phase tree thread
  · refine confined_readCell _ fun _ => confined_writeRow fits among
      fun column below onward later => ?_
    exact reads column below _ fun _ => later _

theorem attentionPhases_confined {blocks : Nat} {input : AttentionInput H}
    (fits : blocks * input.headDim.toNat ≤ 2 ^ 64) {block : Nat} (among : block < blocks) :
    ∀ phase ∈ input.attentionPhases (F := F) (UInt64.ofNat block), ∀ thread,
      RowConfined blocks input.headDim block (phase thread) := by
  intro phase listed thread
  unfold AttentionInput.attentionPhases at listed
  split at listed
  · rw [List.mem_singleton] at listed
    subst listed
    exact confined_writeRow fits among fun _ _ _ later => later _
  · simp only [List.mem_cons, List.mem_append, List.not_mem_nil, or_false] at listed
    rcases listed with rfl | tree | rfl | tree | rfl
    -- the scores stay in the shared memory of the block
    · refine .forEach (fun _ _ _ _ later => ?_) (fun _ => ?_) _
      · exact confined_setScratch _ (later _)
      · exact confined_setCell _ _ trivial
    · exact confined_treePhases 8 phase tree thread
    · refine confined_readCell _ fun _ => .forEach (fun keyToken _ _ _ later => ?_) (fun _ => ?_) _
      · exact confined_readScratch (· keyToken) fun _ => confined_setScratch _ (later _)
      · exact confined_setCell _ _ trivial
    · exact confined_treePhases 8 phase tree thread
    · refine confined_readCell _ fun _ => confined_writeRow fits among fun _ _ _ later => ?_
      refine .forEach (fun keyToken _ _ _ later' => ?_) (fun _ => later _) _
      exact confined_readScratch (· keyToken) fun _ => later' _

end Confinement

/-! ### What launches leave -/

section Outcomes

variable [DeviceFloat F] [Stored F H]

/-- The row that a block finds where its row of the input stands. -/
def bufferRow (length : UInt64) (buffer : UInt64 → H) (block i : Nat) : H :=
  buffer (blockOffset length block + UInt64.ofNat i)

/-- Whatever the order in which the threads of all blocks act and whether or not it is in place, an
accepted normalization leaves one memory. -/
theorem rmsNormCall_launches {elementBytes : UInt64} {input weight output : BufferView}
    {rows hiddenSize : UInt64} {epsilon : F} {stream : StreamHandle} {status : Status}
    {launch : Launch H}
    (accepted : rmsNormCall elementBytes input weight output rows hiddenSize epsilon stream status =
      .ok launch) (memory : DeviceMemory H) :
    (∃ memory', launch memory memory') ∧
    ∀ memory', launch memory memory' ↔
      (∀ address, address ≠ output.address → memory' address = memory address) ∧
      RowsWritten rows.toNat hiddenSize
        (fun row => (rmsNormInput input weight output hiddenSize epsilon memory).rmsNormRow
          (bufferRow hiddenSize (memory input.address) row))
        (memory output.address) (memory' output.address) := by
  obtain ⟨fits, _, rfl⟩ := rmsNormCall_ok accepted
  -- in place or not, a block starts with its row of the input buffer
  have initial : ∀ (own : (Nat → F) × Unit) (row : Nat),
      (rmsNormInput input weight output hiddenSize epsilon memory).inputRow (UInt64.ofNat row)
        (deviceSplit.join own (memory output.address)) =
      bufferRow hiddenSize (memory input.address) row := by
    intro own row
    funext column
    unfold RmsNormInput.inputRow RmsNormInput.element RowInput.element rmsNormInput bufferRow
    dsimp only
    by_cases same : input.address = output.address
    · rw [if_pos same, same]
      rfl
    · rw [if_neg same]
      rfl
  have outcome : ∀ own after, GridRuns deviceSplit rows.toNat blockDim (fun row =>
      (rmsNormInput input weight output hiddenSize epsilon memory).rmsNormPhases
        (UInt64.ofNat row)) own (memory output.address) after →
      RowsWritten rows.toNat hiddenSize
        (fun row => (rmsNormInput input weight output hiddenSize epsilon memory).rmsNormRow
          (bufferRow hiddenSize (memory input.address) row)) (memory output.address) after := by
    intro own after ran
    obtain ⟨each, outside⟩ := grid_projects (fun row among => rmsNormPhases_confined fits among) ran
    refine .of_blocks (fun row among => ?_) outside
    obtain ⟨last, alone, same⟩ := each row among
    have written := RmsNormInput.rmsNormPhases_outcome alone
    rw [initial] at written
    exact ⟨last.rest.output, written, same⟩
  obtain ⟨after, ran⟩ := grid_exists deviceSplit blockDim rows.toNat (fun row =>
    (rmsNormInput input weight output hiddenSize epsilon memory).rmsNormPhases
      (UInt64.ofNat row)) (fun _ => (fun _ => DeviceFloat.zero, ())) (memory output.address)
  refine ⟨⟨_, _, after, ran, rfl⟩, fun memory' => ?_⟩
  rw [launchRows_iff]
  refine and_congr_right fun _ => ⟨?_, fun written => ?_⟩
  · rintro ⟨own, ran⟩
    exact outcome own _ ran
  · -- some launch ends, and it can only have left what is written
    exact ⟨_, written.unique (outcome _ _ ran) ▸ ran⟩

/-- The rows (3, 4) and (7, 4) in place. With what is added to them their mean squares are 16 and
36. -/
theorem rmsNormCall_launches_in_place :
    let memory : DeviceMemory ℝ := fun address index =>
      if address = 4096 then
        if index = 0 then 3 else if index = 2 then 7 else if index < 4 then 4 else 5
      else if index = 0 then 2 else 3
    ∃ (launch : Launch ℝ) (memory' : DeviceMemory ℝ),
      rmsNormF32 ⟨4096, 16⟩ ⟨8192, 8⟩ ⟨4096, 16⟩ 2 2 (7 / 2 : ℝ) ⟨1⟩ .success = .ok launch ∧
      (∀ after, launch memory after ↔ after = memory') ∧
      memory' 4096 0 = 3 / 2 ∧ memory' 4096 1 = 3 ∧ memory' 4096 2 = 7 / 3 ∧ memory' 4096 3 = 2 ∧
      memory' 4096 4 = 5 ∧ memory' 8192 = memory 8192 := by
  intro memory
  have accepted : ∃ launch : Launch ℝ,
      rmsNormCall 4 ⟨4096, 16⟩ ⟨8192, 8⟩ ⟨4096, 16⟩ 2 2 (7 / 2 : ℝ) ⟨1⟩ .success = .ok launch := by
    have positive : DeviceFloat.isPositive (7 / 2 : ℝ) = true := decide_eq_true (by norm_num)
    refine ⟨_, (if_neg ?_).trans rfl⟩
    rw [positive]
    decide
  obtain ⟨launch, accepted⟩ := accepted
  -- some launch ends, and what it leaves is known cell by cell
  obtain ⟨⟨memory', launched⟩, outcome⟩ := rmsNormCall_launches accepted memory
  obtain ⟨others, rows⟩ := (outcome memory').mp launched
  have cell : ∀ row < 2, ∀ column < 2,
      memory' 4096 (blockOffset 2 row + UInt64.ofNat column) =
        memory 4096 (blockOffset 2 row + UInt64.ofNat column) / (if row = 0 then 4 else 6) *
          memory 8192 (UInt64.ofNat column) := by
    intro row among column below
    have written := rows.rows row among column below
    -- half of 9 + 16 and of 49 + 16, each with 7 / 2 added
    have root : √((∑ column ∈ Finset.range 2, bufferRow 2 (memory 4096) row column ^ 2) / 2 +
        7 / 2) = if row = 0 then 4 else 6 := by
      rw [Finset.sum_range_succ, Finset.sum_range_one]
      obtain rfl | rfl : row = 0 ∨ row = 1 := by omega
      · simp [bufferRow, memory, blockOffset]
        norm_num
      · simp [bufferRow, memory, blockOffset]
        norm_num
    rw [written, RmsNormInput.rmsNormRow_real, ← root]
    rfl
  refine ⟨launch, memory', accepted, fun after => ?_, ?_⟩
  · constructor
    · intro ended
      obtain ⟨others', rows'⟩ := (outcome after).mp ended
      funext address
      by_cases here : address = 4096
      · rw [here]
        exact rows'.unique rows
      · rw [others address here, others' address here]
    · rintro rfl
      exact launched
  · refine ⟨(cell 0 (by decide) 0 (by decide)).trans ?_,
      (cell 0 (by decide) 1 (by decide)).trans ?_,
      (cell 1 (by decide) 0 (by decide)).trans ?_, (cell 1 (by decide) 1 (by decide)).trans ?_, ?_,
      others 8192 (by decide)⟩
    · simp [memory, blockOffset]
      norm_num
    · simp [memory, blockOffset]
    · simp [memory, blockOffset]
      norm_num
    · simp [memory, blockOffset]
      norm_num
    · exact rows.outside 4 (by unfold OutsideRow blockOffset; decide)

/-- The blocks of an attention grid leave what each of them can leave alone, and every choice of
late threads in every block is that of some run. -/
theorem attentionPhases_grid {input : AttentionInput H} {vectors : Nat}
    (fits : vectors * input.headDim.toNat ≤ 2 ^ 64) {before after : UInt64 → H} :
    (∃ own, GridRuns deviceSplit vectors blockDim
      (fun vector => input.attentionPhases (F := F) (UInt64.ofNat vector)) own before after) ↔
    ∃ late : Nat → Nat → Bool, (∀ vector, late vector 0 = false) ∧
      RowsWritten vectors input.headDim
        (fun vector => input.attentionRow F (UInt64.ofNat vector) (late vector)) before after := by
  have confined : ∀ vector < vectors, ∀ phase ∈ input.attentionPhases (F := F)
      (UInt64.ofNat vector), ∀ thread, RowConfined vectors input.headDim vector (phase thread) :=
    fun vector among => attentionPhases_confined fits among
  constructor
  · rintro ⟨own, ran⟩
    obtain ⟨each, outside⟩ := grid_projects confined ran
    -- beyond the grid nobody is late
    have rows : ∀ vector, ∃ late : Nat → Bool, late 0 = false ∧ (vector < vectors → ∃ left,
        RowWritten (blockOffset input.headDim vector) input.headDim
          (input.attentionRow F (UInt64.ofNat vector) late) before left ∧
        rowPart vectors input.headDim vector left =
          rowPart vectors input.headDim vector after) := by
      intro vector
      by_cases among : vector < vectors
      · obtain ⟨last, alone, same⟩ := each vector among
        obtain ⟨late, honest, written⟩ := (attentionPhases_outcomes ..).mp ⟨last, alone, rfl⟩
        exact ⟨late, honest, fun _ => ⟨last.rest.output, written, same⟩⟩
      · exact ⟨fun _ => false, rfl, fun among' => absurd among' among⟩
    choose late honest written using rows
    exact ⟨late, honest, .of_blocks written outside⟩
  · rintro ⟨late, honest, written⟩
    have alone : ∀ vector, ∃ last : AttentionMemory F H,
        Runs blockDim (input.attentionPhases (UInt64.ofNat vector))
          (deviceSplit.join (fun _ => DeviceFloat.zero, fun _ => DeviceFloat.zero) before) last ∧
        RowWritten (input.outputOffset (UInt64.ofNat vector)) input.headDim
          (input.attentionRow F (UInt64.ofNat vector) (late vector)) before last.rest.output := by
      intro vector
      obtain ⟨output, row⟩ := rowWritten_exists (input.outputOffset (UInt64.ofNat vector))
        input.headDim (input.attentionRow F (UInt64.ofNat vector) (late vector)) before
      obtain ⟨last, ran, rfl⟩ := (attentionPhases_outcomes input (UInt64.ofNat vector)
        (deviceSplit.join _ before) output).mpr ⟨late vector, honest vector, row⟩
      exact ⟨last, ran, row⟩
    choose last ran row using alone
    obtain ⟨after', whole, parts⟩ := grid_assembles confined fun vector _ => ran vector
    have outside := (grid_projects confined whole).2
    -- one choice of late threads leaves one output
    have reached : RowsWritten vectors input.headDim (fun vector =>
        input.attentionRow F (UInt64.ofNat vector) (late vector)) before after' :=
      .of_blocks (fun vector among => ⟨_, row vector, parts vector among⟩) outside
    exact ⟨_, written.unique reached ▸ whole⟩

/-- The memories that an accepted attention can leave are exactly those of some late threads in
each block, never thread zero. -/
theorem attentionF16_launches {query keyCache valueCache positions output : BufferView}
    {positionOf : UInt64 → UInt32}
    {batch tokens maximumContext queryHeads keyValueHeads headDim : UInt64}
    {stream : StreamHandle} {status : Status} {launch : Launch H}
    (accepted : attentionF16 F query keyCache valueCache positions output positionOf batch tokens
      maximumContext queryHeads keyValueHeads headDim stream status = .ok launch)
    (memory memory' : DeviceMemory H) :
    launch memory memory' ↔
      (∀ address, address ≠ output.address → memory' address = memory address) ∧
      ∃ late : Nat → Nat → Bool, (∀ vector, late vector 0 = false) ∧
        RowsWritten (batch.toNat * tokens.toNat * queryHeads.toNat) headDim
          (fun vector => (attentionInput query keyCache valueCache positionOf tokens
            maximumContext queryHeads keyValueHeads headDim memory).attentionRow F
              (UInt64.ofNat vector) (late vector))
          (memory output.address) (memory' output.address) := by
  obtain ⟨fits, rfl⟩ := attentionF16_ok accepted
  rw [launchRows_iff]
  exact and_congr_right fun _ => attentionPhases_grid fits

/-- A token with two keys of score zero, of which the second has a value. Thread one has the
second key, and whether it is late decides which of two memories the launch leaves. -/
theorem attentionF16_launches_two_keys :
    let memory : DeviceMemory ℝ := fun address index =>
      if address = 8448 ∧ index = 1 then 1 else 0
    let left (element : ℝ) : DeviceMemory ℝ :=
      Function.update memory 12288 (Function.update (memory 12288) 0 element)
    ∃ launch : Launch ℝ,
      attentionF16 ℝ ⟨4096, 2⟩ ⟨8192, 4⟩ ⟨8448, 4⟩ ⟨8704, 4⟩ ⟨12288, 2⟩ (fun _ => 1) 1 1 2 1 1 1
        ⟨1⟩ .success = .ok launch ∧
      (∀ memory', launch memory memory' ↔
        memory' = left (1 / 2) ∨ memory' = left (Real.exp (-1) / (1 + Real.exp (-1)))) ∧
      Real.exp (-1) / (1 + Real.exp (-1)) < 1 / 2 := by
  intro memory left
  have accepted : ∃ launch : Launch ℝ,
      attentionF16 ℝ ⟨4096, 2⟩ ⟨8192, 4⟩ ⟨8448, 4⟩ ⟨8704, 4⟩ ⟨12288, 2⟩ (fun _ => 1) 1 1 2 1 1 1
        ⟨1⟩ .success = .ok launch := ⟨_, rfl⟩
  obtain ⟨launch, accepted⟩ := accepted
  let input := attentionInput ⟨4096, 2⟩ ⟨8192, 4⟩ ⟨8448, 4⟩ (fun _ => 1) 1 2 1 1 1 memory
  have row : ∀ late : Nat → Bool, late 0 = false → input.attentionRow ℝ 0 late 0 =
      if late 1 then Real.exp (-1) / (1 + Real.exp (-1)) else 1 / 2 := by
    intro late honest
    have level : ∀ keyToken < (input.validKeys 0).toNat, (input.logit 0 keyToken : ℝ) = 0 := by
      intro keyToken _
      simp [AttentionInput.logit, input, attentionInput, memory]
    -- thread zero has the first key and is never late, so that key weighs one
    have weights : ∀ keyToken < 2, input.keyWeight 0 late keyToken =
        if late keyToken then Real.exp (-1) else 1 := fun keyToken below =>
      AttentionInput.keyWeight_level (by decide) (by decide) level late below
    have first : input.keyValue 0 0 0 = 0 := if_neg (by decide)
    have second : input.keyValue 0 1 0 = 1 := if_pos (by decide)
    rw [AttentionInput.attentionRow_mean (by decide), show (input.validKeys 0).toNat = 2 from rfl,
      Finset.sum_range_succ, Finset.sum_range_one, Finset.sum_range_succ,
      Finset.sum_range_one, weights 0 (by decide),
      weights 1 (by decide), honest, first, second]
    cases late 1 <;> norm_num
  have outcome : ∀ memory', launch memory memory' ↔ ∃ late : Nat → Nat → Bool,
      (∀ vector, late vector 0 = false) ∧ memory' = left (input.attentionRow ℝ 0 (late 0) 0) := by
    intro memory'
    rw [attentionF16_launches accepted]
    constructor
    · rintro ⟨others, late, honest, rows⟩
      exact ⟨late, honest, Function.eq_update_iff.mpr ⟨rowsWritten_one.mp rows, others⟩⟩
    · rintro ⟨late, honest, same⟩
      obtain ⟨rows, others⟩ := Function.eq_update_iff.mp same
      exact ⟨others, late, honest, rowsWritten_one.mpr rows⟩
  refine ⟨launch, accepted, fun memory' => ?_, ?_⟩
  · rw [outcome]
    constructor
    · rintro ⟨late, honest, rfl⟩
      rw [row _ (honest 0)]
      cases late 0 1
      · exact .inl rfl
      · exact .inr rfl
    · rintro (rfl | rfl)
      · exact ⟨fun _ _ => false, fun _ => rfl, by rw [row _ rfl]; rfl⟩
      · exact ⟨fun _ thread => thread = 1, fun _ => rfl, by rw [row _ rfl]; rfl⟩
  · have smaller : Real.exp (-1) < 1 := Real.exp_lt_one_iff.mpr (by norm_num)
    rw [div_lt_div_iff₀ (by positivity) (by norm_num)]
    linarith

end Outcomes

end MarketForge.Cuda
