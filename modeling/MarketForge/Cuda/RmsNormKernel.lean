import MarketForge.Cuda.DeviceRow

/-!
# The normalization kernels thread by thread

A block of `rms_norm_kernel` or `rms_norm_f16_kernel` normalizes a row. The host lets the output
be the input buffer: then a thread overwrites what it has read itself, and the sum of squares is
behind a barrier by then.
-/
namespace MarketForge.Cuda

open BarrierBlock

abbrev RmsNormMemory (F H : Type) := BlockMemory F Unit H

/-- Where a kernel reads its input: a buffer that nobody writes, or the buffer of its output. -/
inductive RowInput (H : Type) where
  | apart (buffer : UInt64 → H)
  | inPlace

variable {F H : Type}

def RowInput.element {L : Type} (index : UInt64) (s : BlockMemory F L H) : RowInput H → H
  | .apart buffer => buffer index
  | .inPlace => s.rest.output index

/-- The arguments of a block of a normalization kernel. -/
structure RmsNormInput (F H : Type) where
  input : RowInput H
  weight : UInt64 → H
  hiddenSize : UInt64
  epsilon : F

namespace RmsNormInput

variable [DeviceFloat F] [Stored F H] (call : RmsNormInput F H) (row : UInt64)

def rowOffset : UInt64 := row * call.hiddenSize

def element (column : Nat) (s : RmsNormMemory F H) : H :=
  call.input.element (call.rowOffset row + UInt64.ofNat column) s

/-! ### The kernels -/

def sumSquares (thread : Nat) : Program (RmsNormMemory F H) :=
  .forEach (fun column (sum : F) next =>
      .read (call.element row column) fun stored =>
        let value : F := Stored.load stored
        next (DeviceFloat.fmaf value value sum))
    (threadIndices thread call.hiddenSize.toNat) DeviceFloat.zero
    fun sum => .write (Lanes.setCell thread sum) .done

def inverseRms (sum : F) : F :=
  DeviceFloat.rsqrtf (sum / DeviceFloat.ofUInt64 call.hiddenSize + call.epsilon)

def scaled (inverse : F) (column : Nat) (stored : H) : H :=
  Stored.store (Stored.load stored * inverse * Stored.load (call.weight (UInt64.ofNat column)) : F)

def normalize (thread : Nat) : Program (RmsNormMemory F H) :=
  .read (·.cells 0) fun sum =>
    writeRow (call.rowOffset row) call.hiddenSize (fun column next =>
      .read (call.element row column) fun stored =>
        next (call.scaled (call.inverseRms sum) column stored)) thread

/-- The two kernels for one block, as its phases between barriers. They differ in how a buffer
stores a number. -/
def rmsNormPhases : List (Nat → Program (RmsNormMemory F H)) :=
  call.sumSquares row :: (treePhases (· + ·) 8 ++ [call.normalize row])

end RmsNormInput

def rmsNormKernel [DeviceFloat F] (call : RmsNormInput F F) (row : UInt64) :
    List (Nat → Program (RmsNormMemory F F)) :=
  call.rmsNormPhases row

/-- FP16 buffers: the bits of a number, and the conversions of the device. -/
def rmsNormF16Kernel [DeviceFloat F] [Stored F UInt16] (call : RmsNormInput F UInt16)
    (row : UInt64) : List (Nat → Program (RmsNormMemory F UInt16)) :=
  call.rmsNormPhases row

namespace RmsNormInput

variable [DeviceFloat F] [Stored F H] (call : RmsNormInput F H) (row : UInt64)

/-! ### What the block computes -/

/-- The squares that a thread adds up. -/
def localSum (elements : Nat → H) (thread : Nat) : F :=
  (threadIndices thread call.hiddenSize.toNat).foldl (fun sum column =>
    let value : F := Stored.load (elements column)
    DeviceFloat.fmaf value value sum) DeviceFloat.zero

def rowSum (elements : Nat → H) : F := BlockReduction.reduce (· + ·) 8 (call.localSum elements)

/-- The elements of the output row, from those of the input row. -/
def rmsNormRow (elements : Nat → H) (column : Nat) : H :=
  call.scaled (call.inverseRms (call.rowSum elements)) column (elements column)

/-- The input row in the memory before the kernel. -/
def inputRow (before : RmsNormMemory F H) (column : Nat) : H := call.element row column before

variable {call row}

omit [DeviceFloat F] [Stored F H] in
theorem element_of_rest {s s' : RmsNormMemory F H} (same : s'.rest = s.rest) (column : Nat) :
    call.element row column s' = call.element row column s := by
  unfold element RowInput.element
  rw [same]

/-- What a thread leaves of the first phase. -/
structure Summed (call : RmsNormInput F H) (row : UInt64) (thread : Nat)
    (memory s : RmsNormMemory F H) : Prop where
  cell : s.cells thread = call.localSum (call.inputRow row memory) thread
  rest : s.rest = memory.rest

theorem sumSquares_keeps (thread : Nat) (memory : RmsNormMemory F H) :
    Keeps ((owned (fun thread (s : RmsNormMemory F H) => s.cells thread) Lanes.rest).rely thread)
      ((owned (fun thread (s : RmsNormMemory F H) => s.cells thread) Lanes.rest).guarantee thread)
      (Summed call row thread memory) (call.sumSquares row thread) memory := by
  refine Keeps.forEach (fun rest sum s =>
    rest.foldl (fun sum column =>
      let value : F := Stored.load (call.inputRow row memory column)
      DeviceFloat.fmaf value value sum) sum = call.localSum (call.inputRow row memory) thread ∧
    s.rest = memory.rest) ?_ ?_ ⟨rfl, rfl⟩
  · rintro column rest sum s onward ⟨folded, still⟩ later
    refine .read (fun _ => ⟨fun _ _ => rfl, rfl⟩) fun s₁ stored moved found => ?_
    have still₁ := moved.2.trans still
    -- the buffers rest until the last phase, so the read finds what stood there before
    rw [element_of_rest still₁] at found
    subst found
    exact later _ _ ⟨folded, still₁⟩
  · rintro sum s ⟨folded, still⟩
    refine .write (fun s' => ⟨fun other different => Lanes.setCell_of_ne different _ s', rfl⟩)
      fun s₁ moved => fun s₂ moved' => ?_
    exact ⟨moved'.1.trans ((Lanes.setCell_self ..).trans folded),
      moved'.2.trans (moved.2.trans still)⟩

theorem normalize_outcome {memory memory' : RmsNormMemory F H}
    (ran : Interleaves blockDim (call.normalize row) memory memory') :
    RowWritten (call.rowOffset row) call.hiddenSize
      (fun column => call.scaled (call.inverseRms (memory.cells 0)) column
        (call.element row column memory)) memory.rest.output memory'.rest.output := by
  have done := interleaves_post (storing (call.rowOffset row) call.hiddenSize)
    (fun thread => RowDone (call.rowOffset row) call.hiddenSize thread
      (fun column => call.scaled (call.inverseRms (memory.cells 0)) column
        (call.element row column memory)) memory) ?_ ran
  · exact .of_done done
  intro thread within
  refine .read (fun _ => ⟨fun _ _ => rfl, rfl⟩) fun s sum moved found => ?_
  have frame : Undisturbed (call.rowOffset row) call.hiddenSize
      (threadIndices thread call.hiddenSize.toNat) memory s :=
    .of_rely moved fun i => (mem_threadIndices within).mp
  rw [frame.cells] at found
  subst found
  refine writeRow_keeps within frame fun column below own s₁ onward post frame₁ later => ?_
  refine .read (fun _ => ⟨fun _ _ => rfl, rfl⟩) fun s₂ stored moved₂ found₂ => ?_
  -- in place the element is still there, because it is this thread that overwrites it
  have still : call.element row column s₂ = call.element row column memory := by
    have frame₂ : Undisturbed (call.rowOffset row) call.hiddenSize [column] s₁ s₂ :=
      .of_rely moved₂ (by simpa using ⟨below, own⟩)
    unfold element RowInput.element
    cases call.input with
    | apart buffer => rfl
    | inPlace => exact (frame₂.own column (.head _)).trans (frame₁.own column (.head _))
  rw [still] at found₂
  subst found₂
  exact later s₂ moved₂

theorem rmsNormPhases_outcome {memory memory' : RmsNormMemory F H}
    (ran : Runs blockDim (call.rmsNormPhases row) memory memory') :
    RowWritten (call.rowOffset row) call.hiddenSize (call.rmsNormRow (call.inputRow row memory))
      memory.rest.output memory'.rest.output := by
  rw [rmsNormPhases] at ran
  cases ran with
  | cons squares later =>
    have summed := interleaves_post _ _ (fun thread _ => sumSquares_keeps thread memory) squares
    obtain ⟨sums, tree, later⟩ := later.append
    obtain ⟨sum, rest⟩ := treePhases_outcome (by decide) tree
      (call.localSum (call.inputRow row memory))
      fun thread within => (summed thread within).cell
    -- up to the last barrier nobody writes a buffer, so the row is read as it was
    have untouched : sums.rest = memory.rest := rest.trans (summed 0 (by decide)).rest
    cases later with
    | cons last ended =>
      cases ended
      have written := normalize_outcome last
      rw [sum, untouched] at written
      refine ⟨fun column below => (written.row column below).trans ?_, written.outside⟩
      rw [rmsNormRow, rowSum, inputRow, element_of_rest untouched]

end RmsNormInput

end MarketForge.Cuda
