import MarketForge.Cuda.DeviceRow
import MarketForge.Library.BlockGrid
import MarketForge.Library.Grid

/-!
# Launches that write a row for each block

The blocks of a launch write the rows of one output buffer. As long as the rows fit in 64 bits
they are apart, and what a launch leaves is what each block leaves of its row when it runs alone
(`RowsWritten.of_blocks`).
-/
namespace MarketForge.Cuda

open BarrierBlock

variable {F L H : Type}

/-- Reduction cells and scratch belong to a block, the output buffer to the launch. -/
def deviceSplit : Split (BlockMemory F L H) ((Nat → F) × L) (UInt64 → H) where
  own s := (s.cells, s.rest.scratch)
  global s := s.rest.output
  join own output := ⟨own.1, ⟨own.2, output⟩⟩
  own_join _ _ := rfl
  global_join _ _ := rfl
  join_eta _ := rfl

/-- Where the row of a block begins. -/
def blockOffset (length : UInt64) (block : Nat) : UInt64 := UInt64.ofNat block * length

section Parts

variable (blocks : Nat) (length : UInt64)

/-- The row of a block of the launch. -/
def rowPart (block : Nat) (output : UInt64 → H) :
    {i : Nat // i < length.toNat ∧ block < blocks} → H :=
  fun i => output (blockOffset length block + UInt64.ofNat i)

/-- What no block of the launch writes. -/
def outsideRows (output : UInt64 → H) :
    {index // ∀ block < blocks, OutsideRow (blockOffset length block) length index} → H :=
  fun index => output index

/-- A block that keeps to its row. -/
abbrev RowConfined (block : Nat) : Program (BlockMemory F L H) → Prop :=
  Confined deviceSplit (rowPart blocks length) (outsideRows blocks length) block

abbrev RowAlike (block : Nat) : BlockMemory F L H → BlockMemory F L H → Prop :=
  Alike deviceSplit (rowPart blocks length) (outsideRows blocks length) block

variable {blocks length}

/-- Without a wrap no two cells of the rows coincide. -/
theorem row_cell_toNat (fits : blocks * length.toNat ≤ 2 ^ 64) {block i : Nat}
    (among : block < blocks) (below : i < length.toNat) :
    (blockOffset length block + UInt64.ofNat i).toNat = block * length.toNat + i := by
  have inside := Library.Grid.cell_lt among below
  have row := Nat.mul_le_mul_right length.toNat (Nat.succ_le_of_lt among)
  rw [Nat.succ_mul] at row
  have positive : 0 < length.toNat := Nat.zero_lt_of_lt below
  have narrow : block < UInt64.size := calc
    block ≤ block * length.toNat := Nat.le_mul_of_pos_right block positive
    _ < 2 ^ 64 := by omega
  have small : i < UInt64.size := below.trans length.toNat_lt
  rw [blockOffset, UInt64.toNat_add, UInt64.toNat_mul, UInt64.toNat_ofNat_of_lt' narrow,
    UInt64.toNat_ofNat_of_lt' small, Nat.mod_eq_of_lt (by omega), Nat.mod_eq_of_lt (by omega)]

theorem row_cells_apart (fits : blocks * length.toNat ≤ 2 ^ 64) {block other i j : Nat}
    (among : block < blocks) (below : i < length.toNat) (among' : other < blocks)
    (below' : j < length.toNat)
    (same : blockOffset length block + UInt64.ofNat i =
      blockOffset length other + UInt64.ofNat j) : block = other := by
  have values := congrArg UInt64.toNat same
  rw [row_cell_toNat fits among below, row_cell_toNat fits among' below'] at values
  have row := congrArg (· / length.toNat) values
  rwa [Library.Grid.cell_div below, Library.Grid.cell_div below'] at row

/-! ### Confined programs -/

variable {block : Nat}

theorem RowAlike.cells {s s' : BlockMemory F L H} (alike : RowAlike blocks length block s s') :
    s.cells = s'.cells := congrArg Prod.fst alike.own

theorem RowAlike.scratch {s s' : BlockMemory F L H} (alike : RowAlike blocks length block s s') :
    s.rest.scratch = s'.rest.scratch := congrArg Prod.snd alike.own

theorem confined_setCell {next : Program (BlockMemory F L H)} (lane : Nat) (value : F)
    (onward : RowConfined blocks length block next) :
    RowConfined blocks length block (.write (Lanes.setCell lane value) next) := by
  refine .write (fun _ => ⟨fun _ _ => rfl, rfl⟩) (fun s s' alike => ⟨?_, alike.part,
    alike.common⟩) onward
  have scratch := RowAlike.scratch alike
  refine Prod.ext ?_ scratch
  change Function.update s.cells lane value = Function.update s'.cells lane value
  rw [RowAlike.cells alike]

theorem confined_setScratch {next : Program (BlockMemory F L H)} (update : L → L)
    (onward : RowConfined blocks length block next) :
    RowConfined blocks length block (.write (BlockMemory.setScratch update) next) := by
  refine .write (fun _ => ⟨fun _ _ => rfl, rfl⟩) (fun s s' alike => ⟨?_, alike.part,
    alike.common⟩) onward
  have cells := RowAlike.cells alike
  have scratch := congrArg update (RowAlike.scratch alike)
  exact Prod.ext cells scratch

theorem confined_readCell {next : F → Program (BlockMemory F L H)} (lane : Nat)
    (onward : ∀ value, RowConfined blocks length block (next value)) :
    RowConfined blocks length block (.read (·.cells lane) next) :=
  .read (fun _ _ alike => congrFun (RowAlike.cells alike) lane) onward

theorem confined_readScratch {α : Type} {next : α → Program (BlockMemory F L H)} (cell : L → α)
    (onward : ∀ value, RowConfined blocks length block (next value)) :
    RowConfined blocks length block (.read (fun s => cell s.rest.scratch) next) :=
  .read (fun _ _ alike => congrArg cell (RowAlike.scratch alike)) onward

theorem confined_readOwn {next : H → Program (BlockMemory F L H)} (among : block < blocks) {i : Nat}
    (below : i < length.toNat) (onward : ∀ value, RowConfined blocks length block (next value)) :
    RowConfined blocks length block
      (.read (·.rest.output (blockOffset length block + UInt64.ofNat i)) next) :=
  .read (fun _ _ alike => congrFun alike.part ⟨i, below, among⟩) onward

theorem confined_setOutput {next : Program (BlockMemory F L H)}
    (fits : blocks * length.toNat ≤ 2 ^ 64) (among : block < blocks) {i : Nat}
    (below : i < length.toNat) (value : H) (onward : RowConfined blocks length block next) :
    RowConfined blocks length block
      (.write (BlockMemory.setOutput (blockOffset length block + UInt64.ofNat i) value) next) := by
  refine .write (fun s => ⟨fun other different => funext fun j => ?_, funext fun index => ?_⟩)
    (fun s s' alike => ⟨alike.own, funext fun j => ?_, funext fun index => ?_⟩) onward
  · exact Function.update_of_ne (fun same => different
      (row_cells_apart fits j.2.2 j.2.1 among below same)) _ _
  · exact Function.update_of_ne (index.2 block among i below) _ _
  · -- both memories get the same value in the same place
    have part := congrFun alike.part j
    change Function.update s.rest.output _ value _ = Function.update s'.rest.output _ value _
    by_cases here : blockOffset length block + UInt64.ofNat j =
        blockOffset length block + UInt64.ofNat i
    · rw [here, Function.update_self, Function.update_self]
    · rw [Function.update_of_ne here, Function.update_of_ne here]
      exact part
  · have place := index.2 block among i below
    exact (Function.update_of_ne place _ _).trans
      ((congrFun alike.common index).trans (Function.update_of_ne place _ _).symm)

theorem confined_treePhases {merge : F → F → F} (levels : Nat) :
    ∀ phase ∈ treePhases (G := RowMemory L H) merge levels, ∀ thread,
      RowConfined blocks length block (phase thread) := by
  intro phase listed thread
  obtain ⟨stride, _, rfl⟩ := List.mem_map.mp listed
  unfold mergeCells
  split
  · exact confined_readCell _ fun _ => confined_readCell _ fun _ => confined_setCell _ _ trivial
  · trivial

theorem confined_writeRow {element : Nat → (H → Program (BlockMemory F L H)) →
      Program (BlockMemory F L H)} {thread : Nat}
    (fits : blocks * length.toNat ≤ 2 ^ 64) (among : block < blocks)
    (each : ∀ i < length.toNat, ∀ onward,
      (∀ value, RowConfined blocks length block (onward value)) →
      RowConfined blocks length block (element i onward)) :
    RowConfined blocks length block
      (writeRow (blockOffset length block) length element thread) := by
  refine .forEach (fun i listed _ onward later => ?_) (fun _ => by trivial) ()
  have below : i < length.toNat := BlockReduction.strided_lt (by decide) listed
  exact each i below _ fun value => confined_setOutput fits among below value (later ())

end Parts

/-! ### What a launch leaves -/

/-- The output of a launch: a row for each block, and the rest as it was. -/
structure RowsWritten (blocks : Nat) (length : UInt64) (value : Nat → Nat → H)
    (before after : UInt64 → H) : Prop where
  rows : ∀ block < blocks, ∀ i < length.toNat,
    after (blockOffset length block + UInt64.ofNat i) = value block i
  outside : ∀ index, (∀ block < blocks, OutsideRow (blockOffset length block) length index) →
    after index = before index

theorem RowsWritten.unique {blocks : Nat} {length : UInt64} {value : Nat → Nat → H}
    {before after after' : UInt64 → H} (written : RowsWritten blocks length value before after)
    (written' : RowsWritten blocks length value before after') : after = after' := by
  funext index
  by_cases outside : ∀ block < blocks, OutsideRow (blockOffset length block) length index
  · rw [written.outside index outside, written'.outside index outside]
  · simp only [OutsideRow, not_forall, not_not, exists_prop] at outside
    obtain ⟨block, among, i, below, rfl⟩ := outside
    rw [written.rows block among i below, written'.rows block among i below]

/-- One block that writes one element. -/
theorem rowsWritten_one {value : Nat → Nat → H} {before after : UInt64 → H} :
    RowsWritten 1 1 value before after ↔ after = Function.update before 0 (value 0 0) := by
  have updated : RowsWritten 1 1 value before (Function.update before 0 (value 0 0)) := by
    constructor
    · intro block among i below
      obtain rfl : block = 0 := Nat.lt_one_iff.mp among
      obtain rfl : i = 0 := Nat.lt_one_iff.mp below
      exact Function.update_self ..
    · intro index outside
      exact Function.update_of_ne (outside 0 (by decide) 0 (by decide)) ..
  exact ⟨fun written => written.unique updated, fun same => same ▸ updated⟩

/-- What a launch leaves of its rows is what the blocks leave of them alone. -/
theorem RowsWritten.of_blocks {blocks : Nat} {length : UInt64} {value : Nat → Nat → H}
    {before after : UInt64 → H}
    (each : ∀ block < blocks, ∃ output,
      RowWritten (blockOffset length block) length (value block) before output ∧
        rowPart blocks length block output = rowPart blocks length block after)
    (outside : outsideRows blocks length after = outsideRows blocks length before) :
    RowsWritten blocks length value before after where
  rows block among i below := by
    obtain ⟨output, written, same⟩ := each block among
    exact (congrFun same ⟨i, below, among⟩).symm.trans (written.row i below)
  outside index place := congrFun outside ⟨index, place⟩

end MarketForge.Cuda
