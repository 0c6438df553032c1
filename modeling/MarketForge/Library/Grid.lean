import Mathlib.Data.Nat.Notation

/-!
# Cells of a grid

A grid of rows stored one after another: the cell of a row and a column.
-/
namespace MarketForge.Library.Grid

variable {rows width row column : Nat}

/-- A row ends within the grid. -/
theorem row_end (width : Nat) (below : row < rows) : row * width + width ≤ rows * width :=
  calc row * width + width = (row + 1) * width := (Nat.succ_mul row width).symm
    _ ≤ rows * width := Nat.mul_le_mul_right width below

theorem cell_lt (rowBelow : row < rows) (columnBelow : column < width) :
    row * width + column < rows * width :=
  calc row * width + column < row * width + width := Nat.add_lt_add_left columnBelow _
    _ ≤ rows * width := row_end width rowBelow

/-- The row of a cell. -/
theorem cell_div (columnBelow : column < width) : (row * width + column) / width = row := by
  have some : 0 < width := Nat.zero_lt_of_lt columnBelow
  rw [Nat.mul_comm, Nat.mul_add_div some, Nat.div_eq_of_lt columnBelow, Nat.add_zero]

/-- The column of a cell. -/
theorem cell_mod (columnBelow : column < width) : (row * width + column) % width = column := by
  rw [Nat.mul_add_mod_self_right, Nat.mod_eq_of_lt columnBelow]

end MarketForge.Library.Grid
