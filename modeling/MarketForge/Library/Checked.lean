import Mathlib.Algebra.GroupWithZero.Nat
import MarketForge.Library.Grid
import MarketForge.Library.Loops

/-!
# Checked execution

Programs over words of 64 bits and spans of a flat memory that stop where a product or a sum would
wrap and where an index would leave its span. A program that does not stop has neither wrapped nor
left its spans; it then computes what the program without the checks computes.
-/
namespace MarketForge.Library.Checked

/-- A program goes on with the value of a part that does not stop. -/
theorem bind_known {α β : Type} {part : Option α} {value : α} {rest : α → Option β}
    (known : part = some value) : (part >>= rest) = rest value := by
  rw [known]
  rfl

theorem entry_some {α : Type} {entries : List α} {index : Nat} (default : α)
    (inside : index < entries.length) : entries[index]? = some (entries.getD index default) := by
  rw [List.getD_eq_getElem?_getD, List.getElem?_eq_getElem inside, Option.getD_some]

/-! ## Words -/

def mul (left right : Nat) : Option Nat :=
  if left * right < 2 ^ 64 then some (left * right) else none

def add (left right : Nat) : Option Nat :=
  if left + right < 2 ^ 64 then some (left + right) else none

def sub (left right : Nat) : Option Nat :=
  if right ≤ left then some (left - right) else none

/-- The index of a cell in a grid of so many columns. -/
def cell (row width column : Nat) : Option Nat := do
  let start ← mul row width
  add start column

theorem mul_some {left right : Nat} (fits : left * right < 2 ^ 64) :
    mul left right = some (left * right) := if_pos fits

theorem add_some {left right : Nat} (fits : left + right < 2 ^ 64) :
    add left right = some (left + right) := if_pos fits

theorem sub_some {left right : Nat} (ordered : right ≤ left) :
    sub left right = some (left - right) := if_pos ordered

/-- The cells of a grid whose size is a word have words for their indices. -/
theorem cell_some {rows row width column : Nat} (rowBelow : row < rows)
    (columnBelow : column < width) (fits : rows * width < 2 ^ 64) :
    cell row width column = some (row * width + column) := by
  have last : row * width + column < rows * width := Grid.cell_lt rowBelow columnBelow
  rw [cell, mul_some (by omega)]
  exact add_some (by omega)

/-! ## Loops -/

section

variable {σ : Type}

def loop : Nat → (Nat → σ → Option σ) → σ → Option σ
  | 0, _, state => some state
  | count + 1, body, state => (loop count body state).bind (body count)

/-- A loop whose turns do not stop does not stop. -/
theorem loop_some (count : Nat) (body : Nat → σ → Option σ) (turn : Nat → σ → σ) (state : σ)
    (each : ∀ index < count, ∀ current, body index current = some (turn index current)) :
    loop count body state = some (forRange count turn state) := by
  induction count with
  | zero => rfl
  | succ count ih =>
    rw [loop, ih fun index below => each index (by omega), Option.bind_some, each count (by omega)]
    rfl

/-- A conjunction over a range, up to the first test that fails. -/
def all : Nat → (Nat → Option Bool) → Option Bool
  | 0, _ => some true
  | count + 1, test => do
    if ← all count test then test count else some false

theorem all_some (count : Nat) (test : Nat → Option Bool) (outcome : Nat → Bool)
    (each : ∀ index < count, test index = some (outcome index)) :
    all count test = some ((List.range count).all outcome) := by
  induction count with
  | zero => rfl
  | succ count ih =>
    rw [all, ih fun index below => each index (by omega), each count (by omega), List.range_succ,
      List.all_append]
    cases (List.range count).all outcome <;> simp

end

/-! ## Spans -/

/-- So many elements from an address on. -/
structure Span where
  data : Nat
  count : Nat

namespace Span

variable {α : Type} (span : Span)

def read (index : Nat) (memory : FlatMemory α) : Option α :=
  if index < span.count then some (memory (span.data + index)) else none

def write (index : Nat) (value : α) (memory : FlatMemory α) : Option (FlatMemory α) :=
  if index < span.count then some (Function.update memory (span.data + index) value) else none

def subspan (offset count : Nat) : Option Span :=
  if offset + count ≤ span.count then some ⟨span.data + offset, count⟩ else none

variable {span}

theorem read_some {index : Nat} {memory : FlatMemory α} (inside : index < span.count) :
    span.read index memory = some (memory (span.data + index)) := if_pos inside

theorem write_some {index : Nat} {value : α} {memory : FlatMemory α} (inside : index < span.count) :
    span.write index value memory = some (Function.update memory (span.data + index) value) :=
  if_pos inside

theorem subspan_some {offset count : Nat} (inside : offset + count ≤ span.count) :
    span.subspan offset count = some ⟨span.data + offset, count⟩ := if_pos inside

variable (span) in
/-- Spans of these sizes behind one another, from a cursor on. -/
def carve : Nat → List Nat → Option (List Span)
  | _, [] => some []
  | cursor, count :: counts => do
    let taken ← span.subspan cursor count
    let cursor ← add cursor count
    let others ← carve cursor counts
    pure (taken :: others)

/-- Where spans of these sizes lie behind one another. -/
def laid : Nat → List Nat → List Span
  | _, [] => []
  | data, count :: counts => ⟨data, count⟩ :: laid (data + count) counts

theorem carve_some (counts : List Nat) (cursor : Nat) (fits : cursor + counts.sum ≤ span.count)
    (word : span.count < 2 ^ 64) :
    span.carve cursor counts = some (laid (span.data + cursor) counts) := by
  induction counts generalizing cursor with
  | nil => rfl
  | cons count counts ih =>
    rw [List.sum_cons] at fits
    rw [carve, subspan_some (by omega), add_some (by omega)]
    simp only [Option.bind_eq_bind, Option.bind_some]
    rw [ih (cursor + count) (by omega), laid, Nat.add_assoc]
    rfl

theorem laid_within (counts : List Nat) (data : Nat) : ∀ taken ∈ laid data counts,
    data ≤ taken.data ∧ taken.data + taken.count ≤ data + counts.sum := by
  induction counts generalizing data with
  | nil => simp [laid]
  | cons count counts ih =>
    intro taken listed
    rw [List.sum_cons]
    cases listed with
    | head => exact ⟨Nat.le_refl data, Nat.add_le_add_left (Nat.le_add_right _ _) data⟩
    | tail _ behind =>
      have inside := ih (data + count) taken behind
      omega

/-- Two spans of one carving share no element. -/
theorem laid_apart (counts : List Nat) (data : Nat) : (laid data counts).Pairwise
    fun first second => Apart first.data first.count second.data second.count := by
  induction counts generalizing data with
  | nil => exact List.Pairwise.nil
  | cons count counts ih =>
    rw [laid, List.pairwise_cons]
    constructor
    · intro behind listed
      exact .inl (laid_within counts (data + count) behind listed).1
    · exact ih (data + count)

end Span

end MarketForge.Library.Checked
