import Mathlib.Logic.Function.Basic
import MarketForge.Library.Grid

/-!
# Counted loops over a flat memory

`forRange` runs a body for each index below a count. Three rules cover the loops of numerical
code: a loop that stores one value per index, a loop whose turns write to ranges of their own,
and a loop whose turns each fill one row of a matrix. All say what is stored and that nothing else
changes.
-/
namespace MarketForge.Library

/-- The body runs for each index below the count, in ascending order. -/
def forRange {σ : Type} : Nat → (Nat → σ → σ) → σ → σ
  | 0, _, state => state
  | count + 1, body, state => body count (forRange count body state)

section

variable {σ : Type}

theorem for_range_invariant (count : Nat) (body : Nat → σ → σ) (state : σ)
    (holds : Nat → σ → Prop) (initially : holds 0 state)
    (step : ∀ index < count, ∀ current,
      holds index current → holds (index + 1) (body index current)) :
    holds count (forRange count body state) := by
  induction count with
  | zero => exact initially
  | succ count ih =>
    apply step count (Nat.lt_succ_self count)
    exact ih fun index below => step index (Nat.lt_succ_of_lt below)

theorem for_range_congr (count : Nat) (body other : Nat → σ → σ) (state : σ)
    (same : ∀ index < count, ∀ current, body index current = other index current) :
    forRange count body state = forRange count other state := by
  induction count with
  | zero => rfl
  | succ count ih =>
    simp only [forRange, ih fun index below => same index (Nat.lt_succ_of_lt below)]
    exact same count (Nat.lt_succ_self count) _

theorem for_range_one (body : Nat → σ → σ) (state : σ) : forRange 1 body state = body 0 state := rfl

theorem for_range_add (first second : Nat) (body : Nat → σ → σ) (state : σ) :
    forRange (first + second) body state =
      forRange second (fun index => body (first + index)) (forRange first body state) := by
  induction second with
  | zero => rfl
  | succ second ih =>
    rw [← Nat.add_assoc]
    simp only [forRange, ih]

/-- Two nested loops over the cells of a matrix are one loop over its cells in row order. -/
theorem for_range_nested (rows columns : Nat) (body : Nat → σ → σ) (state : σ) :
    forRange rows (fun row => forRange columns fun column => body (row * columns + column)) state =
      forRange (rows * columns) body state := by
  induction rows with
  | zero => simp [forRange]
  | succ rows ih =>
    rw [Nat.succ_mul, for_range_add (rows * columns) columns, ← ih]
    rfl

theorem for_range_pairs (rows columns : Nat) (body : Nat → Nat → σ → σ) (state : σ) :
    forRange rows (fun row => forRange columns (body row)) state =
      forRange (rows * columns) (fun cell => body (cell / columns) (cell % columns)) state := by
  rw [← for_range_nested]
  apply for_range_congr
  intro row _ current
  apply for_range_congr
  intro column inside _
  rw [Grid.cell_mod inside, Grid.cell_div inside]

end

/-! ## Memory -/

/-- One value at each address. -/
abbrev FlatMemory (α : Type) := Nat → α

/-- The address lies in the range that starts at the base. -/
def Within (base size address : Nat) : Prop := base ≤ address ∧ address < base + size

section

variable {α : Type}

/-- Only addresses that satisfy the condition may differ. -/
def SameExcept (written : Nat → Prop) (before after : FlatMemory α) : Prop :=
  ∀ address, ¬written address → after address = before address

namespace SameExcept

theorem refl (written : Nat → Prop) (memory : FlatMemory α) : SameExcept written memory memory :=
  fun _ _ => rfl

theorem trans (written : Nat → Prop) (first second third : FlatMemory α)
    (before : SameExcept written first second) (after : SameExcept written second third) :
    SameExcept written first third :=
  fun address outside => (after address outside).trans (before address outside)

theorem mono (narrow wide : Nat → Prop) (before after : FlatMemory α)
    (included : ∀ address, narrow address → wide address)
    (same : SameExcept narrow before after) : SameExcept wide before after :=
  fun address outside => same address fun inside => outside (included address inside)

end SameExcept

theorem within_mono (base small large address : Nat) (fits : small ≤ large)
    (inside : Within base small address) : Within base large address :=
  ⟨inside.1, Nat.lt_of_lt_of_le inside.2 (Nat.add_le_add_left fits base)⟩

/-- Two ranges have no address in common. -/
def Apart (left leftSize right rightSize : Nat) : Prop :=
  left + leftSize ≤ right ∨ right + rightSize ≤ left

theorem Apart.symm (left leftSize right rightSize : Nat)
    (apart : Apart left leftSize right rightSize) : Apart right rightSize left leftSize :=
  Or.comm.mp apart

theorem Apart.outside (left leftSize right rightSize address : Nat)
    (apart : Apart left leftSize right rightSize) (inside : Within left leftSize address) :
    ¬Within right rightSize address := by
  unfold Apart at apart
  unfold Within at inside ⊢
  omega

/-- Different rows of one matrix have no address in common. -/
theorem rows_apart (base width first second : Nat) (different : first ≠ second) :
    Apart (base + first * width) width (base + second * width) width := by
  rcases Nat.lt_or_gt_of_ne different with before | after
  · have bound : first * width + width ≤ second * width := Grid.row_end width before
    exact .inl (by omega)
  · have bound : second * width + width ≤ first * width := Grid.row_end width after
    exact .inr (by omega)

/-- A row of a matrix lies in the matrix. -/
theorem within_row (base rows width row address : Nat) (below : row < rows)
    (inside : Within (base + row * width) width address) : Within base (rows * width) address := by
  have bound : row * width + width ≤ rows * width := Grid.row_end width below
  unfold Within at inside ⊢
  omega

/-! ## Stored rows -/

/-- A row of values is stored from the base on. -/
def Stores (memory : FlatMemory α) (base width : Nat) (row : Nat → α) : Prop :=
  ∀ column < width, memory (base + column) = row column

/-- The rows of a matrix are stored one after the other. -/
def StoresRows (memory : FlatMemory α) (base rows width : Nat) (value : Nat → Nat → α) : Prop :=
  ∀ row < rows, Stores memory (base + row * width) width (value row)

theorem Stores.stable (before after : FlatMemory α) (base width : Nat) (row : Nat → α)
    (same : ∀ address, Within base width address → after address = before address)
    (stored : Stores before base width row) : Stores after base width row := by
  intro column inside
  rw [same _ ⟨by omega, by omega⟩]
  exact stored column inside

theorem Stores.frame (before after : FlatMemory α) (base width : Nat) (row : Nat → α)
    (written : Nat → Prop) (same : SameExcept written before after)
    (outside : ∀ address, Within base width address → ¬written address)
    (stored : Stores before base width row) : Stores after base width row :=
  Stores.stable before after base width row
    (fun address inside => same address (outside address inside)) stored

theorem StoresRows.frame (before after : FlatMemory α) (base rows width : Nat)
    (value : Nat → Nat → α) (written : Nat → Prop) (same : SameExcept written before after)
    (outside : ∀ address, Within base (rows * width) address → ¬written address)
    (stored : StoresRows before base rows width value) : StoresRows after base rows width value :=
  fun row below => Stores.frame before after _ _ _ written same
    (fun address inside => outside address (within_row base rows width row address below inside))
    (stored row below)

theorem StoresRows.congr (memory : FlatMemory α) (base rows width : Nat)
    (value other : Nat → Nat → α) (same : ∀ row < rows, value row = other row)
    (stored : StoresRows memory base rows width value) : StoresRows memory base rows width other :=
  fun row below => same row below ▸ stored row below

/-- The rows of two ranges that follow each other. -/
theorem StoresRows.append (memory : FlatMemory α) (base first second width : Nat)
    (value : Nat → Nat → α) (before : StoresRows memory base first width value)
    (after : StoresRows memory (base + first * width) second width fun row => value (first + row)) :
    StoresRows memory base (first + second) width value := by
  intro row below
  by_cases early : row < first
  · exact before row early
  · have index : first + (row - first) = row := by omega
    have place : base + first * width + (row - first) * width = base + row * width := by
      rw [Nat.add_assoc, ← Nat.add_mul, index]
    have stored := after (row - first) (by omega)
    dsimp only at stored
    rwa [place, index] at stored

/-- A part of a stored row. -/
theorem Stores.slice (memory : FlatMemory α) (base width offset size : Nat) (row : Nat → α)
    (fits : offset + size ≤ width) (stored : Stores memory base width row) :
    Stores memory (base + offset) size fun column => row (offset + column) := by
  intro column inside
  rw [Nat.add_assoc]
  exact stored (offset + column) (by omega)

/-- A matrix is stored exactly when its cells are stored in row order. -/
theorem stores_rows_iff (memory : FlatMemory α) (base rows width : Nat) (cells : Nat → α) :
    StoresRows memory base rows width (fun row column => cells (row * width + column)) ↔
      Stores memory base (rows * width) cells := by
  refine ⟨?_, ?_⟩
  · intro stored cell inside
    have positive : 0 < width := Nat.pos_of_ne_zero fun none => by simp [none] at inside
    have split : cell / width * width + cell % width = cell := Nat.div_add_mod' cell width
    have value := stored (cell / width) (Nat.div_lt_of_lt_mul (Nat.mul_comm rows width ▸ inside))
      (cell % width) (Nat.mod_lt cell positive)
    dsimp only at value
    rw [Nat.add_assoc, split] at value
    exact value
  · intro stored row below column inside
    rw [Nat.add_assoc]
    exact stored (row * width + column) (Grid.cell_lt below inside)

/-- A matrix as one row of cells. -/
theorem stores_rows_cells (memory : FlatMemory α) (base rows width : Nat) (value : Nat → Nat → α) :
    StoresRows memory base rows width value ↔
      Stores memory base (rows * width) fun cell => value (cell / width) (cell % width) := by
  have cell : ∀ row column, column < width →
      value ((row * width + column) / width) ((row * width + column) % width) =
        value row column := by
    intro row column inside
    rw [Grid.cell_div inside, Grid.cell_mod inside]
  rw [← stores_rows_iff]
  refine ⟨?_, ?_⟩
  · intro stored row below column inside
    exact (stored row below column inside).trans (cell row column inside).symm
  · intro stored row below column inside
    exact (stored row below column inside).trans (cell row column inside)

/-! ## Loops that store -/

/-- A loop that stores one value per index. -/
def fill (base count : Nat) (value : FlatMemory α → Nat → α)
    (memory : FlatMemory α) : FlatMemory α :=
  forRange count (fun index memory => Function.update memory (base + index) (value memory index))
    memory

/-- The loop stores the values it would compute from the initial memory, when no value depends
on what the loop stored before it. -/
theorem fill_spec (base count : Nat) (value : FlatMemory α → Nat → α) (memory : FlatMemory α)
    (stable : ∀ index < count, ∀ current, SameExcept (Within base index) memory current →
      value current index = value memory index) :
    (∀ index < count, fill base count value memory (base + index) = value memory index) ∧
      SameExcept (Within base count) memory (fill base count value memory) := by
  apply for_range_invariant count _ memory (fun done current =>
    (∀ index < done, current (base + index) = value memory index) ∧
      SameExcept (Within base done) memory current)
  · exact ⟨fun _ below => absurd below (Nat.not_lt_zero _), SameExcept.refl _ memory⟩
  · rintro done below current ⟨stored, others⟩
    refine ⟨?_, ?_⟩
    · intro index earlier
      by_cases last : index = done
      · subst last
        rw [Function.update_self]
        exact stable index below current others
      · rw [Function.update_of_ne (by omega)]
        exact stored index (by omega)
    · intro address outside
      have here : address ≠ base + done := fun same => outside ⟨by omega, by omega⟩
      rw [Function.update_of_ne here]
      exact others address fun inside => outside (within_mono _ _ _ _ (by omega) inside)

/-- A loop writes where its turns write. -/
theorem turns_frame (count : Nat) (body : Nat → FlatMemory α → FlatMemory α)
    (written : Nat → Prop) (memory : FlatMemory α)
    (each : ∀ turn < count, ∀ current, SameExcept written current (body turn current)) :
    SameExcept written memory (forRange count body memory) :=
  for_range_invariant count body memory (fun _ current => SameExcept written memory current)
    (SameExcept.refl written memory)
    fun turn below current before => SameExcept.trans _ _ _ _ before (each turn below current)

theorem update_frame (written : Nat → Prop) (memory : FlatMemory α) (address : Nat) (value : α)
    (inside : written address) :
    SameExcept written memory (Function.update memory address value) := by
  intro other outside
  refine Function.update_of_ne ?_ value memory
  rintro rfl
  exact outside inside

theorem fill_frame (base count : Nat) (value : FlatMemory α → Nat → α) (memory : FlatMemory α) :
    SameExcept (Within base count) memory (fill base count value memory) :=
  turns_frame count _ _ memory fun turn below current =>
    update_frame _ current (base + turn) _ ⟨by omega, by omega⟩

/-- A loop whose turns write to ranges of their own. What holds after one turn, given that the
turns before it changed nothing but their ranges, holds after the loop. -/
theorem turns_spec (count : Nat) (body : Nat → FlatMemory α → FlatMemory α)
    (region : Nat → Nat → Prop) (post : Nat → FlatMemory α → Prop) (memory : FlatMemory α)
    (apart : ∀ later < count, ∀ earlier < later, ∀ address,
      region earlier address → ¬region later address)
    (stable : ∀ turn < count, ∀ before after, (∀ address, region turn address →
      after address = before address) → post turn before → post turn after)
    (each : ∀ turn < count, ∀ current,
      SameExcept (fun address => ∃ earlier < turn, region earlier address) memory current →
        post turn (body turn current) ∧ SameExcept (region turn) current (body turn current)) :
    (∀ turn < count, post turn (forRange count body memory)) ∧
      SameExcept (fun address => ∃ turn < count, region turn address) memory
        (forRange count body memory) := by
  apply for_range_invariant count body memory (fun done current =>
    (∀ turn < done, post turn current) ∧
      SameExcept (fun address => ∃ turn < done, region turn address) memory current)
  · exact ⟨fun _ below => absurd below (Nat.not_lt_zero _), SameExcept.refl _ memory⟩
  · rintro done below current ⟨holding, others⟩
    obtain ⟨established, rest⟩ := each done below current others
    refine ⟨?_, ?_⟩
    · intro turn earlier
      by_cases last : turn = done
      · exact last ▸ established
      · have before : turn < done := by omega
        apply stable turn (by omega) current _ _ (holding turn before)
        exact fun address inside => rest address (apart done below turn before address inside)
    · intro address outside
      rw [rest address fun inside => outside ⟨done, Nat.lt_succ_self done, inside⟩]
      apply others address
      rintro ⟨turn, before, inside⟩
      exact outside ⟨turn, Nat.lt_succ_of_lt before, inside⟩

/-- A loop over rows fills each row when every turn fills its own row, given that the turns
before it changed nothing but theirs. -/
theorem rows_spec (output rows width : Nat) (body : Nat → FlatMemory α → FlatMemory α)
    (value : Nat → Nat → α) (memory : FlatMemory α)
    (each : ∀ row < rows, ∀ current, SameExcept (Within output (row * width)) memory current →
      Stores (body row current) (output + row * width) width (value row) ∧
        SameExcept (Within (output + row * width) width) current (body row current)) :
    StoresRows (forRange rows body memory) output rows width value ∧
      SameExcept (Within output (rows * width)) memory (forRange rows body memory) := by
  obtain ⟨stored, others⟩ := turns_spec rows body
    (fun row => Within (output + row * width) width)
    (fun row memory => Stores memory (output + row * width) width (value row)) memory
    (fun later _ earlier before address inside =>
      Apart.outside _ _ _ _ address (rows_apart output width earlier later (by omega)) inside)
    (fun row _ before after => Stores.stable before after _ _ _)
    (fun row below current same => each row below current
      (SameExcept.mono _ _ _ _ (fun address ⟨earlier, before, inside⟩ =>
        within_row output row width earlier address before inside) same))
  exact ⟨stored, SameExcept.mono _ _ _ _ (fun address ⟨row, below, inside⟩ =>
    within_row output rows width row address below inside) others⟩

/-- A loop whose turns write to a row of each of two matrices. -/
theorem paired_turns_spec (first firstWidth second secondWidth rows : Nat)
    (body : Nat → FlatMemory α → FlatMemory α) (post : Nat → FlatMemory α → Prop)
    (memory : FlatMemory α)
    (apart : Apart first (rows * firstWidth) second (rows * secondWidth))
    (stable : ∀ row < rows, ∀ before after, (∀ address,
      Within (first + row * firstWidth) firstWidth address ∨
        Within (second + row * secondWidth) secondWidth address → after address = before address) →
      post row before → post row after)
    (each : ∀ row < rows, ∀ current, SameExcept (fun address =>
        Within first (row * firstWidth) address ∨ Within second (row * secondWidth) address)
          memory current →
      post row (body row current) ∧
      SameExcept (fun address => Within (first + row * firstWidth) firstWidth address ∨
        Within (second + row * secondWidth) secondWidth address) current (body row current)) :
    (∀ row < rows, post row (forRange rows body memory)) ∧
    SameExcept (fun address =>
        Within first (rows * firstWidth) address ∨ Within second (rows * secondWidth) address)
      memory (forRange rows body memory) := by
  obtain ⟨established, others⟩ := turns_spec rows body
    (fun row address => Within (first + row * firstWidth) firstWidth address ∨
      Within (second + row * secondWidth) secondWidth address) post memory
    (by
      intro later below earlier before address inside
      -- rows of one matrix are apart by their places, rows of two by the matrices
      have crossed : ∀ row < rows, ∀ other < rows,
          Within (first + row * firstWidth) firstWidth address →
            ¬Within (second + other * secondWidth) secondWidth address :=
        fun row rowBelow other otherBelow here there => Apart.outside _ _ _ _ address apart
          (within_row first rows firstWidth row address rowBelow here)
          (within_row second rows secondWidth other address otherBelow there)
      rcases inside with inFirst | inSecond
      · rintro (again | inSecond)
        · exact Apart.outside _ _ _ _ address
            (rows_apart first firstWidth earlier later (by omega)) inFirst again
        · exact crossed earlier (by omega) later below inFirst inSecond
      · rintro (inFirst | again)
        · exact crossed later below earlier (by omega) inFirst inSecond
        · exact Apart.outside _ _ _ _ address
            (rows_apart second secondWidth earlier later (by omega)) inSecond again)
    stable
    (by
      intro row below current same
      apply each row below current
      apply SameExcept.mono _ _ _ _ _ same
      rintro address ⟨earlier, before, inFirst | inSecond⟩
      · exact .inl (within_row first row firstWidth earlier address before inFirst)
      · exact .inr (within_row second row secondWidth earlier address before inSecond))
  refine ⟨established, ?_⟩
  apply SameExcept.mono _ _ _ _ _ others
  rintro address ⟨row, below, inFirst | inSecond⟩
  · exact .inl (within_row first rows firstWidth row address below inFirst)
  · exact .inr (within_row second rows secondWidth row address below inSecond)

/-- A loop whose turns each fill one row of two matrices. -/
theorem paired_rows_spec (first firstWidth second secondWidth rows : Nat)
    (body : Nat → FlatMemory α → FlatMemory α) (value other : Nat → Nat → α) (memory : FlatMemory α)
    (apart : Apart first (rows * firstWidth) second (rows * secondWidth))
    (each : ∀ row < rows, ∀ current, SameExcept (fun address =>
        Within first (row * firstWidth) address ∨ Within second (row * secondWidth) address)
          memory current →
      (Stores (body row current) (first + row * firstWidth) firstWidth (value row) ∧
        Stores (body row current) (second + row * secondWidth) secondWidth (other row)) ∧
      SameExcept (fun address => Within (first + row * firstWidth) firstWidth address ∨
        Within (second + row * secondWidth) secondWidth address) current (body row current)) :
    (StoresRows (forRange rows body memory) first rows firstWidth value ∧
      StoresRows (forRange rows body memory) second rows secondWidth other) ∧
    SameExcept (fun address =>
        Within first (rows * firstWidth) address ∨ Within second (rows * secondWidth) address)
      memory (forRange rows body memory) := by
  obtain ⟨stored, others⟩ := paired_turns_spec first firstWidth second secondWidth rows body
    (fun row memory => Stores memory (first + row * firstWidth) firstWidth (value row) ∧
      Stores memory (second + row * secondWidth) secondWidth (other row)) memory apart
    (fun row below before after same held =>
      ⟨Stores.stable _ _ _ _ _ (fun address inside => same address (.inl inside)) held.1,
        Stores.stable _ _ _ _ _ (fun address inside => same address (.inr inside)) held.2⟩) each
  exact ⟨⟨fun row below => (stored row below).1, fun row below => (stored row below).2⟩, others⟩

end

end MarketForge.Library
