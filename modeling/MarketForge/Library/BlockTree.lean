import MarketForge.Library.BarrierBlock
import MarketForge.Library.BlockReduction

/-!
# Loops and trees of a block

What the threads of a block have in common: loops that carry an accumulator, threads that only
write what is their own, and the tree by which a block folds one value of each lane into lane zero,
with a barrier after every level.
-/
namespace BarrierBlock

variable {S : Type}

/-! ### Loops -/

/-- A loop over indices, with what it carries from turn to turn. -/
def Program.forEach {ι α : Type} (body : ι → α → (α → Program S) → Program S) :
    List ι → α → (α → Program S) → Program S
  | [], carried, next => next carried
  | i :: rest, carried, next => body i carried fun carried => forEach body rest carried next

section Rules

variable {rely guarantee : S → S → Prop} {post : S → Prop}

theorem Keeps.forEach {ι α : Type} {body : ι → α → (α → Program S) → Program S}
    {next : α → Program S} (inv : List ι → α → S → Prop)
    (turn : ∀ i rest carried s (onward : α → Program S), inv (i :: rest) carried s →
      (∀ carried' s', inv rest carried' s' → Keeps rely guarantee post (onward carried') s') →
      Keeps rely guarantee post (body i carried onward) s)
    (ends : ∀ carried s, inv [] carried s → Keeps rely guarantee post (next carried) s)
    {indices : List ι} {carried : α} {s : S} (initial : inv indices carried s) :
    Keeps rely guarantee post (.forEach body indices carried next) s := by
  induction indices generalizing carried s with
  | nil => exact ends carried s initial
  | cons i rest ih => exact turn i rest carried s _ initial fun _ _ kept => ih kept

theorem Keeps.weaken {post' : S → Prop} {program : Program S} {s : S}
    (keeps : Keeps rely guarantee post program s) (implies : ∀ s', post s' → post' s') :
    Keeps rely guarantee post' program s := by
  induction program generalizing s with
  | done => exact fun s' moved => implies s' (keeps s' moved)
  | act update next ih =>
    exact fun s' moved => ⟨(keeps s' moved).1, ih s' (keeps s' moved).2⟩

end Rules

/-! ### Own parts -/

/-- Every thread writes its own part of the memory and nothing that is common. -/
def owned {V : Nat → Type} (part : (thread : Nat) → S → V thread) {W : Type} (common : S → W) :
    Interference S where
  rely thread s s' := part thread s' = part thread s ∧ common s' = common s
  guarantee thread s s' :=
    (∀ other, other ≠ thread → part other s' = part other s) ∧ common s' = common s
  refl _ _ := ⟨rfl, rfl⟩
  trans _ _ _ _ first second := ⟨second.1.trans first.1, second.2.trans first.2⟩
  compatible _ _ different _ _ acted := ⟨acted.1 _ different, acted.2⟩

/-! ### The tree -/

/-- The shared array with a cell for each lane, and the rest of the memory. -/
structure Lanes (F G : Type) where
  cells : Nat → F
  rest : G

variable {F G : Type}

namespace Lanes

def setCell (lane : Nat) (value : F) (memory : Lanes F G) : Lanes F G :=
  { memory with cells := Function.update memory.cells lane value }

def setRest (update : G → G) (memory : Lanes F G) : Lanes F G :=
  { memory with rest := update memory.rest }

@[simp] theorem setCell_rest (lane : Nat) (value : F) (memory : Lanes F G) :
    (memory.setCell lane value).rest = memory.rest := rfl

@[simp] theorem setCell_self (lane : Nat) (value : F) (memory : Lanes F G) :
    (memory.setCell lane value).cells lane = value := Function.update_self ..

theorem setCell_of_ne {lane other : Nat} (different : other ≠ lane) (value : F)
    (memory : Lanes F G) : (memory.setCell lane value).cells other = memory.cells other :=
  Function.update_of_ne different ..

@[simp] theorem setRest_cells (update : G → G) (memory : Lanes F G) :
    (memory.setRest update).cells = memory.cells := rfl

@[simp] theorem setRest_rest (update : G → G) (memory : Lanes F G) :
    (memory.setRest update).rest = update memory.rest := rfl

end Lanes

/-- Half the lanes, and half of it until one. -/
def halvings : Nat → List Nat
  | 0 => []
  | levels + 1 => 2 ^ levels :: halvings levels

section Levels

variable {V W : Type}

/-- During one level each lane below the stride writes its own cell and nothing that is common. -/
def levelling (cell : S → Nat → V) (common : S → W) (stride : Nat) : Interference S where
  rely thread s s' :=
    (∀ other, other = thread ∨ stride ≤ other → cell s' other = cell s other) ∧
      common s' = common s
  guarantee thread s s' :=
    (∀ other, other ≠ thread ∨ stride ≤ other → cell s' other = cell s other) ∧
      common s' = common s
  refl _ _ := ⟨fun _ _ => rfl, rfl⟩
  trans _ _ _ _ first second :=
    ⟨fun other known => (second.1 other known).trans (first.1 other known),
      second.2.trans first.2⟩
  compatible _ _ different _ _ acted :=
    ⟨fun cell known => acted.1 cell (known.imp (fun same => same.trans_ne different) id), acted.2⟩

variable {cell : S → Nat → V} {common : S → W} {merge : V → V → V}
  {level : Nat → Nat → Program S}

/-- The levels leave the fold of all lanes in lane zero and what is common as it was, where each
merges the lanes below its stride. -/
theorem levels_outcome {count levels : Nat} (enough : 2 ^ levels ≤ count)
    (merges : ∀ stride thread s,
      Keeps ((levelling cell common stride).rely thread)
        ((levelling cell common stride).guarantee thread)
        (fun s' => cell s' thread = BlockReduction.halve merge (cell s) stride thread ∧
          common s' = common s) (level stride thread) s)
    {memory memory' : S} (ran : Runs count ((halvings levels).map level) memory memory')
    (lanes : Nat → V) :
    ((∀ thread < 2 ^ levels, cell memory thread = lanes thread) →
      cell memory' 0 = BlockReduction.reduce merge levels lanes) ∧
      common memory' = common memory := by
  have some_thread : 0 < count := Nat.lt_of_lt_of_le (Nat.two_pow_pos levels) enough
  induction levels generalizing memory lanes with
  | zero =>
    cases ran with
    | nil => exact ⟨fun agree => agree 0 (by decide), rfl⟩
  | succ levels ih =>
    cases ran with
    | @cons _ _ _ middle _ first later =>
      have halved := interleaves_post (levelling cell common (2 ^ levels)) _
        (fun thread _ => merges (2 ^ levels) thread memory) first
      rw [Nat.pow_succ] at enough
      obtain ⟨result, kept⟩ := ih (by omega) later (BlockReduction.halve merge lanes (2 ^ levels))
      refine ⟨fun agree => result ?_, kept.trans (halved 0 some_thread).2⟩
      -- the lanes above the stride are folded in, those below carry the smaller tree
      intro thread low
      rw [Nat.pow_succ] at agree
      rw [(halved thread (by omega)).1, BlockReduction.halve, BlockReduction.halve, if_pos low,
        if_pos low, agree thread (by omega), agree (thread + 2 ^ levels) (by omega)]

end Levels

/-- One level of the tree: a lane below the stride merges with the lane a stride above. -/
def mergeCells (merge : F → F → F) (stride thread : Nat) : Program (Lanes F G) :=
  if thread < stride then
    .read (·.cells thread) fun own =>
      .read (·.cells (thread + stride)) fun above =>
        .write (Lanes.setCell thread (merge own above)) .done
  else .done

/-- The levels of the tree, one phase each. -/
def treePhases (merge : F → F → F) (levels : Nat) : List (Nat → Program (Lanes F G)) :=
  (halvings levels).map (mergeCells merge)

variable {merge : F → F → F}

theorem mergeCells_keeps (stride thread : Nat) (s : Lanes F G) :
    Keeps ((levelling Lanes.cells Lanes.rest stride).rely thread)
      ((levelling Lanes.cells Lanes.rest stride).guarantee thread)
      (fun s' => s'.cells thread = BlockReduction.halve merge s.cells stride thread ∧
        s'.rest = s.rest) (mergeCells merge stride thread) s := by
  rw [mergeCells, BlockReduction.halve]
  by_cases low : thread < stride
  · rw [if_pos low, if_pos low]
    refine .read (fun _ => ⟨fun _ _ => rfl, rfl⟩) fun s₁ own moved₁ read₁ => ?_
    refine .read (fun _ => ⟨fun _ _ => rfl, rfl⟩) fun s₂ above moved₂ read₂ => ?_
    -- the own cell and the one above are read as they were: nobody writes them
    have above₁ := moved₁.1 (thread + stride) (.inr (Nat.le_add_left _ _))
    have above₂ := moved₂.1 (thread + stride) (.inr (Nat.le_add_left _ _))
    obtain rfl : own = s.cells thread := read₁.symm.trans (moved₁.1 thread (.inl rfl))
    obtain rfl : above = s.cells (thread + stride) := read₂.symm.trans (above₂.trans above₁)
    refine .write (fun s' => ⟨fun other known => ?_, rfl⟩) fun s₃ moved₃ => ?_
    · refine Lanes.setCell_of_ne ?_ _ s'
      rcases known with different | high
      · exact different
      · omega
    · intro s₄ moved₄
      refine ⟨(moved₄.1 thread (.inl rfl)).trans (Lanes.setCell_self ..), ?_⟩
      exact moved₄.2.trans (moved₃.2.trans (moved₂.2.trans moved₁.2))
  · rw [if_neg low, if_neg low]
    exact fun s' moved => ⟨moved.1 thread (.inl rfl), moved.2⟩

/-- The levels leave the fold of all lanes in lane zero and the rest of the memory as it was. -/
theorem treePhases_outcome {count levels : Nat} (enough : 2 ^ levels ≤ count)
    {memory memory' : Lanes F G}
    (ran : Runs count (treePhases merge levels) memory memory') (lanes : Nat → F)
    (agree : ∀ thread < 2 ^ levels, memory.cells thread = lanes thread) :
    memory'.cells 0 = BlockReduction.reduce merge levels lanes ∧ memory'.rest = memory.rest := by
  obtain ⟨result, rest⟩ := levels_outcome enough mergeCells_keeps ran lanes
  exact ⟨result agree, rest⟩

end BarrierBlock
