import MarketForge.Library.BlockTree
import MarketForge.Library.BlockSchedule

/-!
# Grids of blocks

The blocks of a grid run side by side. Each has shared memory and barriers of its own, and all of
them share the global memory; nothing orders the actions of one block against those of another.
Where a block reads and writes only its own part of the global memory, and reads what nobody
writes, a run of the grid is for each block a run of that block alone (`grid_projects`).
-/
namespace BarrierBlock

variable {S P G : Type}

/-- The memory of a block: what only the block has, and what the grid shares. -/
structure Split (S P G : Type) where
  own : S → P
  global : S → G
  join : P → G → S
  own_join : ∀ p g, own (join p g) = p
  global_join : ∀ p g, global (join p g) = g
  join_eta : ∀ s, join (own s) (global s) = s

/-- The blocks, each with its threads and the phases that are still behind barriers. -/
structure GridState (S P G : Type) where
  own : Nat → P
  global : G
  threads : Nat → Nat → Program S
  phases : Nat → List (Nat → Program S)

variable (split : Split S P G)

namespace GridState

/-- The memory that a block sees. -/
def view (state : GridState S P G) (block : Nat) : S := split.join (state.own block) state.global

/-- A thread of a block acts: its program changes the memory of the block, the global part for
all. -/
def acted (state : GridState S P G) (block thread : Nat) (update : S → S)
    (next : S → Program S) : GridState S P G :=
  let memory := state.view split block
  { own := Function.update state.own block (split.own (update memory))
    global := split.global (update memory)
    threads := Function.update state.threads block
      (Function.update (state.threads block) thread (next memory))
    phases := state.phases }

/-- A barrier of a block opens. -/
def opened (state : GridState S P G) (block : Nat) (phase : Nat → Program S)
    (rest : List (Nat → Program S)) : GridState S P G :=
  { state with
    threads := Function.update state.threads block phase
    phases := Function.update state.phases block rest }

end GridState

/-- One step of a grid. -/
inductive GridStep (blocks count : Nat) : GridState S P G → GridState S P G → Prop where
  | act {state : GridState S P G} {block thread : Nat} {update : S → S} {next : S → Program S}
      (inGrid : block < blocks) (within : thread < count)
      (here : state.threads block thread = .act update next) :
      GridStep blocks count state (state.acted split block thread update next)
  | barrier {state : GridState S P G} {block : Nat} {phase : Nat → Program S}
      {rest : List (Nat → Program S)} (inGrid : block < blocks)
      (ended : ∀ thread < count, state.threads block thread = .done)
      (more : state.phases block = phase :: rest) :
      GridStep blocks count state (state.opened block phase rest)

/-- A grid before its first step. -/
def GridState.launched (phases : Nat → List (Nat → Program S)) (own : Nat → P) (global : G) :
    GridState S P G :=
  { own, global, threads := fun _ _ => .done, phases }

/-- Every block has come to its end. -/
def GridState.Finished (blocks count : Nat) (state : GridState S P G) : Prop :=
  ∀ block < blocks, (∀ thread < count, state.threads block thread = .done) ∧
    state.phases block = []

/-- A launch of a grid, from the global memory before it to that after it. -/
def GridRuns (blocks count : Nat) (phases : Nat → List (Nat → Program S)) (own : Nat → P)
    (global global' : G) : Prop :=
  ∃ state, Relation.ReflTransGen (GridStep split blocks count)
    (GridState.launched phases own global) state ∧ state.Finished blocks count ∧
    state.global = global'

/-! ### Blocks that keep to their part -/

section Confined

variable {V : Nat → Type} {W : Type} (part : (block : Nat) → G → V block) (common : G → W)

/-- Two memories that a block cannot tell apart. -/
structure Alike (block : Nat) (s s' : S) : Prop where
  own : split.own s = split.own s'
  part : part block (split.global s) = part block (split.global s')
  common : common (split.global s) = common (split.global s')

/-- A change that keeps to the part of a block. -/
structure Stays (block : Nat) (s s' : S) : Prop where
  others : ∀ other, other ≠ block →
    part other (split.global s') = part other (split.global s)
  common : common (split.global s') = common (split.global s)

/-- A program that neither writes nor reads the parts of other blocks. -/
def Confined (block : Nat) : Program S → Prop
  | .done => True
  | .act update next =>
    (∀ s, Stays split part common block s (update s)) ∧
    (∀ s s', Alike split part common block s s' →
      Alike split part common block (update s) (update s') ∧ next s = next s') ∧
    ∀ s, Confined block (next s)

variable {split part common} {block : Nat}

theorem Alike.refl (s : S) : Alike split part common block s s := ⟨rfl, rfl, rfl⟩

theorem Confined.read {α : Type} {cell : S → α} {next : α → Program S}
    (same : ∀ s s', Alike split part common block s s' → cell s = cell s')
    (onward : ∀ value, Confined split part common block (next value)) :
    Confined split part common block (.read cell next) :=
  ⟨fun _ => ⟨fun _ _ => rfl, rfl⟩,
    fun s s' alike => ⟨alike, congrArg next (same s s' alike)⟩, fun _ => onward _⟩

theorem Confined.write {update : S → S} {next : Program S}
    (stays : ∀ s, Stays split part common block s (update s))
    (same : ∀ s s', Alike split part common block s s' →
      Alike split part common block (update s) (update s'))
    (onward : Confined split part common block next) :
    Confined split part common block (.write update next) :=
  ⟨stays, fun s s' alike => ⟨same s s' alike, rfl⟩, fun _ => onward⟩

theorem Confined.forEach {ι α : Type} {body : ι → α → (α → Program S) → Program S}
    {next : α → Program S} {indices : List ι}
    (turn : ∀ i ∈ indices, ∀ carried onward,
      (∀ carried', Confined split part common block (onward carried')) →
      Confined split part common block (body i carried onward))
    (ends : ∀ carried, Confined split part common block (next carried)) (carried : α) :
    Confined split part common block (.forEach body indices carried next) := by
  induction indices generalizing carried with
  | nil => exact ends carried
  | cons i rest ih =>
    exact turn i (.head _) carried _
      (ih fun j listed => turn j (.tail _ listed))

/-! ### Projections -/

variable {blocks count : Nat} {phases : Nat → List (Nat → Program S)}

variable (split part common) in
/-- Where a block is when it runs alone, so that it cannot be told from where the grid has it. -/
structure Follows (phases : List (Nat → Program S)) (start : S) (count block : Nat)
    (state : GridState S P G) : Prop where
  path : ∃ (past : List (Nat → Program S)) (current : Nat → Program S) (middle memory : S),
    (fun _ => Program.done) :: phases = past ++ current :: state.phases block ∧
    Runs count past start middle ∧
    Relation.ReflTransGen (Step count) (middle, current) (memory, state.threads block) ∧
    Alike split part common block memory (state.view split block)
  threads : ∀ thread, Confined split part common block (state.threads block thread)
  later : ∀ phase ∈ state.phases block, ∀ thread, Confined split part common block (phase thread)

variable {start : S} {state state' : GridState S P G} {program : List (Nat → Program S)}

theorem view_acted (actor thread : Nat) (update : S → S) (next : S → Program S) :
    (state.acted split actor thread update next).view split actor =
      update (state.view split actor) := by
  rw [GridState.view, GridState.acted]
  dsimp only
  rw [Function.update_self, split.join_eta]

/-- A step of another block is none for this one. -/
theorem Follows.other
    (follows : Follows split part common program start count block
      state)
    (own : state'.own block = state.own block)
    (threads : state'.threads block = state.threads block)
    (phases : state'.phases block = state.phases block)
    (same : part block state'.global = part block state.global)
    (rest : common state'.global = common state.global) :
    Follows split part common program start count block
      state' := by
  obtain ⟨past, current, middle, memory, cut, ran, steps, alike⟩ := follows.path
  refine ⟨⟨past, current, middle, memory, phases ▸ cut, ran, threads ▸ steps, ?_⟩,
    threads ▸ follows.threads, phases ▸ follows.later⟩
  have before := alike.part
  have before' := alike.common
  rw [GridState.view, split.global_join] at before before'
  refine ⟨?_, ?_, ?_⟩
  · rw [alike.own, GridState.view, GridState.view, split.own_join, split.own_join, own]
  · rw [GridState.view, split.global_join, before, same]
  · rw [GridState.view, split.global_join, before', rest]

/-- Its own action the block could also take alone. -/
theorem Follows.act
    (follows : Follows split part common program start count block
      state) {thread : Nat} {update : S → S} {next : S → Program S} (within : thread < count)
    (here : state.threads block thread = .act update next) :
    Follows split part common program start count block
      (state.acted split block thread update next) := by
  obtain ⟨past, current, middle, memory, cut, ran, steps, alike⟩ := follows.path
  obtain ⟨_, same, onward⟩ : Confined split part common block (.act update next) :=
    here ▸ follows.threads thread
  obtain ⟨alike', nexts⟩ := same _ _ alike
  -- the next program is the same in both, since the block cannot tell the memories apart
  have moved : (state.acted split block thread update next).threads block =
      Function.update (state.threads block) thread (next memory) := by
    rw [nexts]
    exact Function.update_self ..
  refine ⟨⟨past, current, middle, update memory, cut, ran, ?_, ?_⟩, ?_, follows.later⟩
  · rw [moved]
    exact steps.tail (.act within here)
  · rw [view_acted]
    exact alike'
  · intro other
    rw [moved]
    by_cases own : other = thread
    · rw [own, Function.update_self]
      exact onward memory
    · rw [Function.update_of_ne own]
      exact follows.threads other

/-- Its barrier opens as it does when the block runs alone. -/
theorem Follows.barrier
    (follows : Follows split part common program start count block
      state) {phase : Nat → Program S} {rest : List (Nat → Program S)}
    (ended : ∀ thread < count, state.threads block thread = .done)
    (more : state.phases block = phase :: rest) :
    Follows split part common program start count block
      (state.opened block phase rest) := by
  obtain ⟨past, current, middle, memory, cut, ran, steps, alike⟩ := follows.path
  have left : (state.opened block phase rest).phases block = rest := Function.update_self ..
  have loaded : (state.opened block phase rest).threads block = phase := Function.update_self ..
  -- the phase that has ended joins the past
  refine ⟨⟨past ++ [current], phase, memory, memory, ?_, ?_, ?_, alike⟩, ?_, ?_⟩
  · rw [left, cut, more, List.append_assoc]
    rfl
  · exact ran.join (.cons ⟨_, steps, ended⟩ (.nil _))
  · rw [loaded]
  · rw [loaded]
    exact follows.later phase (more ▸ .head _)
  · rw [left]
    exact fun later listed => follows.later later (more ▸ .tail _ listed)

/-- What a grid step does to every block at once, and to the part of nobody. -/
theorem follows_step {programs : Nat → List (Nat → Program S)} {starts : Nat → S}
    (moved : GridStep split blocks count state state')
    (follows : ∀ block < blocks, Follows split part common
      (programs block) (starts block) count block state) :
    (∀ block < blocks, Follows split part common
      (programs block) (starts block) count block state') ∧
    common state'.global = common state.global := by
  cases moved with
  | @act actor thread update next inGrid within here =>
    obtain ⟨stays, _, _⟩ : Confined split part common actor (.act update next) :=
      here ▸ (follows actor inGrid).threads thread
    -- the actor follows its own step, the others see their part unchanged
    have kept := stays (state.view split actor)
    rw [GridState.view] at kept
    refine ⟨fun block among => ?_, kept.common.trans (by rw [split.global_join])⟩
    by_cases same : block = actor
    · subst same
      exact (follows block among).act within here
    · refine (follows block among).other (Function.update_of_ne same ..)
        (Function.update_of_ne same ..) rfl ?_ ?_
      · exact (kept.others block same).trans (by rw [split.global_join])
      · exact kept.common.trans (by rw [split.global_join])
  | @barrier actor phase rest inGrid ended more =>
    refine ⟨fun block among => ?_, rfl⟩
    by_cases same : block = actor
    · subst same
      exact (follows block among).barrier ended more
    · exact (follows block among).other rfl (Function.update_of_ne same ..)
        (Function.update_of_ne same ..) rfl rfl

/-- A launch is a run of each block alone, as far as its own part goes, and leaves what is common
as it was. -/
theorem grid_projects {own : Nat → P} {global global' : G}
    (confined : ∀ block < blocks, ∀ phase ∈ phases block, ∀ thread,
      Confined split part common block (phase thread))
    (ran : GridRuns split blocks count phases own global global') :
    (∀ block < blocks, ∃ memory,
      Runs count (phases block) (split.join (own block) global) memory ∧
      part block (split.global memory) = part block global') ∧
    common global' = common global := by
  obtain ⟨last, steps, finished, rfl⟩ := ran
  have invariant : ∀ state, Relation.ReflTransGen (GridStep split blocks count)
      (GridState.launched phases own global) state →
      (∀ block < blocks, Follows split part common
        (phases block) (split.join (own block) global) count block state) ∧
      common state.global = common global := by
    intro state steps
    induction steps with
    | refl =>
      refine ⟨fun block among => ⟨⟨[], fun _ => .done, _, _, rfl, .nil _, .refl, .refl _⟩,
        fun _ => trivial, confined block among⟩, rfl⟩
    | tail _ moved ih =>
      obtain ⟨follows, still⟩ := follows_step moved ih.1
      exact ⟨follows, still.trans ih.2⟩
  obtain ⟨follows, still⟩ := invariant last steps
  refine ⟨fun block among => ?_, still⟩
  obtain ⟨past, current, middle, memory, cut, ran, steps, alike⟩ := (follows block among).path
  obtain ⟨ended, empty⟩ := finished block among
  have whole : Runs count ((fun _ => .done) :: phases block) (split.join (own block) global)
      memory := by
    rw [cut, empty]
    exact ran.join (.cons ⟨_, steps, ended⟩ (.nil _))
  refine ⟨memory, ?_, ?_⟩
  · -- nobody acts before the first barrier
    cases whole with
    | cons first later =>
      obtain ⟨threads', idle, _⟩ := first
      cases idle using Relation.ReflTransGen.head_induction_on with
      | refl => exact later
      | head moved _ =>
        cases moved with
        | act _ here => cases here
  · have seen := alike.part
    rwa [GridState.view, split.global_join] at seen

end Confined

/-! ### Every launch ends -/

variable {blocks : Nat} (count : Nat)

/-- The other blocks are where they were. -/
structure OthersWait (block : Nat) (state state' : GridState S P G) : Prop where
  threads : ∀ other, other ≠ block → state'.threads other = state.threads other
  phases : ∀ other, other ≠ block → state'.phases other = state.phases other

theorem OthersWait.trans {block : Nat} {a b c : GridState S P G} (first : OthersWait block a b)
    (second : OthersWait block b c) : OthersWait block a c where
  threads other different := (second.threads other different).trans (first.threads other different)
  phases other different := (second.phases other different).trans (first.phases other different)

/-- A thread can go on to the barrier. -/
theorem thread_ends {block thread : Nat} (inGrid : block < blocks) (within : thread < count)
    (state : GridState S P G) :
    ∃ state', Relation.ReflTransGen (GridStep split blocks count) state state' ∧
      state'.threads block =
        Function.update (state.threads block) thread .done ∧
      state'.phases block = state.phases block ∧ OthersWait block state state' := by
  generalize here : state.threads block thread = program
  -- the state moves with the program, so it is generalized
  induction program generalizing state with
  | done =>
    refine ⟨state, .refl, ?_, rfl, fun _ _ => rfl, fun _ _ => rfl⟩
    rw [← here, Function.update_eq_self]
  | act update next ih =>
    have first : GridStep split blocks count state (state.acted split block thread update next) :=
      .act inGrid within here
    have loaded : (state.acted split block thread update next).threads block =
        Function.update (state.threads block) thread (next (state.view split block)) :=
      Function.update_self ..
    obtain ⟨state', steps, threads, phases, waits⟩ :=
      ih (state.view split block) (state.acted split block thread update next)
        ((congrFun loaded thread).trans (Function.update_self ..))
    have waits₀ : OthersWait block state (state.acted split block thread update next) :=
      ⟨fun other different => Function.update_of_ne different .., fun _ _ => rfl⟩
    refine ⟨state', .head first steps, ?_, phases, waits₀.trans waits⟩
    rw [threads, loaded, Function.update_idem]

/-- All threads of a block can. -/
theorem phase_ends {block : Nat} (inGrid : block < blocks) (state : GridState S P G) :
    ∃ state', Relation.ReflTransGen (GridStep split blocks count) state state' ∧
      (∀ thread < count, state'.threads block thread = .done) ∧
      state'.phases block = state.phases block ∧ OthersWait block state state' := by
  -- the first `n` threads have come to the barrier
  have upTo : ∀ n ≤ count, ∃ state',
      Relation.ReflTransGen (GridStep split blocks count) state state' ∧
      (∀ thread < n, state'.threads block thread = .done) ∧
      state'.phases block = state.phases block ∧ OthersWait block state state' := by
    intro n
    induction n with
    | zero =>
      exact fun _ => ⟨state, .refl, fun _ low => absurd low (Nat.not_lt_zero _), rfl,
        fun _ _ => rfl, fun _ _ => rfl⟩
    | succ n ih =>
      intro enough
      obtain ⟨middle, steps, ended, phases, waits⟩ := ih (Nat.le_of_lt enough)
      obtain ⟨state', steps', threads', phases', waits'⟩ :=
        thread_ends split count inGrid enough middle
      refine ⟨state', steps.trans steps', fun thread low => ?_, phases'.trans phases,
        waits.trans waits'⟩
      rw [threads']
      by_cases last : thread = n
      · rw [last, Function.update_self]
      · rw [Function.update_of_ne last]
        exact ended thread (by omega)
  exact upTo count le_rfl

/-- A block can come to its end. -/
theorem block_ends {block : Nat} (inGrid : block < blocks) (state : GridState S P G) :
    ∃ state', Relation.ReflTransGen (GridStep split blocks count) state state' ∧
      (∀ thread < count, state'.threads block thread = .done) ∧ state'.phases block = [] ∧
      OthersWait block state state' := by
  generalize left : state.phases block = phases
  induction phases generalizing state with
  | nil =>
    obtain ⟨state', steps, ended, phases, waits⟩ := phase_ends split count inGrid state
    exact ⟨state', steps, ended, phases.trans left, waits⟩
  | cons phase rest ih =>
    obtain ⟨middle, steps, ended, phases, waits⟩ := phase_ends split count inGrid state
    have opened : GridStep split blocks count middle (middle.opened block phase rest) :=
      .barrier inGrid ended (phases.trans left)
    obtain ⟨state', steps', ended', phases', waits'⟩ :=
      ih (middle.opened block phase rest) (Function.update_self ..)
    have waits₀ : OthersWait block middle (middle.opened block phase rest) :=
      ⟨fun other different => Function.update_of_ne different ..,
        fun other different => Function.update_of_ne different ..⟩
    exact ⟨state', (steps.tail opened).trans steps', ended', phases',
      waits.trans (waits₀.trans waits')⟩

theorem grid_exists (blocks : Nat)
    (phases : Nat → List (Nat → Program S)) (own : Nat → P) (global : G) :
    ∃ global', GridRuns split blocks count phases own global global' := by
  have upTo : ∀ n ≤ blocks, ∃ state,
      Relation.ReflTransGen (GridStep split blocks count)
        (GridState.launched phases own global) state ∧ state.Finished n count := by
    intro n
    induction n with
    | zero => exact fun _ => ⟨_, .refl, fun _ low => absurd low (Nat.not_lt_zero _)⟩
    | succ n ih =>
      intro enough
      obtain ⟨middle, steps, finished⟩ := ih (Nat.le_of_lt enough)
      obtain ⟨state, steps', ended, empty, waits⟩ := block_ends split count enough middle
      refine ⟨state, steps.trans steps', fun block low => ?_⟩
      by_cases last : block = n
      · exact last ▸ ⟨ended, empty⟩
      · rw [waits.threads block last, waits.phases block last]
        exact finished block (by omega)
  obtain ⟨state, steps, finished⟩ := upTo blocks le_rfl
  exact ⟨_, state, steps, finished, rfl⟩

end BarrierBlock
