import MarketForge.Library.BlockGrid

/-!
# Grids from runs of their blocks

The converse of `grid_projects`: what each block can do alone, a launch can do in all of its blocks
at once (`grid_assembles`). The blocks run one after another, and a block that keeps to its part
cannot tell the memory that the earlier ones left from the memory of the launch.
-/
namespace BarrierBlock

variable {S P G W : Type} {V : Nat → Type} {split : Split S P G}
  {part : (block : Nat) → G → V block} {common : G → W} {blocks count block : Nat}

variable (part common) in
/-- What a block that keeps to its part leaves of the other blocks. -/
structure LeavesOthers (block : Nat) (state state' : GridState S P G) : Prop where
  own : ∀ other, other ≠ block → state'.own other = state.own other
  threads : ∀ other, other ≠ block → state'.threads other = state.threads other
  phases : ∀ other, other ≠ block → state'.phases other = state.phases other
  part : ∀ other, other ≠ block → part other state'.global = part other state.global
  common : common state'.global = common state.global

theorem LeavesOthers.refl (state : GridState S P G) :
    LeavesOthers part common block state state :=
  ⟨fun _ _ => rfl, fun _ _ => rfl, fun _ _ => rfl, fun _ _ => rfl, rfl⟩

theorem LeavesOthers.trans {a b c : GridState S P G} (first : LeavesOthers part common block a b)
    (second : LeavesOthers part common block b c) : LeavesOthers part common block a c where
  own other different := (second.own other different).trans (first.own other different)
  threads other different := (second.threads other different).trans (first.threads other different)
  phases other different := (second.phases other different).trans (first.phases other different)
  part other different := (second.part other different).trans (first.part other different)
  common := second.common.trans first.common

theorem leaves_acted {state : GridState S P G} {thread : Nat} {update : S → S}
    {next : S → Program S} (confined : Confined split part common block (.act update next)) :
    LeavesOthers part common block state (state.acted split block thread update next) := by
  have kept := confined.1 (state.view split block)
  rw [GridState.view] at kept
  refine ⟨fun _ different => Function.update_of_ne different ..,
    fun _ different => Function.update_of_ne different .., fun _ _ => rfl,
    fun other different => ?_, ?_⟩
  · exact (kept.others other different).trans (by rw [split.global_join])
  · exact kept.common.trans (by rw [split.global_join])

theorem leaves_opened {state : GridState S P G} {phase : Nat → Program S}
    {rest : List (Nat → Program S)} :
    LeavesOthers part common block state (state.opened block phase rest) :=
  ⟨fun _ _ => rfl, fun _ different => Function.update_of_ne different ..,
    fun _ different => Function.update_of_ne different .., fun _ _ => rfl, rfl⟩

/-- The steps of a block alone, from one barrier to the next, taken in the grid. -/
theorem steps_assemble (inGrid : block < blocks) {a b : S × (Nat → Program S)}
    (steps : Relation.ReflTransGen (Step count) a b) {state : GridState S P G}
    (here : state.threads block = a.2)
    (alike : Alike split part common block a.1 (state.view split block))
    (confined : ∀ thread, Confined split part common block (a.2 thread)) :
    ∃ state', Relation.ReflTransGen (GridStep split blocks count) state state' ∧
      state'.threads block = b.2 ∧ state'.phases block = state.phases block ∧
      Alike split part common block b.1 (state'.view split block) ∧
      LeavesOthers part common block state state' := by
  induction steps using Relation.ReflTransGen.head_induction_on generalizing state with
  | refl => exact ⟨state, .refl, here, rfl, alike, .refl state⟩
  | head moved _ ih =>
    cases moved with
    | @act memory threads thread update next within acting =>
      have acts : Confined split part common block (.act update next) := acting ▸ confined thread
      obtain ⟨alike', nexts⟩ := acts.2.1 _ _ alike
      have here' : state.threads block = threads := here
      -- the next program is the one that the block alone goes on with
      have loaded : (state.acted split block thread update next).threads block =
          Function.update threads thread (next memory) := by
        rw [nexts, ← here']
        exact Function.update_self ..
      have confined' : ∀ other, Confined split part common block
          (Function.update threads thread (next memory) other) := by
        intro other
        by_cases own : other = thread
        · rw [own, Function.update_self]
          exact acts.2.2 memory
        · rw [Function.update_of_ne own]
          exact confined other
      obtain ⟨state', steps', ended, phases, reached, leaves⟩ :=
        ih loaded (by rw [view_acted]; exact alike') confined'
      exact ⟨state', .head (.act inGrid within ((congrFun here' thread).trans acting)) steps',
        ended,
        phases, reached, (leaves_acted acts).trans leaves⟩

/-- A run of a block alone, in the grid. -/
theorem run_assemble (inGrid : block < blocks) {phases : List (Nat → Program S)} {start last : S}
    (ran : Runs count phases start last) {state : GridState S P G}
    (left : state.phases block = phases)
    (ended : ∀ thread < count, state.threads block thread = .done)
    (alike : Alike split part common block start (state.view split block))
    (confined : ∀ phase ∈ phases, ∀ thread, Confined split part common block (phase thread)) :
    ∃ state', Relation.ReflTransGen (GridStep split blocks count) state state' ∧
      (∀ thread < count, state'.threads block thread = .done) ∧ state'.phases block = [] ∧
      Alike split part common block last (state'.view split block) ∧
      LeavesOthers part common block state state' := by
  -- one barrier after another; the grid state that a phase leaves starts the next
  induction ran generalizing state with
  | nil memory => exact ⟨state, .refl, ended, left, alike, .refl state⟩
  | @cons phase rest memory middle memory' first later ih =>
    obtain ⟨threads', steps, arrived⟩ := first
    have opened : GridStep split blocks count state (state.opened block phase rest) :=
      .barrier inGrid ended left
    have loaded : (state.opened block phase rest).threads block = phase := Function.update_self ..
    obtain ⟨state₁, steps₁, threads₁, phases₁, alike₁, leaves₁⟩ :=
      steps_assemble inGrid steps loaded alike (confined phase (.head _))
    have left₁ : state₁.phases block = rest := phases₁.trans (Function.update_self ..)
    have ended₁ : ∀ thread < count, state₁.threads block thread = .done := by
      intro thread within
      rw [threads₁]
      exact arrived thread within
    obtain ⟨state', steps', ended', empty, alike', leaves'⟩ :=
      ih left₁ ended₁ alike₁ fun later listed => confined later (.tail _ listed)
    exact ⟨state', .head opened (steps₁.trans steps'), ended', empty, alike',
      leaves_opened.trans (leaves₁.trans leaves')⟩

/-- Runs of the blocks alone make up a launch, as far as the part of each block goes. -/
theorem grid_assembles {phases : Nat → List (Nat → Program S)} {own : Nat → P} {global : G}
    (confined : ∀ block < blocks, ∀ phase ∈ phases block, ∀ thread,
      Confined split part common block (phase thread)) {last : Nat → S}
    (alone : ∀ block < blocks,
      Runs count (phases block) (split.join (own block) global) (last block)) :
    ∃ global', GridRuns split blocks count phases own global global' ∧
      ∀ block < blocks, part block (split.global (last block)) = part block global' := by
  -- the first `n` blocks have run, the others wait and their parts are untouched
  have upTo : ∀ n ≤ blocks, ∃ state,
      Relation.ReflTransGen (GridStep split blocks count)
        (GridState.launched phases own global) state ∧ state.Finished n count ∧
      (∀ block < n, part block (split.global (last block)) = part block state.global) ∧
      (∀ block, n ≤ block → state.own block = own block ∧
        state.threads block = (fun _ => .done) ∧ state.phases block = phases block ∧
        part block state.global = part block global) ∧
      common state.global = common global := by
    intro n
    induction n with
    | zero =>
      exact fun _ => ⟨_, .refl, fun _ low => absurd low (Nat.not_lt_zero _),
        fun _ low => absurd low (Nat.not_lt_zero _), fun _ _ => ⟨rfl, rfl, rfl, rfl⟩, rfl⟩
    | succ n ih =>
      intro enough
      obtain ⟨middle, steps, finished, parts, waiting, still⟩ := ih (Nat.le_of_lt enough)
      obtain ⟨ownRests, idle, left, partRests⟩ := waiting n le_rfl
      have alike : Alike split part common n (split.join (own n) global)
          (middle.view split n) := by
        rw [GridState.view]
        constructor
        · rw [split.own_join, split.own_join, ownRests]
        · rw [split.global_join, split.global_join, partRests]
        · rw [split.global_join, split.global_join, still]
      obtain ⟨state, steps', ended, empty, alike', leaves⟩ := run_assemble enough
        (alone n enough) left (fun thread _ => congrFun idle thread) alike (confined n enough)
      refine ⟨state, steps.trans steps', fun block low => ?_, fun block low => ?_,
        fun block high => ?_, leaves.common.trans still⟩
      · by_cases here : block = n
        · exact here ▸ ⟨ended, empty⟩
        · rw [leaves.threads block here, leaves.phases block here]
          exact finished block (by omega)
      -- block `n` leaves its part as it does alone, and those of the earlier ones
      · by_cases here : block = n
        · have seen := alike'.part
          rw [GridState.view, split.global_join] at seen
          exact here ▸ seen
        · rw [leaves.part block here]
          exact parts block (by omega)
      · have different : block ≠ n := by omega
        obtain ⟨ownWaits, threadsWait, phasesWait, partWaits⟩ := waiting block (by omega)
        exact ⟨(leaves.own block different).trans ownWaits,
          (leaves.threads block different).trans threadsWait,
          (leaves.phases block different).trans phasesWait,
          (leaves.part block different).trans partWaits⟩
  obtain ⟨state, steps, finished, parts, _, _⟩ := upTo blocks le_rfl
  exact ⟨_, ⟨state, steps, finished, rfl⟩, parts⟩

end BarrierBlock
