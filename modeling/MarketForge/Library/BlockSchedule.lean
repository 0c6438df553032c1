import MarketForge.Library.BarrierBlock
import Mathlib.Data.List.Nodup

/-!
# Chosen interleavings of a block

What holds for every interleaving is proved by rely and guarantee. That a certain outcome is
reached by some interleaving takes a schedule: some threads read first, one thread runs to the
barrier while the others wait, and whatever is left goes on in any order.
-/
namespace BarrierBlock

variable {S : Type} {count : Nat}

/-- The memory when a thread runs to the barrier with nobody in between. -/
def Program.finish : Program S → S → S
  | .done, memory => memory
  | .act update next, memory => (next memory).finish (update memory)

/-- One thread may run to the barrier while the others wait. -/
theorem steps_finish {thread : Nat} (within : thread < count) (threads : Nat → Program S)
    (memory : S) :
    Relation.ReflTransGen (Step count) (memory, threads)
      ((threads thread).finish memory, Function.update threads thread .done) := by
  generalize here : threads thread = program
  induction program generalizing threads memory with
  | done =>
    have idle : Function.update threads thread .done = threads := by
      rw [← here, Function.update_eq_self]
    rw [idle]
    exact .refl
  -- no other thread acts in between, so the rest of the program finds this memory
  | act update next ih =>
    have first : Step count (memory, threads)
        (update memory, Function.update threads thread (next memory)) := .act within here
    have later := ih memory (Function.update threads thread (next memory)) (update memory)
      (Function.update_self ..)
    rw [Function.update_idem] at later
    exact .head first later

/-- Some threads may take their first read before anybody writes. -/
theorem steps_read {α : Type} {cell : S → α} {next : Nat → α → Program S} {memory : S}
    {chosen : List Nat} (distinct : chosen.Nodup) (within : ∀ thread ∈ chosen, thread < count)
    {threads : Nat → Program S}
    (waiting : ∀ thread ∈ chosen, threads thread = .read cell (next thread)) :
    Relation.ReflTransGen (Step count) (memory, threads)
      (memory, fun thread =>
        if thread ∈ chosen then next thread (cell memory) else threads thread) := by
  induction chosen generalizing threads with
  | nil => simpa using Relation.ReflTransGen.refl
  | cons thread rest ih =>
    obtain ⟨fresh, distinct⟩ := List.nodup_cons.mp distinct
    have first : Step count (memory, threads)
        (memory, Function.update threads thread (next thread (cell memory))) :=
      Step.act (within thread (.head _)) (waiting thread (.head _))
    have others : ∀ other ∈ rest,
        Function.update threads thread (next thread (cell memory)) other =
          .read cell (next other) := by
      intro other listed
      have different : other ≠ thread := fun same => fresh (same ▸ listed)
      rw [Function.update_of_ne different]
      exact waiting other (.tail _ listed)
    have later := ih distinct (fun other listed => within other (.tail _ listed)) others
    refine .head first ?_
    convert later using 3 with other
    -- the thread that has read is not among the rest, where the two sides differ in form only
    by_cases same : other = thread
    · rw [same, if_pos List.mem_cons_self, if_neg fresh, Function.update_self]
    · rw [Function.update_of_ne same]
      simp only [List.mem_cons, same, false_or]

/-- An interleaving goes on from wherever some steps have led. -/
theorem Interleaves.after {threads threads' : Nat → Program S} {memory middle memory' : S}
    (steps : Relation.ReflTransGen (Step count) (memory, threads) (middle, threads'))
    (ran : Interleaves count threads' middle memory') :
    Interleaves count threads memory memory' := by
  obtain ⟨ended, later, finished⟩ := ran
  exact ⟨ended, steps.trans later, finished⟩

/-- A block in which a single thread has something to do. -/
theorem interleaves_finish {thread : Nat} (within : thread < count) (program : Program S)
    (memory : S) :
    Interleaves count (Function.update (fun _ => .done) thread program) memory
      (program.finish memory) := by
  refine ⟨fun _ => .done, ?_, fun _ _ => rfl⟩
  have ran := steps_finish within (Function.update (fun _ => .done) thread program) memory
  rw [Function.update_self, Function.update_idem, Function.update_eq_self] at ran
  exact ran

/-- The chosen threads read first, then the leader runs to the barrier, and the rest goes on in any
order. -/
theorem interleaves_after_leader {α : Type} {cell : S → α} {next : Nat → α → Program S}
    {threads : Nat → Program S} {memory memory' : S} {leader : Nat} {chosen : List Nat}
    (within : leader < count) (distinct : chosen.Nodup) (apart : leader ∉ chosen)
    (readers : ∀ thread ∈ chosen, thread < count ∧ threads thread = .read cell (next thread))
    (ran : Interleaves count
      (Function.update
        (fun thread => if thread ∈ chosen then next thread (cell memory) else threads thread)
        leader .done)
      ((threads leader).finish memory) memory') :
    Interleaves count threads memory memory' := by
  -- reads leave the memory, so the leader starts from the same one
  have reads : Relation.ReflTransGen (Step count) (memory, threads) (memory, fun thread =>
      if thread ∈ chosen then next thread (cell memory) else threads thread) :=
    steps_read distinct (fun thread listed => (readers thread listed).1)
      fun thread listed => (readers thread listed).2
  have runs := steps_finish within
    (fun thread => if thread ∈ chosen then next thread (cell memory) else threads thread) memory
  rw [if_neg apart] at runs
  exact ran.after (reads.trans runs)

theorem Runs.join {phases rest : List (Nat → Program S)} {memory middle memory' : S}
    (before : Runs count phases memory middle) (after : Runs count rest middle memory') :
    Runs count (phases ++ rest) memory memory' := by
  induction before with
  | nil => exact after
  | cons first _ ih => exact .cons first (ih after)

end BarrierBlock
