import Mathlib.Logic.Function.Basic
import Mathlib.Logic.Relation

/-!
# Blocks of threads with barriers

The threads of a block share a memory. Between two barriers each thread runs a program of atomic
actions, the actions of the threads interleave in any order, and the barrier opens when all
threads are done. Every interleaving ends (`step_wellFounded`). What holds at the barrier is
proved thread by thread (`interleaves_post`): each relies on how the others may change the memory
and guarantees how it changes the memory itself.
-/
namespace BarrierBlock

/-- The actions of a thread up to the next barrier. An action changes the memory, and what
follows may depend on the memory that it found. -/
inductive Program (S : Type) where
  | done
  | act (update : S → S) (next : S → Program S)

variable {S : Type}

namespace Program

def read {α : Type} (cell : S → α) (next : α → Program S) : Program S :=
  .act id fun memory => next (cell memory)

def write (update : S → S) (next : Program S) : Program S := .act update fun _ => next

end Program

/-- One action of one of the first `count` threads. -/
inductive Step (count : Nat) : S × (Nat → Program S) → S × (Nat → Program S) → Prop where
  | act {memory : S} {threads : Nat → Program S} {thread : Nat} {update : S → S}
      {next : S → Program S} (within : thread < count)
      (here : threads thread = .act update next) :
      Step count (memory, threads)
        (update memory, Function.update threads thread (next memory))

/-- An interleaving of the threads from one barrier to the next. -/
def Interleaves (count : Nat) (threads : Nat → Program S) (memory memory' : S) : Prop :=
  ∃ threads', Relation.ReflTransGen (Step count) (memory, threads) (memory', threads') ∧
    ∀ thread < count, threads' thread = .done

/-- A run of a block through its phases, which barriers separate. -/
inductive Runs (count : Nat) : List (Nat → Program S) → S → S → Prop where
  | nil (memory : S) : Runs count [] memory memory
  | cons {phase : Nat → Program S} {rest : List (Nat → Program S)} {memory middle memory' : S}
      (first : Interleaves count phase memory middle) (later : Runs count rest middle memory') :
      Runs count (phase :: rest) memory memory'

theorem Runs.append {count : Nat} {phases rest : List (Nat → Program S)} {memory memory' : S}
    (ran : Runs count (phases ++ rest) memory memory') :
    ∃ middle, Runs count phases memory middle ∧ Runs count rest middle memory' := by
  induction phases generalizing memory with
  | nil => exact ⟨memory, .nil memory, ran⟩
  | cons phase phases ih =>
    cases ran with
    | cons first later =>
      obtain ⟨middle, before, after⟩ := ih later
      exact ⟨middle, .cons first before, after⟩

/-! ### Termination -/

/-- One more thread, whose program is `program`: if it is bound to end after its next action, and
the threads before it are bound to end, then all are. -/
private theorem acc_with_last {count : Nat}
    (others : WellFounded fun after before : S × (Nat → Program S) => Step count before after)
    (program : Program S)
    (later : ∀ update next, program = .act update next → ∀ memory state,
      state.2 count = next memory →
        Acc (fun after before => Step (count + 1) before after) state)
    (state : S × (Nat → Program S)) (waiting : state.2 count = program) :
    Acc (fun after before => Step (count + 1) before after) state := by
  induction state using others.induction with
  | h state ih =>
    refine ⟨state, fun after moved => ?_⟩
    cases moved with
    | @act memory threads thread update next within here =>
      rcases Nat.lt_succ_iff_lt_or_eq.mp within with earlier | rfl
      · refine ih _ (.act earlier here) ?_
        dsimp only
        rw [Function.update_of_ne (Nat.ne_of_gt earlier)]
        exact waiting
      · exact later update next (waiting.symm.trans here) memory _ (Function.update_self _ _ _)

/-- No interleaving goes on forever. -/
theorem step_wellFounded (count : Nat) :
    WellFounded fun after before : S × (Nat → Program S) => Step count before after := by
  induction count with
  | zero =>
    refine ⟨fun state => ⟨state, fun after moved => ?_⟩⟩
    cases moved with
    | act within _ => exact absurd within (Nat.not_lt_zero _)
  | succ count ih =>
    have last : ∀ (program : Program S) (state : S × (Nat → Program S)),
        state.2 count = program →
        Acc (fun after before => Step (count + 1) before after) state := by
      intro program
      induction program with
      | done => exact acc_with_last ih .done fun update next impossible => nomatch impossible
      | act lastUpdate lastNext later =>
        refine acc_with_last ih _ fun update next same memory state waiting => ?_
        cases same
        exact later memory state waiting
    exact ⟨fun state => last _ state rfl⟩

/-- From every state the threads can go on to the barrier. -/
theorem interleaves_exists (count : Nat) (threads : Nat → Program S) (memory : S) :
    ∃ memory', Interleaves count threads memory memory' := by
  have finish : ∀ state : S × (Nat → Program S), ∃ memory' threads',
      Relation.ReflTransGen (Step count) state (memory', threads') ∧
        ∀ thread < count, threads' thread = .done := by
    intro state
    induction state using (step_wellFounded count).induction with
    | h state later =>
      by_cases finished : ∀ thread < count, state.2 thread = .done
      · exact ⟨state.1, state.2, .refl, finished⟩
      · simp only [not_forall, exists_prop] at finished
        obtain ⟨thread, within, waiting⟩ := finished
        cases here : state.2 thread with
        | done => exact absurd here waiting
        | act update next =>
          have moved : Step count state
              (update state.1, Function.update state.2 thread (next state.1)) :=
            .act within here
          obtain ⟨memory', threads', ran, ended⟩ := later _ moved
          exact ⟨memory', threads', .head moved ran, ended⟩
  obtain ⟨memory', threads', ran, ended⟩ := finish (memory, threads)
  exact ⟨memory', threads', ran, ended⟩

theorem runs_exists (count : Nat) (phases : List (Nat → Program S)) (memory : S) :
    ∃ memory', Runs count phases memory memory' := by
  induction phases generalizing memory with
  | nil => exact ⟨memory, .nil memory⟩
  | cons phase rest ih =>
    obtain ⟨middle, first⟩ := interleaves_exists count phase memory
    obtain ⟨memory', later⟩ := ih middle
    exact ⟨memory', .cons first later⟩

/-! ### Rely and guarantee -/

/-- How each thread may change the memory, and how it relies on the others to change it. -/
structure Interference (S : Type) where
  rely : Nat → S → S → Prop
  guarantee : Nat → S → S → Prop
  refl : ∀ thread s, rely thread s s
  trans : ∀ thread a b c, rely thread a b → rely thread b c → rely thread a c
  compatible : ∀ thread other, thread ≠ other → ∀ s s', guarantee other s s' → rely thread s s'

/-- From this memory on, whatever the others do, the program of a thread keeps its guarantee and
ends with `post`. -/
def Keeps (rely guarantee : S → S → Prop) (post : S → Prop) : Program S → S → Prop
  | .done, memory => ∀ memory', rely memory memory' → post memory'
  | .act update next, memory => ∀ memory', rely memory memory' →
      guarantee memory' (update memory') ∧
        Keeps rely guarantee post (next memory') (update memory')

/-- A read goes on with the value it finds. -/
theorem Keeps.read {rely guarantee : S → S → Prop} {post : S → Prop} {α : Type} {cell : S → α}
    {next : α → Program S} {memory : S} (still : ∀ s, guarantee s s)
    (onward : ∀ memory' value, rely memory memory' → cell memory' = value →
      Keeps rely guarantee post (next value) memory') :
    Keeps rely guarantee post (.read cell next) memory :=
  fun memory' moved => ⟨still memory', onward memory' _ moved rfl⟩

/-- A write happens in the memory that the others have left. -/
theorem Keeps.write {rely guarantee : S → S → Prop} {post : S → Prop} {update : S → S}
    {next : Program S} {memory : S} (allowed : ∀ s, guarantee s (update s))
    (onward : ∀ memory', rely memory memory' →
      Keeps rely guarantee post next (update memory')) :
    Keeps rely guarantee post (.write update next) memory :=
  fun memory' moved => ⟨allowed memory', onward memory' moved⟩

theorem Keeps.stable {rely guarantee : S → S → Prop} {post : S → Prop}
    (trans : ∀ a b c, rely a b → rely b c → rely a c) {program : Program S}
    {memory memory' : S} (keeps : Keeps rely guarantee post program memory)
    (moved : rely memory memory') : Keeps rely guarantee post program memory' := by
  cases program with
  | done => exact fun later onward => keeps later (trans _ _ _ moved onward)
  | act update next => exact fun later onward => keeps later (trans _ _ _ moved onward)

/-- One action keeps what every thread keeps. -/
theorem step_keeps (interference : Interference S) {count : Nat} {post : Nat → S → Prop}
    {before after : S × (Nat → Program S)} (moved : Step count before after)
    (keeps : ∀ thread < count, Keeps (interference.rely thread) (interference.guarantee thread)
      (post thread) (before.2 thread) before.1) :
    ∀ thread < count, Keeps (interference.rely thread) (interference.guarantee thread)
      (post thread) (after.2 thread) after.1 := by
  cases moved with
  | @act memory threads actor update next within here =>
    have acted := keeps actor within
    dsimp only at acted
    rw [here] at acted
    obtain ⟨guaranteed, onward⟩ := acted memory (interference.refl actor memory)
    intro thread inside
    by_cases same : thread = actor
    · subst same
      dsimp only
      rw [Function.update_self]
      exact onward
    · dsimp only
      rw [Function.update_of_ne same]
      exact (keeps thread inside).stable (interference.trans thread)
        (interference.compatible thread actor same _ _ guaranteed)

/-- What the threads keep holds at the barrier, for every interleaving. -/
theorem interleaves_post (interference : Interference S) {count : Nat} (post : Nat → S → Prop)
    {threads : Nat → Program S} {memory memory' : S}
    (keeps : ∀ thread < count, Keeps (interference.rely thread) (interference.guarantee thread)
      (post thread) (threads thread) memory)
    (ran : Interleaves count threads memory memory') : ∀ thread < count, post thread memory' := by
  obtain ⟨threads', steps, ended⟩ := ran
  have kept : ∀ after : S × (Nat → Program S),
      Relation.ReflTransGen (Step count) (memory, threads) after →
      ∀ thread < count, Keeps (interference.rely thread) (interference.guarantee thread)
        (post thread) (after.2 thread) after.1 := by
    intro after steps
    induction steps with
    | refl => exact keeps
    | tail _ moved ih => exact step_keeps interference moved ih
  intro thread within
  have finished := kept _ steps thread within
  dsimp only at finished
  rw [ended thread within] at finished
  exact finished memory' (interference.refl thread memory')

end BarrierBlock
