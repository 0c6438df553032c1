import MarketForge.Cuda.AttentionKernel
import MarketForge.Library.BlockSchedule

/-!
# What the race of the attention kernel can change

The outputs of a block of `attention_kernel` over all interleavings, exactly. Any threads but
thread zero may be late: they read the maximum after thread zero has put its partial sum in the
same cell. Which threads are late decides the output, and any choice of them is some
interleaving's.
-/
namespace MarketForge.Cuda

open BarrierBlock

namespace AttentionInput

variable {F H : Type} [DeviceFloat F] [Stored F H] {input : AttentionInput H} {vector : UInt64}

/-! ### From barrier to barrier -/

theorem maximum_ready {memory scored memory' : AttentionMemory F H}
    (first : Interleaves blockDim (input.scoreKeys vector) memory scored)
    (tree : Runs blockDim (treePhases DeviceFloat.fmaxf 8) scored memory') :
    input.MaximumReady vector memory' ∧ memory'.rest.output = memory.rest.output := by
  have scores := scoreKeys_outcome first
  obtain ⟨maximum, rest⟩ := treePhases_outcome (by decide) tree (input.localMaximum vector)
    fun thread within => (scores thread within).cell
  refine ⟨⟨maximum, fun keyToken below => ?_⟩, ?_⟩
  · rw [rest]
    exact (scores _ (mod_lt_blockDim keyToken)).logits keyToken below rfl
  · rw [rest]
    exact (scores 0 (by decide)).output

theorem sum_ready {late : Nat → Bool} {memory weighed memory' : AttentionMemory F H}
    (weights : ∀ thread < blockDim,
      input.Weighed vector (input.seen vector late thread) thread memory weighed)
    (tree : Runs blockDim (treePhases (· + ·) 8) weighed memory') :
    input.SumReady vector late memory' ∧ memory'.rest.output = memory.rest.output := by
  obtain ⟨sum, rest⟩ := treePhases_outcome (by decide) tree
    (fun thread => input.localSum vector (input.seen vector late thread) thread)
    fun thread within => (weights thread within).cell
  refine ⟨⟨sum, fun keyToken below => ?_⟩, ?_⟩
  · rw [rest]
    exact (weights _ (mod_lt_blockDim keyToken)).probabilities keyToken below rfl
  · rw [rest]
    exact (weights 0 (by decide)).output

/-! ### Late threads -/

omit [DeviceFloat F] [Stored F H] in
/-- What a thread has at the barrier, and what the others leave alone, as thread zero runs. -/
theorem weighing_idle {partialSum : F} {thread : Nat} (memory : AttentionMemory F H) :
    Keeps ((weighing partialSum).rely thread) ((weighing partialSum).guarantee thread)
      (fun s => ownKeys thread s = ownKeys thread memory ∧ s.rest.output = memory.rest.output)
      .done memory :=
  fun _ moved => ⟨moved.1, moved.2.1⟩

/-- Thread zero alone leaves its partial sum in the first cell, and the keys of the others as they
were. -/
theorem leader_finished {memory : AttentionMemory F H} (ready : input.MaximumReady vector memory) :
    let finished := (input.weighKeys vector 0).finish memory
    input.Weighed vector (input.rowMaximum vector) 0 memory finished ∧
      ∀ thread < blockDim, thread ≠ 0 → ownKeys thread finished = ownKeys thread memory := by
  intro finished
  have ran : Interleaves blockDim (Function.update (fun _ => .done) 0 (input.weighKeys vector 0))
      memory finished := interleaves_finish (by decide) _ memory
  -- a block in which the other threads are idle is one of the interleavings
  have posts := interleaves_post
    (weighing (input.localSum vector (input.rowMaximum vector) 0))
    (fun thread s => (thread = 0 → input.Weighed vector (input.rowMaximum vector) 0 memory s) ∧
      (thread ≠ 0 → ownKeys thread s = ownKeys thread memory)) ?_ ran
  · exact ⟨(posts 0 (by decide)).1 rfl, fun thread within => (posts thread within).2⟩
  intro thread within
  by_cases zero : thread = 0
  · subst zero
    rw [Function.update_self]
    refine (weighKeys_keeps within ready).weaken ?_
    rintro s ⟨late, honest, weighed⟩
    rw [honest rfl] at weighed
    exact ⟨fun _ => weighed, fun other => absurd rfl other⟩
  · rw [Function.update_of_ne zero]
    exact (weighing_idle memory).weaken fun s kept =>
      ⟨fun first => absurd first zero, fun _ => kept.1⟩

/-- Any threads but thread zero can be late. -/
theorem late_reached {late : Nat → Bool} (honest : late 0 = false)
    {memory : AttentionMemory F H} (ready : input.MaximumReady vector memory) :
    ∃ memory', Interleaves blockDim (input.weighKeys vector) memory memory' ∧
      ∀ thread < blockDim,
        input.Weighed vector (input.seen vector late thread) thread memory memory' := by
  -- the schedule: the threads that are not late read, then thread zero runs to the barrier
  let early := (List.range blockDim).filter fun thread => thread ≠ 0 ∧ late thread = false
  have listed : ∀ thread, thread ∈ early ↔
      thread < blockDim ∧ thread ≠ 0 ∧ late thread = false := fun thread => by
    simp [early]
  obtain ⟨led, others⟩ := leader_finished ready
  let left := Function.update
    (fun thread => if thread ∈ early then input.weighWith vector thread (memory.cells 0)
      else input.weighKeys vector thread) 0 .done
  obtain ⟨memory', ran⟩ := interleaves_exists blockDim left
    ((input.weighKeys vector 0).finish memory)
  refine ⟨memory', interleaves_after_leader (by decide) (List.nodup_range.filter _)
    (fun zero => ((listed 0).mp zero).2.1 rfl)
    (fun thread chosen => ⟨((listed thread).mp chosen).1, rfl⟩) ran, ?_⟩
  -- from there on, what each thread has read or is going to read is settled
  refine interleaves_post (weighing (input.localSum vector (input.rowMaximum vector) 0)) _ ?_ ran
  intro thread within
  by_cases zero : thread = 0
  -- thread zero is done, and nobody else writes its cell or its keys
  · subst zero
    rw [show left 0 = .done from Function.update_self ..]
    intro s moved
    obtain ⟨cell, still⟩ := ownKeys_eq moved.1
    rw [seen, honest]
    exact ⟨cell.trans led.cell, fun keyToken below own =>
      (still keyToken own).trans (led.probabilities keyToken below own),
      moved.2.1.trans led.output⟩
  · obtain ⟨_, still⟩ := ownKeys_eq (others thread within zero)
    have logits : ∀ keyToken < (input.validKeys vector).toNat, keyToken % blockDim = thread →
        ((input.weighKeys vector 0).finish memory).rest.scratch keyToken =
          input.logit vector keyToken := fun keyToken below own =>
      (still keyToken own).trans (ready.logits keyToken below)
    rw [show left thread = if thread ∈ early then input.weighWith vector thread (memory.cells 0)
      else input.weighKeys vector thread from Function.update_of_ne zero ..]
    cases tardy : late thread with
    | false =>
      have reader : thread ∈ early := (listed thread).mpr ⟨within, zero, tardy⟩
      rw [if_pos reader, ready.maximum, seen, tardy]
      exact weighWith_keeps within (fun first => absurd first zero) led.output logits
    | true =>
      have waiter : thread ∉ early := fun chosen => by
        have quick := ((listed thread).mp chosen).2.2
        rw [tardy] at quick
        cases quick
      rw [if_neg waiter, seen, tardy]
      refine .read (fun _ => ⟨fun _ _ => rfl, rfl, .inl rfl⟩) fun s maximum moved found => ?_
      obtain ⟨_, still'⟩ := ownKeys_eq moved.1
      have overwritten : maximum = input.localSum vector (input.rowMaximum vector) 0 :=
        found.symm.trans (moved.2.2.elim (fun same => same.trans led.cell) id)
      subst overwritten
      exact weighWith_keeps within (fun first => absurd first zero)
        (moved.2.1.trans led.output)
        fun keyToken below own => (still' keyToken own).trans (logits keyToken below own)

/-! ### The whole block -/

theorem zeroRow_outcome {memory memory' : AttentionMemory F H}
    (ran : Interleaves blockDim (input.zeroRow vector) memory memory') :
    RowWritten (input.outputOffset vector) input.headDim
      (fun _ => Stored.store (DeviceFloat.zero : F)) memory.rest.output memory'.rest.output :=
  writeRow_outcome (fun thread _ _ _ _ s _ _ _ later =>
    later s ((storing _ _).refl thread s)) ran

theorem attentionRow_long (long : input.maximumContext < input.validKeys vector)
    (late : Nat → Bool) :
    input.attentionRow F vector late = fun _ => Stored.store (DeviceFloat.zero : F) :=
  funext fun _ => if_pos long

theorem attentionRow_room (room : ¬ input.maximumContext < input.validKeys vector)
    (late : Nat → Bool) :
    input.attentionRow F vector late =
      fun dimension => Stored.store (input.mixed vector late dimension : F) :=
  funext fun _ => if_neg room

/-- Every run of a block is that of some late threads. -/
theorem attentionPhases_late {memory memory' : AttentionMemory F H}
    (ran : Runs blockDim (input.attentionPhases vector) memory memory') :
    ∃ late : Nat → Bool, late 0 = false ∧
      RowWritten (input.outputOffset vector) input.headDim (input.attentionRow F vector late)
        memory.rest.output memory'.rest.output := by
  rw [attentionPhases] at ran
  split at ran
  -- a token beyond the context: every thread writes zeros and returns
  next long =>
    cases ran with
    | cons only ended =>
      cases ended
      refine ⟨fun _ => false, rfl, ?_⟩
      rw [attentionRow_long long]
      exact zeroRow_outcome only
  next room =>
    cases ran with
    | cons scoring later =>
      obtain ⟨maxima, maximumTree, later⟩ := later.append
      obtain ⟨ready, output⟩ := maximum_ready scoring maximumTree
      cases later with
      | cons weighing later =>
        obtain ⟨sums, sumTree, later⟩ := later.append
        -- the only phase whose outcome depends on the order of the threads
        obtain ⟨late, honest, weighed⟩ := weighKeys_outcome ready weighing
        obtain ⟨sum, output'⟩ := sum_ready weighed sumTree
        cases later with
        | cons mixing ended =>
          cases ended
          refine ⟨late, honest, ?_⟩
          have written := mixValues_outcome sum mixing
          rwa [output', output, ← attentionRow_room room] at written

/-- Every choice of late threads is that of some run. -/
theorem attentionPhases_reaches {late : Nat → Bool} (honest : late 0 = false)
    (memory : AttentionMemory F H) :
    ∃ memory', Runs blockDim (input.attentionPhases vector) memory memory' ∧
      RowWritten (input.outputOffset vector) input.headDim (input.attentionRow F vector late)
        memory.rest.output memory'.rest.output := by
  rw [attentionPhases]
  split
  next long =>
    obtain ⟨memory', only⟩ := interleaves_exists blockDim (input.zeroRow vector) memory
    refine ⟨memory', .cons only (.nil _), ?_⟩
    rw [attentionRow_long long]
    exact zeroRow_outcome only
  next room =>
    obtain ⟨scored, scoring⟩ := interleaves_exists blockDim (input.scoreKeys vector) memory
    obtain ⟨maxima, maximumTree⟩ := runs_exists blockDim (treePhases DeviceFloat.fmaxf 8) scored
    obtain ⟨ready, output⟩ := maximum_ready scoring maximumTree
    -- the run chooses who is late in the second loop, and nothing elsewhere
    obtain ⟨weighed, weighing, weights⟩ := late_reached honest ready
    obtain ⟨sums, sumTree⟩ := runs_exists blockDim (treePhases (· + ·) 8) weighed
    obtain ⟨sum, output'⟩ := sum_ready weights sumTree
    obtain ⟨memory', mixing⟩ := interleaves_exists blockDim (input.mixValues vector) sums
    refine ⟨memory', .cons scoring (maximumTree.join (.cons weighing (sumTree.join
      (.cons mixing (.nil _))))), ?_⟩
    have written := mixValues_outcome sum mixing
    rwa [output', output, ← attentionRow_room room] at written

end AttentionInput

/-- The outputs that a block of the kernel can leave are those of any threads, but thread zero,
being late. -/
theorem attentionPhases_outcomes {F H : Type} [DeviceFloat F] [Stored F H]
    (input : AttentionInput H)
    (vector : UInt64) (memory : AttentionMemory F H) (output : UInt64 → H) :
    (∃ memory', Runs blockDim (input.attentionPhases vector) memory memory' ∧
      memory'.rest.output = output) ↔
    ∃ late : Nat → Bool, late 0 = false ∧
      RowWritten (input.outputOffset vector) input.headDim (input.attentionRow F vector late)
        memory.rest.output output := by
  constructor
  · rintro ⟨memory', ran, rfl⟩
    exact AttentionInput.attentionPhases_late ran
  · rintro ⟨late, honest, written⟩
    have reachable : ∃ memory', Runs blockDim (input.attentionPhases vector) memory memory' ∧
        RowWritten (input.outputOffset vector) input.headDim (input.attentionRow F vector late)
          memory.rest.output memory'.rest.output :=
      AttentionInput.attentionPhases_reaches honest memory
    obtain ⟨memory', ran, reached⟩ := reachable
    exact ⟨memory', ran, reached.unique written⟩

end MarketForge.Cuda
