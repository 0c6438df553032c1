import MarketForge.Library.BlockTree
import Mathlib.Data.List.Nodup

/-!
# Rows that a block writes

The kernels of the decoder compute in FP32 and store what they compute, in FP16 mostly. The FP32
operations stay parameters. A block ends by writing a row of its output: thread `t` writes the
elements `t`, `t + 256` and so on, and may compute each of them from the shared memory and from
the element that it is about to overwrite.
-/
namespace MarketForge.Cuda

open BarrierBlock

/-- FP32 as the kernels compute with it. -/
class DeviceFloat (F : Type) extends Add F, Sub F, Mul F, Div F, Neg F where
  zero : F
  one : F
  negInfinity : F
  fmaf : F → F → F → F
  fmaxf : F → F → F
  expf : F → F
  rsqrtf : F → F
  powf : F → F → F
  sinf : F → F
  cosf : F → F
  ofUInt64 : UInt64 → F
  isFinite : F → Bool
  isPositive : F → Bool

/-- Small integers, on which FP32 does not round: exponentials and angles at zero, roots at one. -/
instance smallIntegers : DeviceFloat Int where
  zero := 0
  one := 1
  negInfinity := -18446744073709551616
  fmaf a b c := a * b + c
  fmaxf a b := if a ≤ b then b else a
  expf x := if x = 0 then 1 else 0
  rsqrtf x := if x = 1 then 1 else 0
  powf _ exponent := if exponent = 0 then 1 else 0
  sinf _ := 0
  cosf _ := 1
  ofUInt64 n := Int.ofNat n.toNat
  isFinite _ := true
  isPositive x := decide (0 < x)

/-- How a buffer stores FP32 numbers, and the addition of stored numbers. -/
class Stored (F H : Type) where
  load : H → F
  store : F → H
  hadd : H → H → H

/-- `float` buffers. -/
instance (F : Type) [Add F] : Stored F F := ⟨id, id, (· + ·)⟩

def blockDim : Nat := 256

/-- The memory of a block beside the reduction cells. -/
structure RowMemory (L H : Type) where
  scratch : L
  output : UInt64 → H

variable {F L H : Type}

/-- The shared memory of a block, and the buffer it writes. -/
abbrev BlockMemory (F L H : Type) := Lanes F (RowMemory L H)

namespace BlockMemory

def setScratch (update : L → L) : BlockMemory F L H → BlockMemory F L H :=
  Lanes.setRest fun rest => { rest with scratch := update rest.scratch }

def setOutput (index : UInt64) (value : H) : BlockMemory F L H → BlockMemory F L H :=
  Lanes.setRest fun rest => { rest with output := Function.update rest.output index value }

@[simp] theorem setScratch_cells (update : L → L) (s : BlockMemory F L H) :
    (setScratch update s).cells = s.cells := rfl

@[simp] theorem setScratch_scratch (update : L → L) (s : BlockMemory F L H) :
    (setScratch update s).rest.scratch = update s.rest.scratch := rfl

@[simp] theorem setScratch_output (update : L → L) (s : BlockMemory F L H) :
    (setScratch update s).rest.output = s.rest.output := rfl

@[simp] theorem setOutput_cells (index : UInt64) (value : H) (s : BlockMemory F L H) :
    (setOutput index value s).cells = s.cells := rfl

@[simp] theorem setOutput_scratch (index : UInt64) (value : H) (s : BlockMemory F L H) :
    (setOutput index value s).rest.scratch = s.rest.scratch := rfl

@[simp] theorem setOutput_output (index : UInt64) (value : H) (s : BlockMemory F L H) :
    (setOutput index value s).rest.output = Function.update s.rest.output index value := rfl

end BlockMemory

/-! ### The strided indices of a thread -/

/-- `for (i = threadIdx.x; i < count; i += blockDim.x)` -/
def threadIndices (thread count : Nat) : List Nat := BlockReduction.strided thread count blockDim

theorem mem_threadIndices {thread count i : Nat} (within : thread < blockDim) :
    i ∈ threadIndices thread count ↔ i < count ∧ i % blockDim = thread :=
  BlockReduction.mem_strided within

theorem threadIndices_nodup (thread count : Nat) : (threadIndices thread count).Nodup :=
  BlockReduction.strided_nodup (by decide) count

theorem mod_lt_blockDim (i : Nat) : i % blockDim < blockDim := Nat.mod_lt i (by decide)

/-! ### Rows -/

/-- A thread writes its elements of a row. `element` computes one and goes on with it. -/
def writeRow (offset length : UInt64)
    (element : Nat → (H → Program (BlockMemory F L H)) → Program (BlockMemory F L H))
    (thread : Nat) : Program (BlockMemory F L H) :=
  .forEach (fun i (_ : Unit) next => element i fun value =>
      .write (BlockMemory.setOutput (offset + UInt64.ofNat i) value) (next ()))
    (threadIndices thread length.toNat) () fun _ => .done

/-- The elements of a row stand in different places, also where the offset wraps. -/
theorem row_index_injective {offset length : UInt64} {i j : Nat} (iBelow : i < length.toNat)
    (jBelow : j < length.toNat) (same : offset + UInt64.ofNat i = offset + UInt64.ofNat j) :
    i = j := by
  have narrow : length.toNat < UInt64.size := length.toNat_lt
  have equal : UInt64.ofNat i = UInt64.ofNat j := (UInt64.add_right_inj _).mp same
  have values := congrArg UInt64.toNat equal
  rwa [UInt64.toNat_ofNat_of_lt' (by omega), UInt64.toNat_ofNat_of_lt' (by omega)] at values

/-- A place outside a row. -/
def OutsideRow (offset length : UInt64) (index : UInt64) : Prop :=
  ∀ i < length.toNat, index ≠ offset + UInt64.ofNat i

/-- What a row of the output is after a block has written it, with the rest of the output as it
was. -/
structure RowWritten (offset length : UInt64) (value : Nat → H) (before after : UInt64 → H) :
    Prop where
  row : ∀ i < length.toNat, after (offset + UInt64.ofNat i) = value i
  outside : ∀ index, OutsideRow offset length index → after index = before index

theorem RowWritten.unique {offset length : UInt64} {value : Nat → H}
    {before after after' : UInt64 → H} (written : RowWritten offset length value before after)
    (written' : RowWritten offset length value before after') : after = after' := by
  funext index
  by_cases outside : OutsideRow offset length index
  · rw [written.outside index outside, written'.outside index outside]
  · simp only [OutsideRow, not_forall, not_not, exists_prop] at outside
    obtain ⟨i, below, rfl⟩ := outside
    rw [written.row i below, written'.row i below]

theorem rowWritten_exists (offset length : UInt64) (value : Nat → H) (before : UInt64 → H) :
    ∃ after, RowWritten offset length value before after := by
  refine ⟨fun index => if (index - offset).toNat < length.toNat then value (index - offset).toNat
    else before index, fun i below => ?_, fun index outside => ?_⟩
  · have place : (offset + UInt64.ofNat i - offset).toNat = i := by
      rw [UInt64.add_comm, UInt64.add_sub_cancel]
      exact UInt64.toNat_ofNat_of_lt' (below.trans length.toNat_lt)
    simp only [place, if_pos below]
  · refine if_neg fun below => outside _ below ?_
    rw [UInt64.ofNat_toNat, UInt64.add_comm, UInt64.sub_add_cancel]

/-- While a block writes a row, each thread changes its own elements of it and nothing else. -/
def storing (offset length : UInt64) : Interference (BlockMemory F L H) :=
  owned (V := fun thread => {i : Nat // i < length.toNat ∧ i % blockDim = thread} → H)
    (fun _ s i => s.rest.output (offset + UInt64.ofNat i))
    (fun s => (s.cells, s.rest.scratch,
      fun index : {index // OutsideRow offset length index} => s.rest.output index))

section Storing

variable {offset length : UInt64} {thread : Nat} {s s' : BlockMemory F L H}

/-- What a thread finds while it writes its elements: everything as it was at the barrier, except
elements of the others and elements it has written. -/
structure Undisturbed (offset length : UInt64) (pending : List Nat) (s s' : BlockMemory F L H) :
    Prop where
  cells : s'.cells = s.cells
  scratch : s'.rest.scratch = s.rest.scratch
  outside : ∀ index, OutsideRow offset length index → s'.rest.output index = s.rest.output index
  own : ∀ i ∈ pending,
    s'.rest.output (offset + UInt64.ofNat i) = s.rest.output (offset + UInt64.ofNat i)

theorem Undisturbed.refl {pending : List Nat} : Undisturbed offset length pending s s :=
  ⟨rfl, rfl, fun _ _ => rfl, fun _ _ => rfl⟩

theorem Undisturbed.trans {pending : List Nat} {s'' : BlockMemory F L H}
    (first : Undisturbed offset length pending s s')
    (second : Undisturbed offset length pending s' s'') :
    Undisturbed offset length pending s s'' where
  cells := second.cells.trans first.cells
  scratch := second.scratch.trans first.scratch
  outside index place := (second.outside index place).trans (first.outside index place)
  own i listed := (second.own i listed).trans (first.own i listed)

theorem Undisturbed.of_rely {pending : List Nat}
    (moved : (storing offset length).rely thread s s')
    (mine : ∀ i ∈ pending, i < length.toNat ∧ i % blockDim = thread) :
    Undisturbed offset length pending s s' := by
  obtain ⟨own, common⟩ := moved
  simp only [Prod.mk.injEq] at common
  obtain ⟨cells, scratch, outside⟩ := common
  exact ⟨cells, scratch, fun index place => congrFun outside ⟨index, place⟩,
    fun i listed => congrFun own ⟨i, mine i listed⟩⟩

theorem storing_guarantee {i : Nat} (below : i < length.toNat) (mine : i % blockDim = thread)
    (value : H) (s : BlockMemory F L H) :
    (storing offset length).guarantee thread s
      (BlockMemory.setOutput (offset + UInt64.ofNat i) value s) := by
  refine ⟨fun other different => funext fun j => ?_, ?_⟩
  · -- another thread's element stands in another place
    refine Function.update_of_ne (fun same => different ?_) _ _
    rw [← j.2.2, row_index_injective j.2.1 below same, mine]
  · refine Prod.ext rfl (Prod.ext rfl (funext fun index => ?_))
    exact Function.update_of_ne (index.2 i below) _ _

/-- `element i` goes on with `value i`, if the thread has not yet written that element. -/
def Yields (offset length : UInt64) (memory : BlockMemory F L H)
    (element : Nat → (H → Program (BlockMemory F L H)) → Program (BlockMemory F L H))
    (value : Nat → H) (thread : Nat) : Prop :=
  ∀ i < length.toNat, i % blockDim = thread →
    ∀ (s : BlockMemory F L H) (onward : H → Program (BlockMemory F L H)) (post : _ → Prop),
      Undisturbed offset length [i] memory s →
      (∀ s', (storing offset length).rely thread s s' →
        Keeps ((storing offset length).rely thread) ((storing offset length).guarantee thread)
          post (onward (value i)) s') →
      Keeps ((storing offset length).rely thread) ((storing offset length).guarantee thread)
        post (element i onward) s

/-- What holds of a thread when it has written its elements. -/
structure RowDone (offset length : UInt64) (thread : Nat) (value : Nat → H)
    (s s' : BlockMemory F L H) : Prop where
  frame : Undisturbed offset length [] s s'
  row : ∀ i < length.toNat, i % blockDim = thread →
    s'.rest.output (offset + UInt64.ofNat i) = value i

/-- A thread writes its elements if each is computed from what the barrier left. -/
theorem writeRow_keeps {value : Nat → H} {memory s : BlockMemory F L H}
    {element : Nat → (H → Program (BlockMemory F L H)) → Program (BlockMemory F L H)}
    (within : thread < blockDim)
    (frame : Undisturbed offset length (threadIndices thread length.toNat) memory s)
    (yields : Yields offset length memory element value thread) :
    Keeps ((storing offset length).rely thread) ((storing offset length).guarantee thread)
      (RowDone offset length thread value memory) (writeRow offset length element thread) s := by
  refine Keeps.forEach (fun rest _ s => Undisturbed offset length rest memory s ∧ rest.Nodup ∧
    (∀ i ∈ rest, i < length.toNat ∧ i % blockDim = thread) ∧
    ∀ i < length.toNat, i % blockDim = thread → i ∉ rest →
      s.rest.output (offset + UInt64.ofNat i) = value i) ?_ ?_
    ⟨frame, threadIndices_nodup thread _, fun i => (mem_threadIndices within).mp,
      fun i below mine unlisted =>
        absurd ((mem_threadIndices within).mpr ⟨below, mine⟩) unlisted⟩
  · rintro i rest _ s onward ⟨frame, distinct, mine, row⟩ later
    obtain ⟨fresh, distinct⟩ := List.nodup_cons.mp distinct
    obtain ⟨below, own⟩ := mine i (.head _)
    have others : ∀ j ∈ rest, offset + UInt64.ofNat j ≠ offset + UInt64.ofNat i := by
      intro j listed same
      obtain ⟨jBelow, _⟩ := mine j (.tail _ listed)
      exact fresh (row_index_injective jBelow below same ▸ listed)
    refine yields i below own s _ _
      ⟨frame.cells, frame.scratch, frame.outside, fun j listed => ?_⟩ fun s₁ moved₁ => ?_
    · exact List.mem_singleton.mp listed ▸ frame.own i (.head _)
    refine .write (storing_guarantee below own (value i)) fun s₂ moved₂ => ?_
    -- nobody else wrote the elements of this thread since the turn began
    have still : Undisturbed offset length (i :: rest) s s₂ :=
      (Undisturbed.of_rely moved₁ mine).trans (Undisturbed.of_rely moved₂ mine)
    have frame₂ := frame.trans still
    refine later () _ ⟨⟨frame₂.cells, frame₂.scratch, fun index place => ?_, fun j listed => ?_⟩,
      distinct, fun j listed => mine j (.tail _ listed), fun j jBelow jOwn unlisted => ?_⟩
    · exact (Function.update_of_ne (place i below) _ _).trans (frame₂.outside index place)
    · exact (Function.update_of_ne (others j listed) _ _).trans (frame₂.own j (.tail _ listed))
    · by_cases same : j = i
      · subst same
        exact Function.update_self ..
      · have kept := row j jBelow jOwn (by simp [same, unlisted])
        have place : offset + UInt64.ofNat j ≠ offset + UInt64.ofNat i := fun equal =>
          same (row_index_injective jBelow below equal)
        have both : Undisturbed offset length [j] s s₂ :=
          .of_rely ((storing offset length).trans _ _ _ _ moved₁ moved₂)
            (by simpa using ⟨jBelow, jOwn⟩)
        exact (Function.update_of_ne place _ _).trans ((both.own j (.head _)).trans kept)
  · rintro _ s ⟨frame, _, _, row⟩ s' moved
    refine ⟨frame.trans (.of_rely moved (by simp)), fun i below own => ?_⟩
    have still : Undisturbed offset length [i] s s' :=
      .of_rely moved (by simpa using ⟨below, own⟩)
    exact (still.own i (.head _)).trans (row i below own (List.not_mem_nil))

theorem RowWritten.of_done {value : Nat → H} {memory memory' : BlockMemory F L H}
    (done : ∀ thread < blockDim, RowDone offset length thread value memory memory') :
    RowWritten offset length value memory.rest.output memory'.rest.output where
  row i below := (done _ (mod_lt_blockDim i)).row i below rfl
  outside := (done 0 (by decide)).frame.outside

/-- At the barrier the row is written, whatever the interleaving. -/
theorem writeRow_outcome {value : Nat → H} {memory memory' : BlockMemory F L H}
    {element : Nat → (H → Program (BlockMemory F L H)) → Program (BlockMemory F L H)}
    (yields : ∀ thread < blockDim, Yields offset length memory element value thread)
    (ran : Interleaves blockDim (writeRow offset length element) memory memory') :
    RowWritten offset length value memory.rest.output memory'.rest.output :=
  .of_done <| interleaves_post (storing offset length)
    (fun thread => RowDone offset length thread value memory)
    (fun thread within => writeRow_keeps within .refl (yields thread within)) ran

end Storing

end MarketForge.Cuda
