import Mathlib.Data.List.Range
import Mathlib.Algebra.BigOperators.Group.Finset.Basic
import Mathlib.Order.Lattice
import Mathlib.Algebra.Group.Nat.Defs

/-!
# Reduction by a block of lanes

The lanes of a block scan the indices in strides, lane `t` the indices `t`, `t + width` and so on,
and a tree of merges over the lanes combines what they found. When turns and merges only ever move
a key up to what they have seen, the key of the result bounds exactly what lies below a bound on
all indices. Where turns and merges add, the result is the sum over the indices.
-/
namespace BlockReduction

/-- The indices `start`, `start + step`, … below `count`. -/
def strided (start count step : Nat) : List Nat :=
  List.range' start ((count - start + (step - 1)) / step) step

theorem strided_lt {start count step i : Nat} (positive : 0 < step)
    (listed : i ∈ strided start count step) : i < count := by
  rw [strided, List.mem_range'] at listed
  obtain ⟨turn, early, rfl⟩ := listed
  have turns := Nat.mul_div_le (count - start + (step - 1)) step
  have later := Nat.mul_le_mul_left step (Nat.succ_le_of_lt early)
  rw [Nat.mul_succ] at later
  omega

theorem mem_strided {start count step i : Nat} (within : start < step) :
    i ∈ strided start count step ↔ i < count ∧ i % step = start := by
  constructor
  · intro listed
    refine ⟨strided_lt (by omega) listed, ?_⟩
    rw [strided, List.mem_range'] at listed
    obtain ⟨turn, _, rfl⟩ := listed
    rw [Nat.add_mul_mod_self_left, Nat.mod_eq_of_lt within]
  · rintro ⟨below, phase⟩
    have whole := Nat.div_add_mod i step
    rw [phase] at whole
    rw [strided, List.mem_range']
    refine ⟨i / step, ?_, by omega⟩
    rw [Nat.lt_iff_add_one_le, Nat.le_div_iff_mul_le (by omega), Nat.add_mul, Nat.mul_comm]
    omega

theorem strided_nodup {start step : Nat} (positive : 0 < step) (count : Nat) :
    (strided start count step).Nodup := List.nodup_range' _ positive

section

variable {α : Type} (merge : α → α → α)

/-- One level of the tree: every lane below the stride merges with the lane a stride above. -/
def halve (lanes : Nat → α) (stride : Nat) (lane : Nat) : α :=
  if lane < stride then merge (lanes lane) (lanes (lane + stride)) else lanes lane

/-- What lane zero holds after the strides `2 ^ (levels - 1)`, …, `2`, `1`. -/
def reduce : Nat → (Nat → α) → α
  | 0, lanes => lanes 0
  | levels + 1, lanes => reduce levels (halve merge lanes (2 ^ levels))

variable {merge}

theorem reduce_le_iff {β : Type} [LinearOrder β] {key : α → β}
    (merged : ∀ a b, key (merge a b) = max (key a) (key b)) (bound : β) (levels : Nat)
    (lanes : Nat → α) :
    key (reduce merge levels lanes) ≤ bound ↔ ∀ lane < 2 ^ levels, key (lanes lane) ≤ bound := by
  induction levels generalizing lanes with
  | zero => simp [reduce]
  | succ levels ih =>
    rw [reduce, ih]
    constructor
    · intro below lane within
      rw [Nat.pow_succ] at within
      rcases Nat.lt_or_ge lane (2 ^ levels) with low | high
      · have joined := below lane low
        rw [halve, if_pos low, merged] at joined
        exact le_trans (le_max_left _ _) joined
      · have joined := below (lane - 2 ^ levels) (by omega)
        rw [halve, if_pos (by omega), merged, Nat.sub_add_cancel high] at joined
        exact le_trans (le_max_right _ _) joined
    · intro below lane within
      rw [halve, if_pos within, merged]
      exact max_le (below lane (by omega)) (below (lane + 2 ^ levels) (by omega))

/-- What every lane has and merges keep, the result has. -/
theorem reduce_induction {motive : α → Prop}
    (merged : ∀ a b, motive a → motive b → motive (merge a b)) (levels : Nat) (lanes : Nat → α)
    (each : ∀ lane, motive (lanes lane)) : motive (reduce merge levels lanes) := by
  induction levels generalizing lanes with
  | zero => exact each 0
  | succ levels ih =>
    apply ih
    intro lane
    unfold halve
    split
    · exact merged _ _ (each _) (each _)
    · exact each _

/-- What a merge computes of a part of two lanes, the tree computes of that part of the result. -/
theorem reduce_map {β : Type} {f : α → β} {mergePart : β → β → β}
    (merged : ∀ a b, f (merge a b) = mergePart (f a) (f b)) (levels : Nat) (lanes : Nat → α) :
    f (reduce merge levels lanes) = reduce mergePart levels fun lane => f (lanes lane) := by
  induction levels generalizing lanes with
  | zero => rfl
  | succ levels ih =>
    rw [reduce, reduce, ih]
    congr 1
    funext lane
    unfold halve
    split
    · exact merged _ _
    · rfl

/-- A block of `2 ^ levels` lanes over the indices below `count`. -/
def scanReduce (merge : α → α → α) (turn : α → Nat → α) (initial : α) (count levels : Nat) : α :=
  reduce merge levels fun lane => (strided lane count (2 ^ levels)).foldl turn initial

variable {turn : α → Nat → α} {initial : α}

private theorem scan_le_iff {β : Type} [LinearOrder β] {key : α → β} {within : Nat → β → Prop}
    (bound : β) (indices : List Nat) (start : α)
    (turned : ∀ a, ∀ i ∈ indices, key (turn a i) ≤ bound ↔ key a ≤ bound ∧ within i bound) :
    key (indices.foldl turn start) ≤ bound ↔
      key start ≤ bound ∧ ∀ i ∈ indices, within i bound := by
  induction indices generalizing start with
  | nil => simp
  | cons i rest ih =>
    rw [List.foldl_cons, ih _ fun a j later => turned a j (.tail _ later),
      turned start i List.mem_cons_self, List.forall_mem_cons, and_assoc]

theorem scanReduce_map {β : Type} (f : α → β) {mergePart : β → β → β} {turnPart : β → Nat → β}
    {count : Nat} (turned : ∀ a, ∀ i < count, f (turn a i) = turnPart (f a) i)
    (merged : ∀ a b, f (merge a b) = mergePart (f a) (f b)) (levels : Nat) :
    f (scanReduce merge turn initial count levels) =
      scanReduce mergePart turnPart (f initial) count levels := by
  rw [scanReduce, scanReduce, reduce_map merged]
  congr 1
  funext lane
  have early : ∀ i ∈ strided lane count (2 ^ levels), i < count :=
    fun i => strided_lt (Nat.two_pow_pos levels)
  generalize strided lane count (2 ^ levels) = indices at early
  induction indices generalizing initial with
  | nil => rfl
  | cons i rest ih =>
    rw [List.foldl_cons, List.foldl_cons, ih fun j later => early j (.tail _ later),
      turned initial i (early i List.mem_cons_self)]

theorem scanReduce_le_iff {β : Type} [LinearOrder β] (key : α → β) (within : Nat → β → Prop)
    (count levels : Nat) (bound : β)
    (turned : ∀ a, ∀ i < count, key (turn a i) ≤ bound ↔ key a ≤ bound ∧ within i bound)
    (merged : ∀ a b, key (merge a b) = max (key a) (key b)) :
    key (scanReduce merge turn initial count levels) ≤ bound ↔
      key initial ≤ bound ∧ ∀ i < count, within i bound := by
  have lanes := Nat.two_pow_pos levels
  have scanned := fun lane => scan_le_iff bound (strided lane count (2 ^ levels)) initial
    fun a i listed => turned a i (strided_lt lanes listed)
  rw [scanReduce, reduce_le_iff merged]
  constructor
  · intro below
    refine ⟨((scanned 0).mp (below 0 lanes)).1, fun i early => ?_⟩
    have own := (scanned (i % 2 ^ levels)).mp (below _ (Nat.mod_lt _ lanes))
    exact own.2 i ((mem_strided (Nat.mod_lt _ lanes)).mpr ⟨early, rfl⟩)
  · rintro ⟨start, below⟩ lane narrow
    exact (scanned lane).mpr ⟨start, fun i listed => below i ((mem_strided narrow).mp listed).1⟩

theorem scanReduce_induction {motive : α → Prop} {count : Nat} (start : motive initial)
    (turned : ∀ a, ∀ i < count, motive a → motive (turn a i))
    (merged : ∀ a b, motive a → motive b → motive (merge a b)) (levels : Nat) :
    motive (scanReduce merge turn initial count levels) := by
  apply reduce_induction merged
  intro lane
  have early : ∀ i ∈ strided lane count (2 ^ levels), i < count :=
    fun i => strided_lt (Nat.two_pow_pos levels)
  generalize strided lane count (2 ^ levels) = indices at early
  induction indices generalizing initial with
  | nil => exact start
  | cons i rest ih =>
    rw [List.foldl_cons]
    exact ih (turned initial i (early i List.mem_cons_self) start)
      fun j later => early j (.tail _ later)

end

section Sums

open Finset

variable {M : Type} [AddCommMonoid M]

theorem reduce_add (levels : Nat) (lanes : Nat → M) :
    reduce (· + ·) levels lanes = ∑ lane ∈ range (2 ^ levels), lanes lane := by
  induction levels generalizing lanes with
  | zero => simp [reduce]
  | succ levels ih =>
    have halved : ∀ lane ∈ range (2 ^ levels),
        halve (· + ·) lanes (2 ^ levels) lane = lanes lane + lanes (2 ^ levels + lane) := by
      intro lane within
      rw [halve, if_pos (mem_range.mp within), Nat.add_comm lane]
    rw [reduce, ih, sum_congr rfl halved, sum_add_distrib, Nat.pow_succ, Nat.mul_two,
      sum_range_add]

theorem foldl_add_eq (f : Nat → M) (indices : List Nat) (start : M) :
    indices.foldl (fun sum i => sum + f i) start = start + (indices.map f).sum := by
  induction indices generalizing start with
  | nil => simp
  | cons i rest ih => rw [List.foldl_cons, ih, List.map_cons, List.sum_cons, add_assoc]

/-- The indices of a lane are those of its remainder. -/
theorem strided_sum (f : Nat → M) {lane step : Nat} (within : lane < step) (count : Nat) :
    (strided lane count step).foldl (fun sum i => sum + f i) 0 =
      ∑ i ∈ range count with i % step = lane, f i := by
  have listed : (strided lane count step).toFinset = {i ∈ range count | i % step = lane} := by
    ext i
    rw [List.mem_toFinset, mem_strided within, mem_filter, mem_range]
  rw [foldl_add_eq, zero_add, ← listed,
    List.sum_toFinset f (strided_nodup (Nat.zero_lt_of_lt within) count)]

/-- Lanes that add up what they visit, and a tree that adds up the lanes. Each lane may visit its
indices in its own way. -/
theorem reduce_strided_add (f : Nat → Nat → M) (count levels : Nat) :
    reduce (· + ·) levels (fun lane =>
      (strided lane count (2 ^ levels)).foldl (fun sum i => sum + f lane i) 0) =
    ∑ i ∈ range count, f (i % 2 ^ levels) i := by
  have visited : ∀ lane ∈ range (2 ^ levels),
      (strided lane count (2 ^ levels)).foldl (fun sum i => sum + f lane i) 0 =
        ∑ i ∈ range count with i % 2 ^ levels = lane, f (i % 2 ^ levels) i := by
    intro lane within
    rw [strided_sum _ (mem_range.mp within)]
    refine sum_congr rfl fun i own => ?_
    rw [(mem_filter.mp own).2]
  rw [reduce_add, sum_congr rfl visited]
  exact sum_fiberwise_of_maps_to
    (fun i _ => mem_range.mpr (Nat.mod_lt _ (Nat.two_pow_pos levels))) _

end Sums

end BlockReduction
