import MarketForge.Cuda.DeviceMemory
import MarketForge.Cuda.DeviceReals
import MarketForge.Library.Grid
import Mathlib.Tactic.NormNum.RealSqrt

/-!
# The rotation kernel

A thread of `rope_kernel` turns one pair of dimensions of one token in every head of the queries
and of the keys, in place. The pairs of different threads are apart, so an accepted launch turns
them all, whatever the order of the threads (`applyRopeF16_launches`).
-/
namespace MarketForge.Cuda

open BarrierBlock Library

variable {F H : Type}

structure RopeCall (F : Type) where
  query : UInt64
  key : UInt64
  positions : UInt64 → UInt32
  tokensAndBatch : UInt64
  queryHeads : UInt64
  keyValueHeads : UInt64
  headDim : UInt64
  theta : F

namespace RopeCall

variable (call : RopeCall F)

/-! ### The kernel -/

section Kernel

variable [DeviceFloat F] [Stored F H]

def half : UInt64 := call.headDim / 2

def pairCount : UInt64 := call.tokensAndBatch * call.half

def angle (token dimension : UInt64) : F :=
  let exponent := DeviceFloat.ofUInt64 (2 * dimension) / DeviceFloat.ofUInt64 call.headDim
  DeviceFloat.ofUInt64 (call.positions token).toUInt64 / DeviceFloat.powf call.theta exponent

/-- Where a column of a head stands in a buffer of so many heads. -/
def headIndex (heads token : UInt64) (head : Nat) (column : UInt64) : UInt64 :=
  (token * heads + UInt64.ofNat head) * call.headDim + column

def lowerTurn (F : Type) [DeviceFloat F] [Stored F H] (angle : F) (first second : H) : H :=
  Stored.store (Stored.load first * DeviceFloat.cosf angle -
    Stored.load second * DeviceFloat.sinf angle : F)

def upperTurn (F : Type) [DeviceFloat F] [Stored F H] (angle : F) (first second : H) : H :=
  Stored.store (Stored.load second * DeviceFloat.cosf angle +
    Stored.load first * DeviceFloat.sinf angle : F)

/-- One turn of a loop over the heads. -/
def turnHead (buffer heads token dimension : UInt64) (head : Nat)
    (next : Program (DeviceMemory H)) : Program (DeviceMemory H) :=
  let offset := call.headIndex heads token head dimension
  .read (cellAt · (buffer, offset)) fun first =>
    .read (cellAt · (buffer, offset + call.half)) fun second =>
      .write (storeAt buffer offset (lowerTurn F (call.angle token dimension) first second)) <|
        .write (storeAt buffer (offset + call.half)
          (upperTurn F (call.angle token dimension) first second)) next

def ropeKernel (thread : Nat) : Program (DeviceMemory H) :=
  let pairIndex := UInt64.ofNat thread
  if call.pairCount ≤ pairIndex then .done
  else
    let token := pairIndex / call.half
    let dimension := pairIndex % call.half
    .forEach (fun head (_ : Unit) next =>
        call.turnHead call.query call.queryHeads token dimension head (next ()))
      (List.range call.queryHeads.toNat) () fun _ =>
      .forEach (fun head (_ : Unit) next =>
          call.turnHead call.key call.keyValueHeads token dimension head (next ()))
        (List.range call.keyValueHeads.toNat) () fun _ => .done

end Kernel

/-! ### Whose cells -/

/-- The two cells of a head that a thread turns. -/
def PairCell (buffer heads token dimension : UInt64) (head : Nat) (cell : UInt64 × UInt64) :
    Prop :=
  cell = (buffer, call.headIndex heads token head dimension) ∨
    cell = (buffer, call.headIndex heads token head dimension + call.half)

/-- The cells that a thread turns, in all heads. -/
def Owns (cell : UInt64 × UInt64) (thread : Nat) : Prop :=
  thread < call.pairCount.toNat ∧
    let token := UInt64.ofNat thread / call.half
    let dimension := UInt64.ofNat thread % call.half
    (∃ head < call.queryHeads.toNat,
      call.PairCell call.query call.queryHeads token dimension head cell) ∨
    ∃ head < call.keyValueHeads.toNat,
      call.PairCell call.key call.keyValueHeads token dimension head cell

/-- Two buffers, and room for all elements without a wrap. -/
structure Fits : Prop where
  apart : call.query ≠ call.key
  even : call.headDim.toNat % 2 = 0
  queries : call.tokensAndBatch.toNat * call.queryHeads.toNat * call.headDim.toNat < 2 ^ 64
  keys : call.tokensAndBatch.toNat * call.keyValueHeads.toNat * call.headDim.toNat < 2 ^ 64
  someQueries : 0 < call.queryHeads.toNat

variable {call}

theorem half_toNat : call.half.toNat = call.headDim.toNat / 2 := by
  rw [half, UInt64.toNat_div]
  rfl

/-- An index computed without a wrap. -/
theorem headIndex_toNat {heads token column : UInt64} {head : Nat}
    (room : call.tokensAndBatch.toNat * heads.toNat * call.headDim.toNat < 2 ^ 64)
    (inTokens : token.toNat < call.tokensAndBatch.toNat) (inHeads : head < heads.toNat)
    (inside : column.toNat < call.headDim.toNat) :
    (call.headIndex heads token head column).toNat =
      (token.toNat * heads.toNat + head) * call.headDim.toNat + column.toNat := by
  have vector := Grid.cell_lt inTokens inHeads
  have place := Grid.cell_lt vector inside
  have wide : token.toNat * heads.toNat + head ≤
      (token.toNat * heads.toNat + head) * call.headDim.toNat :=
    Nat.le_mul_of_pos_right _ (Nat.zero_lt_of_lt inside)
  have small : (UInt64.ofNat head).toNat = head :=
    UInt64.toNat_ofNat_of_lt' (inHeads.trans heads.toNat_lt)
  have row : (token * heads + UInt64.ofNat head).toNat = token.toNat * heads.toNat + head := by
    rw [toNat_mul_add (by omega), small]
  rw [headIndex, toNat_mul_add (by rw [row]; omega), row]

theorem pairCount_toNat (fits : call.Fits) :
    call.pairCount.toNat = call.tokensAndBatch.toNat * (call.headDim.toNat / 2) := by
  have room := fits.queries
  have below : call.tokensAndBatch.toNat * (call.headDim.toNat / 2) ≤
      call.tokensAndBatch.toNat * call.queryHeads.toNat * call.headDim.toNat := calc
    call.tokensAndBatch.toNat * (call.headDim.toNat / 2)
      ≤ call.tokensAndBatch.toNat * call.headDim.toNat :=
        Nat.mul_le_mul_left _ (Nat.div_le_self ..)
    _ ≤ call.tokensAndBatch.toNat * call.queryHeads.toNat * call.headDim.toNat :=
        Nat.mul_le_mul_right _ (Nat.le_mul_of_pos_right _ fits.someQueries)
  rw [pairCount, UInt64.toNat_mul, half_toNat, Nat.mod_eq_of_lt (by omega)]

/-- A thread of the launch, as its token and its dimension. -/
structure ThreadPair (call : RopeCall F) (thread : Nat) (token dimension : UInt64) : Prop where
  inTokens : token.toNat < call.tokensAndBatch.toNat
  inside : dimension.toNat < call.headDim.toNat / 2
  number : thread = token.toNat * (call.headDim.toNat / 2) + dimension.toNat

theorem threadPair (fits : call.Fits) {thread : Nat} (within : thread < call.pairCount.toNat) :
    call.ThreadPair thread (UInt64.ofNat thread / call.half)
      (UInt64.ofNat thread % call.half) := by
  have small : thread < UInt64.size := within.trans call.pairCount.toNat_lt
  rw [pairCount_toNat fits] at within
  -- a thread of the launch exists only where a head has a pair
  have positive : 0 < call.headDim.toNat / 2 := by
    rcases Nat.eq_zero_or_pos (call.headDim.toNat / 2) with zero | positive
    · rw [zero, Nat.mul_zero] at within
      exact absurd within (Nat.not_lt_zero _)
    · exact positive
  refine ⟨?_, ?_, ?_⟩
  · rw [UInt64.toNat_div, half_toNat, UInt64.toNat_ofNat_of_lt' small,
      Nat.div_lt_iff_lt_mul positive]
    exact within
  · rw [UInt64.toNat_mod, half_toNat, UInt64.toNat_ofNat_of_lt' small]
    exact Nat.mod_lt _ positive
  · rw [UInt64.toNat_div, UInt64.toNat_mod, half_toNat, UInt64.toNat_ofNat_of_lt' small]
    exact (Nat.div_add_mod' ..).symm

/-- Where the cells of a pair are, with the column that the cell has in its head. -/
theorem PairCell.place {buffer heads token dimension : UInt64} {head thread : Nat}
    {cell : UInt64 × UInt64}
    (room : call.tokensAndBatch.toNat * heads.toNat * call.headDim.toNat < 2 ^ 64)
    (even : call.headDim.toNat % 2 = 0) (pair : call.ThreadPair thread token dimension)
    (inHeads : head < heads.toNat) (own : call.PairCell buffer heads token dimension head cell) :
    cell.1 = buffer ∧ ∃ column < call.headDim.toNat,
      column % (call.headDim.toNat / 2) = dimension.toNat ∧
      cell.2.toNat = (token.toNat * heads.toNat + head) * call.headDim.toNat + column := by
  have inside := pair.inside
  have lower : dimension.toNat < call.headDim.toNat := by omega
  rcases own with rfl | rfl
  · refine ⟨rfl, dimension.toNat, lower, Nat.mod_eq_of_lt inside, ?_⟩
    exact headIndex_toNat room pair.inTokens inHeads lower
  · refine ⟨rfl, dimension.toNat + call.headDim.toNat / 2, by omega, ?_, ?_⟩
    · rw [Nat.add_mod_right, Nat.mod_eq_of_lt inside]
    -- the upper cell is half a head further, still in the same head
    · have place := headIndex_toNat room pair.inTokens inHeads lower
      have last := Grid.cell_lt (Grid.cell_lt pair.inTokens inHeads)
        (show dimension.toNat + call.headDim.toNat / 2 < call.headDim.toNat by omega)
      rw [UInt64.toNat_add, place, half_toNat, Nat.mod_eq_of_lt (by omega), Nat.add_assoc]

/-- A cell of a buffer belongs to one pair of one token in one head. -/
theorem PairCell.unique {buffer heads token dimension token' dimension' : UInt64}
    {head head' thread thread' : Nat} {cell : UInt64 × UInt64}
    (room : call.tokensAndBatch.toNat * heads.toNat * call.headDim.toNat < 2 ^ 64)
    (even : call.headDim.toNat % 2 = 0) (pair : call.ThreadPair thread token dimension)
    (pair' : call.ThreadPair thread' token' dimension') (inHeads : head < heads.toNat)
    (inHeads' : head' < heads.toNat)
    (own : call.PairCell buffer heads token dimension head cell)
    (own' : call.PairCell buffer heads token' dimension' head' cell) :
    thread = thread' ∧ head = head' := by
  obtain ⟨_, column, below, phase, place⟩ := own.place room even pair inHeads
  obtain ⟨_, column', below', phase', place'⟩ := own'.place room even pair' inHeads'
  rw [place'] at place
  -- the place gives the head of the token, and the column in it
  have vector := congrArg (· / call.headDim.toNat) place
  have inVector := congrArg (· % call.headDim.toNat) place
  simp only [Grid.cell_div below, Grid.cell_div below', Grid.cell_mod below,
    Grid.cell_mod below'] at vector inVector
  -- the head of the token gives the token and the head
  have tokens := congrArg (· / heads.toNat) vector
  have heads_same := congrArg (· % heads.toNat) vector
  simp only [Grid.cell_div inHeads, Grid.cell_div inHeads', Grid.cell_mod inHeads,
    Grid.cell_mod inHeads'] at tokens heads_same
  refine ⟨?_, heads_same.symm⟩
  rw [pair.number, pair'.number, ← phase, ← phase', inVector, tokens]

theorem owns_unique (fits : call.Fits) (cell : UInt64 × UInt64) (thread other : Nat)
    (own : call.Owns cell thread) (own' : call.Owns cell other) : thread = other := by
  obtain ⟨within, own⟩ := own
  obtain ⟨within', own'⟩ := own'
  have pair := threadPair fits within
  have pair' := threadPair fits within'
  rcases own with ⟨head, inHeads, own⟩ | ⟨head, inHeads, own⟩ <;>
    rcases own' with ⟨head', inHeads', own'⟩ | ⟨head', inHeads', own'⟩
  · exact (own.unique fits.queries fits.even pair pair' inHeads inHeads' own').1
  · have buffer := (own.place fits.queries fits.even pair inHeads).1
    have buffer' := (own'.place fits.keys fits.even pair' inHeads').1
    exact absurd (buffer.symm.trans buffer') fits.apart
  · have buffer := (own.place fits.keys fits.even pair inHeads).1
    have buffer' := (own'.place fits.queries fits.even pair' inHeads').1
    exact absurd (buffer'.symm.trans buffer) fits.apart
  · exact (own.unique fits.keys fits.even pair pair' inHeads inHeads' own').1

/-! ### What the launch leaves -/

section Launch

variable [DeviceFloat F] [Stored F H]

/-- What a turn of a loop over the heads does to the memory. -/
def turned (call : RopeCall F) (buffer heads token dimension : UInt64) (head : Nat)
    (memory : DeviceMemory H) : DeviceMemory H :=
  let offset := call.headIndex heads token head dimension
  let first := cellAt memory (buffer, offset)
  let second := cellAt memory (buffer, offset + call.half)
  storeAt buffer (offset + call.half) (upperTurn F (call.angle token dimension) first second)
    (storeAt buffer offset (lowerTurn F (call.angle token dimension) first second) memory)

theorem turned_foreign {buffer heads token dimension : UInt64} {head : Nat}
    {cell : UInt64 × UInt64} (foreign : ¬ call.PairCell buffer heads token dimension head cell)
    (memory : DeviceMemory H) :
    cellAt (call.turned buffer heads token dimension head memory) cell = cellAt memory cell := by
  simp only [PairCell, not_or] at foreign
  rw [turned, cellAt_storeAt_of_ne foreign.2, cellAt_storeAt_of_ne foreign.1]

omit [DeviceFloat F] [Stored F H] in
/-- The two cells of a pair differ. -/
theorem pair_cells_ne {thread : Nat} {token dimension : UInt64}
    (pair : call.ThreadPair thread token dimension) (offset : UInt64) :
    offset ≠ offset + call.half := by
  intro same
  have zero : call.half = 0 := by
    have moved := (UInt64.add_right_inj offset).mp ((UInt64.add_zero offset).trans same)
    exact moved.symm
  have inside := pair.inside
  rw [← half_toNat, zero] at inside
  exact absurd inside (Nat.not_lt_zero _)

theorem turned_lower {thread : Nat} {buffer heads token dimension : UInt64} {head : Nat}
    (pair : call.ThreadPair thread token dimension) (memory : DeviceMemory H) :
    cellAt (call.turned buffer heads token dimension head memory)
        (buffer, call.headIndex heads token head dimension) =
      lowerTurn F (call.angle token dimension)
        (memory buffer (call.headIndex heads token head dimension))
        (memory buffer (call.headIndex heads token head dimension + call.half)) := by
  have other : (buffer, call.headIndex heads token head dimension) ≠
      (buffer, call.headIndex heads token head dimension + call.half) := fun same =>
    pair_cells_ne pair _ (congrArg Prod.snd same)
  rw [turned, cellAt_storeAt_of_ne other, cellAt_storeAt]
  rfl

theorem turned_upper {buffer heads token dimension : UInt64} {head : Nat}
    (memory : DeviceMemory H) :
    cellAt (call.turned buffer heads token dimension head memory)
        (buffer, call.headIndex heads token head dimension + call.half) =
      upperTurn F (call.angle token dimension)
        (memory buffer (call.headIndex heads token head dimension))
        (memory buffer (call.headIndex heads token head dimension + call.half)) := by
  rw [turned, cellAt_storeAt]
  rfl

/-- A turn computes both cells from what stands in them. -/
theorem turned_congr {thread : Nat} {buffer heads token dimension : UInt64} {head : Nat}
    (pair : call.ThreadPair thread token dimension) {memory other : DeviceMemory H}
    (same : ∀ cell, call.PairCell buffer heads token dimension head cell →
      cellAt memory cell = cellAt other cell)
    {cell : UInt64 × UInt64} (own : call.PairCell buffer heads token dimension head cell) :
    cellAt (call.turned buffer heads token dimension head memory) cell =
      cellAt (call.turned buffer heads token dimension head other) cell := by
  have first := same _ (.inl rfl)
  have second := same _ (.inr rfl)
  simp only [cellAt] at first second
  rcases own with rfl | rfl
  · rw [turned_lower pair, turned_lower pair, first, second]
  · rw [turned_upper, turned_upper, first, second]

/-- A thread that may turn a pair of cells keeps to what it owns. -/
theorem turnHead_keepsTo {buffer heads token dimension : UInt64} {head thread : Nat}
    (fits : call.Fits)
    (own : ∀ cell, call.PairCell buffer heads token dimension head cell → call.Owns cell thread)
    {next : Program (DeviceMemory H)} (later : KeepsTo cellAt call.Owns thread next) :
    KeepsTo cellAt call.Owns thread (call.turnHead buffer heads token dimension head next) := by
  have readable : ∀ cell, call.PairCell buffer heads token dimension head cell →
      Readable call.Owns thread cell := fun cell inside other foreign =>
    owns_unique fits cell other thread foreign (own cell inside)
  unfold turnHead
  dsimp only
  refine .read (fun _ _ agree => agree _ (readable _ (.inl rfl))) fun first => ?_
  refine .read (fun _ _ agree => agree _ (readable _ (.inr rfl))) fun second => ?_
  refine .write (own _ (.inl rfl)) (fun memory => cellAt_storeAt _ _ _ memory)
    (fun memory _ other => cellAt_storeAt_of_ne other _ memory) ?_
  exact .write (own _ (.inr rfl)) (fun memory => cellAt_storeAt _ _ _ memory)
    (fun memory _ other => cellAt_storeAt_of_ne other _ memory) later

theorem ropeKernel_keepsTo (fits : call.Fits) {thread : Nat} (small : thread < UInt64.size) :
    KeepsTo cellAt call.Owns thread (call.ropeKernel (H := H) thread) := by
  unfold ropeKernel
  dsimp only
  split
  next => trivial
  next inside =>
    have within : thread < call.pairCount.toNat := by
      have below := UInt64.lt_iff_toNat_lt.mp (UInt64.not_le.mp inside)
      rwa [UInt64.toNat_ofNat_of_lt' small] at below
    refine .forEach (fun head listed _ _ later => turnHead_keepsTo fits (fun cell pair =>
      ⟨within, .inl ⟨head, List.mem_range.mp listed, pair⟩⟩) (later ())) (fun _ => ?_) ()
    exact .forEach (fun head listed _ _ later => turnHead_keepsTo fits (fun cell pair =>
      ⟨within, .inr ⟨head, List.mem_range.mp listed, pair⟩⟩) (later ())) (fun _ => by trivial) ()

omit [DeviceFloat F] [Stored F H] in
theorem inside_of_lt {thread : Nat} (within : thread < call.pairCount.toNat) :
    ¬ call.pairCount ≤ UInt64.ofNat thread := by
  rw [UInt64.not_le, UInt64.lt_iff_toNat_lt,
    UInt64.toNat_ofNat_of_lt' (within.trans call.pairCount.toNat_lt)]
  exact within

theorem ropeKernel_finish {thread : Nat} (inside : ¬ call.pairCount ≤ UInt64.ofNat thread)
    (memory : DeviceMemory H) :
    (call.ropeKernel thread).finish memory =
      (List.range call.keyValueHeads.toNat).foldl (fun memory head =>
        call.turned call.key call.keyValueHeads (UInt64.ofNat thread / call.half)
          (UInt64.ofNat thread % call.half) head memory)
        ((List.range call.queryHeads.toNat).foldl (fun memory head =>
          call.turned call.query call.queryHeads (UInt64.ofNat thread / call.half)
            (UInt64.ofNat thread % call.half) head memory) memory) := by
  unfold ropeKernel
  dsimp only
  rw [if_neg inside, finish_forEach fun _ _ _ => rfl, finish_forEach fun _ _ _ => rfl]
  rfl

variable (call) in
/-- What a launch leaves of one of the two buffers: every head of every token turned. -/
structure Turned (heads : UInt64) (before after : UInt64 → H) : Prop where
  lower : ∀ token dimension : UInt64, token.toNat < call.tokensAndBatch.toNat →
    dimension.toNat < call.headDim.toNat / 2 → ∀ head < heads.toNat,
    after (call.headIndex heads token head dimension) =
      lowerTurn F (call.angle token dimension)
        (before (call.headIndex heads token head dimension))
        (before (call.headIndex heads token head dimension + call.half))
  upper : ∀ token dimension : UInt64, token.toNat < call.tokensAndBatch.toNat →
    dimension.toNat < call.headDim.toNat / 2 → ∀ head < heads.toNat,
    after (call.headIndex heads token head dimension + call.half) =
      upperTurn F (call.angle token dimension)
        (before (call.headIndex heads token head dimension))
        (before (call.headIndex heads token head dimension + call.half))

/-- A loop over the heads turns each head as if alone. -/
theorem loop_turned {thread : Nat} {buffer heads token dimension : UInt64}
    (room : call.tokensAndBatch.toNat * heads.toNat * call.headDim.toNat < 2 ^ 64)
    (even : call.headDim.toNat % 2 = 0) (pair : call.ThreadPair thread token dimension)
    (memory : DeviceMemory H) {head : Nat} (inHeads : head < heads.toNat)
    {cell : UInt64 × UInt64} (here : call.PairCell buffer heads token dimension head cell) :
    cellAt ((List.range heads.toNat).foldl (fun memory head =>
        call.turned buffer heads token dimension head memory) memory) cell =
      cellAt (call.turned buffer heads token dimension head memory) cell := by
  refine get_foldl_disjoint (call.PairCell buffer heads token dimension) ?_ ?_ ?_
    List.nodup_range memory (List.mem_range.mpr inHeads) here
  · intro i listed j listed' cell own own'
    exact (own.unique room even pair pair (List.mem_range.mp listed) (List.mem_range.mp listed')
      own').2
  · exact fun i _ s cell foreign => turned_foreign foreign s
  · exact fun i s s' same cell own => turned_congr pair same own

omit [DeviceFloat F] [Stored F H] in
/-- Every pair of a token and a dimension has its thread. -/
theorem exists_thread (fits : call.Fits) {token dimension : UInt64}
    (inTokens : token.toNat < call.tokensAndBatch.toNat)
    (inside : dimension.toNat < call.headDim.toNat / 2) :
    ∃ thread < call.pairCount.toNat, UInt64.ofNat thread / call.half = token ∧
      UInt64.ofNat thread % call.half = dimension := by
  have within := Grid.cell_lt inTokens inside
  rw [← pairCount_toNat fits] at within
  have small : (UInt64.ofNat (token.toNat * (call.headDim.toNat / 2) + dimension.toNat)).toNat =
      token.toNat * (call.headDim.toNat / 2) + dimension.toNat :=
    UInt64.toNat_ofNat_of_lt' (within.trans call.pairCount.toNat_lt)
  refine ⟨_, within, UInt64.toNat_inj.mp ?_, UInt64.toNat_inj.mp ?_⟩
  · rw [UInt64.toNat_div, small, half_toNat, Grid.cell_div inside]
  · rw [UInt64.toNat_mod, small, half_toNat, Grid.cell_mod inside]

omit [DeviceFloat F] [Stored F H] in
/-- The query buffer and the key buffer have no cell in common. -/
theorem query_key_apart (fits : call.Fits) {thread head head' : Nat} {token dimension : UInt64}
    {cell : UInt64 × UInt64} (pair : call.ThreadPair thread token dimension)
    (inHeads : head < call.queryHeads.toNat) (inHeads' : head' < call.keyValueHeads.toNat)
    (here : call.PairCell call.query call.queryHeads token dimension head cell) :
    ¬ call.PairCell call.key call.keyValueHeads token dimension head' cell := by
  intro here'
  have buffer := (here.place fits.queries fits.even pair inHeads).1
  have buffer' := (here'.place fits.keys fits.even pair inHeads').1
  exact fits.apart (buffer.symm.trans buffer')

/-- A thread alone turns its pair in the queries. -/
theorem ropeKernel_query (fits : call.Fits) {thread : Nat} (within : thread < call.pairCount.toNat)
    (memory : DeviceMemory H) {head : Nat} (inHeads : head < call.queryHeads.toNat)
    {cell : UInt64 × UInt64}
    (here : call.PairCell call.query call.queryHeads (UInt64.ofNat thread / call.half)
      (UInt64.ofNat thread % call.half) head cell) :
    cellAt ((call.ropeKernel thread).finish memory) cell =
      cellAt (call.turned call.query call.queryHeads (UInt64.ofNat thread / call.half)
        (UInt64.ofNat thread % call.half) head memory) cell := by
  have pair := threadPair fits within
  rw [ropeKernel_finish (inside_of_lt within),
    get_foldl_foreign (call.PairCell call.key call.keyValueHeads (UInt64.ofNat thread / call.half)
      (UInt64.ofNat thread % call.half)) (fun _ _ s cell foreign => turned_foreign foreign s)]
  · exact loop_turned fits.queries fits.even pair memory inHeads here
  · exact fun other listed => query_key_apart fits pair inHeads (List.mem_range.mp listed) here

/-- And in the keys, which the loop over the queries leaves alone. -/
theorem ropeKernel_key (fits : call.Fits) {thread : Nat} (within : thread < call.pairCount.toNat)
    (memory : DeviceMemory H) {head : Nat} (inHeads : head < call.keyValueHeads.toNat)
    {cell : UInt64 × UInt64}
    (here : call.PairCell call.key call.keyValueHeads (UInt64.ofNat thread / call.half)
      (UInt64.ofNat thread % call.half) head cell) :
    cellAt ((call.ropeKernel thread).finish memory) cell =
      cellAt (call.turned call.key call.keyValueHeads (UInt64.ofNat thread / call.half)
        (UInt64.ofNat thread % call.half) head memory) cell := by
  have pair := threadPair fits within
  rw [ropeKernel_finish (inside_of_lt within), loop_turned fits.keys fits.even pair _ inHeads here]
  refine turned_congr pair (fun cell here => ?_) here
  exact get_foldl_foreign (call.PairCell call.query call.queryHeads
    (UInt64.ofNat thread / call.half) (UInt64.ofNat thread % call.half))
    (fun _ _ s cell foreign => turned_foreign foreign s) memory
    fun other listed foreign => query_key_apart fits pair (List.mem_range.mp listed) inHeads foreign
      here

/-- Whatever the order of the threads, a launch turns all heads of the queries and the keys. -/
theorem rope_turned (fits : call.Fits) {threads : Nat} (enough : call.pairCount.toNat ≤ threads)
    (small : threads ≤ UInt64.size) {memory memory' : DeviceMemory H}
    (ran : Interleaves threads call.ropeKernel memory memory') :
    call.Turned call.queryHeads (memory call.query) (memory' call.query) ∧
      call.Turned call.keyValueHeads (memory call.key) (memory' call.key) := by
  -- a cell that a thread owns holds what that thread alone makes of it
  have alone : ∀ thread < call.pairCount.toNat, ∀ cell, call.Owns cell thread →
      cellAt memory' cell = cellAt ((call.ropeKernel thread).finish memory) cell :=
    fun thread within cell own => interleaves_disjoint
      (fun thread within => ropeKernel_keepsTo fits (within.trans_le small)) ran
      (within.trans_le enough) fun other foreign => owns_unique fits cell other thread foreign own
  constructor
  · constructor <;> intro token dimension inTokens inside head inHeads
    all_goals obtain ⟨thread, within, rfl, rfl⟩ := exists_thread fits inTokens inside
    · refine (alone thread within (call.query, _) ⟨within, .inl ⟨head, inHeads, .inl rfl⟩⟩).trans ?_
      rw [ropeKernel_query fits within memory inHeads (.inl rfl),
        turned_lower (threadPair fits within)]
    · refine (alone thread within (call.query, _) ⟨within, .inl ⟨head, inHeads, .inr rfl⟩⟩).trans ?_
      rw [ropeKernel_query fits within memory inHeads (.inr rfl), turned_upper]
  · constructor <;> intro token dimension inTokens inside head inHeads
    all_goals obtain ⟨thread, within, rfl, rfl⟩ := exists_thread fits inTokens inside
    · refine (alone thread within (call.key, _) ⟨within, .inr ⟨head, inHeads, .inl rfl⟩⟩).trans ?_
      rw [ropeKernel_key fits within memory inHeads (.inl rfl),
        turned_lower (threadPair fits within)]
    · refine (alone thread within (call.key, _) ⟨within, .inr ⟨head, inHeads, .inr rfl⟩⟩).trans ?_
      rw [ropeKernel_key fits within memory inHeads (.inr rfl), turned_upper]

/-- No other buffer is touched. -/
theorem rope_others (fits : call.Fits) {threads : Nat} (some_thread : 0 < threads)
    (small : threads ≤ UInt64.size) {memory memory' : DeviceMemory H}
    (ran : Interleaves threads call.ropeKernel memory memory') {address : UInt64}
    (notQuery : address ≠ call.query) (notKey : address ≠ call.key) :
    memory' address = memory address := by
  funext index
  have foreign : ∀ thread, ¬ call.Owns (address, index) thread := by
    rintro thread ⟨within, ⟨head, inHeads, here⟩ | ⟨head, inHeads, here⟩⟩
    · exact notQuery (here.place fits.queries fits.even (threadPair fits within) inHeads).1
    · exact notKey (here.place fits.keys fits.even (threadPair fits within) inHeads).1
  have keepsTo : ∀ thread < threads, KeepsTo cellAt call.Owns thread
      (call.ropeKernel (H := H) thread) := fun thread within =>
    ropeKernel_keepsTo fits (within.trans_le small)
  have left : cellAt memory' (address, index) =
      cellAt ((call.ropeKernel 0).finish memory) (address, index) :=
    interleaves_disjoint keepsTo ran some_thread fun other own => absurd own (foreign other)
  exact left.trans ((keepsTo 0 some_thread).finish_foreign memory (foreign 0))

end Launch

end RopeCall

/-! ### The host function -/

def applyRopeF16 [DeviceFloat F] [Stored F H] (query key positions : BufferView)
    (positionOf : UInt64 → UInt32)
    (batch tokens queryHeads keyValueHeads headDim : UInt64) (theta : F) (stream : StreamHandle)
    (launch : Status) : Result (Launch H) :=
  if stream.valid = false ∨ DeviceFloat.isFinite theta = false ∨
      DeviceFloat.isPositive theta = false ∨ headDim % 2 ≠ 0 then
    .error (.failure .invalidArgument)
  else do
    let tokensAndBatch ← checkedProduct [batch, tokens]
    let queryElements ← checkedProduct [batch, tokens, queryHeads, headDim]
    let keyElements ← checkedProduct [batch, tokens, keyValueHeads, headDim]
    if uint64Max / 2 < queryElements ∨ uint64Max / 2 < keyElements ∨
        uint64Max / 4 < tokensAndBatch then
      .error (.failure .arithmeticOverflow)
    else if query.sizeBytes ≠ queryElements * 2 ∨ key.sizeBytes ≠ keyElements * 2 ∨
        positions.sizeBytes ≠ tokensAndBatch * 4 ∨ query.address = 0 ∨ key.address = 0 ∨
        positions.address = 0 ∨ query.address = key.address ∨
        query.address = positions.address ∨ key.address = positions.address then
      .error (.failure .invalidArgument)
    else
      let call : RopeCall F := ⟨query.address, key.address, positionOf, tokensAndBatch, queryHeads,
        keyValueHeads, headDim, theta⟩
      if uint32Max < blocksFor call.pairCount then .error (.failure .resourceLimit)
      else if launch.isOk then .ok (launchThreads (blocksFor call.pairCount) call.ropeKernel)
      else .error launch

section Accepted

variable [DeviceFloat F] [Stored F H] {query key positions : BufferView}
  {positionOf : UInt64 → UInt32} {batch tokens queryHeads keyValueHeads headDim : UInt64}
  {theta : F} {stream : StreamHandle} {status : Status} {launch : Launch H}

/-- The call of the kernel that an accepted call launches. -/
theorem applyRopeF16_ok (accepted : applyRopeF16 query key positions positionOf batch tokens
      queryHeads keyValueHeads headDim theta stream status = .ok launch) :
    ∃ tokensAndBatch : UInt64, tokensAndBatch.toNat = batch.toNat * tokens.toNat ∧
      let call : RopeCall F := ⟨query.address, key.address, positionOf, tokensAndBatch, queryHeads,
        keyValueHeads, headDim, theta⟩
      call.Fits ∧ 0 < call.pairCount.toNat ∧
        call.pairCount.toNat ≤ (blocksFor call.pairCount).toNat * 256 ∧
        (blocksFor call.pairCount).toNat * 256 ≤ UInt64.size ∧
        launch = launchThreads (blocksFor call.pairCount) call.ropeKernel := by
  obtain ⟨given, accepted⟩ := guard_ok accepted
  obtain ⟨tokensAndBatch, first, accepted⟩ := bind_eq_ok.mp accepted
  obtain ⟨queryElements, second, accepted⟩ := bind_eq_ok.mp accepted
  obtain ⟨keyElements, third, accepted⟩ := bind_eq_ok.mp accepted
  obtain ⟨bytes, accepted⟩ := guard_ok accepted
  obtain ⟨places, accepted⟩ := guard_ok accepted
  obtain ⟨few, accepted⟩ := guard_ok accepted
  -- the counts that the call computes are products that did not wrap
  have rows := (checkedProduct_ok first).2
  obtain ⟨queriesSome, queries⟩ := checkedProduct_ok second
  have keys := (checkedProduct_ok third).2
  simp only [List.map_cons, List.map_nil, List.prod_cons, List.prod_nil, Nat.mul_one]
    at rows queries keys
  simp only [not_or, Bool.not_eq_false, not_not] at given bytes places
  have even : headDim.toNat % 2 = 0 := by
    have zero := congrArg UInt64.toNat given.2.2.2
    rwa [UInt64.toNat_mod] at zero
  have fits : RopeCall.Fits (⟨query.address, key.address, positionOf, tokensAndBatch, queryHeads,
      keyValueHeads, headDim, theta⟩ : RopeCall F) := by
    refine ⟨places.2.2.2.2.2.2.1, even, ?_, ?_, ?_⟩
    · have bound := queryElements.toNat_lt
      rw [queries] at bound
      rw [rows, Nat.mul_assoc, Nat.mul_assoc]
      exact bound
    · have bound := keyElements.toNat_lt
      rw [keys] at bound
      rw [rows, Nat.mul_assoc, Nat.mul_assoc]
      exact bound
    · have nonzero := queriesSome queryHeads (by simp)
      exact Nat.pos_of_ne_zero fun zero => nonzero (UInt64.toNat_inj.mp zero)
  refine ⟨tokensAndBatch, rows, fits, ?_, le_blocksFor ?_, ?_, (launch_ok accepted).symm⟩
  · have sequences := queriesSome batch (by simp)
    have someTokens := queriesSome tokens (by simp)
    have width := queriesSome headDim (by simp)
    rw [RopeCall.pairCount_toNat fits, rows]
    refine Nat.mul_pos (Nat.mul_pos ?_ ?_) ?_
    · exact Nat.pos_of_ne_zero fun zero => sequences (UInt64.toNat_inj.mp zero)
    · exact Nat.pos_of_ne_zero fun zero => someTokens (UInt64.toNat_inj.mp zero)
    · have positive : headDim.toNat ≠ 0 := fun zero => width (UInt64.toNat_inj.mp zero)
      change 0 < headDim.toNat / 2
      omega
  · -- half a dimension for each pair of elements of the queries
    have half := le_half bytes.1
    rw [queries] at half
    rw [RopeCall.pairCount_toNat fits, rows]
    have some := fits.someQueries
    calc batch.toNat * tokens.toNat * (headDim.toNat / 2)
        ≤ batch.toNat * tokens.toNat * headDim.toNat :=
          Nat.mul_le_mul_left _ (Nat.div_le_self ..)
      _ ≤ batch.toNat * tokens.toNat * (queryHeads.toNat * headDim.toNat) :=
          Nat.mul_le_mul_left _ (Nat.le_mul_of_pos_left _ some)
      _ = batch.toNat * (tokens.toNat * (queryHeads.toNat * headDim.toNat)) := Nat.mul_assoc ..
      _ ≤ 2 ^ 63 := half
  · exact threads_small few

/-- Whatever the order of the threads, an accepted call turns every head of every token and touches
nothing else. -/
theorem applyRopeF16_launches (accepted : applyRopeF16 query key positions positionOf batch tokens
      queryHeads keyValueHeads headDim theta stream status = .ok launch)
    {memory memory' : DeviceMemory H} (ran : launch memory memory') :
    let call : RopeCall F := ⟨query.address, key.address, positionOf, batch * tokens, queryHeads,
      keyValueHeads, headDim, theta⟩
    call.Turned queryHeads (memory query.address) (memory' query.address) ∧
      call.Turned keyValueHeads (memory key.address) (memory' key.address) ∧
      ∀ address, address ≠ query.address → address ≠ key.address →
        memory' address = memory address := by
  obtain ⟨tokensAndBatch, rows, fits, positive, enough, small, rfl⟩ := applyRopeF16_ok accepted
  -- the checked product did not wrap
  have unwrapped : tokensAndBatch = batch * tokens := UInt64.toNat_inj.mp (by
    rw [UInt64.toNat_mul, ← rows, Nat.mod_eq_of_lt tokensAndBatch.toNat_lt])
  subst unwrapped
  obtain ⟨queries, keys⟩ := RopeCall.rope_turned fits enough small ran
  exact ⟨queries, keys, fun address notQuery notKey =>
    RopeCall.rope_others fits (positive.trans_le enough) small ran notQuery notKey⟩

/-- Two tokens at the positions 3 and 5, with two heads of queries and one of keys. The first
dimension turns by the position and the second by a hundredth of it. The cells are those of the
first token in its second head of queries, and of the second token in its head of keys. -/
theorem applyRopeF16_launches_two_tokens :
    let positionOf : UInt64 → UInt32 := fun token => if token = 0 then 3 else 5
    let memory : DeviceMemory ℝ := fun address index =>
      if address = 4096 then index.toNat else 2
    ∃ (launch : Launch ℝ) (memory' : DeviceMemory ℝ),
      applyRopeF16 ⟨4096, 32⟩ ⟨8192, 16⟩ ⟨8704, 8⟩ positionOf 1 2 2 1 4 (10000 : ℝ) ⟨1⟩ .success =
        .ok launch ∧ launch memory memory' ∧
      memory' 4096 4 = 4 * Real.cos 3 - 6 * Real.sin 3 ∧
      memory' 4096 6 = 6 * Real.cos 3 + 4 * Real.sin 3 ∧
      memory' 4096 5 = 5 * Real.cos (3 / 100) - 7 * Real.sin (3 / 100) ∧
      memory' 4096 7 = 7 * Real.cos (3 / 100) + 5 * Real.sin (3 / 100) ∧
      memory' 8192 4 = 2 * Real.cos 5 - 2 * Real.sin 5 ∧
      memory' 8192 7 = 2 * Real.cos (5 / 100) + 2 * Real.sin (5 / 100) ∧
      ∀ address, address ≠ 4096 → address ≠ 8192 → memory' address = memory address := by
  have accepted : ∃ kernel : Nat → Program (DeviceMemory ℝ),
      applyRopeF16 ⟨4096, 32⟩ ⟨8192, 16⟩ ⟨8704, 8⟩ (fun token => if token = 0 then 3 else 5) 1 2 2 1
        4 (10000 : ℝ) ⟨1⟩ .success = .ok (launchThreads 1 kernel) := by
    have positive : DeviceFloat.isPositive (10000 : ℝ) = true := decide_eq_true (by norm_num)
    rw [applyRopeF16, if_neg (by rw [positive]; decide)]
    exact ⟨_, rfl⟩
  obtain ⟨kernel, accepted⟩ := accepted
  intro positionOf memory
  obtain ⟨memory', ran⟩ := interleaves_exists 256 kernel memory
  let call : RopeCall ℝ := ⟨4096, 8192, positionOf, 2, 2, 1, 4, 10000⟩
  obtain ⟨queries, keys, others⟩ := applyRopeF16_launches accepted ran
  have queries : call.Turned 2 (memory 4096) (memory' 4096) := queries
  have keys : call.Turned 1 (memory 8192) (memory' 8192) := keys
  have whole : ∀ token, call.angle token 0 = (positionOf token).toNat := by
    intro token
    simp [RopeCall.angle, call]
  have hundredth : ∀ token, call.angle token 1 = (positionOf token).toNat / 100 := by
    intro token
    have root : (10000 : ℝ) ^ ((2 : ℝ) / 4) = 100 := by
      rw [show (2 : ℝ) / 4 = 1 / 2 by norm_num, ← Real.sqrt_eq_rpow]
      norm_num
    simp [RopeCall.angle, call, root]
  have places : call.half = 2 ∧ call.headIndex 2 0 1 0 = 4 ∧ call.headIndex 2 0 1 1 = 5 ∧
      call.headIndex 1 1 0 0 = 4 ∧ call.headIndex 1 1 0 1 = 5 := by
    simp [call, RopeCall.half, RopeCall.headIndex]
  refine ⟨_, memory', accepted, ran, ?_, ?_, ?_, ?_, ?_, ?_, others⟩
  · simpa [places, whole, RopeCall.lowerTurn, memory, positionOf] using
      queries.lower 0 0 (by decide) (by decide) 1 (by decide)
  · simpa [places, whole, RopeCall.upperTurn, memory, positionOf] using
      queries.upper 0 0 (by decide) (by decide) 1 (by decide)
  · simpa [places, hundredth, RopeCall.lowerTurn, memory, positionOf] using
      queries.lower 0 1 (by decide) (by decide) 1 (by decide)
  · simpa [places, hundredth, RopeCall.upperTurn, memory, positionOf] using
      queries.upper 0 1 (by decide) (by decide) 1 (by decide)
  · simpa [places, whole, RopeCall.lowerTurn, memory, positionOf] using
      keys.lower 1 0 (by decide) (by decide) 0 (by decide)
  · simpa [places, hundredth, RopeCall.upperTurn, memory, positionOf] using
      keys.upper 1 1 (by decide) (by decide) 0 (by decide)

end Accepted

end MarketForge.Cuda
