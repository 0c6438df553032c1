import MarketForge.Cuda.Greedy
import MarketForge.Library.DisjointThreads

/-!
# The memory of the device

The buffers of numbers by address, the checks of sizes that the host functions share, and launches
whose threads have no shared memory and no barrier: all of them interleave.
-/
namespace MarketForge.Cuda

open BarrierBlock

/-- A device buffer as the host sees it. -/
structure BufferView where
  address : UInt64
  sizeBytes : UInt64
  deriving DecidableEq

/-- The buffers of numbers by address, element by element. -/
abbrev DeviceMemory (H : Type) := UInt64 → UInt64 → H

/-- What a launch may make of the memory. -/
abbrev Launch (H : Type) := DeviceMemory H → DeviceMemory H → Prop

variable {H : Type}

/-- `buffer[index] = value` -/
def storeAt (buffer index : UInt64) (value : H) (memory : DeviceMemory H) : DeviceMemory H :=
  Function.update memory buffer (Function.update (memory buffer) index value)

/-- One cell of one buffer. -/
def cellAt (memory : DeviceMemory H) (cell : UInt64 × UInt64) : H := memory cell.1 cell.2

theorem cellAt_storeAt (buffer index : UInt64) (value : H) (memory : DeviceMemory H) :
    cellAt (storeAt buffer index value memory) (buffer, index) = value := by
  simp [cellAt, storeAt]

theorem cellAt_storeAt_of_ne {buffer index : UInt64} {cell : UInt64 × UInt64}
    (other : cell ≠ (buffer, index)) (value : H) (memory : DeviceMemory H) :
    cellAt (storeAt buffer index value memory) cell = cellAt memory cell := by
  obtain ⟨buffer', index'⟩ := cell
  simp only [cellAt, storeAt]
  by_cases same : buffer' = buffer
  -- the same buffer, another index
  · subst same
    rw [Function.update_self]
    exact Function.update_of_ne (fun equal => other (by rw [equal])) _ _
  · rw [Function.update_of_ne same]

theorem cellAt_ext (memory memory' : DeviceMemory H)
    (same : ∀ cell, cellAt memory cell = cellAt memory' cell) : memory = memory' :=
  funext fun buffer => funext fun index => same (buffer, index)

/-! ### Checks -/

/-- An accepted call has passed its next guard. -/
theorem guard_ok {α : Type} {refused : Prop} [Decidable refused] {status : Status}
    {rest : Result α} {value : α}
    (accepted : (if refused then .error status else rest) = .ok value) :
    ¬ refused ∧ rest = .ok value := by
  split at accepted
  · cases accepted
  next passed => exact ⟨passed, accepted⟩

/-- An accepted call has been launched. -/
theorem launch_ok {α : Type} {status : Status} {value launched : α}
    (accepted : (if status.isOk then .ok launched else .error status : Result α) = .ok value) :
    launched = value := by
  split at accepted
  · exact Except.ok.inj accepted
  · cases accepted

/-- One factor of `checked_product`. -/
def checkedFactor (result factor : UInt64) : Result UInt64 :=
  if factor = 0 then .error (.failure .invalidArgument)
  else if uint64Max / factor < result then .error (.failure .arithmeticOverflow)
  else .ok (result * factor)

/-- `checked_product` of `rope.cu`, which tells a zero from an overflow. Elsewhere it only tells
failure from success. -/
def checkedProduct (factors : List UInt64) : Result UInt64 := factors.foldlM checkedFactor 1

theorem le_of_not_quotient_lt {a b : UInt64} (kept : ¬ uint64Max / b < a) :
    a.toNat * b.toNat < 2 ^ 64 := by
  rw [UInt64.not_lt, UInt64.le_iff_toNat_le, UInt64.toNat_div] at kept
  calc a.toNat * b.toNat ≤ uint64Max.toNat / b.toNat * b.toNat := Nat.mul_le_mul_right _ kept
    _ ≤ uint64Max.toNat := Nat.div_mul_le_self ..
    _ < 2 ^ 64 := by decide

/-- A multiply-add that does not wrap. -/
theorem toNat_mul_add {a b c : UInt64} (room : a.toNat * b.toNat + c.toNat < 2 ^ 64) :
    (a * b + c).toNat = a.toNat * b.toNat + c.toNat := by
  have product : (a * b).toNat = a.toNat * b.toNat := by
    rw [UInt64.toNat_mul, Nat.mod_eq_of_lt (by omega)]
  rw [UInt64.toNat_add, product, Nat.mod_eq_of_lt room]

theorem checkedFactor_ok {result factor product : UInt64}
    (accepted : checkedFactor result factor = .ok product) :
    factor ≠ 0 ∧ product.toNat = result.toNat * factor.toNat := by
  obtain ⟨nonzero, accepted⟩ := guard_ok accepted
  obtain ⟨bounded, accepted⟩ := guard_ok accepted
  obtain rfl := Except.ok.inj accepted
  refine ⟨nonzero, ?_⟩
  rw [UInt64.toNat_mul, Nat.mod_eq_of_lt (le_of_not_quotient_lt bounded)]

/-- A checked product is the product, and no factor is zero. -/
theorem checkedProduct_ok {factors : List UInt64} {product : UInt64}
    (accepted : checkedProduct factors = .ok product) :
    (∀ factor ∈ factors, factor ≠ 0) ∧ product.toNat = (factors.map UInt64.toNat).prod := by
  -- the loop starts with one, its later turns with the product so far
  have general : ∀ (factors : List UInt64) (start : UInt64),
      factors.foldlM checkedFactor start = .ok product →
      (∀ factor ∈ factors, factor ≠ 0) ∧
        product.toNat = start.toNat * (factors.map UInt64.toNat).prod := by
    intro factors
    induction factors with
    | nil =>
      intro start accepted
      obtain rfl := Except.ok.inj accepted
      exact ⟨fun _ none => absurd none List.not_mem_nil, (Nat.mul_one _).symm⟩
    | cons factor rest ih =>
      intro start accepted
      rw [List.foldlM_cons] at accepted
      obtain ⟨middle, first, later⟩ := bind_eq_ok.mp accepted
      obtain ⟨nonzero, product⟩ := checkedFactor_ok first
      obtain ⟨others, whole⟩ := ih middle later
      refine ⟨List.forall_mem_cons.mpr ⟨nonzero, others⟩, ?_⟩
      rw [whole, product, List.map_cons, List.prod_cons, Nat.mul_assoc]
  obtain ⟨nonzero, whole⟩ := general factors 1 accepted
  exact ⟨nonzero, whole.trans (Nat.one_mul _)⟩

theorem le_half {elements : UInt64} (kept : ¬ uint64Max / 2 < elements) :
    elements.toNat ≤ 2 ^ 63 := by
  rw [UInt64.not_lt, UInt64.le_iff_toNat_le] at kept
  exact kept.trans (by decide)

/-- `(elements + threads_per_block - 1) / threads_per_block` -/
def blocksFor (elements : UInt64) : UInt64 := (elements + 256 - 1) / 256

/-- A launch of so many blocks of 256 threads that have nothing to wait for. -/
def launchThreads (blocks : UInt64) (kernel : Nat → Program (DeviceMemory H)) : Launch H :=
  Interleaves (blocks.toNat * 256) kernel

/-- There is a thread for every element. -/
theorem le_blocksFor {elements : UInt64} (bounded : elements.toNat ≤ 2 ^ 63) :
    elements.toNat ≤ (blocksFor elements).toNat * 256 := by
  have sum : (elements + 256 - 1).toNat = elements.toNat + 255 := by
    rw [UInt64.toNat_sub_of_le, UInt64.toNat_add]
    · change (elements.toNat + 256) % 2 ^ 64 - 1 = _
      omega
    · rw [UInt64.le_iff_toNat_le, UInt64.toNat_add]
      change 1 ≤ (elements.toNat + 256) % 2 ^ 64
      omega
  rw [blocksFor, UInt64.toNat_div, sum]
  change elements.toNat ≤ (elements.toNat + 255) / 256 * 256
  omega

/-- The threads of a launch have numbers of 64 bits. -/
theorem threads_small {blocks : UInt64} (few : ¬ uint32Max < blocks) :
    blocks.toNat * 256 ≤ UInt64.size := by
  have bound := UInt64.le_iff_toNat_le.mp (UInt64.not_lt.mp few)
  change _ ≤ 2 ^ 64
  have small : uint32Max.toNat = 2 ^ 32 - 1 := by decide
  omega

end MarketForge.Cuda
