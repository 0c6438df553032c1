import MarketForge.Cuda.DeviceMemory
import MarketForge.Cuda.DeviceReals

/-!
# Kernels without barriers

`add_kernel`, `swiglu_kernel` and `embedding_kernel` compute one element in each thread, and the
host lets the first two overwrite an operand. An accepted launch leaves one memory, that of the
elements computed side by side, whatever the order of the threads.
-/
namespace MarketForge.Cuda

open BarrierBlock

variable {F H : Type}

/-! ### The kernels -/

def addKernel (F : Type) [Stored F H] (left right output elements : UInt64) (thread : Nat) :
    Program (DeviceMemory H) :=
  let index := UInt64.ofNat thread
  if index < elements then
    .read (cellAt · (left, index)) fun leftValue =>
      .read (cellAt · (right, index)) fun rightValue =>
        .write (storeAt output index (Stored.hadd F leftValue rightValue)) .done
  else .done

/-- `silu * up_value` -/
def swigluValue [DeviceFloat F] [Stored F H] (gate up : H) : H :=
  let gateValue : F := Stored.load gate
  let silu := gateValue / (DeviceFloat.one + DeviceFloat.expf (-gateValue))
  Stored.store (silu * Stored.load up)

def swigluKernel (F : Type) [DeviceFloat F] [Stored F H] (gate up output elements : UInt64)
    (thread : Nat) : Program (DeviceMemory H) :=
  let index := UInt64.ofNat thread
  if elements ≤ index then .done
  else
    .read (cellAt · (gate, index)) fun gateValue =>
      .read (cellAt · (up, index)) fun upValue =>
        .write (storeAt output index (swigluValue (F := F) gateValue upValue)) .done

def embeddingKernel (F : Type) [DeviceFloat F] [Stored F H] (embedding : UInt64)
    (tokenIds : UInt64 → UInt32) (output elements vocabularySize hiddenSize : UInt64)
    (thread : Nat) : Program (DeviceMemory H) :=
  let index := UInt64.ofNat thread
  if elements ≤ index then .done
  else
    let token := index / hiddenSize
    let column := index % hiddenSize
    let tokenId := (tokenIds token).toUInt64
    if tokenId < vocabularySize then
      .read (cellAt · (embedding, tokenId * hiddenSize + column)) fun value =>
        .write (storeAt output index value) .done
    else .write (storeAt output index (Stored.store (DeviceFloat.zero : F))) .done

/-! ### One element each -/

/-- Thread `i` owns element `i` of the output. -/
def ownsElement (output elements : UInt64) (cell : UInt64 × UInt64) (thread : Nat) : Prop :=
  cell.1 = output ∧ cell.2 < elements ∧ cell.2.toNat = thread

/-- The output of a launch that computes its elements side by side. -/
def mapElements (output elements : UInt64) (value : UInt64 → H) (memory : DeviceMemory H) :
    DeviceMemory H :=
  Function.update memory output fun index =>
    if index < elements then value index else memory output index

/-- Kernels whose threads keep to one element each leave the elements that each computes. -/
theorem map_launch {blocks output elements : UInt64} {kernel : Nat → Program (DeviceMemory H)}
    {value : UInt64 → H} {memory : DeviceMemory H}
    (enough : elements.toNat ≤ blocks.toNat * 256) (narrow : blocks ≤ uint32Max)
    (some_element : 0 < elements)
    (keepsTo : ∀ thread < UInt64.size,
      KeepsTo cellAt (ownsElement output elements) thread (kernel thread))
    (computes : ∀ index < elements,
      cellAt ((kernel index.toNat).finish memory) (output, index) = value index)
    (memory' : DeviceMemory H) :
    launchThreads blocks kernel memory memory' ↔
      memory' = mapElements output elements value memory := by
  have unique : ∀ cell thread other, ownsElement output elements cell thread →
      ownsElement output elements cell other → thread = other :=
    fun _ _ _ own own' => own.2.2.symm.trans own'.2.2
  -- the elements have one owner each, and every owner is launched
  have owners : ∀ cell thread, ownsElement output elements cell thread →
      thread < blocks.toNat * 256 := fun cell thread own => by
    have below := UInt64.lt_iff_toNat_lt.mp own.2.1
    rw [own.2.2] at below
    omega
  have positive : 0 < blocks.toNat * 256 := by
    have below := UInt64.lt_iff_toNat_lt.mp some_element
    exact (Nat.zero_le _).trans_lt (below.trans_le enough)
  -- the grid is narrow enough for the index of a thread to be exact
  have numbered : ∀ thread < blocks.toNat * 256, thread < UInt64.size := fun thread within => by
    have few : blocks.toNat ≤ 2 ^ 32 - 1 := UInt64.le_iff_toNat_le.mp narrow
    change thread < 2 ^ 64
    omega
  rw [launchThreads, interleaves_iff_alone cellAt_ext unique owners positive
    fun thread within => keepsTo thread (numbered thread within)]
  have foreign : ∀ (cell : UInt64 × UInt64), ∀ thread < blocks.toNat * 256,
      ¬ ownsElement output elements cell thread →
      cellAt ((kernel thread).finish memory) cell = cellAt memory cell :=
    fun cell thread within other =>
      (keepsTo thread (numbered thread within)).finish_foreign memory other
  -- what each thread leaves alone determines the memory, and the map is that memory
  constructor
  · intro agree
    refine cellAt_ext _ _ fun ⟨buffer, index⟩ => ?_
    by_cases inside : buffer = output ∧ index < elements
    · obtain ⟨rfl, below⟩ := inside
      have own : ownsElement buffer elements (buffer, index) index.toNat := ⟨rfl, below, rfl⟩
      rw [agree _ (owners _ _ own) (buffer, index) fun other foreign => unique _ _ _ foreign own,
        computes index below]
      simp [cellAt, mapElements, below]
    · have none : ∀ thread, ¬ ownsElement output elements (buffer, index) thread :=
        fun thread own => inside ⟨own.1, own.2.1⟩
      rw [agree 0 positive (buffer, index) fun other own => absurd own (none other),
        foreign _ 0 positive (none 0)]
      simp only [cellAt, mapElements]
      by_cases same : buffer = output
      · subst same
        rw [Function.update_self, if_neg fun below => inside ⟨rfl, below⟩]
      · rw [Function.update_of_ne same]
  · rintro rfl thread within ⟨buffer, index⟩ readable
    by_cases inside : buffer = output ∧ index < elements
    · obtain ⟨rfl, below⟩ := inside
      obtain rfl := readable index.toNat ⟨rfl, below, rfl⟩
      rw [computes index below]
      simp [cellAt, mapElements, below]
    · rw [foreign _ thread within fun own => inside ⟨own.1, own.2.1⟩]
      simp only [cellAt, mapElements]
      by_cases same : buffer = output
      · subst same
        rw [Function.update_self, if_neg fun below => inside ⟨rfl, below⟩]
      · rw [Function.update_of_ne same]

/-- A thread that writes its own element after some reads. -/
theorem keepsTo_store {output elements index : UInt64} {thread : Nat} (below : index < elements)
    (own : index.toNat = thread) (value : H) :
    KeepsTo cellAt (ownsElement output elements) thread
      (.write (storeAt output index value) .done) :=
  .write (⟨rfl, below, own⟩ : ownsElement output elements (output, index) thread)
    (fun memory => cellAt_storeAt output index value memory)
    (fun memory _ other => cellAt_storeAt_of_ne other value memory) trivial

/-- A thread may read its own element of any buffer, and anything outside the output. -/
theorem readable_element {output elements buffer index : UInt64} {thread : Nat}
    (place : buffer ≠ output ∨ index.toNat = thread) :
    Readable (ownsElement output elements) thread (buffer, index) := fun _ own =>
  place.elim (fun apart => absurd own.1 apart) fun same => own.2.2.symm.trans same

/-- A thread that combines its elements of two buffers, either of which may be the output. -/
theorem keepsTo_combine {left right output elements index : UInt64} {thread : Nat}
    (below : index < elements) (own : index.toNat = thread) (combine : H → H → H) :
    KeepsTo cellAt (ownsElement output elements) thread
      (.read (cellAt · (left, index)) fun leftValue =>
        .read (cellAt · (right, index)) fun rightValue =>
          .write (storeAt output index (combine leftValue rightValue)) .done) :=
  .read (fun _ _ agree => agree _ (readable_element (.inr own))) fun _ =>
    .read (fun _ _ agree => agree _ (readable_element (.inr own))) fun _ =>
      keepsTo_store below own _

theorem toNat_threadIndex {thread : Nat} (small : thread < UInt64.size) :
    (UInt64.ofNat thread).toNat = thread := UInt64.toNat_ofNat_of_lt' small

/-! ### The host functions -/

def addF16 (F : Type) [Stored F H] (left right output : BufferView) (elements : UInt64)
    (stream : StreamHandle) (launch : Status) : Result (Launch H) :=
  if elements = 0 ∨ stream.valid = false then .error (.failure .invalidArgument)
  else if uint64Max / 2 < elements then .error (.failure .arithmeticOverflow)
  else if left.sizeBytes ≠ elements * 2 ∨ right.sizeBytes ≠ elements * 2 ∨
      output.sizeBytes ≠ elements * 2 ∨ left.address = 0 ∨ right.address = 0 ∨
      output.address = 0 ∨ left.address = right.address then
    .error (.failure .invalidArgument)
  else if uint32Max < blocksFor elements then .error (.failure .resourceLimit)
  else if launch.isOk then
    .ok (launchThreads (blocksFor elements)
      (addKernel F left.address right.address output.address elements))
  else .error launch

def swigluF16 (F : Type) [DeviceFloat F] [Stored F H] (gate up output : BufferView)
    (elements : UInt64) (stream : StreamHandle) (launch : Status) : Result (Launch H) :=
  if elements = 0 ∨ stream.valid = false then .error (.failure .invalidArgument)
  else if uint64Max / 2 < elements then .error (.failure .arithmeticOverflow)
  else if gate.sizeBytes ≠ elements * 2 ∨ up.sizeBytes ≠ elements * 2 ∨
      output.sizeBytes ≠ elements * 2 ∨ gate.address = 0 ∨ up.address = 0 ∨
      output.address = 0 ∨ gate.address = up.address ∨ up.address = output.address then
    .error (.failure .invalidArgument)
  else if uint32Max < blocksFor elements then .error (.failure .resourceLimit)
  else if launch.isOk then
    .ok (launchThreads (blocksFor elements)
      (swigluKernel F gate.address up.address output.address elements))
  else .error launch

def embeddingLookupF16 (F : Type) [DeviceFloat F] [Stored F H]
    (embedding tokenIds output : BufferView) (tokenIdOf : UInt64 → UInt32)
    (tokens vocabularySize hiddenSize : UInt64) (stream : StreamHandle) (launch : Status) :
    Result (Launch H) :=
  if tokens = 0 ∨ vocabularySize = 0 ∨ hiddenSize = 0 ∨ stream.valid = false then
    .error (.failure .invalidArgument)
  else if uint64Max / hiddenSize < tokens ∨ uint64Max / hiddenSize < vocabularySize then
    .error (.failure .arithmeticOverflow)
  else if uint64Max / 2 < tokens * hiddenSize ∨ uint64Max / 2 < vocabularySize * hiddenSize ∨
      uint64Max / 4 < tokens then
    .error (.failure .arithmeticOverflow)
  else if embedding.sizeBytes ≠ vocabularySize * hiddenSize * 2 ∨
      tokenIds.sizeBytes ≠ tokens * 4 ∨ output.sizeBytes ≠ tokens * hiddenSize * 2 ∨
      embedding.address = 0 ∨ tokenIds.address = 0 ∨ output.address = 0 ∨
      embedding.address = output.address ∨ tokenIds.address = output.address ∨
      embedding.address = tokenIds.address then
    .error (.failure .invalidArgument)
  else if uint32Max < blocksFor (tokens * hiddenSize) then .error (.failure .resourceLimit)
  else if launch.isOk then
    .ok (launchThreads (blocksFor (tokens * hiddenSize))
      (embeddingKernel F embedding.address tokenIdOf output.address (tokens * hiddenSize)
        vocabularySize hiddenSize))
  else .error launch

/-! ### What accepted launches leave -/

/-- Whatever the order of the threads, and also where the output is an operand. -/
theorem addF16_launches [Stored F H] {left right output : BufferView} {elements : UInt64}
    {stream : StreamHandle} {status : Status} {launch : Launch H}
    (accepted : addF16 F left right output elements stream status = .ok launch)
    (memory memory' : DeviceMemory H) :
    launch memory memory' ↔ memory' = mapElements output.address elements (fun index =>
      Stored.hadd F (memory left.address index) (memory right.address index)) memory := by
  obtain ⟨given, accepted⟩ := guard_ok accepted
  obtain ⟨bounded, accepted⟩ := guard_ok accepted
  obtain ⟨_, accepted⟩ := guard_ok accepted
  obtain ⟨few, accepted⟩ := guard_ok accepted
  obtain rfl := launch_ok accepted
  refine map_launch (le_blocksFor (le_half bounded)) (UInt64.not_lt.mp few)
    (UInt64.pos_iff_ne_zero.mpr fun zero => given (.inl zero)) ?_ ?_ memory'
  · intro thread small
    unfold addKernel
    dsimp only
    split
    next below => exact keepsTo_combine below (toNat_threadIndex small) _
    next => trivial
  · intro index below
    unfold addKernel
    dsimp only
    rw [UInt64.ofNat_toNat, if_pos below]
    exact cellAt_storeAt ..

/-- Whatever the order of the threads, and also where the output is the gate. -/
theorem swigluF16_launches [DeviceFloat F] [Stored F H] {gate up output : BufferView}
    {elements : UInt64} {stream : StreamHandle} {status : Status} {launch : Launch H}
    (accepted : swigluF16 F gate up output elements stream status = .ok launch)
    (memory memory' : DeviceMemory H) :
    launch memory memory' ↔ memory' = mapElements output.address elements (fun index =>
      swigluValue (F := F) (memory gate.address index) (memory up.address index)) memory := by
  obtain ⟨given, accepted⟩ := guard_ok accepted
  obtain ⟨bounded, accepted⟩ := guard_ok accepted
  obtain ⟨_, accepted⟩ := guard_ok accepted
  obtain ⟨few, accepted⟩ := guard_ok accepted
  obtain rfl := launch_ok accepted
  refine map_launch (le_blocksFor (le_half bounded)) (UInt64.not_lt.mp few)
    (UInt64.pos_iff_ne_zero.mpr fun zero => given (.inl zero)) ?_ ?_ memory'
  · intro thread small
    unfold swigluKernel
    dsimp only
    split
    next => trivial
    next inside => exact keepsTo_combine (UInt64.not_le.mp inside) (toNat_threadIndex small) _
  · intro index below
    unfold swigluKernel
    dsimp only
    rw [UInt64.ofNat_toNat, if_neg (UInt64.not_le.mpr below)]
    exact cellAt_storeAt ..

/-- Three elements over the gate itself: each comes from what stood in its own place. -/
theorem swigluF16_launches_in_place :
    let memory : DeviceMemory ℝ := fun address index =>
      if address = 4096 then index.toNat + 1 else if address = 8192 then 2 else 0
    ∃ (launch : Launch ℝ) (memory' : DeviceMemory ℝ),
      swigluF16 ℝ ⟨4096, 6⟩ ⟨8192, 6⟩ ⟨4096, 6⟩ 3 ⟨1⟩ .success = .ok launch ∧
      (∀ after, launch memory after ↔ after = memory') ∧
      memory' 4096 0 = 1 / (1 + Real.exp (-1)) * 2 ∧
      memory' 4096 1 = 2 / (1 + Real.exp (-2)) * 2 ∧
      memory' 4096 2 = 3 / (1 + Real.exp (-3)) * 2 ∧
      memory' 4096 3 = 4 ∧ memory' 8192 = memory 8192 := by
  intro memory
  have accepted : ∃ launch : Launch ℝ,
      swigluF16 ℝ ⟨4096, 6⟩ ⟨8192, 6⟩ ⟨4096, 6⟩ 3 ⟨1⟩ .success = .ok launch := ⟨_, rfl⟩
  obtain ⟨launch, accepted⟩ := accepted
  refine ⟨launch, _, accepted, swigluF16_launches accepted memory, ?_, ?_, ?_, ?_, rfl⟩
  · simp [mapElements, swigluValue, memory]
  · simp [mapElements, swigluValue, memory]
    norm_num
  · simp [mapElements, swigluValue, memory]
    norm_num
  · simp [mapElements, memory]
    norm_num

/-- Every token has its row of the table, and one that the table does not know a row of zeros,
whatever the order of the threads. -/
theorem embeddingLookupF16_launches [DeviceFloat F] [Stored F H]
    {embedding tokenIds output : BufferView} {tokenIdOf : UInt64 → UInt32}
    {tokens vocabularySize hiddenSize : UInt64} {stream : StreamHandle} {status : Status}
    {launch : Launch H}
    (accepted : embeddingLookupF16 F embedding tokenIds output tokenIdOf tokens vocabularySize
      hiddenSize stream status = .ok launch)
    (memory memory' : DeviceMemory H) :
    launch memory memory' ↔
      memory' = mapElements output.address (tokens * hiddenSize) (fun index =>
        let tokenId := (tokenIdOf (index / hiddenSize)).toUInt64
        if tokenId < vocabularySize then
          memory embedding.address (tokenId * hiddenSize + index % hiddenSize)
        else Stored.store (DeviceFloat.zero : F)) memory := by
  obtain ⟨given, accepted⟩ := guard_ok accepted
  obtain ⟨products, accepted⟩ := guard_ok accepted
  obtain ⟨bounded, accepted⟩ := guard_ok accepted
  obtain ⟨places, accepted⟩ := guard_ok accepted
  obtain ⟨few, accepted⟩ := guard_ok accepted
  obtain rfl := launch_ok accepted
  simp only [not_or] at given products bounded places
  have apart : embedding.address ≠ output.address := places.2.2.2.2.2.2.1
  -- the product is that of the naturals, so it is zero only with a factor
  have some_element : tokens * hiddenSize ≠ 0 := by
    intro zero
    have value := congrArg UInt64.toNat zero
    rw [UInt64.toNat_mul, Nat.mod_eq_of_lt (le_of_not_quotient_lt products.1)] at value
    rcases Nat.mul_eq_zero.mp value with none | none
    · exact given.1 (UInt64.toNat_inj.mp none)
    · exact given.2.2.1 (UInt64.toNat_inj.mp none)
  refine map_launch (le_blocksFor (le_half bounded.1)) (UInt64.not_lt.mp few)
    (UInt64.pos_iff_ne_zero.mpr some_element) ?_ ?_ memory'
  · intro thread small
    have own := toNat_threadIndex small
    unfold embeddingKernel
    dsimp only
    split
    next => trivial
    next inside =>
      split
      next known =>
        exact .read (fun _ _ agree => agree _ (readable_element (.inl apart))) fun _ =>
          keepsTo_store (UInt64.not_le.mp inside) own _
      next => exact keepsTo_store (UInt64.not_le.mp inside) own _
  · intro index below
    unfold embeddingKernel
    dsimp only
    rw [UInt64.ofNat_toNat, if_neg (UInt64.not_le.mpr below)]
    split
    next => exact cellAt_storeAt ..
    next => exact cellAt_storeAt ..

/-- One token that the table knows and one that it does not. -/
theorem embeddingLookupF16_launches_unknown : ∃ launch : Launch Int,
    embeddingLookupF16 Int ⟨4096, 4⟩ ⟨8192, 8⟩ ⟨12288, 4⟩ (fun token => if token = 0 then 1 else 7)
      2 2 1 ⟨1⟩ .success = .ok launch ∧
    ∀ memory memory', launch memory memory' ↔
      memory' = mapElements 12288 2 (fun index =>
        let tokenId := (if index / 1 = 0 then 1 else 7 : UInt32).toUInt64
        if tokenId < 2 then memory 4096 (tokenId * 1 + index % 1) else 0) memory := by
  have accepted : ∃ launch : Launch Int,
      embeddingLookupF16 Int ⟨4096, 4⟩ ⟨8192, 8⟩ ⟨12288, 4⟩
        (fun token => if token = 0 then 1 else 7) 2 2 1 ⟨1⟩ .success = .ok launch := ⟨_, rfl⟩
  obtain ⟨launch, accepted⟩ := accepted
  exact ⟨launch, accepted, embeddingLookupF16_launches accepted⟩

end MarketForge.Cuda
