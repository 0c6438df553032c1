import MarketForge.Cuda.DeviceMemory
import MarketForge.Cuda.DeviceRow
import MarketForge.Library.Grid
import Mathlib.Tactic.FinCases
import Mathlib.Tactic.IntervalCases

/-!
# Appending to the caches

A thread of `append_kv_kernel` copies one element of the keys and one of the values to the place
of its position in the caches. While no two tokens of a sequence have one position, the threads
are apart, and an accepted launch stores every token whose position the cache has room for.
-/
namespace MarketForge.Cuda

open BarrierBlock Library

variable {H : Type}

structure AppendCall where
  key : UInt64
  value : UInt64
  positions : UInt64 → UInt32
  keyCache : UInt64
  valueCache : UInt64
  tokens : UInt64
  maximumContext : UInt64
  tokenWidth : UInt64
  sourceElements : UInt64

namespace AppendCall

variable (call : AppendCall)

/-! ### The kernel -/

def position (sourceIndex : UInt64) : UInt64 :=
  (call.positions (sourceIndex / call.tokenWidth)).toUInt64

def destinationIndex (sourceIndex : UInt64) : UInt64 :=
  let batchIndex := sourceIndex / call.tokenWidth / call.tokens
  let element := sourceIndex % call.tokenWidth
  (batchIndex * call.maximumContext + call.position sourceIndex) * call.tokenWidth + element

def appendKvKernel (thread : Nat) : Program (DeviceMemory H) :=
  let sourceIndex := UInt64.ofNat thread
  if call.sourceElements ≤ sourceIndex then .done
  else if call.maximumContext ≤ call.position sourceIndex then .done
  else
    .read (cellAt · (call.key, sourceIndex)) fun keyElement =>
      .write (storeAt call.keyCache (call.destinationIndex sourceIndex) keyElement) <|
        .read (cellAt · (call.value, sourceIndex)) fun valueElement =>
          .write (storeAt call.valueCache (call.destinationIndex sourceIndex) valueElement) .done

/-! ### Whose cells -/

/-- An element that is stored. -/
def Stores (sourceIndex : UInt64) : Prop :=
  sourceIndex < call.sourceElements ∧ call.position sourceIndex < call.maximumContext

def Owns (cell : UInt64 × UInt64) (thread : Nat) : Prop :=
  ∃ sourceIndex : UInt64, sourceIndex.toNat = thread ∧ call.Stores sourceIndex ∧
    (cell.1 = call.keyCache ∨ cell.1 = call.valueCache) ∧
    cell.2 = call.destinationIndex sourceIndex

/-- Four buffers, room for all elements without a wrap, and different positions for different
tokens of a sequence. -/
structure Fits (batch : Nat) : Prop where
  caches : call.keyCache ≠ call.valueCache
  keyApart : call.key ≠ call.keyCache ∧ call.key ≠ call.valueCache
  valueApart : call.value ≠ call.keyCache ∧ call.value ≠ call.valueCache
  sources : call.sourceElements.toNat = batch * call.tokens.toNat * call.tokenWidth.toNat
  room : batch * call.maximumContext.toNat * call.tokenWidth.toNat < 2 ^ 64
  distinct : ∀ token token' : UInt64, token.toNat < batch * call.tokens.toNat →
    token'.toNat < batch * call.tokens.toNat → token / call.tokens = token' / call.tokens →
    call.positions token = call.positions token' →
    (call.positions token).toUInt64 < call.maximumContext → token = token'

variable {call} {batch : Nat}

/-- The token of a stored element is one of the batch, and so is its sequence. -/
theorem Stores.token (fits : call.Fits batch) {sourceIndex : UInt64}
    (stores : call.Stores sourceIndex) :
    0 < call.tokenWidth.toNat ∧ 0 < call.tokens.toNat ∧
      (sourceIndex / call.tokenWidth).toNat < batch * call.tokens.toNat ∧
      (sourceIndex / call.tokenWidth / call.tokens).toNat < batch := by
  have below := UInt64.lt_iff_toNat_lt.mp stores.1
  rw [fits.sources] at below
  -- an element below the product of three sizes leaves none of them zero
  have width : 0 < call.tokenWidth.toNat := by
    rcases Nat.eq_zero_or_pos call.tokenWidth.toNat with zero | positive
    · rw [zero, Nat.mul_zero] at below
      exact absurd below (Nat.not_lt_zero _)
    · exact positive
  have tokens : 0 < call.tokens.toNat := by
    rcases Nat.eq_zero_or_pos call.tokens.toNat with zero | positive
    · rw [zero, Nat.mul_zero, Nat.zero_mul] at below
      exact absurd below (Nat.not_lt_zero _)
    · exact positive
  have token : (sourceIndex / call.tokenWidth).toNat < batch * call.tokens.toNat := by
    rw [UInt64.toNat_div, Nat.div_lt_iff_lt_mul width]
    exact below
  refine ⟨width, tokens, token, ?_⟩
  rw [UInt64.toNat_div, Nat.div_lt_iff_lt_mul tokens]
  exact token

/-- Where a stored element goes, computed without a wrap. -/
theorem destination_toNat (fits : call.Fits batch) {sourceIndex : UInt64}
    (stores : call.Stores sourceIndex) :
    (call.destinationIndex sourceIndex).toNat =
      ((sourceIndex / call.tokenWidth / call.tokens).toNat * call.maximumContext.toNat +
        (call.position sourceIndex).toNat) * call.tokenWidth.toNat +
      (sourceIndex % call.tokenWidth).toNat := by
  obtain ⟨width, _, _, sequence⟩ := stores.token fits
  have element : (sourceIndex % call.tokenWidth).toNat < call.tokenWidth.toNat := by
    rw [UInt64.toNat_mod]
    exact Nat.mod_lt _ width
  -- the element is inside its slot, and the slot inside the cache
  have slot := Grid.cell_lt sequence (UInt64.lt_iff_toNat_lt.mp stores.2)
  have place := Grid.cell_lt slot element
  have room := fits.room
  have wide : (sourceIndex / call.tokenWidth / call.tokens).toNat * call.maximumContext.toNat +
      (call.position sourceIndex).toNat ≤
      ((sourceIndex / call.tokenWidth / call.tokens).toNat * call.maximumContext.toNat +
        (call.position sourceIndex).toNat) * call.tokenWidth.toNat :=
    Nat.le_mul_of_pos_right _ width
  have row := toNat_mul_add (a := sourceIndex / call.tokenWidth / call.tokens)
    (b := call.maximumContext) (c := call.position sourceIndex) (by omega)
  rw [destinationIndex, toNat_mul_add (by rw [row]; omega), row]

/-- Different elements go to different places. -/
theorem destination_injective (fits : call.Fits batch) {sourceIndex other : UInt64}
    (stores : call.Stores sourceIndex) (stores' : call.Stores other)
    (same : call.destinationIndex sourceIndex = call.destinationIndex other) :
    sourceIndex = other := by
  have places := congrArg UInt64.toNat same
  rw [destination_toNat fits stores, destination_toNat fits stores'] at places
  obtain ⟨width, _, token, sequence⟩ := stores.token fits
  obtain ⟨_, _, token', sequence'⟩ := stores'.token fits
  have element : (sourceIndex % call.tokenWidth).toNat < call.tokenWidth.toNat := by
    rw [UInt64.toNat_mod]
    exact Nat.mod_lt _ width
  have element' : (other % call.tokenWidth).toNat < call.tokenWidth.toNat := by
    rw [UInt64.toNat_mod]
    exact Nat.mod_lt _ width
  have inside := UInt64.lt_iff_toNat_lt.mp stores.2
  have inside' := UInt64.lt_iff_toNat_lt.mp stores'.2
  -- the place gives the slot and the element, the slot the sequence and the position
  have slots := congrArg (· / call.tokenWidth.toNat) places
  have elements := congrArg (· % call.tokenWidth.toNat) places
  simp only [Grid.cell_div element, Grid.cell_div element', Grid.cell_mod element,
    Grid.cell_mod element'] at slots elements
  have sequences := congrArg (· / call.maximumContext.toNat) slots
  have positions := congrArg (· % call.maximumContext.toNat) slots
  simp only [Grid.cell_div inside, Grid.cell_div inside', Grid.cell_mod inside,
    Grid.cell_mod inside'] at sequences positions
  -- one sequence and one position make one token
  have tokens : sourceIndex / call.tokenWidth = other / call.tokenWidth := by
    refine fits.distinct _ _ token token' (UInt64.toNat_inj.mp sequences) ?_ stores.2
    exact UInt32.toNat_inj.mp positions
  refine UInt64.toNat_inj.mp ?_
  have quotients := congrArg UInt64.toNat tokens
  rw [UInt64.toNat_mod, UInt64.toNat_mod] at elements
  rw [UInt64.toNat_div, UInt64.toNat_div] at quotients
  rw [← Nat.div_add_mod sourceIndex.toNat call.tokenWidth.toNat, quotients, elements,
    Nat.div_add_mod]

theorem owns_unique (fits : call.Fits batch) (cell : UInt64 × UInt64) (thread other : Nat)
    (own : call.Owns cell thread) (own' : call.Owns cell other) : thread = other := by
  obtain ⟨sourceIndex, rfl, stores, _, place⟩ := own
  obtain ⟨sourceIndex', rfl, stores', _, place'⟩ := own'
  rw [destination_injective fits stores stores' (place.symm.trans place')]

/-! ### What the launch leaves -/

theorem appendKvKernel_keepsTo (fits : call.Fits batch) {thread : Nat}
    (small : thread < UInt64.size) :
    KeepsTo cellAt call.Owns thread (call.appendKvKernel (H := H) thread) := by
  unfold appendKvKernel
  dsimp only
  split
  next => trivial
  next inside =>
    split
    next => trivial
    next placed =>
      have stores : call.Stores (UInt64.ofNat thread) :=
        ⟨UInt64.not_le.mp inside, UInt64.not_le.mp placed⟩
      have own := UInt64.toNat_ofNat_of_lt' small
      -- nobody writes the buffers that are copied from
      refine .read (fun _ _ agree => agree _ fun other foreign => ?_) fun keyElement => ?_
      · obtain ⟨_, _, _, buffer, _⟩ := foreign
        exact absurd buffer (not_or.mpr fits.keyApart)
      refine .write (⟨_, own, stores, .inl rfl, rfl⟩ : call.Owns (call.keyCache, _) thread)
        (fun memory => cellAt_storeAt _ _ _ memory)
        (fun memory _ other => cellAt_storeAt_of_ne other _ memory) ?_
      refine .read (fun _ _ agree => agree _ fun other foreign => ?_) fun valueElement => ?_
      · obtain ⟨_, _, _, buffer, _⟩ := foreign
        exact absurd buffer (not_or.mpr fits.valueApart)
      exact .write (⟨_, own, stores, .inr rfl, rfl⟩ : call.Owns (call.valueCache, _) thread)
        (fun memory => cellAt_storeAt _ _ _ memory)
        (fun memory _ other => cellAt_storeAt_of_ne other _ memory) trivial

/-- What a launch leaves of one of the caches: the tokens that have room, and the rest as it
was. -/
structure Appended (call : AppendCall) (source before after : UInt64 → H) : Prop where
  stored : ∀ sourceIndex, call.Stores sourceIndex →
    after (call.destinationIndex sourceIndex) = source sourceIndex
  kept : ∀ index, (∀ sourceIndex, call.Stores sourceIndex →
    index ≠ call.destinationIndex sourceIndex) → after index = before index

/-- Whatever the order of the threads, a launch appends to both caches and touches nothing else. -/
theorem kv_appended (fits : call.Fits batch) {threads : Nat}
    (enough : call.sourceElements.toNat ≤ threads) (some_thread : 0 < threads)
    (small : threads ≤ UInt64.size) {memory memory' : DeviceMemory H}
    (ran : Interleaves threads call.appendKvKernel memory memory') :
    call.Appended (memory call.key) (memory call.keyCache) (memory' call.keyCache) ∧
      call.Appended (memory call.value) (memory call.valueCache) (memory' call.valueCache) ∧
      ∀ address, address ≠ call.keyCache → address ≠ call.valueCache →
        memory' address = memory address := by
  have keepsTo : ∀ thread < threads, KeepsTo cellAt call.Owns thread
      (call.appendKvKernel (H := H) thread) := fun thread within =>
    appendKvKernel_keepsTo fits (within.trans_le small)
  -- what no thread owns is as thread zero alone leaves it, which does not own it either
  have foreign : ∀ buffer index, (∀ thread, ¬ call.Owns (buffer, index) thread) →
      memory' buffer index = memory buffer index := by
    intro buffer index none
    have left : cellAt memory' (buffer, index) =
        cellAt ((call.appendKvKernel 0).finish memory) (buffer, index) :=
      interleaves_disjoint keepsTo ran some_thread fun other own => absurd own (none other)
    exact left.trans ((keepsTo 0 some_thread).finish_foreign memory (none 0))
  have alone : ∀ sourceIndex, call.Stores sourceIndex → ∀ buffer,
      buffer = call.keyCache ∨ buffer = call.valueCache →
      memory' buffer (call.destinationIndex sourceIndex) =
        cellAt ((call.appendKvKernel sourceIndex.toNat).finish memory)
          (buffer, call.destinationIndex sourceIndex) := by
    intro sourceIndex stores buffer cache
    have within : sourceIndex.toNat < threads :=
      (UInt64.lt_iff_toNat_lt.mp stores.1).trans_le enough
    have own : call.Owns (buffer, call.destinationIndex sourceIndex) sourceIndex.toNat :=
      ⟨sourceIndex, rfl, stores, cache, rfl⟩
    exact interleaves_disjoint keepsTo ran within fun other foreign =>
      owns_unique fits _ other _ foreign own
  -- a thread alone copies its two elements and nothing else
  have finished : ∀ sourceIndex, call.Stores sourceIndex →
      (call.appendKvKernel sourceIndex.toNat).finish memory =
        storeAt call.valueCache (call.destinationIndex sourceIndex)
          (cellAt (storeAt call.keyCache (call.destinationIndex sourceIndex)
            (memory call.key sourceIndex) memory) (call.value, sourceIndex))
          (storeAt call.keyCache (call.destinationIndex sourceIndex)
            (memory call.key sourceIndex) memory) := by
    intro sourceIndex stores
    unfold appendKvKernel
    dsimp only
    rw [UInt64.ofNat_toNat, if_neg (UInt64.not_le.mpr stores.1),
      if_neg (UInt64.not_le.mpr stores.2)]
    rfl
  refine ⟨⟨fun sourceIndex stores => ?_, fun index free => foreign _ _ ?_⟩,
    ⟨fun sourceIndex stores => ?_, fun index free => foreign _ _ ?_⟩,
    fun address notKey notValue => funext fun index => foreign _ _ ?_⟩
  · have other : (call.keyCache, call.destinationIndex sourceIndex) ≠
        (call.valueCache, call.destinationIndex sourceIndex) := fun same =>
      fits.caches (congrArg Prod.fst same)
    rw [alone sourceIndex stores _ (.inl rfl), finished sourceIndex stores,
      cellAt_storeAt_of_ne other, cellAt_storeAt]
  · rintro _ ⟨sourceIndex, _, stores, _, place⟩
    exact free sourceIndex stores place
  · have other : (call.value, sourceIndex) ≠
        (call.keyCache, call.destinationIndex sourceIndex) := fun same =>
      fits.valueApart.1 (congrArg Prod.fst same)
    rw [alone sourceIndex stores _ (.inr rfl), finished sourceIndex stores, cellAt_storeAt,
      cellAt_storeAt_of_ne other]
    rfl
  · rintro _ ⟨sourceIndex, _, stores, _, place⟩
    exact free sourceIndex stores place
  · rintro _ ⟨_, _, _, cache, _⟩
    exact cache.elim notKey notValue

end AppendCall

/-! ### The host function -/

def appendKvF16 (key value positions keyCache valueCache : BufferView)
    (positionOf : UInt64 → UInt32)
    (batch tokens maximumContext keyValueHeads headDim : UInt64) (stream : StreamHandle)
    (launch : Status) : Result (Launch H) :=
  if batch = 0 ∨ tokens = 0 ∨ maximumContext = 0 ∨ keyValueHeads = 0 ∨ headDim = 0 ∨
      stream.valid = false then
    .error (.failure .invalidArgument)
  else match checkedProduct [batch, tokens], checkedProduct [keyValueHeads, headDim],
      checkedProduct [batch, tokens, keyValueHeads, headDim],
      checkedProduct [batch, maximumContext, keyValueHeads, headDim] with
  | .ok packedTokens, .ok tokenWidth, .ok sourceElements, .ok cacheElements =>
    if uint64Max / 2 < sourceElements ∨ uint64Max / 2 < cacheElements ∨
        uint64Max / 4 < packedTokens then
      .error (.failure .arithmeticOverflow)
    else if key.sizeBytes ≠ sourceElements * 2 ∨ value.sizeBytes ≠ sourceElements * 2 ∨
        positions.sizeBytes ≠ packedTokens * 4 ∨ keyCache.sizeBytes ≠ cacheElements * 2 ∨
        valueCache.sizeBytes ≠ cacheElements * 2 ∨
        buffersAreDistinct [key.address, value.address, positions.address, keyCache.address,
          valueCache.address] = false then
      .error (.failure .invalidArgument)
    else if uint32Max < blocksFor sourceElements then .error (.failure .resourceLimit)
    else if launch.isOk then
      .ok (launchThreads (blocksFor sourceElements)
        (AppendCall.appendKvKernel ⟨key.address, value.address, positionOf, keyCache.address,
          valueCache.address, tokens, maximumContext, tokenWidth, sourceElements⟩))
    else .error launch
  | _, _, _, _ => .error (.failure .arithmeticOverflow)

section Accepted

variable {key value positions keyCache valueCache : BufferView} {positionOf : UInt64 → UInt32}
  {batch tokens maximumContext keyValueHeads headDim : UInt64} {stream : StreamHandle}
  {status : Status} {launch : Launch H}

/-- The host's comparison of addresses leaves no repetition. -/
theorem buffersAreDistinct_nodup {addresses : List UInt64}
    (distinct : buffersAreDistinct addresses ≠ false) : addresses.Nodup := by
  induction addresses with
  | nil => exact .nil
  | cons address rest ih =>
    simp only [buffersAreDistinct, ne_eq, Bool.and_eq_false_iff, not_or, Bool.not_eq_false,
      Bool.not_eq_true', List.contains_eq_mem, decide_eq_false_iff_not] at distinct
    exact List.nodup_cons.mpr ⟨distinct.1.2, ih (by rw [distinct.2]; decide)⟩

/-- An accepted call whose tokens have different positions in each sequence stores every token that
the caches have room for, whatever the order of the threads. -/
theorem appendKvF16_launches (accepted : appendKvF16 key value positions keyCache valueCache
      positionOf batch tokens maximumContext keyValueHeads headDim stream status = .ok launch)
    (distinct : ∀ token token' : UInt64, token.toNat < batch.toNat * tokens.toNat →
      token'.toNat < batch.toNat * tokens.toNat → token / tokens = token' / tokens →
      positionOf token = positionOf token' → token = token')
    {memory memory' : DeviceMemory H} (ran : launch memory memory') :
    let call : AppendCall := ⟨key.address, value.address, positionOf, keyCache.address,
      valueCache.address, tokens, maximumContext, keyValueHeads * headDim,
      batch * tokens * (keyValueHeads * headDim)⟩
    call.Appended (memory key.address) (memory keyCache.address) (memory' keyCache.address) ∧
      call.Appended (memory value.address) (memory valueCache.address)
        (memory' valueCache.address) ∧
      ∀ address, address ≠ keyCache.address → address ≠ valueCache.address →
        memory' address = memory address := by
  obtain ⟨_, accepted⟩ := guard_ok accepted
  split at accepted
  next packedTokens tokenWidth sourceElements cacheElements packed width sources caches =>
    obtain ⟨bytes, accepted⟩ := guard_ok accepted
    obtain ⟨places, accepted⟩ := guard_ok accepted
    obtain ⟨few, accepted⟩ := guard_ok accepted
    obtain rfl := launch_ok accepted
    have tokenElements := (checkedProduct_ok width).2
    obtain ⟨nonzero, elements⟩ := checkedProduct_ok sources
    have room := (checkedProduct_ok caches).2
    simp only [List.map_cons, List.map_nil, List.prod_cons, List.prod_nil, Nat.mul_one]
      at tokenElements elements room
    rw [← tokenElements] at elements room
    rw [← Nat.mul_assoc] at elements room
    -- the products of the host in machine words are those of the kernel's arguments
    have exactWidth : tokenWidth = keyValueHeads * headDim := UInt64.toNat_inj.mp (by
      rw [UInt64.toNat_mul, ← tokenElements, Nat.mod_eq_of_lt tokenWidth.toNat_lt])
    have exactSources : sourceElements = batch * tokens * (keyValueHeads * headDim) :=
      UInt64.toNat_inj.mp (by
        rw [← exactWidth, UInt64.toNat_mul, UInt64.toNat_mul, Nat.mod_mul_mod, ← elements,
          Nat.mod_eq_of_lt sourceElements.toNat_lt])
    rw [← exactSources, ← exactWidth]
    simp only [not_or] at bytes places
    have apart := buffersAreDistinct_nodup places.2.2.2.2.2
    simp only [List.nodup_cons, List.mem_cons, List.not_mem_nil, or_false, not_or] at apart
    obtain ⟨⟨_, _, keyKeys, keyValues⟩, ⟨_, valueKeys, valueValues⟩, _, between, _⟩ := apart
    have fits : AppendCall.Fits ⟨key.address, value.address, positionOf, keyCache.address,
        valueCache.address, tokens, maximumContext, tokenWidth, sourceElements⟩ batch.toNat :=
      ⟨between, ⟨keyKeys, keyValues⟩, ⟨valueKeys, valueValues⟩, elements,
        room ▸ cacheElements.toNat_lt, fun token token' inside inside' sequence position _ =>
          distinct token token' inside inside' sequence position⟩
    have enough := le_blocksFor (le_half bytes.1)
    have someElement : 0 < sourceElements.toNat := by
      have positive : ∀ factor ∈ [batch, tokens, keyValueHeads, headDim], 0 < factor.toNat :=
        fun factor listed => Nat.pos_of_ne_zero fun zero =>
          nonzero factor listed (UInt64.toNat_inj.mp zero)
      rw [elements, tokenElements]
      exact Nat.mul_pos (Nat.mul_pos (positive batch (by simp)) (positive tokens (by simp)))
        (Nat.mul_pos (positive keyValueHeads (by simp)) (positive headDim (by simp)))
    exact AppendCall.kv_appended fits enough (someElement.trans_le enough) (threads_small few) ran
  next => cases accepted

/-- Three tokens of one sequence in caches of three places: the first two change places, the third
has a position beyond the caches, and the last place stays as it was. -/
theorem appendKvF16_launches_three_tokens :
    let positionOf : UInt64 → UInt32 := fun token =>
      if token = 0 then 1 else if token = 1 then 0 else 7
    let memory : DeviceMemory Int := fun address index => Int.ofNat (address + index).toNat
    ∃ (launch : Launch Int) (memory' : DeviceMemory Int),
      appendKvF16 ⟨4096, 12⟩ ⟨8192, 12⟩ ⟨8704, 12⟩ ⟨12288, 12⟩ ⟨16384, 12⟩ positionOf 1 3 3 1 2 ⟨1⟩
        .success = .ok launch ∧ launch memory memory' ∧
      [0, 1, 2, 3, 4, 5].map (memory' 12288) = [4098, 4099, 4096, 4097, 12292, 12293] ∧
      [0, 1, 2, 3, 4, 5].map (memory' 16384) = [8194, 8195, 8192, 8193, 16388, 16389] ∧
      ∀ address, address ≠ 12288 → address ≠ 16384 → memory' address = memory address := by
  intro positionOf memory
  have accepted : ∃ kernel : Nat → Program (DeviceMemory Int),
      appendKvF16 ⟨4096, 12⟩ ⟨8192, 12⟩ ⟨8704, 12⟩ ⟨12288, 12⟩ ⟨16384, 12⟩ positionOf 1 3 3 1 2 ⟨1⟩
        .success = .ok (launchThreads 1 kernel) := ⟨_, rfl⟩
  obtain ⟨kernel, accepted⟩ := accepted
  obtain ⟨memory', ran⟩ := interleaves_exists 256 kernel memory
  have small : ∀ index : UInt64, index.toNat < 6 → index ∈ ([0, 1, 2, 3, 4, 5] : List UInt64) := by
    intro index below
    rw [← @UInt64.ofNat_toNat index]
    generalize index.toNat = value at below
    interval_cases value <;> decide
  have distinct : ∀ token token' : UInt64, token.toNat < 3 → token'.toNat < 3 →
      token / 3 = token' / 3 → positionOf token = positionOf token' → token = token' := by
    intro token token' below below' sequence same
    have listed := small token (by omega)
    have listed' := small token' (by omega)
    fin_cases listed <;> fin_cases listed' <;>
      first
      | rfl
      | exact absurd same (by decide)
      | exact absurd below (by decide)
      | exact absurd below' (by decide)
  obtain ⟨keys, values, others⟩ := appendKvF16_launches accepted distinct ran
  let call : AppendCall := ⟨4096, 8192, positionOf, 12288, 16384, 3, 3, 2, 6⟩
  -- the elements of the first two tokens have their places, and none goes to the last place
  have cells : ∀ {source before after : UInt64 → Int}, call.Appended source before after →
      [0, 1, 2, 3, 4, 5].map after =
        [source 2, source 3, source 0, source 1, before 4, before 5] := by
    intro source before after appended
    have left : ∀ place ∈ ([4, 5] : List UInt64), after place = before place := by
      intro place last
      apply appended.kept
      intro index stores same
      have listed := small index (UInt64.lt_iff_toNat_lt.mp stores.1)
      fin_cases listed <;> fin_cases last <;> exact absurd same (by decide)
    have placed : ∀ index place, call.Stores index → call.destinationIndex index = place →
        after place = source index := fun index place stores same =>
      same ▸ appended.stored index stores
    have first := placed 0 2 ⟨by decide, by decide⟩ (by decide)
    have second := placed 1 3 ⟨by decide, by decide⟩ (by decide)
    have third := placed 2 0 ⟨by decide, by decide⟩ (by decide)
    have fourth := placed 3 1 ⟨by decide, by decide⟩ (by decide)
    simp only [List.map_cons, List.map_nil, first, second, third, fourth, left 4 (by decide),
      left 5 (by decide)]
  exact ⟨_, memory', accepted, ran, cells keys, cells values, others⟩

end Accepted

end MarketForge.Cuda
