import MarketForge.Cpu.Network

/-!
# What the operators store

For each loop of the operators: the rows it stores as functions of the rows it reads, and that it
changes nothing else.
-/
namespace MarketForge.Cpu

open Library FloatOps

section

variable {F : Type} [FloatOps F]

/-! ## Loops that store one value per index -/

omit [FloatOps F] in
theorem copy_floats_spec (destination source count : Nat) (row : Nat → F) (memory : FlatMemory F)
    (apart : Apart source count destination count) (stored : Stores memory source count row) :
    Stores (copyFloats destination source count memory) destination count row ∧
      SameExcept (Within destination count) memory
        (copyFloats destination source count memory) := by
  obtain ⟨copied, others⟩ := fill_spec destination count
    (fun memory index => memory (source + index)) memory (fun index below current same =>
      same _ fun inside => by unfold Within at inside; unfold Apart at apart; omega)
  exact ⟨fun column inside => (copied column inside).trans (stored column inside), others⟩

theorem add_rows_spec (target addend count : Nat) (row added : Nat → F) (memory : FlatMemory F)
    (apart : Apart addend count target count) (stored : Stores memory target count row)
    (addendStored : Stores memory addend count added) :
    Stores (addRows target addend count memory) target count (addRow row added) ∧
      SameExcept (Within target count) memory (addRows target addend count memory) := by
  obtain ⟨summed, others⟩ := fill_spec target count
    (fun memory index => memory (target + index) + memory (addend + index)) memory
    (fun index below current same => by
      rw [same (target + index) (fun inside => by unfold Within at inside; omega),
        same (addend + index) (fun inside => by
          unfold Within at inside; unfold Apart at apart; omega)])
  refine ⟨fun column inside => ?_, others⟩
  rw [addRows, summed column inside, stored column inside, addendStored column inside]
  rfl

theorem gate_rows_spec (gate up count : Nat) (row other : Nat → F) (memory : FlatMemory F)
    (apart : Apart up count gate count) (stored : Stores memory gate count row)
    (upStored : Stores memory up count other) :
    Stores (gateRows gate up count memory) gate count (gateRow row other) ∧
      SameExcept (Within gate count) memory (gateRows gate up count memory) := by
  obtain ⟨gated, others⟩ := fill_spec gate count
    (fun memory index => silu (memory (gate + index)) * memory (up + index)) memory
    (fun index below current same => by
      rw [same (gate + index) (fun inside => by unfold Within at inside; omega),
        same (up + index) (fun inside => by unfold Within at inside; unfold Apart at apart; omega)])
  refine ⟨fun column inside => ?_, others⟩
  rw [gateRows, gated column inside, stored column inside, upStored column inside]
  rfl

/-! ## RMS norm and linear -/

/-- The output may be the input itself. -/
theorem rms_norm_rows_spec (input weight output rows hidden : Nat) (epsilon : F)
    (value : Nat → Nat → F) (scale : Nat → F) (memory : FlatMemory F)
    (place : input = output ∨ Apart input (rows * hidden) output (rows * hidden))
    (weightApart : Apart weight hidden output (rows * hidden))
    (stored : StoresRows memory input rows hidden value)
    (weightStored : Stores memory weight hidden scale) :
    StoresRows (rmsNormRows input weight output rows hidden epsilon memory) output rows hidden
        (fun row => rmsRow scale hidden epsilon (value row)) ∧
      SameExcept (Within output (rows * hidden)) memory
        (rmsNormRows input weight output rows hidden epsilon memory) := by
  apply rows_spec
  intro row below current same
  have earlierRows : ∀ address, Within output (row * hidden) address →
      Within output (rows * hidden) address := fun address =>
    within_mono output _ _ address (Nat.mul_le_mul_right hidden (by omega))
  have thisRow : ∀ address, Within (output + row * hidden) hidden address →
      Within output (rows * hidden) address := fun address =>
    within_row output rows hidden row address below
  -- the row is still to be overwritten, whether or not the output is the input
  have inputRow :
      ∀ column < hidden, current (input + row * hidden + column) = value row column := by
    intro column inside
    rw [same]
    · exact stored row below column inside
    · intro within
      rcases place with rfl | apart
      · unfold Within at within
        omega
      · exact Apart.outside _ _ _ _ _ apart
          (within_row input rows hidden row _ below ⟨by omega, by omega⟩) (earlierRows _ within)
  have weights : ∀ column < hidden, current (weight + column) = scale column := by
    intro column inside
    rw [same]
    · exact weightStored column inside
    · exact fun within =>
        Apart.outside _ _ _ _ _ weightApart ⟨by omega, by omega⟩ (earlierRows _ within)
  have sumSquares : forRange hidden (fun column (sum : F) =>
      sum +
        current (input + row * hidden + column) * current (input + row * hidden + column)) zero =
        forRange hidden (fun column sum => sum + value row column * value row column) zero :=
    for_range_congr hidden _ _ _ fun column inside sum => by rw [inputRow column inside]
  rw [sumSquares]
  obtain ⟨filled, others⟩ := fill_spec (output + row * hidden) hidden (fun memory column =>
    memory (input + row * hidden + column) * (one / sqrt (forRange hidden (fun column sum =>
      sum + value row column * value row column) zero / ofNat hidden + epsilon))
        * memory (weight + column)) current (by
    intro column inside other unchanged
    rw [unchanged (input + row * hidden + column), unchanged (weight + column)]
    · intro within
      exact Apart.outside _ _ _ _ _ weightApart ⟨by omega, by omega⟩
        (thisRow _ (within_mono _ _ _ _ (by omega) within))
    · intro within
      rcases place with rfl | apart
      · unfold Within at within
        omega
      · exact Apart.outside _ _ _ _ _ apart
          (within_row input rows hidden row _ below ⟨by omega, by omega⟩)
          (thisRow _ (within_mono _ _ _ _ (by omega) within)))
  refine ⟨fun column inside => ?_, others⟩
  rw [filled column inside, inputRow column inside, weights column inside]
  rfl

theorem linear_rows_spec (input weight output rows inputWidth outputWidth : Nat)
    (value : Nat → Nat → F) (matrix : Nat → F) (memory : FlatMemory F)
    (inputApart : Apart input (rows * inputWidth) output (rows * outputWidth))
    (weightApart : Apart weight (outputWidth * inputWidth) output (rows * outputWidth))
    (stored : StoresRows memory input rows inputWidth value)
    (weightStored : Stores memory weight (outputWidth * inputWidth) matrix) :
    StoresRows (linearRows input weight output rows inputWidth outputWidth memory) output rows
        outputWidth (fun row => linearRow matrix inputWidth (value row)) ∧
      SameExcept (Within output (rows * outputWidth)) memory
        (linearRows input weight output rows inputWidth outputWidth memory) := by
  apply rows_spec
  intro row below current same
  -- whatever differs from the initial memory lies in the output
  have dots : ∀ other, SameExcept (Within output (rows * outputWidth)) memory other →
      ∀ outputColumn < outputWidth, forRange inputWidth (fun inputColumn sum =>
        sum + other (input + row * inputWidth + inputColumn)
          * other (weight + outputColumn * inputWidth + inputColumn)) zero =
        linearRow matrix inputWidth (value row) outputColumn := by
    intro other unchanged outputColumn inside
    apply for_range_congr
    intro inputColumn within sum
    have last : outputColumn * inputWidth + inputWidth ≤ outputWidth * inputWidth :=
      Grid.row_end inputWidth inside
    rw [unchanged (input + row * inputWidth + inputColumn), stored row below inputColumn within,
      unchanged (weight + outputColumn * inputWidth + inputColumn), Nat.add_assoc weight,
      weightStored _ (by omega)]
    · exact Apart.outside _ _ _ _ _ weightApart ⟨by omega, by omega⟩
    · exact Apart.outside _ _ _ _ _ inputApart
        (within_row input rows inputWidth row _ below ⟨by omega, by omega⟩)
  have before : SameExcept (Within output (rows * outputWidth)) memory current :=
    SameExcept.mono _ _ _ _ (fun address =>
      within_mono output _ _ address (Nat.mul_le_mul_right outputWidth (by omega))) same
  obtain ⟨filled, others⟩ := fill_spec (output + row * outputWidth) outputWidth
    (fun memory outputColumn => forRange inputWidth (fun inputColumn sum =>
      sum + memory (input + row * inputWidth + inputColumn)
        * memory (weight + outputColumn * inputWidth + inputColumn)) zero) current (by
    intro outputColumn inside other unchanged
    rw [dots current before outputColumn inside]
    apply dots other _ outputColumn inside
    apply SameExcept.trans _ _ _ _ before
    exact SameExcept.mono _ _ _ _ (fun address within =>
      within_row output rows outputWidth row address below
        (within_mono _ _ _ _ (by omega) within)) unchanged)
  exact ⟨fun outputColumn inside => (filled outputColumn inside).trans
    (dots current before outputColumn inside), others⟩

/-! ## Rotary embedding -/

theorem rope_row_head (spec : RopeSpec F) (headDim position head : Nat) (row : Nat → F)
    (column : Nat) (inside : column < headDim) :
    ropeRow spec headDim position (fun dimension => row (head * headDim + dimension)) column =
      ropeRow spec headDim position row (head * headDim + column) := by
  have same : (head * headDim + column) % headDim = column := Grid.cell_mod inside
  unfold ropeRow
  dsimp only
  rw [same, Nat.mod_eq_of_lt inside]
  split
  next => rw [Nat.add_assoc]
  next upper => rw [Nat.add_sub_assoc (by omega)]

/-- One head, in place: each turn of the loop writes a pair of columns that no other turn reads. -/
theorem rotate_head_spec (spec : RopeSpec F) (headDim position base : Nat) (row : Nat → F)
    (memory : FlatMemory F) (even : headDim % 2 = 0) (stored : Stores memory base headDim row) :
    Stores (forRange (headDim / 2) (fun dimension memory =>
        let angle := ropeAngle spec headDim position dimension
        let first := memory (base + dimension)
        let second := memory (base + headDim / 2 + dimension)
        Function.update
          (Function.update memory (base + dimension) (first * cos angle - second * sin angle))
          (base + headDim / 2 + dimension) (second * cos angle + first * sin angle)) memory)
      base headDim (ropeRow spec headDim position row) ∧
    SameExcept (Within base headDim) memory (forRange (headDim / 2) (fun dimension memory =>
        let angle := ropeAngle spec headDim position dimension
        let first := memory (base + dimension)
        let second := memory (base + headDim / 2 + dimension)
        Function.update
          (Function.update memory (base + dimension) (first * cos angle - second * sin angle))
          (base + headDim / 2 + dimension) (second * cos angle + first * sin angle)) memory) := by
  -- a turn owns the pair of its dimension: the column and the one half a head behind it
  obtain ⟨rotated, others⟩ := turns_spec (headDim / 2) (fun dimension memory =>
      let angle := ropeAngle spec headDim position dimension
      let first := memory (base + dimension)
      let second := memory (base + headDim / 2 + dimension)
      Function.update
        (Function.update memory (base + dimension) (first * cos angle - second * sin angle))
        (base + headDim / 2 + dimension) (second * cos angle + first * sin angle))
    (fun dimension address =>
      address = base + dimension ∨ address = base + headDim / 2 + dimension)
    (fun dimension memory =>
      memory (base + dimension) = ropeRow spec headDim position row dimension ∧
        memory (base + headDim / 2 + dimension) =
          ropeRow spec headDim position row (headDim / 2 + dimension)) memory
    (fun later below earlier before address inside within => by omega)
    (fun dimension below before after same held =>
      ⟨(same _ (.inl rfl)).trans held.1, (same _ (.inr rfl)).trans held.2⟩)
    (by
      intro dimension below current same
      -- no earlier turn has written the pair, so it is still the row's
      have first : current (base + dimension) = row dimension := by
        rw [same _ (by rintro ⟨earlier, before, inside⟩; omega)]
        exact stored dimension (by omega)
      have second : current (base + headDim / 2 + dimension) = row (headDim / 2 + dimension) := by
        rw [same _ (by rintro ⟨earlier, before, inside⟩; omega), Nat.add_assoc]
        exact stored (headDim / 2 + dimension) (by omega)
      have lower : ropeRow spec headDim position row dimension =
          row dimension * cos (ropeAngle spec headDim position dimension)
            - row (headDim / 2 + dimension) * sin (ropeAngle spec headDim position dimension) := by
        unfold ropeRow
        rw [Nat.mod_eq_of_lt (by omega), if_pos below, Nat.add_comm dimension]
      have upper : ropeRow spec headDim position row (headDim / 2 + dimension) =
          row (headDim / 2 + dimension) * cos (ropeAngle spec headDim position dimension)
            + row dimension * sin (ropeAngle spec headDim position dimension) := by
        unfold ropeRow
        rw [Nat.mod_eq_of_lt (by omega), if_neg (by omega), Nat.add_sub_cancel_left]
      refine ⟨⟨?_, ?_⟩, ?_⟩
      · rw [Function.update_of_ne (by omega), Function.update_self, first, second, lower]
      · rw [Function.update_self, first, second, upper]
      · intro address outside
        rw [Function.update_of_ne fun here => outside (.inr here),
          Function.update_of_ne fun here => outside (.inl here)])
  refine ⟨?_, ?_⟩
  · intro column inside
    -- a column of the upper half is the second of the pair of the column half a head before
    by_cases lower : column < headDim / 2
    · exact (rotated column lower).1
    · have value := (rotated (column - headDim / 2) (by omega)).2
      rw [Nat.add_assoc, Nat.add_sub_cancel' (by omega)] at value
      exact value
  · apply SameExcept.mono _ _ _ _ _ others
    rintro address ⟨dimension, below, inside⟩
    unfold Within
    omega

theorem rotate_spec (spec : RopeSpec F) (data heads headDim row position : Nat) (value : Nat → F)
    (memory : FlatMemory F) (even : headDim % 2 = 0)
    (stored : Stores memory (data + row * (heads * headDim)) (heads * headDim) value) :
    Stores (rotate spec data heads headDim row position memory) (data + row * (heads * headDim))
        (heads * headDim) (ropeRow spec headDim position value) ∧
      SameExcept (Within (data + row * (heads * headDim)) (heads * headDim)) memory
        (rotate spec data heads headDim row position memory) := by
  have offset : ∀ head, data + (row * heads + head) * headDim =
      data + row * (heads * headDim) + head * headDim := fun head => by
    rw [Nat.add_mul, Nat.mul_assoc, Nat.add_assoc]
  have byHead := (stores_rows_iff memory _ heads headDim value).mpr stored
  unfold rotate
  simp only [offset]
  obtain ⟨rotated, others⟩ := rows_spec (data + row * (heads * headDim)) heads headDim _
    (fun head column => ropeRow spec headDim position value (head * headDim + column)) memory
    (fun head below current same => by
      obtain ⟨turned, rest⟩ := rotate_head_spec spec headDim position
        (data + row * (heads * headDim) + head * headDim)
        (fun column => value (head * headDim + column)) current even (by
          apply Stores.frame memory current _ _ _ _ same _ (byHead head below)
          exact fun address inside within => Apart.outside _ _ _ _ _
            (.inr (by omega)) inside within)
      exact ⟨fun column inside => (turned column inside).trans
        (rope_row_head spec headDim position head value column inside), rest⟩)
  exact ⟨(stores_rows_iff _ _ heads headDim _).mp rotated, others⟩

theorem rope_rows_spec (spec : RopeSpec F)
    (query key batch tokens queryHeads keyHeads headDim : Nat) (positions : List UInt32)
    (queries keys : Nat → Nat → F) (memory : FlatMemory F) (even : headDim % 2 = 0)
    (apart : Apart query (batch * tokens * (queryHeads * headDim))
      key (batch * tokens * (keyHeads * headDim)))
    (queriesStored : StoresRows memory query (batch * tokens) (queryHeads * headDim) queries)
    (keysStored : StoresRows memory key (batch * tokens) (keyHeads * headDim) keys) :
    (StoresRows (ropeRows spec query key batch tokens queryHeads keyHeads headDim positions memory)
        query (batch * tokens) (queryHeads * headDim)
        (fun row => ropeRow spec headDim (positions.getD row 0).toNat (queries row)) ∧
      StoresRows (ropeRows spec query key batch tokens queryHeads keyHeads headDim positions memory)
        key (batch * tokens) (keyHeads * headDim)
        (fun row => ropeRow spec headDim (positions.getD row 0).toNat (keys row))) ∧
      SameExcept (fun address => Within query (batch * tokens * (queryHeads * headDim)) address ∨
          Within key (batch * tokens * (keyHeads * headDim)) address) memory
        (ropeRows spec query key batch tokens queryHeads keyHeads headDim positions memory) := by
  unfold ropeRows
  have flat := for_range_nested batch tokens (fun row memory =>
    rotate spec key keyHeads headDim row (positions.getD row 0).toNat
      (rotate spec query queryHeads headDim row (positions.getD row 0).toNat memory)) memory
  dsimp only at flat ⊢
  rw [flat]
  apply paired_rows_spec _ _ _ _ _ _ _ _ _ apart
  intro row below current same
  have last : ∀ width, row * width + width ≤ batch * tokens * width := fun width =>
    Grid.row_end width below
  have queryLast := last (queryHeads * headDim)
  have keyLast := last (keyHeads * headDim)
  unfold Apart at apart
  -- neither the rows before nor the query of this row are the key of this row
  have queryRow : Stores current (query + row * (queryHeads * headDim)) (queryHeads * headDim)
      (queries row) :=
    Stores.frame _ _ _ _ _ _ same (fun address inside => by
      unfold Within at inside ⊢
      omega) (queriesStored row below)
  obtain ⟨queryRotated, queryOthers⟩ := rotate_spec spec query queryHeads headDim row
    (positions.getD row 0).toNat (queries row) current even queryRow
  have keyRow : Stores current (key + row * (keyHeads * headDim)) (keyHeads * headDim) (keys row) :=
    Stores.frame _ _ _ _ _ _ same (fun address inside => by
      unfold Within at inside ⊢
      omega) (keysStored row below)
  obtain ⟨keyRotated, keyOthers⟩ := rotate_spec spec key keyHeads headDim row
    (positions.getD row 0).toNat (keys row) _ even
    (Stores.frame _ _ _ _ _ _ queryOthers (fun address inside => by
      unfold Within at inside ⊢
      omega) keyRow)
  refine ⟨⟨?_, keyRotated⟩, ?_⟩
  · apply Stores.frame _ _ _ _ _ _ keyOthers _ queryRotated
    intro address inside
    unfold Within at inside ⊢
    omega
  · exact SameExcept.trans _ _ _ _
      (SameExcept.mono _ _ _ _ (fun _ => .inl) queryOthers)
      (SameExcept.mono _ _ _ _ (fun _ => .inr) keyOthers)

/-! ## Cache append -/

omit [FloatOps F] in
/-- The rows of consecutive positions become rows of the caches. -/
theorem append_rows_spec (key value keyCache valueCache tokens maximumContext width context : Nat)
    (positions : List UInt32) (keys values : Nat → Nat → F) (memory : FlatMemory F)
    (follow : ∀ token < tokens, (positions.getD token 0).toNat = context + token)
    (keyOffKeys : Apart key (tokens * width) (keyCache + context * width) (tokens * width))
    (keyOffValues : Apart key (tokens * width) (valueCache + context * width) (tokens * width))
    (valueOffKeys : Apart value (tokens * width) (keyCache + context * width) (tokens * width))
    (valueOffValues : Apart value (tokens * width) (valueCache + context * width) (tokens * width))
    (cachesApart : Apart (keyCache + context * width) (tokens * width)
      (valueCache + context * width) (tokens * width))
    (keysStored : StoresRows memory key tokens width keys)
    (valuesStored : StoresRows memory value tokens width values) :
    (StoresRows (appendRows key value keyCache valueCache 1 tokens maximumContext width positions
          memory) (keyCache + context * width) tokens width keys ∧
      StoresRows (appendRows key value keyCache valueCache 1 tokens maximumContext width positions
          memory) (valueCache + context * width) tokens width values) ∧
      SameExcept (fun address => Within (keyCache + context * width) (tokens * width) address ∨
          Within (valueCache + context * width) (tokens * width) address) memory
        (appendRows key value keyCache valueCache 1 tokens
          maximumContext width positions memory) := by
  -- consecutive positions fill consecutive rows of the caches
  have placed : appendRows key value keyCache valueCache 1 tokens maximumContext width positions
      memory = forRange tokens (fun token memory =>
        copyFloats (valueCache + context * width + token * width) (value + token * width) width
          (copyFloats (keyCache + context * width + token * width) (key + token * width) width
            memory)) memory := by
    rw [appendRows, for_range_one]
    apply for_range_congr
    intro token below current
    dsimp only
    rw [Nat.zero_mul, Nat.zero_mul, Nat.zero_add, Nat.zero_add, follow token below, Nat.add_mul,
      Nat.add_assoc, Nat.add_assoc]
  rw [placed]
  apply paired_rows_spec _ _ _ _ _ _ _ _ _ cachesApart
  intro token below current same
  have last : token * width + width ≤ tokens * width := Grid.row_end width below
  unfold Apart at keyOffKeys keyOffValues valueOffKeys valueOffValues cachesApart
  -- the rows copied before are in the caches, and the caches are apart from the new rows
  have keyRow : Stores current (key + token * width) width (keys token) :=
    Stores.frame _ _ _ _ _ _ same (fun address inside => by
      unfold Within at inside ⊢
      omega) (keysStored token below)
  have valueRow : Stores current (value + token * width) width (values token) :=
    Stores.frame _ _ _ _ _ _ same (fun address inside => by
      unfold Within at inside ⊢
      omega) (valuesStored token below)
  obtain ⟨keyCopied, keyOthers⟩ := copy_floats_spec (keyCache + context * width + token * width)
    (key + token * width) width (keys token) current (by unfold Apart; omega) keyRow
  obtain ⟨valueCopied, valueOthers⟩ := copy_floats_spec
    (valueCache + context * width + token * width) (value + token * width) width (values token) _
    (by unfold Apart; omega) (Stores.frame _ _ _ _ _ _ keyOthers (fun address inside => by
      unfold Within at inside ⊢
      omega) valueRow)
  refine ⟨⟨?_, valueCopied⟩, ?_⟩
  · apply Stores.frame _ _ _ _ _ _ valueOthers _ keyCopied
    intro address inside
    unfold Within at inside ⊢
    omega
  · exact SameExcept.trans _ _ _ _
      (SameExcept.mono _ _ _ _ (fun _ => .inl) keyOthers)
      (SameExcept.mono _ _ _ _ (fun _ => .inr) valueOthers)

/-! ## Attention -/

/-- After the first scores: they are in the scratch and nothing else changed. -/
theorem score_keys_spec (scale : F) (query logits : Nat) (key : Nat → Nat) (headDim validKeys : Nat)
    (queryVector : Nat → F) (keys : Nat → Nat → F) (memory : FlatMemory F)
    (queryApart : Apart query headDim logits validKeys)
    (keysApart : ∀ keyToken < validKeys, Apart (key keyToken) headDim logits validKeys)
    (queryStored : Stores memory query headDim queryVector)
    (keysStored : ∀ keyToken < validKeys, Stores memory (key keyToken) headDim (keys keyToken)) :
    Stores (scoreKeys scale query logits key headDim validKeys memory).1 logits validKeys
        (fun keyToken => attentionScore scale headDim queryVector (keys keyToken)) ∧
      (scoreKeys scale query logits key headDim validKeys memory).2 =
        forRange validKeys (fun keyToken maximum => FloatOps.max maximum
          (attentionScore scale headDim queryVector (keys keyToken))) negInfinity ∧
      SameExcept (Within logits validKeys) memory
        (scoreKeys scale query logits key headDim validKeys memory).1 := by
  apply for_range_invariant validKeys _ (memory, (negInfinity : F)) (fun done state =>
    Stores state.1 logits done
        (fun keyToken => attentionScore scale headDim queryVector (keys keyToken)) ∧
      state.2 = forRange done (fun keyToken maximum => FloatOps.max maximum
        (attentionScore scale headDim queryVector (keys keyToken))) negInfinity ∧
      SameExcept (Within logits done) memory state.1)
  · exact ⟨fun _ below => absurd below (Nat.not_lt_zero _), rfl, SameExcept.refl _ memory⟩
  · rintro done below ⟨current, best⟩ ⟨scored, maximal, same⟩
    -- the scores so far lie in the scratch, which is apart from the query and the keys
    have inScratch : ∀ address, Within logits done address → Within logits validKeys address :=
      fun address => within_mono logits done validKeys address (by omega)
    have queryRow : Stores current query headDim queryVector :=
      Stores.frame _ _ _ _ _ _ same (fun address inside within =>
        Apart.outside _ _ _ _ _ queryApart inside (inScratch address within)) queryStored
    have keyRow : Stores current (key done) headDim (keys done) :=
      Stores.frame _ _ _ _ _ _ same (fun address inside within =>
        Apart.outside _ _ _ _ _ (keysApart done below) inside (inScratch address within))
        (keysStored done below)
    have score : forRange headDim (fun dimension dot =>
        dot + current (query + dimension) * current (key done + dimension)) zero * scale =
          attentionScore scale headDim queryVector (keys done) := by
      unfold attentionScore
      congr 1
      exact for_range_congr headDim _ _ _ fun dimension inside dot => by
        rw [queryRow dimension inside, keyRow dimension inside]
    dsimp only at score scored maximal same ⊢
    rw [score, Function.update_self]
    refine ⟨?_, ?_, ?_⟩
    · intro keyToken earlier
      -- the turn stores one score and keeps those before it
      by_cases last : keyToken = done
      · rw [last, Function.update_self]
      · rw [Function.update_of_ne (by omega)]
        exact scored keyToken (by omega)
    · rw [maximal]
      rfl
    · intro address outside
      unfold Within at outside
      rw [Function.update_of_ne (by omega)]
      exact same address fun within => by unfold Within at within; omega

theorem exponentiate_spec (logits validKeys : Nat) (maximum : F) (score : Nat → F)
    (memory : FlatMemory F) (stored : Stores memory logits validKeys score) :
    Stores (exponentiate logits validKeys maximum memory).1 logits validKeys
        (fun keyToken => exp (score keyToken - maximum)) ∧
      (exponentiate logits validKeys maximum memory).2 =
        forRange validKeys (fun keyToken sum => sum + exp (score keyToken - maximum)) zero ∧
      SameExcept (Within logits validKeys) memory
        (exponentiate logits validKeys maximum memory).1 := by
  apply for_range_invariant validKeys _ (memory, (zero : F)) (fun done state =>
    Stores state.1 logits done (fun keyToken => exp (score keyToken - maximum)) ∧
      state.2 = forRange done (fun keyToken sum => sum + exp (score keyToken - maximum)) zero ∧
      SameExcept (Within logits done) memory state.1)
  · exact ⟨fun _ below => absurd below (Nat.not_lt_zero _), rfl, SameExcept.refl _ memory⟩
  · rintro done below ⟨current, sum⟩ ⟨raised, summed, same⟩
    dsimp only at raised summed same ⊢
    have here : current (logits + done) = score done := by
      rw [same _ fun within => by unfold Within at within; omega]
      exact stored done below
    rw [here, Function.update_self]
    refine ⟨?_, ?_, ?_⟩
    · intro keyToken earlier
      by_cases last : keyToken = done
      · rw [last, Function.update_self]
      · rw [Function.update_of_ne (by omega)]
        exact raised keyToken (by omega)
    · rw [summed]
      rfl
    · intro address outside
      unfold Within at outside
      rw [Function.update_of_ne (by omega)]
      exact same address fun within => by unfold Within at within; omega

/-- The last two loops of a head: the weights of the valid keys, and the sum of the values with
these weights. -/
theorem weigh_values_spec (logits output : Nat) (value : Nat → Nat) (headDim validKeys : Nat)
    (exponential : Nat → F) (inverseDenominator : F)
    (values : Nat → Nat → F) (memory : FlatMemory F)
    (scratchApart : Apart logits validKeys output headDim)
    (valuesOffScratch : ∀ keyToken < validKeys, Apart (value keyToken) headDim logits validKeys)
    (valuesOffOutput : ∀ keyToken < validKeys, Apart (value keyToken) headDim output headDim)
    (stored : Stores memory logits validKeys exponential)
    (valuesStored : ∀ keyToken < validKeys,
      Stores memory (value keyToken) headDim (values keyToken)) :
    let weighted := fill output headDim (fun memory dimension =>
      forRange validKeys (fun keyToken weightedValue =>
        weightedValue + memory (logits + keyToken) * memory (value keyToken + dimension)) zero)
      (fill logits validKeys (fun memory keyToken =>
        memory (logits + keyToken) * inverseDenominator) memory)
    Stores weighted output headDim (fun dimension =>
        forRange validKeys (fun keyToken weightedValue => weightedValue +
          exponential keyToken * inverseDenominator * values keyToken dimension) zero) ∧
      SameExcept (fun address => Within logits validKeys address ∨ Within output headDim address)
        memory weighted := by
  obtain ⟨normalized, scratchOthers⟩ := fill_spec logits validKeys
    (fun memory keyToken => memory (logits + keyToken) * inverseDenominator) memory
    (fun keyToken below current same => by
      rw [same _ fun within => by unfold Within at within; omega])
  generalize fill logits validKeys _ memory = scratch at normalized scratchOthers ⊢
  -- the sums read the weights and the values, and neither is in the output
  have sums : ∀ current, SameExcept (Within output headDim) scratch current →
      ∀ dimension < headDim, forRange validKeys (fun keyToken weightedValue =>
        weightedValue + current (logits + keyToken) * current (value keyToken + dimension)) zero =
          forRange validKeys (fun keyToken weightedValue => weightedValue +
            exponential keyToken * inverseDenominator * values keyToken dimension) zero := by
    intro current same dimension inside
    apply for_range_congr
    intro keyToken below weightedValue
    have weight : current (logits + keyToken) = exponential keyToken * inverseDenominator := by
      rw [same _ (Apart.outside _ _ _ _ _ scratchApart ⟨by omega, by omega⟩),
        normalized keyToken below, stored keyToken below]
    have summand : current (value keyToken + dimension) = values keyToken dimension := by
      rw [same _ (Apart.outside _ _ _ _ _ (valuesOffOutput keyToken below) ⟨by omega, by omega⟩),
        scratchOthers _ (Apart.outside _ _ _ _ _ (valuesOffScratch keyToken below)
          ⟨by omega, by omega⟩)]
      exact valuesStored keyToken below dimension inside
    rw [weight, summand]
  obtain ⟨weighted, outputOthers⟩ := fill_spec output headDim
    (fun memory dimension => forRange validKeys (fun keyToken weightedValue =>
      weightedValue +
        memory (logits + keyToken) * memory (value keyToken + dimension)) zero) scratch
    (fun dimension inside current same => by
      rw [sums current (SameExcept.mono _ _ _ _ (fun address =>
          within_mono output _ _ address (by omega)) same) dimension inside,
        sums scratch (SameExcept.refl _ _) dimension inside])
  refine ⟨fun dimension inside => ?_, ?_⟩
  · exact (weighted dimension inside).trans (sums scratch (SameExcept.refl _ _) dimension inside)
  · exact SameExcept.trans _ _ _ _
      (SameExcept.mono _ _ _ _ (fun _ => .inl) scratchOthers)
      (SameExcept.mono _ _ _ _ (fun _ => .inr) outputOthers)

theorem attention_head_spec (scale : F) (query logits output : Nat) (key value : Nat → Nat)
    (headDim validKeys : Nat) (queryVector : Nat → F) (keys values : Nat → Nat → F)
    (memory : FlatMemory F) (scratchApart : Apart logits validKeys output headDim)
    (queryApart : Apart query headDim logits validKeys)
    (keysApart : ∀ keyToken < validKeys, Apart (key keyToken) headDim logits validKeys)
    (valuesOffScratch : ∀ keyToken < validKeys, Apart (value keyToken) headDim logits validKeys)
    (valuesOffOutput : ∀ keyToken < validKeys, Apart (value keyToken) headDim output headDim)
    (queryStored : Stores memory query headDim queryVector)
    (keysStored : ∀ keyToken < validKeys, Stores memory (key keyToken) headDim (keys keyToken))
    (valuesStored : ∀ keyToken < validKeys,
      Stores memory (value keyToken) headDim (values keyToken)) :
    Stores (attentionHead scale query logits output key value headDim validKeys memory)
      output headDim
        (attentionVector scale headDim validKeys queryVector keys values) ∧
      SameExcept (fun address => Within logits validKeys address ∨ Within output headDim address)
        memory (attentionHead scale query logits output key value headDim validKeys memory) := by
  obtain ⟨scored, maximum, scoredOthers⟩ := score_keys_spec scale query logits key headDim validKeys
    queryVector keys memory queryApart keysApart queryStored keysStored
  obtain ⟨raised, denominator, raisedOthers⟩ := exponentiate_spec logits validKeys
    (scoreKeys scale query logits key headDim validKeys memory).2 _ _ scored
  have scratch := SameExcept.trans _ _ _ _ scoredOthers raisedOthers
  obtain ⟨weighted, others⟩ := weigh_values_spec logits output value headDim validKeys _
    (one / (exponentiate logits validKeys
      (scoreKeys scale query logits key headDim validKeys memory).2
      (scoreKeys scale query logits key headDim validKeys memory).1).2) values _ scratchApart
    valuesOffScratch valuesOffOutput raised (fun keyToken below =>
      Stores.frame _ _ _ _ _ _ scratch (fun address inside =>
        Apart.outside _ _ _ _ address (valuesOffScratch keyToken below) inside)
        (valuesStored keyToken below))
  refine ⟨?_, SameExcept.trans _ _ _ _ (SameExcept.mono _ _ _ _ (fun _ => .inl) scratch) others⟩
  intro dimension inside
  refine (weighted dimension inside).trans ?_
  rw [denominator, maximum]
  rfl

/-- The keys and values of a query head are those of its group. -/
theorem group_below (queryHeads kvHeads head : Nat) (groups : queryHeads % kvHeads = 0)
    (inside : head < queryHeads) : head / (queryHeads / kvHeads) < kvHeads := by
  have whole : queryHeads / kvHeads * kvHeads = queryHeads :=
    Nat.div_mul_cancel (Nat.dvd_of_mod_eq_zero groups)
  exact Nat.div_lt_of_lt_mul (whole.symm ▸ inside)

/-- The columns of one head of one row lie in the matrix. -/
theorem head_last (rows heads headDim row head : Nat) (below : row < rows) (inside : head < heads) :
    (row * heads + head) * headDim + headDim ≤ rows * (heads * headDim) := by
  rw [← Nat.mul_assoc]
  exact Grid.row_end headDim (Grid.cell_lt below inside)

omit [FloatOps F] in
/-- The part of a row that belongs to one head. -/
theorem head_stored (memory : FlatMemory F) (base rows heads headDim row head : Nat)
    (value : Nat → Nat → F) (below : row < rows) (inside : head < heads)
    (stored : StoresRows memory base rows (heads * headDim) value) :
    Stores memory (base + (row * heads + head) * headDim) headDim
      (fun dimension => value row (head * headDim + dimension)) := by
  have last : head * headDim + headDim ≤ heads * headDim := Grid.row_end headDim inside
  have offset : base + (row * heads + head) * headDim =
      base + row * (heads * headDim) + head * headDim := by
    rw [Nat.add_mul, Nat.mul_assoc, Nat.add_assoc]
  rw [offset]
  exact Stores.slice _ _ _ _ _ _ last (stored row below)

/-- The ranges that the loops touch: they write the scratch and the output, and read the queries
and the caches. -/
structure AttentionApart (query keyCache valueCache output scratch cells headDim maximumContext
    cacheSize : Nat) : Prop where
  scratchOutput : Apart scratch (cells * maximumContext) output (cells * headDim)
  queryScratch : Apart query (cells * headDim) scratch (cells * maximumContext)
  queryOutput : Apart query (cells * headDim) output (cells * headDim)
  keysScratch : Apart keyCache cacheSize scratch (cells * maximumContext)
  keysOutput : Apart keyCache cacheSize output (cells * headDim)
  valuesScratch : Apart valueCache cacheSize scratch (cells * maximumContext)
  valuesOutput : Apart valueCache cacheSize output (cells * headDim)

/-- One cell, in a memory where the cells before it wrote their own ranges. -/
theorem attention_turn_spec (query keyCache valueCache output scratch cells headDim maximumContext
    cacheSize cell validKeys : Nat) (offset : Nat → Nat) (queryRow : Nat → F)
    (keys values : Nat → Nat → F) (memory current : FlatMemory F)
    (fits : validKeys ≤ maximumContext)
    (apart : AttentionApart query keyCache valueCache output scratch cells headDim maximumContext
      cacheSize)
    (below : cell < cells)
    (inCache : ∀ keyToken < validKeys, offset keyToken + headDim ≤ cacheSize)
    (same : SameExcept (fun address => Within scratch (cell * maximumContext) address ∨
      Within output (cell * headDim) address) memory current)
    (queryStored : Stores memory (query + cell * headDim) headDim queryRow)
    (keysStored : ∀ keyToken < validKeys,
      Stores memory (keyCache + offset keyToken) headDim (keys keyToken))
    (valuesStored : ∀ keyToken < validKeys,
      Stores memory (valueCache + offset keyToken) headDim (values keyToken)) :
    let after := attentionHead (attentionScale headDim) (query + cell * headDim)
      (scratch + cell * maximumContext) (output + cell * headDim)
      (fun keyToken => keyCache + offset keyToken) (fun keyToken => valueCache + offset keyToken)
      headDim validKeys current
    Stores after (output + cell * headDim) headDim
        (attentionVector (attentionScale headDim) headDim validKeys queryRow keys values) ∧
      SameExcept (fun address => Within (scratch + cell * maximumContext) maximumContext address ∨
        Within (output + cell * headDim) headDim address) current after := by
  have lastWidth : cell * headDim + headDim ≤ cells * headDim := Grid.row_end headDim below
  have lastScratch : cell * maximumContext + maximumContext ≤ cells * maximumContext :=
    Grid.row_end maximumContext below
  intro after
  obtain ⟨scratchOutput, queryScratch, queryOutput, keysScratch, keysOutput, valuesScratch,
    valuesOutput⟩ := apart
  unfold Apart at scratchOutput queryScratch queryOutput
  unfold Apart at keysScratch keysOutput valuesScratch valuesOutput
  -- what the cells before wrote is neither the query of this one nor a cache
  have queryKept : Stores current (query + cell * headDim) headDim queryRow :=
    Stores.frame _ _ _ _ _ _ same (fun address inside => by
      unfold Within at inside ⊢
      omega) queryStored
  have keysKept : ∀ keyToken < validKeys,
      Stores current (keyCache + offset keyToken) headDim (keys keyToken) := by
    intro keyToken valid
    have last := inCache keyToken valid
    exact Stores.frame _ _ _ _ _ _ same (fun address inside => by
      unfold Within at inside ⊢
      omega) (keysStored keyToken valid)
  have valuesKept : ∀ keyToken < validKeys,
      Stores current (valueCache + offset keyToken) headDim (values keyToken) := by
    intro keyToken valid
    have last := inCache keyToken valid
    exact Stores.frame _ _ _ _ _ _ same (fun address inside => by
      unfold Within at inside ⊢
      omega) (valuesStored keyToken valid)
  obtain ⟨attended, others⟩ := attention_head_spec (attentionScale headDim) (query + cell * headDim)
    (scratch + cell * maximumContext) (output + cell * headDim)
    (fun keyToken => keyCache + offset keyToken) (fun keyToken => valueCache + offset keyToken)
    headDim validKeys _ _ _ current
    (by unfold Apart; omega) (by unfold Apart; omega)
    (fun keyToken valid => by
      have last := inCache keyToken valid
      unfold Apart
      omega)
    (fun keyToken valid => by
      have last := inCache keyToken valid
      unfold Apart
      omega)
    (fun keyToken valid => by
      have last := inCache keyToken valid
      unfold Apart
      omega) queryKept keysKept valuesKept
  refine ⟨attended, SameExcept.mono _ _ _ _ ?_ others⟩
  rintro address (inScratch | inOutput)
  · exact .inl (within_mono _ _ _ _ fits inScratch)
  · exact .inr inOutput

/-- The loops over the tokens and the heads of one sequence are one loop. -/
theorem attention_rows_cells (query keyCache valueCache output scratch tokens queryHeads kvHeads
    headDim maximumContext context : Nat) (contextLengths : List UInt32) (memory : FlatMemory F)
    (length : (contextLengths.getD 0 0).toNat = context + tokens) :
    attentionRows query keyCache valueCache output scratch 1 tokens queryHeads kvHeads headDim
        maximumContext contextLengths memory =
      forRange (tokens * queryHeads) (fun cell =>
        attentionHead (attentionScale headDim) (query + cell * headDim)
          (scratch + cell * maximumContext) (output + cell * headDim)
          (fun keyToken => keyCache +
            (keyToken * kvHeads + cell % queryHeads / (queryHeads / kvHeads)) * headDim)
          (fun keyToken => valueCache +
            (keyToken * kvHeads + cell % queryHeads / (queryHeads / kvHeads)) * headDim)
          headDim (context + cell / queryHeads + 1)) memory := by
  unfold attentionRows
  dsimp only
  rw [for_range_one, length, Nat.add_sub_cancel, for_range_pairs]
  apply for_range_congr
  intro cell below current
  simp only [Nat.zero_mul, Nat.zero_add, Nat.div_add_mod']

/-- The ranges that attention over one sequence touches: it writes the scratch and the output, and
reads the queries and the rows of the caches. -/
structure AttentionSeparate (query keyCache valueCache output scratch tokens context queryHeads
    kvHeads headDim maximumContext : Nat) : Prop where
  scratchOutput : Apart scratch (tokens * queryHeads * maximumContext)
    output (tokens * queryHeads * headDim)
  queryScratch : Apart query (tokens * (queryHeads * headDim))
    scratch (tokens * queryHeads * maximumContext)
  queryOutput : Apart query (tokens * (queryHeads * headDim)) output (tokens * queryHeads * headDim)
  keysScratch : Apart keyCache ((context + tokens) * (kvHeads * headDim))
    scratch (tokens * queryHeads * maximumContext)
  keysOutput : Apart keyCache ((context + tokens) * (kvHeads * headDim))
    output (tokens * queryHeads * headDim)
  valuesScratch : Apart valueCache ((context + tokens) * (kvHeads * headDim))
    scratch (tokens * queryHeads * maximumContext)
  valuesOutput : Apart valueCache ((context + tokens) * (kvHeads * headDim))
    output (tokens * queryHeads * headDim)

omit [FloatOps F] in
theorem AttentionSeparate.apart {query keyCache valueCache output scratch tokens context queryHeads
    kvHeads headDim maximumContext : Nat}
    (separate : AttentionSeparate query keyCache valueCache output scratch tokens context queryHeads
      kvHeads headDim maximumContext) :
    AttentionApart query keyCache valueCache output scratch (tokens * queryHeads) headDim
      maximumContext ((context + tokens) * (kvHeads * headDim)) where
  scratchOutput := separate.scratchOutput
  queryScratch := Nat.mul_assoc tokens queryHeads headDim ▸ separate.queryScratch
  queryOutput := (Nat.mul_assoc tokens queryHeads headDim).symm ▸ separate.queryOutput
  keysScratch := separate.keysScratch
  keysOutput := separate.keysOutput
  valuesScratch := separate.valuesScratch
  valuesOutput := separate.valuesOutput

/-- One head of one token, in a memory where the turns before it wrote their own ranges. -/
theorem attention_cell_spec (query keyCache valueCache output scratch tokens context queryHeads
    kvHeads headDim maximumContext cell : Nat) (queries keys values : Nat → Nat → F)
    (memory current : FlatMemory F) (fits : context + tokens ≤ maximumContext)
    (groups : queryHeads % kvHeads = 0)
    (separate : AttentionSeparate query keyCache valueCache output scratch tokens context queryHeads
      kvHeads headDim maximumContext)
    (below : cell < tokens * queryHeads)
    (same : SameExcept (fun address => Within scratch (cell * maximumContext) address ∨
      Within output (cell * headDim) address) memory current)
    (queriesStored : StoresRows memory query tokens (queryHeads * headDim) queries)
    (keysStored : StoresRows memory keyCache (context + tokens) (kvHeads * headDim) keys)
    (valuesStored : StoresRows memory valueCache (context + tokens) (kvHeads * headDim) values) :
    let kvHead := cell % queryHeads / (queryHeads / kvHeads)
    let after := attentionHead (attentionScale headDim) (query + cell * headDim)
      (scratch + cell * maximumContext) (output + cell * headDim)
      (fun keyToken => keyCache + (keyToken * kvHeads + kvHead) * headDim)
      (fun keyToken => valueCache + (keyToken * kvHeads + kvHead) * headDim)
      headDim (context + cell / queryHeads + 1) current
    Stores after (output + cell * headDim) headDim
        (attentionVector (attentionScale headDim) headDim (context + cell / queryHeads + 1)
          (fun dimension => queries (cell / queryHeads) (cell % queryHeads * headDim + dimension))
          (fun keyToken dimension => keys keyToken (kvHead * headDim + dimension))
          (fun keyToken dimension => values keyToken (kvHead * headDim + dimension))) ∧
      SameExcept (fun address => Within (scratch + cell * maximumContext) maximumContext address ∨
        Within (output + cell * headDim) headDim address) current after := by
  have someHeads : 0 < queryHeads := Nat.pos_of_ne_zero fun none => by simp [none] at below
  have token : cell / queryHeads < tokens := Nat.div_lt_of_lt_mul (Nat.mul_comm _ _ ▸ below)
  have head : cell % queryHeads < queryHeads := Nat.mod_lt _ someHeads
  have kvHeadBelow := group_below queryHeads kvHeads _ groups head
  have split : cell / queryHeads * queryHeads + cell % queryHeads = cell := Nat.div_add_mod' _ _
  have queryRow := head_stored memory query tokens queryHeads headDim _ _ queries token head
    queriesStored
  rw [split] at queryRow
  exact attention_turn_spec query keyCache valueCache output scratch (tokens * queryHeads) headDim
    maximumContext ((context + tokens) * (kvHeads * headDim)) cell
    (context + cell / queryHeads + 1) (fun keyToken => (keyToken * kvHeads +
      cell % queryHeads / (queryHeads / kvHeads)) * headDim) _ _ _ memory current (by omega)
    separate.apart below
    (fun keyToken valid => head_last _ kvHeads headDim keyToken _ (by omega) kvHeadBelow) same
    queryRow
    (fun keyToken valid => head_stored memory keyCache (context + tokens) kvHeads headDim keyToken
      _ keys (by omega) kvHeadBelow keysStored)
    (fun keyToken valid => head_stored memory valueCache (context + tokens) kvHeads headDim keyToken
      _ values (by omega) kvHeadBelow valuesStored)

/-- The rows of one sequence: each attends to the rows of the caches up to its own position. -/
theorem attention_rows_spec (query keyCache valueCache output scratch tokens context queryHeads
    kvHeads headDim maximumContext : Nat) (contextLengths : List UInt32)
    (queries keys values : Nat → Nat → F) (memory : FlatMemory F)
    (length : (contextLengths.getD 0 0).toNat = context + tokens)
    (fits : context + tokens ≤ maximumContext) (groups : queryHeads % kvHeads = 0)
    (separate : AttentionSeparate query keyCache valueCache output scratch tokens context queryHeads
      kvHeads headDim maximumContext)
    (queriesStored : StoresRows memory query tokens (queryHeads * headDim) queries)
    (keysStored : StoresRows memory keyCache (context + tokens) (kvHeads * headDim) keys)
    (valuesStored : StoresRows memory valueCache (context + tokens) (kvHeads * headDim) values) :
    StoresRows (attentionRows query keyCache valueCache output scratch 1 tokens queryHeads kvHeads
        headDim maximumContext contextLengths memory) output tokens (queryHeads * headDim)
        (fun row => attentionRow queryHeads kvHeads headDim (context + row + 1) (queries row) keys
          values) ∧
      SameExcept (fun address => Within scratch (tokens * queryHeads * maximumContext) address ∨
          Within output (tokens * queryHeads * headDim) address) memory
        (attentionRows query keyCache valueCache output scratch 1 tokens queryHeads kvHeads headDim
          maximumContext contextLengths memory) := by
  rw [attention_rows_cells query keyCache valueCache output
    scratch tokens queryHeads kvHeads headDim
    maximumContext context contextLengths memory length]
  obtain ⟨attended, others⟩ := paired_turns_spec scratch maximumContext output headDim
    (tokens * queryHeads) _ (fun cell memory => Stores memory (output + cell * headDim) headDim
      (attentionVector (attentionScale headDim) headDim (context + cell / queryHeads + 1)
        (fun dimension => queries (cell / queryHeads) (cell % queryHeads * headDim + dimension))
        (fun keyToken dimension => keys keyToken
          (cell % queryHeads / (queryHeads / kvHeads) * headDim + dimension))
        (fun keyToken dimension => values keyToken
          (cell % queryHeads / (queryHeads / kvHeads) * headDim + dimension)))) memory
    separate.scratchOutput
    (fun cell _ before after same => Stores.stable before after _ _ _
      fun address inside => same address (.inr inside))
    (fun cell below current same => attention_cell_spec query keyCache valueCache output scratch
      tokens context queryHeads kvHeads headDim maximumContext cell queries keys values memory
      current fits groups separate below same queriesStored keysStored valuesStored)
  refine ⟨fun token below column inside => ?_, others⟩
  -- the column belongs to a head, which is a cell of its own
  have positive : 0 < headDim := Nat.pos_of_ne_zero fun none => by simp [none] at inside
  have head : column / headDim < queryHeads :=
    Nat.div_lt_of_lt_mul (Nat.mul_comm queryHeads headDim ▸ inside)
  have cellBelow : token * queryHeads + column / headDim < tokens * queryHeads :=
    Grid.cell_lt below head
  have stored := attended _ cellBelow (column % headDim) (Nat.mod_lt _ positive)
  have cellToken : (token * queryHeads + column / headDim) / queryHeads = token :=
    Grid.cell_div head
  have cellHead : (token * queryHeads + column / headDim) % queryHeads = column / headDim :=
    Grid.cell_mod head
  have place : output + (token * queryHeads + column / headDim) * headDim + column % headDim =
      output + token * (queryHeads * headDim) + column := by
    rw [Nat.add_mul, Nat.mul_assoc, Nat.add_assoc, Nat.add_assoc, Nat.div_add_mod', Nat.add_assoc]
  rw [place, cellToken, cellHead] at stored
  exact stored

end

end MarketForge.Cpu
