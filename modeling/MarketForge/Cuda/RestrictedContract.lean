import MarketForge.Cuda.RestrictedBlock

/-!
# The contract of the restricted kernels

A row is invalid when its count is out of range or a candidate is outside the vocabulary. On a
valid row a kernel selects the lowest of the candidates with the greatest number, or the lowest
candidate when no score is a number (`Selects`). The order of the candidates and repetitions among
them play no part. This holds for every interleaving of the threads of a block.
-/
namespace MarketForge.Cuda

open BinaryFloat BarrierBlock

section Row

variable {K : Type} [LinearOrder K] (score : UInt32 → Score K) (allowed : Nat → UInt32)
  (allowedCount : UInt32) (vocabularySize maximumAllowedTokens : UInt64) (token : UInt32)

/-- The lowest of the candidates whose score is greatest, or of all when no score is a number. -/
structure Selects : Prop where
  candidate : ∃ i < allowedCount.toNat, allowed i = token
  greatest : ∀ i < allowedCount.toNat, ∀ value, score (allowed i) = .number value →
    ∃ best, score token = .number best ∧ value ≤ best
  lowest : ∀ best, score token = .number best → ∀ i < allowedCount.toNat,
    score (allowed i) = .number best → token ≤ allowed i
  allNan : (∀ i < allowedCount.toNat, score (allowed i) = .nan) →
    ∀ i < allowedCount.toNat, token ≤ allowed i

/-- The count of the row is out of range, or one of its candidates outside the vocabulary. -/
def InvalidRow : Prop :=
  allowedCount = 0 ∨ maximumAllowedTokens < allowedCount.toUInt64 ∨
    ∃ i < allowedCount.toNat, vocabularySize ≤ (allowed i).toUInt64

/-- What a row asks of the token that is output for it. -/
structure RowContract : Prop where
  invalid : token = restrictedGreedyInvalidTokenId ↔
    InvalidRow allowed allowedCount vocabularySize maximumAllowedTokens
  selects : token ≠ restrictedGreedyInvalidTokenId → Selects score allowed allowedCount token

variable {score allowed allowedCount vocabularySize maximumAllowedTokens token}

/-- A candidate that none comes after in the order of the candidates is selected. -/
theorem selects_of_greatest {i : Nat} (early : i < allowedCount.toNat)
    (above : ∀ j < allowedCount.toNat,
      candidateKey score (allowed j) ≤ candidateKey score (allowed i)) :
    Selects score allowed allowedCount (allowed i) := by
  simp only [candidateKey_le_iff] at above
  refine ⟨⟨i, early, rfl⟩, ?_, ?_, ?_⟩
  · intro j earlyJ value offer
    have order := above j earlyJ
    rw [offer] at order
    cases best : score (allowed i) with
    | nan =>
      rw [best] at order
      rcases order with less | ⟨same, _⟩
      · exact absurd less not_lt_bot
      · exact absurd same WithBot.coe_ne_bot
    | number number =>
      rw [best] at order
      refine ⟨number, rfl, ?_⟩
      rcases order with less | ⟨same, _⟩
      · exact (WithBot.coe_lt_coe.mp less).le
      · exact (WithBot.coe_inj.mp same).le
  · intro best held j earlyJ offer
    rcases above j earlyJ with less | ⟨_, order⟩
    · rw [offer, held] at less
      exact absurd less (lt_irrefl _)
    · exact UInt32.le_iff_toNat_le.mpr order
  · intro nothing j earlyJ
    rcases above j earlyJ with less | ⟨_, order⟩
    · rw [nothing j earlyJ, nothing i early] at less
      exact absurd less (lt_irrefl _)
    · exact UInt32.le_iff_toNat_le.mpr order

/-- A token in a vocabulary of at most `2 ^ 32 - 1` tokens is not the mark of an invalid row. -/
theorem inside_ne_invalid (narrow : vocabularySize ≤ uint32Max)
    (inside : token.toUInt64 < vocabularySize) : token ≠ restrictedGreedyInvalidTokenId := by
  rintro rfl
  exact absurd (UInt64.lt_of_lt_of_le inside narrow) (by decide)

/-- The flag of a scan: some candidate of the thread is outside the vocabulary. -/
theorem exchanged_iff (indices : List Nat) (lane : RestrictedLane K) :
    (indices.foldl (RestrictedLane.turn score allowed vocabularySize) lane).exchanged = true ↔
      lane.exchanged = true ∨ ∃ i ∈ indices, vocabularySize ≤ (allowed i).toUInt64 := by
  induction indices generalizing lane with
  | nil => simp
  | cons index rest ih =>
    rw [List.foldl_cons, ih, List.exists_mem_cons_iff, RestrictedLane.turn]
    split
    next outside => simp [outside]
    next inside => simp [inside]

variable [OrderBot K]

theorem exchanges_iff : Exchanges score allowed allowedCount vocabularySize ↔
    ∃ i < allowedCount.toNat, vocabularySize ≤ (allowed i).toUInt64 := by
  have lanes : 0 < threadsPerBlock := Nat.two_pow_pos 8
  simp only [Exchanges, scanned, exchanged_iff]
  constructor
  · rintro ⟨thread, within, started | ⟨i, listed, outside⟩⟩
    · cases started
    · exact ⟨i, ((BlockReduction.mem_strided within).mp listed).1, outside⟩
  · rintro ⟨i, early, outside⟩
    have within := Nat.mod_lt i lanes
    exact ⟨i % threadsPerBlock, within,
      .inr ⟨i, (BlockReduction.mem_strided within).mpr ⟨early, rfl⟩, outside⟩⟩

theorem invalidRow_iff (score : UInt32 → Score K) :
    InvalidRow allowed allowedCount vocabularySize maximumAllowedTokens ↔
      BadCount allowedCount maximumAllowedTokens ∨
        Exchanges score allowed allowedCount vocabularySize := by
  rw [InvalidRow, BadCount, exchanges_iff, or_assoc]

/-- A valid row has candidates, and one of them is output that none comes after. -/
theorem valid_row_selects (score : UInt32 → Score K) (narrow : vocabularySize ≤ uint32Max)
    (valid : ¬ InvalidRow allowed allowedCount vocabularySize maximumAllowedTokens) :
    ∃ i < allowedCount.toNat, (allowed i).toUInt64 < vocabularySize ∧
      restrictedRow score allowed allowedCount vocabularySize maximumAllowedTokens = allowed i ∧
      ∀ j < allowedCount.toNat,
        candidateKey score (allowed j) ≤ candidateKey score (allowed i) := by
  simp only [InvalidRow, not_or, not_exists, not_and, UInt64.not_lt, UInt64.not_le] at valid
  obtain ⟨nonempty, fits, inVocabulary⟩ := valid
  obtain ⟨i, early, selected, above⟩ :=
    restricted_row_selects score nonempty fits narrow inVocabulary
  exact ⟨i, early, inVocabulary i early, selected, above⟩

theorem restricted_row_contract (narrow : vocabularySize ≤ uint32Max) :
    RowContract score allowed allowedCount vocabularySize maximumAllowedTokens
      (restrictedRow score allowed allowedCount vocabularySize maximumAllowedTokens) := by
  by_cases invalid : InvalidRow allowed allowedCount vocabularySize maximumAllowedTokens
  · rw [restricted_row_invalid ((invalidRow_iff score).mp invalid)]
    exact ⟨iff_of_true rfl invalid, fun proper => absurd rfl proper⟩
  · obtain ⟨i, early, inside, selected, above⟩ := valid_row_selects score narrow invalid
    rw [selected]
    exact ⟨iff_of_false (inside_ne_invalid narrow inside) invalid,
      fun _ => selects_of_greatest early above⟩

/-- Only the set of the candidates matters, as long as both counts are in range. -/
theorem restricted_row_same_candidates {allowed' : Nat → UInt32} {allowedCount' : UInt32}
    (narrow : vocabularySize ≤ uint32Max)
    (counts : ¬ BadCount allowedCount maximumAllowedTokens ∧
      ¬ BadCount allowedCount' maximumAllowedTokens)
    (same : ∀ token, (∃ i < allowedCount.toNat, allowed i = token) ↔
      ∃ i < allowedCount'.toNat, allowed' i = token) :
    restrictedRow score allowed allowedCount vocabularySize maximumAllowedTokens =
      restrictedRow score allowed' allowedCount' vocabularySize maximumAllowedTokens := by
  have outside : (∃ i < allowedCount.toNat, vocabularySize ≤ (allowed i).toUInt64) ↔
      ∃ i < allowedCount'.toNat, vocabularySize ≤ (allowed' i).toUInt64 := by
    constructor
    · rintro ⟨i, early, beyond⟩
      obtain ⟨j, earlyJ, equal⟩ := (same _).mp ⟨i, early, rfl⟩
      exact ⟨j, earlyJ, equal ▸ beyond⟩
    · rintro ⟨i, early, beyond⟩
      obtain ⟨j, earlyJ, equal⟩ := (same _).mpr ⟨i, early, rfl⟩
      exact ⟨j, earlyJ, equal ▸ beyond⟩
  have invalid : InvalidRow allowed allowedCount vocabularySize maximumAllowedTokens ↔
      InvalidRow allowed' allowedCount' vocabularySize maximumAllowedTokens := by
    rw [invalidRow_iff score, invalidRow_iff score, exchanges_iff, exchanges_iff, outside]
    simp only [counts.1, counts.2, false_or]
  by_cases broken : InvalidRow allowed allowedCount vocabularySize maximumAllowedTokens
  · rw [restricted_row_invalid ((invalidRow_iff score).mp broken),
      restricted_row_invalid ((invalidRow_iff score).mp (invalid.mp broken))]
  · obtain ⟨i, early, _, selected, above⟩ := valid_row_selects score narrow broken
    obtain ⟨j, earlyJ, _, selected', above'⟩ :=
      valid_row_selects score narrow fun other => broken (invalid.mpr other)
    rw [selected, selected']
    -- Each of the two is a candidate of the other row, so neither comes after the other.
    obtain ⟨k, earlyK, there⟩ := (same _).mp ⟨i, early, rfl⟩
    obtain ⟨l, earlyL, back⟩ := (same _).mpr ⟨j, earlyJ, rfl⟩
    have below := above' k earlyK
    have beyond := above l earlyL
    rw [there] at below
    rw [back] at beyond
    have tied := congrArg (fun key => (ofLex key).2) (le_antisymm below beyond)
    exact UInt32.toNat_inj.mp (OrderDual.toDual_inj.mp tied)

end Row

/-! ### The kernels -/

/-- What the header promises of a kernel that selects among a table of candidates: its blocks
always end, they output what the row asks for, and only the set of the candidates matters. -/
structure KernelContract
    (phases : (allowed allowedCounts : UInt64 → UInt32) → List (Nat → Program (Shared Extended)))
    (score : UInt32 → Score Extended) (vocabularySize maximumAllowedTokens row : UInt64) :
    Prop where
  ends : ∀ allowed allowedCounts memory, ∃ memory',
    Runs threadsPerBlock (phases allowed allowedCounts) memory memory'
  outputs : ∀ allowed allowedCounts memory memory',
    Runs threadsPerBlock (phases allowed allowedCounts) memory memory' →
      RowContract score (allowedAt allowed maximumAllowedTokens row) (allowedCounts row)
        vocabularySize maximumAllowedTokens memory'.tokenId
  sameCandidates : ∀ allowed allowedCounts allowed' allowedCounts' memory memory' other other',
    Runs threadsPerBlock (phases allowed allowedCounts) memory memory' →
    Runs threadsPerBlock (phases allowed' allowedCounts') other other' →
    ¬ BadCount (allowedCounts row) maximumAllowedTokens →
    ¬ BadCount (allowedCounts' row) maximumAllowedTokens →
    (∀ token, Candidate allowed allowedCounts maximumAllowedTokens row token ↔
      Candidate allowed' allowedCounts' maximumAllowedTokens row token) →
    memory'.tokenId = other'.tokenId

theorem block_contract (score : UInt32 → Score Extended)
    {vocabularySize : UInt64} (narrow : vocabularySize ≤ uint32Max)
    (maximumAllowedTokens row : UInt64) :
    KernelContract (fun allowed allowedCounts => restrictedBlockPhases score
      (allowedAt allowed maximumAllowedTokens row) (allowedCounts row) vocabularySize
      maximumAllowedTokens) score vocabularySize maximumAllowedTokens row where
  ends _ _ memory := runs_exists _ _ memory
  outputs allowed allowedCounts memory memory' ran := by
    rw [block_outputs ran]
    exact restricted_row_contract narrow
  sameCandidates allowed allowedCounts allowed' allowedCounts' memory memory' other other'
      ran ran' fits fits' same := by
    rw [block_outputs ran, block_outputs ran']
    exact restricted_row_same_candidates narrow ⟨fits, fits'⟩ same

/-- Both restricted kernels meet the contract for every vocabulary of at most `2 ^ 32 - 1`
tokens, which the host functions check: one over the stored logits, one over the FP32 scores. -/
theorem restricted_selection_contract (logits hidden embedding : UInt64 → Half)
    (hiddenSize vocabularySize maximumAllowedTokens row : UInt64)
    (narrow : vocabularySize ≤ uint32Max) :
    KernelContract (fun allowed allowedCounts => restrictedGreedyPhases logits allowed
        allowedCounts vocabularySize maximumAllowedTokens row)
      (fun token => (half2float (logits (row * vocabularySize + token.toUInt64))).score)
      vocabularySize maximumAllowedTokens row ∧
    KernelContract (fun allowed allowedCounts => restrictedOutputHeadPhases hidden embedding
        allowed allowedCounts hiddenSize vocabularySize maximumAllowedTokens row)
      (fun token => (dotProduct hidden embedding hiddenSize row token).score)
      vocabularySize maximumAllowedTokens row :=
  ⟨block_contract _ narrow maximumAllowedTokens row,
    block_contract _ narrow maximumAllowedTokens row⟩

/-- Of two equal logits the lower id is selected, though it is the second candidate. -/
theorem restricted_selection_contract_tie : ∃ memory' : Shared Extended,
    Runs threadsPerBlock (restrictedGreedyPhases (fun _ => 0x3C00)
      (fun index => if index = 0 then 1 else 0) (fun _ => 2) 2 2 0)
      ⟨fun _ => ⊥, fun _ => 3, fun _ => 4, 5, 6⟩ memory' ∧ memory'.tokenId = 0 := by
  have contract := (restricted_selection_contract (fun _ => 0x3C00) (fun _ => 0) (fun _ => 0)
    2 2 2 0 (by decide)).1
  obtain ⟨memory', ran⟩ := contract.ends (fun index => if index = 0 then 1 else 0) (fun _ => 2)
    ⟨fun _ => ⊥, fun _ => 3, fun _ => 4, 5, 6⟩
  have row := contract.outputs _ _ _ _ ran
  have valid : ¬ InvalidRow (allowedAt (fun index => if index = 0 then 1 else 0) 2 0) 2 2 2 := by
    rw [InvalidRow]
    decide
  have selects := row.selects fun broken => valid (row.invalid.mp broken)
  have number : (half2float 0x3C00).score = .number ((1 : WithTop ℚ) : Extended) := by
    decide +kernel
  obtain ⟨best, held, _⟩ := selects.greatest 1 (by decide) _ number
  have low : memory'.tokenId ≤ 0 := selects.lowest best held 1 (by decide) held
  exact ⟨memory', ran, UInt32.toNat_inj.mp (Nat.le_zero.mp (UInt32.le_iff_toNat_le.mp low))⟩

end MarketForge.Cuda
