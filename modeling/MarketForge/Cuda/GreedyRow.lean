import MarketForge.Cpu.SmolLm2
import MarketForge.Cuda.RestrictedHead

/-!
# Greedy selection over a row

The block of `greedy_kernel` finds the lowest of the columns with the greatest number. It is the
block of the restricted kernel with every id as a candidate, and on finite rows the loop of the
CPU finds the same token.
-/
namespace MarketForge.Cuda

open BinaryFloat

section

variable {K : Type} [LinearOrder K]

/-- The lowest of the columns whose number is greatest, or zero when no entry is a number. -/
structure SequentialArgmax (row : UInt64 → Score K) (vocabularySize : UInt64) (token : UInt32) :
    Prop where
  inside : token.toUInt64 < vocabularySize
  greatest : ∀ column < vocabularySize, ∀ value, row column = .number value →
    ∃ best, row token.toUInt64 = .number best ∧ value ≤ best
  lowest : ∀ best, row token.toUInt64 = .number best → ∀ column < vocabularySize,
    row column = .number best → token.toUInt64 ≤ column
  allNan : (∀ column < vocabularySize, row column = .nan) → token = 0

/-- Nothing in the vocabulary comes before the token in the order of the candidates. -/
def Greatest (row : UInt64 → Score K) (vocabularySize : UInt64) (token : UInt32) : Prop :=
  token.toUInt64 < vocabularySize ∧ ∀ other : UInt32, other.toUInt64 < vocabularySize →
    candidateKey (fun id => row id.toUInt64) other ≤ candidateKey (fun id => row id.toUInt64) token

theorem Greatest.unique {row : UInt64 → Score K} {vocabularySize : UInt64} {token other : UInt32}
    (greatest : Greatest row vocabularySize token)
    (greatest' : Greatest row vocabularySize other) : token = other := by
  have below := greatest.2 other greatest'.1
  have above := greatest'.2 token greatest.1
  have same := congrArg (fun key => (ofLex key).2) (le_antisymm above below)
  exact UInt32.toNat_inj.mp (OrderDual.toDual_inj.mp same)

/-- A column of a vocabulary of at most `2 ^ 32 - 1` tokens is a token id. -/
theorem column_token {vocabularySize column : UInt64} (narrow : vocabularySize ≤ uint32Max)
    (inside : column < vocabularySize) : (UInt32.ofNat column.toNat).toUInt64 = column := by
  have size := UInt64.le_iff_toNat_le.mp narrow
  have below := UInt64.lt_iff_toNat_lt.mp inside
  have most : uint32Max.toNat = 2 ^ 32 - 1 := rfl
  rw [← UInt64.toNat_inj, UInt32.toNat_toUInt64, UInt32.toNat_ofNat_of_lt' (by
    simp only [UInt32.size]; omega)]

theorem greatest_sequential {row : UInt64 → Score K} {vocabularySize : UInt64} {token : UInt32}
    (narrow : vocabularySize ≤ uint32Max) (nonzero : vocabularySize ≠ 0)
    (greatest : Greatest row vocabularySize token) :
    SequentialArgmax row vocabularySize token := by
  obtain ⟨inside, above⟩ := greatest
  -- Every column is compared as the token id that it is.
  have compared : ∀ column < vocabularySize, (row column).rank < (row token.toUInt64).rank ∨
      (row column).rank = (row token.toUInt64).rank ∧ token.toNat ≤ column.toNat := by
    intro column early
    have same := column_token narrow early
    have order := (candidateKey_le_iff _ _ _).mp (above (UInt32.ofNat column.toNat)
      (same.symm ▸ early))
    rwa [same, ← UInt32.toNat_toUInt64 (UInt32.ofNat column.toNat), same] at order
  refine ⟨inside, ?_, ?_, ?_⟩
  · intro column early value offer
    have order := compared column early
    rw [offer] at order
    cases best : row token.toUInt64 with
    | nan =>
      rw [best] at order
      rcases order with less | ⟨same, _⟩
      · exact absurd less not_lt_bot
      · exact absurd same (WithBot.coe_ne_bot)
    | number number =>
      rw [best] at order
      refine ⟨number, rfl, ?_⟩
      rcases order with less | ⟨same, _⟩
      · exact (WithBot.coe_lt_coe.mp less).le
      · exact (WithBot.coe_inj.mp same).le
  · intro best held column early offer
    rcases compared column early with less | ⟨_, order⟩
    · rw [offer, held] at less
      exact absurd less (lt_irrefl _)
    · rw [UInt64.le_iff_toNat_le, UInt32.toNat_toUInt64]
      exact order
  · intro nothing
    have first : (0 : UInt64) < vocabularySize := by
      rw [UInt64.lt_iff_toNat_lt, UInt64.toNat_zero]
      exact Nat.pos_of_ne_zero fun none => nonzero (UInt64.toNat_inj.mp none)
    rcases compared 0 first with less | ⟨_, order⟩
    · rw [nothing 0 first, nothing _ inside] at less
      exact absurd less (lt_irrefl _)
    · exact UInt32.toNat_inj.mp (Nat.le_zero.mp order)

/-! ### The blocks -/

variable [OrderBot K]

/-- `greedy_kernel` is the restricted kernel with every id as a candidate, in order. -/
theorem greedy_row_eq_restricted (row : UInt64 → Score K) {vocabularySize : UInt64}
    (narrow : vocabularySize ≤ uint32Max) (nonzero : vocabularySize ≠ 0) :
    greedyRow row vocabularySize =
      restrictedRow (fun id => row id.toUInt64) (fun index => UInt32.ofNat index)
        (UInt32.ofNat vocabularySize.toNat) vocabularySize vocabularySize := by
  have size := UInt64.le_iff_toNat_le.mp narrow
  have most : uint32Max.toNat = 2 ^ 32 - 1 := rfl
  have positive : vocabularySize.toNat ≠ 0 := fun none => nonzero (UInt64.toNat_inj.mp none)
  have count : (UInt32.ofNat vocabularySize.toNat).toNat = vocabularySize.toNat :=
    UInt32.toNat_ofNat_of_lt' (by simp only [UInt32.size]; omega)
  have wide : (UInt32.ofNat vocabularySize.toNat).toUInt64 = vocabularySize := by
    rw [← UInt64.toNat_inj, UInt32.toNat_toUInt64, count]
  have column : ∀ i < vocabularySize.toNat, (UInt32.ofNat i).toUInt64 = UInt64.ofNat i := by
    intro i early
    rw [← UInt64.toNat_inj, UInt32.toNat_toUInt64,
      UInt32.toNat_ofNat_of_lt' (by simp only [UInt32.size]; omega),
      UInt64.toNat_ofNat_of_lt' (by simp only [UInt64.size]; omega)]
  have inVocabulary : ∀ i < vocabularySize.toNat, (UInt32.ofNat i).toUInt64 < vocabularySize := by
    intro i early
    rw [column i early, UInt64.lt_iff_toNat_lt,
      UInt64.toNat_ofNat_of_lt' (by simp only [UInt64.size]; omega)]
    exact early
  have nonempty : UInt32.ofNat vocabularySize.toNat ≠ 0 := by
    intro none
    exact positive (count ▸ congrArg UInt32.toNat none)
  rw [restricted_row_eq nonempty (wide.symm ▸ UInt64.le_refl _) (count.symm ▸ inVocabulary), count,
    greedyRow]
  -- The best lanes agree; the fallback is the lowest id of all.
  have best : (restrictedBlock (fun id => row id.toUInt64) (fun index => UInt32.ofNat index)
      vocabularySize.toNat vocabularySize).best =
      BlockReduction.scanReduce Lane.merge (fun (lane : Lane K) column =>
        lane.consider (row (UInt64.ofNat column)) (UInt32.ofNat column)) Lane.initial
          vocabularySize.toNat 8 := by
    unfold restrictedBlock
    apply BlockReduction.scanReduce_map RestrictedLane.best
    · intro lane i early
      rw [turn_inside lane (inVocabulary i early), column i early]
    · exact fun _ _ => rfl
  have lowest := ((block_fallback_le_iff (fun id => row id.toUInt64) inVocabulary _).mp le_rfl).2 0
    (Nat.pos_of_ne_zero positive)
  dsimp only
  rw [best]
  -- Only the order of the lowest id matters from here on, not the scan.
  generalize (restrictedBlock (fun id => row id.toUInt64) (fun index => UInt32.ofNat index)
    vocabularySize.toNat vocabularySize).fallback = fallback at lowest ⊢
  have least : fallback.toNat ≤ (UInt32.ofNat 0).toNat := OrderDual.toDual_le_toDual.mp lowest
  have zero : fallback = 0 := UInt32.toNat_inj.mp (Nat.le_zero.mp least)
  rw [zero]

/-- With every id of the vocabulary among its candidates, a restricted block finds the greatest. -/
theorem restricted_row_greatest (row : UInt64 → Score K) {allowed : Nat → UInt32}
    {allowedCount : UInt32} {vocabularySize maximumAllowedTokens : UInt64}
    (narrow : vocabularySize ≤ uint32Max) (nonzero : vocabularySize ≠ 0)
    (fits : allowedCount.toUInt64 ≤ maximumAllowedTokens)
    (inVocabulary : ∀ i < allowedCount.toNat, (allowed i).toUInt64 < vocabularySize)
    (every : ∀ token : UInt32, token.toUInt64 < vocabularySize →
      ∃ i < allowedCount.toNat, allowed i = token) :
    Greatest row vocabularySize (restrictedRow (fun id => row id.toUInt64) allowed allowedCount
      vocabularySize maximumAllowedTokens) := by
  have first : (0 : UInt32).toUInt64 < vocabularySize := by
    rw [UInt64.lt_iff_toNat_lt]
    exact Nat.pos_of_ne_zero fun none => nonzero (UInt64.toNat_inj.mp none)
  have nonempty : allowedCount ≠ 0 := by
    rintro rfl
    obtain ⟨i, early, _⟩ := every 0 first
    exact absurd early (Nat.not_lt_zero i)
  obtain ⟨i, early, selected, above⟩ := restricted_row_selects (fun id => row id.toUInt64)
    nonempty fits narrow inVocabulary
  rw [selected]
  refine ⟨inVocabulary i early, fun other inside => ?_⟩
  obtain ⟨j, earlyJ, rfl⟩ := every other inside
  exact above j earlyJ

theorem greedy_row_greatest (row : UInt64 → Score K) {vocabularySize : UInt64}
    (narrow : vocabularySize ≤ uint32Max) (nonzero : vocabularySize ≠ 0) :
    Greatest row vocabularySize (greedyRow row vocabularySize) := by
  have size := UInt64.le_iff_toNat_le.mp narrow
  have most : uint32Max.toNat = 2 ^ 32 - 1 := rfl
  have count : (UInt32.ofNat vocabularySize.toNat).toNat = vocabularySize.toNat :=
    UInt32.toNat_ofNat_of_lt' (by simp only [UInt32.size]; omega)
  rw [greedy_row_eq_restricted row narrow nonzero]
  refine restricted_row_greatest row narrow nonzero ?_ (fun i early => ?_) (fun token inside => ?_)
  · rw [UInt64.le_iff_toNat_le, UInt32.toNat_toUInt64, count]
  · rw [count] at early
    rw [UInt64.lt_iff_toNat_lt, UInt32.toNat_toUInt64,
      UInt32.toNat_ofNat_of_lt' (by simp only [UInt32.size]; omega)]
    exact early
  · have below := UInt64.lt_iff_toNat_lt.mp inside
    rw [UInt32.toNat_toUInt64] at below
    exact ⟨token.toNat, count.symm ▸ below, UInt32.ofNat_toNat⟩

end

/-! ### The loop of the CPU -/

open Cpu Cpu.CpuSmolLm2

/-- The floats compare as the numbers of a linear order with infinities, and NaN. -/
structure Compares {F L : Type} [FloatOps F] [LinearOrder L]
    (read : F → Score (WithBot (WithTop L))) : Prop where
  lt : ∀ x y : F, FloatOps.lt x y = true ↔
    ∃ a b, read x = .number a ∧ read y = .number b ∧ a < b
  isFinite : ∀ x : F, FloatOps.isFinite x = true ↔
    ∃ a : L, read x = .number ((a : WithTop L) : WithBot (WithTop L))
  negInfinity : read FloatOps.negInfinity = .number ⊥

section

variable {F L : Type} [FloatOps F] [LinearOrder L] {read : F → Score (WithBot (WithTop L))}

theorem Compares.lt_iff_rank (compares : Compares read) {x y : F} {a : WithBot (WithTop L)}
    (number : read x = .number a) :
    FloatOps.lt x y = true ↔ (read x).rank < (read y).rank := by
  rw [compares.lt, number]
  cases other : read y with
  | nan => simp [Score.rank]
  | number b => simp [Score.rank]

/-- What the loop has found after the first columns: before the first column minus infinity, then
the lowest of the columns with the greatest logit. -/
structure LoopBest (read : F → Score (WithBot (WithTop L))) (logits : Nat → F) (count : Nat)
    (best : GreedyToken F) : Prop where
  start : count = 0 → read best.logit = .number ⊥
  held : count ≠ 0 → best.tokenId.toNat < count ∧ best.logit = logits best.tokenId.toNat
  above : ∀ column < count, (read (logits column)).rank < (read best.logit).rank ∨
    (read (logits column)).rank = (read best.logit).rank ∧ best.tokenId.toNat ≤ column

theorem greedy_turn_best (compares : Compares read) {logits : Nat → F} {count : Nat}
    (small : count < 2 ^ 32) (finite : FloatOps.isFinite (logits count) = true)
    {best : GreedyToken F} (number : ∃ a, read best.logit = .number a)
    (found : LoopBest read logits count best) :
    ∃ next, greedyTurn logits count (.ok best) = .ok next ∧
      (∃ a, read next.logit = .number a) ∧ LoopBest read logits (count + 1) next := by
  obtain ⟨value, valueRead⟩ := (compares.isFinite _).mp finite
  obtain ⟨a, bestRead⟩ := number
  have index : (UInt32.ofNat count).toNat = count := UInt32.toNat_ofNat_of_lt' small
  by_cases wins : FloatOps.lt best.logit (logits count) = true
  · refine ⟨{ tokenId := UInt32.ofNat count, logit := logits count, runnerUpLogit := best.logit },
      ?_, ⟨_, valueRead⟩, ?_⟩
    · simp only [greedyTurn, finite, wins, reduceCtorEq, if_false, if_true]
    -- what was held was at least all columns before, so the new one is above them
    · have above := (compares.lt_iff_rank bestRead).mp wins
      refine ⟨by omega, fun _ => ⟨by dsimp only; omega, by dsimp only; rw [index]⟩, ?_⟩
      intro column early
      rcases Nat.lt_succ_iff_lt_or_eq.mp early with before | rfl
      · rcases found.above column before with less | ⟨same, _⟩
        · exact .inl (less.trans above)
        · exact .inl (same.trans_lt above)
      · exact .inr ⟨rfl, index.le⟩
  · -- The first column beats minus infinity, so a column was held before.
    have later : count ≠ 0 := by
      intro first
      refine wins ((compares.lt _ _).mpr ⟨_, _, found.start first, valueRead, ?_⟩)
      exact WithBot.bot_lt_coe _
    obtain ⟨before, logit⟩ := found.held later
    have kept : ∃ next, greedyTurn logits count (.ok best) = .ok next ∧
        next.tokenId = best.tokenId ∧ next.logit = best.logit := by
      simp only [greedyTurn, finite, wins, reduceCtorEq, if_false]
      split
      · exact ⟨_, rfl, rfl, rfl⟩
      · exact ⟨_, rfl, rfl, rfl⟩
    obtain ⟨next, turned, sameToken, sameLogit⟩ := kept
    refine ⟨next, turned, ⟨a, sameLogit ▸ bestRead⟩, ?_⟩
    refine ⟨by omega, fun _ => ?_, fun column early => ?_⟩
    · rw [sameToken, sameLogit]
      exact ⟨by omega, logit⟩
    · rw [sameToken, sameLogit]
      rcases Nat.lt_succ_iff_lt_or_eq.mp early with old | rfl
      · exact found.above column old
      · rw [compares.lt_iff_rank bestRead, not_lt] at wins
        rcases wins.lt_or_eq with less | same
        · exact .inl less
        · exact .inr ⟨same, before.le⟩

theorem greedy_token_best (compares : Compares read) {logits : Nat → F} {count : Nat}
    (small : count ≤ 2 ^ 32)
    (finite : ∀ column < count, FloatOps.isFinite (logits column) = true) :
    ∃ best, greedyToken logits count = .ok best ∧
      (∃ a, read best.logit = .number a) ∧ LoopBest read logits count best := by
  induction count with
  | zero =>
    refine ⟨_, rfl, ⟨⊥, compares.negInfinity⟩, fun _ => compares.negInfinity, ?_, ?_⟩
    · exact fun nonzero => absurd rfl nonzero
    · exact fun column early => absurd early (Nat.not_lt_zero column)
  | succ count ih =>
    obtain ⟨best, looped, number, found⟩ := ih (by omega) fun column early =>
      finite column (by omega)
    obtain ⟨next, turned, nextNumber, nextFound⟩ := greedy_turn_best compares (by omega)
      (finite count (by omega)) number found
    refine ⟨next, ?_, nextNumber, nextFound⟩
    change greedyTurn logits count (greedyToken logits count) = _
    rw [looped, turned]

end

/-- For every vocabulary of one to `2 ^ 32 - 1` tokens and every row over a linear order with
infinities and NaN, the block of `greedy_kernel` outputs the sequential argmax: the lowest of the
columns whose number is greatest, or zero when all are NaN. On finite rows it is the token the loop
of the CPU selects, and a restricted block that has every id among its candidates outputs the
same. -/
theorem greedy_reduction_sequential {L : Type} [LinearOrder L]
    (row : UInt64 → Score (WithBot (WithTop L))) {vocabularySize : UInt64}
    (nonzero : vocabularySize ≠ 0) (narrow : vocabularySize ≤ uint32Max) :
    SequentialArgmax row vocabularySize (greedyRow row vocabularySize) ∧
    (∀ (F : Type) [FloatOps F] (read : F → Score (WithBot (WithTop L))), Compares read →
      ∀ logits : Nat → F, (∀ column < vocabularySize, read (logits column.toNat) = row column ∧
        FloatOps.isFinite (logits column.toNat) = true) →
      ∃ chosen, greedyToken logits vocabularySize.toNat = .ok chosen ∧
        chosen.tokenId = greedyRow row vocabularySize) ∧
    ∀ (allowed : Nat → UInt32) (allowedCount : UInt32) (maximumAllowedTokens : UInt64),
      allowedCount.toUInt64 ≤ maximumAllowedTokens →
      (∀ i < allowedCount.toNat, (allowed i).toUInt64 < vocabularySize) →
      (∀ token : UInt32, token.toUInt64 < vocabularySize →
        ∃ i < allowedCount.toNat, allowed i = token) →
      restrictedRow (fun id => row id.toUInt64) allowed allowedCount vocabularySize
        maximumAllowedTokens = greedyRow row vocabularySize := by
  have greatest := greedy_row_greatest row narrow nonzero
  have size := UInt64.le_iff_toNat_le.mp narrow
  have most : uint32Max.toNat = 2 ^ 32 - 1 := rfl
  have positive : vocabularySize.toNat ≠ 0 := fun none => nonzero (UInt64.toNat_inj.mp none)
  refine ⟨greatest_sequential narrow nonzero greatest, ?_, ?_⟩
  · intro F _ read compares logits entries
    -- columns are counted in 64 bits on the device and as indices of the loop
    have column : ∀ i < vocabularySize.toNat, UInt64.ofNat i < vocabularySize ∧
        (UInt64.ofNat i).toNat = i := by
      intro i early
      have exact : (UInt64.ofNat i).toNat = i :=
        UInt64.toNat_ofNat_of_lt' (by simp only [UInt64.size]; omega)
      exact ⟨UInt64.lt_iff_toNat_lt.mpr (exact.symm ▸ early), exact⟩
    have finite : ∀ i < vocabularySize.toNat, FloatOps.isFinite (logits i) = true := by
      intro i early
      have entry := (entries _ (column i early).1).2
      rwa [(column i early).2] at entry
    obtain ⟨best, looped, _, found⟩ := greedy_token_best compares (by omega) finite
    -- both tokens are greatest in one order, which has one greatest element
    refine ⟨best, looped, Greatest.unique ?_ greatest⟩
    obtain ⟨inside, logit⟩ := found.held positive
    have within : best.tokenId.toUInt64 < vocabularySize := by
      rw [UInt64.lt_iff_toNat_lt, UInt32.toNat_toUInt64]
      exact inside
    have bestEntry := (entries _ within).1
    rw [UInt32.toNat_toUInt64, ← logit] at bestEntry
    refine ⟨within, fun other early => ?_⟩
    have below := UInt64.lt_iff_toNat_lt.mp early
    rw [UInt32.toNat_toUInt64] at below
    have entry := (entries _ early).1
    rw [UInt32.toNat_toUInt64] at entry
    rw [candidateKey_le_iff]
    have order := found.above other.toNat below
    rwa [entry, bestEntry] at order
  · intro allowed allowedCount maximumAllowedTokens fits inVocabulary every
    exact (restricted_row_greatest row narrow nonzero fits inVocabulary every).unique greatest

/-- Column zero is NaN and the others tie. -/
def tiedRow (column : UInt64) : Score (WithBot (WithTop ℤ)) :=
  if column = 0 then .nan else .number (((5 : ℤ) : WithTop ℤ) : WithBot (WithTop ℤ))

/-- The lowest of the tied columns is selected, over more columns than the block has threads. -/
theorem greedy_reduction_sequential_tie : greedyRow tiedRow 600 = 1 := by
  obtain ⟨_, greatest, lowest, _⟩ :=
    (greedy_reduction_sequential tiedRow (show (600 : UInt64) ≠ 0 by decide) (by decide)).1
  generalize greedyRow tiedRow 600 = token at greatest lowest
  obtain ⟨best, held, _⟩ := greatest 1 (by decide) _ (if_neg (by decide))
  have nonzero : token.toUInt64 ≠ 0 := by
    intro zero
    rw [tiedRow, if_pos zero] at held
    cases held
  have tied : Score.number _ = Score.number best := (if_neg nonzero).symm.trans held
  have least := lowest best held 1 (by decide) ((if_neg (by decide)).trans tied)
  rw [UInt64.le_iff_toNat_le, UInt32.toNat_toUInt64] at least
  rw [ne_eq, ← UInt64.toNat_inj, UInt32.toNat_toUInt64] at nonzero
  have one : (1 : UInt64).toNat = 1 := rfl
  have zero : (0 : UInt64).toNat = 0 := rfl
  have target : (1 : UInt32).toNat = 1 := rfl
  exact UInt32.toNat_inj.mp (by omega)

end MarketForge.Cuda
