import Mathlib.Data.Prod.Lex
import MarketForge.Cuda.Greedy

/-!
# The restricted output head against the full projection

A restricted kernel picks the candidate whose score is greatest, NaN below every number, and of
these the one with the lowest id. The full path picks by the scores rounded to FP16, so the two
paths differ where rounding closes a gap below the best score.
-/
namespace MarketForge.Cuda

open BinaryFloat

section

variable {K : Type} [LinearOrder K]

/-! ### What a block computes -/

/-- The order in which lanes win: the greater maximum, then the lower id. -/
def Lane.key (lane : Lane K) : K ×ₗ ℕᵒᵈ :=
  toLex (lane.maximum, OrderDual.toDual lane.tokenId.toNat)

theorem lane_key_lt_iff (lane other : Lane K) :
    lane.key < other.key ↔ lane.maximum < other.maximum ∨
      other.maximum = lane.maximum ∧ other.tokenId < lane.tokenId := by
  rw [Lane.key, Lane.key, Prod.Lex.toLex_lt_toLex, UInt32.lt_iff_toNat_lt, eq_comm]
  rfl

theorem merge_key (lane other : Lane K) : (lane.merge other).key = max lane.key other.key := by
  unfold Lane.merge
  split
  next wins => rw [max_eq_right ((lane_key_lt_iff lane other).mpr wins).le]
  next loses =>
    rw [max_eq_left (not_lt.mp fun wins => loses ((lane_key_lt_iff lane other).mp wins))]

/-- A number is offered with the key of the lane that would hold it. -/
theorem consider_number_key (lane : Lane K) (value : K) (candidate : UInt32) :
    (lane.consider (.number value) candidate).key =
      max lane.key (Lane.mk value candidate).key := by
  unfold Lane.consider
  dsimp only
  split
  next wins => rw [max_eq_right ((lane_key_lt_iff lane ⟨value, candidate⟩).mpr wins).le]
  next loses =>
    rw [max_eq_left (not_lt.mp fun wins =>
      loses ((lane_key_lt_iff lane ⟨value, candidate⟩).mp wins))]

/-- The order of the candidates: the greater score, NaN below every number, then the lower id. -/
def candidateKey (score : UInt32 → Score K) (token : UInt32) : WithBot K ×ₗ ℕᵒᵈ :=
  toLex ((score token).rank, OrderDual.toDual token.toNat)

theorem candidateKey_le_iff (score : UInt32 → Score K) (a b : UInt32) :
    candidateKey score a ≤ candidateKey score b ↔
      (score a).rank < (score b).rank ∨ (score a).rank = (score b).rank ∧ b.toNat ≤ a.toNat := by
  rw [candidateKey, candidateKey, Prod.Lex.toLex_le_toLex]
  rfl

/-- What a candidate asks of a bound on the best lane: nothing when its score is NaN. -/
def Offered (score : UInt32 → Score K) (candidate : UInt32) (bound : K ×ₗ ℕᵒᵈ) : Prop :=
  ∀ value, score candidate = .number value → (Lane.mk value candidate).key ≤ bound

theorem consider_key_le_iff (score : UInt32 → Score K) (lane : Lane K) (candidate : UInt32)
    (bound : K ×ₗ ℕᵒᵈ) :
    (lane.consider (score candidate) candidate).key ≤ bound ↔
      lane.key ≤ bound ∧ Offered score candidate bound := by
  unfold Offered
  cases offer : score candidate with
  | nan => simp [Lane.consider]
  | number value => simp [consider_number_key]

theorem turn_inside {score : UInt32 → Score K} {allowed : Nat → UInt32} {vocabularySize : UInt64}
    (lane : RestrictedLane K) {i : Nat} (inside : (allowed i).toUInt64 < vocabularySize) :
    lane.turn score allowed vocabularySize i = { lane with
      best := lane.best.consider (score (allowed i)) (allowed i)
      fallback := if allowed i < lane.fallback then allowed i else lane.fallback } := by
  unfold RestrictedLane.turn
  exact if_neg (UInt64.not_le.mpr inside)

section

variable [OrderBot K] (score : UInt32 → Score K) (allowed : Nat → UInt32) (count : Nat)
  (vocabularySize : UInt64)

/-- The block over the candidates of a row. -/
def restrictedBlock : RestrictedLane K :=
  BlockReduction.scanReduce RestrictedLane.merge
    (RestrictedLane.turn score allowed vocabularySize) RestrictedLane.initial count 8

variable {score allowed count vocabularySize}

theorem block_best_le_iff (score : UInt32 → Score K)
    (inVocabulary : ∀ i < count, (allowed i).toUInt64 < vocabularySize)
    (bound : K ×ₗ ℕᵒᵈ) :
    (restrictedBlock score allowed count vocabularySize).best.key ≤ bound ↔
      (Lane.initial : Lane K).key ≤ bound ∧ ∀ i < count, Offered score (allowed i) bound := by
  apply BlockReduction.scanReduce_le_iff (fun lane : RestrictedLane K => lane.best.key)
    (fun i bound => Offered score (allowed i) bound)
  · intro lane i early
    rw [turn_inside lane (inVocabulary i early)]
    exact consider_key_le_iff score lane.best (allowed i) bound
  · exact fun lane other => merge_key lane.best other.best

private theorem lower_id (a b : UInt32) :
    (if a < b then a else b).toNat = min a.toNat b.toNat := by
  simp only [UInt32.lt_iff_toNat_lt]
  split <;> omega

/-- The lanes keep the lowest id they have seen. -/
theorem block_fallback_le_iff (score : UInt32 → Score K)
    (inVocabulary : ∀ i < count, (allowed i).toUInt64 < vocabularySize)
    (bound : ℕᵒᵈ) :
    OrderDual.toDual (restrictedBlock score allowed count vocabularySize).fallback.toNat ≤ bound ↔
      OrderDual.toDual restrictedGreedyInvalidTokenId.toNat ≤ bound ∧
        ∀ i < count, OrderDual.toDual (allowed i).toNat ≤ bound := by
  apply BlockReduction.scanReduce_le_iff
    (fun lane : RestrictedLane K => OrderDual.toDual lane.fallback.toNat)
    (fun i bound => OrderDual.toDual (allowed i).toNat ≤ bound)
  · intro lane i early
    rw [turn_inside lane (inVocabulary i early)]
    dsimp only
    rw [lower_id, toDual_min, max_le_iff, and_comm]
  · intro lane other
    dsimp only [RestrictedLane.merge]
    rw [lower_id, toDual_min, max_comm]

/-- A lane holds nothing but what it was given. -/
def Found (score : UInt32 → Score K) (allowed : Nat → UInt32) (count : Nat)
    (lane : RestrictedLane K) : Prop :=
  (lane.best = Lane.initial ∨
    ∃ i < count, ∃ value, score (allowed i) = .number value ∧ lane.best = ⟨value, allowed i⟩) ∧
  (lane.fallback = restrictedGreedyInvalidTokenId ∨ ∃ i < count, lane.fallback = allowed i) ∧
  lane.exchanged = false

theorem found_turn (inVocabulary : ∀ i < count, (allowed i).toUInt64 < vocabularySize)
    (lane : RestrictedLane K) (i : Nat) (early : i < count)
    (found : Found score allowed count lane) :
    Found score allowed count (lane.turn score allowed vocabularySize i) := by
  obtain ⟨best, fallback, quiet⟩ := found
  rw [turn_inside lane (inVocabulary i early)]
  refine ⟨?_, ?_, quiet⟩
  · dsimp only
    cases offer : score (allowed i) with
    | nan => exact best
    | number value =>
      unfold Lane.consider
      dsimp only
      split
      · exact .inr ⟨i, early, value, offer, rfl⟩
      · exact best
  · dsimp only
    split
    · exact .inr ⟨i, early, rfl⟩
    · exact fallback

theorem found_merge (lane other : RestrictedLane K) (found : Found score allowed count lane)
    (foundOther : Found score allowed count other) :
    Found score allowed count (lane.merge other) := by
  refine ⟨?_, ?_, found.2.2⟩
  · dsimp only [RestrictedLane.merge]
    unfold Lane.merge
    split
    · exact foundOther.1
    · exact found.1
  · dsimp only [RestrictedLane.merge]
    split
    · exact foundOther.2.1
    · exact found.2.1

theorem block_found (score : UInt32 → Score K)
    (inVocabulary : ∀ i < count, (allowed i).toUInt64 < vocabularySize) :
    Found score allowed count (restrictedBlock score allowed count vocabularySize) :=
  BlockReduction.scanReduce_induction ⟨.inl rfl, .inl rfl, rfl⟩ (found_turn inVocabulary)
    found_merge 8

omit [OrderBot K] in
private theorem scan_quiet (inVocabulary : ∀ i < count, (allowed i).toUInt64 < vocabularySize)
    (indices : List Nat) (early : ∀ i ∈ indices, i < count) (lane : RestrictedLane K)
    (start : lane.exchanged = false) :
    (indices.foldl (RestrictedLane.turn score allowed vocabularySize) lane).exchanged = false := by
  induction indices generalizing lane with
  | nil => exact start
  | cons i rest ih =>
    rw [List.foldl_cons]
    apply ih fun j later => early j (.tail _ later)
    rw [turn_inside lane (inVocabulary i (early i List.mem_cons_self))]
    exact start

/-- On a row with candidates, all in the vocabulary, a block returns what it found. -/
theorem restricted_row_eq {allowedCount : UInt32} {maximumAllowedTokens : UInt64}
    (nonempty : allowedCount ≠ 0) (fits : allowedCount.toUInt64 ≤ maximumAllowedTokens)
    (inVocabulary : ∀ i < allowedCount.toNat, (allowed i).toUInt64 < vocabularySize) :
    restrictedRow score allowed allowedCount vocabularySize maximumAllowedTokens =
      let block := restrictedBlock score allowed allowedCount.toNat vocabularySize
      if block.best.tokenId = restrictedGreedyInvalidTokenId then block.fallback
      else block.best.tokenId := by
  have goodCount : ¬(allowedCount = 0 ∨ maximumAllowedTokens < allowedCount.toUInt64) := by
    rintro (none | large)
    · exact nonempty none
    · exact UInt64.not_lt.mpr fits large
  have quiet : ((List.range (2 ^ 8)).any fun thread =>
      ((BlockReduction.strided thread allowedCount.toNat (2 ^ 8)).foldl
        (RestrictedLane.turn score allowed vocabularySize)
        RestrictedLane.initial).exchanged) = false := by
    rw [List.any_eq_false]
    intro thread _
    rw [scan_quiet inVocabulary _ (fun i => BlockReduction.strided_lt (by decide)) _ rfl]
    exact Bool.false_ne_true
  unfold restrictedRow
  simp only [if_neg goodCount, quiet]
  rw [if_neg (by simpa using goodCount)]
  rfl

/-- A block selects the candidate that is greatest in the order of the candidates. -/
theorem restricted_row_selects (score : UInt32 → Score K) {allowedCount : UInt32}
    {maximumAllowedTokens : UInt64}
    (nonempty : allowedCount ≠ 0) (fits : allowedCount.toUInt64 ≤ maximumAllowedTokens)
    (narrow : vocabularySize ≤ uint32Max)
    (inVocabulary : ∀ i < allowedCount.toNat, (allowed i).toUInt64 < vocabularySize) :
    ∃ i < allowedCount.toNat,
      restrictedRow score allowed allowedCount vocabularySize maximumAllowedTokens = allowed i ∧
      ∀ j < allowedCount.toNat, candidateKey score (allowed j) ≤
        candidateKey score (allowed i) := by
  have proper : ∀ i < allowedCount.toNat,
      (allowed i).toNat < restrictedGreedyInvalidTokenId.toNat := by
    intro i early
    have inside := UInt64.lt_iff_toNat_lt.mp (inVocabulary i early)
    have least := UInt64.le_iff_toNat_le.mp narrow
    rw [UInt32.toNat_toUInt64] at inside
    exact Nat.lt_of_lt_of_le inside least
  rw [restricted_row_eq nonempty fits inVocabulary]
  have bestBound := ((block_best_le_iff score inVocabulary _).mp le_rfl).2
  have fallbackBound := ((block_fallback_le_iff score inVocabulary _).mp le_rfl).2
  obtain ⟨best, fallback, _⟩ := block_found score inVocabulary
  have first : 0 < allowedCount.toNat :=
    Nat.pos_of_ne_zero fun none => nonempty (UInt32.toNat_inj.mp none)
  revert bestBound fallbackBound best fallback
  generalize restrictedBlock score allowed allowedCount.toNat vocabularySize = block
  intro bestBound fallbackBound best fallback
  rcases best with untouched | ⟨i, early, value, offer, held⟩
  · -- no score was a number, so the lowest id is the greatest candidate
    have allNan : ∀ j < allowedCount.toNat, score (allowed j) = .nan := by
      intro j earlyJ
      cases offer : score (allowed j) with
      | nan => rfl
      | number value =>
        have below := bestBound j earlyJ value offer
        rw [untouched, ← not_lt, lane_key_lt_iff] at below
        refine absurd ?_ below
        rcases bot_le.lt_or_eq (α := K) with above | bottom
        · exact .inl above
        · exact .inr ⟨bottom.symm, UInt32.lt_iff_toNat_lt.mpr (proper j earlyJ)⟩
    have token : block.best.tokenId = restrictedGreedyInvalidTokenId := by
      rw [untouched]
      rfl
    rcases fallback with none | ⟨i, early, kept⟩
    · have lowest : block.fallback.toNat ≤ (allowed 0).toNat :=
        OrderDual.toDual_le_toDual.mp (fallbackBound 0 first)
      rw [none] at lowest
      exact absurd (proper 0 first) (Nat.not_lt.mpr lowest)
    · refine ⟨i, early, ?_, fun j earlyJ => ?_⟩
      · dsimp only
        rw [if_pos token, kept]
      · have lowest : block.fallback.toNat ≤ (allowed j).toNat :=
          OrderDual.toDual_le_toDual.mp (fallbackBound j earlyJ)
        rw [candidateKey_le_iff, allNan i early, allNan j earlyJ, ← kept]
        exact .inr ⟨rfl, lowest⟩
  -- a score was a number: its offer is above every NaN, and above the offers of the other numbers
  · refine ⟨i, early, ?_, fun j earlyJ => ?_⟩
    · dsimp only
      rw [held, if_neg]
      intro invalid
      exact absurd (invalid ▸ proper i early) (Nat.lt_irrefl _)
    · rw [candidateKey_le_iff, offer]
      cases offerJ : score (allowed j) with
      | nan => exact .inl (WithBot.bot_lt_coe value)
      | number other =>
        have below := bestBound j earlyJ other offerJ
        rw [held, ← not_lt, lane_key_lt_iff] at below
        rcases lt_trichotomy other value with less | same | more
        · exact .inl (WithBot.coe_lt_coe.mpr less)
        · refine .inr ⟨congrArg (fun k => (Score.number k).rank) same, ?_⟩
          exact Nat.le_of_not_lt fun lower =>
            below (.inr ⟨same, UInt32.lt_iff_toNat_lt.mpr lower⟩)
        · exact absurd (.inl more) below

end

end

/-! ### Rounded and unrounded scores -/

/-- A gap below the best score that rounding closes: some candidate scores less than the best one,
rounds to the same FP16 number, and has a lower id than every candidate with the best score. -/
def NearTie (score : UInt32 → Value) (candidate : UInt32 → Prop) : Prop :=
  ∃ a, candidate a ∧
    (∃ b, candidate b ∧ (score a).score.rank < (score b).score.rank) ∧
    ∀ b, candidate b → (∀ c, candidate c → (score c).score.rank ≤ (score b).score.rank) →
      a < b ∧ ((score a).round binary16).score = ((score b).round binary16).score

/-- The greatest candidate by score is the greatest by rounded score, unless there is a near
tie. -/
theorem rounded_choice_iff {score : UInt32 → Value} {candidate : UInt32 → Prop}
    {best rounded : UInt32} (bestIn : candidate best) (roundedIn : candidate rounded)
    (bestGreatest : ∀ c, candidate c →
      candidateKey (fun t => (score t).score) c ≤ candidateKey (fun t => (score t).score) best)
    (roundedGreatest : ∀ c, candidate c →
      candidateKey (fun t => ((score t).round binary16).score) c ≤
        candidateKey (fun t => ((score t).round binary16).score) rounded) :
    best = rounded ↔ ¬NearTie score candidate := by
  simp only [candidateKey_le_iff] at bestGreatest roundedGreatest
  constructor
  · rintro rfl ⟨a, aIn, _, above⟩
    have greatest : ∀ c, candidate c → (score c).score.rank ≤ (score best).score.rank := by
      intro c cIn
      rcases bestGreatest c cIn with less | ⟨same, _⟩
      · exact less.le
      · exact same.le
    obtain ⟨lower, same⟩ := above best bestIn greatest
    rcases roundedGreatest a aIn with less | ⟨_, order⟩
    · exact absurd (congrArg Score.rank same) less.ne
    · exact absurd (UInt32.lt_iff_toNat_lt.mp lower) (Nat.not_lt.mpr order)
  · intro apart
    by_contra different
    have below : (score rounded).score.rank ≤ (score best).score.rank := by
      rcases bestGreatest rounded roundedIn with less | ⟨same, _⟩
      · exact less.le
      · exact same.le
    have closed := round_rank_mono binary16 below
    -- the rounded scores are equal, so the lower id won
    obtain ⟨same, order⟩ := (roundedGreatest best bestIn).resolve_left (not_lt.mpr closed)
    have less : (score rounded).score.rank < (score best).score.rank := by
      refine (bestGreatest rounded roundedIn).resolve_right ?_
      rintro ⟨_, reversed⟩
      exact different (UInt32.toNat_inj.mp (Nat.le_antisymm reversed order))
    refine apart ⟨rounded, roundedIn, ⟨best, bestIn, less⟩, fun b bIn greatest => ?_⟩
    have tied := greatest best bestIn
    obtain ⟨equal, lower⟩ := (bestGreatest b bIn).resolve_left (not_lt.mpr tied)
    refine ⟨UInt32.lt_iff_toNat_lt.mpr ?_, Score.rank_inj ?_⟩
    · have distinct : rounded.toNat ≠ best.toNat :=
        fun match_ids => different (UInt32.toNat_inj.mp match_ids).symm
      omega
    · rw [← same]
      exact le_antisymm (round_rank_mono binary16 tied) (round_rank_mono binary16 equal.le)

/-! ### The two paths -/

/-- The candidates of a row. -/
def Candidate (allowed allowedCounts : UInt64 → UInt32) (maximumAllowedTokens row : UInt64)
    (token : UInt32) : Prop :=
  ∃ i < (allowedCounts row).toNat, allowedAt allowed maximumAllowedTokens row i = token

/-- A row with candidates, all of them in the vocabulary. -/
structure ValidRow (allowed allowedCounts : UInt64 → UInt32)
    (vocabularySize maximumAllowedTokens row : UInt64) : Prop where
  nonempty : allowedCounts row ≠ 0
  fits : (allowedCounts row).toUInt64 ≤ maximumAllowedTokens
  inVocabulary : ∀ i < (allowedCounts row).toNat,
    (allowedAt allowed maximumAllowedTokens row i).toUInt64 < vocabularySize

/-- A stored logit rounds the FP32 score of its token to the nearest FP16 number. -/
def StoresRounded (hidden embedding stored : UInt64 → Half)
    (rows hiddenSize vocabularySize : UInt64) : Prop :=
  ∀ row < rows, ∀ token : UInt32, token.toUInt64 < vocabularySize →
    half2float (stored (row * vocabularySize + token.toUInt64)) =
      (dotProduct hidden embedding hiddenSize row token).round binary16

/-- What is assumed of the matrix product of cuBLAS, for the buffers it is called with. -/
def Cublas.RoundsScores (cublas : Cublas) (hidden embedding : UInt64 → Half)
    (rows hiddenSize vocabularySize : UInt64) : Prop :=
  ∀ stored, cublas.gemmEx vocabularySize rows hiddenSize embedding hidden = .ok stored →
    StoresRounded hidden embedding stored rows hiddenSize vocabularySize

/-- A projection that succeeds stores what cuBLAS computed. -/
theorem linear_ok {cublas : Cublas} {input weight output : DeviceBuffer Half}
    {rows inputFeatures outputFeatures : UInt64} {stream : StreamHandle}
    {stored : UInt64 → Half}
    (ran : linearF16 cublas input weight output rows inputFeatures outputFeatures stream =
      .ok stored) :
    cublas.gemmEx outputFeatures rows inputFeatures weight.element input.element = .ok stored := by
  unfold linearF16 at ran
  split at ran
  next => cases ran
  next =>
    split at ran
    next => cases ran
    next =>
      split at ran
      next => cases ran
      next =>
        split at ran
        next => cases ran
        next =>
          split at ran
          next => cases ran
          next =>
            split at ran
            next => cases ran
            next =>
              split at ran
              next => exact ran
              next => cases ran

theorem restricted_greedy_ok {logits : DeviceBuffer Half}
    {allowed counts tokenIds : DeviceBuffer UInt32}
    {rows vocabularySize maximumAllowedTokens : UInt64} {stream : StreamHandle} {launch : Status}
    {selected : UInt64 → UInt32}
    (ran : restrictedGreedySelectF16 logits allowed counts tokenIds rows vocabularySize
      maximumAllowedTokens stream launch = .ok selected) :
    vocabularySize ≤ uint32Max ∧
      selected = restrictedGreedyKernel logits.element allowed.element counts.element
        vocabularySize maximumAllowedTokens := by
  unfold restrictedGreedySelectF16 at ran
  split at ran
  next => cases ran
  next =>
    split at ran
    next => cases ran
    next small =>
      split at ran
      next => cases ran
      next =>
        split at ran
        next => cases ran
        next =>
          split at ran
          next => cases ran
          next =>
            split at ran
            next =>
              exact ⟨UInt64.not_lt.mp fun wide => small (.inl wide), (Except.ok.inj ran).symm⟩
            next => cases ran

theorem restricted_output_head_ok {hidden embedding : DeviceBuffer Half}
    {allowed counts tokenIds : DeviceBuffer UInt32}
    {rows hiddenSize vocabularySize maximumAllowedTokens : UInt64} {stream : StreamHandle}
    {launch : Status} {selected : UInt64 → UInt32}
    (ran : restrictedOutputHeadF16 hidden embedding allowed counts tokenIds rows hiddenSize
      vocabularySize maximumAllowedTokens stream launch = .ok selected) :
    selected = restrictedOutputHeadKernel hidden.element embedding.element allowed.element
      counts.element hiddenSize vocabularySize maximumAllowedTokens := by
  unfold restrictedOutputHeadF16 at ran
  split at ran
  next => cases ran
  next =>
    split at ran
    next => cases ran
    next =>
      split at ran
      next => cases ran
      next =>
        split at ran
        next => cases ran
        next =>
          split at ran
          next => cases ran
          next =>
            split at ran
            next => exact (Except.ok.inj ran).symm
            next => cases ran

/-- When both paths run, they select the same token of a row with candidates if and only if no
near tie separates the rounded scores from the scores. -/
theorem restricted_head_parity (cublas : Cublas) (hidden embedding logits : DeviceBuffer Half)
    (allowed counts fullIds fastIds : DeviceBuffer UInt32)
    (rows hiddenSize vocabularySize maximumAllowedTokens : UInt64) (stream : StreamHandle)
    (fullLaunch fastLaunch : Status) (stored : UInt64 → Half) (full fast : UInt64 → UInt32)
    (projected : linearF16 cublas hidden embedding logits rows hiddenSize vocabularySize stream =
      .ok stored)
    (rounds : cublas.RoundsScores hidden.element embedding.element rows hiddenSize
      vocabularySize)
    (ranFull : restrictedGreedySelectF16 { logits with element := stored } allowed counts fullIds
      rows vocabularySize maximumAllowedTokens stream fullLaunch = .ok full)
    (ranFast : restrictedOutputHeadF16 hidden embedding allowed counts fastIds rows hiddenSize
      vocabularySize maximumAllowedTokens stream fastLaunch = .ok fast)
    (row : UInt64) (present : row < rows)
    (valid : ValidRow allowed.element counts.element vocabularySize maximumAllowedTokens row) :
    fast row = full row ↔
      ¬NearTie (dotProduct hidden.element embedding.element hiddenSize row)
        (Candidate allowed.element counts.element maximumAllowedTokens row) := by
  have rounded := rounds stored (linear_ok projected)
  obtain ⟨narrow, rfl⟩ := restricted_greedy_ok ranFull
  rw [restricted_output_head_ok ranFast]
  obtain ⟨i, earlyI, fastEq, fastGreatest⟩ := restricted_row_selects
    (fun token => (dotProduct hidden.element embedding.element hiddenSize row token).score)
    valid.nonempty valid.fits narrow valid.inVocabulary
  obtain ⟨j, earlyJ, fullEq, fullGreatest⟩ := restricted_row_selects
    (fun token => (half2float (stored (row * vocabularySize + token.toUInt64))).score)
    valid.nonempty valid.fits narrow valid.inVocabulary
  -- on the candidates the logits are the rounded scores
  have sameKey : ∀ k < (counts.element row).toNat,
      candidateKey (fun token =>
          (half2float (stored (row * vocabularySize + token.toUInt64))).score)
        (allowedAt allowed.element maximumAllowedTokens row k) =
      candidateKey (fun token =>
          ((dotProduct hidden.element embedding.element hiddenSize row token).round
            binary16).score)
        (allowedAt allowed.element maximumAllowedTokens row k) := by
    intro k early
    unfold candidateKey
    dsimp only
    rw [rounded row present _ (valid.inVocabulary k early)]
  rw [restrictedOutputHeadKernel, restrictedGreedyKernel, fastEq, fullEq]
  apply rounded_choice_iff ⟨i, earlyI, rfl⟩ ⟨j, earlyJ, rfl⟩
  · rintro c ⟨k, early, rfl⟩
    exact fastGreatest k early
  · rintro c ⟨k, early, rfl⟩
    rw [← sameKey k early, ← sameKey j earlyJ]
    exact fullGreatest k early

/-- Two tokens score 1 and 1 + 2⁻¹², which rounds to 1. -/
def nearTieHidden : UInt64 → Half := fun _ => 0x3C00

def nearTieEmbedding (index : UInt64) : Half :=
  if index = 1 then 0 else if index = 3 then 0x0C00 else 0x3C00

def nearTieStored : UInt64 → Half := fun _ => 0x3C00

def nearTieCublas : Cublas where
  handle := 1
  setStream _ := .success
  gemmEx _ _ _ _ _ := .ok nearTieStored

theorem near_tie_rounds :
    nearTieCublas.RoundsScores nearTieHidden nearTieEmbedding 1 2 2 := by
  rintro stored same row first token inside
  obtain rfl : nearTieStored = stored := Except.ok.inj same
  rw [UInt64.lt_iff_toNat_lt] at first inside
  have zero : row = 0 := UInt64.toNat_inj.mp (Nat.lt_one_iff.mp first)
  have either : token = 0 ∨ token = 1 := by
    rw [← UInt32.toNat_inj, ← UInt32.toNat_inj]
    change token.toNat < 2 at inside
    change token.toNat = 0 ∨ token.toNat = 1
    omega
  rcases either with rfl | rfl
  · rw [zero]
    decide +kernel
  · rw [zero]
    decide +kernel

/-- The full path selects token 0, the restricted head token 1. -/
theorem restricted_head_diverges :
    ∃ (stored : UInt64 → Half) (full fast : UInt64 → UInt32),
      linearF16 nearTieCublas ⟨1, 4, nearTieHidden⟩ ⟨2, 8, nearTieEmbedding⟩ ⟨3, 4, fun _ => 0⟩
        1 2 2 ⟨1⟩ = .ok stored ∧
      nearTieCublas.RoundsScores nearTieHidden nearTieEmbedding 1 2 2 ∧
      restrictedGreedySelectF16 ⟨3, 4, stored⟩ ⟨4, 8, UInt64.toUInt32⟩ ⟨5, 4, fun _ => 2⟩
        ⟨6, 4, fun _ => 0⟩ 1 2 2 ⟨1⟩ .success = .ok full ∧
      restrictedOutputHeadF16 ⟨1, 4, nearTieHidden⟩ ⟨2, 8, nearTieEmbedding⟩
        ⟨4, 8, UInt64.toUInt32⟩ ⟨5, 4, fun _ => 2⟩ ⟨7, 4, fun _ => 0⟩ 1 2 2 2 ⟨1⟩ .success =
          .ok fast ∧
      ValidRow UInt64.toUInt32 (fun _ => 2) 2 2 0 ∧
      full 0 = 0 ∧ fast 0 = 1 := by
  refine ⟨_, _, _, rfl, near_tie_rounds, rfl, rfl, ⟨by decide, by decide, ?_⟩, ?_, ?_⟩
  · decide
  · decide +kernel
  · decide +kernel

/-- The condition decides the same input. -/
theorem restricted_head_parity_near_tie :
    (restrictedOutputHeadKernel nearTieHidden nearTieEmbedding UInt64.toUInt32 (fun _ => 2) 2 2 2
        0 =
      restrictedGreedyKernel nearTieStored UInt64.toUInt32 (fun _ => 2) 2 2 0) ↔
    ¬NearTie (dotProduct nearTieHidden nearTieEmbedding 2 0)
      (Candidate UInt64.toUInt32 (fun _ => 2) 2 0) :=
  restricted_head_parity nearTieCublas ⟨1, 4, nearTieHidden⟩ ⟨2, 8, nearTieEmbedding⟩
    ⟨3, 4, fun _ => 0⟩ ⟨4, 8, UInt64.toUInt32⟩ ⟨5, 4, fun _ => 2⟩ ⟨6, 4, fun _ => 0⟩
    ⟨7, 4, fun _ => 0⟩ 1 2 2 2 ⟨1⟩ .success .success nearTieStored _ _ rfl near_tie_rounds rfl rfl
    0 (by decide) ⟨by decide, by decide, by decide⟩

end MarketForge.Cuda
