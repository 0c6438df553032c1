import MarketForge.Serving.CacheAccounting
import MarketForge.Workloads.RadarSimulation

/-!
# Scenario configurations

What `validConfig` accepts, over exact integers: none of its sums and products wraps, so the page
budget it compares is the one the cache has to serve.
-/
namespace MarketForge.Workloads

open Serving

namespace ScenarioConfig

/-- Pages of the shared tokens. -/
def prefixPages (config : ScenarioConfig) : Nat :=
  config.sharedPrefixTokens.toNat ⌈/⌉ config.kvTokensPerPage.toNat

/-- Pages of the tokens of one decision after the shared ones. -/
def sequencePages (config : ScenarioConfig) : Nat :=
  (config.promptTokens.toNat + config.outputTokens.toNat - config.sharedPrefixTokens.toNat) ⌈/⌉
    config.kvTokensPerPage.toNat

/-- What `validConfig` checks of the numbers that are not floating-point ones, over exact
integers. -/
structure Accepted (config : ScenarioConfig) : Prop where
  steps : config.steps ≠ 0
  vehicles : config.vehicleCount ≠ 0
  batch : config.maximumBatchSize ≠ 0
  output : config.outputTokens = 2
  shared : config.sharedPrefixTokens ≠ 0
  prompt : config.sharedPrefixTokens.toNat ≤ config.promptTokens.toNat
  fits : config.promptTokens.toNat + 2 < UInt32.size
  pageSize : config.kvTokensPerPage ≠ 0
  pageCount : config.kvPageCount ≠ 0
  period : config.framePeriodMicroseconds ≠ 0
  deadline : config.decisionDeadlineMicroseconds ≠ 0
  room : config.prefixPages + config.sequencePages * config.vehicleCount.toNat ≤
    config.kvPageCount.toNat

private theorem ceil_le (tokens size : UInt32) (positive : size ≠ 0) :
    tokens.toNat ⌈/⌉ size.toNat ≤ tokens.toNat := by
  have nonzero : 0 < size.toNat :=
    Nat.pos_of_ne_zero fun zero => positive (UInt32.toNat_inj.mp zero)
  rw [ceilDiv_le_iff_le_smul nonzero, smul_eq_mul]
  exact Nat.le_mul_of_pos_left _ nonzero

/-- The pages `validConfig` compares are the exact ones: no sum or product of it wraps. -/
private theorem room_exact (config : ScenarioConfig) (output : config.outputTokens = 2)
    (prompt : config.sharedPrefixTokens.toNat ≤ config.promptTokens.toNat)
    (fits : config.promptTokens.toNat + 2 < UInt32.size) (pageSize : config.kvTokensPerPage ≠ 0)
    (enough : pagesFor config.sharedPrefixTokens config.kvTokensPerPage +
      pagesFor (config.promptTokens + config.outputTokens - config.sharedPrefixTokens)
        config.kvTokensPerPage * config.vehicleCount.toUInt64 ≤ config.kvPageCount.toUInt64) :
    config.prefixPages + config.sequencePages * config.vehicleCount.toNat ≤
      config.kvPageCount.toNat := by
  have total : (config.promptTokens + config.outputTokens).toNat =
      config.promptTokens.toNat + config.outputTokens.toNat := by
    rw [UInt32.toNat_add, output]
    exact Nat.mod_eq_of_lt fits
  have suffix : (config.promptTokens + config.outputTokens - config.sharedPrefixTokens).toNat =
      config.promptTokens.toNat + config.outputTokens.toNat - config.sharedPrefixTokens.toNat := by
    rw [UInt32.toNat_sub_of_le _ _ (UInt32.le_iff_toNat_le.mpr (by omega)), total]
  have own := Serving.pagesFor_toNat
    (config.promptTokens + config.outputTokens - config.sharedPrefixTokens)
    config.kvTokensPerPage pageSize
  have common := Serving.pagesFor_toNat config.sharedPrefixTokens config.kvTokensPerPage pageSize
  have ownSmall := ceil_le
    (config.promptTokens + config.outputTokens - config.sharedPrefixTokens)
    config.kvTokensPerPage pageSize
  have commonSmall := ceil_le config.sharedPrefixTokens config.kvTokensPerPage pageSize
  have ownBound :=
    (config.promptTokens + config.outputTokens - config.sharedPrefixTokens).toNat_lt
  have commonBound := config.sharedPrefixTokens.toNat_lt
  have vehicles := config.vehicleCount.toNat_lt
  rw [UInt64.le_iff_toNat_le, UInt64.toNat_add, UInt64.toNat_mul, UInt32.toNat_toUInt64,
    UInt32.toNat_toUInt64] at enough
  change (_ + _ * _ % _) % _ ≤ _ at enough
  rw [suffix] at own ownSmall ownBound
  change (pagesFor _ _).toNat = config.sequencePages at own
  change (pagesFor _ _).toNat = config.prefixPages at common
  change config.sequencePages ≤ _ at ownSmall
  change config.prefixPages ≤ _ at commonSmall
  have product : config.sequencePages * config.vehicleCount.toNat ≤ (2 ^ 32 - 1) * (2 ^ 32 - 1) :=
    Nat.mul_le_mul (by omega) (by omega)
  rw [own, common] at enough
  rw [Nat.mod_eq_of_lt (by omega), Nat.mod_eq_of_lt (by omega)] at enough
  exact enough

theorem accepted_of_valid (config : ScenarioConfig) (valid : config.validConfig = true) :
    config.Accepted := by
  rw [validConfig] at valid
  split at valid
  next => cases valid
  next checked =>
    simp only [not_or] at checked
    obtain ⟨steps, vehicles, _, batch, output, shared, prompt, fits, pageSize, pageCount, period,
      deadline, _⟩ := checked
    rw [not_not] at output
    have within : config.sharedPrefixTokens.toNat ≤ config.promptTokens.toNat :=
      UInt32.le_iff_toNat_le.mp (UInt32.not_lt.mp prompt)
    have exact : config.promptTokens.toNat + 2 < UInt32.size := by
      rw [output, gt_iff_lt, UInt32.not_lt, UInt32.le_iff_toNat_le] at fits
      have largest : (UInt32.ofNat (UInt32.size - 1) - 2).toNat = UInt32.size - 3 := by decide
      rw [largest] at fits
      simp only [UInt32.size] at fits ⊢
      omega
    have room := of_decide_eq_true valid
    exact ⟨steps, vehicles, batch, output, shared, within, exact, pageSize, pageCount, period,
      deadline, room_exact config output within exact pageSize room⟩

theorem Accepted.total_toNat {config : ScenarioConfig} (accepted : config.Accepted) :
    config.totalTokens.toNat = config.promptTokens.toNat + config.outputTokens.toNat := by
  rw [totalTokens, UInt32.toNat_add, accepted.output]
  exact Nat.mod_eq_of_lt accepted.fits

/-- The shared tokens need a page. -/
theorem Accepted.prefix_pages_pos {config : ScenarioConfig} (accepted : config.Accepted) :
    0 < config.prefixPages := by
  have tokens : 0 < config.sharedPrefixTokens.toNat :=
    Nat.pos_of_ne_zero fun zero => accepted.shared (UInt32.toNat_inj.mp zero)
  have size : 0 < config.kvTokensPerPage.toNat :=
    Nat.pos_of_ne_zero fun zero => accepted.pageSize (UInt32.toNat_inj.mp zero)
  rw [prefixPages, Nat.pos_iff_ne_zero]
  intro none_needed
  have few := (ceilDiv_le_iff_le_smul size).mp none_needed.le
  rw [smul_zero] at few
  omega

end ScenarioConfig

end MarketForge.Workloads
