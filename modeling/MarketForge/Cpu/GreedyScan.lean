import MarketForge.Cpu.Binary32
import MarketForge.Cpu.IncrementalDecode
import MarketForge.Cuda.GreedyRow

/-!
# The two largest logits

The scan of `forward` keeps the best logit and the runner-up in one pass. On finite logits it ends
with the lowest of the indices of the maximum and with the maximum of the others; the first logit
that is not finite ends it with a failure that leaves the context as it was.
-/
namespace MarketForge.Cpu

open BinaryFloat Cuda CpuSmolLm2 Library

/-! ## Comparisons of binary32 -/

/-- The values of binary32 compare as extended rational numbers. -/
theorem binary32_compares (library : MathLibrary) :
    @Compares Value ℚ (binary32Ops library) _ Value.score := by
  refine @Compares.mk Value ℚ (binary32Ops library) _ Value.score ?_ ?_ rfl
  · intro x y
    change less x y = true ↔ _
    rcases x with _ | (_ | _) | x <;> rcases y with _ | (_ | _) | y <;> simp [less, Value.score]
    exact WithBot.coe_lt_coe.mpr (WithTop.coe_lt_top x)
  · intro x
    change finite x = true ↔ _
    rcases x with _ | (_ | _) | x <;> simp [finite, Value.score]

section

variable {F L : Type} [FloatOps F] [LinearOrder L] {read : F → Score (WithBot (WithTop L))}

/-! ## The runner-up -/

/-- What the loop knows besides the best logit: the greatest of the other columns, or minus
infinity as long as there is none. -/
structure RunnerUp (read : F → Score (WithBot (WithTop L))) (logits : Nat → F) (count : Nat)
    (best : GreedyToken F) : Prop where
  start : count = 0 → best.logit = FloatOps.negInfinity
  alone : count ≤ 1 → best.runnerUpLogit = FloatOps.negInfinity
  held : 1 < count → ∃ column < count, column ≠ best.tokenId.toNat ∧
    best.runnerUpLogit = logits column
  above : ∀ column < count, column ≠ best.tokenId.toNat →
    (read (logits column)).rank ≤ (read best.runnerUpLogit).rank

theorem RunnerUp.number (compares : Compares read) {logits : Nat → F} {count : Nat}
    (finite : ∀ column < count, FloatOps.isFinite (logits column) = true) {best : GreedyToken F}
    (behind : RunnerUp read logits count best) : ∃ a, read best.runnerUpLogit = .number a := by
  rcases Nat.lt_or_ge 1 count with several | few
  · obtain ⟨column, below, _, same⟩ := behind.held several
    obtain ⟨a, value⟩ := (compares.isFinite _).mp (finite column below)
    exact ⟨a, same ▸ value⟩
  · exact ⟨⊥, behind.alone few ▸ compares.negInfinity⟩

/-- A finite logit is greater than minus infinity. -/
theorem lt_finite (compares : Compares read) {x y : F} (lowest : x = FloatOps.negInfinity)
    (finite : FloatOps.isFinite y = true) : FloatOps.lt x y = true := by
  obtain ⟨a, value⟩ := (compares.isFinite y).mp finite
  exact (compares.lt x y).mpr ⟨⊥, _, lowest ▸ compares.negInfinity, value, WithBot.bot_lt_coe _⟩

/-- The three cases of a turn: the old best becomes the runner-up, the new logit does, or neither
changes. -/
theorem greedy_turn_runner_up (compares : Compares read) {logits : Nat → F} {count : Nat}
    (small : count < 2 ^ 32)
    (finite : ∀ column < count + 1, FloatOps.isFinite (logits column) = true)
    {best next : GreedyToken F} (number : ∃ a, read best.logit = .number a)
    (found : LoopBest read logits count best) (behind : RunnerUp read logits count best)
    (turned : greedyTurn logits count (.ok best) = .ok next) :
    RunnerUp read logits (count + 1) next := by
  obtain ⟨a, bestRead⟩ := number
  have last := finite count (Nat.lt_succ_self count)
  obtain ⟨r, runnerRead⟩ := behind.number compares fun column below => finite column (by omega)
  have index : (UInt32.ofNat count).toNat = count := UInt32.toNat_ofNat_of_lt' small
  simp only [greedyTurn, last, Bool.true_eq_false, if_false] at turned
  by_cases wins : FloatOps.lt best.logit (logits count) = true
  · rw [if_pos wins] at turned
    obtain rfl := Except.ok.inj turned
    -- the old best, above every earlier column, becomes the runner-up
    refine ⟨by omega, fun few => ?_, fun several => ?_, fun column below other => ?_⟩
    · exact behind.start (by omega)
    · obtain ⟨before, logit⟩ := found.held (by omega)
      exact ⟨best.tokenId.toNat, by omega, by dsimp only; omega, logit⟩
    · dsimp only at other ⊢
      rcases found.above column (by omega) with less | ⟨same, _⟩
      · exact less.le
      · exact same.le
  rw [if_neg wins] at turned
  -- minus infinity always loses, so some column is held already
  have later : count ≠ 0 := fun first => wins (lt_finite compares (behind.start first) last)
  have before := (found.held later).1
  by_cases second : FloatOps.lt best.runnerUpLogit (logits count) = true
  · rw [if_pos second] at turned
    obtain rfl := Except.ok.inj turned
    have above := (compares.lt_iff_rank runnerRead).mp second
    refine ⟨by omega, by omega, fun _ => ⟨count, by omega, by dsimp only; omega, rfl⟩, ?_⟩
    intro column below other
    rcases Nat.lt_succ_iff_lt_or_eq.mp below with old | rfl
    · exact (behind.above column old other).trans above.le
    · exact le_refl _
  · -- nothing changes, and a runner-up that a finite logit does not pass was a logit
    rw [if_neg second] at turned
    obtain rfl := Except.ok.inj turned
    have several : 1 < count := by
      by_contra few
      exact second (lt_finite compares (behind.alone (by omega)) last)
    obtain ⟨column, below, other, same⟩ := behind.held several
    refine ⟨by omega, by omega, fun _ => ⟨column, by omega, other, same⟩, ?_⟩
    intro column below other
    rcases Nat.lt_succ_iff_lt_or_eq.mp below with old | rfl
    · exact behind.above column old other
    · rwa [compares.lt_iff_rank runnerRead, not_lt] at second

/-- The lowest index of the maximum, the maximum, and the maximum of the other entries. -/
structure TopTwo (read : F → Score (WithBot (WithTop L))) (logits : Nat → F) (size : Nat)
    (token : GreedyToken F) : Prop where
  inside : token.tokenId.toNat < size
  logit : token.logit = logits token.tokenId.toNat
  greatest : ∀ column < size, (read (logits column)).rank ≤ (read token.logit).rank
  lowest : ∀ column < token.tokenId.toNat, (read (logits column)).rank < (read token.logit).rank
  alone : size = 1 → token.runnerUpLogit = FloatOps.negInfinity
  runnerUp : size ≠ 1 → ∃ column < size, column ≠ token.tokenId.toNat ∧
    token.runnerUpLogit = logits column
  second : ∀ column < size, column ≠ token.tokenId.toNat →
    (read (logits column)).rank ≤ (read token.runnerUpLogit).rank
  tied : (∃ column < size, column ≠ token.tokenId.toNat ∧
    read (logits column) = read token.logit) → read token.runnerUpLogit = read token.logit

theorem greedy_token_top_two (compares : Compares read) {logits : Nat → F} {size : Nat}
    (small : size ≤ 2 ^ 32) (nonempty : size ≠ 0)
    (finite : ∀ column < size, FloatOps.isFinite (logits column) = true) :
    ∃ token, greedyToken logits size = .ok token ∧ TopTwo read logits size token := by
  obtain ⟨token, selected, found, behind⟩ : ∃ best, greedyToken logits size = .ok best ∧
      LoopBest read logits size best ∧ RunnerUp read logits size best := by
    clear nonempty
    induction size with
    | zero =>
      obtain ⟨best, looped, _, found⟩ := greedy_token_best compares small finite
      obtain rfl := Except.ok.inj looped
      exact ⟨_, rfl, found, fun _ => rfl, fun _ => rfl, by omega, by omega⟩
    | succ count ih =>
      obtain ⟨best, looped, found, behind⟩ := ih (by omega) fun column below =>
        finite column (by omega)
      obtain ⟨same, again, number, _⟩ := greedy_token_best compares (show count ≤ 2 ^ 32 by omega)
        fun column below => finite column (by omega)
      obtain rfl := Except.ok.inj (again.symm.trans looped)
      obtain ⟨next, turned, _, foundNext⟩ := greedy_turn_best compares (by omega)
        (finite count (Nat.lt_succ_self count)) number found
      refine ⟨next, ?_, foundNext, greedy_turn_runner_up compares (by omega) finite number found
        behind turned⟩
      change greedyTurn logits count (greedyToken logits count) = _
      rw [looped, turned]
  obtain ⟨inside, logit⟩ := found.held nonempty
  have greatest : ∀ column < size, (read (logits column)).rank ≤ (read token.logit).rank := by
    intro column below
    rcases found.above column below with less | ⟨same, _⟩
    · exact less.le
    · exact same.le
  refine ⟨token, selected, inside, logit, greatest, ?_, ?_, ?_, behind.above, ?_⟩
  · intro column early
    rcases found.above column (by omega) with less | ⟨_, later⟩
    · exact less
    · omega
  · exact fun one => behind.alone (by omega)
  · exact fun several => behind.held (by omega)
  · rintro ⟨column, below, other, same⟩
    obtain ⟨held, heldBelow, _, value⟩ := behind.held (by omega)
    -- the runner-up lies between the tied column and the maximum
    apply Score.rank_inj
    apply le_antisymm
    · rw [value]
      exact greatest held heldBelow
    · rw [← same]
      exact behind.above column below other

/-! ## Logits that are not finite -/

/-- The loop ends at the first logit that is not finite; the turns behind it keep the failure. -/
theorem greedy_token_not_finite {logits : Nat → F} {size column : Nat} (inside : column < size)
    (broken : FloatOps.isFinite (logits column) = false)
    (first : ∀ earlier < column, FloatOps.isFinite (logits earlier) = true) :
    greedyToken logits size = .error (.failure .invalidArgument (UInt32.ofNat column)) := by
  induction size with
  | zero => omega
  | succ size ih =>
    change greedyTurn logits size (greedyToken logits size) = _
    rcases Nat.lt_succ_iff_lt_or_eq.mp inside with before | rfl
    · rw [ih before, greedyTurn]
    · -- all columns before the last are finite, so the loop arrives there with a token
      obtain ⟨token, looped⟩ := greedy_token_finite logits column first
      rw [looped, greedyTurn]
      simp [broken]

/-- The outcome of the scan over a row of finite logits. -/
def Selects (read : F → Score (WithBot (WithTop L))) (logits : Nat → F) (size : Nat)
    (outcome : Result (GreedyToken F)) : Prop :=
  ∃ token, outcome = .ok token ∧ TopTwo read logits size token

/-- The outcome of the scan over a row with a logit that is not finite: the first of them is
reported. -/
def Reports (logits : Nat → F) (size : Nat) (outcome : Result (GreedyToken F)) : Prop :=
  ∃ column < size, FloatOps.isFinite (logits column) = false ∧
    (∀ earlier < column, FloatOps.isFinite (logits earlier) = true) ∧
    outcome = .error (.failure .invalidArgument (UInt32.ofNat column))

theorem greedy_token_reports {logits : Nat → F} {size : Nat}
    (broken : ∃ column < size, FloatOps.isFinite (logits column) = false) :
    Reports logits size (greedyToken logits size) := by
  classical
  have found := Nat.find_spec broken
  have first : ∀ earlier < Nat.find broken, FloatOps.isFinite (logits earlier) = true := by
    intro earlier before
    have absent := Nat.find_min broken before
    have small := before.trans found.1
    simpa [small] using absent
  exact ⟨Nat.find broken, found.1, found.2, first, greedy_token_not_finite found.1 found.2 first⟩

/-! ## The pass -/

/-- What the calls of a pass leave in the row of the logits. -/
def CpuSmolLm2.computedLogits (model : CpuSmolLm2 F) (tokenIds : List UInt32) (column : Nat) : F :=
  (model.pass model.contextLength tokenIds model.floats).2 (model.logitsData + column)

omit [FloatOps F] in
theorem vocabulary_nonempty {model : CpuSmolLm2 F} {tokenIds : List UInt32}
    (admitted : model.refusal model.contextLength tokenIds = none) :
    model.spec.vocabularySize.toNat ≠ 0 := by
  rw [LoadedModel.refusal] at admitted
  split at admitted
  next => cases admitted
  next bounds =>
    rw [not_or, List.isEmpty_iff] at bounds
    obtain ⟨token, listed⟩ := List.exists_mem_of_ne_nil _ bounds.1
    have valid := List.find?_eq_none.mp (Option.map_eq_none_iff.mp admitted) token listed
    have below : token.toNat < model.spec.vocabularySize.toNat := by
      simpa [UInt32.lt_iff_toNat_lt] using valid
    omega

/-- A pass that reaches the scan ends with its outcome, and only a token advances the context. -/
theorem forward_scans {model : CpuSmolLm2 F} {tokenIds : List UInt32}
    (admitted : model.refusal model.contextLength tokenIds = none)
    (ran : (model.pass model.contextLength tokenIds model.floats).1.isOk = true) :
    (model.forward tokenIds).1 =
        greedyToken (model.computedLogits tokenIds) model.spec.vocabularySize.toNat ∧
      ∀ status, (model.forward tokenIds).1 = .error status →
        (model.forward tokenIds).2.contextLength = model.contextLength := by
  have outcome : (model.forward tokenIds).1 =
      model.selected (model.pass model.contextLength tokenIds model.floats) := by
    rw [forward_passed admitted]
  refine ⟨?_, fun status failed => ?_⟩
  · rw [outcome, LoadedModel.selected, if_neg (by simp [ran])]
    rfl
  · rw [outcome] at failed
    rw [forward_passed admitted, passed]
    dsimp only
    rw [failed]

/-- The scan of `forward` finds the two largest of any finite logits: the lowest index of the
maximum, the maximum, and the maximum of the entries that remain without that index. On other
logits it reports the first that is not finite, and the context stays as long as it was. -/
theorem top_two_scan (compares : Compares read) :
    (∀ (logits : Nat → F) (size : UInt32), size ≠ 0 →
      (∀ column < size.toNat, FloatOps.isFinite (logits column) = true) →
        Selects read logits size.toNat (greedyToken logits size.toNat)) ∧
    (∀ (logits : Nat → F) (size : UInt32),
      (∃ column < size.toNat, FloatOps.isFinite (logits column) = false) →
        Reports logits size.toNat (greedyToken logits size.toNat)) ∧
    ∀ (model : CpuSmolLm2 F) (tokenIds : List UInt32),
      model.refusal model.contextLength tokenIds = none →
      (model.pass model.contextLength tokenIds model.floats).1.isOk = true →
      let logits := model.computedLogits tokenIds
      let size := model.spec.vocabularySize.toNat
      ((∀ column < size, FloatOps.isFinite (logits column) = true) →
        Selects read logits size (model.forward tokenIds).1) ∧
      ((∃ column < size, FloatOps.isFinite (logits column) = false) →
        Reports logits size (model.forward tokenIds).1 ∧
          (model.forward tokenIds).2.contextLength = model.contextLength) := by
  refine ⟨fun logits size nonempty finite => ?_, fun logits size broken =>
    greedy_token_reports broken, fun model tokenIds admitted ran => ?_⟩
  · exact greedy_token_top_two compares size.toNat_lt.le
      (fun none => nonempty (UInt32.toNat_inj.mp none)) finite
  intro logits size
  obtain ⟨scans, kept⟩ := forward_scans admitted ran
  constructor
  · intro finite
    rw [scans]
    exact greedy_token_top_two compares model.spec.vocabularySize.toNat_lt.le
      (vocabulary_nonempty admitted) finite
  · intro broken
    have reports := greedy_token_reports broken
    rw [← scans] at reports
    have ⟨_, _, _, _, failed⟩ := reports
    exact ⟨reports, kept _ failed⟩

end

/-- A mathematics library that is right where a pass over zeros calls it. -/
def zeroLibrary : MathLibrary where
  sqrt := id
  exp _ := .finite 1
  cos _ := .finite 1
  sin := id
  pow _ _ := .finite 1

/-- The small model over binary32. -/
def smallBinary : LoadedModel Value :=
  { smallModel with
    spec := { smallModel.spec with rmsNormEpsilon := .finite 1, ropeTheta := .finite 1024 } }

/-- A row with a tie and a NaN behind it, a pass over zeros and a pass over NaN. -/
theorem top_two_scan_small :
    let row : Nat → Value := fun column =>
      [.finite 3, .finite 5, .finite 5, .finite 4].getD column .nan
    let zeros : CpuSmolLm2 Value := ⟨smallBinary, [0, 0], 0, fun _ => .finite 0⟩
    let broken : CpuSmolLm2 Value := ⟨smallBinary, [0, 0], 0, fun _ => .nan⟩
    letI := binary32Ops zeroLibrary
    Selects Value.score row 4 (greedyToken row 4) ∧ Reports row 5 (greedyToken row 5) ∧
      Selects Value.score (zeros.computedLogits [1]) 2 (zeros.forward [1]).1 ∧
      Reports (broken.computedLogits [1]) 2 (broken.forward [1]).1 ∧
      (broken.forward [1]).2.contextLength = 0 := by
  intro row zeros broken
  let floats := binary32Ops zeroLibrary
  obtain ⟨finiteRow, brokenRow, passed⟩ :=
    @top_two_scan Value ℚ floats _ Value.score (binary32_compares zeroLibrary)
  refine ⟨finiteRow row 4 (by decide) (by decide), brokenRow row 5 ⟨4, by decide, rfl⟩, ?_, ?_⟩
  · exact (passed zeros [1] (by decide +kernel) (by decide +kernel)).1 (by decide +kernel)
  · exact (passed broken [1] (by decide +kernel) (by decide +kernel)).2
      ⟨0, by decide, by decide +kernel⟩

end MarketForge.Cpu
