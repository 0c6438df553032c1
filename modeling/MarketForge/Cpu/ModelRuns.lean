import MarketForge.Cpu.ModelPass
import MarketForge.Library.Observation

/-!
# What the calls of a model depend on

Two models that agree on the weights and on the cached rows before their context are the same to
every caller: whatever the caches hold behind the context, and whatever is left in the scratch
buffers, is written before it is read.
-/
namespace MarketForge.Cpu

open Library FloatOps

namespace CpuSmolLm2

variable {F : Type} [FloatOps F]

/-! ## Calls -/

inductive Call where
  | reset
  | prefill (tokenIds : List UInt32)
  | decode (tokenId : UInt32)
  deriving DecidableEq, Repr

/-- One call: the status or the selected token, and the model after it. -/
def perform (model : CpuSmolLm2 F) : Call → Result (Option (GreedyToken F)) × CpuSmolLm2 F
  | .reset => (.ok none, model.reset)
  | .prefill tokenIds => ((model.prefill tokenIds).1.map some, (model.prefill tokenIds).2)
  | .decode tokenId => ((model.decode tokenId).1.map some, (model.decode tokenId).2)

/-- What a caller sees of a call: its outcome, and the logits after a successful forward pass. -/
def observed (called : Result (Option (GreedyToken F)) × CpuSmolLm2 F) :
    Result (Option (GreedyToken F)) × Option (List F) :=
  match called.1 with
  | .ok (some token) => (.ok (some token), some called.2.logits)
  | outcome => (outcome, none)

def step (model : CpuSmolLm2 F) (call : Call) :
    (Result (Option (GreedyToken F)) × Option (List F)) × CpuSmolLm2 F :=
  (observed (model.perform call), (model.perform call).2)

/-! ## `forward` in its parts -/

theorem forward_refused {model : CpuSmolLm2 F} {tokenIds : List UInt32} {status : Status}
    (refused : model.refusal model.contextLength tokenIds = some status) :
    model.forward tokenIds = (.error status, model) := by
  rw [LoadedModel.refusal] at refused
  rw [forward]
  split at refused
  next bounds =>
    rw [if_pos bounds]
    exact congrArg (fun status => (Except.error status, model)) (Option.some.inj refused)
  next bounds =>
    rw [if_neg bounds]
    obtain ⟨token, found, same⟩ := Option.map_eq_some_iff.mp refused
    rw [found]
    exact congrArg (fun status => (Except.error status, model)) same

/-- The model after a pass that was not refused. -/
def passed (model : CpuSmolLm2 F) (tokenIds : List UInt32) : CpuSmolLm2 F :=
  let called := model.pass model.contextLength tokenIds model.floats
  { model with
    positions := LoadedModel.newPositions model.contextLength tokenIds.length
      ++ model.positions.drop tokenIds.length
    floats := called.2
    contextLength :=
      match model.selected called with
      | .error _ => model.contextLength
      | .ok _ => model.contextLength + UInt32.ofNat tokenIds.length }

theorem forward_passed {model : CpuSmolLm2 F} {tokenIds : List UInt32}
    (admitted : model.refusal model.contextLength tokenIds = none) :
    model.forward tokenIds =
      (model.selected (model.pass model.contextLength tokenIds model.floats),
        model.passed tokenIds) := by
  rw [LoadedModel.refusal] at admitted
  rw [forward]
  split at admitted
  next => cases admitted
  next bounds =>
    rw [if_neg bounds, Option.map_eq_none_iff.mp admitted, passed]
    change (if (model.pass model.contextLength tokenIds model.floats).1.isOk = false
      then _ else _) =
      _
    dsimp only
    cases called : (model.pass model.contextLength tokenIds model.floats).1.isOk with
    | false =>
      rw [if_pos rfl, LoadedModel.selected, if_pos called]
      rfl
    | true =>
      rw [if_neg (by simp), LoadedModel.selected, if_neg (by simp [called])]
      change (match greedyToken (fun token =>
        (model.pass model.contextLength tokenIds model.floats).2 (model.logitsData + token))
        model.spec.vocabularySize.toNat with | .error status => _ | .ok token => _) = _
      cases greedyToken (fun token =>
        (model.pass model.contextLength tokenIds model.floats).2 (model.logitsData + token))
        model.spec.vocabularySize.toNat <;> rfl

/-! ## Agreement -/

/-- Two models with the same weights and limits whose caches agree before their context. -/
structure Agree (left right : CpuSmolLm2 F) : Prop where
  loaded : left.toLoadedModel = right.toLoadedModel
  context : left.contextLength = right.contextLength
  fits : left.contextLength ≤ left.maximumContext
  weights : ∀ address, Within left.fp32Weights.data left.fp32Weights.floats address →
    left.floats address = right.floats address
  keys : ∀ layer < left.spec.layers.toNat, ∀ position < left.contextLength.toNat,
    ∀ column < left.kvWidth, left.keyAt layer position column = right.keyAt layer position column
  values : ∀ layer < left.spec.layers.toNat, ∀ position < left.contextLength.toNat,
    ∀ column < left.kvWidth,
      left.valueAt layer position column = right.valueAt layer position column

section

variable {model : LoadedModel F} {positions otherPositions : List UInt32} {contextLength : UInt32}
  {floats others : FlatMemory F}

omit [FloatOps F] in
/-- Models agree when the same rows are cached in both. -/
theorem agree_of_cached {store : FlatMemory F} {keys values : Nat → Nat → Nat → F}
    (fits : contextLength ≤ model.maximumContext)
    (here : model.Cached store contextLength.toNat keys values floats)
    (there : model.Cached store contextLength.toNat keys values others) :
    Agree ⟨model, positions, contextLength, floats⟩
      ⟨model, otherPositions, contextLength, others⟩ where
  loaded := rfl
  context := rfl
  fits := fits
  weights := fun address inside => (here.held address inside).trans (there.held address inside).symm
  keys := fun layer below position before column inside =>
    (here.keys layer below position before column inside).trans
      (there.keys layer below position before column inside).symm
  values := fun layer below position before column inside =>
    (here.values layer below position before column inside).trans
      (there.values layer below position before column inside).symm

omit [FloatOps F] in
/-- A model holds its own weights and cached rows, and those of each model it agrees with. -/
theorem Agree.cached
    (agree : Agree (⟨model, positions, contextLength, floats⟩ : CpuSmolLm2 F)
      ⟨model, otherPositions, contextLength, others⟩) :
    model.Cached others contextLength.toNat (keyAt ⟨model, otherPositions, contextLength, others⟩)
      (valueAt ⟨model, otherPositions, contextLength, others⟩) floats :=
  ⟨agree.weights, agree.keys, agree.values⟩

omit [FloatOps F] in
theorem Agree.refl (fits : contextLength ≤ model.maximumContext) :
    Agree (⟨model, positions, contextLength, floats⟩ : CpuSmolLm2 F)
      ⟨model, positions, contextLength, floats⟩ :=
  ⟨rfl, rfl, fits, fun _ _ => rfl, fun _ _ _ _ _ _ => rfl, fun _ _ _ _ _ _ => rfl⟩

end

/-- Two calls with one outcome that leave models in agreement, with the same logits on success. -/
structure SameOutcome (left right : Result (GreedyToken F) × CpuSmolLm2 F) : Prop where
  result : left.1 = right.1
  agree : Agree left.2 right.2
  logits : ∀ token, left.1 = .ok token → left.2.logits = right.2.logits

/-- A forward pass is the same in models that agree, and leaves them in agreement. -/
theorem Agree.forward {left right : CpuSmolLm2 F} (agree : Agree left right)
    (tokenIds : List UInt32) : SameOutcome (left.forward tokenIds) (right.forward tokenIds) := by
  obtain ⟨model, positions, contextLength, floats⟩ := left
  obtain ⟨other, otherPositions, otherLength, others⟩ := right
  obtain rfl : model = other := agree.loaded
  obtain rfl : contextLength = otherLength := agree.context
  have fits := agree.fits
  cases checked : model.refusal contextLength tokenIds with
  | some status =>
    rw [forward_refused checked, forward_refused checked]
    exact ⟨rfl, agree, fun _ done => nomatch done⟩
  | none =>
    obtain ⟨extent, valid⟩ := model.refusal_none fits checked
    have here := agree.cached
    have there := (@Agree.refl F model otherPositions contextLength others fits).cached
    have status := model.pass_status floats others extent
    have after := model.context_after extent (Nat.le_refl _)
    have room : contextLength + UInt32.ofNat tokenIds.length ≤ model.maximumContext := by
      rw [UInt32.le_iff_toNat_le, after]
      exact extent.fits
    obtain ⟨same, logits⟩ := model.pass_related here there extent valid
    rw [forward_passed checked, forward_passed checked]
    refine ⟨same, ?_, ?_⟩
    · rw [passed, passed]
      dsimp only at same ⊢
      rw [← same]
      cases outcome : model.selected (model.pass contextLength tokenIds floats) with
      | error failed =>
        exact agree_of_cached fits (here.frame extent (model.pass_frame floats extent valid))
          (there.frame extent (model.pass_frame others extent valid))
      | ok token =>
        have succeeded := model.selected_ok outcome
        obtain ⟨left, _⟩ := model.pass_spec here extent valid succeeded
        obtain ⟨right, _⟩ := model.pass_spec there extent valid (status ▸ succeeded)
        rw [← after] at left right
        exact agree_of_cached room left right
    · intro token outcome
      exact List.map_congr_left fun index listed =>
        logits (model.selected_ok outcome) index (List.mem_range.mp listed)

/-- A forward pass that fails leaves the model in agreement with the one before it. -/
theorem forward_failed {model : CpuSmolLm2 F} {tokenIds : List UInt32} {status : Status}
    (fits : model.contextLength ≤ model.maximumContext)
    (failed : (model.forward tokenIds).1 = .error status) :
    Agree (model.forward tokenIds).2 model := by
  obtain ⟨model, positions, contextLength, floats⟩ := model
  cases checked : model.refusal contextLength tokenIds with
  | some refused =>
    rw [forward_refused checked]
    exact Agree.refl fits
  | none =>
    obtain ⟨extent, valid⟩ := model.refusal_none fits checked
    have here := (@Agree.refl F model positions contextLength floats fits).cached
    rw [forward_passed checked] at failed ⊢
    rw [passed]
    dsimp only at failed ⊢
    rw [failed]
    exact agree_of_cached fits (here.frame extent (model.pass_frame floats extent valid)) here

/-- The weights outlive a reset. -/
theorem reset_weights (model : CpuSmolLm2 F) (address : Nat)
    (inside : Within model.fp32Weights.data model.fp32Weights.floats address) :
    model.reset.floats address = model.floats address :=
  fill_frame _ _ _ model.floats address
    (model.separated.weightsKv.outside ⟨Nat.le_refl _, Nat.le_refl _⟩ address inside)

omit [FloatOps F] in
/-- Models of one load with no context agree. -/
theorem agree_empty {left right : CpuSmolLm2 F} (loaded : left.toLoadedModel = right.toLoadedModel)
    (leftEmpty : left.contextLength = 0) (rightEmpty : right.contextLength = 0)
    (weights : ∀ address, Within left.fp32Weights.data left.fp32Weights.floats address →
      left.floats address = right.floats address) : Agree left right where
  loaded := loaded
  context := leftEmpty.trans rightEmpty.symm
  fits := by
    rw [leftEmpty, UInt32.le_iff_toNat_le]
    exact Nat.zero_le _
  weights := weights
  keys := fun layer _ position before => by
    rw [leftEmpty] at before
    exact absurd before (Nat.not_lt_zero position)
  values := fun layer _ position before => by
    rw [leftEmpty] at before
    exact absurd before (Nat.not_lt_zero position)

omit [FloatOps F] in
theorem Agree.refused {left right : CpuSmolLm2 F} (agree : Agree left right) (status : Status) :
    SameOutcome (.error status, left) (.error status, right) :=
  ⟨rfl, agree, fun _ done => nomatch done⟩

theorem Agree.prefill {left right : CpuSmolLm2 F} (agree : Agree left right)
    (tokenIds : List UInt32) : SameOutcome (left.prefill tokenIds) (right.prefill tokenIds) := by
  rw [CpuSmolLm2.prefill, CpuSmolLm2.prefill, ← agree.context, ← agree.loaded]
  split
  next => exact agree.refused _
  next => exact agree.forward tokenIds

theorem Agree.decode {left right : CpuSmolLm2 F} (agree : Agree left right) (tokenId : UInt32) :
    SameOutcome (left.decode tokenId) (right.decode tokenId) := by
  rw [CpuSmolLm2.decode, CpuSmolLm2.decode, ← agree.context]
  split
  next => exact agree.refused _
  next => exact agree.forward [tokenId]

theorem Agree.reset {left right : CpuSmolLm2 F} (agree : Agree left right) :
    Agree left.reset right.reset := by
  refine agree_empty agree.loaded rfl rfl fun address inside => ?_
  rw [reset_weights left address inside, reset_weights right address (agree.loaded ▸ inside)]
  exact agree.weights address inside

omit [FloatOps F] in
theorem SameOutcome.observed {left right : Result (GreedyToken F) × CpuSmolLm2 F}
    (same : SameOutcome left right) :
    observed (left.1.map some, left.2) = observed (right.1.map some, right.2) := by
  have logits := same.logits
  rw [CpuSmolLm2.observed, CpuSmolLm2.observed, ← same.result]
  cases outcome : left.1 with
  | error status => rfl
  | ok token =>
    dsimp only [Except.map]
    rw [logits token outcome]

/-- Every call is the same in models that agree. -/
theorem Agree.step {left right : CpuSmolLm2 F} (agree : Agree left right) (call : Call) :
    (left.step call).1 = (right.step call).1 ∧ Agree (left.step call).2 (right.step call).2 := by
  cases call with
  | reset => exact ⟨rfl, agree.reset⟩
  | prefill tokenIds => exact ⟨(agree.prefill tokenIds).observed, (agree.prefill tokenIds).agree⟩
  | decode tokenId => exact ⟨(agree.decode tokenId).observed, (agree.decode tokenId).agree⟩

/-- A call that fails leaves the model in agreement with the one before it. -/
theorem perform_failed {model : CpuSmolLm2 F} {call : Call} {status : Status}
    (fits : model.contextLength ≤ model.maximumContext)
    (failed : (model.perform call).1 = .error status) : Agree (model.perform call).2 model := by
  have same : Agree model model := Agree.refl fits
  cases call with
  | reset => cases failed
  | prefill tokenIds =>
    rw [perform, CpuSmolLm2.prefill] at failed ⊢
    dsimp only at failed ⊢
    split at failed
    next bounds => rwa [if_pos bounds]
    next bounds =>
      rw [if_neg bounds]
      cases outcome : (model.forward tokenIds).1 with
      | error status => exact forward_failed fits outcome
      | ok token =>
        rw [outcome] at failed
        cases failed
  | decode tokenId =>
    rw [perform, CpuSmolLm2.decode] at failed ⊢
    dsimp only at failed ⊢
    split at failed
    next empty => rwa [if_pos empty]
    next some =>
      rw [if_neg some]
      cases outcome : (model.forward [tokenId]).1 with
      | error status => exact forward_failed fits outcome
      | ok token =>
        rw [outcome] at failed
        cases failed

/-- Models that agree return the same outcomes and logits for every sequence of calls. A failed
call changes nothing that later calls show, and a reset leaves what a fresh load leaves. -/
theorem stale_caches_unobserved (left right : CpuSmolLm2 F) (agree : Agree left right)
    (calls : List Call) :
    observations step left calls = observations step right calls ∧
      (∀ failing status, (left.perform failing).1 = .error status →
        observations step (left.perform failing).2 calls = observations step left calls) ∧
      (∀ fresh : CpuSmolLm2 F, fresh.toLoadedModel = left.toLoadedModel →
        fresh.contextLength = 0 →
        (∀ address, Within left.fp32Weights.data left.fp32Weights.floats address →
          left.floats address = fresh.floats address) →
        observations step left.reset calls = observations step fresh calls) := by
  have each := fun (left right : CpuSmolLm2 F) (agree : Agree left right) call => agree.step call
  refine ⟨observations_eq step Agree each left right agree calls, ?_, ?_⟩
  · intro failing status failed
    exact observations_eq step Agree each _ _ (perform_failed agree.fits failed) calls
  · intro fresh loaded empty weights
    refine observations_eq step Agree each _ _ ?_ calls
    refine agree_empty loaded.symm rfl empty fun address inside => ?_
    rw [reset_weights left address inside]
    exact weights address inside

end CpuSmolLm2

/-! ## A small model -/

/-- Integers in the place of floats. -/
structure Whole where
  number : Int
  deriving DecidableEq, Repr

instance : FloatOps Whole where
  add left right := ⟨left.number + right.number⟩
  sub left right := ⟨left.number - right.number⟩
  mul left right := ⟨left.number * right.number⟩
  div left right := ⟨left.number / right.number⟩
  neg value := ⟨-value.number⟩
  zero := ⟨0⟩
  one := ⟨1⟩
  negInfinity := ⟨-1000⟩
  sqrt := id
  exp := id
  cos := id
  sin := id
  pow base _ := base
  ofNat number := ⟨number⟩
  lt left right := decide (left.number < right.number)
  le left right := decide (left.number ≤ right.number)
  isFinite _ := true

def smallLayer : LayerWeights Nat where
  inputNorm := makeF32View 7 [2]
  attention :=
    { query := makeF32View 9 [2, 2]
      key := makeF32View 13 [2, 2]
      value := makeF32View 17 [2, 2]
      output := makeF32View 21 [2, 2] }
  postAttentionNorm := makeF32View 25 [2]
  mlp :=
    { gate := makeF32View 27 [1, 2]
      up := makeF32View 29 [1, 2]
      down := makeF32View 31 [2, 1] }

/-- One layer with one head of two columns, and room for two tokens. -/
def smallModel : LoadedModel Whole where
  spec :=
    { architecture := .smollm2Llama, layers := 1, hiddenSize := 2, intermediateSize := 1,
      queryHeads := 1, kvHeads := 1, headDim := 2, vocabularySize := 2, maxPositions := 2,
      rmsNormEpsilon := ⟨1⟩, ropeTheta := ⟨1024⟩, qkvBias := false,
      tiedEmbeddings := true }
  fp32Weights := ⟨1, 32⟩
  embedding := makeF32View 1 [2, 2]
  finalNorm := makeF32View 5 [2]
  outputHead := makeF32View 1 [2, 2]
  layers := [smallLayer]
  kv := ⟨33, 8⟩
  execution := ⟨41, 8⟩
  workspace := ⟨49, 24⟩
  maximumContext := 2
  maximumPrefillTokens := 2
  layer_count := rfl
  embedding_elements := by decide
  weights_contained := by decide
  kv_floats := by decide
  execution_floats := by decide
  buffers_separate := by decide

namespace CpuSmolLm2

/-- Two models after one token, with different rows behind it and different scratch. -/
theorem stale_caches_unobserved_small :
    let left : CpuSmolLm2 Whole := ⟨smallModel, [0, 1], 1, fun _ => ⟨1⟩⟩
    let right : CpuSmolLm2 Whole := ⟨smallModel, [5, 7], 1, fun address =>
      if address = 35 ∨ address = 40 ∨ 41 ≤ address then ⟨7⟩ else ⟨1⟩⟩
    observations step left [.decode 1, .reset, .prefill [0, 1], .decode 0] =
      observations step right [.decode 1, .reset, .prefill [0, 1], .decode 0] := by
  refine (stale_caches_unobserved _ _ ?_ _).1
  -- the weights and the first row of each cache lie before the address 40, apart from 35
  have cachedKey : ∀ layer < 1, ∀ position < 1, ∀ column < 2,
      ¬(smallModel.keyCache layer + position * smallModel.kvWidth + column = 35 ∨
        smallModel.keyCache layer + position * smallModel.kvWidth + column = 40 ∨
        41 ≤ smallModel.keyCache layer + position * smallModel.kvWidth + column) := by decide
  have cachedValue : ∀ layer < 1, ∀ position < 1, ∀ column < 2,
      ¬(smallModel.valueCache layer + position * smallModel.kvWidth + column = 35 ∨
        smallModel.valueCache layer + position * smallModel.kvWidth + column = 40 ∨
        41 ≤ smallModel.valueCache layer + position * smallModel.kvWidth + column) := by decide
  constructor
  case loaded => rfl
  case context => rfl
  case fits => decide
  case weights =>
    rintro address ⟨first, last⟩
    change address < 33 at last
    exact (if_neg (by omega)).symm
  case keys =>
    exact fun layer below position before column inside =>
      (if_neg (cachedKey layer below position before column inside)).symm
  case values =>
    exact fun layer below position before column inside =>
      (if_neg (cachedValue layer below position before column inside)).symm

end CpuSmolLm2

end MarketForge.Cpu
