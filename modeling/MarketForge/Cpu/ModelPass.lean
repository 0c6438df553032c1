import MarketForge.Cpu.ModelForward

/-!
# A forward pass as a function of the cached rows

`forward` refuses its tokens, or runs its calls and selects a token. What a pass that succeeds
leaves in the caches and in the logits is a function of the weights, the cached rows before the
context and the tokens; a pass that fails leaves the weights and those rows.
-/
namespace MarketForge.Cpu

open Library FloatOps

namespace LoadedModel

variable {F : Type} (model : LoadedModel F)

/-! ## The parts of `forward` -/

/-- The status of the checks before the first write, when one fails. -/
def refusal (contextLength : UInt32) (tokenIds : List UInt32) : Option Status :=
  if tokenIds.isEmpty ∨ model.maximumPrefillTokens.toNat < tokenIds.length
      ∨ (model.maximumContext - contextLength).toNat < tokenIds.length then
    some (.failure .invalidArgument)
  else
    (tokenIds.find? fun token => model.spec.vocabularySize ≤ token).map
      (.failure .invalidArgument ·)

def newPositions (contextLength : UInt32) (tokenCount : Nat) : List UInt32 :=
  (List.range tokenCount).map fun token => contextLength + UInt32.ofNat token

theorem refusal_none {contextLength : UInt32} {tokenIds : List UInt32}
    (fits : contextLength ≤ model.maximumContext)
    (admitted : model.refusal contextLength tokenIds = none) :
    model.Extent contextLength.toNat tokenIds.length ∧
      ∀ token ∈ tokenIds, token < model.spec.vocabularySize := by
  rw [refusal] at admitted
  split at admitted
  next => cases admitted
  next bounds =>
    simp only [not_or, Nat.not_lt, List.isEmpty_iff] at bounds
    obtain ⟨some, few, room⟩ := bounds
    rw [UInt32.toNat_sub_of_le _ _ fits] at room
    have below := UInt32.le_iff_toNat_le.mp fits
    refine ⟨⟨List.length_pos_iff.mpr some, few, by omega⟩, ?_⟩
    intro token listed
    have valid := List.find?_eq_none.mp (Option.map_eq_none_iff.mp admitted) token listed
    simpa using valid

theorem context_after {contextLength : UInt32} {tokens : Nat}
    (extent : model.Extent contextLength.toNat tokens) {count : Nat} (few : count ≤ tokens) :
    (contextLength + UInt32.ofNat count).toNat = contextLength.toNat + count := by
  have fits := extent.fits
  have bound := model.maximumContext.toNat_lt
  have word : (UInt32.ofNat count).toNat = count :=
    UInt32.toNat_ofNat_of_lt' (Nat.lt_of_le_of_lt few extent.small)
  rw [UInt32.toNat_add, word, Nat.mod_eq_of_lt (by omega)]

theorem length_follows {contextLength : UInt32} {tokens : Nat}
    (extent : model.Extent contextLength.toNat tokens) :
    ([contextLength + UInt32.ofNat tokens].getD 0 0).toNat = contextLength.toNat + tokens :=
  model.context_after extent (Nat.le_refl tokens)

theorem positions_follow {contextLength : UInt32} {tokens : Nat}
    (extent : model.Extent contextLength.toNat tokens) :
    ∀ token < tokens, ((newPositions contextLength tokens).getD token 0).toNat =
      contextLength.toNat + token := by
  intro token below
  rw [newPositions, List.getD_eq_getElem?_getD, List.getElem?_map, List.getElem?_range below]
  exact model.context_after extent (Nat.le_of_lt below)

section

variable [FloatOps F]

/-- The calls of a forward pass. -/
def passCalls (contextLength : UInt32) (tokenCount : Nat) : List (Operation F) :=
  CpuSmolLm2.layerCalls model tokenCount (newPositions contextLength tokenCount)
      [contextLength + UInt32.ofNat tokenCount]
    ++ CpuSmolLm2.headCalls model tokenCount

/-- The status and the memory after the calls. -/
def pass (contextLength : UInt32) (tokenIds : List UInt32) (memory : FlatMemory F) :
    Status × FlatMemory F :=
  runAll (model.passCalls contextLength tokenIds.length)
    (CpuSmolLm2.embedTokens model tokenIds memory)

/-- The token that the calls select. -/
def selected (called : Status × FlatMemory F) : Result (GreedyToken F) :=
  if called.1.isOk = false then .error called.1
  else CpuSmolLm2.greedyToken (fun token => called.2 (model.logitsData + token))
    model.spec.vocabularySize.toNat

theorem greedy_token_congr (logits other : Nat → F) (size : Nat)
    (same : ∀ token < size, logits token = other token) :
    CpuSmolLm2.greedyToken logits size = CpuSmolLm2.greedyToken other size := by
  rw [CpuSmolLm2.greedyToken, CpuSmolLm2.greedyToken]
  apply for_range_congr
  intro token below current
  cases current with
  | error status => rfl
  | ok best => rw [CpuSmolLm2.greedyTurn, CpuSmolLm2.greedyTurn, same token below]

/-! ## What is cached -/

/-- The weights are those of the store, and the caches hold rows for the positions of a context. -/
structure Cached (store : FlatMemory F) (context : Nat) (keys values : Nat → Nat → Nat → F)
    (memory : FlatMemory F) : Prop where
  held : Holds model.fp32Weights store memory
  keys : ∀ layer < model.spec.layers.toNat,
    StoresRows memory (model.keyCache layer) context model.kvWidth (keys layer)
  values : ∀ layer < model.spec.layers.toNat,
    StoresRows memory (model.valueCache layer) context model.kvWidth (values layer)

omit [FloatOps F] in
/-- The cached rows outlive writes elsewhere. -/
theorem Cached.kept {model : LoadedModel F} {store before after : FlatMemory F} {context : Nat}
    {keys values : Nat → Nat → Nat → F} (cached : model.Cached store context keys values before)
    (written : Nat → Prop)
    (weights : ∀ address, Within model.fp32Weights.data model.fp32Weights.floats address →
      ¬written address)
    (rows : ∀ index < 2 * model.spec.layers.toNat, ∀ address,
      Within (model.cacheAt index) (context * model.kvWidth) address → ¬written address)
    (same : SameExcept written before after) : model.Cached store context keys values after := by
  constructor
  case held => exact cached.held.frame _ _ _ _ _ same weights
  case keys =>
    intro layer below
    refine StoresRows.frame _ _ _ _ _ _ _ same ?_ (cached.keys layer below)
    rw [keyCache_at]
    exact rows (2 * layer) (by omega)
  case values =>
    intro layer below
    refine StoresRows.frame _ _ _ _ _ _ _ same ?_ (cached.values layer below)
    rw [valueCache_at]
    exact rows (2 * layer + 1) (by omega)

omit [FloatOps F] in
/-- They outlive whatever a pass from their context on writes. -/
theorem Cached.frame {model : LoadedModel F} {store before after : FlatMemory F}
    {context tokens : Nat} {keys values : Nat → Nat → Nat → F}
    (cached : model.Cached store context keys values before) (extent : model.Extent context tokens)
    (same : SameExcept (model.Written context tokens) before after) :
    model.Cached store context keys values after :=
  cached.kept _ (model.weights_unwritten extent) (fun _ => model.cached_unwritten extent) same

omit [FloatOps F] in
/-- They outlive writes to the execution buffer. -/
theorem Cached.executed {model : LoadedModel F} {store before after : FlatMemory F} {context : Nat}
    {keys values : Nat → Nat → Nat → F} (cached : model.Cached store context keys values before)
    (fits : context ≤ model.maximumContext.toNat)
    (same : SameExcept (Within model.execution.data model.execution.floats) before after) :
    model.Cached store context keys values after := by
  have separate := model.separated
  have whole : model.execution.Contains model.execution.data model.execution.floats :=
    ⟨Nat.le_refl _, Nat.le_refl _⟩
  refine cached.kept _ (separate.weightsExecution.outside whole) ?_ same
  intro index listed address inside
  have contained : model.kv.Contains (model.cacheAt index + 0) (context * model.kvWidth) :=
    model.cache_contained index 0 _ listed (by
      rw [Nat.zero_add, cacheFloats]
      exact Nat.mul_le_mul_right _ fits)
  exact separate.kvExecution.outside whole address (contained.within address inside)

/-- The rows that enter the layers: the embeddings of the tokens, from the context on. -/
def inputRows (store : FlatMemory F) (context : Nat) (tokenIds : List UInt32) : Nat → Nat → F :=
  fun position => model.embeddingRow store (tokenIds.getD (position - context) 0)

/-- The keys of a layer after a pass. -/
def keysAfter (store : FlatMemory F) (context : Nat) (keys values : Nat → Nat → Nat → F)
    (inputs : Nat → Nat → F) (layer : Nat) : Nat → Nat → F :=
  match (model.stages store)[layer]? with
  | some stage => stage.keysFrom context (keys layer)
      (statesFrom (model.stages store) context keys values inputs layer)
  | none => keys layer

/-- The values of a layer after a pass. -/
def valuesAfter (store : FlatMemory F) (context : Nat) (keys values : Nat → Nat → Nat → F)
    (inputs : Nat → Nat → F) (layer : Nat) : Nat → Nat → F :=
  match (model.stages store)[layer]? with
  | some stage => stage.valuesFrom context (values layer)
      (statesFrom (model.stages store) context keys values inputs layer)
  | none => values layer

/-- The row of the last token after all layers. -/
def lastRow (store : FlatMemory F) (context tokens : Nat) (keys values : Nat → Nat → Nat → F)
    (inputs : Nat → Nat → F) : Nat → F :=
  statesFrom (model.stages store) context keys values inputs model.layers.length
    (context + (tokens - 1))

theorem stage_listed {store : FlatMemory F} {layer : Nat}
    (below : layer < model.spec.layers.toNat) :
    ∃ stage, (model.stages store)[layer]? = some stage := by
  have inside : layer < (model.stages store).length := by
    rwa [stages, List.length_map, model.layer_count]
  exact ⟨_, List.getElem?_eq_getElem inside⟩

theorem stage_below {store : FlatMemory F} {layer : Nat}
    {stage : Stage (Nat → F) (Nat → F) (Nat → F)}
    (found : (model.stages store)[layer]? = some stage) : layer < model.spec.layers.toNat := by
  obtain ⟨inside, _⟩ := List.getElem?_eq_some_iff.mp found
  rwa [stages, List.length_map, model.layer_count] at inside

/-- After all layers, the caches hold the rows of the context and of the tokens. -/
theorem LayersDone.cached {model : LoadedModel F} {store memory : FlatMemory F}
    {context tokens : Nat} {keys values : Nat → Nat → Nat → F} {inputs : Nat → Nat → F}
    (done : model.LayersDone store context tokens keys values inputs model.layers.length memory) :
    model.Cached store (context + tokens) (model.keysAfter store context keys values inputs)
      (model.valuesAfter store context keys values inputs) memory := by
  constructor
  case held => exact done.held
  case keys =>
    intro layer below
    obtain ⟨stage, found⟩ := @stage_listed _ model _ store layer below
    have stored := done.keys layer stage found
    rw [if_pos (by rwa [model.layer_count])] at stored
    rw [keysAfter, found]
    exact stored
  case values =>
    intro layer below
    obtain ⟨stage, found⟩ := @stage_listed _ model _ store layer below
    have stored := done.values layer stage found
    rw [if_pos (by rwa [model.layer_count])] at stored
    rw [valuesAfter, found]
    exact stored

/-! ## The effect of a pass -/

theorem pass_calls_confined {contextLength : UInt32} {tokens : Nat}
    (extent : model.Extent contextLength.toNat tokens) :
    ∀ operation ∈ model.passCalls contextLength tokens,
      Steady operation ∧ Confined (model.Written contextLength.toNat tokens) operation := by
  intro operation listed
  rcases List.mem_append.mp listed with layer | head
  · exact model.layer_calls_confined extent (model.positions_follow extent)
      (model.length_follows extent) operation layer
  · obtain ⟨steady, confined⟩ := model.head_calls_confined _ operation head
    exact ⟨steady, fun memory => SameExcept.mono _ _ _ _ (fun _ => .execution) (confined memory)⟩

/-- A pass writes to its scratch and to its window of the caches, whether it succeeds or fails. -/
theorem pass_frame {contextLength : UInt32} {tokenIds : List UInt32} (memory : FlatMemory F)
    (extent : model.Extent contextLength.toNat tokenIds.length)
    (valid : ∀ token ∈ tokenIds, token < model.spec.vocabularySize) :
    SameExcept (model.Written contextLength.toNat tokenIds.length) memory
      (model.pass contextLength tokenIds memory).2 := by
  obtain ⟨_, embedded⟩ := model.embed_spec memory memory tokenIds extent.few valid fun _ _ => rfl
  have confined := fun operation listed =>
    (model.pass_calls_confined extent operation listed).2
  refine SameExcept.trans _ _ _ _ (SameExcept.mono _ _ _ _ ?_ embedded)
    (run_all_confined _ _ confined _)
  exact fun address inside => .execution ((model.hidden_contained extent.few).within address inside)

/-- The status of a pass is the same in every memory. -/
theorem pass_status {contextLength : UInt32} {tokenIds : List UInt32}
    (memory other : FlatMemory F) (extent : model.Extent contextLength.toNat tokenIds.length) :
    (model.pass contextLength tokenIds memory).1 = (model.pass contextLength tokenIds other).1 :=
  run_all_steady _ (fun operation listed => (model.pass_calls_confined extent operation listed).1)
    _ _

/-- What a pass whose calls succeed leaves. -/
theorem pass_spec {contextLength : UInt32} {tokenIds : List UInt32} {store memory : FlatMemory F}
    {keys values : Nat → Nat → Nat → F}
    (cached : model.Cached store contextLength.toNat keys values memory)
    (extent : model.Extent contextLength.toNat tokenIds.length)
    (valid : ∀ token ∈ tokenIds, token < model.spec.vocabularySize)
    (succeeded : (model.pass contextLength tokenIds memory).1.isOk = true) :
    model.Cached store (contextLength.toNat + tokenIds.length)
        (model.keysAfter store contextLength.toNat keys values
          (model.inputRows store contextLength.toNat tokenIds))
        (model.valuesAfter store contextLength.toNat keys values
          (model.inputRows store contextLength.toNat tokenIds))
        (model.pass contextLength tokenIds memory).2 ∧
      Stores (model.pass contextLength tokenIds memory).2 model.logitsData
        model.spec.vocabularySize.toNat
        (model.logitRow store (model.lastRow store contextLength.toNat tokenIds.length keys values
          (model.inputRows store contextLength.toNat tokenIds))) := by
  obtain ⟨embedded, frame⟩ := model.embed_spec store memory tokenIds extent.few valid cached.held
  -- the embedding writes the hidden rows only, so what the cache held it still holds
  have started : model.Cached store contextLength.toNat keys values
      (CpuSmolLm2.embedTokens model tokenIds memory) :=
    cached.frame extent (SameExcept.mono _ _ _ _ (fun address inside =>
      .execution ((model.hidden_contained extent.few).within address inside)) frame)
  -- no layer has run: every layer holds the rows of the earlier context, before the new tokens
  have initially : model.LayersDone store contextLength.toNat tokenIds.length keys values
      (model.inputRows store contextLength.toNat tokenIds) 0
      (CpuSmolLm2.embedTokens model tokenIds memory) := by
    constructor
    case held => exact started.held
    case rows =>
      refine StoresRows.congr _ _ _ _ _ _ (fun row _ => ?_) embedded
      rw [statesFrom, inputRows, Nat.add_sub_cancel_left]
    case keys =>
      intro layer stage found
      rw [if_neg (Nat.not_lt_zero layer)]
      refine StoresRows.congr _ _ _ _ _ _ (fun row before => ?_)
        (started.keys layer (model.stage_below found))
      rw [Stage.keysFrom, if_pos before]
    case values =>
      intro layer stage found
      rw [if_neg (Nat.not_lt_zero layer)]
      refine StoresRows.congr _ _ _ _ _ _ (fun row before => ?_)
        (started.values layer (model.stage_below found))
      rw [Stage.valuesFrom, if_pos before]
  rw [pass, passCalls] at succeeded ⊢
  obtain ⟨layersOk, whole⟩ := run_all_append _ _ _ succeeded
  have layers := model.layers_spec initially extent (model.positions_follow extent)
    (model.length_follows extent) layersOk
  rw [whole] at succeeded ⊢
  -- the head reads the last row and writes in the execution area, outside the cache
  have last := layers.rows (tokenIds.length - 1) (Nat.sub_lt extent.positive Nat.zero_lt_one)
  refine ⟨layers.cached.executed extent.fits ?_, model.head_spec extent layers.held last succeeded⟩
  exact run_all_confined _ _
    (fun operation listed => (model.head_calls_confined _ operation listed).2) _

theorem selected_ok {called : Status × FlatMemory F} {token : GreedyToken F}
    (done : model.selected called = .ok token) : called.1.isOk = true := by
  rw [selected] at done
  cases ok : called.1.isOk with
  | true => rfl
  | false =>
    rw [if_pos ok] at done
    cases done

/-- Two memories with the same cached rows are the same to a pass. -/
theorem pass_related {contextLength : UInt32} {tokenIds : List UInt32}
    {store floats others : FlatMemory F} {keys values : Nat → Nat → Nat → F}
    (here : model.Cached store contextLength.toNat keys values floats)
    (there : model.Cached store contextLength.toNat keys values others)
    (extent : model.Extent contextLength.toNat tokenIds.length)
    (valid : ∀ token ∈ tokenIds, token < model.spec.vocabularySize) :
    model.selected (model.pass contextLength tokenIds floats) =
        model.selected (model.pass contextLength tokenIds others) ∧
      ((model.pass contextLength tokenIds floats).1.isOk = true →
        ∀ token < model.spec.vocabularySize.toNat,
          (model.pass contextLength tokenIds floats).2 (model.logitsData + token) =
            (model.pass contextLength tokenIds others).2 (model.logitsData + token)) := by
  have status := model.pass_status floats others extent
  have logits : (model.pass contextLength tokenIds floats).1.isOk = true →
      ∀ token < model.spec.vocabularySize.toNat,
        (model.pass contextLength tokenIds floats).2 (model.logitsData + token) =
          (model.pass contextLength tokenIds others).2 (model.logitsData + token) := by
    intro succeeded token below
    obtain ⟨_, left⟩ := model.pass_spec here extent valid succeeded
    obtain ⟨_, right⟩ := model.pass_spec there extent valid (status ▸ succeeded)
    exact (left token below).trans (right token below).symm
  refine ⟨?_, logits⟩
  rw [selected, selected, ← status]
  cases ok : (model.pass contextLength tokenIds floats).1.isOk with
  | false => rfl
  | true => exact greedy_token_congr _ _ _ (logits ok)

end

end LoadedModel

end MarketForge.Cpu
