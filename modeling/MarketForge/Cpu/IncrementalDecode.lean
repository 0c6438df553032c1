import MarketForge.Cpu.ModelRuns

/-!
# Incremental decoding

A model that has seen the first tokens of a text, in whatever calls, caches the keys and values
that the network gives them as a whole, and its logits are those of the last token. Prefilling a
text and decoding it token by token therefore end in the same caches, logits and token.
-/
namespace MarketForge.Cpu

open Library FloatOps

section

variable {F : Type} [FloatOps F]

namespace LoadedModel

variable (model : LoadedModel F)

/-! ## The network over a whole text -/

/-- The rows of a text after the first layers. -/
def textStates (store : FlatMemory F) (text : List UInt32) : Nat → Nat → Nat → F :=
  statesAfter (model.stages store) (model.inputRows store 0 text)

def textKeys (store : FlatMemory F) (text : List UInt32) (layer : Nat) : Nat → Nat → F :=
  match (model.stages store)[layer]? with
  | some stage => stage.keys (model.textStates store text layer)
  | none => fun _ _ => zero

def textValues (store : FlatMemory F) (text : List UInt32) (layer : Nat) : Nat → Nat → F :=
  match (model.stages store)[layer]? with
  | some stage => stage.values (model.textStates store text layer)
  | none => fun _ _ => zero

/-- The logits of the token before a position. -/
def textLogits (store : FlatMemory F) (text : List UInt32) (count : Nat) : Nat → F :=
  model.logitRow store (model.textStates store text model.layers.length (count - 1))

theorem stages_causal (store : FlatMemory F) : ∀ stage ∈ model.stages store, stage.Causal := by
  intro stage listed
  obtain ⟨weights, _, rfl⟩ := List.mem_map.mp listed
  exact decoder_stage_causal store model.layerSpec weights

/-- A pass over the next tokens of a text computes the rows of the whole text. -/
theorem pass_states (store : FlatMemory F) (text tokenIds : List UInt32) (context : Nat)
    (next : ∀ token < tokenIds.length, tokenIds.getD token 0 = text.getD (context + token) 0)
    (depth : Nat) : ∀ position, context ≤ position → position < context + tokenIds.length →
      statesFrom (model.stages store) context (model.textKeys store text)
        (model.textValues store text) (model.inputRows store context tokenIds) depth position =
          model.textStates store text depth position := by
  -- the text with whatever the pass would read after its tokens
  let joined : Nat → Nat → F := fun position =>
    if position < context then model.inputRows store 0 text position
    else model.inputRows store context tokenIds position
  have before : ∀ position < context, joined position = model.inputRows store 0 text position :=
    fun position below => if_pos below
  have inside : ∀ position < context + tokenIds.length,
      joined position = model.inputRows store 0 text position := by
    intro position below
    by_cases cached : position < context
    · exact before position cached
    · have here : context + (position - context) = position := by omega
      have same := next (position - context) (by omega)
      rw [here] at same
      dsimp only [joined]
      rw [if_neg cached, inputRows, inputRows, same, Nat.sub_zero]
  have causal := model.stages_causal store
  have whole := states_from_eq (model.stages store) context (model.textKeys store text)
    (model.textValues store text) joined (model.inputRows store context tokenIds)
    (fun position reached => (if_neg (Nat.not_lt.mpr reached)).symm) (by
      intro layer stage found position below
      rw [textKeys, found]
      exact congrArg (stage.key position)
        (states_after_causal _ causal joined _ context before layer position below).symm) (by
      intro layer stage found position below
      rw [textValues, found]
      exact congrArg (stage.value position)
        (states_after_causal _ causal joined _ context before layer position below).symm)
  intro position reached below
  rw [whole depth position reached, textStates]
  exact states_after_causal _ causal _ _ _ inside depth position below

theorem pass_keys (store : FlatMemory F) (text tokenIds : List UInt32) (context layer : Nat)
    (next : ∀ token < tokenIds.length, tokenIds.getD token 0 = text.getD (context + token) 0) :
    ∀ position < context + tokenIds.length,
      model.keysAfter store context (model.textKeys store text) (model.textValues store text)
        (model.inputRows store context tokenIds) layer position =
          model.textKeys store text layer position := by
  intro position below
  rw [keysAfter, textKeys]
  cases found : (model.stages store)[layer]? with
  | none => rfl
  | some stage =>
    dsimp only
    rw [Stage.keysFrom]
    split
    next => rfl
    next after =>
      exact congrArg (stage.key position)
        (model.pass_states store text tokenIds context next layer position (Nat.not_lt.mp after)
          below)

theorem pass_values (store : FlatMemory F) (text tokenIds : List UInt32) (context layer : Nat)
    (next : ∀ token < tokenIds.length, tokenIds.getD token 0 = text.getD (context + token) 0) :
    ∀ position < context + tokenIds.length,
      model.valuesAfter store context (model.textKeys store text) (model.textValues store text)
        (model.inputRows store context tokenIds) layer position =
          model.textValues store text layer position := by
  intro position below
  rw [valuesAfter, textValues]
  cases found : (model.stages store)[layer]? with
  | none => rfl
  | some stage =>
    dsimp only
    rw [Stage.valuesFrom]
    split
    next => rfl
    next after =>
      exact congrArg (stage.value position)
        (model.pass_states store text tokenIds context next layer position (Nat.not_lt.mp after)
          below)

/-- The cached rows of a text, behind a pass over its next tokens. -/
theorem pass_cached {store memory : FlatMemory F} {text tokenIds : List UInt32} {context : Nat}
    (next : ∀ token < tokenIds.length, tokenIds.getD token 0 = text.getD (context + token) 0)
    (cached : model.Cached store (context + tokenIds.length)
      (model.keysAfter store context (model.textKeys store text) (model.textValues store text)
        (model.inputRows store context tokenIds))
      (model.valuesAfter store context (model.textKeys store text) (model.textValues store text)
        (model.inputRows store context tokenIds)) memory) :
    model.Cached store (context + tokenIds.length) (model.textKeys store text)
      (model.textValues store text) memory where
  held := cached.held
  keys := fun layer below => StoresRows.congr _ _ _ _ _ _
    (model.pass_keys store text tokenIds context layer next) (cached.keys layer below)
  values := fun layer below => StoresRows.congr _ _ _ _ _ _
    (model.pass_values store text tokenIds context layer next) (cached.values layer below)

theorem pass_logits (store : FlatMemory F) (text tokenIds : List UInt32) (context : Nat)
    (some : 0 < tokenIds.length)
    (next : ∀ token < tokenIds.length, tokenIds.getD token 0 = text.getD (context + token) 0) :
    model.logitRow store (model.lastRow store context tokenIds.length (model.textKeys store text)
      (model.textValues store text) (model.inputRows store context tokenIds)) =
        model.textLogits store text (context + tokenIds.length) := by
  have last : context + tokenIds.length - 1 = context + (tokenIds.length - 1) := by omega
  rw [lastRow, textLogits, last, model.pass_states store text tokenIds context next _ _
    (Nat.le_add_right _ _) (by omega)]

end LoadedModel

namespace CpuSmolLm2

/-! ## Runs over a text -/

/-- The first tokens of a text are cached, as the network over the whole text has them. -/
structure Caches (model : LoadedModel F) (store : FlatMemory F) (text : List UInt32) (count : Nat)
    (state : CpuSmolLm2 F) : Prop where
  loaded : state.toLoadedModel = model
  context : state.contextLength.toNat = count
  fits : state.contextLength ≤ state.maximumContext
  cached : model.Cached store count (model.textKeys store text) (model.textValues store text)
    state.floats

/-- The last call selected the token after the cached ones. -/
structure Reached (model : LoadedModel F) (store : FlatMemory F) (text : List UInt32) (count : Nat)
    (called : Result (GreedyToken F) × CpuSmolLm2 F) : Prop where
  caches : Caches model store text count called.2
  logits : Stores called.2.floats model.logitsData model.spec.vocabularySize.toNat
    (model.textLogits store text count)
  result : called.1 = greedyToken (model.textLogits store text count)
    model.spec.vocabularySize.toNat

/-- A pass over the next tokens of a text that succeeds caches them too. -/
theorem Caches.forward {model : LoadedModel F} {store : FlatMemory F} {text tokenIds : List UInt32}
    {count : Nat} {state : CpuSmolLm2 F} {token : GreedyToken F}
    (caches : Caches model store text count state)
    (next : ∀ token < tokenIds.length, tokenIds.getD token 0 = text.getD (count + token) 0)
    (succeeded : (state.forward tokenIds).1 = .ok token) :
    Reached model store text (count + tokenIds.length) (state.forward tokenIds) := by
  obtain ⟨loaded, positions, contextLength, floats⟩ := state
  obtain ⟨rfl, context, fits, cached⟩ := caches
  dsimp only at context fits cached
  subst context
  cases checked : loaded.refusal contextLength tokenIds with
  | some status =>
    rw [forward_refused checked] at succeeded
    cases succeeded
  | none =>
    obtain ⟨extent, valid⟩ := loaded.refusal_none fits checked
    rw [forward_passed checked] at succeeded ⊢
    have after := loaded.context_after extent (Nat.le_refl _)
    have passedOk := loaded.selected_ok succeeded
    obtain ⟨stored, logits⟩ := loaded.pass_spec cached extent valid passedOk
    rw [loaded.pass_logits store text tokenIds _ extent.positive next] at logits
    have room : contextLength + UInt32.ofNat tokenIds.length ≤ loaded.maximumContext := by
      rw [UInt32.le_iff_toNat_le, after]
      exact extent.fits
    have length : (passed ⟨loaded, positions, contextLength, floats⟩ tokenIds).contextLength =
        contextLength + UInt32.ofNat tokenIds.length := by
      rw [passed]
      dsimp only at succeeded ⊢
      rw [succeeded]
    constructor
    case caches =>
      constructor
      case loaded => rfl
      case context => rw [length, after]
      case fits =>
        rw [length]
        exact room
      case cached => exact loaded.pass_cached next stored
    case logits => exact logits
    case result =>
      dsimp only at passedOk ⊢
      rw [LoadedModel.selected, if_neg (by rw [passedOk]; simp)]
      exact LoadedModel.greedy_token_congr _ _ _ logits

/-- A reset model has cached no token of any text. -/
theorem reset_caches (model : CpuSmolLm2 F) (text : List UInt32) :
    Caches model.toLoadedModel model.reset.floats text 0 model.reset where
  loaded := rfl
  context := rfl
  fits := UInt32.le_iff_toNat_le.mpr (Nat.zero_le _)
  cached := ⟨fun _ _ => rfl, fun _ _ row below => absurd below (Nat.not_lt_zero row),
    fun _ _ row below => absurd below (Nat.not_lt_zero row)⟩

theorem prefill_forward {state : CpuSmolLm2 F} {tokenIds : List UInt32} {token : GreedyToken F}
    (succeeded : (state.prefill tokenIds).1 = .ok token) :
    state.prefill tokenIds = state.forward tokenIds := by
  rw [prefill] at succeeded ⊢
  split at succeeded
  next => cases succeeded
  next bounds => rw [if_neg bounds]

theorem decode_forward {state : CpuSmolLm2 F} {tokenId : UInt32} {token : GreedyToken F}
    (succeeded : (state.decode tokenId).1 = .ok token) :
    state.decode tokenId = state.forward [tokenId] := by
  rw [decode] at succeeded ⊢
  split at succeeded
  next => cases succeeded
  next bounds => rw [if_neg bounds]

/-- A sequence that succeeds has started from a success. -/
theorem decode_all_started {others : List UInt32} {called : Result (GreedyToken F) × CpuSmolLm2 F}
    {token : GreedyToken F} (succeeded : (decodeAll others called).1 = .ok token) :
    ∃ earlier, called.1 = .ok earlier := by
  obtain ⟨outcome, state⟩ := called
  cases outcome with
  | ok earlier => exact ⟨earlier, rfl⟩
  | error status => cases others <;> cases succeeded

/-- Decoding the rest of a text caches all of it. -/
theorem Reached.decodeAll {model : LoadedModel F} {store : FlatMemory F} {text : List UInt32}
    (others : List UInt32) {count : Nat} {called : Result (GreedyToken F) × CpuSmolLm2 F}
    {token : GreedyToken F} (reached : Reached model store text count called)
    (next : ∀ index < others.length, others.getD index 0 = text.getD (count + index) 0)
    (succeeded : (decodeAll others called).1 = .ok token) :
    Reached model store text (count + others.length) (decodeAll others called) := by
  induction others generalizing count called with
  | nil => exact reached
  | cons tokenId others ih =>
    obtain ⟨outcome, state⟩ := called
    cases outcome with
    | error status => cases succeeded
    | ok earlier =>
      rw [CpuSmolLm2.decodeAll] at succeeded ⊢
      obtain ⟨selected, decoded⟩ := decode_all_started succeeded
      have here := decode_forward decoded
      have one : ∀ token < [tokenId].length,
          [tokenId].getD token 0 = text.getD (count + token) 0 := by
        intro token below
        obtain rfl : token = 0 := by simpa using below
        exact next 0 (by simp)
      have first := reached.caches.forward one (here ▸ decoded)
      rw [← here] at first
      have rest := ih first (fun index below => by
        have later := next (index + 1) (by simpa using below)
        simpa [Nat.add_assoc, Nat.add_comm 1] using later) succeeded
      simpa [Nat.add_assoc, Nat.add_comm 1] using rest

/-- Whatever calls lead to the end of a text, they end in the same caches, logits and token. -/
theorem Reached.unique {model : LoadedModel F} {store : FlatMemory F} {text : List UInt32}
    {count : Nat} {called other : Result (GreedyToken F) × CpuSmolLm2 F}
    (left : Reached model store text count called) (right : Reached model store text count other) :
    called.1 = other.1 ∧ called.2.contextLength = other.2.contextLength ∧
      called.2.logits = other.2.logits ∧
      ∀ layer < model.spec.layers.toNat, ∀ position < count, ∀ column < model.kvWidth,
        called.2.keyAt layer position column = other.2.keyAt layer position column ∧
          called.2.valueAt layer position column = other.2.valueAt layer position column := by
  obtain ⟨leftCaches, leftLogits, leftResult⟩ := left
  obtain ⟨rightCaches, rightLogits, rightResult⟩ := right
  refine ⟨leftResult.trans rightResult.symm, ?_, ?_, ?_⟩
  · exact UInt32.toNat_inj.mp (leftCaches.context.trans rightCaches.context.symm)
  · rw [CpuSmolLm2.logits, CpuSmolLm2.logits, leftCaches.loaded, rightCaches.loaded]
    refine List.map_congr_left fun token listed => ?_
    have below := List.mem_range.mp listed
    exact (leftLogits token below).trans (rightLogits token below).symm
  · intro layer below position before column inside
    rw [keyAt, keyAt, valueAt, valueAt, leftCaches.loaded, rightCaches.loaded]
    exact ⟨(leftCaches.cached.keys layer below position before column inside).trans
        (rightCaches.cached.keys layer below position before column inside).symm,
      (leftCaches.cached.values layer below position before column inside).trans
        (rightCaches.cached.values layer below position before column inside).symm⟩

/-- A text prefilled in part and then decoded ends as the text prefilled as a whole. -/
theorem decode_matches_prefill (model : CpuSmolLm2 F) (first others : List UInt32)
    (token whole : GreedyToken F)
    (decoded : (decodeAll others (model.reset.prefill first)).1 = .ok token)
    (prefilled : (model.reset.prefill (first ++ others)).1 = .ok whole) :
    token = whole ∧
      (decodeAll others (model.reset.prefill first)).2.contextLength =
        (model.reset.prefill (first ++ others)).2.contextLength ∧
      (decodeAll others (model.reset.prefill first)).2.logits =
        (model.reset.prefill (first ++ others)).2.logits ∧
      ∀ layer < model.spec.layers.toNat, ∀ position < (first ++ others).length,
        ∀ column < model.kvWidth,
          (decodeAll others (model.reset.prefill first)).2.keyAt layer position column =
              (model.reset.prefill (first ++ others)).2.keyAt layer position column ∧
            (decodeAll others (model.reset.prefill first)).2.valueAt layer position column =
              (model.reset.prefill (first ++ others)).2.valueAt layer position column := by
  have initially := reset_caches model (first ++ others)
  obtain ⟨earlier, start⟩ := decode_all_started decoded
  have startForward := prefill_forward start
  have joinedForward := prefill_forward prefilled
  have begun := initially.forward (fun index below => by
    rw [Nat.zero_add, List.getD_eq_getElem?_getD, List.getD_eq_getElem?_getD,
      List.getElem?_append_left below]) (startForward ▸ start)
  rw [← startForward, Nat.zero_add] at begun
  have split := begun.decodeAll others (fun index _ => by
    rw [List.getD_eq_getElem?_getD, List.getD_eq_getElem?_getD,
      List.getElem?_append_right (Nat.le_add_right _ _), Nat.add_sub_cancel_left]) decoded
  have joined := initially.forward (fun index _ => by rw [Nat.zero_add])
    (joinedForward ▸ prefilled)
  rw [← joinedForward, Nat.zero_add, List.length_append] at joined
  obtain ⟨result, context, logits, caches⟩ := split.unique joined
  refine ⟨?_, context, logits, ?_⟩
  · rw [decoded, prefilled] at result
    exact Except.ok.inj result
  · rw [List.length_append]
    exact caches

/-! ## A run on the small model -/

theorem greedy_token_finite (logits : Nat → F) (size : Nat)
    (each : ∀ token < size, isFinite (logits token) = true) :
    ∃ token, greedyToken logits size = .ok token := by
  refine for_range_invariant size (greedyTurn logits) _
    (fun _ best => ∃ token, best = .ok token) ⟨_, rfl⟩ ?_
  rintro index below current ⟨best, rfl⟩
  rw [greedyTurn, if_neg (by simp [each index below])]
  split
  next => exact ⟨_, rfl⟩
  next =>
    split
    next => exact ⟨_, rfl⟩
    next => exact ⟨_, rfl⟩

theorem forward_loaded (state : CpuSmolLm2 F) (tokenIds : List UInt32) :
    (state.forward tokenIds).2.toLoadedModel = state.toLoadedModel := by
  cases checked : state.refusal state.contextLength tokenIds with
  | some status => rw [forward_refused checked]
  | none =>
    rw [forward_passed checked]
    rfl

/-- A pass whose calls succeed and leave finite logits succeeds. -/
theorem forward_succeeds {state : CpuSmolLm2 F} {tokenIds : List UInt32}
    (admitted : state.refusal state.contextLength tokenIds = none)
    (ran : (state.pass state.contextLength tokenIds state.floats).1.isOk = true)
    (finite : ∀ value : F, isFinite value = true) :
    ∃ token, (state.forward tokenIds).1 = .ok token ∧
      (state.forward tokenIds).2.contextLength =
        state.contextLength + UInt32.ofNat tokenIds.length := by
  obtain ⟨token, selected⟩ := greedy_token_finite (fun token =>
    (state.pass state.contextLength tokenIds state.floats).2 (state.logitsData + token))
    state.spec.vocabularySize.toNat fun _ _ => finite _
  have outcome : state.selected (state.pass state.contextLength tokenIds state.floats) =
      .ok token := by
    rw [LoadedModel.selected, if_neg (by simp [ran])]
    exact selected
  rw [forward_passed admitted]
  refine ⟨token, outcome, ?_⟩
  rw [passed]
  dsimp only
  rw [outcome]

end CpuSmolLm2

end

namespace CpuSmolLm2

theorem decode_matches_prefill_small :
    let start : CpuSmolLm2 Whole := ⟨smallModel, [0, 0], 0, fun _ => ⟨1⟩⟩
    ∃ token whole, (decodeAll [1] (start.reset.prefill [0])).1 = .ok token ∧
      (start.reset.prefill ([0] ++ [1])).1 = .ok whole ∧ token = whole := by
  intro start
  have finite : ∀ value : Whole, isFinite value = true := fun _ => rfl
  obtain ⟨whole, prefilled, _⟩ := @forward_succeeds Whole _ start.reset ([0] ++ [1])
    (by decide +kernel) (by decide +kernel) finite
  obtain ⟨earlier, begun, length⟩ := @forward_succeeds Whole _ start.reset [0]
    (by decide +kernel) (by decide +kernel) finite
  have loaded := start.reset.forward_loaded [0]
  have first : start.reset.prefill [0] = (.ok earlier, (start.reset.forward [0]).2) :=
    (if_neg (by decide)).trans (Prod.ext begun rfl)
  have joined : start.reset.prefill ([0] ++ [1]) = start.reset.forward ([0] ++ [1]) :=
    if_neg (by decide)
  rw [← joined] at prefilled
  -- of the model between the two calls, only its context length matters to the checks
  obtain ⟨token, decoded⟩ : ∃ token, ((start.reset.forward [0]).2.decode 1).1 = .ok token := by
    generalize (start.reset.forward [0]).2 = between at loaded length
    obtain ⟨model, positions, contextLength, floats⟩ := between
    obtain rfl : model = smallModel := loaded
    obtain rfl : contextLength = 1 := length
    have admitted : smallModel.refusal 1 [1] = none := by decide +kernel
    have ran : (smallModel.pass 1 [1] fun _ => (⟨1⟩ : Whole)).1.isOk = true := by decide +kernel
    have extent := (smallModel.refusal_none (by decide) admitted).1
    rw [smallModel.pass_status _ floats extent] at ran
    obtain ⟨token, succeeded, _⟩ := @forward_succeeds Whole _ ⟨smallModel, positions, 1, floats⟩
      [1] admitted ran finite
    refine ⟨token, ?_⟩
    have started : (1 : UInt32) ≠ 0 := by decide
    rw [decode, if_neg started]
    exact succeeded
  have both : (decodeAll [1] (start.reset.prefill [0])).1 = .ok token := by
    rw [first]
    exact decoded
  exact ⟨token, whole, both, prefilled,
    (decode_matches_prefill start [0] [1] token whole both prefilled).1⟩

end CpuSmolLm2

end MarketForge.Cpu
