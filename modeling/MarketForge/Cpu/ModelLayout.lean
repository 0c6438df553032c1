import MarketForge.Cpu.OperatorFrames

/-!
# The buffers of a model

Where the caches and rows of a model lie, that its layer calls are placed apart from the weights,
and which addresses a forward pass may write to.
-/
namespace MarketForge.Cpu

open Library FloatOps

namespace HostBuffer

/-- Parts of separate buffers are separate. -/
theorem Separate.sub {left right part other : HostBuffer} (separate : left.Separate right)
    (here : left.Contains part.data part.floats) (there : right.Contains other.data other.floats) :
    part.Separate other :=
  separate.parts here there

end HostBuffer

namespace LoadedModel

section

variable {F : Type} (model : LoadedModel F)

def hiddenSize : Nat := model.spec.hiddenSize.toNat

/-- The call of a layer on the rows after a context. -/
def layerCall (context tokens layer : Nat) (weights : LayerWeights Nat) : LayerCall F where
  spec := model.layerSpec
  weights := weights
  hidden := model.execution.data
  keyCache := model.keyCache layer
  valueCache := model.valueCache layer
  maximumContext := model.maximumContext
  workspace := model.workspace
  context := context
  tokens := tokens

/-- What a forward pass checks of the number of its tokens. -/
structure Extent (context tokens : Nat) : Prop where
  positive : 0 < tokens
  few : tokens ≤ model.maximumPrefillTokens.toNat
  fits : context + tokens ≤ model.maximumContext.toNat

theorem Extent.small {model : LoadedModel F} {context tokens : Nat}
    (extent : model.Extent context tokens) : tokens < 2 ^ 32 :=
  Nat.lt_of_le_of_lt extent.few model.maximumPrefillTokens.toNat_lt

/-! ### Buffers -/

/-- The buffers of a model, two by two. -/
structure Separated : Prop where
  weightsKv : model.fp32Weights.Separate model.kv
  weightsExecution : model.fp32Weights.Separate model.execution
  weightsWorkspace : model.fp32Weights.Separate model.workspace.storage
  kvExecution : model.kv.Separate model.execution
  kvWorkspace : model.kv.Separate model.workspace.storage
  executionWorkspace : model.execution.Separate model.workspace.storage

theorem separated : model.Separated := by
  have separate := model.buffers_separate
  simp only [List.pairwise_cons, List.mem_cons, List.not_mem_nil, or_false, forall_eq_or_imp,
    forall_eq, List.Pairwise.nil, and_true, false_implies, implies_true] at separate
  obtain ⟨⟨weightsKv, weightsExecution, weightsWorkspace⟩, ⟨kvExecution, kvWorkspace⟩,
    executionWorkspace⟩ := separate
  exact ⟨weightsKv, weightsExecution, weightsWorkspace, kvExecution, kvWorkspace,
    executionWorkspace⟩

/-- The caches follow each other: the keys and the values of each layer. -/
def cacheAt (index : Nat) : Nat := model.kv.data + index * model.cacheFloats

theorem keyCache_at (layer : Nat) : model.keyCache layer = model.cacheAt (2 * layer) := by
  rw [keyCache, cacheAt, Nat.mul_comm layer]

theorem valueCache_at (layer : Nat) : model.valueCache layer = model.cacheAt (2 * layer + 1) := by
  rw [valueCache, keyCache_at, cacheAt, cacheAt, Nat.add_mul, Nat.one_mul, Nat.add_assoc]

theorem cache_contained (index offset count : Nat) (inside : index < 2 * model.spec.layers.toNat)
    (fits : offset + count ≤ model.cacheFloats) :
    model.kv.Contains (model.cacheAt index + offset) count := by
  have last : index * model.cacheFloats + model.cacheFloats ≤ model.kv.floats := by
    rw [model.kv_floats]
    exact Grid.row_end _ inside
  refine ⟨?_, ?_⟩
  · rw [cacheAt]
    omega
  · rw [cacheAt]
    omega

theorem caches_apart {index other : Nat} (different : index ≠ other) :
    Apart (model.cacheAt index) model.cacheFloats (model.cacheAt other) model.cacheFloats :=
  rows_apart model.kv.data model.cacheFloats index other different

/-- The rows of a forward pass, the normalized row and the logits share a buffer. -/
theorem hidden_contained {tokens : Nat} (few : tokens ≤ model.maximumPrefillTokens.toNat) :
    model.execution.Contains model.execution.data (tokens * model.hiddenSize) := by
  have rows : tokens * model.hiddenSize ≤
      model.maximumPrefillTokens.toNat * model.spec.hiddenSize.toNat := Nat.mul_le_mul_right _ few
  have floats := model.execution_floats
  exact ⟨Nat.le_refl _, by omega⟩

theorem normalized_contained :
    model.execution.Contains model.normalizedLast model.hiddenSize := by
  have floats := model.execution_floats
  refine ⟨?_, ?_⟩
  · rw [normalizedLast]
    omega
  · rw [normalizedLast, hiddenSize]
    omega

theorem logits_contained :
    model.execution.Contains model.logitsData model.spec.vocabularySize.toNat := by
  have floats := model.execution_floats
  refine ⟨?_, ?_⟩
  · rw [logitsData, normalizedLast]
    omega
  · rw [logitsData, normalizedLast]
    omega

/-- A layer of the model, with its weights. -/
theorem layer_below {layer : Nat} {weights : LayerWeights Nat}
    (listed : model.layers[layer]? = some weights) : layer < model.spec.layers.toNat := by
  obtain ⟨inside, _⟩ := List.getElem?_eq_some_iff.mp listed
  rwa [model.layer_count] at inside

/-- The call of each layer is placed apart from the weights. -/
theorem layer_placed {context tokens layer : Nat} {weights : LayerWeights Nat}
    (extent : model.Extent context tokens) (listed : model.layers[layer]? = some weights) :
    (model.layerCall context tokens layer weights).Placed model.fp32Weights := by
  have below := model.layer_below listed
  have separate := model.separated
  have rows := model.hidden_contained extent.few
  have keys : model.kv.Contains (model.keyCache layer) model.cacheFloats := by
    rw [keyCache_at]
    exact model.cache_contained _ 0 _ (by omega) (by omega)
  have values : model.kv.Contains (model.valueCache layer) model.cacheFloats := by
    rw [valueCache_at]
    exact model.cache_contained _ 0 _ (by omega) (by omega)
  have whole : ∀ buffer : HostBuffer, buffer.Contains buffer.data buffer.floats :=
    fun buffer => ⟨Nat.le_refl _, Nat.le_refl _⟩
  constructor
  case fits => exact extent.fits
  case contained =>
    intro view member
    have weight : view ∈ model.layers.flatMap LayerWeights.all :=
      List.mem_flatMap.mpr ⟨weights, List.mem_of_getElem? listed, member⟩
    exact model.weights_contained view (by simp [weight])
  case hiddenWorkspace => exact separate.executionWorkspace.sub rows (whole _)
  case keysWorkspace => exact separate.kvWorkspace.sub keys (whole _)
  case valuesWorkspace => exact separate.kvWorkspace.sub values (whole _)
  case hiddenKeys => exact separate.kvExecution.symm.sub rows keys
  case hiddenValues => exact separate.kvExecution.symm.sub rows values
  case caches =>
    change Apart (model.keyCache layer) model.cacheFloats (model.valueCache layer) model.cacheFloats
    rw [keyCache_at, valueCache_at]
    exact model.caches_apart (by omega)
  case weightsHidden => exact separate.weightsExecution.sub (whole _) rows
  case weightsWorkspace => exact separate.weightsWorkspace
  case weightsKeys => exact separate.weightsKv.sub (whole _) keys
  case weightsValues => exact separate.weightsKv.sub (whole _) values

/-! ### What a forward pass may write -/

/-- A forward pass writes to its scratch buffers and to the rows of the caches after the context. -/
inductive Written (context tokens : Nat) (address : Nat) : Prop
  | execution (inside : Within model.execution.data model.execution.floats address) :
      Written context tokens address
  | workspace
      (inside : Within model.workspace.storage.data model.workspace.storage.floats address) :
      Written context tokens address
  | cache (index : Nat) (listed : index < 2 * model.spec.layers.toNat)
      (inside : Within (model.cacheAt index + context * model.kvWidth) (tokens * model.kvWidth)
        address) : Written context tokens address

theorem layer_written {context tokens layer : Nat} {weights : LayerWeights Nat}
    (extent : model.Extent context tokens) (listed : model.layers[layer]? = some weights)
    (address : Nat) (written : (model.layerCall context tokens layer weights).Written address) :
    model.Written context tokens address := by
  have below := model.layer_below listed
  rcases written with (inHidden | inWorkspace) | (inKeys | inValues)
  · exact .execution ((model.hidden_contained extent.few).within address inHidden)
  · exact .workspace inWorkspace
  · rw [LayerCall.KeyWindow] at inKeys
    change Within (model.keyCache layer + context * model.kvWidth) (tokens * model.kvWidth) address
      at inKeys
    rw [keyCache_at] at inKeys
    exact .cache (2 * layer) (by omega) inKeys
  · rw [LayerCall.ValueWindow] at inValues
    change Within (model.valueCache layer + context * model.kvWidth) (tokens * model.kvWidth)
      address at inValues
    rw [valueCache_at] at inValues
    exact .cache (2 * layer + 1) (by omega) inValues

/-- The window of a forward pass in a cache. -/
theorem window_fits {context tokens : Nat} (extent : model.Extent context tokens) :
    context * model.kvWidth + tokens * model.kvWidth ≤ model.cacheFloats := by
  rw [cacheFloats, ← Nat.add_mul]
  exact Nat.mul_le_mul_right _ extent.fits

/-- No forward pass writes to the weights. -/
theorem weights_unwritten {context tokens : Nat} (extent : model.Extent context tokens)
    (address : Nat) (inside : Within model.fp32Weights.data model.fp32Weights.floats address) :
    ¬model.Written context tokens address := by
  have separate := model.separated
  intro written
  cases written with
  | execution there =>
    exact separate.weightsExecution.outside ⟨Nat.le_refl _, Nat.le_refl _⟩ _ inside there
  | workspace there =>
    exact separate.weightsWorkspace.outside ⟨Nat.le_refl _, Nat.le_refl _⟩ _ inside there
  | cache index listed there =>
    exact separate.weightsKv.outside
      (model.cache_contained index _ _ listed (model.window_fits extent)) _ inside there

/-- No forward pass writes to the cached rows before its context. -/
theorem cached_unwritten {context tokens index : Nat} (extent : model.Extent context tokens)
    (listed : index < 2 * model.spec.layers.toNat) (address : Nat)
    (inside : Within (model.cacheAt index) (context * model.kvWidth) address) :
    ¬model.Written context tokens address := by
  have separate := model.separated
  have window := model.window_fits extent
  have contained : model.kv.Contains (model.cacheAt index + 0) (context * model.kvWidth) :=
    model.cache_contained index 0 _ listed (by omega)
  intro written
  cases written with
  | execution there =>
    exact separate.kvExecution.outside ⟨Nat.le_refl _, Nat.le_refl _⟩ _
      (contained.within _ inside) there
  | workspace there =>
    exact separate.kvWorkspace.outside ⟨Nat.le_refl _, Nat.le_refl _⟩ _
      (contained.within _ inside) there
  | cache other _ there =>
    by_cases same : index = other
    · subst same
      unfold Within at inside there
      omega
    · -- different caches do not meet
      have apart := model.caches_apart same
      unfold Apart at apart
      unfold Within at inside there
      omega

end

end LoadedModel

end MarketForge.Cpu
