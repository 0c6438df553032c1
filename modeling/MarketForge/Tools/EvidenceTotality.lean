import Mathlib.Data.List.Nodup
import MarketForge.Tools.ContractSections

/-!
# Where the validator escapes its contract

`backend.mode`, `generation.dtype` and the finish reason of a request are looked up in a set before
anything has checked their type. A list or a dictionary has no hash, and the lookup raises a
`TypeError` in place of a `ContractError`. The payloads on which this happens are stated here of
the payload alone: the ones whose fields before such a lookup all pass.
-/
namespace MarketForge.Tools

/-! ### Requests -/

/-- A request as its fields read, with whatever stands for its finish reason. -/
structure Reading where
  id : String
  prompt : List Int
  generated : List Int
  reason : PyValue

def InVocabulary (vocabularySize : Int) (ids : List Int) : Prop :=
  ∀ id ∈ ids, 0 ≤ id ∧ id < vocabularySize

/-- The request has its keys, and its fields before the finish reason pass. -/
structure Reads (vocabularySize maxOutputTokens : Int) (rawRequest : PyValue)
    (reading : Reading) : Prop where
  fields : ∃ request, rawRequest = .dict request ∧ HasKeys request requestKeys ∧
    lookup request "request_id" = some (.str reading.id) ∧
    lookup request "prompt_token_ids" = some (.list (reading.prompt.map PyValue.int)) ∧
    lookup request "generated_token_ids" = some (.list (reading.generated.map PyValue.int)) ∧
    lookup request "finish_reason" = some reading.reason
  named : reading.id ≠ ""
  prompted : reading.prompt ≠ []
  prompt : InVocabulary vocabularySize reading.prompt
  generated : InVocabulary vocabularySize reading.generated
  capped : (reading.generated.length : Int) ≤ maxOutputTokens

def Reading.Finished (reading : Reading) : Prop :=
  ∃ text ∈ finishReasons, reading.reason = .str text

/-- A request that passes. -/
def RequestFits (vocabularySize maxOutputTokens : Int) (rawRequest : PyValue)
    (reading : Reading) : Prop :=
  Reads vocabularySize maxOutputTokens rawRequest reading ∧ reading.Finished

/-- The ids are not among the earlier ones and distinct. -/
def FreshIds (requestIds : List String) (readings : List Reading) : Prop :=
  (requestIds ++ readings.map Reading.id).Nodup

section Loop
variable {vocabularySize maxOutputTokens : Int} {rawRequest : PyValue} {rest : List PyValue}
  {requestIds : List String} {inputTokens outputTokens : Nat}

/-- One pass of the loop over the requests. -/
theorem checkRequests_cons_ok {sums : Nat × Nat} :
    checkRequests vocabularySize maxOutputTokens (rawRequest :: rest) requestIds inputTokens
        outputTokens = .ok sums ↔
      ∃ reading, RequestFits vocabularySize maxOutputTokens rawRequest reading ∧
        reading.id ∉ requestIds ∧
        checkRequests vocabularySize maxOutputTokens rest (requestIds ++ [reading.id])
          (inputTokens + reading.prompt.length) (outputTokens + reading.generated.length) =
            .ok sums := by
  simp only [checkRequests, bind_eq_ok, subscript_ok, exactKeys_ok, string_ok, tokens_ok,
    raiseIf_ok, Bool.not_eq_false, not_lt, gt_iff_lt]
  constructor
  · rintro ⟨request, ⟨rfl, keyed⟩, _, own, id, ⟨rfl, named⟩, _, fresh, _, prompted, prompt,
      ⟨rfl, inside, present⟩, _, wrote, generated, ⟨rfl, written, _⟩, _, capped, reason, finish, _,
      supported, _, rfl, later⟩
    have fields : Reads vocabularySize maxOutputTokens (.dict request)
        ⟨id, prompt, generated, reason⟩ :=
      ⟨⟨request, rfl, keyed, own, prompted, wrote, finish⟩, named, present trivial, inside, written,
        capped⟩
    exact ⟨⟨id, prompt, generated, reason⟩, ⟨fields, inSet_true.mp supported⟩, fresh, later⟩
  · rintro ⟨⟨id, prompt, generated, reason⟩, ⟨fields, finished⟩, fresh, later⟩
    obtain ⟨request, rfl, keyed, own, prompted, wrote, finish⟩ := fields.fields
    exact ⟨request, ⟨rfl, keyed⟩, _, own, id, ⟨rfl, fields.named⟩, (), fresh, _, prompted, prompt,
      ⟨rfl, fields.prompt, fun _ => fields.prompted⟩, _, wrote, generated,
      ⟨rfl, fields.generated, by rintro ⟨⟩⟩, (), fields.capped, reason, finish, true,
      inSet_true.mpr finished, (), rfl, later⟩

/-- One pass escapes on a finish reason without a hash, or a later pass escapes. -/
theorem escapes_checkRequests_cons :
    Escapes (checkRequests vocabularySize maxOutputTokens (rawRequest :: rest) requestIds
        inputTokens outputTokens) ↔
      ∃ reading, Reads vocabularySize maxOutputTokens rawRequest reading ∧
        reading.id ∉ requestIds ∧ (reading.reason.Unhashable ∨ reading.Finished ∧
          Escapes (checkRequests vocabularySize maxOutputTokens rest (requestIds ++ [reading.id])
            (inputTokens + reading.prompt.length) (outputTokens + reading.generated.length))) := by
  rw [checkRequests]
  constructor
  · -- none of the lookups and checks raises on a dictionary with the exact keys; what is left is
    -- the membership test on an unhashable reason, or a later request
    intro raised
    rw [escapes_bind, or_iff_right (not_escapes_exactKeys _ _ _)] at raised
    obtain ⟨request, read, raised⟩ := raised
    obtain ⟨rfl, keyed⟩ := exactKeys_ok.mp read
    have fields := keyed.not_escapes
    simp only [requestKeys, List.forall_mem_cons] at fields
    simp only [escapes_bind, fields, not_escapes_string, not_escapes_tokens, escapes_inSet,
      not_escapes_raiseIf, subscript_ok, string_ok, tokens_ok, raiseIf_ok, Bool.not_eq_false,
      not_lt, gt_iff_lt, false_or] at raised
    obtain ⟨_, own, id, ⟨rfl, named⟩, _, fresh, _, prompted, prompt, ⟨rfl, inside, present⟩, _,
      wrote, generated, ⟨rfl, written, _⟩, _, capped, reason, finish, raised⟩ := raised
    have reads : Reads vocabularySize maxOutputTokens (.dict request)
        ⟨id, prompt, generated, reason⟩ :=
      ⟨⟨request, rfl, keyed, own, prompted, wrote, finish⟩, named, present trivial, inside, written,
        capped⟩
    refine ⟨⟨id, prompt, generated, reason⟩, reads, fresh, ?_⟩
    rcases raised with unhashable | ⟨_, supported, _, rfl, later⟩
    · exact .inl unhashable
    · exact .inr ⟨inSet_true.mp supported, later⟩
  · -- the reading passes every check, in the order of the loop
    rintro ⟨⟨id, prompt, generated, reason⟩, reads, fresh, raised⟩
    obtain ⟨request, rfl, keyed, own, prompted, wrote, finish⟩ := reads.fields
    have fields := keyed.not_escapes
    simp only [requestKeys, List.forall_mem_cons] at fields
    rw [escapes_bind]
    refine .inr ⟨request, exactKeys_ok.mpr ⟨rfl, keyed⟩, ?_⟩
    simp only [escapes_bind, fields, not_escapes_string, not_escapes_tokens, escapes_inSet,
      not_escapes_raiseIf, subscript_ok, string_ok, tokens_ok, raiseIf_ok, Bool.not_eq_false,
      not_lt, gt_iff_lt, false_or]
    refine ⟨_, own, id, ⟨rfl, reads.named⟩, (), fresh, _, prompted, prompt,
      ⟨rfl, reads.prompt, fun _ => reads.prompted⟩, _, wrote, generated,
      ⟨rfl, reads.generated, by rintro ⟨⟩⟩, (), reads.capped, reason, finish, ?_⟩
    rcases raised with unhashable | ⟨finished, later⟩
    · exact .inl unhashable
    · exact .inr ⟨true, inSet_true.mpr finished, (), rfl, later⟩

end Loop

theorem freshIds_cons {requestIds : List String} {reading : Reading} {readings : List Reading} :
    FreshIds requestIds (reading :: readings) ↔
      FreshIds (requestIds ++ [reading.id]) readings := by
  rw [FreshIds, FreshIds, List.map_cons, List.append_assoc, List.singleton_append]

theorem FreshIds.not_mem {requestIds : List String} {reading : Reading} {readings : List Reading}
    (fresh : FreshIds requestIds (reading :: readings)) : reading.id ∉ requestIds := by
  intro member
  exact (List.nodup_append.mp fresh).2.2 _ member _ (by simp) rfl

theorem nodup_grow {requestIds : List String} {id : String} (distinct : requestIds.Nodup)
    (fresh : id ∉ requestIds) : (requestIds ++ [id]).Nodup := by
  rw [← List.concat_eq_append]
  exact List.Nodup.concat fresh distinct

section Run
variable {vocabularySize maxOutputTokens : Int} {requests : List PyValue}
  {requestIds : List String} {inputTokens outputTokens : Nat}

def promptTokens (readings : List Reading) : Nat :=
  (readings.map fun reading => reading.prompt.length).sum

def generatedTokens (readings : List Reading) : Nat :=
  (readings.map fun reading => reading.generated.length).sum

/-- Requests that pass have readings with distinct ids, whose tokens are added up. -/
theorem checkRequests_sums {sums : Nat × Nat} (distinct : requestIds.Nodup)
    (passed : checkRequests vocabularySize maxOutputTokens requests requestIds inputTokens
      outputTokens = .ok sums) :
    ∃ readings, List.Forall₂ (RequestFits vocabularySize maxOutputTokens) requests readings ∧
      FreshIds requestIds readings ∧
      sums = (inputTokens + promptTokens readings, outputTokens + generatedTokens readings) := by
  induction requests generalizing requestIds inputTokens outputTokens with
  | nil =>
    rw [checkRequests, Except.ok.injEq] at passed
    refine ⟨[], .nil, ?_, passed.symm⟩
    simpa [FreshIds] using distinct
  | cons rawRequest rest ih =>
    obtain ⟨reading, fits, fresh, later⟩ := checkRequests_cons_ok.mp passed
    obtain ⟨readings, all, unique, rfl⟩ := ih (nodup_grow distinct fresh) later
    refine ⟨reading :: readings, .cons fits all, freshIds_cons.mpr unique, ?_⟩
    simp [promptTokens, generatedTokens, Nat.add_assoc]

/-- The loop escapes at a request with an unhashable finish reason, after requests that pass. -/
theorem escapes_checkRequests (distinct : requestIds.Nodup) :
    Escapes (checkRequests vocabularySize maxOutputTokens requests requestIds inputTokens
        outputTokens) ↔
      ∃ before rawRequest after readings reading, requests = before ++ rawRequest :: after ∧
        List.Forall₂ (RequestFits vocabularySize maxOutputTokens) before readings ∧
        Reads vocabularySize maxOutputTokens rawRequest reading ∧
        FreshIds requestIds (readings ++ [reading]) ∧ reading.reason.Unhashable := by
  induction requests generalizing requestIds inputTokens outputTokens with
  | nil =>
    rw [checkRequests]
    refine iff_of_false (not_escapes_ok _) ?_
    rintro ⟨before, rawRequest, after, _, _, split, _⟩
    simp at split
  | cons first rest ih =>
    rw [escapes_checkRequests_cons]
    constructor
    · rintro ⟨reading, reads, fresh, unhashable | ⟨finished, later⟩⟩
      · refine ⟨[], first, rest, [], reading, rfl, .nil, reads, ?_, unhashable⟩
        exact nodup_grow distinct fresh
      · obtain ⟨before, rawRequest, after, readings, last, rfl, all, own, unique, unhashable⟩ :=
          (ih (nodup_grow distinct fresh)).mp later
        exact ⟨first :: before, rawRequest, after, reading :: readings, last, rfl,
          .cons ⟨reads, finished⟩ all, own, freshIds_cons.mpr unique, unhashable⟩
    · rintro ⟨before, rawRequest, after, readings, last, split, all, own, unique, unhashable⟩
      cases all with
      | nil =>
        obtain ⟨rfl, rfl⟩ := List.cons.inj split
        exact ⟨last, own, unique.not_mem, .inl unhashable⟩
      | cons fits all =>
        rename_i raw reading before readings
        obtain ⟨rfl, rfl⟩ := List.cons.inj split
        have fresh : reading.id ∉ requestIds := FreshIds.not_mem unique
        refine ⟨reading, fits.1, fresh, .inr ⟨fits.2, ?_⟩⟩
        exact (ih (nodup_grow distinct fresh)).mpr
          ⟨before, rawRequest, after, readings, last, rfl, all,
          own, freshIds_cons.mp unique, unhashable⟩

end Run

/-! ### The payload -/

/-- The fields before the backend pass. -/
structure Sourced (root : PyDict) : Prop where
  keyed : HasKeys root runKeys
  version : VersionFits root
  source : Section root "source" sourceKeys SourceFits

/-- The fields before the generation pass. -/
structure Hosted (root : PyDict) (vocabularySize : Int) : Prop where
  sourced : Sourced root
  backend : Section root "backend" backendKeys BackendFits
  model : Section root "model" modelKeys (ModelFits vocabularySize)
  hardware : Section root "hardware" hardwareKeys HardwareFits

/-- The fields before the requests pass. -/
structure Configured (root : PyDict) (vocabularySize maxOutputTokens : Int) : Prop where
  hosted : Hosted root vocabularySize
  generation : Section root "generation" generationKeys (GenerationFits maxOutputTokens)
  features : Section root "features" featureKeys FeaturesFit

/-- The payloads with a list or a dictionary for a mode, a dtype or a finish reason, behind fields
that pass. -/
inductive UnhashableTested : PyValue → Prop where
  | mode {root : PyDict} (sourced : Sourced root)
      (backend : Section root "backend" backendKeys fun backend =>
        BackendNamed backend ∧ Unhashed backend "mode") :
      UnhashableTested (.dict root)
  | dtype {root : PyDict} {vocabularySize : Int} (hosted : Hosted root vocabularySize)
      (generation : Section root "generation" generationKeys fun generation =>
        Unhashed generation "dtype") :
      UnhashableTested (.dict root)
  | finishReason {root : PyDict} {vocabularySize maxOutputTokens : Int}
      {before after : List PyValue} {rawRequest : PyValue} {readings : List Reading}
      {reading : Reading} (configured : Configured root vocabularySize maxOutputTokens)
      (requests : lookup root "requests" = some (.list (before ++ rawRequest :: after)))
      (passed : List.Forall₂ (RequestFits vocabularySize maxOutputTokens) before readings)
      (reads : Reads vocabularySize maxOutputTokens rawRequest reading)
      (unique : ((readings ++ [reading]).map Reading.id).Nodup)
      (unhashable : reading.reason.Unhashable) :
      UnhashableTested (.dict root)

/-- What a payload that passes says: its requests have distinct ids and tokens of the vocabulary,
a prompt each and no more generated tokens than the cap, and the metrics are their sums. -/
inductive Evidence : PyValue → Prop where
  | intro {root : PyDict} {vocabularySize maxOutputTokens : Int} {requests : List PyValue}
      {readings : List Reading}
      (model : Section root "model" modelKeys (ModelFits vocabularySize))
      (generation : Section root "generation" generationKeys (GenerationFits maxOutputTokens))
      (listed : lookup root "requests" = some (.list requests))
      (reads : List.Forall₂ (RequestFits vocabularySize maxOutputTokens) requests readings)
      (unique : (readings.map Reading.id).Nodup)
      (metrics : Section root "metrics" metricKeys
        (MetricsCount (promptTokens readings) (generatedTokens readings))) :
      Evidence (.dict root)

/-- A payload that passes is evidence. -/
theorem validateRunPayload_evidence {payload : PyValue} {done : Unit}
    (passed : validateRunPayload payload = .ok done) : Evidence payload := by
  simp only [validateRunPayload, bind_eq_ok, exactKeys_ok, checkModel_ok, checkGeneration_ok,
    subscript_ok, requestList_ok] at passed
  obtain ⟨root, ⟨rfl, _⟩, _, _, _, _, _, _, vocabularySize, model, _, _, maxOutputTokens,
    generation, _, _, _, listed, requests, ⟨rfl, _⟩, sums, summed, measured⟩ := passed
  obtain ⟨readings, reads, unique, rfl⟩ := checkRequests_sums List.nodup_nil summed
  have counts := checkMetrics_counts measured
  rw [Nat.zero_add, Nat.zero_add] at counts
  exact .intro model generation listed reads unique counts

/-- A payload with the keys of a run escapes at one of the three membership tests. -/
theorem escapes_keyed {root : PyDict} (keyed : HasKeys root runKeys) :
    Escapes (validateRunPayload (.dict root)) ↔ UnhashableTested (.dict root) := by
  have listed := not_escapes_subscript (keyed.2 "requests" (by simp [runKeys]))
  have read : exactKeys (.dict root) runKeys "run" = .ok root := exactKeys_ok.mpr ⟨rfl, keyed⟩
  rw [validateRunPayload, read]
  simp only [escapes_bind, not_escapes_ok, Except.ok.injEq, exists_eq_left',
    not_escapes_checkVersion keyed, not_escapes_checkSource keyed,
    not_escapes_checkModel keyed, not_escapes_checkHardware keyed,
    not_escapes_checkFeatures keyed, listed, not_escapes_requestList,
    not_escapes_checkMetrics keyed, escapes_checkBackend keyed, escapes_checkGeneration keyed,
    escapes_checkRequests List.nodup_nil, checkVersion_ok, checkSource_ok, checkBackend_ok,
    checkModel_ok, checkHardware_ok, checkGeneration_ok, checkFeatures_ok, subscript_ok,
    requestList_ok, false_or, or_false, and_false, exists_false]
  constructor
  · rintro ⟨_, version, _, source, backend | ⟨_, backend, vocabularySize, model, _, hardware,
      generation | ⟨maxOutputTokens, generation, _, features, _, listed, requests, ⟨rfl, _⟩,
        before, rawRequest, after, readings, reading, rfl, passed, reads, unique,
        unhashable⟩⟩⟩
    · exact .mode ⟨keyed, version, source⟩ backend
    · exact .dtype ⟨⟨keyed, version, source⟩, backend, model, hardware⟩ generation
    · exact .finishReason ⟨⟨⟨keyed, version, source⟩, backend, model, hardware⟩, generation,
        features⟩ listed passed reads unique unhashable
  · rintro (⟨sourced, backend⟩ | ⟨hosted, generation⟩ |
      ⟨configured, requests, passed, reads, unique, unhashable⟩)
    · exact ⟨(), sourced.version, (), sourced.source, .inl backend⟩
    · exact ⟨(), hosted.sourced.version, (), hosted.sourced.source, .inr ⟨(), hosted.backend, _,
        hosted.model, (), hosted.hardware, .inl generation⟩⟩
    · have hosted := configured.hosted
      exact ⟨(), hosted.sourced.version, (), hosted.sourced.source, .inr ⟨(), hosted.backend, _,
        hosted.model, (), hosted.hardware, .inr ⟨_, configured.generation, (),
          configured.features, _, requests, _, ⟨rfl, by simp⟩, _, _, _, _, _, rfl, passed,
          reads, unique, unhashable⟩⟩⟩

theorem UnhashableTested.keyed {root : PyDict} (tested : UnhashableTested (.dict root)) :
    HasKeys root runKeys := by
  cases tested with
  | mode sourced backend => exact sourced.keyed
  | dtype hosted generation => exact hosted.sourced.keyed
  | finishReason configured requests passed reads unique unhashable =>
    exact configured.hosted.sourced.keyed

/-- The validator raises something else than a `ContractError` on these payloads and no others. -/
theorem escapes_validateRunPayload (payload : PyValue) :
    Escapes (validateRunPayload payload) ↔ UnhashableTested payload := by
  by_cases run : ∃ root, payload = .dict root ∧ HasKeys root runKeys
  · obtain ⟨root, rfl, keyed⟩ := run
    exact escapes_keyed keyed
  · constructor
    · rw [validateRunPayload, escapes_bind, or_iff_right (not_escapes_exactKeys _ _ _)]
      rintro ⟨root, read, _⟩
      exact absurd ⟨root, exactKeys_ok.mp read⟩ run
    · intro tested
      cases payload with
      | dict root => exact absurd ⟨root, rfl, tested.keyed⟩ run
      | _ => cases tested

/-! ### Totality -/

/-- The validator returns or raises a `ContractError`, and it returns on evidence only. -/
def Totality (payload : PyValue) : Prop :=
  (validateRunPayload payload = .ok () ∨
    ∃ message, validateRunPayload payload = .error (.contractError message)) ∧
  (validateRunPayload payload = .ok () → Evidence payload)

theorem not_escapes_iff {action : Py Unit} :
    ¬ Escapes action ↔ action = .ok () ∨ ∃ message, action = .error (.contractError message) := by
  cases action with
  | ok done => simp
  | error error => cases error <;> simp [Escapes, PyError.IsContract]

/-- The validator is total on the payloads that lead it to no membership test of a value without
a hash. -/
theorem validator_total_iff (payload : PyValue) :
    Totality payload ↔ ¬ UnhashableTested payload := by
  rw [← escapes_validateRunPayload, not_escapes_iff, Totality]
  exact and_iff_left validateRunPayload_evidence

/-- A run of one request, with a value for the mode of its backend. -/
def runWithMode (mode : PyValue) : PyValue :=
  .dict
    [("schema_version", .int 1), ("result", .str "pass"),
      ("source", .dict [("commit", .str (String.ofList (List.replicate 40 'c'))),
        ("bundle_sha256", .str (String.ofList (List.replicate 64 'd')))]),
      ("backend", .dict [("name", .str "vllm"), ("version", .str "0.25.1"), ("mode", mode)]),
      ("model", .dict [("id", .str "smollm2-135m"),
        ("repository", .str "HuggingFaceTB/SmolLM2-135M"),
        ("revision", .str (String.ofList (List.replicate 40 'a'))),
        ("checkpoint_sha256", .str (String.ofList (List.replicate 64 'b'))),
        ("vocabulary_size", .int 49152)]),
      ("hardware", .dict [("device_name", .str "NVIDIA L4"), ("compute_capability", .str "8.9"),
        ("cuda_version", .str "12.9")]),
      ("generation", .dict [("dtype", .str "float16"), ("temperature", .float (.finite 0)),
        ("seed", .int 0), ("max_output_tokens", .int 3)]),
      ("features", .dict [("prefix_caching", .bool false), ("cuda_graphs", .bool false),
        ("structured_output", .bool false)]),
      ("requests", .list [.dict [("request_id", .str "pr4-greedy"),
        ("prompt_token_ids", .list [.int 0, .int 1, .int 2, .int 3]),
        ("generated_token_ids", .list [.int 198, .int 198, .int 504]),
        ("finish_reason", .str "length")]]),
      ("metrics", .dict [("model_load_seconds", .float (.finite 1)),
        ("inference_seconds", .float (.finite (1 / 2))), ("input_tokens", .int 4),
        ("output_tokens", .int 3), ("requests_per_second", .float (.finite 2)),
        ("output_tokens_per_second", .float (.finite 6)),
        ("peak_gpu_memory_bytes", .int 1024)])]

/-- The error of a check, if it raises one. -/
def raisedOf (action : Py Unit) : Option PyError :=
  match action with
  | .ok _ => none
  | .error error => some error

theorem raisedOf_injective {first second : Py Unit} (same : raisedOf first = raisedOf second) :
    first = second := by
  cases first <;> cases second <;> simp_all [raisedOf]

/-- The run passes with the mode `eager`, and raises a `TypeError` with an empty list for it. -/
theorem listed_mode_raises_type_error :
    validateRunPayload (runWithMode (.str "eager")) = .ok () ∧
      validateRunPayload (runWithMode (.list [])) = .error .typeError ∧
      ¬ Totality (runWithMode (.list [])) := by
  have passes : validateRunPayload (runWithMode (.str "eager")) = .ok () :=
    raisedOf_injective (by decide +kernel)
  have raises : validateRunPayload (runWithMode (.list [])) = .error .typeError :=
    raisedOf_injective (by decide +kernel)
  refine ⟨passes, raises, ?_⟩
  rintro ⟨returned | ⟨message, refused⟩, _⟩
  · simp [raises] at returned
  · simp [raises] at refused

end MarketForge.Tools
