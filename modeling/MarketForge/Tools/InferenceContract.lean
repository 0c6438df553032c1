import MarketForge.Tools.Python

/-!
# The inference contract

`validateRunPayload` is the validator of an inference run, section by section in the order of the
source. A section reads its object with exactly its keys and then checks the fields one by one.
-/
namespace MarketForge.Tools

open BinaryFloat

/-! ### Field checks -/

def exactKeys (value : PyValue) (expected : List String) (location : String) : Py PyDict :=
  match value with
  | .dict items =>
    if HasKeys items expected then .ok items
    else .error (.contractError (location ++ " fields do not match schema"))
  | _ => .error (.contractError (location ++ " must be an object"))

def string (value : PyValue) (location : String) : Py String :=
  match value with
  | .str text =>
    if text = "" then .error (.contractError (location ++ " must be a non-empty string"))
    else .ok text
  | _ => .error (.contractError (location ++ " must be a non-empty string"))

def integer (value : PyValue) (location : String) (minimum : Int) : Py Int :=
  match value with
  | .int number =>
    if number < minimum then
      .error (.contractError (location ++ " must be an integer >= " ++ toString minimum))
    else .ok number
  | _ => .error (.contractError (location ++ " must be an integer >= " ++ toString minimum))

def finiteFloat (value : PyValue) (location : String) (strictlyPositive : Bool) : Py ℚ :=
  match value with
  | .float (.finite number) =>
    if strictlyPositive = true ∧ number ≤ 0 then
      .error (.contractError (location ++ " must be positive"))
    else if strictlyPositive = false ∧ number < 0 then
      .error (.contractError (location ++ " must be non-negative"))
    else .ok number
  | _ => .error (.contractError (location ++ " must be a finite float"))

def boolean (value : PyValue) (location : String) : Py Bool :=
  match value with
  | .bool flag => .ok flag
  | _ => .error (.contractError (location ++ " must be a boolean"))

/-- The place of an item of a list. -/
def itemOf (location : String) (index : Nat) : String :=
  location ++ "[" ++ toString index ++ "]"

/-- The loop over the items of a token list, with the tokens so far. -/
def tokensFrom (location : String) (vocabularySize : Int) :
    List PyValue → List Int → Py (List Int)
  | [], result => .ok result
  | token :: rest, result => do
    let tokenId ← integer token (itemOf location result.length) 0
    raiseIf (tokenId ≥ vocabularySize) (itemOf location result.length ++ " exceeds vocabulary")
    tokensFrom location vocabularySize rest (result ++ [tokenId])

def tokens (value : PyValue) (location : String) (vocabularySize : Int) (empty : Bool) :
    Py (List Int) :=
  match value with
  | .list items =>
    if empty = false ∧ items.isEmpty = true then
      .error (.contractError (location ++ " must be a token list"))
    else tokensFrom location vocabularySize items []
  | _ => .error (.contractError (location ++ " must be a token list"))

/-! ### Patterns -/

/-- `cpu` or `[0-9]+\.[0-9]+`, matched as a whole. -/
def computeCapability (text : String) : Bool :=
  let minor := text.toList.dropWhile Char.isDigit
  decide (text = "cpu") ||
    (!(text.toList.takeWhile Char.isDigit).isEmpty && decide (minor.head? = some '.') &&
      !minor.tail.isEmpty && minor.tail.all Char.isDigit)

def backendModes : List String := ["cpu_reference", "eager", "cuda_graph", "ordinary"]

def dtypes : List String := ["float32", "float16", "bfloat16"]

def finishReasons : List String := ["length", "eos", "stop"]

/-! ### The sections -/

def runKeys : List String :=
  ["schema_version", "result", "source", "backend", "model", "hardware", "generation",
    "features", "requests", "metrics"]

def checkVersion (root : PyDict) : Py Unit := do
  let version ← subscript root "schema_version"
  let result ← subscript root "result"
  raiseIf (version.isInt 1 = false ∨ result.isStr "pass" = false)
    "run version or result is invalid"

def sourceKeys : List String := ["commit", "bundle_sha256"]

def checkSource (root : PyDict) : Py Unit := do
  let value ← subscript root "source"
  let source ← exactKeys value sourceKeys "source"
  let value ← subscript source "commit"
  let commit ← string value "source.commit"
  let value ← subscript source "bundle_sha256"
  let bundle ← string value "source.bundle_sha256"
  raiseIf (lowerHex 40 commit = false) "source.commit must be a lowercase Git object ID"
  raiseIf (lowerHex 64 bundle = false) "source.bundle_sha256 must be lowercase SHA-256"

def backendKeys : List String := ["name", "version", "mode"]

def checkBackend (root : PyDict) : Py Unit := do
  let value ← subscript root "backend"
  let backend ← exactKeys value backendKeys "backend"
  let value ← subscript backend "name"
  let _ ← string value "backend.name"
  let value ← subscript backend "version"
  let _ ← string value "backend.version"
  let mode ← subscript backend "mode"
  let supported ← inSet mode backendModes
  raiseIf (supported = false) "backend.mode is unsupported"

def modelKeys : List String :=
  ["id", "repository", "revision", "checkpoint_sha256", "vocabulary_size"]

/-- The vocabulary size. -/
def checkModel (root : PyDict) : Py Int := do
  let value ← subscript root "model"
  let model ← exactKeys value modelKeys "model"
  let value ← subscript model "id"
  let _ ← string value "model.id"
  let value ← subscript model "repository"
  let _ ← string value "model.repository"
  let value ← subscript model "revision"
  let revision ← string value "model.revision"
  let value ← subscript model "checkpoint_sha256"
  let checkpoint ← string value "model.checkpoint_sha256"
  raiseIf (lowerHex 40 revision = false) "model.revision must be a lowercase commit"
  raiseIf (lowerHex 64 checkpoint = false) "model.checkpoint_sha256 must be lowercase SHA-256"
  let value ← subscript model "vocabulary_size"
  integer value "model.vocabulary_size" 1

def hardwareKeys : List String := ["device_name", "compute_capability", "cuda_version"]

def checkHardware (root : PyDict) : Py Unit := do
  let value ← subscript root "hardware"
  let hardware ← exactKeys value hardwareKeys "hardware"
  let value ← subscript hardware "device_name"
  let _ ← string value "hardware.device_name"
  let value ← subscript hardware "compute_capability"
  let capability ← string value "hardware.compute_capability"
  raiseIf (computeCapability capability = false) "hardware.compute_capability is malformed"
  let value ← subscript hardware "cuda_version"
  let _ ← string value "hardware.cuda_version"
  pure ()

def generationKeys : List String := ["dtype", "temperature", "seed", "max_output_tokens"]

/-- The cap on the generated tokens of a request. -/
def checkGeneration (root : PyDict) : Py Int := do
  let value ← subscript root "generation"
  let generation ← exactKeys value generationKeys "generation"
  let dtype ← subscript generation "dtype"
  let supported ← inSet dtype dtypes
  raiseIf (supported = false) "generation.dtype is unsupported"
  let value ← subscript generation "temperature"
  let temperature ← finiteFloat value "generation.temperature" false
  raiseIf (temperature ≠ 0) "release-1 inference must be greedy"
  let value ← subscript generation "seed"
  let _ ← integer value "generation.seed" 0
  let value ← subscript generation "max_output_tokens"
  integer value "generation.max_output_tokens" 1

def featureKeys : List String := ["prefix_caching", "cuda_graphs", "structured_output"]

/-- The loop over the keys of the features. -/
def checkFlags (features : PyDict) : List String → Py Unit
  | [] => .ok ()
  | feature :: rest => do
    let value ← subscript features feature
    let _ ← boolean value ("features." ++ feature)
    checkFlags features rest

def checkFeatures (root : PyDict) : Py Unit := do
  let value ← subscript root "features"
  let features ← exactKeys value featureKeys "features"
  checkFlags features (keys features)

def requestKeys : List String :=
  ["request_id", "prompt_token_ids", "generated_token_ids", "finish_reason"]

/-- The loop over the requests, with the ids and the token counts so far. -/
def checkRequests (vocabularySize maxOutputTokens : Int) :
    List PyValue → List String → Nat → Nat → Py (Nat × Nat)
  | [], _, inputTokens, outputTokens => .ok (inputTokens, outputTokens)
  | rawRequest :: rest, requestIds, inputTokens, outputTokens => do
    let location := itemOf "requests" requestIds.length
    let request ← exactKeys rawRequest requestKeys location
    let value ← subscript request "request_id"
    let requestId ← string value (location ++ ".request_id")
    raiseIf (requestId ∈ requestIds) "request IDs must be unique"
    let value ← subscript request "prompt_token_ids"
    let prompt ← tokens value (location ++ ".prompt_token_ids") vocabularySize false
    let value ← subscript request "generated_token_ids"
    let generated ← tokens value (location ++ ".generated_token_ids") vocabularySize true
    raiseIf ((generated.length : Int) > maxOutputTokens)
      "generated token count exceeds configured cap"
    let reason ← subscript request "finish_reason"
    let supported ← inSet reason finishReasons
    raiseIf (supported = false) "request finish reason is unsupported"
    checkRequests vocabularySize maxOutputTokens rest (requestIds ++ [requestId])
      (inputTokens + prompt.length) (outputTokens + generated.length)

def requestList (value : PyValue) : Py (List PyValue) :=
  match value with
  | .list items =>
    if items.isEmpty = true then .error (.contractError "requests must be a non-empty list")
    else .ok items
  | _ => .error (.contractError "requests must be a non-empty list")

def metricKeys : List String :=
  ["model_load_seconds", "inference_seconds", "input_tokens", "output_tokens",
    "requests_per_second", "output_tokens_per_second", "peak_gpu_memory_bytes"]

/-- The tolerance `1.0e-9`. -/
def rateTolerance : Value := (Value.finite (1 / 10 ^ 9)).round binary64

def checkMetrics (root : PyDict) (requests inputTokens outputTokens : Nat) : Py Unit := do
  let value ← subscript root "metrics"
  let metrics ← exactKeys value metricKeys "metrics"
  let value ← subscript metrics "model_load_seconds"
  let _ ← finiteFloat value "metrics.model_load_seconds" false
  let value ← subscript metrics "inference_seconds"
  let elapsed ← finiteFloat value "metrics.inference_seconds" true
  let value ← subscript metrics "input_tokens"
  let input ← integer value "metrics.input_tokens" 0
  raiseIf (input ≠ inputTokens) "metrics.input_tokens does not match requests"
  let value ← subscript metrics "output_tokens"
  let output ← integer value "metrics.output_tokens" 0
  raiseIf (output ≠ outputTokens) "metrics.output_tokens does not match requests"
  let value ← subscript metrics "requests_per_second"
  let requestRate ← finiteFloat value "metrics.requests_per_second" true
  let value ← subscript metrics "output_tokens_per_second"
  let outputRate ← finiteFloat value "metrics.output_tokens_per_second" false
  let value ← subscript metrics "peak_gpu_memory_bytes"
  let _ ← integer value "metrics.peak_gpu_memory_bytes" 0
  let expected ← divide requests elapsed
  raiseIf (isClose (.finite requestRate) expected rateTolerance = false)
    "request rate is inconsistent"
  let expected ← divide outputTokens elapsed
  raiseIf (isClose (.finite outputRate) expected rateTolerance = false)
    "output-token rate is inconsistent"

def validateRunPayload (payload : PyValue) : Py Unit := do
  let root ← exactKeys payload runKeys "run"
  checkVersion root
  checkSource root
  checkBackend root
  let vocabularySize ← checkModel root
  checkHardware root
  let maxOutputTokens ← checkGeneration root
  checkFeatures root
  let value ← subscript root "requests"
  let requests ← requestList value
  let (inputTokens, outputTokens) ←
    checkRequests vocabularySize maxOutputTokens requests [] 0 0
  checkMetrics root requests.length inputTokens outputTokens

end MarketForge.Tools
