import MarketForge.Tools.ContractFields

/-!
# The sections of a run

What each section of the validator accepts, said of the payload alone. The backend, the generation
and the requests are the sections with a membership test of a value that nothing has checked.
-/
namespace MarketForge.Tools

open BinaryFloat

/-- The object under a key, with exactly its keys. -/
def Section (root : PyDict) (key : String) (expected : List String) (fields : PyDict → Prop) :
    Prop :=
  ∃ items, lookup root key = some (.dict items) ∧ HasKeys items expected ∧ fields items

theorem HasKeys.not_escapes {items : PyDict} {expected : List String}
    (keyed : HasKeys items expected) : ∀ key ∈ expected, ¬ Escapes (subscript items key) :=
  fun key member => not_escapes_subscript (keyed.2 key member)

section Reading
variable {α : Type} {root : PyDict} {key : String} {expected : List String} {location : String}
  {next : PyDict → Py α}

theorem section_ok {result : α} :
    (do let value ← subscript root key
        let items ← exactKeys value expected location
        next items) = .ok result ↔ Section root key expected fun items => next items = .ok result
    := by
  simp only [bind_eq_ok, subscript_ok, exactKeys_ok, Section]
  constructor
  · rintro ⟨_, found, items, ⟨rfl, keyed⟩, passed⟩
    exact ⟨items, found, keyed, passed⟩
  · rintro ⟨items, found, keyed, passed⟩
    exact ⟨_, found, items, ⟨rfl, keyed⟩, passed⟩

theorem escapes_section (present : key ∈ keys root) :
    Escapes (do let value ← subscript root key
                let items ← exactKeys value expected location
                next items) ↔ Section root key expected fun items => Escapes (next items) := by
  simp only [escapes_bind, not_escapes_subscript present, not_escapes_exactKeys, false_or,
    subscript_ok, exactKeys_ok, Section]
  constructor
  · rintro ⟨_, found, items, ⟨rfl, keyed⟩, raised⟩
    exact ⟨items, found, keyed, raised⟩
  · rintro ⟨items, found, keyed, raised⟩
    exact ⟨_, found, items, ⟨rfl, keyed⟩, raised⟩

theorem not_escapes_section (present : key ∈ keys root)
    (clean : ∀ items, HasKeys items expected → ¬ Escapes (next items)) :
    ¬ Escapes (do let value ← subscript root key
                  let items ← exactKeys value expected location
                  next items) := by
  rw [escapes_section present]
  rintro ⟨items, _, keyed, raised⟩
  exact clean items keyed raised

end Reading

/-! ### Version and source -/

structure VersionFits (root : PyDict) : Prop where
  version : lookup root "schema_version" = some (.int 1)
  result : lookup root "result" = some (.str "pass")

theorem PyValue.isInt_true {value : PyValue} {number : Int} :
    value.isInt number = true ↔ value = .int number := by
  cases value <;> simp [PyValue.isInt]

theorem PyValue.isStr_true {value : PyValue} {text : String} :
    value.isStr text = true ↔ value = .str text := by
  cases value <;> simp [PyValue.isStr]

theorem checkVersion_ok {root : PyDict} {done : Unit} :
    checkVersion root = .ok done ↔ VersionFits root := by
  simp only [checkVersion, bind_eq_ok, subscript_ok, raiseIf_ok, not_or, Bool.not_eq_false,
    PyValue.isInt_true, PyValue.isStr_true]
  constructor
  · rintro ⟨_, version, _, result, rfl, rfl⟩
    exact ⟨version, result⟩
  · rintro ⟨version, result⟩
    exact ⟨_, version, _, result, rfl, rfl⟩

theorem not_escapes_checkVersion {root : PyDict} (keyed : HasKeys root runKeys) :
    ¬ Escapes (checkVersion root) := by
  have fields := keyed.not_escapes
  simp only [runKeys, List.forall_mem_cons] at fields
  simp [checkVersion, escapes_bind, fields]

/-- A non-empty string under a key. -/
def Named (items : PyDict) (key : String) : Prop :=
  ∃ text, lookup items key = some (.str text) ∧ text ≠ ""

/-- `count` lowercase hexadecimal digits under a key. -/
def Digest (items : PyDict) (key : String) (count : Nat) : Prop :=
  ∃ text, lookup items key = some (.str text) ∧ text ≠ "" ∧ lowerHex count text = true

structure SourceFits (source : PyDict) : Prop where
  commit : Digest source "commit" 40
  bundle : Digest source "bundle_sha256" 64

theorem checkSource_ok {root : PyDict} {done : Unit} :
    checkSource root = .ok done ↔ Section root "source" sourceKeys SourceFits := by
  rw [checkSource, section_ok]
  simp only [bind_eq_ok, subscript_ok, string_ok, raiseIf_ok, Bool.not_eq_false]
  constructor
  · rintro ⟨source, found, keyed, _, commit, _, ⟨rfl, some_commit⟩, _, bundle, _,
      ⟨rfl, some_bundle⟩, _, hex_commit, hex_bundle⟩
    exact ⟨source, found, keyed, ⟨_, commit, some_commit, hex_commit⟩,
      ⟨_, bundle, some_bundle, hex_bundle⟩⟩
  · rintro ⟨source, found, keyed, ⟨_, commit, some_commit, hex_commit⟩,
      ⟨_, bundle, some_bundle, hex_bundle⟩⟩
    exact ⟨source, found, keyed, _, commit, _, ⟨rfl, some_commit⟩, _, bundle, _,
      ⟨rfl, some_bundle⟩, (), hex_commit, hex_bundle⟩

theorem not_escapes_checkSource {root : PyDict} (keyed : HasKeys root runKeys) :
    ¬ Escapes (checkSource root) := by
  apply not_escapes_section (keyed.2 _ (by simp [runKeys]))
  intro source own
  have fields := own.not_escapes
  simp only [sourceKeys, List.forall_mem_cons] at fields
  simp [escapes_bind, fields]

/-! ### Backend -/

/-- The fields of the backend before its mode. -/
structure BackendNamed (backend : PyDict) : Prop where
  name : Named backend "name"
  version : Named backend "version"

/-- The text under a key is one of the members. -/
def OneOf (items : PyDict) (key : String) (members : List String) : Prop :=
  ∃ text ∈ members, lookup items key = some (.str text)

/-- The value under a key has no hash. -/
def Unhashed (items : PyDict) (key : String) : Prop :=
  ∃ value, lookup items key = some value ∧ value.Unhashable

structure BackendFits (backend : PyDict) : Prop where
  named : BackendNamed backend
  mode : OneOf backend "mode" backendModes

theorem checkBackend_ok {root : PyDict} {done : Unit} :
    checkBackend root = .ok done ↔ Section root "backend" backendKeys BackendFits := by
  rw [checkBackend, section_ok]
  simp only [bind_eq_ok, subscript_ok, string_ok, raiseIf_ok, Bool.not_eq_false]
  constructor
  · rintro ⟨backend, found, keyed, _, name, _, ⟨rfl, some_name⟩, _, version, _,
      ⟨rfl, some_version⟩, mode, tested, _, supported, rfl⟩
    obtain ⟨text, member, rfl⟩ := inSet_true.mp supported
    exact ⟨backend, found, keyed, ⟨⟨_, name, some_name⟩, ⟨_, version, some_version⟩⟩,
      ⟨text, member, tested⟩⟩
  · rintro ⟨backend, found, keyed, ⟨⟨_, name, some_name⟩, ⟨_, version, some_version⟩⟩,
      ⟨text, member, tested⟩⟩
    exact ⟨backend, found, keyed, _, name, _, ⟨rfl, some_name⟩, _, version, _,
      ⟨rfl, some_version⟩, _, tested, true, inSet_true.mpr ⟨text, member, rfl⟩, rfl⟩

/-- The backend escapes the contract on a mode without a hash, once its other fields pass. -/
theorem escapes_checkBackend {root : PyDict} (keyed : HasKeys root runKeys) :
    Escapes (checkBackend root) ↔ Section root "backend" backendKeys fun backend =>
      BackendNamed backend ∧ Unhashed backend "mode" := by
  rw [checkBackend, escapes_section (keyed.2 _ (by simp [runKeys]))]
  apply exists_congr
  intro backend
  apply and_congr_right
  intro _
  apply and_congr_right
  intro own
  have fields := own.not_escapes
  simp only [backendKeys, List.forall_mem_cons] at fields
  simp only [escapes_bind, fields, not_escapes_string, escapes_inSet, not_escapes_raiseIf,
    subscript_ok, string_ok, false_or, and_false, exists_false, or_false]
  constructor
  · rintro ⟨_, name, _, ⟨rfl, some_name⟩, _, version, _, ⟨rfl, some_version⟩, mode, tested,
      unhashable⟩
    exact ⟨⟨⟨_, name, some_name⟩, ⟨_, version, some_version⟩⟩, mode, tested, unhashable⟩
  · rintro ⟨⟨⟨_, name, some_name⟩, ⟨_, version, some_version⟩⟩, mode, tested, unhashable⟩
    exact ⟨_, name, _, ⟨rfl, some_name⟩, _, version, _, ⟨rfl, some_version⟩, mode, tested,
      unhashable⟩

/-! ### Model and hardware -/

/-- An integer under a key that is at least the bound. -/
def AtLeast (items : PyDict) (key : String) (least number : Int) : Prop :=
  lookup items key = some (.int number) ∧ least ≤ number

structure ModelFits (vocabularySize : Int) (model : PyDict) : Prop where
  id : Named model "id"
  repository : Named model "repository"
  revision : Digest model "revision" 40
  checkpoint : Digest model "checkpoint_sha256" 64
  vocabulary : AtLeast model "vocabulary_size" 1 vocabularySize

theorem checkModel_ok {root : PyDict} {vocabularySize : Int} :
    checkModel root = .ok vocabularySize ↔
      Section root "model" modelKeys (ModelFits vocabularySize) := by
  rw [checkModel, section_ok]
  simp only [bind_eq_ok, subscript_ok, string_ok, raiseIf_ok, integer_ok, Bool.not_eq_false]
  constructor
  · rintro ⟨model, found, keyed, _, id, _, ⟨rfl, some_id⟩, _, repository, _,
      ⟨rfl, some_repository⟩, _, revision, _, ⟨rfl, some_revision⟩, _, checkpoint, _,
      ⟨rfl, some_checkpoint⟩, _, hex_revision, _, hex_checkpoint, _, vocabulary, rfl, least⟩
    exact ⟨model, found, keyed, ⟨_, id, some_id⟩, ⟨_, repository, some_repository⟩,
      ⟨_, revision, some_revision, hex_revision⟩,
      ⟨_, checkpoint, some_checkpoint, hex_checkpoint⟩, vocabulary, least⟩
  · rintro ⟨model, found, keyed, ⟨_, id, some_id⟩, ⟨_, repository, some_repository⟩,
      ⟨_, revision, some_revision, hex_revision⟩,
      ⟨_, checkpoint, some_checkpoint, hex_checkpoint⟩, vocabulary, least⟩
    exact ⟨model, found, keyed, _, id, _, ⟨rfl, some_id⟩, _, repository, _,
      ⟨rfl, some_repository⟩, _, revision, _, ⟨rfl, some_revision⟩, _, checkpoint, _,
      ⟨rfl, some_checkpoint⟩, (), hex_revision, (), hex_checkpoint, _, vocabulary, rfl, least⟩

theorem not_escapes_checkModel {root : PyDict} (keyed : HasKeys root runKeys) :
    ¬ Escapes (checkModel root) := by
  apply not_escapes_section (keyed.2 _ (by simp [runKeys]))
  intro model own
  have fields := own.not_escapes
  simp only [modelKeys, List.forall_mem_cons] at fields
  simp [escapes_bind, fields]

structure HardwareFits (hardware : PyDict) : Prop where
  device : Named hardware "device_name"
  capability : ∃ text, lookup hardware "compute_capability" = some (.str text) ∧ text ≠ "" ∧
    computeCapability text = true
  cuda : Named hardware "cuda_version"

theorem checkHardware_ok {root : PyDict} {done : Unit} :
    checkHardware root = .ok done ↔ Section root "hardware" hardwareKeys HardwareFits := by
  rw [checkHardware, section_ok]
  simp only [bind_eq_ok, subscript_ok, string_ok, raiseIf_ok, Bool.not_eq_false]
  constructor
  · rintro ⟨hardware, found, keyed, _, device, _, ⟨rfl, some_device⟩, _, capability, _,
      ⟨rfl, some_capability⟩, _, formed, _, cuda, _, ⟨rfl, some_cuda⟩, _⟩
    exact ⟨hardware, found, keyed, ⟨_, device, some_device⟩,
      ⟨_, capability, some_capability, formed⟩, ⟨_, cuda, some_cuda⟩⟩
  · rintro ⟨hardware, found, keyed, ⟨_, device, some_device⟩,
      ⟨_, capability, some_capability, formed⟩, ⟨_, cuda, some_cuda⟩⟩
    exact ⟨hardware, found, keyed, _, device, _, ⟨rfl, some_device⟩, _, capability, _,
      ⟨rfl, some_capability⟩, (), formed, _, cuda, _, ⟨rfl, some_cuda⟩, rfl⟩

theorem not_escapes_checkHardware {root : PyDict} (keyed : HasKeys root runKeys) :
    ¬ Escapes (checkHardware root) := by
  apply not_escapes_section (keyed.2 _ (by simp [runKeys]))
  intro hardware own
  have fields := own.not_escapes
  simp only [hardwareKeys, List.forall_mem_cons] at fields
  simp only [escapes_bind, fields, not_escapes_string, not_escapes_raiseIf, not_escapes_pure,
    and_false, exists_false, or_false, not_false_eq_true]

/-! ### Generation -/

structure GenerationFits (maxOutputTokens : Int) (generation : PyDict) : Prop where
  dtype : OneOf generation "dtype" dtypes
  temperature : lookup generation "temperature" = some (.float (.finite 0))
  seed : ∃ seed, AtLeast generation "seed" 0 seed
  cap : AtLeast generation "max_output_tokens" 1 maxOutputTokens

theorem checkGeneration_ok {root : PyDict} {maxOutputTokens : Int} :
    checkGeneration root = .ok maxOutputTokens ↔
      Section root "generation" generationKeys (GenerationFits maxOutputTokens) := by
  rw [checkGeneration, section_ok]
  simp only [bind_eq_ok, subscript_ok, raiseIf_ok, integer_ok, finiteFloat_ok,
    Bool.not_eq_false, not_not]
  constructor
  · rintro ⟨generation, found, keyed, dtype, tested, _, supported, _, rfl, _, temperature, _,
      ⟨rfl, _⟩, _, rfl, _, seed, _, ⟨rfl, some_seed⟩, _, cap, rfl, least⟩
    obtain ⟨text, member, rfl⟩ := inSet_true.mp supported
    exact ⟨generation, found, keyed, ⟨text, member, tested⟩, temperature,
      ⟨_, seed, some_seed⟩, cap, least⟩
  · rintro ⟨generation, found, keyed, ⟨text, member, tested⟩, temperature,
      ⟨_, seed, some_seed⟩, cap, least⟩
    exact ⟨generation, found, keyed, _, tested, true, inSet_true.mpr ⟨text, member, rfl⟩, (),
      rfl, _, temperature, _, ⟨rfl, le_refl _, by rintro ⟨⟩⟩, (), rfl, _, seed, _, ⟨rfl, some_seed⟩,
      _, cap, rfl, least⟩

/-- The generation escapes the contract on a dtype without a hash. -/
theorem escapes_checkGeneration {root : PyDict} (keyed : HasKeys root runKeys) :
    Escapes (checkGeneration root) ↔
      Section root "generation" generationKeys fun generation => Unhashed generation "dtype" := by
  rw [checkGeneration, escapes_section (keyed.2 _ (by simp [runKeys]))]
  apply exists_congr
  intro generation
  apply and_congr_right
  intro _
  apply and_congr_right
  intro own
  have fields := own.not_escapes
  simp only [generationKeys, List.forall_mem_cons] at fields
  simp only [escapes_bind, fields, not_escapes_integer, not_escapes_finiteFloat, escapes_inSet,
    not_escapes_raiseIf, subscript_ok, false_or, and_false, exists_false, or_false, Unhashed]

/-! ### Features -/

/-- A boolean under each key. -/
def FeaturesFit (features : PyDict) : Prop :=
  ∀ feature ∈ keys features, ∃ flag, lookup features feature = some (.bool flag)

theorem checkFlags_ok {features : PyDict} {names : List String} {done : Unit} :
    checkFlags features names = .ok done ↔
      ∀ feature ∈ names, ∃ flag, lookup features feature = some (.bool flag) := by
  induction names with
  | nil => simp [checkFlags]
  | cons feature rest ih =>
    simp only [checkFlags, bind_eq_ok, subscript_ok, boolean_ok, ih, List.forall_mem_cons]
    constructor
    · rintro ⟨_, found, flag, rfl, later⟩
      exact ⟨⟨flag, found⟩, later⟩
    · rintro ⟨⟨flag, found⟩, later⟩
      exact ⟨_, found, flag, rfl, later⟩

theorem checkFeatures_ok {root : PyDict} {done : Unit} :
    checkFeatures root = .ok done ↔ Section root "features" featureKeys FeaturesFit := by
  rw [checkFeatures, section_ok]
  simp only [checkFlags_ok]
  rfl

theorem not_escapes_checkFlags {features : PyDict} {names : List String}
    (present : ∀ name ∈ names, name ∈ keys features) : ¬ Escapes (checkFlags features names) := by
  induction names with
  | nil => exact not_escapes_ok ()
  | cons feature rest ih =>
    rw [List.forall_mem_cons] at present
    rw [checkFlags]
    apply not_escapes_bind (not_escapes_subscript present.1)
    intro value _
    exact not_escapes_bind (not_escapes_boolean _ _) fun _ _ => ih present.2

theorem not_escapes_checkFeatures {root : PyDict} (keyed : HasKeys root runKeys) :
    ¬ Escapes (checkFeatures root) := by
  apply not_escapes_section (keyed.2 _ (by simp [runKeys]))
  intro features _
  exact not_escapes_checkFlags fun _ member => member

/-! ### Metrics -/

/-- The token sums under the metrics. -/
structure MetricsCount (inputTokens outputTokens : Nat) (metrics : PyDict) : Prop where
  input : lookup metrics "input_tokens" = some (.int inputTokens)
  output : lookup metrics "output_tokens" = some (.int outputTokens)

theorem checkMetrics_counts {root : PyDict} {requests inputTokens outputTokens : Nat} {done : Unit}
    (passed : checkMetrics root requests inputTokens outputTokens = .ok done) :
    Section root "metrics" metricKeys (MetricsCount inputTokens outputTokens) := by
  rw [checkMetrics, section_ok] at passed
  simp only [bind_eq_ok, subscript_ok, raiseIf_ok, integer_ok, not_not] at passed
  obtain ⟨metrics, found, keyed, _, _, _, _, _, _, _, _, _, input, _, ⟨rfl, _⟩, _, rfl, _, output,
    _, ⟨rfl, _⟩, _, rfl, _⟩ := passed
  exact ⟨metrics, found, keyed, input, output⟩

/-- The rates are divided by an elapsed time that has been checked to be positive. -/
theorem not_escapes_checkMetrics {root : PyDict} (keyed : HasKeys root runKeys)
    (requests inputTokens outputTokens : Nat) :
    ¬ Escapes (checkMetrics root requests inputTokens outputTokens) := by
  apply not_escapes_section (keyed.2 _ (by simp [runKeys]))
  intro metrics own
  have fields := own.not_escapes
  simp only [metricKeys, List.forall_mem_cons] at fields
  have divides : ∀ value elapsed count,
      finiteFloat value "metrics.inference_seconds" true = .ok elapsed →
        ¬ Escapes (divide count elapsed) := by
    intro value elapsed count read
    exact not_escapes_divide (ne_of_gt ((finiteFloat_ok.mp read).2.2 rfl))
  simp only [escapes_bind, fields, not_escapes_integer, not_escapes_finiteFloat,
    not_escapes_raiseIf, false_or, or_false, and_false, exists_false]
  rintro ⟨_, _, _, _, _, _, elapsed, read, raised⟩
  simp [divides _ _ _ read] at raised

end MarketForge.Tools
