import MarketForge.Tools.InferenceContract

/-!
# The field checks

What each field check accepts, and that it raises nothing but a `ContractError`, whatever the
value is.
-/
namespace MarketForge.Tools

open BinaryFloat

theorem exactKeys_ok {value : PyValue} {expected : List String} {location : String}
    {items : PyDict} : exactKeys value expected location = .ok items ↔
      value = .dict items ∧ HasKeys items expected := by
  cases value with
  | dict own =>
    rw [exactKeys, accepted_eq_ok, PyValue.dict.injEq, and_comm]
    apply and_congr_right
    rintro rfl
    rfl
  | _ => simp [exactKeys]

@[simp] theorem not_escapes_exactKeys (value : PyValue) (expected : List String)
    (location : String) : ¬ Escapes (exactKeys value expected location) := by
  cases value with
  | dict own => exact not_escapes_ite (not_escapes_ok _) (not_escapes_contract _)
  | _ => exact not_escapes_contract _

theorem string_ok {value : PyValue} {location text : String} :
    string value location = .ok text ↔ value = .str text ∧ text ≠ "" := by
  cases value with
  | str own =>
    rw [string, refused_eq_ok, PyValue.str.injEq, and_comm]
    apply and_congr_right
    rintro rfl
    rfl
  | _ => simp [string]

@[simp] theorem not_escapes_string (value : PyValue) (location : String) :
    ¬ Escapes (string value location) := by
  cases value with
  | str own => exact not_escapes_ite (not_escapes_contract _) (not_escapes_ok _)
  | _ => exact not_escapes_contract _

theorem integer_ok {value : PyValue} {location : String} {minimum number : Int} :
    integer value location minimum = .ok number ↔ value = .int number ∧ minimum ≤ number := by
  cases value with
  | int own =>
    rw [integer, refused_eq_ok, PyValue.int.injEq, and_comm]
    apply and_congr_right
    rintro rfl
    exact not_lt
  | _ => simp [integer]

@[simp] theorem not_escapes_integer (value : PyValue) (location : String) (minimum : Int) :
    ¬ Escapes (integer value location minimum) := by
  cases value with
  | int own => exact not_escapes_ite (not_escapes_contract _) (not_escapes_ok _)
  | _ => exact not_escapes_contract _

theorem finiteFloat_ok {value : PyValue} {location : String} {strictlyPositive : Bool}
    {number : ℚ} : finiteFloat value location strictlyPositive = .ok number ↔
      value = .float (.finite number) ∧ 0 ≤ number ∧ (strictlyPositive = true → 0 < number) := by
  cases value with
  | float own =>
    cases own with
    | finite own =>
      rw [finiteFloat, PyValue.float.injEq, Value.finite.injEq]
      split
      next refused =>
        refine iff_of_false (by simp) ?_
        rintro ⟨rfl, _, positive⟩
        exact absurd refused.2 (not_le.mpr (positive refused.1))
      next positive =>
        rw [refused_eq_ok, and_comm]
        apply and_congr_right
        rintro rfl
        -- What the two refusals leave depends on the bound that is asked for.
        cases strictlyPositive with
        | true =>
          have above : 0 < own := not_le.mp fun small => positive ⟨rfl, small⟩
          exact iff_of_true nofun ⟨above.le, fun _ => above⟩
        | false => simp
    | _ => simp [finiteFloat]
  | _ => simp [finiteFloat]

@[simp] theorem not_escapes_finiteFloat (value : PyValue) (location : String)
    (strictlyPositive : Bool) : ¬ Escapes (finiteFloat value location strictlyPositive) := by
  cases value with
  | float own =>
    cases own with
    | finite own =>
      apply not_escapes_ite (not_escapes_contract _)
      exact not_escapes_ite (not_escapes_contract _) (not_escapes_ok _)
    | _ => exact not_escapes_contract _
  | _ => exact not_escapes_contract _

theorem boolean_ok {value : PyValue} {location : String} {flag : Bool} :
    boolean value location = .ok flag ↔ value = .bool flag := by
  cases value <;> simp [boolean]

@[simp] theorem not_escapes_boolean (value : PyValue) (location : String) :
    ¬ Escapes (boolean value location) := by
  cases value with
  | bool flag => exact not_escapes_ok _
  | _ => exact not_escapes_contract _

/-- The items of a token list are the tokens of the vocabulary that it returns. -/
theorem tokensFrom_ok {location : String} {vocabularySize : Int} {items : List PyValue}
    {before result : List Int} : tokensFrom location vocabularySize items before = .ok result ↔
      ∃ ids, items = ids.map PyValue.int ∧ (∀ id ∈ ids, 0 ≤ id ∧ id < vocabularySize) ∧
        result = before ++ ids := by
  induction items generalizing before with
  | nil =>
    rw [tokensFrom, Except.ok.injEq]
    constructor
    · rintro rfl
      exact ⟨[], rfl, by simp, (List.append_nil _).symm⟩
    · rintro ⟨ids, empty, _, rfl⟩
      rw [List.map_eq_nil_iff.mp empty.symm, List.append_nil]
  | cons item rest ih =>
    simp only [tokensFrom, bind_eq_ok, integer_ok, raiseIf_ok, ih]
    constructor
    · rintro ⟨id, ⟨rfl, least⟩, _, small, ids, rfl, inside, rfl⟩
      refine ⟨id :: ids, rfl, ?_, by simp⟩
      rw [List.forall_mem_cons]
      exact ⟨⟨least, not_le.mp small⟩, inside⟩
    · rintro ⟨ids, spelled, inside, rfl⟩
      cases ids with
      | nil => cases spelled
      | cons id ids =>
        obtain ⟨rfl, rfl⟩ := List.cons.inj spelled
        rw [List.forall_mem_cons] at inside
        exact ⟨id, ⟨rfl, inside.1.1⟩, (), not_le.mpr inside.1.2, ids, rfl, inside.2, by simp⟩

theorem not_escapes_tokensFrom (location : String) (vocabularySize : Int)
    (items : List PyValue) (before : List Int) :
    ¬ Escapes (tokensFrom location vocabularySize items before) := by
  induction items generalizing before with
  | nil => exact not_escapes_ok _
  | cons item rest ih =>
    rw [tokensFrom]
    apply not_escapes_bind (not_escapes_integer _ _ _)
    intro id _
    exact not_escapes_bind (not_escapes_raiseIf _ _) fun _ _ => ih _

theorem tokens_ok {value : PyValue} {location : String} {vocabularySize : Int} {empty : Bool}
    {ids : List Int} : tokens value location vocabularySize empty = .ok ids ↔
      value = .list (ids.map PyValue.int) ∧ (∀ id ∈ ids, 0 ≤ id ∧ id < vocabularySize) ∧
        (empty = false → ids ≠ []) := by
  cases value with
  | list items =>
    rw [tokens, PyValue.list.injEq]
    split
    next refused =>
      refine iff_of_false (by simp) ?_
      rintro ⟨rfl, _, present⟩
      have nothing : ids = [] := by simpa using refused.2
      exact present refused.1 nothing
    next accepted =>
      rw [tokensFrom_ok]
      simp only [List.nil_append]
      constructor
      · rintro ⟨own, rfl, inside, rfl⟩
        refine ⟨rfl, inside, fun strict nothing => accepted ⟨strict, ?_⟩⟩
        simp [nothing]
      · rintro ⟨same, inside, _⟩
        exact ⟨ids, same, inside, rfl⟩
  | _ => simp [tokens]

@[simp] theorem not_escapes_tokens (value : PyValue) (location : String) (vocabularySize : Int)
    (empty : Bool) : ¬ Escapes (tokens value location vocabularySize empty) := by
  cases value with
  | list items => exact not_escapes_ite (not_escapes_contract _) (not_escapes_tokensFrom _ _ _ _)
  | _ => exact not_escapes_contract _

theorem requestList_ok {value : PyValue} {items : List PyValue} :
    requestList value = .ok items ↔ value = .list items ∧ items ≠ [] := by
  cases value with
  | list own =>
    rw [requestList, refused_eq_ok, PyValue.list.injEq, List.isEmpty_iff, and_comm]
    apply and_congr_right
    rintro rfl
    rfl
  | _ => simp [requestList]

@[simp] theorem not_escapes_requestList (value : PyValue) : ¬ Escapes (requestList value) := by
  cases value with
  | list own => exact not_escapes_ite (not_escapes_contract _) (not_escapes_ok _)
  | _ => exact not_escapes_contract _

end MarketForge.Tools
