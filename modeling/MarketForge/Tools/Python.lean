import MarketForge.Library.BinaryFloat
import MarketForge.Library.Fallible

/-!
# Python values

The values that a JSON text denotes in Python, and the operations on them that can raise. A
validator is to raise its own error only: `Escapes` is a computation that raises another one. The
keys of a dictionary are a list here, which a lookup searches from the front.
-/
namespace MarketForge.Tools

open BinaryFloat

/-- A list has fewer than `2 ^ 63` items in Python. -/
inductive PyValue where
  | none
  | bool (value : Bool)
  | int (value : Int)
  | float (value : Value)
  | str (text : String)
  | list (items : List PyValue)
  | dict (items : List (String × PyValue))

abbrev PyDict := List (String × PyValue)

/-- The exceptions of the modelled code. -/
inductive PyError where
  | contractError (message : String)
  | typeError
  | keyError (key : String)
  | zeroDivisionError
  deriving DecidableEq, Repr

abbrev Py (α : Type) := Except PyError α

/-- A `raise ContractError` under a condition. -/
def raiseIf (condition : Prop) [Decidable condition] (message : String) : Py Unit :=
  if condition then .error (.contractError message) else .ok ()

def lookup (items : PyDict) (key : String) : Option PyValue :=
  (items.find? fun item => item.1 = key).map Prod.snd

def keys (items : PyDict) : List String := items.map Prod.fst

/-- The keys of a dictionary are the expected ones. -/
def HasKeys (items : PyDict) (expected : List String) : Prop :=
  (∀ key ∈ keys items, key ∈ expected) ∧ ∀ key ∈ expected, key ∈ keys items

instance (items : PyDict) (expected : List String) : Decidable (HasKeys items expected) :=
  inferInstanceAs (Decidable (_ ∧ _))

/-- `items[key]`. -/
def subscript (items : PyDict) (key : String) : Py PyValue :=
  match lookup items key with
  | some value => .ok value
  | .none => .error (.keyError key)

/-- Lists and dictionaries have no hash. -/
def PyValue.Unhashable : PyValue → Prop
  | .list _ => True
  | .dict _ => True
  | _ => False

/-- `value in members` for a set of strings, which takes the hash of the value. -/
def inSet (value : PyValue) (members : List String) : Py Bool :=
  match value with
  | .list _ => .error .typeError
  | .dict _ => .error .typeError
  | .str text => .ok (members.contains text)
  | _ => .ok false

def PyValue.isStr (value : PyValue) (text : String) : Bool :=
  match value with
  | .str own => decide (own = text)
  | _ => false

/-- An `int`, not a `bool`, of that value. -/
def PyValue.isInt (value : PyValue) (number : Int) : Bool :=
  match value with
  | .int own => decide (own = number)
  | _ => false

/-- A text of that many lowercase hexadecimal digits and nothing else. -/
def lowerHex (count : Nat) (text : String) : Bool :=
  decide (text.toList.length = count) &&
    text.toList.all fun c => c.isDigit || ('a' ≤ c && c ≤ 'f')

/-! ### Floats -/

def binary64 : Format := ⟨53, -1022, 1023, by decide⟩

/-- `count / divisor` of a length and a finite float. -/
def divide (count : Nat) (divisor : ℚ) : Py Value :=
  if divisor = 0 then .error .zeroDivisionError
  else
    match (Value.finite count).round binary64 with
    | .finite dividend => .ok ((Value.finite (dividend / divisor)).round binary64)
    | other => .ok other

/-- The order of floats, in which NaN is not. -/
def floatLe (a b : Value) : Bool :=
  match a.score, b.score with
  | .number x, .number y => decide (x ≤ y)
  | _, _ => false

/-- `math.isclose` without an absolute tolerance. -/
def isClose (a b relTol : Value) : Bool :=
  match a, b with
  | .finite x, .finite y =>
    let difference := (Value.finite |y - x|).round binary64
    let scaled := fun z => match relTol with
      | .finite t => (Value.finite |t * z|).round binary64
      | other => other
    decide (x = y) || floatLe difference (scaled y) || floatLe difference (scaled x)
  | .infinity s, .infinity t => decide (s = t)
  | _, _ => false

/-! ### What is raised -/

/-- A check that refuses under a condition. -/
theorem refused_eq_ok {ε α : Type} {condition : Prop} [Decidable condition] {error : ε}
    {value result : α} : (if condition then .error error else .ok value : Except ε α) = .ok result ↔
      ¬ condition ∧ value = result := by
  split
  next holds => simp [holds]
  next fails => simp [fails]

/-- A check that accepts under a condition. -/
theorem accepted_eq_ok {ε α : Type} {condition : Prop} [Decidable condition] {error : ε}
    {value result : α} : (if condition then .ok value else .error error : Except ε α) = .ok result ↔
      condition ∧ value = result := by
  split
  next holds => simp [holds]
  next fails => simp [fails]

def PyError.IsContract : PyError → Prop
  | .contractError _ => True
  | _ => False

/-- The computation raises something else than a `ContractError`. -/
def Escapes {α : Type} (action : Py α) : Prop :=
  ∃ error, action = .error error ∧ ¬ error.IsContract

theorem escapes_bind {α β : Type} {action : Py α} {next : α → Py β} :
    Escapes (action >>= next) ↔ Escapes action ∨ ∃ value, action = .ok value ∧
      Escapes (next value) := by
  cases action with
  | error error => simp [Escapes, bind, Except.bind]
  | ok value => simp [Escapes, bind, Except.bind]

theorem not_escapes_bind {α β : Type} {action : Py α} {next : α → Py β}
    (first : ¬ Escapes action) (later : ∀ value, action = .ok value → ¬ Escapes (next value)) :
    ¬ Escapes (action >>= next) := by
  rw [escapes_bind]
  rintro (raised | ⟨value, done, raised⟩)
  · exact first raised
  · exact later value done raised

@[simp] theorem not_escapes_ok {α : Type} (value : α) : ¬ Escapes (.ok value : Py α) := by
  rintro ⟨error, raised, _⟩
  cases raised

@[simp] theorem not_escapes_pure {α : Type} (value : α) : ¬ Escapes (pure value : Py α) :=
  not_escapes_ok value

@[simp] theorem not_escapes_contract {α : Type} (message : String) :
    ¬ Escapes (.error (.contractError message) : Py α) := by
  rintro ⟨error, raised, other⟩
  obtain rfl := Except.error.inj raised
  exact other trivial

theorem not_escapes_ite {α : Type} {condition : Prop} [Decidable condition] {first second : Py α}
    (accepted : ¬ Escapes first) (refused : ¬ Escapes second) :
    ¬ Escapes (if condition then first else second) := by
  split
  next => exact accepted
  next => exact refused

@[simp] theorem not_escapes_raiseIf (condition : Prop) [Decidable condition] (message : String) :
    ¬ Escapes (raiseIf condition message) :=
  not_escapes_ite (not_escapes_contract message) (not_escapes_ok ())

@[simp] theorem raiseIf_ok {condition : Prop} [Decidable condition] {message : String}
    {done : Unit} : raiseIf condition message = .ok done ↔ ¬ condition := by
  rw [raiseIf, refused_eq_ok]
  exact and_iff_left rfl

@[simp] theorem subscript_ok {items : PyDict} {key : String} {value : PyValue} :
    subscript items key = .ok value ↔ lookup items key = some value := by
  rw [subscript]
  cases lookup items key with
  | none => simp
  | some found => simp

theorem not_escapes_subscript {items : PyDict} {key : String} (present : key ∈ keys items) :
    ¬ Escapes (subscript items key) := by
  obtain ⟨item, member, rfl⟩ := List.mem_map.mp present
  rw [subscript, lookup]
  cases found : items.find? fun other => other.1 = item.1 with
  | none =>
    have absent := List.find?_eq_none.mp found item member
    simp at absent
  | some other => exact not_escapes_ok _

@[simp] theorem escapes_inSet (value : PyValue) (members : List String) :
    Escapes (inSet value members) ↔ value.Unhashable := by
  cases value <;> simp [inSet, PyValue.Unhashable, Escapes, PyError.IsContract]

theorem inSet_true {value : PyValue} {members : List String} :
    inSet value members = .ok true ↔ ∃ text ∈ members, value = .str text := by
  cases value <;> simp [inSet]

/-- Dividing by a number other than zero raises nothing. -/
theorem not_escapes_divide {count : Nat} {divisor : ℚ} (nonzero : divisor ≠ 0) :
    ¬ Escapes (divide count divisor) := by
  rw [divide, if_neg nonzero]
  split
  next => exact not_escapes_ok _
  next => exact not_escapes_ok _

end MarketForge.Tools
