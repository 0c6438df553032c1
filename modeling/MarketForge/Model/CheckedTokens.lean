import MarketForge.Library.Scanner
import MarketForge.Model.JsonParser

/-!
# The tokens of JSON, checked

Whitespace, literals and numbers as the source reads them: `position_` over the whole
input, every index, every subtraction and every loop checked. From a cursor in the input none of
them faults, and each ends where the parser over cursors ends.
-/
namespace MarketForge.Model

open Library Library.Scanner

/-! ## Cursors in an input -/

structure Cursor.On (input : List UInt8) (c : Cursor) : Prop where
  rest : c.rest = input.drop c.position
  inside : c.position ≤ input.length

/-- A checked run ends as the parser does: with its value and behind the same bytes, or with its
status and somewhere in the input. -/
def Follows {α : Type} (input : List UInt8) (start : Nat) (run : Option (Result α × Nat)) :
    Result (α × Cursor) → Prop
  | .ok (value, after) =>
    run = some (.ok value, after.position) ∧ after.On input ∧ start ≤ after.position
  | .error status => ∃ stop ≤ input.length, run = some (.error status, stop)

section

variable {α β : Type} {input : List UInt8} {low start : Nat} {c : Cursor}

theorem Cursor.On.length (on : c.On input) : c.rest.length = input.length - c.position := by
  rw [on.rest, List.length_drop]

theorem Cursor.On.advance (on : c.On input) {count : Nat}
    (room : c.position + count ≤ input.length) : (c.advance count).On input where
  rest := by simp [Cursor.advance, on.rest]
  inside := room

theorem Cursor.On.room (on : c.On input) (more : c.rest ≠ []) :
    c.position + 1 ≤ input.length := by
  have positive := List.length_pos_iff.mpr more
  rw [on.length] at positive
  omega

theorem Cursor.On.room_of_head (on : c.On input) {byte : UInt8}
    (head : c.rest.head? = some byte) : c.position + 1 ≤ input.length :=
  on.room (by rintro none; simp [none] at head)

theorem Cursor.On.room_of_any (on : c.On input) {accepted : UInt8 → Bool}
    (taken : c.rest.head?.any accepted = true) : c.position + 1 ≤ input.length := by
  obtain ⟨byte, head, _⟩ := (Option.any_eq_true _ _).mp taken
  exact on.room_of_head head

theorem Cursor.On.skipWhile (on : c.On input) (satisfies : UInt8 → Bool) :
    (c.skipWhile satisfies).On input where
  rest := by
    have parts := @List.takeWhile_append_dropWhile _ satisfies c.rest
    rw [Cursor.skipWhile, ← List.drop_drop, ← on.rest]
    exact (List.drop_left.symm.trans (congrArg (List.drop _) parts))
  inside := by
    have short := (List.takeWhile_sublist (l := c.rest) satisfies).length_le
    have whole := on.length
    have inside := on.inside
    simp only [Cursor.skipWhile]
    omega

theorem Follows.widen {run : Option (Result α × Nat)} {outcome : Result (α × Cursor)}
    {middle : Nat} (follows : Follows input middle run outcome) (later : start ≤ middle) :
    Follows input start run outcome := by
  cases outcome with
  | error status => exact follows
  | ok result => exact ⟨follows.1, follows.2.1, Nat.le_trans later follows.2.2⟩

/-- What follows a part that succeeds starts where the part ended. -/
theorem Follows.next {first : Scanner UInt8 Status α} {next : α → Scanner UInt8 Status β}
    {value : α} {after : Cursor} {outcome : Result (β × Cursor)}
    (part : Follows input low (first.run input start) (.ok (value, after)))
    (rest : after.On input → low ≤ after.position →
      Follows input after.position ((next value).run input after.position) outcome) :
    Follows input low ((first >>= next).run input start) outcome := by
  obtain ⟨known, on, later⟩ := part
  rw [run_bind_ok known]
  exact (rest on later).widen later

/-- Nothing follows a part that fails. -/
theorem Follows.stops {first : Scanner UInt8 Status α} {next : α → Scanner UInt8 Status β}
    {status : Status} (part : Follows input low (first.run input start) (.error status)) :
    Follows input low ((first >>= next).run input start) (.error status) := by
  obtain ⟨stop, bounded, known⟩ := part
  exact ⟨stop, bounded, run_bind_error known⟩

theorem Follows.map {first : Scanner UInt8 Status α} {parsed : Result (α × Cursor)}
    (part : Follows input low (first.run input start) parsed) (wrap : α → β) :
    Follows input low ((first >>= fun value => pure (wrap value)).run input start)
      (parsed.map fun result => (wrap result.1, result.2)) := by
  cases parsed with
  | error status => exact part.stops
  | ok result => exact part.next fun on _ => ⟨rfl, on, Nat.le_refl _⟩

/-- A part that only moves the cursor, before what the parser does from there. -/
theorem Follows.then {first : Scanner UInt8 Status Unit} {next : Unit → Scanner UInt8 Status β}
    {moved : Result Cursor} {parse : Cursor → Result (β × Cursor)}
    (part : Follows input low (first.run input start) (moved.map (Prod.mk ())))
    (rest : ∀ after, after.On input → low ≤ after.position →
      Follows input after.position ((next ()).run input after.position) (parse after)) :
    Follows input low ((first >>= next).run input start) (moved >>= parse) := by
  cases moved with
  | error status => exact part.stops
  | ok after => exact part.next (rest after)

/-! A turn of a loop that goes on, the last one, and one that fails. -/

section

variable {σ : Type} {body : σ → Scanner UInt8 Status (σ ⊕ β)} {state : σ} {more : Nat}

theorem Follows.again {next : σ} {after : Cursor} {outcome : Result (β × Cursor)}
    (part : Follows input low ((body state).run input start) (.ok (.inl next, after)))
    (rest : after.On input → low ≤ after.position →
      Follows input after.position ((turns body more next).run input after.position) outcome) :
    Follows input low ((turns body (more + 1) state).run input start) outcome := part.next rest

theorem Follows.last {value : β} {after : Cursor}
    (part : Follows input low ((body state).run input start) (.ok (.inr value, after))) :
    Follows input low ((turns body (more + 1) state).run input start) (.ok (value, after)) :=
  ⟨turns_value part.1, part.2⟩

theorem Follows.broken {status : Status}
    (part : Follows input low ((body state).run input start) (.error status)) :
    Follows input low ((turns body (more + 1) state).run input start) (.error status) := by
  obtain ⟨stop, bounded, known⟩ := part
  exact ⟨stop, bounded, turns_error known⟩

end

theorem follows_pure (on : c.On input) (value : α) :
    Follows input c.position ((pure value : Scanner UInt8 Status α).run input c.position)
      (.ok (value, c)) :=
  ⟨rfl, on, Nat.le_refl _⟩

theorem follows_refuse (on : c.On input) (status : Status) :
    Follows input c.position ((refuse status : Scanner UInt8 Status α).run input c.position)
      (.error status) :=
  ⟨c.position, on.inside, rfl⟩

theorem follows_advance (on : c.On input) {count : Nat}
    (room : c.position + count ≤ input.length) :
    Follows input c.position ((Scanner.advance count : Scanner UInt8 Status Unit).run input
      c.position) (.ok ((), c.advance count)) :=
  ⟨advance_ok room, on.advance room, Nat.le_add_right _ _⟩

theorem follows_position (on : c.On input) :
    Follows input c.position ((Scanner.position : Scanner UInt8 Status Nat).run input c.position)
      (.ok (c.position, c)) :=
  ⟨rfl, on, Nat.le_refl _⟩

theorem follows_lift (on : c.On input) {part : Option α} {value : α} (known : part = some value) :
    Follows input c.position ((lift part : Scanner UInt8 Status α).run input c.position)
      (.ok (value, c)) :=
  ⟨lift_ok known, on, Nat.le_refl _⟩

theorem follows_slice (on : c.On input) {index count : Nat} (inside : index ≤ input.length) :
    Follows input c.position
      ((slice index count : Scanner UInt8 Status (List UInt8)).run input c.position)
      (.ok ((input.drop index).take count, c)) :=
  ⟨slice_ok inside, on, Nat.le_refl _⟩

/-- The byte under the cursor, when the source has checked that there is one. -/
theorem follows_peek (on : c.On input) {first : UInt8} (head : c.rest.head? = some first) :
    Follows input c.position ((peek 0 : Scanner UInt8 Status UInt8).run input c.position)
      (.ok (first, c)) := by
  refine ⟨peek_ok ?_, on, Nat.le_refl _⟩
  rwa [on.rest, List.head?_drop] at head

theorem follows_peek_ahead (on : c.On input) (index : Nat) (inside : index < c.rest.length) :
    Follows input c.position ((peek index : Scanner UInt8 Status UInt8).run input c.position)
      (.ok (c.rest[index], c)) := by
  refine ⟨peek_ok ?_, on, Nat.le_refl _⟩
  rw [← List.getElem?_drop, ← on.rest]
  exact List.getElem?_eq_getElem inside

theorem follows_next_is (on : c.On input) (accepted : UInt8 → Bool) :
    Follows input c.position ((nextIs accepted : Scanner UInt8 Status Bool).run input c.position)
      (.ok (c.rest.head?.any accepted, c)) := by
  refine ⟨?_, on, Nat.le_refl _⟩
  rw [next_is_ok, on.rest]

theorem follows_ended (on : c.On input) :
    Follows input c.position ((ended : Scanner UInt8 Status Bool).run input c.position)
      (.ok (c.rest.head?.isNone, c)) := by
  refine ⟨?_, on, Nat.le_refl _⟩
  rw [ended_ok, on.rest, List.head?_drop]
  rcases Nat.lt_or_ge c.position input.length with more | past
  · simp [more]
  · simp [past]

theorem follows_skip_while (on : c.On input) (satisfies : UInt8 → Bool) :
    Follows input c.position
      ((Scanner.skipWhile satisfies : Scanner UInt8 Status Unit).run input c.position)
      (.ok ((), c.skipWhile satisfies)) := by
  refine ⟨?_, on.skipWhile satisfies, Nat.le_add_right _ _⟩
  rw [skip_while_ok satisfies on.inside, ← on.rest]
  rfl

end

/-! ## Whitespace and literals -/

/-- `fail`: the position enters the detail. -/
def failChecked {α : Type} (code : ErrorCode) : Scanner UInt8 Status α := do
  let here ← Scanner.position
  refuse (.failure code (UInt32.ofNat (min here 0xffffffff)))

def skipWhitespaceChecked : Scanner UInt8 Status Unit := Scanner.skipWhile isWhitespace

def consumeChecked (expected : UInt8) : Scanner UInt8 Status Bool := do
  skipWhitespaceChecked
  if ← nextIs (· == expected) then
    Scanner.advance 1
    pure true
  else pure false

def consumeLiteralChecked (literal : List UInt8) : Scanner UInt8 Status Bool := do
  let start ← Scanner.position
  let text ← slice start literal.length
  if text = literal then
    Scanner.advance literal.length
    pure true
  else pure false

def takeOptionalChecked (accepted : UInt8 → Bool) : Scanner UInt8 Status Unit := do
  if ← nextIs accepted then Scanner.advance 1 else pure ()

section

variable {α : Type} {input : List UInt8} {c : Cursor}

theorem fail_checked (on : c.On input) (code : ErrorCode) :
    Follows input c.position ((failChecked code : Scanner UInt8 Status α).run input c.position)
      (.error (c.fail code)) :=
  ⟨c.position, on.inside, rfl⟩

theorem skip_whitespace_checked (on : c.On input) :
    Follows input c.position (skipWhitespaceChecked.run input c.position)
      (.ok ((), c.skipWhitespace)) := follows_skip_while on isWhitespace

theorem head_any (expected : UInt8) (rest : List UInt8) :
    rest.head?.any (· == expected) = decide (rest.head? = some expected) := by
  cases rest with
  | nil => rfl
  | cons first rest => simp [Bool.beq_eq_decide_eq]

theorem consume_checked (on : c.On input) (expected : UInt8) :
    Follows input c.position ((consumeChecked expected).run input c.position)
      (.ok (c.consume expected)) := by
  refine (skip_whitespace_checked on).next fun on _ => ?_
  refine (follows_next_is on _).next fun on _ => ?_
  rw [head_any, Cursor.consume]
  by_cases head : c.skipWhitespace.rest.head? = some expected
  · simp only [head, decide_true, if_true]
    exact (follows_advance on (on.room_of_head head)).next fun on _ =>
      follows_pure on true
  · simp only [head, decide_false, if_false, Bool.false_eq_true]
    exact follows_pure on false

theorem take_optional_checked (on : c.On input) (accepted : UInt8 → Bool) :
    Follows input c.position ((takeOptionalChecked accepted).run input c.position)
      (.ok ((), c.takeOptional accepted)) := by
  refine (follows_next_is on accepted).next fun on _ => ?_
  rw [Cursor.takeOptional]
  split
  next taken =>
    exact follows_advance on (on.room_of_any taken)
  next => exact follows_pure on ()

theorem consume_literal_checked (on : c.On input) (literal : List UInt8) :
    Follows input c.position ((consumeLiteralChecked literal).run input c.position)
      (.ok ((c.consumeLiteral literal).isSome, (c.consumeLiteral literal).getD c)) := by
  refine (follows_position on).next fun on _ => ?_
  refine (follows_slice on on.inside).next fun on _ => ?_
  rw [← on.rest, Cursor.consumeLiteral]
  by_cases same : c.rest.take literal.length = literal
  · -- a literal that is there in full leaves room for the step over it
    have room := congrArg List.length same
    rw [List.length_take, on.length] at room
    have inside := on.inside
    rw [if_pos same, if_pos same]
    exact (follows_advance on (by omega)).next fun on _ => follows_pure on true
  · rw [if_neg same, if_neg same]
    exact follows_pure on false

end

/-! ## Numbers -/

def parseIntegerChecked : Scanner UInt8 Status Unit := do
  if ← ended then failChecked .invalidJson
  else
    let byte ← peek 0
    if byte = Byte.zero then
      Scanner.advance 1
      if ← nextIs isDigit then failChecked .invalidJson else pure ()
    else if isDigit byte then Scanner.skipWhile isDigit
    else failChecked .invalidJson

def parseDigitsChecked : Scanner UInt8 Status Unit := do
  let start ← Scanner.position
  Scanner.skipWhile isDigit
  let stop ← Scanner.position
  if start = stop then failChecked .invalidJson else pure ()

def parseFractionChecked : Scanner UInt8 Status Unit := do
  if ← nextIs (· == Byte.dot) then
    Scanner.advance 1
    parseDigitsChecked
  else pure ()

def parseExponentChecked : Scanner UInt8 Status Unit := do
  if ← nextIs isExponent then
    Scanner.advance 1
    takeOptionalChecked isSign
    parseDigitsChecked
  else pure ()

def parseNumberChecked : Scanner UInt8 Status JsonValue := do
  let start ← Scanner.position
  takeOptionalChecked (· == Byte.minus)
  parseIntegerChecked
  parseFractionChecked
  parseExponentChecked
  let stop ← Scanner.position
  let count ← lift (Checked.sub stop start)
  let text ← slice start count
  pure (.number text)

section

variable {input : List UInt8} {c : Cursor}

theorem parse_integer_checked (on : c.On input) :
    Follows input c.position (parseIntegerChecked.run input c.position)
      ((parseInteger c).map (Prod.mk ())) := by
  refine (follows_ended on).next fun on _ => ?_
  rw [parseInteger]
  cases head : c.rest.head? with
  | none => exact fail_checked on .invalidJson
  | some byte =>
    have room := on.room_of_head head
    refine (follows_peek on head).next fun on _ => ?_
    dsimp only
    by_cases zero : byte = Byte.zero
    · rw [if_pos zero, if_pos zero]
      refine (follows_advance on room).next fun on _ => ?_
      refine (follows_next_is on isDigit).next fun on _ => ?_
      cases (c.advance 1).rest.head?.any isDigit with
      | true => exact fail_checked on .invalidJson
      | false => exact follows_pure on ()
    rw [if_neg zero, if_neg zero]
    cases isDigit byte with
    | true => exact follows_skip_while on isDigit
    | false => exact fail_checked on .invalidJson

theorem parse_digits_checked (on : c.On input) :
    Follows input c.position (parseDigitsChecked.run input c.position)
      ((parseDigits c).map (Prod.mk ())) := by
  refine (follows_position on).next fun on _ => ?_
  refine (follows_skip_while on isDigit).next fun on _ => ?_
  refine (follows_position on).next fun on _ => ?_
  rw [parseDigits]
  -- no digit was taken exactly when the position has not moved
  by_cases none : c.position = (c.skipWhile isDigit).position
  · rw [if_pos none, if_pos none]
    exact fail_checked on .invalidJson
  · rw [if_neg none, if_neg none]
    exact follows_pure on ()

theorem parse_fraction_checked (on : c.On input) :
    Follows input c.position (parseFractionChecked.run input c.position)
      ((parseFraction c).map (Prod.mk ())) := by
  refine (follows_next_is on _).next fun on _ => ?_
  rw [head_any, parseFraction]
  by_cases dot : c.rest.head? = some Byte.dot
  · simp only [dot, decide_true, if_true]
    have room := on.room_of_head dot
    exact (follows_advance on room).next fun on _ => parse_digits_checked on
  · simp only [dot, decide_false, if_false, Bool.false_eq_true]
    exact follows_pure on ()

theorem parse_exponent_checked (on : c.On input) :
    Follows input c.position (parseExponentChecked.run input c.position)
      ((parseExponent c).map (Prod.mk ())) := by
  refine (follows_next_is on isExponent).next fun on _ => ?_
  rw [parseExponent]
  cases mark : c.rest.head?.any isExponent with
  | true =>
    have room := on.room_of_any mark
    refine (follows_advance on room).next fun on _ => ?_
    refine (take_optional_checked on isSign).next fun on _ => ?_
    exact parse_digits_checked on
  | false => exact follows_pure on ()

theorem parse_number_checked (on : c.On input) :
    Follows input c.position (parseNumberChecked.run input c.position) (parseNumber c) := by
  refine (follows_position on).next fun _ _ => ?_
  refine (take_optional_checked on _).next fun on₁ later₁ => ?_
  refine (parse_integer_checked on₁).then fun _ on₂ later₂ => ?_
  refine (parse_fraction_checked on₂).then fun _ on₃ later₃ => ?_
  refine (parse_exponent_checked on₃).then fun stop stopOn later₄ => ?_
  refine (follows_position stopOn).next fun _ _ => ?_
  -- the number stops behind its start, so its length does not wrap
  refine (follows_lift stopOn (Checked.sub_some (by omega))).next fun _ _ => ?_
  refine (follows_slice stopOn on.inside).next fun _ _ => ?_
  rw [← on.rest]
  exact follows_pure stopOn _

end

end MarketForge.Model
