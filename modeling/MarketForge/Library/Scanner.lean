import MarketForge.Library.Checked

/-!
# Checked scanners

A scanner moves a position over an input. It faults where it would read outside the input, move
past its end or subtract more than there is, and where a loop takes more turns than the input has
elements. A scanner that does not fault has done none of that.
-/
namespace MarketForge.Library

/-- From a position of an input: nothing on a fault, else a value or an error and the position
behind it. -/
structure Scanner (τ ε α : Type) where
  run : List τ → Nat → Option (Except ε α × Nat)

namespace Scanner

variable {τ ε α β σ : Type}

protected def bind (first : Scanner τ ε α) (next : α → Scanner τ ε β) : Scanner τ ε β where
  run input position :=
    match first.run input position with
    | none => none
    | some (.error error, stop) => some (.error error, stop)
    | some (.ok value, stop) => (next value).run input stop

instance : Monad (Scanner τ ε) where
  pure value := ⟨fun _ position => some (.ok value, position)⟩
  bind := Scanner.bind

def fault : Scanner τ ε α := ⟨fun _ _ => none⟩

def refuse (error : ε) : Scanner τ ε α := ⟨fun _ position => some (.error error, position)⟩

def position : Scanner τ ε Nat := ⟨fun _ position => some (.ok position, position)⟩

/-- Whether the position is behind the last element. -/
def ended : Scanner τ ε Bool :=
  ⟨fun input position => some (.ok (decide (input.length ≤ position)), position)⟩

/-- The element so many places ahead. -/
def peek (ahead : Nat) : Scanner τ ε τ :=
  ⟨fun input position => input[position + ahead]?.map fun element => (.ok element, position)⟩

def advance (count : Nat) : Scanner τ ε Unit where
  run input position :=
    if position + count ≤ input.length then some (.ok (), position + count) else none

/-- A computation on the whole input that leaves the position alone. -/
def whole (part : List τ → Option α) : Scanner τ ε α :=
  ⟨fun input position => (part input).map fun value => (.ok value, position)⟩

/-- A computation that does not read the input. -/
def lift (part : Option α) : Scanner τ ε α := whole fun _ => part

/-- The number of elements from the position on. -/
def remaining : Scanner τ ε Nat where
  run input position :=
    (Checked.sub input.length position).map fun left => (.ok left, position)

/-- At most so many elements from an index on, which may be the end of the input. -/
def slice (start count : Nat) : Scanner τ ε (List τ) :=
  whole fun input => if start ≤ input.length then some ((input.drop start).take count) else none

/-- Whether there is a next element and it is an accepted one. -/
def nextIs (accepted : τ → Bool) : Scanner τ ε Bool := do
  if ← ended then pure false
  else
    let element ← peek 0
    pure (accepted element)

/-! ## Steps -/

section

variable {input : List τ} {start middle : Nat}

theorem run_bind_ok {first : Scanner τ ε α} {next : α → Scanner τ ε β} {value : α}
    (known : first.run input start = some (.ok value, middle)) :
    (first >>= next).run input start = (next value).run input middle := by
  change (Scanner.bind first next).run input start = _
  simp only [Scanner.bind, known]

theorem run_bind_error {first : Scanner τ ε α} {next : α → Scanner τ ε β} {error : ε}
    (known : first.run input start = some (.error error, middle)) :
    (first >>= next).run input start = some (.error error, middle) := by
  change (Scanner.bind first next).run input start = _
  simp only [Scanner.bind, known]

@[simp] theorem run_pure (value : α) :
    (pure value : Scanner τ ε α).run input start = some (.ok value, start) := rfl

@[simp] theorem run_refuse (error : ε) :
    (refuse error : Scanner τ ε α).run input start = some (.error error, start) := rfl

theorem position_ok :
    (position : Scanner τ ε Nat).run input start = some (.ok start, start) := rfl

theorem ended_ok : (ended : Scanner τ ε Bool).run input start =
    some (.ok (decide (input.length ≤ start)), start) := rfl

theorem peek_ok {ahead : Nat} {element : τ} (present : input[start + ahead]? = some element) :
    (peek ahead : Scanner τ ε τ).run input start = some (.ok element, start) := by
  simp only [peek, present, Option.map_some]

theorem advance_ok {count : Nat} (inside : start + count ≤ input.length) :
    (advance count : Scanner τ ε Unit).run input start = some (.ok (), start + count) :=
  if_pos inside

theorem whole_ok {part : List τ → Option α} {value : α} (known : part input = some value) :
    (whole part : Scanner τ ε α).run input start = some (.ok value, start) := by
  simp only [whole, known, Option.map_some]

theorem lift_ok {part : Option α} {value : α} (known : part = some value) :
    (lift part : Scanner τ ε α).run input start = some (.ok value, start) := whole_ok known

theorem remaining_ok (inside : start ≤ input.length) :
    (remaining : Scanner τ ε Nat).run input start = some (.ok (input.length - start), start) := by
  simp only [remaining, Checked.sub_some inside, Option.map_some]

theorem slice_ok {index count : Nat} (inside : index ≤ input.length) :
    (slice index count : Scanner τ ε (List τ)).run input start =
      some (.ok ((input.drop index).take count), start) := whole_ok (if_pos inside)

theorem next_is_ok (accepted : τ → Bool) : (nextIs accepted : Scanner τ ε Bool).run input start =
    some (.ok ((input.drop start).head?.any accepted), start) := by
  rw [nextIs, run_bind_ok ended_ok, List.head?_drop]
  by_cases past : input.length ≤ start
  · rw [decide_eq_true past, if_pos rfl, List.getElem?_eq_none past]
    rfl
  · have present := List.getElem?_eq_getElem (Nat.lt_of_not_le past)
    rw [decide_eq_false past, if_neg (by simp), run_bind_ok (peek_ok present), present]
    rfl

end

/-! ## Loops -/

/-- So many turns of a loop at most. A turn ends with the state of the next one, or with the
value of the loop. -/
def turns (body : σ → Scanner τ ε (σ ⊕ β)) : Nat → σ → Scanner τ ε β
  | 0, _ => fault
  | fuel + 1, state => do
    match ← body state with
    | .inl next => turns body fuel next
    | .inr value => pure value

/-- A loop whose turns each take an element, up to the last one. -/
def repeatUntil (body : σ → Scanner τ ε (σ ⊕ β)) (state : σ) : Scanner τ ε β :=
  ⟨fun input => (turns body (input.length + 1) state).run input⟩

section

variable {input : List τ} {start middle fuel : Nat} {body : σ → Scanner τ ε (σ ⊕ β)} {state : σ}

theorem turns_next {next : σ}
    (turn : (body state).run input start = some (.ok (.inl next), middle)) :
    (turns body (fuel + 1) state).run input start = (turns body fuel next).run input middle := by
  rw [turns, run_bind_ok turn]

theorem turns_value {value : β}
    (turn : (body state).run input start = some (.ok (.inr value), middle)) :
    (turns body (fuel + 1) state).run input start = some (.ok value, middle) := by
  rw [turns, run_bind_ok turn]
  rfl

theorem turns_error {error : ε}
    (turn : (body state).run input start = some (.error error, middle)) :
    (turns body (fuel + 1) state).run input start = some (.error error, middle) := by
  rw [turns, run_bind_error turn]

end

/-- A loop that moves past the elements that satisfy a condition. -/
def skipWhile (satisfies : τ → Bool) : Scanner τ ε Unit :=
  repeatUntil (fun _ => do
    if ← nextIs satisfies then
      advance 1
      pure (.inl ())
    else pure (.inr ())) ()

theorem skip_while_ok (satisfies : τ → Bool) {input : List τ} {start : Nat}
    (inside : start ≤ input.length) : (skipWhile satisfies : Scanner τ ε Unit).run input start =
      some (.ok (), start + ((input.drop start).takeWhile satisfies).length) := by
  rw [skipWhile, repeatUntil]
  dsimp only
  have enough : input.length - start < input.length + 1 := by omega
  generalize input.length + 1 = fuel at enough
  induction fuel generalizing start with
  | zero => omega
  | succ fuel ih =>
    have next := @next_is_ok τ ε input start satisfies
    rcases Nat.lt_or_eq_of_le inside with more | rfl
    · have split := List.drop_eq_getElem_cons more
      rw [split, List.head?_cons, Option.any_some] at next
      rw [split]
      cases holds : satisfies input[start] with
      | true =>
        -- one turn takes the element, the others go on behind it
        rw [@turns_next τ ε Unit Unit input start (start + 1) fuel _ () (),
          ih (by omega) (by omega), List.takeWhile_cons_of_pos holds, List.length_cons,
          Nat.add_right_comm, Nat.add_assoc]
        rw [run_bind_ok next, holds, if_pos rfl, run_bind_ok (advance_ok (by omega))]
        rfl
      | false =>
        rw [@turns_value τ ε Unit Unit input start start fuel _ () (),
          List.takeWhile_cons_of_neg (by simp [holds])]
        · rfl
        · rw [run_bind_ok next, holds, if_neg (by simp)]
          rfl
    · rw [List.drop_length] at next ⊢
      apply turns_value
      rw [run_bind_ok next]
      rfl

end Scanner

end MarketForge.Library
