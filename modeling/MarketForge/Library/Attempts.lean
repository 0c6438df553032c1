import MarketForge.Library.Fallible

/-!
# Loops that can fail

A counted loop, a loop over a list and a `while` loop whose bodies can fail. A `while` loop runs
for a bounded number of turns and stops as `unfinished` when they do not suffice. Each loop has
two rules: what every successful run keeps, and when a run succeeds. The partial rules let the
step use that the state was reached (`Visits` for the `while` loop), so that a condition on the
states of one run can be assumed turn by turn.
-/
namespace MarketForge.Library

/-- Why a run stopped early: an error of the program, or a bound that did not suffice. -/
inductive Halt (ε : Type) where
  | failed (error : ε)
  | unfinished
  deriving DecidableEq, Repr

abbrev Attempt (ε α : Type) := Except (Halt ε) α

section

variable {ε σ α : Type}

/-! ### Counted loops -/

/-- The body runs for each index below the count, in ascending order, until one turn fails. -/
def attemptTurns (body : Nat → σ → Except ε σ) : Nat → σ → Except ε σ
  | 0, state => .ok state
  | count + 1, state => do
    let current ← attemptTurns body count state
    body count current

theorem attempt_turns_kept (body : Nat → σ → Except ε σ) (start last : σ) (count : Nat)
    (holds : Nat → σ → Prop) (initially : holds 0 start)
    (step : ∀ index < count, ∀ current next, attemptTurns body index start = .ok current →
      holds index current → body index current = .ok next → holds (index + 1) next)
    (ran : attemptTurns body count start = .ok last) : holds count last := by
  induction count generalizing last with
  | zero =>
    obtain rfl := Except.ok.inj ran
    exact initially
  | succ count ih =>
    rw [attemptTurns] at ran
    obtain ⟨current, reached, turned⟩ := bind_eq_ok.mp ran
    have before : holds count current :=
      ih current (fun index below => step index (Nat.lt_succ_of_lt below)) reached
    exact step count (Nat.lt_succ_self count) current last reached before turned

theorem attempt_turns_succeed (body : Nat → σ → Except ε σ) (start : σ) (count : Nat)
    (holds : Nat → σ → Prop) (initially : holds 0 start)
    (step : ∀ index < count, ∀ current, holds index current →
      ∃ next, body index current = .ok next ∧ holds (index + 1) next) :
    ∃ last, attemptTurns body count start = .ok last ∧ holds count last := by
  induction count with
  | zero => exact ⟨start, rfl, initially⟩
  | succ count ih =>
    obtain ⟨current, reached, before⟩ := ih fun index below =>
      step index (Nat.lt_succ_of_lt below)
    obtain ⟨next, turned, after⟩ := step count (Nat.lt_succ_self count) current before
    refine ⟨next, ?_, after⟩
    rw [attemptTurns, ok_bind _ reached]
    exact turned

/-! ### Loops over a list -/

theorem attempt_each_kept (body : σ → α → Except ε σ) (items : List α) (start last : σ)
    (holds : List α → σ → Prop) (initially : holds items start)
    (step : ∀ item rest current next, holds (item :: rest) current →
      body current item = .ok next → holds rest next)
    (ran : items.foldlM body start = .ok last) : holds [] last := by
  induction items generalizing start with
  | nil =>
    obtain rfl := Except.ok.inj ran
    exact initially
  | cons item rest ih =>
    rw [List.foldlM_cons] at ran
    obtain ⟨next, turned, ran⟩ := bind_eq_ok.mp ran
    exact ih next (step item rest start next initially turned) ran

theorem attempt_each_succeed (body : σ → α → Except ε σ) (items : List α) (start : σ)
    (holds : List α → σ → Prop) (initially : holds items start)
    (step : ∀ item rest current, holds (item :: rest) current →
      ∃ next, body current item = .ok next ∧ holds rest next) :
    ∃ last, items.foldlM body start = .ok last ∧ holds [] last := by
  induction items generalizing start with
  | nil => exact ⟨start, rfl, initially⟩
  | cons item rest ih =>
    obtain ⟨next, turned, after⟩ := step item rest start initially
    obtain ⟨last, ran, finished⟩ := ih next after
    refine ⟨last, ?_, finished⟩
    rw [List.foldlM_cons, ok_bind _ turned]
    exact ran

/-! ### While loops -/

/-- The body runs while the condition holds, for at most `fuel` turns. -/
def attemptWhile (continues : σ → Bool) (body : σ → Attempt ε σ) : Nat → σ → Attempt ε σ
  | 0, state => if continues state then .error .unfinished else .ok state
  | fuel + 1, state =>
    if continues state then do
      let next ← body state
      attemptWhile continues body fuel next
    else .ok state

/-- The states in which the condition of the loop is evaluated. -/
inductive Visits (continues : σ → Bool) (body : σ → Attempt ε σ) (start : σ) : σ → Prop
  | start : Visits continues body start start
  | turn {current next : σ} (visited : Visits continues body start current)
      (entered : continues current = true) (turned : body current = .ok next) :
      Visits continues body start next

theorem Visits.before {continues : σ → Bool} {body : σ → Attempt ε σ} {start first last : σ}
    (entered : continues start = true) (turned : body start = .ok first)
    (visited : Visits continues body first last) : Visits continues body start last := by
  induction visited with
  | start => exact .turn .start entered turned
  | turn _ again body_ran ih => exact .turn ih again body_ran

/-- What every turn keeps holds in every state visited. -/
theorem Visits.kept {continues : σ → Bool} {body : σ → Attempt ε σ} {start last : σ}
    (visited : Visits continues body start last) (holds : σ → Prop) (initially : holds start)
    (step : ∀ current next, continues current = true → holds current → body current = .ok next →
      holds next) : holds last := by
  induction visited with
  | start => exact initially
  | turn _ entered turned ih => exact step _ _ entered ih turned

/-- A loop that ends would have ended from every state it visits. -/
theorem Visits.resume {continues : σ → Bool} {body : σ → Attempt ε σ} {start current last : σ}
    (visited : Visits continues body start current) {fuel : Nat}
    (ran : attemptWhile continues body fuel start = .ok last) :
    ∃ left, attemptWhile continues body left current = .ok last := by
  induction visited with
  | start => exact ⟨fuel, ran⟩
  | turn _ entered turned ih =>
    obtain ⟨left, resumed⟩ := ih
    cases left with
    | zero =>
      rw [attemptWhile, if_pos entered] at resumed
      cases resumed
    | succ left =>
      rw [attemptWhile, if_pos entered, ok_bind _ turned] at resumed
      exact ⟨left, resumed⟩

theorem attempt_while_kept (continues : σ → Bool) (body : σ → Attempt ε σ) (fuel : Nat)
    (start last : σ) (holds : σ → Prop) (initially : holds start)
    (step : ∀ current next, Visits continues body start current → continues current = true →
      holds current → body current = .ok next → holds next)
    (ran : attemptWhile continues body fuel start = .ok last) :
    holds last ∧ continues last = false := by
  induction fuel generalizing start with
  | zero =>
    rw [attemptWhile] at ran
    split at ran
    next => cases ran
    next stopped =>
      obtain rfl := Except.ok.inj ran
      exact ⟨initially, by simpa using stopped⟩
  | succ fuel ih =>
    rw [attemptWhile] at ran
    split at ran
    next entered =>
      obtain ⟨next, turned, ran⟩ := bind_eq_ok.mp ran
      apply ih next (step start next .start entered initially turned) ?_ ran
      intro current after visited again before body_ran
      exact step current after (visited.before entered turned) again before body_ran
    next stopped =>
      obtain rfl := Except.ok.inj ran
      exact ⟨initially, by simpa using stopped⟩

/-- A loop whose turns succeed and lower a measure ends within that many turns. -/
theorem attempt_while_succeeds (continues : σ → Bool) (body : σ → Attempt ε σ) (fuel : Nat)
    (start : σ) (holds : σ → Prop) (measure : σ → Nat) (initially : holds start)
    (enough : measure start ≤ fuel)
    (step : ∀ current, holds current → continues current = true →
      ∃ next, body current = .ok next ∧ holds next ∧ measure next < measure current) :
    ∃ last, attemptWhile continues body fuel start = .ok last ∧ holds last ∧
      continues last = false := by
  induction fuel generalizing start with
  | zero =>
    rw [attemptWhile]
    cases entered : continues start with
    | false => exact ⟨start, by simp, initially, entered⟩
    | true =>
      -- a turn would take the measure below zero
      obtain ⟨next, _, _, lower⟩ := step start initially entered
      omega
  | succ fuel ih =>
    rw [attemptWhile]
    cases entered : continues start with
    | false => exact ⟨start, by simp, initially, entered⟩
    | true =>
      obtain ⟨next, turned, after, lower⟩ := step start initially entered
      obtain ⟨last, ran, finished⟩ := ih next after (by omega)
      refine ⟨last, ?_, finished⟩
      rw [if_pos rfl, ok_bind _ turned]
      exact ran

end

end MarketForge.Library
