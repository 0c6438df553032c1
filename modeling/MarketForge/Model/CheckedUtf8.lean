import MarketForge.Library.Scanner
import MarketForge.Model.Utf8

/-!
# The UTF-8 validator, checked

`is_valid_utf8` with its index as a position: every read is in the input, and what is left behind
the lead byte of a character is subtracted as the source does it. It never faults.
-/
namespace MarketForge.Model

open Library Library.Scanner

/-- The loop over the continuation bytes; it ends early at a byte that is none. -/
def utf8ContinueChecked : Nat → Nat → Nat → Scanner UInt8 Empty (Option Nat)
  | 0, _, codePoint => pure (some codePoint)
  | count + 1, offset, codePoint => do
    let next ← peek offset
    if next &&& 0xc0 ≠ 0x80 then pure none
    else utf8ContinueChecked count (offset + 1) (codePoint <<< 6 ||| (next.toNat &&& 0x3f))

/-- One turn of the validator. -/
def utf8TurnChecked : Scanner UInt8 Empty (Unit ⊕ Bool) := do
  if ← ended then pure (.inr true)
  else
    let first ← peek 0
    if first ≤ 0x7f then
      advance 1
      pure (.inl ())
    else
      match utf8Lead first with
      | none => pure (.inr false)
      | some (count, bits) =>
        let left ← remaining
        let behind ← lift (Checked.sub left 1)
        if behind < count then pure (.inr false)
        else
          match ← utf8ContinueChecked count 1 bits with
          | none => pure (.inr false)
          | some codePoint =>
            if utf8OutOfRange count codePoint then pure (.inr false)
            else
              advance (count + 1)
              pure (.inl ())

def isValidUtf8Checked (input : List UInt8) : Option Bool :=
  ((repeatUntil (fun _ => utf8TurnChecked) ()).run input 0).bind fun result => result.1.toOption

section

variable {input : List UInt8} {start : Nat}

theorem utf8_continue_checked (count offset codePoint : Nat)
    (inside : start + offset + count ≤ input.length) :
    (utf8ContinueChecked count offset codePoint).run input start =
      some (.ok ((utf8Continue count codePoint (input.drop (start + offset))).map Prod.fst),
        start) := by
  induction count generalizing offset codePoint with
  | zero => rfl
  | succ count ih =>
    have more : start + offset < input.length := by omega
    rw [utf8ContinueChecked, run_bind_ok (peek_ok (List.getElem?_eq_getElem more)),
      List.drop_eq_getElem_cons more, utf8Continue]
    split
    · rfl
    · exact ih (offset + 1) _ (by omega)

theorem utf8_continue_rest (count codePoint value : Nat) (rest after : List UInt8)
    (read : utf8Continue count codePoint rest = some (value, after)) : after = rest.drop count := by
  induction count generalizing codePoint rest with
  | zero =>
    simp only [utf8Continue, Option.some.injEq, Prod.mk.injEq] at read
    exact read.2.symm
  | succ count ih =>
    cases rest with
    | nil => simp [utf8Continue] at read
    | cons next rest =>
      rw [utf8Continue] at read
      split at read
      · simp at read
      · exact ih _ rest read

/-- A turn of the checked validator takes the character that the validator takes. -/
theorem utf8_turn_checked (more : start < input.length) :
    match utf8Character input[start] (input.drop (start + 1)) with
    | none => utf8TurnChecked.run input start = some (.ok (.inr false), start)
    | some (_, after) => ∃ stop, utf8TurnChecked.run input start = some (.ok (.inl ()), stop) ∧
        start < stop ∧ stop ≤ input.length ∧ after = input.drop stop := by
  rw [utf8TurnChecked, run_bind_ok ended_ok, decide_eq_false (Nat.not_le_of_lt more),
    if_neg (by simp), run_bind_ok (peek_ok (List.getElem?_eq_getElem more)), utf8Character]
  by_cases isAscii : input[start] ≤ 0x7f
  · rw [if_pos isAscii, if_pos isAscii, run_bind_ok (advance_ok more)]
    exact ⟨start + 1, rfl, by omega, by omega, rfl⟩
  rw [if_neg isAscii, if_neg isAscii]
  cases utf8Lead input[start] with
  | none => rfl
  | some lead =>
    obtain ⟨count, bits⟩ := lead
    dsimp only
    -- a byte is left, so what remains behind it is not a wrapped number
    rw [run_bind_ok (remaining_ok (by omega)), run_bind_ok (lift_ok (Checked.sub_some (by omega))),
      List.length_drop, Nat.sub_sub]
    by_cases short : input.length - (start + 1) < count
    · rw [if_pos short, if_pos short]
      rfl
    rw [if_neg short, if_neg short, run_bind_ok (utf8_continue_checked count 1 bits (by omega))]
    cases read : utf8Continue count bits (input.drop (start + 1)) with
    | none => rfl
    | some result =>
      obtain ⟨codePoint, after⟩ := result
      dsimp only [Option.map_some]
      by_cases outside : utf8OutOfRange count codePoint = true
      · rw [if_pos outside, if_pos outside]
        rfl
      · rw [if_neg outside, if_neg outside, run_bind_ok (advance_ok (by omega))]
        -- the lead byte and its continuation bytes are taken at once
        refine ⟨start + (count + 1), rfl, by omega, by omega, ?_⟩
        rw [utf8_continue_rest count bits codePoint _ after read, List.drop_drop, Nat.add_assoc,
          Nat.add_comm 1]

theorem utf8_loop_checked (fuel more : Nat) (inside : start ≤ input.length)
    (enough : input.length - start ≤ fuel) (turnsLeft : input.length - start < more) :
    ∃ stop, (turns (fun _ => utf8TurnChecked) more ()).run input start =
      some (.ok (utf8Loop fuel (input.drop start)), stop) := by
  -- a turn takes a byte at least, so neither the turns nor the fuel run out
  induction more generalizing fuel start with
  | zero => omega
  | succ more ih =>
    rcases Nat.lt_or_eq_of_le inside with within | rfl
    · have turn := utf8_turn_checked within
      rw [List.drop_eq_getElem_cons within]
      obtain ⟨fuel, rfl⟩ : ∃ rest, fuel = rest + 1 := ⟨fuel - 1, by omega⟩
      rw [utf8Loop]
      cases read : utf8Character input[start] (input.drop (start + 1)) with
      | none =>
        rw [read] at turn
        exact ⟨start, turns_value turn⟩
      | some result =>
        rw [read] at turn
        obtain ⟨stop, turn, past, bounded, behind⟩ := turn
        rw [turns_next turn]
        dsimp only
        rw [behind]
        exact ih fuel bounded (by omega) (by omega)
    · refine ⟨input.length, ?_⟩
      rw [List.drop_length, utf8Loop]
      apply turns_value
      rw [utf8TurnChecked, run_bind_ok ended_ok, decide_eq_true (Nat.le_refl _)]
      rfl

end

/-- The validator reads in bounds, subtracts without wrapping and ends, on every input. -/
theorem is_valid_utf8_checked (input : List UInt8) :
    isValidUtf8Checked input = some (isValidUtf8 input) := by
  obtain ⟨stop, ends⟩ := @utf8_loop_checked input 0 input.length (input.length + 1)
    (Nat.zero_le _) (by omega) (by omega)
  rw [isValidUtf8Checked, repeatUntil, ends]
  rfl

end MarketForge.Model
