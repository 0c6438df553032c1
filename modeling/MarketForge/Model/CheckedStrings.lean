import MarketForge.Model.CheckedTokens

/-!
# The strings of JSON, checked

`parse_string` with its escapes. The reads behind `position_` stand under the length checks of the
source, and the loop takes a byte in every turn.
-/
namespace MarketForge.Model

open Library Library.Scanner

/-- The loop of `parse_hex_quad`. -/
def hexDigitsChecked : Nat → Nat → Nat → Scanner UInt8 Status (Option Nat)
  | 0, _, value => pure (some value)
  | count + 1, index, value => do
    let digit ← peek index
    if isHex digit then hexDigitsChecked count (index + 1) (value * 16 + hexValue digit)
    else pure none

def parseHexQuadChecked : Scanner UInt8 Status (Option Nat) := do
  let left ← remaining
  if left < 4 then pure none
  else
    match ← hexDigitsChecked 4 0 0 with
    | none => pure none
    | some value =>
      Scanner.advance 4
      pure (some value)

/-- The failures of a string that carry no position. -/
def malformed {α : Type} : Scanner UInt8 Status α := refuse (.failure .invalidJson)

def parseUnicodeChecked : Scanner UInt8 Status Nat := do
  match ← parseHexQuadChecked with
  | none => malformed
  | some codePoint =>
    if 0xd800 ≤ codePoint ∧ codePoint ≤ 0xdbff then
      let left ← remaining
      if left < 6 then malformed
      else
        let backslash ← peek 0
        if backslash ≠ Byte.backslash then malformed
        else
          let letter ← peek 1
          if letter ≠ Byte.lowerU then malformed
          else
            Scanner.advance 2
            match ← parseHexQuadChecked with
            | none => malformed
            | some low =>
              if low < 0xdc00 ∨ 0xdfff < low then malformed
              else
                let upper ← lift (Checked.sub codePoint 0xd800)
                let lower ← lift (Checked.sub low 0xdc00)
                pure (0x10000 + (upper <<< 10) + lower)
    else if 0xdc00 ≤ codePoint ∧ codePoint ≤ 0xdfff then malformed
    else pure codePoint

def parseEscapeChecked : Scanner UInt8 Status (List UInt8) := do
  if ← ended then malformed
  else
    let escape ← peek 0
    Scanner.advance 1
    match simpleEscape escape with
    | some byte => pure [byte]
    | none =>
      if escape = Byte.lowerU then
        let codePoint ← parseUnicodeChecked
        pure (appendUtf8 codePoint)
      else malformed

/-- What a turn of the loop of `parse_string` does with the byte it has taken. -/
def takenCharChecked (output : List UInt8) (value : UInt8) :
    Scanner UInt8 Status (List UInt8 ⊕ List UInt8) := do
  if value = Byte.quote then pure (.inr output)
  else if value < 0x20 then
    let here ← Scanner.position
    let offender ← lift (Checked.sub here 1)
    refuse (.failure .invalidJson (UInt32.ofNat offender))
  else if value ≠ Byte.backslash then pure (.inl (output ++ [value]))
  else
    let decoded ← parseEscapeChecked
    pure (.inl (output ++ decoded))

def parseCharChecked (output : List UInt8) : Scanner UInt8 Status (List UInt8 ⊕ List UInt8) := do
  if ← ended then malformed
  else
    let value ← peek 0
    Scanner.advance 1
    takenCharChecked output value

def parseStringChecked : Scanner UInt8 Status (List UInt8) := do
  if ← nextIs (· == Byte.quote) then
    Scanner.advance 1
    repeatUntil parseCharChecked []
  else malformed

/-- What a string makes of a part that has no status of its own. -/
def orMalformed {α : Type} : Option α → Result α
  | none => .error (.failure .invalidJson)
  | some value => .ok value

section

variable {α : Type} {input : List UInt8} {start : Nat} {c : Cursor}

theorem malformed_checked (on : c.On input) :
    Follows input c.position ((malformed : Scanner UInt8 Status α).run input c.position)
      (orMalformed none) := follows_refuse on _

theorem hex_digits_checked (count index value : Nat)
    (inside : start + index + count ≤ input.length) :
    (hexDigitsChecked count index value).run input start =
      some (.ok (if ((input.drop (start + index)).take count).all isHex then
        some (((input.drop (start + index)).take count).foldl
          (fun value digit => value * 16 + hexValue digit) value) else none), start) := by
  induction count generalizing index value with
  | zero => simp [hexDigitsChecked]
  | succ count ih =>
    have more : start + index < input.length := by omega
    rw [hexDigitsChecked, run_bind_ok (peek_ok (List.getElem?_eq_getElem more)),
      List.drop_eq_getElem_cons more, List.take_succ_cons, List.all_cons, List.foldl_cons]
    cases isHex input[start + index] with
    | false => rfl
    | true => exact ih (index + 1) _ (by omega)

/-- A failing quad of digits ends the string, so the position it leaves does not matter. -/
theorem parse_hex_quad_checked (on : c.On input) :
    match parseHexQuad c with
    | none => parseHexQuadChecked.run input c.position = some (.ok none, c.position)
    | some (value, after) =>
      Follows input c.position (parseHexQuadChecked.run input c.position)
        (.ok (some value, after)) := by
  rw [parseHexQuadChecked, run_bind_ok (remaining_ok on.inside), parseHexQuad, on.length]
  by_cases short : input.length - c.position < 4
  · rw [if_pos short, if_pos short]
    rfl
  rw [if_neg short, if_neg short, run_bind_ok (hex_digits_checked 4 0 0 (by omega)), Nat.add_zero,
    ← on.rest]
  by_cases digits : (c.rest.take 4).all isHex = true
  · simp only [digits, if_true]
    exact (follows_advance on (by omega)).next fun on _ => follows_pure on _
  · simp only [digits, if_false, Bool.false_eq_true]
    rfl

theorem parse_unicode_checked (on : c.On input) :
    Follows input c.position (parseUnicodeChecked.run input c.position)
      (orMalformed (parseUnicode c)) := by
  have quad := parse_hex_quad_checked on
  rw [parseUnicodeChecked, parseUnicode]
  cases read : parseHexQuad c with
  | none =>
    rw [read] at quad
    rw [run_bind_ok quad]
    exact malformed_checked on
  | some result =>
    obtain ⟨codePoint, c⟩ := result
    rw [read] at quad
    refine quad.next fun on _ => ?_
    dsimp only
    by_cases high : 0xd800 ≤ codePoint ∧ codePoint ≤ 0xdbff
    · rw [if_pos high, if_pos high, run_bind_ok (remaining_ok on.inside), ← on.length]
      by_cases short : c.rest.length < 6
      · rw [if_pos short, if_pos (.inl short)]
        exact malformed_checked on
      rw [if_neg short]
      -- six bytes are left, so both bytes of the second escape can be looked at
      have ahead : ∀ index (inside : index < 6), c.rest[index]? = some c.rest[index] :=
        fun index inside => List.getElem?_eq_getElem _
      refine (follows_peek_ahead on 0 (by omega)).next fun _ _ => ?_
      by_cases backslash : c.rest[0] = Byte.backslash
      swap
      · rw [if_pos backslash, if_pos (.inr (.inl (by simp [ahead, backslash])))]
        exact malformed_checked on
      rw [if_neg (not_not_intro backslash)]
      refine (follows_peek_ahead on 1 (by omega)).next fun _ _ => ?_
      by_cases letter : c.rest[1] = Byte.lowerU
      swap
      · rw [if_pos letter, if_pos (.inr (.inr (by simp [ahead, letter])))]
        exact malformed_checked on
      rw [if_neg (not_not_intro letter), if_neg (by simp [ahead, backslash, letter, short])]
      have room := on.length
      refine (follows_advance on (by omega)).next fun on _ => ?_
      have second := parse_hex_quad_checked on
      cases readLow : parseHexQuad (c.advance 2) with
      | none =>
        rw [readLow] at second
        rw [run_bind_ok second]
        exact malformed_checked on
      | some result =>
        obtain ⟨low, c⟩ := result
        rw [readLow] at second
        refine second.next fun on _ => ?_
        dsimp only
        by_cases outside : low < 0xdc00 ∨ 0xdfff < low
        · rw [if_pos outside, if_pos outside]
          exact malformed_checked on
        · rw [if_neg outside, if_neg outside]
          -- each half is in its range, so taking off the base does not wrap
          refine (follows_lift on (Checked.sub_some high.1)).next fun _ _ => ?_
          refine (follows_lift on (Checked.sub_some (by omega))).next fun _ _ => ?_
          exact follows_pure on _
    · rw [if_neg high, if_neg high]
      by_cases low : 0xdc00 ≤ codePoint ∧ codePoint ≤ 0xdfff
      · rw [if_pos low, if_pos low]
        exact malformed_checked on
      · rw [if_neg low, if_neg low]
        exact follows_pure on codePoint

theorem parse_escape_checked (on : c.On input) :
    Follows input c.position (parseEscapeChecked.run input c.position)
      (orMalformed (parseEscape c)) := by
  refine (follows_ended on).next fun on _ => ?_
  rw [parseEscape]
  cases head : c.rest.head? with
  | none => exact malformed_checked on
  | some escape =>
    have room := on.room_of_head head
    refine (follows_peek on head).next fun on _ => ?_
    refine (follows_advance on room).next fun on _ => ?_
    dsimp only
    cases simpleEscape escape with
    | some byte => exact follows_pure on [byte]
    | none =>
      by_cases unicode : escape = Byte.lowerU
      · have point := parse_unicode_checked on
        simp only [unicode, if_true]
        cases read : parseUnicode (c.advance 1) with
        | none =>
          rw [read] at point
          exact point.stops
        | some result =>
          rw [read] at point
          exact point.next fun on _ => follows_pure on _
      · simp only [unicode, if_false]
        exact malformed_checked on

/-- A turn takes a byte, so it ends behind the place where it began. -/
theorem parse_char_checked (on : c.On input) (output : List UInt8) {value : UInt8}
    (head : c.rest.head? = some value)
    {outcome : Result ((List UInt8 ⊕ List UInt8) × Cursor)}
    (taken : (c.advance 1).On input → Follows input (c.position + 1)
      ((takenCharChecked output value).run input (c.position + 1)) outcome) :
    Follows input (c.position + 1) ((parseCharChecked output).run input c.position) outcome := by
  have room := on.room_of_head head
  have behind := on.advance room
  have present := (follows_peek on head).1
  rw [parseCharChecked, run_bind_ok (follows_ended on).1, head, Option.isNone_some,
    if_neg (by simp), run_bind_ok present, run_bind_ok (advance_ok room)]
  exact taken behind

/-- The induction is on the turns that are left, of which there are more than bytes. -/
theorem parse_chars_checked (more fuel : Nat) (output : List UInt8) (on : c.On input)
    (enough : c.rest.length ≤ fuel) (left : c.rest.length < more) :
    Follows input c.position ((turns parseCharChecked more output).run input c.position)
      (parseChars fuel c output) := by
  induction more generalizing fuel c output with
  | zero => omega
  | succ more ih =>
    cases head : c.rest.head? with
    | none =>
      have dry : parseChars fuel c output = orMalformed none := by
        cases fuel <;> simp [parseChars, head, orMalformed]
      rw [dry]
      refine Follows.broken ((follows_ended on).next fun on _ => ?_)
      rw [head]
      exact malformed_checked on
    | some value =>
      have size := on.length
      have room := on.room_of_head head
      obtain ⟨fuel, rfl⟩ : ∃ rest, fuel = rest + 1 := ⟨fuel - 1, by omega⟩
      have turn {outcome} := @parse_char_checked input c on output value head outcome
      -- a turn that goes on leaves fewer bytes
      have again : ∀ next after, Follows input (c.position + 1)
          ((parseCharChecked output).run input c.position) (.ok (.inl next, after)) →
            Follows input (c.position + 1) ((turns parseCharChecked (more + 1) output).run input
              c.position) (parseChars fuel after next) := by
        intro next after part
        refine part.again fun on later => ?_
        have shorter := on.length
        exact ih fuel next on (by omega) (by omega)
      rw [parseChars, head]
      dsimp only
      suffices behind : Follows input (c.position + 1)
          ((turns parseCharChecked (more + 1) output).run input c.position) _ from
        behind.widen (Nat.le_succ _)
      by_cases quote : value = Byte.quote
      · rw [if_pos quote]
        refine Follows.last (turn fun on => ?_)
        rw [takenCharChecked, if_pos quote]
        exact follows_pure on _
      rw [if_neg quote]
      by_cases control : value < 0x20
      · rw [if_pos control]
        refine Follows.broken (turn fun on => ?_)
        rw [takenCharChecked, if_neg quote, if_pos control]
        refine (follows_position on).next fun on _ => ?_
        refine (follows_lift on (Checked.sub_some (by simp [Cursor.advance]))).next fun on _ => ?_
        exact follows_refuse on _
      rw [if_neg control]
      by_cases plain : value ≠ Byte.backslash
      · rw [if_pos plain]
        refine again _ _ (turn fun on => ?_)
        rw [takenCharChecked, if_neg quote, if_neg control, if_pos plain]
        exact follows_pure on _
      rw [if_neg plain]
      have decoded {outcome} (rest : (c.advance 1).On input →
          Follows input (c.position + 1) ((parseEscapeChecked >>= fun decoded =>
            pure (.inl (output ++ decoded))).run input (c.position + 1)) outcome) :=
        @turn outcome fun on => by
          rw [takenCharChecked, if_neg quote, if_neg control, if_neg plain]
          exact rest on
      cases read : parseEscape (c.advance 1) with
      | none =>
        refine Follows.broken (decoded fun on => ?_)
        have escape := parse_escape_checked on
        rw [read] at escape
        exact escape.stops
      | some result =>
        refine again _ _ (decoded fun on => ?_)
        have escape := parse_escape_checked on
        rw [read] at escape
        exact escape.next fun on _ => follows_pure on _

theorem parse_string_checked (on : c.On input) :
    Follows input c.position (parseStringChecked.run input c.position) (parseString c) := by
  refine (follows_next_is on _).next fun on _ => ?_
  rw [head_any, parseString]
  by_cases quote : c.rest.head? = some Byte.quote
  · have room := on.room_of_head quote
    have size := on.length
    simp only [quote, decide_true, if_true, ne_eq, not_true_eq_false, if_false]
    refine (follows_advance on room).next fun on _ => ?_
    have shorter := on.length
    exact parse_chars_checked (input.length + 1) _ [] on (by omega) (by omega)
  · simp only [quote, decide_false, if_false, Bool.false_eq_true, ne_eq, not_false_eq_true, if_true]
    exact malformed_checked on

end

end MarketForge.Model
