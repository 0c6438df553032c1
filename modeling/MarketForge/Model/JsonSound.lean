import Mathlib.Data.List.TakeWhile
import MarketForge.Model.JsonGrammar

/-!
# What the parser accepts

Every successful parser consumed a text of its grammar rule and returned the value that text
denotes. The leaves come first, each with the bytes it took off the input; a string needs the
input to be well-formed UTF-8, since its loop copies the bytes of a character one at a time.
-/
namespace MarketForge.Model

/-- What a parser took off the front of the input, up to a character boundary. -/
structure Consumed (c : Cursor) (source : List UInt8) (after : Cursor) : Prop where
  text : c.rest = source ++ after.rest
  position : after.position = c.position + source.length
  boundary : WellFormedUtf8 c.rest → WellFormedUtf8 after.rest

namespace Consumed

theorem nothing (c : Cursor) : Consumed c [] c := ⟨rfl, rfl, id⟩

theorem trans (a b c : Cursor) (first second : List UInt8) (before : Consumed a first b)
    (after : Consumed b second c) : Consumed a (first ++ second) c := by
  refine ⟨?_, ?_, fun formed => after.boundary (before.boundary formed)⟩
  · rw [before.text, after.text, List.append_assoc]
  · rw [after.position, before.position, List.length_append, Nat.add_assoc]

/-- ASCII bytes are characters of their own. -/
theorem ascii (c after : Cursor) (source : List UInt8) (text : c.rest = source ++ after.rest)
    (position : after.position = c.position + source.length)
    (small : ∀ byte ∈ source, byte ≤ 0x7f) : Consumed c source after :=
  ⟨text, position, fun formed => well_formed_drop source _ small (text ▸ formed)⟩

theorem one (c : Cursor) (byte : UInt8) (head : c.rest.head? = some byte)
    (small : byte ≤ 0x7f) : Consumed c [byte] (c.advance 1) := by
  obtain ⟨rest, text⟩ := List.head?_eq_some_iff.mp head
  apply ascii
  · simp [Cursor.advance, text]
  · rfl
  · simpa using small

end Consumed

/-! ## Whitespace and single bytes -/

theorem whitespace_iff (byte : UInt8) :
    isWhitespace byte = true ↔
      byte = Byte.space ∨ byte = Byte.tab ∨ byte = Byte.newline ∨ byte = Byte.carriageReturn := by
  simp only [isWhitespace, Bool.or_eq_true, beq_iff_eq]
  tauto

theorem digit_iff (byte : UInt8) : isDigit byte = true ↔ Digit byte := by
  simp [isDigit, Digit]

private theorem digit_ascii (byte : UInt8) (digit : Digit byte) : byte ≤ 0x7f := by
  have high : byte ≤ 0x39 := digit.2
  simp only [UInt8.le_iff_toNat_le, UInt8.reduceToNat] at high ⊢
  omega

/-- A loop takes every byte that satisfies its condition, and stops before one that does not. -/
theorem skip_while_consumed (satisfies : UInt8 → Bool) (c : Cursor)
    (small : ∀ byte, satisfies byte = true → byte ≤ 0x7f) :
    ∃ source, (∀ byte ∈ source, satisfies byte = true) ∧
      Consumed c source (c.skipWhile satisfies) := by
  have all : ∀ byte ∈ c.rest.takeWhile satisfies, satisfies byte = true :=
    fun _ member => List.mem_takeWhile_imp member
  refine ⟨c.rest.takeWhile satisfies, all, ?_⟩
  apply Consumed.ascii
  · exact (List.takeWhile_append_dropWhile).symm
  · rfl
  · exact fun byte member => small byte (all byte member)

theorem skip_whitespace_consumed (c : Cursor) :
    ∃ space, Whitespace space ∧ Consumed c space c.skipWhitespace := by
  obtain ⟨space, blank, consumed⟩ := skip_while_consumed isWhitespace c (by
    intro byte blank
    rcases (whitespace_iff byte).mp blank with rfl | rfl | rfl | rfl <;> decide)
  exact ⟨space, fun byte member => (whitespace_iff byte).mp (blank byte member), consumed⟩

theorem consume_true (expected : UInt8) (c after : Cursor) (small : expected ≤ 0x7f)
    (taken : c.consume expected = (true, after)) :
    ∃ space, Whitespace space ∧ Consumed c (space ++ [expected]) after := by
  unfold Cursor.consume at taken
  dsimp only at taken
  split at taken
  next head =>
    obtain ⟨space, blank, consumed⟩ := skip_whitespace_consumed c
    obtain rfl : c.skipWhitespace.advance 1 = after := (Prod.mk.inj taken).2
    exact ⟨space, blank, consumed.trans _ _ _ _ _ (Consumed.one _ expected head small)⟩
  next => exact absurd (Prod.mk.inj taken).1 (by decide)

theorem consume_false (expected : UInt8) (c after : Cursor)
    (refused : c.consume expected = (false, after)) : after = c.skipWhitespace := by
  unfold Cursor.consume at refused
  dsimp only at refused
  split at refused
  next => exact absurd (Prod.mk.inj refused).1 (by decide)
  next => exact (Prod.mk.inj refused).2.symm

/-! ## Numbers -/

private theorem take_optional_consumed (accepted : UInt8 → Bool) (c : Cursor)
    (small : ∀ byte, accepted byte = true → byte ≤ 0x7f) :
    Consumed c [] (c.takeOptional accepted) ∨
      ∃ byte, accepted byte = true ∧ Consumed c [byte] (c.takeOptional accepted) := by
  unfold Cursor.takeOptional
  split
  next taken =>
    cases head : c.rest.head? with
    | none => simp [head] at taken
    | some byte =>
      simp only [head, Option.any_some] at taken
      exact Or.inr ⟨byte, taken, Consumed.one c byte head (small byte taken)⟩
  next => exact Or.inl (Consumed.nothing c)

private theorem skip_digits_consumed (c : Cursor) :
    ∃ digits, (∀ byte ∈ digits, Digit byte) ∧ Consumed c digits (c.skipWhile isDigit) := by
  obtain ⟨digits, all, consumed⟩ := skip_while_consumed isDigit c
    fun byte digit => digit_ascii byte ((digit_iff byte).mp digit)
  exact ⟨digits, fun byte member => (digit_iff byte).mp (all byte member), consumed⟩

theorem parse_integer_sound (c after : Cursor) (parsed : parseInteger c = .ok after) :
    ∃ source, Integer source ∧ Consumed c source after := by
  unfold parseInteger at parsed
  split at parsed
  next => exact absurd parsed (by simp)
  next byte head =>
    split at parsed
    next isZero =>
      dsimp only at parsed
      split at parsed
      next => exact absurd parsed (by simp)
      next =>
        obtain rfl := Except.ok.inj parsed
        rw [isZero] at head
        exact ⟨_, Integer.zero, Consumed.one c _ head (by decide)⟩
    next nonzero =>
      split at parsed
      next isDigit =>
        obtain rfl := Except.ok.inj parsed
        obtain ⟨digits, all, consumed⟩ := skip_digits_consumed c
        have digit := (digit_iff byte).mp isDigit
        -- the loop takes at least the digit the branch looked at
        cases digits with
        | nil =>
          exfalso
          have text := consumed.text
          obtain ⟨rest, split⟩ := List.head?_eq_some_iff.mp head
          have stopped :
              (c.skipWhile Model.isDigit).rest = (byte :: rest).dropWhile Model.isDigit := by
            rw [← split]
            rfl
          rw [split, stopped, List.dropWhile_cons_of_pos isDigit] at text
          have shorter := (List.dropWhile_sublist (l := rest) Model.isDigit).length_le
          have same := congrArg List.length text
          simp at same
          omega
        | cons first others =>
          have same : byte = first := by
            have text := consumed.text
            rw [text] at head
            simpa using head.symm
          subst same
          refine ⟨byte :: others, Integer.positive byte others digit nonzero ?_, consumed⟩
          exact fun other member => all other (by simp [member])
      next => exact absurd parsed (by simp)

theorem parse_digits_sound (c after : Cursor) (parsed : parseDigits c = .ok after) :
    ∃ source, Digits source ∧ Consumed c source after := by
  unfold parseDigits at parsed
  dsimp only at parsed
  split at parsed
  next => exact absurd parsed (by simp)
  next moved =>
    obtain rfl := Except.ok.inj parsed
    obtain ⟨digits, all, consumed⟩ := skip_digits_consumed c
    refine ⟨digits, ⟨?_, all⟩, consumed⟩
    rintro rfl
    exact moved consumed.position.symm

theorem parse_fraction_sound (c after : Cursor) (parsed : parseFraction c = .ok after) :
    ∃ source, Fraction source ∧ Consumed c source after := by
  unfold parseFraction at parsed
  split at parsed
  next head =>
    obtain ⟨digits, some, consumed⟩ := parse_digits_sound _ after parsed
    have dot := Consumed.one c _ head (by decide)
    exact ⟨_, Fraction.present digits some, dot.trans _ _ _ _ _ consumed⟩
  next =>
    obtain rfl := Except.ok.inj parsed
    exact ⟨[], Fraction.absent, Consumed.nothing c⟩

theorem exponent_iff (byte : UInt8) :
    isExponent byte = true ↔ byte = Byte.lowerE ∨ byte = Byte.upperE := by
  simp [isExponent]

theorem sign_iff (byte : UInt8) :
    isSign byte = true ↔ byte = Byte.plus ∨ byte = Byte.minus := by
  simp [isSign]

theorem parse_exponent_sound (c after : Cursor) (parsed : parseExponent c = .ok after) :
    ∃ source, Exponent source ∧ Consumed c source after := by
  unfold parseExponent at parsed
  split at parsed
  next taken =>
    obtain ⟨digits, some, consumed⟩ := parse_digits_sound _ after parsed
    cases head : c.rest.head? with
    | none => simp [head] at taken
    | some mark =>
      simp only [head, Option.any_some] at taken
      have exponent := (exponent_iff mark).mp taken
      have first := Consumed.one c mark head (by rcases exponent with rfl | rfl <;> decide)
      rcases take_optional_consumed isSign (c.advance 1) (by
        intro byte sign
        rcases (sign_iff byte).mp sign with rfl | rfl <;> decide) with none | ⟨sign, isSign, one⟩
      · have joined := (first.trans _ _ _ _ _ none).trans _ _ _ _ _ consumed
        exact ⟨_, Exponent.unsigned mark digits exponent some, joined⟩
      · have joined := (first.trans _ _ _ _ _ one).trans _ _ _ _ _ consumed
        exact ⟨_, Exponent.signed mark sign digits exponent ((sign_iff sign).mp isSign) some,
          joined⟩
  next =>
    obtain rfl := Except.ok.inj parsed
    exact ⟨[], Exponent.absent, Consumed.nothing c⟩

theorem parse_number_sound (c after : Cursor) (value : JsonValue)
    (parsed : parseNumber c = .ok (value, after)) :
    ∃ source, Number source ∧ value = .number source ∧ Consumed c source after := by
  unfold parseNumber at parsed
  cases integer : parseInteger (c.takeOptional (· == Byte.minus)) with
  | error status => rw [integer] at parsed; exact absurd parsed (by simp [bind, Except.bind])
  | ok afterInteger =>
    cases fraction : parseFraction afterInteger with
    | error status =>
      rw [integer] at parsed
      simp [bind, Except.bind, fraction] at parsed
    | ok afterFraction =>
      cases exponent : parseExponent afterFraction with
      | error status =>
        rw [integer] at parsed
        simp [bind, Except.bind, fraction, exponent] at parsed
      | ok stop =>
        rw [integer] at parsed
        simp only [bind, Except.bind, fraction, exponent, pure, Except.pure, Except.ok.injEq,
          Prod.mk.injEq] at parsed
        obtain ⟨rfl, rfl⟩ := parsed
        obtain ⟨whole, isInteger, first⟩ := parse_integer_sound _ _ integer
        obtain ⟨decimals, isFraction, second⟩ := parse_fraction_sound _ _ fraction
        obtain ⟨scale, isExponent, third⟩ := parse_exponent_sound _ _ exponent
        have signed : ∃ sign, (sign = [] ∨ sign = [Byte.minus]) ∧
            Consumed c sign (c.takeOptional (· == Byte.minus)) := by
          rcases take_optional_consumed (· == Byte.minus) c (by
            intro byte same
            rw [beq_iff_eq.mp same]
            decide) with none | ⟨byte, same, one⟩
          · exact ⟨[], Or.inl rfl, none⟩
          · exact ⟨[byte], Or.inr (by rw [beq_iff_eq.mp same]), one⟩
        obtain ⟨sign, either, start⟩ := signed
        have joined := ((start.trans _ _ _ _ _ first).trans _ _ _ _ _ second).trans _ _ _ _ _ third
        refine ⟨_, Number.mk sign whole decimals scale either isInteger isFraction isExponent,
          ?_, joined⟩
        -- the text of the number is what lies between the two positions
        rw [joined.position, Nat.add_sub_cancel_left]
        conv => lhs; rw [joined.text]
        rw [List.take_left]

/-! ## Strings -/

/-- The bytes the source tests for are the hexadecimal digits, with their values. -/
theorem hex_digit_iff (byte : UInt8) (value : Nat) :
    HexDigit byte value ↔ isHex byte = true ∧ hexValue byte = value := by
  have nine : Byte.nine.toNat = 0x39 := rfl
  have lowerA : Byte.lowerA.toNat = 0x61 := rfl
  have upperA : Byte.upperA.toNat = 0x41 := rfl
  have upperF : Byte.upperF.toNat = 0x46 := rfl
  constructor
  · intro digit
    cases digit with
    | digit low high =>
      have isDigit : isDigit byte = true := by simp [isDigit, low, high]
      simp [isHex, hexValue, isDigit]
    | lower low high =>
      have past : ¬byte ≤ Byte.nine := by
        simp only [UInt8.le_iff_toNat_le] at low ⊢
        omega
      simp [isHex, hexValue, isDigit, past, low, high]
    | upper low high =>
      have past : ¬byte ≤ Byte.nine := by
        simp only [UInt8.le_iff_toNat_le] at low ⊢
        omega
      have short : ¬Byte.lowerA ≤ byte := by
        simp only [UInt8.le_iff_toNat_le] at high ⊢
        omega
      simp [isHex, hexValue, isDigit, past, low, high, short]
  · rintro ⟨hex, rfl⟩
    unfold hexValue
    split
    next digit =>
      simp only [isDigit, Bool.and_eq_true, decide_eq_true_eq] at digit
      exact HexDigit.digit byte digit.1 digit.2
    next digit =>
      split
      next lower => exact HexDigit.lower byte lower.1 lower.2
      next lower =>
        rw [Bool.not_eq_true] at digit
        simp only [isHex, digit, Bool.false_or, Bool.or_eq_true, Bool.and_eq_true,
          decide_eq_true_eq] at hex
        rcases hex with lowerCase | upper
        · exact absurd lowerCase lower
        · exact HexDigit.upper byte upper.1 upper.2

private theorem hex_digit_ascii (byte : UInt8) (value : Nat) (digit : HexDigit byte value) :
    byte ≤ 0x7f := by
  cases digit with
  | digit low high => exact digit_ascii byte ⟨low, high⟩
  | lower low high => exact UInt8.le_trans high (by decide)
  | upper low high => exact UInt8.le_trans high (by decide)

theorem hex_quad_ascii (digits : List UInt8) (value : Nat) (quad : HexQuad digits value) :
    ∀ byte ∈ digits, byte ≤ 0x7f := by
  obtain ⟨a, b, c, d, i, j, k, l, first, second, third, fourth⟩ := quad
  intro byte member
  simp only [List.mem_cons, List.not_mem_nil, or_false] at member
  rcases member with rfl | rfl | rfl | rfl
  · exact hex_digit_ascii _ i first
  · exact hex_digit_ascii _ j second
  · exact hex_digit_ascii _ k third
  · exact hex_digit_ascii _ l fourth

theorem parse_hex_quad_sound (c after : Cursor) (value : Nat)
    (parsed : parseHexQuad c = some (value, after)) :
    ∃ digits, HexQuad digits value ∧ Consumed c digits after := by
  unfold parseHexQuad at parsed
  dsimp only at parsed
  split at parsed
  next => exact absurd parsed (by simp)
  next enough =>
    split at parsed
    next hex =>
      obtain ⟨position, rest⟩ := c
      match rest, enough with
      | i :: j :: k :: l :: others, _ =>
        simp only [List.take_succ_cons, List.take_zero, List.all_cons, List.all_nil,
          Bool.and_true, Bool.and_eq_true] at hex
        obtain ⟨hexI, hexJ, hexK, hexL⟩ := hex
        simp only [List.take_succ_cons, List.take_zero, List.foldl_cons, List.foldl_nil,
          Nat.zero_mul, Nat.zero_add, Option.some.injEq, Prod.mk.injEq] at parsed
        obtain ⟨rfl, rfl⟩ := parsed
        have quad := HexQuad.mk i j k l _ _ _ _
          ((hex_digit_iff i _).mpr ⟨hexI, rfl⟩) ((hex_digit_iff j _).mpr ⟨hexJ, rfl⟩)
          ((hex_digit_iff k _).mpr ⟨hexK, rfl⟩) ((hex_digit_iff l _).mpr ⟨hexL, rfl⟩)
        refine ⟨[i, j, k, l], quad, ?_⟩
        exact Consumed.ascii _ _ _ rfl rfl (hex_quad_ascii _ _ quad)
      | [], short => simp at short
      | [_], short => simp at short
      | [_, _], short => simp at short
      | [_, _, _], short => simp at short
    next => exact absurd parsed (by simp)

/-- The value of a surrogate pair, as the source computes it and as the grammar denotes it. -/
theorem surrogate_shift (high : Nat) : (high - 0xd800) <<< 10 = (high - 0xd800) * 0x400 :=
  Nat.shiftLeft_eq _ _

theorem parse_unicode_sound (c after : Cursor) (codePoint : Nat)
    (parsed : parseUnicode c = some (codePoint, after)) :
    ∃ source, Character (Byte.backslash :: Byte.lowerU :: source) (appendUtf8 codePoint) ∧
      Consumed c source after := by
  unfold parseUnicode at parsed
  split at parsed
  next => exact absurd parsed (by simp)
  next value middle quad =>
    obtain ⟨digits, isQuad, consumed⟩ := parse_hex_quad_sound c middle value quad
    split at parsed
    next high =>
      split at parsed
      next => exact absurd parsed (by simp)
      next escaped =>
        split at parsed
        next => exact absurd parsed (by simp)
        next low final second =>
          obtain ⟨lowDigits, isLowQuad, lowConsumed⟩ := parse_hex_quad_sound _ final low second
          split at parsed
          next => exact absurd parsed (by simp)
          next range =>
            simp only [Option.some.injEq, Prod.mk.injEq] at parsed
            obtain ⟨rfl, rfl⟩ := parsed
            -- the two bytes between the quads are a backslash and a `u`
            have marker : Consumed middle [Byte.backslash, Byte.lowerU] (middle.advance 2) := by
              obtain ⟨position, rest⟩ := middle
              match rest with
              | [] => simp at escaped
              | [_] => simp at escaped
              | first :: mark :: others =>
                simp only [List.getElem?_cons_zero, List.getElem?_cons_succ, Option.some.injEq,
                  not_or, not_not, ne_eq] at escaped
                obtain ⟨_, rfl, rfl⟩ := escaped
                exact Consumed.ascii _ _ _ rfl rfl (by simp; decide)
            have isLow : LowSurrogate low := ⟨by omega, by omega⟩
            have pair := Character.pair digits lowDigits value low isQuad isLowQuad high isLow
            rw [surrogate_shift]
            refine ⟨digits ++ ([Byte.backslash, Byte.lowerU] ++ lowDigits), by simpa using pair, ?_⟩
            exact consumed.trans _ _ _ _ _ (marker.trans _ _ _ _ _ lowConsumed)
    next noHigh =>
      split at parsed
      next => exact absurd parsed (by simp)
      next noLow =>
        simp only [Option.some.injEq, Prod.mk.injEq] at parsed
        obtain ⟨rfl, rfl⟩ := parsed
        exact ⟨digits, Character.unicode digits value isQuad noHigh noLow, consumed⟩

/-- The letters the source accepts after a backslash are the short escapes. -/
theorem simple_escape_iff (letter byte : UInt8) :
    simpleEscape letter = some byte ↔ (letter, byte) ∈ shortEscapes := by
  unfold simpleEscape shortEscapes
  constructor
  · intro found
    split at found
    next same =>
      obtain rfl := Option.some.inj found
      rcases same with rfl | rfl | rfl <;> decide
    next =>
      split_ifs at found with b f n r t
      all_goals obtain rfl := Option.some.inj found
      all_goals subst_vars; decide
  · intro listed
    simp only [List.mem_cons, Prod.mk.injEq, List.not_mem_nil, or_false] at listed
    rcases listed with ⟨rfl, rfl⟩ | ⟨rfl, rfl⟩ | ⟨rfl, rfl⟩ | ⟨rfl, rfl⟩ | ⟨rfl, rfl⟩ |
      ⟨rfl, rfl⟩ | ⟨rfl, rfl⟩ | ⟨rfl, rfl⟩ <;> decide

private theorem short_escape_ascii (letter byte : UInt8)
    (listed : (letter, byte) ∈ shortEscapes) : letter ≤ 0x7f ∧ byte ≤ 0x7f := by
  have table : (shortEscapes.all fun entry => decide (entry.1 ≤ 0x7f ∧ entry.2 ≤ 0x7f)) = true := by
    decide
  exact of_decide_eq_true (List.all_eq_true.mp table _ listed)

theorem parse_escape_sound (c after : Cursor) (decoded : List UInt8)
    (parsed : parseEscape c = some (decoded, after)) :
    ∃ source, Character (Byte.backslash :: source) decoded ∧ Consumed c source after := by
  unfold parseEscape at parsed
  split at parsed
  next => exact absurd parsed (by simp)
  next letter head =>
    split at parsed
    next byte found =>
      simp only [Option.some.injEq, Prod.mk.injEq] at parsed
      obtain ⟨rfl, rfl⟩ := parsed
      have listed := (simple_escape_iff letter byte).mp found
      refine ⟨[letter], Character.short letter byte listed, ?_⟩
      exact Consumed.one c letter head (short_escape_ascii letter byte listed).1
    next =>
      split at parsed
      next unicode =>
        rw [Option.map_eq_some_iff] at parsed
        obtain ⟨⟨codePoint, final⟩, read, same⟩ := parsed
        simp only [Prod.mk.injEq] at same
        obtain ⟨rfl, rfl⟩ := same
        obtain ⟨source, character, consumed⟩ := parse_unicode_sound _ final codePoint read
        rw [unicode] at head
        have mark := Consumed.one c _ head (by decide)
        exact ⟨_, character, mark.trans _ _ _ _ _ consumed⟩
      next => exact absurd parsed (by simp)

/-- The bytes the loop of `parse_string` copies. -/
def Plain (byte : UInt8) : Prop :=
  byte ≠ Byte.quote ∧ ¬byte < 0x20 ∧ byte ≠ Byte.backslash

/-- A code point that stands for itself in a string. -/
def Unescaped (codePoint : Nat) : Prop :=
  0x20 ≤ codePoint ∧ codePoint ≠ Byte.quote.toNat ∧ codePoint ≠ Byte.backslash.toNat

theorem unescaped_plain (codePoint : Nat) (scalar : Scalar codePoint)
    (unescaped : Unescaped codePoint) : ∀ byte ∈ appendUtf8 codePoint, Plain byte := by
  obtain ⟨printable, noQuote, noBackslash⟩ := unescaped
  intro byte member
  by_cases large : 0x7f < codePoint
  · have high := append_utf8_bytes codePoint scalar.1 large byte member
    refine ⟨?_, ?_, ?_⟩
    · rintro rfl
      exact absurd high (by decide)
    · simp only [UInt8.lt_iff_toNat_lt, UInt8.reduceToNat]
      omega
    · rintro rfl
      exact absurd high (by decide)
  · rw [append_utf8_ascii codePoint (by omega)] at member
    obtain rfl := List.mem_singleton.mp member
    have value : (UInt8.ofNat codePoint).toNat = codePoint := by
      rw [UInt8.toNat_ofNat', Nat.mod_eq_of_lt (by omega)]
    refine ⟨?_, ?_, ?_⟩
    · exact fun same => noQuote (by rw [← same, value])
    · simp only [UInt8.lt_iff_toNat_lt, UInt8.reduceToNat, value]
      omega
    · exact fun same => noBackslash (by rw [← same, value])

theorem plain_unescaped (codePoint : Nat) (first : UInt8) (rest after : List UInt8)
    (plain : Plain first) (text : first :: rest = appendUtf8 codePoint ++ after) :
    Unescaped codePoint := by
  obtain ⟨noQuote, printable, noBackslash⟩ := plain
  have quoted : Byte.quote.toNat = 0x22 := rfl
  have escaped : Byte.backslash.toNat = 0x5c := rfl
  by_cases large : 0x7f < codePoint
  · exact ⟨by omega, by omega, by omega⟩
  · rw [append_utf8_ascii codePoint (by omega)] at text
    obtain rfl := (List.cons.inj text).1
    have value : (UInt8.ofNat codePoint).toNat = codePoint := by
      rw [UInt8.toNat_ofNat', Nat.mod_eq_of_lt (by omega)]
    refine ⟨?_, ?_, ?_⟩
    · simp only [UInt8.lt_iff_toNat_lt, UInt8.reduceToNat, value] at printable
      omega
    · exact fun same => noQuote (by rw [same]; rfl)
    · exact fun same => noBackslash (by rw [same]; rfl)

private theorem parse_chars_copy (fuel position : Nat) (byte : UInt8) (rest output : List UInt8)
    (plain : Plain byte) :
    parseChars (fuel + 1) ⟨position, byte :: rest⟩ output =
      parseChars fuel ⟨position + 1, rest⟩ (output ++ [byte]) := by
  obtain ⟨noQuote, printable, noBackslash⟩ := plain
  simp [parseChars, Cursor.advance, noQuote, printable, noBackslash]

/-- The loop copies plain bytes, one turn each. -/
theorem parse_chars_plain (fuel position : Nat) (bytes rest output : List UInt8)
    (plain : ∀ byte ∈ bytes, Plain byte) :
    parseChars (fuel + bytes.length) ⟨position, bytes ++ rest⟩ output =
      parseChars fuel ⟨position + bytes.length, rest⟩ (output ++ bytes) := by
  induction bytes generalizing position output with
  | nil => simp
  | cons byte others ih =>
    have first := parse_chars_copy (fuel + others.length) position byte (others ++ rest) output
      (plain byte (by simp))
    have following := ih (position + 1) (output ++ [byte])
      fun other member => plain other (by simp [member])
    rw [List.length_cons, List.cons_append, ← Nat.add_assoc, first, following]
    simp [Nat.add_comm, Nat.add_left_comm]

private theorem parse_chars_fuel (fuel position : Nat) (bytes rest output : List UInt8)
    (result : List UInt8 × Cursor) (plain : ∀ byte ∈ bytes, Plain byte)
    (parsed : parseChars fuel ⟨position, bytes ++ rest⟩ output = .ok result) :
    bytes.length ≤ fuel := by
  induction bytes generalizing fuel position output with
  | nil => simp
  | cons byte others ih =>
    cases fuel with
    | zero => exact absurd parsed (by simp [parseChars])
    | succ fuel =>
      rw [List.cons_append, parse_chars_copy _ _ _ _ _ (plain byte (by simp))] at parsed
      have fits := ih fuel (position + 1) (output ++ [byte])
        (fun other member => plain other (by simp [member])) parsed
      simpa using fits

/-- The loop of `parse_string` consumes the characters up to the closing quotation mark. -/
theorem parse_chars_sound (fuel : Nat) (c after : Cursor) (output decoded : List UInt8)
    (formed : WellFormedUtf8 c.rest)
    (parsed : parseChars fuel c output = .ok (decoded, after)) :
    ∃ body text, Characters body text ∧ decoded = output ++ text ∧
      Consumed c (body ++ [Byte.quote]) after := by
  -- a character of several bytes takes several turns
  induction fuel using Nat.strong_induction_on generalizing c output with
  | _ fuel ih =>
    cases fuel with
    | zero => exact absurd parsed (by simp [parseChars])
    | succ fuel =>
      have whole := parsed
      simp only [parseChars] at parsed
      split at parsed
      next => exact absurd parsed (by simp)
      next value head =>
        split at parsed
        next closing =>
          simp only [Except.ok.injEq, Prod.mk.injEq] at parsed
          obtain ⟨rfl, rfl⟩ := parsed
          rw [closing] at head
          exact ⟨[], [], Characters.nil, by simp, Consumed.one c _ head (by decide)⟩
        next noQuote =>
          split at parsed
          next => exact absurd parsed (by simp)
          next printable =>
            split at parsed
            next noBackslash =>
              obtain ⟨position, rest⟩ := c
              obtain ⟨others, rfl⟩ := List.head?_eq_some_iff.mp head
              obtain ⟨codePoint, following, read, formedAfter⟩ :=
                well_formed_character value others formed
              obtain ⟨scalar, text⟩ := utf8_character_sound value others codePoint following read
              have unescaped := plain_unescaped codePoint value others following
                ⟨noQuote, printable, noBackslash⟩ text
              have plain := unescaped_plain codePoint scalar unescaped
              rw [text] at whole
              have fits := parse_chars_fuel _ _ _ _ _ _ plain whole
              rw [← Nat.sub_add_cancel fits, parse_chars_plain _ _ _ _ _ plain] at whole
              have taken := List.length_pos_iff.mpr (append_utf8_ne_nil codePoint)
              obtain ⟨body, rest, characters, rfl, consumed⟩ := ih _ (by omega)
                ⟨position + (appendUtf8 codePoint).length, following⟩ _ formedAfter whole
              have character := Character.unescaped codePoint scalar unescaped.1 unescaped.2.1
                unescaped.2.2
              refine ⟨appendUtf8 codePoint ++ body, appendUtf8 codePoint ++ rest,
                Characters.cons _ _ _ _ character characters, by simp, ?_⟩
              have front : Consumed ⟨position, value :: others⟩ (appendUtf8 codePoint)
                  ⟨position + (appendUtf8 codePoint).length, following⟩ :=
                ⟨text, rfl, fun _ => formedAfter⟩
              rw [List.append_assoc]
              exact front.trans _ _ _ _ _ consumed
            next isBackslash =>
              rw [ne_eq, not_not] at isBackslash
              rw [isBackslash] at head
              have mark := Consumed.one c _ head (by decide)
              split at parsed
              next => exact absurd parsed (by simp)
              next added middle escape =>
                obtain ⟨source, character, escaped⟩ := parse_escape_sound _ middle added escape
                have front := mark.trans _ _ _ _ _ escaped
                obtain ⟨body, rest, characters, rfl, consumed⟩ := ih fuel (by omega) middle
                  (output ++ added) (front.boundary formed) parsed
                refine ⟨Byte.backslash :: source ++ body, added ++ rest,
                  Characters.cons _ _ _ _ character characters, by simp, ?_⟩
                have joined := front.trans _ _ _ _ _ consumed
                simpa using joined

theorem parse_string_sound (c after : Cursor) (decoded : List UInt8)
    (formed : WellFormedUtf8 c.rest) (parsed : parseString c = .ok (decoded, after)) :
    ∃ source, Text source decoded ∧ Consumed c source after := by
  unfold parseString at parsed
  split at parsed
  next => exact absurd parsed (by simp)
  next opening =>
    rw [ne_eq, not_not] at opening
    have mark := Consumed.one c _ opening (by decide)
    obtain ⟨body, text, characters, same, consumed⟩ :=
      parse_chars_sound _ _ after [] decoded (mark.boundary formed) parsed
    obtain rfl : decoded = text := by simpa using same
    exact ⟨_, Text.mk body decoded characters, mark.trans _ _ _ _ _ consumed⟩

/-! ## Containers -/

section

variable {α : Type}

/-- An item parser consumes an item of the grammar, behind whitespace, and keeps an invariant of
the items read so far. -/
def ItemSound (parseItem : List α → Cursor → Result (α × Cursor))
    (item : List UInt8 → α → Prop) (invariant : List α → Prop) : Prop :=
  ∀ items c value after, WellFormedUtf8 c.rest → invariant items →
    parseItem items c = .ok (value, after) →
    invariant (items ++ [value]) ∧
      ∃ before source, Whitespace before ∧ item source value ∧
        Consumed c (before ++ source) after

theorem parse_items_sound (close : UInt8) (small : close ≤ 0x7f)
    (parseItem : List α → Cursor → Result (α × Cursor)) (item : List UInt8 → α → Prop)
    (invariant : List α → Prop) (sound : ItemSound parseItem item invariant) (fuel : Nat)
    (items result : List α) (c after : Cursor) (formed : WellFormedUtf8 c.rest)
    (kept : invariant items)
    (parsed : parseItems close parseItem fuel items c = .ok (result, after)) :
    invariant result ∧
      ∃ source values, Separated (Padded item) source values ∧ result = items ++ values ∧
        Consumed c (source ++ [close]) after := by
  induction fuel generalizing items c with
  | zero => exact absurd parsed (by simp [parseItems])
  | succ fuel ih =>
    simp only [parseItems] at parsed
    split at parsed
    next => exact absurd parsed (by simp)
    next value behind read =>
      obtain ⟨extended, before, source, spaceBefore, denotes, consumed⟩ :=
        sound items c value behind formed kept read
      -- behind an item stands the closing byte, or a comma and another item
      obtain ⟨blanks, spaceBehind, skipped⟩ := skip_whitespace_consumed behind
      split at parsed
      next final closed =>
        simp only [Except.ok.injEq, Prod.mk.injEq] at parsed
        obtain ⟨rfl, rfl⟩ := parsed
        obtain ⟨space, spaceAfter, closing⟩ := consume_true close _ _ small closed
        refine ⟨extended, before ++ source ++ (blanks ++ space), [value], ?_, rfl, ?_⟩
        · apply Separated.last
          apply Padded.mk before source _ value spaceBefore _ denotes
          exact (whitespace_append _ _).mpr ⟨spaceBehind, spaceAfter⟩
        · have joined := (consumed.trans _ _ _ _ _ skipped).trans _ _ _ _ _ closing
          simpa using joined
      next open_ notClosed =>
        have opened := consume_false close _ _ notClosed
        obtain ⟨others, spaceOpen, skippedAgain⟩ := skip_whitespace_consumed behind.skipWhitespace
        rw [← opened] at skippedAgain
        split at parsed
        next rest comma =>
          obtain ⟨space, spaceAfter, separator⟩ := consume_true _ _ _ (by decide) comma
          have front := (consumed.trans _ _ _ _ _ skipped).trans _ _ _ _ _
            (skippedAgain.trans _ _ _ _ _ separator)
          obtain ⟨final, tail, values, separated, rfl, ending⟩ :=
            ih (items ++ [value]) rest (front.boundary formed) extended parsed
          refine ⟨final, before ++ source ++ (blanks ++ others ++ space) ++ Byte.comma :: tail,
            value :: values, ?_, by simp, ?_⟩
          · apply Separated.more _ _ _ _ _ separated
            apply Padded.mk before source _ value spaceBefore _ denotes
            have behindOpen := (whitespace_append _ _).mpr ⟨spaceBehind, spaceOpen⟩
            exact (whitespace_append _ _).mpr ⟨behindOpen, spaceAfter⟩
          · have joined := front.trans _ _ _ _ _ ending
            simpa using joined
        next => exact absurd parsed (by simp)

theorem parse_container_sound (opening close : UInt8) (openSmall : opening ≤ 0x7f)
    (closeSmall : close ≤ 0x7f) (parseItem : List α → Cursor → Result (α × Cursor))
    (item : List UInt8 → α → Prop) (invariant : List α → Prop) (start : invariant [])
    (sound : ItemSound parseItem item invariant) (result : List α) (c after : Cursor)
    (formed : WellFormedUtf8 c.rest)
    (parsed : parseContainer opening close parseItem c = .ok (result, after)) :
    invariant result ∧
      ∃ space source, Whitespace space ∧ Contents item source result ∧
        Consumed c (space ++ (opening :: source ++ [close])) after := by
  unfold parseContainer at parsed
  split at parsed
  next => exact absurd parsed (by simp)
  next inner opened =>
    obtain ⟨space, blank, front⟩ := consume_true opening c inner openSmall opened
    obtain ⟨blanks, spaceInner, skipped⟩ := skip_whitespace_consumed inner
    split at parsed
    next final closed =>
      simp only [Except.ok.injEq, Prod.mk.injEq] at parsed
      obtain ⟨rfl, rfl⟩ := parsed
      obtain ⟨others, spaceOthers, closing⟩ := consume_true close _ _ closeSmall closed
      refine ⟨start, space, blanks ++ others, blank, Or.inl ⟨?_, rfl⟩, ?_⟩
      · exact (whitespace_append _ _).mpr ⟨spaceInner, spaceOthers⟩
      · have joined := front.trans _ _ _ _ _ (skipped.trans _ _ _ _ _ closing)
        simpa using joined
    next open_ notClosed =>
      have opened := consume_false close _ _ notClosed
      obtain ⟨others, spaceOpen, skippedAgain⟩ := skip_whitespace_consumed inner.skipWhitespace
      rw [← opened] at skippedAgain
      have whole := front.trans _ _ _ _ _ (skipped.trans _ _ _ _ _ skippedAgain)
      obtain ⟨kept, source, values, separated, same, items⟩ := parse_items_sound close closeSmall
        parseItem item invariant sound _ [] result open_ after (whole.boundary formed) start parsed
      obtain rfl : result = values := by simpa using same
      -- the whitespace skipped before the first item belongs to it
      have leading := (whitespace_append blanks others).mpr ⟨spaceInner, spaceOpen⟩
      have padded := separated_leading item _ _ _ leading separated
      refine ⟨kept, space, blanks ++ others ++ source, blank, Or.inr padded, ?_⟩
      have joined := whole.trans _ _ _ _ _ items
      simpa using joined

end

/-! ## Values -/

/-- A value parser consumes an accepted value, behind whitespace. -/
def ValueSound (parseElement : Cursor → Result (JsonValue × Cursor)) (levels : Nat) : Prop :=
  ∀ c value after, WellFormedUtf8 c.rest → parseElement c = .ok (value, after) →
    ∃ before source, Whitespace before ∧ Accepted levels source value ∧
      Consumed c (before ++ source) after

private theorem parse_member_sound (parseElement : Cursor → Result (JsonValue × Cursor))
    (levels : Nat) (sound : ValueSound parseElement levels) :
    ItemSound (parseMember parseElement) (Member (Accepted levels))
      fun members => (members.map Prod.fst).Nodup := by
  intro members c member after formed distinct parsed
  unfold parseMember at parsed
  dsimp only at parsed
  obtain ⟨before, blank, skipped⟩ := skip_whitespace_consumed c
  split at parsed
  next => exact absurd parsed (by simp)
  next =>
    split at parsed
    next => exact absurd parsed (by simp)
    next key behindName name =>
      obtain ⟨nameText, isText, named⟩ :=
        parse_string_sound _ behindName key (skipped.boundary formed) name
      split at parsed
      next => exact absurd parsed (by simp)
      next fresh =>
        split at parsed
        next => exact absurd parsed (by simp)
        next behindColon colon =>
          obtain ⟨space, blankColon, colonTaken⟩ := consume_true _ _ _ (by decide) colon
          have front := (skipped.trans _ _ _ _ _ named).trans _ _ _ _ _ colonTaken
          split at parsed
          next => exact absurd parsed (by simp)
          next value final read =>
            simp only [Except.ok.injEq, Prod.mk.injEq] at parsed
            obtain ⟨rfl, rfl⟩ := parsed
            obtain ⟨gap, source, blankGap, accepted, valued⟩ :=
              sound behindColon value final (front.boundary formed) read
            refine ⟨?_, before, _, blank,
              Member.mk nameText key space gap source value isText blankColon blankGap accepted, ?_⟩
            · show ((members ++ [(key, value)]).map Prod.fst).Nodup
              rw [List.map_append, List.map_singleton]
              simpa [List.nodup_append, distinct] using fun a b listed same =>
                fresh (List.mem_map.mpr ⟨(a, b), listed, same⟩)
            · have joined := front.trans _ _ _ _ _ valued
              simpa using joined

private theorem parse_literal_sound (literal : List UInt8) (value result : JsonValue)
    (c after : Cursor) (small : ∀ byte ∈ literal, byte ≤ 0x7f)
    (parsed : parseLiteral literal value c = .ok (result, after)) :
    result = value ∧ Consumed c literal after := by
  unfold parseLiteral Cursor.consumeLiteral at parsed
  split at parsed
  next => exact absurd parsed (by simp)
  next behind taken =>
    split at taken
    next same =>
      obtain rfl := Option.some.inj taken
      simp only [Except.ok.injEq, Prod.mk.injEq] at parsed
      obtain ⟨rfl, rfl⟩ := parsed
      refine ⟨rfl, Consumed.ascii _ _ _ ?_ rfl small⟩
      conv => lhs; rw [← List.take_append_drop literal.length c.rest, same]
      rfl
    next => exact absurd taken (by simp)

private theorem accepted_leaf (levels : Nat) (source : List UInt8) (value : JsonValue)
    (rule : Value source value) (noMembers : ∀ members, value ≠ .object members)
    (leaf : value.children = []) : Accepted (levels + 1) source value := by
  refine ⟨rule, (JsonValue.unique_names_iff value).mpr ⟨?_, by simp [leaf]⟩,
    (JsonValue.nested_below_succ levels value).mpr (by simp [leaf])⟩
  exact fun members same => absurd same (noMembers members)

/-- The parser consumes an accepted value at every depth: the induction is on the levels left. -/
theorem parse_value_sound (levels : Nat) : ValueSound (parseValue levels) levels := by
  induction levels with
  | zero => exact fun c value after _ parsed => absurd parsed (by simp [parseValue])
  | succ levels ih =>
    intro c value after formed parsed
    unfold parseValue at parsed
    dsimp only at parsed
    obtain ⟨before, blank, skipped⟩ := skip_whitespace_consumed c
    have formedValue := skipped.boundary formed
    -- a value behind the whitespace already skipped
    have finish : ∀ space source, Whitespace space → Accepted (levels + 1) source value →
        Consumed c.skipWhitespace (space ++ source) after →
        ∃ before source, Whitespace before ∧ Accepted (levels + 1) source value ∧
          Consumed c (before ++ source) after := by
      intro space source blankSpace accepted consumed
      refine ⟨before ++ space, source, (whitespace_append _ _).mpr ⟨blank, blankSpace⟩, accepted,
        ?_⟩
      rw [List.append_assoc]
      exact skipped.trans _ _ _ _ _ consumed
    split at parsed
    next => exact absurd parsed (by simp)
    next first head =>
      unfold parseByFirst at parsed
      split at parsed
      next =>
        unfold parseObject at parsed
        cases container : parseContainer Byte.openBrace Byte.closeBrace
            (parseMember (parseValue levels)) c.skipWhitespace with
        | error status => rw [container] at parsed; exact absurd parsed (by simp [Except.map])
        | ok result =>
          obtain ⟨members, final⟩ := result
          rw [container] at parsed
          simp only [Except.map, Except.ok.injEq, Prod.mk.injEq] at parsed
          obtain ⟨rfl, rfl⟩ := parsed
          obtain ⟨distinct, space, source, blankSpace, contents, consumed⟩ :=
            parse_container_sound _ _ (by decide) (by decide) _ _ _ (by simp)
              (parse_member_sound _ levels ih) members _ final formedValue container
          exact finish space _ blankSpace (accepted_object levels source members distinct contents)
            consumed
      split at parsed
      next =>
        unfold parseArray at parsed
        cases container : parseContainer Byte.openBracket Byte.closeBracket
            (fun _ => parseValue levels) c.skipWhitespace with
        | error status => rw [container] at parsed; exact absurd parsed (by simp [Except.map])
        | ok result =>
          obtain ⟨elements, final⟩ := result
          rw [container] at parsed
          simp only [Except.map, Except.ok.injEq, Prod.mk.injEq] at parsed
          obtain ⟨rfl, rfl⟩ := parsed
          have elementSound : ItemSound (fun _ : List JsonValue => parseValue levels)
              (Accepted levels) fun _ => True :=
            fun _ c value after formed _ parsed => ⟨trivial, ih c value after formed parsed⟩
          obtain ⟨_, space, source, blankSpace, contents, consumed⟩ :=
            parse_container_sound _ _ (by decide) (by decide) _ _ _ trivial elementSound
              elements _ final formedValue container
          exact finish space _ blankSpace (accepted_array levels source elements contents) consumed
      split at parsed
      next =>
        cases string : parseString c.skipWhitespace with
        | error status => rw [string] at parsed; exact absurd parsed (by simp [Except.map])
        | ok result =>
          obtain ⟨text, final⟩ := result
          rw [string] at parsed
          simp only [Except.map, Except.ok.injEq, Prod.mk.injEq] at parsed
          obtain ⟨rfl, rfl⟩ := parsed
          obtain ⟨source, isText, consumed⟩ := parse_string_sound _ final text formedValue string
          exact finish [] source whitespace_nil
            (accepted_leaf levels _ _ (Value.string source text isText) (by simp) rfl) consumed
      split at parsed
      next =>
        obtain ⟨rfl, consumed⟩ := parse_literal_sound _ _ value _ after (by decide +kernel) parsed
        exact finish [] _ whitespace_nil
          (accepted_leaf levels _ _ Value.true (by simp) rfl) consumed
      split at parsed
      next =>
        obtain ⟨rfl, consumed⟩ := parse_literal_sound _ _ value _ after (by decide +kernel) parsed
        exact finish [] _ whitespace_nil (accepted_leaf levels _ _ Value.false (by simp) rfl)
          consumed
      split at parsed
      next =>
        obtain ⟨rfl, consumed⟩ := parse_literal_sound _ _ value _ after (by decide +kernel) parsed
        exact finish [] _ whitespace_nil
          (accepted_leaf levels _ _ Value.null (by simp) rfl) consumed
      next =>
        obtain ⟨source, number, rfl, consumed⟩ := parse_number_sound _ after value parsed
        exact finish [] source whitespace_nil
          (accepted_leaf levels _ _ (Value.number source number) (by simp) rfl) consumed

end MarketForge.Model
