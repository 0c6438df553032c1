import MarketForge.Model.JsonSound

/-!
# What the parser does not refuse

Every text of a grammar rule is consumed whole when the byte behind it can follow a value. Each
lemma computes a parser on the text of its rule, up to the exact cursor it stops at.
-/
namespace MarketForge.Model

/-- The bytes that can follow a value: whitespace, a comma or a closing bracket. -/
def Delimiter (byte : UInt8) : Prop :=
  isWhitespace byte = true ∨ byte = Byte.comma ∨ byte = Byte.closeBracket
    ∨ byte = Byte.closeBrace

/-- The input ends here or goes on with a byte that satisfies the condition. -/
def Continues (condition : UInt8 → Prop) (rest : List UInt8) : Prop :=
  ∀ byte, rest.head? = some byte → condition byte

theorem continues_append (condition : UInt8 → Prop) (source rest : List UInt8)
    (first : Continues condition source) (second : Continues condition rest) :
    Continues condition (source ++ rest) := by
  intro byte head
  cases source with
  | nil => exact second byte head
  | cons other others => exact first byte (by simpa using head)

theorem continues_mono (weaker stronger : UInt8 → Prop) (rest : List UInt8)
    (implies : ∀ byte, stronger byte → weaker byte) (continues : Continues stronger rest) :
    Continues weaker rest :=
  fun byte head => implies byte (continues byte head)

theorem continues_cons (condition : UInt8 → Prop) (byte : UInt8) (rest : List UInt8)
    (holds : condition byte) : Continues condition (byte :: rest) := by
  intro other head
  obtain rfl : byte = other := by simpa using head
  exact holds

/-! ## Whitespace and single bytes -/

theorem skip_while_stop (satisfies : UInt8 → Bool) (position : Nat) (source rest : List UInt8)
    (all : ∀ byte ∈ source, satisfies byte = true)
    (stops : Continues (fun byte => satisfies byte = false) rest) :
    Cursor.skipWhile satisfies ⟨position, source ++ rest⟩ =
      ⟨position + source.length, rest⟩ := by
  have taken : rest.takeWhile satisfies = [] ∧ rest.dropWhile satisfies = rest := by
    cases rest with
    | nil => simp
    | cons byte others => simp [stops byte rfl]
  unfold Cursor.skipWhile
  rw [List.takeWhile_append_of_pos all, List.dropWhile_append_of_pos all, taken.1, taken.2,
    List.append_nil]

theorem skip_whitespace_stop (position : Nat) (space rest : List UInt8) (blank : Whitespace space)
    (stops : Continues (fun byte => isWhitespace byte = false) rest) :
    Cursor.skipWhitespace ⟨position, space ++ rest⟩ = ⟨position + space.length, rest⟩ :=
  skip_while_stop isWhitespace position space rest
    (fun byte member => (whitespace_iff byte).mpr (blank byte member)) stops

theorem consume_expected (expected : UInt8) (position : Nat) (space rest : List UInt8)
    (blank : Whitespace space) (visible : isWhitespace expected = false) :
    Cursor.consume expected ⟨position, space ++ expected :: rest⟩ =
      (true, ⟨position + (space.length + 1), rest⟩) := by
  have skipped := skip_whitespace_stop position space (expected :: rest) blank
    (continues_cons _ _ _ visible)
  simp [Cursor.consume, skipped, Cursor.advance, Nat.add_assoc]

theorem consume_other (expected byte : UInt8) (position : Nat) (space rest : List UInt8)
    (blank : Whitespace space) (visible : isWhitespace byte = false) (other : byte ≠ expected) :
    Cursor.consume expected ⟨position, space ++ byte :: rest⟩ =
      (false, ⟨position + space.length, byte :: rest⟩) := by
  have skipped := skip_whitespace_stop position space (byte :: rest) blank
    (continues_cons _ _ _ visible)
  simp [Cursor.consume, skipped, other]

/-! ## Numbers -/

private theorem take_optional_taken (accepted : UInt8 → Bool) (position : Nat) (byte : UInt8)
    (rest : List UInt8) (holds : accepted byte = true) :
    Cursor.takeOptional accepted ⟨position, byte :: rest⟩ = ⟨position + 1, rest⟩ := by
  simp [Cursor.takeOptional, Cursor.advance, holds]

private theorem take_optional_left (accepted : UInt8 → Bool) (position : Nat)
    (rest : List UInt8) (refused : Continues (fun byte => accepted byte = false) rest) :
    Cursor.takeOptional accepted ⟨position, rest⟩ = ⟨position, rest⟩ := by
  cases rest with
  | nil => simp [Cursor.takeOptional]
  | cons byte others => simp [Cursor.takeOptional, refused byte rfl]

theorem parse_digits_complete (position : Nat) (digits rest : List UInt8) (some : Digits digits)
    (stops : Continues (fun byte => isDigit byte = false) rest) :
    parseDigits ⟨position, digits ++ rest⟩ = .ok ⟨position + digits.length, rest⟩ := by
  obtain ⟨nonempty, all⟩ := some
  have skipped := skip_while_stop isDigit position digits rest
    (fun byte member => (digit_iff byte).mpr (all byte member)) stops
  have moved := List.length_pos_iff.mpr nonempty
  have differ : ¬position = position + digits.length := by omega
  simp only [parseDigits, skipped, if_neg differ]

theorem parse_integer_complete (position : Nat) (source rest : List UInt8)
    (integer : Integer source) (stops : Continues (fun byte => isDigit byte = false) rest) :
    parseInteger ⟨position, source ++ rest⟩ = .ok ⟨position + source.length, rest⟩ := by
  cases integer with
  | zero =>
    have noDigit : rest.head?.any isDigit = false := by
      cases rest with
      | nil => rfl
      | cons byte others => simpa using stops byte rfl
    simp [parseInteger, Cursor.advance, noDigit]
  | positive first others digit nonzero digits =>
    have skipped := skip_while_stop isDigit position (first :: others) rest (by
      intro byte member
      rcases List.mem_cons.mp member with rfl | listed
      · exact (digit_iff byte).mpr digit
      · exact (digit_iff byte).mpr (digits byte listed)) stops
    have isDigit := (digit_iff first).mpr digit
    rw [List.cons_append] at skipped ⊢
    simp only [parseInteger, List.head?_cons, if_neg nonzero, isDigit, if_true, skipped]

theorem parse_fraction_complete (position : Nat) (source rest : List UInt8)
    (fraction : Fraction source)
    (stops : Continues (fun byte => isDigit byte = false ∧ byte ≠ Byte.dot) rest) :
    parseFraction ⟨position, source ++ rest⟩ = .ok ⟨position + source.length, rest⟩ := by
  cases fraction with
  | absent =>
    have noDot : rest.head? ≠ some Byte.dot := fun head => (stops _ head).2 rfl
    simp [parseFraction, noDot]
  | present digits some =>
    have read := parse_digits_complete (position + 1) digits rest some
      (continues_mono _ _ _ (fun _ both => both.1) stops)
    simp [parseFraction, Cursor.advance, read, Nat.add_comm, Nat.add_left_comm]

private theorem digits_unsigned (digits rest : List UInt8) (some : Digits digits) :
    Continues (fun byte => isSign byte = false) (digits ++ rest) := by
  obtain ⟨nonempty, all⟩ := some
  cases digits with
  | nil => exact absurd rfl nonempty
  | cons first others =>
    apply continues_cons
    cases sign : isSign first with
    | false => rfl
    | true =>
      have digit := all first (by simp)
      rcases (sign_iff first).mp sign with rfl | rfl <;> exact absurd digit (by decide)

theorem parse_exponent_complete (position : Nat) (source rest : List UInt8)
    (exponent : Exponent source)
    (stops : Continues (fun byte => isDigit byte = false ∧ isExponent byte = false) rest) :
    parseExponent ⟨position, source ++ rest⟩ = .ok ⟨position + source.length, rest⟩ := by
  have noDigit := continues_mono _ _ _ (fun _ both => both.1) stops
  cases exponent with
  | absent =>
    have noMark : rest.head?.any isExponent = false := by
      cases rest with
      | nil => rfl
      | cons byte others => simpa using (stops byte rfl).2
    simp [parseExponent, noMark]
  | unsigned mark digits exponent some =>
    have marked := (exponent_iff mark).mpr exponent
    have read := parse_digits_complete (position + 1) digits rest some noDigit
    have left := take_optional_left isSign (position + 1) _ (digits_unsigned digits rest some)
    simp [parseExponent, Cursor.advance, marked, left, read, Nat.add_comm, Nat.add_left_comm]
  | signed mark sign digits exponent either some =>
    have marked := (exponent_iff mark).mpr exponent
    have read := parse_digits_complete (position + 1 + 1) digits rest some noDigit
    have taken := take_optional_taken isSign (position + 1) sign (digits ++ rest)
      ((sign_iff sign).mpr either)
    simp [parseExponent, Cursor.advance, marked, taken, read, Nat.add_comm, Nat.add_left_comm]

/-- A byte that can follow a value continues no number. -/
private theorem delimiter_stops (byte : UInt8) (delimiter : Delimiter byte) :
    isDigit byte = false ∧ byte ≠ Byte.dot ∧ isExponent byte = false := by
  rcases delimiter with blank | rfl | rfl | rfl
  · rcases (whitespace_iff byte).mp blank with rfl | rfl | rfl | rfl <;> decide
  all_goals decide

private theorem exponent_starts (source : List UInt8) (exponent : Exponent source) :
    Continues (fun byte => isExponent byte = true) source := by
  cases exponent with
  | absent => simp [Continues]
  | unsigned mark _ exponent _ => exact continues_cons _ _ _ ((exponent_iff mark).mpr exponent)
  | signed mark _ _ exponent _ _ => exact continues_cons _ _ _ ((exponent_iff mark).mpr exponent)

private theorem fraction_starts (source : List UInt8) (fraction : Fraction source) :
    Continues (fun byte => byte = Byte.dot) source := by
  cases fraction with
  | absent => simp [Continues]
  | present => exact continues_cons _ _ _ rfl

private theorem integer_starts (source : List UInt8) (integer : Integer source) :
    ∃ first others, source = first :: others ∧ Digit first := by
  cases integer with
  | zero => exact ⟨_, _, rfl, by decide⟩
  | positive first others digit _ _ => exact ⟨first, others, rfl, digit⟩

theorem parse_number_complete (position : Nat) (source rest : List UInt8)
    (number : Number source) (stops : Continues Delimiter rest) :
    parseNumber ⟨position, source ++ rest⟩ =
      .ok (.number source, ⟨position + source.length, rest⟩) := by
  obtain ⟨sign, whole, decimals, scale, signed, integer, fraction, exponent⟩ := number
  -- what may follow each part of the number
  have afterScale := continues_mono _ _ rest delimiter_stops stops
  have afterDecimals :
      Continues (fun byte => isDigit byte = false ∧ byte ≠ Byte.dot) (scale ++ rest) := by
    apply continues_append
    · refine continues_mono _ _ _ (fun byte mark => ?_) (exponent_starts scale exponent)
      rcases (exponent_iff byte).mp mark with rfl | rfl <;> decide
    · exact continues_mono _ _ _ (fun _ three => ⟨three.1, three.2.1⟩) afterScale
  have afterWhole : Continues (fun byte => isDigit byte = false) (decimals ++ (scale ++ rest)) := by
    apply continues_append
    · refine continues_mono _ _ _ (fun byte dot => ?_) (fraction_starts decimals fraction)
      rw [dot]
      decide
    · exact continues_mono _ _ _ (fun _ both => both.1) afterDecimals
  have start : Cursor.takeOptional (· == Byte.minus)
      ⟨position, sign ++ (whole ++ (decimals ++ (scale ++ rest)))⟩ =
        ⟨position + sign.length, whole ++ (decimals ++ (scale ++ rest))⟩ := by
    rcases signed with rfl | rfl
    · obtain ⟨first, others, rfl, digit⟩ := integer_starts whole integer
      apply take_optional_left
      apply continues_cons
      cases minus : first == Byte.minus with
      | false => rfl
      | true =>
        rw [beq_iff_eq.mp minus] at digit
        exact absurd digit (by decide)
    · exact take_optional_taken _ position _ _ (by decide)
  have first := parse_integer_complete (position + sign.length) whole _ integer afterWhole
  have second := parse_fraction_complete (position + sign.length + whole.length) decimals _ fraction
    afterDecimals
  have third := parse_exponent_complete (position + sign.length + whole.length + decimals.length)
    scale rest exponent (continues_mono _ _ _ (fun _ three => ⟨three.1, three.2.2⟩) afterScale)
  have total : position + sign.length + whole.length + decimals.length + scale.length =
      position + (sign ++ whole ++ decimals ++ scale).length := by
    simp only [List.length_append]
    omega
  simp only [parseNumber, List.append_assoc, start, first, second, third, bind, Except.bind, pure,
    Except.pure]
  rw [total, Nat.add_sub_cancel_left]
  simp only [← List.append_assoc, List.take_left]

/-! ## Strings -/

theorem parse_hex_quad_complete (position value : Nat) (digits rest : List UInt8)
    (quad : HexQuad digits value) :
    parseHexQuad ⟨position, digits ++ rest⟩ = some (value, ⟨position + digits.length, rest⟩) := by
  obtain ⟨a, b, c, d, i, j, k, l, first, second, third, fourth⟩ := quad
  obtain ⟨hexA, rfl⟩ := (hex_digit_iff a i).mp first
  obtain ⟨hexB, rfl⟩ := (hex_digit_iff b j).mp second
  obtain ⟨hexC, rfl⟩ := (hex_digit_iff c k).mp third
  obtain ⟨hexD, rfl⟩ := (hex_digit_iff d l).mp fourth
  simp [parseHexQuad, Cursor.advance, hexA, hexB, hexC, hexD]

private theorem hex_quad_length (digits : List UInt8) (value : Nat)
    (quad : HexQuad digits value) : digits.length = 4 := by
  cases quad
  rfl

/-- An escape is read up to its last byte. The cursor is behind the backslash. -/
theorem parse_escape_complete (position : Nat) (source decoded rest : List UInt8)
    (character : Character (Byte.backslash :: source) decoded) :
    parseEscape ⟨position, source ++ rest⟩ =
      some (decoded, ⟨position + source.length, rest⟩) := by
  generalize text : Byte.backslash :: source = whole at character
  have noEscape : simpleEscape Byte.lowerU = none := by decide
  cases character with
  -- a raw character does not start with a backslash
  | unescaped codePoint scalar printable noQuote noBackslash =>
    have plain := unescaped_plain codePoint scalar ⟨printable, noQuote, noBackslash⟩
    exact absurd rfl (plain Byte.backslash (by rw [← text]; simp)).2.2
  | short letter byte listed =>
    obtain rfl : source = [letter] := (List.cons.inj text).2
    have found := (simple_escape_iff letter byte).mpr listed
    simp [parseEscape, found, Cursor.advance]
  | unicode digits codePoint quad noHigh noLow =>
    obtain rfl : source = Byte.lowerU :: digits := (List.cons.inj text).2
    have read := parse_hex_quad_complete (position + 1) codePoint digits rest quad
    have high : ¬(0xd800 ≤ codePoint ∧ codePoint ≤ 0xdbff) := noHigh
    have low : ¬(0xdc00 ≤ codePoint ∧ codePoint ≤ 0xdfff) := noLow
    simp only [List.cons_append, parseEscape, List.head?_cons, noEscape, if_true, Cursor.advance,
      List.drop_succ_cons, List.drop_zero, parseUnicode, read, if_neg high, if_neg low,
      Option.map_some, List.length_cons]
    rw [Nat.add_right_comm, ← Nat.add_assoc]
  -- a high surrogate: the parser reads the second quad and joins the halves
  | pair first second high low firstQuad secondQuad isHigh isLow =>
    obtain rfl : source = Byte.lowerU :: first ++ Byte.backslash :: Byte.lowerU :: second :=
      (List.cons.inj text).2
    have firstRead := parse_hex_quad_complete (position + 1) high first
      (Byte.backslash :: Byte.lowerU :: (second ++ rest)) firstQuad
    have secondRead := parse_hex_quad_complete (position + 1 + first.length + 2) low second rest
      secondQuad
    have isHigh' : 0xd800 ≤ high ∧ high ≤ 0xdbff := isHigh
    have range : ¬(low < 0xdc00 ∨ 0xdfff < low) := by
      have bounds : 0xdc00 ≤ low ∧ low ≤ 0xdfff := isLow
      omega
    have enough : ¬second.length + rest.length + 1 + 1 < 6 := by
      have four := hex_quad_length second low secondQuad
      omega
    simp only [List.cons_append, List.append_assoc, parseEscape, List.head?_cons, noEscape,
      if_true, Cursor.advance, List.drop_succ_cons, List.drop_zero, parseUnicode, firstRead,
      if_pos isHigh', enough, List.getElem?_cons_zero, List.getElem?_cons_succ, ne_eq,
      not_true_eq_false, or_self, if_false, secondRead, if_neg range, surrogate_shift,
      Option.map_some, List.length_cons, List.length_append]
    congr 3
    omega

private theorem escape_or_plain (source decoded : List UInt8)
    (character : Character source decoded) :
    (∃ escape, source = Byte.backslash :: escape) ∨
      (source = decoded ∧ ∀ byte ∈ source, Plain byte) := by
  cases character with
  | unescaped codePoint scalar printable noQuote noBackslash =>
    exact Or.inr ⟨rfl, unescaped_plain codePoint scalar ⟨printable, noQuote, noBackslash⟩⟩
  | short letter => exact Or.inl ⟨[letter], rfl⟩
  | unicode digits => exact Or.inl ⟨_, rfl⟩
  | pair first second => exact Or.inl ⟨_, rfl⟩

theorem parse_chars_complete (fuel position : Nat) (body text rest output : List UInt8)
    (characters : Characters body text) (enough : body.length < fuel) :
    parseChars fuel ⟨position, body ++ Byte.quote :: rest⟩ output =
      .ok (output ++ text, ⟨position + (body.length + 1), rest⟩) := by
  induction characters generalizing fuel position output with
  | nil =>
    obtain ⟨fuel, rfl⟩ := Nat.exists_eq_add_of_lt enough
    simp [parseChars, Cursor.advance]
  | cons source decoded others tail character characters ih =>
    rw [List.length_append] at enough
    rcases escape_or_plain source decoded character with ⟨escape, rfl⟩ | ⟨rfl, plain⟩
    · rw [List.length_cons] at enough
      have read := parse_escape_complete (position + 1) escape decoded
        (others ++ Byte.quote :: rest) character
      obtain ⟨fuel, rfl⟩ : ∃ less, fuel = less + 1 := ⟨fuel - 1, by omega⟩
      have following := ih fuel (position + 1 + escape.length) (output ++ decoded) (by omega)
      have noQuote : Byte.backslash ≠ Byte.quote := by decide
      have printable : ¬Byte.backslash < 0x20 := by decide
      simp only [List.cons_append, List.append_assoc, parseChars, List.head?_cons, if_neg noQuote,
        if_neg printable, ne_eq, not_true_eq_false, if_false, Cursor.advance, List.drop_succ_cons,
        List.drop_zero, read, following, List.length_cons, List.length_append]
      congr 3
      omega
    · have copied := parse_chars_plain (fuel - source.length) position source
        (others ++ Byte.quote :: rest) output plain
      have following := ih (fuel - source.length) (position + source.length) (output ++ source)
        (by omega)
      rw [Nat.sub_add_cancel (by omega)] at copied
      rw [List.append_assoc, copied, following, List.append_assoc, List.length_append,
        Nat.add_assoc, Nat.add_assoc]

theorem parse_string_complete (position : Nat) (source decoded rest : List UInt8)
    (text : Text source decoded) :
    parseString ⟨position, source ++ rest⟩ = .ok (decoded, ⟨position + source.length, rest⟩) := by
  obtain ⟨body, decoded, characters⟩ := text
  have shape : Byte.quote :: body ++ [Byte.quote] ++ rest =
      Byte.quote :: (body ++ Byte.quote :: rest) := by simp
  have read := parse_chars_complete (Byte.quote :: (body ++ Byte.quote :: rest)).length
    (position + 1) body decoded rest []
    characters (by simp only [List.length_cons, List.length_append]; omega)
  have total : position + 1 + (body.length + 1) =
      position + (Byte.quote :: body ++ [Byte.quote]).length := by
    simp only [List.cons_append, List.length_cons, List.length_append, List.length_nil]
    omega
  rw [List.nil_append, total] at read
  simp only [shape, parseString, List.head?_cons, ne_eq, not_true_eq_false, if_false,
    Cursor.advance, List.drop_succ_cons, List.drop_zero, read]

/-! ## Containers -/

section

variable {α : Type}

/-- An item parser reads every item the invariant allows next. -/
def ItemComplete (parseItem : List α → Cursor → Result (α × Cursor))
    (item : List UInt8 → α → Prop) (invariant : List α → Prop) : Prop :=
  ∀ items position before source value rest, Whitespace before → item source value →
    invariant (items ++ [value]) → Continues Delimiter rest →
    parseItem items ⟨position, before ++ source ++ rest⟩ =
      .ok (value, ⟨position + (before ++ source).length, rest⟩)

/-- A byte that closes a container. -/
structure Closing (close : UInt8) : Prop where
  delimits : Delimiter close
  visible : isWhitespace close = false
  noComma : Byte.comma ≠ close

private theorem whitespace_delimits (space rest : List UInt8) (blank : Whitespace space)
    (delimited : Continues Delimiter rest) : Continues Delimiter (space ++ rest) := by
  apply continues_append _ _ _ _ delimited
  intro byte head
  obtain ⟨others, rfl⟩ := List.head?_eq_some_iff.mp head
  exact Or.inl ((whitespace_iff byte).mpr (blank byte (by simp)))

theorem parse_items_complete (close : UInt8) (closing : Closing close)
    (parseItem : List α → Cursor → Result (α × Cursor)) (item : List UInt8 → α → Prop)
    (invariant : List α → Prop)
    (inherited : ∀ first second, invariant (first ++ second) → invariant first)
    (complete : ItemComplete parseItem item invariant) (fuel position : Nat) (items values : List α)
    (source rest : List UInt8) (separated : Separated (Padded item) source values)
    (enough : values.length ≤ fuel) (kept : invariant (items ++ values)) :
    parseItems close parseItem fuel items ⟨position, source ++ close :: rest⟩ =
      .ok (items ++ values, ⟨position + (source.length + 1), rest⟩) := by
  induction separated generalizing fuel position items with
  | last source value denotes =>
    -- the item is read up to the space behind it, and the closing byte ends the list
    -- behind the item comes a comma, and the others follow by induction
    obtain ⟨before, source, after, value, spaceBefore, spaceAfter, denotes⟩ := denotes
    obtain ⟨fuel, rfl⟩ : ∃ less, fuel = less + 1 := ⟨fuel - 1, by simp at enough; omega⟩
    have delimited := whitespace_delimits after (close :: rest) spaceAfter
      (continues_cons _ _ _ closing.delimits)
    have read := complete items position before source value _ spaceBefore denotes kept delimited
    have skipped := skip_whitespace_stop (position + (before ++ source).length) after
      (close :: rest) spaceAfter (continues_cons _ _ _ closing.visible)
    have closed := consume_expected close
      (position + (before ++ source).length + after.length) [] rest whitespace_nil closing.visible
    rw [List.nil_append] at closed
    rw [List.append_assoc (before ++ source)]
    simp only [parseItems, read, skipped, closed]
    simp only [List.length_append, List.length_nil]
    congr 3
    omega
  | more source others value values denotes _ ih =>
    obtain ⟨before, source, after, value, spaceBefore, spaceAfter, denotes⟩ := denotes
    obtain ⟨fuel, rfl⟩ : ∃ less, fuel = less + 1 := ⟨fuel - 1, by simp at enough; omega⟩
    have comma : isWhitespace Byte.comma = false := by decide
    have delimited := whitespace_delimits after (Byte.comma :: (others ++ close :: rest))
      spaceAfter (continues_cons _ _ _ (Or.inr (Or.inl rfl)))
    have assembled : invariant ((items ++ [value]) ++ values) := by simpa using kept
    have read := complete items position before source value _ spaceBefore denotes
      (inherited _ _ assembled) delimited
    have skipped := skip_whitespace_stop (position + (before ++ source).length) after
      (Byte.comma :: (others ++ close :: rest)) spaceAfter (continues_cons _ _ _ comma)
    have stays := consume_other close Byte.comma
      (position + (before ++ source).length + after.length) [] (others ++ close :: rest)
      whitespace_nil comma closing.noComma
    have separator := consume_expected Byte.comma
      (position + (before ++ source).length + after.length) [] (others ++ close :: rest)
      whitespace_nil comma
    simp only [List.nil_append, List.length_nil, Nat.add_zero, Nat.zero_add] at stays separator
    have following := ih fuel (position + (before ++ source).length + after.length + 1)
      (items ++ [value]) (by simpa using enough) assembled
    have shape : before ++ source ++ after ++ Byte.comma :: others ++ close :: rest =
        before ++ source ++ (after ++ Byte.comma :: (others ++ close :: rest)) := by simp
    simp only [shape, parseItems, read, skipped, stays, separator, following]
    simp only [List.append_assoc, List.singleton_append, List.length_append, List.length_cons]
    congr 3
    omega

private theorem separated_length (item : List UInt8 → α → Prop) (source : List UInt8)
    (values : List α) (separated : Separated item source values) :
    values.length ≤ source.length + 1 := by
  induction separated with
  | last => simp
  | more source others _ _ _ _ ih =>
    simp only [List.length_cons, List.length_append] at ih ⊢
    omega

/-- The container loop starts behind the whitespace of its first item. -/
private theorem separated_visible (item : List UInt8 → α → Prop) (visible : UInt8 → Prop)
    (starts : ∀ source value, item source value →
      ∃ first others, source = first :: others ∧ visible first)
    (source : List UInt8) (values : List α) (separated : Separated (Padded item) source values) :
    ∃ space first others, source = space ++ first :: others ∧ Whitespace space ∧ visible first ∧
      Separated (Padded item) (first :: others) values := by
  cases separated with
  | last source value denotes =>
    obtain ⟨before, source, after, value, spaceBefore, spaceAfter, denotes⟩ := denotes
    obtain ⟨first, others, rfl, seen⟩ := starts source value denotes
    refine ⟨before, first, others ++ after, by simp, spaceBefore, seen, ?_⟩
    exact Separated.last _ value
      (Padded.mk [] (first :: others) after value whitespace_nil spaceAfter denotes)
  | more source rest value values denotes separated =>
    obtain ⟨before, source, after, value, spaceBefore, spaceAfter, denotes⟩ := denotes
    obtain ⟨first, others, rfl, seen⟩ := starts source value denotes
    refine ⟨before, first, others ++ after ++ Byte.comma :: rest, by simp, spaceBefore, seen, ?_⟩
    have padded := Padded.mk [] (first :: others) after value whitespace_nil spaceAfter denotes
    simpa using Separated.more _ rest value values padded separated

theorem parse_container_complete (opening close : UInt8) (closing : Closing close)
    (shown : isWhitespace opening = false)
    (parseItem : List α → Cursor → Result (α × Cursor)) (item : List UInt8 → α → Prop)
    (invariant : List α → Prop)
    (inherited : ∀ first second, invariant (first ++ second) → invariant first)
    (starts : ∀ source value, item source value →
      ∃ first others, source = first :: others ∧ isWhitespace first = false ∧ first ≠ close)
    (complete : ItemComplete parseItem item invariant) (position : Nat) (values : List α)
    (source rest : List UInt8) (contents : Contents item source values)
    (kept : invariant values) :
    parseContainer opening close parseItem ⟨position, opening :: (source ++ close :: rest)⟩ =
      .ok (values, ⟨position + (source.length + 2), rest⟩) := by
  have opened := consume_expected opening position [] (source ++ close :: rest) whitespace_nil shown
  simp only [List.nil_append, List.length_nil, Nat.zero_add] at opened
  rcases contents with ⟨blank, rfl⟩ | separated
  · have skipped := skip_whitespace_stop (position + 1) source (close :: rest) blank
      (continues_cons _ _ _ closing.visible)
    have closed := consume_expected close (position + 1 + source.length) [] rest whitespace_nil
      closing.visible
    simp only [List.nil_append, List.length_nil, Nat.zero_add] at closed
    simp only [parseContainer, opened, skipped, closed]
    congr 3
    omega
  · obtain ⟨space, first, others, rfl, blank, ⟨visible, other⟩, separated⟩ :=
      separated_visible item (fun byte => isWhitespace byte = false ∧ byte ≠ close) starts source
        values separated
    have skipped := skip_whitespace_stop (position + 1) space (first :: (others ++ close :: rest))
      blank (continues_cons _ _ _ visible)
    have stays := consume_other close first (position + 1 + space.length) []
      (others ++ close :: rest) whitespace_nil visible other
    simp only [List.nil_append, List.length_nil, Nat.add_zero] at stays
    have fits : values.length ≤ (first :: (others ++ close :: rest)).length + 1 := by
      have short := separated_length _ _ _ separated
      simp only [List.length_cons, List.length_append] at short ⊢
      omega
    have read := parse_items_complete close closing parseItem item invariant inherited complete
      _ (position + 1 + space.length) [] values (first :: others) rest separated fits kept
    rw [List.cons_append, List.nil_append] at read
    simp only [List.append_assoc, List.cons_append] at opened ⊢
    simp only [parseContainer, opened, skipped, stays, read]
    simp only [List.length_append, List.length_cons]
    congr 3
    omega

end

/-! ## Values -/

/-- A value starts with a byte that is neither whitespace nor a closing bracket. -/
theorem value_starts (source : List UInt8) (value : JsonValue) (rule : Value source value) :
    ∃ first others, source = first :: others ∧ isWhitespace first = false ∧
      first ≠ Byte.closeBracket ∧ first ≠ Byte.closeBrace := by
  cases rule with
  | null => exact ⟨_, _, rfl, by decide⟩
  | true => exact ⟨_, _, rfl, by decide⟩
  | false => exact ⟨_, _, rfl, by decide⟩
  | string _ decoded text =>
    obtain ⟨body, decoded, _⟩ := text
    exact ⟨_, _, rfl, by decide⟩
  | emptyArray => exact ⟨_, _, rfl, by decide⟩
  | array => exact ⟨_, _, rfl, by decide⟩
  | emptyObject => exact ⟨_, _, rfl, by decide⟩
  | object => exact ⟨_, _, rfl, by decide⟩
  | number _ number =>
    obtain ⟨sign, whole, decimals, scale, signed, integer, _, _⟩ := number
    obtain ⟨first, others, rfl, digit⟩ := integer_starts whole integer
    rcases signed with rfl | rfl
    · refine ⟨first, _, rfl, ?_, ?_, ?_⟩
      · cases blank : isWhitespace first with
        | false => rfl
        | true =>
          rcases (whitespace_iff first).mp blank with rfl | rfl | rfl | rfl <;>
            exact absurd digit (by decide)
      · rintro rfl
        exact absurd digit (by decide)
      · rintro rfl
        exact absurd digit (by decide)
    · exact ⟨Byte.minus, _, rfl, by decide⟩

/-- A value parser reads every accepted value that something can follow. -/
def ValueComplete (parseElement : Cursor → Result (JsonValue × Cursor)) (levels : Nat) : Prop :=
  ∀ position before source value rest, Whitespace before → Accepted levels source value →
    Continues Delimiter rest →
    parseElement ⟨position, before ++ source ++ rest⟩ =
      .ok (value, ⟨position + (before ++ source).length, rest⟩)

private theorem text_starts (source decoded : List UInt8) (text : Text source decoded) :
    ∃ others, source = Byte.quote :: others := by
  obtain ⟨body, decoded, _⟩ := text
  exact ⟨_, rfl⟩

private theorem parse_member_complete (parseElement : Cursor → Result (JsonValue × Cursor))
    (levels : Nat) (complete : ValueComplete parseElement levels) :
    ItemComplete (parseMember parseElement) (Member (Accepted levels))
      fun members => (members.map Prod.fst).Nodup := by
  intro members position before source member rest blank rule distinct delimited
  obtain ⟨name, key, gap, after, valueText, value, text, blankGap, blankAfter, accepted⟩ := rule
  obtain ⟨body, rfl⟩ := text_starts name key text
  have fresh : key ∉ members.map Prod.fst := by
    have split : ((members ++ [(key, value)]).map Prod.fst).Nodup := distinct
    rw [List.map_append, List.map_singleton, List.nodup_append] at split
    exact fun listed => split.2.2 key listed key (by simp) rfl
  have skipped := skip_whitespace_stop position before
    (Byte.quote :: body ++ (gap ++ Byte.colon :: (after ++ valueText ++ rest))) blank
    (continues_cons _ _ _ (by decide))
  have named := parse_string_complete (position + before.length) (Byte.quote :: body) key
    (gap ++ Byte.colon :: (after ++ valueText ++ rest)) text
  have colon := consume_expected Byte.colon (position + before.length + (Byte.quote :: body).length)
    gap (after ++ valueText ++ rest) blankGap (by decide)
  have read := complete (position + before.length + (Byte.quote :: body).length + (gap.length + 1))
    after valueText value rest blankAfter accepted delimited
  have shape : before ++ (Byte.quote :: body ++ gap ++ Byte.colon :: after ++ valueText) ++ rest =
      before ++ (Byte.quote :: body ++ (gap ++ Byte.colon :: (after ++ valueText ++ rest))) := by
    simp
  have head : (Byte.quote :: body ++ (gap ++ Byte.colon :: (after ++ valueText ++ rest))).head? =
      some Byte.quote := rfl
  simp only [shape, parseMember, skipped, head, ne_eq, not_true_eq_false, if_false, named,
    if_neg fresh, colon, read]
  simp only [List.length_append, List.length_cons]
  congr 3
  omega

private theorem parse_literal_complete (literal rest : List UInt8) (value : JsonValue)
    (position : Nat) :
    parseLiteral literal value ⟨position, literal ++ rest⟩ =
      .ok (value, ⟨position + literal.length, rest⟩) := by
  simp [parseLiteral, Cursor.consumeLiteral, Cursor.advance]

theorem bracket_closing : Closing Byte.closeBracket :=
  ⟨Or.inr (Or.inr (Or.inl rfl)), by decide, by decide⟩

theorem brace_closing : Closing Byte.closeBrace :=
  ⟨Or.inr (Or.inr (Or.inr rfl)), by decide, by decide⟩

private theorem number_starts (source : List UInt8) (number : Number source) :
    ∃ first others, source = first :: others ∧ (first = Byte.minus ∨ Digit first) := by
  obtain ⟨sign, whole, decimals, scale, signed, integer, _, _⟩ := number
  obtain ⟨first, others, rfl, digit⟩ := integer_starts whole integer
  rcases signed with rfl | rfl
  · exact ⟨first, _, rfl, Or.inr digit⟩
  · exact ⟨Byte.minus, _, rfl, Or.inl rfl⟩

/-- No digit or minus sign starts a value of another kind. -/
private theorem number_dispatch (parseElement : Cursor → Result (JsonValue × Cursor)) (c : Cursor)
    (first : UInt8) (start : first = Byte.minus ∨ Digit first) :
    parseByFirst parseElement first c = parseNumber c := by
  have other : ∀ byte, byte ≠ Byte.minus → ¬Digit byte → first ≠ byte := by
    rintro byte noMinus noDigit rfl
    exact start.elim noMinus noDigit
  simp only [parseByFirst, if_neg (other Byte.openBrace (by decide) (by decide)),
    if_neg (other Byte.openBracket (by decide) (by decide)),
    if_neg (other Byte.quote (by decide) (by decide)),
    if_neg (other Byte.lowerT (by decide) (by decide)),
    if_neg (other Byte.lowerF (by decide) (by decide)),
    if_neg (other Byte.lowerN (by decide) (by decide))]

section

variable (levels : Nat) (parseElement : Cursor → Result (JsonValue × Cursor)) (position : Nat)
  (source rest : List UInt8) (inner : ValueComplete parseElement levels)

include inner

private theorem parse_array_complete (elements : List JsonValue)
    (contents : Contents (Accepted levels) source elements) :
    parseArray parseElement ⟨position, Byte.openBracket :: (source ++ Byte.closeBracket :: rest)⟩ =
      .ok (.array elements, ⟨position + (source.length + 2), rest⟩) := by
  have complete : ItemComplete (fun _ : List JsonValue => parseElement) (Accepted levels)
      fun _ => True :=
    fun _ position before source value rest blank accepted _ delimited =>
      inner position before source value rest blank accepted delimited
  have starts : ∀ source value, Accepted levels source value →
      ∃ first others, source = first :: others ∧ isWhitespace first = false ∧
        first ≠ Byte.closeBracket := by
    intro source value accepted
    obtain ⟨first, others, text, visible, bracket, _⟩ := value_starts source value accepted.1
    exact ⟨first, others, text, visible, bracket⟩
  have read := parse_container_complete Byte.openBracket Byte.closeBracket bracket_closing
    (by decide) _ _ _ (fun _ _ _ => trivial) starts complete position elements source rest contents
    trivial
  simp [parseArray, read, Except.map]

private theorem parse_object_complete (members : List (List UInt8 × JsonValue))
    (distinct : (members.map Prod.fst).Nodup)
    (contents : Contents (Member (Accepted levels)) source members) :
    parseObject parseElement ⟨position, Byte.openBrace :: (source ++ Byte.closeBrace :: rest)⟩ =
      .ok (.object members, ⟨position + (source.length + 2), rest⟩) := by
  have inherited : ∀ first second : List (List UInt8 × JsonValue),
      ((first ++ second).map Prod.fst).Nodup → (first.map Prod.fst).Nodup := by
    intro first second both
    rw [List.map_append] at both
    exact (List.nodup_append.mp both).1
  have starts : ∀ source member, Member (Accepted levels) source member →
      ∃ first others, source = first :: others ∧ isWhitespace first = false ∧
        first ≠ Byte.closeBrace := by
    rintro source member ⟨name, key, gap, after, valueText, value, text, _, _, _⟩
    obtain ⟨body, rfl⟩ := text_starts name key text
    exact ⟨_, _, rfl, by decide⟩
  have read := parse_container_complete Byte.openBrace Byte.closeBrace brace_closing (by decide) _
    _ _ inherited starts (parse_member_complete _ levels inner) position members source rest
    contents distinct
  simp [parseObject, read, Except.map]

/-- The switch takes the branch of the value's own kind. -/
private theorem parse_first_complete (value : JsonValue)
    (accepted : Accepted (levels + 1) source value) (delimited : Continues Delimiter rest) :
    ∃ first, source.head? = some first ∧
      parseByFirst parseElement first ⟨position, source ++ rest⟩ =
        .ok (value, ⟨position + source.length, rest⟩) := by
  obtain ⟨rule, unique, nested⟩ := accepted
  obtain ⟨own, uniqueChildren⟩ := (JsonValue.unique_names_iff value).mp unique
  have nestedChildren := (JsonValue.nested_below_succ levels value).mp nested
  -- what the whole value promises of its nesting and its names, every child promises
  have elementsAccepted : ∀ source elements, value = .array elements →
      Contents Value source elements → Contents (Accepted levels) source elements := by
    rintro source elements rfl contents
    apply (contents_and _ Value (fun child => child.UniqueNames ∧ child.NestedBelow levels)
      (fun _ _ => Iff.rfl) source elements).mpr
    exact ⟨contents, fun child member => ⟨uniqueChildren child member, nestedChildren child member⟩⟩
  have membersAccepted : ∀ source members, value = .object members →
      Contents (Member Value) source members →
        Contents (Member (Accepted levels)) source members := by
    rintro source members rfl contents
    apply (contents_and _ (Member Value)
      (fun member => member.2.UniqueNames ∧ member.2.NestedBelow levels)
      (member_and _ _ _ fun _ _ => Iff.rfl) source members).mpr
    refine ⟨contents, fun member listed => ?_⟩
    have child : member.2 ∈ (JsonValue.object members).children :=
      List.mem_map.mpr ⟨member, listed, rfl⟩
    exact ⟨uniqueChildren _ child, nestedChildren _ child⟩
  -- the first byte of each form of value selects its parser
  cases rule with
  | null => exact ⟨_, rfl, parse_literal_complete Byte.nullLiteral rest .null position⟩
  | true => exact ⟨_, rfl, parse_literal_complete Byte.trueLiteral rest (.boolean true) position⟩
  | false =>
    exact ⟨_, rfl, parse_literal_complete Byte.falseLiteral rest (.boolean false) position⟩
  | number _ number =>
    obtain ⟨start, tail, same, numeric⟩ := number_starts source number
    refine ⟨start, by simp [same], ?_⟩
    rw [number_dispatch _ _ start numeric]
    exact parse_number_complete position source rest number delimited
  | string _ decoded quoted =>
    obtain ⟨body, rfl⟩ := text_starts source decoded quoted
    have read := parse_string_complete position (Byte.quote :: body) decoded rest quoted
    refine ⟨_, rfl, ?_⟩
    rw [parseByFirst, if_neg (by decide), if_neg (by decide), if_pos rfl, read]
    rfl
  | emptyArray space blank =>
    have read := parse_array_complete levels parseElement position space rest inner []
      (elementsAccepted space [] rfl (Or.inl ⟨blank, rfl⟩))
    refine ⟨_, rfl, ?_⟩
    rw [parseByFirst, if_neg (by decide), if_pos rfl]
    simpa using read
  | array source elements separated =>
    have read := parse_array_complete levels parseElement position source rest inner elements
      (elementsAccepted source elements rfl (Or.inr separated))
    refine ⟨_, rfl, ?_⟩
    rw [parseByFirst, if_neg (by decide), if_pos rfl]
    simpa using read
  | emptyObject space blank =>
    have read := parse_object_complete levels parseElement position space rest inner [] (by simp)
      (membersAccepted space [] rfl (Or.inl ⟨blank, rfl⟩))
    exact ⟨_, rfl, by simpa [parseByFirst] using read⟩
  | object source members separated =>
    have read := parse_object_complete levels parseElement position source rest inner members
      (own members rfl) (membersAccepted source members rfl (Or.inr separated))
    exact ⟨_, rfl, by simpa [parseByFirst] using read⟩

end

/-- The parser reads an accepted value at every depth: the induction is on the levels left. -/
theorem parse_value_complete (levels : Nat) : ValueComplete (parseValue levels) levels := by
  induction levels with
  | zero =>
    intro _ _ _ value _ _ accepted
    exact absurd accepted.2.2 (JsonValue.nested_below_zero value)
  | succ levels ih =>
    intro position before source value rest blank accepted delimited
    obtain ⟨first, head, read⟩ := parse_first_complete levels _ (position + before.length) source
      rest ih value accepted delimited
    obtain ⟨start, others, text, visible, _, _⟩ := value_starts source value accepted.1
    have skipped := skip_whitespace_stop position before (source ++ rest) blank
      (by rw [text]; exact continues_cons _ _ _ visible)
    have present : (source ++ rest).head? = some first := by
      rw [text] at head ⊢
      exact head
    rw [List.append_assoc]
    simp only [parseValue, skipped, present, read, List.length_append, Nat.add_assoc]

/-- `parse_json` succeeds exactly on the well-formed UTF-8 texts of the JSON grammar without
repeated member names whose values lie in at most `maximum_depth` containers, and it returns the
value the text denotes. -/
theorem parse_json_exact (input : List UInt8) (value : JsonValue) :
    parseJson input = .ok value ↔
      WellFormedUtf8 input ∧ JsonText input value ∧ value.UniqueNames ∧
        value.NestedWithin maximumDepth := by
  rw [JsonValue.nested_within_iff]
  constructor
  · intro parsed
    unfold parseJson at parsed
    split at parsed
    next => exact absurd parsed (by simp)
    next valid =>
      have formed : WellFormedUtf8 input :=
        (is_valid_utf8_correct input).mp (by simpa using valid)
      split at parsed
      next => exact absurd parsed (by simp)
      next result c read =>
        obtain ⟨before, source, blank, ⟨rule, unique, nested⟩, consumed⟩ :=
          parse_value_sound _ _ result c formed read
        obtain ⟨after, spaceAfter, skipped⟩ := skip_whitespace_consumed c
        dsimp only at parsed
        split at parsed
        next ended =>
          obtain rfl := Except.ok.inj parsed
          refine ⟨formed, ?_, unique, nested⟩
          have whole : input = before ++ source ++ c.rest := consumed.text
          rw [whole, skipped.text, ended, List.append_nil]
          exact Padded.mk before source after result blank spaceAfter rule
        next => exact absurd parsed (by simp)
  · rintro ⟨formed, text, unique, nested⟩
    have valid := (is_valid_utf8_correct input).mpr formed
    obtain ⟨before, source, after, value, blank, spaceAfter, rule⟩ := text
    have delimited := whitespace_delimits after [] spaceAfter (by simp [Continues])
    rw [List.append_nil] at delimited
    have read := parse_value_complete (maximumDepth + 1) 0 before source value after blank
      ⟨rule, unique, nested⟩ delimited
    have skipped := skip_whitespace_stop (0 + (before ++ source).length) after [] spaceAfter
      (by simp [Continues])
    rw [List.append_nil] at skipped
    simp only [parseJson, valid, Bool.true_eq_false, if_false, read, skipped, if_true]

end MarketForge.Model
