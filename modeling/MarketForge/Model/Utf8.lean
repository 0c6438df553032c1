import Mathlib.Data.Nat.Bitwise

/-!
# UTF-8

The encoder `append_utf8` and the validator `is_valid_utf8` of the JSON parser. The validator
accepts exactly the concatenations of encoded Unicode scalar values, and it reads one character
off such a text wherever a character starts.
-/
namespace MarketForge.Model

/-- The bytes the encoder appends for one code point. -/
def appendUtf8 (codePoint : Nat) : List UInt8 :=
  if codePoint ≤ 0x7f then [UInt8.ofNat codePoint]
  else if codePoint ≤ 0x7ff then
    [UInt8.ofNat (0xc0 ||| codePoint >>> 6), UInt8.ofNat (0x80 ||| (codePoint &&& 0x3f))]
  else if codePoint ≤ 0xffff then
    [UInt8.ofNat (0xe0 ||| codePoint >>> 12),
      UInt8.ofNat (0x80 ||| (codePoint >>> 6 &&& 0x3f)),
      UInt8.ofNat (0x80 ||| (codePoint &&& 0x3f))]
  else
    [UInt8.ofNat (0xf0 ||| codePoint >>> 18),
      UInt8.ofNat (0x80 ||| (codePoint >>> 12 &&& 0x3f)),
      UInt8.ofNat (0x80 ||| (codePoint >>> 6 &&& 0x3f)),
      UInt8.ofNat (0x80 ||| (codePoint &&& 0x3f))]

/-- The number of continuation bytes a lead byte above `0x7f` announces, and its own bits. -/
def utf8Lead (first : UInt8) : Option (Nat × Nat) :=
  if 0xc2 ≤ first ∧ first ≤ 0xdf then some (1, first.toNat &&& 0x1f)
  else if 0xe0 ≤ first ∧ first ≤ 0xef then some (2, first.toNat &&& 0x0f)
  else if 0xf0 ≤ first ∧ first ≤ 0xf4 then some (3, first.toNat &&& 0x07)
  else none

/-- The loop over the continuation bytes of one character. -/
def utf8Continue : Nat → Nat → List UInt8 → Option (Nat × List UInt8)
  | 0, codePoint, rest => some (codePoint, rest)
  | _ + 1, _, [] => none
  | count + 1, codePoint, next :: rest =>
    if next &&& 0xc0 ≠ 0x80 then none
    else utf8Continue count (codePoint <<< 6 ||| (next.toNat &&& 0x3f)) rest

/-- Overlong forms, surrogates and values past the last code point. -/
def utf8OutOfRange (count codePoint : Nat) : Bool :=
  (decide (count = 2) && (decide (codePoint < 0x800)
    || (decide (0xd800 ≤ codePoint) && decide (codePoint ≤ 0xdfff))))
  || (decide (count = 3) && (decide (codePoint < 0x10000) || decide (0x10ffff < codePoint)))

/-- One turn of the validator: the character at the front of the text and what follows it. -/
def utf8Character (first : UInt8) (rest : List UInt8) : Option (Nat × List UInt8) :=
  if first ≤ 0x7f then some (first.toNat, rest)
  else
    match utf8Lead first with
    | none => none
    | some (count, bits) =>
      if rest.length < count then none
      else
        match utf8Continue count bits rest with
        | none => none
        | some (codePoint, after) =>
          if utf8OutOfRange count codePoint then none else some (codePoint, after)

/-- The loop of the validator; every turn takes at least one byte. -/
def utf8Loop : Nat → List UInt8 → Bool
  | _, [] => true
  | 0, _ :: _ => false
  | fuel + 1, first :: rest =>
    match utf8Character first rest with
    | none => false
    | some (_, after) => utf8Loop fuel after

def isValidUtf8 (input : List UInt8) : Bool := utf8Loop input.length input

/-- Unicode scalar values: the code points that are not surrogates. -/
def Scalar (codePoint : Nat) : Prop :=
  codePoint ≤ 0x10ffff ∧ ¬(0xd800 ≤ codePoint ∧ codePoint ≤ 0xdfff)

instance (codePoint : Nat) : Decidable (Scalar codePoint) :=
  inferInstanceAs (Decidable (codePoint ≤ 0x10ffff ∧ ¬(0xd800 ≤ codePoint ∧ codePoint ≤ 0xdfff)))

/-- The text of a list of characters. -/
def encodeUtf8 (codePoints : List Nat) : List UInt8 := codePoints.flatMap appendUtf8

/-- A text that encodes some list of scalar values. -/
def WellFormedUtf8 (input : List UInt8) : Prop :=
  ∃ codePoints, (∀ codePoint ∈ codePoints, Scalar codePoint) ∧ input = encodeUtf8 codePoints

/-! ## The bit operations as arithmetic -/

private theorem lead_bits (base high bits : Nat) (small : bits < 2 ^ high) :
    2 ^ high * base ||| bits = 2 ^ high * base + bits :=
  (Nat.two_pow_add_eq_or_of_lt small base).symm

/-- What the encoder appends, with the masks and shifts read as remainders and quotients. -/
theorem append_utf8_eq (codePoint : Nat) (bounded : codePoint ≤ 0x10ffff) :
    appendUtf8 codePoint =
      if codePoint ≤ 0x7f then [UInt8.ofNat codePoint]
      else if codePoint ≤ 0x7ff then
        [UInt8.ofNat (0xc0 + codePoint / 64), UInt8.ofNat (0x80 + codePoint % 64)]
      else if codePoint ≤ 0xffff then
        [UInt8.ofNat (0xe0 + codePoint / 4096), UInt8.ofNat (0x80 + codePoint / 64 % 64),
          UInt8.ofNat (0x80 + codePoint % 64)]
      else
        [UInt8.ofNat (0xf0 + codePoint / 262144), UInt8.ofNat (0x80 + codePoint / 4096 % 64),
          UInt8.ofNat (0x80 + codePoint / 64 % 64), UInt8.ofNat (0x80 + codePoint % 64)] := by
  have mask : ∀ n, n &&& 0x3f = n % 64 := fun n => Nat.and_two_pow_sub_one_eq_mod n 6
  have tail : ∀ n, 0x80 ||| n % 64 = 0x80 + n % 64 := fun n => lead_bits 1 7 (n % 64) (by omega)
  unfold appendUtf8
  simp only [mask, tail, Nat.shiftRight_eq_div_pow]
  split
  · rfl
  split
  next short =>
    have lead := lead_bits 3 6 (codePoint / 64) (by omega)
    simp only [show (2 : Nat) ^ 6 * 3 = 0xc0 from rfl] at lead
    simp [lead]
  next =>
    split
    next =>
      have lead := lead_bits 7 5 (codePoint / 4096) (by omega)
      simp only [show (2 : Nat) ^ 5 * 7 = 0xe0 from rfl] at lead
      simp [lead]
    next =>
      have lead := lead_bits 15 4 (codePoint / 262144) (by omega)
      simp only [show (2 : Nat) ^ 4 * 15 = 0xf0 from rfl] at lead
      simp [lead]

private theorem continuation_byte (next : UInt8) :
    next &&& 0xc0 = 0x80 ↔ 0x80 ≤ next.toNat ∧ next.toNat < 0xc0 := by
  have table : ∀ n < 256, (UInt8.ofNat n &&& 0xc0 = 0x80) ↔ (0x80 ≤ n ∧ n < 0xc0) := by
    decide +kernel
  simpa using table next.toNat next.toNat_lt

/-- A continuation byte adds its six low bits. -/
private theorem utf8_continue_succ (count codePoint : Nat) (rest : List UInt8)
    (result : Nat × List UInt8) :
    utf8Continue (count + 1) codePoint rest = some result ↔
      ∃ next tail, rest = next :: tail ∧ 0x80 ≤ next.toNat ∧ next.toNat < 0xc0 ∧
        utf8Continue count (codePoint * 64 + (next.toNat - 0x80)) tail = some result := by
  cases rest with
  | nil => simp [utf8Continue]
  | cons next tail =>
    have bits : next.toNat &&& 0x3f = next.toNat % 64 :=
      Nat.and_two_pow_sub_one_eq_mod next.toNat 6
    have joined : codePoint <<< 6 ||| next.toNat % 64 = codePoint * 64 + next.toNat % 64 := by
      rw [← Nat.shiftLeft_add_eq_or_of_lt (by omega), Nat.shiftLeft_eq]
    simp only [utf8Continue, bits, joined, ne_eq, ite_not]
    constructor
    · intro continued
      split at continued
      next marked =>
        obtain ⟨lower, upper⟩ := (continuation_byte next).mp marked
        refine ⟨next, tail, rfl, lower, upper, ?_⟩
        rwa [show next.toNat - 0x80 = next.toNat % 64 by omega]
      next => exact absurd continued (by simp)
    · rintro ⟨next', tail', same, lower, upper, continued⟩
      obtain ⟨rfl, rfl⟩ := List.cons.inj same
      rw [if_pos ((continuation_byte next).mpr ⟨lower, upper⟩)]
      rwa [show next.toNat % 64 = next.toNat - 0x80 by omega]

/-- The three classes of lead bytes, with their own bits as a difference. -/
private theorem utf8_lead_eq (first : UInt8) (count bits : Nat) :
    utf8Lead first = some (count, bits) ↔
      (0xc2 ≤ first.toNat ∧ first.toNat ≤ 0xdf ∧ count = 1 ∧ bits = first.toNat - 0xc0) ∨
      (0xe0 ≤ first.toNat ∧ first.toNat ≤ 0xef ∧ count = 2 ∧ bits = first.toNat - 0xe0) ∨
      (0xf0 ≤ first.toNat ∧ first.toNat ≤ 0xf4 ∧ count = 3 ∧ bits = first.toNat - 0xf0) := by
  have five : first.toNat &&& 0x1f = first.toNat % 32 :=
    Nat.and_two_pow_sub_one_eq_mod first.toNat 5
  have four : first.toNat &&& 0x0f = first.toNat % 16 :=
    Nat.and_two_pow_sub_one_eq_mod first.toNat 4
  have three : first.toNat &&& 0x07 = first.toNat % 8 :=
    Nat.and_two_pow_sub_one_eq_mod first.toNat 3
  simp only [utf8Lead, five, four, three, UInt8.le_iff_toNat_le, UInt8.reduceToNat]
  split
  next two => simp only [Option.some.injEq, Prod.mk.injEq]; omega
  next =>
    split
    next => simp only [Option.some.injEq, Prod.mk.injEq]; omega
    next =>
      split
      next => simp only [Option.some.injEq, Prod.mk.injEq]; omega
      next => simp only [reduceCtorEq, false_iff]; omega

/-! ## One character -/

private theorem byte_eq (byte : UInt8) (n : Nat) (value : byte.toNat = n) :
    byte = UInt8.ofNat n := by
  subst value
  exact (UInt8.ofNat_toNat).symm

/-- Whatever the validator reads is an encoded scalar value. -/
theorem utf8_character_sound (first : UInt8) (rest : List UInt8) (codePoint : Nat)
    (after : List UInt8) (read : utf8Character first rest = some (codePoint, after)) :
    Scalar codePoint ∧ first :: rest = appendUtf8 codePoint ++ after := by
  unfold utf8Character at read
  split at read
  next ascii =>
    simp only [Option.some.injEq, Prod.mk.injEq] at read
    obtain ⟨rfl, rfl⟩ := read
    simp only [UInt8.le_iff_toNat_le, UInt8.reduceToNat] at ascii
    refine ⟨⟨by omega, by omega⟩, ?_⟩
    rw [append_utf8_eq _ (by omega), if_pos ascii]
    simp
  next =>
    split at read
    next => exact absurd read (by simp)
    next count bits lead =>
      split at read
      next => exact absurd read (by simp)
      next =>
        split at read
        next => exact absurd read (by simp)
        next value tail continued =>
          split at read
          next => exact absurd read (by simp)
          next inRange =>
            simp only [Option.some.injEq, Prod.mk.injEq] at read
            obtain ⟨rfl, rfl⟩ := read
            -- the three lead classes fix how many continuation bytes follow
            rcases (utf8_lead_eq first count bits).mp lead with
              ⟨low, high, one, own⟩ | ⟨low, high, two, own⟩ | ⟨low, high, three, own⟩
            · rw [one, own] at continued
              obtain ⟨a, t, rfl, aLow, aHigh, rest⟩ := (utf8_continue_succ _ _ _ _).mp continued
              simp only [utf8Continue, Option.some.injEq, Prod.mk.injEq] at rest
              obtain ⟨rfl, rfl⟩ := rest
              refine ⟨⟨by omega, by omega⟩, ?_⟩
              rw [append_utf8_eq _ (by omega), if_neg (by omega), if_pos (by omega)]
              rw [← byte_eq first _ (by omega), ← byte_eq a _ (by omega)]
              rfl
            · rw [two, own] at continued
              rw [two] at inRange
              obtain ⟨a, t, rfl, aLow, aHigh, rest⟩ := (utf8_continue_succ _ _ _ _).mp continued
              obtain ⟨b, t, rfl, bLow, bHigh, rest⟩ := (utf8_continue_succ _ _ _ _).mp rest
              simp only [utf8Continue, Option.some.injEq, Prod.mk.injEq] at rest
              obtain ⟨rfl, rfl⟩ := rest
              simp [utf8OutOfRange] at inRange
              refine ⟨⟨by omega, by omega⟩, ?_⟩
              rw [append_utf8_eq _ (by omega), if_neg (by omega), if_neg (by omega),
                if_pos (by omega)]
              rw [← byte_eq first _ (by omega), ← byte_eq a _ (by omega), ← byte_eq b _ (by omega)]
              rfl
            · rw [three, own] at continued
              rw [three] at inRange
              obtain ⟨a, t, rfl, aLow, aHigh, rest⟩ := (utf8_continue_succ _ _ _ _).mp continued
              obtain ⟨b, t, rfl, bLow, bHigh, rest⟩ := (utf8_continue_succ _ _ _ _).mp rest
              obtain ⟨c, t, rfl, cLow, cHigh, rest⟩ := (utf8_continue_succ _ _ _ _).mp rest
              simp only [utf8Continue, Option.some.injEq, Prod.mk.injEq] at rest
              obtain ⟨rfl, rfl⟩ := rest
              simp [utf8OutOfRange] at inRange
              refine ⟨⟨by omega, by omega⟩, ?_⟩
              rw [append_utf8_eq _ (by omega), if_neg (by omega), if_neg (by omega),
                if_neg (by omega)]
              rw [← byte_eq first _ (by omega), ← byte_eq a _ (by omega), ← byte_eq b _ (by omega),
                ← byte_eq c _ (by omega)]
              rfl

private theorem utf8_lead_character (first : UInt8) (rest after : List UInt8)
    (count bits codePoint : Nat) (lead : utf8Lead first = some (count, bits))
    (continued : utf8Continue count bits rest = some (codePoint, after))
    (enough : count ≤ rest.length) (inRange : utf8OutOfRange count codePoint = false) :
    utf8Character first rest = some (codePoint, after) := by
  have high : ¬first ≤ 0x7f := by
    have classes := (utf8_lead_eq first count bits).mp lead
    simp only [UInt8.le_iff_toNat_le, UInt8.reduceToNat]
    omega
  have long : ¬rest.length < count := by omega
  simp [utf8Character, high, lead, long, continued, inRange]

/-- The validator reads every encoded scalar value back, and stops right behind it. -/
theorem utf8_character_complete (codePoint : Nat) (after : List UInt8)
    (scalar : Scalar codePoint) :
    ∃ first rest, appendUtf8 codePoint ++ after = first :: rest ∧
      utf8Character first rest = some (codePoint, after) := by
  obtain ⟨bounded, noSurrogate⟩ := scalar
  have ofNat : ∀ n < 256, (UInt8.ofNat n).toNat = n := fun n small => by
    simp [UInt8.toNat_ofNat', Nat.mod_eq_of_lt small]
  -- the four lengths of an encoding, each read back byte by byte
  rw [append_utf8_eq codePoint bounded]
  split
  next ascii =>
    refine ⟨_, _, rfl, ?_⟩
    have low : UInt8.ofNat codePoint ≤ 0x7f := by
      simp only [UInt8.le_iff_toNat_le, UInt8.reduceToNat, ofNat codePoint (by omega)]
      exact ascii
    simp [utf8Character, low, ofNat codePoint (by omega)]
  next =>
    have tail := ofNat (0x80 + codePoint % 64) (by omega)
    split
    next =>
      have head := ofNat (0xc0 + codePoint / 64) (by omega)
      refine ⟨_, _, rfl, utf8_lead_character _ _ _ 1 (codePoint / 64) _ ?_ ?_ (by simp) ?_⟩
      · apply (utf8_lead_eq _ _ _).mpr
        omega
      · apply (utf8_continue_succ _ _ _ _).mpr
        refine ⟨_, _, rfl, by omega, by omega, ?_⟩
        simp only [utf8Continue, tail, Option.some.injEq, Prod.mk.injEq]
        exact ⟨by omega, rfl⟩
      · simp [utf8OutOfRange]
    next =>
      have middle := ofNat (0x80 + codePoint / 64 % 64) (by omega)
      split
      next =>
        have head := ofNat (0xe0 + codePoint / 4096) (by omega)
        refine ⟨_, _, rfl, utf8_lead_character _ _ _ 2 (codePoint / 4096) _ ?_ ?_ (by simp) ?_⟩
        · apply (utf8_lead_eq _ _ _).mpr
          omega
        · apply (utf8_continue_succ _ _ _ _).mpr
          refine ⟨_, _, rfl, by omega, by omega, ?_⟩
          apply (utf8_continue_succ _ _ _ _).mpr
          refine ⟨_, _, rfl, by omega, by omega, ?_⟩
          simp only [utf8Continue, tail, middle, Option.some.injEq, Prod.mk.injEq]
          exact ⟨by omega, rfl⟩
        · simp [utf8OutOfRange]
          omega
      next =>
        have upper := ofNat (0x80 + codePoint / 4096 % 64) (by omega)
        have head := ofNat (0xf0 + codePoint / 262144) (by omega)
        refine ⟨_, _, rfl, utf8_lead_character _ _ _ 3 (codePoint / 262144) _ ?_ ?_ (by simp) ?_⟩
        · apply (utf8_lead_eq _ _ _).mpr
          omega
        · apply (utf8_continue_succ _ _ _ _).mpr
          refine ⟨_, _, rfl, by omega, by omega, ?_⟩
          apply (utf8_continue_succ _ _ _ _).mpr
          refine ⟨_, _, rfl, by omega, by omega, ?_⟩
          apply (utf8_continue_succ _ _ _ _).mpr
          refine ⟨_, _, rfl, by omega, by omega, ?_⟩
          simp only [utf8Continue, tail, middle, upper, Option.some.injEq, Prod.mk.injEq]
          exact ⟨by omega, rfl⟩
        · simp [utf8OutOfRange]
          omega

/-! ## Whole texts -/

/-- No character is empty. -/
theorem append_utf8_ne_nil (codePoint : Nat) : appendUtf8 codePoint ≠ [] := by
  unfold appendUtf8
  split
  · simp
  split
  · simp
  split <;> simp

theorem well_formed_nil : WellFormedUtf8 [] := ⟨[], by simp, rfl⟩

theorem well_formed_cons (codePoint : Nat) (after : List UInt8) (scalar : Scalar codePoint)
    (formed : WellFormedUtf8 after) : WellFormedUtf8 (appendUtf8 codePoint ++ after) := by
  obtain ⟨codePoints, scalars, rfl⟩ := formed
  refine ⟨codePoint :: codePoints, ?_, by simp [encodeUtf8]⟩
  simpa using ⟨scalar, scalars⟩

theorem well_formed_encoded (codePoint : Nat) (scalar : Scalar codePoint) :
    WellFormedUtf8 (appendUtf8 codePoint) := by
  have formed := well_formed_cons codePoint [] scalar well_formed_nil
  rwa [List.append_nil] at formed

theorem well_formed_append (left right : List UInt8) (formedLeft : WellFormedUtf8 left)
    (formedRight : WellFormedUtf8 right) : WellFormedUtf8 (left ++ right) := by
  obtain ⟨codePoints, scalars, rfl⟩ := formedLeft
  obtain ⟨others, otherScalars, rfl⟩ := formedRight
  refine ⟨codePoints ++ others, ?_, by simp [encodeUtf8]⟩
  intro codePoint member
  rcases List.mem_append.mp member with left | right
  · exact scalars codePoint left
  · exact otherScalars codePoint right

/-- A nonempty well-formed text starts with a character and goes on well formed. -/
theorem well_formed_character (first : UInt8) (rest : List UInt8)
    (formed : WellFormedUtf8 (first :: rest)) :
    ∃ codePoint after, utf8Character first rest = some (codePoint, after) ∧
      WellFormedUtf8 after := by
  obtain ⟨codePoints, scalars, text⟩ := formed
  cases codePoints with
  | nil => simp [encodeUtf8] at text
  | cons codePoint others =>
    have scalar := scalars codePoint (by simp)
    obtain ⟨first', rest', split, read⟩ :=
      utf8_character_complete codePoint (encodeUtf8 others) scalar
    have same : first :: rest = first' :: rest' := by
      rw [text, ← split]
      simp [encodeUtf8]
    obtain ⟨rfl, rfl⟩ := List.cons.inj same
    refine ⟨codePoint, encodeUtf8 others, read, others, ?_, rfl⟩
    exact fun other member => scalars other (by simp [member])

private theorem utf8_loop_iff (fuel : Nat) (input : List UInt8) (enough : input.length ≤ fuel) :
    utf8Loop fuel input = true ↔ WellFormedUtf8 input := by
  induction fuel generalizing input with
  | zero =>
    have empty : input = [] := List.length_eq_zero_iff.mp (by omega)
    subst empty
    simp [utf8Loop, well_formed_nil]
  | succ fuel ih =>
    cases input with
    | nil => simp [utf8Loop, well_formed_nil]
    | cons first rest =>
      simp only [utf8Loop]
      constructor
      · intro accepted
        split at accepted
        next => exact absurd accepted (by simp)
        next codePoint after read =>
          obtain ⟨scalar, text⟩ := utf8_character_sound first rest codePoint after read
          have shorter := congrArg List.length text
          have taken := List.length_pos_iff.mpr (append_utf8_ne_nil codePoint)
          simp only [List.length_cons, List.length_append] at shorter enough
          rw [text]
          apply well_formed_cons codePoint after scalar
          exact (ih after (by omega)).mp accepted
      · intro formed
        obtain ⟨codePoint, after, read, rest⟩ := well_formed_character first rest formed
        obtain ⟨_, text⟩ := utf8_character_sound first _ codePoint after read
        have shorter := congrArg List.length text
        have taken := List.length_pos_iff.mpr (append_utf8_ne_nil codePoint)
        simp only [List.length_cons, List.length_append] at shorter enough
        simp only [read]
        exact (ih after (by omega)).mpr rest

/-- The validator accepts exactly the encodings of lists of scalar values. -/
theorem is_valid_utf8_correct (input : List UInt8) :
    isValidUtf8 input = true ↔ WellFormedUtf8 input :=
  utf8_loop_iff input.length input (Nat.le_refl _)

/-! ## Characters at the front of a text -/

theorem append_utf8_ascii (codePoint : Nat) (small : codePoint ≤ 0x7f) :
    appendUtf8 codePoint = [UInt8.ofNat codePoint] := by simp [appendUtf8, small]

/-- An ASCII byte at the front is a character of its own. -/
theorem well_formed_ascii (first : UInt8) (rest : List UInt8) (ascii : first ≤ 0x7f)
    (formed : WellFormedUtf8 (first :: rest)) : WellFormedUtf8 rest := by
  obtain ⟨codePoint, after, read, wellFormed⟩ := well_formed_character first rest formed
  simp only [utf8Character, if_pos ascii, Option.some.injEq, Prod.mk.injEq] at read
  obtain ⟨_, rfl⟩ := read
  exact wellFormed

theorem well_formed_drop (ascii rest : List UInt8) (small : ∀ byte ∈ ascii, byte ≤ 0x7f)
    (formed : WellFormedUtf8 (ascii ++ rest)) : WellFormedUtf8 rest := by
  induction ascii with
  | nil => exact formed
  | cons byte others ih =>
    apply ih (fun other member => small other (by simp [member]))
    exact well_formed_ascii byte _ (small byte (by simp)) formed

/-- Every byte of a character past ASCII is past ASCII. -/
theorem append_utf8_bytes (codePoint : Nat) (bounded : codePoint ≤ 0x10ffff)
    (large : 0x7f < codePoint) (byte : UInt8) (member : byte ∈ appendUtf8 codePoint) :
    0x7f < byte.toNat := by
  rw [append_utf8_eq codePoint bounded, if_neg (by omega)] at member
  split at member
  next =>
    simp only [List.mem_cons, List.not_mem_nil, or_false] at member
    rcases member with rfl | rfl <;> simp only [UInt8.toNat_ofNat'] <;> omega
  next =>
    split at member
    next =>
      simp only [List.mem_cons, List.not_mem_nil, or_false] at member
      rcases member with rfl | rfl | rfl <;> simp only [UInt8.toNat_ofNat'] <;> omega
    next =>
      simp only [List.mem_cons, List.not_mem_nil, or_false] at member
      rcases member with rfl | rfl | rfl | rfl <;> simp only [UInt8.toNat_ofNat'] <;> omega

/-! ## Unique decoding -/

/-- Two lists of scalar values with one encoding are the same list. -/
theorem encode_utf8_injective (left right : List Nat)
    (scalars : ∀ codePoint ∈ left, Scalar codePoint)
    (others : ∀ codePoint ∈ right, Scalar codePoint)
    (same : encodeUtf8 left = encodeUtf8 right) : left = right := by
  induction left generalizing right with
  | nil =>
    cases right with
    | nil => rfl
    | cons codePoint rest =>
      have empty := (List.append_eq_nil_iff.mp same.symm).1
      exact absurd empty (append_utf8_ne_nil codePoint)
  | cons codePoint rest ih =>
    cases right with
    | nil =>
      have empty := (List.append_eq_nil_iff.mp same).1
      exact absurd empty (append_utf8_ne_nil codePoint)
    | cons other others' =>
      -- the validator reads both first characters off the same bytes
      obtain ⟨first, tail, text, read⟩ :=
        utf8_character_complete codePoint (encodeUtf8 rest) (scalars codePoint (by simp))
      obtain ⟨first', tail', text', read'⟩ :=
        utf8_character_complete other (encodeUtf8 others') (others other (by simp))
      have bytes : first :: tail = first' :: tail' := by
        rw [← text, ← text']
        exact same
      obtain ⟨rfl, rfl⟩ := List.cons.inj bytes
      have agree : (codePoint, encodeUtf8 rest) = (other, encodeUtf8 others') :=
        Option.some.inj (read.symm.trans read')
      obtain ⟨rfl, behind⟩ := Prod.mk.inj agree
      rw [ih others' (fun c member => scalars c (by simp [member]))
        (fun c member => others c (by simp [member])) behind]

/-- A text is valid exactly when it is the concatenation of encoded scalar values, and then of
one list of them only. -/
theorem is_valid_utf8_unique (input : List UInt8) :
    (isValidUtf8 input = true ↔ ∃ codePoints,
      (∀ codePoint ∈ codePoints, Scalar codePoint) ∧ input = encodeUtf8 codePoints) ∧
    (isValidUtf8 input = true ↔ ∃! codePoints,
      (∀ codePoint ∈ codePoints, Scalar codePoint) ∧ input = encodeUtf8 codePoints) := by
  have correct := is_valid_utf8_correct input
  constructor
  · exact correct
  constructor
  · intro valid
    obtain ⟨codePoints, scalars, text⟩ := correct.mp valid
    use codePoints, ⟨scalars, text⟩
    rintro others ⟨otherScalars, otherText⟩
    exact encode_utf8_injective others codePoints otherScalars scalars (otherText ▸ text)
  · intro encoded
    exact correct.mpr encoded.exists

end MarketForge.Model
