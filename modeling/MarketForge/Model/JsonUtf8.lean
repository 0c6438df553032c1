import MarketForge.Model.JsonSound

/-!
# JSON texts are UTF-8

What the grammar derives is well formed: strings are made of encoded scalar values, everything
else is ASCII.
-/
namespace MarketForge.Model

theorem well_formed_small (source : List UInt8) (small : ∀ byte ∈ source, byte ≤ 0x7f) :
    WellFormedUtf8 source := by
  induction source with
  | nil => exact well_formed_nil
  | cons byte others ih =>
    have bound : byte.toNat ≤ 0x7f := UInt8.le_iff_toNat_le.mp (small byte (by simp))
    have formed := well_formed_cons byte.toNat others (by simp only [Scalar]; omega)
      (ih fun other listed => small other (by simp [listed]))
    rwa [append_utf8_ascii _ bound, UInt8.ofNat_toNat] at formed

theorem well_formed_byte (byte : UInt8) (rest : List UInt8) (small : byte ≤ 0x7f)
    (formed : WellFormedUtf8 rest) : WellFormedUtf8 (byte :: rest) :=
  well_formed_append [byte] rest (well_formed_small [byte] (by simpa using small)) formed

theorem whitespace_utf8 (source : List UInt8) (blank : Whitespace source) :
    WellFormedUtf8 source := by
  refine well_formed_small source fun byte listed => ?_
  rcases blank byte listed with rfl | rfl | rfl | rfl <;> decide

private theorem digit_small (byte : UInt8) (digit : Digit byte) : byte ≤ 0x7f :=
  UInt8.le_trans digit.2 (by decide)

private theorem digits_small (source : List UInt8) (digits : ∀ byte ∈ source, Digit byte) :
    ∀ byte ∈ source, byte ≤ 0x7f := fun byte listed => digit_small byte (digits byte listed)

theorem number_utf8 (source : List UInt8) (number : Number source) : WellFormedUtf8 source := by
  obtain ⟨sign, integer, fraction, exponent, signed, whole, decimals, scale⟩ := number
  have signFormed : WellFormedUtf8 sign := by
    rcases signed with rfl | rfl
    · exact well_formed_nil
    · exact well_formed_small _ (by decide +kernel)
  have integerFormed : WellFormedUtf8 integer := by
    cases whole with
    | zero => exact well_formed_small _ (by decide +kernel)
    | positive first others digit _ digits =>
      exact well_formed_byte first others (digit_small first digit)
        (well_formed_small others (digits_small others digits))
  have fractionFormed : WellFormedUtf8 fraction := by
    cases decimals with
    | absent => exact well_formed_nil
    | present digits several =>
      exact well_formed_byte _ digits (by decide)
        (well_formed_small digits (digits_small digits several.2))
  have exponentFormed : WellFormedUtf8 exponent := by
    cases scale with
    | absent => exact well_formed_nil
    | unsigned mark digits letter several =>
      exact well_formed_byte mark digits (by rcases letter with rfl | rfl <;> decide)
        (well_formed_small digits (digits_small digits several.2))
    | signed mark sign digits letter either several =>
      refine well_formed_byte mark _ (by rcases letter with rfl | rfl <;> decide) ?_
      exact well_formed_byte sign digits (by rcases either with rfl | rfl <;> decide)
        (well_formed_small digits (digits_small digits several.2))
  exact well_formed_append _ _ (well_formed_append _ _
    (well_formed_append _ _ signFormed integerFormed) fractionFormed) exponentFormed

theorem character_utf8 (source decoded : List UInt8) (character : Character source decoded) :
    WellFormedUtf8 source := by
  cases character with
  | unescaped codePoint scalar => exact well_formed_encoded codePoint scalar
  | short letter byte listed =>
    have table : (shortEscapes.all fun entry => decide (entry.1 ≤ 0x7f)) = true := by decide
    have small := of_decide_eq_true (List.all_eq_true.mp table _ listed)
    exact well_formed_byte _ _ (by decide) (well_formed_byte letter [] small well_formed_nil)
  | unicode digits codePoint quad =>
    refine well_formed_byte _ _ (by decide) (well_formed_byte _ _ (by decide) ?_)
    exact well_formed_small digits (hex_quad_ascii digits codePoint quad)
  | pair first second high low firstQuad secondQuad =>
    refine well_formed_byte _ _ (by decide) (well_formed_byte _ _ (by decide) ?_)
    refine well_formed_append first _ (well_formed_small first (hex_quad_ascii _ _ firstQuad)) ?_
    refine well_formed_byte _ _ (by decide) (well_formed_byte _ _ (by decide) ?_)
    exact well_formed_small second (hex_quad_ascii _ _ secondQuad)

theorem text_utf8 (source decoded : List UInt8) (text : Text source decoded) :
    WellFormedUtf8 source := by
  obtain ⟨body, decoded, characters⟩ := text
  have formed : WellFormedUtf8 body := by
    induction characters with
    | nil => exact well_formed_nil
    | cons source decoded others rest character _ ih =>
      exact well_formed_append source others (character_utf8 source decoded character) ih
  refine well_formed_byte _ _ (by decide) ?_
  exact well_formed_append body _ formed (well_formed_small _ (by decide +kernel))

section

variable {α : Type} {item : List UInt8 → α → Prop}

theorem padded_utf8 (each : ∀ source value, item source value → WellFormedUtf8 source)
    (source : List UInt8) (value : α) (padded : Padded item source value) :
    WellFormedUtf8 source := by
  obtain ⟨before, source, after, value, spaceBefore, spaceAfter, denotes⟩ := padded
  exact well_formed_append _ _
    (well_formed_append _ _ (whitespace_utf8 before spaceBefore) (each source value denotes))
    (whitespace_utf8 after spaceAfter)

theorem contents_utf8 (each : ∀ source value, item source value → WellFormedUtf8 source)
    (source : List UInt8) (values : List α) (contents : Contents item source values) :
    WellFormedUtf8 source := by
  rcases contents with ⟨blank, _⟩ | separated
  · exact whitespace_utf8 source blank
  · induction separated with
    | last source value padded => exact padded_utf8 each source value padded
    | more source others value values padded _ ih =>
      exact well_formed_append source _ (padded_utf8 each source value padded)
        (well_formed_byte _ others (by decide) ih)

end

theorem member_utf8 {value : List UInt8 → JsonValue → Prop}
    (each : ∀ source root, value source root → WellFormedUtf8 source) (source : List UInt8)
    (member : List UInt8 × JsonValue) (rule : Member value source member) :
    WellFormedUtf8 source := by
  obtain ⟨name, key, before, after, source, member, text, spaceBefore, spaceAfter, denotes⟩ := rule
  refine well_formed_append _ _ (well_formed_append _ _ (well_formed_append _ _
    (text_utf8 name key text) (whitespace_utf8 before spaceBefore)) ?_) (each source member denotes)
  exact well_formed_byte _ after (by decide) (whitespace_utf8 after spaceAfter)

/-- The induction is on the levels of containers. -/
theorem value_utf8 (levels : Nat) (source : List UInt8) (value : JsonValue)
    (rule : Value source value) (nested : value.NestedBelow levels) : WellFormedUtf8 source := by
  induction levels generalizing source value with
  | zero => exact absurd nested (JsonValue.nested_below_zero value)
  | succ levels ih =>
    have children := (JsonValue.nested_below_succ levels value).mp nested
    have closed : ∀ (opening close : UInt8) (body : List UInt8), opening ≤ 0x7f → close ≤ 0x7f →
        WellFormedUtf8 body → WellFormedUtf8 (opening :: body ++ [close]) := by
      intro opening close body openSmall closeSmall formed
      refine well_formed_byte opening _ openSmall (well_formed_append body _ formed ?_)
      exact well_formed_byte close [] closeSmall well_formed_nil
    cases rule with
    | null => exact well_formed_small _ (by decide +kernel)
    | true => exact well_formed_small _ (by decide +kernel)
    | false => exact well_formed_small _ (by decide +kernel)
    | number _ number => exact number_utf8 source number
    | string _ decoded text => exact text_utf8 source decoded text
    | emptyArray space blank =>
      exact closed Byte.openBracket Byte.closeBracket space (by decide) (by decide)
        (whitespace_utf8 space blank)
    | emptyObject space blank =>
      exact closed Byte.openBrace Byte.closeBrace space (by decide) (by decide)
        (whitespace_utf8 space blank)
    | array source elements separated =>
      refine closed Byte.openBracket Byte.closeBracket source (by decide) (by decide) ?_
      have bounded := (contents_and (fun source value => Value source value ∧
        value.NestedBelow levels) Value (fun value => value.NestedBelow levels)
        (fun _ _ => Iff.rfl) source elements).mpr ⟨Or.inr separated, children⟩
      exact contents_utf8 (fun source value both => ih source value both.1 both.2) source elements
        bounded
    | object source members separated =>
      refine closed Byte.openBrace Byte.closeBrace source (by decide) (by decide) ?_
      have inner : ∀ member ∈ members, member.2.NestedBelow levels := fun member listed =>
        children member.2 (List.mem_map.mpr ⟨member, listed, rfl⟩)
      have bounded := (contents_and _ (Member Value) (fun member => member.2.NestedBelow levels)
        (member_and (fun source value => Value source value ∧ value.NestedBelow levels) Value
          (fun value => value.NestedBelow levels) fun _ _ => Iff.rfl) source members).mpr
        ⟨Or.inr separated, inner⟩
      exact contents_utf8 (member_utf8 fun source value both => ih source value both.1 both.2)
        source members bounded

/-- A text of the grammar with bounded nesting is UTF-8. -/
theorem json_text_utf8 (source : List UInt8) (value : JsonValue) (text : JsonText source value)
    (levels : Nat) (nested : value.NestedBelow levels) : WellFormedUtf8 source := by
  obtain ⟨before, source, after, value, spaceBefore, spaceAfter, rule⟩ := text
  exact well_formed_append _ _ (well_formed_append _ _ (whitespace_utf8 before spaceBefore)
    (value_utf8 levels source value rule nested)) (whitespace_utf8 after spaceAfter)

end MarketForge.Model
