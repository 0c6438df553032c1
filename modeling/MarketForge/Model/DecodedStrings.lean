import MarketForge.Model.JsonUtf8
import MarketForge.Model.SafetensorsSound

/-!
# Decoded strings

Every character of the grammar decodes to one ASCII byte or to the encoding of one scalar value,
so what a string decodes to is UTF-8, however it is written. Member names and the names of
tensors are such texts.
-/
namespace MarketForge.Model

/-! ## Characters -/

private theorem hex_digit_lt (byte : UInt8) (value : Nat) (digit : HexDigit byte value) :
    value < 16 := by
  cases digit with
  | digit low high | lower low high | upper low high =>
    have bounds := And.intro (UInt8.le_iff_toNat_le.mp low) (UInt8.le_iff_toNat_le.mp high)
    simp only [Byte.zero, Byte.nine, Byte.lowerA, Byte.lowerF, Byte.upperA, Byte.upperF,
      UInt8.reduceToNat] at bounds ⊢
    omega

/-- Four digits stand for a code point of the basic plane. -/
theorem hex_quad_lt (digits : List UInt8) (value : Nat) (quad : HexQuad digits value) :
    value < 0x10000 := by
  obtain ⟨a, b, c, d, i, j, k, l, first, second, third, fourth⟩ := quad
  have high := hex_digit_lt a i first
  have next := hex_digit_lt b j second
  have middle := hex_digit_lt c k third
  have low := hex_digit_lt d l fourth
  omega

theorem surrogate_pair_scalar (high low : Nat) (isHigh : HighSurrogate high)
    (isLow : LowSurrogate low) : Scalar (0x10000 + (high - 0xd800) * 0x400 + (low - 0xdc00)) := by
  obtain ⟨highFrom, highTo⟩ := isHigh
  obtain ⟨lowFrom, lowTo⟩ := isLow
  refine ⟨?_, ?_⟩ <;> omega

theorem character_decodes (source decoded : List UInt8) (character : Character source decoded) :
    WellFormedUtf8 decoded := by
  cases character with
  | unescaped codePoint scalar => exact well_formed_encoded codePoint scalar
  | short letter byte listed =>
    have table : (shortEscapes.all fun entry => decide (entry.2 ≤ 0x7f)) = true := by decide
    have small := of_decide_eq_true (List.all_eq_true.mp table _ listed)
    exact well_formed_byte byte [] small well_formed_nil
  | unicode digits codePoint quad noHigh noLow =>
    -- outside both surrogate ranges, what four digits stand for is a scalar value
    have bounded := hex_quad_lt digits codePoint quad
    refine well_formed_encoded codePoint ⟨by omega, ?_⟩
    simp only [HighSurrogate, LowSurrogate] at noHigh noLow
    omega
  | pair first second high low _ _ isHigh isLow =>
    exact well_formed_encoded _ (surrogate_pair_scalar high low isHigh isLow)

theorem text_decodes (source decoded : List UInt8) (text : Text source decoded) :
    WellFormedUtf8 decoded := by
  obtain ⟨body, decoded, characters⟩ := text
  induction characters with
  | nil => exact well_formed_nil
  | cons source decoded others rest character _ ih =>
    exact well_formed_append decoded rest (character_decodes source decoded character) ih

/-! ## Values -/

section

variable {α : Type} {item : List UInt8 → α → Prop}

/-- Every item of a container has a source text of its own. -/
theorem separated_item (source : List UInt8) (values : List α)
    (separated : Separated (Padded item) source values) :
    ∀ value ∈ values, ∃ part, item part value := by
  induction separated with
  | last source value padded =>
    intro other listed
    obtain rfl := List.mem_singleton.mp listed
    obtain ⟨_, part, _, _, _, _, denotes⟩ := padded
    exact ⟨part, denotes⟩
  | more source others value values padded _ ih =>
    intro other listed
    rcases List.mem_cons.mp listed with rfl | behind
    · obtain ⟨_, part, _, _, _, _, denotes⟩ := padded
      exact ⟨part, denotes⟩
    · exact ih other behind

end

theorem value_members (source : List UInt8) (members : List (List UInt8 × JsonValue))
    (rule : Value source (.object members)) :
    ∀ member ∈ members, ∃ part, Member Value part member := by
  cases rule with
  | emptyObject => simp
  | object source _ separated => exact separated_item source members separated

theorem value_children (source : List UInt8) (root : JsonValue) (rule : Value source root) :
    ∀ child ∈ root.children, ∃ part, Value part child := by
  cases root with
  | array elements =>
    cases rule with
    | emptyArray => simp [JsonValue.children]
    | array source _ separated => exact separated_item source elements separated
  | object members =>
    intro child listed
    obtain ⟨member, present, rfl⟩ := List.mem_map.mp listed
    obtain ⟨_, _, _, _, _, part, _, _, _, _, denotes⟩ := value_members source members rule member
      present
    exact ⟨part, denotes⟩
  | null | boolean | number | string => simp [JsonValue.children]

/-- A value anywhere inside one that a text denotes is denoted by a part of its own. -/
theorem value_inside (depth : Nat) (root value : JsonValue)
    (inside : JsonValue.Inside depth root value) (source : List UInt8)
    (rule : Value source root) : ∃ part, Value part value := by
  induction inside generalizing source with
  | here root => exact ⟨source, rule⟩
  | deeper depth root child value listed _ ih =>
    obtain ⟨part, denotes⟩ := value_children source root rule child listed
    exact ih part denotes

/-- Every text in the value is UTF-8: its strings and the names of its members, at any depth. -/
structure JsonValue.TextsValid (root : JsonValue) : Prop where
  strings : ∀ depth text, Inside depth root (.string text) → isValidUtf8 text = true
  keys : ∀ depth members, Inside depth root (.object members) →
    ∀ member ∈ members, isValidUtf8 member.1 = true

theorem parse_json_texts (input : List UInt8) (value : JsonValue)
    (parsed : parseJson input = .ok value) : value.TextsValid := by
  obtain ⟨_, ⟨_, source, _, value, _, _, rule⟩, _⟩ := (parse_json_exact input value).mp parsed
  constructor
  · intro depth text inside
    obtain ⟨part, denotes⟩ := value_inside depth value _ inside source rule
    cases denotes with
    | string _ _ quoted => exact (is_valid_utf8_correct text).mpr (text_decodes part text quoted)
  · intro depth members inside member listed
    obtain ⟨part, denotes⟩ := value_inside depth value _ inside source rule
    obtain ⟨_, name, key, _, _, _, _, quoted⟩ := value_members part members denotes member listed
    exact (is_valid_utf8_correct key).mpr (text_decodes name key quoted)

/-! ## Tensor names -/

theorem parse_metadata_names (bytes : ByteSpan) (maximumHeaderBytes : UInt64)
    (metadata : SafeTensorMetadata)
    (accepted : parseSafetensorsMetadata bytes maximumHeaderBytes = .ok metadata) :
    ∀ record ∈ metadata.records, isValidUtf8 record.name = true := by
  obtain ⟨members, file⟩ := (parse_metadata_iff _ _ _).mp accepted
  obtain ⟨added, listed, names, _⟩ := parse_records_ok _ members [] _ file.records
  rw [List.nil_append] at listed
  subst listed
  have texts := parse_json_texts _ _ file.json
  intro record present
  -- the name of a record is the name of a member of the header
  have named := names.subset (List.mem_map.mpr ⟨record, present, rfl⟩)
  obtain ⟨member, inHeader, same⟩ := List.mem_map.mp named
  rw [← same]
  exact texts.keys 0 members (JsonValue.Inside.here _) member inHeader

/-- Every string and every member name that `parse_json` returns is UTF-8, and so are the names
of the tensors of an accepted safetensors file. -/
theorem decoded_strings_valid :
    (∀ input value, parseJson input = .ok value → value.TextsValid) ∧
      ∀ bytes maximumHeaderBytes metadata,
        parseSafetensorsMetadata bytes maximumHeaderBytes = .ok metadata →
          ∀ record ∈ metadata.records, isValidUtf8 record.name = true :=
  ⟨parse_json_texts, parse_metadata_names⟩

/-- An object with an escaped name; its text has a raw character of two bytes, a short escape and
a surrogate pair. -/
def escapedText : List UInt8 :=
  ascii "\x7b\"\\u00e9\":\"" ++ [0xc3, 0xa9] ++ ascii "\\t\\ud83d\\ude00\"\x7d"

def escapedKey : List UInt8 := [0xc3, 0xa9]

def unescapedText : List UInt8 := [0xc3, 0xa9, 0x09, 0xf0, 0x9f, 0x98, 0x80]

/-- The name and the text of an object with a single text. -/
def soleText : Result JsonValue → Option (List UInt8 × List UInt8)
  | .ok (.object [(key, .string text)]) => some (key, text)
  | _ => none

theorem sole_text_read {outcome : Result JsonValue} {key text : List UInt8}
    (read : soleText outcome = some (key, text)) :
    outcome = .ok (.object [(key, .string text)]) := by
  unfold soleText at read
  split at read
  next =>
    obtain ⟨rfl, rfl⟩ := Prod.mk.inj (Option.some.inj read)
    rfl
  next => cases read

theorem decoded_strings_valid_escaped :
    (JsonValue.object [(escapedKey, .string unescapedText)]).TextsValid ∧
      ∀ record ∈ twoTensorRecords.records, isValidUtf8 record.name = true :=
  ⟨decoded_strings_valid.1 escapedText _ (sole_text_read (by decide +kernel)),
    decoded_strings_valid.2 twoTensors 4096 twoTensorRecords (by decide +kernel)⟩

end MarketForge.Model
