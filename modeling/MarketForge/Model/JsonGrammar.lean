import MarketForge.Model.JsonParser

/-!
# The JSON grammar

RFC 8259, with the value each text denotes: strings decode to UTF-8, numbers keep their text,
elements and members keep their order. The two conditions the parser adds to the grammar,
distinct member names and bounded nesting, are statements about the denoted value.
-/
namespace MarketForge.Model

/-- Any run of the four whitespace characters. -/
def Whitespace (source : List UInt8) : Prop :=
  ∀ byte ∈ source,
    byte = Byte.space ∨ byte = Byte.tab ∨ byte = Byte.newline ∨ byte = Byte.carriageReturn

theorem whitespace_nil : Whitespace [] := by simp [Whitespace]

theorem whitespace_append (first second : List UInt8) :
    Whitespace (first ++ second) ↔ Whitespace first ∧ Whitespace second := by
  simp [Whitespace, or_imp, forall_and]

def Digit (byte : UInt8) : Prop := Byte.zero ≤ byte ∧ byte ≤ Byte.nine

instance (byte : UInt8) : Decidable (Digit byte) :=
  inferInstanceAs (Decidable (Byte.zero ≤ byte ∧ byte ≤ Byte.nine))

/-! ## Numbers -/

/-- One digit or more. -/
def Digits (source : List UInt8) : Prop := source ≠ [] ∧ ∀ byte ∈ source, Digit byte

inductive Integer : List UInt8 → Prop where
  | zero : Integer [Byte.zero]
  | positive (first : UInt8) (others : List UInt8) (digit : Digit first)
      (nonzero : first ≠ Byte.zero) (digits : ∀ byte ∈ others, Digit byte) :
      Integer (first :: others)

inductive Fraction : List UInt8 → Prop where
  | absent : Fraction []
  | present (digits : List UInt8) (some : Digits digits) : Fraction (Byte.dot :: digits)

inductive Exponent : List UInt8 → Prop where
  | absent : Exponent []
  | unsigned (mark : UInt8) (digits : List UInt8)
      (exponent : mark = Byte.lowerE ∨ mark = Byte.upperE) (some : Digits digits) :
      Exponent (mark :: digits)
  | signed (mark sign : UInt8) (digits : List UInt8)
      (exponent : mark = Byte.lowerE ∨ mark = Byte.upperE)
      (either : sign = Byte.plus ∨ sign = Byte.minus) (some : Digits digits) :
      Exponent (mark :: sign :: digits)

inductive Number : List UInt8 → Prop where
  | mk (sign integer fraction exponent : List UInt8) (signed : sign = [] ∨ sign = [Byte.minus])
      (whole : Integer integer) (decimals : Fraction fraction) (scale : Exponent exponent) :
      Number (sign ++ integer ++ fraction ++ exponent)

/-! ## Strings -/

inductive HexDigit : UInt8 → Nat → Prop where
  | digit (byte : UInt8) (low : Byte.zero ≤ byte) (high : byte ≤ Byte.nine) :
      HexDigit byte (byte.toNat - Byte.zero.toNat)
  | lower (byte : UInt8) (low : Byte.lowerA ≤ byte) (high : byte ≤ Byte.lowerF) :
      HexDigit byte (byte.toNat - Byte.lowerA.toNat + 10)
  | upper (byte : UInt8) (low : Byte.upperA ≤ byte) (high : byte ≤ Byte.upperF) :
      HexDigit byte (byte.toNat - Byte.upperA.toNat + 10)

/-- Four hexadecimal digits, the most significant first. -/
inductive HexQuad : List UInt8 → Nat → Prop where
  | mk (a b c d : UInt8) (i j k l : Nat) (first : HexDigit a i) (second : HexDigit b j)
      (third : HexDigit c k) (fourth : HexDigit d l) :
      HexQuad [a, b, c, d] (((i * 16 + j) * 16 + k) * 16 + l)

/-- The letters of the short escapes, each with the byte it stands for. -/
def shortEscapes : List (UInt8 × UInt8) :=
  [(Byte.quote, Byte.quote), (Byte.backslash, Byte.backslash), (Byte.slash, Byte.slash),
    (Byte.lowerB, Byte.backspace), (Byte.lowerF, Byte.formFeed), (Byte.lowerN, Byte.newline),
    (Byte.lowerR, Byte.carriageReturn), (Byte.lowerT, Byte.tab)]

def HighSurrogate (codePoint : Nat) : Prop := 0xd800 ≤ codePoint ∧ codePoint ≤ 0xdbff

def LowSurrogate (codePoint : Nat) : Prop := 0xdc00 ≤ codePoint ∧ codePoint ≤ 0xdfff

/-- One character of a string, and its UTF-8 encoding. A `\u` escape of a surrogate only occurs
as a high one right before a low one. -/
inductive Character : List UInt8 → List UInt8 → Prop where
  | unescaped (codePoint : Nat) (scalar : Scalar codePoint) (printable : 0x20 ≤ codePoint)
      (noQuote : codePoint ≠ Byte.quote.toNat) (noBackslash : codePoint ≠ Byte.backslash.toNat) :
      Character (appendUtf8 codePoint) (appendUtf8 codePoint)
  | short (letter byte : UInt8) (listed : (letter, byte) ∈ shortEscapes) :
      Character [Byte.backslash, letter] [byte]
  | unicode (digits : List UInt8) (codePoint : Nat) (quad : HexQuad digits codePoint)
      (noHigh : ¬HighSurrogate codePoint) (noLow : ¬LowSurrogate codePoint) :
      Character (Byte.backslash :: Byte.lowerU :: digits) (appendUtf8 codePoint)
  | pair (first second : List UInt8) (high low : Nat) (firstQuad : HexQuad first high)
      (secondQuad : HexQuad second low) (isHigh : HighSurrogate high) (isLow : LowSurrogate low) :
      Character
        (Byte.backslash :: Byte.lowerU :: first ++ Byte.backslash :: Byte.lowerU :: second)
        (appendUtf8 (0x10000 + (high - 0xd800) * 0x400 + (low - 0xdc00)))

inductive Characters : List UInt8 → List UInt8 → Prop where
  | nil : Characters [] []
  | cons (source decoded others rest : List UInt8) (character : Character source decoded)
      (characters : Characters others rest) : Characters (source ++ others) (decoded ++ rest)

/-- A string between its quotation marks, and its decoded text. -/
inductive Text : List UInt8 → List UInt8 → Prop where
  | mk (body decoded : List UInt8) (characters : Characters body decoded) :
      Text (Byte.quote :: body ++ [Byte.quote]) decoded

/-! ## Values -/

section

variable {α : Type}

/-- An item with optional whitespace on both sides. -/
inductive Padded (item : List UInt8 → α → Prop) : List UInt8 → α → Prop where
  | mk (before source after : List UInt8) (value : α) (spaceBefore : Whitespace before)
      (spaceAfter : Whitespace after) (denotes : item source value) :
      Padded item (before ++ source ++ after) value

/-- One item or more, with commas between them. -/
inductive Separated (item : List UInt8 → α → Prop) : List UInt8 → List α → Prop where
  | last (source : List UInt8) (value : α) (denotes : item source value) :
      Separated item source [value]
  | more (source others : List UInt8) (value : α) (values : List α) (denotes : item source value)
      (separated : Separated item others values) :
      Separated item (source ++ Byte.comma :: others) (value :: values)

/-- What stands between the brackets of a container. -/
def Contents (item : List UInt8 → α → Prop) (source : List UInt8) (values : List α) : Prop :=
  (Whitespace source ∧ values = []) ∨ Separated (Padded item) source values

end

/-- A name, a colon with optional whitespace around it, and a value. -/
inductive Member (value : List UInt8 → JsonValue → Prop) :
    List UInt8 → List UInt8 × JsonValue → Prop where
  | mk (name key before after source : List UInt8) (member : JsonValue) (text : Text name key)
      (spaceBefore : Whitespace before) (spaceAfter : Whitespace after)
      (denotes : value source member) :
      Member value (name ++ before ++ Byte.colon :: after ++ source) (key, member)

/-- The source text of a value, and the value. -/
inductive Value : List UInt8 → JsonValue → Prop where
  | null : Value Byte.nullLiteral .null
  | true : Value Byte.trueLiteral (.boolean true)
  | false : Value Byte.falseLiteral (.boolean false)
  | number (source : List UInt8) (number : Number source) : Value source (.number source)
  | string (source decoded : List UInt8) (text : Text source decoded) :
      Value source (.string decoded)
  | emptyArray (space : List UInt8) (blank : Whitespace space) :
      Value (Byte.openBracket :: space ++ [Byte.closeBracket]) (.array [])
  | array (source : List UInt8) (elements : List JsonValue)
      (separated : Separated (Padded Value) source elements) :
      Value (Byte.openBracket :: source ++ [Byte.closeBracket]) (.array elements)
  | emptyObject (space : List UInt8) (blank : Whitespace space) :
      Value (Byte.openBrace :: space ++ [Byte.closeBrace]) (.object [])
  | object (source : List UInt8) (members : List (List UInt8 × JsonValue))
      (separated : Separated (Padded (Member Value)) source members) :
      Value (Byte.openBrace :: source ++ [Byte.closeBrace]) (.object members)

theorem Value.of_elements (source : List UInt8) (elements : List JsonValue)
    (contents : Contents Value source elements) :
    Value (Byte.openBracket :: source ++ [Byte.closeBracket]) (.array elements) := by
  rcases contents with ⟨blank, rfl⟩ | separated
  · exact Value.emptyArray source blank
  · exact Value.array source elements separated

theorem Value.of_members (source : List UInt8) (members : List (List UInt8 × JsonValue))
    (contents : Contents (Member Value) source members) :
    Value (Byte.openBrace :: source ++ [Byte.closeBrace]) (.object members) := by
  rcases contents with ⟨blank, rfl⟩ | separated
  · exact Value.emptyObject source blank
  · exact Value.object source members separated

/-- A JSON text is one value with whitespace around it. -/
def JsonText (source : List UInt8) (value : JsonValue) : Prop := Padded Value source value

/-! ## What the parser adds to the grammar -/

namespace JsonValue

/-- The values right inside a container. -/
def children : JsonValue → List JsonValue
  | .array elements => elements
  | .object members => members.map Prod.snd
  | _ => []

/-- A value that occurs in another one, inside so many containers. -/
inductive Inside : Nat → JsonValue → JsonValue → Prop where
  | here (root : JsonValue) : Inside 0 root root
  | deeper (depth : Nat) (root child value : JsonValue) (member : child ∈ root.children)
      (inside : Inside depth child value) : Inside (depth + 1) root value

/-- No value is nested inside more containers than that. -/
def NestedWithin (limit : Nat) (root : JsonValue) : Prop :=
  ∀ depth value, Inside depth root value → depth ≤ limit

/-- No object anywhere in the value has two members of one name. -/
def UniqueNames (root : JsonValue) : Prop :=
  ∀ depth members, Inside depth root (.object members) → (members.map Prod.fst).Nodup

/-- Every value inside is nested in fewer containers than that. -/
def NestedBelow (levels : Nat) (root : JsonValue) : Prop :=
  ∀ depth value, Inside depth root value → depth < levels

theorem nested_within_iff (limit : Nat) (root : JsonValue) :
    NestedWithin limit root ↔ NestedBelow (limit + 1) root := by
  simp only [NestedWithin, NestedBelow, Nat.lt_succ_iff]

theorem nested_below_zero (root : JsonValue) : ¬NestedBelow 0 root :=
  fun nested => absurd (nested 0 root (Inside.here root)) (Nat.lt_irrefl 0)

theorem nested_below_succ (levels : Nat) (root : JsonValue) :
    NestedBelow (levels + 1) root ↔ ∀ child ∈ root.children, NestedBelow levels child := by
  constructor
  · intro nested child member depth value inside
    have deeper := nested _ _ (Inside.deeper depth root child value member inside)
    omega
  · intro nested depth value inside
    cases inside with
    | here => omega
    | deeper depth _ child _ member inside =>
      have below := nested child member depth value inside
      omega

/-- Names are unique in a value when they are in its members and in every child. -/
theorem unique_names_iff (root : JsonValue) :
    UniqueNames root ↔
      (∀ members, root = .object members → (members.map Prod.fst).Nodup) ∧
        ∀ child ∈ root.children, UniqueNames child := by
  constructor
  · intro unique
    refine ⟨?_, ?_⟩
    · rintro members rfl
      exact unique 0 members (Inside.here _)
    · intro child member depth members inside
      exact unique (depth + 1) members (Inside.deeper depth root child _ member inside)
  · rintro ⟨own, children⟩ depth members inside
    cases inside with
    | here => exact own members rfl
    | deeper depth _ child _ member inside => exact children child member depth members inside

end JsonValue

/-! ## Items that satisfy a condition -/

section

variable {α : Type} (item grammar : List UInt8 → α → Prop) (condition : α → Prop)

/-- Whitespace before the first item belongs to that item. -/
theorem separated_leading (space source : List UInt8) (values : List α)
    (blank : Whitespace space) (separated : Separated (Padded item) source values) :
    Separated (Padded item) (space ++ source) values := by
  have padded : ∀ text value, Padded item text value → Padded item (space ++ text) value := by
    rintro text value ⟨before, source, after, _, spaceBefore, spaceAfter, denotes⟩
    rw [← List.append_assoc, ← List.append_assoc]
    apply Padded.mk _ _ _ _ _ spaceAfter denotes
    exact (whitespace_append space before).mpr ⟨blank, spaceBefore⟩
  cases separated with
  | last source value denotes => exact Separated.last _ value (padded source value denotes)
  | more source others value values denotes separated =>
    rw [← List.append_assoc]
    exact Separated.more _ others value values (padded source value denotes) separated

/-- Items of a grammar that satisfy a condition, between commas. -/
theorem contents_and
    (split : ∀ source value, item source value ↔ grammar source value ∧ condition value)
    (source : List UInt8) (values : List α) :
    Contents item source values ↔
      Contents grammar source values ∧ ∀ value ∈ values, condition value := by
  have padded : ∀ text value,
      Padded item text value ↔ Padded grammar text value ∧ condition value := by
    intro text value
    constructor
    · rintro ⟨before, source, after, _, spaceBefore, spaceAfter, denotes⟩
      obtain ⟨rule, holds⟩ := (split source value).mp denotes
      exact ⟨Padded.mk before source after value spaceBefore spaceAfter rule, holds⟩
    · rintro ⟨⟨before, source, after, _, spaceBefore, spaceAfter, rule⟩, holds⟩
      exact Padded.mk before source after value spaceBefore spaceAfter
        ((split source value).mpr ⟨rule, holds⟩)
  have separated : ∀ text values, Separated (Padded item) text values ↔
      Separated (Padded grammar) text values ∧ ∀ value ∈ values, condition value := by
    intro text values
    constructor
    · intro several
      induction several with
      | last source value denotes =>
        obtain ⟨rule, holds⟩ := (padded source value).mp denotes
        exact ⟨Separated.last source value rule, by simpa using holds⟩
      | more source others value values denotes _ ih =>
        obtain ⟨rule, holds⟩ := (padded source value).mp denotes
        exact ⟨Separated.more source others value values rule ih.1, by simpa [holds] using ih.2⟩
    · rintro ⟨several, holds⟩
      induction several with
      | last source value rule =>
        exact Separated.last source value ((padded source value).mpr ⟨rule, holds value (by simp)⟩)
      | more source others value values rule _ ih =>
        apply Separated.more source others value values
        · exact (padded source value).mpr ⟨rule, holds value (by simp)⟩
        · exact ih fun other member => holds other (by simp [member])
  simp only [Contents, separated]
  constructor
  · rintro (⟨blank, rfl⟩ | ⟨several, holds⟩)
    · exact ⟨Or.inl ⟨blank, rfl⟩, by simp⟩
    · exact ⟨Or.inr several, holds⟩
  · rintro ⟨⟨blank, rfl⟩ | several, holds⟩
    · exact Or.inl ⟨blank, rfl⟩
    · exact Or.inr ⟨several, holds⟩

end

theorem member_and (value grammar : List UInt8 → JsonValue → Prop) (condition : JsonValue → Prop)
    (split : ∀ source root, value source root ↔ grammar source root ∧ condition root)
    (source : List UInt8) (member : List UInt8 × JsonValue) :
    Member value source member ↔ Member grammar source member ∧ condition member.2 := by
  constructor
  · rintro ⟨name, key, before, after, source, member, text, spaceBefore, spaceAfter, denotes⟩
    obtain ⟨rule, holds⟩ := (split source member).mp denotes
    exact ⟨Member.mk name key before after source member text spaceBefore spaceAfter rule, holds⟩
  · rintro ⟨⟨name, key, before, after, source, member, text, spaceBefore, spaceAfter, rule⟩,
      holds⟩
    exact Member.mk name key before after source member text spaceBefore spaceAfter
      ((split source member).mpr ⟨rule, holds⟩)

/-- A value of the grammar that the parser accepts with so many levels left. -/
def Accepted (levels : Nat) (source : List UInt8) (value : JsonValue) : Prop :=
  Value source value ∧ value.UniqueNames ∧ value.NestedBelow levels

theorem accepted_array (levels : Nat) (source : List UInt8) (elements : List JsonValue)
    (contents : Contents (Accepted levels) source elements) :
    Accepted (levels + 1) (Byte.openBracket :: source ++ [Byte.closeBracket])
      (.array elements) := by
  obtain ⟨rules, holds⟩ := (contents_and _ Value
    (fun value => value.UniqueNames ∧ value.NestedBelow levels) (fun _ _ => Iff.rfl) source
    elements).mp contents
  refine ⟨Value.of_elements source elements rules, ?_, ?_⟩
  · apply (JsonValue.unique_names_iff _).mpr
    exact ⟨by simp, fun child member => (holds child member).1⟩
  · apply (JsonValue.nested_below_succ levels _).mpr
    exact fun child member => (holds child member).2

theorem accepted_object (levels : Nat) (source : List UInt8)
    (members : List (List UInt8 × JsonValue)) (distinct : (members.map Prod.fst).Nodup)
    (contents : Contents (Member (Accepted levels)) source members) :
    Accepted (levels + 1) (Byte.openBrace :: source ++ [Byte.closeBrace])
      (.object members) := by
  obtain ⟨rules, holds⟩ := (contents_and _ (Member Value)
    (fun member => member.2.UniqueNames ∧ member.2.NestedBelow levels)
    (member_and _ _ _ fun _ _ => Iff.rfl) source members).mp contents
  have children : ∀ child ∈ (JsonValue.object members).children,
      child.UniqueNames ∧ child.NestedBelow levels := by
    intro child member
    obtain ⟨entry, listed, rfl⟩ := List.mem_map.mp member
    exact holds entry listed
  refine ⟨Value.of_members source members rules, ?_, ?_⟩
  · apply (JsonValue.unique_names_iff _).mpr
    refine ⟨?_, fun child member => (children child member).1⟩
    rintro others same
    obtain rfl := JsonValue.object.inj same
    exact distinct
  · apply (JsonValue.nested_below_succ levels _).mpr
    exact fun child member => (children child member).2

end MarketForge.Model
