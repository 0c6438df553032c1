import MarketForge.Core.Status
import MarketForge.Model.Utf8

/-!
# The JSON parser

`parse_json` as a recursive descent over a cursor: the position in the input, as the error
details report it, and the bytes from there on. A failing parser reports its status only, as
the source abandons its position then.
-/
namespace MarketForge.Model

inductive JsonValue where
  | null
  | boolean (value : Bool)
  | number (text : List UInt8)
  | string (text : List UInt8)
  | array (elements : List JsonValue)
  | object (members : List (List UInt8 × JsonValue))

/-- The first member of that name, for objects. -/
def JsonValue.find : JsonValue → List UInt8 → Option JsonValue
  | .object members, key => (members.find? fun member => member.1 = key).map Prod.snd
  | _, _ => none

namespace Byte

abbrev backspace : UInt8 := 0x08
abbrev tab : UInt8 := 0x09
abbrev newline : UInt8 := 0x0a
abbrev formFeed : UInt8 := 0x0c
abbrev carriageReturn : UInt8 := 0x0d
abbrev space : UInt8 := 0x20
abbrev quote : UInt8 := 0x22
abbrev plus : UInt8 := 0x2b
abbrev comma : UInt8 := 0x2c
abbrev minus : UInt8 := 0x2d
abbrev dot : UInt8 := 0x2e
abbrev slash : UInt8 := 0x2f
abbrev zero : UInt8 := 0x30
abbrev nine : UInt8 := 0x39
abbrev colon : UInt8 := 0x3a
abbrev upperA : UInt8 := 0x41
abbrev upperE : UInt8 := 0x45
abbrev upperF : UInt8 := 0x46
abbrev openBracket : UInt8 := 0x5b
abbrev backslash : UInt8 := 0x5c
abbrev closeBracket : UInt8 := 0x5d
abbrev lowerA : UInt8 := 0x61
abbrev lowerB : UInt8 := 0x62
abbrev lowerE : UInt8 := 0x65
abbrev lowerF : UInt8 := 0x66
abbrev lowerN : UInt8 := 0x6e
abbrev lowerR : UInt8 := 0x72
abbrev lowerT : UInt8 := 0x74
abbrev lowerU : UInt8 := 0x75
abbrev openBrace : UInt8 := 0x7b
abbrev closeBrace : UInt8 := 0x7d

/-- The literal `true`. -/
abbrev trueLiteral : List UInt8 := [0x74, 0x72, 0x75, 0x65]

/-- The literal `false`. -/
abbrev falseLiteral : List UInt8 := [0x66, 0x61, 0x6c, 0x73, 0x65]

/-- The literal `null`. -/
abbrev nullLiteral : List UInt8 := [0x6e, 0x75, 0x6c, 0x6c]

end Byte

def maximumDepth : Nat := 64

/-- `position_`, and the input from that position on. -/
structure Cursor where
  position : Nat
  rest : List UInt8
  deriving DecidableEq, Repr

namespace Cursor

def fail (code : ErrorCode) (c : Cursor) : Status :=
  .failure code (UInt32.ofNat (min c.position 0xffffffff))

def advance (c : Cursor) (count : Nat) : Cursor := ⟨c.position + count, c.rest.drop count⟩

/-- A loop that advances while the byte satisfies a condition. -/
def skipWhile (satisfies : UInt8 → Bool) (c : Cursor) : Cursor :=
  ⟨c.position + (c.rest.takeWhile satisfies).length, c.rest.dropWhile satisfies⟩

end Cursor

def isWhitespace (byte : UInt8) : Bool :=
  byte == Byte.space || byte == Byte.newline || byte == Byte.carriageReturn || byte == Byte.tab

def isDigit (byte : UInt8) : Bool := decide (Byte.zero ≤ byte) && decide (byte ≤ Byte.nine)

namespace Cursor

def skipWhitespace (c : Cursor) : Cursor := c.skipWhile isWhitespace

/-- Skips whitespace and takes the expected byte; the whitespace stays skipped on failure. -/
def consume (expected : UInt8) (c : Cursor) : Bool × Cursor :=
  let c := c.skipWhitespace
  if c.rest.head? = some expected then (true, c.advance 1) else (false, c)

def consumeLiteral (literal : List UInt8) (c : Cursor) : Option Cursor :=
  if c.rest.take literal.length = literal then some (c.advance literal.length) else none

/-- One optional byte of a number. -/
def takeOptional (accepted : UInt8 → Bool) (c : Cursor) : Cursor :=
  if c.rest.head?.any accepted then c.advance 1 else c

end Cursor

/-- The integer part of a number: a lone zero, or digits that start with another one. -/
def parseInteger (c : Cursor) : Result Cursor :=
  match c.rest.head? with
  | none => .error (c.fail .invalidJson)
  | some byte =>
    if byte = Byte.zero then
      let next := c.advance 1
      if next.rest.head?.any isDigit then .error (next.fail .invalidJson) else .ok next
    else if isDigit byte then .ok (c.skipWhile isDigit)
    else .error (c.fail .invalidJson)

/-- The digits after a decimal point or an exponent; at least one is required. -/
def parseDigits (start : Cursor) : Result Cursor :=
  let stop := start.skipWhile isDigit
  if start.position = stop.position then .error (stop.fail .invalidJson) else .ok stop

def parseFraction (c : Cursor) : Result Cursor :=
  if c.rest.head? = some Byte.dot then parseDigits (c.advance 1) else .ok c

def isExponent (byte : UInt8) : Bool := byte == Byte.lowerE || byte == Byte.upperE

def isSign (byte : UInt8) : Bool := byte == Byte.plus || byte == Byte.minus

def parseExponent (c : Cursor) : Result Cursor :=
  if c.rest.head?.any isExponent then parseDigits ((c.advance 1).takeOptional isSign) else .ok c

/-- A number is kept as its literal text. -/
def parseNumber (start : Cursor) : Result (JsonValue × Cursor) := do
  let integer ← parseInteger (start.takeOptional (· == Byte.minus))
  let fraction ← parseFraction integer
  let stop ← parseExponent fraction
  return (.number (start.rest.take (stop.position - start.position)), stop)

def isHex (byte : UInt8) : Bool :=
  isDigit byte || (decide (Byte.lowerA ≤ byte) && decide (byte ≤ Byte.lowerF))
    || (decide (Byte.upperA ≤ byte) && decide (byte ≤ Byte.upperF))

def hexValue (byte : UInt8) : Nat :=
  if isDigit byte then byte.toNat - Byte.zero.toNat
  else if Byte.lowerA ≤ byte ∧ byte ≤ Byte.lowerF then byte.toNat - Byte.lowerA.toNat + 10
  else byte.toNat - Byte.upperA.toNat + 10

def parseHexQuad (c : Cursor) : Option (Nat × Cursor) :=
  if c.rest.length < 4 then none
  else
    let digits := c.rest.take 4
    if digits.all isHex then
      some (digits.foldl (fun value digit => value * 16 + hexValue digit) 0, c.advance 4)
    else none

/-- The code point of a `\u` escape, past its `u`. A high surrogate takes the escape of its low
surrogate with it. -/
def parseUnicode (c : Cursor) : Option (Nat × Cursor) :=
  match parseHexQuad c with
  | none => none
  | some (codePoint, c) =>
    if 0xd800 ≤ codePoint ∧ codePoint ≤ 0xdbff then
      if c.rest.length < 6 ∨ c.rest[0]? ≠ some Byte.backslash
          ∨ c.rest[1]? ≠ some Byte.lowerU then none
      else
        match parseHexQuad (c.advance 2) with
        | none => none
        | some (low, c) =>
          if low < 0xdc00 ∨ 0xdfff < low then none
          else some (0x10000 + ((codePoint - 0xd800) <<< 10) + (low - 0xdc00), c)
    else if 0xdc00 ≤ codePoint ∧ codePoint ≤ 0xdfff then none
    else some (codePoint, c)

/-- The byte an escape of one letter stands for. -/
def simpleEscape (escape : UInt8) : Option UInt8 :=
  if escape = Byte.quote ∨ escape = Byte.backslash ∨ escape = Byte.slash then some escape
  else if escape = Byte.lowerB then some Byte.backspace
  else if escape = Byte.lowerF then some Byte.formFeed
  else if escape = Byte.lowerN then some Byte.newline
  else if escape = Byte.lowerR then some Byte.carriageReturn
  else if escape = Byte.lowerT then some Byte.tab
  else none

/-- The bytes an escape appends to the output; the cursor is past its backslash. -/
def parseEscape (c : Cursor) : Option (List UInt8 × Cursor) :=
  match c.rest.head? with
  | none => none
  | some escape =>
    match simpleEscape escape with
    | some byte => some ([byte], c.advance 1)
    | none =>
      if escape = Byte.lowerU then
        (parseUnicode (c.advance 1)).map fun (codePoint, c) => (appendUtf8 codePoint, c)
      else none

/-- The loop of `parse_string`; the input ends before the string does when the loop runs dry. -/
def parseChars : Nat → Cursor → List UInt8 → Result (List UInt8 × Cursor)
  | 0, _, _ => .error (.failure .invalidJson)
  | fuel + 1, c, output =>
    match c.rest.head? with
    | none => .error (.failure .invalidJson)
    | some value =>
      let next := c.advance 1
      if value = Byte.quote then .ok (output, next)
      else if value < 0x20 then
        .error (.failure .invalidJson (UInt32.ofNat (next.position - 1)))
      else if value ≠ Byte.backslash then parseChars fuel next (output ++ [value])
      else
        match parseEscape next with
        | none => .error (.failure .invalidJson)
        | some (decoded, after) => parseChars fuel after (output ++ decoded)

def parseString (c : Cursor) : Result (List UInt8 × Cursor) :=
  if c.rest.head? ≠ some Byte.quote then .error (.failure .invalidJson)
  else parseChars c.rest.length (c.advance 1) []

/-- The loops of `parse_array` and `parse_object`: items with commas between them, up to the
closing byte. An item may depend on the items before it. Every turn takes a byte. -/
def parseItems {α : Type} (close : UInt8) (parseItem : List α → Cursor → Result (α × Cursor)) :
    Nat → List α → Cursor → Result (List α × Cursor)
  | 0, _, c => .error (c.fail .invalidJson)
  | fuel + 1, items, c =>
    match parseItem items c with
    | .error status => .error status
    | .ok (item, c) =>
      match c.skipWhitespace.consume close with
      | (true, c) => .ok (items ++ [item], c)
      | (false, c) =>
        match c.consume Byte.comma with
        | (true, c) => parseItems close parseItem fuel (items ++ [item]) c
        | (false, c) => .error (c.fail .invalidJson)

/-- One member of an object. The set `keys` of the source holds the names of the members read so
far: a name enters it before its value is parsed, and a value that fails ends the parse. -/
def parseMember (parseElement : Cursor → Result (JsonValue × Cursor))
    (members : List (List UInt8 × JsonValue)) (c : Cursor) :
    Result ((List UInt8 × JsonValue) × Cursor) :=
  let c := c.skipWhitespace
  if c.rest.head? ≠ some Byte.quote then .error (c.fail .invalidJson)
  else
    match parseString c with
    | .error status => .error status
    | .ok (key, c) =>
      if key ∈ members.map Prod.fst then .error (c.fail .duplicateKey)
      else
        match c.consume Byte.colon with
        | (false, c) => .error (c.fail .invalidJson)
        | (true, c) =>
          match parseElement c with
          | .error status => .error status
          | .ok (member, c) => .ok ((key, member), c)

/-- What `parse_array` and `parse_object` share: the opening byte, the empty container, the
items. -/
def parseContainer {α : Type} (opening close : UInt8)
    (parseItem : List α → Cursor → Result (α × Cursor)) (c : Cursor) :
    Result (List α × Cursor) :=
  match c.consume opening with
  | (false, c) => .error (c.fail .invalidJson)
  | (true, c) =>
    match c.skipWhitespace.consume close with
    | (true, c) => .ok ([], c)
    | (false, c) => parseItems close parseItem (c.rest.length + 1) [] c

def parseObject (parseElement : Cursor → Result (JsonValue × Cursor)) (c : Cursor) :
    Result (JsonValue × Cursor) :=
  (parseContainer Byte.openBrace Byte.closeBrace (parseMember parseElement) c).map
    fun (members, c) => (.object members, c)

def parseArray (parseElement : Cursor → Result (JsonValue × Cursor)) (c : Cursor) :
    Result (JsonValue × Cursor) :=
  (parseContainer Byte.openBracket Byte.closeBracket (fun _ => parseElement) c).map
    fun (elements, c) => (.array elements, c)

def parseLiteral (literal : List UInt8) (value : JsonValue) (c : Cursor) :
    Result (JsonValue × Cursor) :=
  match c.consumeLiteral literal with
  | none => .error (c.fail .invalidJson)
  | some c => .ok (value, c)

/-- The switch of `parse_value` over the first byte of the value. -/
def parseByFirst (parseElement : Cursor → Result (JsonValue × Cursor)) (first : UInt8)
    (c : Cursor) : Result (JsonValue × Cursor) :=
  if first = Byte.openBrace then parseObject parseElement c
  else if first = Byte.openBracket then parseArray parseElement c
  else if first = Byte.quote then (parseString c).map fun (text, c) => (.string text, c)
  else if first = Byte.lowerT then parseLiteral Byte.trueLiteral (.boolean true) c
  else if first = Byte.lowerF then parseLiteral Byte.falseLiteral (.boolean false) c
  else if first = Byte.lowerN then parseLiteral Byte.nullLiteral .null c
  else parseNumber c

/-- `parse_value` at the depth that leaves so many levels: none are left past `maximum_depth`. -/
def parseValue : Nat → Cursor → Result (JsonValue × Cursor)
  | 0, c => .error (c.fail .resourceLimit)
  | levels + 1, c =>
    let c := c.skipWhitespace
    match c.rest.head? with
    | none => .error (c.fail .invalidJson)
    | some first => parseByFirst (parseValue levels) first c

/-- One value with whitespace around it. The first call is at depth zero. -/
def parseJson (input : List UInt8) : Result JsonValue :=
  if isValidUtf8 input = false then .error (Cursor.fail .invalidUtf8 ⟨0, input⟩)
  else
    match parseValue (maximumDepth + 1) ⟨0, input⟩ with
    | .error status => .error status
    | .ok (value, c) =>
      let c := c.skipWhitespace
      if c.rest = [] then .ok value else .error (c.fail .invalidJson)

end MarketForge.Model
