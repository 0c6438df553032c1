import MarketForge.Model.CheckedStrings
import MarketForge.Model.CheckedUtf8
import MarketForge.Model.SafetensorsSound

/-!
# The parsers, checked

`parse_value` with a bounded stack of its own frames, the containers with their loops, and the
slicing of a safetensors file. On every input the checked parsers end without a fault, with what
`parse_json` and `parse_safetensors_metadata` return.
-/
namespace MarketForge.Model

open Library Library.Scanner

/-! ## Containers -/

section

variable {α : Type}

/-- What a turn of the loops of `parse_array` and `parse_object` does behind its item. -/
def behindItemChecked (close : UInt8) (items : List α) :
    Scanner UInt8 Status (List α ⊕ List α) := do
  skipWhitespaceChecked
  if ← consumeChecked close then pure (.inr items)
  else if ← consumeChecked Byte.comma then pure (.inl items)
  else failChecked .invalidJson

def itemTurnChecked (close : UInt8) (parseItem : List α → Scanner UInt8 Status α)
    (items : List α) : Scanner UInt8 Status (List α ⊕ List α) := do
  let item ← parseItem items
  behindItemChecked close (items ++ [item])

def parseContainerChecked (opening close : UInt8) (parseItem : List α → Scanner UInt8 Status α) :
    Scanner UInt8 Status (List α) := do
  if ← consumeChecked opening then
    skipWhitespaceChecked
    if ← consumeChecked close then pure []
    else repeatUntil (itemTurnChecked close parseItem) []
  else failChecked .invalidJson

end

def parseMemberChecked (parseElement : Scanner UInt8 Status JsonValue)
    (members : List (List UInt8 × JsonValue)) : Scanner UInt8 Status (List UInt8 × JsonValue) := do
  skipWhitespaceChecked
  if ← nextIs (· == Byte.quote) then
    let key ← parseStringChecked
    if (members.map Prod.fst).contains key then failChecked .duplicateKey
    else if ← consumeChecked Byte.colon then
      let member ← parseElement
      pure (key, member)
    else failChecked .invalidJson
  else failChecked .invalidJson

def parseObjectChecked (parseElement : Scanner UInt8 Status JsonValue) :
    Scanner UInt8 Status JsonValue := do
  let members ← parseContainerChecked Byte.openBrace Byte.closeBrace
    (parseMemberChecked parseElement)
  pure (.object members)

def parseArrayChecked (parseElement : Scanner UInt8 Status JsonValue) :
    Scanner UInt8 Status JsonValue := do
  let elements ← parseContainerChecked Byte.openBracket Byte.closeBracket fun _ => parseElement
  pure (.array elements)

def parseLiteralChecked (literal : List UInt8) (value : JsonValue) :
    Scanner UInt8 Status JsonValue := do
  if ← consumeLiteralChecked literal then pure value else failChecked .invalidJson

def parseByFirstChecked (parseElement : Scanner UInt8 Status JsonValue) (first : UInt8) :
    Scanner UInt8 Status JsonValue := do
  if first = Byte.openBrace then parseObjectChecked parseElement
  else if first = Byte.openBracket then parseArrayChecked parseElement
  else if first = Byte.quote then
    let text ← parseStringChecked
    pure (.string text)
  else if first = Byte.lowerT then parseLiteralChecked Byte.trueLiteral (.boolean true)
  else if first = Byte.lowerF then parseLiteralChecked Byte.falseLiteral (.boolean false)
  else if first = Byte.lowerN then parseLiteralChecked Byte.nullLiteral .null
  else parseNumberChecked

/-- `parse_value` on a stack with room for so many frames of it; one more is a fault. -/
def parseValueChecked : Nat → Nat → Scanner UInt8 Status JsonValue
  | 0, _ => fault
  | frames + 1, depth => do
    if maximumDepth < depth then failChecked .resourceLimit
    else
      skipWhitespaceChecked
      if ← ended then failChecked .invalidJson
      else
        let first ← peek 0
        parseByFirstChecked (parseValueChecked frames (depth + 1)) first

/-- `Parser::parse`, on a stack for 66 frames of `parse_value`. -/
def parseChecked : Scanner UInt8 Status JsonValue := do
  if ← whole isValidUtf8Checked then
    let value ← parseValueChecked 66 0
    skipWhitespaceChecked
    let stop ← Scanner.position
    let size ← whole fun input => some input.length
    if stop ≠ size then failChecked .invalidJson else pure value
  else failChecked .invalidUtf8

def parseJsonChecked (input : List UInt8) : Option (Result JsonValue) :=
  (parseChecked.run input 0).map Prod.fst

/-! ## They follow the parser -/

section

variable {α : Type} {input : List UInt8} {c : Cursor}

theorem Follows.narrow {low start : Nat} {run : Option (Result α × Nat)} {value : α}
    {after : Cursor} (follows : Follows input start run (.ok (value, after)))
    (later : low ≤ after.position) : Follows input low run (.ok (value, after)) :=
  ⟨follows.1, follows.2.1, later⟩

theorem consume_moves (expected : UInt8) (c after : Cursor)
    (taken : c.consume expected = (true, after)) : c.position < after.position := by
  simp only [Cursor.consume] at taken
  split at taken
  next =>
    obtain rfl := congrArg Prod.snd taken
    simp only [Cursor.advance, Cursor.skipWhitespace, Cursor.skipWhile]
    omega
  next => simp at taken

theorem behind_item_checked (on : c.On input) (close : UInt8) (items : List α) :
    Follows input c.position ((behindItemChecked close items).run input c.position)
      (match c.skipWhitespace.consume close with
      | (true, c) => .ok (.inr items, c)
      | (false, c) =>
        match c.consume Byte.comma with
        | (true, c) => .ok (.inl items, c)
        | (false, c) => .error (c.fail .invalidJson)) := by
  refine (skip_whitespace_checked on).next fun on _ => ?_
  have closed := consume_checked on close
  rcases taken : c.skipWhitespace.consume close with ⟨_ | _, c⟩ <;> rw [taken] at closed
  · refine closed.next fun on _ => ?_
    have comma := consume_checked on Byte.comma
    dsimp only
    rcases taken : c.consume Byte.comma with ⟨_ | _, c⟩ <;> rw [taken] at comma
    · exact comma.next fun on _ => fail_checked on .invalidJson
    · exact comma.next fun on _ => follows_pure on _
  · exact closed.next fun on _ => follows_pure on _

/-- The induction is on the turns that are left: every comma is a byte less. -/
theorem parse_items_checked (close : UInt8) (parseItem : List α → Cursor → Result (α × Cursor))
    (itemChecked : List α → Scanner UInt8 Status α)
    (each : ∀ items c, c.On input →
      Follows input c.position ((itemChecked items).run input c.position) (parseItem items c))
    (more fuel : Nat) (items : List α) (on : c.On input) (enough : c.rest.length < fuel)
    (left : c.rest.length < more) :
    Follows input c.position
      ((turns (itemTurnChecked close itemChecked) more items).run input c.position)
      (parseItems close parseItem fuel items c) := by
  induction more generalizing fuel items c with
  | zero => omega
  | succ more ih =>
    obtain ⟨fuel, rfl⟩ : ∃ rest, fuel = rest + 1 := ⟨fuel - 1, by omega⟩
    have size := on.length
    have item := each items c on
    rw [parseItems]
    cases parsed : parseItem items c with
    | error status =>
      rw [parsed] at item
      exact Follows.broken item.stops
    | ok result =>
      obtain ⟨value, behind⟩ := result
      rw [parsed] at item
      have turn : Follows input c.position
          ((itemTurnChecked close itemChecked items).run input c.position) _ :=
        item.next fun on _ => behind_item_checked on close (items ++ [value])
      have fromItem := item.2.2
      dsimp only
      rcases closed : behind.skipWhitespace.consume close with ⟨_ | _, c₁⟩ <;>
        rw [closed] at turn <;> dsimp only at turn ⊢
      · rcases comma : c₁.consume Byte.comma with ⟨_ | _, c₂⟩ <;> rw [comma] at turn
        · exact Follows.broken turn
        · -- the comma lies behind the item, so the next turn starts a byte later at least
          have further : c.position + 1 ≤ c₂.position := by
            have fromSpace := (skip_whitespace_checked item.2.1).2.2
            have closing := consume_checked (item.2.1.skipWhile isWhitespace) close
            rw [← Cursor.skipWhitespace, closed] at closing
            have fromClose := closing.2.2
            have fromComma := consume_moves _ _ _ comma
            omega
          have one := (turn.narrow further).again fun on later => by
            have shorter := on.length
            have inside := on.inside
            exact ih fuel _ on (by omega) (by omega)
          exact one.widen (Nat.le_succ _)
      · exact Follows.last turn

theorem parse_container_checked (opening close : UInt8)
    (parseItem : List α → Cursor → Result (α × Cursor))
    (itemChecked : List α → Scanner UInt8 Status α)
    (each : ∀ items c, c.On input →
      Follows input c.position ((itemChecked items).run input c.position) (parseItem items c))
    (on : c.On input) :
    Follows input c.position
      ((parseContainerChecked opening close itemChecked).run input c.position)
      (parseContainer opening close parseItem c) := by
  have opens := consume_checked on opening
  rw [parseContainer]
  rcases opened : c.consume opening with ⟨_ | _, c⟩ <;> rw [opened] at opens <;> dsimp only
  · exact opens.next fun on _ => fail_checked on .invalidJson
  refine opens.next fun on _ => ?_
  refine (skip_whitespace_checked on).next fun on _ => ?_
  have closes := consume_checked on close
  rcases closed : c.skipWhitespace.consume close with ⟨_ | _, c⟩ <;> rw [closed] at closes <;>
    dsimp only
  · refine closes.next fun on _ => ?_
    have size := on.length
    exact parse_items_checked close parseItem itemChecked each (input.length + 1) _ [] on
      (Nat.lt_succ_self _) (by omega)
  · exact closes.next fun on _ => follows_pure on []

theorem parse_literal_checked (on : c.On input) (literal : List UInt8) (value : JsonValue) :
    Follows input c.position ((parseLiteralChecked literal value).run input c.position)
      (parseLiteral literal value c) := by
  have consumed := consume_literal_checked on literal
  rw [parseLiteral]
  cases taken : c.consumeLiteral literal with
  | none =>
    rw [taken] at consumed
    exact consumed.next fun on _ => fail_checked on .invalidJson
  | some after =>
    rw [taken] at consumed
    exact consumed.next fun on _ => follows_pure on value

/-! ## Values -/

variable {parseElement : Cursor → Result (JsonValue × Cursor)}
  {elementChecked : Scanner UInt8 Status JsonValue}

theorem parse_member_checked (members : List (List UInt8 × JsonValue))
    (each : ∀ c : Cursor, c.On input →
      Follows input c.position (elementChecked.run input c.position) (parseElement c))
    (on : c.On input) :
    Follows input c.position ((parseMemberChecked elementChecked members).run input c.position)
      (parseMember parseElement members c) := by
  refine (skip_whitespace_checked on).next fun on _ => ?_
  refine (follows_next_is on _).next fun on _ => ?_
  rw [head_any, parseMember]
  by_cases quote : c.skipWhitespace.rest.head? = some Byte.quote
  swap
  · simp only [quote, decide_false, ne_eq, not_false_eq_true, if_true, if_false,
      Bool.false_eq_true]
    exact fail_checked on .invalidJson
  simp only [quote, decide_true, ne_eq, not_true_eq_false, if_true, if_false]
  have name := parse_string_checked on
  cases read : parseString c.skipWhitespace with
  | error status =>
    rw [read] at name
    exact name.stops
  | ok result =>
    obtain ⟨key, c⟩ := result
    rw [read] at name
    refine name.next fun on _ => ?_
    dsimp only
    -- `contains` is the test of membership that the parser decides
    simp only [List.contains_iff_mem]
    by_cases repeated : key ∈ members.map Prod.fst
    · rw [if_pos repeated, if_pos repeated]
      exact fail_checked on .duplicateKey
    rw [if_neg repeated, if_neg repeated]
    have colon := consume_checked on Byte.colon
    rcases taken : c.consume Byte.colon with ⟨_ | _, c⟩ <;> rw [taken] at colon <;> dsimp only
    · exact colon.next fun on _ => fail_checked on .invalidJson
    refine colon.next fun on _ => ?_
    have element := each c on
    cases parsed : parseElement c with
    | error status =>
      rw [parsed] at element
      exact element.stops
    | ok result =>
      rw [parsed] at element
      exact element.next fun on _ => follows_pure on _

theorem parse_by_first_checked (first : UInt8)
    (each : ∀ c : Cursor, c.On input →
      Follows input c.position (elementChecked.run input c.position) (parseElement c))
    (on : c.On input) :
    Follows input c.position ((parseByFirstChecked elementChecked first).run input c.position)
      (parseByFirst parseElement first c) := by
  rw [parseByFirstChecked, parseByFirst]
  by_cases object : first = Byte.openBrace
  · rw [if_pos object, if_pos object]
    exact (parse_container_checked _ _ _ _
      (fun members _ on => parse_member_checked members each on) on).map _
  rw [if_neg object, if_neg object]
  by_cases array : first = Byte.openBracket
  · rw [if_pos array, if_pos array]
    exact (parse_container_checked _ _ _ _ (fun _ => each) on).map _
  rw [if_neg array, if_neg array]
  by_cases string : first = Byte.quote
  · rw [if_pos string, if_pos string]
    exact (parse_string_checked on).map _
  rw [if_neg string, if_neg string]
  by_cases true : first = Byte.lowerT
  · rw [if_pos true, if_pos true]
    exact parse_literal_checked on _ _
  rw [if_neg true, if_neg true]
  by_cases false : first = Byte.lowerF
  · rw [if_pos false, if_pos false]
    exact parse_literal_checked on _ _
  rw [if_neg false, if_neg false]
  by_cases null : first = Byte.lowerN
  · rw [if_pos null, if_pos null]
    exact parse_literal_checked on _ _
  · rw [if_neg null, if_neg null]
    exact parse_number_checked on

/-- The induction is on the levels that are left: a frame for each of them, and one more for the
refusal. -/
theorem parse_value_checked (levels depth : Nat) (left : levels + depth = maximumDepth + 1)
    (on : c.On input) :
    Follows input c.position ((parseValueChecked (levels + 1) depth).run input c.position)
      (parseValue levels c) := by
  induction levels generalizing depth c with
  | zero =>
    rw [parseValueChecked, if_pos (by omega)]
    exact fail_checked on .resourceLimit
  | succ levels ih =>
    rw [parseValueChecked, if_neg (by omega), parseValue]
    refine (skip_whitespace_checked on).next fun on _ => ?_
    refine (follows_ended on).next fun on _ => ?_
    cases head : c.skipWhitespace.rest.head? with
    | none => exact fail_checked on .invalidJson
    | some first =>
      refine (follows_peek on head).next fun on _ => ?_
      exact parse_by_first_checked first (fun c on => ih (depth + 1) (by omega) on) on

end

/-- `parse_json` ends without a fault on every input. -/
theorem parse_json_checked (input : List UInt8) :
    parseJsonChecked input = some (parseJson input) := by
  have on : (⟨0, input⟩ : Cursor).On input := ⟨rfl, Nat.zero_le _⟩
  have ends : ∃ stop, parseChecked.run input 0 = some (parseJson input, stop) := by
    rw [parseChecked, run_bind_ok (whole_ok (is_valid_utf8_checked input)), parseJson]
    cases isValidUtf8 input with
    | false => exact ⟨0, rfl⟩
    | true =>
      rw [if_pos rfl, if_neg (by simp)]
      have read : Follows input 0 ((parseValueChecked 66 0).run input 0)
          (parseValue (maximumDepth + 1) ⟨0, input⟩) :=
        parse_value_checked (maximumDepth + 1) 0 rfl on
      cases parsed : parseValue (maximumDepth + 1) ⟨0, input⟩ with
      | error status =>
        rw [parsed] at read
        obtain ⟨stop, _, known⟩ := read
        exact ⟨stop, run_bind_error known⟩
      | ok result =>
        obtain ⟨value, c⟩ := result
        rw [parsed] at read
        have skipped := skip_whitespace_checked read.2.1
        have size := skipped.2.1.length
        have inside := skipped.2.1.inside
        rw [run_bind_ok read.1, run_bind_ok skipped.1, run_bind_ok position_ok,
          run_bind_ok (whole_ok (rfl : (fun bytes => some bytes.length) input = some input.length))]
        dsimp only
        by_cases ended : c.skipWhitespace.rest = []
        · rw [ended, List.length_nil] at size
          rw [if_pos ended, if_neg (by omega)]
          exact ⟨_, rfl⟩
        · have positive := List.length_pos_iff.mpr ended
          rw [if_neg ended, if_pos (by omega)]
          exact ⟨_, rfl⟩
  obtain ⟨stop, known⟩ := ends
  rw [parseJsonChecked, known, Option.map_some]

/-! ## Safetensors files -/

/-- `std::span::subspan`, a fault when the part is not in the span. -/
def subspanChecked (bytes : List UInt8) (offset count : Nat) : Option (List UInt8) :=
  if offset + count ≤ bytes.length then some ((bytes.drop offset).take count) else none

theorem subspan_some {bytes : List UInt8} {offset count : Nat}
    (inside : offset + count ≤ bytes.length) :
    subspanChecked bytes offset count = some ((bytes.drop offset).take count) := if_pos inside

/-- What `parse_safetensors_metadata` does with the header; it reads no bytes but those. -/
def parseHeaderChecked (header : List UInt8) (dataStart dataSize : UInt64) :
    Option (Result SafeTensorMetadata) :=
  if header = [] then some (.error (.failure .invalidJson))
  else do
    let front ← header[0]?
    if front ≠ Byte.openBrace then some (.error (.failure .invalidJson))
    else
      match ← parseJsonChecked header with
      | .error status => some (.error status)
      | .ok (.object members) =>
        match parseRecords dataSize members [] with
        | .error status => some (.error status)
        | .ok records =>
          let coverage := validateExactCoverage records dataSize
          if coverage.isOk then some (.ok { dataStart, records }) else some (.error coverage)
      | .ok _ => some (.error (.failure .invalidJson))

def parseSafetensorsMetadataChecked (bytes : ByteSpan) (maximumHeaderBytes : UInt64) :
    Option (Result SafeTensorMetadata) :=
  let size := bytes.data.length
  if size < 8 then some (.error (.failure .truncatedData))
  else do
    let first ← subspanChecked bytes.data 0 8
    let headerSize := loadU64LittleEndian first
    if maximumHeaderBytes < headerSize ∨ 0xffffffffffffffff < headerSize then
      some (.error (.failure .resourceLimit))
    else do
      let room ← Checked.sub size 8
      if room < headerSize.toNat then some (.error (.failure .truncatedData))
      else do
        let dataStart ← Checked.add 8 headerSize.toNat
        let dataSize ← Checked.sub size dataStart
        let header ← subspanChecked bytes.data 8 headerSize.toNat
        parseHeaderChecked header (UInt64.ofNat dataStart) (UInt64.ofNat dataSize)

theorem parse_header_checked (header : List UInt8) (dataStart dataSize : UInt64) :
    parseHeaderChecked header dataStart dataSize = some
      (if header.head? ≠ some Byte.openBrace then .error (.failure .invalidJson)
      else
        match parseJson header with
        | .error status => .error status
        | .ok (.object members) =>
          match parseRecords dataSize members [] with
          | .error status => .error status
          | .ok records =>
            let coverage := validateExactCoverage records dataSize
            if coverage.isOk then .ok { dataStart, records } else .error coverage
        | .ok _ => .error (.failure .invalidJson)) := by
  cases header with
  | nil => rfl
  | cons front rest =>
    rw [parseHeaderChecked, if_neg (by simp), List.getElem?_cons_zero, Checked.bind_known rfl,
      List.head?_cons, parse_json_checked, Checked.bind_known rfl]
    by_cases opens : front = Byte.openBrace
    swap
    · rw [if_pos opens, if_pos (by simpa using opens)]
    rw [if_neg (not_not_intro opens), if_neg (by simpa using opens)]
    rcases parseJson (front :: rest) with status | value
    · rfl
    cases value with
    | object members =>
      dsimp only
      cases parseRecords dataSize members [] with
      | error status => rfl
      | ok records => exact (apply_ite some _ _ _).symm
    | null | boolean | number | string | array => rfl

theorem parse_metadata_checked (bytes : ByteSpan) (maximumHeaderBytes : UInt64) :
    parseSafetensorsMetadataChecked bytes maximumHeaderBytes =
      some (parseSafetensorsMetadata bytes maximumHeaderBytes) := by
  have exactSize := span_size_exact bytes
  have room := bytes.addressable
  have eight : (8 : UInt64).toNat = 8 := rfl
  rw [parseSafetensorsMetadataChecked, parseSafetensorsMetadata]
  dsimp only
  by_cases short : bytes.data.length < 8
  · rw [if_pos short, if_pos (by rw [UInt64.lt_iff_toNat_lt]; omega)]
  have long : ¬bytes.size < 8 := by rw [UInt64.lt_iff_toNat_lt]; omega
  have behind : (bytes.size - 8).toNat = bytes.data.length - 8 := by
    rw [UInt64.toNat_sub_of_le _ _ (UInt64.not_lt.mp long), exactSize, eight]
  rw [if_neg short, if_neg long, Checked.bind_known (subspan_some (by omega)), List.drop_zero]
  -- from here on the size of the header is any word
  generalize loadU64LittleEndian (bytes.data.take 8) = headerSize
  by_cases limited : maximumHeaderBytes < headerSize ∨ 0xffffffffffffffff < headerSize
  · rw [if_pos limited, if_pos limited]
  rw [if_neg limited, if_neg limited, Checked.bind_known (Checked.sub_some (by omega))]
  by_cases truncated : bytes.data.length - 8 < headerSize.toNat
  · rw [if_pos truncated, if_pos (by rw [UInt64.lt_iff_toNat_lt]; omega)]
  rw [if_neg truncated, if_neg (by rw [UInt64.lt_iff_toNat_lt]; omega),
    Checked.bind_known (Checked.add_some (by omega)),
    Checked.bind_known (Checked.sub_some (by omega)), Checked.bind_known (subspan_some (by omega)),
    parse_header_checked]
  have start : UInt64.ofNat (8 + headerSize.toNat) = 8 + headerSize := by
    rw [← UInt64.toNat_inj, UInt64.toNat_ofNat', UInt64.toNat_add, eight]
  have size : UInt64.ofNat (bytes.data.length - (8 + headerSize.toNat)) =
      bytes.size - (8 + headerSize) := by
    have sum : (8 + headerSize).toNat = 8 + headerSize.toNat := by
      rw [UInt64.toNat_add, eight, Nat.mod_eq_of_lt (by omega)]
    rw [← UInt64.toNat_inj, UInt64.toNat_sub_of_le _ _ (UInt64.le_iff_toNat_le.mpr (by omega)),
      UInt64.toNat_ofNat', Nat.mod_eq_of_lt (by omega), exactSize, sum]
  exact start ▸ size ▸ rfl

/-- The validator and both parsers end on every input without a fault: no read outside the input,
no position past its end, no subtraction that wraps, no loop without an end, no frame of
`parse_value` past the 66th. -/
theorem parsers_total :
    (∀ input, isValidUtf8Checked input = some (isValidUtf8 input)) ∧
      (∀ input, parseJsonChecked input = some (parseJson input)) ∧
        ∀ bytes maximumHeaderBytes, parseSafetensorsMetadataChecked bytes maximumHeaderBytes =
          some (parseSafetensorsMetadata bytes maximumHeaderBytes) :=
  ⟨is_valid_utf8_checked, parse_json_checked, parse_metadata_checked⟩

end MarketForge.Model
