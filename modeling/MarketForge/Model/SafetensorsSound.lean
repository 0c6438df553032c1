import Mathlib.Tactic.Ring
import MarketForge.Library.Tiling
import MarketForge.Model.JsonComplete
import MarketForge.Model.Safetensors

/-!
# What an accepted safetensors file guarantees

The accepted records tile the data region, every size and offset is the exact number of the
header, and the views handed out afterwards lie in the mapping without sharing a byte.
-/
namespace MarketForge.Model

open Library

/-! ## Exact numbers -/

/-- The number eight bytes stand for, the least significant byte first. -/
def littleEndian : List UInt8 → Nat
  | [] => 0
  | byte :: bytes => byte.toNat + 256 * littleEndian bytes

/-- One turn of the loop sets the next eight bits. -/
private theorem load_step (value : UInt64) (byte : UInt8) (index : Nat) (room : index < 8)
    (small : value.toNat < 2 ^ (8 * index)) :
    (value ||| byte.toUInt64 <<< UInt64.ofNat (index * 8)).toNat =
      value.toNat + 2 ^ (8 * index) * byte.toNat := by
  have bits := byte.toNat_lt
  have shift : (UInt64.ofNat (index * 8)).toNat % 64 = 8 * index := by
    rw [UInt64.toNat_ofNat', Nat.mod_eq_of_lt (by omega), Nat.mod_eq_of_lt (by omega)]
    omega
  have placed : byte.toNat * 2 ^ (8 * index) < 2 ^ 64 := by
    calc byte.toNat * 2 ^ (8 * index) < 2 ^ 8 * 2 ^ (8 * index) :=
          Nat.mul_lt_mul_of_pos_right bits (Nat.two_pow_pos _)
      _ = 2 ^ (8 + 8 * index) := (Nat.pow_add 2 8 (8 * index)).symm
      _ ≤ 2 ^ 64 := Nat.pow_le_pow_right (by decide) (by omega)
  rw [UInt64.toNat_or, UInt64.toNat_shiftLeft, shift, UInt8.toNat_toUInt64, Nat.shiftLeft_eq,
    Nat.mod_eq_of_lt placed, Nat.lor_comm, Nat.mul_comm, ← Nat.two_pow_add_eq_or_of_lt small]
  omega

theorem load_u64_exact (bytes : List UInt8) (fits : bytes.length ≤ 8) :
    (loadU64LittleEndian bytes).toNat = littleEndian bytes := by
  have loop : ∀ (rest : List UInt8) (index : Nat) (value : UInt64), index + rest.length ≤ 8 →
      value.toNat < 2 ^ (8 * index) →
      ((rest.zipIdx index).foldl
        (fun value entry => value |||
          entry.1.toUInt64 <<< UInt64.ofNat (entry.2 * 8)) value).toNat =
          value.toNat + 2 ^ (8 * index) * littleEndian rest := by
    intro rest
    induction rest with
    | nil => simp [littleEndian]
    | cons byte others ih =>
      intro index value room small
      rw [List.length_cons] at room
      have step := load_step value byte index (by omega) small
      have bits := byte.toNat_lt
      have next : (value ||| byte.toUInt64 <<< UInt64.ofNat (index * 8)).toNat <
          2 ^ (8 * (index + 1)) := by
        have power : (2 : Nat) ^ (8 * (index + 1)) = 2 ^ (8 * index) * 256 := by
          rw [Nat.mul_add, Nat.pow_add]
        have scaled := Nat.mul_le_mul_left (2 ^ (8 * index)) (Nat.le_of_lt_succ bits)
        rw [step, power]
        omega
      rw [List.zipIdx_cons, List.foldl_cons, ih (index + 1) _ (by omega) next, step, littleEndian]
      have power : (2 : Nat) ^ (8 * (index + 1)) = 2 ^ (8 * index) * 256 := by
        rw [Nat.mul_add, Nat.pow_add]
      rw [power]
      ring
  simpa [loadU64LittleEndian] using loop bytes 0 0 (by simpa using fits) (by decide)

theorem from_chars_exact (text rest : List UInt8) (parsed : UInt64)
    (converted : fromChars text = some (parsed, rest)) :
    ∃ digits, text = digits ++ rest ∧ parsed.toNat = decimal digits := by
  unfold fromChars at converted
  dsimp only at converted
  split at converted
  next => exact absurd converted (by simp)
  next =>
    split at converted
    next => exact absurd converted (by simp)
    next fits =>
      simp only [Option.some.injEq, Prod.mk.injEq] at converted
      obtain ⟨rfl, rfl⟩ := converted
      refine ⟨_, (List.takeWhile_append_dropWhile).symm, ?_⟩
      rw [UInt64.toNat_ofNat', Nat.mod_eq_of_lt (by omega)]

/-- A number of the header is read exactly or not at all. -/
theorem parse_unsigned_exact (value : JsonValue) (parsed : UInt64)
    (accepted : parseUnsigned value = .ok parsed) :
    ∃ text, value = .number text ∧ parsed.toNat = decimal text := by
  unfold parseUnsigned at accepted
  split at accepted
  next text =>
    split at accepted
    next => exact absurd accepted (by simp)
    next =>
      split at accepted
      next number converted =>
        obtain rfl := Except.ok.inj accepted
        obtain ⟨digits, split, exact⟩ := from_chars_exact text [] number converted
        rw [List.append_nil] at split
        subst split
        exact ⟨text, rfl, exact⟩
      next => exact absurd accepted (by simp)
  next => exact absurd accepted (by simp)

theorem span_size_exact (bytes : ByteSpan) : bytes.size.toNat = bytes.data.length := by
  rw [ByteSpan.size, UInt64.toNat_ofNat', Nat.mod_eq_of_lt bytes.addressable]

/-! ## Records -/

/-- A record carries the exact numbers of its member of the header. -/
structure ReadFrom (value : JsonValue) (record : TensorRecord) : Prop where
  shape : ∃ texts : List (List UInt8),
    value.find (ascii "shape") = some (.array (texts.map JsonValue.number)) ∧
    record.shape.dims.map UInt64.toNat = texts.map decimal
  offsets : ∃ first second,
    value.find (ascii "data_offsets") = some (.array [.number first, .number second]) ∧
      record.beginAt.toNat = decimal first ∧ record.endAt.toNat = decimal second

/-- What the checks of one record establish, over exact numbers. -/
structure RecordSound (dataSize : UInt64) (record : TensorRecord) : Prop where
  named : record.name ≠ []
  ordered : record.beginAt.toNat ≤ record.endAt.toNat
  bounded : record.endAt.toNat ≤ dataSize.toNat
  length : (record.endAt - record.beginAt).toNat = record.endAt.toNat - record.beginAt.toNat
  sized : record.endAt.toNat - record.beginAt.toNat =
    record.shape.elements * record.dtype.size
  products : record.shape.Exact

private theorem parse_extents (values : List JsonValue) (extents : List UInt64)
    (parsed : values.mapM parseUnsigned = .ok extents) :
    ∃ texts : List (List UInt8), values = texts.map JsonValue.number ∧
      extents.map UInt64.toNat = texts.map decimal := by
  induction values generalizing extents with
  | nil =>
    obtain rfl := Except.ok.inj parsed
    exact ⟨[], rfl, rfl⟩
  | cons value others ih =>
    rw [List.mapM_cons] at parsed
    cases first : parseUnsigned value with
    | error status => rw [first] at parsed; exact absurd parsed (by simp [bind, Except.bind])
    | ok extent =>
      cases rest : others.mapM parseUnsigned with
      | error status =>
        rw [first, rest] at parsed
        exact absurd parsed (by simp [bind, Except.bind])
      | ok tail =>
        rw [first, rest] at parsed
        simp only [bind, Except.bind, pure, Except.pure, Except.ok.injEq] at parsed
        subst parsed
        obtain ⟨text, rfl, exact⟩ := parse_unsigned_exact value extent first
        obtain ⟨texts, rfl, exacts⟩ := ih tail rest
        exact ⟨text :: texts, rfl, by simp [exact, exacts]⟩

theorem parse_tensor_record_ok (name : List UInt8) (value : JsonValue) (dataSize : UInt64)
    (record : TensorRecord) (parsed : parseTensorRecord name value dataSize = .ok record) :
    record.name = name ∧ ReadFrom value record ∧ RecordSound dataSize record := by
  unfold parseTensorRecord at parsed
  split at parsed
  next members =>
    split at parsed
    next => exact absurd parsed (by simp)
    next named =>
      split at parsed
      next dtypeValue shapeValues beginValue endValue _ shapeFound offsetsFound =>
        split at parsed
        next => exact absurd parsed (by simp)
        next =>
          -- the steps of the parser in order; each that succeeded leaves a fact about the record
          unfold parseTensorFields at parsed
          obtain ⟨dtype, _, parsed⟩ := bind_eq_ok.mp parsed
          obtain ⟨extents, read, parsed⟩ := bind_eq_ok.mp parsed
          obtain ⟨shape, made, parsed⟩ := bind_eq_ok.mp parsed
          obtain ⟨beginAt, begins, parsed⟩ := bind_eq_ok.mp parsed
          obtain ⟨endAt, ends, parsed⟩ := bind_eq_ok.mp parsed
          split at parsed
          next => exact absurd parsed (by simp)
          next range =>
            obtain ⟨expectedBytes, counted, parsed⟩ := bind_eq_ok.mp parsed
            split at parsed
            next => exact absurd parsed (by simp)
            next matches_ =>
              obtain rfl := Except.ok.inj parsed
              obtain ⟨texts, rfl, exacts⟩ := parse_extents shapeValues extents read
              obtain ⟨first, rfl, exactBegin⟩ := parse_unsigned_exact beginValue beginAt begins
              obtain ⟨second, rfl, exactEnd⟩ := parse_unsigned_exact endValue endAt ends
              obtain ⟨product, products⟩ := checked_nbytes_ok shape dtype expectedBytes counted
              -- the range check keeps the subtraction of the offsets from wrapping
              rw [not_or, UInt64.not_lt, UInt64.not_lt, UInt64.le_iff_toNat_le,
                UInt64.le_iff_toNat_le] at range
              have length : (endAt - beginAt).toNat = endAt.toNat - beginAt.toNat :=
                UInt64.toNat_sub_of_le _ _ (UInt64.le_iff_toNat_le.mpr range.1)
              have same : expectedBytes = endAt - beginAt := by simpa using matches_
              refine ⟨rfl, ⟨⟨texts, shapeFound, ?_⟩, first, second, offsetsFound, exactBegin,
                exactEnd⟩, ?_⟩
              · rw [make_shape_dims extents shape made, exacts]
              · exact ⟨fun empty => named (Or.inl empty), range.1, range.2, length,
                  by rw [← length, ← same, product], products⟩
      next => exact absurd parsed (by simp)
  next => exact absurd parsed (by simp)

/-- The records are those of the members other than `__metadata__`, in their order. -/
theorem parse_records_ok (dataSize : UInt64) (members : List (List UInt8 × JsonValue))
    (records result : List TensorRecord)
    (parsed : parseRecords dataSize members records = .ok result) :
    ∃ added, result = records ++ added ∧
      (added.map TensorRecord.name).Sublist (members.map Prod.fst) ∧
        ∀ record ∈ added, RecordSound dataSize record ∧
          ∃ value, (record.name, value) ∈ members ∧ ReadFrom value record := by
  induction members generalizing records with
  | nil =>
    obtain rfl := Except.ok.inj parsed
    exact ⟨[], by simp⟩
  | cons member members ih =>
    obtain ⟨name, value⟩ := member
    have widen : ∀ record : TensorRecord,
        (∃ value, (record.name, value) ∈ members ∧ ReadFrom value record) →
          ∃ other, (record.name, other) ∈ (name, value) :: members ∧ ReadFrom other record := by
      rintro record ⟨other, listed, read⟩
      exact ⟨other, by simp [listed], read⟩
    simp only [parseRecords] at parsed
    split at parsed
    next =>
      split at parsed
      next =>
        obtain ⟨added, same, names, sound⟩ := ih records parsed
        refine ⟨added, same, names.cons name, fun record listed => ?_⟩
        exact ⟨(sound record listed).1, widen record (sound record listed).2⟩
      next => exact absurd parsed (by simp)
    next =>
      split at parsed
      next => exact absurd parsed (by simp)
      next record accepted =>
        obtain ⟨rfl, read, sound⟩ := parse_tensor_record_ok name value dataSize record accepted
        obtain ⟨added, same, names, others⟩ := ih (records ++ [record]) parsed
        refine ⟨record :: added, by simpa using same, names.cons_cons _, fun other listed => ?_⟩
        rcases List.mem_cons.mp listed with rfl | later
        · exact ⟨sound, value, by simp, read⟩
        · exact ⟨(others other later).1, widen other (others other later).2⟩

/-! ## Coverage -/

/-- The byte offsets of a record, relative to the data region. -/
abbrev RecordCovers : TensorRecord → Nat → Prop :=
  Library.Covers (fun record => record.beginAt.toNat) fun record => record.endAt.toNat

theorem coverage_tiles (dataSize expectedBegin : UInt64) (ordered : List TensorRecord)
    (sound : ∀ record ∈ ordered, RecordSound dataSize record)
    (covered : (coverageLoop dataSize expectedBegin ordered).isOk = true) :
    Tiles (fun record : TensorRecord => record.beginAt.toNat) (fun record => record.endAt.toNat)
      expectedBegin.toNat ordered dataSize.toNat := by
  induction ordered generalizing expectedBegin with
  | nil =>
    simp only [coverageLoop] at covered
    split at covered
    next => exact absurd covered (by decide)
    next same =>
      obtain rfl : expectedBegin = dataSize := by simpa using same
      exact Tiles.done _
  | cons record others ih =>
    simp only [coverageLoop] at covered
    split at covered
    next => exact absurd covered (by decide)
    next same =>
      obtain rfl : record.beginAt = expectedBegin := by simpa using same
      apply Tiles.next record others _ (sound record (by simp)).ordered
      exact ih record.endAt (fun other listed => sound other (by simp [listed])) covered

private theorem coverage_spans (dataSize expectedBegin : UInt64) (left right : List TensorRecord)
    (same : left.map (fun record => (record.beginAt, record.endAt)) =
      right.map fun record => (record.beginAt, record.endAt)) :
    coverageLoop dataSize expectedBegin left = coverageLoop dataSize expectedBegin right := by
  induction left generalizing right expectedBegin with
  | nil =>
    obtain rfl : right = [] := by simpa using same.symm
    rfl
  | cons record others ih =>
    cases right with
    | nil => exact absurd same (by simp)
    | cons other rest =>
      simp only [List.map_cons, List.cons.injEq, Prod.mk.injEq] at same
      obtain ⟨⟨begins, ends⟩, tails⟩ := same
      simp only [coverageLoop, begins, ends, ih _ rest tails]

private theorem record_le_trans (a b c : TensorRecord) (first : recordLe a b)
    (second : recordLe b c) : recordLe a c := by
  simp only [recordLe, UInt64.lt_iff_toNat_lt, UInt64.le_iff_toNat_le, ← UInt64.toNat_inj] at *
  omega

private theorem record_le_total (a b : TensorRecord) : recordLe a b ∨ recordLe b a := by
  simp only [recordLe, UInt64.lt_iff_toNat_lt, UInt64.le_iff_toNat_le, ← UInt64.toNat_inj]
  omega

/-- The check does not depend on how the sort orders records that tie. -/
theorem coverage_any_order (dataSize : UInt64) (records ordered : List TensorRecord)
    (permuted : ordered.Perm records) (sorted : ordered.Pairwise recordLe) :
    coverageLoop dataSize 0 ordered = validateExactCoverage records dataSize := by
  have total : Std.Total recordLe := ⟨record_le_total⟩
  have transitive : IsTrans TensorRecord recordLe := ⟨record_le_trans⟩
  have inserted := List.pairwise_insertionSort recordLe records
  -- the spans of both orders are the same sorted list, as the order on spans is antisymmetric
  have spanLe : ∀ left : List TensorRecord, left.Pairwise recordLe →
      (left.map fun record => (record.beginAt, record.endAt)).Pairwise
        fun a b : UInt64 × UInt64 => a.1 < b.1 ∨ (a.1 = b.1 ∧ a.2 ≤ b.2) :=
    fun left pairwise => List.pairwise_map.mpr pairwise
  apply coverage_spans
  apply List.Perm.eq_of_pairwise _ (spanLe ordered sorted) (spanLe _ inserted)
  · exact (permuted.trans (List.perm_insertionSort recordLe records).symm).map _
  · rintro ⟨a, b⟩ ⟨c, d⟩ _ _ first second
    simp only [Prod.mk.injEq, UInt64.lt_iff_toNat_lt, UInt64.le_iff_toNat_le,
      ← UInt64.toNat_inj] at *
    omega

/-! ## Accepted files -/

/-- The JSON text of a file. -/
def headerText (bytes : ByteSpan) : List UInt8 :=
  (bytes.data.drop 8).take (littleEndian (bytes.data.take 8))

/-- What the metadata of an accepted file guarantees. Offsets and sizes are natural numbers, so
that every equation also says that the machine computed it without wrapping. -/
structure MetadataSound (bytes : ByteSpan) (metadata : SafeTensorMetadata) : Prop where
  header : metadata.dataStart.toNat = 8 + littleEndian (bytes.data.take 8)
  region : (bytes.size - metadata.dataStart).toNat = bytes.data.length - metadata.dataStart.toNat
  distinct : (metadata.records.map TensorRecord.name).Nodup
  records : ∀ record ∈ metadata.records, RecordSound (bytes.size - metadata.dataStart) record
  read : ∃ members, parseJson (headerText bytes) = .ok (.object members) ∧
    ∀ record ∈ metadata.records, ∃ value, (record.name, value) ∈ members ∧ ReadFrom value record
  placed : ∀ record ∈ metadata.records,
    (metadata.dataStart + record.beginAt).toNat =
        metadata.dataStart.toNat + record.beginAt.toNat ∧
      metadata.dataStart.toNat + record.endAt.toNat ≤ bytes.data.length
  tiled : ∀ offset < bytes.data.length - metadata.dataStart.toNat,
    ∃! record, record ∈ metadata.records ∧ RecordCovers record offset

private theorem header_exact (bytes : ByteSpan) (long : ¬bytes.size < 8)
    (enough : ¬bytes.size - 8 < loadU64LittleEndian (bytes.data.take 8)) :
    (8 + loadU64LittleEndian (bytes.data.take 8)).toNat =
        8 + littleEndian (bytes.data.take 8) ∧
      8 + littleEndian (bytes.data.take 8) ≤ bytes.data.length := by
  have exact := load_u64_exact (bytes.data.take 8) (by simp)
  have size := span_size_exact bytes
  have bound := bytes.size.toNat_lt
  rw [UInt64.not_lt, UInt64.le_iff_toNat_le] at long enough
  have behind : (bytes.size - 8).toNat = bytes.size.toNat - 8 :=
    UInt64.toNat_sub_of_le _ _ (UInt64.le_iff_toNat_le.mpr long)
  have eight : (8 : UInt64).toNat = 8 := rfl
  rw [behind, exact] at enough
  rw [eight] at long
  refine ⟨?_, by omega⟩
  rw [UInt64.toNat_add, eight, exact, Nat.mod_eq_of_lt (by omega)]

/-- The length of the JSON text, as the first eight bytes state it. -/
def headerLength (bytes : ByteSpan) : Nat := littleEndian (bytes.data.take 8)

/-- The size of the data region. -/
def regionSize (bytes : ByteSpan) : UInt64 :=
  UInt64.ofNat (bytes.data.length - (8 + headerLength bytes))

/-- What the metadata parser asks of a file, over exact numbers. -/
structure FileAccepted (bytes : ByteSpan) (maximumHeaderBytes : UInt64)
    (metadata : SafeTensorMetadata) (members : List (List UInt8 × JsonValue)) : Prop where
  long : 8 ≤ bytes.data.length
  limit : headerLength bytes ≤ maximumHeaderBytes.toNat
  inside : 8 + headerLength bytes ≤ bytes.data.length
  opens : (headerText bytes).head? = some Byte.openBrace
  json : parseJson (headerText bytes) = .ok (.object members)
  records : parseRecords (regionSize bytes) members [] = .ok metadata.records
  covered : (validateExactCoverage metadata.records (regionSize bytes)).isOk = true
  start : metadata.dataStart.toNat = 8 + headerLength bytes

/-- The parser accepts exactly the files that pass its checks. -/
theorem parse_metadata_iff (bytes : ByteSpan) (maximumHeaderBytes : UInt64)
    (metadata : SafeTensorMetadata) :
    parseSafetensorsMetadata bytes maximumHeaderBytes = .ok metadata ↔
      ∃ members, FileAccepted bytes maximumHeaderBytes metadata members := by
  have exact := load_u64_exact (bytes.data.take 8) (by simp)
  have size := span_size_exact bytes
  have room := bytes.addressable
  have eight : (8 : UInt64).toNat = 8 := rfl
  have widest : ((0xffffffffffffffff : UInt64)).toNat = 2 ^ 64 - 1 := rfl
  have word := (loadU64LittleEndian (bytes.data.take 8)).toNat_lt
  -- The size of the data region, once the header is known to lie in the file.
  have region : ¬bytes.size < 8 → ¬bytes.size - 8 < loadU64LittleEndian (bytes.data.take 8) →
      bytes.size - (8 + loadU64LittleEndian (bytes.data.take 8)) = regionSize bytes := by
    intro long enough
    obtain ⟨start, inside⟩ := header_exact bytes long enough
    rw [← UInt64.toNat_inj, UInt64.toNat_sub_of_le _ _ (UInt64.le_iff_toNat_le.mpr (by omega)),
      start, size, regionSize, UInt64.toNat_ofNat', headerLength, Nat.mod_eq_of_lt (by omega)]
  have text : (bytes.data.drop 8).take (loadU64LittleEndian (bytes.data.take 8)).toNat =
      headerText bytes := by
    rw [exact, headerText]
  constructor
  · intro accepted
    unfold parseSafetensorsMetadata at accepted
    split at accepted
    next => exact absurd accepted (by simp)
    next long =>
      dsimp only at accepted
      split at accepted
      next => exact absurd accepted (by simp)
      next limited =>
        split at accepted
        next => exact absurd accepted (by simp)
        next enough =>
          obtain ⟨start, inside⟩ := header_exact bytes long enough
          rw [text, region long enough] at accepted
          split at accepted
          next => exact absurd accepted (by simp)
          next opens =>
            split at accepted
            next => exact absurd accepted (by simp)
            next members json =>
              split at accepted
              next => exact absurd accepted (by simp)
              next records parsed =>
                split at accepted
                next covered =>
                  obtain rfl := Except.ok.inj accepted
                  rw [not_or, UInt64.not_lt, UInt64.le_iff_toNat_le, exact] at limited
                  exact ⟨members, by omega, limited.1, inside, by simpa using opens, json, parsed,
                    covered, start⟩
                next => exact absurd accepted (by simp)
            next => exact absurd accepted (by simp)
  · rintro ⟨members, long, limit, inside, opens, json, parsed, covered, start⟩
    rw [headerLength] at limit inside start
    have unprefixed : ¬bytes.size < 8 := by
      rw [UInt64.lt_iff_toNat_lt]
      omega
    have enough : ¬bytes.size - 8 < loadU64LittleEndian (bytes.data.take 8) := by
      rw [UInt64.lt_iff_toNat_lt, UInt64.toNat_sub_of_le _ _ (UInt64.not_lt.mp unprefixed)]
      omega
    have limited : ¬(maximumHeaderBytes < loadU64LittleEndian (bytes.data.take 8) ∨
        0xffffffffffffffff < loadU64LittleEndian (bytes.data.take 8)) := by
      rw [UInt64.lt_iff_toNat_lt, UInt64.lt_iff_toNat_lt]
      omega
    have begins : 8 + loadU64LittleEndian (bytes.data.take 8) = metadata.dataStart := by
      rw [← UInt64.toNat_inj, (header_exact bytes unprefixed enough).1, start]
    rw [parseSafetensorsMetadata, if_neg unprefixed]
    dsimp only
    rw [if_neg limited, if_neg enough, text, if_neg (by simp [opens]), json]
    dsimp only
    rw [region unprefixed enough, parsed]
    dsimp only
    rw [if_pos covered, begins]

theorem region_size_exact (bytes : ByteSpan) :
    (regionSize bytes).toNat = bytes.data.length - (8 + headerLength bytes) := by
  have room := bytes.addressable
  rw [regionSize, UInt64.toNat_ofNat', Nat.mod_eq_of_lt (by omega)]

theorem parse_metadata_sound (bytes : ByteSpan) (maximumHeaderBytes : UInt64)
    (metadata : SafeTensorMetadata)
    (accepted : parseSafetensorsMetadata bytes maximumHeaderBytes = .ok metadata) :
    MetadataSound bytes metadata := by
  obtain ⟨members, file⟩ := (parse_metadata_iff _ _ _).mp accepted
  have size := span_size_exact bytes
  have room := bytes.addressable
  have start := file.start
  have inside := file.inside
  have exactSize := region_size_exact bytes
  have same : bytes.size - metadata.dataStart = regionSize bytes := by
    rw [← UInt64.toNat_inj, UInt64.toNat_sub_of_le _ _ (UInt64.le_iff_toNat_le.mpr (by omega))]
    omega
  have region : (bytes.size - metadata.dataStart).toNat =
      bytes.data.length - metadata.dataStart.toNat := by
    rw [same]
    omega
  obtain ⟨added, listed, names, each⟩ := parse_records_ok _ members [] _ file.records
  rw [List.nil_append] at listed
  rw [← listed] at names each
  have sound := fun record listed => (each record listed).1
  have unique := ((parse_json_exact _ _).mp file.json).2.2.1
  have sorted := List.perm_insertionSort recordLe metadata.records
  have tiles := coverage_tiles _ 0 _ (fun record listed =>
    sound record (sorted.mem_iff.mp listed)) file.covered
  refine ⟨start, region, names.nodup (unique 0 members (JsonValue.Inside.here _)),
    same ▸ sound, ⟨members, file.json, fun record listed => (each record listed).2⟩, ?_, ?_⟩
  · intro record listed
    have bounded := (sound record listed).bounded
    have ordered := (sound record listed).ordered
    refine ⟨?_, by omega⟩
    rw [UInt64.toNat_add, Nat.mod_eq_of_lt (by omega)]
  · intro offset within
    obtain ⟨record, listed, covers⟩ := tiles.covered offset (Nat.zero_le _) (by omega)
    refine ⟨record, ⟨sorted.mem_iff.mp listed, covers⟩, ?_⟩
    rintro other ⟨otherListed, otherCovers⟩
    exact tiles.unique other record offset (sorted.mem_iff.mpr otherListed) listed
      otherCovers covers

/-- The sizes of the records add up to the size of the data region. -/
theorem records_total {bytes : ByteSpan} {maximumHeaderBytes : UInt64}
    {metadata : SafeTensorMetadata} {members : List (List UInt8 × JsonValue)}
    (file : FileAccepted bytes maximumHeaderBytes metadata members) :
    (metadata.records.map fun record => record.shape.elements * record.dtype.size).sum =
      (regionSize bytes).toNat := by
  obtain ⟨added, listed, _, each⟩ := parse_records_ok _ members [] _ file.records
  rw [List.nil_append] at listed
  subst listed
  have sorted := List.perm_insertionSort recordLe metadata.records
  have tiles := coverage_tiles _ 0 _ (fun record member =>
    (each record (sorted.mem_iff.mp member)).1) file.covered
  have sizes := tiles.total
  rw [(sorted.map _).sum_eq, show (0 : UInt64).toNat = 0 from rfl, Nat.zero_add] at sizes
  rw [← sizes]
  congr 1
  refine List.map_congr_left fun record member => ?_
  exact (each record member).1.sized.symm

/-! ## Views -/

/-- The bytes of the mapping that a view spans. -/
def Spans (view : ConstTensorView UInt64) (offset : Nat) : Prop :=
  view.data.toNat ≤ offset ∧
    offset < view.data.toNat + view.shape.elements * view.dtype.size

/-- Views lie in the mapping, and those of different tensors share no byte. -/
structure ViewsSound (file : SafeTensorFile) : Prop where
  inside : ∀ name view, file.tensor name = .ok view →
    view.data.toNat + view.shape.elements * view.dtype.size ≤ file.mapping.data.length
  apart : ∀ first second firstView secondView, first ≠ second →
    file.tensor first = .ok firstView → file.tensor second = .ok secondView →
      ∀ offset, ¬(Spans firstView offset ∧ Spans secondView offset)

/-- A view spans the bytes of the record of its name. -/
private theorem tensor_record (file : SafeTensorFile)
    (sound : MetadataSound file.mapping file.metadata)
    (name : List UInt8) (view : ConstTensorView UInt64) (found : file.tensor name = .ok view) :
    ∃ record ∈ file.metadata.records, record.name = name ∧
      view.data.toNat = file.metadata.dataStart.toNat + record.beginAt.toNat ∧
      view.shape.elements * view.dtype.size = record.endAt.toNat - record.beginAt.toNat := by
  unfold SafeTensorFile.tensor at found
  split at found
  next => exact absurd found (by simp)
  next record listed =>
    have member := List.mem_of_find?_eq_some listed
    have named := List.find?_some listed
    dsimp only at found
    split at found
    next => exact absurd found (by simp)
    next =>
      obtain rfl := Except.ok.inj found
      exact ⟨record, member, by simpa using named, (sound.placed record member).1,
        (sound.records record member).sized.symm⟩

theorem views_sound (file : SafeTensorFile) (sound : MetadataSound file.mapping file.metadata) :
    ViewsSound file := by
  refine ⟨?_, ?_⟩
  · intro name view found
    obtain ⟨record, member, _, starts, length⟩ := tensor_record file sound name view found
    have ordered := (sound.records record member).ordered
    have placed := (sound.placed record member).2
    omega
  · rintro first second firstView secondView different firstFound secondFound offset
      ⟨⟨firstLow, firstHigh⟩, ⟨secondLow, secondHigh⟩⟩
    obtain ⟨one, oneListed, rfl, oneStarts, oneLength⟩ :=
      tensor_record file sound first firstView firstFound
    obtain ⟨other, otherListed, rfl, otherStarts, otherLength⟩ :=
      tensor_record file sound second secondView secondFound
    have oneOrdered := (sound.records one oneListed).ordered
    have otherOrdered := (sound.records other otherListed).ordered
    have onePlaced := (sound.placed one oneListed).2
    -- the shared byte would lie in two records of the data region
    obtain ⟨_, _, unique⟩ := sound.tiled (offset - file.metadata.dataStart.toNat) (by omega)
    have oneSame := unique one ⟨oneListed, by dsimp only; omega, by dsimp only; omega⟩
    have otherSame := unique other ⟨otherListed, by dsimp only; omega, by dsimp only; omega⟩
    exact different (by rw [oneSame, otherSame])

/-- Whenever the metadata of a file is accepted, its records tile the data region with exact
sizes, and the views of the file lie in the mapping without overlap. -/
theorem safetensors_sound (bytes : ByteSpan) (maximumHeaderBytes : UInt64)
    (metadata : SafeTensorMetadata)
    (accepted : parseSafetensorsMetadata bytes maximumHeaderBytes = .ok metadata) :
    MetadataSound bytes metadata ∧
      SafeTensorFile.parse bytes maximumHeaderBytes = .ok ⟨bytes, metadata⟩ ∧
        ViewsSound ⟨bytes, metadata⟩ := by
  have sound := parse_metadata_sound bytes maximumHeaderBytes metadata accepted
  refine ⟨sound, ?_, views_sound ⟨bytes, metadata⟩ sound⟩
  simp only [SafeTensorFile.parse, accepted]

/-- A file of two tensors, listed against their order in the data region. -/
def twoTensors : ByteSpan where
  data := [109, 0, 0, 0, 0, 0, 0, 0] ++
    ascii "\x7b\"b\":\x7b\"dtype\":\"F32\",\"shape\":[1,2],\"data_offsets\":[3,11]\x7d,"  ++
    ascii "\"a\":\x7b\"dtype\":\"I8\",\"shape\":[3],\"data_offsets\":[0,3]\x7d\x7d" ++
    List.replicate 11 0
  addressable := by decide +kernel

def twoTensorRecords : SafeTensorMetadata where
  dataStart := 117
  records :=
    [{ name := ascii "b", dtype := .f32, shape := ⟨#v[1, 2, 0, 0, 0, 0], 2⟩,
       beginAt := 3, endAt := 11 },
      { name := ascii "a", dtype := .i8, shape := ⟨#v[3, 0, 0, 0, 0, 0], 1⟩,
        beginAt := 0, endAt := 3 }]

theorem safetensors_sound_two_tensors :
    parseSafetensorsMetadata twoTensors 4096 = .ok twoTensorRecords ∧
      MetadataSound twoTensors twoTensorRecords ∧
        SafeTensorFile.parse twoTensors 4096 = .ok ⟨twoTensors, twoTensorRecords⟩ ∧
          ViewsSound ⟨twoTensors, twoTensorRecords⟩ :=
  have accepted : parseSafetensorsMetadata twoTensors 4096 = .ok twoTensorRecords := by
    decide +kernel
  ⟨accepted, safetensors_sound twoTensors 4096 twoTensorRecords accepted⟩

end MarketForge.Model
