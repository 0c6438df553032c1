import MarketForge.Model.JsonUtf8
import MarketForge.Model.SafetensorsSound

/-!
# Every legal safetensors file is accepted

What a file says about its tensors, as a relation between a list of descriptors and the bytes of
the file, and the converse of the soundness of the parser: from any such file it reads back the
descriptors.
-/
namespace MarketForge.Model

open Library

/-! ## Legal files -/

structure TensorDescriptor where
  name : List UInt8
  dtype : DType
  extents : List UInt64
  beginAt : UInt64
  endAt : UInt64
  deriving DecidableEq, Repr

namespace TensorDescriptor

/-- The size in bytes, without the bound of a machine word. -/
def size (tensor : TensorDescriptor) : Nat :=
  (tensor.extents.map UInt64.toNat).prod * tensor.dtype.size

/-- The record the parser makes of the descriptor. -/
def record (tensor : TensorDescriptor) : TensorRecord where
  name := tensor.name
  dtype := tensor.dtype
  shape := .ofExtents tensor.extents
  beginAt := tensor.beginAt
  endAt := tensor.endAt

end TensorDescriptor

def metadataName : List UInt8 := ascii "__metadata__"

/-- Tensors that may share a file with a data region of that size. -/
structure LegalTensors (tensors : List TensorDescriptor) (dataSize : Nat) : Prop where
  distinct : (tensors.map TensorDescriptor.name).Nodup
  named : ∀ tensor ∈ tensors, tensor.name ≠ [] ∧ tensor.name ≠ metadataName
  rank : ∀ tensor ∈ tensors, tensor.extents.length ≤ Shape.maxRank
  products : ∀ tensor ∈ tensors, ∀ count,
    ((tensor.extents.take count).map UInt64.toNat).prod < 2 ^ 64
  sized : ∀ tensor ∈ tensors, tensor.endAt.toNat = tensor.beginAt.toNat + tensor.size
  tiled : ∃ ordered, ordered.Perm tensors ∧
    Tiles (fun tensor : TensorDescriptor => tensor.beginAt.toNat)
      (fun tensor => tensor.endAt.toNat) 0 ordered dataSize

def dtypeName : DType → String
  | .f32 => "F32"
  | .f16 => "F16"
  | .bf16 => "BF16"
  | .i8 => "I8"
  | .i32 => "I32"
  | .u32 => "U32"

/-- A JSON integer without a sign that denotes the number. -/
def Denotes (number : UInt64) (value : JsonValue) : Prop :=
  ∃ text, value = .number text ∧ Integer text ∧ decimal text = number.toNat

/-- An object of the three fields of a tensor, in any order. -/
def Describes (tensor : TensorDescriptor) (value : JsonValue) : Prop :=
  ∃ fields shape first last, value = .object fields ∧
    fields.Perm [(ascii "dtype", .string (ascii (dtypeName tensor.dtype))),
      (ascii "shape", .array shape), (ascii "data_offsets", .array [first, last])] ∧
    List.Forall₂ Denotes tensor.extents shape ∧ Denotes tensor.beginAt first ∧
    Denotes tensor.endAt last

/-- The members of a header: one for each tensor, in their order, and between them any members
named `__metadata__` whose values are objects of strings. -/
inductive HeaderMembers : List TensorDescriptor → List (List UInt8 × JsonValue) → Prop where
  | nil : HeaderMembers [] []
  | tensor (tensor : TensorDescriptor) (value : JsonValue) (tensors : List TensorDescriptor)
      (members : List (List UInt8 × JsonValue)) (describes : Describes tensor value)
      (others : HeaderMembers tensors members) :
      HeaderMembers (tensor :: tensors) ((tensor.name, value) :: members)
  | metadata (entries : List (List UInt8 × List UInt8)) (tensors : List TensorDescriptor)
      (members : List (List UInt8 × JsonValue)) (distinct : (entries.map Prod.fst).Nodup)
      (others : HeaderMembers tensors members) :
      HeaderMembers tensors
        ((metadataName, .object (entries.map fun entry => (entry.1, .string entry.2))) :: members)

/-- The bytes are a header length, a JSON text that starts with a brace and describes the tensors,
and a data region. `__metadata__` occurs at most once, as no name of the header occurs twice. -/
structure Encodes (tensors : List TensorDescriptor) (header region : List UInt8)
    (bytes : ByteSpan) : Prop where
  layout : ∃ lengthBytes : List UInt8, bytes.data = lengthBytes ++ header ++ region ∧
    lengthBytes.length = 8 ∧ littleEndian lengthBytes = header.length
  opens : header.head? = some Byte.openBrace
  members : ∃ members, JsonText header (.object members) ∧ HeaderMembers tensors members ∧
    (members.map Prod.fst).Nodup

/-! ## Numbers -/

private theorem integer_digits (text : List UInt8) (integer : Integer text) :
    text ≠ [] ∧ ∀ byte ∈ text, Digit byte := by
  cases integer with
  | zero => exact ⟨by simp, by decide +kernel⟩
  | positive first others digit _ digits => exact ⟨by simp, by simpa using ⟨digit, digits⟩⟩

/-- Integers of machine words are read back. -/
theorem parse_unsigned_accepts (number : UInt64) (value : JsonValue)
    (denotes : Denotes number value) : parseUnsigned value = .ok number := by
  obtain ⟨text, rfl, integer, exact⟩ := denotes
  obtain ⟨filled, digits⟩ := integer_digits text integer
  have allDigits : ∀ byte ∈ text, isDigit byte = true := fun byte listed =>
    (digit_iff byte).mpr (digits byte listed)
  have marks : ∀ mark : UInt8, isDigit mark = false → mark ∉ text := by
    intro mark other listed
    rw [allDigits mark listed] at other
    cases other
  have plain : ¬(text = [] ∨ text.head? = some Byte.minus
      ∨ text.any (fun byte => byte == Byte.dot || isExponent byte) = true) := by
    rintro (empty | signed | marked)
    · exact filled empty
    · exact marks Byte.minus (by decide) (List.mem_of_head? signed)
    · obtain ⟨byte, listed, mark⟩ := List.any_eq_true.mp marked
      simp only [isExponent, Bool.or_eq_true, beq_iff_eq] at mark
      rcases mark with rfl | rfl | rfl <;> exact marks _ (by decide) listed
  have taken : text.takeWhile isDigit = text := List.takeWhile_eq_self_iff.mpr allDigits
  have dropped : text.dropWhile isDigit = [] := List.dropWhile_eq_nil_iff.mpr allDigits
  have read : fromChars text = some (number, []) := by
    have bound := number.toNat_lt
    rw [fromChars, taken, dropped, if_neg filled, if_neg (by omega), exact, UInt64.ofNat_toNat]
  rw [parseUnsigned, if_neg plain, read]

theorem parse_dtype_accepts (dtype : DType) :
    parseDtype (.string (ascii (dtypeName dtype))) = .ok dtype := by
  cases dtype <;> decide

/-! ## Records -/

/-- In an object without repeated names every member is found. -/
theorem find_member (members : List (List UInt8 × JsonValue))
    (distinct : (members.map Prod.fst).Nodup) (key : List UInt8) (value : JsonValue)
    (listed : (key, value) ∈ members) : (JsonValue.object members).find key = some value := by
  rw [JsonValue.find]
  cases found : members.find? fun member => member.1 = key with
  | none => exact absurd (List.find?_eq_none.mp found _ listed) (by simp)
  | some member =>
    have named : member.1 = key := by simpa using List.find?_some found
    have same := List.inj_on_of_nodup_map distinct (List.mem_of_find?_eq_some found) listed named
    rw [same]
    rfl

private theorem field_names_nodup :
    [ascii "dtype", ascii "shape", ascii "data_offsets"].Nodup := by decide

theorem parse_tensor_fields_accepts (tensor : TensorDescriptor) (shape : List JsonValue)
    (first last : JsonValue) (dataSize : UInt64)
    (rank : tensor.extents.length ≤ Shape.maxRank)
    (products : ∀ count, ((tensor.extents.take count).map UInt64.toNat).prod < 2 ^ 64)
    (sized : tensor.endAt.toNat = tensor.beginAt.toNat + tensor.size)
    (inside : tensor.endAt.toNat ≤ dataSize.toNat)
    (extents : List.Forall₂ Denotes tensor.extents shape) (begins : Denotes tensor.beginAt first)
    (ends : Denotes tensor.endAt last) :
    parseTensorFields tensor.name (.string (ascii (dtypeName tensor.dtype))) shape first last
      dataSize = .ok tensor.record := by
  have dims := shape_of_extents_dims tensor.extents rank
  have made : Shape.ofExtents tensor.extents =
      .ofExtents (Shape.ofExtents tensor.extents).dims := by
    rw [dims]
  have elements : (Shape.ofExtents tensor.extents).elements * tensor.dtype.size = tensor.size := by
    rw [Shape.elements, dims, TensorDescriptor.size]
  have bound := tensor.endAt.toNat_lt
  obtain ⟨bytes, counted, exact⟩ :=
    checked_nbytes_made (.ofExtents tensor.extents) tensor.dtype made
    (by rwa [dims]) (fun count => by rw [dims]; exact products count) (by omega)
  have ordered : tensor.beginAt ≤ tensor.endAt := by
    rw [UInt64.le_iff_toNat_le]
    omega
  have range : ¬(tensor.endAt < tensor.beginAt ∨ dataSize < tensor.endAt) := by
    rw [UInt64.lt_iff_toNat_lt, UInt64.lt_iff_toNat_lt]
    omega
  have same : bytes = tensor.endAt - tensor.beginAt := by
    rw [← UInt64.toNat_inj, UInt64.toNat_sub_of_le _ _ ordered]
    omega
  have read : shape.mapM parseUnsigned = .ok tensor.extents :=
    (map_ok_iff _ _ _).mpr
      (extents.flip.imp fun value extent => parse_unsigned_accepts extent value)
  have shaped : makeShape tensor.extents = .ok (.ofExtents tensor.extents) := if_neg (by omega)
  rw [parseTensorFields, ok_bind _ (parse_dtype_accepts tensor.dtype), ok_bind _ read,
    ok_bind _ shaped, ok_bind _ (parse_unsigned_accepts _ _ begins),
    ok_bind _ (parse_unsigned_accepts _ _ ends), if_neg range, ok_bind _ counted,
    if_neg (by simp [same])]
  rfl

/-- The object that describes a tensor is read as the record of the tensor. -/
theorem parse_tensor_record_accepts (tensor : TensorDescriptor) (value : JsonValue)
    (dataSize : UInt64) (describes : Describes tensor value) (named : tensor.name ≠ [])
    (rank : tensor.extents.length ≤ Shape.maxRank)
    (products : ∀ count, ((tensor.extents.take count).map UInt64.toNat).prod < 2 ^ 64)
    (sized : tensor.endAt.toNat = tensor.beginAt.toNat + tensor.size)
    (inside : tensor.endAt.toNat ≤ dataSize.toNat) :
    parseTensorRecord tensor.name value dataSize = .ok tensor.record := by
  obtain ⟨fields, shape, first, last, rfl, permuted, extents, begins, ends⟩ := describes
  have distinct : (fields.map Prod.fst).Nodup := (permuted.map _).nodup_iff.mpr field_names_nodup
  have find := fun key value listed => find_member fields distinct key value
    (permuted.mem_iff.mpr listed)
  have dtypeFound := find (ascii "dtype") (.string (ascii (dtypeName tensor.dtype))) (by simp)
  have shapeFound := find (ascii "shape") (.array shape) (by simp)
  have offsetsFound := find (ascii "data_offsets") (.array [first, last]) (by simp)
  have short : ¬Shape.maxRank < shape.length := by
    rw [← extents.length_eq]
    omega
  rw [parseTensorRecord, if_neg (by simp [named, permuted.length_eq]), dtypeFound, shapeFound,
    offsetsFound]
  dsimp only
  rw [if_neg short]
  exact parse_tensor_fields_accepts tensor shape first last dataSize rank products sized inside
    extents begins ends

/-- The members of a header are read as the records of the tensors, in their order. -/
theorem parse_records_accepts (dataSize : UInt64) (tensors : List TensorDescriptor)
    (members : List (List UInt8 × JsonValue)) (records : List TensorRecord)
    (described : HeaderMembers tensors members)
    (each : ∀ tensor ∈ tensors, tensor.name ≠ metadataName ∧ ∀ value, Describes tensor value →
      parseTensorRecord tensor.name value dataSize = .ok tensor.record) :
    parseRecords dataSize members records =
      .ok (records ++ tensors.map TensorDescriptor.record) := by
  induction described generalizing records with
  | nil => simp [parseRecords]
  | tensor tensor value tensors members describes _ ih =>
    obtain ⟨ordinary, accepts⟩ := each tensor (by simp)
    rw [metadataName] at ordinary
    rw [parseRecords, if_neg ordinary, accepts value describes]
    dsimp only
    rw [ih _ fun other listed => each other (by simp [listed]), List.map_cons, List.append_assoc,
      List.singleton_append]
  | metadata entries tensors members _ _ ih =>
    have strings : validateMetadataObject
        (.object (entries.map fun entry => (entry.1, .string entry.2))) = .success := by
      rw [validateMetadataObject, if_pos]
      simp [JsonValue.isString]
    rw [parseRecords, if_pos (show metadataName = ascii "__metadata__" from rfl), strings]
    exact ih records each

/-! ## Coverage -/

/-- Tensors that tile the data region are covered exactly, whatever the order of the header. -/
theorem coverage_accepts (tensors : List TensorDescriptor) (dataSize : UInt64)
    (legal : LegalTensors tensors dataSize.toNat) :
    (validateExactCoverage (tensors.map TensorDescriptor.record) dataSize).isOk = true := by
  obtain ⟨ordered, permuted, tiled⟩ := legal.tiled
  have loop : ∀ (tensors : List TensorDescriptor) (expectedBegin : UInt64),
      Tiles (fun tensor : TensorDescriptor => tensor.beginAt.toNat)
        (fun tensor => tensor.endAt.toNat) expectedBegin.toNat tensors dataSize.toNat →
      coverageLoop dataSize expectedBegin (tensors.map TensorDescriptor.record) = .success := by
    intro tensors
    induction tensors with
    | nil =>
      intro expectedBegin tiles
      have ends : expectedBegin = dataSize := UInt64.toNat_inj.mp (Tiles.nil_iff.mp tiles)
      rw [List.map_nil, coverageLoop, if_neg (by simp [ends])]
    | cons tensor others ih =>
      intro expectedBegin tiles
      obtain ⟨start, _, behind⟩ := (Tiles.cons_iff tensor).mp tiles
      have same : tensor.beginAt = expectedBegin := UInt64.toNat_inj.mp start
      rw [List.map_cons, coverageLoop, if_neg (by simp [TensorDescriptor.record, same])]
      exact ih tensor.endAt behind
  have sorted : (ordered.map TensorDescriptor.record).Pairwise recordLe := by
    rw [List.pairwise_map]
    refine tiled.pairwise.imp_of_mem fun {left right} leftListed rightListed before => ?_
    have leftSized := legal.sized left (permuted.mem_iff.mp leftListed)
    have rightSized := legal.sized right (permuted.mem_iff.mp rightListed)
    simp only [recordLe, TensorDescriptor.record, UInt64.lt_iff_toNat_lt, UInt64.le_iff_toNat_le,
      ← UInt64.toNat_inj]
    omega
  rw [← coverage_any_order dataSize _ _ (permuted.map _) sorted, loop ordered 0 tiled]
  rfl

/-! ## Headers -/

theorem nested_below_mono (root : JsonValue) (levels : Nat) (nested : root.NestedBelow levels)
    (more : Nat) (enough : levels ≤ more) : root.NestedBelow more :=
  fun depth value inside => Nat.lt_of_lt_of_le (nested depth value inside) enough

/-- A value without children. -/
private theorem leaf_header (value : JsonValue) (leaf : value.children = [])
    (plain : ∀ members, value ≠ .object members) :
    value.UniqueNames ∧ value.NestedBelow 1 := by
  refine ⟨(JsonValue.unique_names_iff value).mpr ⟨?_, by simp [leaf]⟩,
    (JsonValue.nested_below_succ 0 value).mpr (by simp [leaf])⟩
  intro members same
  exact absurd same (plain members)

private theorem array_header (elements : List JsonValue) (levels : Nat)
    (each : ∀ element ∈ elements, element.UniqueNames ∧ element.NestedBelow levels) :
    (JsonValue.array elements).UniqueNames ∧
      (JsonValue.array elements).NestedBelow (levels + 1) := by
  refine ⟨(JsonValue.unique_names_iff _).mpr ⟨nofun, fun child listed => (each child listed).1⟩,
    (JsonValue.nested_below_succ levels _).mpr fun child listed => (each child listed).2⟩

private theorem object_header (members : List (List UInt8 × JsonValue)) (levels : Nat)
    (distinct : (members.map Prod.fst).Nodup)
    (each : ∀ member ∈ members, member.2.UniqueNames ∧ member.2.NestedBelow levels) :
    (JsonValue.object members).UniqueNames ∧
      (JsonValue.object members).NestedBelow (levels + 1) := by
  have children : ∀ child ∈ (JsonValue.object members).children,
      child.UniqueNames ∧ child.NestedBelow levels := by
    intro child listed
    obtain ⟨member, inside, rfl⟩ := List.mem_map.mp listed
    exact each member inside
  refine ⟨(JsonValue.unique_names_iff _).mpr ⟨?_, fun child listed => (children child listed).1⟩,
    (JsonValue.nested_below_succ levels _).mpr fun child listed => (children child listed).2⟩
  intro others same
  exact JsonValue.object.inj same ▸ distinct

private theorem denotes_header (number : UInt64) (value : JsonValue)
    (denotes : Denotes number value) :
    value.UniqueNames ∧ value.NestedBelow 1 := by
  obtain ⟨text, rfl, _⟩ := denotes
  exact leaf_header _ rfl nofun

theorem describes_header (tensor : TensorDescriptor) (value : JsonValue)
    (describes : Describes tensor value) : value.UniqueNames ∧ value.NestedBelow 3 := by
  obtain ⟨fields, shape, first, last, rfl, permuted, extents, begins, ends⟩ := describes
  refine object_header fields 2 ((permuted.map _).nodup_iff.mpr field_names_nodup) ?_
  have shapeHeader := array_header shape 1 fun element listed => by
    obtain ⟨extent, _, denotes⟩ := forall₂_right extents element listed
    exact denotes_header extent element denotes
  have offsetsHeader := array_header [first, last] 1 (by
    simpa using ⟨denotes_header _ _ begins, denotes_header _ _ ends⟩)
  intro field listed
  have known := permuted.mem_iff.mp listed
  simp only [List.mem_cons, List.not_mem_nil, or_false] at known
  rcases known with rfl | rfl | rfl
  · obtain ⟨unique, nested⟩ := leaf_header (.string (ascii (dtypeName tensor.dtype))) rfl nofun
    exact ⟨unique, nested_below_mono _ 1 nested 2 (by decide)⟩
  · exact shapeHeader
  · exact offsetsHeader

/-- Headers have no repeated names and few levels. -/
theorem members_header (tensors : List TensorDescriptor) (members : List (List UInt8 × JsonValue))
    (described : HeaderMembers tensors members) :
    ∀ member ∈ members, member.2.UniqueNames ∧ member.2.NestedBelow 3 := by
  induction described with
  | nil => simp
  | tensor tensor value tensors members describes _ ih =>
    rw [List.forall_mem_cons]
    exact ⟨describes_header tensor value describes, ih⟩
  | metadata entries tensors members distinct _ ih =>
    rw [List.forall_mem_cons]
    refine ⟨?_, ih⟩
    obtain ⟨unique, nested⟩ := object_header
      (entries.map fun entry => (entry.1, JsonValue.string entry.2)) 1
      (by rwa [List.map_map]) (by
        intro member listed
        obtain ⟨entry, _, rfl⟩ := List.mem_map.mp listed
        exact leaf_header _ rfl nofun)
    exact ⟨unique, nested_below_mono _ 2 nested 3 (by decide)⟩

/-! ## The round trip -/

/-- Every legal encoding of legal tensors within the limit is accepted, and the tensors are read
back as they were written, in the order of the header. -/
theorem safetensors_complete {tensors : List TensorDescriptor} {header region : List UInt8}
    {bytes : ByteSpan} {maximumHeaderBytes : UInt64} (encodes : Encodes tensors header region bytes)
    (legal : LegalTensors tensors region.length)
    (limit : header.length ≤ maximumHeaderBytes.toNat) :
    ∃ metadata, parseSafetensorsMetadata bytes maximumHeaderBytes = .ok metadata ∧
      metadata.dataStart.toNat = 8 + header.length ∧
      metadata.records = tensors.map TensorDescriptor.record := by
  obtain ⟨lengthBytes, layout, eight, exact⟩ := encodes.layout
  obtain ⟨members, text, described, distinct⟩ := encodes.members
  have room := bytes.addressable
  have total : bytes.data.length = 8 + header.length + region.length := by
    rw [layout, List.length_append, List.length_append, eight]
  -- the parts of the file are where the encoding puts them
  have taken : bytes.data.take 8 = lengthBytes := by
    rw [layout, List.append_assoc, ← eight, List.take_left]
  have long : headerLength bytes = header.length := by
    rw [headerLength, taken, exact]
  have headers : headerText bytes = header := by
    have dropped : bytes.data.drop 8 = header ++ region := by
      rw [layout, List.append_assoc, ← eight, List.drop_left]
    rw [headerText, taken, exact, dropped, List.take_left]
  have region_size : (regionSize bytes).toNat = region.length := by
    rw [region_size_exact, long]
    omega
  obtain ⟨unique, nested⟩ :=
    object_header members 3 distinct (members_header tensors members described)
  have json : parseJson header = .ok (.object members) := by
    refine (parse_json_exact header _).mpr
      ⟨json_text_utf8 header _ text 4 nested, text, unique, ?_⟩
    exact (JsonValue.nested_within_iff _ _).mpr (nested_below_mono _ 4 nested _ (by decide))
  have records : parseRecords (regionSize bytes) members [] =
      .ok (tensors.map TensorDescriptor.record) := by
    have accepted := parse_records_accepts (regionSize bytes) tensors members [] described
      fun tensor listed => ⟨(legal.named tensor listed).2, fun value describes => ?_⟩
    · rwa [List.nil_append] at accepted
    · obtain ⟨ordered, permuted, tiled⟩ := legal.tiled
      have inside := (tiled.inside tensor (permuted.mem_iff.mpr listed)).2
      exact parse_tensor_record_accepts tensor value _ describes (legal.named tensor listed).1
        (legal.rank tensor listed) (legal.products tensor listed) (legal.sized tensor listed)
        (by omega)
  have start : (UInt64.ofNat (8 + header.length)).toNat = 8 + header.length := by
    rw [UInt64.toNat_ofNat', Nat.mod_eq_of_lt (by omega)]
  refine ⟨⟨UInt64.ofNat (8 + header.length), tensors.map TensorDescriptor.record⟩,
    (parse_metadata_iff _ _ _).mpr ⟨members, ?_⟩, start, rfl⟩
  exact {
    long := by omega
    limit := by rwa [long]
    inside := by omega
    opens := by rw [headers, encodes.opens]
    json := by rw [headers, json]
    records
    covered := coverage_accepts tensors _ (by rwa [region_size])
    start := by rw [long, start] }

/-- The descriptors of the file of two tensors; the first of the header is the last of the data. -/
def twoTensorDescriptors : List TensorDescriptor :=
  [{ name := ascii "b", dtype := .f32, extents := [1, 2], beginAt := 3, endAt := 11 },
    { name := ascii "a", dtype := .i8, extents := [3], beginAt := 0, endAt := 3 }]

def twoTensorHeader : List UInt8 :=
  ascii "\x7b\"b\":\x7b\"dtype\":\"F32\",\"shape\":[1,2],\"data_offsets\":[3,11]\x7d,"  ++
    ascii "\"a\":\x7b\"dtype\":\"I8\",\"shape\":[3],\"data_offsets\":[0,3]\x7d\x7d"

/-- The fields of a tensor in the order of the example. -/
def fieldsOf (dtype : String) (shape offsets : List JsonValue) : JsonValue :=
  .object [(ascii "dtype", .string (ascii dtype)), (ascii "shape", .array shape),
    (ascii "data_offsets", .array offsets)]

def twoTensorMembers : List (List UInt8 × JsonValue) :=
  [(ascii "b", fieldsOf "F32" [.number (ascii "1"), .number (ascii "2")]
      [.number (ascii "3"), .number (ascii "11")]),
    (ascii "a", fieldsOf "I8" [.number (ascii "3")] [.number (ascii "0"), .number (ascii "3")])]

set_option maxRecDepth 20000 in
theorem two_tensor_header_read :
    parseJson twoTensorHeader = .ok (.object twoTensorMembers) := by
  with_unfolding_all rfl

private theorem denotes_positive (number : UInt64) (first : UInt8) (others : List UInt8)
    (digit : Digit first) (nonzero : first ≠ Byte.zero) (digits : ∀ byte ∈ others, Digit byte)
    (exact : decimal (first :: others) = number.toNat) :
    Denotes number (.number (first :: others)) :=
  ⟨_, rfl, Integer.positive first others digit nonzero digits, exact⟩

theorem two_tensors_encoded :
    Encodes twoTensorDescriptors twoTensorHeader (List.replicate 11 0) twoTensors where
  layout := ⟨[109, 0, 0, 0, 0, 0, 0, 0], by decide +kernel, rfl, by decide +kernel⟩
  opens := by decide +kernel
  members := by
    refine ⟨twoTensorMembers, ((parse_json_exact _ _).mp two_tensor_header_read).2.1, ?_,
      by decide +kernel⟩
    have one : Denotes 1 (.number (ascii "1")) :=
      denotes_positive 1 0x31 [] (by decide) (by decide) (by simp) (by decide)
    have two : Denotes 2 (.number (ascii "2")) :=
      denotes_positive 2 0x32 [] (by decide) (by decide) (by simp) (by decide)
    have three : Denotes 3 (.number (ascii "3")) :=
      denotes_positive 3 0x33 [] (by decide) (by decide) (by simp) (by decide)
    have eleven : Denotes 11 (.number (ascii "11")) :=
      denotes_positive 11 0x31 [0x31] (by decide) (by decide) (by decide +kernel) (by decide)
    have none : Denotes 0 (.number (ascii "0")) := ⟨_, rfl, Integer.zero, by decide +kernel⟩
    refine HeaderMembers.tensor _ _ _ _ ⟨_, _, _, _, rfl, List.Perm.refl _, ?_, three, eleven⟩
      (HeaderMembers.tensor _ _ _ _ ⟨_, _, _, _, rfl, List.Perm.refl _, ?_, none, three⟩
        HeaderMembers.nil)
    · exact List.Forall₂.cons one (List.Forall₂.cons two List.Forall₂.nil)
    · exact List.Forall₂.cons three List.Forall₂.nil

theorem two_tensors_legal : LegalTensors twoTensorDescriptors 11 where
  distinct := by decide +kernel
  named := by decide +kernel
  rank := by decide +kernel
  products := by
    intro tensor listed count
    simp only [twoTensorDescriptors, List.mem_cons, List.not_mem_nil, or_false] at listed
    rcases listed with rfl | rfl
    · rcases count with _ | _ | count <;> simp
    · rcases count with _ | count <;> simp
  sized := by decide +kernel
  tiled := by
    refine ⟨twoTensorDescriptors.reverse, List.reverse_perm _, ?_⟩
    simp only [twoTensorDescriptors, List.reverse_cons, List.reverse_nil, List.nil_append,
      List.singleton_append, Tiles.cons_iff, Tiles.nil_iff]
    decide

theorem safetensors_complete_two_tensors :
    ∃ metadata, parseSafetensorsMetadata twoTensors 109 = .ok metadata ∧
      metadata.dataStart.toNat = 8 + twoTensorHeader.length ∧
      metadata.records = twoTensorDescriptors.map TensorDescriptor.record :=
  safetensors_complete two_tensors_encoded two_tensors_legal (by decide +kernel)

end MarketForge.Model
