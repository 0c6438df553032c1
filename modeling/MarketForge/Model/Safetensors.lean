import Mathlib.Data.List.Sort
import MarketForge.Core.TensorView
import MarketForge.Model.JsonParser

/-!
# Safetensors files

The metadata parser and the lookup of tensor views. A file is eight bytes of header size, a JSON
header, and the data region the header's records have to cover exactly.
-/
namespace MarketForge.Model

/-- The bytes of a mapping; their number fits `std::size_t`. -/
structure ByteSpan where
  data : List UInt8
  addressable : data.length < 2 ^ 64

def ByteSpan.size (bytes : ByteSpan) : UInt64 := UInt64.ofNat bytes.data.length

/-- The mapping of a regular file; `fstat` reports the size of one as a signed 64-bit number. -/
structure MappedFile extends ByteSpan where
  sized : data.length < 2 ^ 63

structure TensorRecord where
  name : List UInt8
  dtype : DType
  shape : Shape
  beginAt : UInt64
  endAt : UInt64
  deriving DecidableEq, Repr

structure SafeTensorMetadata where
  dataStart : UInt64
  records : List TensorRecord
  deriving DecidableEq, Repr

def loadU64LittleEndian (bytes : List UInt8) : UInt64 :=
  bytes.zipIdx.foldl (fun value entry => value |||
    entry.1.toUInt64 <<< UInt64.ofNat (entry.2 * 8)) 0

/-- The bytes of an ASCII text. -/
def ascii (text : String) : List UInt8 := text.toList.map fun letter => UInt8.ofNat letter.toNat

/-! ## Numbers -/

/-- The value of decimal digits, without the bound of a machine word. -/
def decimal (digits : List UInt8) : Nat :=
  digits.foldl (fun value digit => value * 10 + (digit.toNat - Byte.zero.toNat)) 0

/-- `std::from_chars` for 64-bit unsigned integers: the value of the leading digits and the text
behind them, or nothing when there is no digit or the value is out of range. -/
def fromChars (text : List UInt8) : Option (UInt64 × List UInt8) :=
  let digits := text.takeWhile isDigit
  if digits = [] then none
  else if 2 ^ 64 ≤ decimal digits then none
  else some (UInt64.ofNat (decimal digits), text.dropWhile isDigit)

def parseUnsigned : JsonValue → Result UInt64
  | .number text =>
    if text = [] ∨ text.head? = some Byte.minus
        ∨ text.any (fun byte => byte == Byte.dot || isExponent byte) = true then
      .error (.failure .invalidTensor)
    else
      match fromChars text with
      | some (parsed, []) => .ok parsed
      | _ => .error (.failure .arithmeticOverflow)
  | _ => .error (.failure .invalidTensor)

/-! ## Records -/

def parseDtype : JsonValue → Result DType
  | .string text =>
    if text = ascii "F32" then .ok .f32
    else if text = ascii "F16" then .ok .f16
    else if text = ascii "BF16" then .ok .bf16
    else if text = ascii "I8" then .ok .i8
    else if text = ascii "I32" then .ok .i32
    else if text = ascii "U32" then .ok .u32
    else .error (.failure .unsupportedDtype)
  | _ => .error (.failure .invalidTensor)

def JsonValue.isString : JsonValue → Bool
  | .string _ => true
  | _ => false

def validateMetadataObject : JsonValue → Status
  | .object members =>
    if members.all fun member => member.2.isString then .success else .failure .invalidTensor
  | _ => .failure .invalidTensor

/-- The checks of `parse_tensor_record` behind the lookup of its three members. -/
def parseTensorFields (name : List UInt8) (dtypeValue : JsonValue)
    (shapeValues : List JsonValue) (beginValue endValue : JsonValue) (dataSize : UInt64) :
    Result TensorRecord := do
  let dtype ← parseDtype dtypeValue
  let extents ← shapeValues.mapM parseUnsigned
  let shape ← makeShape extents
  let beginAt ← parseUnsigned beginValue
  let endAt ← parseUnsigned endValue
  if endAt < beginAt ∨ dataSize < endAt then .error (.failure .invalidTensor)
  else
    let expectedBytes ← checkedNbytes shape dtype
    if expectedBytes ≠ endAt - beginAt then .error (.failure .invalidTensor)
    else .ok { name, dtype, shape, beginAt, endAt }

def parseTensorRecord (name : List UInt8) (value : JsonValue) (dataSize : UInt64) :
    Result TensorRecord :=
  match value with
  | .object members =>
    if name = [] ∨ members.length ≠ 3 then .error (.failure .invalidTensor)
    else
      match value.find (ascii "dtype"), value.find (ascii "shape"),
          value.find (ascii "data_offsets") with
      | some dtypeValue, some (.array shapeValues), some (.array [beginValue, endValue]) =>
        if Shape.maxRank < shapeValues.length then .error (.failure .invalidTensor)
        else parseTensorFields name dtypeValue shapeValues beginValue endValue dataSize
      | _, _, _ => .error (.failure .invalidTensor)
  | _ => .error (.failure .invalidTensor)

/-- The loop over the members of the header; `__metadata__` describes no tensor. -/
def parseRecords (dataSize : UInt64) :
    List (List UInt8 × JsonValue) → List TensorRecord → Result (List TensorRecord)
  | [], records => .ok records
  | (name, value) :: members, records =>
    if name = ascii "__metadata__" then
      let status := validateMetadataObject value
      if status.isOk then parseRecords dataSize members records else .error status
    else
      match parseTensorRecord name value dataSize with
      | .error status => .error status
      | .ok record => parseRecords dataSize members (records ++ [record])

/-! ## Coverage -/

/-- The order of the records in the data region. Records that tie span the same bytes. -/
def recordLe (left right : TensorRecord) : Prop :=
  left.beginAt < right.beginAt ∨ (left.beginAt = right.beginAt ∧ left.endAt ≤ right.endAt)

instance : DecidableRel recordLe := fun left right =>
  inferInstanceAs (Decidable
    (left.beginAt < right.beginAt ∨ (left.beginAt = right.beginAt ∧ left.endAt ≤ right.endAt)))

/-- Every record has to begin where the one before it ended, and the last at the end. -/
def coverageLoop (dataSize : UInt64) : UInt64 → List TensorRecord → Status
  | expectedBegin, [] =>
    if expectedBegin ≠ dataSize then .failure .invalidTensor else .success
  | expectedBegin, record :: ordered =>
    if record.beginAt ≠ expectedBegin then .failure .invalidTensor
    else coverageLoop dataSize record.endAt ordered

def validateExactCoverage (records : List TensorRecord) (dataSize : UInt64) : Status :=
  coverageLoop dataSize 0 (records.insertionSort recordLe)

/-! ## Metadata -/

def parseSafetensorsMetadata (bytes : ByteSpan) (maximumHeaderBytes : UInt64) :
    Result SafeTensorMetadata :=
  if bytes.size < 8 then .error (.failure .truncatedData)
  else
    let headerSize := loadU64LittleEndian (bytes.data.take 8)
    if maximumHeaderBytes < headerSize ∨ 0xffffffffffffffff < headerSize then
      .error (.failure .resourceLimit)
    else if bytes.size - 8 < headerSize then .error (.failure .truncatedData)
    else
      let dataStart := 8 + headerSize
      let dataSize := bytes.size - dataStart
      let header := (bytes.data.drop 8).take headerSize.toNat
      if header.head? ≠ some Byte.openBrace then .error (.failure .invalidJson)
      else
        match parseJson header with
        | .error status => .error status
        | .ok (.object members) =>
          match parseRecords dataSize members [] with
          | .error status => .error status
          | .ok records =>
            let coverage := validateExactCoverage records dataSize
            if coverage.isOk then .ok { dataStart, records } else .error coverage
        | .ok _ => .error (.failure .invalidJson)

/-! ## Views -/

structure SafeTensorFile where
  mapping : ByteSpan
  metadata : SafeTensorMetadata

namespace SafeTensorFile

def parse (mapping : ByteSpan) (maximumHeaderBytes : UInt64) : Result SafeTensorFile :=
  match parseSafetensorsMetadata mapping maximumHeaderBytes with
  | .error status => .error status
  | .ok metadata => .ok { mapping, metadata }

def record (file : SafeTensorFile) (name : List UInt8) : Option TensorRecord :=
  file.metadata.records.find? fun candidate => candidate.name = name

/-- The view of a tensor; its data pointer is an offset from the start of the mapping. -/
def tensor (file : SafeTensorFile) (name : List UInt8) : Result (ConstTensorView UInt64) :=
  match file.record name with
  | none => .error (.failure .missingTensor)
  | some found =>
    let absoluteOffset := file.metadata.dataStart + found.beginAt
    if file.mapping.size < absoluteOffset then .error (.failure .invalidTensor)
    else .ok { data := absoluteOffset, shape := found.shape, dtype := found.dtype, memory := .host }

end SafeTensorFile

end MarketForge.Model
