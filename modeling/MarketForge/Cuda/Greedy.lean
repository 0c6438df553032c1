import MarketForge.Core.Status
import MarketForge.Library.BinaryFloat
import MarketForge.Library.BlockReduction

/-!
# Greedy selection on the device

`greedy_kernel` picks the best token of a row of logits. There are two ways to choose among allowed
candidates: `linear_f16` projects the hidden row on the whole vocabulary and
`restricted_greedy_select_f16` picks among the stored FP16 logits; `restricted_output_head_f16`
scores the candidates alone, in FP32, and picks among these scores. The kernels scan with the 256
threads of a block and reduce in shared memory; scan and reduction are defined here over the
scores of an arbitrary linear order.
-/
namespace MarketForge.Cuda

open BinaryFloat

/-- The bits of an FP16 number. -/
abbrev Half := UInt16

/-- `__half2float`; every FP16 number is an FP32 number. -/
def half2float (bits : Half) : Value :=
  let negative := decide (0x8000 ≤ bits.toNat)
  let sign : ℚ := if negative then -1 else 1
  let exponent := bits.toNat / 1024 % 32
  let mantissa := bits.toNat % 1024
  if exponent = 31 then if mantissa = 0 then .infinity negative else .nan
  else if exponent = 0 then .finite (sign * mantissa * 2 ^ (-24 : ℤ))
  else .finite (sign * (1024 + mantissa) * 2 ^ ((exponent : ℤ) - 25))

/-- A device buffer as a kernel reads it, element by element. -/
structure DeviceBuffer (α : Type) where
  address : UInt64
  sizeBytes : UInt64
  element : UInt64 → α

structure StreamHandle where
  value : UInt64

def StreamHandle.valid (stream : StreamHandle) : Bool := decide (stream.value ≠ 0)

def restrictedGreedyInvalidTokenId : UInt32 := 0xffffffff

/-! ### The kernels -/

section

variable {K : Type} [LinearOrder K] [OrderBot K]

/-- The running best of a thread. Its maximum starts at minus infinity and is never NaN. -/
structure Lane (K : Type) where
  maximum : K
  tokenId : UInt32
  deriving DecidableEq

def Lane.initial : Lane K := ⟨⊥, restrictedGreedyInvalidTokenId⟩

/-- NaN compares false with everything. -/
def Lane.consider (lane : Lane K) (value : Score K) (candidate : UInt32) : Lane K :=
  match value with
  | .nan => lane
  | .number value =>
    if lane.maximum < value ∨ value = lane.maximum ∧ candidate < lane.tokenId then
      ⟨value, candidate⟩
    else lane

def Lane.merge (lane other : Lane K) : Lane K :=
  if lane.maximum < other.maximum ∨
      other.maximum = lane.maximum ∧ other.tokenId < lane.tokenId then other
  else lane

/-- One block of `greedy_kernel`, for one row: its best column, zero when no entry is a number. -/
def greedyRow (score : UInt64 → Score K) (vocabularySize : UInt64) : UInt32 :=
  let reduced := BlockReduction.scanReduce Lane.merge (fun (lane : Lane K) column =>
    lane.consider (score (UInt64.ofNat column)) (UInt32.ofNat column)) Lane.initial
      vocabularySize.toNat 8
  if reduced.tokenId = restrictedGreedyInvalidTokenId then 0 else reduced.tokenId

/-- What a thread of a restricted kernel keeps; `exchanged` when it raised the row's flag. -/
structure RestrictedLane (K : Type) where
  best : Lane K
  fallback : UInt32
  exchanged : Bool
  deriving DecidableEq

namespace RestrictedLane

def initial : RestrictedLane K := ⟨Lane.initial, restrictedGreedyInvalidTokenId, false⟩

def turn (score : UInt32 → Score K) (allowed : Nat → UInt32) (vocabularySize : UInt64)
    (lane : RestrictedLane K) (index : Nat) : RestrictedLane K :=
  let candidate := allowed index
  if vocabularySize ≤ candidate.toUInt64 then { lane with exchanged := true }
  else
    { lane with
      best := lane.best.consider (score candidate) candidate
      fallback := if candidate < lane.fallback then candidate else lane.fallback }

def merge (lane other : RestrictedLane K) : RestrictedLane K :=
  { lane with
    best := lane.best.merge other.best
    fallback := if other.fallback < lane.fallback then other.fallback else lane.fallback }

end RestrictedLane

/-- One block, for one row: `2 ^ 8` threads. A thread that finds the flag of the row raised skips
its scan, but then the row is invalid whatever it scans. -/
def restrictedRow (score : UInt32 → Score K) (allowed : Nat → UInt32) (allowedCount : UInt32)
    (vocabularySize maximumAllowedTokens : UInt64) : UInt32 :=
  let badCount := allowedCount = 0 ∨ maximumAllowedTokens < allowedCount.toUInt64
  let lanes := fun thread =>
    if badCount then RestrictedLane.initial
    else (BlockReduction.strided thread allowedCount.toNat (2 ^ 8)).foldl
      (RestrictedLane.turn score allowed vocabularySize) RestrictedLane.initial
  let reduced := BlockReduction.reduce RestrictedLane.merge 8 lanes
  if badCount ∨ ((List.range (2 ^ 8)).any fun thread => (lanes thread).exchanged) = true then
    restrictedGreedyInvalidTokenId
  else if reduced.best.tokenId = restrictedGreedyInvalidTokenId then reduced.fallback
  else reduced.best.tokenId

end

/-- The candidates of a row in the packed table. -/
def allowedAt (allowed : UInt64 → UInt32) (maximumAllowedTokens row : UInt64) (index : Nat) :
    UInt32 :=
  allowed (row * maximumAllowedTokens + UInt64.ofNat index)

def greedyKernel (logits : UInt64 → Half) (vocabularySize row : UInt64) : UInt32 :=
  greedyRow (fun column => (half2float (logits (row * vocabularySize + column))).score)
    vocabularySize

def restrictedGreedyKernel (logits : UInt64 → Half) (allowed allowedCounts : UInt64 → UInt32)
    (vocabularySize maximumAllowedTokens row : UInt64) : UInt32 :=
  restrictedRow (fun candidate =>
      (half2float (logits (row * vocabularySize + candidate.toUInt64))).score)
    (allowedAt allowed maximumAllowedTokens row) (allowedCounts row) vocabularySize
    maximumAllowedTokens

/-- The score of a token: a chain of fused multiply-adds in FP32. -/
def dotProduct (hidden embedding : UInt64 → Half) (hiddenSize row : UInt64) (token : UInt32) :
    Value :=
  (List.range hiddenSize.toNat).foldl (fun score feature =>
    Value.fma binary32
      (half2float (hidden (row * hiddenSize + UInt64.ofNat feature)))
      (half2float (embedding (token.toUInt64 * hiddenSize + UInt64.ofNat feature))) score)
    (.finite 0)

def restrictedOutputHeadKernel (hidden embedding : UInt64 → Half)
    (allowed allowedCounts : UInt64 → UInt32)
    (hiddenSize vocabularySize maximumAllowedTokens row : UInt64) : UInt32 :=
  restrictedRow (fun candidate => (dotProduct hidden embedding hiddenSize row candidate).score)
    (allowedAt allowed maximumAllowedTokens row) (allowedCounts row) vocabularySize
    maximumAllowedTokens

/-! ### The host functions -/

def uint64Max : UInt64 := 0xffffffffffffffff

def uint32Max : UInt64 := 0xffffffff

def intMax : UInt64 := 0x7fffffff

/-- The addresses are valid and pairwise different. -/
def buffersAreDistinct : List UInt64 → Bool
  | [] => true
  | address :: rest => decide (address ≠ 0) && !rest.contains address && buffersAreDistinct rest

/-- The new contents of `token_ids`, unless a check or the launch fails. -/
def restrictedGreedySelectF16 (logits : DeviceBuffer Half)
    (allowedTokenIds allowedTokenCounts tokenIds : DeviceBuffer UInt32)
    (rows vocabularySize maximumAllowedTokens : UInt64) (stream : StreamHandle)
    (launch : Status) : Result (UInt64 → UInt32) :=
  if rows = 0 ∨ vocabularySize = 0 ∨ maximumAllowedTokens = 0 ∨ stream.valid = false then
    .error (.failure .invalidArgument)
  else if uint32Max < vocabularySize ∨ uint32Max < maximumAllowedTokens ∨ intMax < rows then
    .error (.failure .resourceLimit)
  else if uint64Max / vocabularySize < rows ∨ uint64Max / maximumAllowedTokens < rows then
    .error (.failure .arithmeticOverflow)
  else if uint64Max / 2 < rows * vocabularySize ∨ uint64Max / 4 < rows * maximumAllowedTokens ∨
      uint64Max / 4 < rows then
    .error (.failure .arithmeticOverflow)
  else if logits.sizeBytes ≠ rows * vocabularySize * 2 ∨
      allowedTokenIds.sizeBytes ≠ rows * maximumAllowedTokens * 4 ∨
      allowedTokenCounts.sizeBytes ≠ rows * 4 ∨ tokenIds.sizeBytes ≠ rows * 4 ∨
      buffersAreDistinct [logits.address, allowedTokenIds.address, allowedTokenCounts.address,
        tokenIds.address] = false then
    .error (.failure .invalidArgument)
  else if launch.isOk then
    .ok (restrictedGreedyKernel logits.element allowedTokenIds.element allowedTokenCounts.element
      vocabularySize maximumAllowedTokens)
  else .error launch

def restrictedOutputHeadF16 (hidden embedding : DeviceBuffer Half)
    (allowedTokenIds allowedTokenCounts tokenIds : DeviceBuffer UInt32)
    (rows hiddenSize vocabularySize maximumAllowedTokens : UInt64) (stream : StreamHandle)
    (launch : Status) : Result (UInt64 → UInt32) :=
  if rows = 0 ∨ hiddenSize = 0 ∨ vocabularySize = 0 ∨ maximumAllowedTokens = 0 ∨
      stream.valid = false then
    .error (.failure .invalidArgument)
  else if uint32Max < vocabularySize ∨ uint32Max < maximumAllowedTokens ∨ intMax < rows then
    .error (.failure .resourceLimit)
  else if uint64Max / hiddenSize < rows ∨ uint64Max / hiddenSize < vocabularySize ∨
      uint64Max / maximumAllowedTokens < rows then
    .error (.failure .arithmeticOverflow)
  else if uint64Max / 2 < rows * hiddenSize ∨ uint64Max / 2 < vocabularySize * hiddenSize ∨
      uint64Max / 4 < rows * maximumAllowedTokens ∨ uint64Max / 4 < rows then
    .error (.failure .arithmeticOverflow)
  else if hidden.sizeBytes ≠ rows * hiddenSize * 2 ∨
      embedding.sizeBytes ≠ vocabularySize * hiddenSize * 2 ∨
      allowedTokenIds.sizeBytes ≠ rows * maximumAllowedTokens * 4 ∨
      allowedTokenCounts.sizeBytes ≠ rows * 4 ∨ tokenIds.sizeBytes ≠ rows * 4 ∨
      buffersAreDistinct [hidden.address, embedding.address, allowedTokenIds.address,
        allowedTokenCounts.address, tokenIds.address] = false then
    .error (.failure .invalidArgument)
  else if launch.isOk then
    .ok (restrictedOutputHeadKernel hidden.element embedding.element allowedTokenIds.element
      allowedTokenCounts.element hiddenSize vocabularySize maximumAllowedTokens)
  else .error launch

/-- What `linear_f16` calls of cuBLAS: the handle, and the outcomes of setting the stream and of
the matrix product of the weight and the input. -/
structure Cublas where
  handle : UInt64
  setStream : StreamHandle → Status
  gemmEx : (outputFeatures rows inputFeatures : UInt64) → (weight input : UInt64 → Half) →
    Result (UInt64 → Half)

def checkedF16MatrixBytes (rows columns : UInt64) : Result UInt64 :=
  if rows = 0 ∨ columns = 0 then .error (.failure .invalidArgument)
  else if uint64Max / columns < rows then .error (.failure .arithmeticOverflow)
  else if uint64Max / 2 < rows * columns then .error (.failure .arithmeticOverflow)
  else .ok (rows * columns * 2)

def fitsCublasDimension (value : UInt64) : Bool := decide (value ≤ intMax)

/-- The new contents of `output`. -/
def linearF16 (cublas : Cublas) (input weight output : DeviceBuffer Half)
    (rows inputFeatures outputFeatures : UInt64) (stream : StreamHandle) :
    Result (UInt64 → Half) :=
  if cublas.handle = 0 ∨ stream.valid = false then .error (.failure .invalidArgument)
  else match checkedF16MatrixBytes rows inputFeatures with
  | .error status => .error status
  | .ok inputBytes => match checkedF16MatrixBytes outputFeatures inputFeatures with
    | .error status => .error status
    | .ok weightBytes => match checkedF16MatrixBytes rows outputFeatures with
      | .error status => .error status
      | .ok outputBytes =>
        if !fitsCublasDimension rows ∨ !fitsCublasDimension inputFeatures ∨
            !fitsCublasDimension outputFeatures then
          .error (.failure .resourceLimit)
        else if input.sizeBytes ≠ inputBytes ∨ weight.sizeBytes ≠ weightBytes ∨
            output.sizeBytes ≠ outputBytes ∨
            buffersAreDistinct [input.address, weight.address, output.address] = false then
          .error (.failure .invalidArgument)
        else if (cublas.setStream stream).isOk then
          cublas.gemmEx outputFeatures rows inputFeatures weight.element input.element
        else .error (cublas.setStream stream)

end MarketForge.Cuda
