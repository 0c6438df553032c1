import MarketForge.Library.OwnershipLedger
import MarketForge.Serving.SequenceScheduler

/-!
# The paged KV cache

`PagedKvCache` hands fixed-size pages to sequences. Growth is two-phase: `reserve` sets free
pages aside, `commit` attaches them to the sequence and `rollback` returns them. A sequence can
publish its pages as an immutable prefix that later sequences attach to.

Every operation returns its status together with the state it leaves, failures included, so
that what a failed call changes is a fact about the code and not about the encoding. Pointers
into the tables are searches by id: the source looks a record up and writes through the pointer
found, which is the first record with that id.
-/
namespace MarketForge.Serving

open OwnershipLedger (assign)

abbrev PrefixId := UInt64
abbrev ReservationId := UInt64

/-- A page index. The 32-bit ids of the source hold every index of an array that was created
from a 32-bit page count, so the conversion in `reserve` is exact. -/
abbrev KvPageId := Nat

structure KvReservation where
  id : ReservationId
  sequenceId : SequenceId
  targetTokenCount : UInt32
  newPages : List KvPageId
  deriving DecidableEq, Repr

inductive PageState where
  | free
  | reserved
  | mutableSequence
  | immutablePrefix
  deriving DecidableEq, Repr

structure Page where
  state : PageState := .free
  owner : UInt64 := 0
  deriving DecidableEq, Repr

structure Sequence where
  id : SequenceId
  prefixId : PrefixId
  prefixTokens : UInt32
  totalTokens : UInt32
  suffixPages : List KvPageId
  deriving DecidableEq, Repr

structure Prefix where
  id : PrefixId
  tokenCount : UInt32
  attachments : UInt64
  pages : List KvPageId
  deriving DecidableEq, Repr

structure PendingReservation where
  id : ReservationId
  sequenceId : SequenceId
  targetTokenCount : UInt32
  pages : List KvPageId
  deriving DecidableEq, Repr

structure PagedKvCache where
  pages : List Page
  tokensPerPage : UInt32
  sequences : List Sequence := []
  prefixes : List Prefix := []
  reservations : List PendingReservation := []
  nextReservationId : ReservationId := 1
  deriving DecidableEq, Repr

/-- Pages needed for a number of tokens, computed in 64 bits. -/
def pagesFor (tokens tokensPerPage : UInt32) : UInt64 :=
  (tokens.toUInt64 + tokensPerPage.toUInt64 - 1) / tokensPerPage.toUInt64

/-- The scan of `reserve`: indices of the first `wanted` free pages, counting from `index`. -/
def selectFree : List Page → Nat → Nat → List KvPageId
  | [], _, _ => []
  | _ :: _, _, 0 => []
  | page :: rest, index, wanted + 1 =>
    if page.state = .free then index :: selectFree rest (index + 1) wanted
    else selectFree rest (index + 1) (wanted + 1)

namespace PagedKvCache

def create (alloc : Allocator) (pageCount tokensPerPage : UInt32) : Result PagedKvCache :=
  if pageCount = 0 ∨ tokensPerPage = 0 then
    .error (.failure .invalidArgument)
  else match alloc.caught [0] with
    | some code => .error (.failure code)
    | none => .ok { pages := List.replicate pageCount.toNat {}, tokensPerPage := tokensPerPage }

def findSequence (cache : PagedKvCache) (id : SequenceId) : Option Sequence :=
  Keyed.find Sequence.id cache.sequences id

def findPrefix (cache : PagedKvCache) (id : PrefixId) : Option Prefix :=
  Keyed.find Prefix.id cache.prefixes id

def findReservation (cache : PagedKvCache) (id : ReservationId) : Option PendingReservation :=
  Keyed.find PendingReservation.id cache.reservations id

def findSequenceReservation (cache : PagedKvCache) (id : SequenceId) :
    Option PendingReservation :=
  Keyed.find PendingReservation.sequenceId cache.reservations id

/-- The validation loops: every listed page exists and carries the expected mark. -/
def pagesMarked (cache : PagedKvCache) (ids : List KvPageId) (mark : Page) : Bool :=
  ids.all fun p => decide (cache.pages[p]? = some mark)

/-- The pages a sequence still lacks for a target, from the suffix it has to cover. -/
def newPageCount (cache : PagedKvCache) (sequence : Sequence) (targetTokenCount : UInt32) :
    UInt64 :=
  let suffixTokens := targetTokenCount - sequence.prefixTokens
  let requiredPages := pagesFor suffixTokens cache.tokensPerPage
  let existingPages := UInt64.ofNat sequence.suffixPages.length
  if requiredPages > existingPages then requiredPages - existingPages else 0

def createSequence (alloc : Allocator) (cache : PagedKvCache) (sequenceId : SequenceId)
    (prefixId : PrefixId) : Status × PagedKvCache :=
  if sequenceId = 0 ∨ (cache.findSequence sequenceId).isSome then
    (.failure .invalidArgument, cache)
  else if prefixId = 0 then
    match alloc.caught [0] with
    | some code => (.failure code, cache)
    | none =>
      (.success, { cache with sequences := cache.sequences ++ [⟨sequenceId, prefixId, 0, 0, []⟩] })
  else match cache.findPrefix prefixId with
    | none => (.failure .invalidArgument, cache)
    | some shared =>
      if shared.attachments = UInt64.ofNat (UInt64.size - 1) then
        (.failure .invalidArgument, cache)
      else match alloc.caught [0] with
        | some code => (.failure code, cache)
        | none =>
          (.success, { cache with
            sequences := cache.sequences ++
              [⟨sequenceId, prefixId, shared.tokenCount, shared.tokenCount, []⟩]
            prefixes := Keyed.update Prefix.id cache.prefixes prefixId fun p =>
              { p with attachments := p.attachments + 1 } })

def destroySequence (cache : PagedKvCache) (sequenceId : SequenceId) : Status × PagedKvCache :=
  match cache.findSequence sequenceId with
  | none => (.failure .invalidArgument, cache)
  | some sequence =>
    if (cache.findSequenceReservation sequenceId).isSome then
      (.failure .invalidArgument, cache)
    else if sequence.prefixId ≠ 0 ∧
        (cache.findPrefix sequence.prefixId).all (fun p => p.attachments = 0) then
      -- The prefix is missing or already unreferenced.
      (.failure .invalidFormat, cache)
    else if ¬ cache.pagesMarked sequence.suffixPages ⟨.mutableSequence, sequenceId⟩ then
      (.failure .invalidFormat, cache)
    else
      (.success, { cache with
        pages := assign cache.pages sequence.suffixPages {}
        prefixes :=
          if sequence.prefixId = 0 then cache.prefixes
          else Keyed.update Prefix.id cache.prefixes sequence.prefixId fun p =>
            { p with attachments := p.attachments - 1 }
        sequences := Keyed.erase Sequence.id cache.sequences sequenceId })

def reserve (alloc : Allocator) (cache : PagedKvCache) (sequenceId : SequenceId)
    (targetTokenCount : UInt32) : Result KvReservation × PagedKvCache :=
  match cache.findSequence sequenceId with
  | none => (.error (.failure .invalidArgument), cache)
  | some sequence =>
    if (cache.findSequenceReservation sequenceId).isSome ∨
        targetTokenCount < sequence.totalTokens ∨ cache.nextReservationId = 0 then
      (.error (.failure .invalidArgument), cache)
    else
      let wanted := (cache.newPageCount sequence targetTokenCount).toNat
      match alloc.caught [0] with
      | some code => (.error (.failure code), cache)
      | none =>
        let selected := selectFree cache.pages 0 wanted
        if selected.length ≠ wanted then
          (.error (.failure .insufficientMemory), cache)
        else
          -- Two copies of the selection and the growth of the table.
          match alloc.caught [1, 2, 3] with
          | some code => (.error (.failure code), cache)
          | none =>
            let reservationId := cache.nextReservationId
            (.ok ⟨reservationId, sequenceId, targetTokenCount, selected⟩,
              { cache with
                reservations := cache.reservations ++
                  [⟨reservationId, sequenceId, targetTokenCount, selected⟩]
                pages := assign cache.pages selected ⟨.reserved, reservationId⟩
                nextReservationId := cache.nextReservationId + 1 })

def commit (alloc : Allocator) (cache : PagedKvCache) (reservationId : ReservationId) :
    Status × PagedKvCache :=
  match cache.findReservation reservationId with
  | none => (.failure .invalidArgument, cache)
  | some reservation =>
    match cache.findSequence reservation.sequenceId with
    | none => (.failure .invalidFormat, cache)
    | some sequence =>
      if ¬ cache.pagesMarked reservation.pages ⟨.reserved, reservationId⟩ then
        (.failure .invalidFormat, cache)
      else match alloc.caught [0] with
        | some code => (.failure code, cache)
        | none =>
          (.success, { cache with
            sequences := Keyed.update Sequence.id cache.sequences reservation.sequenceId fun q =>
              { q with
                suffixPages := q.suffixPages ++ reservation.pages
                totalTokens := reservation.targetTokenCount }
            pages := assign cache.pages reservation.pages ⟨.mutableSequence, sequence.id⟩
            reservations := Keyed.erase PendingReservation.id cache.reservations reservationId })

def rollback (cache : PagedKvCache) (reservationId : ReservationId) : Status × PagedKvCache :=
  match cache.findReservation reservationId with
  | none => (.failure .invalidArgument, cache)
  | some reservation =>
    if ¬ cache.pagesMarked reservation.pages ⟨.reserved, reservationId⟩ then
      (.failure .invalidFormat, cache)
    else
      (.success, { cache with
        pages := assign cache.pages reservation.pages {}
        reservations := Keyed.erase PendingReservation.id cache.reservations reservationId })

def publishPrefix (alloc : Allocator) (cache : PagedKvCache) (prefixId : PrefixId)
    (sequenceId : SequenceId) : Status × PagedKvCache :=
  match cache.findSequence sequenceId with
  | none => (.failure .invalidArgument, cache)
  | some sequence =>
    if prefixId = 0 ∨ (cache.findPrefix prefixId).isSome ∨ sequence.prefixId ≠ 0 ∨
        sequence.totalTokens = 0 ∨ sequence.suffixPages = [] ∨
        (cache.findSequenceReservation sequenceId).isSome then
      (.failure .invalidArgument, cache)
    else if ¬ cache.pagesMarked sequence.suffixPages ⟨.mutableSequence, sequenceId⟩ then
      (.failure .invalidFormat, cache)
    else
      -- The copy of the page list and the growth of the table.
      match alloc.caught [0, 1] with
      | some code => (.failure code, cache)
      | none =>
        (.success, { cache with
          prefixes := cache.prefixes ++
            [⟨prefixId, sequence.totalTokens, 1, sequence.suffixPages⟩]
          pages := assign cache.pages sequence.suffixPages ⟨.immutablePrefix, prefixId⟩
          sequences := Keyed.update Sequence.id cache.sequences sequenceId fun q =>
            { q with prefixId := prefixId, prefixTokens := q.totalTokens, suffixPages := [] } })

def destroyPrefix (cache : PagedKvCache) (prefixId : PrefixId) : Status × PagedKvCache :=
  match cache.findPrefix prefixId with
  | none => (.failure .invalidArgument, cache)
  | some shared =>
    if shared.attachments ≠ 0 then
      (.failure .invalidArgument, cache)
    else if ¬ cache.pagesMarked shared.pages ⟨.immutablePrefix, prefixId⟩ then
      (.failure .invalidFormat, cache)
    else
      (.success, { cache with
        pages := assign cache.pages shared.pages {}
        prefixes := Keyed.erase Prefix.id cache.prefixes prefixId })

end PagedKvCache

/-- The seven mutating calls, each with the fate of its allocations. -/
inductive CacheCall where
  | createSequence (alloc : Allocator) (sequenceId : SequenceId) (prefixId : PrefixId)
  | destroySequence (sequenceId : SequenceId)
  | reserve (alloc : Allocator) (sequenceId : SequenceId) (targetTokenCount : UInt32)
  | commit (alloc : Allocator) (reservationId : ReservationId)
  | rollback (reservationId : ReservationId)
  | publishPrefix (alloc : Allocator) (prefixId : PrefixId) (sequenceId : SequenceId)
  | destroyPrefix (prefixId : PrefixId)

inductive CacheReply where
  | status (value : Status)
  | reservation (value : Result KvReservation)
  deriving DecidableEq, Repr

/-- One call on the cache. -/
def cacheStep (cache : PagedKvCache) : CacheCall → CacheReply × PagedKvCache
  | .createSequence alloc sequenceId prefixId =>
    (cache.createSequence alloc sequenceId prefixId).map .status id
  | .destroySequence sequenceId => (cache.destroySequence sequenceId).map .status id
  | .reserve alloc sequenceId targetTokenCount =>
    (cache.reserve alloc sequenceId targetTokenCount).map .reservation id
  | .commit alloc reservationId => (cache.commit alloc reservationId).map .status id
  | .rollback reservationId => (cache.rollback reservationId).map .status id
  | .publishPrefix alloc prefixId sequenceId =>
    (cache.publishPrefix alloc prefixId sequenceId).map .status id
  | .destroyPrefix prefixId => (cache.destroyPrefix prefixId).map .status id

/-- The cache as a machine driven by its callers. -/
def cacheMachine : Transition.Machine PagedKvCache CacheCall CacheReply := ⟨cacheStep⟩

end MarketForge.Serving
