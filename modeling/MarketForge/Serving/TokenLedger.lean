import MarketForge.Library.Simulation
import MarketForge.Serving.ReserveExact

/-!
# The ledger behind the cache

What the callers of the paged cache can rely on, without pages: a pool of free pages known by its
size only, token counts for sequences and prefixes, and promises of growth. Numbers are exact, a
record is found by its id, and nothing can be corrupt. A call is either refused, which changes
nothing, or applied.
-/
namespace MarketForge.Serving

structure LiveSequence where
  prefixId : PrefixId
  prefixTokens : Nat
  totalTokens : Nat

structure LivePrefix where
  tokenCount : Nat
  attachments : Nat

/-- A reservation that is neither committed nor rolled back. -/
structure Promise where
  sequenceId : SequenceId
  targetTokenCount : Nat

structure TokenLedger where
  pageTokens : Nat
  free : Nat
  sequences : SequenceId → Option LiveSequence
  prefixes : PrefixId → Option LivePrefix
  promises : ReservationId → Option Promise
  /-- Reservations granted so far. -/
  issued : Nat

/-- A reply with the identities of the pages left out. -/
inductive LedgerReply where
  | status (value : Status)
  | refused (failure : Status)
  | granted (id : ReservationId) (sequenceId : SequenceId) (targetTokenCount : UInt32)
      (pages : Nat)
  deriving DecidableEq, Repr

def CacheReply.observed : CacheReply → LedgerReply
  | .status value => .status value
  | .reservation (.error failure) => .refused failure
  | .reservation (.ok r) => .granted r.id r.sequenceId r.targetTokenCount r.newPages.length

def LedgerReply.failed : LedgerReply → Bool
  | .status value => !value.isOk
  | .refused _ => true
  | .granted .. => false

theorem observed_failed (reply : CacheReply) : reply.observed.failed = reply.failed := by
  rcases reply with value | failure | r <;> rfl

namespace TokenLedger

def empty (pageCount pageTokens : Nat) : TokenLedger where
  pageTokens := pageTokens
  free := pageCount
  sequences := fun _ => none
  prefixes := fun _ => none
  promises := fun _ => none
  issued := 0

/-- Pages for a number of tokens. -/
def pages (ledger : TokenLedger) (tokens : Nat) : Nat := tokens ⌈/⌉ ledger.pageTokens

/-- Pages a sequence has of its own. -/
def held (ledger : TokenLedger) (live : LiveSequence) : Nat :=
  ledger.pages (live.totalTokens - live.prefixTokens)

/-- Pages a sequence lacks for a target. -/
def lacking (ledger : TokenLedger) (live : LiveSequence) (target : Nat) : Nat :=
  ledger.pages (target - live.prefixTokens) - ledger.held live

/-- Some promise to the sequence is open. -/
def Promised (ledger : TokenLedger) (s : SequenceId) : Prop :=
  ∃ id promise, ledger.promises id = some promise ∧ promise.sequenceId = s

/-- The identity that the next promise gets. -/
def nextId (ledger : TokenLedger) : ReservationId := UInt64.ofNat (ledger.issued + 1)

open Classical in
/-- Why a call is refused, in the order in which its reasons are looked at. -/
noncomputable def refusal (ledger : TokenLedger) : CacheCall → Option ErrorCode
  | .createSequence alloc s p =>
    if s = 0 ∨ (ledger.sequences s).isSome then some .invalidArgument
    else if p = 0 then alloc.caught [0]
    else match ledger.prefixes p with
      | none => some .invalidArgument
      | some shared =>
        if shared.attachments = UInt64.size - 1 then some .invalidArgument else alloc.caught [0]
  | .destroySequence s =>
    if (ledger.sequences s).isNone ∨ ledger.Promised s then some .invalidArgument else none
  | .reserve alloc s target =>
    match ledger.sequences s with
    | none => some .invalidArgument
    | some live =>
      if ledger.Promised s ∨ target.toNat < live.totalTokens ∨ ledger.issued = UInt64.size - 1 then
        some .invalidArgument
      else match alloc.caught [0] with
        | some code => some code
        | none =>
          if ledger.free < ledger.lacking live target.toNat then some .insufficientMemory
          else alloc.caught [1, 2, 3]
  | .commit alloc id =>
    if (ledger.promises id).isNone then some .invalidArgument else alloc.caught [0]
  | .rollback id => if (ledger.promises id).isNone then some .invalidArgument else none
  | .publishPrefix alloc p s =>
    match ledger.sequences s with
    | none => some .invalidArgument
    | some live =>
      if p = 0 ∨ (ledger.prefixes p).isSome ∨ live.prefixId ≠ 0 ∨ live.totalTokens = 0 ∨
          ledger.Promised s then
        some .invalidArgument
      else alloc.caught [0, 1]
  | .destroyPrefix p =>
    match ledger.prefixes p with
    | none => some .invalidArgument
    | some shared => if shared.attachments ≠ 0 then some .invalidArgument else none

/-- One more or one less attachment of a prefix, if it is there. -/
def attach (ledger : TokenLedger) (p : PrefixId) (count : Nat → Nat) :
    PrefixId → Option LivePrefix :=
  Function.update ledger.prefixes p
    ((ledger.prefixes p).map fun shared => { shared with attachments := count shared.attachments })

def promise (ledger : TokenLedger) (s : SequenceId) (live : LiveSequence) (target : Nat) :
    TokenLedger :=
  { ledger with
    free := ledger.free - ledger.lacking live target
    promises := Function.update ledger.promises ledger.nextId (some ⟨s, target⟩)
    issued := ledger.issued + 1 }

/-- The effect of a call that is not refused. -/
def applied (ledger : TokenLedger) : CacheCall → TokenLedger
  | .createSequence _ s p =>
    let tokens := ((ledger.prefixes p).map LivePrefix.tokenCount).getD 0
    { ledger with
      sequences := Function.update ledger.sequences s (some ⟨p, tokens, tokens⟩)
      prefixes := ledger.attach p (· + 1) }
  | .destroySequence s =>
    match ledger.sequences s with
    | none => ledger
    | some live =>
      { ledger with
        free := ledger.free + ledger.held live
        sequences := Function.update ledger.sequences s none
        prefixes := ledger.attach live.prefixId (· - 1) }
  | .reserve _ s target =>
    match ledger.sequences s with
    | none => ledger
    | some live => ledger.promise s live target.toNat
  | .commit _ id =>
    match ledger.promises id with
    | none => ledger
    | some promise =>
      { ledger with
        sequences := Function.update ledger.sequences promise.sequenceId
          ((ledger.sequences promise.sequenceId).map fun live =>
            { live with totalTokens := promise.targetTokenCount })
        promises := Function.update ledger.promises id none }
  | .rollback id =>
    match ledger.promises id with
    | none => ledger
    | some promise =>
      { ledger with
        free := ledger.free + ((ledger.sequences promise.sequenceId).map fun live =>
          ledger.lacking live promise.targetTokenCount).getD 0
        promises := Function.update ledger.promises id none }
  | .publishPrefix _ p s =>
    match ledger.sequences s with
    | none => ledger
    | some live =>
      { ledger with
        sequences := Function.update ledger.sequences s
          (some { live with prefixId := p, prefixTokens := live.totalTokens })
        prefixes := Function.update ledger.prefixes p (some ⟨live.totalTokens, 1⟩) }
  | .destroyPrefix p =>
    match ledger.prefixes p with
    | none => ledger
    | some shared =>
      { ledger with
        free := ledger.free + ledger.pages shared.tokenCount
        prefixes := Function.update ledger.prefixes p none }

/-- The reply to a call that is refused with a code. -/
def refusedWith (code : ErrorCode) : CacheCall → LedgerReply
  | .reserve .. => .refused (.failure code)
  | _ => .status (.failure code)

/-- The reply to a call that is applied. -/
def accepted (ledger : TokenLedger) : CacheCall → LedgerReply
  | .reserve _ s target =>
    .granted ledger.nextId s target
      (((ledger.sequences s).map fun live => ledger.lacking live target.toNat).getD 0)
  | _ => .status .success

/-- No call is refused with the code of a success. -/
theorem refusal_ne_ok {ledger : TokenLedger} {call : CacheCall} {code : ErrorCode}
    (refused : ledger.refusal call = some code) : code ≠ .ok := by
  have invalid : some ErrorCode.invalidArgument = some code → code ≠ .ok := by
    rintro ⟨⟩
    decide
  have caught : ∀ (alloc : Allocator) points, alloc.caught points = some code → code ≠ .ok :=
    fun alloc points => caught_ne_ok alloc points code
  -- a call is refused for an argument or for an allocation, and `reserve` also for lack of pages
  cases call with
  | createSequence alloc s p =>
    rw [refusal] at refused
    split at refused
    next => exact invalid refused
    next =>
      split at refused
      next => exact caught _ _ refused
      next =>
        split at refused
        next => exact invalid refused
        next =>
          split at refused
          next => exact invalid refused
          next => exact caught _ _ refused
  | destroySequence s =>
    rw [refusal] at refused
    split at refused
    next => exact invalid refused
    next => cases refused
  | reserve alloc s target =>
    rw [refusal] at refused
    split at refused
    next => exact invalid refused
    next =>
      split at refused
      next => exact invalid refused
      next =>
        split at refused
        next first =>
          rw [← Option.some.inj refused]
          exact caught_ne_ok _ _ _ first
        next =>
          split at refused
          next =>
            rw [← Option.some.inj refused]
            decide
          next => exact caught _ _ refused
  | commit alloc id =>
    rw [refusal] at refused
    split at refused
    next => exact invalid refused
    next => exact caught _ _ refused
  | rollback id =>
    rw [refusal] at refused
    split at refused
    next => exact invalid refused
    next => cases refused
  | publishPrefix alloc p s =>
    rw [refusal] at refused
    split at refused
    next => exact invalid refused
    next =>
      split at refused
      next => exact invalid refused
      next => exact caught _ _ refused
  | destroyPrefix p =>
    rw [refusal] at refused
    split at refused
    next => exact invalid refused
    next =>
      split at refused
      next => exact invalid refused
      next => cases refused

theorem refusedWith_failed {code : ErrorCode} (failed : code ≠ .ok) (call : CacheCall) :
    (refusedWith code call).failed = true := by
  cases call <;> simp [refusedWith, LedgerReply.failed, failed]

theorem accepted_failed (ledger : TokenLedger) (call : CacheCall) :
    (ledger.accepted call).failed = false := by
  cases call <;> rfl

noncomputable def step (ledger : TokenLedger) (call : CacheCall) : LedgerReply × TokenLedger :=
  match ledger.refusal call with
  | some code => (refusedWith code call, ledger)
  | none => (ledger.accepted call, ledger.applied call)

end TokenLedger

noncomputable def ledgerMachine : Transition.Machine TokenLedger CacheCall LedgerReply :=
  ⟨TokenLedger.step⟩

end MarketForge.Serving
