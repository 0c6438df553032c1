import MarketForge.Library.Transition
import MarketForge.Tools.Python

/-!
# The trial ledger

Launchers reserve a trial before they dispatch it and finish it afterwards. Each call takes the
lock of the ledger, reads and checks the whole file, decides, and replaces the file, so a run of
any number of launchers is a sequence of calls. A JSON file is the value that its text denotes; the
order of the keys in a dictionary is read by nothing.
-/
namespace MarketForge.Tools

open BinaryFloat

inductive LedgerError where
  | valueError (message : String)
  | runtimeError (message : String)
  | fileNotFoundError
  deriving DecidableEq, Repr

abbrev Ledger (α : Type) := Except LedgerError α

/-! ### Costs -/

/-- The ceilings of one chain, which the module requires to be these values when it is loaded. -/
def compileCostCeilingUsd : ℚ := 0.0210480

def gpuCostCeilingUsd : ℚ := 0.2313720

def chainCostCeilingUsd : ℚ := compileCostCeilingUsd + gpuCostCeilingUsd

def trialGpuMinuteCeiling : ℚ := 120

def trialComputeCeilingUsd : ℚ := 2

def trialReservationGpuMinutes : Nat := 15

def gateId : String := "pr6-cuda-lifecycle-v1"

/-- A non-negative `Decimal` with the format `.6f`, which rounds half to even. -/
def sixPlaces (value : ℚ) : String :=
  let scaled := (halfEven (value * 10 ^ 6)).toNat
  let fraction := toString (scaled % 10 ^ 6)
  toString (scaled / 10 ^ 6) ++ "." ++ String.ofList (List.replicate (6 - fraction.length) '0') ++
    fraction

/-- What a decimal text denotes. -/
inductive Decimal where
  | finite (value : ℚ)
  | special

def digitsValue (digits : List Char) : Nat :=
  digits.foldl (fun value digit => 10 * value + (digit.toNat - '0'.toNat)) 0

/-- The sign of a text and what follows it. -/
def signOf : List Char → ℚ × List Char
  | '-' :: rest => (-1, rest)
  | '+' :: rest => (1, rest)
  | rest => (1, rest)

/-- The words that are not finite numbers. -/
def specialWord (text : List Char) : Bool :=
  let word := text.map Char.toLower
  let payload := if word.head? = some 's' then word.tail else word
  decide (word = "inf".toList) || decide (word = "infinity".toList) ||
    (decide (payload.take 3 = "nan".toList) && (payload.drop 3).all Char.isDigit)

/-- The exponent after a coefficient. -/
def exponentOf : List Char → Option Int
  | [] => some 0
  | marker :: text =>
    let (sign, digits) := signOf text
    if (marker = 'e' ∨ marker = 'E') ∧ !digits.isEmpty ∧ digits.all Char.isDigit then
      some (if sign = -1 then -digitsValue digits else digitsValue digits)
    else none

/-- `Decimal(text)` of an ASCII text without underscores. -/
def readDecimal (text : String) : Option Decimal :=
  let (sign, unsigned) := signOf text.toList
  if specialWord unsigned then some .special
  else
    let whole := unsigned.takeWhile Char.isDigit
    let after := unsigned.dropWhile Char.isDigit
    let pointed := if after.head? = some '.' then after.tail else []
    let fraction := pointed.takeWhile Char.isDigit
    let rest := if after.head? = some '.' then pointed.dropWhile Char.isDigit else after
    if whole.isEmpty && fraction.isEmpty then none
    else
      (exponentOf rest).map fun exponent : Int =>
        .finite (sign * digitsValue (whole ++ fraction) * 10 ^ ((exponent : Int) - fraction.length))

/-- An ASCII character that `strip` takes away. -/
def isSpace (c : Char) : Bool :=
  decide (c = ' ') || (9 ≤ c.toNat && c.toNat ≤ 13) || (28 ≤ c.toNat && c.toNat ≤ 31)

def padded (text : String) : Bool :=
  text.toList.head?.any isSpace || text.toList.getLast?.any isSpace

def parseCost (value : String) : Ledger ℚ :=
  if value = "" ∨ padded value = true then
    .error (.valueError "month-to-date cost must be a nonempty canonical value")
  else
    match readDecimal value with
    | none => .error (.valueError "month-to-date cost is malformed")
    | some .special => .error (.valueError "month-to-date cost must be finite and non-negative")
    | some (.finite parsed) =>
      if parsed < 0 then
        .error (.valueError "month-to-date cost must be finite and non-negative")
      else .ok parsed

/-! ### Reservations -/

structure Reservation where
  reservationId : String
  candidateCommit : String
  gateId : String
  reservedCostUsd : String
  reservedGpuMinutes : String
  status : String
  deriving DecidableEq, Repr

def reservationKeys : List String :=
  ["reservation_id", "candidate_commit", "gate_id", "reserved_cost_usd", "reserved_gpu_minutes",
    "status"]

def Reservation.toDict (item : Reservation) : PyDict :=
  [("reservation_id", .str item.reservationId), ("candidate_commit", .str item.candidateCommit),
    ("gate_id", .str item.gateId), ("reserved_cost_usd", .str item.reservedCostUsd),
    ("reserved_gpu_minutes", .str item.reservedGpuMinutes), ("status", .str item.status)]

def reservationCost : String := sixPlaces chainCostCeilingUsd

/-- `str` of a `Decimal` without an exponent. -/
def reservationMinutes : String := toString trialReservationGpuMinutes

def statuses : List String := ["reserved", "passed", "failed"]

/-- The value under a key that has been checked to be there. -/
def field (items : PyDict) (key : String) : PyValue := (lookup items key).getD .none

/-- A value that is a text with the property. -/
def textWhere (valid : String → Bool) (value : PyValue) (message : String) : Ledger String :=
  match value with
  | .str text => if valid text then .ok text else .error (.valueError message)
  | _ => .error (.valueError message)

/-- A value that is a dictionary with exactly the keys. -/
def dictWith (expected : List String) (value : PyValue) (message : String) : Ledger PyDict :=
  match value with
  | .dict items => if HasKeys items expected then .ok items else .error (.valueError message)
  | _ => .error (.valueError message)

/-- One pass of the loop over the reservations, with the ids so far. -/
def readReservation (reservationIds : List String) (value : PyValue) : Ledger Reservation := do
  let item ← dictWith reservationKeys value "trial ledger reservation is malformed"
  let reservationId ← textWhere
    (fun text => lowerHex 32 text && !reservationIds.contains text)
    (field item "reservation_id") "trial ledger reservation_id is invalid"
  let candidateCommit ← textWhere (lowerHex 40) (field item "candidate_commit")
    "trial ledger candidate_commit is invalid"
  let gate ← textWhere (fun text => text = gateId) (field item "gate_id")
    "trial ledger gate_id is invalid"
  let status ← textWhere statuses.contains (field item "status") "trial ledger status is invalid"
  let cost ← textWhere (fun text => text = reservationCost) (field item "reserved_cost_usd")
    "trial ledger reservation costs are invalid"
  let minutes ← textWhere (fun text => text = reservationMinutes)
    (field item "reserved_gpu_minutes") "trial ledger reservation costs are invalid"
  pure ⟨reservationId, candidateCommit, gate, cost, minutes, status⟩

def readReservations : List String → List PyValue → Ledger (List Reservation)
  | _, [] => .ok []
  | reservationIds, value :: rest => do
    let item ← readReservation reservationIds value
    let items ← readReservations (reservationIds ++ [item.reservationId]) rest
    pure (item :: items)

/-! ### The state files -/

/-- The key that signs the ledger. -/
structure StateKey where
  bytes : List UInt8
  size : bytes.length = 32

/-- The hexadecimal HMAC-SHA256 of a value under a key. -/
structure Signer where
  signature : PyValue → StateKey → String
  hexdigest : ∀ payload key, lowerHex 64 (signature payload key) = true

/-- The key file and the ledger file of a state directory. -/
structure Files where
  key : Option StateKey
  ledger : Option PyValue

def Files.empty : Files := ⟨none, none⟩

/-- What is signed. -/
def payloadValue (schemaVersion reservations : PyValue) : PyValue :=
  .dict [("schema_version", schemaVersion), ("reservations", reservations)]

def reservationValues (reservations : List Reservation) : PyValue :=
  .list (reservations.map fun item => .dict item.toDict)

def ledgerKeys : List String := ["schema_version", "reservations", "signature"]

section Calls
variable (signer : Signer)

/-- The ledger file for some reservations. -/
def signed (key : StateKey) (reservations : List Reservation) : PyValue :=
  let items := reservationValues reservations
  .dict [("schema_version", .int 1), ("reservations", items),
    ("signature", .str (signer.signature (payloadValue (.int 1) items) key))]

/-- `_ensure_state`, with the key that is drawn if there is none. -/
def ensureState (drawn : StateKey) (files : Files) : Ledger (StateKey × Files) :=
  match files.key, files.ledger with
  | some key, some _ => .ok (key, files)
  | none, none => .ok (drawn, ⟨some drawn, some (signed signer drawn [])⟩)
  | _, _ => .error (.runtimeError "trial ledger/key state loss or tampering detected")

/-- The checks of `_read` on the value in the file. -/
def checkLedger (key : StateKey) (value : PyValue) : Ledger (List Reservation) := do
  let root ← dictWith ledgerKeys value "trial ledger has an invalid schema"
  let version := field root "schema_version"
  let reservations := field root "reservations"
  let _ ← textWhere
    (fun text => lowerHex 64 text &&
      decide (text = signer.signature (payloadValue version reservations) key))
    (field root "signature") "trial ledger authentication failed"
  if version.isInt 1 = false then .error (.valueError "trial ledger schema version is invalid")
  else
    match reservations with
    | .list items => readReservations [] items
    | _ => .error (.valueError "trial ledger reservations must be an array")

/-- `_read`: the reservations, and the files that it may have created. -/
def read (drawn : StateKey) (files : Files) : Ledger (List Reservation) × Files :=
  match ensureState signer drawn files with
  | .error error => (.error error, files)
  | .ok (key, opened) =>
    match opened.ledger with
    | none => (.error .fileNotFoundError, opened)
    | some value => (checkLedger signer key value, opened)

/-- `_write`, which reads the key file again. -/
def write (reservations : List Reservation) (files : Files) : Ledger Files :=
  match files.key with
  | none => .error (.runtimeError "persistent state key is missing: pr6-trial-ledger.key")
  | some key => .ok { files with ledger := some (signed signer key reservations) }

/-- A call under the lock: read, decide, and write if something is decided. -/
def locked {α : Type} (drawn : StateKey)
    (body : List Reservation → Ledger (α × Option (List Reservation))) (files : Files) :
    Ledger α × Files :=
  match read signer drawn files with
  | (.error error, opened) => (.error error, opened)
  | (.ok reservations, opened) =>
    match body reservations with
    | .error error => (.error error, opened)
    | .ok (value, none) => (.ok value, opened)
    | .ok (value, some decided) =>
      match write signer decided opened with
      | .error error => (.error error, opened)
      | .ok written => (.ok value, written)

end Calls

/-! ### What the calls decide -/

/-- The statuses of the reservations of a candidate at a gate. -/
def matchingStatuses (candidateCommit gateId : String) (reservations : List Reservation) :
    List String :=
  (reservations.filter fun item =>
    decide (item.candidateCommit = candidateCommit) && decide (item.gateId = gateId)).map
      Reservation.status

/-- The sum of a cost of the reservations, with the sum so far. -/
def sumCosts (cost : Reservation → String) : List Reservation → ℚ → Ledger ℚ
  | [], total => .ok total
  | item :: rest, total => do
    let parsed ← parseCost (cost item)
    sumCosts cost rest (total + parsed)

/-- What a launcher adds to the ledger. -/
def newReservation (reservationId candidateCommit gateId : String) : Reservation :=
  ⟨reservationId, candidateCommit, gateId, reservationCost, reservationMinutes, "reserved"⟩

def decideReserve (reservationId candidateCommit gateId : String)
    (reservations : List Reservation) : Ledger (String × Option (List Reservation)) := do
  let statuses := matchingStatuses candidateCommit gateId reservations
  if "passed" ∈ statuses then
    .error (.runtimeError "an identical PR-6 candidate already passed permanently")
  else if "reserved" ∈ statuses then
    .error (.runtimeError "an identical PR-6 candidate is already being dispatched")
  else
    let spent ← sumCosts Reservation.reservedCostUsd reservations 0
    let minutes ← sumCosts Reservation.reservedGpuMinutes reservations 0
    if spent + chainCostCeilingUsd > trialComputeCeilingUsd then
      .error (.runtimeError "PR-6 cumulative $2.00 trial ceiling exhausted")
    else if minutes + trialReservationGpuMinutes > trialGpuMinuteCeiling then
      .error (.runtimeError "PR-6 cumulative 120-L4-minute trial ceiling exhausted")
    else
      .ok (reservationId,
        some (reservations ++ [newReservation reservationId candidateCommit gateId]))

def finishStatus (passed : Bool) : String := if passed then "passed" else "failed"

/-- The reservation with a status in place of its own, if it has the id. -/
def Reservation.finished (reservationId : String) (passed : Bool) (item : Reservation) :
    Reservation :=
  if item.reservationId = reservationId then { item with status := finishStatus passed } else item

/-- The reservations with an id. -/
def matching (reservationId : String) (reservations : List Reservation) : List Reservation :=
  reservations.filter fun item => decide (item.reservationId = reservationId)

def decideFinish (reservationId : String) (passed : Bool) (reservations : List Reservation) :
    Ledger (Unit × Option (List Reservation)) :=
  match matching reservationId reservations with
  | [item] =>
    if item.status = "reserved" then
      .ok ((), some (reservations.map (Reservation.finished reservationId passed)))
    else .error (.runtimeError "trial reservation is absent or already finished")
  | _ => .error (.runtimeError "trial reservation is absent or already finished")

def decideRequire (reservationId candidateCommit gateId : String)
    (reservations : List Reservation) : Ledger (Unit × Option (List Reservation)) :=
  match matching reservationId reservations with
  | [item] =>
    if item.status = "reserved" ∧ item.candidateCommit = candidateCommit ∧ item.gateId = gateId then
      .ok ((), none)
    else .error (.runtimeError "authorization has no matching trial reservation")
  | _ => .error (.runtimeError "authorization has no matching trial reservation")

/-! ### The calls -/

/-- A drawn reservation id, `token_hex(16)`. -/
structure Token where
  text : String
  hex : lowerHex 32 text = true

section Calls
variable (signer : Signer)

def reserve (drawn : StateKey) (token : Token) (candidateCommit gate : String) (files : Files) :
    Ledger String × Files :=
  if lowerHex 40 candidateCommit = false ∨ gate ≠ gateId then
    (.error (.valueError "trial reservation provenance is invalid"), files)
  else locked signer drawn (decideReserve token.text candidateCommit gate) files

def finish (drawn : StateKey) (reservationId : String) (passed : Bool) (files : Files) :
    Ledger Unit × Files :=
  locked signer drawn (decideFinish reservationId passed) files

def requireReserved (drawn : StateKey) (reservationId candidateCommit gate : String)
    (files : Files) : Ledger Unit × Files :=
  locked signer drawn (decideRequire reservationId candidateCommit gate) files

end Calls

/-- A call of some launcher, with the key and the id that it would draw. -/
inductive LedgerCall where
  | reserve (drawn : StateKey) (token : Token) (candidateCommit gate : String)
  | finish (drawn : StateKey) (reservationId : String) (passed : Bool)
  | requireReserved (drawn : StateKey) (reservationId candidateCommit gate : String)

/-- The id that a call returns, or nothing. -/
abbrev LedgerReply := Ledger (Option String)

def ledgerStep (signer : Signer) (files : Files) : LedgerCall → LedgerReply × Files
  | .reserve drawn token candidateCommit gate =>
    let (reply, after) := reserve signer drawn token candidateCommit gate files
    (reply.map some, after)
  | .finish drawn reservationId passed =>
    let (reply, after) := finish signer drawn reservationId passed files
    (reply.map fun _ => none, after)
  | .requireReserved drawn reservationId candidateCommit gate =>
    let (reply, after) := requireReserved signer drawn reservationId candidateCommit gate files
    (reply.map fun _ => none, after)

def ledgerMachine (signer : Signer) : Transition.Machine Files LedgerCall LedgerReply :=
  ⟨ledgerStep signer⟩

/-- The id in a reply. -/
def repliedId : LedgerReply → Option String
  | .ok id => id
  | .error _ => none

/-- The id that a call has generated. -/
def generatedId (e : Transition.Event Files LedgerCall LedgerReply) : Option String :=
  repliedId e.reply

end MarketForge.Tools
