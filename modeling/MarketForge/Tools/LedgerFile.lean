import MarketForge.Tools.TrialLedger

/-!
# The ledger file

What a launcher writes, the next one reads: the checks of `_read` accept every file that `_write`
makes of well-formed reservations with distinct ids, and return these reservations.
-/
namespace MarketForge.Tools

/-! ### Reservations that are accepted -/

structure Reservation.WellFormed (item : Reservation) : Prop where
  id : lowerHex 32 item.reservationId = true
  commit : lowerHex 40 item.candidateCommit = true
  gate : item.gateId = MarketForge.Tools.gateId
  cost : item.reservedCostUsd = reservationCost
  minutes : item.reservedGpuMinutes = reservationMinutes
  status : item.status ∈ statuses

def reservationIds (reservations : List Reservation) : List String :=
  reservations.map Reservation.reservationId

theorem textWhere_ok {valid : String → Bool} {value : PyValue} {message text : String} :
    textWhere valid value message = .ok text ↔ value = .str text ∧ valid text = true := by
  cases value with
  | str own =>
    rw [textWhere, accepted_eq_ok, PyValue.str.injEq, and_comm]
    apply and_congr_right
    rintro rfl
    rfl
  | _ => simp [textWhere]

theorem dictWith_ok {expected : List String} {value : PyValue} {message : String}
    {items : PyDict} : dictWith expected value message = .ok items ↔
      value = .dict items ∧ HasKeys items expected := by
  cases value with
  | dict own =>
    rw [dictWith, accepted_eq_ok, PyValue.dict.injEq, and_comm]
    apply and_congr_right
    rintro rfl
    rfl
  | _ => simp [dictWith]

theorem hasKeys_self (items : PyDict) : HasKeys items (keys items) :=
  ⟨fun _ member => member, fun _ member => member⟩

/-- A well-formed reservation is read back as it was written. -/
theorem readReservation_toDict {item : Reservation} {earlier : List String}
    (formed : item.WellFormed) (fresh : item.reservationId ∉ earlier) :
    readReservation earlier (.dict item.toDict) = .ok item := by
  have unseen : (lowerHex 32 item.reservationId && !earlier.contains item.reservationId)
      = true := by
    simp [formed.id, fresh]
  simp only [readReservation, bind_eq_ok, dictWith_ok, textWhere_ok]
  exact ⟨item.toDict, ⟨rfl, hasKeys_self item.toDict⟩, _, ⟨rfl, unseen⟩, _, ⟨rfl, formed.commit⟩, _,
    ⟨rfl, decide_eq_true formed.gate⟩, _, ⟨rfl, List.contains_iff_mem.mpr formed.status⟩, _,
    ⟨rfl, decide_eq_true formed.cost⟩, _, ⟨rfl, decide_eq_true formed.minutes⟩, rfl⟩

/-- Well-formed reservations with distinct ids are read back as they were written. -/
theorem readReservations_toDict {reservations : List Reservation} {earlier : List String}
    (formed : ∀ item ∈ reservations, item.WellFormed)
    (distinct : (earlier ++ reservationIds reservations).Nodup) :
    readReservations earlier (reservations.map fun item => .dict item.toDict) =
      .ok reservations := by
  induction reservations generalizing earlier with
  | nil => rfl
  | cons item rest ih =>
    rw [List.forall_mem_cons] at formed
    have fresh : item.reservationId ∉ earlier := by
      intro member
      exact (List.nodup_append.mp distinct).2.2 _ member _ (by simp [reservationIds]) rfl
    have grown : (earlier ++ [item.reservationId] ++ reservationIds rest).Nodup := by
      simpa [reservationIds] using distinct
    have later := ih formed.2 grown
    rw [List.map_cons, readReservations, readReservation_toDict formed.1 fresh]
    simp only [bind, Except.bind, later]
    rfl

variable {signer : Signer}

/-- A written ledger is accepted, with the reservations that were written. -/
theorem checkLedger_signed {key : StateKey} {reservations : List Reservation}
    (formed : ∀ item ∈ reservations, item.WellFormed)
    (distinct : (reservationIds reservations).Nodup) :
    checkLedger signer key (signed signer key reservations) = .ok reservations := by
  have authentic : (lowerHex 64 (signer.signature
      (payloadValue (.int 1) (reservationValues reservations)) key) && decide
        (signer.signature (payloadValue (.int 1) (reservationValues reservations)) key =
          signer.signature (payloadValue (.int 1) (reservationValues reservations)) key)) =
      true := by
    simp [signer.hexdigest]
  rw [checkLedger, bind_eq_ok]
  refine ⟨_, dictWith_ok.mpr ⟨rfl, hasKeys_self _⟩, ?_⟩
  rw [bind_eq_ok]
  refine ⟨_, textWhere_ok.mpr ⟨rfl, authentic⟩, ?_⟩
  exact readReservations_toDict formed distinct

/-! ### Calls on a written file -/

/-- The state files are absent, or hold the reservations signed with the key. -/
inductive Holds (signer : Signer) : Files → List Reservation → Prop where
  | absent : Holds signer .empty []
  | written (key : StateKey) (reservations : List Reservation) :
      Holds signer ⟨some key, some (signed signer key reservations)⟩ reservations

variable {files : Files} {reservations : List Reservation}

/-- Reading leaves the reservations in a file, also if there was none. -/
theorem read_holds (drawn : StateKey) (holds : Holds signer files reservations)
    (formed : ∀ item ∈ reservations, item.WellFormed)
    (distinct : (reservationIds reservations).Nodup) :
    ∃ key, read signer drawn files =
      (.ok reservations, ⟨some key, some (signed signer key reservations)⟩) := by
  cases holds with
  | absent =>
    refine ⟨drawn, ?_⟩
    simp only [read, ensureState, Files.empty]
    rw [checkLedger_signed formed distinct]
  | written key =>
    refine ⟨key, ?_⟩
    simp only [read, ensureState]
    rw [checkLedger_signed formed distinct]

/-- What a decision leaves of the reservations. -/
def decided {α : Type} (reservations : List Reservation) :
    Ledger (α × Option (List Reservation)) → List Reservation
  | .ok (_, some changed) => changed
  | _ => reservations

/-- A call replies what it decides on the reservations, and the file then holds them decided. -/
theorem locked_holds {α : Type} (drawn : StateKey)
    (body : List Reservation → Ledger (α × Option (List Reservation)))
    (holds : Holds signer files reservations)
    (formed : ∀ item ∈ reservations, item.WellFormed)
    (distinct : (reservationIds reservations).Nodup) :
    (locked signer drawn body files).1 = (body reservations).map Prod.fst ∧
      Holds signer (locked signer drawn body files).2
        (decided reservations (body reservations)) := by
  obtain ⟨key, done⟩ := read_holds drawn holds formed distinct
  rw [locked, done]
  cases answered : body reservations with
  | error error =>
    simp only [answered]
    exact ⟨rfl, .written key reservations⟩
  | ok answer =>
    obtain ⟨value, change⟩ := answer
    cases change with
    | none =>
      simp only [answered]
      exact ⟨rfl, .written key reservations⟩
    | some changed =>
      simp only [answered]
      exact ⟨rfl, .written key changed⟩

end MarketForge.Tools
