import MarketForge.Library.GrowingLog
import MarketForge.Tools.LedgerFile

/-!
# The trial budget

A ledger is here the list of its reservations, and `Advance` is what a call may do to it: nothing,
one more reservation under the ceilings, or a status in place of `reserved`. Every call of the
model is such an advance on a file that the next call accepts, so what holds along advances holds
of the ledger file over every run of the launchers.
-/
namespace MarketForge.Tools

open GrowingLog Relation

/-! ### Advances -/

/-- Reserved or passed. -/
def Reservation.isOpen (item : Reservation) : Bool :=
  decide (item.status = "reserved") || decide (item.status = "passed")

/-- The ceilings for a number of reservations. -/
def Affordable (count : Nat) : Prop :=
  count * chainCostCeilingUsd ≤ trialComputeCeilingUsd ∧
    (count : ℚ) * trialReservationGpuMinutes ≤ trialGpuMinuteCeiling

inductive Advance : List Reservation → List Reservation → Prop where
  | stay (reservations : List Reservation) : Advance reservations reservations
  | reserve {reservations : List Reservation} {item : Reservation} (formed : item.WellFormed)
      (fresh : item.reservationId ∉ reservationIds reservations)
      (closed : ∀ other ∈ reservations, other.candidateCommit = item.candidateCommit →
        other.isOpen = false)
      (affordable : Affordable (reservations.length + 1)) :
      Advance reservations (reservations ++ [item])
  | finish {reservations : List Reservation} (reservationId : String) (passed : Bool)
      (reserved : ∀ item ∈ reservations, item.reservationId = reservationId →
        item.status = "reserved") :
      Advance reservations (reservations.map (Reservation.finished reservationId passed))

structure Valid (reservations : List Reservation) : Prop where
  formed : ∀ item ∈ reservations, item.WellFormed
  distinct : (reservationIds reservations).Nodup
  affordable : Affordable reservations.length
  /-- At most one open reservation for a commit. -/
  single : ((reservations.filter Reservation.isOpen).map Reservation.candidateCommit).Nodup

theorem Valid.nil : Valid [] where
  formed := nofun
  distinct := List.nodup_nil
  affordable := by simp [Affordable, trialComputeCeilingUsd, trialGpuMinuteCeiling]
  single := List.nodup_nil

section Finished
variable (reservationId : String) (passed : Bool) (item : Reservation)

@[simp] theorem finished_id :
    (item.finished reservationId passed).reservationId = item.reservationId := by
  rw [Reservation.finished]
  split <;> rfl

@[simp] theorem finished_commit :
    (item.finished reservationId passed).candidateCommit = item.candidateCommit := by
  rw [Reservation.finished]
  split <;> rfl

theorem finishStatus_mem : finishStatus passed ∈ statuses := by
  cases passed <;> decide

theorem finishStatus_ne : finishStatus passed ≠ "reserved" := by
  cases passed <;> decide

variable {item}

theorem WellFormed.finished (formed : item.WellFormed) :
    (item.finished reservationId passed).WellFormed := by
  rw [Reservation.finished]
  split
  · exact ⟨formed.id, formed.commit, formed.gate, formed.cost, formed.minutes,
      finishStatus_mem passed⟩
  · exact formed

end Finished

theorem Reservation.isOpen_iff {item : Reservation} :
    item.isOpen = true ↔ item.status = "reserved" ∨ item.status = "passed" := by
  simp [Reservation.isOpen]

/-- An advance keeps a ledger valid. -/
theorem Valid.advance {before after : List Reservation} (valid : Valid before)
    (advance : Advance before after) : Valid after := by
  cases advance with
  | stay => exact valid
  | @reserve item formed fresh closed affordable =>
    refine ⟨?_, ?_, ?_, ?_⟩
    · simpa [or_imp, forall_and] using And.intro valid.formed formed
    · rw [reservationIds, List.map_append, List.map_singleton, ← List.concat_eq_append]
      exact List.Nodup.concat fresh valid.distinct
    · simpa using affordable
    · rw [List.filter_append, List.map_append]
      by_cases opened : item.isOpen = true
      · rw [List.filter_cons_of_pos opened, List.filter_nil, List.map_singleton,
          ← List.concat_eq_append]
        refine List.Nodup.concat ?_ valid.single
        intro listed
        obtain ⟨other, member, same⟩ := List.mem_map.mp listed
        obtain ⟨kept, own⟩ := List.mem_filter.mp member
        rw [closed other kept same] at own
        cases own
      · rw [List.filter_cons_of_neg opened, List.filter_nil, List.map_nil, List.append_nil]
        exact valid.single
  | finish reservationId passed reserved =>
    refine ⟨?_, ?_, ?_, ?_⟩
    · intro item member
      obtain ⟨own, kept, rfl⟩ := List.mem_map.mp member
      exact WellFormed.finished reservationId passed (valid.formed own kept)
    · simpa [reservationIds, Function.comp_def] using valid.distinct
    · rw [List.length_map]
      exact valid.affordable
    · -- A finished reservation was reserved, so it was open before.
      refine (filter_map_sublist ?_).nodup valid.single
      intro item member opened
      refine ⟨?_, finished_commit reservationId passed item⟩
      by_cases own : item.reservationId = reservationId
      · exact Reservation.isOpen_iff.mpr (.inl (reserved item member own))
      · rwa [Reservation.finished, if_neg own] at opened

/-! ### Statuses -/

/-- A reservation as it is, or with a status in place of `reserved`. -/
def Settles (before after : Reservation) : Prop :=
  after = before ∨
    before.status = "reserved" ∧ ∃ passed, after = { before with status := finishStatus passed }

theorem Settles.refl (item : Reservation) : Settles item item := .inl rfl

theorem Settles.trans (first second third : Reservation) (early : Settles first second)
    (late : Settles second third) : Settles first third := by
  rcases late with rfl | ⟨reserved, passed, rfl⟩
  · exact early
  · rcases early with rfl | ⟨_, before, rfl⟩
    · exact .inr ⟨reserved, passed, rfl⟩
    · exact absurd reserved (finishStatus_ne before)

/-- An advance adds reservations and settles reserved ones. -/
theorem Advance.grows {before after : List Reservation} (advance : Advance before after) :
    Grows Settles before after := by
  cases advance with
  | stay => exact Grows.refl Settles.refl before
  | @reserve item => exact Grows.append Settles.refl before [item]
  | finish reservationId passed reserved =>
    apply Grows.map
    intro item member
    rw [Reservation.finished]
    split
    next own => exact .inr ⟨reserved item member own, passed, rfl⟩
    next => exact .inl rfl

/-- The reservations of a commit. -/
def ofCommit (commit : String) (reservations : List Reservation) : List Reservation :=
  reservations.filter fun item => decide (item.candidateCommit = commit)

/-- An advance leaves the reservations of a commit that has passed as they are. -/
theorem Advance.ofCommit_eq {before after : List Reservation} (advance : Advance before after)
    (valid : Valid before) {item : Reservation} (member : item ∈ before)
    (passed : item.status = "passed") :
    ofCommit item.candidateCommit after = ofCommit item.candidateCommit before := by
  have opened : item.isOpen = true := Reservation.isOpen_iff.mpr (.inr passed)
  cases advance with
  | stay => rfl
  | @reserve added formed fresh closed affordable =>
    have other : added.candidateCommit ≠ item.candidateCommit := by
      intro same
      rw [closed item member same.symm] at opened
      cases opened
    simp [ofCommit, List.filter_append, other]
  | finish reservationId outcome reserved =>
    apply filter_map_eq
    intro own kept same
    rw [Reservation.finished]
    split
    next finished =>
      -- Two open reservations of one commit are one, and it cannot be both reserved and passed.
      have status := reserved own kept finished
      have commit : own.candidateCommit = item.candidateCommit := by
        simpa using same
      have one : own = item := List.inj_on_of_nodup_map valid.single
        (List.mem_filter.mpr ⟨kept, Reservation.isOpen_iff.mpr (.inl status)⟩)
        (List.mem_filter.mpr ⟨member, opened⟩) commit
      rw [one, passed] at status
      exact absurd status (by decide)
    next => rfl

/-! ### Runs of advances -/

/-- Along advances a ledger stays valid and grows, and the commits that have passed keep their
reservations. -/
theorem advances_kept {before after : List Reservation} (valid : Valid before)
    (advances : ReflTransGen Advance before after) :
    Valid after ∧ Grows Settles before after ∧
      ∀ item ∈ before, item.status = "passed" →
        ofCommit item.candidateCommit after = ofCommit item.candidateCommit before := by
  induction advances with
  | refl => exact ⟨valid, Grows.refl Settles.refl before, fun _ _ _ => rfl⟩
  | tail _ last ih =>
    obtain ⟨kept, grown, sealed⟩ := ih
    refine ⟨kept.advance last, grown.trans Settles.trans last.grows, ?_⟩
    intro item member passed
    -- The passed reservation is still there and still passed.
    obtain ⟨own, still, settled⟩ := grown.exists_mem member
    rcases settled with rfl | ⟨reserved, _⟩
    · rw [last.ofCommit_eq kept still passed]
      exact sealed own member passed
    · rw [passed] at reserved
      exact absurd reserved (by decide)

/-! ### The calls -/

theorem sumCosts_const {cost : Reservation → String} {text : String} {value : ℚ}
    (parsed : parseCost text = .ok value) {reservations : List Reservation}
    (same : ∀ item ∈ reservations, cost item = text) (total : ℚ) :
    sumCosts cost reservations total = .ok (total + reservations.length * value) := by
  induction reservations generalizing total with
  | nil => simp [sumCosts]
  | cons item rest ih =>
    rw [List.forall_mem_cons] at same
    rw [sumCosts, same.1, parsed]
    have later := ih same.2 (total + value)
    simp only [bind, Except.bind, later, List.length_cons]
    push_cast
    rw [show total + value + rest.length * value = total + (rest.length + 1) * value by ring]

theorem parse_reservationCost : parseCost reservationCost = .ok chainCostCeilingUsd := by
  decide +kernel

theorem parse_reservationMinutes :
    parseCost reservationMinutes = .ok (trialReservationGpuMinutes : ℚ) := by
  decide +kernel

section Decisions
variable {reservations : List Reservation}

/-- The spent money of a valid ledger. -/
theorem Valid.spent (valid : Valid reservations) :
    sumCosts Reservation.reservedCostUsd reservations 0 =
      .ok (reservations.length * chainCostCeilingUsd) := by
  rw [sumCosts_const parse_reservationCost fun item member => (valid.formed item member).cost]
  rw [zero_add]

theorem Valid.minutes (valid : Valid reservations) :
    sumCosts Reservation.reservedGpuMinutes reservations 0 =
      .ok (reservations.length * (trialReservationGpuMinutes : ℚ)) := by
  rw [sumCosts_const parse_reservationMinutes fun item member =>
    (valid.formed item member).minutes]
  rw [zero_add]

/-- A reservation that goes through is an advance, for an id that is fresh. -/
theorem decideReserve_advance {token : Token} {candidateCommit : String}
    {answer : String × Option (List Reservation)} (valid : Valid reservations)
    (commit : lowerHex 40 candidateCommit = true)
    (done : decideReserve token.text candidateCommit gateId reservations = .ok answer) :
    answer = (token.text,
        some (reservations ++ [newReservation token.text candidateCommit gateId])) ∧
      (token.text ∉ reservationIds reservations → Advance reservations
        (reservations ++ [newReservation token.text candidateCommit gateId])) := by
  rw [decideReserve, valid.spent, valid.minutes] at done
  simp only [bind, Except.bind] at done
  split at done
  next => cases done
  next unpassed =>
    split at done
    next => cases done
    next unreserved =>
      split at done
      next => cases done
      next cheap =>
        split at done
        next => cases done
        next short =>
          refine ⟨(Except.ok.inj done).symm, fun fresh => .reserve ?_ fresh ?_ ?_⟩
          · exact ⟨token.hex, commit, rfl, rfl, rfl, List.mem_cons_self⟩
          · intro other member same
            by_contra opened
            rw [Bool.not_eq_false, Reservation.isOpen_iff] at opened
            have listed : other.status ∈ matchingStatuses candidateCommit gateId reservations := by
              apply List.mem_map_of_mem
              have gate := (valid.formed other member).gate
              have commit : other.candidateCommit = candidateCommit := same
              simp [member, gate, commit]
            rcases opened with reserved | passed
            · exact unreserved (reserved ▸ listed)
            · exact unpassed (passed ▸ listed)
          · rw [not_lt] at cheap short
            constructor
            · push_cast
              linarith
            · push_cast
              linarith

/-- A finish that goes through is an advance. -/
theorem decideFinish_advance {reservationId : String} {passed : Bool}
    {answer : Unit × Option (List Reservation)}
    (done : decideFinish reservationId passed reservations = .ok answer) :
    answer = ((), some (reservations.map (Reservation.finished reservationId passed))) ∧
      Advance reservations (reservations.map (Reservation.finished reservationId passed)) := by
  rw [decideFinish] at done
  split at done
  next item found =>
    split at done
    next reserved =>
      refine ⟨(Except.ok.inj done).symm, .finish reservationId passed ?_⟩
      intro other member own
      have listed : other ∈ matching reservationId reservations := by
        simp [matching, member, own]
      rw [found, List.mem_singleton] at listed
      rw [listed]
      exact reserved
    next => cases done
  next => cases done

theorem decideRequire_unchanged {reservationId candidateCommit gate : String}
    {answer : Unit × Option (List Reservation)}
    (done : decideRequire reservationId candidateCommit gate reservations = .ok answer) :
    answer = ((), none) := by
  rw [decideRequire] at done
  split at done
  next =>
    split at done
    next => exact (Except.ok.inj done).symm
    next => cases done
  next => cases done

end Decisions

/-! ### Runs of the launchers -/

section Runs
variable {signer : Signer} {files : Files} {reservations : List Reservation}

/-- A call under the lock whose decisions are advances. -/
theorem locked_advance {α : Type} {body : List Reservation → Ledger (α × Option (List Reservation))}
    (drawn : StateKey) (id : α → Option String) (holds : Holds signer files reservations)
    (valid : Valid reservations)
    (advances : ∀ value change, body reservations = .ok (value, change) →
      Advance reservations (change.getD reservations) ∧
        reservationIds (change.getD reservations) =
          reservationIds reservations ++ (id value).toList) :
    ∃ after, Holds signer (locked signer drawn body files).2 after ∧ Advance reservations after ∧
      reservationIds after = reservationIds reservations ++
        (repliedId ((locked signer drawn body files).1.map id)).toList := by
  obtain ⟨replied, left⟩ := locked_holds drawn body holds valid.formed valid.distinct
  refine ⟨_, left, ?_⟩
  rw [replied]
  cases answered : body reservations with
  | error error => exact ⟨.stay reservations, (List.append_nil _).symm⟩
  | ok answer =>
    obtain ⟨value, change⟩ := answer
    cases change with
    | none => exact advances value none answered
    | some changed => exact advances value (some changed) answered

theorem step_reserve (drawn : StateKey) (token : Token) (candidateCommit gate : String) :
    (ledgerMachine signer).step files (.reserve drawn token candidateCommit gate) =
      ((reserve signer drawn token candidateCommit gate files).1.map some,
        (reserve signer drawn token candidateCommit gate files).2) := rfl

theorem step_finish (drawn : StateKey) (reservationId : String) (passed : Bool) :
    (ledgerMachine signer).step files (.finish drawn reservationId passed) =
      ((finish signer drawn reservationId passed files).1.map fun _ => none,
        (finish signer drawn reservationId passed files).2) := rfl

theorem step_requireReserved (drawn : StateKey) (reservationId candidateCommit gate : String) :
    (ledgerMachine signer).step files (.requireReserved drawn reservationId candidateCommit gate) =
      ((requireReserved signer drawn reservationId candidateCommit gate files).1.map fun _ => none,
        (requireReserved signer drawn reservationId candidateCommit gate files).2) := rfl

/-- One call is an advance of the ledger, and the file holds the ledger that it leaves. -/
theorem ledgerStep_advance (call : LedgerCall) (holds : Holds signer files reservations)
    (valid : Valid reservations)
    (fresh : ∀ id, repliedId ((ledgerMachine signer).step files call).1 = some id →
      id ∉ reservationIds reservations) :
    ∃ after, Holds signer ((ledgerMachine signer).step files call).2 after ∧
      Advance reservations after ∧ reservationIds after = reservationIds reservations ++
        (repliedId ((ledgerMachine signer).step files call).1).toList := by
  cases call with
  | reserve drawn token candidateCommit gate =>
    rw [step_reserve] at fresh ⊢
    rw [reserve] at fresh ⊢
    by_cases refused : lowerHex 40 candidateCommit = false ∨ gate ≠ gateId
    · rw [if_pos refused]
      exact ⟨reservations, holds, .stay reservations, (List.append_nil _).symm⟩
    · rw [if_neg refused] at fresh ⊢
      rw [not_or, Bool.not_eq_false, not_not] at refused
      obtain ⟨commit, rfl⟩ := refused
      apply locked_advance drawn some holds valid
      intro id change done
      obtain ⟨same, advance⟩ := decideReserve_advance valid commit done
      obtain ⟨rfl, rfl⟩ := Prod.mk.inj same
      have unused : token.text ∉ reservationIds reservations := by
        apply fresh
        rw [(locked_holds drawn _ holds valid.formed valid.distinct).1, done]
        rfl
      refine ⟨advance unused, ?_⟩
      simp [reservationIds, newReservation]
  | finish drawn reservationId passed =>
    rw [step_finish]
    apply locked_advance drawn (fun _ => none) holds valid
    intro value change done
    obtain ⟨same, advance⟩ := decideFinish_advance done
    obtain ⟨rfl, rfl⟩ := Prod.mk.inj same
    refine ⟨advance, ?_⟩
    simp [reservationIds, Function.comp_def]
  | requireReserved drawn reservationId candidateCommit gate =>
    rw [step_requireReserved]
    apply locked_advance drawn (fun _ => none) holds valid
    intro value change done
    obtain ⟨rfl, rfl⟩ := Prod.mk.inj (decideRequire_unchanged done)
    exact ⟨.stay reservations, (List.append_nil _).symm⟩

/-- A run is a run of advances, and its file holds the ledger that it leaves. -/
theorem run_advances (calls : List LedgerCall) (holds : Holds signer files reservations)
    (valid : Valid reservations)
    (distinct : (reservationIds reservations ++
      ((ledgerMachine signer).history files calls).filterMap generatedId).Nodup) :
    ∃ after, Holds signer ((ledgerMachine signer).run files calls) after ∧
      ReflTransGen Advance reservations after ∧ reservationIds after =
        reservationIds reservations ++
          ((ledgerMachine signer).history files calls).filterMap generatedId := by
  induction calls generalizing files reservations with
  | nil => exact ⟨reservations, holds, .refl, (List.append_nil _).symm⟩
  | cons call rest ih =>
    have generated : ((ledgerMachine signer).history files (call :: rest)).filterMap generatedId =
        (repliedId ((ledgerMachine signer).step files call).1).toList ++
          ((ledgerMachine signer).history ((ledgerMachine signer).step files call).2 rest).filterMap
            generatedId := by
      rw [Transition.Machine.history_cons, List.filterMap_cons]
      simp only [generatedId, Transition.Machine.event]
      split
      next none => simp [none]
      next id some => simp [some]
    rw [generated, ← List.append_assoc] at distinct ⊢
    have fresh : ∀ id, repliedId ((ledgerMachine signer).step files call).1 = some id →
        id ∉ reservationIds reservations := by
      intro id replied member
      rw [replied] at distinct
      have apart := (List.nodup_append.mp (List.nodup_append.mp distinct).1).2.2
      exact apart id member id (by simp) rfl
    obtain ⟨next, held, advance, grown⟩ := ledgerStep_advance call holds valid fresh
    rw [← grown] at distinct ⊢
    obtain ⟨after, last, advances, ids⟩ := ih held (valid.advance advance) distinct
    exact ⟨after, last, .head advance advances, ids⟩

/-- Every later `_read` returns these reservations. -/
def Accepted (signer : Signer) (files : Files) (reservations : List Reservation) : Prop :=
  ∀ drawn, (read signer drawn files).1 = .ok reservations

theorem Accepted.unique {first second : List Reservation} (one : Accepted signer files first)
    (other : Accepted signer files second) : first = second := by
  have drawn : StateKey := ⟨List.replicate 32 0, List.length_replicate⟩
  exact Except.ok.inj ((one drawn).symm.trans (other drawn))

/-- The sums that `reserve` takes are within the ceilings. -/
def WithinCeilings (reservations : List Reservation) : Prop :=
  ∃ spent minutes, sumCosts Reservation.reservedCostUsd reservations 0 = .ok spent ∧
    sumCosts Reservation.reservedGpuMinutes reservations 0 = .ok minutes ∧
    spent ≤ trialComputeCeilingUsd ∧ minutes ≤ trialGpuMinuteCeiling

/-- At most one reservation of a commit is reserved or passed. -/
def OneOpen (reservations : List Reservation) : Prop :=
  ∀ commit, ((ofCommit commit reservations).filter Reservation.isOpen).length ≤ 1

theorem Valid.accepted (valid : Valid reservations) (holds : Holds signer files reservations) :
    Accepted signer files reservations := by
  intro drawn
  obtain ⟨key, done⟩ := read_holds drawn holds valid.formed valid.distinct
  rw [done]

theorem Valid.withinCeilings (valid : Valid reservations) : WithinCeilings reservations :=
  ⟨_, _, valid.spent, valid.minutes, valid.affordable.1, valid.affordable.2⟩

theorem Valid.oneOpen (valid : Valid reservations) : OneOpen reservations := by
  intro commit
  have once := List.nodup_iff_count_le_one.mp valid.single commit
  rw [List.count, List.countP_map, List.countP_eq_length_filter] at once
  rw [ofCommit, List.filter_comm]
  exact once

/-- A commit that has passed is reserved no more. -/
theorem Valid.reserve_passed (valid : Valid reservations) (holds : Holds signer files reservations)
    {item : Reservation} (member : item ∈ reservations) (passed : item.status = "passed")
    (drawn : StateKey) (token : Token) (gate : String) :
    ∃ error, (reserve signer drawn token item.candidateCommit gate files).1 = .error error := by
  rw [reserve]
  by_cases refused : lowerHex 40 item.candidateCommit = false ∨ gate ≠ gateId
  · rw [if_pos refused]
    exact ⟨_, rfl⟩
  · rw [if_neg refused]
    rw [not_or, not_not] at refused
    have listed : "passed" ∈ matchingStatuses item.candidateCommit gate reservations := by
      rw [← passed]
      apply List.mem_map_of_mem
      have same := (valid.formed item member).gate
      simp [member, same, refused.2]
    rw [(locked_holds drawn _ holds valid.formed valid.distinct).1, decideReserve, if_pos listed]
    exact ⟨_, rfl⟩

/-- Over every run of the launchers from an empty directory: each ledger is accepted by the next
read, the reservations of all times are within the ceilings, a commit has one open reservation at
most, a status only changes from `reserved`, and a commit that has passed stays as it is and is
reserved no more. -/
theorem trial_ledger_safe (signer : Signer) (calls : List LedgerCall)
    (distinct : (((ledgerMachine signer).history .empty calls).filterMap generatedId).Nodup) :
    ∃ reservations, Accepted signer ((ledgerMachine signer).run .empty calls) reservations ∧
      WithinCeilings reservations ∧ OneOpen reservations ∧
      (∀ first second, calls = first ++ second →
        ∃ earlier, Accepted signer ((ledgerMachine signer).run .empty first) earlier ∧
          Grows Settles earlier reservations ∧
          ∀ item ∈ earlier, item.status = "passed" →
            ofCommit item.candidateCommit reservations = ofCommit item.candidateCommit earlier) ∧
      ∀ item ∈ reservations, item.status = "passed" → ∀ drawn token gate, ∃ error,
        (reserve signer drawn token item.candidateCommit gate
          ((ledgerMachine signer).run .empty calls)).1 = .error error := by
  obtain ⟨reservations, holds, advances, _⟩ := run_advances calls .absent Valid.nil distinct
  obtain ⟨valid, _⟩ := advances_kept Valid.nil advances
  refine ⟨reservations, valid.accepted holds, valid.withinCeilings, valid.oneOpen, ?_, ?_⟩
  · rintro first second rfl
    -- The run splits in two, and the second part advances the ledger that the first has left.
    rw [Transition.Machine.history_append, List.filterMap_append] at distinct
    obtain ⟨earlier, held, early, ids⟩ := run_advances first .absent Valid.nil
      (List.nodup_append.mp distinct).1
    obtain ⟨before, _⟩ := advances_kept Valid.nil early
    have later : (reservationIds earlier ++ ((ledgerMachine signer).history
        ((ledgerMachine signer).run .empty first) second).filterMap generatedId).Nodup := by
      rw [ids]
      exact distinct
    obtain ⟨after, last, late, _⟩ := run_advances second held before later
    rw [← Transition.Machine.run_append] at last
    obtain ⟨later_valid, grown, sealed⟩ := advances_kept before late
    obtain rfl : after = reservations := (later_valid.accepted last).unique (valid.accepted holds)
    exact ⟨earlier, before.accepted held, grown, sealed⟩
  · intro item member passed drawn token gate
    exact valid.reserve_passed holds member passed drawn token gate

end Runs

/-! One launch of a candidate that passes, and two attempts to launch it again. -/

def zeroKey : StateKey := ⟨List.replicate 32 0, rfl⟩

/-- The digests of the empty ledger and of the one reservation before and after it has passed, under
the key of zeros. -/
def launchSigner : Signer where
  signature payload _ :=
    match payload with
    | .dict [(_, _), (_, .list [.dict item])] =>
      if (field item "status").isStr "reserved" then
        "ea3f59effe2d97d67da661cde9a9e77429589adfd6ffdf896bd046c73e953eba"
      else "8f5cdb7858bae54a6b49ca26c14a6067332e2059656535b724b22e2147a1c377"
    | _ => "b31e13979ecb153ad8305cb7ab477818d7e67908d1eb09e040cc4cf97ac818a2"
  hexdigest := by
    intro payload key
    split
    next item =>
      split
      next => decide +kernel
      next => decide +kernel
    next => decide +kernel

def launchToken : Token := ⟨"0123456789abcdef0123456789abcdef", by decide +kernel⟩

def launchCommit : String := String.ofList (List.replicate 40 'a')

def launchCalls : List LedgerCall :=
  [.reserve zeroKey launchToken launchCommit gateId,
    .reserve zeroKey launchToken launchCommit gateId,
    .requireReserved zeroKey launchToken.text launchCommit gateId,
    .finish zeroKey launchToken.text true,
    .reserve zeroKey launchToken launchCommit gateId]

/-- The launch generates one id, and its ledger is accepted and within the ceilings. -/
theorem trial_ledger_safe_launch :
    ((ledgerMachine launchSigner).history .empty launchCalls).filterMap generatedId =
        [launchToken.text] ∧
      ∃ reservations, Accepted launchSigner
          ((ledgerMachine launchSigner).run .empty launchCalls) reservations ∧
        WithinCeilings reservations ∧ OneOpen reservations := by
  have generated : ((ledgerMachine launchSigner).history .empty launchCalls).filterMap
      generatedId = [launchToken.text] := by
    decide +kernel
  have distinct : (((ledgerMachine launchSigner).history .empty launchCalls).filterMap
      generatedId).Nodup := by
    rw [generated]
    exact List.nodup_singleton _
  obtain ⟨reservations, accepted, affordable, single, _⟩ :=
    trial_ledger_safe launchSigner launchCalls distinct
  exact ⟨generated, reservations, accepted, affordable, single⟩

end MarketForge.Tools
