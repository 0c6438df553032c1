import MarketForge.Library.Fallible
import Mathlib.Data.List.Forall2
import Mathlib.Data.Nat.Notation

/-!
# Status codes, results and allocation

`Status` and `Result` as every component reports them. Allocation can fail at any point where
the source creates or grows a container: an `Allocator` gives the outcome of each such point of
one call, in order, so that a theorem quantified over allocators covers every way memory can
run out.
-/
namespace MarketForge

inductive ErrorCode where
  | ok
  | invalidArgument
  | unsupportedDtype
  | invalidShape
  | invalidModel
  | arithmeticOverflow
  | invalidAlignment
  | allocationFailed
  | insufficientMemory
  | insufficientResources
  | ioError
  | invalidFormat
  | invalidUtf8
  | invalidJson
  | duplicateKey
  | resourceLimit
  | truncatedData
  | invalidTensor
  | missingTensor
  | unexpectedTensor
  | hashMismatch
  | cudaBackendFailure
  | cudaRuntimeFailure
  deriving DecidableEq, Repr

structure Status where
  code : ErrorCode := .ok
  detail : UInt32 := 0
  deriving DecidableEq, Repr

namespace Status

def isOk (s : Status) : Bool := decide (s.code = .ok)

def success : Status := {}

def failure (error : ErrorCode) (errorDetail : UInt32 := 0) : Status := ⟨error, errorDetail⟩

@[simp] theorem isOk_success : success.isOk = true := rfl

@[simp] theorem isOk_failure (error : ErrorCode) (errorDetail : UInt32) :
    (failure error errorDetail).isOk = decide (error = .ok) := rfl

end Status

/-- A value, or the status of the failure that prevented it. -/
abbrev Result (α : Type) := Except Status α

/-- A loop that collects results succeeds exactly when each of its turns does. -/
theorem map_ok_iff {α β : Type} (action : α → Result β) (items : List α) (results : List β) :
    items.mapM action = .ok results ↔
      List.Forall₂ (fun item result => action item = .ok result) items results := by
  induction items generalizing results with
  | nil =>
    rw [List.forall₂_nil_left_iff, List.mapM_nil]
    exact ⟨fun done => (Except.ok.inj done).symm, fun empty => empty ▸ rfl⟩
  | cons item others ih =>
    rw [List.mapM_cons]
    constructor
    · intro succeeded
      obtain ⟨first, done, succeeded⟩ := bind_eq_ok.mp succeeded
      obtain ⟨rest, collected, succeeded⟩ := bind_eq_ok.mp succeeded
      obtain rfl := Except.ok.inj succeeded
      exact List.Forall₂.cons done ((ih rest).mp collected)
    · intro each
      cases each with
      | cons done rest =>
        rw [done, (ih _).mpr rest]
        rfl

/-- The loop succeeds as soon as every turn of it would. -/
theorem map_succeeds {α β : Type} (action : α → Result β) (items : List α)
    (each : ∀ item ∈ items, ∃ result, action item = .ok result) :
    ∃ results, items.mapM action = .ok results := by
  induction items with
  | nil => exact ⟨[], rfl⟩
  | cons item others ih =>
    obtain ⟨first, done⟩ := each item (by simp)
    obtain ⟨rest, collected⟩ := ih fun other listed => each other (by simp [listed])
    refine ⟨first :: rest, ?_⟩
    rw [List.mapM_cons, done, collected]
    rfl

/-- Every result of such a loop comes from one of its items. -/
theorem forall₂_right {α β : Type} {related : α → β → Prop} {items : List α} {results : List β}
    (pairs : List.Forall₂ related items results) (result : β) (listed : result ∈ results) :
    ∃ item ∈ items, related item result := by
  induction pairs with
  | nil => cases listed
  | cons here _ ih =>
    rcases List.mem_cons.mp listed with rfl | later
    · exact ⟨_, by simp, here⟩
    · obtain ⟨item, member, holds⟩ := ih later
      exact ⟨item, by simp [member], holds⟩

/-- How one allocation point ends. -/
inductive Allocation where
  | granted
  | badAlloc
  | lengthError
  deriving DecidableEq, Repr

/-- The code the handlers of `std::bad_alloc` and `std::length_error` report. -/
def Allocation.caught : Allocation → Option ErrorCode
  | .granted => none
  | .badAlloc => some .allocationFailed
  | .lengthError => some .resourceLimit

/-- The outcome of every allocation point of one call, numbered in program order. -/
abbrev Allocator := Nat → Allocation

/-- The first failure among the given points, as its handler reports it. -/
def Allocator.caught (alloc : Allocator) (points : List Nat) : Option ErrorCode :=
  points.findSome? fun point => (alloc point).caught

/-- An exception handler never reports success. -/
theorem caught_ne_ok (alloc : Allocator) (points : List Nat) (code : ErrorCode)
    (caught : alloc.caught points = some code) : code ≠ .ok := by
  obtain ⟨point, _, reported⟩ := List.exists_of_findSome?_eq_some caught
  cases fate : alloc point <;> simp [Allocation.caught, fate] at reported
  all_goals subst reported; decide

/-- The allocation points of a call that are granted, for components whose containers are far
from their maximal size and that handle `std::bad_alloc` only. -/
abbrev Memory := Nat → Bool

/-- Memory never runs out. -/
def Allocator.unlimited : Allocator := fun _ => .granted

@[simp] theorem unlimited_caught (points : List Nat) :
    Allocator.unlimited.caught points = none := by
  rw [Allocator.caught, List.findSome?_eq_none_iff]
  intro point _
  rfl

end MarketForge
