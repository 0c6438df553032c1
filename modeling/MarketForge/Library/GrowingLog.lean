import Mathlib.Data.List.Basic

/-!
# Logs that grow

A log grows by records appended to it and by records revised in place. For a revision that is
reflexive and transitive, so is the growth.
-/
namespace GrowingLog

variable {α β : Type} {R : α → α → Prop}

/-- The records of the first log are, revised, the first records of the second. -/
inductive Grows (R : α → α → Prop) : List α → List α → Prop where
  | nil (added : List α) : Grows R [] added
  | cons {a b : α} {before after : List α} (revised : R a b) (rest : Grows R before after) :
      Grows R (a :: before) (b :: after)

theorem Grows.map {f : α → α} {log : List α} (revised : ∀ a ∈ log, R a (f a)) :
    Grows R log (log.map f) := by
  induction log with
  | nil => exact .nil []
  | cons a log ih =>
    rw [List.forall_mem_cons] at revised
    exact .cons revised.1 (ih revised.2)

theorem Grows.append (reflexive : ∀ a, R a a) (log added : List α) :
    Grows R log (log ++ added) := by
  induction log with
  | nil => exact .nil added
  | cons a log ih => exact .cons (reflexive a) ih

theorem Grows.refl (reflexive : ∀ a, R a a) (log : List α) : Grows R log log := by
  simpa using Grows.append reflexive log []

theorem Grows.trans (transitive : ∀ a b c, R a b → R b c → R a c) {first second third : List α}
    (early : Grows R first second) (late : Grows R second third) : Grows R first third := by
  induction early generalizing third with
  | nil => exact .nil third
  | cons revised _ ih =>
    cases late with
    | cons again rest => exact .cons (transitive _ _ _ revised again) (ih rest)

/-- Every record is still there, revised. -/
theorem Grows.exists_mem {before after : List α} (grown : Grows R before after) {a : α}
    (member : a ∈ before) : ∃ b ∈ after, R a b := by
  induction grown with
  | nil => cases member
  | @cons first b _ _ revised _ ih =>
    rcases List.mem_cons.mp member with rfl | later
    · exact ⟨b, List.mem_cons_self, revised⟩
    · obtain ⟨c, kept, own⟩ := ih later
      exact ⟨c, List.mem_cons_of_mem _ kept, own⟩

/-! ### Records revised in place -/

/-- A selection stays as it is when no record of it is revised and none is revised into it. -/
theorem filter_map_eq {f : α → α} {chosen : α → Bool} {log : List α}
    (unrevised : ∀ a ∈ log, chosen a = true ∨ chosen (f a) = true → f a = a) :
    (log.map f).filter chosen = log.filter chosen := by
  induction log with
  | nil => rfl
  | cons a log ih =>
    rw [List.forall_mem_cons] at unrevised
    rw [List.map_cons, List.filter_cons, List.filter_cons, ih unrevised.2]
    by_cases selected : chosen a = true ∨ chosen (f a) = true
    · rw [unrevised.1 selected]
    · rw [not_or] at selected
      rw [if_neg selected.1, if_neg selected.2]

/-- The keys of a selection only get fewer when no record is revised into it. -/
theorem filter_map_sublist {f : α → α} {chosen : α → Bool} {key : α → β} {log : List α}
    (kept : ∀ a ∈ log, chosen (f a) = true → chosen a = true ∧ key (f a) = key a) :
    (((log.map f).filter chosen).map key).Sublist ((log.filter chosen).map key) := by
  induction log with
  | nil => exact List.Sublist.refl _
  | cons a log ih =>
    rw [List.forall_mem_cons] at kept
    rw [List.map_cons, List.filter_cons, List.filter_cons]
    by_cases revised : chosen (f a) = true
    · obtain ⟨selected, same⟩ := kept.1 revised
      rw [if_pos revised, if_pos selected, List.map_cons, List.map_cons, same]
      exact (ih kept.2).cons_cons _
    · rw [if_neg revised]
      split
      · exact (ih kept.2).cons _
      · exact ih kept.2

end GrowingLog
