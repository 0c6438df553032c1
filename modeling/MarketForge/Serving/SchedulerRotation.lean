import MarketForge.Serving.SchedulerEffects
import Mathlib.Data.List.Rotate

/-!
# The rotation of the scheduler

A batch starts the next scan one past the entry it selected last. The waiting entries that it left
out come up first then, in their order, and those of its own that wait again come after them.
-/
namespace MarketForge.Serving

/-- A scan that starts further on goes round the same circle. -/
theorem circularOrder_moved {n : Nat} (start moved : Nat) :
    circularOrder n ((start + moved) % n) = (circularOrder n start).rotate moved := by
  apply List.ext_getElem
  · simp [circularOrder]
  · intro i below _
    rw [List.getElem_rotate]
    simp only [circularOrder, List.getElem_map, List.getElem_range, List.length_map,
      List.length_range, Nat.mod_add_mod, Nat.add_mod_mod]
    rw [Nat.add_assoc, Nat.add_comm moved]

/-- Where the scan from one past `last` begins. -/
private theorem circularOrder_past {n start last : Nat} {seen unseen : List Nat}
    (scan : circularOrder n start = seen ++ last :: unseen) :
    circularOrder n ((last + 1) % n) = unseen ++ (seen ++ [last]) := by
  have lengths := congrArg List.length scan
  rw [List.length_append, List.length_cons, circularOrder, List.length_map,
    List.length_range] at lengths
  have place : last = (start + seen.length) % n := by
    have at_last : (circularOrder n start)[seen.length]? = some last := by
      rw [scan, List.getElem?_append_right (Nat.le_refl _), Nat.sub_self]
      rfl
    rw [circularOrder, List.getElem?_map, List.getElem?_range (by omega)] at at_last
    exact (Option.some.inj at_last).symm
  have split : seen ++ last :: unseen = (seen ++ [last]) ++ unseen := by simp
  have length : seen.length + 1 = (seen ++ [last]).length := by simp
  rw [place, Nat.mod_add_mod, Nat.add_assoc, circularOrder_moved, scan, split, ← place, length,
    List.rotate_append_length_eq]

/-- The list before the last element that a filter keeps. -/
private theorem filter_split {α : Type} {keeps : α → Bool} {all front back : List α} {last : α}
    (kept : all.filter keeps = front ++ [last] ++ back) :
    ∃ seen unseen, all = seen ++ last :: unseen ∧
      (seen ++ [last]).filter keeps = front ++ [last] ∧ unseen.filter keeps = back := by
  obtain ⟨first, unseen, rfl, firsts, rest⟩ := List.filter_eq_append_iff.mp kept
  obtain ⟨seen, tail, rfl, fronts, ends⟩ := List.filter_eq_append_iff.mp firsts
  obtain ⟨skipped, after, rfl, none_before, chosen, none_after⟩ := List.filter_eq_cons_iff.mp ends
  have nothing : skipped.filter keeps = [] := List.filter_eq_nil_iff.mpr none_before
  refine ⟨seen ++ skipped, after ++ unseen, by simp, ?_, ?_⟩
  · rw [List.filter_append, List.filter_append, fronts, nothing, List.append_nil,
      List.filter_cons_of_pos chosen]
    rfl
  · rw [List.filter_append, none_after, rest]
    rfl

variable {before after : SequenceScheduler} {maximum last : Nat}

/-- After a batch whose sequences are complete, or wait again: what was left out comes first. -/
theorem waiting_rotated (length : after.entries.length = before.entries.length)
    (final : (before.waiting.take maximum).getLast? = some last)
    (moved : after.nextScanIndex = (last + 1) % before.entries.length)
    (others : ∀ index ∉ before.waiting.take maximum,
      after.entries[index]?.any isRunnable = before.entries[index]?.any isRunnable) :
    after.waiting = before.waiting.drop maximum ++
      (before.waiting.take maximum).filter fun index => after.entries[index]?.any isRunnable := by
  obtain ⟨front, chosen⟩ := List.getLast?_eq_some_iff.mp final
  have split := List.take_append_drop maximum before.waiting
  rw [chosen] at split
  obtain ⟨seen, unseen, scan, firsts, rest⟩ := filter_split split.symm
  have once := circularOrder_nodup before.entries.length
    (before.nextScanIndex % before.entries.length)
  have order := circularOrder_past scan
  rw [scan] at once
  rw [SequenceScheduler.waiting, length, moved, Nat.mod_mod, order, List.filter_append, chosen,
    ← rest, ← firsts]
  congr 1
  · -- what the scan had not reached was not selected
    apply List.filter_congr
    intro index member
    apply others index
    intro selected
    rw [chosen, ← firsts] at selected
    have reached := (List.mem_filter.mp selected).1
    rw [List.append_cons] at once
    exact List.disjoint_of_nodup_append once reached member
  · -- what the scan had reached and skipped did not wait and does not wait now
    rw [List.filter_filter]
    apply List.filter_congr
    intro index member
    by_cases selected : index ∈ before.waiting.take maximum
    · obtain ⟨entry, at_index, runs⟩ := mem_waiting.mp (List.mem_of_mem_take selected)
      simp [at_index, runs]
    · rw [others index selected, Bool.and_self]

end MarketForge.Serving
