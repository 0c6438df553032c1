import Mathlib.Data.List.Pairwise
import Mathlib.Order.Lattice

/-!
# Sorted maps and binary search

A sorted map is a list of pairs with strictly increasing keys: `emplace` adds a pair unless the
key is present, and `find` reads it back (`find_emplace`). `lowerBound` is the first position of
a sorted sequence whose key is not below the one wanted; where the key found is the one wanted,
it is the entry that a linear search finds (`lowerBound_find`).
-/
namespace SortedMap

variable {κ ν : Type} [LinearOrder κ]

def Sorted (m : List (κ × ν)) : Prop := m.Pairwise fun a b => a.1 < b.1

def find (m : List (κ × ν)) (k : κ) : Option ν := (m.find? fun e => decide (e.1 = k)).map Prod.snd

/-- Add a pair in order, unless its key is present. -/
def emplace : List (κ × ν) → κ → ν → List (κ × ν)
  | [], k, v => [(k, v)]
  | e :: rest, k, v =>
    if k < e.1 then (k, v) :: e :: rest
    else if k = e.1 then e :: rest
    else e :: emplace rest k v

@[simp] theorem find_nil (k : κ) : find ([] : List (κ × ν)) k = none := rfl

theorem find_cons (e : κ × ν) (m : List (κ × ν)) (k : κ) :
    find (e :: m) k = if e.1 = k then some e.2 else find m k := by
  by_cases same : e.1 = k
  · simp [find, same]
  · simp [find, same]

theorem exists_find_iff (m : List (κ × ν)) (k : κ) :
    (∃ v, find m k = some v) ↔ k ∈ m.map Prod.fst := by
  simp only [find, Option.map_eq_some_iff, List.mem_map]
  constructor
  · rintro ⟨_, e, found, _⟩
    exact ⟨e, List.mem_of_find?_eq_some found, by simpa using List.find?_some found⟩
  · rintro ⟨e, member, same⟩
    have present : (m.find? fun e => decide (e.1 = k)).isSome := by
      rw [List.find?_isSome]
      exact ⟨e, member, by simpa using same⟩
    obtain ⟨other, found⟩ := Option.isSome_iff_exists.mp present
    exact ⟨_, other, found, rfl⟩

theorem mem_emplace {m : List (κ × ν)} {k : κ} {v : ν} {e : κ × ν} (member : e ∈ emplace m k v) :
    e = (k, v) ∨ e ∈ m := by
  induction m with
  | nil => simpa [emplace] using member
  | cons first rest ih =>
    rw [emplace] at member
    split at member
    · simpa using member
    · split at member
      · exact .inr member
      · rcases List.mem_cons.mp member with rfl | tail
        · exact .inr List.mem_cons_self
        · exact (ih tail).imp_right (.tail _)

theorem emplace_sorted {m : List (κ × ν)} (sorted : Sorted m) (k : κ) (v : ν) :
    Sorted (emplace m k v) := by
  induction m with
  | nil => exact List.pairwise_singleton _ _
  | cons first rest ih =>
    obtain ⟨above, tail⟩ := List.pairwise_cons.mp sorted
    rw [emplace]
    split
    next below =>
      refine List.pairwise_cons.mpr ⟨fun e member => ?_, sorted⟩
      rcases List.mem_cons.mp member with rfl | later
      · exact below
      · exact below.trans (above e later)
    next reached =>
      split
      next => exact sorted
      next different =>
        refine List.pairwise_cons.mpr ⟨fun e member => ?_, ih tail⟩
        rcases mem_emplace member with rfl | later
        · exact lt_of_le_of_ne (not_lt.mp reached) (Ne.symm different)
        · exact above e later

/-- What is found after an insertion: the new value at a new key, the old values elsewhere. -/
theorem find_emplace {m : List (κ × ν)} (sorted : Sorted m) (k k' : κ) (v : ν) :
    find (emplace m k v) k' = if k' = k then some ((find m k).getD v) else find m k' := by
  induction m with
  | nil =>
    rw [emplace, find_cons]
    by_cases same : k' = k
    · simp [same]
    · simp [same, Ne.symm same]
  | cons first rest ih =>
    obtain ⟨above, tail⟩ := List.pairwise_cons.mp sorted
    rw [emplace]
    split
    next below =>
      -- All keys of the map are larger than the new one.
      have absent : find (first :: rest) k = none := by
        rw [find, Option.map_eq_none_iff, List.find?_eq_none]
        intro e member
        have larger : k < e.1 := by
          rcases List.mem_cons.mp member with rfl | later
          · exact below
          · exact below.trans (above e later)
        simpa using larger.ne'
      rw [absent, find_cons]
      by_cases same : k' = k
      · simp [same]
      · simp [same, Ne.symm same]
    next reached =>
      split
      next same =>
        subst same
        by_cases wanted : k' = first.1
        · simp [wanted, find_cons]
        · simp [wanted]
      next different =>
        rw [find_cons, ih tail, find_cons, find_cons]
        by_cases wanted : k' = k
        · subst wanted
          simp [Ne.symm different]
        · simp [wanted]

theorem length_emplace {m : List (κ × ν)} {k : κ} (absent : find m k = none) (v : ν) :
    (emplace m k v).length = m.length + 1 := by
  induction m with
  | nil => rfl
  | cons first rest ih =>
    rw [find_cons] at absent
    split at absent
    next => cases absent
    next different =>
      rw [emplace]
      split
      next => rfl
      next =>
        rw [if_neg (Ne.symm different)]
        simp [ih absent]

/-! ### Binary search -/

variable {α : Type} (key : α → κ)

/-- The position `std::lower_bound` finds in a sequence sorted by key. -/
def lowerBound (l : List α) (k : κ) : Nat := l.findIdx fun a => !decide (key a < k)

/-- Where the key at the lower bound is the key wanted, it is the first entry with that key, and
where it is not there is none. -/
theorem lowerBound_find {l : List α} (sorted : l.Pairwise fun a b => key a ≤ key b) (k : κ) :
    (l[lowerBound key l k]?).filter (fun a => decide (key a = k)) =
      l.find? fun a => decide (key a = k) := by
  induction l with
  | nil => rfl
  | cons a rest ih =>
    obtain ⟨above, tail⟩ := List.pairwise_cons.mp sorted
    rw [lowerBound, List.findIdx_cons]
    by_cases below : key a < k
    · have different : key a ≠ k := below.ne
      simpa [below, different, lowerBound] using ih tail
    · by_cases same : key a = k
      · simp [same]
      · -- All later keys are at least this one, which is above the key wanted.
        have later : rest.find? (fun b => decide (key b = k)) = none := by
          rw [List.find?_eq_none]
          intro b member
          have larger : k < key b :=
            (lt_of_le_of_ne (not_lt.mp below) (Ne.symm same)).trans_le (above b member)
          simpa using larger.ne'
        simp [below, same, later]

end SortedMap
