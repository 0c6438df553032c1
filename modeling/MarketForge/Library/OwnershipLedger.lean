import Mathlib.Data.List.Nodup
import Mathlib.Data.List.Perm.Basic

/-!
# Ownership ledgers

Slots `0 .. marks.length - 1` carry the mark of their owner, and every owner keeps the list of
its slots. A ledger is consistent when both books say the same: an owner lists exactly the
slots carrying its mark, each once, and every mark other than `free` belongs to an owner.

The rules below are the bookkeeping entries that keep the books consistent: opening and closing
an empty account, taking free slots, giving slots back, and moving a whole holding to another
owner. From consistency follow the global facts: no slot is listed twice anywhere, listed slots
exist, and a slot is free exactly when nobody lists it.
-/
namespace OwnershipLedger

variable {μ : Type}

/-- Write the mark `m` on every slot of `ids`, one after the other. -/
def assign (marks : List μ) (ids : List Nat) (m : μ) : List μ :=
  ids.foldl (fun ms p => ms.set p m) marks

@[simp] theorem assign_nil (marks : List μ) (m : μ) : assign marks [] m = marks := rfl

@[simp] theorem length_assign (marks : List μ) (ids : List Nat) (m : μ) :
    (assign marks ids m).length = marks.length := by
  induction ids generalizing marks with
  | nil => rfl
  | cons p rest ih => simpa [assign] using ih (marks.set p m)

theorem getElem?_assign (marks : List μ) (ids : List Nat) (m : μ) (p : Nat) :
    (assign marks ids m)[p]? =
      if p ∈ ids ∧ p < marks.length then some m else marks[p]? := by
  induction ids generalizing marks with
  | nil => simp
  | cons q rest ih =>
    have next := ih (marks.set q m)
    simp only [assign, List.foldl_cons] at next ⊢
    rw [next]
    simp only [List.length_set, List.mem_cons, List.getElem?_set]
    by_cases same : p = q
    · subst same
      by_cases bound : p < marks.length <;> simp [bound]
    · simp [same, Ne.symm same]

/-- Slots outside `ids` keep their mark. -/
theorem getElem?_assign_of_not_mem (marks : List μ) (ids : List Nat) (m : μ) (p : Nat)
    (outside : p ∉ ids) : (assign marks ids m)[p]? = marks[p]? := by
  simp [getElem?_assign, outside]

theorem getElem?_assign_of_mem (marks : List μ) (ids : List Nat) (m : μ) (p : Nat)
    (inside : p ∈ ids) (bound : p < marks.length) : (assign marks ids m)[p]? = some m := by
  rw [getElem?_assign, if_pos ⟨inside, bound⟩]

/-- The marks and the owners' lists tell the same story. -/
structure Consistent (free : μ) (marks : List μ) (holdings : List (μ × List Nat)) : Prop where
  owners_nodup : (holdings.map Prod.fst).Nodup
  owner_ne_free : ∀ h ∈ holdings, h.1 ≠ free
  slots_nodup : ∀ h ∈ holdings, h.2.Nodup
  listed_iff : ∀ h ∈ holdings, ∀ p : Nat, p ∈ h.2 ↔ marks[p]? = some h.1
  accounted : ∀ (p : Nat) (m : μ), marks[p]? = some m → m ≠ free → ∃ h ∈ holdings, h.1 = m

namespace Consistent

variable {free : μ} {marks : List μ} {holdings rest : List (μ × List Nat)}

/-- The order in which owners are recorded does not matter. -/
theorem perm (books : Consistent free marks holdings) (same : holdings.Perm rest) :
    Consistent free marks rest where
  owners_nodup := (same.map Prod.fst).nodup_iff.mp books.owners_nodup
  owner_ne_free := fun h member => books.owner_ne_free h (same.mem_iff.mpr member)
  slots_nodup := fun h member => books.slots_nodup h (same.mem_iff.mpr member)
  listed_iff := fun h member => books.listed_iff h (same.mem_iff.mpr member)
  accounted := fun p m marked proper => by
    obtain ⟨h, member, owner⟩ := books.accounted p m marked proper
    exact ⟨h, same.mem_iff.mp member, owner⟩

theorem slot_lt (books : Consistent free marks holdings) {h : μ × List Nat}
    (member : h ∈ holdings) {p : Nat} (listed : p ∈ h.2) : p < marks.length := by
  have marked := (books.listed_iff h member p).mp listed
  exact (List.getElem?_eq_some_iff.mp marked).1

/-- Two holdings listing one slot belong to one owner. -/
theorem owner_unique (books : Consistent free marks holdings) {h h' : μ × List Nat}
    (member : h ∈ holdings) (member' : h' ∈ holdings) {p : Nat}
    (listed : p ∈ h.2) (listed' : p ∈ h'.2) : h.1 = h'.1 := by
  have left := (books.listed_iff h member p).mp listed
  have right := (books.listed_iff h' member' p).mp listed'
  exact Option.some.inj (left.symm.trans right)

/-- No slot is listed twice, by one owner or by two. -/
theorem slots_flatten_nodup (books : Consistent free marks holdings) :
    (holdings.flatMap Prod.snd).Nodup := by
  rw [List.nodup_flatMap]
  refine ⟨fun h member => books.slots_nodup h member, ?_⟩
  have separate := List.pairwise_map.mp books.owners_nodup
  refine separate.imp_of_mem ?_
  intro h h' member member' different p listed listed'
  exact different (books.owner_unique member member' listed listed')

/-- A slot is free exactly when no owner lists it. -/
theorem free_iff (books : Consistent free marks holdings) {p : Nat} (bound : p < marks.length) :
    marks[p]? = some free ↔ p ∉ holdings.flatMap Prod.snd := by
  simp only [List.mem_flatMap, not_exists, not_and]
  constructor
  · intro marked h member listed
    have owned := (books.listed_iff h member p).mp listed
    exact books.owner_ne_free h member (Option.some.inj (owned.symm.trans marked))
  · intro unlisted
    rw [List.getElem?_eq_getElem bound]
    by_contra taken
    have proper : marks[p] ≠ free := fun same => taken (congrArg some same)
    obtain ⟨h, member, owner⟩ :=
      books.accounted p marks[p] (List.getElem?_eq_getElem bound) proper
    apply unlisted h member
    rw [books.listed_iff h member p, owner, List.getElem?_eq_getElem bound]

/-- A mark is found on a slot exactly when its owner lists the slot. -/
theorem marked_iff (books : Consistent free marks holdings) {p : Nat} {m : μ} (proper : m ≠ free) :
    marks[p]? = some m ↔ ∃ h ∈ holdings, h.1 = m ∧ p ∈ h.2 := by
  constructor
  · intro marked
    obtain ⟨h, member, owner⟩ := books.accounted p m marked proper
    exact ⟨h, member, owner, (books.listed_iff h member p).mpr (owner ▸ marked)⟩
  · rintro ⟨h, member, rfl, listed⟩
    exact (books.listed_iff h member p).mp listed

/-- A new owner starts with nothing: no slot can carry its mark yet. -/
theorem openAccount (books : Consistent free marks holdings) {m : μ} (proper : m ≠ free)
    (fresh : m ∉ holdings.map Prod.fst) : Consistent free marks ((m, []) :: holdings) where
  owners_nodup := by
    rw [List.map_cons, List.nodup_cons]
    exact ⟨fresh, books.owners_nodup⟩
  owner_ne_free := by
    intro h member
    rcases List.mem_cons.mp member with rfl | member
    · exact proper
    · exact books.owner_ne_free h member
  slots_nodup := by
    intro h member
    rcases List.mem_cons.mp member with rfl | member
    · exact List.nodup_nil
    · exact books.slots_nodup h member
  listed_iff := by
    intro h member p
    rcases List.mem_cons.mp member with rfl | member
    · simp only [List.not_mem_nil, false_iff]
      intro marked
      obtain ⟨owner, present, same⟩ := books.accounted p m marked proper
      exact fresh (List.mem_map.mpr ⟨owner, present, same⟩)
    · exact books.listed_iff h member p
  accounted := by
    intro p m' marked proper'
    obtain ⟨h, member, owner⟩ := books.accounted p m' marked proper'
    exact ⟨h, .tail _ member, owner⟩

/-- An owner that holds nothing can leave. -/
theorem closeAccount {m : μ} (books : Consistent free marks ((m, []) :: holdings)) :
    Consistent free marks holdings where
  owners_nodup := (List.nodup_cons.mp books.owners_nodup).2
  owner_ne_free := fun h member => books.owner_ne_free h (.tail _ member)
  slots_nodup := fun h member => books.slots_nodup h (.tail _ member)
  listed_iff := fun h member => books.listed_iff h (.tail _ member)
  accounted := by
    intro p m' marked proper
    obtain ⟨h, member, owner⟩ := books.accounted p m' marked proper
    rcases List.mem_cons.mp member with rfl | member
    · have listed := (books.listed_iff (m, []) List.mem_cons_self p).mpr (owner ▸ marked)
      simp at listed
    · exact ⟨h, member, owner⟩

/-- An owner takes free slots. -/
theorem take {b : μ} {ys ids : List Nat} (books : Consistent free marks ((b, ys) :: holdings))
    (distinct : ids.Nodup) (unowned : ∀ p ∈ ids, marks[p]? = some free) :
    Consistent free (assign marks ids b) ((b, ys ++ ids) :: holdings) := by
  have bound : ∀ p ∈ ids, p < marks.length := fun p member =>
    (List.getElem?_eq_some_iff.mp (unowned p member)).1
  have proper : b ≠ free := books.owner_ne_free (b, ys) List.mem_cons_self
  -- the slots taken are free, so no holding lists them yet
  have untouched : ∀ h ∈ (b, ys) :: holdings, ∀ p ∈ ids, p ∉ h.2 := by
    intro h member p inside listed
    have owned := (books.listed_iff h member p).mp listed
    exact books.owner_ne_free h member (Option.some.inj (owned.symm.trans (unowned p inside)))
  refine ⟨?_, ?_, ?_, ?_, ?_⟩
  · simpa using books.owners_nodup
  · intro h member
    rcases List.mem_cons.mp member with rfl | member
    · exact proper
    · exact books.owner_ne_free h (.tail _ member)
  · intro h member
    rcases List.mem_cons.mp member with rfl | member
    · rw [List.nodup_append]
      refine ⟨books.slots_nodup (b, ys) List.mem_cons_self, distinct, ?_⟩
      rintro p old q new rfl
      exact untouched (b, ys) List.mem_cons_self p new old
    · exact books.slots_nodup h (.tail _ member)
  · -- listed if and only if marked: the slots taken carry `b`, the others their old mark
    intro h member p
    by_cases inside : p ∈ ids
    · rw [getElem?_assign_of_mem _ _ _ _ inside (bound p inside)]
      rcases List.mem_cons.mp member with rfl | member
      · simp [inside]
      · have different : b ≠ h.1 := by
          intro same
          have nodup := books.owners_nodup
          rw [List.map_cons, List.nodup_cons] at nodup
          exact nodup.1 (List.mem_map.mpr ⟨h, member, same.symm⟩)
        simp [untouched h (.tail _ member) p inside, different]
    · rw [getElem?_assign_of_not_mem _ _ _ _ inside]
      rcases List.mem_cons.mp member with rfl | member
      · simpa [inside] using books.listed_iff (b, ys) List.mem_cons_self p
      · exact books.listed_iff h (.tail _ member) p
  · -- every mark that is not `free` has its holding
    intro p m marked proper'
    by_cases inside : p ∈ ids
    · rw [getElem?_assign_of_mem _ _ _ _ inside (bound p inside)] at marked
      exact ⟨(b, ys ++ ids), List.mem_cons_self, Option.some.inj marked⟩
    · rw [getElem?_assign_of_not_mem _ _ _ _ inside] at marked
      obtain ⟨h, member, owner⟩ := books.accounted p m marked proper'
      rcases List.mem_cons.mp member with rfl | member
      · exact ⟨(b, ys ++ ids), List.mem_cons_self, owner⟩
      · exact ⟨h, .tail _ member, owner⟩

/-- An owner gives all its slots back. -/
theorem give {a : μ} {xs : List Nat} (books : Consistent free marks ((a, xs) :: holdings)) :
    Consistent free (assign marks xs free) ((a, []) :: holdings) := by
  have bound : ∀ p ∈ xs, p < marks.length := fun p listed =>
    books.slot_lt (h := (a, xs)) List.mem_cons_self listed
  have elsewhere : ∀ h ∈ holdings, ∀ p ∈ xs, p ∉ h.2 := by
    intro h member p inside listed
    have same := books.owner_unique (h := (a, xs)) List.mem_cons_self (.tail _ member) inside listed
    have nodup := books.owners_nodup
    rw [List.map_cons, List.nodup_cons] at nodup
    exact nodup.1 (List.mem_map.mpr ⟨h, member, same.symm⟩)
  have owner_ne : ∀ h ∈ (a, ([] : List Nat)) :: holdings, h.1 ≠ free := by
    intro h member
    rcases List.mem_cons.mp member with rfl | member
    · exact books.owner_ne_free (a, xs) List.mem_cons_self
    · exact books.owner_ne_free h (.tail _ member)
  refine ⟨by simpa using books.owners_nodup, owner_ne, ?_, ?_, ?_⟩
  · intro h member
    rcases List.mem_cons.mp member with rfl | member
    · exact List.nodup_nil
    · exact books.slots_nodup h (.tail _ member)
  · intro h member p
    have proper := owner_ne h member
    by_cases inside : p ∈ xs
    · rw [getElem?_assign_of_mem _ _ _ _ inside (bound p inside)]
      rcases List.mem_cons.mp member with rfl | member
      · simp [proper.symm]
      · simp [elsewhere h member p inside, proper.symm]
    · rw [getElem?_assign_of_not_mem _ _ _ _ inside]
      rcases List.mem_cons.mp member with rfl | member
      · simpa [inside] using books.listed_iff (a, xs) List.mem_cons_self p
      · exact books.listed_iff h (.tail _ member) p
  · intro p m marked proper
    by_cases inside : p ∈ xs
    · rw [getElem?_assign_of_mem _ _ _ _ inside (bound p inside)] at marked
      exact absurd (Option.some.inj marked).symm proper
    · rw [getElem?_assign_of_not_mem _ _ _ _ inside] at marked
      obtain ⟨h, member, owner⟩ := books.accounted p m marked proper
      rcases List.mem_cons.mp member with rfl | member
      · exact ⟨(a, []), List.mem_cons_self, owner⟩
      · exact ⟨h, .tail _ member, owner⟩

/-- Writing a mark over slots that were just freed is writing it directly. -/
theorem assign_assign (marks : List μ) (ids : List Nat) (m m' : μ) :
    assign (assign marks ids m) ids m' = assign marks ids m' := by
  apply List.ext_getElem?
  intro p
  simp only [getElem?_assign, length_assign]
  split <;> rfl

/-- A whole holding moves to another owner: giving it back and taking it again. -/
theorem move {a b : μ} {xs ys : List Nat}
    (books : Consistent free marks ((a, xs) :: (b, ys) :: holdings)) :
    Consistent free (assign marks xs b) ((a, []) :: (b, ys ++ xs) :: holdings) := by
  have returned := (books.give).perm (.swap (b, ys) (a, []) holdings)
  have distinct := books.slots_nodup (a, xs) List.mem_cons_self
  have available : ∀ p ∈ xs, (assign marks xs free)[p]? = some free := fun p inside =>
    getElem?_assign_of_mem _ _ _ _ inside (books.slot_lt (h := (a, xs)) List.mem_cons_self inside)
  have taken := returned.take distinct available
  rw [assign_assign] at taken
  exact taken.perm (.swap (a, []) (b, ys ++ xs) holdings)

/-- With nothing held, all slots free is consistent. -/
theorem initial (free : μ) (n : Nat) : Consistent free (List.replicate n free) [] where
  owners_nodup := List.nodup_nil
  owner_ne_free := by simp
  slots_nodup := by simp
  listed_iff := by simp
  accounted := by
    intro p m marked proper
    have same : m = free := by
      have := List.mem_of_getElem? marked
      exact List.eq_of_mem_replicate this
    exact absurd same proper

end Consistent

end OwnershipLedger
