import Mathlib.Algebra.BigOperators.Group.List.Basic
import Mathlib.Algebra.GroupWithZero.Nat
import Mathlib.Order.Lattice
import Mathlib.Order.Nat

/-!
# Intervals laid end to end

Half-open intervals over any linear order. A list of them tiles a range when each starts where
the one before it ends; every point of the range then lies in exactly one interval.
-/
namespace MarketForge.Library

section

variable {ι α : Type} [LinearOrder α] (lower upper : ι → α)

/-- The point lies in the interval of the item. -/
def Covers (item : ι) (point : α) : Prop := lower item ≤ point ∧ point < upper item

/-- The intervals follow each other without gap from the first bound to the second. -/
inductive Tiles : α → List ι → α → Prop where
  | done (bound : α) : Tiles bound [] bound
  | next (item : ι) (items : List ι) (stop : α) (ordered : lower item ≤ upper item)
      (tiles : Tiles (upper item) items stop) : Tiles (lower item) (item :: items) stop

variable {lower upper} {start stop : α} {items : List ι}

theorem Tiles.nil_iff : Tiles lower upper start [] stop ↔ start = stop := by
  constructor
  · intro tiles
    cases tiles with
    | done => rfl
  · rintro rfl
    exact Tiles.done _

theorem Tiles.cons_iff (item : ι) : Tiles lower upper start (item :: items) stop ↔
    lower item = start ∧ lower item ≤ upper item ∧ Tiles lower upper (upper item) items stop := by
  constructor
  · intro tiles
    cases tiles with
    | next _ _ _ ordered tiles => exact ⟨rfl, ordered, tiles⟩
  · rintro ⟨rfl, ordered, tiles⟩
    exact Tiles.next item items stop ordered tiles

theorem Tiles.start_le (tiles : Tiles lower upper start items stop) : start ≤ stop := by
  induction tiles with
  | done => exact le_refl _
  | next _ _ _ ordered _ ih => exact le_trans ordered ih

/-- Every interval lies in the range. -/
theorem Tiles.inside (tiles : Tiles lower upper start items stop) (item : ι)
    (member : item ∈ items) : start ≤ lower item ∧ upper item ≤ stop := by
  induction tiles with
  | done => simp at member
  | next first others stop ordered tiles ih =>
    rcases List.mem_cons.mp member with rfl | listed
    · exact ⟨le_refl _, tiles.start_le⟩
    · obtain ⟨above, below⟩ := ih listed
      exact ⟨le_trans ordered above, below⟩

/-- Every point of the range lies in some interval. -/
theorem Tiles.covered (tiles : Tiles lower upper start items stop) (point : α)
    (above : start ≤ point) (below : point < stop) :
    ∃ item ∈ items, Covers lower upper item point := by
  induction tiles with
  | done => exact absurd below (not_lt_of_ge above)
  | next first others stop ordered tiles ih =>
    rcases lt_or_ge point (upper first) with within | past
    · exact ⟨first, by simp, above, within⟩
    · obtain ⟨item, listed, covers⟩ := ih past below
      exact ⟨item, by simp [listed], covers⟩

/-- No point lies in the intervals of two different items. -/
theorem Tiles.unique (tiles : Tiles lower upper start items stop) (first second : ι) (point : α)
    (firstListed : first ∈ items) (secondListed : second ∈ items)
    (firstCovers : Covers lower upper first point)
    (secondCovers : Covers lower upper second point) : first = second := by
  induction tiles with
  | done => simp at firstListed
  | next item others stop ordered tiles ih =>
    -- a later interval starts at or behind the end of this one
    have apart : ∀ other ∈ others, ¬(Covers lower upper item point ∧
        Covers lower upper other point) := by
      rintro other listed ⟨here, there⟩
      have behind := (tiles.inside other listed).1
      exact absurd here.2 (not_lt_of_ge (le_trans behind there.1))
    rcases List.mem_cons.mp firstListed with rfl | firstLater
    · rcases List.mem_cons.mp secondListed with rfl | secondLater
      · rfl
      · exact absurd ⟨firstCovers, secondCovers⟩ (apart second secondLater)
    · rcases List.mem_cons.mp secondListed with rfl | secondLater
      · exact absurd ⟨secondCovers, firstCovers⟩ (apart first firstLater)
      · exact ih firstLater secondLater

/-- One more interval at the end of the range. -/
theorem Tiles.snoc (tiles : Tiles lower upper start items stop) (item : ι)
    (begins : lower item = stop) (ordered : lower item ≤ upper item) :
    Tiles lower upper start (items ++ [item]) (upper item) := by
  induction tiles with
  | done => exact begins ▸ Tiles.next item [] _ ordered (Tiles.done _)
  | next first others stop before _ ih => exact Tiles.next first _ _ before (ih begins)

/-- No interval starts before an earlier one has ended. -/
theorem Tiles.pairwise (tiles : Tiles lower upper start items stop) :
    items.Pairwise fun left right => upper left ≤ lower right := by
  induction tiles with
  | done => exact List.Pairwise.nil
  | next item others stop _ tiles ih =>
    exact List.Pairwise.cons (fun other listed => (tiles.inside other listed).1) ih

end

/-- The lengths of the intervals add up to the length of the range. -/
theorem Tiles.total {ι : Type} {lower upper : ι → Nat} {start stop : Nat} {items : List ι}
    (tiles : Tiles lower upper start items stop) :
    start + (items.map fun item => upper item - lower item).sum = stop := by
  induction tiles with
  | done => simp
  | next item others stop ordered _ ih =>
    rw [List.map_cons, List.sum_cons]
    omega

end MarketForge.Library
