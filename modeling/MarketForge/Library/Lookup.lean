import Mathlib.Algebra.BigOperators.Group.List.Basic
import Mathlib.Algebra.GroupWithZero.Nat
import Mathlib.Logic.Function.Basic
import MarketForge.Library.Keyed

/-!
# Tables as partial functions

What a table says about each key, with the order of the records forgotten. Appending under a new
key, erasing and rewriting are updates of that function at one key; a sum over the records moves by
the record that was touched.
-/
namespace Keyed

variable {ρ κ γ : Type} [DecidableEq κ] (key : ρ → κ) (view : ρ → γ)

/-- The record found under a key, seen through `view`. -/
def lookup (table : List ρ) : κ → Option γ := fun k => (find key table k).map view

variable {key}

theorem lookup_append {table : List ρ} {r : ρ} (absent : find key table (key r) = none) :
    lookup key view (table ++ [r]) =
      Function.update (lookup key view table) (key r) (some (view r)) := by
  funext k
  by_cases own : k = key r
  · subst own
    simp [lookup, find_append, absent]
  · rw [Function.update_of_ne own]
    simp [lookup, find_append, Ne.symm own]

theorem lookup_erase {table : List ρ} (unique : (table.map key).Nodup) (k : κ) :
    lookup key view (erase key table k) = Function.update (lookup key view table) k none := by
  funext k'
  by_cases own : k' = k
  · subst own
    have gone : find key (erase key table k') k' = none :=
      find_eq_none_iff.mpr fun r member => ((mem_erase_iff unique).mp member).2
    rw [Function.update_self, lookup, gone, Option.map_none]
  · rw [Function.update_of_ne own, lookup, lookup, find_erase_other own]

theorem lookup_update {table : List ρ} {k : κ} {r : ρ} (found : find key table k = some r)
    (f : ρ → ρ) (keeps : ∀ r, key (f r) = key r) :
    lookup key view (update key table k f) =
      Function.update (lookup key view table) k (some (view (f r))) := by
  funext k'
  rw [lookup, find_update key table k k' f keeps]
  by_cases own : k' = k
  · subst own
    simp [found]
  · rw [Function.update_of_ne own, lookup]
    simp [own]

/-! ### Tables as lists of rows -/

/-- Under unique keys rewriting a record is a map over the table. -/
theorem update_eq_map {table : List ρ} (unique : (table.map key).Nodup) (k : κ) (f : ρ → ρ) :
    update key table k f = table.map fun r => if key r = k then f r else r := by
  induction table with
  | nil => rfl
  | cons r rest ih =>
    obtain ⟨absent, distinct⟩ := List.nodup_cons.mp unique
    rw [update, List.map_cons]
    by_cases hit : key r = k
    · have others : (rest.map fun r => if key r = k then f r else r) = rest.map id := by
        refine List.map_congr_left fun other member => if_neg fun same => absent ?_
        rw [hit, ← same]
        exact List.mem_map_of_mem member
      rw [if_pos hit, if_pos hit, others, List.map_id]
    · rw [if_neg hit, if_neg hit, ih distinct]

theorem find_map (g : ρ → ρ) (keeps : ∀ r, key (g r) = key r) (table : List ρ) (k : κ) :
    find key (table.map g) k = (find key table k).map g := by
  rw [find, List.find?_map, find]
  refine congrArg (Option.map g) (congrArg (List.find? · table) (funext fun r => ?_))
  rw [Function.comp_apply, keeps]

/-! ### Sums over the records -/

theorem sum_erase {table : List ρ} {k : κ} {r : ρ} (found : find key table k = some r)
    (size : ρ → Nat) : (table.map size).sum = size r + ((erase key table k).map size).sum := by
  rw [((perm_of_find found).map size).sum_eq, List.map_cons, List.sum_cons]

theorem sum_update {table : List ρ} {k : κ} {r : ρ} (found : find key table k = some r)
    (f : ρ → ρ) (size : ρ → Nat) :
    ((update key table k f).map size).sum = size (f r) + ((erase key table k).map size).sum := by
  rw [((update_perm found f).map size).sum_eq, List.map_cons, List.sum_cons]

end Keyed
