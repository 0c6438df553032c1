import Mathlib.Data.List.Nodup
import Mathlib.Data.List.Perm.Basic

/-!
# Tables of keyed records

A table is a list of records searched by key from the front. `find` returns the first record
with a key, `update` rewrites it in place and `erase` removes it. All three act on the same
record, so a table splits, up to order, into that record and what `erase` leaves
(`perm_of_find`, `update_perm`): sums, counts and membership follow from the permutation.
-/
namespace Keyed

variable {ρ κ : Type} [DecidableEq κ] (key : ρ → κ)

def find (table : List ρ) (k : κ) : Option ρ :=
  table.find? fun r => decide (key r = k)

/-- Rewrite the first record with key `k`. -/
def update : List ρ → κ → (ρ → ρ) → List ρ
  | [], _, _ => []
  | r :: rest, k, f => if key r = k then f r :: rest else r :: update rest k f

/-- Remove the first record with key `k`. -/
def erase (table : List ρ) (k : κ) : List ρ :=
  table.eraseP fun r => decide (key r = k)

variable {key}

theorem find_mem {table : List ρ} {k : κ} {r : ρ} (found : find key table k = some r) :
    r ∈ table :=
  List.mem_of_find?_eq_some found

theorem find_key {table : List ρ} {k : κ} {r : ρ} (found : find key table k = some r) :
    key r = k := by
  simpa using List.find?_some found

theorem find_eq_none_iff {table : List ρ} {k : κ} :
    find key table k = none ↔ ∀ r ∈ table, key r ≠ k := by
  simp [find, List.find?_eq_none]

theorem not_mem_keys_of_find {table : List ρ} {k : κ} (absent : find key table k = none) :
    k ∉ table.map key := by
  rw [List.mem_map]
  rintro ⟨r, member, same⟩
  exact find_eq_none_iff.mp absent r member same

omit [DecidableEq κ] in
/-- Under unique keys a record is determined by its key. -/
theorem eq_of_key {table : List ρ} (unique : (table.map key).Nodup) {r r' : ρ}
    (member : r ∈ table) (member' : r' ∈ table) (same : key r = key r') : r = r' :=
  List.inj_on_of_nodup_map unique member member' same

theorem find_of_mem {table : List ρ} (unique : (table.map key).Nodup) {k : κ} {r : ρ}
    (member : r ∈ table) (same : key r = k) : find key table k = some r := by
  cases found : find key table k with
  | none => exact absurd same (find_eq_none_iff.mp found r member)
  | some r' =>
    rw [eq_of_key unique member (find_mem found) (same.trans (find_key found).symm)]

/-- A table is, up to order, the record found and the rest. -/
theorem perm_of_find {table : List ρ} {k : κ} {r : ρ} (found : find key table k = some r) :
    table.Perm (r :: erase key table k) := by
  induction table with
  | nil => simp [find] at found
  | cons r' rest ih =>
    by_cases same : key r' = k
    · have : r' = r := by simpa [find, same] using found
      subst this
      simp [erase, same]
    · have tail : find key rest k = some r := by simpa [find, same] using found
      have step := (ih tail).cons r'
      rw [show erase key (r' :: rest) k = r' :: erase key rest k by simp [erase, same]]
      exact step.trans (.swap r r' _)

/-- Rewriting the record found leaves the rest of the table alone. -/
theorem update_perm {table : List ρ} {k : κ} {r : ρ} (found : find key table k = some r)
    (f : ρ → ρ) : (update key table k f).Perm (f r :: erase key table k) := by
  induction table with
  | nil => simp [find] at found
  | cons r' rest ih =>
    by_cases same : key r' = k
    · have : r' = r := by simpa [find, same] using found
      subst this
      simp [update, erase, same]
    · have tail : find key rest k = some r := by simpa [find, same] using found
      have step := (ih tail).cons r'
      rw [show erase key (r' :: rest) k = r' :: erase key rest k by simp [erase, same]]
      simp only [update, same, if_false]
      exact step.trans (.swap (f r) r' _)

/-- Whatever the rewriting keeps is kept in every row, in particular the keys. -/
theorem update_map {γ : Type} (g : ρ → γ) (table : List ρ) (k : κ) (f : ρ → ρ)
    (keeps : ∀ r, g (f r) = g r) : (update key table k f).map g = table.map g := by
  induction table with
  | nil => rfl
  | cons r rest ih =>
    simp only [update]
    split <;> simp [keeps, ih]

theorem update_keys (table : List ρ) (k : κ) (f : ρ → ρ) (keeps : ∀ r, key (f r) = key r) :
    (update key table k f).map key = table.map key :=
  update_map key table k f keeps

theorem update_length (table : List ρ) (k : κ) (f : ρ → ρ) :
    (update key table k f).length = table.length := by
  have same : (update key table k f).map (fun _ => ()) = table.map fun _ => () :=
    update_map _ table k f fun _ => rfl
  have lengths := congrArg List.length same
  rwa [List.length_map, List.length_map] at lengths

theorem update_unique {table : List ρ} {k : κ} {f : ρ → ρ} (unique : (table.map key).Nodup)
    (keeps : ∀ r, key (f r) = key r) : ((update key table k f).map key).Nodup := by
  rwa [update_keys table k f keeps]

theorem not_mem_update_keys {table : List ρ} {k k' : κ} {f : ρ → ρ} (absent : k' ∉ table.map key)
    (keeps : ∀ r, key (f r) = key r) : k' ∉ (update key table k f).map key := by
  rwa [update_keys table k f keeps]

theorem update_of_absent {table : List ρ} {k : κ} (absent : find key table k = none)
    (f : ρ → ρ) : update key table k f = table := by
  induction table with
  | nil => rfl
  | cons r rest ih =>
    have first : key r ≠ k := find_eq_none_iff.mp absent r List.mem_cons_self
    have tail : find key rest k = none :=
      find_eq_none_iff.mpr fun r' member => find_eq_none_iff.mp absent r' (.tail _ member)
    simp [update, first, ih tail]

/-- Only the record found is rewritten, so what the rewriting does to others is irrelevant. -/
theorem update_congr {table : List ρ} {k : κ} {r : ρ} (found : find key table k = some r)
    {f g : ρ → ρ} (same : f r = g r) : update key table k f = update key table k g := by
  induction table with
  | nil => rfl
  | cons r' rest ih =>
    by_cases hit : key r' = k
    · have first : r' = r := by simpa [find, hit] using found
      subst first
      simp [update, hit, same]
    · have tail : find key rest k = some r := by simpa [find, hit] using found
      simp [update, hit, ih tail]

theorem update_of_fixed {table : List ρ} {k : κ} {r : ρ} (found : find key table k = some r)
    {f : ρ → ρ} (fixed : f r = r) : update key table k f = table := by
  rw [update_congr (g := id) found fixed]
  induction table with
  | nil => rfl
  | cons r' rest ih =>
    by_cases hit : key r' = k
    · simp [update, hit]
    · have tail : find key rest k = some r := by simpa [find, hit] using found
      simp [update, hit, ih tail]

theorem find_update_self {table : List ρ} {k : κ} {r r' : ρ} (found : find key table k = some r)
    (keeps : key r' = k) : find key (update key table k fun _ => r') k = some r' := by
  induction table with
  | nil => simp [find] at found
  | cons first rest ih =>
    by_cases hit : key first = k
    · simp [update, find, hit, keeps]
    · have tail : find key rest k = some r := by simpa [find, hit] using found
      simpa [update, find, hit] using ih tail

/-- Replacing a record by one with its key keeps the keys. -/
theorem replace_keys (table : List ρ) {k : κ} {r' : ρ} (keeps : key r' = k) :
    (update key table k fun _ => r').map key = table.map key := by
  induction table with
  | nil => rfl
  | cons first rest ih =>
    by_cases hit : key first = k
    · simp [update, hit, keeps]
    · simp [update, hit, ih]

theorem find_update_other {table : List ρ} {k k' : κ} {r' : ρ} (keeps : key r' = k)
    (other : k' ≠ k) : find key (update key table k fun _ => r') k' = find key table k' := by
  induction table with
  | nil => rfl
  | cons first rest ih =>
    by_cases hit : key first = k
    · simp [update, find, hit, keeps, other.symm]
    · by_cases wanted : key first = k'
      · simp only [update, if_neg hit, find]
        rw [List.find?_cons_of_pos (by simpa using wanted),
          List.find?_cons_of_pos (by simpa using wanted)]
      · simpa [update, find, hit, wanted] using ih

variable (key) in
/-- What is found after a rewriting that keeps the keys. -/
theorem find_update (table : List ρ) (k k' : κ) (f : ρ → ρ) (keeps : ∀ r, key (f r) = key r) :
    find key (update key table k f) k' =
      (find key table k').map fun r => if k' = k then f r else r := by
  induction table with
  | nil => rfl
  | cons first rest ih =>
    by_cases hit : key first = k
    · by_cases wanted : key first = k'
      · have same : k' = k := wanted.symm.trans hit
        simp [update, find, hit, keeps, same]
      · have other : k' ≠ k := fun same => wanted (hit.trans same.symm)
        simp [update, find, hit, keeps, other, other.symm]
    · by_cases wanted : key first = k'
      · have other : k' ≠ k := fun same => hit (wanted.trans same)
        simp [update, find, wanted, other]
      · simpa [update, find, hit, wanted] using ih

theorem find_append {table : List ρ} {k : κ} (r : ρ) :
    find key (table ++ [r]) k = (find key table k).or (if key r = k then some r else none) := by
  by_cases wanted : key r = k
  · simp [find, List.find?_append, wanted]
  · simp [find, List.find?_append, wanted]

theorem find_erase_other {table : List ρ} {k k' : κ} (other : k' ≠ k) :
    find key (erase key table k) k' = find key table k' := by
  induction table with
  | nil => rfl
  | cons first rest ih =>
    by_cases hit : key first = k
    · simp [erase, find, hit, other.symm]
    · have kept : erase key (first :: rest) k = first :: erase key rest k := by simp [erase, hit]
      rw [kept]
      by_cases wanted : key first = k'
      · simp [find, wanted]
      · simpa [find, wanted] using ih

/-- A record appended under a new key is the one that is removed by its key. -/
theorem erase_append_new {table : List ρ} {r : ρ} (absent : find key table (key r) = none) :
    erase key (table ++ [r]) (key r) = table := by
  have others : ∀ r' ∈ table, ¬ decide (key r' = key r) = true := fun r' member =>
    of_decide_eq_false (decide_eq_false (by simpa using find_eq_none_iff.mp absent r' member))
  rw [erase, List.eraseP_append_right _ others]
  simp

/-- A record appended under a new key is the one that is rewritten by its key. -/
theorem update_append_new {table : List ρ} {k : κ} (absent : find key table k = none) (r : ρ)
    (named : key r = k) (f : ρ → ρ) : update key (table ++ [r]) k f = table ++ [f r] := by
  induction table with
  | nil => simp [update, named]
  | cons first rest ih =>
    have different : key first ≠ k := find_eq_none_iff.mp absent first List.mem_cons_self
    have tail : find key rest k = none :=
      find_eq_none_iff.mpr fun r' member => find_eq_none_iff.mp absent r' (.tail _ member)
    simp [update, different, ih tail]

theorem erase_keys (table : List ρ) (k : κ) :
    (erase key table k).map key = (table.map key).erase k := by
  induction table with
  | nil => rfl
  | cons first rest ih =>
    by_cases hit : key first = k
    · simp [erase, hit]
    · have kept : erase key (first :: rest) k = first :: erase key rest k := by simp [erase, hit]
      rw [kept, List.map_cons, List.map_cons, List.erase_cons_tail (by simpa using hit), ih]

theorem erase_keys_sublist (table : List ρ) (k : κ) :
    ((erase key table k).map key).Sublist (table.map key) :=
  List.eraseP_sublist.map key

theorem not_mem_erase_keys {table : List ρ} {k k' : κ} (absent : k' ∉ table.map key) :
    k' ∉ (erase key table k).map key :=
  fun member => absent ((erase_keys_sublist table k).subset member)

theorem erase_unique {table : List ρ} (unique : (table.map key).Nodup) (k : κ) :
    ((erase key table k).map key).Nodup :=
  (erase_keys_sublist table k).nodup unique

theorem mem_of_mem_erase {table : List ρ} {k : κ} {r : ρ} (member : r ∈ erase key table k) :
    r ∈ table :=
  List.mem_of_mem_eraseP member

theorem mem_erase_iff {table : List ρ} (unique : (table.map key).Nodup) {k : κ} {r : ρ} :
    r ∈ erase key table k ↔ r ∈ table ∧ key r ≠ k := by
  constructor
  · intro member
    refine ⟨mem_of_mem_erase member, fun same => ?_⟩
    have found := find_of_mem unique (mem_of_mem_erase member) same
    have split := ((perm_of_find found).map key).nodup_iff.mp unique
    rw [List.map_cons, List.nodup_cons] at split
    exact split.1 (List.mem_map_of_mem member)
  · rintro ⟨member, different⟩
    cases found : find key table k with
    | none =>
      have kept : erase key table k = table :=
        List.eraseP_of_forall_not fun r member => by
          simpa using find_eq_none_iff.mp found r member
      rwa [kept]
    | some r' =>
      rcases List.mem_cons.mp ((perm_of_find found).mem_iff.mp member) with rfl | tail
      · exact absurd (find_key found) different
      · exact tail

/-- Under unique keys at most one record has a given key. -/
theorem filter_key_perm {table : List ρ} (unique : (table.map key).Nodup) {k : κ} {r : ρ}
    (found : find key table k = some r) :
    (table.filter fun r' => decide (key r' = k)).Perm [r] := by
  have split := (perm_of_find found).filter fun r' => decide (key r' = k)
  have others : (erase key table k).filter (fun r' => decide (key r' = k)) = [] := by
    apply List.filter_eq_nil_iff.mpr
    intro r' member
    simpa using (mem_erase_iff unique).mp member |>.2
  rwa [List.filter_cons_of_pos (by simpa using find_key found), others] at split

theorem mem_update_iff {table : List ρ} (unique : (table.map key).Nodup) {k : κ} {r : ρ}
    (found : find key table k = some r) (f : ρ → ρ) (r' : ρ) :
    r' ∈ update key table k f ↔ r' = f r ∨ (r' ∈ table ∧ key r' ≠ k) := by
  rw [(update_perm found f).mem_iff, List.mem_cons, mem_erase_iff unique]

end Keyed
