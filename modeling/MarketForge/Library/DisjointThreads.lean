import MarketForge.Library.BlockTree
import MarketForge.Library.BlockSchedule

/-!
# Threads that keep to their cells

When no thread writes a cell that another one reads or writes, the interleaving does not matter:
each thread leaves its cells as if it had run alone from the memory at the start
(`interleaves_disjoint`).
-/
namespace BarrierBlock

variable {S A V : Type} (get : S → A → V) (owns : A → Nat → Prop)

/-- A thread may read the cells that nobody else owns. -/
def Readable (thread : Nat) (cell : A) : Prop := ∀ other, owns cell other → other = thread

/-- Two memories that a thread cannot tell apart. -/
def Agree (thread : Nat) (s s' : S) : Prop :=
  ∀ cell, Readable owns thread cell → get s cell = get s' cell

/-- A thread that writes only cells it owns and reads none that another one owns. -/
def KeepsTo (thread : Nat) : Program S → Prop
  | .done => True
  | .act update next =>
    (∀ s cell, ¬ owns cell thread → get (update s) cell = get s cell) ∧
    (∀ s s', Agree get owns thread s s' →
      Agree get owns thread (update s) (update s') ∧ next s = next s') ∧
    ∀ s, KeepsTo thread (next s)

variable {get owns} {thread : Nat}

theorem KeepsTo.read {α : Type} {value : S → α} {next : α → Program S}
    (same : ∀ s s', Agree get owns thread s s' → value s = value s')
    (onward : ∀ found, KeepsTo get owns thread (next found)) :
    KeepsTo get owns thread (.read value next) :=
  ⟨fun _ _ _ => rfl, fun s s' agree => ⟨agree, congrArg next (same s s' agree)⟩,
    fun _ => onward _⟩

theorem KeepsTo.write {update : S → S} {next : Program S} {cell : A} {value : V}
    (owned : owns cell thread) (stored : ∀ s, get (update s) cell = value)
    (others : ∀ s other, other ≠ cell → get (update s) other = get s other)
    (onward : KeepsTo get owns thread next) : KeepsTo get owns thread (.write update next) := by
  refine ⟨fun s other foreign => others s other fun same => foreign (same ▸ owned),
    fun s s' agree => ⟨fun other readable => ?_, rfl⟩, fun _ => onward⟩
  by_cases same : other = cell
  · rw [same, stored, stored]
  · rw [others s other same, others s' other same]
    exact agree other readable

theorem KeepsTo.forEach {ι α : Type} {body : ι → α → (α → Program S) → Program S}
    {next : α → Program S} {indices : List ι}
    (turn : ∀ i ∈ indices, ∀ carried onward,
      (∀ carried', KeepsTo get owns thread (onward carried')) →
      KeepsTo get owns thread (body i carried onward))
    (ends : ∀ carried, KeepsTo get owns thread (next carried)) (carried : α) :
    KeepsTo get owns thread (.forEach body indices carried next) := by
  induction indices generalizing carried with
  | nil => exact ends carried
  | cons i rest ih => exact turn i (.head _) carried _ (ih fun j listed => turn j (.tail _ listed))

variable (get owns) in
/-- Each thread changes cells it owns, and finds those it may read as it left them. -/
def disjointly : Interference S where
  rely thread s s' := Agree get owns thread s' s
  guarantee thread s s' := ∀ cell, ¬ owns cell thread → get s' cell = get s cell
  refl _ _ _ _ := rfl
  trans _ _ _ _ first second cell readable := (second cell readable).trans (first cell readable)
  compatible _ _ different _ _ acted cell readable :=
    acted cell fun foreign => different (readable _ foreign).symm

/-- A thread that keeps to its cells leaves them as it would alone. -/
theorem KeepsTo.keeps {program : Program S} {s s' : S} (keepsTo : KeepsTo get owns thread program)
    (agree : Agree get owns thread s' s) :
    Keeps ((disjointly get owns).rely thread) ((disjointly get owns).guarantee thread)
      (fun last => Agree get owns thread last (program.finish s)) program s' := by
  induction program generalizing s s' with
  | done => exact fun last moved cell readable => (moved cell readable).trans (agree cell readable)
  | act update next ih =>
    intro s₁ moved
    obtain ⟨stays, same, onward⟩ := keepsTo
    have agree₁ : Agree get owns thread s₁ s := fun cell readable =>
      (moved cell readable).trans (agree cell readable)
    obtain ⟨updated, nexts⟩ := same s₁ s agree₁
    refine ⟨fun cell foreign => stays s₁ cell foreign, ?_⟩
    rw [nexts]
    exact ih s (onward s) updated

/-- A thread alone leaves what it does not own. -/
theorem KeepsTo.finish_foreign {program : Program S}
    (keepsTo : KeepsTo get owns thread program) (s : S) {cell : A} (foreign : ¬ owns cell thread) :
    get (program.finish s) cell = get s cell := by
  induction program generalizing s with
  | done => rfl
  | act update next ih =>
    obtain ⟨stays, _, onward⟩ := keepsTo
    exact (ih s (onward s) (update s)).trans (stays s cell foreign)

/-- Whatever the interleaving, a cell that at most one thread owns is left as that thread alone
leaves it. -/
theorem interleaves_disjoint {count : Nat} {threads : Nat → Program S} {memory memory' : S}
    (keepsTo : ∀ thread < count, KeepsTo get owns thread (threads thread))
    (ran : Interleaves count threads memory memory') (within : thread < count) {cell : A}
    (readable : Readable owns thread cell) :
    get memory' cell = get ((threads thread).finish memory) cell := by
  refine interleaves_post (disjointly get owns)
    (fun thread last => Agree get owns thread last ((threads thread).finish memory)) ?_ ran thread
    within cell readable
  exact fun thread within => (keepsTo thread within).keeps fun _ _ => rfl

/-- Threads with cells of their own leave exactly one memory. -/
theorem interleaves_iff_alone {count : Nat} {threads : Nat → Program S} {memory memory' : S}
    (ext : ∀ s s' : S, (∀ cell, get s cell = get s' cell) → s = s')
    (unique : ∀ cell thread other, owns cell thread → owns cell other → thread = other)
    (owners : ∀ cell thread, owns cell thread → thread < count) (some_thread : 0 < count)
    (keepsTo : ∀ thread < count, KeepsTo get owns thread (threads thread)) :
    Interleaves count threads memory memory' ↔
      ∀ thread < count, Agree get owns thread memory' ((threads thread).finish memory) := by
  have left : ∀ last, Interleaves count threads memory last →
      ∀ thread < count, Agree get owns thread last ((threads thread).finish memory) :=
    fun _ ran _ within _ readable => interleaves_disjoint keepsTo ran within readable
  refine ⟨left memory', fun agree => ?_⟩
  obtain ⟨last, ran⟩ := interleaves_exists count threads memory
  have same : last = memory' := by
    refine ext last memory' fun cell => ?_
    -- a cell without an owner is readable for every thread
    obtain ⟨thread, within, readable⟩ : ∃ thread < count, Readable owns thread cell := by
      by_cases owned : ∃ thread, owns cell thread
      · obtain ⟨thread, owned⟩ := owned
        exact ⟨thread, owners cell thread owned, fun other foreign =>
          unique cell other thread foreign owned⟩
      · exact ⟨0, some_thread, fun other foreign => absurd ⟨other, foreign⟩ owned⟩
    rw [left last ran thread within cell readable, agree thread within cell readable]
  exact same ▸ ran

/-! ### Loops of a thread -/

/-- A loop that carries nothing, run alone. -/
theorem finish_forEach {ι : Type} {body : ι → Unit → (Unit → Program S) → Program S}
    {next : Unit → Program S} {effect : ι → S → S}
    (turn : ∀ i onward s, (body i () onward).finish s = (onward ()).finish (effect i s))
    (indices : List ι) (s : S) :
    (Program.forEach body indices () next).finish s =
      (next ()).finish (indices.foldl (fun s i => effect i s) s) := by
  induction indices generalizing s with
  | nil => rfl
  | cons i rest ih => exact (turn i _ s).trans (ih (effect i s))

/-- A cell of no turn is left alone. -/
theorem get_foldl_foreign {ι : Type} {effect : ι → S → S} (own : ι → A → Prop)
    {indices : List ι}
    (stays : ∀ i ∈ indices, ∀ s cell, ¬ own i cell → get (effect i s) cell = get s cell) (s : S)
    {cell : A} (foreign : ∀ i ∈ indices, ¬ own i cell) :
    get (indices.foldl (fun s i => effect i s) s) cell = get s cell := by
  induction indices generalizing s with
  | nil => rfl
  | cons i rest ih =>
    rw [List.foldl_cons, ih (fun j listed => stays j (.tail _ listed)) _ fun j listed =>
      foreign j (.tail _ listed), stays i (.head _) s cell (foreign i (.head _))]

/-- Turns on cells of their own leave what each leaves alone. -/
theorem get_foldl_disjoint {ι : Type} {effect : ι → S → S} (own : ι → A → Prop)
    {indices : List ι}
    (apart : ∀ i ∈ indices, ∀ j ∈ indices, ∀ cell, own i cell → own j cell → i = j)
    (stays : ∀ i ∈ indices, ∀ s cell, ¬ own i cell → get (effect i s) cell = get s cell)
    (alone : ∀ i s s', (∀ cell, own i cell → get s cell = get s' cell) →
      ∀ cell, own i cell → get (effect i s) cell = get (effect i s') cell)
    (distinct : indices.Nodup) (s : S) {i : ι} (listed : i ∈ indices) {cell : A}
    (here : own i cell) :
    get (indices.foldl (fun s i => effect i s) s) cell = get (effect i s) cell := by
  induction indices generalizing s with
  | nil => cases listed
  | cons j rest ih =>
    obtain ⟨fresh, distinct⟩ := List.nodup_cons.mp distinct
    have staysBehind : ∀ k ∈ rest, ∀ s cell, ¬ own k cell →
        get (effect k s) cell = get s cell := fun k behind => stays k (.tail _ behind)
    rw [List.foldl_cons]
    -- either this is the turn, or this one leaves what the turn will look at
    rcases List.mem_cons.mp listed with rfl | later
    · exact get_foldl_foreign own staysBehind (effect i s) fun k behind foreign =>
        fresh (apart i (.head _) k (.tail _ behind) cell here foreign ▸ behind)
    · rw [ih (fun k behind l behind' => apart k (.tail _ behind) l (.tail _ behind'))
        staysBehind distinct (effect j s) later]
      refine alone i _ _ (fun other own' => stays j (.head _) s other fun foreign => fresh ?_) cell
        here
      exact apart i (.tail _ later) j (.head _) other own' foreign ▸ later

end BarrierBlock
