import MarketForge.Library.Keyed

/-!
# Runs of a deterministic machine

A machine answers calls one at a time: each call is given a reply and leaves a state.
`run` is the state after a sequence of calls and `history` the calls as they were answered.
Invariants are proved once per step and lifted to every run by `run_invariant`, or by
`history_invariant` when the property also speaks about the replies given so far. A table whose
records are removed by one call each is emptied by calling for all of them, in any order
(`drain`).
-/
namespace Transition

/-- A component driven by calls. -/
structure Machine (State Call Reply : Type) where
  step : State → Call → Reply × State

/-- One answered call, with the state that it found. -/
structure Event (State Call Reply : Type) where
  before : State
  call : Call
  reply : Reply

namespace Machine

variable {State Call Reply : Type} (m : Machine State Call Reply)

/-- The state left by a sequence of calls. -/
def run : State → List Call → State
  | s, [] => s
  | s, c :: cs => run (m.step s c).2 cs

/-- The event of calling `c` in `s`. -/
def event (s : State) (c : Call) : Event State Call Reply := ⟨s, c, (m.step s c).1⟩

/-- The events of a run, in order. -/
def history : State → List Call → List (Event State Call Reply)
  | _, [] => []
  | s, c :: cs => m.event s c :: history (m.step s c).2 cs

@[simp] theorem run_nil (s : State) : m.run s [] = s := rfl

@[simp] theorem run_cons (s : State) (c : Call) (cs : List Call) :
    m.run s (c :: cs) = m.run (m.step s c).2 cs := rfl

@[simp] theorem history_nil (s : State) : m.history s [] = [] := rfl

@[simp] theorem history_cons (s : State) (c : Call) (cs : List Call) :
    m.history s (c :: cs) = m.event s c :: m.history (m.step s c).2 cs := rfl

theorem run_append (s : State) (first second : List Call) :
    m.run s (first ++ second) = m.run (m.run s first) second := by
  induction first generalizing s with
  | nil => rfl
  | cons c cs ih => exact ih _

theorem history_append (s : State) (first second : List Call) :
    m.history s (first ++ second) = m.history s first ++ m.history (m.run s first) second := by
  induction first generalizing s with
  | nil => rfl
  | cons c cs ih => simp [ih]

/-- A property every step preserves holds after every run. -/
theorem run_invariant (inv : State → Prop)
    (preserved : ∀ s c, inv s → inv (m.step s c).2)
    (s : State) (initial : inv s) (calls : List Call) : inv (m.run s calls) := by
  induction calls generalizing s with
  | nil => exact initial
  | cons c cs ih => exact ih _ (preserved s c initial)

/-- A relation between the history so far and the current state, extended by every step,
holds after every run. -/
theorem history_invariant (rel : List (Event State Call Reply) → State → Prop)
    (preserved : ∀ h s c, rel h s → rel (h ++ [m.event s c]) (m.step s c).2)
    (s : State) (initial : rel [] s) (calls : List Call) :
    rel (m.history s calls) (m.run s calls) := by
  -- The induction carries an arbitrary history of earlier calls in front.
  have extended : ∀ (cs : List Call) (before : List (Event State Call Reply)) (t : State),
      rel before t → rel (before ++ m.history t cs) (m.run t cs) := by
    intro cs
    induction cs with
    | nil => intro before t related; simpa using related
    | cons c cs ih =>
      intro before t related
      have next := ih _ _ (preserved before t c related)
      simpa using next
  simpa using extended calls [] s initial

/-- Calling once for each record of a table empties it, whatever the order, if each call removes its
record and keeps what the next calls need. -/
theorem drain {Record Key : Type} [DecidableEq Key] (key : Record → Key)
    (table : State → List Record) (call : Key → Call) (holds : State → Prop) (good : Reply → Prop)
    (removes : ∀ s k r, holds s → Keyed.find key (table s) k = some r →
      good (m.step s (call k)).1 ∧ holds (m.step s (call k)).2 ∧
        table (m.step s (call k)).2 = Keyed.erase key (table s) k)
    (s : State) (initial : holds s) (keys : List Key) (order : keys.Perm ((table s).map key)) :
    (∀ e ∈ m.history s (keys.map call), good e.reply) ∧ holds (m.run s (keys.map call)) ∧
      table (m.run s (keys.map call)) = [] := by
  induction keys generalizing s with
  | nil =>
    refine ⟨fun e none => absurd none List.not_mem_nil, initial, ?_⟩
    exact List.map_eq_nil_iff.mp (List.nil_perm.mp order)
  | cons k keys ih =>
    obtain ⟨r, found⟩ : ∃ r, Keyed.find key (table s) k = some r := by
      cases found : Keyed.find key (table s) k with
      | none =>
        exact absurd (order.mem_iff.mp List.mem_cons_self) (Keyed.not_mem_keys_of_find found)
      | some r => exact ⟨r, rfl⟩
    obtain ⟨succeeded, kept, erased⟩ := removes s k r initial found
    have rest : keys.Perm ((table (m.step s (call k)).2).map key) := by
      have split := order.trans ((Keyed.perm_of_find found).map key)
      rw [List.map_cons, Keyed.find_key found] at split
      rw [erased]
      exact split.cons_inv
    obtain ⟨others, holdsLast, empty⟩ := ih _ kept rest
    refine ⟨?_, holdsLast, empty⟩
    intro e member
    rcases List.mem_cons.mp member with rfl | later
    · exact succeeded
    · exact others e later

end Machine

end Transition
