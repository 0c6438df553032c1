import Mathlib.Data.Nat.Notation

/-!
# Stacks of causal stages

A stage turns the states of a sequence of positions into new states. At each position it makes a
key and a value from the state there, and its output may look at the keys and values of other
positions as well. A stack runs its stages one after the other, over all positions at once or over
the positions from a context on, with the keys and values before it taken from caches.
-/
namespace MarketForge.Library

structure Stage (State Key Value : Type) where
  key : Nat → State → Key
  value : Nat → State → Value
  output : Nat → State → (Nat → Key) → (Nat → Value) → State

section

variable {State Key Value : Type}

namespace Stage

variable (stage : Stage State Key Value)

/-- The keys of a sequence of states. -/
def keys (states : Nat → State) : Nat → Key := fun position => stage.key position (states position)

/-- The values of a sequence of states. -/
def values (states : Nat → State) : Nat → Value :=
  fun position => stage.value position (states position)

/-- The states after the stage. -/
def apply (states : Nat → State) : Nat → State :=
  fun position => stage.output position (states position) (stage.keys states) (stage.values states)

/-- The output at a position looks at no later position. -/
def Causal : Prop :=
  ∀ position state keys values otherKeys otherValues,
    (∀ earlier ≤ position, keys earlier = otherKeys earlier) →
    (∀ earlier ≤ position, values earlier = otherValues earlier) →
    stage.output position state keys values = stage.output position state otherKeys otherValues

/-- The keys of a sequence of states, with those before the context from a cache. -/
def keysFrom (context : Nat) (cached : Nat → Key) (states : Nat → State) : Nat → Key :=
  fun position => if position < context then cached position else stage.keys states position

/-- The values of a sequence of states, with those before the context from a cache. -/
def valuesFrom (context : Nat) (cached : Nat → Value) (states : Nat → State) : Nat → Value :=
  fun position => if position < context then cached position else stage.values states position

/-- The states after the stage, for the positions from the context on. -/
def resume (context : Nat) (cachedKeys : Nat → Key) (cachedValues : Nat → Value)
    (states : Nat → State) : Nat → State :=
  fun position => stage.output position (states position)
    (stage.keysFrom context cachedKeys states) (stage.valuesFrom context cachedValues states)

end Stage

/-- The states after the first stages of a stack. -/
def statesAfter (stages : List (Stage State Key Value)) (inputs : Nat → State) : Nat → Nat → State
  | 0 => inputs
  | depth + 1 =>
    match stages[depth]? with
    | some stage => stage.apply (statesAfter stages inputs depth)
    | none => statesAfter stages inputs depth

/-- The states after the first stages of a stack that resumes at a context. -/
def statesFrom (stages : List (Stage State Key Value)) (context : Nat)
    (cachedKeys : Nat → Nat → Key) (cachedValues : Nat → Nat → Value) (inputs : Nat → State) :
    Nat → Nat → State
  | 0 => inputs
  | depth + 1 =>
    match stages[depth]? with
    | some stage => stage.resume context (cachedKeys depth) (cachedValues depth)
        (statesFrom stages context cachedKeys cachedValues inputs depth)
    | none => statesFrom stages context cachedKeys cachedValues inputs depth

/-- What a stack of causal stages computes at a position depends on the inputs up to it. -/
theorem states_after_causal (stages : List (Stage State Key Value))
    (causal : ∀ stage ∈ stages, stage.Causal) (inputs others : Nat → State) (last : Nat)
    (same : ∀ position < last, inputs position = others position) (depth : Nat) :
    ∀ position < last, statesAfter stages inputs depth position =
      statesAfter stages others depth position := by
  induction depth with
  | zero => exact same
  | succ depth ih =>
    intro position before
    unfold statesAfter
    cases found : stages[depth]? with
    | none => exact ih position before
    | some stage =>
      dsimp only
      unfold Stage.apply
      rw [ih position before]
      apply causal stage (List.mem_of_getElem? found)
      · intro earlier atMost
        unfold Stage.keys
        rw [ih earlier (by omega)]
      · intro earlier atMost
        unfold Stage.values
        rw [ih earlier (by omega)]

/-- A stack that resumes from the keys and values of the positions before the context computes
what the whole stack computes from the context on. -/
theorem states_from_eq (stages : List (Stage State Key Value)) (context : Nat)
    (cachedKeys : Nat → Nat → Key) (cachedValues : Nat → Nat → Value) (inputs resumed : Nat → State)
    (sameInputs : ∀ position, context ≤ position → resumed position = inputs position)
    (sameKeys : ∀ depth stage, stages[depth]? = some stage → ∀ position < context,
      cachedKeys depth position = stage.keys (statesAfter stages inputs depth) position)
    (sameValues : ∀ depth stage, stages[depth]? = some stage → ∀ position < context,
      cachedValues depth position = stage.values (statesAfter stages inputs depth) position)
    (depth : Nat) : ∀ position, context ≤ position →
      statesFrom stages context cachedKeys cachedValues resumed depth position =
        statesAfter stages inputs depth position := by
  induction depth with
  | zero => exact sameInputs
  | succ depth ih =>
    intro position reached
    unfold statesFrom statesAfter
    cases found : stages[depth]? with
    | none => exact ih position reached
    | some stage =>
      -- every key and value is the whole stack's: cached before the context, the same state after
      have keys : stage.keysFrom context (cachedKeys depth)
          (statesFrom stages context cachedKeys cachedValues resumed depth) =
            stage.keys (statesAfter stages inputs depth) := by
        funext other
        unfold Stage.keysFrom
        split
        next before => exact sameKeys depth stage found other before
        next after => unfold Stage.keys; rw [ih other (by omega)]
      have values : stage.valuesFrom context (cachedValues depth)
          (statesFrom stages context cachedKeys cachedValues resumed depth) =
            stage.values (statesAfter stages inputs depth) := by
        funext other
        unfold Stage.valuesFrom
        split
        next before => exact sameValues depth stage found other before
        next after => unfold Stage.values; rw [ih other (by omega)]
      dsimp only
      unfold Stage.resume Stage.apply
      rw [keys, values, ih position reached]

end

end MarketForge.Library
