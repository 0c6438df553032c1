import Mathlib.Data.Nat.Basic
import MarketForge.Grammar.Action
import MarketForge.Library.SortedMap

/-!
# Token automata

`ActionDfa` and `TokenDfa` are one program over two payloads: a trie is grown entry by entry and
flattened into a table of states and a table of arcs. The program is written here once, over an
arbitrary payload, with the ids a payload may not use as a parameter.

State indices and table sizes are natural numbers. The limits of a configuration are 32-bit
numbers and are checked before a state, an arc or an entry is added, so the conversions of the
source to 32 bits are exact and no index reaches the mark `noTerminal`.
-/
namespace MarketForge.Grammar

/-- The 32-bit token ids, which are only compared. -/
abbrev TokenId := Nat

structure GrammarState where
  value : Nat := 0
  deriving DecidableEq, Repr

structure GrammarArc where
  token : TokenId
  next : GrammarState
  deriving DecidableEq, Repr

/-- An entry of a language: a payload and the tokens that spell it. -/
structure Encoded (γ : Type) where
  payload : γ
  tokens : List TokenId
  deriving DecidableEq, Repr

structure DfaConfig where
  vocabularySize : UInt32
  maximumSequenceTokens : UInt32
  maximumEntries : UInt32 := 4096
  maximumStates : UInt32 := 65536
  maximumArcs : UInt32 := 65536
  deriving DecidableEq, Repr

def noTerminal : Nat := UInt32.size - 1

structure TrieNode where
  children : List (TokenId × Nat) := []
  terminal : Nat := noTerminal
  deriving DecidableEq, Repr

/-- The default node. -/
def TrieNode.blank : TrieNode := {}

structure StateRecord where
  firstArc : Nat
  arcCount : Nat
  terminal : Nat
  deriving DecidableEq, Repr

/-- The flattened automaton over a payload. -/
structure TrieDfa (γ : Type) where
  states : List StateRecord
  arcs : List GrammarArc
  payloads : List γ
  deriving DecidableEq, Repr

/-- The containers of the growing trie. `point` is the next allocation point. The set of the
payloads seen so far holds those of `payloads`. -/
structure Builder (γ : Type) where
  trie : List TrieNode
  payloads : List γ
  arcCount : Nat
  point : Nat

/-- Reading the trie. Every index that occurs is one of the trie. -/
def nodeAt (trie : List TrieNode) (state : Nat) : TrieNode := trie.getD state .blank

/-- A new node behind the trie, and the arc that leads to it. -/
def withChild (trie : List TrieNode) (state : Nat) (token : TokenId) : List TrieNode :=
  (trie ++ [TrieNode.blank]).modify state fun node =>
    { node with children := SortedMap.emplace node.children token trie.length }

/-- The mark of the payload an entry ends with. -/
def withTerminal (trie : List TrieNode) (state index : Nat) : List TrieNode :=
  trie.modify state fun node => { node with terminal := index }

def Builder.grow {γ : Type} (builder : Builder γ) (state : Nat) (token : TokenId) : Builder γ :=
  { builder with
    trie := withChild builder.trie state token
    arcCount := builder.arcCount + 1
    point := builder.point + 2 }

def Builder.mark {γ : Type} (builder : Builder γ) (state : Nat) (payload : γ) : Builder γ :=
  { builder with
    trie := withTerminal builder.trie state builder.payloads.length
    payloads := builder.payloads ++ [payload] }

section Build

variable {γ : Type} [DecidableEq γ] (memory : Memory) (config : DfaConfig) (reserved : γ → Bool)

/-- The walk of one entry from a state, growing the trie where it has no child. -/
def insertTokens : List TokenId → Nat → Builder γ → Result (Nat × Builder γ)
  | [], state, builder => .ok (state, builder)
  | token :: rest, state, builder =>
    let node := nodeAt builder.trie state
    if token ≥ config.vocabularySize.toNat ∨ node.terminal ≠ noTerminal then
      .error (.failure .invalidArgument)
    else match SortedMap.find node.children token with
      | some next => insertTokens rest next builder
      | none =>
        if builder.trie.length ≥ config.maximumStates.toNat ∨
            builder.arcCount ≥ config.maximumArcs.toNat then
          .error (.failure .resourceLimit)
        else if ¬ memory builder.point ∨ ¬ memory (builder.point + 1) then
          .error (.failure .allocationFailed)
        else insertTokens rest builder.trie.length (builder.grow state token)

def insertEntries : List (Encoded γ) → Builder γ → Result (Builder γ)
  | [], builder => .ok builder
  | encoded :: rest, builder =>
    if reserved encoded.payload ∨ encoded.tokens = [] ∨
        encoded.tokens.length > config.maximumSequenceTokens.toNat ∨
        encoded.payload ∈ builder.payloads then
      .error (.failure .invalidArgument)
    else if ¬ memory builder.point then .error (.failure .allocationFailed)
    else match insertTokens memory config encoded.tokens 0
        { builder with point := builder.point + 1 } with
      | .error status => .error status
      | .ok (state, builder) =>
        let node := nodeAt builder.trie state
        if node.terminal ≠ noTerminal ∨ node.children ≠ [] then
          .error (.failure .invalidArgument)
        else insertEntries rest (builder.mark state encoded.payload)

def arcsOf (node : TrieNode) : List GrammarArc :=
  node.children.map fun (token, next) => ⟨token, ⟨next⟩⟩

/-- The flattening loop over the nodes, with the tables so far. -/
def flatten : List TrieNode → List StateRecord → List GrammarArc →
    List StateRecord × List GrammarArc
  | [], states, arcs => (states, arcs)
  | node :: rest, states, arcs =>
    flatten rest (states ++ [⟨arcs.length, node.children.length, node.terminal⟩])
      (arcs ++ arcsOf node)

def build (language : List (Encoded γ)) : Result (TrieDfa γ) :=
  if language = [] ∨ config.vocabularySize = 0 ∨ config.maximumSequenceTokens = 0 ∨
      config.maximumEntries = 0 ∨ config.maximumStates = 0 ∨ config.maximumArcs = 0 then
    .error (.failure .invalidArgument)
  else if language.length > config.maximumEntries.toNat then .error (.failure .resourceLimit)
  -- The trie with its root and the reservation of the payloads.
  else if ¬ memory 0 ∨ ¬ memory 1 then .error (.failure .allocationFailed)
  else match insertEntries memory config reserved language ⟨[.blank], [], 0, 2⟩ with
    | .error status => .error status
    | .ok builder =>
      if ¬ memory builder.point ∨ ¬ memory (builder.point + 1) then
        .error (.failure .allocationFailed)
      else
        let (states, arcs) := flatten builder.trie [] []
        if arcs.length ≠ builder.arcCount ∨ builder.payloads.length ≠ language.length then
          .error (.failure .invalidFormat)
        else .ok ⟨states, arcs, builder.payloads⟩

end Build

namespace TrieDfa

variable {γ : Type} (dfa : TrieDfa γ)

def root : GrammarState := {}

/-- The arcs that leave a state. -/
def allowed (state : GrammarState) : Result (List GrammarArc) :=
  match dfa.states[state.value]? with
  | none => .error (.failure .invalidArgument)
  | some record => .ok ((dfa.arcs.drop record.firstArc).take record.arcCount)

def advance (state : GrammarState) (token : TokenId) : Result GrammarState :=
  match dfa.allowed state with
  | .error status => .error status
  | .ok arcs =>
    match arcs[SortedMap.lowerBound GrammarArc.token arcs token]? with
    | none => .error (.failure .invalidArgument)
    | some arc =>
      if arc.token ≠ token then .error (.failure .invalidArgument) else .ok arc.next

def terminal (state : GrammarState) : Bool :=
  match dfa.states[state.value]? with
  | none => false
  | some record => decide (record.terminal ≠ noTerminal)

def decodeTerminal (state : GrammarState) : Result γ :=
  match dfa.states[state.value]? with
  | none => .error (.failure .invalidArgument)
  | some record =>
    if record.terminal = noTerminal then .error (.failure .invalidArgument)
    else match dfa.payloads[record.terminal]? with
      | none => .error (.failure .invalidArgument)
      | some payload => .ok payload

/-- Advancing through a list of tokens. -/
def advanceAll (state : GrammarState) : List TokenId → Result GrammarState
  | [] => .ok state
  | token :: rest =>
    match dfa.advance state token with
    | .error status => .error status
    | .ok next => advanceAll next rest

end TrieDfa

/-! ### The two automata -/

abbrev ChoiceId := UInt32

abbrev EncodedChoice := Encoded ChoiceId

abbrev TokenDfaConfig := DfaConfig

abbrev TokenDfa := TrieDfa ChoiceId

/-- `UINT32_MAX` is not a choice id. -/
def reservedChoice (id : ChoiceId) : Bool := decide (id.toNat = noTerminal)

def TokenDfa.build (memory : Memory) (language : List EncodedChoice) (config : TokenDfaConfig) :
    Result TokenDfa :=
  Grammar.build memory config reservedChoice language

abbrev EncodedAction := Encoded Action

abbrev ActionDfaConfig := DfaConfig

abbrev ActionDfa := TrieDfa Action

/-- Actions are told apart by the three components of their key, which are all they have. -/
def ActionDfa.build (memory : Memory) (language : List EncodedAction) (config : ActionDfaConfig) :
    Result ActionDfa :=
  Grammar.build memory config (fun _ => false) language

end MarketForge.Grammar
