import MarketForge.Grammar.TrieDfa

/-!
# The two builders

`ActionDfa::build` and `TokenDfa::build` with their checks in the order of the source. The first
tells payloads apart by a key of three components and checks a token in two steps; the second
also refuses one id. Each is the shared program of the token automata at its own payload, and
the shared program commutes with a renaming of the payloads, so the two builders agree on every
language and its renaming.
-/
namespace MarketForge.Grammar

/-- What the loop over the tokens of an entry changes. -/
structure Growth where
  trie : List TrieNode
  arcCount : Nat
  point : Nat

def Growth.addChild (growth : Growth) (state : Nat) (token : TokenId) : Growth where
  trie := withChild growth.trie state token
  arcCount := growth.arcCount + 1
  point := growth.point + 2

def Growth.close (growth : Growth) (state index : Nat) : Growth :=
  { growth with trie := withTerminal growth.trie state index }

/-! ## The builder of action automata -/

namespace ActionDfaBuild

abbrev ActionKey := ActionKind × Nat × Nat

def key (action : Action) : ActionKey := (action.kind, action.quantity, action.priceTick)

structure Progress where
  growth : Growth
  actions : List Action
  actionKeys : List ActionKey

variable (memory : Memory) (config : ActionDfaConfig)

def insertTokens : List TokenId → Nat → Growth → Result (Nat × Growth)
  | [], state, growth => .ok (state, growth)
  | token :: rest, state, growth =>
    if token ≥ config.vocabularySize.toNat then .error (.failure .invalidArgument)
    else if (nodeAt growth.trie state).terminal ≠ noTerminal then
      .error (.failure .invalidArgument)
    else match SortedMap.find (nodeAt growth.trie state).children token with
      | some next => insertTokens rest next growth
      | none =>
        if growth.trie.length ≥ config.maximumStates.toNat ∨
            growth.arcCount ≥ config.maximumArcs.toNat then
          .error (.failure .resourceLimit)
        else if ¬ memory growth.point ∨ ¬ memory (growth.point + 1) then
          .error (.failure .allocationFailed)
        else insertTokens rest growth.trie.length (growth.addChild state token)

def insertEntries : List EncodedAction → Progress → Result Progress
  | [], progress => .ok progress
  | encoded :: rest, progress =>
    if encoded.tokens = [] ∨ encoded.tokens.length > config.maximumSequenceTokens.toNat then
      .error (.failure .invalidArgument)
    else if key encoded.payload ∈ progress.actionKeys then .error (.failure .invalidArgument)
    else if ¬ memory progress.growth.point then .error (.failure .allocationFailed)
    else match insertTokens memory config encoded.tokens 0
        { progress.growth with point := progress.growth.point + 1 } with
      | .error status => .error status
      | .ok (state, growth) =>
        if (nodeAt growth.trie state).terminal ≠ noTerminal ∨
            (nodeAt growth.trie state).children ≠ [] then
          .error (.failure .invalidArgument)
        else
          insertEntries rest
            { growth := growth.close state progress.actions.length
              actions := progress.actions ++ [encoded.payload]
              actionKeys := key encoded.payload :: progress.actionKeys }

def build (language : List EncodedAction) : Result ActionDfa :=
  if language = [] ∨ config.vocabularySize = 0 ∨ config.maximumSequenceTokens = 0 ∨
      config.maximumEntries = 0 ∨ config.maximumStates = 0 ∨ config.maximumArcs = 0 then
    .error (.failure .invalidArgument)
  else if language.length > config.maximumEntries.toNat then .error (.failure .resourceLimit)
  else if ¬ memory 0 ∨ ¬ memory 1 then .error (.failure .allocationFailed)
  else match insertEntries memory config language ⟨⟨[.blank], 0, 2⟩, [], []⟩ with
    | .error status => .error status
    | .ok progress =>
      if ¬ memory progress.growth.point ∨ ¬ memory (progress.growth.point + 1) then
        .error (.failure .allocationFailed)
      else
        let (states, arcs) := flatten progress.growth.trie [] []
        if arcs.length ≠ progress.growth.arcCount ∨
            progress.actions.length ≠ language.length then
          .error (.failure .invalidFormat)
        else .ok ⟨states, arcs, progress.actions⟩

end ActionDfaBuild

/-! ## The builder of token automata -/

namespace TokenDfaBuild

structure Progress where
  growth : Growth
  choices : List ChoiceId
  choiceIds : List ChoiceId

variable (memory : Memory) (config : TokenDfaConfig)

def insertTokens : List TokenId → Nat → Growth → Result (Nat × Growth)
  | [], state, growth => .ok (state, growth)
  | token :: rest, state, growth =>
    if token ≥ config.vocabularySize.toNat ∨
        (nodeAt growth.trie state).terminal ≠ noTerminal then
      .error (.failure .invalidArgument)
    else match SortedMap.find (nodeAt growth.trie state).children token with
      | some next => insertTokens rest next growth
      | none =>
        if growth.trie.length ≥ config.maximumStates.toNat ∨
            growth.arcCount ≥ config.maximumArcs.toNat then
          .error (.failure .resourceLimit)
        else if ¬ memory growth.point ∨ ¬ memory (growth.point + 1) then
          .error (.failure .allocationFailed)
        else insertTokens rest growth.trie.length (growth.addChild state token)

def insertEntries : List EncodedChoice → Progress → Result Progress
  | [], progress => .ok progress
  | encoded :: rest, progress =>
    if encoded.payload.toNat = noTerminal ∨ encoded.tokens = [] ∨
        encoded.tokens.length > config.maximumSequenceTokens.toNat ∨
        encoded.payload ∈ progress.choiceIds then
      .error (.failure .invalidArgument)
    else if ¬ memory progress.growth.point then .error (.failure .allocationFailed)
    else match insertTokens memory config encoded.tokens 0
        { progress.growth with point := progress.growth.point + 1 } with
      | .error status => .error status
      | .ok (state, growth) =>
        if (nodeAt growth.trie state).terminal ≠ noTerminal ∨
            (nodeAt growth.trie state).children ≠ [] then
          .error (.failure .invalidArgument)
        else
          insertEntries rest
            { growth := growth.close state progress.choices.length
              choices := progress.choices ++ [encoded.payload]
              choiceIds := encoded.payload :: progress.choiceIds }

def build (language : List EncodedChoice) : Result TokenDfa :=
  if language = [] ∨ config.vocabularySize = 0 ∨ config.maximumSequenceTokens = 0 ∨
      config.maximumEntries = 0 ∨ config.maximumStates = 0 ∨ config.maximumArcs = 0 then
    .error (.failure .invalidArgument)
  else if language.length > config.maximumEntries.toNat then .error (.failure .resourceLimit)
  else if ¬ memory 0 ∨ ¬ memory 1 then .error (.failure .allocationFailed)
  else match insertEntries memory config language ⟨⟨[.blank], 0, 2⟩, [], []⟩ with
    | .error status => .error status
    | .ok progress =>
      if ¬ memory progress.growth.point ∨ ¬ memory (progress.growth.point + 1) then
        .error (.failure .allocationFailed)
      else
        let (states, arcs) := flatten progress.growth.trie [] []
        if arcs.length ≠ progress.growth.arcCount ∨
            progress.choices.length ≠ language.length then
          .error (.failure .invalidFormat)
        else .ok ⟨states, arcs, progress.choices⟩

end TokenDfaBuild

/-! ## Each builder as the shared program -/

/-- The state of the shared program with these payloads. -/
@[reducible]
def Growth.with {γ : Type} (growth : Growth) (payloads : List γ) : Builder γ :=
  ⟨growth.trie, payloads, growth.arcCount, growth.point⟩

private theorem failed_map {α β : Type} (f : α → β) (status : Status) :
    (Except.error status : Result α).map f = .error status := rfl

private theorem done_map {α β : Type} (f : α → β) (value : α) :
    (Except.ok value : Result α).map f = .ok (f value) := rfl

private theorem map_ok {α β : Type} {f : α → β} {result : Result α} {value : β}
    (mapped : result.map f = .ok value) : ∃ inner, result = .ok inner ∧ f inner = value := by
  cases result with
  | error status => cases mapped
  | ok inner => exact ⟨inner, rfl, Except.ok.inj mapped⟩

/-- The shared loop over the tokens leaves the payloads alone. -/
theorem token_tokens_eq {γ : Type} (memory : Memory) (config : DfaConfig) (payloads : List γ)
    (tokens : List TokenId) (state : Nat) (growth : Growth) :
    insertTokens memory config tokens state (growth.with payloads) =
      (TokenDfaBuild.insertTokens memory config tokens state growth).map
        fun (last, grown) => (last, grown.with payloads) := by
  induction tokens generalizing state growth with
  | nil => rfl
  | cons token rest ih =>
    -- one turn of the shared loop, read in terms of the growth
    have known (next : Nat) := ih next growth
    have grown := ih growth.trie.length (growth.addChild state token)
    simp only [Growth.with, Growth.addChild] at known grown
    simp only [insertTokens, TokenDfaBuild.insertTokens, Growth.with, Growth.addChild, Builder.grow]
    cases SortedMap.find (nodeAt growth.trie state).children token with
    | some next => simp only [known, apply_ite (Except.map _), failed_map]
    | none => simp only [grown, apply_ite (Except.map _), failed_map]

/-- Two checks of one outcome, made one after the other or at once. -/
theorem action_tokens_eq (memory : Memory) (config : DfaConfig) (tokens : List TokenId)
    (state : Nat) (growth : Growth) :
    ActionDfaBuild.insertTokens memory config tokens state growth =
      TokenDfaBuild.insertTokens memory config tokens state growth := by
  induction tokens generalizing state growth with
  | nil => rfl
  | cons token rest ih =>
    simp only [ActionDfaBuild.insertTokens, TokenDfaBuild.insertTokens, ih, ite_or]

/-- The ids in the set are those of the choices so far. -/
theorem token_entries_eq (memory : Memory) (config : DfaConfig) (language : List EncodedChoice)
    (progress : TokenDfaBuild.Progress)
    (seen : ∀ id, id ∈ progress.choiceIds ↔ id ∈ progress.choices) :
    insertEntries memory config reservedChoice language
        (progress.growth.with progress.choices) =
      (TokenDfaBuild.insertEntries memory config language progress).map
        fun last => last.growth.with last.choices := by
  induction language generalizing progress with
  | nil => rfl
  | cons encoded rest ih =>
    have checks : (reservedChoice encoded.payload = true ∨ encoded.tokens = [] ∨
        encoded.tokens.length > config.maximumSequenceTokens.toNat ∨
        encoded.payload ∈ progress.choices) ↔
        (encoded.payload.toNat = noTerminal ∨ encoded.tokens = [] ∨
        encoded.tokens.length > config.maximumSequenceTokens.toNat ∨
        encoded.payload ∈ progress.choiceIds) := by
      rw [seen, reservedChoice, decide_eq_true_eq]
    have walk := token_tokens_eq memory config progress.choices encoded.tokens 0
      { progress.growth with point := progress.growth.point + 1 }
    simp only [insertEntries, TokenDfaBuild.insertEntries, Growth.with] at walk ⊢
    by_cases refused : encoded.payload.toNat = noTerminal ∨ encoded.tokens = [] ∨
        encoded.tokens.length > config.maximumSequenceTokens.toNat ∨
        encoded.payload ∈ progress.choiceIds
    · rw [if_pos refused, if_pos (checks.mpr refused), failed_map]
    rw [if_neg refused, if_neg (mt checks.mp refused), walk]
    cases TokenDfaBuild.insertTokens memory config encoded.tokens 0
        { progress.growth with point := progress.growth.point + 1 } with
    | error status => simp only [failed_map, apply_ite (Except.map _)]
    | ok last =>
      obtain ⟨state, growth⟩ := last
      have behind := ih ⟨growth.close state progress.choices.length,
        progress.choices ++ [encoded.payload], encoded.payload :: progress.choiceIds⟩ (by
          intro id
          rw [List.mem_cons, List.mem_append, List.mem_singleton, seen, or_comm])
      simp only [Growth.with, Growth.close] at behind
      simp only [done_map, Builder.mark, behind, apply_ite (Except.map _), failed_map,
        Growth.close]

theorem action_key_inj (left right : Action) :
    ActionDfaBuild.key left = ActionDfaBuild.key right ↔ left = right := by
  constructor
  · intro same
    obtain ⟨kind, quantity, priceTick, _⟩ := left
    simp only [ActionDfaBuild.key, Prod.mk.injEq] at same
    obtain ⟨rfl, rfl, rfl⟩ := same
    rfl
  · exact fun same => same ▸ rfl

/-- The keys in the set are those of the actions so far. -/
theorem action_entries_eq (memory : Memory) (config : DfaConfig) (language : List EncodedAction)
    (progress : ActionDfaBuild.Progress)
    (seen : ∀ action, ActionDfaBuild.key action ∈ progress.actionKeys ↔
      action ∈ progress.actions) :
    insertEntries memory config (fun _ => false) language
        (progress.growth.with progress.actions) =
      (ActionDfaBuild.insertEntries memory config language progress).map
        fun last => last.growth.with last.actions := by
  induction language generalizing progress with
  | nil => rfl
  | cons encoded rest ih =>
    have walk := token_tokens_eq memory config progress.actions encoded.tokens 0
      { progress.growth with point := progress.growth.point + 1 }
    rw [← action_tokens_eq] at walk
    simp only [insertEntries, ActionDfaBuild.insertEntries, Growth.with] at walk ⊢
    -- the shared program asks for a new payload together with the token count
    by_cases counted : encoded.tokens = [] ∨
        encoded.tokens.length > config.maximumSequenceTokens.toNat
    · rw [if_pos counted, if_pos (by tauto), failed_map]
    by_cases repeated : encoded.payload ∈ progress.actions
    · rw [if_neg counted, if_pos ((seen _).mpr repeated), if_pos (by tauto), failed_map]
    have fresh : ¬(false = true ∨ encoded.tokens = [] ∨
        encoded.tokens.length > config.maximumSequenceTokens.toNat ∨
        encoded.payload ∈ progress.actions) := by
      rintro (refused | empty | long | known)
      · cases refused
      · exact counted (.inl empty)
      · exact counted (.inr long)
      · exact repeated known
    rw [if_neg counted, if_neg (mt (seen _).mp repeated), if_neg fresh, walk]
    cases ActionDfaBuild.insertTokens memory config encoded.tokens 0
        { progress.growth with point := progress.growth.point + 1 } with
    | error status => simp only [failed_map, apply_ite (Except.map _)]
    | ok last =>
      obtain ⟨state, growth⟩ := last
      have behind := ih ⟨growth.close state progress.actions.length,
        progress.actions ++ [encoded.payload],
        ActionDfaBuild.key encoded.payload :: progress.actionKeys⟩ (by
          intro action
          rw [List.mem_cons, List.mem_append, List.mem_singleton, seen, action_key_inj, or_comm])
      simp only [Growth.with, Growth.close] at behind
      simp only [done_map, Builder.mark, behind, apply_ite (Except.map _), failed_map,
        Growth.close]

/-- The builder of token automata is the shared program that refuses one id. -/
theorem token_build_eq (memory : Memory) (config : TokenDfaConfig)
    (language : List EncodedChoice) :
    TokenDfa.build memory language config = TokenDfaBuild.build memory config language := by
  have entries := token_entries_eq memory config language ⟨⟨[.blank], 0, 2⟩, [], []⟩ (by simp)
  simp only [TokenDfa.build, build, TokenDfaBuild.build]
  rw [entries]
  cases TokenDfaBuild.insertEntries memory config language ⟨⟨[.blank], 0, 2⟩, [], []⟩ <;> rfl

/-- The builder of action automata is the shared program that refuses no payload. -/
theorem action_build_eq (memory : Memory) (config : ActionDfaConfig)
    (language : List EncodedAction) :
    ActionDfa.build memory language config = ActionDfaBuild.build memory config language := by
  have entries := action_entries_eq memory config language ⟨⟨[.blank], 0, 2⟩, [], []⟩ (by simp)
  simp only [ActionDfa.build, build, ActionDfaBuild.build]
  rw [entries]
  cases ActionDfaBuild.insertEntries memory config language ⟨⟨[.blank], 0, 2⟩, [], []⟩ <;> rfl

/-! ## Renamed payloads -/

section Renaming

variable {γ δ : Type} (ids : γ → δ)

def Encoded.rename (encoded : Encoded γ) : Encoded δ := ⟨ids encoded.payload, encoded.tokens⟩

def Builder.rename (builder : Builder γ) : Builder δ :=
  ⟨builder.trie, builder.payloads.map ids, builder.arcCount, builder.point⟩

def TrieDfa.rename (dfa : TrieDfa γ) : TrieDfa δ := ⟨dfa.states, dfa.arcs, dfa.payloads.map ids⟩

theorem insert_tokens_rename (memory : Memory) (config : DfaConfig) (tokens : List TokenId)
    (state : Nat) (builder : Builder γ) :
    insertTokens memory config tokens state (builder.rename ids) =
      (insertTokens memory config tokens state builder).map
        fun (last, grown) => (last, grown.rename ids) := by
  have same := token_tokens_eq memory config (builder.payloads.map ids) tokens state
    ⟨builder.trie, builder.arcCount, builder.point⟩
  have plain := token_tokens_eq memory config builder.payloads tokens state
    ⟨builder.trie, builder.arcCount, builder.point⟩
  -- both loops grow one and the same trie
  rw [Builder.rename, same, plain]
  cases TokenDfaBuild.insertTokens memory config tokens state
    ⟨builder.trie, builder.arcCount, builder.point⟩ <;> rfl

/-- A renaming that tells the payloads of some entries apart. -/
def Separates (language : List (Encoded γ)) : Prop :=
  ∀ left ∈ language, ∀ right ∈ language, ids left.payload = ids right.payload →
    left.payload = right.payload

variable [DecidableEq γ] [DecidableEq δ]

/-- The entries read so far and those to come make up the language. -/
theorem insert_entries_rename (memory : Memory) (config : DfaConfig) (reserved : γ → Bool)
    (refused : δ → Bool) (language rest : List (Encoded γ)) (builder : Builder γ)
    (separates : Separates ids language)
    (same : ∀ encoded ∈ language, refused (ids encoded.payload) = reserved encoded.payload)
    (ahead : ∀ encoded ∈ rest, encoded ∈ language)
    (behind : ∀ payload ∈ builder.payloads, ∃ encoded ∈ language, encoded.payload = payload) :
    insertEntries memory config refused (rest.map (Encoded.rename ids)) (builder.rename ids) =
      (insertEntries memory config reserved rest builder).map (Builder.rename ids) := by
  induction rest generalizing builder with
  | nil => rfl
  | cons encoded rest ih =>
    have member := ahead encoded (by simp)
    -- the renaming separates the payloads of the language, so a repetition stays one
    have seen : ids encoded.payload ∈ builder.payloads.map ids ↔
        encoded.payload ∈ builder.payloads := by
      constructor
      · intro listed
        obtain ⟨payload, known, equal⟩ := List.mem_map.mp listed
        obtain ⟨other, otherMember, rfl⟩ := behind payload known
        rwa [separates encoded member other otherMember equal.symm]
      · exact List.mem_map_of_mem
    -- both sides refuse the entry for the same reasons
    have checks : (refused (ids encoded.payload) = true ∨ encoded.tokens = [] ∨
        encoded.tokens.length > config.maximumSequenceTokens.toNat ∨
        ids encoded.payload ∈ builder.payloads.map ids) ↔
        (reserved encoded.payload = true ∨ encoded.tokens = [] ∨
        encoded.tokens.length > config.maximumSequenceTokens.toNat ∨
        encoded.payload ∈ builder.payloads) := by
      rw [seen, same encoded member]
    have walk := insert_tokens_rename ids memory config encoded.tokens 0
      { builder with point := builder.point + 1 }
    simp only [Builder.rename] at walk
    simp only [List.map_cons, insertEntries, Encoded.rename, Builder.rename]
    by_cases invalid : reserved encoded.payload = true ∨ encoded.tokens = [] ∨
        encoded.tokens.length > config.maximumSequenceTokens.toNat ∨
        encoded.payload ∈ builder.payloads
    · rw [if_pos invalid, if_pos (checks.mpr invalid), failed_map]
    rw [if_neg invalid, if_neg (mt checks.mp invalid), walk]
    cases grown : insertTokens memory config encoded.tokens 0
        { builder with point := builder.point + 1 } with
    | error status => simp only [failed_map, apply_ite (Except.map _)]
    | ok last =>
      obtain ⟨state, after⟩ := last
      -- growing the trie leaves the payloads as they were
      have kept : after.payloads = builder.payloads := by
        have plain := token_tokens_eq memory config builder.payloads encoded.tokens 0
          ⟨builder.trie, builder.arcCount, builder.point + 1⟩
        simp only [Growth.with] at plain
        rw [plain] at grown
        obtain ⟨⟨reached, growth⟩, _, closed⟩ := map_ok grown
        cases closed
        rfl
      have next := ih (after.mark state encoded.payload)
        (fun other listed => ahead other (by simp [listed])) (by
          intro payload listed
          rcases List.mem_append.mp listed with earlier | last
          · exact behind payload (kept ▸ earlier)
          · exact ⟨encoded, member, (List.mem_singleton.mp last).symm⟩)
      simp only [Builder.rename, Builder.mark, List.map_append, List.map_cons,
        List.map_nil] at next
      simp only [done_map, Builder.mark, next, apply_ite (Except.map _), failed_map,
        List.length_map]

/-- The shared program commutes with a renaming of the payloads. -/
theorem build_rename (memory : Memory) (config : DfaConfig) (reserved : γ → Bool)
    (refused : δ → Bool) (language : List (Encoded γ)) (separates : Separates ids language)
    (same : ∀ encoded ∈ language, refused (ids encoded.payload) = reserved encoded.payload) :
    build memory config refused (language.map (Encoded.rename ids)) =
      (build memory config reserved language).map (TrieDfa.rename ids) := by
  have entries := insert_entries_rename ids memory config reserved refused language language
    ⟨[.blank], [], 0, 2⟩ separates same (fun _ listed => listed) (by simp)
  simp only [Builder.rename, List.map_nil] at entries
  simp only [build, entries, List.map_eq_nil_iff, List.length_map]
  cases insertEntries memory config reserved language ⟨[.blank], [], 0, 2⟩ with
  | error status => simp only [failed_map, apply_ite (Except.map _)]
  | ok builder =>
    simp only [done_map, apply_ite (Except.map _), failed_map, Builder.rename, List.length_map,
      TrieDfa.rename]

end Renaming

/-! ## Agreement of the builders -/

/-- The two automata have one table of states and one of arcs and answer alike; where one decodes
an action, the other decodes its id. -/
structure SameAutomaton (ids : Action → ChoiceId) (actions : ActionDfa) (choices : TokenDfa) :
    Prop where
  states : actions.states = choices.states
  arcs : actions.arcs = choices.arcs
  allowed : ∀ state, actions.allowed state = choices.allowed state
  advance : ∀ state token, actions.advance state token = choices.advance state token
  terminal : ∀ state, actions.terminal state = choices.terminal state
  decoded : ∀ state, choices.decodeTerminal state = (actions.decodeTerminal state).map ids

theorem same_automaton_rename (ids : Action → ChoiceId) (dfa : ActionDfa) :
    SameAutomaton ids dfa (dfa.rename ids) := by
  have allowed (state : GrammarState) : dfa.allowed state = (dfa.rename ids).allowed state := rfl
  constructor
  case states => rfl
  case arcs => rfl
  case allowed => exact allowed
  case advance =>
    intro state token
    rw [TrieDfa.advance, TrieDfa.advance, allowed]
  case terminal => exact fun state => rfl
  case decoded =>
    intro state
    simp only [TrieDfa.decodeTerminal, TrieDfa.rename, List.getElem?_map]
    cases dfa.states[state.value]? with
    | none => rfl
    | some record =>
      dsimp only
      split
      · rfl
      · cases dfa.payloads[record.terminal]? <;> rfl

/-- On every language, under every renaming of its actions to ids that tells them apart and
avoids the reserved one, the builders fail alike or build automata that agree. -/
theorem builders_agree (memory : Memory) (config : DfaConfig) (language : List EncodedAction)
    (ids : Action → ChoiceId) (separates : Separates ids language)
    (usable : ∀ encoded ∈ language, (ids encoded.payload).toNat ≠ noTerminal) :
    (∃ status, ActionDfaBuild.build memory config language = .error status ∧
      TokenDfaBuild.build memory config (language.map (Encoded.rename ids)) = .error status) ∨
    ∃ actions choices, ActionDfaBuild.build memory config language = .ok actions ∧
      TokenDfaBuild.build memory config (language.map (Encoded.rename ids)) = .ok choices ∧
      SameAutomaton ids actions choices := by
  have renamed := build_rename ids memory config (fun _ => false) reservedChoice language
    separates fun encoded member => by simp [reservedChoice, usable encoded member]
  have actionsEq := action_build_eq memory config language
  have choicesEq := token_build_eq memory config (language.map (Encoded.rename ids))
  rw [ActionDfa.build] at actionsEq
  rw [TokenDfa.build, renamed, actionsEq] at choicesEq
  rw [← choicesEq]
  cases ActionDfaBuild.build memory config language with
  | error status => exact .inl ⟨status, rfl, rfl⟩
  | ok actions =>
    exact .inr ⟨actions, actions.rename ids, rfl, rfl, same_automaton_rename ids actions⟩

/-- Two actions named by two ids. -/
theorem builders_agree_two_actions :
    ∃ actions choices,
      ActionDfaBuild.build (fun _ => true) ⟨100, 12, 4096, 65536, 65536⟩
        [⟨.hold, [9]⟩, ⟨⟨.buyYes, 1, 1, by decide⟩, [2, 5]⟩] = .ok actions ∧
      TokenDfaBuild.build (fun _ => true) ⟨100, 12, 4096, 65536, 65536⟩
        [⟨7, [9]⟩, ⟨4, [2, 5]⟩] = .ok choices ∧
      SameAutomaton (fun action => if action.kind = .hold then 7 else 4) actions choices := by
  have agree := builders_agree (fun _ => true) ⟨100, 12, 4096, 65536, 65536⟩
    [⟨.hold, [9]⟩, ⟨⟨.buyYes, 1, 1, by decide⟩, [2, 5]⟩]
    (fun action => if action.kind = .hold then 7 else 4) (by unfold Separates; decide) (by decide)
  rcases agree with ⟨status, failed, _⟩ | ⟨actions, choices, built, named, same⟩
  · exact absurd failed (by intro failed; cases failed)
  · exact ⟨actions, choices, built, named, same⟩

end MarketForge.Grammar
