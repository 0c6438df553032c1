import MarketForge.Grammar.TrieGrowth

/-!
# Recognition

A successful build is a flattened trie of the language (`build_recognises`). Reading the tables
back gives the children of a node, so advancing through a list of tokens follows the words of the
trie, and a terminal state decodes to the entry whose tokens lead to it.
-/
namespace MarketForge.Grammar

variable {γ : Type}

/-! ### The tables -/

/-- The records of nodes whose arcs start at `first`. -/
def records : Nat → List TrieNode → List StateRecord
  | _, [] => []
  | first, node :: rest =>
    ⟨first, node.children.length, node.terminal⟩ :: records (first + (arcsOf node).length) rest

theorem flatten_eq (trie : List TrieNode) (states : List StateRecord) (arcs : List GrammarArc) :
    flatten trie states arcs =
      (states ++ records arcs.length trie, arcs ++ trie.flatMap arcsOf) := by
  induction trie generalizing states arcs with
  | nil => simp [flatten, records]
  | cons node rest ih =>
    rw [flatten, ih]
    simp [records]

theorem records_getElem? (first : Nat) (trie : List TrieNode) (n : Nat) :
    (records first trie)[n]? = (trie[n]?).map fun node =>
      ⟨first + ((trie.take n).flatMap arcsOf).length, node.children.length, node.terminal⟩ := by
  induction trie generalizing first n with
  | nil => simp [records]
  | cons node rest ih =>
    cases n with
    | zero => simp [records]
    | succ n =>
      rw [records, List.getElem?_cons_succ, ih, List.getElem?_cons_succ, List.take_succ_cons,
        List.flatMap_cons, List.length_append]
      simp only [Nat.add_assoc]

theorem records_length (first : Nat) (trie : List TrieNode) :
    (records first trie).length = trie.length := by
  induction trie generalizing first with
  | nil => rfl
  | cons node rest ih => exact congrArg (· + 1) (ih _)

/-- An automaton whose tables are those of a trie. -/
structure Flattens (trie : List TrieNode) (dfa : TrieDfa γ) : Prop where
  states : dfa.states = records 0 trie
  arcs : dfa.arcs = trie.flatMap arcsOf

namespace Flattens

variable {trie : List TrieNode} {dfa : TrieDfa γ}

theorem state (flattens : Flattens trie dfa) (n : Nat) :
    dfa.states[n]? = (trie[n]?).map fun node =>
      ⟨((trie.take n).flatMap arcsOf).length, node.children.length, node.terminal⟩ := by
  rw [flattens.states, records_getElem?]
  simp only [Nat.zero_add]

/-- The arcs of a state are the children of its node. -/
theorem allowed (flattens : Flattens trie dfa) {n : Nat} {node : TrieNode}
    (at_n : trie[n]? = some node) : dfa.allowed ⟨n⟩ = .ok (arcsOf node) := by
  have split : dfa.arcs = (trie.take n).flatMap arcsOf ++
      (arcsOf node ++ (trie.drop (n + 1)).flatMap arcsOf) := by
    obtain ⟨inside, value⟩ := List.getElem?_eq_some_iff.mp at_n
    rw [flattens.arcs, ← List.flatMap_cons, ← List.flatMap_append, ← value,
      List.getElem_cons_drop, List.take_append_drop]
  have width : node.children.length = (arcsOf node).length := by simp [arcsOf]
  simp only [TrieDfa.allowed, flattens.state, at_n, Option.map_some]
  rw [split, List.drop_left, width, List.take_left]

theorem arcsOf_find (node : TrieNode) (token : TokenId) :
    (arcsOf node).find? (fun arc => decide (arc.token = token)) =
      (SortedMap.find node.children token).map fun next => ⟨token, ⟨next⟩⟩ := by
  rw [arcsOf, List.find?_map, SortedMap.find]
  simp only [Function.comp_def, Option.map_map]
  cases found : node.children.find? fun e => decide (e.1 = token) with
  | none => rfl
  | some e =>
    have same : e.1 = token := by simpa using List.find?_some found
    simp [same]

/-- Advancing takes the child under the token, if there is one. -/
theorem advance_iff (flattens : Flattens trie dfa) {n : Nat} {node : TrieNode}
    (at_n : trie[n]? = some node) (sorted : SortedMap.Sorted node.children) (token : TokenId)
    (s : GrammarState) :
    dfa.advance ⟨n⟩ token = .ok s ↔ SortedMap.find node.children token = some s.value := by
  have ordered : (arcsOf node).Pairwise fun a b => a.token ≤ b.token := by
    rw [arcsOf, List.pairwise_map]
    exact sorted.imp fun below => Nat.le_of_lt below
  have search := SortedMap.lowerBound_find GrammarArc.token ordered token
  rw [arcsOf_find] at search
  rw [TrieDfa.advance, flattens.allowed at_n]
  dsimp only
  split
  next absent =>
    rw [absent] at search
    have none_found : SortedMap.find node.children token = none := by
      simpa using search.symm
    simp [none_found]
  next arc present =>
    rw [present] at search
    split
    next different =>
      have none_found : SortedMap.find node.children token = none := by
        simpa [Option.filter, different] using search.symm
      simp [none_found]
    next same =>
      rw [not_not] at same
      have found : (SortedMap.find node.children token).map
          (fun next => (⟨token, ⟨next⟩⟩ : GrammarArc)) = some arc := by
        simpa [Option.filter, same] using search.symm
      obtain ⟨next, child, rfl⟩ := Option.map_eq_some_iff.mp found
      rw [child]
      obtain ⟨value⟩ := s
      simp

end Flattens

/-! ### Words -/

/-- An automaton that recognises a language: its states stand for distinct words, advancing
appends a token to the word, and the words of the terminal states are the entries. -/
structure Recognises (language : List (Encoded γ)) (dfa : TrieDfa γ)
    (words : List (List TokenId)) : Prop where
  size : words.length = dfa.states.length
  root : words[0]? = some []
  distinct : words.Nodup
  closed : ∀ w u, w ++ u ∈ words → w ∈ words
  listed : ∀ e ∈ language, e.tokens ∈ words
  step : ∀ (n : Nat) w token s, words[n]? = some w →
    (dfa.advance ⟨n⟩ token = .ok s ↔ words[s.value]? = some (w ++ [token]))
  decodes : ∀ (n : Nat) w id, words[n]? = some w →
    (dfa.terminal ⟨n⟩ = true ∧ dfa.decodeTerminal ⟨n⟩ = .ok id ↔ ⟨id, w⟩ ∈ language)
  decodable : ∀ s, dfa.terminal s = true → ∀ w, words[s.value]? = some w →
    ∃ id, dfa.decodeTerminal s = .ok id
  undecoded : ∀ s, dfa.terminal s = false → ∃ status, dfa.decodeTerminal s = .error status

theorem recognises_of_built {language : List (Encoded γ)} {builder : Builder γ}
    {words : List (List TokenId)} {dfa : TrieDfa γ} (built : Built language builder words)
    (few : language.length ≤ noTerminal) (flattens : Flattens builder.trie dfa)
    (payloads : dfa.payloads = builder.payloads) : Recognises language dfa words := by
  have represents := built.represents
  -- a word of the trie has its node, and an index of a payload its entry
  have node : ∀ (n : Nat) w, words[n]? = some w →
      builder.trie[n]? = some (nodeAt builder.trie n) := by
    intro n w at_n
    have inside := (List.getElem?_eq_some_iff.mp at_n).1
    rw [represents.size] at inside
    rw [nodeAt, List.getD_eq_getElem?_getD, List.getElem?_eq_getElem inside]
    rfl
  have entry : ∀ i : Nat, dfa.payloads[i]? = (language[i]?).map Encoded.payload := by
    intro i
    rw [payloads, built.payloads, List.getElem?_map]
  refine ⟨?_, represents.root, represents.distinct, represents.closed_append, built.listed,
    ?_, ?_, ?_, ?_⟩
  · rw [flattens.states, records_length, represents.size]
  · intro n w token s at_n
    -- the arcs of a flattened node are its children
    rw [flattens.advance_iff (node n w at_n) (represents.sorted n)]
    exact represents.child n s.value w token at_n
  · intro n w id at_n
    simp only [TrieDfa.terminal, TrieDfa.decodeTerminal, flattens.state, node n w at_n,
      Option.map_some, decide_eq_true_eq]
    constructor
    · rintro ⟨marked, decoded⟩
      rw [if_neg marked] at decoded
      obtain ⟨e, at_i, tokens⟩ :=
        Option.map_eq_some_iff.mp ((built.marks n w _ at_n marked).mp rfl)
      rw [entry, at_i] at decoded
      obtain rfl := Except.ok.inj decoded
      obtain rfl := tokens
      exact List.mem_of_getElem? at_i
    · intro member
      obtain ⟨i, at_i⟩ := List.mem_iff_getElem?.mp member
      have inside := (List.getElem?_eq_some_iff.mp at_i).1
      have proper : i ≠ noTerminal := by omega
      have marked := (built.marks n w i at_n proper).mpr (by rw [at_i]; rfl)
      rw [marked]
      refine ⟨proper, ?_⟩
      rw [if_neg proper, entry, at_i]
      rfl
  · rintro ⟨n⟩ marked w at_n
    simp only [TrieDfa.terminal, TrieDfa.decodeTerminal, flattens.state, node n w at_n,
      Option.map_some, decide_eq_true_eq] at marked ⊢
    obtain ⟨e, at_i, _⟩ :=
      Option.map_eq_some_iff.mp ((built.marks n w _ at_n marked).mp rfl)
    rw [if_neg marked, entry, at_i]
    exact ⟨e.payload, rfl⟩
  · intro s unmarked
    simp only [TrieDfa.terminal, TrieDfa.decodeTerminal] at unmarked ⊢
    split
    next => exact ⟨_, rfl⟩
    next record at_n =>
      rw [at_n] at unmarked
      rw [if_pos (by simpa using unmarked)]
      exact ⟨_, rfl⟩

/-- A successful build flattens the trie that the entry loop left. -/
theorem build_flattens [DecidableEq γ] {memory : Memory} {config : DfaConfig}
    {reserved : γ → Bool} {language : List (Encoded γ)} {dfa : TrieDfa γ}
    (built : build memory config reserved language = .ok dfa) :
    ∃ builder words, Built language builder words ∧ Flattens builder.trie dfa ∧
      dfa.payloads = builder.payloads ∧
      insertEntries memory config reserved language ⟨[.blank], [], 0, 2⟩ = .ok builder ∧
      language ≠ [] ∧ language.length ≤ config.maximumEntries.toNat := by
  rw [build] at built
  split at built
  next => cases built
  next present =>
    split at built
    next => cases built
    next few =>
      split at built
      next => cases built
      next =>
        split at built
        next => cases built
        next builder inserted =>
          obtain ⟨words, grown⟩ := insertEntries_built Built.initial inserted
          split at built
          next => cases built
          next =>
            simp only [flatten_eq] at built
            split at built
            next => cases built
            next =>
              obtain rfl := Except.ok.inj built
              rw [not_or] at present
              exact ⟨builder, words, grown, ⟨rfl, rfl⟩, rfl, inserted, present.1,
                Nat.not_lt.mp few⟩

/-- A successful build recognises its language. -/
theorem build_recognises [DecidableEq γ] {memory : Memory} {config : DfaConfig}
    {reserved : γ → Bool} {language : List (Encoded γ)} {dfa : TrieDfa γ}
    (built : build memory config reserved language = .ok dfa) :
    ∃ words, Recognises language dfa words := by
  obtain ⟨builder, words, grown, flattens, payloads, _, _, few⟩ := build_flattens built
  refine ⟨words, recognises_of_built grown ?_ flattens payloads⟩
  -- The number of entries fits below the mark.
  have limit := config.maximumEntries.toNat_lt
  simp only [noTerminal, UInt32.size]
  omega

namespace Recognises

variable {language : List (Encoded γ)} {dfa : TrieDfa γ} {words : List (List TokenId)}

/-- Advancing through tokens from the state of a word ends at the state of the longer word. -/
theorem advanceAll_iff (recognises : Recognises language dfa words) {n : Nat}
    {v : List TokenId} (at_n : words[n]? = some v) (rest : List TokenId) (s : GrammarState) :
    dfa.advanceAll ⟨n⟩ rest = .ok s ↔ words[s.value]? = some (v ++ rest) := by
  induction rest generalizing n v with
  | nil =>
    rw [List.append_nil]
    constructor
    · intro arrived
      obtain rfl := Except.ok.inj arrived
      exact at_n
    · intro at_s
      have inside := (List.getElem?_eq_some_iff.mp at_n).1
      have same : n = s.value :=
        (List.getElem?_inj inside recognises.distinct).mp (at_n.trans at_s.symm)
      obtain rfl := same
      rfl
  | cons token rest ih =>
    rw [TrieDfa.advanceAll]
    have whole : v ++ token :: rest = (v ++ [token]) ++ rest := by simp
    split
    next status stuck =>
      -- Had the longer word a state, its first token would have been taken.
      refine iff_of_false (by simp) fun at_s => ?_
      rw [whole] at at_s
      have known := recognises.closed _ _ (List.mem_of_getElem? at_s)
      obtain ⟨m, at_m⟩ := List.mem_iff_getElem?.mp known
      rw [(recognises.step n v token ⟨m⟩ at_n).mpr at_m] at stuck
      cases stuck
    next next taken =>
      rw [whole]
      exact ih ((recognises.step n v token next at_n).mp taken)

end Recognises

/-- The automaton built from a language recognises exactly the language: tokens lead from the
root to a terminal state that decodes to an id exactly if the id is an entry with these tokens,
and all other token lists get stuck or end in a state that is not terminal and does not
decode. -/
theorem token_dfa_exact {memory : Memory} {language : List EncodedChoice}
    {config : TokenDfaConfig} {dfa : TokenDfa}
    (built : TokenDfa.build memory language config = .ok dfa) (w : List TokenId) :
    (∀ id, (∃ s, dfa.advanceAll TrieDfa.root w = .ok s ∧ dfa.terminal s = true ∧
        dfa.decodeTerminal s = .ok id) ↔ ⟨id, w⟩ ∈ language) ∧
      ((∀ id, ⟨id, w⟩ ∉ language) →
        (∃ status, dfa.advanceAll TrieDfa.root w = .error status) ∨
          ∃ s, dfa.advanceAll TrieDfa.root w = .ok s ∧ dfa.terminal s = false ∧
            ∃ status, dfa.decodeTerminal s = .error status) := by
  obtain ⟨words, recognises⟩ := build_recognises built
  have follows := recognises.advanceAll_iff recognises.root w
  simp only [List.nil_append] at follows
  constructor
  · intro id
    constructor
    · rintro ⟨s, arrived, terminal, decoded⟩
      exact (recognises.decodes _ _ _ ((follows s).mp arrived)).mp ⟨terminal, decoded⟩
    · intro member
      have known : w ∈ words := recognises.listed _ member
      obtain ⟨n, at_n⟩ := List.mem_iff_getElem?.mp known
      exact ⟨⟨n⟩, (follows ⟨n⟩).mpr at_n, (recognises.decodes n w id at_n).mpr member⟩
  · intro foreign
    cases arrived : dfa.advanceAll TrieDfa.root w with
    | error status => exact .inl ⟨status, rfl⟩
    | ok s =>
      have at_s := (follows s).mp arrived
      refine .inr ⟨s, rfl, ?_⟩
      have unmarked : dfa.terminal s = false := by
        by_contra marked
        rw [Bool.not_eq_false] at marked
        obtain ⟨id, decoded⟩ := recognises.decodable s marked w at_s
        exact foreign id ((recognises.decodes _ _ _ at_s).mp ⟨marked, decoded⟩)
      exact ⟨unmarked, recognises.undecoded s unmarked⟩

/-- Two choices that share their first token. -/
theorem token_dfa_exact_two_choices :
    let dfa : TokenDfa :=
      ⟨[⟨0, 1, noTerminal⟩, ⟨1, 2, noTerminal⟩, ⟨3, 0, 0⟩, ⟨3, 0, 1⟩],
        [⟨1, ⟨1⟩⟩, ⟨2, ⟨2⟩⟩, ⟨3, ⟨3⟩⟩], [7, 9]⟩
    ∃ s, dfa.advanceAll TrieDfa.root [1, 3] = .ok s ∧ dfa.terminal s = true ∧
      dfa.decodeTerminal s = .ok 9 := by
  have built : TokenDfa.build (fun _ => true) [⟨7, [1, 2]⟩, ⟨9, [1, 3]⟩] ⟨5, 2, 9, 9, 9⟩ =
      .ok ⟨[⟨0, 1, noTerminal⟩, ⟨1, 2, noTerminal⟩, ⟨3, 0, 0⟩, ⟨3, 0, 1⟩],
        [⟨1, ⟨1⟩⟩, ⟨2, ⟨2⟩⟩, ⟨3, ⟨3⟩⟩], [7, 9]⟩ := by decide +kernel
  exact ((token_dfa_exact built [1, 3]).1 9).mpr (by decide)

end MarketForge.Grammar
