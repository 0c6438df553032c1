import MarketForge.Grammar.WellFormed

/-!
# What a build accepts

With memory at hand, a build succeeds exactly for the well-formed languages, and its tables have
one state for each prefix of an entry and one arc for each prefix that is not empty
(`build_accepts`). The limits are checked while the trie grows. They are met to the end if they
are met by the last trie, because the words so far are among its words.
-/
namespace MarketForge.Grammar

variable {γ : Type} {config : DfaConfig}

/-! ### Counts -/

/-- Rewriting a node changes the number of arcs as it changes its children. -/
theorem arcs_modify (trie : List TrieNode) (f : TrieNode → TrieNode) {state : Nat}
    (inside : state < trie.length) :
    ((trie.modify state f).flatMap arcsOf).length + (nodeAt trie state).children.length =
      (trie.flatMap arcsOf).length + (f (nodeAt trie state)).children.length := by
  induction trie generalizing state with
  | nil => simp at inside
  | cons node rest ih =>
    cases state with
    | zero =>
      simp [nodeAt, arcsOf]
      omega
    | succ state =>
      have rest_inside : state < rest.length := by simpa using inside
      have tail := ih rest_inside
      simp only [nodeAt, List.getD_cons_succ] at tail ⊢
      simp only [List.modify_succ_cons, List.flatMap_cons, List.length_append]
      omega

/-- The counts of a builder and the limits that they respect. -/
structure Counted (config : DfaConfig) (builder : Builder γ) : Prop where
  nodes : builder.arcCount + 1 = builder.trie.length
  tables : (builder.trie.flatMap arcsOf).length = builder.arcCount
  states : builder.trie.length ≤ config.maximumStates.toNat
  arcs : builder.arcCount ≤ config.maximumArcs.toNat

namespace Counted

variable {builder : Builder γ}

theorem initial (positive : config.maximumStates ≠ 0) :
    Counted config (⟨[.blank], [], 0, 2⟩ : Builder γ) where
  nodes := rfl
  tables := rfl
  states := by
    have nonzero : config.maximumStates.toNat ≠ 0 := fun zero =>
      positive (UInt32.toNat_inj.mp zero)
    simp only [List.length_singleton]
    omega
  arcs := Nat.zero_le _

theorem grow (counted : Counted config builder) {state : Nat} {token : TokenId}
    (inside : state < builder.trie.length)
    (absent : SortedMap.find (nodeAt builder.trie state).children token = none)
    (states : builder.trie.length < config.maximumStates.toNat)
    (arcs : builder.arcCount < config.maximumArcs.toNat) :
    Counted config (builder.grow state token) where
  nodes := by simp [Builder.grow, counted.nodes]
  tables := by
    have inside_grown : state < (builder.trie ++ [TrieNode.blank]).length := by
      simp
      omega
    have added := arcs_modify (builder.trie ++ [TrieNode.blank]) (fun node =>
      { node with children := SortedMap.emplace node.children token builder.trie.length })
      inside_grown
    rw [nodeAt_append_empty, SortedMap.length_emplace absent, List.flatMap_append,
      List.length_append, counted.tables] at added
    simp only [Builder.grow, withChild]
    simp [arcsOf, TrieNode.blank] at added ⊢
    omega
  states := by
    simp [Builder.grow]
    omega
  arcs := arcs

theorem mark (counted : Counted config builder) {state : Nat}
    (inside : state < builder.trie.length) (payload : γ) :
    Counted config (builder.mark state payload) where
  nodes := by simp [Builder.mark, counted.nodes]
  tables := by
    have kept := arcs_modify builder.trie
      (fun node => { node with terminal := builder.payloads.length }) inside
    rw [counted.tables] at kept
    exact Nat.add_right_cancel kept
  states := by
    simp only [Builder.mark, withTerminal_length]
    exact counted.states
  arcs := counted.arcs

end Counted

/-! ### One walk -/

/-- A list between a list and its extension by a token goes past the token, or is the first. -/
private theorem between {v w goal rest : List TokenId} {token : TokenId}
    (onward : (v ++ [token]) ++ rest = goal) (after : v.IsPrefix w) (before : w.IsPrefix goal) :
    w = v ∨ (v ++ [token]).IsPrefix w := by
  obtain ⟨u, rfl⟩ := after
  rw [← onward, List.append_assoc, List.prefix_append_right_inj] at before
  cases u with
  | nil => exact .inl (List.append_nil v)
  | cons first u =>
    rw [List.singleton_append, List.cons_prefix_cons] at before
    exact .inr ⟨u, by simp [before.1]⟩

/-- What a walk that succeeds has checked. -/
theorem insertTokens_checked {memory : Memory} {tokens v goal : List TokenId}
    {state final : Nat} {builder builder' : Builder γ} {words : List (List TokenId)}
    (walked : insertTokens memory config tokens state builder = .ok (final, builder'))
    (represents : Represents builder.trie words) (counted : Counted config builder)
    (at_state : words[state]? = some v) (spells : v ++ tokens = goal) :
    Counted config builder' ∧ (∀ t ∈ tokens, t < config.vocabularySize.toNat) ∧
      ∀ (n : Nat) w, words[n]? = some w → v.IsPrefix w → w.IsPrefix goal → w ≠ goal →
        (nodeAt builder.trie n).terminal = noTerminal := by
  induction tokens generalizing v state builder words with
  | nil =>
    obtain ⟨_, rfl⟩ := Prod.mk.inj (Except.ok.inj walked)
    rw [List.append_nil] at spells
    subst spells
    refine ⟨counted, by simp, fun n w _ after before other => ?_⟩
    exact absurd (before.eq_of_length_le after.length_le) other
  | cons token rest ih =>
    have onward : (v ++ [token]) ++ rest = goal := by simpa using spells
    have here : ∀ (n : Nat), words[n]? = some v → n = state := fun n at_n =>
      represents.index_unique at_n at_state
    rw [insertTokens_cons_iff] at walked
    obtain ⟨known, unmarked, ⟨next, found, walked⟩ | ⟨absent, states, arcs, _, walked⟩⟩ := walked
    · have at_next := (represents.child _ _ _ _ at_state).mp found
      obtain ⟨counted', inside, later⟩ := ih walked represents counted at_next onward
      refine ⟨counted', by simpa using ⟨known, inside⟩, fun n w at_n after before other => ?_⟩
      rcases between onward after before with rfl | past
      · rw [here n at_n]
        exact unmarked
      · exact later n w at_n past before other
    · have size := (List.getElem?_eq_some_iff.mp at_state).1
      rw [represents.size] at size
      have grown := Grown.grow represents at_state unmarked absent ⟨rest, onward⟩
      have at_new : (words ++ [v ++ [token]])[builder.trie.length]? = some (v ++ [token]) := by
        rw [← represents.size]
        simp
      obtain ⟨counted', inside, later⟩ := ih walked grown.represents
        (counted.grow size absent states arcs) at_new onward
      refine ⟨counted', by simpa using ⟨known, inside⟩, fun n w at_n after before other => ?_⟩
      rcases between onward after before with rfl | past
      · rw [here n at_n]
        exact unmarked
      · have kept := later n w (grown.kept n w at_n) past before other
        exact (grown.terminal n).symm.trans kept

/-- A walk succeeds if its tokens are in the vocabulary, no mark is on its way and the words,
with those of the walk, stay among a set that fits. -/
theorem insertTokens_succeeds {tokens v goal : List TokenId} {state : Nat}
    {builder : Builder γ} {words : List (List TokenId)} {known : Finset (List TokenId)}
    (represents : Represents builder.trie words) (counted : Counted config builder)
    (at_state : words[state]? = some v) (spells : v ++ tokens = goal)
    (inside : ∀ t ∈ tokens, t < config.vocabularySize.toNat)
    (unmarked : ∀ (n : Nat) w, words[n]? = some w → w.IsPrefix goal → w ≠ goal →
      (nodeAt builder.trie n).terminal = noTerminal)
    (among : ∀ w, w ∈ words ∨ w.IsPrefix goal → w ∈ known)
    (states : known.card ≤ config.maximumStates.toNat)
    (arcs : known.card ≤ config.maximumArcs.toNat + 1) :
    ∃ walked, insertTokens (fun _ => true) config tokens state builder = .ok walked := by
  induction tokens generalizing v state builder words with
  | nil => exact ⟨_, rfl⟩
  | cons token rest ih =>
    have onward : (v ++ [token]) ++ rest = goal := by simpa using spells
    have here := unmarked state v at_state ⟨token :: rest, spells⟩ (by
      rintro rfl
      simp at spells)
    simp only [List.mem_cons, forall_eq_or_imp] at inside
    simp only [insertTokens_cons_iff]
    cases found : SortedMap.find (nodeAt builder.trie state).children token with
    | some next =>
      have at_next := (represents.child _ _ _ _ at_state).mp found
      obtain ⟨walked, walk⟩ := ih represents counted at_next onward inside.2 unmarked among
      exact ⟨walked, inside.1, here, .inl ⟨next, rfl, walk⟩⟩
    | none =>
      have grown := Grown.grow represents at_state here found ⟨rest, onward⟩
      have at_new : (words ++ [v ++ [token]])[builder.trie.length]? = some (v ++ [token]) := by
        rw [← represents.size]
        simp
      have within : ∀ w ∈ words ++ [v ++ [token]], w ∈ known := fun w member =>
        among w (grown.new w member)
      -- The new word is one more of the set, so there is room for it.
      have room : builder.trie.length + 1 ≤ known.card := by
        have count := List.toFinset_card_of_nodup grown.represents.distinct
        have bounded := Finset.card_le_card fun w member => within w (List.mem_toFinset.mp member)
        rw [count, List.length_append, List.length_singleton, represents.size] at bounded
        exact bounded
      have size := (List.getElem?_eq_some_iff.mp at_state).1
      rw [represents.size] at size
      have nodes := counted.nodes
      have few_states : builder.trie.length < config.maximumStates.toNat := by omega
      have few_arcs : builder.arcCount < config.maximumArcs.toNat := by omega
      have later : ∀ (n : Nat) w, (words ++ [v ++ [token]])[n]? = some w → w.IsPrefix goal →
          w ≠ goal → (nodeAt (builder.grow state token).trie n).terminal = noTerminal := by
        intro n w at_n initial other
        rw [Builder.grow, grown.terminal]
        by_cases old : n < builder.trie.length
        · rw [List.getElem?_append_left (represents.size ▸ old)] at at_n
          exact unmarked n w at_n initial other
        · rw [nodeAt_of_le (Nat.not_lt.mp old)]
          rfl
      obtain ⟨walked, walk⟩ := ih grown.represents
        (counted.grow size found few_states few_arcs) at_new onward inside.2 later
        (fun w member => member.elim (within w) fun initial => among w (.inr initial))
      exact ⟨walked, inside.1, here, .inr ⟨rfl, few_states, few_arcs, by simp, walk⟩⟩

/-! ### The entry loop -/

section Entries

variable [DecidableEq γ] {reserved : γ → Bool} {entries remaining : List (Encoded γ)}
  {builder : Builder γ} {words : List (List TokenId)}

/-- What an entry loop that succeeds has checked. -/
theorem insertEntries_checked {memory : Memory} {final : Builder γ}
    (built : Built entries builder words) (counted : Counted config builder)
    (spelled : WellSpelled config reserved entries)
    (few : (entries ++ remaining).length ≤ noTerminal)
    (inserted : insertEntries memory config reserved remaining builder = .ok final) :
    Counted config final ∧ WellSpelled config reserved (entries ++ remaining) := by
  induction remaining generalizing entries builder words with
  | nil =>
    obtain rfl := Except.ok.inj inserted
    exact ⟨counted, by simpa using spelled⟩
  | cons encoded rest ih =>
    rw [insertEntries_cons_iff] at inserted
    obtain ⟨⟨free, present, short, unseen⟩, _, state, walked, walk, leaf, inserted⟩ := inserted
    have so_far : entries.length ≤ noTerminal := by
      rw [List.length_append] at few
      omega
    have root := built.represents.root
    obtain ⟨words', grown, at_final, _⟩ :=
      insertTokens_grown walk built.represents root (List.nil_append encoded.tokens)
    obtain ⟨counted', inside, passed⟩ :=
      insertTokens_checked walk built.represents ⟨counted.nodes, counted.tables, counted.states,
        counted.arcs⟩ root (List.nil_append encoded.tokens)
    have size := (List.getElem?_eq_some_iff.mp at_final).1
    rw [grown.represents.size] at size
    have before := (built.unmarked_iff so_far encoded.tokens).mp fun n w at_n initial other =>
      passed n w at_n List.nil_prefix initial other
    have after := (built.leaf_iff so_far grown at_final).mp leaf
    have apart : ∀ e ∈ entries, ¬ e.tokens.IsPrefix encoded.tokens ∧
        ¬ encoded.tokens.IsPrefix e.tokens := by
      refine fun e member => ⟨fun initial => after e member ?_, after e member⟩
      rw [before e member initial]
    rw [built.payloads] at unseen
    have longer := (wellSpelled_append_iff spelled encoded).mpr
      ⟨free, unseen, ⟨present, short, inside⟩, apart⟩
    obtain ⟨next_words, next⟩ := built.insert walk leaf.1 leaf.2
    have finished := ih next (counted'.mark size encoded.payload) longer (by simpa using few)
      inserted
    simpa using finished

/-- The entry loop succeeds on entries that can be told apart and whose prefixes fit. -/
theorem insertEntries_succeeds {language : List (Encoded γ)}
    (built : Built entries builder words) (counted : Counted config builder)
    (whole : entries ++ remaining = language) (few : language.length ≤ noTerminal)
    (spelled : WellSpelled config reserved language)
    (states : (prefixes language).card + 1 ≤ config.maximumStates.toNat)
    (arcs : (prefixes language).card ≤ config.maximumArcs.toNat) :
    ∃ final, insertEntries (fun _ => true) config reserved remaining builder = .ok final := by
  induction remaining generalizing entries builder words with
  | nil => exact ⟨builder, rfl⟩
  | cons encoded rest ih =>
    have onward : (entries ++ [encoded]) ++ rest = language := by simpa using whole
    have so_far : entries.length ≤ noTerminal := by
      rw [← whole, List.length_append] at few
      omega
    have member : encoded ∈ language := by simp [← whole]
    -- what the language promises of the entry against those inserted before
    have earlier : ∀ e ∈ entries, ¬ e.tokens.IsPrefix encoded.tokens ∧
        ¬ encoded.tokens.IsPrefix e.tokens := by
      have pairs := spelled.incomparable
      rw [← whole] at pairs
      exact fun e old => (List.pairwise_append.mp pairs).2.2 e old encoded (by simp)
    have unseen : encoded.payload ∉ builder.payloads := by
      have distinct := spelled.distinct
      rw [← whole, List.map_append, List.nodup_append] at distinct
      rw [built.payloads]
      exact fun old => distinct.2.2 _ old _ (by simp) rfl
    obtain ⟨present, short, inside⟩ := spelled.sequences encoded member
    have root := built.represents.root
    have unmarked := (built.unmarked_iff so_far encoded.tokens).mpr fun e old initial =>
      absurd initial (earlier e old).1
    have counted_point : Counted config { builder with point := builder.point + 1 } :=
      ⟨counted.nodes, counted.tables, counted.states, counted.arcs⟩
    -- every state of the trie is a proper start of the language, so the limits are not reached
    have among : ∀ w, w ∈ words ∨ w.IsPrefix encoded.tokens →
        w ∈ Insert.insert [] (prefixes language) := by
      intro w known
      rw [Finset.mem_insert, mem_prefixes]
      by_cases empty : w = []
      · exact .inl empty
      · rcases known with old | initial
        · obtain ⟨e, listed, initial⟩ := (built.covered w old).resolve_left empty
          exact .inr ⟨empty, e, by rw [← whole]; exact List.mem_append_left _ listed, initial⟩
        · exact .inr ⟨empty, encoded, member, initial⟩
    have card : (Insert.insert [] (prefixes language)).card = (prefixes language).card + 1 :=
      Finset.card_insert_of_notMem (by simp [mem_prefixes])
    have walks : ∃ walked, insertTokens (fun _ => true) config encoded.tokens 0
        { builder with point := builder.point + 1 } = .ok walked :=
      insertTokens_succeeds built.represents counted_point root (List.nil_append _) inside
        unmarked among (by omega) (by omega)
    obtain ⟨⟨state, walked⟩, walk⟩ := walks
    obtain ⟨words', grown, at_final, _⟩ :=
      insertTokens_grown walk built.represents root (List.nil_append encoded.tokens)
    -- the state reached is new and has no arcs, as no entry continues another
    have leaf := (built.leaf_iff so_far grown at_final).mpr fun e old => (earlier e old).2
    have size := (List.getElem?_eq_some_iff.mp at_final).1
    rw [grown.represents.size] at size
    have counted' := (insertTokens_checked walk built.represents counted_point root
      (List.nil_append encoded.tokens)).1
    obtain ⟨next_words, next⟩ := built.insert walk leaf.1 leaf.2
    obtain ⟨final, inserted⟩ := ih next (counted'.mark size encoded.payload) onward
    refine ⟨final, ?_⟩
    rw [insertEntries_cons_iff]
    exact ⟨⟨spelled.free encoded member, present, short, unseen⟩, rfl, state, walked, walk, leaf,
      inserted⟩

end Entries

/-! ### The build -/

theorem few_entries {language : List (Encoded γ)}
    (few : language.length ≤ config.maximumEntries.toNat) : language.length ≤ noTerminal := by
  have limit := config.maximumEntries.toNat_lt
  simp only [noTerminal, UInt32.size]
  omega

/-- A successful build was given a well-formed language, and its tables have one state for each
prefix and one arc for each that is not empty. -/
theorem build_wellFormed [DecidableEq γ] {memory : Memory} {reserved : γ → Bool}
    {language : List (Encoded γ)} {dfa : TrieDfa γ}
    (succeeded : build memory config reserved language = .ok dfa) :
    WellFormed config reserved language ∧ dfa.states.length = (prefixes language).card + 1 ∧
      dfa.arcs.length = (prefixes language).card := by
  obtain ⟨builder, words, built, flattens, _, inserted, present, few⟩ :=
    build_flattens succeeded
  have limits : config.vocabularySize ≠ 0 ∧ config.maximumSequenceTokens ≠ 0 ∧
      config.maximumEntries ≠ 0 ∧ config.maximumStates ≠ 0 ∧ config.maximumArcs ≠ 0 := by
    rw [build] at succeeded
    split at succeeded
    next => cases succeeded
    next positive => simpa [not_or, present] using positive
  obtain ⟨counted, spelled⟩ := insertEntries_checked Built.initial
    (Counted.initial limits.2.2.2.1) (.none config reserved) (few_entries few) inserted
  have size := built.words_length
  rw [built.represents.size] at size
  have nodes := counted.nodes
  have state_count : dfa.states.length = builder.trie.length := by
    rw [flattens.states]
    exact records_length 0 builder.trie
  refine ⟨⟨spelled, present, limits, few, ?_, ?_⟩, by omega, ?_⟩
  · rw [← size]
    exact counted.states
  · have arcs := counted.arcs
    omega
  · rw [flattens.arcs, counted.tables]
    omega

/-- With memory at hand, exactly the well-formed languages are accepted. -/
theorem build_accepts [DecidableEq γ] (reserved : γ → Bool) (language : List (Encoded γ)) :
    (∃ dfa, build (fun _ => true) config reserved language = .ok dfa) ↔
      WellFormed config reserved language := by
  constructor
  · rintro ⟨dfa, succeeded⟩
    exact (build_wellFormed succeeded).1
  · intro wellFormed
    have few := few_entries wellFormed.few
    obtain ⟨builder, inserted⟩ := insertEntries_succeeds Built.initial
      (Counted.initial wellFormed.limits.2.2.2.1) rfl few wellFormed.toWellSpelled
      wellFormed.states wellFormed.arcs
    obtain ⟨words, built⟩ := insertEntries_built Built.initial inserted
    have counted := (insertEntries_checked Built.initial
      (Counted.initial wellFormed.limits.2.2.2.1) (.none config reserved) few inserted).1
    rw [build, if_neg (by simpa [not_or, wellFormed.present] using wellFormed.limits),
      if_neg (Nat.not_lt.mpr wellFormed.few), if_neg (by simp), inserted]
    simp [flatten_eq, counted.tables, built.payloads]

/-- The token automaton is built exactly for the well-formed languages, with a state for each
prefix of a sequence and an arc for each that is not empty, in whatever order the entries
come. -/
theorem token_dfa_accepts (config : TokenDfaConfig) (language : List EncodedChoice) :
    ((∃ dfa, TokenDfa.build (fun _ => true) language config = .ok dfa) ↔
        WellFormed config reservedChoice language) ∧
      (∀ memory dfa, TokenDfa.build memory language config = .ok dfa →
        dfa.states.length = (prefixes language).card + 1 ∧
        dfa.arcs.length = (prefixes language).card) ∧
      ∀ other, language.Perm other →
        ((∃ dfa, TokenDfa.build (fun _ => true) language config = .ok dfa) ↔
          ∃ dfa, TokenDfa.build (fun _ => true) other config = .ok dfa) := by
  refine ⟨build_accepts reservedChoice language, ?_, ?_⟩
  · intro memory dfa succeeded
    exact (build_wellFormed succeeded).2
  · intro other same
    rw [TokenDfa.build, TokenDfa.build, build_accepts, build_accepts]
    exact ⟨fun wellFormed => wellFormed.perm same, fun wellFormed => wellFormed.perm same.symm⟩

end MarketForge.Grammar
