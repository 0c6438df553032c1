import Mathlib.Data.List.Induction
import Mathlib.Data.List.Nodup
import MarketForge.Grammar.TrieDfa

/-!
# Tries as sets of words

A trie represents a list of distinct words, closed under prefixes: the word of a node is what
leads to it, and a node has a child under a token exactly when its word followed by the token is
one of the words (`Represents`). Growing the trie adds the words of an entry's prefixes, and the
terminal marks record which words are entries.
-/
namespace MarketForge.Grammar

/-- A trie and the words of its nodes. -/
structure Represents (trie : List TrieNode) (words : List (List TokenId)) : Prop where
  size : words.length = trie.length
  root : words[0]? = some []
  distinct : words.Nodup
  closed : ∀ w t, w ++ [t] ∈ words → w ∈ words
  sorted : ∀ n, SortedMap.Sorted (nodeAt trie n).children
  child : ∀ (n m : Nat) w t, words[n]? = some w →
    (SortedMap.find (nodeAt trie n).children t = some m ↔ words[m]? = some (w ++ [t]))

theorem nodeAt_of_le {trie : List TrieNode} {n : Nat} (beyond : trie.length ≤ n) :
    nodeAt trie n = .blank := by
  rw [nodeAt, List.getD_eq_getElem?_getD, List.getElem?_eq_none beyond]
  rfl

/-- Rewriting one node leaves the others. -/
theorem nodeAt_modify (trie : List TrieNode) (f : TrieNode → TrieNode) {state : Nat} (n : Nat)
    (inside : state < trie.length) :
    nodeAt (trie.modify state f) n = if n = state then f (nodeAt trie n) else nodeAt trie n := by
  by_cases same : n = state
  · subst same
    simp [nodeAt, inside]
  · simp [nodeAt, same, Ne.symm same]

/-- A new node at the end is empty, as reading beyond the end already was. -/
theorem nodeAt_append_empty (trie : List TrieNode) (n : Nat) :
    nodeAt (trie ++ [.blank]) n = nodeAt trie n := by
  rcases Nat.lt_trichotomy n trie.length with inside | last | beyond
  · simp [nodeAt, List.getElem?_append_left inside]
  · subst last
    simp [nodeAt]
  · rw [nodeAt_of_le (by simp only [List.length_append, List.length_singleton]; omega),
      nodeAt_of_le (by omega)]

@[simp] theorem withChild_length (trie : List TrieNode) (state : Nat) (token : TokenId) :
    (withChild trie state token).length = trie.length + 1 := by
  simp [withChild]

@[simp] theorem withTerminal_length (trie : List TrieNode) (state index : Nat) :
    (withTerminal trie state index).length = trie.length := by
  simp [withTerminal]

theorem nodeAt_withChild {trie : List TrieNode} {state : Nat} (inside : state < trie.length)
    (token : TokenId) (n : Nat) :
    nodeAt (withChild trie state token) n =
      if n = state then { nodeAt trie n with
        children := SortedMap.emplace (nodeAt trie n).children token trie.length }
      else nodeAt trie n := by
  rw [withChild, nodeAt_modify _ _ _ (by simp; omega), nodeAt_append_empty]

theorem nodeAt_withTerminal {trie : List TrieNode} {state : Nat} (inside : state < trie.length)
    (index n : Nat) :
    nodeAt (withTerminal trie state index) n =
      if n = state then { nodeAt trie n with terminal := index } else nodeAt trie n :=
  nodeAt_modify _ _ n inside

namespace Represents

variable {trie : List TrieNode} {words : List (List TokenId)}

theorem empty : Represents [.blank] [[]] where
  size := rfl
  root := rfl
  distinct := List.nodup_singleton _
  closed := by simp
  sorted n := by
    have blank : nodeAt [.blank] n = .blank := by
      rw [← List.nil_append [TrieNode.blank], nodeAt_append_empty, nodeAt_of_le (Nat.zero_le n)]
    rw [blank]
    exact List.Pairwise.nil
  child n m w t at_n := by
    have blank : nodeAt [.blank] n = .blank := by
      rw [← List.nil_append [TrieNode.blank], nodeAt_append_empty, nodeAt_of_le (Nat.zero_le n)]
    rw [blank]
    constructor
    · intro found
      cases found
    · intro at_m
      have member := List.mem_of_getElem? at_m
      simp at member

/-- Words are closed under all prefixes. -/
theorem closed_append (represents : Represents trie words) (w u : List TokenId)
    (member : w ++ u ∈ words) : w ∈ words := by
  induction u using List.reverseRecOn with
  | nil => simpa using member
  | append_singleton u t ih =>
    rw [← List.append_assoc] at member
    exact ih (represents.closed _ _ member)

theorem index_unique (represents : Represents trie words) {n m : Nat} {w : List TokenId}
    (at_n : words[n]? = some w) (at_m : words[m]? = some w) : n = m :=
  (List.getElem?_inj (List.getElem?_eq_some_iff.mp at_n).1 represents.distinct).mp
    (at_n.trans at_m.symm)

/-- A missing child means a missing word. -/
theorem fresh (represents : Represents trie words) {n : Nat} {w : List TokenId} {t : TokenId}
    (at_n : words[n]? = some w) (absent : SortedMap.find (nodeAt trie n).children t = none) :
    w ++ [t] ∉ words := by
  intro member
  obtain ⟨m, at_m⟩ := List.mem_iff_getElem?.mp member
  rw [(represents.child n m w t at_n).mpr at_m] at absent
  cases absent

/-- Growing a child adds its word. -/
theorem grow (represents : Represents trie words) {state : Nat} {v : List TokenId} {t : TokenId}
    (at_state : words[state]? = some v)
    (absent : SortedMap.find (nodeAt trie state).children t = none) :
    Represents (withChild trie state t) (words ++ [v ++ [t]]) := by
  have inside : state < trie.length :=
    represents.size ▸ (List.getElem?_eq_some_iff.mp at_state).1
  have node := nodeAt_withChild inside t
  have new := represents.fresh at_state absent
  have at_iff : ∀ (m : Nat) w, (words ++ [v ++ [t]])[m]? = some w ↔
      words[m]? = some w ∨ (m = trie.length ∧ w = v ++ [t]) := by
    intro m w
    rw [← represents.size]
    rcases Nat.lt_trichotomy m words.length with before | last | beyond
    · rw [List.getElem?_append_left before]
      simp [before.ne]
    · subst last
      simp [eq_comm]
    · rw [List.getElem?_append_right beyond.le, List.getElem?_eq_none beyond.le,
        List.getElem?_eq_none (by simpa using by omega)]
      simp [beyond.ne']
  refine ⟨?_, ?_, ?_, ?_, ?_, ?_⟩
  · simp [represents.size]
  · exact (at_iff 0 []).mpr (.inl represents.root)
  · rw [← List.concat_eq_append]
    exact represents.distinct.concat new
  · intro w u member
    rcases List.mem_append.mp member with old | added
    · exact List.mem_append_left _ (represents.closed w u old)
    · obtain ⟨rfl, _⟩ := List.append_inj' (List.mem_singleton.mp added) rfl
      exact List.mem_append_left _ (List.mem_of_getElem? at_state)
  · intro n
    rw [node]
    split
    · exact SortedMap.emplace_sorted (represents.sorted n) _ _
    · exact represents.sorted n
  · intro n m w u at_n
    rw [node, at_iff]
    rcases (at_iff n w).mp at_n with old | ⟨rfl, rfl⟩
    · split
      next same =>
        -- The grown node: the new token leads to the new node, the others where they did.
        subst same
        obtain rfl := Option.some_inj.mp (old.symm.trans at_state)
        simp only [SortedMap.find_emplace (represents.sorted n), absent, Option.getD_none]
        by_cases wanted : u = t
        · subst wanted
          have unseen : words[m]? ≠ some (w ++ [u]) :=
            fun at_m => new (List.mem_of_getElem? at_m)
          simp [unseen, eq_comm]
        · simp [wanted, represents.child n m w u old]
      next other =>
        have different : w ≠ v := fun same =>
          other (represents.index_unique old (same ▸ at_state))
        rw [represents.child n m w u old]
        simp [different]
    · -- The new node has no children and its word no extensions.
      have apart : trie.length ≠ state := by omega
      rw [if_neg apart, nodeAt_of_le (Nat.le_refl _)]
      constructor
      · intro found
        cases found
      · rintro (at_m | ⟨_, longer⟩)
        · exact absurd (represents.closed _ _ (List.mem_of_getElem? at_m)) new
        · simp at longer

/-- Marking a node does not change the shape of the trie. -/
theorem mark (represents : Represents trie words) {state : Nat} (inside : state < trie.length)
    (index : Nat) : Represents (withTerminal trie state index) words := by
  have children : ∀ n, (nodeAt (withTerminal trie state index) n).children =
      (nodeAt trie n).children := by
    intro n
    rw [nodeAt_withTerminal inside]
    split <;> rfl
  refine { represents with size := ?_, sorted := fun n => ?_, child := fun n m w t at_n => ?_ }
  · rw [withTerminal_length]
    exact represents.size
  · rw [children]
    exact represents.sorted n
  · rw [children]
    exact represents.child n m w t at_n

end Represents

/-! ### Inserting an entry -/

/-- What the walk of an entry leaves: a larger trie whose new words are prefixes of `goal`, with
the terminal marks and the children of terminal nodes as they were. -/
structure Grown (goal : List TokenId) (trie : List TrieNode) (words : List (List TokenId))
    (trie' : List TrieNode) (words' : List (List TokenId)) : Prop where
  represents : Represents trie' words'
  old : ∀ w ∈ words, w ∈ words'
  new : ∀ w ∈ words', w ∈ words ∨ w.IsPrefix goal
  kept : ∀ (n : Nat) w, words[n]? = some w → words'[n]? = some w
  terminal : ∀ n, (nodeAt trie' n).terminal = (nodeAt trie n).terminal
  leaves : ∀ n, (nodeAt trie n).terminal ≠ noTerminal →
    (nodeAt trie' n).children = (nodeAt trie n).children

namespace Grown

variable {goal : List TokenId} {trie trie' trie'' : List TrieNode}
  {words words' words'' : List (List TokenId)}

theorem refl (represents : Represents trie words) : Grown goal trie words trie words :=
  ⟨represents, fun _ member => member, fun _ member => .inl member, fun _ _ at_n => at_n,
    fun _ => rfl, fun _ _ => rfl⟩

theorem trans (first : Grown goal trie words trie' words')
    (second : Grown goal trie' words' trie'' words'') : Grown goal trie words trie'' words'' where
  represents := second.represents
  old w member := second.old w (first.old w member)
  new w member := (second.new w member).elim (first.new w) .inr
  kept n w at_n := second.kept n w (first.kept n w at_n)
  terminal n := (second.terminal n).trans (first.terminal n)
  leaves n marked :=
    (second.leaves n (first.terminal n ▸ marked)).trans (first.leaves n marked)

theorem grow (represents : Represents trie words) {state : Nat} {v : List TokenId} {t : TokenId}
    (at_state : words[state]? = some v) (unmarked : (nodeAt trie state).terminal = noTerminal)
    (absent : SortedMap.find (nodeAt trie state).children t = none)
    (within : (v ++ [t]).IsPrefix goal) :
    Grown goal trie words (withChild trie state t) (words ++ [v ++ [t]]) := by
  have inside : state < trie.length :=
    represents.size ▸ (List.getElem?_eq_some_iff.mp at_state).1
  refine ⟨represents.grow at_state absent, ?_, ?_, ?_, ?_, ?_⟩
  · exact fun w member => List.mem_append_left _ member
  · intro w member
    rcases List.mem_append.mp member with old | added
    · exact .inl old
    · exact .inr (List.mem_singleton.mp added ▸ within)
  · intro n w at_n
    rwa [List.getElem?_append_left (List.getElem?_eq_some_iff.mp at_n).1]
  · intro n
    rw [nodeAt_withChild inside]
    split
    · rfl
    · rfl
  · intro n marked
    rw [nodeAt_withChild inside]
    split
    next same => exact absurd unmarked (same ▸ marked)
    next => rfl

end Grown

variable {γ : Type} {memory : Memory} {config : DfaConfig}

/-- One token of a walk that succeeds: it goes to the child it finds, or to one it adds. -/
theorem insertTokens_cons_iff {token : TokenId} {rest : List TokenId} {state : Nat}
    {builder : Builder γ} {walked : Nat × Builder γ} :
    insertTokens memory config (token :: rest) state builder = .ok walked ↔
      token < config.vocabularySize.toNat ∧
      (nodeAt builder.trie state).terminal = noTerminal ∧
      ((∃ next, SortedMap.find (nodeAt builder.trie state).children token = some next ∧
          insertTokens memory config rest next builder = .ok walked) ∨
        (SortedMap.find (nodeAt builder.trie state).children token = none ∧
          builder.trie.length < config.maximumStates.toNat ∧
          builder.arcCount < config.maximumArcs.toNat ∧
          (memory builder.point = true ∧ memory (builder.point + 1) = true) ∧
          insertTokens memory config rest builder.trie.length (builder.grow state token) =
            .ok walked)) := by
  rw [insertTokens]
  split
  next refused =>
    refine iff_of_false (by simp) fun ⟨inside, unmarked, _⟩ => ?_
    exact refused.elim (Nat.not_le.mpr inside) (· unmarked)
  next allowed =>
    rw [not_or, not_not, Nat.not_le] at allowed
    split
    next next found => simp [allowed, found]
    next absent =>
      split
      next full =>
        refine iff_of_false (by simp) fun ⟨_, _, grown⟩ => ?_
        rcases grown with ⟨next, found, _⟩ | ⟨_, states, arcs, _⟩
        · rw [absent] at found
          cases found
        · exact full.elim (Nat.not_le.mpr states) (Nat.not_le.mpr arcs)
      next room =>
        rw [not_or, Nat.not_le, Nat.not_le] at room
        split
        next refused =>
          refine iff_of_false (by simp) fun ⟨_, _, grown⟩ => ?_
          rcases grown with ⟨next, found, _⟩ | ⟨_, _, _, granted, _⟩
          · rw [absent] at found
            cases found
          · exact refused.elim (· granted.1) (· granted.2)
        next granted =>
          rw [not_or, not_not, not_not] at granted
          simp [allowed, absent, room, granted]

/-- The walk of an entry ends at the node of its tokens. -/
theorem insertTokens_grown {tokens v goal : List TokenId} {state final : Nat}
    {builder builder' : Builder γ} {words : List (List TokenId)}
    (walked : insertTokens memory config tokens state builder = .ok (final, builder'))
    (represents : Represents builder.trie words) (at_state : words[state]? = some v)
    (spells : v ++ tokens = goal) :
    ∃ words', Grown goal builder.trie words builder'.trie words' ∧
      words'[final]? = some goal ∧ builder'.payloads = builder.payloads := by
  induction tokens generalizing v state builder words with
  | nil =>
    obtain ⟨rfl, rfl⟩ := Prod.mk.inj (Except.ok.inj walked)
    exact ⟨words, .refl represents, by rwa [← spells, List.append_nil], rfl⟩
  | cons token rest ih =>
    have onward : (v ++ [token]) ++ rest = goal := by simpa using spells
    rw [insertTokens_cons_iff] at walked
    obtain ⟨_, unmarked, ⟨next, found, walked⟩ | ⟨absent, _, _, _, walked⟩⟩ := walked
    · -- An existing child: its word is already there.
      exact ih walked represents ((represents.child _ _ _ _ at_state).mp found) onward
    · have within : (v ++ [token]).IsPrefix goal := ⟨rest, onward⟩
      have grown := Grown.grow represents at_state unmarked absent within
      have at_new : (words ++ [v ++ [token]])[builder.trie.length]? = some (v ++ [token]) := by
        rw [← represents.size]
        simp
      obtain ⟨words', later, at_final, payloads⟩ := ih walked grown.represents at_new onward
      exact ⟨words', grown.trans later, at_final, payloads⟩

/-- The state of the entry loop after some entries: the words are the prefixes of the entries,
and the terminal mark of a node is the index of the entry that it spells. -/
structure Built (entries : List (Encoded γ)) (builder : Builder γ)
    (words : List (List TokenId)) : Prop where
  represents : Represents builder.trie words
  payloads : builder.payloads = entries.map Encoded.payload
  covered : ∀ w ∈ words, w = [] ∨ ∃ e ∈ entries, w.IsPrefix e.tokens
  listed : ∀ e ∈ entries, e.tokens ∈ words
  marks : ∀ (n : Nat) w i, words[n]? = some w → i ≠ noTerminal →
    ((nodeAt builder.trie n).terminal = i ↔ (entries[i]?).map Encoded.tokens = some w)
  leaves : ∀ n, (nodeAt builder.trie n).terminal ≠ noTerminal →
    (nodeAt builder.trie n).children = []

theorem Built.initial : Built (γ := γ) [] ⟨[.blank], [], 0, 2⟩ [[]] where
  represents := .empty
  payloads := rfl
  covered := by simp
  listed := by simp
  marks n w i at_n proper := by
    have blank : nodeAt [TrieNode.blank] n = .blank := by
      rw [← List.nil_append [TrieNode.blank], nodeAt_append_empty, nodeAt_of_le (Nat.zero_le n)]
    rw [blank]
    simpa [TrieNode.blank] using Ne.symm proper
  leaves n marked := by
    have blank : nodeAt [TrieNode.blank] n = .blank := by
      rw [← List.nil_append [TrieNode.blank], nodeAt_append_empty, nodeAt_of_le (Nat.zero_le n)]
    rw [blank]
    rfl

/-- Adding an entry adds its tokens only. -/
theorem appended_tokens (entries : List (Encoded γ)) {encoded : Encoded γ} (i : Nat)
    {w : List TokenId} (other : encoded.tokens ≠ w) :
    (((entries ++ [encoded])[i]?).map Encoded.tokens = some w ↔
      (entries[i]?).map Encoded.tokens = some w) := by
  rcases Nat.lt_trichotomy i entries.length with before | last | beyond
  · rw [List.getElem?_append_left before]
  · subst last
    simp [other]
  · rw [List.getElem?_eq_none (by simp only [List.length_append, List.length_singleton]; omega),
      List.getElem?_eq_none (by omega)]

section Insert

variable {entries : List (Encoded γ)} {encoded : Encoded γ} {state : Nat}
  {builder walked : Builder γ} {words words' : List (List TokenId)}
  (built : Built entries builder words)
  (grown : Grown encoded.tokens builder.trie words walked.trie words')
include built grown

namespace Built

/-- The walk adds prefixes of the entry only. -/
theorem covered_append (w : List TokenId) (member : w ∈ words') :
    w = [] ∨ ∃ e ∈ entries ++ [encoded], w.IsPrefix e.tokens := by
  rcases grown.new w member with old | spelled
  · rcases built.covered w old with empty | ⟨e, listed, initial⟩
    · exact .inl empty
    · exact .inr ⟨e, List.mem_append_left _ listed, initial⟩
  · exact .inr ⟨encoded, by simp, spelled⟩

variable (at_final : words'[state]? = some encoded.tokens)
include at_final

theorem listed_append (e : Encoded γ) (member : e ∈ entries ++ [encoded]) : e.tokens ∈ words' := by
  rcases List.mem_append.mp member with old | last
  · exact grown.old _ (built.listed e old)
  · exact List.mem_singleton.mp last ▸ List.mem_of_getElem? at_final

/-- A walk to an unmarked node is that of no earlier entry. -/
theorem names_last (unmarked : (nodeAt walked.trie state).terminal = noTerminal) {i : Nat}
    (proper : i ≠ noTerminal) :
    ((entries ++ [encoded])[i]?).map Encoded.tokens = some encoded.tokens ↔
      entries.length = i := by
  constructor
  · intro named
    rcases Nat.lt_trichotomy i entries.length with old | last | beyond
    · rw [List.getElem?_append_left old] at named
      obtain ⟨e, at_i, tokens⟩ := Option.map_eq_some_iff.mp named
      obtain ⟨m, at_m⟩ :=
        List.mem_iff_getElem?.mp (built.listed e (List.mem_of_getElem? at_i))
      have same : m = state :=
        grown.represents.index_unique (grown.kept _ _ at_m) (tokens.symm ▸ at_final)
      have marked := (built.marks m e.tokens i at_m proper).mpr (by rw [at_i]; rfl)
      rw [← grown.terminal, same, unmarked] at marked
      exact absurd marked.symm proper
    · exact last.symm
    · have past : (entries ++ [encoded])[i]? = none := by
        apply List.getElem?_eq_none
        simp only [List.length_append, List.length_singleton]
        omega
      rw [past] at named
      cases named
  · rintro rfl
    simp

/-- Nodes that the walk does not end at keep their marks, and new ones have none. -/
theorem marks_kept {n : Nat} {w : List TokenId} {i : Nat} (at_n : words'[n]? = some w)
    (other : n ≠ state) (proper : i ≠ noTerminal) :
    (nodeAt walked.trie n).terminal = i ↔
      ((entries ++ [encoded])[i]?).map Encoded.tokens = some w := by
  have different : encoded.tokens ≠ w := fun same =>
    other (grown.represents.index_unique at_n (same ▸ at_final))
  rw [grown.terminal, appended_tokens entries i different]
  by_cases known : w ∈ words
  · obtain ⟨m, at_m⟩ := List.mem_iff_getElem?.mp known
    have same : m = n := grown.represents.index_unique (grown.kept _ _ at_m) at_n
    exact built.marks n w i (same ▸ at_m) proper
  · have beyond : builder.trie.length ≤ n := by
      by_contra inside
      obtain ⟨u, at_n'⟩ : ∃ u, words[n]? = some u :=
        ⟨_, List.getElem?_eq_getElem (by rw [built.represents.size]; omega)⟩
      have same : u = w := Option.some_inj.mp ((grown.kept _ _ at_n').symm.trans at_n)
      exact known (same ▸ List.mem_of_getElem? at_n')
    rw [nodeAt_of_le beyond]
    constructor
    · intro marked
      exact absurd marked.symm proper
    · intro named
      obtain ⟨e, at_i, tokens⟩ := Option.map_eq_some_iff.mp named
      exact absurd (tokens ▸ built.listed e (List.mem_of_getElem? at_i)) known

end Built

end Insert

/-- One entry: its walk ends at an unmarked leaf, which is marked with its index. -/
theorem Built.insert {entries : List (Encoded γ)} {encoded : Encoded γ} {state : Nat}
    {builder walked : Builder γ} {words : List (List TokenId)}
    (built : Built entries builder words)
    (walk : insertTokens memory config encoded.tokens 0
      { builder with point := builder.point + 1 } = .ok (state, walked))
    (unmarked : (nodeAt walked.trie state).terminal = noTerminal)
    (leaf : (nodeAt walked.trie state).children = []) :
    ∃ words', Built (entries ++ [encoded]) (walked.mark state encoded.payload) words' := by
  obtain ⟨words', grown, at_final, payloads⟩ :=
    insertTokens_grown walk built.represents built.represents.root rfl
  have inside : state < walked.trie.length :=
    grown.represents.size ▸ (List.getElem?_eq_some_iff.mp at_final).1
  have count : walked.payloads.length = entries.length := by
    rw [payloads, built.payloads, List.length_map]
  have node := nodeAt_withTerminal inside walked.payloads.length
  refine ⟨words', grown.represents.mark inside _, ?_, built.covered_append grown,
    built.listed_append grown at_final, ?_, ?_⟩
  · simp [Builder.mark, payloads, built.payloads]
  · intro n w i at_n proper
    rw [Builder.mark, node, count]
    by_cases final : n = state
    · subst final
      obtain rfl := Option.some_inj.mp (at_n.symm.trans at_final)
      rw [if_pos rfl]
      exact (built.names_last grown at_final unmarked proper).symm
    · rw [if_neg final]
      exact built.marks_kept grown at_final at_n final proper
  · intro n marked
    rw [Builder.mark, node] at marked ⊢
    split
    next same => rw [same]; exact leaf
    next other =>
      rw [if_neg other] at marked
      have before : (nodeAt builder.trie n).terminal ≠ noTerminal := grown.terminal n ▸ marked
      exact (grown.leaves n before).trans (built.leaves n before)

/-- One entry of a loop that succeeds. -/
theorem insertEntries_cons_iff [DecidableEq γ] {reserved : γ → Bool} {encoded : Encoded γ}
    {rest : List (Encoded γ)} {builder final : Builder γ} :
    insertEntries memory config reserved (encoded :: rest) builder = .ok final ↔
      (reserved encoded.payload = false ∧ encoded.tokens ≠ [] ∧
        encoded.tokens.length ≤ config.maximumSequenceTokens.toNat ∧
        encoded.payload ∉ builder.payloads) ∧
      memory builder.point = true ∧
      ∃ state walked, insertTokens memory config encoded.tokens 0
          { builder with point := builder.point + 1 } = .ok (state, walked) ∧
        ((nodeAt walked.trie state).terminal = noTerminal ∧
          (nodeAt walked.trie state).children = []) ∧
        insertEntries memory config reserved rest (walked.mark state encoded.payload) =
          .ok final := by
  rw [insertEntries]
  split
  next refused =>
    refine iff_of_false (by simp) fun ⟨⟨free, spelled, short, unseen⟩, _⟩ => ?_
    simp [free, spelled, Nat.not_lt.mpr short, unseen] at refused
  next accepted =>
    simp only [not_or, Bool.not_eq_true, Nat.not_lt] at accepted
    split
    next refused =>
      exact iff_of_false (by simp) fun ⟨_, granted, _⟩ => refused granted
    next granted =>
      rw [not_not] at granted
      split
      next status failed =>
        refine iff_of_false (by simp) fun ⟨_, _, state, walked, walk, _⟩ => ?_
        rw [failed] at walk
        cases walk
      next state walked walk =>
        dsimp only
        split
        next collision =>
          refine iff_of_false (by simp) fun ⟨_, _, state', walked', walk', leaf, _⟩ => ?_
          obtain ⟨rfl, rfl⟩ := Prod.mk.inj (Except.ok.inj (walk.symm.trans walk'))
          exact collision.elim (· leaf.1) (· leaf.2)
        next leaf =>
          rw [not_or, not_not, not_not] at leaf
          simp [accepted, granted, walk, leaf]

/-- The entry loop. -/
theorem insertEntries_built [DecidableEq γ] {reserved : γ → Bool}
    {entries remaining : List (Encoded γ)} {builder final : Builder γ}
    {words : List (List TokenId)} (built : Built entries builder words)
    (inserted : insertEntries memory config reserved remaining builder = .ok final) :
    ∃ words', Built (entries ++ remaining) final words' := by
  induction remaining generalizing entries builder words with
  | nil =>
    obtain rfl := Except.ok.inj inserted
    exact ⟨words, by simpa using built⟩
  | cons encoded rest ih =>
    rw [insertEntries_cons_iff] at inserted
    obtain ⟨_, _, state, walked, walk, leaf, inserted⟩ := inserted
    obtain ⟨words', next⟩ := built.insert walk leaf.1 leaf.2
    obtain ⟨words'', last⟩ := ih next inserted
    exact ⟨words'', by simpa using last⟩

end MarketForge.Grammar
