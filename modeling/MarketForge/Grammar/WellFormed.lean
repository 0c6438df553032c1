import Mathlib.Data.Finset.Card
import Mathlib.Data.List.Infix
import MarketForge.Grammar.Recognition

/-!
# Well-formed languages

A language is well formed for a configuration if its entries can be told apart and the trie of
their prefixes fits (`WellFormed`). The entry loop compares an entry with the earlier ones in two
places: a mark met on the way is an entry that is a proper prefix of the new one
(`Built.unmarked_iff`), a mark or a child at the end is an entry that the new one is a prefix of
(`Built.leaf_iff`).
-/
namespace MarketForge.Grammar

variable {γ : Type}

/-- The non-empty prefixes of the sequences of a language. -/
def prefixes (language : List (Encoded γ)) : Finset (List TokenId) :=
  (language.flatMap fun encoded => encoded.tokens.inits).toFinset.erase []

theorem mem_prefixes (language : List (Encoded γ)) (w : List TokenId) :
    w ∈ prefixes language ↔ w ≠ [] ∧ ∃ e ∈ language, w.IsPrefix e.tokens := by
  simp [prefixes]

/-- Entries that can be told apart, one by one and in pairs. -/
structure WellSpelled (config : DfaConfig) (reserved : γ → Bool)
    (entries : List (Encoded γ)) : Prop where
  free : ∀ e ∈ entries, reserved e.payload = false
  distinct : (entries.map Encoded.payload).Nodup
  sequences : ∀ e ∈ entries, e.tokens ≠ [] ∧
    e.tokens.length ≤ config.maximumSequenceTokens.toNat ∧
    ∀ t ∈ e.tokens, t < config.vocabularySize.toNat
  incomparable : entries.Pairwise fun a b =>
    ¬ a.tokens.IsPrefix b.tokens ∧ ¬ b.tokens.IsPrefix a.tokens

/-- What a language has to be for a configuration. -/
structure WellFormed (config : DfaConfig) (reserved : γ → Bool)
    (language : List (Encoded γ)) : Prop extends WellSpelled config reserved language where
  present : language ≠ []
  limits : config.vocabularySize ≠ 0 ∧ config.maximumSequenceTokens ≠ 0 ∧
    config.maximumEntries ≠ 0 ∧ config.maximumStates ≠ 0 ∧ config.maximumArcs ≠ 0
  few : language.length ≤ config.maximumEntries.toNat
  states : (prefixes language).card + 1 ≤ config.maximumStates.toNat
  arcs : (prefixes language).card ≤ config.maximumArcs.toNat

theorem WellSpelled.none (config : DfaConfig) (reserved : γ → Bool) :
    WellSpelled config reserved [] where
  free := by simp
  distinct := List.nodup_nil
  sequences := by simp
  incomparable := List.Pairwise.nil

/-- One more entry, compared with the ones before it. -/
theorem wellSpelled_append_iff {config : DfaConfig} {reserved : γ → Bool}
    {entries : List (Encoded γ)} (spelled : WellSpelled config reserved entries)
    (encoded : Encoded γ) :
    WellSpelled config reserved (entries ++ [encoded]) ↔
      reserved encoded.payload = false ∧ encoded.payload ∉ entries.map Encoded.payload ∧
      (encoded.tokens ≠ [] ∧ encoded.tokens.length ≤ config.maximumSequenceTokens.toNat ∧
        ∀ t ∈ encoded.tokens, t < config.vocabularySize.toNat) ∧
      ∀ e ∈ entries, ¬ e.tokens.IsPrefix encoded.tokens ∧ ¬ encoded.tokens.IsPrefix e.tokens := by
  constructor
  · intro longer
    have member : encoded ∈ entries ++ [encoded] := by simp
    have distinct := longer.distinct
    rw [List.map_append, List.nodup_append] at distinct
    refine ⟨longer.free _ member, fun known => ?_, longer.sequences _ member, fun e known => ?_⟩
    · exact distinct.2.2 _ known _ (by simp) rfl
    · exact (List.pairwise_append.mp longer.incomparable).2.2 e known encoded (by simp)
  · rintro ⟨free, unseen, sequence, apart⟩
    refine ⟨fun e member => ?_, ?_, fun e member => ?_, ?_⟩
    · rcases List.mem_append.mp member with old | last
      · exact spelled.free e old
      · exact List.mem_singleton.mp last ▸ free
    · rw [List.map_append, List.map_singleton, ← List.concat_eq_append]
      exact spelled.distinct.concat unseen
    · rcases List.mem_append.mp member with old | last
      · exact spelled.sequences e old
      · exact List.mem_singleton.mp last ▸ sequence
    · rw [List.pairwise_append]
      exact ⟨spelled.incomparable, List.pairwise_singleton _ _, fun e old last is_last =>
        List.mem_singleton.mp is_last ▸ apart e old⟩

/-- Well-formed languages do not depend on the order of their entries. -/
theorem WellFormed.perm {config : DfaConfig} {reserved : γ → Bool}
    {language other : List (Encoded γ)} (wellFormed : WellFormed config reserved language)
    (same : language.Perm other) : WellFormed config reserved other := by
  have members : prefixes other = prefixes language := by
    ext w
    simp only [mem_prefixes, same.mem_iff]
  refine ⟨⟨?_, ?_, ?_, ?_⟩, ?_, wellFormed.limits, ?_, ?_, ?_⟩
  · exact fun e member => wellFormed.free e (same.mem_iff.mpr member)
  · exact (same.map Encoded.payload).nodup_iff.mp wellFormed.distinct
  · exact fun e member => wellFormed.sequences e (same.mem_iff.mpr member)
  · exact (same.pairwise_iff fun apart => ⟨apart.2, apart.1⟩).mp wellFormed.incomparable
  · intro empty
    rw [empty, List.perm_nil] at same
    exact wellFormed.present same
  · rw [← same.length_eq]
    exact wellFormed.few
  · rw [members]
    exact wellFormed.states
  · rw [members]
    exact wellFormed.arcs

/-! ### What the marks of the trie say -/

namespace Built

variable {entries : List (Encoded γ)} {builder : Builder γ} {words : List (List TokenId)}

/-- The words are the prefixes of the entries. -/
theorem known_iff (built : Built entries builder words) (w : List TokenId) :
    w ∈ words ↔ w = [] ∨ ∃ e ∈ entries, w.IsPrefix e.tokens := by
  constructor
  · exact built.covered w
  · rintro (rfl | ⟨e, member, u, spells⟩)
    · exact List.mem_of_getElem? built.represents.root
    · exact built.represents.closed_append w u (spells ▸ built.listed e member)

theorem words_length (built : Built entries builder words) :
    words.length = (prefixes entries).card + 1 := by
  have listed : words.toFinset = Insert.insert [] (prefixes entries) := by
    ext w
    rw [List.mem_toFinset, built.known_iff, Finset.mem_insert, mem_prefixes]
    by_cases empty : w = []
    · simp [empty]
    · simp [empty]
  rw [← List.toFinset_card_of_nodup built.represents.distinct, listed,
    Finset.card_insert_of_notMem (by simp [mem_prefixes])]

/-- A node is marked exactly if its word is an entry. -/
theorem marked_iff (built : Built entries builder words) (few : entries.length ≤ noTerminal)
    {n : Nat} {w : List TokenId} (at_n : words[n]? = some w) :
    (nodeAt builder.trie n).terminal ≠ noTerminal ↔ ∃ e ∈ entries, e.tokens = w := by
  constructor
  · intro marked
    obtain ⟨e, at_i, tokens⟩ :=
      Option.map_eq_some_iff.mp ((built.marks n w _ at_n marked).mp rfl)
    exact ⟨e, List.mem_of_getElem? at_i, tokens⟩
  · rintro ⟨e, member, rfl⟩
    obtain ⟨i, at_i⟩ := List.mem_iff_getElem?.mp member
    have inside := (List.getElem?_eq_some_iff.mp at_i).1
    have proper : i ≠ noTerminal := by omega
    rw [(built.marks n e.tokens i at_n proper).mpr (by rw [at_i]; rfl)]
    exact proper

/-- No mark is met on the way to a goal exactly if no entry is a proper prefix of it. -/
theorem unmarked_iff (built : Built entries builder words) (few : entries.length ≤ noTerminal)
    (goal : List TokenId) :
    (∀ (n : Nat) w, words[n]? = some w → w.IsPrefix goal → w ≠ goal →
        (nodeAt builder.trie n).terminal = noTerminal) ↔
      ∀ e ∈ entries, e.tokens.IsPrefix goal → e.tokens = goal := by
  constructor
  · intro unmarked e member initial
    by_contra other
    obtain ⟨n, at_n⟩ := List.mem_iff_getElem?.mp (built.listed e member)
    exact (built.marked_iff few at_n).mpr ⟨e, member, rfl⟩ (unmarked n _ at_n initial other)
  · intro apart n w at_n initial other
    by_contra marked
    obtain ⟨e, member, rfl⟩ := (built.marked_iff few at_n).mp marked
    exact other (apart e member initial)

/-- The walk of a goal ends at an unmarked leaf exactly if the goal is not a prefix of an
entry. -/
theorem leaf_iff (built : Built entries builder words) (few : entries.length ≤ noTerminal)
    {goal : List TokenId} {trie' : List TrieNode} {words' : List (List TokenId)} {state : Nat}
    (grown : Grown goal builder.trie words trie' words') (at_final : words'[state]? = some goal) :
    ((nodeAt trie' state).terminal = noTerminal ∧ (nodeAt trie' state).children = []) ↔
      ∀ e ∈ entries, ¬ goal.IsPrefix e.tokens := by
  rw [grown.terminal]
  constructor
  · rintro ⟨unmarked, childless⟩ e member ⟨u, spells⟩
    cases u with
    | nil =>
      rw [List.append_nil] at spells
      have known : goal ∈ words := spells ▸ built.listed e member
      obtain ⟨n, at_n⟩ := List.mem_iff_getElem?.mp known
      obtain rfl := grown.represents.index_unique (grown.kept n goal at_n) at_final
      exact (built.marked_iff few at_n).mpr ⟨e, member, spells.symm⟩ unmarked
    | cons t u =>
      -- The entry goes on after the goal, so the last node has a child.
      have longer : goal ++ [t] ∈ words' := by
        apply grown.represents.closed_append _ u
        apply grown.old
        rw [List.append_assoc, List.singleton_append, spells]
        exact built.listed e member
      obtain ⟨m, at_m⟩ := List.mem_iff_getElem?.mp longer
      have child := (grown.represents.child state m goal t at_final).mpr at_m
      rw [childless] at child
      cases child
  · intro apart
    constructor
    · by_contra marked
      have old : state < builder.trie.length := by
        by_contra beyond
        rw [nodeAt_of_le (Nat.not_lt.mp beyond)] at marked
        exact marked rfl
      rw [← built.represents.size] at old
      have at_state := List.getElem?_eq_getElem old
      have same : words[state] = goal :=
        Option.some_inj.mp ((grown.kept _ _ at_state).symm.trans at_final)
      obtain ⟨e, member, tokens⟩ := (built.marked_iff few at_state).mp marked
      exact apart e member (by rw [tokens, same])
    · cases children : (nodeAt trie' state).children with
      | nil => rfl
      | cons child rest =>
        have found : SortedMap.find (nodeAt trie' state).children child.1 = some child.2 := by
          rw [children, SortedMap.find_cons, if_pos rfl]
        have longer := List.mem_of_getElem?
          ((grown.represents.child state child.2 goal child.1 at_final).mp found)
        rcases grown.new _ longer with old | within
        · rcases built.covered _ old with empty | ⟨e, member, initial⟩
          · simp at empty
          · exact absurd ((List.prefix_append goal [child.1]).trans initial) (apart e member)
        · have shorter := within.length_le
          rw [List.length_append, List.length_singleton] at shorter
          omega

end Built

end MarketForge.Grammar
