import MarketForge.Grammar.Recognition

/-!
# Masks

The arcs of a state as a mask for the next token: it allows exactly the tokens that some entry of
the language goes on with, and it is empty only where an entry ends. A policy that picks allowed
tokens therefore never gets stuck.
-/
namespace MarketForge.Grammar

variable {γ : Type}

/-- Some entry of the language starts with these tokens. -/
def Viable (language : List (Encoded γ)) (w : List TokenId) : Prop :=
  ∃ e ∈ language, w <+: e.tokens

/-- The tokens of a mask. -/
def tokensOf (arcs : List GrammarArc) : List TokenId := arcs.map GrammarArc.token

theorem insertEntries_bounded [DecidableEq γ] {memory : Memory} {config : DfaConfig}
    {reserved : γ → Bool} {language : List (Encoded γ)} {builder final : Builder γ}
    (inserted : insertEntries memory config reserved language builder = .ok final) :
    ∀ e ∈ language, e.tokens.length ≤ config.maximumSequenceTokens.toNat := by
  induction language generalizing builder with
  | nil => exact fun e member => absurd member List.not_mem_nil
  | cons encoded rest ih =>
    rw [insertEntries_cons_iff] at inserted
    obtain ⟨⟨_, _, short, _⟩, _, _, _, _, _, inserted⟩ := inserted
    intro e member
    rcases List.mem_cons.mp member with rfl | later
    · exact short
    · exact ih inserted e later

/-- The words of the trie are the beginnings of the entries. -/
theorem Built.mem_words_iff {language : List (Encoded γ)} {builder : Builder γ}
    {words : List (List TokenId)} (built : Built language builder words) (present : language ≠ [])
    (w : List TokenId) : w ∈ words ↔ Viable language w := by
  constructor
  · intro member
    rcases built.covered w member with rfl | begun
    · obtain ⟨e, others, rfl⟩ := List.exists_cons_of_ne_nil present
      exact ⟨e, List.mem_cons_self, List.nil_prefix⟩
    · exact begun
  · rintro ⟨e, member, rest, spells⟩
    exact built.represents.closed_append w rest (spells ▸ built.listed e member)

section

variable {language : List (Encoded γ)} {builder : Builder γ} {words : List (List TokenId)}
  {dfa : TrieDfa γ}

theorem word_node (built : Built language builder words) {n : Nat} {w : List TokenId}
    (at_n : words[n]? = some w) : builder.trie[n]? = some (nodeAt builder.trie n) := by
  have inside := (List.getElem?_eq_some_iff.mp at_n).1
  rw [built.represents.size] at inside
  rw [nodeAt, List.getD_eq_getElem?_getD, List.getElem?_eq_getElem inside]
  rfl

/-- The mask of a state lists, in increasing order, the tokens it can be advanced with. -/
theorem allowed_mask (built : Built language builder words) (flattens : Flattens builder.trie dfa)
    {n : Nat} {w : List TokenId} (at_n : words[n]? = some w) :
    ∃ arcs, dfa.allowed ⟨n⟩ = .ok arcs ∧ (tokensOf arcs).Pairwise (· < ·) ∧
      ∀ t, t ∈ tokensOf arcs ↔ ∃ next, dfa.advance ⟨n⟩ t = .ok next := by
  have node := word_node built at_n
  have sorted := built.represents.sorted n
  have keys : tokensOf (arcsOf (nodeAt builder.trie n)) =
      (nodeAt builder.trie n).children.map Prod.fst := by
    rw [tokensOf, arcsOf, List.map_map]
    rfl
  refine ⟨_, flattens.allowed node, ?_, fun t => ?_⟩
  · rw [keys, List.pairwise_map]
    exact sorted
  · rw [keys, ← SortedMap.exists_find_iff]
    constructor
    · rintro ⟨next, found⟩
      exact ⟨⟨next⟩, (flattens.advance_iff node sorted t ⟨next⟩).mpr found⟩
    · rintro ⟨next, taken⟩
      exact ⟨next.value, (flattens.advance_iff node sorted t next).mp taken⟩

/-- A state can be advanced with the tokens that keep its word viable. -/
theorem advance_viable (built : Built language builder words) (present : language ≠ [])
    (recognises : Recognises language dfa words) {n : Nat} {w : List TokenId}
    (at_n : words[n]? = some w) (t : TokenId) :
    (∃ next, dfa.advance ⟨n⟩ t = .ok next) ↔ Viable language (w ++ [t]) := by
  rw [← built.mem_words_iff present, List.mem_iff_getElem?]
  constructor
  · rintro ⟨next, taken⟩
    exact ⟨next.value, (recognises.step n w t next at_n).mp taken⟩
  · rintro ⟨m, at_m⟩
    exact ⟨⟨m⟩, (recognises.step n w t ⟨m⟩ at_n).mpr at_m⟩

/-- A state is terminal exactly when nothing may follow its word. -/
theorem terminal_iff_stuck (built : Built language builder words)
    (flattens : Flattens builder.trie dfa) (recognises : Recognises language dfa words)
    (present : language ≠ []) {n : Nat} {w : List TokenId} (at_n : words[n]? = some w) :
    dfa.terminal ⟨n⟩ = true ↔ ∀ t, ¬Viable language (w ++ [t]) := by
  have node := word_node built at_n
  constructor
  · intro marked t viable
    -- a terminal node is a leaf
    have leaf : (nodeAt builder.trie n).children = [] := by
      apply built.leaves
      simpa [TrieDfa.terminal, flattens.state, node] using marked
    obtain ⟨next, taken⟩ := (advance_viable built present recognises at_n t).mpr viable
    have found := (flattens.advance_iff node (built.represents.sorted n) t next).mp taken
    rw [leaf] at found
    cases found
  · intro stuck
    obtain ⟨e, member, rest, spells⟩ :=
      (built.mem_words_iff present w).mp (List.mem_of_getElem? at_n)
    cases rest with
    | nil =>
      rw [List.append_nil] at spells
      subst spells
      exact ((recognises.decodes n e.tokens e.payload at_n).mpr member).1
    | cons t rest => exact absurd ⟨e, member, rest, by simpa using spells⟩ (stuck t)

end

/-! ### Generation -/

/-- Constrained generation: at a state that is not terminal, the policy picks the next token from
what was emitted so far. -/
def TrieDfa.generate (dfa : TrieDfa γ) (policy : List TokenId → TokenId) :
    Nat → GrammarState → List TokenId → Result (GrammarState × List TokenId)
  | 0, state, emitted => .ok (state, emitted)
  | steps + 1, state, emitted =>
    if dfa.terminal state then .ok (state, emitted)
    else match dfa.advance state (policy emitted) with
      | .error status => .error status
      | .ok next => generate dfa policy steps next (emitted ++ [policy emitted])

/-- The policy picks an allowed token wherever generation can get to. -/
def TrieDfa.Obeys (dfa : TrieDfa γ) (policy : List TokenId → TokenId) : Prop :=
  ∀ emitted state arcs, dfa.advanceAll TrieDfa.root emitted = .ok state →
    dfa.terminal state = false → dfa.allowed state = .ok arcs → policy emitted ∈ tokensOf arcs

/-- Generation from a word goes on to an entry, if there are enough steps left. -/
theorem generate_reaches {language : List (Encoded γ)} {builder : Builder γ}
    {words : List (List TokenId)} {dfa : TrieDfa γ} (built : Built language builder words)
    (flattens : Flattens builder.trie dfa) (recognises : Recognises language dfa words)
    (present : language ≠ []) (longest : Nat)
    (bounded : ∀ e ∈ language, e.tokens.length ≤ longest)
    {policy : List TokenId → TokenId} (obeys : dfa.Obeys policy) (steps n : Nat)
    (w : List TokenId) (at_n : words[n]? = some w) (left : longest ≤ w.length + steps) :
    ∃ s v id, dfa.generate policy steps ⟨n⟩ w = .ok (s, v) ∧ dfa.terminal s = true ∧
      v.length ≤ longest ∧ dfa.decodeTerminal s = .ok id ∧ ⟨id, v⟩ ∈ language := by
  have ends : ∀ m v, words[m]? = some v → dfa.terminal ⟨m⟩ = true → v.length ≤ longest ∧
      ∃ id, dfa.decodeTerminal ⟨m⟩ = .ok id ∧ ⟨id, v⟩ ∈ language := by
    intro m v at_m marked
    obtain ⟨id, decoded⟩ := recognises.decodable ⟨m⟩ marked v at_m
    have member := (recognises.decodes m v id at_m).mp ⟨marked, decoded⟩
    exact ⟨bounded _ member, id, decoded, member⟩
  induction steps generalizing n w with
  | zero =>
    -- a word of the full length cannot be continued
    have marked : dfa.terminal ⟨n⟩ = true := by
      apply (terminal_iff_stuck built flattens recognises present at_n).mpr
      rintro t ⟨e, member, begins⟩
      have length := begins.length_le
      have limit := bounded e member
      rw [List.length_append, List.length_singleton] at length
      omega
    obtain ⟨short, id, decoded, member⟩ := ends n w at_n marked
    exact ⟨⟨n⟩, w, id, rfl, marked, short, decoded, member⟩
  | succ steps ih =>
    rw [TrieDfa.generate]
    split
    next marked =>
      obtain ⟨short, id, decoded, member⟩ := ends n w at_n marked
      exact ⟨⟨n⟩, w, id, rfl, marked, short, decoded, member⟩
    next unmarked =>
      rw [Bool.not_eq_true] at unmarked
      obtain ⟨arcs, mask, _, listed⟩ := allowed_mask built flattens at_n
      have arrived : dfa.advanceAll TrieDfa.root w = .ok ⟨n⟩ :=
        (recognises.advanceAll_iff recognises.root w ⟨n⟩).mpr at_n
      obtain ⟨next, taken⟩ := (listed _).mp (obeys w ⟨n⟩ arcs arrived unmarked mask)
      rw [taken]
      apply ih next.value
      · exact (recognises.step n w (policy w) next at_n).mp taken
      · rw [List.length_append, List.length_singleton]
        omega

/-- The masks of a built automaton are exact: after tokens that lead from the root to a state, it
allows exactly the tokens that keep the list the beginning of an entry, in increasing order, and
it allows none exactly when the state is terminal. Every state can be reached, and generation
under any policy that picks allowed tokens ends, within the longest sequence, at a terminal state
that decodes to the entry emitted. -/
theorem masks_exact {memory : Memory} {language : List EncodedChoice} {config : TokenDfaConfig}
    {dfa : TokenDfa} (built : TokenDfa.build memory language config = .ok dfa) :
    (∀ p s, dfa.advanceAll TrieDfa.root p = .ok s →
      ∃ arcs, dfa.allowed s = .ok arcs ∧ (tokensOf arcs).Pairwise (· < ·) ∧
        (∀ t, t ∈ tokensOf arcs ↔ Viable language (p ++ [t])) ∧
        (∀ t, (∃ next, dfa.advance s t = .ok next) ↔ Viable language (p ++ [t])) ∧
        (arcs = [] ↔ dfa.terminal s = true)) ∧
      (∀ n < dfa.states.length, ∃ p, dfa.advanceAll TrieDfa.root p = .ok ⟨n⟩) ∧
      ∀ policy, dfa.Obeys policy → ∃ s w id,
        dfa.generate policy config.maximumSequenceTokens.toNat TrieDfa.root [] = .ok (s, w) ∧
          dfa.terminal s = true ∧ w.length ≤ config.maximumSequenceTokens.toNat ∧
          dfa.decodeTerminal s = .ok id ∧ ⟨id, w⟩ ∈ language := by
  obtain ⟨builder, words, grown, flattens, payloads, inserted, present, few⟩ := build_flattens built
  have recognises : Recognises language dfa words := by
    refine recognises_of_built grown ?_ flattens payloads
    have limit := config.maximumEntries.toNat_lt
    simp only [noTerminal, UInt32.size]
    omega
  have bounded := insertEntries_bounded inserted
  refine ⟨?_, ?_, ?_⟩
  · intro p s arrived
    have at_s : words[s.value]? = some p :=
      (recognises.advanceAll_iff recognises.root p s).mp arrived
    obtain ⟨arcs, mask, increasing, listed⟩ := allowed_mask grown flattens at_s
    have viable := advance_viable grown present recognises at_s
    refine ⟨arcs, mask, increasing, fun t => (listed t).trans (viable t), viable, ?_⟩
    rw [terminal_iff_stuck grown flattens recognises present at_s]
    constructor
    · rintro rfl t viable'
      exact absurd ((listed t).mpr ((viable t).mpr viable')) List.not_mem_nil
    · intro stuck
      apply List.map_eq_nil_iff.mp
      apply List.eq_nil_iff_forall_not_mem.mpr
      exact fun t member => stuck t ((viable t).mp ((listed t).mp member))
  · intro n inside
    rw [← recognises.size] at inside
    exact ⟨words[n], (recognises.advanceAll_iff recognises.root _ ⟨n⟩).mpr
      (List.getElem?_eq_getElem inside)⟩
  · intro policy obeys
    exact generate_reaches grown flattens recognises present _ bounded obeys _ 0 []
      recognises.root (by simp)

/-- After the first token of two choices the mask allows what either goes on with. -/
theorem masks_exact_two_choices :
    let dfa : TokenDfa :=
      ⟨[⟨0, 1, noTerminal⟩, ⟨1, 2, noTerminal⟩, ⟨3, 0, 0⟩, ⟨3, 0, 1⟩],
        [⟨1, ⟨1⟩⟩, ⟨2, ⟨2⟩⟩, ⟨3, ⟨3⟩⟩], [7, 9]⟩
    ∃ arcs, dfa.allowed ⟨1⟩ = .ok arcs ∧ (3 ∈ tokensOf arcs) ∧ (4 ∉ tokensOf arcs) := by
  have built : TokenDfa.build (fun _ => true) [⟨7, [1, 2]⟩, ⟨9, [1, 3]⟩] ⟨5, 2, 9, 9, 9⟩ =
      .ok ⟨[⟨0, 1, noTerminal⟩, ⟨1, 2, noTerminal⟩, ⟨3, 0, 0⟩, ⟨3, 0, 1⟩],
        [⟨1, ⟨1⟩⟩, ⟨2, ⟨2⟩⟩, ⟨3, ⟨3⟩⟩], [7, 9]⟩ := by decide +kernel
  obtain ⟨arcs, mask, _, listed, _⟩ := (masks_exact built).1 [1] ⟨1⟩ (by decide +kernel)
  refine ⟨arcs, mask, (listed 3).mpr ⟨⟨9, [1, 3]⟩, by decide, by decide⟩, ?_⟩
  rw [listed 4]
  rintro ⟨e, member, begins⟩
  revert e
  decide

end MarketForge.Grammar
