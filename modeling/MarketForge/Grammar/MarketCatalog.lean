import MarketForge.Grammar.Acceptance
import MarketForge.Grammar.CatalogGenerator

/-!
# The compiled market catalog

`renderCatalog` writes the rows of the generator as one array of tokens and one of entries, which
point into the first. The C++ compiler accepts the two arrays if their constants fit the narrow
fields (`RenderedCatalog.Compiles`), and `SmolLm2MarketActionCatalog.create` reads them back. For
every catalog the generator compiles, this gives the sequences of the generator again
(`catalog_agrees`).
-/
namespace MarketForge.Grammar

/-- A line of `kGeneratedEntries`. -/
structure RenderedEntry where
  kind : ActionKind
  quantity : Nat
  tick : Nat
  tokenOffset : Nat
  tokenCount : Nat
  deriving DecidableEq, Repr

/-- The arrays of the rendered text. -/
structure RenderedCatalog where
  tokens : List Int
  entries : List RenderedEntry
  deriving DecidableEq, Repr

/-- The loop over the rows, with the arrays so far. -/
def renderRows : List CatalogRow → List Int → List RenderedEntry → RenderedCatalog
  | [], flatTokens, entries => ⟨flatTokens, entries⟩
  | row :: rest, flatTokens, entries =>
    renderRows rest (flatTokens ++ row.tokens)
      (entries ++ [⟨row.kind, row.quantity, row.tick, flatTokens.length, row.tokens.length⟩])

def renderCatalog (rows : List CatalogRow) : RenderedCatalog := renderRows rows [] []

structure GeneratedCatalogEntry where
  kind : ActionKind
  quantity : UInt8
  tick : UInt8
  tokenOffset : UInt32
  tokenCount : UInt8
  deriving DecidableEq, Repr

/-- The arrays as constants of the program, with what it asserts of their sizes. -/
structure GeneratedCatalog where
  tokens : List TokenId
  entries : List GeneratedCatalogEntry
  complete : entries.length = 1585
  addressable : tokens.length < UInt32.size - 1

/-- The constants of a line fit its fields. A narrowing would not compile. -/
def RenderedEntry.Fits (entry : RenderedEntry) : Prop :=
  entry.quantity < UInt8.size ∧ entry.tick < UInt8.size ∧ entry.tokenOffset < UInt32.size ∧
    entry.tokenCount < UInt8.size

instance (entry : RenderedEntry) : Decidable entry.Fits := inferInstanceAs (Decidable (_ ∧ _))

def RenderedEntry.narrow (entry : RenderedEntry) : GeneratedCatalogEntry :=
  ⟨entry.kind, .ofNat entry.quantity, .ofNat entry.tick, .ofNat entry.tokenOffset,
    .ofNat entry.tokenCount⟩

namespace RenderedCatalog

structure Compiles (rendered : RenderedCatalog) : Prop where
  tokens : ∀ token ∈ rendered.tokens, 0 ≤ token ∧ token < UInt32.size
  entries : ∀ entry ∈ rendered.entries, entry.Fits
  complete : rendered.entries.length = 1585
  addressable : rendered.tokens.length < UInt32.size - 1

/-- The constants of a program with the rendered text. -/
def generated (rendered : RenderedCatalog) (compiles : rendered.Compiles) : GeneratedCatalog where
  tokens := rendered.tokens.map Int.toNat
  entries := rendered.entries.map RenderedEntry.narrow
  complete := by rw [List.length_map, compiles.complete]
  addressable := by
    rw [List.length_map]
    exact compiles.addressable

end RenderedCatalog

def generatedAction (entry : GeneratedCatalogEntry) : Result Action :=
  if entry.kind = .hold then
    if entry.quantity ≠ 0 ∨ entry.tick ≠ 0 then .error (.failure .invalidFormat)
    else .ok .hold
  else if entry.kind = .buyYes then Action.buyYes entry.quantity.toNat entry.tick.toNat
  else if entry.kind = .sellYes then Action.sellYes entry.quantity.toNat entry.tick.toNat
  else .error (.failure .invalidFormat)

structure SmolLm2MarketActionCatalog where
  dfa : ActionDfa
  entries : List EncodedAction

namespace SmolLm2MarketActionCatalog

/-- The loop over the generated entries, with the entries so far. The reservation was the first
allocation, and each sequence is one. -/
def createEntries (memory : Memory) (tokens : List TokenId) :
    List GeneratedCatalogEntry → List EncodedAction → Result (List EncodedAction)
  | [], entries => .ok entries
  | generated :: rest, entries =>
    let action := generatedAction generated
    -- The sum is one of 64-bit numbers, which is exact.
    let last := generated.tokenOffset.toNat + generated.tokenCount.toNat
    match action with
    | .error _ => .error (.failure .invalidFormat)
    | .ok action =>
      if generated.tokenCount = 0 ∨ last > tokens.length then .error (.failure .invalidFormat)
      else if ¬ memory (entries.length + 1) then .error (.failure .allocationFailed)
      else
        let sequence := (tokens.drop generated.tokenOffset.toNat).take generated.tokenCount.toNat
        createEntries memory tokens rest (entries ++ [⟨action, sequence⟩])

def dfaConfig : ActionDfaConfig := ⟨.ofNat vocabularySize, 12, 4096, 65536, 65536⟩

def create (memory : Memory) (generated : GeneratedCatalog) :
    Result SmolLm2MarketActionCatalog :=
  if ¬ memory 0 then .error (.failure .allocationFailed)
  else match createEntries memory generated.tokens generated.entries [] with
    | .error status => .error status
    | .ok entries =>
      match ActionDfa.build (fun point => memory (entries.length + 1 + point)) entries
          dfaConfig with
      | .error status => .error status
      | .ok dfa => .ok ⟨dfa, entries⟩

def tokens (catalog : SmolLm2MarketActionCatalog) (action : Action) : Result (List TokenId) :=
  match catalog.entries.find? fun entry => entry.payload = action with
  | some entry => .ok entry.tokens
  | none => .error (.failure .invalidArgument)

end SmolLm2MarketActionCatalog

/-! ### The arrays -/

/-- The lines of rows whose tokens start at an offset. -/
def linesFrom : Nat → List CatalogRow → List RenderedEntry
  | _, [] => []
  | offset, row :: rest =>
    ⟨row.kind, row.quantity, row.tick, offset, row.tokens.length⟩ ::
      linesFrom (offset + row.tokens.length) rest

theorem renderRows_eq (rows : List CatalogRow) (flatTokens : List Int)
    (entries : List RenderedEntry) :
    renderRows rows flatTokens entries =
      ⟨flatTokens ++ rows.flatMap CatalogRow.tokens,
        entries ++ linesFrom flatTokens.length rows⟩ := by
  induction rows generalizing flatTokens entries with
  | nil => simp [renderRows, linesFrom]
  | cons row rest ih =>
    rw [renderRows, ih]
    simp [linesFrom]

theorem length_linesFrom (offset : Nat) (rows : List CatalogRow) :
    (linesFrom offset rows).length = rows.length := by
  induction rows generalizing offset with
  | nil => rfl
  | cons row rest ih => exact congrArg (· + 1) (ih _)

/-- Rows whose actions and sequences fit the entries of the C++ catalog. -/
structure RowFits (row : CatalogRow) : Prop where
  action : if row.kind = .hold then row.quantity = 0 ∧ row.tick = 0
    else Action.inBounds row.quantity row.tick
  present : row.tokens ≠ []
  short : row.tokens.length ≤ maximumTokens
  inside : ∀ token ∈ row.tokens, 0 ≤ token ∧ token < vocabularySize

theorem RowFits.small {row : CatalogRow} (fits : RowFits row) :
    row.quantity ≤ 8 ∧ row.tick ≤ 99 := by
  have action := fits.action
  split at action
  next => omega
  next => exact ⟨action.1.2, action.2.2⟩

theorem flat_length {rows : List CatalogRow} (fits : ∀ row ∈ rows, RowFits row) :
    (rows.flatMap CatalogRow.tokens).length ≤ rows.length * maximumTokens := by
  induction rows with
  | nil => simp
  | cons row rest ih =>
    simp only [List.forall_mem_cons] at fits
    have tail := ih fits.2
    have head := fits.1.short
    rw [List.flatMap_cons, List.length_append, List.length_cons, Nat.succ_mul]
    omega

/-- The offset of a line lies within the tokens. -/
theorem line_fits {rows : List CatalogRow} {offset : Nat} {entry : RenderedEntry}
    (fits : ∀ row ∈ rows, RowFits row)
    (room : offset + (rows.flatMap CatalogRow.tokens).length < UInt32.size)
    (member : entry ∈ linesFrom offset rows) : entry.Fits := by
  induction rows generalizing offset with
  | nil => cases member
  | cons row rest ih =>
    simp only [List.forall_mem_cons] at fits
    rw [List.flatMap_cons, List.length_append] at room
    rcases List.mem_cons.mp member with rfl | later
    · have small := fits.1.small
      have short := fits.1.short
      simp only [RenderedEntry.Fits, maximumTokens, UInt8.size] at short ⊢
      omega
    · exact ih fits.2 (by omega) later

/-- The C++ compiler accepts the arrays of a complete catalog. -/
theorem render_compiles {rows : List CatalogRow} (complete : rows.length = 1585)
    (fits : ∀ row ∈ rows, RowFits row) : (renderCatalog rows).Compiles := by
  have total := flat_length fits
  rw [complete, maximumTokens] at total
  rw [renderCatalog, renderRows_eq]
  refine ⟨?_, ?_, ?_, ?_⟩
  · intro token member
    obtain ⟨row, listed, inside⟩ := List.mem_flatMap.mp (by simpa using member)
    have bounds := (fits row listed).inside token inside
    simp only [vocabularySize, UInt32.size] at bounds ⊢
    omega
  · intro entry member
    refine line_fits fits ?_ (by simpa using member)
    simp only [UInt32.size]
    omega
  · simp [length_linesFrom, complete]
  · simp only [List.nil_append, UInt32.size]
    omega

/-! ### Reading the arrays -/

/-- An entry of the C++ catalog with the action and the sequence of a row. -/
structure Spells (row : CatalogRow) (entry : EncodedAction) : Prop where
  kind : entry.payload.kind = row.kind
  quantity : entry.payload.quantity = row.quantity
  tick : entry.payload.priceTick = row.tick
  tokens : entry.tokens = row.tokens.map Int.toNat

/-- The action of a line is the one of its row. -/
theorem generatedAction_row {row : CatalogRow} (fits : RowFits row) (offset : Nat) :
    ∃ action, generatedAction (RenderedEntry.narrow
        ⟨row.kind, row.quantity, row.tick, offset, row.tokens.length⟩) = .ok action ∧
      action.kind = row.kind ∧ action.quantity = row.quantity ∧ action.priceTick = row.tick := by
  have small := fits.small
  have quantity : (UInt8.ofNat row.quantity).toNat = row.quantity := by
    rw [UInt8.toNat_ofNat']
    omega
  have tick : (UInt8.ofNat row.tick).toNat = row.tick := by
    rw [UInt8.toNat_ofNat']
    omega
  have action := fits.action
  simp only [generatedAction, RenderedEntry.narrow]
  cases kind : row.kind with
  | hold =>
    rw [kind, if_pos rfl] at action
    simp [action, Action.hold]
  | buyYes =>
    rw [kind, if_neg (by simp)] at action
    simp [Action.buyYes, quantity, tick, action]
  | sellYes =>
    rw [kind, if_neg (by simp)] at action
    simp [Action.sellYes, quantity, tick, action]

open SmolLm2MarketActionCatalog in
/-- The loop reads the line of a row as the entry of the row, and goes on if there is memory. -/
theorem createEntries_row {row : CatalogRow} (fits : RowFits row) (before after : List TokenId)
    (addressable : before.length + row.tokens.length < UInt32.size) :
    ∃ entry, Spells row entry ∧ ∀ memory rest entries,
      createEntries memory (before ++ (row.tokens.map Int.toNat ++ after)) (RenderedEntry.narrow
          ⟨row.kind, row.quantity, row.tick, before.length, row.tokens.length⟩ :: rest) entries =
        if ¬ memory (entries.length + 1) then .error (.failure .allocationFailed)
        else createEntries memory (before ++ (row.tokens.map Int.toNat ++ after)) rest
          (entries ++ [entry]) := by
  obtain ⟨action, read, kind, quantity, tick⟩ := generatedAction_row fits before.length
  have short := fits.short
  have offset : (UInt32.ofNat before.length).toNat = before.length := by
    rw [UInt32.toNat_ofNat']
    simp only [UInt32.size] at addressable
    omega
  have count : (UInt8.ofNat row.tokens.length).toNat = row.tokens.length := by
    rw [UInt8.toNat_ofNat']
    simp only [maximumTokens] at short
    omega
  have nonzero : UInt8.ofNat row.tokens.length ≠ 0 := by
    intro zero
    rw [zero] at count
    exact fits.present (List.length_eq_zero_iff.mp count.symm)
  refine ⟨⟨action, row.tokens.map Int.toNat⟩, ⟨kind, quantity, tick, rfl⟩, ?_⟩
  intro memory rest entries
  rw [createEntries, read]
  simp only [RenderedEntry.narrow, offset, count, nonzero, false_or]
  rw [if_neg (by simp), List.drop_left,
    List.take_left' (by rw [List.length_map])]

open SmolLm2MarketActionCatalog in
/-- The loop reads the entries of the rows, if there is memory for their sequences. -/
theorem createEntries_rows {rows : List CatalogRow} {before tokens : List TokenId}
    (fits : ∀ row ∈ rows, RowFits row)
    (layout : tokens = before ++ (rows.flatMap CatalogRow.tokens).map Int.toNat)
    (addressable : tokens.length < UInt32.size) :
    ∃ added, List.Forall₂ Spells rows added ∧ ∀ memory entries,
      createEntries memory tokens ((linesFrom before.length rows).map RenderedEntry.narrow)
          entries =
        if ∀ i < rows.length, memory (entries.length + 1 + i) = true then .ok (entries ++ added)
        else .error (.failure .allocationFailed) := by
  induction rows generalizing before with
  | nil =>
    refine ⟨[], .nil, fun memory entries => ?_⟩
    rw [if_pos (by simp), List.append_nil]
    rfl
  | cons row rest ih =>
    simp only [List.forall_mem_cons] at fits
    rw [List.flatMap_cons, List.map_append] at layout
    have bounded : before.length + row.tokens.length < UInt32.size := by
      rw [layout, List.length_append, List.length_append, List.length_map] at addressable
      omega
    have onward : before.length + row.tokens.length =
        (before ++ row.tokens.map Int.toNat).length := by simp
    obtain ⟨entry, spells, step⟩ :=
      createEntries_row fits.1 before ((rest.flatMap CatalogRow.tokens).map Int.toNat) bounded
    obtain ⟨added, related, later⟩ := ih fits.2 (by rw [layout, List.append_assoc])
    refine ⟨entry :: added, .cons spells related, fun memory entries => ?_⟩
    rw [linesFrom, List.map_cons, layout, step, ← layout, onward, later]
    have points : (∀ i < (row :: rest).length, memory (entries.length + 1 + i) = true) ↔
        memory (entries.length + 1) = true ∧
          ∀ i < rest.length, memory ((entries ++ [entry]).length + 1 + i) = true := by
      rw [List.length_cons, Nat.forall_lt_succ_left]
      simp only [List.length_append, List.length_singleton, Nat.add_zero, Nat.add_right_comm _ 1,
        ← Nat.add_assoc]
    by_cases granted : memory (entries.length + 1) = true
    · simp only [points, granted, not_true_eq_false, if_false, true_and, List.append_assoc,
        List.singleton_append]
    · rw [if_pos granted, if_neg fun all => granted (points.mp all).1]

/-! ### The language -/

/-- What tells the actions of the language apart. -/
def ActionText.key (action : ActionText) : ActionKind × Nat × Nat :=
  (action.1, action.2.1, action.2.2.1)

theorem keys_actionLanguage : actionLanguage.map ActionText.key =
    (.hold, 0, 0) :: [ActionKind.buyYes, .sellYes].flatMap fun kind =>
      (List.range' 1 8).flatMap fun quantity =>
        (List.range' 1 99).map fun tick => (kind, quantity, tick) := by
  simp [actionLanguage, ActionText.key, Function.comp_def, List.map_flatMap]

/-- The keys of the language are the actions. -/
theorem mem_keys_iff (kind : ActionKind) (quantity tick : Nat) :
    (kind, quantity, tick) ∈ actionLanguage.map ActionText.key ↔
      if kind = .hold then quantity = 0 ∧ tick = 0 else Action.inBounds quantity tick := by
  rw [keys_actionLanguage]
  cases kind <;> simp [Action.inBounds, List.mem_range'_1] <;> omega

theorem keys_nodup : (actionLanguage.map ActionText.key).Nodup := by
  rw [keys_actionLanguage, List.nodup_cons, List.nodup_flatMap]
  refine ⟨by simp, fun kind _ => ?_, ?_⟩
  · rw [List.nodup_flatMap]
    constructor
    · intro quantity _
      exact (List.nodup_range' 1).map fun a b same => by simpa using same
    · refine (List.nodup_range' 1).imp fun {a b} different => ?_
      -- The lists of two quantities differ in every quantity.
      rintro key first second
      obtain ⟨tick, _, rfl⟩ := List.mem_map.mp first
      obtain ⟨tick', _, same⟩ := List.mem_map.mp second
      simp only [Prod.mk.injEq] at same
      exact different same.2.1.symm
  · rw [List.pairwise_pair]
    rintro key first second
    simp only [List.mem_flatMap, List.mem_map] at first second
    obtain ⟨quantity, _, tick, _, rfl⟩ := first
    obtain ⟨quantity', _, tick', _, same⟩ := second
    simp at same

/-! ### The catalog -/

theorem rowFits_of_accepted {tokenizer : Tokenizer} {action : ActionText}
    (listed : action ∈ actionLanguage) (accepted : Accepted tokenizer action.2.2.2) :
    RowFits (rowOf tokenizer action) where
  action := (mem_keys_iff _ _ _).mp (List.mem_map_of_mem listed)
  present := accepted.present
  short := accepted.short
  inside := accepted.inside

/-- A prefix of two sequences of naturals is one of the sequences of integers. -/
private theorem isPrefix_of_toNat {a b : List Int} (natural : ∀ t ∈ a, 0 ≤ t)
    (natural' : ∀ t ∈ b, 0 ≤ t) (initial : (a.map Int.toNat).IsPrefix (b.map Int.toNat)) :
    a.IsPrefix b := by
  have back : ∀ l : List Int, (∀ t ∈ l, 0 ≤ t) → (l.map Int.toNat).map Int.ofNat = l := by
    intro l nonnegative
    rw [List.map_map]
    refine (List.map_congr_left fun t member => ?_).trans (List.map_id l)
    exact Int.toNat_of_nonneg (nonnegative t member)
  have mapped := initial.map Int.ofNat
  rwa [back a natural, back b natural'] at mapped

/-- A language has at most as many prefixes as its sequences have tokens, and one more for each
sequence. -/
theorem card_prefixes_le {γ : Type} {language : List (Encoded γ)} {limit : Nat}
    (short : ∀ e ∈ language, e.tokens.length ≤ limit) :
    (prefixes language).card ≤ language.length * (limit + 1) := by
  have total : (language.flatMap fun encoded => encoded.tokens.inits).length ≤
      language.length * (limit + 1) := by
    induction language with
    | nil => simp
    | cons e rest ih =>
      simp only [List.forall_mem_cons] at short
      have tail := ih short.2
      rw [List.flatMap_cons, List.length_append, List.length_inits, List.length_cons,
        Nat.succ_mul]
      omega
  exact (Finset.card_le_card (Finset.erase_subset _ _)).trans
    ((List.toFinset_card_le _).trans total)

private theorem map_eq_of_related {α β δ : Type} {related : α → β → Prop} {items : List α}
    {results : List β} {f : α → δ} {g : β → δ} (pairs : List.Forall₂ related items results)
    (same : ∀ a b, related a b → g b = f a) : results.map g = items.map f := by
  induction pairs with
  | nil => rfl
  | cons here _ ih => rw [List.map_cons, List.map_cons, same _ _ here, ih]

/-- The bounds of an action are no part of its value. -/
theorem action_eq {a b : Action} (kind : a.kind = b.kind) (quantity : a.quantity = b.quantity)
    (tick : a.priceTick = b.priceTick) : a = b := by
  cases a
  cases b
  simp only [Action.mk.injEq]
  exact ⟨kind, quantity, tick⟩

/-- The entries of accepted rows are a well-formed language. -/
theorem entries_wellFormed {rows : List CatalogRow} {entries : List EncodedAction}
    (complete : rows.length = 1585) (fits : ∀ row ∈ rows, RowFits row)
    (keys : (rows.map fun row => (row.kind, row.quantity, row.tick)).Nodup)
    (apart : rows.Pairwise Incomparable) (related : List.Forall₂ Spells rows entries) :
    WellFormed SmolLm2MarketActionCatalog.dfaConfig (fun _ => false) entries := by
  have length : entries.length = 1585 := related.length_eq ▸ complete
  have row : ∀ e ∈ entries, ∃ row ∈ rows, Spells row e := fun e member =>
    forall₂_right related e member
  have short : ∀ e ∈ entries, e.tokens.length ≤ maximumTokens := by
    intro e member
    obtain ⟨row, listed, spells⟩ := row e member
    rw [spells.tokens, List.length_map]
    exact (fits row listed).short
  have card := card_prefixes_le short
  rw [length, maximumTokens] at card
  -- an entry has the action and the tokens of its row
  have same_keys : entries.map (fun e => (e.payload.kind, e.payload.quantity,
      e.payload.priceTick)) = rows.map fun row => (row.kind, row.quantity, row.tick) :=
    map_eq_of_related related fun row e spells => by
      rw [spells.kind, spells.quantity, spells.tick]
  have same_tokens : entries.map Encoded.tokens =
      rows.map fun row => row.tokens.map Int.toNat :=
    map_eq_of_related related fun row e spells => spells.tokens
  -- the limits of the configuration are above what 1585 short entries can reach
  refine ⟨⟨fun _ _ => rfl, ?_, ?_, ?_⟩, ?_, by decide, ?_, ?_, ?_⟩
  · have distinct : ((entries.map Encoded.payload).map fun action =>
        (action.kind, action.quantity, action.priceTick)).Nodup := by
      rw [List.map_map]
      exact same_keys ▸ keys
    exact distinct.of_map _
  · intro e member
    obtain ⟨row, listed, spells⟩ := row e member
    refine ⟨?_, short e member, ?_⟩
    · rw [spells.tokens]
      exact fun empty => (fits row listed).present (List.map_eq_nil_iff.mp empty)
    · intro token spelled
      rw [spells.tokens] at spelled
      obtain ⟨constant, inside, rfl⟩ := List.mem_map.mp spelled
      have bounds := (fits row listed).inside constant inside
      have below : constant.toNat < 49152 := by
        simp only [vocabularySize] at bounds
        omega
      exact below
  · rw [← List.pairwise_map (f := Encoded.tokens)
      (R := fun a b : List TokenId => ¬ a.IsPrefix b ∧ ¬ b.IsPrefix a), same_tokens,
      List.pairwise_map]
    refine List.Pairwise.imp_of_mem (fun {a b} listed listed' apart => ?_) apart
    have natural := fun t member => ((fits a listed).inside t member).1
    have natural' := fun t member => ((fits b listed').inside t member).1
    exact ⟨fun initial => apart.1 (isPrefix_of_toNat natural natural' initial),
      fun initial => apart.2 (isPrefix_of_toNat natural' natural initial)⟩
  · intro empty
    rw [empty] at length
    cases length
  · rw [length]
    decide
  · have limit : SmolLm2MarketActionCatalog.dfaConfig.maximumStates.toNat = 65536 := rfl
    omega
  · have limit : SmolLm2MarketActionCatalog.dfaConfig.maximumArcs.toNat = 65536 := rfl
    omega

/-- Walking the tokens of an entry ends where the automaton decodes to its payload. -/
theorem Recognises.walk {γ : Type} {language : List (Encoded γ)} {dfa : TrieDfa γ}
    {words : List (List TokenId)} (recognises : Recognises language dfa words)
    {e : Encoded γ} (member : e ∈ language) :
    ∃ s, dfa.advanceAll TrieDfa.root e.tokens = .ok s ∧ dfa.terminal s = true ∧
      dfa.decodeTerminal s = .ok e.payload := by
  obtain ⟨n, at_n⟩ := List.mem_iff_getElem?.mp (recognises.listed e member)
  have arrived := (recognises.advanceAll_iff recognises.root e.tokens ⟨n⟩).mpr at_n
  exact ⟨⟨n⟩, arrived, (recognises.decodes n e.tokens e.payload at_n).mpr member⟩

namespace SmolLm2MarketActionCatalog

/-- Looking an action up finds its entry, if actions are told apart. -/
theorem tokens_of_mem {catalog : SmolLm2MarketActionCatalog}
    (distinct : (catalog.entries.map Encoded.payload).Nodup) {e : EncodedAction}
    (member : e ∈ catalog.entries) : catalog.tokens e.payload = .ok e.tokens := by
  rw [tokens]
  cases found : catalog.entries.find? fun entry => entry.payload = e.payload with
  | none =>
    have absent := List.find?_eq_none.mp found e member
    simp at absent
  | some entry =>
    have same : entry.payload = e.payload := by simpa using List.find?_some found
    rw [List.inj_on_of_nodup_map distinct (List.mem_of_find?_eq_some found) member same]

/-- What a catalog made from the arrays of fitting rows holds. -/
theorem create_spells {rows : List CatalogRow} (compiles : (renderCatalog rows).Compiles)
    (fits : ∀ row ∈ rows, RowFits row) :
    ∃ entries, List.Forall₂ Spells rows entries ∧ ∀ memory,
      create memory ((renderCatalog rows).generated compiles) =
        if memory 0 = true ∧ ∀ i < rows.length, memory (1 + i) = true then
          match ActionDfa.build (fun point => memory (entries.length + 1 + point)) entries
              dfaConfig with
          | .error status => .error status
          | .ok dfa => .ok ⟨dfa, entries⟩
        else .error (.failure .allocationFailed) := by
  have addressable := compiles.addressable
  have value : renderCatalog rows = ⟨rows.flatMap CatalogRow.tokens, linesFrom 0 rows⟩ := by
    rw [renderCatalog, renderRows_eq]
    simp
  rw [value] at addressable
  obtain ⟨entries, related, read⟩ := @createEntries_rows rows [] _ fits rfl (by
    simp only [List.nil_append, List.length_map] at addressable ⊢
    omega)
  refine ⟨entries, related, fun memory => ?_⟩
  have tokens : ((renderCatalog rows).generated compiles).tokens =
      [] ++ (rows.flatMap CatalogRow.tokens).map Int.toNat := by
    simp only [RenderedCatalog.generated, value, List.nil_append]
  have lines : ((renderCatalog rows).generated compiles).entries =
      (linesFrom ([] : List TokenId).length rows).map RenderedEntry.narrow := by
    simp only [RenderedCatalog.generated, value, List.length_nil]
  rw [create, tokens, lines, read]
  simp only [List.length_nil, Nat.zero_add, List.nil_append]
  by_cases reserved : memory 0 = true
  · by_cases granted : ∀ i < rows.length, memory (1 + i) = true
    · rw [if_neg (not_not.mpr reserved), if_pos granted, if_pos ⟨reserved, granted⟩]
    · rw [if_neg (not_not.mpr reserved), if_neg granted, if_neg fun all => granted all.2]
  · rw [if_pos reserved, if_neg fun all => reserved all.1]

end SmolLm2MarketActionCatalog

/-- The generator and the runtime agree on every catalog that the generator compiles: its
sequences are incomparable, its arrays compile, the runtime builds an automaton from them, reads
each action's sequence back and decodes the sequence to the action. The scan of the generator
raises a collision exactly if some sequence is a proper prefix of another. -/
theorem catalog_agrees (tokenizer : Tokenizer) :
    (∀ rows, compileCatalog tokenizer = .ok rows →
      rows.Pairwise Incomparable ∧
      ∃ compiles : (renderCatalog rows).Compiles,
        (∃ catalog, SmolLm2MarketActionCatalog.create (fun _ => true)
          ((renderCatalog rows).generated compiles) = .ok catalog) ∧
        ∀ memory catalog, SmolLm2MarketActionCatalog.create memory
            ((renderCatalog rows).generated compiles) = .ok catalog →
          ∀ action : Action, ∃ text,
            (action.kind, action.quantity, action.priceTick, text) ∈ actionLanguage ∧
            catalog.tokens action = .ok ((tokenizer.encode text).map Int.toNat) ∧
            ∃ s, catalog.dfa.advanceAll TrieDfa.root ((tokenizer.encode text).map Int.toNat) =
                .ok s ∧ catalog.dfa.terminal s = true ∧
              catalog.dfa.decodeTerminal s = .ok action) ∧
    ∀ rows, compileRows tokenizer actionLanguage [] [] = .ok rows →
      ((∃ text other, scan (ordered rows) = .error (.collision text other)) ↔
        ∃ row ∈ rows, ∃ other ∈ rows, row.tokens.IsPrefix other.tokens ∧
          row.tokens ≠ other.tokens) := by
  constructor
  · intro rows compiled
    obtain ⟨rfl, accepted, apart⟩ := compileCatalog_rows compiled
    have fits : ∀ row ∈ actionLanguage.map (rowOf tokenizer), RowFits row := by
      intro row member
      obtain ⟨action, listed, rfl⟩ := List.mem_map.mp member
      exact rowFits_of_accepted listed (accepted action listed)
    have complete : (actionLanguage.map (rowOf tokenizer)).length = 1585 := by
      rw [List.length_map]
      exact actionLanguage_length
    have keys : ((actionLanguage.map (rowOf tokenizer)).map fun row =>
        (row.kind, row.quantity, row.tick)).Nodup := by
      rw [List.map_map]
      exact keys_nodup
    have compiles := render_compiles complete fits
    refine ⟨apart, compiles, ?_⟩
    obtain ⟨entries, related, created⟩ :=
      SmolLm2MarketActionCatalog.create_spells compiles fits
    have wellFormed := entries_wellFormed complete fits keys apart related
    constructor
    · obtain ⟨dfa, built⟩ := (build_accepts _ entries).mpr wellFormed
      refine ⟨⟨dfa, entries⟩, ?_⟩
      rw [created, if_pos ⟨rfl, fun _ _ => rfl⟩, ActionDfa.build, built]
    · intro memory catalog made action
      rw [created] at made
      split at made
      next =>
        split at made
        next => cases made
        next dfa built =>
          obtain rfl := Except.ok.inj made
          obtain ⟨words, recognises⟩ := build_recognises built
          -- The row of the action, its entry and what the runtime does with it.
          obtain ⟨listed, member, key⟩ := List.mem_map.mp
            ((mem_keys_iff action.kind action.quantity action.priceTick).mpr action.valid)
          obtain ⟨entry, stored, spells⟩ := forall₂_right related.flip (rowOf tokenizer listed)
            (List.mem_map_of_mem member)
          obtain ⟨kind, quantity, tick, text⟩ := listed
          obtain ⟨rfl, rfl, rfl⟩ : kind = action.kind ∧ quantity = action.quantity ∧
              tick = action.priceTick := by simpa [ActionText.key] using key
          have same : entry.payload = action :=
            action_eq spells.kind spells.quantity spells.tick
          have walk := recognises.walk stored
          have found := @SmolLm2MarketActionCatalog.tokens_of_mem ⟨dfa, entries⟩
            wellFormed.distinct entry stored
          rw [same, spells.tokens] at walk found
          exact ⟨text, member, found, walk⟩
      next => cases made
  · intro rows looped
    obtain ⟨rfl, accepted, distinct⟩ := (compileRows_ok_iff rfl (by simp)).mp looped
    rw [List.nil_append] at distinct ⊢
    refine scan_collision_iff (fun row member => ?_) distinct
    obtain ⟨action, listed, rfl⟩ := List.mem_map.mp member
    exact (accepted action listed).present

end MarketForge.Grammar
