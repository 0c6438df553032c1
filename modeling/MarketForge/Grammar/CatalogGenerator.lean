import Mathlib.Data.List.Nodup
import Mathlib.Data.List.Pairwise
import Mathlib.Data.Prod.Lex
import Mathlib.Data.String.Basic
import MarketForge.Grammar.Action
import MarketForge.Library.SortedWords

/-!
# The catalog generator

`compileCatalog` is the script that spells the market actions with the tokenizer it is locked to.
The tokenizer and its library are parameters. A row is accepted if its tokens pass the checks one
by one, and the rows are accepted together if no sequence is a prefix of another, which a scan of
the sorted sequences decides (`scan_ok_iff`). A Python integer of a token is an `Int`.
-/
namespace MarketForge.Grammar

def tokenizerBytes : Nat := 2104556

def tokenizerSha256 : String :=
  "9ca9acddb6525a194ec8ac7a87f24fbba7232a9a15ffa1af0c1224fcd888e47c"

def tokenizersVersion : String := "0.19.1"

def vocabularySize : Nat := 49152

def actionCount : Nat := 1585

def maximumTokens : Nat := 12

/-- An entry of `added_tokens`. -/
structure AddedToken where
  id : Int
  special : Bool

/-- The tokenizer file and what the tokenizer library makes of it. -/
structure Tokenizer where
  size : Nat
  sha256 : String
  version : String
  vocabSize : Nat
  addedTokens : List AddedToken
  unkToken : Option String
  tokenToId : String → Option Int
  encode : String → List Int
  decode : List Int → String

inductive CatalogError where
  | tokenizerSize
  | tokenizerSha256
  | tokenizersVersion (found : String)
  | vocabularySize
  | tokenLength (text : String)
  | outOfRange (text : String)
  | special (text : String)
  | unknown (text : String)
  | roundTrip (text : String)
  | duplicate (first text : String)
  | actionCount
  | collision (text other : String)
  deriving DecidableEq, Repr

/-- `repr` of a text without quotes and backslashes whose only control character is `\n`. -/
def pyRepr (text : String) : String := "'" ++ text.replace "\n" "\\n" ++ "'"

def CatalogError.message : CatalogError → String
  | .tokenizerSize => "tokenizer size does not match the locked artifact"
  | .tokenizerSha256 => "tokenizer SHA-256 does not match the lock"
  | .tokenizersVersion found => "tokenizers " ++ found ++ " != " ++ Grammar.tokenizersVersion
  | .vocabularySize => "tokenizer vocabulary size is not 49152"
  | .tokenLength text => "invalid token length for " ++ pyRepr text
  | .outOfRange text => "out-of-range token for " ++ pyRepr text
  | .special text => "special token in " ++ pyRepr text
  | .unknown text => "unknown token in " ++ pyRepr text
  | .roundTrip text => "decode round trip failed for " ++ pyRepr text
  | .duplicate first text => "duplicate token sequence: " ++ pyRepr first ++ ", " ++ pyRepr text
  | .actionCount => "canonical action count is not 1585"
  | .collision text other => "prefix collision: " ++ pyRepr text ++ ", " ++ pyRepr other

structure CatalogRow where
  kind : ActionKind
  quantity : Nat
  tick : Nat
  text : String
  tokens : List Int
  deriving DecidableEq, Repr

/-- An action of the language with its canonical text. -/
abbrev ActionText := ActionKind × Nat × Nat × String

def actionLanguage : List ActionText :=
  (.hold, 0, 0, "HOLD\n") :: [ActionKind.buyYes, .sellYes].flatMap fun kind =>
    let word := if kind = .buyYes then "BUY" else "SELL"
    (List.range' 1 8).flatMap fun quantity =>
      (List.range' 1 99).map fun tick =>
        (kind, quantity, tick,
          word ++ " YES " ++ toString quantity ++ " @ " ++ toString tick ++ "\n")

namespace Tokenizer

variable (tokenizer : Tokenizer)

def specialIds : List Int :=
  (tokenizer.addedTokens.filter AddedToken.special).map AddedToken.id

def unknownId : Option Int := tokenizer.unkToken.bind tokenizer.tokenToId

end Tokenizer

section Compile

variable (tokenizer : Tokenizer)

/-- The loop over the language, with the rows so far and the text of each sequence so far. -/
def compileRows : List ActionText → List CatalogRow → List (List Int × String) →
    Except CatalogError (List CatalogRow)
  | [], rows, _ => .ok rows
  | (kind, quantity, tick, text) :: rest, rows, sequences =>
    let tokens := tokenizer.encode text
    if tokens = [] ∨ tokens.length > maximumTokens then .error (.tokenLength text)
    else if ∃ token ∈ tokens, token < 0 ∨ token ≥ vocabularySize then .error (.outOfRange text)
    else if ∃ token ∈ tokens, token ∈ tokenizer.specialIds then .error (.special text)
    else if ∃ token ∈ tokens, tokenizer.unknownId = some token then .error (.unknown text)
    else if tokenizer.decode tokens ≠ text then .error (.roundTrip text)
    else match sequences.find? fun known => known.1 = tokens with
      | some known => .error (.duplicate known.2 text)
      | none =>
        compileRows rest (rows ++ [⟨kind, quantity, tick, text, tokens⟩])
          (sequences ++ [(tokens, text)])

/-- The inner loop of the scan: the sequences after one in sorted order. -/
def scanFrom (tokens : List Int) (text : String) : List (List Int × String) →
    Except CatalogError Unit
  | [] => .ok ()
  | (otherTokens, otherText) :: rest =>
    if otherTokens.take tokens.length = tokens then .error (.collision text otherText)
    else if otherTokens.take 1 ≠ tokens.take 1 then .ok ()
    else scanFrom tokens text rest

def scan : List (List Int × String) → Except CatalogError Unit
  | [] => .ok ()
  | (tokens, text) :: rest =>
    match scanFrom tokens text rest with
    | .error error => .error error
    | .ok () => scan rest

/-- The sequences with their texts in the order of Python's tuples. -/
def ordered (rows : List CatalogRow) : List (List Int × String) :=
  (rows.map fun row => (row.tokens, row.text)).mergeSort fun a b => decide (toLex a ≤ toLex b)

def compileCatalog : Except CatalogError (List CatalogRow) :=
  if tokenizer.size ≠ tokenizerBytes then .error .tokenizerSize
  else if tokenizer.sha256 ≠ tokenizerSha256 then .error .tokenizerSha256
  else if tokenizer.version ≠ tokenizersVersion then
    .error (.tokenizersVersion tokenizer.version)
  else if tokenizer.vocabSize ≠ vocabularySize then .error .vocabularySize
  else match compileRows tokenizer actionLanguage [] [] with
    | .error error => .error error
    | .ok rows =>
      if rows.length ≠ actionCount then .error .actionCount
      else match scan (ordered rows) with
        | .error error => .error error
        | .ok () => .ok rows

end Compile

/-! ### The rows -/

section Rows

variable (tokenizer : Tokenizer)

/-- The checks of one text. -/
structure Accepted (text : String) : Prop where
  present : tokenizer.encode text ≠ []
  short : (tokenizer.encode text).length ≤ maximumTokens
  inside : ∀ token ∈ tokenizer.encode text, 0 ≤ token ∧ token < vocabularySize
  ordinary : ∀ token ∈ tokenizer.encode text, token ∉ tokenizer.specialIds
  known : ∀ token ∈ tokenizer.encode text, tokenizer.unknownId ≠ some token
  faithful : tokenizer.decode (tokenizer.encode text) = text

/-- The row of an action. -/
def rowOf (action : ActionText) : CatalogRow :=
  ⟨action.1, action.2.1, action.2.2.1, action.2.2.2, tokenizer.encode action.2.2.2⟩

variable {tokenizer}

theorem compileRows_cons_iff {action : ActionText} {rest : List ActionText}
    {rows result : List CatalogRow} {sequences : List (List Int × String)} :
    compileRows tokenizer (action :: rest) rows sequences = .ok result ↔
      Accepted tokenizer action.2.2.2 ∧
      tokenizer.encode action.2.2.2 ∉ sequences.map Prod.fst ∧
      compileRows tokenizer rest (rows ++ [rowOf tokenizer action])
        (sequences ++ [(tokenizer.encode action.2.2.2, action.2.2.2)]) = .ok result := by
  -- one refusal after the other: the text is not accepted for the reason that was tested
  obtain ⟨kind, quantity, tick, text⟩ := action
  rw [compileRows]
  dsimp only
  split
  next refused =>
    refine iff_of_false (by simp) fun ⟨accepted, _⟩ => ?_
    exact refused.elim accepted.present (Nat.not_lt.mpr accepted.short)
  next spelled =>
    rw [not_or, Nat.not_lt] at spelled
    split
    next refused =>
      obtain ⟨token, member, outside⟩ := refused
      refine iff_of_false (by simp) fun ⟨accepted, _⟩ => ?_
      obtain ⟨above, below⟩ := accepted.inside token member
      exact outside.elim (not_lt.mpr above) (not_le.mpr below)
    next inside =>
      split
      next refused =>
        obtain ⟨token, member, special⟩ := refused
        exact iff_of_false (by simp) fun ⟨accepted, _⟩ => accepted.ordinary token member special
      next ordinary =>
        split
        next refused =>
          obtain ⟨token, member, unknown⟩ := refused
          exact iff_of_false (by simp) fun ⟨accepted, _⟩ => accepted.known token member unknown
        next known =>
          split
          next refused =>
            exact iff_of_false (by simp) fun ⟨accepted, _⟩ => refused accepted.faithful
          next faithful =>
            -- behind all of them it is accepted, and only a repetition is left to refuse
            have accepted : Accepted tokenizer text := by
              push Not at inside ordinary known faithful
              exact ⟨spelled.1, spelled.2, inside, ordinary, known, faithful⟩
            split
            next earlier found =>
              refine iff_of_false (by simp) fun ⟨_, unseen, _⟩ => unseen ?_
              have same : earlier.1 = tokenizer.encode text := by
                simpa using List.find?_some found
              exact same ▸ List.mem_map_of_mem (List.mem_of_find?_eq_some found)
            next absent =>
              have unseen : tokenizer.encode text ∉ sequences.map Prod.fst := by
                rw [List.find?_eq_none] at absent
                rintro seen
                obtain ⟨earlier, member, same⟩ := List.mem_map.mp seen
                exact absent earlier member (by simpa using same)
              simp only [accepted, unseen, not_false_eq_true, true_and]
              rfl

/-- The loop accepts the texts that pass the checks with distinct sequences. -/
theorem compileRows_ok_iff {language : List ActionText} {rows result : List CatalogRow}
    {sequences : List (List Int × String)}
    (recorded : sequences.map Prod.fst = rows.map CatalogRow.tokens)
    (distinct : (rows.map CatalogRow.tokens).Nodup) :
    compileRows tokenizer language rows sequences = .ok result ↔
      result = rows ++ language.map (rowOf tokenizer) ∧
      (∀ action ∈ language, Accepted tokenizer action.2.2.2) ∧
      (result.map CatalogRow.tokens).Nodup := by
  induction language generalizing rows sequences with
  | nil =>
    rw [compileRows, Except.ok.injEq, List.map_nil, List.append_nil]
    constructor
    · rintro rfl
      exact ⟨rfl, by simp, distinct⟩
    · exact fun finished => finished.1.symm
  | cons action rest ih =>
    have whole : rows ++ (action :: rest).map (rowOf tokenizer) =
        rows ++ [rowOf tokenizer action] ++ rest.map (rowOf tokenizer) := by simp
    rw [compileRows_cons_iff, recorded, whole, List.forall_mem_cons]
    have tokens : (rows ++ [rowOf tokenizer action]).map CatalogRow.tokens =
        rows.map CatalogRow.tokens ++ [tokenizer.encode action.2.2.2] := by simp [rowOf]
    have recorded' : (sequences ++ [(tokenizer.encode action.2.2.2, action.2.2.2)]).map
        Prod.fst = (rows ++ [rowOf tokenizer action]).map CatalogRow.tokens := by
      rw [tokens, List.map_append, recorded]
      rfl
    constructor
    · rintro ⟨accepted, unseen, later⟩
      have distinct' : ((rows ++ [rowOf tokenizer action]).map CatalogRow.tokens).Nodup := by
        rw [tokens, ← List.concat_eq_append]
        exact List.Nodup.concat unseen distinct
      obtain ⟨value, all, nodup⟩ := (ih recorded' distinct').mp later
      exact ⟨value, ⟨accepted, all⟩, nodup⟩
    · rintro ⟨rfl, ⟨accepted, all⟩, nodup⟩
      have distinct' : ((rows ++ [rowOf tokenizer action]).map CatalogRow.tokens).Nodup := by
        rw [List.map_append] at nodup
        exact (List.nodup_append.mp nodup).1
      have unseen : tokenizer.encode action.2.2.2 ∉ rows.map CatalogRow.tokens := by
        rw [tokens] at distinct'
        exact fun seen => (List.nodup_append.mp distinct').2.2 _ seen _ (by simp) rfl
      exact ⟨accepted, unseen, (ih recorded' distinct').mpr ⟨rfl, all, nodup⟩⟩

end Rows

/-! ### The scan -/

/-- Sequences of which neither is a prefix of the other. -/
def Incomparable (a b : CatalogRow) : Prop :=
  ¬ a.tokens.IsPrefix b.tokens ∧ ¬ b.tokens.IsPrefix a.tokens

theorem isPrefix_iff_take {a b : List Int} : a.IsPrefix b ↔ b.take a.length = a :=
  List.prefix_iff_eq_take.trans eq_comm

/-- The inner loop may stop where the first token changes, because the sequences are sorted. -/
theorem scanFrom_ok_iff {tokens : List Int} {text : String} {rest : List (List Int × String)}
    (present : tokens ≠ []) (spelled : ∀ other ∈ rest, other.1 ≠ [])
    (first : ∀ other ∈ rest, tokens ≤ other.1)
    (sorted : rest.Pairwise fun a b => a.1 ≤ b.1) :
    scanFrom tokens text rest = .ok () ↔ ∀ other ∈ rest, ¬ tokens.IsPrefix other.1 := by
  induction rest with
  | nil => simp [scanFrom]
  | cons other rest ih =>
    simp only [List.forall_mem_cons] at spelled first ⊢
    rw [List.pairwise_cons] at sorted
    rw [scanFrom]
    split
    next collision =>
      exact iff_of_false (by simp) fun apart => apart.1 (isPrefix_iff_take.mpr collision)
    next apart =>
      rw [← isPrefix_iff_take] at apart
      split
      next changed =>
        -- No later sequence starts with the first token again.
        refine iff_of_true rfl ⟨apart, fun later member => ?_⟩
        have past := SortedWords.head_past ⟨present, spelled.1, spelled.2 later member⟩ first.1
          (sorted.1 later member) changed
        exact SortedWords.not_isPrefix_of_head present past
      next =>
        rw [ih spelled.2 first.2 sorted.2]
        simp [apart]

theorem scan_sorted_iff {sequences : List (List Int × String)}
    (spelled : ∀ known ∈ sequences, known.1 ≠ [])
    (sorted : sequences.Pairwise fun a b => a.1 ≤ b.1) :
    scan sequences = .ok () ↔ sequences.Pairwise fun a b => ¬ a.1.IsPrefix b.1 := by
  induction sequences with
  | nil => simp [scan]
  | cons known rest ih =>
    simp only [List.forall_mem_cons] at spelled
    rw [List.pairwise_cons] at sorted ⊢
    rw [scan, ← ih spelled.2 sorted.2,
      ← @scanFrom_ok_iff known.1 known.2 rest spelled.1 spelled.2 sorted.1 sorted.2]
    cases found : scanFrom known.1 known.2 rest with
    | error error => simp
    | ok => simp

/-- An error of the scan is a collision. -/
theorem scan_error {sequences : List (List Int × String)} {error : CatalogError}
    (raised : scan sequences = .error error) : ∃ text other, error = .collision text other := by
  have inner : ∀ tokens text rest, scanFrom tokens text rest = .error error →
      ∃ text other, error = .collision text other := by
    intro tokens text rest raised
    induction rest with
    | nil => cases raised
    | cons other rest ih =>
      rw [scanFrom] at raised
      split at raised
      next => exact ⟨_, _, (Except.error.inj raised).symm⟩
      next =>
        split at raised
        next => cases raised
        next => exact ih raised
  induction sequences with
  | nil => cases raised
  | cons known rest ih =>
    rw [scan] at raised
    split at raised
    next found => exact inner _ _ _ (Except.error.inj raised ▸ found)
    next => exact ih raised

/-- On distinct sequences that are not empty, the scan of the sorted list decides whether any
two of them are comparable. -/
theorem scan_ok_iff {rows : List CatalogRow} (spelled : ∀ row ∈ rows, row.tokens ≠ [])
    (distinct : (rows.map CatalogRow.tokens).Nodup) :
    scan (ordered rows) = .ok () ↔ rows.Pairwise Incomparable := by
  have same : (ordered rows).Perm (rows.map fun row => (row.tokens, row.text)) :=
    List.mergeSort_perm _ _
  have tokens : ((ordered rows).map Prod.fst).Perm (rows.map CatalogRow.tokens) := by
    have mapped := same.map Prod.fst
    rwa [List.map_map] at mapped
  have sorted : (ordered rows).Pairwise fun a b => a.1 ≤ b.1 := by
    have transitive : ∀ a b c : List Int × String, decide (toLex a ≤ toLex b) →
        decide (toLex b ≤ toLex c) → decide (toLex a ≤ toLex c) := by
      intro a b c first second
      rw [decide_eq_true_eq] at first second ⊢
      exact le_trans first second
    have total : ∀ a b : List Int × String,
        decide (toLex a ≤ toLex b) || decide (toLex b ≤ toLex a) := by
      intro a b
      rw [Bool.or_eq_true, decide_eq_true_eq, decide_eq_true_eq]
      exact le_total _ _
    refine (List.pairwise_mergeSort transitive total _).imp fun {a b} below => ?_
    rw [decide_eq_true_eq, Prod.Lex.toLex_le_toLex] at below
    exact below.elim le_of_lt fun equal => equal.1.le
  have present : ∀ known ∈ ordered rows, known.1 ≠ [] := by
    intro known member
    obtain ⟨row, listed, rfl⟩ := List.mem_map.mp (same.mem_iff.mp member)
    exact spelled row listed
  have words := SortedWords.pairwise_incomparable_iff (List.pairwise_map.mpr sorted)
    (tokens.nodup_iff.mpr distinct)
  have unordered : (((ordered rows).map Prod.fst).Pairwise fun a b =>
      ¬ a.IsPrefix b ∧ ¬ b.IsPrefix a) ↔ (rows.map CatalogRow.tokens).Pairwise fun a b =>
        ¬ a.IsPrefix b ∧ ¬ b.IsPrefix a :=
    tokens.pairwise_iff fun apart => ⟨apart.2, apart.1⟩
  rw [scan_sorted_iff present sorted]
  have decided := words.trans unordered
  simp only [List.pairwise_map] at decided
  exact decided

/-- On such rows a collision is raised exactly if some sequence is a proper prefix of another. -/
theorem scan_collision_iff {rows : List CatalogRow} (spelled : ∀ row ∈ rows, row.tokens ≠ [])
    (distinct : (rows.map CatalogRow.tokens).Nodup) :
    (∃ text other, scan (ordered rows) = .error (.collision text other)) ↔
      ∃ row ∈ rows, ∃ other ∈ rows, row.tokens.IsPrefix other.tokens ∧
        row.tokens ≠ other.tokens := by
  have raised : (∃ text other, scan (ordered rows) = .error (.collision text other)) ↔
      ¬ rows.Pairwise Incomparable := by
    rw [← scan_ok_iff spelled distinct]
    cases scanned : scan (ordered rows) with
    | error error =>
      obtain ⟨text, other, rfl⟩ := scan_error scanned
      simp
    | ok => simp
  rw [raised, ← not_iff_not, not_not]
  have symmetric : Std.Symm Incomparable := ⟨fun _ _ apart => ⟨apart.2, apart.1⟩⟩
  push Not
  constructor
  · intro apart row member other listed initial
    by_contra different
    exact (apart.forall member listed fun same => different (same ▸ rfl)).1 initial
  · intro equal
    rw [List.Nodup, List.pairwise_map] at distinct
    refine List.Pairwise.imp_of_mem (fun {row other} member listed different => ?_) distinct
    exact ⟨fun initial => different (equal row member other listed initial),
      fun initial => different (equal other listed row member initial).symm⟩

/-! ### The catalog -/

theorem actionLanguage_length : actionLanguage.length = actionCount := by
  simp [actionLanguage, actionCount]

/-- What a compiled catalog is: a row for each action of the language, with sequences that pass
the checks and are incomparable. -/
theorem compileCatalog_rows {tokenizer : Tokenizer} {rows : List CatalogRow}
    (compiled : compileCatalog tokenizer = .ok rows) :
    rows = actionLanguage.map (rowOf tokenizer) ∧
      (∀ action ∈ actionLanguage, Accepted tokenizer action.2.2.2) ∧
      rows.Pairwise Incomparable := by
  rw [compileCatalog] at compiled
  iterate 4
    split at compiled
    next => cases compiled
  split at compiled
  next => cases compiled
  next accepted looped =>
    split at compiled
    next => cases compiled
    next =>
      split at compiled
      next => cases compiled
      next scanned =>
        obtain rfl := Except.ok.inj compiled
        obtain ⟨value, all, distinct⟩ := (compileRows_ok_iff rfl (by simp)).mp looped
        rw [List.nil_append] at value
        refine ⟨value, all, (scan_ok_iff ?_ distinct).mp scanned⟩
        intro row member
        rw [value] at member
        obtain ⟨action, listed, rfl⟩ := List.mem_map.mp member
        exact (all action listed).present

end MarketForge.Grammar
