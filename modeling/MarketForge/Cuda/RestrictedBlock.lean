import MarketForge.Cuda.RestrictedHead
import MarketForge.Library.BlockTree

/-!
# The restricted kernels thread by thread

A block of a restricted kernel as 256 threads that share memory and meet at barriers. While some
threads scan their candidates, others may already raise the flag of the row, and a thread that
finds it raised does not scan. Whatever the interleaving, the block outputs what `restrictedRow`
computes (`block_outputs`): a flag that is down at the barrier after the scans means that every
thread scanned to the end.
-/
namespace MarketForge.Cuda

open BinaryFloat BarrierBlock

variable {K : Type} [LinearOrder K] [OrderBot K]

/-- The shared memory of a block, and the output of its row. -/
structure Shared (K : Type) where
  maxima : Nat → K
  indices : Nat → UInt32
  fallbacks : Nat → UInt32
  rowInvalid : UInt32
  tokenId : UInt32

namespace Shared

def setMaximum (thread : Nat) (maximum : K) (memory : Shared K) : Shared K :=
  { memory with maxima := Function.update memory.maxima thread maximum }

def setIndex (thread : Nat) (index : UInt32) (memory : Shared K) : Shared K :=
  { memory with indices := Function.update memory.indices thread index }

def setFallback (thread : Nat) (fallback : UInt32) (memory : Shared K) : Shared K :=
  { memory with fallbacks := Function.update memory.fallbacks thread fallback }

def setRowInvalid (rowInvalid : UInt32) (memory : Shared K) : Shared K :=
  { memory with rowInvalid := rowInvalid }

def setTokenId (tokenId : UInt32) (memory : Shared K) : Shared K :=
  { memory with tokenId := tokenId }

/-- The entries of a thread in the three arrays. -/
def cell (memory : Shared K) (thread : Nat) : RestrictedLane K :=
  ⟨⟨memory.maxima thread, memory.indices thread⟩, memory.fallbacks thread, false⟩

end Shared

def threadsPerBlock : Nat := 2 ^ 8

/-! ### The phases between the barriers -/

section Phases

variable (score : UInt32 → Score K) (allowed : Nat → UInt32) (allowedCount : UInt32)
  (vocabularySize maximumAllowedTokens : UInt64)

/-- The count of the row is out of range. -/
def BadCount : Prop := allowedCount = 0 ∨ maximumAllowedTokens < allowedCount.toUInt64

instance : Decidable (BadCount allowedCount maximumAllowedTokens) :=
  inferInstanceAs (Decidable (_ ∨ _))

def checkCount (thread : Nat) : Program (Shared K) :=
  if thread = 0 then
    .write (Shared.setRowInvalid (if BadCount allowedCount maximumAllowedTokens then 1 else 0))
      .done
  else .done

/-- The end of the second phase: a thread publishes what it kept. -/
def publish (thread : Nat) (lane : RestrictedLane K) : Program (Shared K) :=
  .write (Shared.setMaximum thread lane.best.maximum) <|
    .write (Shared.setIndex thread lane.best.tokenId) <|
      .write (Shared.setFallback thread lane.fallback) .done

/-- The scan of a thread over its indices. A candidate outside the vocabulary raises the flag. -/
def scanCandidates (thread : Nat) : List Nat → RestrictedLane K → Program (Shared K)
  | [], lane => publish thread lane
  | index :: rest, lane =>
    let next :=
      scanCandidates thread rest (lane.turn score allowed vocabularySize index)
    if vocabularySize ≤ (allowed index).toUInt64 then .write (Shared.setRowInvalid 1) next
    else next

def scanRow (thread : Nat) : Program (Shared K) :=
  .read Shared.rowInvalid fun rowInvalid =>
    if rowInvalid = 0 then
      scanCandidates score allowed vocabularySize thread
        (BlockReduction.strided thread allowedCount.toNat threadsPerBlock) RestrictedLane.initial
    else publish thread RestrictedLane.initial

def mergeFallbacks (stride thread : Nat) : Program (Shared K) :=
  .read (·.fallbacks (thread + stride)) fun other =>
    .read (·.fallbacks thread) fun own =>
      .write (Shared.setFallback thread (if other < own then other else own)) .done

/-- One level of the reduction. -/
def mergeLanes (stride thread : Nat) : Program (Shared K) :=
  if thread < stride then
    .read (·.maxima (thread + stride)) fun candidateValue =>
      .read (·.indices (thread + stride)) fun candidateIndex =>
        .read (·.maxima thread) fun maximum =>
          .read (·.indices thread) fun index =>
            if maximum < candidateValue ∨ candidateValue = maximum ∧ candidateIndex < index then
              .write (Shared.setMaximum thread candidateValue) <|
                .write (Shared.setIndex thread candidateIndex) <| mergeFallbacks stride thread
            else mergeFallbacks stride thread
  else .done

def emitToken (thread : Nat) : Program (Shared K) :=
  if thread = 0 then
    .read Shared.rowInvalid fun rowInvalid =>
      if rowInvalid ≠ 0 then .write (Shared.setTokenId restrictedGreedyInvalidTokenId) .done
      else
        .read (·.indices 0) fun index =>
          if index = restrictedGreedyInvalidTokenId then
            .read (·.fallbacks 0) fun fallback => .write (Shared.setTokenId fallback) .done
          else .write (Shared.setTokenId index) .done
  else .done

/-- A restricted kernel for one row, as its phases between barriers. -/
def restrictedBlockPhases : List (Nat → Program (Shared K)) :=
  checkCount allowedCount maximumAllowedTokens ::
    scanRow score allowed allowedCount vocabularySize ::
    ((halvings 8).map mergeLanes ++ [emitToken])

end Phases

def restrictedGreedyPhases (logits : UInt64 → Half) (allowed allowedCounts : UInt64 → UInt32)
    (vocabularySize maximumAllowedTokens row : UInt64) : List (Nat → Program (Shared Extended)) :=
  restrictedBlockPhases (fun candidate =>
      (half2float (logits (row * vocabularySize + candidate.toUInt64))).score)
    (allowedAt allowed maximumAllowedTokens row) (allowedCounts row) vocabularySize
    maximumAllowedTokens

def restrictedOutputHeadPhases (hidden embedding : UInt64 → Half)
    (allowed allowedCounts : UInt64 → UInt32)
    (hiddenSize vocabularySize maximumAllowedTokens row : UInt64) :
    List (Nat → Program (Shared Extended)) :=
  restrictedBlockPhases (fun candidate =>
      (dotProduct hidden embedding hiddenSize row candidate).score)
    (allowedAt allowed maximumAllowedTokens row) (allowedCounts row) vocabularySize
    maximumAllowedTokens

/-! ### The first and the last phase -/

/-- Only thread zero acts. -/
def single : Interference (Shared K) where
  rely thread s s' := thread = 0 → s' = s
  guarantee thread _ _ := thread = 0
  refl _ _ _ := rfl
  trans _ _ _ _ first second zero := (second zero).trans (first zero)
  compatible _ _ different _ _ acts zero := absurd (zero.trans acts.symm) different

omit [LinearOrder K] [OrderBot K] in
theorem check_count_flag {allowedCount : UInt32} {maximumAllowedTokens : UInt64}
    {memory memory' : Shared K}
    (ran : Interleaves threadsPerBlock (checkCount allowedCount maximumAllowedTokens) memory
      memory') :
    memory'.rowInvalid = if BadCount allowedCount maximumAllowedTokens then 1 else 0 := by
  refine interleaves_post single (fun thread s => thread = 0 → s.rowInvalid =
    if BadCount allowedCount maximumAllowedTokens then 1 else 0) ?_ ran 0 (by decide) rfl
  intro thread _
  rw [checkCount]
  by_cases zero : thread = 0
  · rw [if_pos zero]
    refine .write (fun _ => zero) fun s _ => fun s' moved _ => ?_
    rw [moved zero]
    rfl
  · rw [if_neg zero]
    exact fun s _ first => absurd first zero

omit [LinearOrder K] [OrderBot K] in
/-- The token that thread zero reads off the flag and the first entries. -/
theorem emit_token_output {memory memory' : Shared K}
    (ran : Interleaves threadsPerBlock emitToken memory memory') :
    memory'.tokenId =
      if memory.rowInvalid ≠ 0 then restrictedGreedyInvalidTokenId
      else if memory.indices 0 = restrictedGreedyInvalidTokenId then memory.fallbacks 0
      else memory.indices 0 := by
  refine interleaves_post single (fun thread s => thread = 0 → s.tokenId =
    if memory.rowInvalid ≠ 0 then restrictedGreedyInvalidTokenId
    else if memory.indices 0 = restrictedGreedyInvalidTokenId then memory.fallbacks 0
    else memory.indices 0) ?_ ran 0 (by decide) rfl
  intro thread _
  rw [emitToken]
  by_cases zero : thread = 0
  · rw [if_pos zero]
    refine .read (fun _ => zero) fun s rowInvalid moved flag => ?_
    obtain rfl := moved zero
    obtain rfl := flag
    by_cases raised : s.rowInvalid ≠ 0
    · rw [if_pos raised, if_pos raised]
      refine .write (fun _ => zero) fun s₁ _ => fun s₂ moved₂ _ => ?_
      rw [moved₂ zero]
      rfl
    · rw [if_neg raised, if_neg raised]
      refine .read (fun _ => zero) fun s₁ index moved₁ first => ?_
      obtain rfl := moved₁ zero
      obtain rfl := first
      by_cases nothing : s₁.indices 0 = restrictedGreedyInvalidTokenId
      · rw [if_pos nothing, if_pos nothing]
        refine .read (fun _ => zero) fun s₂ fallback moved₂ lowest => ?_
        obtain rfl := moved₂ zero
        obtain rfl := lowest
        refine .write (fun _ => zero) fun s₃ _ => fun s₄ moved₄ _ => ?_
        rw [moved₄ zero]
        rfl
      · rw [if_neg nothing, if_neg nothing]
        refine .write (fun _ => zero) fun s₂ _ => fun s₃ moved₃ _ => ?_
        rw [moved₃ zero]
        rfl
  · rw [if_neg zero]
    exact fun s _ first => absurd first zero

/-! ### The scans -/

section Scan

variable (score : UInt32 → Score K) (allowed : Nat → UInt32) (allowedCount : UInt32)
  (vocabularySize maximumAllowedTokens : UInt64)

/-- What a thread has kept when it scans to the end. -/
def scanned (thread : Nat) : RestrictedLane K :=
  (BlockReduction.strided thread allowedCount.toNat threadsPerBlock).foldl
    (RestrictedLane.turn score allowed vocabularySize) RestrictedLane.initial

/-- Some thread finds a candidate outside the vocabulary. -/
def Exchanges : Prop :=
  ∃ thread < threadsPerBlock,
    (scanned score allowed allowedCount vocabularySize thread).exchanged = true

/-- During the scans each thread writes its own entries, and the flag only rises, for a reason. -/
def scanning (exchanges : Prop) : Interference (Shared K) where
  rely thread s s' := s'.cell thread = s.cell thread ∧
    (s.rowInvalid ≠ 0 → s'.rowInvalid ≠ 0) ∧
    (s'.rowInvalid ≠ 0 → s.rowInvalid ≠ 0 ∨ exchanges)
  guarantee thread s s' := (∀ other, other ≠ thread → s'.cell other = s.cell other) ∧
    (s.rowInvalid ≠ 0 → s'.rowInvalid ≠ 0) ∧
    (s'.rowInvalid ≠ 0 → s.rowInvalid ≠ 0 ∨ exchanges)
  refl _ _ := ⟨rfl, id, .inl⟩
  trans _ _ _ _ first second :=
    ⟨second.1.trans first.1, fun raised => second.2.1 (first.2.1 raised),
      fun raised => (second.2.2 raised).elim first.2.2 .inr⟩
  compatible _ _ different _ _ acted := ⟨acted.1 _ different, acted.2⟩

variable {score allowed allowedCount vocabularySize maximumAllowedTokens}

omit [LinearOrder K] [OrderBot K] in
/-- Writing an entry changes the cell of its thread only. -/
theorem cell_of_ne (s : Shared K) {thread other : Nat} (different : other ≠ thread)
    (maximum : K) (token : UInt32) :
    (s.setMaximum thread maximum).cell other = s.cell other ∧
      (s.setIndex thread token).cell other = s.cell other ∧
      (s.setFallback thread token).cell other = s.cell other := by
  simp [Shared.cell, Shared.setMaximum, Shared.setIndex, Shared.setFallback, different]

omit [OrderBot K] in
/-- A raised flag stays raised through the turns of a thread. -/
theorem exchanged_foldl (indices : List Nat) {lane : RestrictedLane K}
    (raised : lane.exchanged = true) :
    (indices.foldl (RestrictedLane.turn score allowed vocabularySize) lane).exchanged = true := by
  induction indices generalizing lane with
  | nil => exact raised
  | cons index rest ih =>
    rw [List.foldl_cons]
    apply ih
    rw [RestrictedLane.turn]
    split
    next => rfl
    next => exact raised

/-- The flag is up if the count is bad, and only for a reason. -/
structure FlagFits (score : UInt32 → Score K) (allowed : Nat → UInt32) (allowedCount : UInt32)
    (vocabularySize maximumAllowedTokens : UInt64) (s : Shared K) : Prop where
  bad : BadCount allowedCount maximumAllowedTokens → s.rowInvalid ≠ 0
  reason : s.rowInvalid ≠ 0 → BadCount allowedCount maximumAllowedTokens ∨
    Exchanges score allowed allowedCount vocabularySize

/-- An action that leaves the flag alone and the moves of the others keep that. -/
theorem FlagFits.moved {thread : Nat} {s written s' : Shared K}
    (fits : FlagFits score allowed allowedCount vocabularySize maximumAllowedTokens s)
    (moved : (scanning (Exchanges score allowed allowedCount vocabularySize)).rely thread
      written s')
    (same : written.rowInvalid = s.rowInvalid) :
    FlagFits score allowed allowedCount vocabularySize maximumAllowedTokens s' where
  bad count := moved.2.1 (same ▸ fits.bad count)
  reason raised := (moved.2.2 raised).elim (same ▸ fits.reason) .inr

/-- What holds of a thread at the barrier after the scans. -/
structure ScanDone (score : UInt32 → Score K) (allowed : Nat → UInt32) (allowedCount : UInt32)
    (vocabularySize maximumAllowedTokens : UInt64) (thread : Nat) (s : Shared K) : Prop where
  flag : FlagFits score allowed allowedCount vocabularySize maximumAllowedTokens s
  kept : s.rowInvalid = 0 → s.cell thread = scanned score allowed allowedCount vocabularySize thread
  raised : (scanned score allowed allowedCount vocabularySize thread).exchanged = true →
    s.rowInvalid ≠ 0

/-- A thread may publish when the flag is up or when it has scanned all there is and found no
reason to raise it. -/
theorem publish_keeps {thread : Nat} {lane : RestrictedLane K} {s : Shared K}
    (fits : FlagFits score allowed allowedCount vocabularySize maximumAllowedTokens s)
    (ready : s.rowInvalid ≠ 0 ∨
      lane = scanned score allowed allowedCount vocabularySize thread ∧ lane.exchanged = false) :
    Keeps ((scanning (Exchanges score allowed allowedCount vocabularySize)).rely thread)
      ((scanning (Exchanges score allowed allowedCount vocabularySize)).guarantee thread)
      (ScanDone score allowed allowedCount vocabularySize maximumAllowedTokens thread)
      (publish thread lane) s := by
  refine .write (fun s => ⟨fun _ other => (cell_of_ne s other _ 0).1, id, .inl⟩)
    fun s₁ moved₁ => ?_
  refine .write (fun s => ⟨fun _ other => (cell_of_ne s other ⊥ _).2.1, id, .inl⟩)
    fun s₂ moved₂ => ?_
  refine .write (fun s => ⟨fun _ other => (cell_of_ne s other ⊥ _).2.2, id, .inl⟩)
    fun s₃ moved₃ => ?_
  intro s₄ moved₄
  -- The writes leave the flag alone, so the flag at the end is that of the others' moves.
  have flag := (((fits.moved moved₁ rfl).moved moved₂ rfl).moved moved₃ rfl).moved moved₄ rfl
  have up : s.rowInvalid ≠ 0 → s₄.rowInvalid ≠ 0 := fun raised =>
    moved₄.2.1 (moved₃.2.1 (moved₂.2.1 (moved₁.2.1 raised)))
  rcases ready with raised | ⟨rfl, quiet⟩
  · exact ⟨flag, fun lowered => absurd lowered (up raised), fun _ => up raised⟩
  · refine ⟨flag, fun _ => ?_, fun exchanged => ?_⟩
    · have cell₂ := moved₂.1
      have cell₃ := moved₃.1
      have cell₄ := moved₄.1
      simp only [Shared.cell, Shared.setMaximum, Shared.setIndex, Shared.setFallback,
        RestrictedLane.mk.injEq, Lane.mk.injEq, Function.update_self] at cell₂ cell₃ cell₄
      rw [Shared.cell, cell₄.1.1, cell₃.1.1, cell₂.1.1, cell₄.1.2, cell₃.1.2, cell₄.2.1, ← quiet]
    · rw [quiet] at exchanged
      cases exchanged

/-- The scan from a lane that has raised the flag if it had to. -/
theorem scan_keeps {thread : Nat} (within : thread < threadsPerBlock) (indices : List Nat)
    {lane : RestrictedLane K} {s : Shared K}
    (fits : FlagFits score allowed allowedCount vocabularySize maximumAllowedTokens s)
    (onward : indices.foldl (RestrictedLane.turn score allowed vocabularySize) lane =
      scanned score allowed allowedCount vocabularySize thread)
    (raised : lane.exchanged = true → s.rowInvalid ≠ 0) :
    Keeps ((scanning (Exchanges score allowed allowedCount vocabularySize)).rely thread)
      ((scanning (Exchanges score allowed allowedCount vocabularySize)).guarantee thread)
      (ScanDone score allowed allowedCount vocabularySize maximumAllowedTokens thread)
      (scanCandidates score allowed vocabularySize thread indices lane) s := by
  induction indices generalizing lane s with
  | nil =>
    refine publish_keeps fits ?_
    cases exchanged : lane.exchanged with
    | true => exact .inl (raised exchanged)
    | false => exact .inr ⟨onward, rfl⟩
  | cons index rest ih =>
    rw [List.foldl_cons] at onward
    rw [scanCandidates]
    split
    next outside =>
      have turned : (lane.turn score allowed vocabularySize index).exchanged = true := by
        rw [RestrictedLane.turn, if_pos outside]
      have reason : Exchanges score allowed allowedCount vocabularySize :=
        ⟨thread, within, onward ▸ exchanged_foldl rest turned⟩
      have now : ∀ s : Shared K, (s.setRowInvalid 1).rowInvalid ≠ 0 := by
        simp [Shared.setRowInvalid]
      refine .write (fun s => ⟨fun _ _ => rfl, fun _ => now s, fun _ => .inr reason⟩) ?_
      intro s₁ _
      exact ih ⟨fun _ => now s₁, fun _ => .inr reason⟩ onward fun _ => now s₁
    next inside =>
      refine ih fits onward fun exchanged => raised ?_
      rwa [RestrictedLane.turn, if_neg inside] at exchanged

/-- At the barrier after the scans the flag is up exactly for a row that is invalid. If it is
down, every thread has scanned to the end. -/
theorem scan_row_outcome {memory memory' : Shared K}
    (flag : memory.rowInvalid = if BadCount allowedCount maximumAllowedTokens then 1 else 0)
    (ran : Interleaves threadsPerBlock (scanRow score allowed allowedCount vocabularySize)
      memory memory') :
    (memory'.rowInvalid ≠ 0 ↔ BadCount allowedCount maximumAllowedTokens ∨
      Exchanges score allowed allowedCount vocabularySize) ∧
    (memory'.rowInvalid = 0 → ∀ thread < threadsPerBlock, memory'.cell thread =
      scanned score allowed allowedCount vocabularySize thread) := by
  have fits : FlagFits score allowed allowedCount vocabularySize maximumAllowedTokens memory := by
    by_cases bad : BadCount allowedCount maximumAllowedTokens
    · exact ⟨fun _ => by simp [flag, bad], fun _ => .inl bad⟩
    · exact ⟨fun count => absurd count bad, fun raised => absurd (by simp [flag, bad]) raised⟩
  have keeps : ∀ thread < threadsPerBlock,
      Keeps ((scanning (Exchanges score allowed allowedCount vocabularySize)).rely thread)
        ((scanning (Exchanges score allowed allowedCount vocabularySize)).guarantee thread)
        (ScanDone score allowed allowedCount vocabularySize maximumAllowedTokens thread)
        (scanRow score allowed allowedCount vocabularySize thread) memory := by
    intro thread within
    refine .read (fun _ => ⟨fun _ _ => rfl, id, .inl⟩) fun s rowInvalid moved found => ?_
    have fits' := fits.moved moved rfl
    -- The flag decides whether the thread scans, and what it decides stays right.
    split
    next lowered => exact scan_keeps within _ fits' rfl fun exchanged => nomatch exchanged
    next raised => exact publish_keeps fits' (.inl (found ▸ raised))
  have finished := interleaves_post _ _ keeps ran
  refine ⟨⟨(finished 0 (by decide)).flag.reason, fun invalid => ?_⟩,
    fun lowered thread within => (finished thread within).kept lowered⟩
  rcases invalid with bad | ⟨thread, within, exchanged⟩
  · exact (finished 0 (by decide)).flag.bad bad
  · exact (finished thread within).raised exchanged

end Scan

/-! ### The reduction -/

/-- During one level of the reduction each thread below the stride writes its own entries. -/
abbrev merging (stride : Nat) : Interference (Shared K) :=
  levelling Shared.cell Shared.rowInvalid stride

section Merge

variable {stride thread : Nat}

omit [LinearOrder K] [OrderBot K] in
/-- A thread below the stride may write its own entries. -/
theorem merging_guarantee (low : thread < stride) (s : Shared K) (maximum : K)
    (token : UInt32) :
    (merging stride).guarantee thread s (s.setMaximum thread maximum) ∧
      (merging stride).guarantee thread s (s.setIndex thread token) ∧
      (merging stride).guarantee thread s (s.setFallback thread token) := by
  have own : ∀ other, other ≠ thread ∨ stride ≤ other → other ≠ thread := by
    rintro other (different | above)
    · exact different
    · omega
  exact ⟨⟨fun other known => (cell_of_ne s (own other known) maximum token).1, rfl⟩,
    ⟨fun other known => (cell_of_ne s (own other known) maximum token).2.1, rfl⟩,
    ⟨fun other known => (cell_of_ne s (own other known) maximum token).2.2, rfl⟩⟩

/-- The entries that a thread reads, and the flag. -/
structure Sees (stride thread : Nat) (own above : RestrictedLane K) (rowInvalid : UInt32)
    (s : Shared K) : Prop where
  own : s.cell thread = own
  above : s.cell (thread + stride) = above
  flag : s.rowInvalid = rowInvalid

variable {own above : RestrictedLane K} {rowInvalid : UInt32} {s s' : Shared K}

namespace Sees

omit [LinearOrder K] [OrderBot K] in
theorem moved (sees : Sees stride thread own above rowInvalid s)
    (moved : (merging stride).rely thread s s') :
    Sees stride thread own above rowInvalid s' where
  own := (moved.1 thread (.inl rfl)).trans sees.own
  above := (moved.1 _ (.inr (Nat.le_add_left _ _))).trans sees.above
  flag := moved.2.trans sees.flag

omit [LinearOrder K] [OrderBot K] in
theorem setMaximum (sees : Sees stride thread own above rowInvalid s) (low : thread < stride)
    (maximum : K) : Sees stride thread { own with best := { own.best with maximum } } above
      rowInvalid (s.setMaximum thread maximum) where
  own := by simp [← sees.own, Shared.cell, Shared.setMaximum]
  above := ((cell_of_ne s (by omega) maximum 0).1).trans sees.above
  flag := sees.flag

omit [LinearOrder K] [OrderBot K] in
theorem setIndex (sees : Sees stride thread own above rowInvalid s) (low : thread < stride)
    (tokenId : UInt32) : Sees stride thread { own with best := { own.best with tokenId } } above
      rowInvalid (s.setIndex thread tokenId) where
  own := by simp [← sees.own, Shared.cell, Shared.setIndex]
  above := ((cell_of_ne s (by omega) own.best.maximum tokenId).2.1).trans sees.above
  flag := sees.flag

omit [LinearOrder K] [OrderBot K] in
theorem setFallback (sees : Sees stride thread own above rowInvalid s) (low : thread < stride)
    (fallback : UInt32) : Sees stride thread { own with fallback } above rowInvalid
      (s.setFallback thread fallback) where
  own := by simp [← sees.own, Shared.cell, Shared.setFallback]
  above := ((cell_of_ne s (by omega) own.best.maximum fallback).2.2).trans sees.above
  flag := sees.flag

end Sees

omit [LinearOrder K] [OrderBot K] in
theorem merge_fallbacks_keeps (low : thread < stride)
    (sees : Sees stride thread own above rowInvalid s) :
    Keeps ((merging stride).rely thread) ((merging stride).guarantee thread)
      (fun s' => s'.cell thread = { own with fallback := if above.fallback < own.fallback then
        above.fallback else own.fallback } ∧ s'.rowInvalid = rowInvalid)
      (mergeFallbacks stride thread) s := by
  refine .read (fun _ => ⟨fun _ _ => rfl, rfl⟩) fun s₁ other moved₁ read₁ => ?_
  refine .read (fun _ => ⟨fun _ _ => rfl, rfl⟩) fun s₂ mine moved₂ read₂ => ?_
  have sees₁ := sees.moved moved₁
  have sees₂ := sees₁.moved moved₂
  obtain rfl : other = above.fallback :=
    read₁.symm.trans (congrArg RestrictedLane.fallback sees₁.above)
  obtain rfl : mine = own.fallback :=
    read₂.symm.trans (congrArg RestrictedLane.fallback sees₂.own)
  refine .write (fun s => (merging_guarantee low s own.best.maximum _).2.2) fun s₃ moved₃ => ?_
  intro s₄ moved₄
  have last := ((sees₂.moved moved₃).setFallback low _).moved moved₄
  exact ⟨last.own, last.flag⟩

omit [OrderBot K] in
/-- A thread below the stride merges its entries with those a stride above. -/
theorem merge_lanes_keeps (thread : Nat) :
    Keeps ((merging stride).rely thread) ((merging stride).guarantee thread)
      (fun s' => s'.cell thread = BlockReduction.halve RestrictedLane.merge s.cell stride thread ∧
        s'.rowInvalid = s.rowInvalid) (mergeLanes stride thread) s := by
  rw [mergeLanes, BlockReduction.halve]
  by_cases low : thread < stride
  · simp only [if_pos low]
    have sees : Sees stride thread (s.cell thread) (s.cell (thread + stride)) s.rowInvalid s :=
      ⟨rfl, rfl, rfl⟩
    refine .read (fun _ => ⟨fun _ _ => rfl, rfl⟩) fun s₁ candidateValue moved₁ read₁ => ?_
    refine .read (fun _ => ⟨fun _ _ => rfl, rfl⟩) fun s₂ candidateIndex moved₂ read₂ => ?_
    refine .read (fun _ => ⟨fun _ _ => rfl, rfl⟩) fun s₃ maximum moved₃ read₃ => ?_
    refine .read (fun _ => ⟨fun _ _ => rfl, rfl⟩) fun s₄ index moved₄ read₄ => ?_
    have sees₁ := sees.moved moved₁
    have sees₂ := sees₁.moved moved₂
    have sees₃ := sees₂.moved moved₃
    have sees₄ := sees₃.moved moved₄
    obtain rfl : candidateValue = (s.cell (thread + stride)).best.maximum :=
      read₁.symm.trans (congrArg (·.best.maximum) sees₁.above)
    obtain rfl : candidateIndex = (s.cell (thread + stride)).best.tokenId :=
      read₂.symm.trans (congrArg (·.best.tokenId) sees₂.above)
    obtain rfl : maximum = (s.cell thread).best.maximum :=
      read₃.symm.trans (congrArg (·.best.maximum) sees₃.own)
    obtain rfl : index = (s.cell thread).best.tokenId :=
      read₄.symm.trans (congrArg (·.best.tokenId) sees₄.own)
    rw [RestrictedLane.merge, Lane.merge]
    split
    next better =>
      refine .write (fun s => (merging_guarantee low s _ 0).1) fun s₅ moved₅ => ?_
      refine .write (fun s' => (merging_guarantee low s' (s.cell thread).best.maximum _).2.1)
        fun s₆ moved₆ => ?_
      exact merge_fallbacks_keeps low ((((sees₄.moved moved₅).setMaximum low _).moved
        moved₆).setIndex low _)
    next => exact merge_fallbacks_keeps low sees₄
  · rw [if_neg low, if_neg low]
    exact fun s' moved => ⟨moved.1 thread (.inl rfl), moved.2⟩

end Merge

/-! ### The block -/

section Block

variable {score : UInt32 → Score K} {allowed : Nat → UInt32} {allowedCount : UInt32}
  {vocabularySize maximumAllowedTokens : UInt64}

theorem restricted_row_invalid (invalid : BadCount allowedCount maximumAllowedTokens ∨
      Exchanges score allowed allowedCount vocabularySize) :
    restrictedRow score allowed allowedCount vocabularySize maximumAllowedTokens =
      restrictedGreedyInvalidTokenId := by
  rw [restrictedRow]
  refine if_pos ?_
  by_cases bad : BadCount allowedCount maximumAllowedTokens
  · exact .inl bad
  · obtain ⟨thread, within, exchanged⟩ := invalid.resolve_left bad
    refine .inr (List.any_eq_true.mpr ⟨thread, List.mem_range.mpr within, ?_⟩)
    rw [BadCount] at bad
    dsimp only
    rw [if_neg bad]
    exact exchanged

theorem restricted_row_valid (good : ¬ BadCount allowedCount maximumAllowedTokens)
    (quiet : ¬ Exchanges score allowed allowedCount vocabularySize) :
    restrictedRow score allowed allowedCount vocabularySize maximumAllowedTokens =
      let reduced := BlockReduction.reduce RestrictedLane.merge 8
        (scanned score allowed allowedCount vocabularySize)
      if reduced.best.tokenId = restrictedGreedyInvalidTokenId then reduced.fallback
      else reduced.best.tokenId := by
  rw [BadCount] at good
  rw [restrictedRow]
  simp only [if_neg good]
  refine if_neg fun invalid => ?_
  obtain ⟨thread, within, exchanged⟩ := List.any_eq_true.mp (invalid.resolve_left good)
  exact quiet ⟨thread, List.mem_range.mp within, exchanged⟩

/-- Whatever the interleaving, a block outputs what is computed without threads. -/
theorem block_outputs {memory memory' : Shared K}
    (ran : Runs threadsPerBlock (restrictedBlockPhases score allowed allowedCount vocabularySize
      maximumAllowedTokens) memory memory') :
    memory'.tokenId =
      restrictedRow score allowed allowedCount vocabularySize maximumAllowedTokens := by
  cases ran with
  | @cons _ _ _ flagged _ counted ran =>
    cases ran with
    | @cons _ _ _ published _ scannedAll ran =>
      obtain ⟨reduced, levels, last⟩ := ran.append
      cases last with
      | cons emitted nothing =>
        cases nothing
        obtain ⟨invalid, kept⟩ := scan_row_outcome (check_count_flag counted) scannedAll
        obtain ⟨result, flag⟩ := levels_outcome (by decide)
          (fun _ thread _ => merge_lanes_keeps thread) levels
          (scanned score allowed allowedCount vocabularySize)
        rw [emit_token_output emitted, flag]
        by_cases bad : BadCount allowedCount maximumAllowedTokens ∨
            Exchanges score allowed allowedCount vocabularySize
        · rw [if_pos (invalid.mpr bad), restricted_row_invalid bad]
        · have lowered : published.rowInvalid = 0 := by
            by_contra raised
            exact bad (invalid.mp raised)
          rw [not_or] at bad
          have first := result fun thread within => kept lowered thread within
          rw [restricted_row_valid bad.1 bad.2, ← first, if_neg (not_not.mpr lowered)]
          rfl

end Block

end MarketForge.Cuda
