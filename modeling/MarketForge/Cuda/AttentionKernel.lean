import MarketForge.Cuda.DeviceRow

/-!
# The attention kernel thread by thread

A block of `attention_kernel` computes one head of one token: scores against the valid keys, a
tree for their maximum, exponentials, a tree for their sum, and the weighted values. No barrier
separates the threads' reads of the maximum in `reductions[0]` from thread zero's write of its
partial sum to the same cell. So a thread may find that partial sum in place of the maximum
(`weigh_outcome`). Everything else is as if the threads ran one after another.
-/
namespace MarketForge.Cuda

open BarrierBlock

/-- What a block of the kernel reads and never writes; the host refuses an output that is one of
these buffers. -/
structure AttentionInput (H : Type) where
  query : UInt64 → H
  keyCache : UInt64 → H
  valueCache : UInt64 → H
  positions : UInt64 → UInt32
  tokens : UInt64
  maximumContext : UInt64
  queryHeads : UInt64
  keyValueHeads : UInt64
  headDim : UInt64

abbrev AttentionMemory (F H : Type) := BlockMemory F (Nat → F) H

namespace AttentionInput

variable {F H : Type} [DeviceFloat F] [Stored F H] (input : AttentionInput H) (vector : UInt64)

/-! ### Where a block reads and writes -/

def queryHead : UInt64 := vector % input.queryHeads

def packedToken : UInt64 := vector / input.queryHeads

def batchIndex : UInt64 := input.packedToken vector / input.tokens

def groups : UInt64 := input.queryHeads / input.keyValueHeads

def keyValueHead : UInt64 := input.queryHead vector / input.groups

def validKeys : UInt64 := (input.positions (input.packedToken vector)).toUInt64 + 1

def outputOffset : UInt64 := vector * input.headDim

/-- `key_offset`, and `value_offset` without its dimension. -/
def cacheOffset (keyToken : Nat) : UInt64 :=
  ((input.batchIndex vector * input.maximumContext + UInt64.ofNat keyToken) * input.keyValueHeads +
    input.keyValueHead vector) * input.headDim

/-! ### The kernel -/

/-- The scaled product of the query with one key. -/
def logit (keyToken : Nat) : F :=
  let dot := (List.range input.headDim.toNat).foldl (fun dot dimension =>
    DeviceFloat.fmaf
      (Stored.load (input.query (input.outputOffset vector + UInt64.ofNat dimension)))
      (Stored.load (input.keyCache (input.cacheOffset vector keyToken + UInt64.ofNat dimension)))
      dot) (DeviceFloat.zero : F)
  dot * DeviceFloat.rsqrtf (DeviceFloat.ofUInt64 input.headDim)

def setLogit (keyToken : Nat) (value : F) : AttentionMemory F H → AttentionMemory F H :=
  BlockMemory.setScratch fun logits => Function.update logits keyToken value

/-- The first loop: the logits, and the maximum of those of a thread. -/
def scoreKeys (thread : Nat) : Program (AttentionMemory F H) :=
  .forEach (fun keyToken localMaximum next =>
      .write (setLogit keyToken (input.logit vector keyToken))
        (next (DeviceFloat.fmaxf localMaximum (input.logit vector keyToken))))
    (threadIndices thread (input.validKeys vector).toNat) DeviceFloat.negInfinity
    fun localMaximum => .write (Lanes.setCell thread localMaximum) .done

/-- The second loop with a maximum that is already read: the probabilities, and the sum of those
of a thread. -/
def weighWith (thread : Nat) (maximum : F) : Program (AttentionMemory F H) :=
  .forEach (fun keyToken localSum next =>
      .read (·.rest.scratch keyToken) fun logit =>
        let probability := DeviceFloat.expf (logit - maximum)
        .write (setLogit keyToken probability) (next (localSum + probability)))
    (threadIndices thread (input.validKeys vector).toNat) DeviceFloat.zero
    fun localSum => .write (Lanes.setCell thread localSum) .done

def weighKeys (thread : Nat) : Program (AttentionMemory F H) :=
  .read (·.cells 0) (input.weighWith vector thread)

/-- The third loop: one element of the output from all probabilities. -/
def mixValue (inverseDenominator : F) (dimension : Nat)
    (next : H → Program (AttentionMemory F H)) : Program (AttentionMemory F H) :=
  .forEach (fun keyToken weightedValue next =>
      .read (·.rest.scratch keyToken) fun probability =>
        next (DeviceFloat.fmaf (probability * inverseDenominator)
          (Stored.load (input.valueCache
            (input.cacheOffset vector keyToken + UInt64.ofNat dimension))) weightedValue))
    (List.range (input.validKeys vector).toNat) (DeviceFloat.zero : F)
    fun weightedValue => next (Stored.store weightedValue)

def mixValues (thread : Nat) : Program (AttentionMemory F H) :=
  .read (·.cells 0) fun denominator =>
    writeRow (input.outputOffset vector) input.headDim
      (input.mixValue vector (DeviceFloat.one / denominator)) thread

/-- More keys than the cache has room for: a row of zeros. -/
def zeroRow (thread : Nat) : Program (AttentionMemory F H) :=
  writeRow (input.outputOffset vector) input.headDim
    (fun _ next => next (Stored.store (DeviceFloat.zero : F))) thread

/-- `attention_kernel` for one block, as its phases between barriers. -/
def attentionPhases : List (Nat → Program (AttentionMemory F H)) :=
  if input.maximumContext < input.validKeys vector then [input.zeroRow vector]
  else
    input.scoreKeys vector :: (treePhases DeviceFloat.fmaxf 8 ++
      input.weighKeys vector :: (treePhases (· + ·) 8 ++ [input.mixValues vector]))

/-! ### What the block computes -/

def localMaximum (thread : Nat) : F :=
  (threadIndices thread (input.validKeys vector).toNat).foldl
    (fun maximum keyToken => DeviceFloat.fmaxf maximum (input.logit vector keyToken))
    DeviceFloat.negInfinity

/-- The maximum of all logits, as the tree computes it. -/
def rowMaximum : F := BlockReduction.reduce DeviceFloat.fmaxf 8 (input.localMaximum vector)

def weight (maximum : F) (keyToken : Nat) : F :=
  DeviceFloat.expf (input.logit vector keyToken - maximum)

def localSum (maximum : F) (thread : Nat) : F :=
  (threadIndices thread (input.validKeys vector).toNat).foldl
    (fun sum keyToken => sum + input.weight vector maximum keyToken) DeviceFloat.zero

/-- What a thread takes for the maximum: a late one finds the partial sum of thread zero. -/
def seen (late : Nat → Bool) (thread : Nat) : F :=
  if late thread then input.localSum vector (input.rowMaximum vector) 0
  else input.rowMaximum vector

def denominator (late : Nat → Bool) : F :=
  BlockReduction.reduce (· + ·) 8 fun thread =>
    input.localSum vector (input.seen vector late thread) thread

/-- One turn of the third loop. Each key was weighed by its own thread. -/
def mixTurn (late : Nat → Bool) (dimension : Nat) (weightedValue : F) (keyToken : Nat) : F :=
  DeviceFloat.fmaf
    (input.weight vector (input.seen vector late (keyToken % blockDim)) keyToken *
      (DeviceFloat.one / input.denominator vector late))
    (Stored.load (input.valueCache (input.cacheOffset vector keyToken + UInt64.ofNat dimension)))
    weightedValue

def mixed (late : Nat → Bool) (dimension : Nat) : F :=
  (List.range (input.validKeys vector).toNat).foldl (input.mixTurn vector late dimension)
    DeviceFloat.zero

variable (F) in
/-- The elements of the output row. -/
def attentionRow (late : Nat → Bool) (dimension : Nat) : H :=
  if input.maximumContext < input.validKeys vector then Stored.store (DeviceFloat.zero : F)
  else Stored.store (input.mixed vector late dimension : F)

/-! ### The scores -/

/-- The reduction cell of a thread, and the logits of the keys that it visits. -/
def ownKeys (thread : Nat) (s : AttentionMemory F H) :
    F × ({keyToken : Nat // keyToken % blockDim = thread} → F) :=
  (s.cells thread, fun keyToken => s.rest.scratch keyToken)

omit [DeviceFloat F] [Stored F H] in
theorem ownKeys_eq {thread : Nat} {s s' : AttentionMemory F H}
    (same : ownKeys thread s' = ownKeys thread s) :
    s'.cells thread = s.cells thread ∧
      ∀ keyToken, keyToken % blockDim = thread →
        s'.rest.scratch keyToken = s.rest.scratch keyToken := by
  simp only [ownKeys, Prod.mk.injEq] at same
  exact ⟨same.1, fun keyToken own => congrFun same.2 ⟨keyToken, own⟩⟩

omit [DeviceFloat F] [Stored F H] in
theorem ownKeys_setLogit {thread other keyToken : Nat} (own : keyToken % blockDim = thread)
    (different : other ≠ thread) (value : F) (s : AttentionMemory F H) :
    ownKeys other (setLogit keyToken value s) = ownKeys other s := by
  refine Prod.ext rfl (funext fun key => Function.update_of_ne (fun same => different ?_) _ _)
  rw [← key.2, same, own]

omit [DeviceFloat F] [Stored F H] in
theorem ownKeys_setCell {thread other : Nat} (different : other ≠ thread) (value : F)
    (s : AttentionMemory F H) : ownKeys other (Lanes.setCell thread value s) = ownKeys other s :=
  Prod.ext (Lanes.setCell_of_ne different value s) rfl

def scoring : Interference (AttentionMemory F H) := owned ownKeys (·.rest.output)

/-- A thread has scored its keys. -/
structure Scored (thread : Nat) (memory s : AttentionMemory F H) : Prop where
  cell : s.cells thread = input.localMaximum vector thread
  logits : ∀ keyToken < (input.validKeys vector).toNat, keyToken % blockDim = thread →
    s.rest.scratch keyToken = input.logit vector keyToken
  output : s.rest.output = memory.rest.output

variable {input vector}

theorem scoreKeys_keeps {thread : Nat} (within : thread < blockDim)
    (memory : AttentionMemory F H) :
    Keeps (scoring.rely thread) (scoring.guarantee thread)
      (input.Scored vector thread memory) (input.scoreKeys vector thread) memory := by
  -- the logits of the keys behind are stored, and what is carried has seen them
  refine Keeps.forEach (fun rest carried s =>
    rest.foldl (fun maximum keyToken =>
        DeviceFloat.fmaxf maximum (input.logit vector keyToken)) carried =
      input.localMaximum vector thread ∧
    (∀ keyToken ∈ rest, keyToken % blockDim = thread) ∧
    (∀ keyToken < (input.validKeys vector).toNat, keyToken % blockDim = thread →
      keyToken ∉ rest → s.rest.scratch keyToken = input.logit vector keyToken) ∧
    s.rest.output = memory.rest.output) ?_ ?_
    ⟨rfl, fun keyToken listed => ((mem_threadIndices within).mp listed).2,
      fun keyToken below own unlisted =>
        absurd ((mem_threadIndices within).mpr ⟨below, own⟩) unlisted, rfl⟩
  · rintro keyToken rest carried s onward ⟨folded, mine, stored, output⟩ later
    have own := mine keyToken (.head _)
    refine .write (fun s' => ⟨fun other different => ownKeys_setLogit own different _ s', rfl⟩)
      fun s₁ moved => ?_
    obtain ⟨_, still⟩ := ownKeys_eq moved.1
    refine later _ _ ⟨folded, fun key listed => mine key (.tail _ listed),
      fun key below ownKey unlisted => ?_, moved.2.trans output⟩
    by_cases same : key = keyToken
    · subst same
      exact Function.update_self ..
    · refine (Function.update_of_ne same _ _).trans ((still key ownKey).trans ?_)
      exact stored key below ownKey (by simp [same, unlisted])
  · rintro carried s ⟨folded, _, stored, output⟩
    refine .write (fun s' => ⟨fun other different => ownKeys_setCell different _ s', rfl⟩)
      fun s₁ moved => fun s₂ moved' => ?_
    obtain ⟨_, still⟩ := ownKeys_eq moved.1
    obtain ⟨cell, still'⟩ := ownKeys_eq moved'.1
    refine ⟨cell.trans ((Lanes.setCell_self ..).trans folded), fun key below own => ?_,
      moved'.2.trans (moved.2.trans output)⟩
    exact (still' key own).trans ((still key own).trans (stored key below own List.not_mem_nil))

theorem scoreKeys_outcome {memory memory' : AttentionMemory F H}
    (ran : Interleaves blockDim (input.scoreKeys vector) memory memory') :
    ∀ thread < blockDim, input.Scored vector thread memory memory' :=
  interleaves_post scoring _ (fun _ within => scoreKeys_keeps within memory) ran

/-! ### The probabilities -/

/-- While the keys are weighed a thread changes its own cell and keys. The first cell is the
maximum until thread zero writes its partial sum there. -/
def weighing (partialSum : F) : Interference (AttentionMemory F H) where
  rely thread s s' := ownKeys thread s' = ownKeys thread s ∧ s'.rest.output = s.rest.output ∧
    (s'.cells 0 = s.cells 0 ∨ s'.cells 0 = partialSum)
  guarantee thread s s' := (∀ other, other ≠ thread → ownKeys other s' = ownKeys other s) ∧
    s'.rest.output = s.rest.output ∧ (s'.cells 0 = s.cells 0 ∨ s'.cells 0 = partialSum)
  refl _ _ := ⟨rfl, rfl, .inl rfl⟩
  trans _ _ _ _ first second :=
    ⟨second.1.trans first.1, second.2.1.trans first.2.1,
      second.2.2.elim (fun same => first.2.2.imp same.trans same.trans) .inr⟩
  compatible _ _ different _ _ acted := ⟨acted.1 _ different, acted.2⟩

variable (input vector) in
/-- A thread has weighed its keys against `maximum`. -/
structure Weighed (maximum : F) (thread : Nat) (memory s : AttentionMemory F H) : Prop where
  cell : s.cells thread = input.localSum vector maximum thread
  probabilities : ∀ keyToken < (input.validKeys vector).toNat, keyToken % blockDim = thread →
    s.rest.scratch keyToken = input.weight vector maximum keyToken
  output : s.rest.output = memory.rest.output

/-- Thread zero reads the maximum before it writes, so its partial sum is the honest one. -/
theorem weighWith_keeps {thread : Nat} (within : thread < blockDim) {maximum : F}
    (honest : thread = 0 → maximum = input.rowMaximum vector)
    {memory : AttentionMemory F H} {s : AttentionMemory F H}
    (output : s.rest.output = memory.rest.output)
    (logits : ∀ keyToken < (input.validKeys vector).toNat, keyToken % blockDim = thread →
      s.rest.scratch keyToken = input.logit vector keyToken) :
    let partialSum := input.localSum vector (input.rowMaximum vector) 0
    Keeps ((weighing partialSum).rely thread) ((weighing partialSum).guarantee thread)
      (input.Weighed vector maximum thread memory) (input.weighWith vector thread maximum) s := by
  intro partialSum
  -- keys behind hold their probability, keys ahead still their logit
  refine Keeps.forEach (fun rest carried s =>
    rest.foldl (fun sum keyToken => sum + input.weight vector maximum keyToken) carried =
      input.localSum vector maximum thread ∧
    rest.Nodup ∧
    (∀ keyToken ∈ rest, keyToken < (input.validKeys vector).toNat ∧
      keyToken % blockDim = thread) ∧
    (∀ keyToken < (input.validKeys vector).toNat, keyToken % blockDim = thread →
      s.rest.scratch keyToken =
        if keyToken ∈ rest then input.logit vector keyToken
        else input.weight vector maximum keyToken) ∧
    s.rest.output = memory.rest.output) ?_ ?_
    ⟨rfl, threadIndices_nodup thread _, fun keyToken => (mem_threadIndices within).mp,
      fun keyToken below own => ?_, output⟩
  · rintro keyToken rest carried s onward ⟨folded, distinct, mine, stored, output⟩ later
    obtain ⟨fresh, distinct⟩ := List.nodup_cons.mp distinct
    obtain ⟨below, own⟩ := mine keyToken (.head _)
    refine .read (fun _ => ⟨fun _ _ => rfl, rfl, .inl rfl⟩) fun s₁ logit moved found => ?_
    obtain ⟨_, still⟩ := ownKeys_eq moved.1
    have exact_logit : logit = input.logit vector keyToken := by
      rw [← found, still keyToken own, stored keyToken below own, if_pos List.mem_cons_self]
    subst exact_logit
    refine .write (fun s' => ⟨fun other different => ownKeys_setLogit own different _ s', rfl,
      .inl rfl⟩) fun s₂ moved' => ?_
    obtain ⟨_, still'⟩ := ownKeys_eq moved'.1
    refine later _ _ ⟨folded, distinct, fun key listed => mine key (.tail _ listed),
      fun key keyBelow ownKey => ?_, moved'.2.1.trans (moved.2.1.trans output)⟩
    by_cases same : key = keyToken
    · subst same
      rw [if_neg fresh]
      exact Function.update_self ..
    · refine (Function.update_of_ne same _ _).trans
        ((still' key ownKey).trans ((still key ownKey).trans ?_))
      rw [stored key keyBelow ownKey]
      simp [same]
  · rintro carried s ⟨folded, _, _, stored, output⟩
    refine .write (fun s' => ⟨fun other different => ownKeys_setCell different _ s', rfl, ?_⟩)
      fun s₁ moved => fun s₂ moved' => ?_
    · by_cases zero : thread = 0
      · subst zero
        refine .inr ((Lanes.setCell_self ..).trans (folded.trans ?_))
        rw [honest rfl]
      · exact .inl (Lanes.setCell_of_ne (Ne.symm zero) _ s')
    · obtain ⟨_, still⟩ := ownKeys_eq moved.1
      obtain ⟨cell, still'⟩ := ownKeys_eq moved'.1
      refine ⟨cell.trans ((Lanes.setCell_self ..).trans folded), fun key below own => ?_,
        moved'.2.1.trans (moved.2.1.trans output)⟩
      refine (still' key own).trans ((still key own).trans ((stored key below own).trans ?_))
      rw [if_neg List.not_mem_nil]
  · rw [if_pos ((mem_threadIndices within).mpr ⟨below, own⟩)]
    exact logits keyToken below own

variable (input vector) in
/-- The memory when the tree has left the maximum in the first cell. -/
structure MaximumReady (s : AttentionMemory F H) : Prop where
  maximum : s.cells 0 = input.rowMaximum vector
  logits : ∀ keyToken < (input.validKeys vector).toNat,
    s.rest.scratch keyToken = input.logit vector keyToken

theorem weighKeys_keeps {thread : Nat} (within : thread < blockDim)
    {memory : AttentionMemory F H} (ready : input.MaximumReady vector memory) :
    let partialSum := input.localSum vector (input.rowMaximum vector) 0
    Keeps ((weighing partialSum).rely thread) ((weighing partialSum).guarantee thread)
      (fun s => ∃ late, (thread = 0 → late = false) ∧
        input.Weighed vector (input.seen vector (fun _ => late) thread) thread memory s)
      (input.weighKeys vector thread) memory := by
  intro partialSum
  refine .read (fun _ => ⟨fun _ _ => rfl, rfl, .inl rfl⟩) fun s maximum moved found => ?_
  obtain ⟨cell, still⟩ := ownKeys_eq moved.1
  have logits : ∀ keyToken < (input.validKeys vector).toNat, keyToken % blockDim = thread →
      s.rest.scratch keyToken = input.logit vector keyToken := fun keyToken below own =>
    (still keyToken own).trans (ready.logits keyToken below)
  -- what the thread reads decides whether it is late, and thread zero finds its own cell untouched
  have choice : ∃ late, (thread = 0 → late = false) ∧
      maximum = input.seen vector (fun _ => late) thread := by
    by_cases zero : thread = 0
    · subst zero
      exact ⟨false, fun _ => rfl, found.symm.trans (cell.trans ready.maximum)⟩
    · rcases moved.2.2 with same | overwritten
      · exact ⟨false, fun _ => rfl, found.symm.trans (same.trans ready.maximum)⟩
      · exact ⟨true, fun first => absurd first zero, found.symm.trans overwritten⟩
  obtain ⟨late, honest, rfl⟩ := choice
  refine (weighWith_keeps within (fun zero => ?_) moved.2.1 logits).weaken fun s' weighed =>
    ⟨late, honest, weighed⟩
  rw [honest zero]
  rfl

/-- At the barrier after the second loop each thread has weighed its keys against the maximum or,
if it was late, against the partial sum of thread zero. -/
theorem weighKeys_outcome {memory memory' : AttentionMemory F H}
    (ready : input.MaximumReady vector memory)
    (ran : Interleaves blockDim (input.weighKeys vector) memory memory') :
    ∃ late : Nat → Bool, late 0 = false ∧ ∀ thread < blockDim,
      input.Weighed vector (input.seen vector late thread) thread memory memory' := by
  have finished := interleaves_post (weighing _) _ (fun _ within => weighKeys_keeps within ready)
    ran
  choose late honest weighed using fun thread : {thread // thread < blockDim} =>
    finished thread thread.2
  refine ⟨fun thread => if within : thread < blockDim then late ⟨thread, within⟩ else false,
    honest ⟨0, by decide⟩ rfl, fun thread within => ?_⟩
  have own := weighed ⟨thread, within⟩
  simpa only [seen, dif_pos within] using own

/-! ### The output -/

variable (input vector) in
/-- The memory when the tree has left the sum in the first cell. -/
structure SumReady (late : Nat → Bool) (s : AttentionMemory F H) : Prop where
  sum : s.cells 0 = input.denominator vector late
  probabilities : ∀ keyToken < (input.validKeys vector).toNat, s.rest.scratch keyToken =
    input.weight vector (input.seen vector late (keyToken % blockDim)) keyToken

theorem mixValue_yields {late : Nat → Bool} {memory : AttentionMemory F H}
    (ready : input.SumReady vector late memory) (thread : Nat) :
    Yields (input.outputOffset vector) input.headDim memory
      (input.mixValue vector (DeviceFloat.one / input.denominator vector late))
      (fun dimension => Stored.store (input.mixed vector late dimension : F)) thread := by
  intro dimension below own s onward post frame later
  refine Keeps.forEach (fun rest carried s' =>
    rest.foldl (input.mixTurn vector late dimension) carried =
      input.mixed vector late dimension ∧
    (∀ keyToken ∈ rest, keyToken < (input.validKeys vector).toNat) ∧
    (storing (input.outputOffset vector) input.headDim).rely thread s s') ?_ ?_
    ⟨rfl, fun keyToken listed => List.mem_range.mp listed, (storing _ _).refl thread s⟩
  · rintro keyToken rest carried s₁ onward' ⟨folded, valid, since⟩ later'
    refine .read (fun _ => ⟨fun _ _ => rfl, rfl⟩) fun s₂ probability moved found => ?_
    have since₂ := (storing _ _).trans thread _ _ _ since moved
    have still : Undisturbed (input.outputOffset vector) input.headDim [] s s₂ :=
      .of_rely since₂ (by simp)
    -- the probability found is still the one that the barrier closed on
    have weighed := ready.probabilities keyToken (valid keyToken (.head _))
    rw [← frame.scratch, ← still.scratch, found] at weighed
    subst weighed
    exact later' _ _ ⟨folded, fun key listed => valid key (.tail _ listed), since₂⟩
  · rintro carried s₁ ⟨folded, _, since⟩
    rw [List.foldl_nil] at folded
    subst folded
    exact later s₁ since

theorem mixValues_outcome {late : Nat → Bool} {memory memory' : AttentionMemory F H}
    (ready : input.SumReady vector late memory)
    (ran : Interleaves blockDim (input.mixValues vector) memory memory') :
    RowWritten (input.outputOffset vector) input.headDim
      (fun dimension => Stored.store (input.mixed vector late dimension : F))
      memory.rest.output memory'.rest.output := by
  have done := interleaves_post (storing (input.outputOffset vector) input.headDim)
    (fun thread => RowDone (input.outputOffset vector) input.headDim thread
      (fun dimension => Stored.store (input.mixed vector late dimension : F)) memory) ?_ ran
  · exact .of_done done
  intro thread within
  refine .read (fun _ => ⟨fun _ _ => rfl, rfl⟩) fun s denominator moved found => ?_
  have frame : Undisturbed (input.outputOffset vector) input.headDim
      (threadIndices thread input.headDim.toNat) memory s :=
    .of_rely moved fun i => (mem_threadIndices within).mp
  have sum : denominator = input.denominator vector late := by
    rw [← found, frame.cells, ready.sum]
  subst sum
  exact writeRow_keeps within frame (mixValue_yields ready thread)

end AttentionInput

end MarketForge.Cuda
