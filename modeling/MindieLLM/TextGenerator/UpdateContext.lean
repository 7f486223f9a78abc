import Mathlib.Algebra.Ring.Rat
import MindieLLM.Program.Wp
import MindieLLM.TextGenerator.SlotContext

/-!
# Updates of the context by a batch

Before a prefill the rows of its sequences are filled from the metadata; after a forward pass the
tokens that have been sampled are appended; before a decode the rows are read. Each statement is an
array operation on the rows of all sequences of the batch.

## Main definitions

* `UpdateContext.updateContextFirst`: `update_context` before a prefill, and before the first decode
  where prefill and decode are separated
* `UpdateContext.updateContext`: `update_context` after a forward pass
* `UpdateContext.joinContext`: `join_context`
-/

namespace MindieLLM

open Program

/-- A program on the rows. -/
abbrev SlotsM := EStateM PyError (SlotIdx → SlotContext)

namespace UpdateContext

/-- `array[context_handles] = values`: the values are taken from the rows as they are and from what
the batch has for each of them. -/
def assign {E β : Type} (batch : List (SlotIdx × E)) (value : E → SlotContext → β)
    (set : SlotContext → β → SlotContext) : SlotsM PUnit :=
  modify fun slots => writeRows set (batch.map fun p => (p.1, value p.2 (slots p.1))) slots

/-- The same, where the array of the values is not `None`. -/
def assignIf {E β : Type} (given : Bool) (batch : List (SlotIdx × E))
    (value : E → SlotContext → β) (set : SlotContext → β → SlotContext) : SlotsM PUnit :=
  if given then assign batch value set else pure ()

/-- A loop over the batch. -/
def forRows {E : Type} (batch : List (SlotIdx × E)) (f : E → SlotContext → SlotContext) :
    SlotsM PUnit :=
  modify (writeRows (fun c e => f e c) batch)

/-- `array[row, start : start + len(values)] = values` within the row. -/
def writeAt (row : List Int) (start : Nat) (values : List Int) : List Int :=
  row.mapIdx fun i x =>
    if start ≤ i ∧ i < start + values.length then values.getD (i - start) x else x

variable (cfg : BatchContextConfig)

/-- `used_block_idx` and `used_block_offset` -/
def withUsedBlock (c : SlotContext) : SlotContext :=
  let cached := c.cpuCachedSeqIdx.getD cfg.spcpParallelInfo.scpRank 0
  { c with
    usedBlockIdx := cached / cfg.cacheConfig.maxBlockSize
    usedBlockOffset := cached % cfg.cacheConfig.maxBlockSize }

/-- `cpu_cached_seq_idx[handles, rank]` -/
def setCached (rank : Nat) (c : SlotContext) (v : Int) : SlotContext :=
  { c with cpuCachedSeqIdx := c.cpuCachedSeqIdx.set rank v }

/-! ## Before a prefill -/

/-- What the metadata has of a sequence that is prefilled; empty lists and strings where it has
nothing. -/
structure PrefillEntry where
  lastPositionId : Int := 0
  inputLength : Nat := 0
  prefillNewToken : Int := 0
  spTokens : List Int := []
  spRankId : Nat := 0
  padTokenCount : Nat := 0
  n : Option Nat := none
  bestOf : Option Nat := none
  useBeamSearch : Bool := false
  ignoreEos : Bool := false
  skipSpecialTokens : Option Bool := none
  includeStop : Bool := false
  stopStrings : List String := []
  stopTokenIds : List StopTokenId := []
  responseFormat : Option String := none
  adapterId : String := ""
  traceId : String := ""
  requestId : String := ""

/-- The arrays of the metadata that are not `None`. -/
structure Given where
  n : Bool := true
  bestOf : Bool := true
  useBeamSearch : Bool := true
  ignoreEos : Bool := true
  skipSpecialTokens : Bool := true
  includeStop : Bool := true
  traceIds : Bool := true

structure PrefillMetadata where
  given : Given := {}
  isPdSeparate : Bool := false
  batch : List (SlotIdx × PrefillEntry)

/-- `batch_best_of`, after what it does not say has been taken from `n`. -/
def bestOf (e : PrefillEntry) (c : SlotContext) : Nat := e.bestOf.getD c.n

/-- Beam search ignores what an answer may end with. -/
def stops (given : Given) (e : PrefillEntry) : Bool := !(given.useBeamSearch && e.useBeamSearch)

def updatePositions (batch : List (SlotIdx × PrefillEntry)) : SlotsM PUnit := do
  assign batch (fun e _ => e.lastPositionId) fun c v => { c with lastPositionIds := v }
  assign batch (fun e _ => e.inputLength) fun c v => { c with seqLens := v }
  if 1 < cfg.spcpParallelInfo.scpSize then
    assign batch
      (fun e _ => (e.spTokens.modify e.spRankId fun v => v - e.padTokenCount).map fun v => v - 1)
      fun c v => { c with cpuCachedSeqIdx := v }
    assign batch (fun e c => c.lastPositionIds - e.padTokenCount) fun c v =>
      { c with lastPositionIds := v }
    assign batch (fun e c => c.seqLens - e.padTokenCount) fun c v => { c with seqLens := v }
  else
    assign batch (fun e _ => (e.inputLength : Int) - 1)
      (setCached cfg.spcpParallelInfo.scpRank)

def updateParameters (given : Given) (batch : List (SlotIdx × PrefillEntry)) : SlotsM PUnit := do
  assignIf given.n batch (fun e _ => e.n.getD 1) fun c v => { c with n := v }
  assignIf given.bestOf batch bestOf fun c v => { c with bestOf := v }
  assignIf given.useBeamSearch batch (fun e _ => e.useBeamSearch) fun c v =>
    { c with useBeamSearch := v }
  assignIf given.ignoreEos batch (fun e _ => e.ignoreEos) fun c v => { c with ignoreEos := v }
  assignIf given.skipSpecialTokens batch (fun e _ => e.skipSpecialTokens.getD true) fun c v =>
    { c with skipSpecialTokens := v }
  assignIf given.includeStop batch (fun e _ => e.includeStop) fun c v =>
    { c with includeStop := v }

def updateDicts (given : Given) (batch : List (SlotIdx × PrefillEntry)) : SlotsM PUnit := do
  forRows batch fun e c =>
    if e.stopStrings ≠ [] ∧ stops given e then
      { c with
        outputTexts := some ""
        stringStoppingCriteria := some e.stopStrings }
    else c
  forRows batch fun e c =>
    if e.stopTokenIds ≠ [] ∧ stops given e then
      { c with
        outputTexts := some ""
        stoppingCriteria := some e.stopTokenIds }
    else c
  forRows batch fun e c =>
    if e.responseFormat = none then c else { c with responseFormat := e.responseFormat }
  forRows batch fun e c =>
    if e.adapterId = "" then c else { c with loraAdapterId := some e.adapterId }
  forRows batch fun e c =>
    if given.traceIds then
      { c with traceIds := some (if e.traceId = "" then e.requestId else e.traceId) }
    else c

/-- The answer so far of a sequence with stop strings is its first token. -/
def updateOutputText (given : Given) (p : SlotIdx × PrefillEntry) : SlotsM PUnit :=
  if p.2.stopStrings = [] then pure ()
  else if !given.skipSpecialTokens then throw .typeError
  else forRows [p] fun e c =>
    { c with
      outputTexts := some (cfg.decodeOne e.prefillNewToken (e.skipSpecialTokens.getD true)) }

/-- The token of the prefill node. -/
def updateFirstTokens (batch : List (SlotIdx × PrefillEntry)) : SlotsM PUnit := do
  assign batch (fun e _ => e.prefillNewToken) fun c v => { c with lastInputIds := v }
  assign batch (fun e _ => e.prefillNewToken) fun c v =>
    { c with allOutputIds := c.allOutputIds.set 0 v }
  assign batch (fun _ c => c.outputLenCount + batch.length) fun c v =>
    { c with outputLenCount := v }
  forRows batch fun _ => withUsedBlock cfg

/-- The first decode, where prefill and decode are separated. -/
def updatePdSeparate (given : Given) (batch : List (SlotIdx × PrefillEntry)) : SlotsM PUnit := do
  let slots ← get
  if !given.bestOf then throw .typeError
  else if ∃ p ∈ batch, 1 < bestOf p.2 (slots p.1) then
    throw (.runtimeError
      "Prefilling-decoding separation deployment does not support best_of > 1.")
  else
    batch.forM (updateOutputText cfg given)
    updateFirstTokens cfg batch

/-- The part that every prefill has. -/
def updateFields (given : Given) (batch : List (SlotIdx × PrefillEntry)) : SlotsM PUnit := do
  updatePositions cfg batch
  updateParameters given batch
  updateDicts given batch

def updateContextFirst (m : PrefillMetadata) : SlotsM PUnit := do
  updateFields cfg m.given m.batch
  if m.isPdSeparate then updatePdSeparate cfg m.given m.batch else pure ()

/-! ## After a forward pass -/

/-- What has been sampled for a sequence, and where it stands in its prompt. -/
structure SamplingEntry where
  tokenIds : List Int
  numNewTokens : Nat
  seed : Nat := 0
  logprobs : List Rat := []
  isPrefill : Bool := false
  lastPrompt : Bool := true
  spRankId : Nat := 0

/-- Handles are missing for what only pads the batch. -/
structure SamplingBatch where
  /-- The columns of `token_ids`. -/
  width : Nat
  entries : List (Option SlotIdx × SamplingEntry)
  /-- `batch_is_prefill` is not `None`: prompts are split and mixed with decodes. -/
  isSplitfuse : Bool := false
  /-- `sampling_metadata` is not `None`. -/
  hasSampling : Bool := true
  isPrefill : Bool := false
  hasSeeds : Bool := false
  hasLogprobs : Bool := true

namespace SamplingBatch

variable (b : SamplingBatch)

/-- The entries with handles that are neither missing nor 0. -/
def valid : List (SlotIdx × SamplingEntry) :=
  (b.entries.filterMap fun p => p.1.map fun h => (h, p.2)).filter fun p => p.1 ≠ 0

def updates (e : SamplingEntry) : Bool := !b.isSplitfuse || !e.isPrefill || e.lastPrompt

/-- Those that are decoded or at the end of their prompt. -/
def updating : List (SlotIdx × SamplingEntry) := b.valid.filter fun p => b.updates p.2

end SamplingBatch

/-- The last of the new tokens; of none, the last column. -/
def lastToken (width : Nat) (e : SamplingEntry) : Int :=
  e.tokenIds.getD (if e.numNewTokens = 0 then width - 1 else e.numNewTokens - 1) 0

/-- A row would be written out of its bounds. -/
def outOfBound (width : Nat) (c : SlotContext) : Prop :=
  cfg.allOutputWidth ≤ c.outputLenCount + width - 1 ∨ cfg.allInputWidth ≤ c.seqLens + width - 1

instance (width : Nat) (c : SlotContext) : Decidable (outOfBound cfg width c) :=
  inferInstanceAs (Decidable (_ ∨ _))

/-- `row[start : start + len(values)] = values`: the slice ends with the row. Values of another
number fit only if there is one. -/
def assignSlice (rowWidth : Nat) (row : List Int) (start : Nat) (values : List Int) :
    Except PyError (List Int) :=
  let length := min (start + values.length) rowWidth - min start rowWidth
  if values.length = length then .ok (writeAt row start values)
  else if values.length = 1 then .ok row
  else .error (.valueError "could not broadcast input array")

def orRaise {α : Type} : Except PyError α → SlotsM α
  | .ok a => pure a
  | .error e => throw e

/-- The row of the inputs, which is left as it is where there is no metadata for the sampling. -/
def inputSlice (hasSampling : Bool) (c : SlotContext) (tokens : List Int) : SlotsM (List Int) :=
  if hasSampling then orRaise (assignSlice cfg.allInputWidth c.allInputIds c.seqLens tokens)
  else pure c.allInputIds

/-- The tokens of one sequence. -/
def updateSlice (hasSampling : Bool) (p : SlotIdx × SamplingEntry) : SlotsM PUnit := do
  let slots ← get
  let tokens := p.2.tokenIds.take p.2.numNewTokens
  let inputRow ← inputSlice cfg hasSampling (slots p.1) tokens
  forRows [p] fun _ c => { c with allInputIds := inputRow }
  let outputRow ← orRaise (assignSlice cfg.allOutputWidth (slots p.1).allOutputIds
    (slots p.1).outputLenCount tokens)
  forRows [p] fun _ c => { c with allOutputIds := outputRow }

/-- The tokens of all rows, whole columns of them. -/
def updateColumns (hasSampling : Bool) (batch : List (SlotIdx × SamplingEntry)) : SlotsM PUnit := do
  assign batch (fun e c => writeAt c.allOutputIds c.outputLenCount e.tokenIds) fun c v =>
    { c with allOutputIds := v }
  assignIf hasSampling batch (fun e c => writeAt c.allInputIds c.seqLens e.tokenIds) fun c v =>
    { c with allInputIds := v }

def updateTokens (b : SamplingBatch) : SlotsM PUnit := do
  let slots ← get
  if ∃ p ∈ b.updating, outOfBound cfg b.width (slots p.1) then
    b.updating.forM (updateSlice cfg b.hasSampling)
  else updateColumns b.hasSampling b.updating

/-- The index of the last token that is cached. -/
def updateCached (batch : List (SlotIdx × SamplingEntry)) : SlotsM PUnit :=
  if 1 < cfg.spcpParallelInfo.scpSize then
    forRows batch fun e c =>
      setCached e.spRankId c (c.cpuCachedSeqIdx.getD e.spRankId 0 + (e.numNewTokens - 1))
  else
    forRows batch fun e c =>
      setCached cfg.spcpParallelInfo.scpRank c
        (c.cpuCachedSeqIdx.getD cfg.spcpParallelInfo.scpRank 0 + e.numNewTokens)

def updateCounters (b : SamplingBatch) : SlotsM PUnit := do
  assignIf (b.hasSampling && b.isPrefill && b.hasSeeds) b.updating (fun e _ => e.seed) fun c v =>
    { c with seeds := v }
  assignIf b.hasLogprobs b.updating
    (fun e c => if c.useBeamSearch then c.cumulativeLogprobs + e.logprobs.sum
      else c.cumulativeLogprobs)
    fun c v => { c with cumulativeLogprobs := v }
  assign b.updating (fun e c => c.outputLenCount + e.numNewTokens) fun c v =>
    { c with outputLenCount := v }
  assign b.updating (fun e c => c.seqLens + e.numNewTokens) fun c v => { c with seqLens := v }
  updateCached cfg b.updating
  assign b.updating (fun e c => c.lastPositionIds + e.numNewTokens) fun c v =>
    { c with lastPositionIds := v }
  forRows b.valid fun _ => withUsedBlock cfg

def updateContext (b : SamplingBatch) : SlotsM PUnit := do
  assign b.updating (fun e _ => lastToken b.width e) fun c v => { c with lastInputIds := v }
  updateTokens cfg b
  updateCounters cfg b

/-! ## Before a decode -/

structure JoinEntry where
  sequenceId : Int
  blockTable : List Int
  spRankId : Nat := 0
  isAppendBlock : Bool := false
  blockRankId : Int := 0
  hit : Bool := false

structure JoinBatch where
  entries : List (SlotIdx × JoinEntry)
  hasHitMask : Bool := false

/-- What the model runner gets of a row. -/
structure JoinedRow where
  lastInputId : Int
  lastPositionId : Int
  slot : Option Int
  inputLength : Nat
  adapterId : Option String
  deriving DecidableEq

/-- `list[index]`, where a negative index counts from the end. -/
def index (l : List Int) (i : Int) : Except PyError Int :=
  let i := if i < 0 then i + l.length else i
  if 0 ≤ i then
    match l[i.toNat]? with
    | some v => .ok v
    | none => .error .indexError
  else .error .indexError

/-- `kv_slots[block, offset]` -/
def kvSlot (block offset : Int) : Except PyError Int :=
  let blocks : Int := cfg.kvcacheSettings.numNpuBlocks
  let block := if block < 0 then block + blocks else block
  if 0 ≤ block ∧ block < blocks ∧ 0 ≤ offset ∧ offset < cfg.kvcacheSettings.blockSize then
    .ok (block * cfg.kvcacheSettings.blockSize + offset)
  else .error .indexError

/-- The block and the offset at which the next token is cached. -/
def nextCached (hasHitMask : Bool) (e : JoinEntry) (c : SlotContext) : Int × Int :=
  if cfg.contextParams.asyncInfer ∧ hasHitMask then
    let cached := c.cpuCachedSeqIdx.getD cfg.spcpParallelInfo.scpRank 0
    let cached :=
      if cfg.spcpParallelInfo.scpSize = 1 ∧ e.hit then
        cached + cfg.contextParams.maxGeneratedTokens
      else cached
    (cached / cfg.cacheConfig.maxBlockSize, cached % cfg.cacheConfig.maxBlockSize)
  else (c.usedBlockIdx, c.usedBlockOffset)

/-- The slot of the cache for the next token of a sequence. -/
def slotOf (hasHitMask : Bool) (e : JoinEntry) (c : SlotContext) : Except PyError (Option Int) :=
  if cfg.contextParams.mtpEnable then .ok none
  else do
    let next := nextCached cfg hasHitMask e c
    let block ← index e.blockTable next.1
    let slot ← kvSlot cfg block next.2
    let scp := cfg.spcpParallelInfo
    if (1 < scp.scpSize ∧ e.spRankId % scp.scpSize ≠ scp.scpRank) ∨
        e.sequenceId = InputMetadata.simulateSequenceId then
      return some (-1)
    return some slot

/-- `argmin`: the first of the least. -/
def argmin (l : List Int) : Nat :=
  l.findIdx fun v => l.all fun w => v ≤ w

/-- The writes of `join_context`, which concern where the next token is cached. -/
def joinRows (b : JoinBatch) : SlotsM PUnit := do
  let scp : Bool := 1 < cfg.spcpParallelInfo.scpSize
  let params := cfg.contextParams
  forRows b.entries fun e c =>
    if scp && !params.asyncInfer then
      setCached e.spRankId c (c.cpuCachedSeqIdx.getD e.spRankId 0 + 1)
    else c
  forRows b.entries fun _ c => if scp && !params.asyncInfer then withUsedBlock cfg c else c
  forRows b.entries fun e c =>
    if scp && params.mtpEnable && e.isAppendBlock then
      let free := argmin c.mtpSeqBlockRankId
      { c with mtpSeqBlockRankId := c.mtpSeqBlockRankId.set free e.blockRankId }
    else c
  forRows b.entries fun e c =>
    if params.asyncInfer && b.hasHitMask && scp then
      setCached e.spRankId c (c.cpuCachedSeqIdx.getD e.spRankId 0 + 1)
    else c

def joinedRow (hasHitMask : Bool) (e : JoinEntry) (c : SlotContext) : Except PyError JoinedRow := do
  let slot ← slotOf cfg hasHitMask e c
  return ⟨c.lastInputIds, c.lastPositionIds, slot, c.seqLens, c.loraAdapterId⟩

/-- The rows, and the greatest length. -/
def joinContext (b : JoinBatch) : SlotsM (List JoinedRow × Nat) := do
  joinRows cfg b
  let slots ← get
  let rows ← b.entries.mapM fun p => orRaise (joinedRow cfg b.hasHitMask p.2 (slots p.1))
  if rows = [] then
    throw (.valueError "zero-size array to reduction operation maximum which has no identity")
  return (rows, (rows.map JoinedRow.inputLength).foldl max 0)

end UpdateContext

end MindieLLM
