import MindieLLM.Program.RowWrites
import Mathlib.Order.Nat

/-!
# The arrays of the batch context

The text generator keeps what it knows of a sequence in a slot: a row of each of several arrays, and
an entry of each of several dictionaries. A pool holds the slots that are free; slot 0 is for dummy
batches and simulated requests and is never in it. When the pool is exhausted the arrays grow.

## Main definitions

* `SlotContext`: the rows and entries of one slot
* `NdarrayContext`: the slots and the pool
-/

namespace MindieLLM

open Program

abbrev SlotIdx := Nat

/-- What Python raises. -/
inductive PyError
  | runtimeError (message : String)
  | valueError (message : String)
  | indexError
  | attributeError
  | typeError
  deriving DecidableEq, Repr

/-- `SAMPLING_DTYPE`, where nothing stands for `nan`. -/
structure SamplingParams where
  repetitionPenalty : Option Rat := some 1
  frequencyPenalty : Option Rat := some 0
  presencePenalty : Option Rat := some 0
  temperature : Option Rat := some 1
  topK : Option Rat := some 0
  topP : Option Rat := some 1
  doSample : Option Rat := some 0
  topLogprobs : Option Rat := some 0
  deriving DecidableEq, Repr

structure ContextParams where
  mtpNumSpeculativeTokens : Nat := 0
  mtpHiddenSize : Nat := 0
  mtpEnable : Bool := false
  asyncInfer : Bool := false
  maxGeneratedTokens : Nat := 1
  /-- `generator_backend_type == BackendType.TORCH` -/
  generatorBackendTorch : Bool := false
  layerwiseDisaggregated : Bool := false

structure SpCpParallelInfo where
  spSize : Nat := 1
  spRank : Nat := 0
  cpSize : Nat := 1
  cpRank : Nat := 0

namespace SpCpParallelInfo

variable (info : SpCpParallelInfo)

def scpSize : Nat := info.cpSize * info.spSize

def scpRank : Nat := info.cpRank * info.spSize + info.spRank

end SpCpParallelInfo

structure CacheConfig where
  cacheSize : Nat := 2048
  maxBlockSize : Nat := 128
  maxGenLen : Nat := 512
  maxSeqLen : Nat := 2560
  padTokenId : Int := -1
  padRankId : Int := -1

structure KVCacheSettings where
  numNpuBlocks : Nat := 1024
  blockSize : Nat := 128

/-- `SIMULATE_SEQUENCE_ID` -/
def InputMetadata.simulateSequenceId : Int := 9223372036854774

/-- What the context is made from. -/
structure BatchContextConfig where
  contextParams : ContextParams := {}
  spcpParallelInfo : SpCpParallelInfo := {}
  cacheConfig : CacheConfig := {}
  kvcacheSettings : KVCacheSettings := {}
  defaultSamplingParams : SamplingParams := {}
  /-- `decode_one` with the tokenizer: a token, and whether special tokens are skipped. -/
  decodeOne : Int → Bool → String := fun _ _ => ""

namespace BatchContextConfig

variable (cfg : BatchContextConfig)

/-- The width of `all_input_ids`. -/
def allInputWidth : Nat :=
  if cfg.contextParams.asyncInfer then cfg.cacheConfig.maxSeqLen + 1 else cfg.cacheConfig.maxSeqLen

/-- The width of `all_output_ids`. -/
def allOutputWidth : Nat :=
  if cfg.contextParams.asyncInfer then cfg.cacheConfig.maxGenLen + 1 else cfg.cacheConfig.maxGenLen

/-- The width of `mtp_seq_block_rank_id`. -/
def mtpBlockWidth : Nat :=
  (cfg.cacheConfig.maxSeqLen + cfg.cacheConfig.maxBlockSize) / cfg.cacheConfig.maxBlockSize + 1

end BatchContextConfig

/-- The state of a random-number generator: its seed, and how often it has been drawn from. -/
structure Generator where
  seed : Nat
  drawn : Nat
  deriving DecidableEq, Repr

/-- What an answer may end with: a token, or several. -/
abbrev StopTokenId := Int ⊕ List Int

/-- The rows of the arrays of `NdarrayContext`, and the entries of the dictionaries of
`DictContext`. -/
structure SlotContext where
  lastInputIds : Int
  lastPositionIds : Int
  seqLens : Nat
  cpuCachedSeqIdx : List Int
  outputLenCount : Nat
  usedBlockIdx : Int
  usedBlockOffset : Int
  cumulativeLogprobs : Rat
  numTopTokens : Int
  allInputIds : List Int
  allOutputIds : List Int
  samplingParams : SamplingParams
  seeds : Nat
  bestOf : Nat
  n : Nat
  useBeamSearch : Bool
  ignoreEos : Bool
  includeStop : Bool
  skipSpecialTokens : Bool
  mtpLastSlots : List Int
  mtpLastTokenNum : Nat
  mtpHiddenStates : List Rat
  mtpLastRank : Int
  mtpSeqBlockRankId : List Int
  stoppingCriteria : Option (List StopTokenId)
  stringStoppingCriteria : Option (List String)
  outputTexts : Option String
  traceIds : Option String
  loraAdapterId : Option String
  responseFormat : Option String
  randomNumberGenerators : Option Generator
  deriving DecidableEq

namespace SlotContext

variable (cfg : BatchContextConfig)

/-- The slot as it is when the arrays are made. -/
def blank : SlotContext where
  lastInputIds := 0
  lastPositionIds := 0
  seqLens := 0
  cpuCachedSeqIdx := List.replicate cfg.spcpParallelInfo.scpSize 0
  outputLenCount := 0
  usedBlockIdx := 0
  usedBlockOffset := 0
  cumulativeLogprobs := 0
  numTopTokens := 0
  allInputIds := List.replicate cfg.allInputWidth cfg.cacheConfig.padTokenId
  allOutputIds := List.replicate cfg.allOutputWidth cfg.cacheConfig.padTokenId
  samplingParams := cfg.defaultSamplingParams
  seeds := 0
  bestOf := 1
  n := 1
  useBeamSearch := false
  ignoreEos := false
  includeStop := false
  skipSpecialTokens := true
  mtpLastSlots := List.replicate (cfg.contextParams.mtpNumSpeculativeTokens + 1) 0
  mtpLastTokenNum := 0
  mtpHiddenStates := List.replicate
    ((cfg.contextParams.mtpNumSpeculativeTokens + 1) * cfg.contextParams.mtpHiddenSize) 0
  mtpLastRank := cfg.cacheConfig.padRankId
  mtpSeqBlockRankId := List.replicate cfg.mtpBlockWidth cfg.cacheConfig.padRankId
  stoppingCriteria := none
  stringStoppingCriteria := none
  outputTexts := none
  traceIds := none
  loraAdapterId := none
  responseFormat := none
  randomNumberGenerators := none

/-- `DictContext.clear_single_context`: the generator stays. -/
def clearDict (c : SlotContext) : SlotContext :=
  { c with
    stoppingCriteria := none
    stringStoppingCriteria := none
    outputTexts := none
    traceIds := none
    loraAdapterId := none
    responseFormat := none }

/-- `NdarrayContext.clear_context` and `DictContext.clear_single_context` -/
def clearContext (c : SlotContext) : SlotContext :=
  let mtp := if cfg.contextParams.mtpEnable then blank cfg else c
  let ranks :=
    if cfg.contextParams.mtpEnable ∧ 1 < cfg.spcpParallelInfo.scpSize then blank cfg else c
  { blank cfg with
    mtpLastSlots := mtp.mtpLastSlots
    mtpLastTokenNum := mtp.mtpLastTokenNum
    mtpHiddenStates := mtp.mtpHiddenStates
    mtpLastRank := ranks.mtpLastRank
    mtpSeqBlockRankId := ranks.mtpSeqBlockRankId
    randomNumberGenerators := c.randomNumberGenerators }

/-- The rows after `_grow_capacity`; it does not touch the dictionaries. -/
def pad (c : SlotContext) : SlotContext :=
  { blank cfg with
    stoppingCriteria := c.stoppingCriteria
    stringStoppingCriteria := c.stringStoppingCriteria
    outputTexts := c.outputTexts
    traceIds := c.traceIds
    loraAdapterId := c.loraAdapterId
    responseFormat := c.responseFormat
    randomNumberGenerators := c.randomNumberGenerators }

/-- `NdarrayContext.fork_context`: a child takes over the rows of its parent, but for the last
input, the answer so far and the ranks. -/
def forkNdarray (child parent : SlotContext) : SlotContext :=
  let mtp := if cfg.contextParams.mtpEnable then parent else child
  { child with
    lastPositionIds := parent.lastPositionIds
    seqLens := parent.seqLens
    cpuCachedSeqIdx := parent.cpuCachedSeqIdx
    outputLenCount := parent.outputLenCount
    usedBlockIdx := parent.usedBlockIdx
    usedBlockOffset := parent.usedBlockOffset
    cumulativeLogprobs := parent.cumulativeLogprobs
    numTopTokens := parent.numTopTokens
    allInputIds := parent.allInputIds
    seeds := parent.seeds
    bestOf := parent.bestOf
    n := parent.n
    useBeamSearch := parent.useBeamSearch
    ignoreEos := parent.ignoreEos
    includeStop := parent.includeStop
    skipSpecialTokens := parent.skipSpecialTokens
    samplingParams := parent.samplingParams
    mtpLastSlots := mtp.mtpLastSlots
    mtpLastTokenNum := mtp.mtpLastTokenNum
    mtpHiddenStates := mtp.mtpHiddenStates }

/-- `DictContext.fork_context` for one child: all entries but the generator. -/
def forkDict (child parent : SlotContext) : SlotContext :=
  { child with
    outputTexts := parent.outputTexts
    stoppingCriteria := parent.stoppingCriteria
    stringStoppingCriteria := parent.stringStoppingCriteria
    loraAdapterId := parent.loraAdapterId
    traceIds := parent.traceIds
    responseFormat := parent.responseFormat }

end SlotContext

structure NdarrayContext where
  capacity : Nat
  baseCapacity : Nat
  /-- The free slots, the one to be popped first. -/
  pool : List SlotIdx
  pendingCleanupFlags : SlotIdx → Bool
  slots : SlotIdx → SlotContext

namespace NdarrayContext

variable (cfg : BatchContextConfig)

def init (capacity : Nat) : NdarrayContext where
  capacity := capacity
  baseCapacity := capacity
  pool := (List.range' 1 (capacity - 1)).reverse
  pendingCleanupFlags := fun _ => false
  slots := fun _ => SlotContext.blank cfg

variable (c : NdarrayContext)

/-- `_grow_capacity` -/
def grow : NdarrayContext where
  capacity := c.capacity + c.baseCapacity
  baseCapacity := c.baseCapacity
  pool := (List.range' c.capacity c.baseCapacity).reverse ++ c.pool
  pendingCleanupFlags := fun h =>
    if c.capacity ≤ h ∧ h < c.capacity + c.baseCapacity then false else c.pendingCleanupFlags h
  slots := fun h =>
    if c.capacity ≤ h ∧ h < c.capacity + c.baseCapacity then (c.slots h).pad cfg else c.slots h

/-- `_free_slot` -/
def freeSlot (handle : SlotIdx) : NdarrayContext :=
  if cfg.contextParams.layerwiseDisaggregated ∧ handle = 0 then c
  else { c with pool := handle :: c.pool }

/-- The rows of the handles are set to their defaults. -/
def clearRows (handles : List SlotIdx) : NdarrayContext :=
  { c with slots := fun h => if h ∈ handles then (c.slots h).clearContext cfg else c.slots h }

/-- `fork_context`: the arrays of all children at once, and the dictionaries one child after the
other. -/
def forkSlots (pairs : List (SlotIdx × SlotIdx)) (slots : SlotIdx → SlotContext) :
    SlotIdx → SlotContext :=
  pairs.foldl (fun s p => Function.update s p.1 ((s p.1).forkDict (s p.2)))
    (scatter (SlotContext.forkNdarray cfg) (pairs.map Prod.fst) (pairs.map fun p => slots p.2)
      slots)

def setFlags (handles : List SlotIdx) (flags : List Bool) : NdarrayContext :=
  { c with pendingCleanupFlags := scatter (fun _ flag => flag) handles flags c.pendingCleanupFlags }

end NdarrayContext

end MindieLLM
