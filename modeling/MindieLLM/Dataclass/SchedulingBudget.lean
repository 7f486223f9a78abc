import MindieLLM.Dataclass.Sequence

/-!
# The scheduling budget

What one round of scheduling may still hand out, in tokens and in sequences, and the
configuration it is taken from.

## Main definitions

* `SchedulerConfig`: the parts of the configuration that the scheduler reads
* `SchedulingBudget`: the budget of a round
-/

namespace MindieLLM

structure SchedulerConfig where
  cacheBlockSize : Nat
  enablePrefixCache : Bool := false
  spSize : Nat := 1
  cpSize : Nat := 1
  maxSeqLen : Nat := 0
  maxBatchSize : Nat := 0
  maxPrefillBatchSize : Nat := 0
  maxPrefillTokens : Nat := 0
  maxPreemptCount : Nat := 0
  enableChunkedPrefill : Bool := false
  prefillChunkSize : Nat := 0
  speculationGamma : Nat := 0
  activateAsyncInference : Bool := false
  layerwiseDisaggregated : Bool := false
  maxDispatchBatchNum : Nat := 1
  earlyStoppingIds : List TokenId := []

structure SchedulingBudget where
  schedulerConfig : SchedulerConfig
  maxNumSeqs : Nat
  maxNumBatchedTokens : Nat
  numCachedTokens : Nat := 0
  numBatchedTokens : Nat := 0
  numCurSeqs : Nat := 0
  requestIdsNumBatchedTokens : List RequestId := []
  requestIdsNumCurSeqs : List RequestId := []

namespace SchedulingBudget

/-- The constructor. With chunked prefill the limits come from the configuration. -/
def new (maxNumBatchedTokens maxNumSeqs : Nat) (schedulerConfig : SchedulerConfig) :
    SchedulingBudget :=
  if schedulerConfig.enableChunkedPrefill then
    { schedulerConfig := schedulerConfig
      maxNumSeqs := schedulerConfig.maxBatchSize
      maxNumBatchedTokens := schedulerConfig.maxPrefillTokens }
  else
    { schedulerConfig := schedulerConfig
      maxNumSeqs := maxNumSeqs
      maxNumBatchedTokens := maxNumBatchedTokens }

def canSchedule (b : SchedulingBudget) (numNewTokens numNewSeqs : Nat) : Bool :=
  b.numBatchedTokens + numNewTokens ≤ b.maxNumBatchedTokens ∧
    b.numCurSeqs + numNewSeqs ≤ b.maxNumSeqs

/-- `RemainingTokenBudget`, zero when the budget is overdrawn. -/
def remainingTokenBudget (b : SchedulingBudget) : Nat := b.maxNumBatchedTokens - b.numBatchedTokens

/-- `GetPrefillSlots`. What the source says after the two returns of the chunked case is never
reached. -/
def getPrefillSlots (b : SchedulingBudget) : Nat :=
  if !b.schedulerConfig.enableChunkedPrefill then b.remainingTokenBudget
  else if b.schedulerConfig.prefillChunkSize ≠ 0 then b.schedulerConfig.prefillChunkSize
  else b.schedulerConfig.maxPrefillTokens

/-- `AddNumBatchedTokens`: a request counts once. -/
def addNumBatchedTokens (b : SchedulingBudget) (reqId : RequestId)
    (numBatchedTokens numCachedTokens : Nat) : SchedulingBudget :=
  if reqId ∈ b.requestIdsNumBatchedTokens then b
  else
    { b with
      requestIdsNumBatchedTokens := reqId :: b.requestIdsNumBatchedTokens
      numBatchedTokens := b.numBatchedTokens + numBatchedTokens
      numCachedTokens := b.numCachedTokens + numCachedTokens }

def addNumSeqs (b : SchedulingBudget) (reqId : RequestId) (numCurSeqs : Nat) : SchedulingBudget :=
  if reqId ∈ b.requestIdsNumCurSeqs then b
  else
    { b with
      requestIdsNumCurSeqs := reqId :: b.requestIdsNumCurSeqs
      numCurSeqs := b.numCurSeqs + numCurSeqs }

end SchedulingBudget

end MindieLLM
