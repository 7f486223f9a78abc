import Mathlib.Algebra.GroupWithZero.Nat
import MindieLLM.Dataclass.SchedulingBudget

/-!
# How many tokens a round computes for a group

The count that every queue of the policy takes before it schedules a group, and what the policy
makes of it. The number of cached tokens of a sequence is an answer of the block manager, so the
count runs in any monad that can ask for it.

## Main definitions

* `PolicyHelper.getNumComputeNewUnCachedAndCachedTokens`: the tokens to compute and the tokens
  found in the cache
* `ScheduledSequenceGroup`: a group with the tokens it is scheduled for
-/

namespace MindieLLM

variable {HashValue : Type}

structure ScheduledSequenceGroup (HashValue : Type) where
  seqGroup : SequenceGroup HashValue
  tokenChunkSize : Nat

namespace PolicyHelper

def getNumComputeChunkSize (budget : SchedulingBudget) (numNewTokens : Nat) : Nat :=
  min (min numNewTokens budget.remainingTokenBudget) budget.getPrefillSlots

def getPromptLimit (cfg : SchedulerConfig) (budget : SchedulingBudget) : Nat :=
  if cfg.enableChunkedPrefill then cfg.maxSeqLen else min cfg.maxSeqLen budget.maxNumBatchedTokens

section

variable {m : Type → Type} [Monad m] [MonadExcept Exn m]

/-- The part of the count that one sequence contributes, uncached tokens first. -/
def getNumNewTokensOfSeq (cfg : SchedulerConfig)
    (getSeqNumCachedTokens : Sequence HashValue → m Nat) (seq : Sequence HashValue) :
    m (Nat × Nat) := do
  if !seq.isPrefill then
    return (1, 0)
  if seq.getLen < seq.numComputedTokens then
    throw (.runtimeError "Computed token count exceeds sequence length")
  let allNumNewTokensSeq := seq.getLen - seq.numComputedTokens
  if !cfg.enablePrefixCache then
    return (allNumNewTokensSeq, 0)
  let numCachedTokensSeq ← getSeqNumCachedTokens seq
  if 1 < cfg.spSize ∨ 1 < cfg.cpSize then
    return (allNumNewTokensSeq, 0)
  let numCachedNewTokensSeq := numCachedTokensSeq - seq.numComputedTokens
  return (allNumNewTokensSeq - numCachedNewTokensSeq, numCachedNewTokensSeq)

def getNumComputeNewUnCachedAndCachedTokens (cfg : SchedulerConfig)
    (getSeqNumCachedTokens : Sequence HashValue → m Nat) (seqGroup : SequenceGroup HashValue)
    (status : SequenceStatus) (enableChunking : Bool) (budget : SchedulingBudget) :
    m (Nat × Nat) := do
  let seqs :=
    if seqGroup.enableParallelSampling ∧ (status = .running ∨ status = .swapped) then
      seqGroup.getParallelSequences .allStatus
    else seqGroup.getSequences status
  let counts ← seqs.mapM (getNumNewTokensOfSeq cfg getSeqNumCachedTokens)
  let numUncachedNewTokens := (counts.map Prod.fst).sum
  let numCachedNewTokens := (counts.map Prod.snd).sum
  -- a prompt found in the cache entirely has its last token computed again
  let numNewTokens : Nat × Nat :=
    if numUncachedNewTokens = 0 ∧ 0 < numCachedNewTokens then (1, numCachedNewTokens - 1)
    else (numUncachedNewTokens, numCachedNewTokens)
  if enableChunking then
    return (getNumComputeChunkSize budget numNewTokens.1, numNewTokens.2)
  return numNewTokens

end

end PolicyHelper

end MindieLLM
