import MindieLLM.BlockManager.SelfAttnBlockManager
import MindieLLM.Scheduler.PolicyState

/-!
# The self-attention manager under the scheduler

The scheduler knows its block manager by the methods of `BlockSpaceManager`. The self-attention
manager has them, with either kind of allocators, so what is proved of the scheduler for every block
manager is proved for this one.
-/

namespace MindieLLM

variable {HashValue A : Type}

/-- A group is swapped in without slots for tokens to come. -/
instance [PrefixHasher HashValue] [BlockAllocator HashValue A] :
    BlockSpaceManager HashValue (SelfAttnBlockManager HashValue A) where
  canAllocate := SelfAttnBlockManager.canAllocate
  allocate := SelfAttnBlockManager.allocate
  canAppendSlot := SelfAttnBlockManager.canAppendSlot
  appendSlot := SelfAttnBlockManager.appendSlot
  canAppendSlotNew := SelfAttnBlockManager.canAppendSlotNew
  appendSlotNew := SelfAttnBlockManager.appendSlotNew
  canSwapOut := SelfAttnBlockManager.canSwapOut
  swapOut := SelfAttnBlockManager.swapOut
  canSwapIn seqGroup := SelfAttnBlockManager.canSwapIn seqGroup 0
  swapIn := SelfAttnBlockManager.swapIn
  free := SelfAttnBlockManager.free
  getBlockIds := SelfAttnBlockManager.getBlockIds
  getNumFreeNpuBlocks := SelfAttnBlockManager.getNumFreeNpuBlocks
  getTotalNpuBlocks := do return (← get).npuBlockNum
  getCommonComputedBlockIds := SelfAttnBlockManager.getCommonComputedBlockIds
  markBlocksAsComputed := SelfAttnBlockManager.markBlocksAsComputed
  getSeqNumCachedTokens := SelfAttnBlockManager.getSeqNumCachedTokens

end MindieLLM
