import MindieLLM.Scheduler.PolicyHelper
import MindieLLM.Program.QueueLoop

/-!
# What the scheduling policies work on

The policies change the groups of sequences and the block manager. A group is an object behind a
pointer; the groups of a parallel sampling are objects of their own, which the map of their root
points to.

## Main definitions

* `BlockSpaceManager`: the methods of a block manager that the scheduler calls
* `SeqGroupPtr`, `SeqGroupObj`, `Sampling`: groups as objects
* `PolicyContext`: what the policies read and never change
* `PolicyState`, `PolicyM`: the state of the policies and their programs
-/

namespace MindieLLM

open Program

/-- The methods of `BlockSpaceManager` that the scheduler calls. -/
class BlockSpaceManager (HashValue : outParam Type) (B : Type) where
  canAllocate : SequenceGroup HashValue → EStateM Exn B AllocStatus
  allocate : SequenceGroup HashValue → EStateM Exn B Bool
  canAppendSlot : SequenceGroup HashValue → EStateM Exn B Bool
  appendSlot : Sequence HashValue → EStateM Exn B (List (BlockId × BlockId))
  canAppendSlotNew : SequenceGroup HashValue → EStateM Exn B Bool
  appendSlotNew : SequenceGroup HashValue → EStateM Exn B Unit
  canSwapOut : SequenceGroup HashValue → EStateM Exn B Bool
  swapOut : SequenceGroup HashValue → EStateM Exn B (List (BlockId × BlockId))
  canSwapIn : SequenceGroup HashValue → EStateM Exn B AllocStatus
  swapIn : SequenceGroup HashValue → EStateM Exn B (List (BlockId × BlockId))
  free : SequenceId → EStateM Exn B Unit
  getBlockIds : SequenceId → EStateM Exn B (List (List BlockId))
  getNumFreeNpuBlocks : EStateM Exn B Nat
  getTotalNpuBlocks : EStateM Exn B Nat
  getCommonComputedBlockIds : List (Sequence HashValue) → EStateM Exn B (List BlockId)
  markBlocksAsComputed : EStateM Exn B Unit
  getSeqNumCachedTokens : Sequence HashValue → EStateM Exn B Nat

/-- The parts of the configuration that only the policies read. The last two are environment
variables. -/
structure PolicyConfig extends SchedulerConfig where
  maxFirstTokenWaitTime : Nat := 2500
  maxNumPartialPrefills : Nat := 64
  longPrefillTokenThreshold : Nat := 1024
  maxLongPartialPrefills : Nat := 8
  longprefillLenThreshold : Nat := 2048
  dynamicPBSEnable : Bool := true

/-! ## Groups as objects -/

/-- A pointer to a group. The request id of a group and the id of its first sequence are set when
the group is made and never change, so the pointer carries them. -/
structure SeqGroupPtr where
  address : Nat
  requestId : RequestId
  seqId : SequenceId
  deriving DecidableEq, Repr

/-- How the sequences of a group are sampled, and the groups of a parallel sampling. -/
structure Sampling where
  enableParallelSampling : Bool := false
  useBeamsearch : Bool := false
  n : Nat := 1
  seqId2ParallelSeqGroup : List (SequenceId × SeqGroupPtr) := []

/-- The rest of a group in memory. It has one sequence, as the builder of groups makes it. -/
structure SeqGroupObj (HashValue : Type) where
  firstSeq : Sequence HashValue
  isNewSeqGroup : Bool := false
  needUpdate : Bool := false
  parentSeqId : SequenceId := -1
  parentBlockIds : List (List BlockId) := []
  isLastChunk : Bool := false
  isDecode : Bool := false
  isFlexLocal : Bool := false
  arriveTime : Nat := 0
  enableThinking : Bool := false
  thinkingBudget : Nat := 0
  exceededThinkingbudget : Bool := false
  isThinking : Bool := false
  thinkingTokens : Nat := 0

/-- What the policies read and never change. -/
structure PolicyContext extends PolicyConfig where
  sampling : SeqGroupPtr → Sampling

structure PolicyState (HashValue B : Type) where
  groups : SeqGroupPtr → SeqGroupObj HashValue
  blockManager : B
  newRequestFirst : Bool := false

abbrev PolicyM (HashValue B : Type) := EStateM Exn (PolicyState HashValue B)

variable {HashValue B : Type}

namespace SeqGroupPtr

def isSimulateRequest (p : SeqGroupPtr) : Bool := p.seqId = simulateSequenceId

end SeqGroupPtr

namespace Sampling

def getParallelSeqGrp (sampling : Sampling) : List SeqGroupPtr :=
  sampling.seqId2ParallelSeqGroup.map Prod.snd

/-- The groups whose first sequences are all the sequences of a group that is sampled so. -/
def sequencesOf (sampling : Sampling) (p : SeqGroupPtr) : List SeqGroupPtr :=
  if sampling.enableParallelSampling then sampling.getParallelSeqGrp else [p]

end Sampling

namespace SeqGroupObj

def setStatus (o : SeqGroupObj HashValue) (status : SequenceStatus) : SeqGroupObj HashValue :=
  { o with firstSeq := { o.firstSeq with status := status } }

/-- What the constructor of `ScheduledSequenceGroup` does to the group. -/
def scheduleChunk (o : SeqGroupObj HashValue) (tokenChunkSize : Nat) (enableChunked : Bool) :
    SeqGroupObj HashValue :=
  if enableChunked then
    { o with isLastChunk :=
      o.firstSeq.promptTokenIds.length ≤ o.firstSeq.numComputedTokens + tokenChunkSize }
  else o

end SeqGroupObj

namespace PolicyState

def blockManagerLens : Lens (PolicyState HashValue B) B where
  get s := s.blockManager
  put b s := { s with blockManager := b }
  get_put _ _ := rfl
  put_get _ := rfl
  put_put _ _ _ := rfl

/-- The first sequence of a group. -/
def firstSeq (s : PolicyState HashValue B) (p : SeqGroupPtr) : Sequence HashValue :=
  { (s.groups p).firstSeq with seqId := p.seqId }

/-- The group that a pointer points to, with the sequences of its parallel groups. -/
def view (s : PolicyState HashValue B) (ctx : PolicyContext) (p : SeqGroupPtr) :
    SequenceGroup HashValue :=
  let sampling := ctx.sampling p
  let o := s.groups p
  { firstSeq := s.firstSeq p
    otherSeqs := []
    enableParallelSampling := sampling.enableParallelSampling
    parallelSeqs := sampling.getParallelSeqGrp.map s.firstSeq
    useBeamsearch := sampling.useBeamsearch
    n := sampling.n
    requestId := p.requestId
    isLastChunk := o.isLastChunk
    isDecode := o.isDecode
    isFlexLocal := o.isFlexLocal }

/-- The groups whose first sequences `GetSequences(RUNNING)` returns. -/
def runningSeqs (s : PolicyState HashValue B) (ctx : PolicyContext) (p : SeqGroupPtr) :
    List SeqGroupPtr :=
  ((ctx.sampling p).sequencesOf p).filter fun q => (s.groups q).firstSeq.status = .running

end PolicyState

section Access

def onBlockManager {α : Type} (c : EStateM Exn B α) : PolicyM HashValue B α :=
  zoom PolicyState.blockManagerLens c

def getObj (p : SeqGroupPtr) : PolicyM HashValue B (SeqGroupObj HashValue) := do
  return (← get).groups p

def getView (ctx : PolicyContext) (p : SeqGroupPtr) :
    PolicyM HashValue B (SequenceGroup HashValue) := do
  return (← get).view ctx p

def modifyObj (p : SeqGroupPtr) (f : SeqGroupObj HashValue → SeqGroupObj HashValue) :
    PolicyM HashValue B Unit :=
  modify fun s => { s with groups := Function.update s.groups p (f (s.groups p)) }

/-- Give the sequence of a group a new status if it has a given one. -/
def changeStatus (old new : SequenceStatus) (p : SeqGroupPtr) : PolicyM HashValue B Unit :=
  modifyObj p fun o => if o.firstSeq.status = old then o.setStatus new else o

end Access

/-! ## The policy helper -/

namespace PolicyHelper

variable [BlockSpaceManager HashValue B] (ctx : PolicyContext)

/-- `GetNumComputeNewUnCachedAndCachedTokens`, the cached tokens counted by the block manager. -/
def getNumNewTokens (p : SeqGroupPtr) (status : SequenceStatus) (enableChunking : Bool)
    (budget : SchedulingBudget) : PolicyM HashValue B (Nat × Nat) := do
  getNumComputeNewUnCachedAndCachedTokens ctx.toSchedulerConfig
    (fun seq => onBlockManager (BlockSpaceManager.getSeqNumCachedTokens seq)) (← getView ctx p)
    status enableChunking budget

def allocateAndSetRunning (p : SeqGroupPtr) : PolicyM HashValue B Unit := do
  let _ ← onBlockManager (BlockSpaceManager.allocate (← getView ctx p))
  changeStatus .waiting .running p

def canAppendSlots (p : SeqGroupPtr) : PolicyM HashValue B Bool := do
  let seqGroup ← getView ctx p
  if !seqGroup.enableParallelSampling ∧ 1 < ctx.spSize * ctx.cpSize then
    onBlockManager (BlockSpaceManager.canAppendSlotNew seqGroup)
  else
    onBlockManager (BlockSpaceManager.canAppendSlot seqGroup)

/-- `AppendSlots`; the copies of blocks it asks for are returned. -/
def appendSlots (p : SeqGroupPtr) : PolicyM HashValue B (List (BlockId × BlockId)) := do
  let seqGroup ← getView ctx p
  if 1 < ctx.spSize * ctx.cpSize ∧ !seqGroup.enableParallelSampling then
    onBlockManager (BlockSpaceManager.appendSlotNew seqGroup)
    return []
  else
    let copies ← (seqGroup.getSequences .running).mapM fun seq =>
      onBlockManager (BlockSpaceManager.appendSlot seq)
    return copies.flatten

def canSwapOut (p : SeqGroupPtr) : PolicyM HashValue B Bool :=
  ((ctx.sampling p).sequencesOf p).allM fun q => do
    onBlockManager (BlockSpaceManager.canSwapOut (← getView ctx q))

/-- The loop of `CanSwapIn` over the groups of a parallel sampling. -/
def canSwapInAll : List SeqGroupPtr → PolicyM HashValue B AllocStatus
  | [] => return .ok
  | q :: rest => do
    match ← onBlockManager (BlockSpaceManager.canSwapIn (← getView ctx q)) with
    | .later => return .later
    | .never => throw (.runtimeError "Sequence too long.")
    | .ok => canSwapInAll rest

def canSwapIn (p : SeqGroupPtr) : PolicyM HashValue B AllocStatus := do
  let seqGroup ← getView ctx p
  if !seqGroup.enableParallelSampling then
    onBlockManager (BlockSpaceManager.canSwapIn seqGroup)
  else
    canSwapInAll ctx (ctx.sampling p).getParallelSeqGrp

def seqsSwapIn (p : SeqGroupPtr) : PolicyM HashValue B (List (BlockId × BlockId)) := do
  let mapping ← onBlockManager (BlockSpaceManager.swapIn (← getView ctx p))
  changeStatus .swapped .running p
  return mapping

/-- `SwapIn`. For a parallel sampling the root is swapped in, once for each of its groups. -/
def swapIn (p : SeqGroupPtr) : PolicyM HashValue B (List (BlockId × BlockId)) := do
  let mappings ← ((ctx.sampling p).sequencesOf p).mapM fun _ => seqsSwapIn ctx p
  return mappings.flatten

def seqsSwapOut (p : SeqGroupPtr) : PolicyM HashValue B (List (BlockId × BlockId)) := do
  let mapping ← onBlockManager (BlockSpaceManager.swapOut (← getView ctx p))
  changeStatus .running .swapped p
  return mapping

def swapOut (p : SeqGroupPtr) : PolicyM HashValue B (List (BlockId × BlockId)) := do
  if !(← canSwapOut ctx p) then
    throw (.runtimeError ("Aborted due to the lack of CPU swap space. Please increase " ++
      "the swap space to avoid this error."))
  let mappings ← ((ctx.sampling p).sequencesOf p).mapM (seqsSwapOut ctx)
  return mappings.flatten

def freeSeq (seqId : SequenceId) : PolicyM HashValue B Unit :=
  onBlockManager (BlockSpaceManager.free seqId)

end PolicyHelper

end MindieLLM
