import MindieLLM.Scheduler.PolicyState

/-!
# First come, first served

The policies take the groups that were dequeued for a round and share them out: groups that are
scheduled, groups that are preempted or swapped out to make room, groups that are ignored, and
groups that are left over. They are programs over the groups and the block manager; the queues of
the collection are their arguments.

## Main definitions

* `SeqGroupCollection`, `PolicyOutput`: what a policy takes and what it returns
* `FcfsPolicy.applyToWaitingQueue`, `FcfsPolicy.applyToRunningQueue`,
  `FcfsPolicy.applyToSwappedQueue`: the passes over the three queues
* `FcfsPolicy.apply`: the policy of a node that does both stages, and of the flexible nodes
-/

namespace MindieLLM

open Program

variable {HashValue B : Type}

inductive PDPriorityType
  | prefillFirst
  | decodeFirst
  | mix
  deriving DecidableEq, Repr

structure SeqGroupCollection where
  waiting : List SeqGroupPtr := []
  running : List SeqGroupPtr := []
  swapped : List SeqGroupPtr := []
  pdPriorityType : PDPriorityType := .prefillFirst

structure ScheduledGroup where
  seqGroup : SeqGroupPtr
  tokenChunkSize : Nat
  deriving DecidableEq, Repr

def seqGroupsOf (scheduled : List ScheduledGroup) : List SeqGroupPtr :=
  scheduled.map ScheduledGroup.seqGroup

@[simp]
theorem seqGroupsOf_nil : seqGroupsOf [] = [] := rfl

@[simp]
theorem seqGroupsOf_append (xs ys : List ScheduledGroup) :
    seqGroupsOf (xs ++ ys) = seqGroupsOf xs ++ seqGroupsOf ys := List.map_append

@[simp]
theorem seqGroupsOf_singleton (p : SeqGroupPtr) (n : Nat) : seqGroupsOf [⟨p, n⟩] = [p] := rfl

structure PrefillOutputs where
  seqGroups : List ScheduledGroup := []
  ignoredSeqGroups : List SeqGroupPtr := []

structure RunningOutputs where
  decodeSeqGroups : List ScheduledGroup := []
  chunkedPrefillSeqGroups : List ScheduledGroup := []
  preempted : List SeqGroupPtr := []
  swappedOut : List SeqGroupPtr := []
  blocksToSwapOut : List (BlockId × BlockId) := []
  blocksToCopy : List (BlockId × BlockId) := []
  prefillSeqGroupsList : List SeqGroupPtr := []

structure SwappedInOutputs where
  decodeSeqGroups : List ScheduledGroup := []
  chunkedPrefillSeqGroups : List ScheduledGroup := []
  infeasibleSeqGroups : List SeqGroupPtr := []
  blocksToSwapIn : List (BlockId × BlockId) := []
  blocksToCopy : List (BlockId × BlockId) := []

structure PolicyOutput where
  withdrewSeqGroups : List SeqGroupPtr := []
  preemptedSeqGroups : List SeqGroupPtr := []
  prefillSeqGroups : List ScheduledGroup := []
  decodeSeqGroups : List ScheduledGroup := []
  swappedOutSeqGroups : List SeqGroupPtr := []
  ignoredSeqGroups : List SeqGroupPtr := []
  blocksToSwapIn : List (BlockId × BlockId) := []
  blocksToSwapOut : List (BlockId × BlockId) := []
  blocksToCopy : List (BlockId × BlockId) := []
  numPrefillGroups : Nat := 0
  numBatchedTokens : Nat := 0
  numPreempted : Nat := 0

/-! ## Statistics of partial prefills -/

structure Statistics4PartialPrefill where
  numSchedulablePrefills : Nat
  numLongPrefills : Nat

namespace Statistics4PartialPrefill

variable (cfg : PolicyConfig)

def isLong (seq : Sequence HashValue) : Bool :=
  cfg.longPrefillTokenThreshold < seq.getNumUncomputedTokens

def canSchedule (st : Statistics4PartialPrefill) (seq : Sequence HashValue) : Bool :=
  !isLong cfg seq ∨ st.numLongPrefills < cfg.maxLongPartialPrefills

def maybeIncrementPartialPrefills (st : Statistics4PartialPrefill) (seq : Sequence HashValue) :
    Statistics4PartialPrefill :=
  if isLong cfg seq then { st with numLongPrefills := st.numLongPrefills + 1 } else st

/-- The loop of `FromQueues` over the waiting queue: the number of prefills, from the prefills and
the long prefills of the running queue and the long ones seen so far. -/
def countWaiting (numLongPrefills : Nat) : Nat → Nat → List (Sequence HashValue) → Nat
  | numPrefills, _, [] => numPrefills
  | numPrefills, numWaitingLongPrefills, seq :: rest =>
    if cfg.maxNumPartialPrefills ≤ numPrefills then numPrefills
    else if isLong cfg seq then
      if cfg.maxLongPartialPrefills ≤ numLongPrefills + numWaitingLongPrefills then
        countWaiting numLongPrefills numPrefills numWaitingLongPrefills rest
      else countWaiting numLongPrefills (numPrefills + 1) (numWaitingLongPrefills + 1) rest
    else countWaiting numLongPrefills (numPrefills + 1) numWaitingLongPrefills rest

def fromQueues (running waiting : List (Sequence HashValue)) : Statistics4PartialPrefill :=
  let prefills := running.filter (·.stage = .prefill)
  let numLongPrefills := (prefills.filter (isLong cfg)).length
  let numPrefills := countWaiting cfg numLongPrefills prefills.length 0 waiting
  { numSchedulablePrefills := min numPrefills cfg.maxNumPartialPrefills
    numLongPrefills := numLongPrefills }

end Statistics4PartialPrefill

namespace FcfsPolicy

variable [BlockSpaceManager HashValue B] (ctx : PolicyContext)

/-! ## The waiting queue -/

/-- The local variables of `ApplyToWaitingQueue`, with the budget. -/
structure WaitingPass where
  budget : SchedulingBudget
  statistics : Option Statistics4PartialPrefill
  seqGroups : List ScheduledGroup := []
  ignoredSeqGroups : List SeqGroupPtr := []
  leftOverSeqGroups : List SeqGroupPtr := []

/-- The group is a recomputation whose blocks are all that are free. -/
def fillsFreeBlocks (p : SeqGroupPtr) : PolicyM HashValue B Bool := do
  let seq := (← get).firstSeq p
  let numFreeNpuBlocks ← onBlockManager BlockSpaceManager.getNumFreeNpuBlocks
  if ctx.cacheBlockSize = 0 then
    throw (.invalidArgument "Divisor cannot be zero")
  return (seq.getLen + ctx.cacheBlockSize - 1) / ctx.cacheBlockSize = numFreeNpuBlocks ∧
    0 < seq.outputTokenIds.length

/-- Let a group that has waited too long for its first token preempt others. -/
def maybeSetNewRequestFirst (now : Nat) (p : SeqGroupPtr) : PolicyM HashValue B Unit :=
  modify fun s =>
    if (s.firstSeq p).outputTokenIds.length = 0 ∧
        ctx.maxFirstTokenWaitTime < now - (s.groups p).arriveTime then
      { s with newRequestFirst := true }
    else s

/-- Take a group into the batch. -/
def scheduleWaiting (enableChunking : Bool) (p : SeqGroupPtr) (numNewTokens : Nat × Nat)
    (numNewSeqs : Nat) (v : WaitingPass) : PolicyM HashValue B WaitingPass := do
  PolicyHelper.allocateAndSetRunning ctx p
  let all := numNewTokens.1 + numNewTokens.2
  let statistics := v.statistics.map
    (·.maybeIncrementPartialPrefills ctx.toPolicyConfig ((← get).firstSeq p))
  modifyObj p (·.scheduleChunk all enableChunking)
  return { v with
    statistics := statistics
    seqGroups := v.seqGroups ++ [⟨p, all⟩]
    budget := (v.budget.addNumBatchedTokens p.requestId numNewTokens.1 numNewTokens.2).addNumSeqs
      p.requestId numNewSeqs }

/-- One round of the loop of `ApplyToWaitingQueue`. -/
def considerWaiting (now : Nat) (enableChunking : Bool) (p : SeqGroupPtr) (v : WaitingPass) :
    PolicyM HashValue B (Verdict WaitingPass) := do
  if ← fillsFreeBlocks ctx p then
    return .refuse v
  let seq := (← get).firstSeq p
  if v.statistics.any (!·.canSchedule ctx.toPolicyConfig seq) then
    return .next { v with leftOverSeqGroups := p :: v.leftOverSeqGroups }
  let numNewTokens ← PolicyHelper.getNumNewTokens ctx p .waiting enableChunking v.budget
  let promptLimit := PolicyHelper.getPromptLimit ctx.toSchedulerConfig v.budget
  if seq.outputTokenIds.length = 0 ∧ promptLimit < numNewTokens.1 + numNewTokens.2 then
    changeStatus .waiting .finishIgnored p
    return .next { v with ignoredSeqGroups := v.ignoredSeqGroups ++ [p] }
  match ← onBlockManager (BlockSpaceManager.canAllocate (← getView ctx p)) with
  | .later =>
    maybeSetNewRequestFirst ctx now p
    return .refuse v
  | .never => throw (.runtimeError "Prompt sequence too long.")
  | .ok =>
    let numNewSeqs := (← getView ctx p).getMaxNumRunningSeqs
    if numNewTokens.1 = 0 ∨ !v.budget.canSchedule numNewTokens.1 numNewSeqs then
      return .refuse v
    return .next (← scheduleWaiting ctx enableChunking p numNewTokens numNewSeqs v)

/-- `ApplyToWaitingQueue`: what it schedules and ignores, what is left of the queue, and the
budget. -/
def applyToWaitingQueue (now : Nat) (enableChunking : Bool) (waiting : List SeqGroupPtr)
    (budget : SchedulingBudget) (statistics : Option Statistics4PartialPrefill) :
    PolicyM HashValue B (PrefillOutputs × List SeqGroupPtr × SchedulingBudget) := do
  let (rest, v) ←
    drain (considerWaiting ctx now enableChunking) waiting ⟨budget, statistics, [], [], []⟩
  return (⟨v.seqGroups, v.ignoredSeqGroups⟩, rest ++ v.leftOverSeqGroups, v.budget)

/-! ## Parallel sampling -/

/-- `parentBlockIds_[0]` -/
def firstBlockIds (o : SeqGroupObj HashValue) : PolicyM HashValue B (List BlockId) :=
  match o.parentBlockIds with
  | [] => throw (.undefinedBehavior "index of a vector")
  | ids :: _ => return ids

/-- The part of `AllocBlocks4ParallelSeqGrp` for one group of the sampling: none if there is no
room for it, else the copies of blocks that it needs. -/
def allocBlocksOf (q : SeqGroupPtr) :
    PolicyM HashValue B (Option (List (BlockId × BlockId))) := do
  if !(← getObj q).needUpdate then
    return some []
  -- a group made by the last split has no blocks yet
  if !(← getObj q).isNewSeqGroup then
    PolicyHelper.freeSeq q.seqId
    modifyObj q (·.setStatus .waiting)
  match ← onBlockManager (BlockSpaceManager.canAllocate (← getView ctx q)) with
  | .later => return none
  | .never => throw (.runtimeError "Beam search sequence too long.")
  | .ok =>
    modifyObj q fun o => { o with isNewSeqGroup := false }
    PolicyHelper.allocateAndSetRunning ctx q
    let _ ← onBlockManager (BlockSpaceManager.getCommonComputedBlockIds [(← get).firstSeq q])
    let parentBlockIds ← firstBlockIds (← getObj q)
    let blockIds := (← onBlockManager (BlockSpaceManager.getBlockIds q.seqId)).headD []
    if blockIds = [] then
      throw (.runtimeError "Child sequence has no block ids after allocation.")
    if blockIds.length < parentBlockIds.length then
      throw (.runtimeError ("Parent and child sequence block ids size mismatch. parent size: " ++
        toString parentBlockIds.length ++ ", child size: " ++ toString blockIds.length))
    modifyObj q fun o => { o with needUpdate := false }
    return some ((parentBlockIds.zip blockIds).filter fun e => e.1 ≠ e.2)

/-- The loop of `AllocBlocks4ParallelSeqGrp`; the copies are returned also when the room ends. -/
def allocBlocksOfAll : List SeqGroupPtr → PolicyM HashValue B (Bool × List (BlockId × BlockId))
  | [] => return (true, [])
  | q :: rest => do
    match ← allocBlocksOf ctx q with
    | none => return (false, [])
    | some copies =>
      let (ok, more) ← allocBlocksOfAll rest
      return (ok, copies ++ more)

def allocBlocks4ParallelSeqGrp (p : SeqGroupPtr) :
    PolicyM HashValue B (Bool × List (BlockId × BlockId)) := do
  if !(ctx.sampling p).enableParallelSampling then
    return (true, [])
  allocBlocksOfAll ctx (ctx.sampling p).getParallelSeqGrp

/-! ## Preemption -/

/-- The local variables of `ApplyToRunningQueue`, with the budget. -/
structure RunningPass where
  budget : SchedulingBudget
  out : RunningOutputs := {}
  swapNum : Nat := 0

def preemptByRecompute (p : SeqGroupPtr) : PolicyM HashValue B Unit := do
  let seqs := (← get).runningSeqs ctx p
  if !(ctx.sampling p).enableParallelSampling ∧ seqs.length ≠ 1 then
    throw (.runtimeError "the size of seqs must be 1.")
  forM seqs fun q => do
    modifyObj q (·.setStatus .waiting)
    PolicyHelper.freeSeq q.seqId
    modifyObj q fun o => { o with firstSeq := o.firstSeq.resetStateForRecompute }

/-- The preemption is by a swap: not too many groups have been swapped out yet, and the blocks of
this one can be. -/
def preemptsBySwap (p : SeqGroupPtr) (v : RunningPass) : PolicyM HashValue B Bool :=
  if v.swapNum < ctx.maxPreemptCount then PolicyHelper.canSwapOut ctx p else return false

/-- `Preempt`, and the entry it makes in the outputs. -/
def preempt (p : SeqGroupPtr) (v : RunningPass) : PolicyM HashValue B RunningPass := do
  if ← preemptsBySwap ctx p v then
    let mapping ← PolicyHelper.swapOut ctx p
    return { v with
      swapNum := v.swapNum + 1
      out := { v.out with
        blocksToSwapOut := v.out.blocksToSwapOut ++ mapping
        swappedOut := v.out.swappedOut ++ [p] } }
  else
    preemptByRecompute ctx p
    return { v with out := { v.out with preempted := v.out.preempted ++ [p] } }

/-- The inner loop of `ApplyToRunningQueue`. While room is needed, groups at the end of the queue
are preempted, and at last the group itself. The queue comes with its last group first; the flag
says whether the group may be scheduled. -/
def makeRoom (needsRoom : RunningPass → PolicyM HashValue B (Bool × RunningPass))
    (preempt : SeqGroupPtr → RunningPass → PolicyM HashValue B RunningPass) (p : SeqGroupPtr) :
    List SeqGroupPtr → RunningPass → PolicyM HashValue B (List SeqGroupPtr × RunningPass × Bool)
  | [], v => do
    let (needed, v) ← needsRoom v
    if !needed then
      return ([], v, true)
    return ([], ← preempt p v, false)
  | victim :: rest, v => do
    let (needed, v) ← needsRoom v
    if !needed then
      return (victim :: rest, v, true)
    makeRoom needsRoom preempt p rest (← preempt victim v)

def addCopies (v : RunningPass) (copies : List (BlockId × BlockId)) : RunningPass :=
  { v with out := { v.out with blocksToCopy := v.out.blocksToCopy ++ copies } }

/-- The condition of the inner loop. A simulated request needs no room. -/
def needsRoom (p : SeqGroupPtr) (v : RunningPass) : PolicyM HashValue B (Bool × RunningPass) := do
  if p.isSimulateRequest then
    return (false, v)
  let (ok, copies) ← allocBlocks4ParallelSeqGrp ctx p
  let v := addCopies v copies
  if !ok then
    return (true, v)
  if !(← PolicyHelper.canAppendSlots ctx p) then
    return (true, v)
  return ((← get).newRequestFirst, v)

/-- The body of the inner loop. -/
def preemptVictim (p : SeqGroupPtr) (v : RunningPass) : PolicyM HashValue B RunningPass := do
  let v ← preempt ctx p v
  modify fun s => { s with newRequestFirst := false }
  return v

/-! ## The running queue -/

/-- Enter a group into the outputs of the running queue and charge it to the budget. -/
def enterRunning (enableChunking : Bool) (p : SeqGroupPtr) (numUncachedNewTokens : Nat)
    (v : RunningPass) : PolicyM HashValue B RunningPass := do
  modifyObj p (·.scheduleChunk numUncachedNewTokens enableChunking)
  let seqGroup ← getView ctx p
  let out :=
    if seqGroup.firstSeq.isPrefill then
      { v.out with
        chunkedPrefillSeqGroups := v.out.chunkedPrefillSeqGroups ++ [⟨p, numUncachedNewTokens⟩]
        prefillSeqGroupsList := v.out.prefillSeqGroupsList ++ [p] }
    else { v.out with decodeSeqGroups := v.out.decodeSeqGroups ++ [⟨p, 1⟩] }
  return { v with
    out := out
    budget := (v.budget.addNumBatchedTokens p.requestId numUncachedNewTokens 0).addNumSeqs
      p.requestId seqGroup.getMaxNumRunningSeqs }

/-- A simulated request has no slots. -/
def appendRunningSlots (p : SeqGroupPtr) : PolicyM HashValue B (List (BlockId × BlockId)) :=
  if p.isSimulateRequest then return [] else PolicyHelper.appendSlots ctx p

def scheduleRunningSeqGroup (enableChunking : Bool) (p : SeqGroupPtr) (numUncachedNewTokens : Nat)
    (v : RunningPass) : PolicyM HashValue B RunningPass := do
  let copies ← appendRunningSlots ctx p
  enterRunning ctx enableChunking p numUncachedNewTokens (addCopies v copies)

/-- The group thinks for longer than its budget. -/
def exceedsThinkingBudget (o : SeqGroupObj HashValue) : Bool :=
  o.enableThinking ∧ 0 < o.thinkingBudget ∧ o.exceededThinkingbudget

/-- `UpdateStatusForRecompute`: the thinking is ended by tokens, and the group is computed again. -/
def updateStatusForRecompute (p : SeqGroupPtr) : PolicyM HashValue B Unit := do
  forM ((← get).runningSeqs ctx p) fun q => modifyObj q fun o =>
    { o with firstSeq := { o.firstSeq with
      outputTokenIds :=
        o.firstSeq.outputTokenIds.rdropWhile (· = placeholderToken) ++ ctx.earlyStoppingIds } }
  modifyObj p fun o =>
    { o with exceededThinkingbudget := false, isThinking := false, thinkingTokens := 0 }
  preemptByRecompute ctx p

/-- One round of the loop of `ApplyToRunningQueue`. -/
def considerRunning (enableChunking : Bool) (p : SeqGroupPtr) (rest : List SeqGroupPtr)
    (v : RunningPass) : PolicyM HashValue B (Option (List SeqGroupPtr × RunningPass)) := do
  let numUncachedNewTokens :=
    (← PolicyHelper.getNumNewTokens ctx p .running enableChunking v.budget).1
  if !v.budget.canSchedule numUncachedNewTokens (← getView ctx p).getMaxNumRunningSeqs then
    return none
  let (rest, v, canAppend) ← makeRoom (needsRoom ctx p) (preemptVictim ctx) p rest.reverse v
  if !canAppend then
    return some (rest.reverse, v)
  if exceedsThinkingBudget (← getObj p) then
    updateStatusForRecompute ctx p
    return some (rest.reverse,
      { v with out := { v.out with preempted := v.out.preempted ++ [p] } })
  return some (rest.reverse, ← scheduleRunningSeqGroup ctx enableChunking p numUncachedNewTokens v)

/-- `ApplyToRunningQueue`: its outputs, what is left of the queue, and the budget. -/
def applyToRunningQueue (enableChunking : Bool) (running : List SeqGroupPtr)
    (budget : SchedulingBudget) :
    PolicyM HashValue B (RunningOutputs × List SeqGroupPtr × SchedulingBudget) := do
  let (rest, v) ←
    consume (considerRunning ctx enableChunking) running.length running ⟨budget, {}, 0⟩
  return (v.out, rest, v.budget)

/-! ## The swapped queue -/

/-- The local variables of `ApplyToSwappedQueue`, with the budget. -/
structure SwappedPass where
  budget : SchedulingBudget
  out : SwappedInOutputs := {}

/-- One round of the loop of `ApplyToSwappedQueue`. -/
def considerSwapped (enableChunking : Bool) (p : SeqGroupPtr) (v : SwappedPass) :
    PolicyM HashValue B (Verdict SwappedPass) := do
  match ← PolicyHelper.canSwapIn ctx p with
  | .later => return .refuse v
  | .never => throw (.runtimeError "Sequence too long.")
  | .ok =>
    let (ok, copies) ← allocBlocks4ParallelSeqGrp ctx p
    let v := { v with out := { v.out with blocksToCopy := v.out.blocksToCopy ++ copies } }
    if !ok then
      return .refuse v
    let numNewTokens ← PolicyHelper.getNumNewTokens ctx p .swapped enableChunking v.budget
    let numNewSeqs := (← getView ctx p).getMaxNumRunningSeqs
    if numNewTokens.1 = 0 ∨ !v.budget.canSchedule numNewTokens.1 numNewSeqs then
      return .refuse v
    let mapping ← PolicyHelper.swapIn ctx p
    let appended ← PolicyHelper.appendSlots ctx p
    let out := { v.out with
      blocksToSwapIn := v.out.blocksToSwapIn ++ mapping
      blocksToCopy := v.out.blocksToCopy ++ appended }
    let budget := v.budget.addNumBatchedTokens p.requestId numNewTokens.1 numNewTokens.2
    let all := numNewTokens.1 + numNewTokens.2
    if ((← get).firstSeq p).isPrefill then
      modifyObj p (·.scheduleChunk all enableChunking)
      return .next ⟨budget,
        { out with chunkedPrefillSeqGroups := out.chunkedPrefillSeqGroups ++ [⟨p, all⟩] }⟩
    else
      modifyObj p (·.scheduleChunk 1 enableChunking)
      return .next ⟨budget, { out with decodeSeqGroups := out.decodeSeqGroups ++ [⟨p, 1⟩] }⟩

/-- `ApplyToSwappedQueue`: its outputs, what is left of the queue, and the budget. -/
def applyToSwappedQueue (enableChunking : Bool) (swapped : List SeqGroupPtr)
    (budget : SchedulingBudget) :
    PolicyM HashValue B (SwappedInOutputs × List SeqGroupPtr × SchedulingBudget) := do
  let (rest, v) ← drain (considerSwapped ctx enableChunking) swapped ⟨budget, {}⟩
  return (v.out, rest, v.budget)

/-! ## The policy -/

/-- `BuildPolicyOutput`, with what the passes left of the three queues. -/
def buildPolicyOutput (prefillOut : PrefillOutputs) (runningOut : RunningOutputs)
    (swappedInOut : SwappedInOutputs) (left : SeqGroupCollection) (budget : SchedulingBudget) :
    PolicyOutput where
  withdrewSeqGroups := left.waiting ++ left.swapped ++ left.running
  preemptedSeqGroups := runningOut.preempted
  prefillSeqGroups := prefillOut.seqGroups ++ swappedInOut.chunkedPrefillSeqGroups ++
    if runningOut.prefillSeqGroupsList ≠ [] then runningOut.chunkedPrefillSeqGroups else []
  decodeSeqGroups := runningOut.decodeSeqGroups ++ swappedInOut.decodeSeqGroups
  swappedOutSeqGroups := runningOut.swappedOut
  ignoredSeqGroups := prefillOut.ignoredSeqGroups ++ swappedInOut.infeasibleSeqGroups
  blocksToSwapIn := swappedInOut.blocksToSwapIn
  blocksToSwapOut := runningOut.blocksToSwapOut
  blocksToCopy := runningOut.blocksToCopy ++ swappedInOut.blocksToCopy
  numPrefillGroups := prefillOut.seqGroups.length
  numBatchedTokens := budget.numBatchedTokens + budget.numCachedTokens
  numPreempted := runningOut.preempted.length + runningOut.swappedOut.length

/-- The passes of a policy over the waiting and the running queue, which `LayerwiseFcfsPolicy`
overrides. -/
structure Passes (HashValue B : Type) where
  applyToWaitingQueue : Bool → List SeqGroupPtr → SchedulingBudget →
    Option Statistics4PartialPrefill →
      PolicyM HashValue B (PrefillOutputs × List SeqGroupPtr × SchedulingBudget)
  applyToRunningQueue : Bool → List SeqGroupPtr → SchedulingBudget →
    PolicyM HashValue B (RunningOutputs × List SeqGroupPtr × SchedulingBudget)

def passes (now : Nat) : Passes HashValue B :=
  ⟨applyToWaitingQueue ctx now, applyToRunningQueue ctx⟩

section

variable (passes : Passes HashValue B)

def schedulePrefill (collection : SeqGroupCollection) (budget : SchedulingBudget) :
    PolicyM HashValue B PolicyOutput := do
  let (prefillOut, waiting, budget) ←
    passes.applyToWaitingQueue false collection.waiting budget none
  return buildPolicyOutput prefillOut {} {} { collection with waiting := waiting } budget

/-- The pass over the swapped queue, which is made when the running queue preempted no group. -/
def maybeApplyToSwappedQueue (enableChunking : Bool) (runningOut : RunningOutputs)
    (swapped : List SeqGroupPtr) (budget : SchedulingBudget) :
    PolicyM HashValue B (SwappedInOutputs × List SeqGroupPtr × SchedulingBudget) :=
  if runningOut.preempted.length + runningOut.swappedOut.length = 0 then
    applyToSwappedQueue ctx enableChunking swapped budget
  else return ({}, swapped, budget)

def scheduleDecode (collection : SeqGroupCollection) (budget : SchedulingBudget) :
    PolicyM HashValue B PolicyOutput := do
  let (runningOut, running, budget) ← passes.applyToRunningQueue false collection.running budget
  let (swappedInOut, swapped, budget) ←
    maybeApplyToSwappedQueue ctx false runningOut collection.swapped budget
  return buildPolicyOutput {} runningOut swappedInOut
    { collection with running := running, swapped := swapped } budget

/-- The statistics that a round with chunks starts with. -/
def statisticsOf (collection : SeqGroupCollection) :
    PolicyM HashValue B Statistics4PartialPrefill := do
  let s ← get
  return .fromQueues ctx.toPolicyConfig (collection.running.map s.firstSeq)
    (collection.waiting.map s.firstSeq)

def scheduleChunkedPrefill (collection : SeqGroupCollection) (budget : SchedulingBudget) :
    PolicyM HashValue B PolicyOutput := do
  let statistics ← statisticsOf ctx collection
  let (runningOut, running, budget) ← passes.applyToRunningQueue true collection.running budget
  let (swappedInOut, swapped, budget) ←
    maybeApplyToSwappedQueue ctx true runningOut collection.swapped budget
  let (prefillOut, waiting, budget) ←
    passes.applyToWaitingQueue true collection.waiting budget (some statistics)
  return buildPolicyOutput prefillOut runningOut swappedInOut
    { collection with waiting := waiting, running := running, swapped := swapped } budget

/-- `FcfsPolicy::Apply` -/
def apply (collection : SeqGroupCollection) (budget : SchedulingBudget) :
    PolicyM HashValue B PolicyOutput :=
  match collection.pdPriorityType with
  | .prefillFirst => schedulePrefill passes collection budget
  | .decodeFirst => scheduleDecode ctx passes collection budget
  | .mix => scheduleChunkedPrefill ctx passes collection budget

end

end FcfsPolicy

end MindieLLM
