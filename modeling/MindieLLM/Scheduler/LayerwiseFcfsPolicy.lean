import MindieLLM.Scheduler.FcfsPolicy

/-!
# The policy of the layer-wise disaggregation

`LayerwiseFcfsPolicy` overrides the passes over the waiting and the running queue. Long prompts get
a batch of their own, the length of a batch is limited, and a group that is to be computed again
waits until its last decoding has returned.

## Main definitions

* `LayerwiseFcfsPolicy.applyToWaitingQueue`, `LayerwiseFcfsPolicy.applyToRunningQueue`
* `LayerwiseFcfsPolicy.passes`: the passes, for `FcfsPolicy.apply`
-/

namespace MindieLLM

open Program

variable {HashValue B : Type}

namespace LayerwiseFcfsPolicy

open FcfsPolicy

variable [BlockSpaceManager HashValue B] (ctx : PolicyContext)

/-! ## The waiting queue -/

/-- The local variables of `ApplyToWaitingQueue`, and the members that it resets and clears. -/
structure LayerwisePass where
  pass : WaitingPass
  curCount : Nat := 0
  curBatchLen : Nat := 0
  curBatchLenBudget : Nat := 4096
  longprefillQueue : List SeqGroupPtr := []
  recomputeprefillQueue : List SeqGroupPtr := []

def promptTokenIdsLen (seq : Sequence HashValue) : Nat :=
  if seq.layerwise.layerwiseRecompute then seq.getLen else seq.promptTokenIds.length

/-- `HandleDynamicPBS`; the flag says that the batch is long enough. -/
def handleDynamicPBS (promptTokenIdsLen : Nat) (v : LayerwisePass) : Bool × LayerwisePass :=
  let curBatchLenBudget := if 1024 ≤ promptTokenIdsLen then 2048 else v.curBatchLenBudget
  let curBatchLen := v.curBatchLen + promptTokenIdsLen
  (ctx.dynamicPBSEnable ∧ curBatchLenBudget ≤ curBatchLen,
    { v with curBatchLen := curBatchLen, curBatchLenBudget := curBatchLenBudget })

/-- The decoding of a group that is to be computed again has not returned yet. -/
def awaitsReturn (seq : Sequence HashValue) : Bool :=
  seq.layerwise.layerwiseStage = .prefill ∧ seq.layerwise.layerwiseRecompute ∧
    !seq.layerwise.layerwiseRecomputeReturn

/-- `GeneratePrefillBatch`, with the increment of the count that follows it. -/
def generatePrefillBatch (now : Nat) (p : SeqGroupPtr) (v : LayerwisePass) :
    PolicyM HashValue B (Verdict LayerwisePass) := do
  if ← fillsFreeBlocks ctx p then
    return .refuse v
  let seq := (← get).firstSeq p
  let promptTokenIdsLen := promptTokenIdsLen seq
  if v.pass.statistics.any (!·.canSchedule ctx.toPolicyConfig seq) then
    return .next { v with
      pass := { v.pass with leftOverSeqGroups := p :: v.pass.leftOverSeqGroups } }
  let numNewTokens ← PolicyHelper.getNumNewTokens ctx p .waiting false v.pass.budget
  let promptLimit := PolicyHelper.getPromptLimit ctx.toSchedulerConfig v.pass.budget
  if seq.outputTokenIds.length = 0 ∧ promptLimit < numNewTokens.1 + numNewTokens.2 then
    changeStatus .waiting .finishIgnored p
    return .next { v with
      pass := { v.pass with ignoredSeqGroups := v.pass.ignoredSeqGroups ++ [p] } }
  match ← onBlockManager (BlockSpaceManager.canAllocate (← getView ctx p)) with
  | .later =>
    maybeSetNewRequestFirst ctx now p
    return .refuse v
  | .never => throw (.runtimeError "Prompt sequence too long.")
  | .ok =>
    let numNewSeqs := (← getView ctx p).getMaxNumRunningSeqs
    if numNewTokens.1 = 0 ∨ !v.pass.budget.canSchedule numNewTokens.1 numNewSeqs then
      return .refuse v
    -- a long prompt is kept for a batch of its own
    if 0 < v.curCount ∧ ctx.longprefillLenThreshold ≤ promptTokenIdsLen then
      return .next { v with longprefillQueue := v.longprefillQueue ++ [p] }
    if awaitsReturn seq then
      return .next { v with recomputeprefillQueue := v.recomputeprefillQueue ++ [p] }
    let pass ← scheduleWaiting ctx false p numNewTokens numNewSeqs v.pass
    let v := { v with pass := pass }
    if v.curCount = 0 ∧ ctx.longprefillLenThreshold ≤ promptTokenIdsLen then
      return .last v
    let (full, v) := handleDynamicPBS ctx promptTokenIdsLen v
    return if full then .last v else .next { v with curCount := v.curCount + 1 }

/-- `ApplyToWaitingQueue`. What it kept goes back to the front of the queue. -/
def applyToWaitingQueue (now : Nat) (_enableChunking : Bool) (waiting : List SeqGroupPtr)
    (budget : SchedulingBudget) (statistics : Option Statistics4PartialPrefill) :
    PolicyM HashValue B (PrefillOutputs × List SeqGroupPtr × SchedulingBudget) := do
  let (rest, v) ←
    drain (generatePrefillBatch ctx now) waiting { pass := ⟨budget, statistics, [], [], []⟩ }
  return (⟨v.pass.seqGroups, v.pass.ignoredSeqGroups⟩,
    v.recomputeprefillQueue ++ v.longprefillQueue ++ rest ++ v.pass.leftOverSeqGroups,
    v.pass.budget)

/-! ## The running queue -/

/-- The condition of the inner loop of `ApplyToRunningQueue`. -/
def needsRoom (p : SeqGroupPtr) (v : RunningPass) : PolicyM HashValue B (Bool × RunningPass) := do
  if !(← PolicyHelper.canAppendSlots ctx p) then
    return (true, v)
  let (ok, copies) ← allocBlocks4ParallelSeqGrp ctx p
  return (!ok, addCopies v copies)

/-- One round of the loop of `ApplyToRunningQueue`. The groups whose prefill has not returned are
set aside. -/
def considerRunning (enableChunking : Bool) (p : SeqGroupPtr) (rest : List SeqGroupPtr)
    (v : RunningPass × List SeqGroupPtr) :
    PolicyM HashValue B (Option (List SeqGroupPtr × RunningPass × List SeqGroupPtr)) := do
  let numUncachedNewTokens :=
    (← PolicyHelper.getNumNewTokens ctx p .running enableChunking v.1.budget).1
  if !v.1.budget.canSchedule numUncachedNewTokens (← getView ctx p).getMaxNumRunningSeqs then
    return none
  let (rest, pass, canAppend) ← makeRoom (needsRoom ctx p) (preempt ctx) p rest.reverse v.1
  if !canAppend then
    return some (rest.reverse, pass, v.2)
  if ((← get).firstSeq p).layerwise.layerwiseStage = .prefill then
    return some (rest.reverse, pass, v.2 ++ [p])
  let copies ← PolicyHelper.appendSlots ctx p
  return some (rest.reverse,
    ← enterRunning ctx enableChunking p numUncachedNewTokens (addCopies pass copies), v.2)

def applyToRunningQueue (enableChunking : Bool) (running : List SeqGroupPtr)
    (budget : SchedulingBudget) :
    PolicyM HashValue B (RunningOutputs × List SeqGroupPtr × SchedulingBudget) := do
  let (rest, pass, prefillRunningQueue) ←
    consume (considerRunning ctx enableChunking) running.length running (⟨budget, {}, 0⟩, [])
  return (pass.out, prefillRunningQueue ++ rest, pass.budget)

def passes (now : Nat) : Passes HashValue B :=
  ⟨applyToWaitingQueue ctx now, applyToRunningQueue ctx⟩

end LayerwiseFcfsPolicy

end MindieLLM
