import MindieLLM.Scheduler.PDDSPolicy
import MindieLLM.Scheduler.PlaceHolder

/-!
# The scheduler without its queues

What the scheduler keeps beside the waiting, the running and the swapped queue: the groups and the
block manager that the policies work on, the live groups, the groups whose cache is in transfer, and
what it has been told about sequences that end.

## Main definitions

* `LiveInferContext`: the live groups by request and by sequence
* `SchedulerCore`, `CoreM`: the state and its programs
* `SchedulerCore.lifeEndedWrapup`: the end of a group
* `SchedulerCore.dequeueForFlex`: groups leave a queue to become candidates, or because they have
  ended
-/

namespace MindieLLM

open Program

variable {HashValue B : Type}

/-! ## The live groups -/

structure LiveInferContext where
  reqId2SeqGroup : RequestId → Option SeqGroupPtr := fun _ => none
  seqId2SeqGroup : SequenceId → Option SeqGroupPtr := fun _ => none
  seqId2RootSeqGroup : SequenceId → Option SeqGroupPtr := fun _ => none

namespace LiveInferContext

variable (c : LiveInferContext)

/-- `Remove`, by the id of a request. -/
def removeReqId (reqId : RequestId) : LiveInferContext :=
  match c.reqId2SeqGroup reqId with
  | none => c
  | some p =>
    { c with
      reqId2SeqGroup := Function.update c.reqId2SeqGroup reqId none
      seqId2SeqGroup :=
        if c.seqId2SeqGroup p.seqId = some p then Function.update c.seqId2SeqGroup p.seqId none
        else c.seqId2SeqGroup }

def removeFromSeqRootMap (seqId : SequenceId) : LiveInferContext :=
  { c with seqId2RootSeqGroup := Function.update c.seqId2RootSeqGroup seqId none }

end LiveInferContext

/-! ## The state -/

/-- The sets of ids are lists. -/
structure SchedulerCore (HashValue B : Type) where
  policy : PolicyState HashValue B
  sampling : SeqGroupPtr → Sampling
  role : Role
  context : LiveInferContext := {}
  transferringMap : List (SequenceId × SeqGroupPtr) := []
  kvCachePulledSeqIds : List SequenceId := []
  finishedSeqIds : List SequenceId := []
  exceptionSeqIds : List SequenceId := []
  abortedReqIds : List RequestId := []
  abortedSequenceIds : List SequenceId := []
  abortedParallelSeqGroups : List SeqGroupPtr := []
  predictedTokensBySeqId : SequenceId → List TokenId := fun _ => []

abbrev CoreM (HashValue B : Type) := EStateM Exn (SchedulerCore HashValue B)

namespace SchedulerCore

def policyLens : Lens (SchedulerCore HashValue B) (PolicyState HashValue B) where
  get s := s.policy
  put t s := { s with policy := t }
  get_put _ _ := rfl
  put_get _ := rfl
  put_put _ _ _ := rfl

/-- A program of the policies. -/
def onPolicy {α : Type} (c : PolicyM HashValue B α) : CoreM HashValue B α := zoom policyLens c

def ofExcept {α : Type} : Except Exn α → CoreM HashValue B α
  | .ok a => return a
  | .error e => throw e

/-- Insert into a set of ids. -/
def insertId {α : Type} [DecidableEq α] (x : α) (xs : List α) : List α :=
  if x ∈ xs then xs else xs ++ [x]

/-- Erase from a set of ids. -/
def eraseId {α : Type} [DecidableEq α] (x : α) (xs : List α) : List α := xs.filter (· ≠ x)

variable [BlockSpaceManager HashValue B] (cfg : PolicyConfig)

/-! ## The end of a group -/

def clearSeq (seqId : SequenceId) : CoreM HashValue B Unit := do
  modify fun s => { s with
    exceptionSeqIds := eraseId seqId s.exceptionSeqIds
    finishedSeqIds := eraseId seqId s.finishedSeqIds
    predictedTokensBySeqId := Function.update s.predictedTokensBySeqId seqId [] }
  onPolicy (onBlockManager (BlockSpaceManager.free seqId))

def clearSeqGrp (p : SeqGroupPtr) (finalStatus : SequenceStatus) : CoreM HashValue B Unit := do
  modify fun s => { s with
    context := s.context.removeReqId p.requestId
    abortedReqIds := eraseId p.requestId s.abortedReqIds }
  clearSeq p.seqId
  onPolicy (modifyObj p (·.setStatus finalStatus))

/-- The id of a sequence of the group that has ended. -/
def seqEnded (s : SchedulerCore HashValue B) (seqId : SequenceId) : Bool :=
  seqId ∈ s.finishedSeqIds ∨ seqId ∈ s.exceptionSeqIds

/-- The blocks of the parent are noted for a group that is to get its own copy of them. -/
def saveParentBlockIds (q : SeqGroupPtr) : PolicyM HashValue B Unit := do
  let o ← getObj q
  if o.needUpdate then
    let parentBlockIds ← onBlockManager (BlockSpaceManager.getBlockIds o.parentSeqId)
    modifyObj q fun o => { o with parentBlockIds := parentBlockIds }

/-- A sequence of a parallel sampling is cleared and leaves the map of its root. -/
def clearParallelSeq (p : SeqGroupPtr) (isAbortedRequest : Bool) (seqId : SequenceId) :
    CoreM HashValue B Unit := do
  clearSeq seqId
  modify fun s => { s with
    sampling := Function.update s.sampling p { s.sampling p with
      seqId2ParallelSeqGroup :=
        (s.sampling p).seqId2ParallelSeqGroup.filter fun e => e.1 ≠ seqId }
    context := s.context.removeFromSeqRootMap seqId
    abortedSequenceIds :=
      if isAbortedRequest then insertId seqId s.abortedSequenceIds else s.abortedSequenceIds }

/-- `ParallelSeqGroupLifeEnd` -/
def parallelSeqGroupLifeEnd (p : SeqGroupPtr) : CoreM HashValue B Unit := do
  let s ← get
  let isAbortedRequest : Bool := p.requestId ∈ s.abortedReqIds
  let parallel := (s.sampling p).seqId2ParallelSeqGroup
  forM parallel fun e => onPolicy do
    if !isAbortedRequest then
      saveParentBlockIds e.2
    if isAbortedRequest ∨ s.seqEnded e.1 then
      modifyObj e.2 (·.setStatus .finishAborted)
  forM ((parallel.map Prod.fst).filter fun seqId => isAbortedRequest ∨ s.seqEnded seqId)
    (clearParallelSeq p isAbortedRequest)

def finalizeSeqGrpStatus (s : SchedulerCore HashValue B) (p : SeqGroupPtr) : SequenceStatus :=
  if p.requestId ∈ s.abortedReqIds then .finishAborted
  else if (s.sampling p).enableParallelSampling then
    if (s.sampling p).seqId2ParallelSeqGroup = [] then .finishStopped else .running
  -- the id of the simulated requests may be left over from an earlier one on a prefill node
  else if p.isSimulateRequest ∧ (s.role = .p ∨ s.role = .flexP) then .running
  else if p.seqId ∈ s.finishedSeqIds then .finishStopped
  else if p.seqId ∈ s.exceptionSeqIds then .finishAborted
  else .running

/-- The part of `LifeEndedWrapup_` after the sequences of a parallel sampling have been seen to. -/
def wrapUp (p : SeqGroupPtr) : CoreM HashValue B Bool := do
  let finalStatus := (← get).finalizeSeqGrpStatus p
  if finalStatus = .running then
    return false
  modify fun s => if p.requestId ∈ s.abortedReqIds then
    { s with abortedSequenceIds := insertId p.seqId s.abortedSequenceIds } else s
  clearSeqGrp p finalStatus
  return true

/-- `LifeEndedWrapup_`: whether the group has ended; if so it is cleared. -/
def lifeEndedWrapup (p : SeqGroupPtr) : CoreM HashValue B Bool := do
  if ((← get).sampling p).enableParallelSampling then
    parallelSeqGroupLifeEnd p
  wrapUp p

/-! ## Candidates leave a queue -/

/-- The tokens that have come back for a sequence take the place of its placeholders. -/
def replacePlaceHolderOf (isLastChunk : Bool) (q : SeqGroupPtr) : CoreM HashValue B Unit := do
  let s ← get
  let (seq, left) ← ofExcept (Scheduler.replacePlaceHolderOfSeq cfg.toSchedulerConfig isLastChunk
    (s.predictedTokensBySeqId q.seqId) (s.policy.firstSeq q))
  onPolicy (modifyObj q fun o => { o with firstSeq := seq })
  modify fun s => { s with
    predictedTokensBySeqId := Function.update s.predictedTokensBySeqId q.seqId left }

def replacePlaceHolderWithToken (p : SeqGroupPtr) : CoreM HashValue B Unit := do
  let s ← get
  forM ((s.sampling p).sequencesOf p) (replacePlaceHolderOf cfg (s.policy.groups p).isLastChunk)

def matchesFilter (o : SeqGroupObj HashValue) : Role → Bool
  | .flexP => !o.isDecode ∧ !o.isFlexLocal
  | .flexD => o.isDecode ∧ !o.isFlexLocal
  | .flexPnD => o.isFlexLocal
  | _ => false

/-- One round of the loop of `DequeueForFlex`. The second list has the groups that go to the back
of the queue. -/
def considerDequeueForFlex (role : Role) (maxNum : Nat) (p : SeqGroupPtr)
    (dst : List SeqGroupPtr × List SeqGroupPtr) :
    CoreM HashValue B (Verdict (List SeqGroupPtr × List SeqGroupPtr)) := do
  if maxNum ≤ dst.1.length then
    return .refuse dst
  if !matchesFilter ((← get).policy.groups p) role then
    return .next (dst.1, dst.2 ++ [p])
  replacePlaceHolderWithToken cfg p
  if ← lifeEndedWrapup p then
    return .next dst
  return .next (dst.1 ++ [p], dst.2)

/-- `DequeueForFlex`. The groups that the role does not serve go to the back of the queue. -/
def dequeueForFlex (role : Role) (src : List SeqGroupPtr) (maxNum : Nat) :
    CoreM HashValue B (List SeqGroupPtr × List SeqGroupPtr) := do
  let (rest, dst) ← drain (considerDequeueForFlex cfg role maxNum) src ([], [])
  return (rest ++ dst.2, dst.1)

end SchedulerCore

end MindieLLM
