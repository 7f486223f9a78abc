import MindieLLM.BlockManager.BlockObj
import Mathlib.Data.List.DropRight

/-!
# Sequences and sequence groups

The parts of a sequence and of a group of sequences that the block manager and the scheduler read
and write.

## Main definitions

* `Sequence`, `SequenceGroup`: a sequence, and the sequences of one request
* `SequenceGroup.getFirstSequence`, `SequenceGroup.getSequences`: the sequences of a status
* `Sequence.updateNumComputedTokens`, `Sequence.resetStateForRecompute`: progress of a prefill,
  and its loss
-/

namespace MindieLLM

variable {HashValue : Type}

inductive SequenceStatus
  | allStatus
  | waiting
  | running
  | swapped
  | finishStopped
  | finishLengthCapped
  | finishAborted
  | finishIgnored
  | finishRecompute
  deriving DecidableEq, Repr

inductive SequenceStage
  | prefill
  | decode
  deriving DecidableEq, Repr

/-- What the layer-wise disaggregation keeps with a sequence. -/
structure LayerwiseState where
  layerwiseStage : SequenceStage := .prefill
  layerwiseRecompute : Bool := false
  layerwiseRecomputeReturn : Bool := false
  layerwiseRunning : Bool := false
  layerwiseDiscard : Bool := false
  deriving DecidableEq, Repr

structure Sequence (HashValue : Type) where
  seqId : SequenceId
  promptTokenIds : List TokenId
  outputTokenIds : List TokenId
  stage : SequenceStage
  numComputedTokens : Nat
  status : SequenceStatus
  hashValue : HashValue
  layerwise : LayerwiseState := {}

namespace Sequence

def getTokenIds (seq : Sequence HashValue) : List TokenId :=
  seq.promptTokenIds ++ seq.outputTokenIds

def getLen (seq : Sequence HashValue) : Nat := seq.outputTokenIds.length + seq.promptTokenIds.length

def getExtraHash (seq : Sequence HashValue) : HashValue := seq.hashValue

def isPrefill (seq : Sequence HashValue) : Bool := seq.stage = .prefill

/-- `IsFinished`: the status comes after `SWAPPED`. -/
def isFinished (seq : Sequence HashValue) : Bool :=
  match seq.status with
  | .allStatus | .waiting | .running | .swapped => false
  | _ => true

/-- `GetNumUncomputedTokens`: a decoding sequence has one token to compute. -/
def getNumUncomputedTokens (seq : Sequence HashValue) : Nat :=
  if seq.stage = .decode then 1 else seq.getLen - seq.numComputedTokens

/-- `UpdateNumComputedTokens`. The difference of the two unsigned numbers is zero exactly if they
are equal. -/
def updateNumComputedTokens (seq : Sequence HashValue) (numNewComputedTokens : Nat) :
    Sequence HashValue :=
  let numComputedTokens := seq.numComputedTokens + numNewComputedTokens
  { seq with
    numComputedTokens := numComputedTokens
    stage := if seq.getLen = numComputedTokens then .decode else seq.stage }

/-- `ResetStateForRecompute`: the trailing placeholders are dropped. -/
def resetStateForRecompute (seq : Sequence HashValue) : Sequence HashValue :=
  { seq with
    numComputedTokens := 0
    stage := .prefill
    layerwise := { seq.layerwise with layerwiseRecompute := true }
    outputTokenIds := seq.outputTokenIds.rdropWhile (· = placeholderToken) }

end Sequence

abbrev RequestId := String

/-- A group has a first sequence. With parallel sampling the sequences that run are the first ones
of the groups in its map, which `parallelSeqs` lists. -/
structure SequenceGroup (HashValue : Type) where
  firstSeq : Sequence HashValue
  otherSeqs : List (Sequence HashValue)
  enableParallelSampling : Bool
  parallelSeqs : List (Sequence HashValue)
  useBeamsearch : Bool := false
  n : Nat := 1
  requestId : RequestId := ""
  isLastChunk : Bool := false
  isDecode : Bool := false
  isFlexLocal : Bool := false

namespace SequenceGroup

def seqs (g : SequenceGroup HashValue) : List (Sequence HashValue) := g.firstSeq :: g.otherSeqs

/-- `GetFirstSequence`: all sequences of the group if the first one has the given status. -/
def getFirstSequence (g : SequenceGroup HashValue) (status : SequenceStatus) :
    List (Sequence HashValue) :=
  if status = .allStatus then g.seqs
  else if g.firstSeq.status = status then g.seqs
  else []

def getParallelSequences (g : SequenceGroup HashValue) (status : SequenceStatus) :
    List (Sequence HashValue) :=
  g.parallelSeqs.filter fun seq => status = .allStatus ∨ seq.status = status

def getSequences (g : SequenceGroup HashValue) (status : SequenceStatus) :
    List (Sequence HashValue) :=
  if g.enableParallelSampling then g.getParallelSequences status else g.getFirstSequence status

/-- `UpdateNumComputedTokens`: of the sequences that have not finished. -/
def updateNumComputedTokens (g : SequenceGroup HashValue) (numNewComputedTokens : Nat) :
    SequenceGroup HashValue :=
  let update (seq : Sequence HashValue) : Sequence HashValue :=
    if seq.isFinished then seq else seq.updateNumComputedTokens numNewComputedTokens
  { g with firstSeq := update g.firstSeq, otherSeqs := g.otherSeqs.map update }

def getMaxNumRunningSeqs (g : SequenceGroup HashValue) : Nat :=
  if !g.enableParallelSampling then
    if g.firstSeq.isFinished then 0 else 1
  else if g.useBeamsearch then g.n
  else (g.getParallelSequences .allStatus).length

/-- What the constructor of `ScheduledSequenceGroup` does to the group: with chunking it notes
whether the chunk reaches the end of the prompt. -/
def scheduleChunk (g : SequenceGroup HashValue) (tokenChunkSize : Nat) (enableChunked : Bool) :
    SequenceGroup HashValue :=
  if enableChunked then
    { g with isLastChunk :=
      g.firstSeq.promptTokenIds.length ≤ g.firstSeq.numComputedTokens + tokenChunkSize }
  else g

/-- Give the sequences a status. -/
def setStatus (g : SequenceGroup HashValue) (status : SequenceStatus) : SequenceGroup HashValue :=
  { g with
    firstSeq := { g.firstSeq with status := status }
    otherSeqs := g.otherSeqs.map ({ · with status := status }) }

section

variable (g : SequenceGroup HashValue) (status : SequenceStatus) (tokenChunkSize : Nat)
  (enableChunked : Bool)

@[simp]
theorem scheduleChunk_firstSeq :
    (g.scheduleChunk tokenChunkSize enableChunked).firstSeq = g.firstSeq := by
  unfold scheduleChunk
  split <;> rfl

@[simp]
theorem scheduleChunk_otherSeqs :
    (g.scheduleChunk tokenChunkSize enableChunked).otherSeqs = g.otherSeqs := by
  unfold scheduleChunk
  split <;> rfl

@[simp]
theorem scheduleChunk_enableParallelSampling :
    (g.scheduleChunk tokenChunkSize enableChunked).enableParallelSampling =
      g.enableParallelSampling := by
  unfold scheduleChunk
  split <;> rfl

@[simp]
theorem scheduleChunk_isLastChunk : (g.scheduleChunk tokenChunkSize true).isLastChunk =
    decide (g.firstSeq.promptTokenIds.length ≤ g.firstSeq.numComputedTokens + tokenChunkSize) :=
  rfl

@[simp]
theorem setStatus_firstSeq :
    (g.setStatus status).firstSeq = { g.firstSeq with status := status } := rfl

@[simp]
theorem setStatus_enableParallelSampling :
    (g.setStatus status).enableParallelSampling = g.enableParallelSampling := rfl

@[simp]
theorem updateNumComputedTokens_firstSeq (h : g.firstSeq.isFinished = false) :
    (g.updateNumComputedTokens tokenChunkSize).firstSeq =
      g.firstSeq.updateNumComputedTokens tokenChunkSize := by
  simp [updateNumComputedTokens, h]

@[simp]
theorem updateNumComputedTokens_isLastChunk :
    (g.updateNumComputedTokens tokenChunkSize).isLastChunk = g.isLastChunk := rfl

@[simp]
theorem updateNumComputedTokens_enableParallelSampling :
    (g.updateNumComputedTokens tokenChunkSize).enableParallelSampling = g.enableParallelSampling :=
  rfl

end

end SequenceGroup

end MindieLLM
