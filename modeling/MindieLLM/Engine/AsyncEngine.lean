import MindieLLM.Scheduler.ChunkedPrefill

/-!
# The scheduling thread and the results of its batches

The engine runs a scheduling thread, which makes up batches and hands them to the executor, and
callbacks, which take the results. A callback may run between any two steps of the thread. Both
share the live groups and the queue of generated tokens.

A group here is a request without parallel sampling, so it has one sequence. The choices of the
policy (which groups are dequeued, scheduled, preempted or swapped out) are left open.

## Main definitions

* `EngineState`: the shared data, what the scheduling thread is working on, and the batches whose
  results are outstanding
* `EngineOp`, `EngineState.exec`: the steps of the thread and of the callbacks
* `EngineRun`: the states of runs whose steps meet a condition
-/

namespace MindieLLM

variable {HashValue : Type}

/-- The metadata of a group in a batch. -/
structure BatchEntry where
  seqId : SequenceId
  tokenChunkSize : Nat
  isReqLastChunk : Bool
  deriving DecidableEq, Repr

/-- A batch in execution: the outputs that its callback has not handled yet, and the local
variables of the callback. -/
structure OutstandingBatch where
  outputs : List BatchEntry
  isPrefillBatch : Bool
  lastForwardMode : Option SequenceStage := none
  layerwiseNeedUpdate : Bool := false
  recomputeInDBatchQueue : List SequenceId := []
  deriving Repr

/-- What the executor returns for a sequence. -/
structure SequenceOutput where
  seqId : SequenceId
  outputToken : List TokenId
  numSpeculativeTokens : Nat
  deriving Repr

/-- What the scheduling thread does: it waits, it dequeues candidates (`PrepCandidatesForPolicy`),
it applies the policy, or it has handed over the batch and prepares the next round. -/
inductive Phase
  | waiting
  | collecting
  | applying
  | preparing
  deriving DecidableEq, Repr

structure EngineState (HashValue : Type) where
  /-- `LiveInferContext` -/
  live : SequenceId → Option (SequenceGroup HashValue)
  predictedTokensBySeqId : SequenceId → List TokenId
  seqIdToOutputTokenQueue : List (SequenceId × TokenId)
  outstanding : List OutstandingBatch
  phase : Phase
  candidates : List SequenceId
  scheduled : List BatchEntry
  isPrefillBatch : Bool
  /-- The ids given so far, and the prompts they came with. -/
  used : List SequenceId
  prompt : SequenceId → List TokenId
  /-- The tokens of the results handled so far that belong to the end of a prompt or to a decode,
  in order. -/
  sampled : SequenceId → List TokenId
  /-- `sampled`, with the tokens that the scheduler has inserted itself. -/
  accepted : SequenceId → List TokenId
  /-- The tokens sent to the user. -/
  delivered : SequenceId → List TokenId
  /-- The sequences that have been preempted for recomputation. -/
  recomputed : SequenceId → Bool

namespace EngineState

variable (cfg : SchedulerConfig) (σ : EngineState HashValue)

def init : EngineState HashValue where
  live _ := none
  predictedTokensBySeqId _ := []
  seqIdToOutputTokenQueue := []
  outstanding := []
  phase := .waiting
  candidates := []
  scheduled := []
  isPrefillBatch := false
  used := []
  prompt _ := []
  sampled _ := []
  accepted _ := []
  delivered _ := []
  recomputed _ := false

def setGroup (s : SequenceId) (g : Option (SequenceGroup HashValue)) : EngineState HashValue :=
  { σ with live := Function.update σ.live s g }

def setPredicted (s : SequenceId) (tokens : List TokenId) : EngineState HashValue :=
  { σ with predictedTokensBySeqId := Function.update σ.predictedTokensBySeqId s tokens }

/-! ## The scheduling thread -/

/-- `AddSeqGroup` with a new group. -/
def add (g : SequenceGroup HashValue) : EngineState HashValue :=
  let s := g.firstSeq.seqId
  { σ.setGroup s (some g) with
    used := s :: σ.used
    prompt := Function.update σ.prompt s g.firstSeq.promptTokenIds }

/-- `LayerwiseDiscardToken` -/
def layerwiseDiscardToken (g : SequenceGroup HashValue) : Bool :=
  cfg.layerwiseDisaggregated && !cfg.enableChunkedPrefill && g.firstSeq.layerwise.layerwiseDiscard

/-- `isDiscardOutputToken`: the tokens of the chunks before the last are dropped. -/
def isDiscardOutputToken (g : SequenceGroup HashValue) : Bool :=
  cfg.enableChunkedPrefill && !g.isLastChunk

def setLayerwise (g : SequenceGroup HashValue) (l : LayerwiseState) : SequenceGroup HashValue :=
  { g with firstSeq := { g.firstSeq with layerwise := l } }

/-- `FetchSeqGeneratedTokens`, for one element of the queue. -/
def fetchToken (x : SequenceId × TokenId) : EngineState HashValue :=
  match σ.live x.1 with
  | none => σ
  | some g =>
    if layerwiseDiscardToken cfg g then
      σ.setGroup x.1 (some (setLayerwise g { g.firstSeq.layerwise with layerwiseDiscard := false }))
    else if isDiscardOutputToken cfg g then σ
    else σ.setPredicted x.1 (σ.predictedTokensBySeqId x.1 ++ [x.2])

def fetchSeqGeneratedTokens : EngineState HashValue :=
  σ.seqIdToOutputTokenQueue.foldl (fetchToken cfg) { σ with seqIdToOutputTokenQueue := [] }

/-- `Dequeue`, for one group: its placeholders are replaced, and if it has ended it is cleared. -/
def dequeue (s : SequenceId) (g : SequenceGroup HashValue) (terminated : Bool) :
    Except Exn (EngineState HashValue) := do
  let (seq, left) ← Scheduler.replacePlaceHolderOfSeq cfg g.isLastChunk
    (σ.predictedTokensBySeqId s) g.firstSeq
  if terminated then
    return (σ.setPredicted s []).setGroup s none
  else
    return { (σ.setPredicted s left).setGroup s (some { g with firstSeq := seq }) with
      candidates := s :: σ.candidates }

/-- Whether the layer-wise policy keeps a group back: on the running queue a group whose prefill has
not returned, and on the waiting queue one whose prefill had been handed over when it was
preempted. -/
def layerwiseHeld (queue : QueueKind) (g : SequenceGroup HashValue) : Bool :=
  let l := g.firstSeq.layerwise
  cfg.layerwiseDisaggregated &&
    match queue with
    | .running => l.layerwiseStage = .prefill
    | .waiting =>
      l.layerwiseStage = .prefill && l.layerwiseRecompute && !l.layerwiseRecomputeReturn
    | .swapped => false

/-- The layer-wise policy does not cut the prompts of the waiting queue. -/
def enableChunking (queue : QueueKind) : Bool :=
  cfg.enableChunkedPrefill && !(cfg.layerwiseDisaggregated && queue = .waiting)

/-- The policy schedules a candidate from a queue. -/
def schedule (s : SequenceId) (g : SequenceGroup HashValue) (queue : QueueKind)
    (numCachedTokens : Nat) (budget : SchedulingBudget) :
    Except Exn (Option (EngineState HashValue)) := do
  let counts ← PolicyHelper.getNumComputeNewUnCachedAndCachedTokens cfg
    (fun _ => (Except.ok numCachedTokens : Except Exn Nat)) g queue.status
    (enableChunking cfg queue) budget
  match FcfsPolicy.scheduleFrom queue (enableChunking cfg queue) budget counts g with
  | none => return none
  | some scheduled =>
    let param := Scheduler.setChunkedParam scheduled.seqGroup.firstSeq scheduled.tokenChunkSize
    return some { σ.setGroup s (some scheduled.seqGroup) with
      candidates := σ.candidates.erase s
      scheduled := σ.scheduled ++ [⟨s, scheduled.tokenChunkSize, param.isReqLastChunk⟩] }

/-- `PreemptByRecompute` -/
def preemptByRecompute (s : SequenceId) (g : SequenceGroup HashValue) : EngineState HashValue :=
  { σ.setGroup s (some { g with
      firstSeq := { g.firstSeq with status := .waiting }.resetStateForRecompute }) with
    candidates := σ.candidates.erase s
    recomputed := Function.update σ.recomputed s true }

/-- `UpdateStatusForRecompute`: the end of the thinking is inserted and the group preempted. -/
def updateStatusForRecompute (s : SequenceId) (g : SequenceGroup HashValue) :
    EngineState HashValue :=
  let outputTokenIds :=
    g.firstSeq.outputTokenIds.rdropWhile (· = placeholderToken) ++ cfg.earlyStoppingIds
  let σ' := preemptByRecompute σ s
    { g with firstSeq := { g.firstSeq with outputTokenIds := outputTokenIds } }
  { σ' with
    accepted := Function.update σ'.accepted s (σ'.accepted s ++ cfg.earlyStoppingIds) }

def swapOut (s : SequenceId) (g : SequenceGroup HashValue) : EngineState HashValue :=
  { σ.setGroup s (some (g.setStatus .swapped)) with candidates := σ.candidates.erase s }

/-- The policy is done: the groups that are left go back to their queues, and the batch, if there is
one, is handed to the executor. -/
def issue (isPrefillBatch : Bool) : EngineState HashValue :=
  if σ.scheduled = [] then { σ with phase := .waiting, candidates := [] }
  else
    { σ with
      phase := .preparing
      candidates := []
      isPrefillBatch := isPrefillBatch
      outstanding :=
        σ.outstanding ++ [{ outputs := σ.scheduled, isPrefillBatch := isPrefillBatch }] }

/-- `LwdPrepareBatch`, for one group of a prefill batch. -/
def lwdPrepareGroup (isPrefillBatch : Bool) (g : SequenceGroup HashValue) :
    SequenceGroup HashValue :=
  if cfg.layerwiseDisaggregated ∧ isPrefillBatch then
    let l := { g.firstSeq.layerwise with layerwiseStage := .prefill }
    setLayerwise g
      (if l.layerwiseRecompute then
        { l with
          layerwiseRecompute := false
          layerwiseRecomputeReturn := false
          layerwiseRunning := true }
      else l)
  else g

/-- `PrepareNextSchedule` and `LwdPrepareBatch`, for one group of the batch. -/
def prepareGroup (e : BatchEntry) : Except Exn (EngineState HashValue) :=
  match σ.live e.seqId with
  | none => .ok σ
  | some g => do
    let g ← Scheduler.prepareNextSchedule cfg g e.tokenChunkSize
    return σ.setGroup e.seqId (some (lwdPrepareGroup cfg σ.isPrefillBatch g))

def prepare : Except Exn (EngineState HashValue) :=
  σ.scheduled.foldlM (prepareGroup cfg) { σ with phase := .waiting, scheduled := [] }

/-! ## The callbacks -/

/-- The tokens that `HandleGreedySampling` puts on the queue. -/
def greedyTokens (sample : SequenceOutput) : List TokenId :=
  (if 0 < cfg.speculationGamma then sample.outputToken.take sample.numSpeculativeTokens
    else sample.outputToken).filter (· ≠ placeholderToken)

/-- The tokens that `AddOutputsToResponse` takes for the user: none if all are placeholders. -/
def responseTokens (sample : SequenceOutput) : List TokenId :=
  let tokens := sample.outputToken.take sample.numSpeculativeTokens
  if trailingPlaceholderTokenCount tokens = sample.numSpeculativeTokens then [] else tokens

/-- `LwdProcessResponse`, for the group of an output. -/
def lwdProcessGroup (g : SequenceGroup HashValue) : SequenceGroup HashValue :=
  let l := g.firstSeq.layerwise
  if l.layerwiseStage = .prefill then
    setLayerwise g
      (if l.layerwiseRecompute then { l with layerwiseRecomputeReturn := true }
      else { l with layerwiseStage := .decode, layerwiseRunning := false })
  else g

/-- `LwdProcessResponse`, for the local variables of the callback. -/
def lwdProcessBatch (b : OutstandingBatch) (s : SequenceId)
    (group : Option (SequenceGroup HashValue)) : OutstandingBatch :=
  match group with
  | none =>
    { b with
      lastForwardMode := some (if b.isPrefillBatch then .prefill else .decode)
      layerwiseNeedUpdate := false }
  | some g =>
    let l := g.firstSeq.layerwise
    { b with
      lastForwardMode := some l.layerwiseStage
      layerwiseNeedUpdate := true
      recomputeInDBatchQueue :=
        if l.layerwiseStage = .prefill ∧ l.layerwiseRunning then b.recomputeInDBatchQueue ++ [s]
        else b.recomputeInDBatchQueue }

/-- `Entry4Executor`, for the next output `e` of the batch `b`; `others` is the rest of the
outputs. -/
def handleOutput (i : Nat) (b : OutstandingBatch) (e : BatchEntry) (others : List BatchEntry)
    (sample : SequenceOutput) : EngineState HashValue :=
  let s := e.seqId
  let tokens := greedyTokens cfg sample
  let keep {α : Type} (x : List α) : List α := if e.isReqLastChunk then x else []
  let σ' := { σ with
    seqIdToOutputTokenQueue := σ.seqIdToOutputTokenQueue ++ tokens.map (s, ·)
    sampled := Function.update σ.sampled s (σ.sampled s ++ keep tokens)
    accepted := Function.update σ.accepted s (σ.accepted s ++ keep tokens)
    outstanding := σ.outstanding.set i
      (if cfg.layerwiseDisaggregated then
        lwdProcessBatch { b with outputs := others } s (σ.live s)
      else { b with outputs := others }) }
  match σ.live s with
  | none => σ'
  | some g =>
    let g' := if cfg.layerwiseDisaggregated then lwdProcessGroup g else g
    { σ'.setGroup s (some g') with
      delivered := Function.update σ.delivered s
        (σ.delivered s ++ if isDiscardOutputToken cfg g then [] else responseTokens sample) }

/-- `LwdProcessRecomputeSeq`, for one group. -/
def lwdRecomputeGroup (s : SequenceId) : EngineState HashValue :=
  match σ.live s with
  | none => σ
  | some g =>
    σ.setGroup s (some (setLayerwise g { g.firstSeq.layerwise with
      layerwiseStage := .prefill
      layerwiseRunning := true
      layerwiseDiscard := true }))

/-- The end of `Entry4Executor`: the batch no longer counts as outstanding. -/
def finishBatch (i : Nat) (b : OutstandingBatch) : EngineState HashValue :=
  let σ' := { σ with outstanding := σ.outstanding.eraseIdx i }
  if b.layerwiseNeedUpdate ∧ b.lastForwardMode = some .decode then
    b.recomputeInDBatchQueue.foldl lwdRecomputeGroup σ'
  else σ'

end EngineState

/-! ## Steps -/

/-- The steps of the scheduling thread, in the order of a round, and those of the callbacks. -/
inductive EngineOp (HashValue : Type)
  | add (g : SequenceGroup HashValue)
  | fetch
  | dequeue (s : SequenceId) (terminated : Bool)
  | apply
  | schedule (s : SequenceId) (queue : QueueKind) (numCachedTokens : Nat)
    (budget : SchedulingBudget)
  | recompute (s : SequenceId)
  | stopThinking (s : SequenceId)
  | swapOut (s : SequenceId)
  | issue (isPrefillBatch : Bool)
  | prepare
  | handle (i : Nat) (sample : SequenceOutput)
  | finish (i : Nat)

/-- A group as `AddSeqGroup` gets it. -/
def IsNew (g : SequenceGroup HashValue) : Prop :=
  g.otherSeqs = [] ∧ g.enableParallelSampling = false ∧ g.firstSeq.status = .waiting ∧
    g.firstSeq.stage = .prefill ∧ g.firstSeq.numComputedTokens = 0 ∧
    g.firstSeq.outputTokenIds = [] ∧ g.firstSeq.layerwise = {} ∧ g.isLastChunk = false

instance (g : SequenceGroup HashValue) : Decidable (IsNew g) :=
  @instDecidableAnd _ _
    (decidable_of_iff (g.otherSeqs.length = 0) List.length_eq_zero_iff) inferInstance

/-- The output of a sequence has at least one token, at most one more than were speculated, and
without speculation nothing else. -/
def IsSample (cfg : SchedulerConfig) (sample : SequenceOutput) : Prop :=
  0 < sample.numSpeculativeTokens ∧ sample.numSpeculativeTokens ≤ cfg.tokenNumPerIter ∧
    sample.numSpeculativeTokens ≤ sample.outputToken.length ∧
    (cfg.speculationGamma = 0 → sample.outputToken.length = sample.numSpeculativeTokens) ∧
    ∀ t ∈ sample.outputToken.take sample.numSpeculativeTokens, t ≠ placeholderToken

instance (cfg : SchedulerConfig) (sample : SequenceOutput) : Decidable (IsSample cfg sample) :=
  inferInstanceAs (Decidable (_ ∧ _))

namespace EngineState

variable (cfg : SchedulerConfig) (limit : Nat) (σ : EngineState HashValue)

/-- A step, if it is possible: it may throw. The thread starts a round only if fewer than `limit`
batches are outstanding. The results of a sequence come back in the order of its batches. -/
def exec : EngineOp HashValue → Option (Except Exn (EngineState HashValue))
  | .add g => if IsNew g ∧ g.firstSeq.seqId ∉ σ.used then some (.ok (σ.add g)) else none
  | .fetch =>
    if σ.phase = .waiting ∧ σ.outstanding.length < limit then
      some (.ok { σ.fetchSeqGeneratedTokens cfg with phase := .collecting })
    else none
  | .dequeue s terminated =>
    match σ.live s with
    | some g =>
      if σ.phase = .collecting ∧ s ∉ σ.candidates then some (σ.dequeue cfg s g terminated) else none
    | none => none
  | .apply => if σ.phase = .collecting then some (.ok { σ with phase := .applying }) else none
  | .schedule s queue numCachedTokens budget =>
    match σ.live s with
    | some g =>
      if σ.phase = .applying ∧ s ∈ σ.candidates ∧ g.firstSeq.status = queue.status ∧
          numCachedTokens ≤ g.firstSeq.getLen ∧ layerwiseHeld cfg queue g = false then
        match σ.schedule cfg s g queue numCachedTokens budget with
        | .ok none => none
        | .ok (some σ') => some (.ok σ')
        | .error e => some (.error e)
      else none
    | none => none
  | .recompute s =>
    match σ.live s with
    | some g =>
      if σ.phase = .applying ∧ s ∈ σ.candidates ∧ g.firstSeq.status = .running then
        some (.ok (σ.preemptByRecompute s g))
      else none
    | none => none
  | .stopThinking s =>
    match σ.live s with
    | some g =>
      -- the layer-wise policy does not look at the budget for thinking
      if σ.phase = .applying ∧ s ∈ σ.candidates ∧ g.firstSeq.status = .running ∧
          cfg.layerwiseDisaggregated = false then
        some (.ok (σ.updateStatusForRecompute cfg s g))
      else none
    | none => none
  | .swapOut s =>
    match σ.live s with
    | some g =>
      if σ.phase = .applying ∧ s ∈ σ.candidates ∧ g.firstSeq.status = .running then
        some (.ok (σ.swapOut s g))
      else none
    | none => none
  | .issue isPrefillBatch =>
    if σ.phase = .applying then some (.ok (σ.issue isPrefillBatch)) else none
  | .prepare => if σ.phase = .preparing then some (σ.prepare cfg) else none
  | .handle i sample =>
    match σ.outstanding[i]? with
    | some ⟨e :: others, isPrefillBatch, lastForwardMode, layerwiseNeedUpdate, queue⟩ =>
      if e.seqId = sample.seqId ∧ IsSample cfg sample ∧
          (∀ b ∈ σ.outstanding.take i, ∀ e' ∈ b.outputs, e'.seqId ≠ e.seqId) then
        some (.ok (σ.handleOutput cfg i
          ⟨e :: others, isPrefillBatch, lastForwardMode, layerwiseNeedUpdate, queue⟩ e others
          sample))
      else none
    | _ => none
  | .finish i =>
    match σ.outstanding[i]? with
    | some b => if b.outputs = [] then some (.ok (σ.finishBatch i b)) else none
    | none => none

end EngineState

/-- A step under a condition on the step and the state before it. -/
def EngineStep (cfg : SchedulerConfig) (limit : Nat)
    (P : EngineState HashValue → EngineOp HashValue → Prop) (σ σ' : EngineState HashValue) : Prop :=
  ∃ op, P σ op ∧ σ.exec cfg limit op = some (.ok σ')

/-- The states of runs all of whose steps meet the condition. -/
def EngineRun (cfg : SchedulerConfig) (limit : Nat)
    (P : EngineState HashValue → EngineOp HashValue → Prop) (σ : EngineState HashValue) : Prop :=
  Relation.ReflTransGen (EngineStep cfg limit P) .init σ

end MindieLLM
