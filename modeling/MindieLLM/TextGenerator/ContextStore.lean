import MindieLLM.Program.MapValues
import MindieLLM.Program.Reaches
import MindieLLM.Program.Wp
import MindieLLM.TextGenerator.SlotContext

/-!
# The context store of the text generator

A sequence gets a slot when it is prefilled, or when it is forked from another. It loses the slot
when it finishes or is aborted. With asynchronous inference a batch with the sequence may still be
in flight: the slot of an aborted sequence waits in a list until the next batch is done, and that of
a finished one is flagged and released a batch later.

## Main definitions

* `TGInferContextStore`: the map from sequences to slots, with the arrays
* `ContextStore.getBatchContextHandles`, `ContextStore.forkContext`,
  `ContextStore.clearContextBySeqIds`, `ContextStore.clearFinishedContext`,
  `ContextStore.clearAbortedContext`, `ContextStore.resetAllContext`: the operations
* `ContextStore.step`: an operation, and the state it leaves behind, whether or not it raises
-/

namespace MindieLLM

open Program

structure TGInferContextStore where
  sequenceContextSlotMap : AList fun _ : Int => SlotIdx
  allNdarrayContext : NdarrayContext
  abortedContextHandles : List SlotIdx

abbrev ContextM := EStateM PyError TGInferContextStore

namespace ContextStore

variable (cfg : BatchContextConfig)

def init : TGInferContextStore where
  sequenceContextSlotMap := ∅
  allNdarrayContext := .init cfg cfg.cacheConfig.cacheSize
  abortedContextHandles := []

def modifyArrays (f : NdarrayContext → NdarrayContext) : ContextM PUnit :=
  modify fun s => { s with allNdarrayContext := f s.allNdarrayContext }

/-! ## Slots -/

/-- The arrays of sequence parallelism cannot grow: `self.pad_rank_id` does not exist. -/
def growCapacity : ContextM PUnit := do
  modifyArrays (NdarrayContext.grow cfg)
  if 1 < cfg.spcpParallelInfo.scpSize then throw .attributeError

def popPool : ContextM SlotIdx := do
  match (← get).allNdarrayContext.pool with
  | [] => throw .indexError
  | slot :: pool =>
    modifyArrays fun c => { c with pool := pool }
    return slot

def allocateSlot : ContextM SlotIdx := do
  if (← get).allNdarrayContext.pool = [] then growCapacity cfg
  popPool

def allocateContextSlot (sequenceId : Int) : ContextM SlotIdx := do
  let contextSlot ← allocateSlot cfg
  modify fun s =>
    { s with sequenceContextSlotMap := s.sequenceContextSlotMap.insert sequenceId contextSlot }
  return contextSlot

def getContextSlot (sequenceId : Int) (isPrefill : Bool) : ContextM SlotIdx := do
  match (← get).sequenceContextSlotMap.lookup sequenceId with
  | some slot => return slot
  | none =>
    if !isPrefill then
      throw (.runtimeError s!"The sequence {sequenceId} is not prefilled before decoding.")
    allocateContextSlot cfg sequenceId

def popContextHandles (sequenceIds : List Int) : ContextM (List SlotIdx) := do
  let popped := popAll (← get).sequenceContextSlotMap sequenceIds
  modify fun s => { s with sequenceContextSlotMap := popped.1 }
  return popped.2

/-- Slots go back to the pool before their rows are written, which fails for a handle that is out of
range. -/
def clearContextByHandles (handles : List SlotIdx) : ContextM PUnit := do
  modifyArrays fun c => handles.foldl (NdarrayContext.freeSlot cfg) c
  let capacity := (← get).allNdarrayContext.capacity
  if ∃ h ∈ handles, capacity ≤ h then
    throw .indexError
  modifyArrays fun c => c.clearRows cfg handles

/-- The sequences with one of the slots. The slots of aborted sequences are not found. -/
def filterFinishedContext (map : AList fun _ : Int => SlotIdx) (handles : List SlotIdx) :
    List Int × List SlotIdx :=
  let found := map.entries.filter fun p => p.2 ∈ handles
  (found.map Sigma.fst,
    if handles.length ≠ found.length then found.map Sigma.snd else handles)

/-! ## The operations of the store -/

/-- The handles of a batch, by its sequences. -/
def getBatchContextHandles (isDummyBatch isPrefill : Bool) (sequenceIds : List Int) :
    ContextM (List SlotIdx) :=
  if isDummyBatch then return List.replicate sequenceIds.length 0
  else sequenceIds.mapM fun id =>
    if id = InputMetadata.simulateSequenceId then return 0 else getContextSlot cfg id isPrefill

def raiseFrom {α : Type} (message : String) (c : ContextM α) : ContextM α := fun s =>
  match c s with
  | .ok a s' => .ok a s'
  | .error _ s' => .error (.runtimeError message) s'

/-- The slot of a sequence that goes on, or of a new child, which is allocated as if it were
prefilled, and the slot of its parent. Padding has neither. -/
def forkOne (sequenceId parentSequenceId : Int) :
    ContextM (Option SlotIdx × Option (SlotIdx × SlotIdx)) := do
  if sequenceId = -1 then
    return (none, none)
  let handle ← raiseFrom s!"Failed to get or create context for sequence {sequenceId}"
    (getContextSlot cfg sequenceId true)
  if sequenceId = parentSequenceId then
    return (some handle, none)
  let parentHandle ← raiseFrom
    s!"Cannot fork context for sequence {sequenceId}: parent {parentSequenceId} has no context."
    (getContextSlot cfg parentSequenceId false)
  return (some handle, some (handle, parentHandle))

def forkContext (sequences : List (Int × Int)) : ContextM (List (Option SlotIdx)) := do
  let forked ← sequences.mapM fun p => forkOne cfg p.1 p.2
  let pairs := forked.filterMap Prod.snd
  modifyArrays fun c => { c with slots := NdarrayContext.forkSlots cfg pairs c.slots }
  return forked.map Prod.fst

/-- For aborted sequences. -/
def clearContextBySeqIds (sequenceIds : List Int) : ContextM PUnit := do
  let contextHandles ← popContextHandles sequenceIds
  let contextHandles := contextHandles.filter (· ≠ 0)
  if cfg.contextParams.asyncInfer then
    modify fun s =>
      { s with abortedContextHandles := s.abortedContextHandles ++ contextHandles }
  else clearContextByHandles cfg contextHandles

def clearAbortedContext : ContextM PUnit := do
  let handles := (← get).abortedContextHandles
  if handles ≠ [] then
    modify fun s => { s with abortedContextHandles := [] }
    clearContextByHandles cfg handles
    modifyArrays fun c => c.setFlags handles (handles.map fun _ => false)

/-- Which sequences of a batch that is done, and which slots, are to be cleared. -/
def toClear (s : TGInferContextStore) (finished : List (Int × SlotIdx)) :
    List Int × List SlotIdx :=
  let nonVirtual := finished.filter fun p => p.2 ≠ 0
  if cfg.contextParams.asyncInfer then
    if cfg.contextParams.layerwiseDisaggregated then
      let lastEnd := nonVirtual.filter fun p => s.allNdarrayContext.pendingCleanupFlags p.2
      (lastEnd.map Prod.fst, lastEnd.map Prod.snd)
    else
      -- those that finished in the last round
      filterFinishedContext s.sequenceContextSlotMap
        ((List.range s.allNdarrayContext.capacity).filter s.allNdarrayContext.pendingCleanupFlags)
  else (nonVirtual.map Prod.fst, nonVirtual.map Prod.snd)

/-- The flags after a round: a handle that was not flagged is, and the other way round. -/
def reverseFlags (handles : List SlotIdx) (c : NdarrayContext) : NdarrayContext :=
  if handles = [] then { c with pendingCleanupFlags := fun _ => false }
  else
    let cur := handles.map fun h => !c.pendingCleanupFlags h
    let c :=
      if cfg.contextParams.layerwiseDisaggregated then c
      else { c with pendingCleanupFlags := fun _ => false }
    c.setFlags handles cur

def clearFinishedContext (finished : List (Int × SlotIdx)) : ContextM (List Int) := do
  let s ← get
  let handles := finished.map Prod.snd
  if cfg.contextParams.asyncInfer then
    if ∃ h ∈ handles, s.allNdarrayContext.capacity ≤ h then
      throw .indexError
    modifyArrays (reverseFlags cfg handles)
  let cleared := toClear cfg s finished
  let _ ← popContextHandles cleared.1
  clearContextByHandles cfg cleared.2
  return cleared.1

/-- For the command to recover. -/
def resetAllContext : ContextM PUnit := do
  let c := (← get).allNdarrayContext
  clearContextByHandles cfg (List.range' 1 (c.capacity - 1))
  modify fun s =>
    { s with
      sequenceContextSlotMap := ∅
      allNdarrayContext :=
        { s.allNdarrayContext with
          pendingCleanupFlags := fun h =>
            if cfg.contextParams.asyncInfer then false
            else s.allNdarrayContext.pendingCleanupFlags h
          slots := fun h => (s.allNdarrayContext.slots h).clearDict }
      abortedContextHandles := [] }

/-! ## Runs -/

/-- A call, or a write to the rows of a slot. -/
inductive Op
  | getBatchContextHandles (isDummyBatch isPrefill : Bool) (sequenceIds : List Int)
  | forkContext (sequences : List (Int × Int))
  | clearContextBySeqIds (sequenceIds : List Int)
  | clearFinishedContext (finished : List (Int × SlotIdx))
  | clearAbortedContext
  | resetAllContext
  | write (handle : SlotIdx) (f : SlotContext → SlotContext)

/-- The state after a call that returns or raises. -/
def after {α : Type} (c : ContextM α) (s : TGInferContextStore) : TGInferContextStore :=
  match c s with
  | .ok _ s' => s'
  | .error _ s' => s'

def writeSlot (handle : SlotIdx) (f : SlotContext → SlotContext) : ContextM PUnit :=
  modifyArrays fun c =>
    { c with slots := Function.update c.slots handle (f (c.slots handle)) }

def step (s : TGInferContextStore) : Op → Option TGInferContextStore
  | .getBatchContextHandles isDummyBatch isPrefill sequenceIds =>
    some (after (getBatchContextHandles cfg isDummyBatch isPrefill sequenceIds) s)
  | .forkContext sequences => some (after (forkContext cfg sequences) s)
  | .clearContextBySeqIds sequenceIds => some (after (clearContextBySeqIds cfg sequenceIds) s)
  | .clearFinishedContext finished => some (after (clearFinishedContext cfg finished) s)
  | .clearAbortedContext => some (after (clearAbortedContext cfg) s)
  | .resetAllContext => some (after (resetAllContext cfg) s)
  | .write handle f => some (after (writeSlot handle f) s)

end ContextStore

end MindieLLM
