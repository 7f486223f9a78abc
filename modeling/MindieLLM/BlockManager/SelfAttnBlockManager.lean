import MindieLLM.BlockManager.BlockTable
import MindieLLM.Dataclass.Sequence

/-!
# The self-attention block manager

The manager keeps a block table for every sequence that has blocks, and two trackers: how many
tokens of a sequence were cached when it was scheduled, and when a sequence was last accessed.

## Main definitions

* `SelfAttnBlockManager`, `SelfAttnBlockManager.new`: the manager and its constructor
* `canAllocate`, `allocate`, `canAppendSlot`, `appendSlot`, `canAppendSlotNew`, `appendSlotNew`,
  `free`, `fork`, `swapIn`, `swapOut`, `replaceTrailingPlaceHolder`: the operations on sequences
* `getCachedTokensNum`, `removeSeq`, `updateSeqBlocksLastAccess`: the trackers
-/

namespace MindieLLM

open Program

variable {HashValue A : Type}

structure BlockManagerConfig where
  cacheBlockSize : Nat
  cpuBlockNum : Nat
  npuBlockNum : Nat
  reservedBlockNum : Nat
  speculativeSlots : Nat
  rankSize : Nat := 1
  hostSize : Nat := 1

/-- The maps are those of the manager and of its two trackers. Caching is on or off with the type
`A` of the allocators. -/
structure SelfAttnBlockManager (HashValue A : Type) where
  blockSize : Nat
  npuBlockNum : Nat
  reservedBlockNum : Nat
  speculativeSlots : Nat
  rankSize : Nat
  seqId2BlockTable : SequenceId → Option BlockTable
  world : World HashValue (CpuNpuBlockAllocator A)
  seqIdToNumComputedTokens : SequenceId × Nat → Option Nat
  seqIdToLastAccessTime : SequenceId → Option TimeStamp

namespace SelfAttnBlockManager

abbrev ManagerM (HashValue A : Type) := EStateM Exn (SelfAttnBlockManager HashValue A)

/-- The constructor. The number of hosts of the configuration does not reach the allocators. -/
def new [PrefixHasher HashValue] [BlockAllocator HashValue A] (config : BlockManagerConfig) :
    Except Exn (SelfAttnBlockManager HashValue A) := do
  if config.reservedBlockNum > config.npuBlockNum then
    throw (.invalidArgument "The num of reserved block is larger than npu block num")
  if config.rankSize = 0 ∨ config.hostSize = 0 then
    throw (.invalidArgument "The rank and host size must be greater than 0")
  let world ← CpuNpuBlockAllocator.new {
    numCpuBlocks := config.cpuBlockNum
    numNpuBlocks := config.npuBlockNum - config.reservedBlockNum
    blockSize := config.cacheBlockSize
    rankSize := config.rankSize }
  return {
    blockSize := config.cacheBlockSize
    npuBlockNum := config.npuBlockNum
    reservedBlockNum := config.reservedBlockNum
    speculativeSlots := config.speculativeSlots
    rankSize := config.rankSize
    seqId2BlockTable := fun _ => none
    world := world
    seqIdToNumComputedTokens := fun _ => none
    seqIdToLastAccessTime := fun _ => none }

def worldLens :
    Lens (SelfAttnBlockManager HashValue A) (World HashValue (CpuNpuBlockAllocator A)) where
  get s := s.world
  put w s := { s with world := w }
  get_put _ _ := rfl
  put_get _ := rfl
  put_put _ _ _ := rfl

@[simp]
theorem worldLens_get (s : SelfAttnBlockManager HashValue A) : worldLens.get s = s.world := rfl

@[simp]
theorem worldLens_put (w : World HashValue (CpuNpuBlockAllocator A))
    (s : SelfAttnBlockManager HashValue A) : worldLens.put w s = { s with world := w } := rfl

/-- An operation of the allocators. -/
abbrev onWorld {α : Type} (c : CpuNpuBlockAllocator.DeviceM HashValue A α) :
    ManagerM HashValue A α :=
  zoom worldLens c

def setTable (s : SelfAttnBlockManager HashValue A) (seqId : SequenceId) (t : Option BlockTable) :
    SelfAttnBlockManager HashValue A :=
  { s with seqId2BlockTable := Function.update s.seqId2BlockTable seqId t }

/-- An operation of a table that is a local variable; the table is returned. -/
def onLocalTable (t : BlockTable) {α : Type} (c : BlockTable.TableM HashValue A α) :
    ManagerM HashValue A (α × BlockTable) := fun s =>
  match c ⟨t, s.world⟩ with
  | .ok a v => .ok (a, v.table) { s with world := v.world }
  | .error e v => .error e { s with world := v.world }

/-- An operation of the table that the map holds for a sequence. -/
def onTable (seqId : SequenceId) {α : Type} (c : BlockTable.TableM HashValue A α) :
    ManagerM HashValue A α := fun s =>
  match s.seqId2BlockTable seqId with
  | none => .error (.outOfRange "unordered_map::at") s
  | some t =>
    match c ⟨t, s.world⟩ with
    | .ok a v => .ok a { s.setTable seqId (some v.table) with world := v.world }
    | .error e v => .error e { s.setTable seqId (some v.table) with world := v.world }

def ofExcept {α : Type} : Except Exn α → ManagerM HashValue A α
  | .ok a => return a
  | .error e => throw e

/-! ## The block lists of a sequence -/

/-- The objects of the blocks of a sequence. -/
def getBlocks (seqId : SequenceId) : ManagerM HashValue A (List (BlockObj HashValue)) :=
  onTable seqId do (← get).table.getBlockObjs.mapM BlockTable.loadBlock

/-- Sort values of the blocks of a sequence by rank. -/
def byRank {α : Type} (seqId : SequenceId) (f : BlockObj HashValue → α) :
    ManagerM HashValue A (List (List α)) := do
  let objs ← getBlocks seqId
  let rankSize := (← get).rankSize
  if objs.any fun o => rankSize ≤ o.rankIdx then
    throw (.undefinedBehavior "index of a vector")
  return (List.range rankSize).map fun r => (objs.filter (·.rankIdx = r)).map f

def getRankedBlockIds (seqId : SequenceId) : ManagerM HashValue A (List (List BlockId)) :=
  byRank seqId (·.blockId)

def getTokenCountPerRank (seqId : SequenceId) : ManagerM HashValue A (List Nat) := do
  let counts ← byRank seqId (·.tokenIds.length)
  return counts.map List.sum

section

variable [BlockAllocator HashValue A]

def getRankedHashValues (seqId : SequenceId) : ManagerM HashValue A (List (List HashValue)) :=
  byRank seqId (BlockAllocator.getHashValue A)

/-! ## The trackers -/

/-- `SeqsLastAccessBlocksTracker::AddSeq` -/
def addSeq (seqId : SequenceId) : ManagerM HashValue A Unit := do
  let s ← get
  if (s.seqIdToLastAccessTime seqId).isSome then
    throw (.runtimeError
      "seqId is already recorded the last access time table, add seqId fail!")
  set { s with
    seqIdToLastAccessTime := Function.update s.seqIdToLastAccessTime seqId (some (-1)) }

/-- `SeqsLastAccessBlocksTracker::RemoveSeq` -/
def removeLastAccess (seqId : SequenceId) : ManagerM HashValue A Unit := do
  let s ← get
  if (s.seqIdToLastAccessTime seqId).isNone then
    throw (.runtimeError
      "seqId is not recorded the last access time table, cannot remove seqId!")
  set { s with seqIdToLastAccessTime := Function.update s.seqIdToLastAccessTime seqId none }

def updateSeqLastAccess (seqId : SequenceId) (time : TimeStamp) : ManagerM HashValue A Unit := do
  let s ← get
  if (s.seqIdToLastAccessTime seqId).isNone then
    throw (.runtimeError ("seqId is not recorded the last access time table, " ++
      "cannot update last access time to seqId!"))
  set { s with
    seqIdToLastAccessTime := Function.update s.seqIdToLastAccessTime seqId (some time) }

def updateSeqBlocksLastAccess (seqId : SequenceId) (rankedBlockIds : List (List BlockId)) :
    ManagerM HashValue A Unit := do
  match (← get).seqIdToLastAccessTime seqId with
  | none => throw (.runtimeError ("seqId is not recorded the last access time table, " ++
      "cannot update last access time to blocks of seqId!"))
  | some lastAccessTime =>
    forM rankedBlockIds.zipIdx fun (blockIds, rankId) =>
      onWorld (CpuNpuBlockAllocator.markBlocksAsAccessed rankId blockIds lastAccessTime)

def recordComputedTokens (seqId : SequenceId) (rankIdx : Nat) (n : Option Nat) :
    ManagerM HashValue A Unit :=
  modify fun s => { s with
    seqIdToNumComputedTokens := Function.update s.seqIdToNumComputedTokens (seqId, rankIdx) n }

/-- `SeqsBlocksComputedTracker::GetCachedTokensNum` of the blocks of a rank. -/
def getCachedTokensNum (seq : Sequence HashValue) (rankIdx : Nat) (blockHashes : List HashValue)
    (seqPrefillFlag : Bool) : ManagerM HashValue A Nat := do
  if !BlockAllocator.enableCaching A then
    return 0
  let s ← get
  match seqPrefillFlag, s.seqIdToNumComputedTokens (seq.seqId, rankIdx) with
  | true, some n => return n
  | _, _ =>
    let numCachedTokens ←
      if seq.numComputedTokens = 0 then do
        let cachedBlocks ← onWorld (CpuNpuBlockAllocator.findCachedBlocksPrefix rankIdx blockHashes)
        pure (cachedBlocks.length * s.blockSize)
      else pure 0
    recordComputedTokens seq.seqId rankIdx (some numCachedTokens)
    return numCachedTokens

/-- `SeqsBlocksComputedTracker::RemoveSeq` -/
def removeSeq (seqId : SequenceId) : ManagerM HashValue A Unit := do
  if !BlockAllocator.enableCaching A ∨ seqId = simulateSequenceId then
    return
  forM (List.range (← get).rankSize) fun rankIdx => do
    if ((← get).seqIdToNumComputedTokens (seqId, rankIdx)).isNone then
      throw (.runtimeError ("seqId is not recorded in the number of computed tokens table, " ++
        "cannot remove seqId!"))
    recordComputedTokens seqId rankIdx none

/-! ## Allocation -/

/-- `GetNumRequiredBlocks` -/
def getNumRequiredBlocks (seqLen blockSize : Nat) : ManagerM HashValue A Nat := do
  if blockSize = 0 then
    throw (.runtimeError "the blockSize should not be zero")
  let num := (seqLen + blockSize - 1) / blockSize
  return if (← get).rankSize > 1 then num + 1 else num

def canAllocate (seqGroup : SequenceGroup HashValue) : ManagerM HashValue A AllocStatus := do
  match seqGroup.getFirstSequence .waiting with
  | [] => return .never
  | seq :: _ =>
    let s ← get
    let numRequiredBlocks ← getNumRequiredBlocks seq.getTokenIds.length s.blockSize
    let numFreeNpuBlocks ← onWorld (CpuNpuBlockAllocator.getNumFreeBlock .npu)
    if s.reservedBlockNum > s.npuBlockNum then
      throw (.runtimeError "The num of reserved block is larger than npu block num")
    if s.npuBlockNum * s.rankSize - s.reservedBlockNum < numRequiredBlocks then
      return .never
    else if numFreeNpuBlocks ≥ numRequiredBlocks then
      return .ok
    else
      return .later

/-- The loop of `Allocate` over the other sequences of the group, which fork the table of the
first. -/
def forkTables (t : BlockTable) : List (Sequence HashValue) → ManagerM HashValue A Unit
  | [] => return
  | seq :: rest => do
    let (forked, t) ← onLocalTable t BlockTable.fork
    modify fun s => s.setTable seq.seqId (some forked)
    addSeq seq.seqId
    forkTables t rest

def allocate (seqGroup : SequenceGroup HashValue) : ManagerM HashValue A Bool := do
  let waitingSeqs := seqGroup.getFirstSequence .waiting
  match waitingSeqs with
  | [] => return false
  | sequence :: others =>
    let s ← get
    if waitingSeqs.any fun seq => (s.seqId2BlockTable seq.seqId).isSome then
      return false
    let blockTable ← ofExcept (BlockTable.new s.blockSize s.rankSize)
    let tokenIds := sequence.getTokenIds
    if tokenIds.isEmpty then
      return false
    let (_, blockTable) ← onLocalTable blockTable
      (if s.rankSize = 1 then BlockTable.allocate tokenIds .npu sequence.getExtraHash
        else BlockTable.allocateSmallRankFirst tokenIds .npu sequence.getExtraHash)
    modify fun s => s.setTable sequence.seqId (some blockTable)
    addSeq sequence.seqId
    forkTables blockTable others
    return true

/-! ## Appending -/

/-- The estimates of `CanAppendSlot`, summed up; none if a sequence has no table. -/
def sumRelatedBlocks : List (Sequence HashValue) → ManagerM HashValue A (Option Nat)
  | [] => return some 0
  | seq :: rest => do
    let s ← get
    match s.seqId2BlockTable seq.seqId with
    | none => return none
    | some t =>
      let newTokenIds ← ofExcept (t.getNewGenTokenIds seq.getTokenIds)
      match ← sumRelatedBlocks rest with
      | none => return none
      | some n => return some (t.getNumRelatedBlocks newTokenIds.length s.speculativeSlots + n)

def canAppendSlot (seqGroup : SequenceGroup HashValue) : ManagerM HashValue A Bool := do
  match ← sumRelatedBlocks (seqGroup.getSequences .running) with
  | none => return false
  | some numRelatedBlocks =>
    let numFreeNpuBlocks ← onWorld (CpuNpuBlockAllocator.getNumFreeBlock .npu)
    return numRelatedBlocks ≤ numFreeNpuBlocks

def appendSlot (sequence : Sequence HashValue) :
    ManagerM HashValue A (List (BlockId × BlockId)) := do
  let s ← get
  if s.rankSize > 1 then
    throw (.runtimeError "throw not supported exception.")
  onTable sequence.seqId do
    let newTokenIds ← BlockTable.ofTable fun t => t.getNewGenTokenIds sequence.getTokenIds
    BlockTable.appendTokenIds newTokenIds sequence.getExtraHash s.speculativeSlots
  onWorld CpuNpuBlockAllocator.clearCopyOnWrites

/-- The tokens of a sequence that come after those in its blocks. -/
def getAppendTokenIds (sequence : Sequence HashValue) : ManagerM HashValue A (List TokenId) := do
  let numFullSlotsPerRank ← getTokenCountPerRank sequence.seqId
  if sequence.getTokenIds.length < numFullSlotsPerRank.sum then
    throw (.undefinedBehavior "range of a vector")
  return sequence.getTokenIds.drop numFullSlotsPerRank.sum

def canAppendSlotNew (seqGroup : SequenceGroup HashValue) : ManagerM HashValue A Bool := do
  match seqGroup.getFirstSequence .running with
  | [] => return false
  | sequence :: _ =>
    let appendTokenIds ← getAppendTokenIds sequence
    let speculativeSlots := (← get).speculativeSlots
    onTable sequence.seqId (BlockTable.canAppendNewTokens appendTokenIds speculativeSlots)

def appendSlotNew (seqGroup : SequenceGroup HashValue) : ManagerM HashValue A Unit := do
  match seqGroup.getFirstSequence .running with
  | [] => return
  | sequence :: _ =>
    let appendTokenIds ← getAppendTokenIds sequence
    let speculativeSlots := (← get).speculativeSlots
    onTable sequence.seqId
      (BlockTable.appendNewTokens appendTokenIds sequence.getExtraHash speculativeSlots)

/-- A sequence without a table would get one that was never constructed. -/
def appendTokenToLatestRank (seqId : SequenceId) (tokens : List TokenId) :
    ManagerM HashValue A Unit := do
  if ((← get).seqId2BlockTable seqId).isNone then
    throw (.undefinedBehavior "block table without a constructor")
  onTable seqId do
    let spRank := (← get).table.currentSpRank
    BlockTable.appendToSpRank spRank tokens

/-! ## Free, fork, swap -/

def free (seqId : SequenceId) : ManagerM HashValue A Unit := do
  if ((← get).seqId2BlockTable seqId).isNone then
    return
  let rankedBlockIds ← getRankedBlockIds seqId
  updateSeqBlocksLastAccess seqId rankedBlockIds
  removeLastAccess seqId
  removeSeq seqId
  onTable seqId BlockTable.free
  modify fun s => s.setTable seqId none

/-- `Fork` copies the table of the parent, with its pointers to the block objects. -/
def fork (parentSeq childSeq : Sequence HashValue) : ManagerM HashValue A Unit := do
  match (← get).seqId2BlockTable parentSeq.seqId with
  | none => throw (.runtimeError
      "SequenceId not found in seqId2BlockTable_ When Fork sequence")
  | some t =>
    modify fun s => s.setTable childSeq.seqId (some t)
    addSeq childSeq.seqId

/-- The loop of `SwapIn` and `SwapOut` over the sequences of a group. -/
def swapSeqs (srcDevice dstDevice : DeviceType) :
    List (Sequence HashValue) → ManagerM HashValue A (List (BlockId × BlockId))
  | [] => return []
  | seq :: rest => do
    let seqSwapMapping ← onTable seq.seqId do
      let blocks := (← get).table.getBlockObjs
      let mapping ← BlockTable.onWorld (CpuNpuBlockAllocator.swap blocks srcDevice dstDevice)
      BlockTable.update blocks
      pure mapping
    let alloc := (← get).world.alloc
    let physical := seqSwapMapping.map fun (src, dst) =>
      (alloc.getPhysicalBlockId src, alloc.getPhysicalBlockId dst)
    return physical ++ (← swapSeqs srcDevice dstDevice rest)

/-- `CanSwap`; a sequence without a table is an error of the map. -/
def canSwap (dstDevice : DeviceType) (status : SequenceStatus) (numLookaheads : Nat)
    (seqGroup : SequenceGroup HashValue) : ManagerM HashValue A AllocStatus := do
  let s ← get
  let seqs := seqGroup.getFirstSequence status
  if seqs.any fun seq => (s.seqId2BlockTable seq.seqId).isNone then
    throw (.outOfRange "unordered_map::at")
  let numRelatedBlocks :=
    (seqs.map fun seq => BlockTable.ceilDiv (seq.getLen + numLookaheads) s.blockSize).sum
  let numTotalBlocks ← onWorld (CpuNpuBlockAllocator.getNumTotalBlocks dstDevice)
  let numFreeBlocks ← onWorld (CpuNpuBlockAllocator.getNumFreeBlock dstDevice)
  if numRelatedBlocks > numTotalBlocks then
    return .never
  else if numFreeBlocks ≥ numRelatedBlocks then
    return .ok
  else
    return .later

def canSwapIn (seqGroup : SequenceGroup HashValue) (numLookheadSlots : Nat) :
    ManagerM HashValue A AllocStatus :=
  canSwap .npu .swapped numLookheadSlots seqGroup

def canSwapOut (seqGroup : SequenceGroup HashValue) : ManagerM HashValue A Bool := do
  return (← canSwap .cpu .running 0 seqGroup) = .ok

def swapIn (seqGroup : SequenceGroup HashValue) : ManagerM HashValue A (List (BlockId × BlockId)) :=
  swapSeqs .cpu .npu (seqGroup.getFirstSequence .swapped)

def swapOut (seqGroup : SequenceGroup HashValue) :
    ManagerM HashValue A (List (BlockId × BlockId)) :=
  swapSeqs .npu .cpu (seqGroup.getFirstSequence .running)

/-- `ReplaceTrailingPlaceHolder` does nothing when there are several ranks. -/
def replaceTrailingPlaceHolder (seq : Sequence HashValue)
    (trailingPlaceHolderNum replacedPlaceHolderNum : Nat) : ManagerM HashValue A Unit := do
  if (← get).rankSize ≠ 1 then
    return
  let allTokenIds := seq.getTokenIds
  if trailingPlaceHolderNum < replacedPlaceHolderNum ∨
      allTokenIds.length < trailingPlaceHolderNum then
    throw (.runtimeError "tokenIds size is less than replacement size")
  let newTokenIds :=
    (allTokenIds.drop (allTokenIds.length - trailingPlaceHolderNum)).take replacedPlaceHolderNum
  onTable seq.seqId
    (BlockTable.replaceTrailingPlaceHolder newTokenIds trailingPlaceHolderNum
      replacedPlaceHolderNum 0)

/-! ## Accesses, marks, and cached tokens -/

def accessAllblocksInSeq (seq : Sequence HashValue) (accessTime : TimeStamp) :
    ManagerM HashValue A Unit := do
  if BlockAllocator.enableCaching A then
    updateSeqLastAccess seq.seqId accessTime

def markBlocksAsComputed : ManagerM HashValue A Unit :=
  onWorld CpuNpuBlockAllocator.markBlocksAsComputed

/-- `GetNumCachedTokens`: summed up over the ranks. -/
def getNumCachedTokens (seq : Sequence HashValue) : ManagerM HashValue A Nat := do
  let rankedHashValues ← getRankedHashValues seq.seqId
  let counts ← rankedHashValues.zipIdx.mapM fun (blockHashes, rankIdx) =>
    getCachedTokensNum seq rankIdx blockHashes seq.isPrefill
  return counts.sum

/-- `GetBlockIds`: the blocks of all ranks are in one list. -/
def getBlockIds (seqId : SequenceId) : ManagerM HashValue A (List (List BlockId)) := do
  match (← get).seqId2BlockTable seqId with
  | none => throw (.outOfRange "unordered_map::at")
  | some t => return [t.blockIds]

/-- The blocks that are computed of one sequence, as `GetCommonComputedBlockIds` collects them. -/
def computedBlockIds (seq : Sequence HashValue) : ManagerM HashValue A (List BlockId) := do
  let allBlocks := (← getBlockIds seq.seqId).flatten
  let numCachedTokens ← getNumCachedTokens seq
  let blockSize := (← get).blockSize
  if numCachedTokens % blockSize ≠ 0 then
    throw (.runtimeError "The number of cached tokens is not a multiple of block size.")
  if allBlocks.length < numCachedTokens / blockSize then
    throw (.undefinedBehavior "range of a vector")
  return allBlocks.take (numCachedTokens / blockSize)

def getCommonComputedBlockIds (seqs : List (Sequence HashValue)) :
    ManagerM HashValue A (List BlockId) := do
  let computedSeqBlockIds ← seqs.mapM computedBlockIds
  onWorld (CpuNpuBlockAllocator.getCommonComputedBlockIds computedSeqBlockIds)

/-- How many of the first of these blocks are cached; each is looked up on the rank after that of
the block before it. -/
def countCachedBlocks [PrefixHasher HashValue] (extraHash : HashValue) (rankSize : Nat) :
    Option HashValue → Nat → List (List TokenId) → ManagerM HashValue A Nat
  | _, _, [] => return 0
  | prevBlockHash, rankIdx, blockTokenIds :: blocks => do
    let blockHash := PrefixHasher.prefixHash prevBlockHash blockTokenIds extraHash
    if ← onWorld (CpuNpuBlockAllocator.findCachedBlockPrefix rankIdx blockHash) then
      return 1 + (← countCachedBlocks extraHash rankSize (some blockHash)
        ((rankIdx + 1) % rankSize) blocks)
    else
      return 0

/-- `GetSeqNumCachedTokens`, the count of the tracker that a schedule is made with: that of the
first chunk is found by hashing the tokens, that of later ones has been recorded. -/
def getSeqNumCachedTokens [PrefixHasher HashValue] (seq : Sequence HashValue) :
    ManagerM HashValue A Nat := do
  if !BlockAllocator.enableCaching A ∨ !seq.isPrefill then
    return 0
  let s ← get
  if seq.numComputedTokens ≠ 0 then
    return ((List.range s.rankSize).map fun rankIdx =>
      (s.seqIdToNumComputedTokens (seq.seqId, rankIdx)).getD 0).sum
  if s.blockSize = 0 then
    throw (.undefinedBehavior "division by zero")
  let tokenIds := seq.getTokenIds
  let blocks := (List.range (tokenIds.length / s.blockSize)).map fun blockIdx =>
    (tokenIds.drop (blockIdx * s.blockSize)).take s.blockSize
  return (← countCachedBlocks seq.getExtraHash s.rankSize none 0 blocks) * s.blockSize

def getNumFreeNpuBlocks : ManagerM HashValue A Nat :=
  onWorld (CpuNpuBlockAllocator.getNumFreeBlock .npu)

def resetPrefixCache : ManagerM HashValue A Bool := onWorld CpuNpuBlockAllocator.resetPrefixCache

end

end SelfAttnBlockManager

/-! ## The layer-wise manager -/

/-- `LwdSelfAttnBlockManager`: the manager of the edge and, once initialised, that of the cloud. -/
structure LwdSelfAttnBlockManager (HashValue A : Type) where
  edge : SelfAttnBlockManager HashValue A
  cloud : Option (SelfAttnBlockManager HashValue A)

end MindieLLM
