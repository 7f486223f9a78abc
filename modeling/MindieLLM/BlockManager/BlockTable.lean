import MindieLLM.BlockManager.CpuNpuBlockAllocator

/-!
# Block tables

A block table lists the blocks of one sequence, rank by rank, and counts the slots filled on each
rank. With one rank the tokens run through its blocks. With several ranks the prompt is spread
over them from the smallest rank on, and new tokens go to one rank after the other.

## Main definitions

* `BlockTable`, `TableWorld`: a block table, and a block table with the allocators it uses
* `allocate`, `allocateSmallRankFirst`: blocks for the tokens of a prompt
* `appendTokenIds`, `canAppendNewTokens`, `appendNewTokens`, `appendToSpRank`: new tokens
* `getNumRelatedBlocks`: the estimate of how many blocks new tokens need
* `fork`, `free`, `replaceTrailingPlaceHolder`: the other operations
-/

namespace MindieLLM

open Program CpuNpuBlockAllocator

variable {HashValue A : Type}

/-- A block table. Only the ranks below `rankSize` have blocks. -/
structure BlockTable where
  blockObjs : Nat → List Ptr
  blockIds : List BlockId
  blockSize : Nat
  numFullSlotsPerRank : Nat → Nat
  rankSize : Nat
  currentSpRank : Nat
  isAppendBlock : Bool
  appendBlockRankId : Nat

/-- A block table and the allocators it takes its blocks from. -/
structure TableWorld (HashValue A : Type) where
  table : BlockTable
  world : World HashValue (CpuNpuBlockAllocator A)

namespace BlockTable

abbrev TableM (HashValue A : Type) := EStateM Exn (TableWorld HashValue A)

def worldLens : Lens (TableWorld HashValue A) (World HashValue (CpuNpuBlockAllocator A)) where
  get s := s.world
  put w s := { s with world := w }
  get_put _ _ := rfl
  put_get _ := rfl
  put_put _ _ _ := rfl

@[simp]
theorem worldLens_get (s : TableWorld HashValue A) : worldLens.get s = s.world := rfl

@[simp]
theorem worldLens_put (w : World HashValue (CpuNpuBlockAllocator A)) (s : TableWorld HashValue A) :
    worldLens.put w s = { s with world := w } := rfl

/-- An operation of the allocators. -/
abbrev onWorld {α : Type} (c : DeviceM HashValue A α) : TableM HashValue A α := zoom worldLens c

def modifyTable (f : BlockTable → BlockTable) : TableM HashValue A Unit :=
  modify fun s => { s with table := f s.table }

def loadBlock (p : Ptr) : TableM HashValue A (BlockObj HashValue) := onWorld (onMem (load p))

/-! ## Small functions -/

def ceilDiv (dividend divisor : Nat) : Nat := (dividend + divisor - 1) / divisor

/-- Cut a list into pieces of length `chunkSize`; the last one may be shorter. There are at most as
many pieces as the fuel says. -/
def chunk (chunkSize : Nat) : Nat → List TokenId → List (List TokenId)
  | 0, _ => []
  | fuel + 1, tokenIds =>
    if tokenIds.isEmpty then []
    else tokenIds.take chunkSize :: chunk chunkSize fuel (tokenIds.drop chunkSize)

def chunkTokensForAllocate (tokenIds : List TokenId) (chunkSize : Nat) :
    Except Exn (List (List TokenId)) :=
  if chunkSize = 0 then throw (.runtimeError "Chunk size cannot be zero.")
  else return chunk chunkSize tokenIds.length tokenIds

/-- The constructor of an empty table. -/
def new (blockSize rankSize : Nat) : Except Exn BlockTable :=
  if blockSize = 0 then throw (.runtimeError "blockSize can't be zero.")
  else return {
    blockObjs := fun _ => []
    blockIds := []
    blockSize := blockSize
    numFullSlotsPerRank := fun _ => 0
    rankSize := rankSize
    currentSpRank := 0
    isAppendBlock := false
    appendBlockRankId := 0 }

/-- `GetBlockObjs`: the blocks of all ranks. -/
def getBlockObjs (t : BlockTable) : List Ptr := (List.range t.rankSize).flatMap t.blockObjs

def isAllocated (t : BlockTable) : Bool := !t.getBlockObjs.isEmpty

/-- The blocks of a rank take one more. -/
def pushBlock (t : BlockTable) (rankIdx : Nat) (p : Ptr) (b : BlockId) : BlockTable :=
  { t with
    blockObjs := Function.update t.blockObjs rankIdx (t.blockObjs rankIdx ++ [p])
    blockIds := t.blockIds ++ [b] }

def addFullSlots (t : BlockTable) (rankIdx n : Nat) : BlockTable :=
  { t with
    numFullSlotsPerRank :=
      Function.update t.numFullSlotsPerRank rankIdx (t.numFullSlotsPerRank rankIdx + n) }

/-- `GetNumEmptySlots`, a difference of `size_t`. -/
def getNumEmptySlots (t : BlockTable) (rankId : Nat) : Except Exn Nat :=
  if !t.isAllocated then throw (.runtimeError "No blocks have been allocated.")
  else if rankId ≥ t.rankSize then throw (.runtimeError "Invalid rank id")
  else return ((t.blockObjs rankId).length * t.blockSize + UInt64.size -
    t.numFullSlotsPerRank rankId) % UInt64.size

/-- `GetNewGenTokenIds`: the tokens of the sequence that are not in the table yet. -/
def getNewGenTokenIds (t : BlockTable) (tokenIds : List TokenId) : Except Exn (List TokenId) :=
  if t.rankSize > 1 then throw (.runtimeError "GetNewGenTokenIds only supports single rank")
  else if tokenIds.length < t.numFullSlotsPerRank 0 then
    throw (.undefinedBehavior "range of a vector")
  else return tokenIds.drop (t.numFullSlotsPerRank 0)

/-- `GetNumRelatedBlocks`: nothing is counted for a last block that has room. -/
def getNumRelatedBlocks (t : BlockTable) (tokenIdsSize numLookaheadSlots : Nat) : Nat :=
  let numTokenIds := tokenIdsSize + numLookaheadSlots
  let numLastBlockEmptySlots := t.blockSize - t.numFullSlotsPerRank 0 % t.blockSize
  if numLastBlockEmptySlots = t.blockSize then ceilDiv numTokenIds t.blockSize
  else if numLastBlockEmptySlots ≥ numTokenIds then 0
  else ceilDiv (numTokenIds - numLastBlockEmptySlots) t.blockSize

/-- `ChunkTokensForAppend`: the first piece fills up the last block. -/
def chunkTokensForAppend (t : BlockTable) (tokenIds : List TokenId) : List (List TokenId) :=
  if tokenIds.isEmpty then []
  else
    let numLastBlockEmptySlots := t.blockSize - t.numFullSlotsPerRank 0 % t.blockSize
    tokenIds.take numLastBlockEmptySlots ::
      chunk t.blockSize tokenIds.length (tokenIds.drop numLastBlockEmptySlots)

/-- `blockIds_[i] = b`, which has no meaning out of bounds. -/
def setBlockId (i : Nat) (b : BlockId) : TableM HashValue A Unit := do
  if i ≥ (← get).table.blockIds.length then
    throw (.undefinedBehavior "index of a vector")
  modifyTable fun t => { t with blockIds := t.blockIds.set i b }

/-- Run a computation of the table that does not change it. -/
def ofTable {α : Type} (f : BlockTable → Except Exn α) : TableM HashValue A α := do
  match f (← get).table with
  | .ok a => return a
  | .error e => throw e

/-! ## Allocation -/

/-- `Update`: the table lists the given blocks, each under its rank. -/
def update (blocks : List Ptr) : TableM HashValue A Unit := do
  modifyTable fun t => { t with blockObjs := fun _ => [], blockIds := [] }
  forM blocks fun p => do
    let o ← loadBlock p
    if o.rankIdx ≥ (← get).table.rankSize then
      throw (.undefinedBehavior "index of a vector")
    modifyTable fun t => t.pushBlock o.rankIdx p o.blockId

variable [BlockAllocator HashValue A]

def allocateBlocksForTokenIds (tokenIds : List TokenId) (device : DeviceType)
    (extraHash : HashValue) : TableM HashValue A (List Ptr) := do
  let blockSize := (← get).table.blockSize
  let blockedTokenIds ← ofTable fun t => chunkTokensForAllocate tokenIds t.blockSize
  let fullTokenBlocks := blockedTokenIds.filter fun block => block.length = blockSize
  let nonFullTokenBlock :=
    ((blockedTokenIds.filter fun block => block.length ≠ blockSize).getLast?).getD []
  let newBlocks ←
    if fullTokenBlocks.isEmpty then pure []
    else onWorld (allocateImmutableBlocks device fullTokenBlocks none extraHash 0)
  if nonFullTokenBlock.isEmpty then
    return newBlocks
  let block ← onWorld
    (allocateMutableBlock device nonFullTokenBlock newBlocks.getLast? extraHash 0)
  return newBlocks ++ [block]

def allocate (tokenIds : List TokenId) (device : DeviceType) (extraHash : HashValue) :
    TableM HashValue A Unit := do
  if (← get).table.isAllocated then
    throw (.runtimeError "Blocks of this block table are already allocated.")
  let newBlockObjs ← allocateBlocksForTokenIds tokenIds device extraHash
  update newBlockObjs
  modifyTable fun t =>
    { t with numFullSlotsPerRank := Function.update t.numFullSlotsPerRank 0 tokenIds.length }

/-- The loop of `AllocateBlocksForTokenIdsSmallRankFirst`; `numNew` blocks have been allocated. A
block takes at least one token, so there is an iteration for each token at most. -/
def allocateSmallRankFirstLoop (device : DeviceType) (extraHash : HashValue) :
    Nat → List TokenId → Nat → Nat → Option Ptr → TableM HashValue A (List Ptr)
  | 0, _, _, _, _ => return []
  | fuel + 1, tokenIds, rankIdx, numNew, prevBlock => do
    if tokenIds.isEmpty then
      return []
    let { blockSize, rankSize, .. } := (← get).table
    let rankTokens := tokenIds.take blockSize
    let remaining := tokenIds.drop blockSize
    let p ←
      if rankTokens.length = blockSize then
        onWorld (allocateImmutableBlock device rankTokens prevBlock extraHash rankIdx)
      else
        onWorld (allocateMutableBlock device rankTokens prevBlock extraHash rankIdx)
    if remaining.isEmpty then
      modifyTable fun t => { t with currentSpRank := rankIdx, appendBlockRankId := rankIdx }
    -- the last block goes to the last rank once every rank has had one
    let next :=
      if remaining.length ≤ blockSize ∧ numNew + 1 ≥ rankSize then rankSize - 1
      else (rankIdx + 1) % rankSize
    let ps ← allocateSmallRankFirstLoop device extraHash fuel remaining next (numNew + 1) (some p)
    return p :: ps

def allocateSmallRankFirst (tokenIds : List TokenId) (device : DeviceType)
    (extraHash : HashValue) : TableM HashValue A Unit := do
  if (← get).table.isAllocated then
    throw (.runtimeError "Blocks of this block table are already allocated.")
  let newBlockObjs ←
    allocateSmallRankFirstLoop device extraHash tokenIds.length tokenIds 0 0 none
  update newBlockObjs
  forM newBlockObjs fun p => do
    let o ← loadBlock p
    modifyTable fun t => t.addFullSlots o.rankIdx o.tokenIds.length

/-! ## Appending with several ranks -/

def canAppendNewTokens (tokenIds : List TokenId) (numLookaheadSlots : Nat) :
    TableM HashValue A Bool := do
  let t := (← get).table
  if t.rankSize > 1 then
    let numTokenIds := tokenIds.length + numLookaheadSlots
    let numEmptySlots ← ofTable fun t => t.getNumEmptySlots t.currentSpRank
    let (nextSpRank, numEmptySlots) ←
      if (numEmptySlots = 0 ∧ numLookaheadSlots = 0) ∨
          (numLookaheadSlots ≠ 0 ∧ tokenIds.length > numEmptySlots) then do
        let nextSpRank := (t.currentSpRank + 1) % t.rankSize
        let numEmptySlots ← ofTable fun t => t.getNumEmptySlots nextSpRank
        pure (nextSpRank, numEmptySlots)
      else pure (t.currentSpRank, numEmptySlots)
    let needBlocks :=
      if numTokenIds > numEmptySlots then 1 + ceilDiv (numTokenIds - numEmptySlots) t.blockSize
      else 1
    let numFreeBlock ← onWorld (getNumFreeBlockOfRank .npu nextSpRank)
    return numFreeBlock ≥ needBlocks
  else
    throw (.runtimeError "rank size == 1 need call other function.")

/-- Allocate an empty block behind the last one of a rank of the table. -/
def growRank (rankIdx allocRank : Nat) (extraHash : HashValue) : TableM HashValue A Unit := do
  let t := (← get).table
  let p ← onWorld
    (allocateMutableBlock .npu [] (t.blockObjs rankIdx).getLast? extraHash allocRank)
  let o ← loadBlock p
  modifyTable fun t => t.pushBlock rankIdx p o.blockId

/-- The loop of `AppendToSpRank`. The tokens start at slot `slot` of the rank; each one goes to its
block by itself. -/
def appendToSpRankLoop (spRank : Nat) : Nat → List TokenId → TableM HashValue A Unit
  | _, [] => return
  | slot, token :: rest => do
    let t := (← get).table
    let blockIdx := slot / t.blockSize
    match (t.blockObjs spRank)[blockIdx]? with
    | none => throw (.runtimeError "Block index out of range")
    | some p =>
      onWorld (CpuNpuBlockAllocator.appendTokenIds p [token])
      let o ← loadBlock p
      if o.isFull then
        setBlockId blockIdx o.blockId
      appendToSpRankLoop spRank (slot + 1) rest

def appendToSpRank (spRank : Nat) (newTokenIds : List TokenId) : TableM HashValue A Unit := do
  let t := (← get).table
  appendToSpRankLoop spRank (t.numFullSlotsPerRank spRank) newTokenIds
  modifyTable fun t => t.addFullSlots spRank newTokenIds.length

/-- `AppendNewTokens` without lookahead slots: the last new token only, on the current rank or, when
that is full, on the next one. -/
def appendLastToken (newTokenIds : List TokenId) (extraHash : HashValue) :
    TableM HashValue A Unit := do
  let numEmptySlots ← ofTable fun t => t.getNumEmptySlots t.currentSpRank
  let numEmptySlots ←
    if numEmptySlots = 0 then do
      modifyTable fun t => { t with currentSpRank := (t.currentSpRank + 1) % t.rankSize }
      ofTable fun t => t.getNumEmptySlots t.currentSpRank
    else pure numEmptySlots
  let currentSpRank := (← get).table.currentSpRank
  if numEmptySlots < 1 then
    growRank currentSpRank currentSpRank extraHash
  appendToSpRank currentSpRank newTokenIds.getLast?.toList

/-- `AppendNewTokens` with lookahead slots: the placeholders are left out, blocks for all new tokens
are reserved on the next rank, and the last token starts there when the current rank is full. -/
def appendWithLookahead (newTokenIds : List TokenId) (extraHash : HashValue) :
    TableM HashValue A Unit := do
  let t := (← get).table
  let tokenIds := newTokenIds.filter (· ≠ -1)
  let numEmptySlots ← ofTable fun t => t.getNumEmptySlots t.currentSpRank
  modifyTable fun t => { t with isAppendBlock := false }
  let nextSpRank :=
    if newTokenIds.length > numEmptySlots then (t.currentSpRank + 1) % t.rankSize
    else t.currentSpRank
  if newTokenIds.length > numEmptySlots then
    let reservedSlots := newTokenIds.length - numEmptySlots
    let nextRankEmptySlots ← ofTable fun t => t.getNumEmptySlots nextSpRank
    if nextRankEmptySlots < reservedSlots then
      forM (List.range (ceilDiv reservedSlots t.blockSize)) fun _ =>
        growRank nextSpRank nextSpRank extraHash
      modifyTable fun t => { t with isAppendBlock := true, appendBlockRankId := nextSpRank }
  if tokenIds.length > 0 then
    let segIndex := min numEmptySlots (tokenIds.length - 1)
    appendToSpRank t.currentSpRank (tokenIds.take segIndex)
    if numEmptySlots < tokenIds.length then
      modifyTable fun t => { t with currentSpRank := nextSpRank }
    appendToSpRank (← get).table.currentSpRank (tokenIds.drop segIndex)

def appendNewTokens (newTokenIds : List TokenId) (extraHash : HashValue)
    (numLookaheadSlots : Nat) : TableM HashValue A Unit := do
  if !(← get).table.isAllocated then
    throw (.runtimeError "No blocks have been allocated.")
  if newTokenIds.isEmpty then
    return
  if numLookaheadSlots = 0 then
    appendLastToken newTokenIds extraHash
  else
    appendWithLookahead newTokenIds extraHash

/-! ## Appending with one rank -/

/-- `EnsureEnoughSlots`. The new blocks are allocated on rank 0 whatever `rankId` is. -/
def ensureEnoughSlots (numRequiredEmptySlots : Nat) (extraHash : HashValue) (rankId : Nat) :
    TableM HashValue A Unit := do
  let t := (← get).table
  if !t.isAllocated then
    throw (.runtimeError "No blocks have been allocated, init blockTable before using it")
  if rankId ≥ t.rankSize then
    throw (.runtimeError "Invalid rank id")
  let numEmptySlots ← ofTable fun t => t.getNumEmptySlots rankId
  if numRequiredEmptySlots ≤ numEmptySlots then
    return
  forM (List.range (ceilDiv (numRequiredEmptySlots - numEmptySlots) t.blockSize)) fun _ =>
    growRank rankId 0 extraHash

/-- The loop of `AppendTokenIds` over the pieces; the first of them goes to the block at `blockIdx`.
`numBlocks` is the number of pieces. -/
def appendChunks : Nat → List (List TokenId) → TableM HashValue A Unit
  | _, [] => return
  | blockIdx, tokens :: rest => do
    match ((← get).table.blockObjs 0)[blockIdx]? with
    | none => throw (.outOfRange "vector::at")
    | some p =>
      onWorld (CpuNpuBlockAllocator.appendTokenIds p tokens)
      let o ← loadBlock p
      if !rest.isEmpty ∧ !o.isFull then
        throw (.runtimeError
          "a block table has not-full block in the middle, this should not happend.")
      if blockIdx ≥ (← get).table.blockIds.length then
        throw (.outOfRange "vector::at")
      modifyTable fun t => { t with blockIds := t.blockIds.set blockIdx o.blockId }
      appendChunks (blockIdx + 1) rest

def appendTokenIds (tokenIds : List TokenId) (extraHash : HashValue) (numLookaheadSlots : Nat) :
    TableM HashValue A Unit := do
  if !(← get).table.isAllocated then
    throw (.runtimeError "No blocks have been allocated.")
  ensureEnoughSlots (tokenIds.length + numLookaheadSlots) extraHash 0
  let t := (← get).table
  appendChunks (t.numFullSlotsPerRank 0 / t.blockSize) (t.chunkTokensForAppend tokenIds)
  modifyTable fun t => t.addFullSlots 0 tokenIds.length

/-! ## Fork, free, and replacing placeholders -/

/-- The constructor of a table of given blocks. -/
def ofBlockObjs (blockSize rankSize : Nat) (blocks : List Ptr) :
    DeviceM HashValue A BlockTable := do
  let objs ← blocks.mapM fun p => onMem (load p)
  if objs.any fun o => rankSize ≤ o.rankIdx then
    throw (.undefinedBehavior "index of a vector")
  return {
    blockObjs := Function.update (fun _ => []) 0 blocks
    blockIds := objs.map (·.blockId)
    blockSize := blockSize
    numFullSlotsPerRank := fun r =>
      ((objs.filter (·.rankIdx = r)).map (·.tokenIds.length)).sum
    rankSize := rankSize
    currentSpRank := 0
    isAppendBlock := false
    appendBlockRankId := 0 }

/-- `Fork`: another table with block objects of its own that share the block ids. -/
def fork : TableM HashValue A BlockTable := do
  let t := (← get).table
  if !t.isAllocated then
    throw (.runtimeError "Empty blocks can't be forked.")
  if t.rankSize ≠ 1 then
    throw (.runtimeError "Fork only supports single rank scenario")
  match (t.blockObjs 0).getLast? with
  | none => throw (.undefinedBehavior "back of an empty vector")
  | some lastBlockObj =>
    let forkedBlockObjs ← onWorld (CpuNpuBlockAllocator.fork lastBlockObj)
    onWorld (ofBlockObjs t.blockSize t.rankSize forkedBlockObjs)

def free : TableM HashValue A Unit := do
  let t := (← get).table
  forM t.getBlockObjs fun p => onWorld (CpuNpuBlockAllocator.free p)
  modifyTable fun t =>
    { t with
      blockObjs := fun _ => []
      blockIds := []
      numFullSlotsPerRank := fun _ => 0
      currentSpRank := 0 }

/-- `GetNumTokenIds` -/
def getNumTokenIds : TableM HashValue A Nat := do
  let objs ← (← get).table.getBlockObjs.mapM loadBlock
  return (objs.map (·.tokenIds.length)).sum

/-- The token at a slot of a rank. -/
def tokenAt (rankId slot : Nat) : TableM HashValue A TokenId := do
  let t := (← get).table
  match (t.blockObjs rankId)[slot / t.blockSize]? with
  | none => throw (.undefinedBehavior "index of a vector")
  | some p =>
    let o ← loadBlock p
    match o.tokenIds[slot % t.blockSize]? with
    | none => throw (.undefinedBehavior "index of a vector")
    | some token => return token

/-- The loop of `ReplaceTrailingPlaceHolder`; the first token replaces the one at `slot`. -/
def replaceLoop (rankId : Nat) : Nat → List TokenId → TableM HashValue A Unit
  | _, [] => return
  | slot, newToken :: rest => do
    let t := (← get).table
    if (← tokenAt rankId (slot - 1)) = placeholderToken then
      throw (.runtimeError "preceding token can't be PLACEHOLDER_TOKEN")
    if (← tokenAt rankId slot) ≠ placeholderToken then
      throw (.runtimeError "only PLACEHOLDER_TOKEN can be replaced.")
    match (t.blockObjs rankId)[slot / t.blockSize]? with
    | none => throw (.undefinedBehavior "index of a vector")
    | some p =>
      onWorld (CpuNpuBlockAllocator.replaceToken p (slot % t.blockSize) newToken)
      let o ← loadBlock p
      if o.isFull then
        setBlockId (slot / t.blockSize) o.blockId
    replaceLoop rankId (slot + 1) rest

/-- `ReplaceTrailingPlaceHolder`: of the last `trailingPlaceHolderNum` tokens, the first
`replacedPlaceHolderNum` are replaced. -/
def replaceTrailingPlaceHolder (tokenIds : List TokenId)
    (trailingPlaceHolderNum replacedPlaceHolderNum rankId : Nat) : TableM HashValue A Unit := do
  let totalTokens ← getNumTokenIds
  if trailingPlaceHolderNum ≥ totalTokens then
    throw (.runtimeError
      "replace start index cannot be greater than the total number of tokens.")
  if replacedPlaceHolderNum > trailingPlaceHolderNum then
    throw (.runtimeError
      "number of tokens to replace cannot be greater than the number of tokens start")
  let start := totalTokens - trailingPlaceHolderNum
  if start = 0 then
    throw (.runtimeError "replace start index cannot be the first token.")
  replaceLoop rankId start (tokenIds.take replacedPlaceHolderNum)

end BlockTable

end MindieLLM
