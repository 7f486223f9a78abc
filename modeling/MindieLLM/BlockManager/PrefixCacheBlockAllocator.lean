import MindieLLM.BlockManager.BlockAllocator

/-!
# The prefix-caching block allocator

The ids of full blocks are shared by content: `cachedBlocks` maps the hash of a full block, which
covers everything before it in its sequence, to the id that holds it. An id that no block uses
any more either is free or, when its content is cached, waits in the evictor until it is hit
again or evicted.

## Main definitions

* `PrefixCacheBlockAllocator`: the state of the allocator
* `allocateBlockId`, `freeBlockId`: taking an id and giving one back
* `promoteToImmutableBlock`: sharing the id of a block that has become full
* `allocateMutableBlock`, `allocateImmutableBlock`, `appendTokenIds`, `free`, `fork`, `swapOut`,
  `swapIn`, `markBlocksAsComputed`, `resetPrefixCache`: the operations
* `findCachedBlockPrefix`, `findCachedBlocksPrefix`, `isBlockComputed`: the cache lookups
-/

namespace MindieLLM

open Program

variable {HashValue : Type}

structure PrefixCacheBlockAllocator (HashValue : Type) where
  beginBlockId : BlockId
  blockSize : Nat
  numBlocks : Nat
  allBlockIndices : List BlockId
  freeBlockIndices : List BlockId
  cowTracker : CopyOnWriteTracker
  blockComputedAttr : BlockComputedAttr
  cachedBlocks : HashValue → Option BlockId
  touchedBlocks : List BlockId
  evictor : LRUEvictor HashValue
  refCounter : RefCounter
  hitRateCalculator : HitRateCalculator

namespace PrefixCacheBlockAllocator

abbrev AllocM (HashValue : Type) := EStateM Exn (PrefixCacheBlockAllocator HashValue)

/-- The constructor. -/
def new (beginBlockId : BlockId) (numBlocks blockSize : Nat) :
    PrefixCacheBlockAllocator HashValue where
  beginBlockId := beginBlockId
  blockSize := blockSize
  numBlocks := numBlocks
  allBlockIndices := blockIndices beginBlockId numBlocks
  freeBlockIndices := blockIndices beginBlockId numBlocks
  cowTracker := ⟨[]⟩
  blockComputedAttr := .new numBlocks beginBlockId
  cachedBlocks := fun _ => none
  touchedBlocks := []
  evictor := .new
  refCounter := .make (blockIndices beginBlockId numBlocks)
  hitRateCalculator := ⟨0, 0⟩

/-! ## The parts of the state -/

def refCounterLens : Lens (PrefixCacheBlockAllocator HashValue) RefCounter where
  get a := a.refCounter
  put rc a := { a with refCounter := rc }
  get_put _ _ := rfl
  put_get _ := rfl
  put_put _ _ _ := rfl

def attrLens : Lens (PrefixCacheBlockAllocator HashValue) BlockComputedAttr where
  get a := a.blockComputedAttr
  put s a := { a with blockComputedAttr := s }
  get_put _ _ := rfl
  put_get _ := rfl
  put_put _ _ _ := rfl

def evictorLens : Lens (PrefixCacheBlockAllocator HashValue) (LRUEvictor HashValue) where
  get a := a.evictor
  put e a := { a with evictor := e }
  get_put _ _ := rfl
  put_get _ := rfl
  put_put _ _ _ := rfl

section Lenses

variable (a : PrefixCacheBlockAllocator HashValue)

@[simp]
theorem refCounterLens_get : refCounterLens.get a = a.refCounter := rfl

@[simp]
theorem refCounterLens_put (rc : RefCounter) :
    refCounterLens.put rc a = { a with refCounter := rc } := rfl

@[simp]
theorem attrLens_get : attrLens.get a = a.blockComputedAttr := rfl

@[simp]
theorem attrLens_put (s : BlockComputedAttr) :
    attrLens.put s a = { a with blockComputedAttr := s } := rfl

@[simp]
theorem evictorLens_get : evictorLens.get a = a.evictor := rfl

@[simp]
theorem evictorLens_put (e : LRUEvictor HashValue) :
    evictorLens.put e a = { a with evictor := e } := rfl

end Lenses

def increase (b : BlockId) : AllocM HashValue RefCount :=
  zoom refCounterLens (RefCounter.increase b)

def decrease (b : BlockId) : AllocM HashValue RefCount :=
  zoom refCounterLens (RefCounter.decrease b)

def trackBlockId (b : BlockId) (computed : Bool) : AllocM HashValue Unit := do
  zoom attrLens (BlockComputedAttr.enable b)
  zoom attrLens (BlockComputedAttr.setComputed b computed)

def untrackBlockId (b : BlockId) : AllocM HashValue Unit :=
  zoom attrLens (BlockComputedAttr.disable b)

def pushFree (b : BlockId) : AllocM HashValue Unit :=
  modify fun a => { a with freeBlockIndices := a.freeBlockIndices ++ [b] }

/-! ## Block ids -/

variable [DecidableEq HashValue]

def mayBeAllocateEvictedBlockId : AllocM HashValue BlockId := do
  let (key, evicted) ← zoom evictorLens LRUEvictor.evict
  if evicted = invalidBlockId then
    throw (.runtimeError "BlockAllocator no blockId in evict!")
  let a ← get
  match a.cachedBlocks key with
  | none => throw (.outOfRange "unordered_map::at")
  | some b =>
    if b ≠ evicted then
      throw (.runtimeError "BlockAllocator blockId in evict unmatch blockId in cache!")
    if b ≥ a.beginBlockId + a.numBlocks ∨ b < a.beginBlockId then
      throw (.runtimeError "BlockId out of range!")
    set { a with cachedBlocks := Function.update a.cachedBlocks key none }
    let _ ← increase b
    trackBlockId b false
    return b

/-- `AllocateBlockId`: a free id if there is one, else an evicted one. -/
def allocateBlockId : AllocM HashValue BlockId := do
  let a ← get
  match a.freeBlockIndices with
  | b :: rest =>
    set { a with freeBlockIndices := rest }
    let _ ← increase b
    trackBlockId b false
    return b
  | [] => mayBeAllocateEvictedBlockId

/-- `IncrRefCountCacheBlock`, of the block id the block carries. -/
def incrRefCountCacheBlock (b : BlockId) : AllocM HashValue Unit := do
  let refCount ← increase b
  if refCount = 1 then
    modify fun a =>
      if a.evictor.containsBlock b then { a with evictor := a.evictor.remove b } else a
    trackBlockId b true

variable [PrefixHasher HashValue]

abbrev M (HashValue : Type) := WorldM HashValue (PrefixCacheBlockAllocator HashValue)

def freeObj (p : Ptr) : M HashValue Unit :=
  onMem (MindieLLM.freeObj PrefixCachingBlockObj.resetBlockObj p)

def decrRefCountCacheBlock (p : Ptr) : M HashValue Unit := do
  let b := (← onMem (load p)).blockId
  onMem (withObj p (HashLessBlockObj.setBlockId invalidBlockId))
  let refCount ← onAlloc (decrease b)
  if refCount < 0 then
    throw (.runtimeError
      "Prefix blocks blockId counter has been decremented to a negative value.")
  if refCount = 0 then
    let prefixHash ← onMem (PrefixCachingBlockObj.prefixHash p)
    match (← get).alloc.cachedBlocks prefixHash with
    | none => throw (.runtimeError "Prefix blocks blockId not in cache.")
    | some reuseBlockId =>
      if b ≠ reuseBlockId then
        throw (.runtimeError "Prefix blocks blockId unmatch.")
      let prefixHash ← onMem (PrefixCachingBlockObj.prefixHash p)
      let numTokens := (← onMem (load p)).numTokensTotal
      let lastAccessed ← onAlloc (zoom attrLens (BlockComputedAttr.lastAccessed b))
      modify fun w => { w with alloc := { w.alloc with
        evictor := w.alloc.evictor.add b prefixHash numTokens lastAccessed } }
      onAlloc (untrackBlockId b)

/-- Take a reference off an id; with the last one the id becomes free. -/
def releaseBlockId (b : BlockId) : AllocM HashValue Unit := do
  let refCount ← decrease b
  if refCount = 0 then
    untrackBlockId b
    pushFree b

def freeBlockId (p : Ptr) : M HashValue Unit := do
  let b := (← onMem (load p)).blockId
  let prefixHash ← onMem (PrefixCachingBlockObj.prefixHash p)
  if prefixHash ≠ invalidHashValue then
    decrRefCountCacheBlock p
  else
    onAlloc (releaseBlockId b)
    onMem (withObj p HashLessBlockObj.resetBlockId)

def free (p : Ptr) (keepBlockObj : Bool) : M HashValue Unit := do
  freeBlockId p
  if !keepBlockObj then
    freeObj p

/-! ## Appending tokens -/

/-- `PromoteToImmutableBlock`: a block that has become full either registers its id under its
hash or gives its id up for the one registered already. -/
def promoteToImmutableBlock (p : Ptr) : M HashValue BlockId := do
  let prefixHash ← onMem (PrefixCachingBlockObj.prefixHash p)
  let b := (← onMem (load p)).blockId
  let a := (← get).alloc
  match a.cachedBlocks prefixHash with
  | none =>
    onAlloc (modify fun a =>
      { a with
        cachedBlocks := Function.update a.cachedBlocks prefixHash (some b)
        touchedBlocks := a.touchedBlocks.insert b })
    return b
  | some reuseBlockId =>
    onAlloc (releaseBlockId b)
    onMem (withObj p HashLessBlockObj.resetBlockId)
    onMem (withObj p (HashLessBlockObj.setBlockId reuseBlockId))
    onAlloc (incrRefCountCacheBlock reuseBlockId)
    return reuseBlockId

def cowBlockIfNotAppendable (p : Ptr) : M HashValue BlockId := do
  let src := (← onMem (load p)).blockId
  if src = invalidBlockId then
    throw (.runtimeError "Cow block id invalid.")
  let refCount ← onAlloc (zoom refCounterLens (RefCounter.getRefCount src))
  if refCount ≤ 1 then
    return src
  freeBlockId p
  let trg ← onAlloc allocateBlockId
  onAlloc (modify fun a => { a with cowTracker := a.cowTracker.recordCow src trg })
  return trg

def promoteIfHashed (p : Ptr) : M HashValue Unit := do
  let prefixHash ← onMem (PrefixCachingBlockObj.prefixHash p)
  if prefixHash ≠ invalidHashValue then
    let _ ← promoteToImmutableBlock p

def appendTokenIds (p : Ptr) (tokenIds : List TokenId) : M HashValue Unit := do
  onMem (PrefixCachingBlockObj.appendTokenIds p tokenIds)
  let b ← cowBlockIfNotAppendable p
  onMem (withObj p (HashLessBlockObj.setBlockId b))
  promoteIfHashed p

def replaceToken (p : Ptr) (startIndex : Nat) (newToken : TokenId) : M HashValue Unit := do
  onMem (withObj p (HashLessBlockObj.replaceToken startIndex newToken))
  promoteIfHashed p

/-! ## Allocation, fork, swap -/

def allocateMutableBlock (tokenIds : List TokenId) (prevBlock : Option Ptr)
    (extraHash : HashValue) : M HashValue Ptr := do
  let b ← onAlloc allocateBlockId
  let p ← onMem acquireObj
  let blockSize := (← get).alloc.blockSize
  onMem (PrefixCachingBlockObj.initBlockObj p prevBlock [] blockSize b extraHash)
  appendTokenIds p tokenIds
  return p

def record (hit : Bool) : AllocM HashValue Unit :=
  modify fun a => { a with hitRateCalculator := a.hitRateCalculator.record hit }

/-- `AllocateImmutableBlock`: share the id of a cached block with the same hash, or else allocate
a mutable block. -/
def allocateImmutableBlock (tokenIds : List TokenId) (prevBlock : Option Ptr)
    (extraHash : HashValue) : M HashValue Ptr := do
  let p ← onMem acquireObj
  let blockSize := (← get).alloc.blockSize
  onMem (PrefixCachingBlockObj.initBlockObj p prevBlock tokenIds blockSize invalidBlockId extraHash)
  let key ← onMem (PrefixCachingBlockObj.prefixHash p)
  let cachedBlockId := ((← get).alloc.cachedBlocks key).getD invalidBlockId
  if cachedBlockId ≠ invalidBlockId then
    onMem (withObj p (HashLessBlockObj.setBlockId cachedBlockId))
    onAlloc (record true)
    onAlloc (incrRefCountCacheBlock cachedBlockId)
    return p
  freeObj p
  onAlloc (record false)
  allocateMutableBlock tokenIds prevBlock extraHash

def allocateImmutableBlocks : List (List TokenId) → Option Ptr → HashValue →
    M HashValue (List Ptr)
  | [], _, _ => return []
  | tokens :: rest, prevBlock, extraHash => do
    let p ← allocateImmutableBlock tokens prevBlock extraHash
    let ps ← allocateImmutableBlocks rest (some p) extraHash
    return p :: ps

/-- The loop of `Fork` over the source blocks. -/
def forkBlocks : Option Ptr → List Ptr → M HashValue (List Ptr)
  | _, [] => return []
  | prevBlock, source :: rest => do
    let o ← onMem (load source)
    let refCount ← onAlloc (increase o.blockId)
    if refCount < 2 then
      throw (.runtimeError "can't fork free'd block!")
    let p ← onMem acquireObj
    let blockSize := (← get).alloc.blockSize
    onMem (PrefixCachingBlockObj.initBlockObj p prevBlock o.tokenIds blockSize o.blockId
      o.extraHash)
    let ps ← forkBlocks (some p) rest
    return p :: ps

def fork (lastBlock : Ptr) : M HashValue (List Ptr) := do
  let poolSize := (← get).mem.pool.poolSize
  let sources ← onMem (sourceBlocks poolSize lastBlock)
  forkBlocks none sources

def swapOut (blocks : List Ptr) : M HashValue Unit := forM blocks freeBlockId

def swapInBlock (p : Ptr) : M HashValue Unit := do
  let o ← onMem (load p)
  let tmp ←
    if o.isFull then allocateImmutableBlock o.tokenIds o.prevBlock o.extraHash
    else allocateMutableBlock o.tokenIds o.prevBlock o.extraHash
  let b := (← onMem (load tmp)).blockId
  onMem (withObj p (HashLessBlockObj.setBlockId b))
  freeObj tmp

def swapIn (blocks : List Ptr) : M HashValue Unit := forM blocks swapInBlock

/-! ## Marks, lookups and the reset -/

def markBlocksAsAccessed (blockIds : List BlockId) (now : TimeStamp) : AllocM HashValue Unit :=
  forM blockIds fun b => do
    if ← zoom attrLens (BlockComputedAttr.isActive b) then
      zoom attrLens (BlockComputedAttr.updateAccessTime b now)
    else
      if (← get).evictor.containsBlock b then
        zoom evictorLens (LRUEvictor.update b now)
        throw (.runtimeError "Block in evictor can not update time.")
      else
        throw (.runtimeError "Mark block as accessed which is not belonged to NPU.")

def markBlocksAsComputed : AllocM HashValue Unit := do
  let a ← get
  forM a.touchedBlocks fun b => zoom attrLens (BlockComputedAttr.setComputed b true)
  modify fun a => { a with touchedBlocks := [] }

/-- The longest prefix two lists have in common. -/
def commonPrefix : List BlockId → List BlockId → List BlockId
  | b :: bs, c :: cs => if c = b then b :: commonPrefix bs cs else []
  | _, _ => []

def getCommonComputedBlockIds : List (List BlockId) → List BlockId
  | [] => []
  | first :: rest => rest.foldl commonPrefix first

def getNumTotalBlocks (a : PrefixCacheBlockAllocator HashValue) : Nat := a.allBlockIndices.length

def getNumFreeBlock (a : PrefixCacheBlockAllocator HashValue) : Nat :=
  a.freeBlockIndices.length + a.evictor.getNumblocks

/-- `GetCachedBlockNum`: how many of the first hashes are cached. -/
def getCachedBlockNum (a : PrefixCacheBlockAllocator HashValue) (hashValues : List HashValue) :
    Nat :=
  (hashValues.takeWhile fun h => (a.cachedBlocks h).isSome).length

def isBlockComputed (b : BlockId) : AllocM HashValue Bool := do
  if ← zoom attrLens (BlockComputedAttr.isActive b) then
    zoom attrLens (BlockComputedAttr.isComputed b)
  else
    return (← get).evictor.containsBlock b

/-- `IsBlockCached` of a hash: cached, and marked as computed. -/
def isBlockCached (prefixHash : HashValue) : AllocM HashValue Bool := do
  match (← get).cachedBlocks prefixHash with
  | none => return false
  | some b => isBlockComputed b

def findCachedBlockPrefix (blockHash : HashValue) : AllocM HashValue Bool := do
  if blockHash = invalidHashValue then
    return false
  match (← get).cachedBlocks blockHash with
  | none => return false
  | some b => isBlockComputed b

def findCachedBlocksPrefix : List HashValue → AllocM HashValue (List BlockId)
  | [] => return []
  | h :: hs => do
    if ← isBlockCached h then
      match (← get).cachedBlocks h with
      | none => throw (.outOfRange "unordered_map::at")
      | some b =>
        let bs ← findCachedBlocksPrefix hs
        return b :: bs
    else
      return []

def clearCopyOnWrites : AllocM HashValue (List (BlockId × BlockId)) := do
  let a ← get
  set { a with cowTracker := a.cowTracker.clearCows.2 }
  return a.cowTracker.clearCows.1

/-- `ResetPrefixCache` starts the free list, the reference counts, the copy-on-write records and
the evictor afresh; it leaves the cached hashes, the touched ids and the block flags. -/
def resetPrefixCache : AllocM HashValue Bool := do
  let a ← get
  let useBlockNum : Int := a.getNumTotalBlocks - a.getNumFreeBlock
  if useBlockNum > 0 then
    return false
  let indices := blockIndices a.beginBlockId a.numBlocks
  set { a with
    allBlockIndices := indices
    freeBlockIndices := indices
    refCounter := .make indices
    cowTracker := ⟨[]⟩
    evictor := .new }
  return true

instance : BlockAllocator HashValue (PrefixCacheBlockAllocator HashValue) where
  enableCaching := true
  new := new
  getHashValue o := o.cachedPrefixHash
  allocateMutableBlock := allocateMutableBlock
  allocateImmutableBlock := allocateImmutableBlock
  allocateImmutableBlocks := allocateImmutableBlocks
  free := free
  fork := fork
  getNumTotalBlocks := getNumTotalBlocks
  getNumFreeBlock := getNumFreeBlock
  clearCopyOnWrites := clearCopyOnWrites
  markBlocksAsAccessed := markBlocksAsAccessed
  markBlocksAsComputed := markBlocksAsComputed
  getCommonComputedBlockIds := getCommonComputedBlockIds
  swapOut := swapOut
  swapIn := swapIn
  resetPrefixCache := resetPrefixCache
  findCachedBlockPrefix := findCachedBlockPrefix
  findCachedBlocksPrefix := findCachedBlocksPrefix
  appendTokenIds := appendTokenIds
  replaceToken := replaceToken

end PrefixCacheBlockAllocator

end MindieLLM
