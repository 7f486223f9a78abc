import MindieLLM.BlockManager.BlockAllocator

/-!
# The hash-less block allocator

Without prefix caching an id is either free or counts the blocks that carry it. Blocks share ids
only after a fork, and a shared block that is appended to is copied first.

## Main definitions

* `HashLessBlockAllocator`: the state of the allocator
* `allocateBlockId`, `freeBlockId`: taking an id and giving one back
* `cowBlockIfNotAppendable`: copy on write
* `allocateMutableBlock`, `allocateImmutableBlock`, `appendTokenIds`, `free`, `fork`, `swapOut`,
  `swapIn`: the operations
-/

namespace MindieLLM

open Program

variable {HashValue : Type}

/-- The state of a `HashLessBlockAllocator`; its block objects carry hash values of the given type,
which it never looks at. -/
structure HashLessBlockAllocator (HashValue : Type) where
  blockSize : Nat
  allBlockIndices : List BlockId
  freeBlockIndices : List BlockId
  refCounter : RefCounter
  cowTracker : CopyOnWriteTracker

namespace HashLessBlockAllocator

abbrev AllocM (HashValue : Type) := EStateM Exn (HashLessBlockAllocator HashValue)

/-- The constructor. -/
def new (beginBlockId : BlockId) (numBlocks blockSize : Nat) :
    HashLessBlockAllocator HashValue where
  blockSize := blockSize
  allBlockIndices := blockIndices beginBlockId numBlocks
  freeBlockIndices := blockIndices beginBlockId numBlocks
  refCounter := .make (blockIndices beginBlockId numBlocks)
  cowTracker := ⟨[]⟩

/-! ## Block ids -/

def refCounterLens : Lens (HashLessBlockAllocator HashValue) RefCounter where
  get a := a.refCounter
  put rc a := { a with refCounter := rc }
  get_put _ _ := rfl
  put_get _ := rfl
  put_put _ _ _ := rfl

@[simp]
theorem refCounterLens_get (a : HashLessBlockAllocator HashValue) :
    refCounterLens.get a = a.refCounter := rfl

@[simp]
theorem refCounterLens_put (rc : RefCounter) (a : HashLessBlockAllocator HashValue) :
    refCounterLens.put rc a = { a with refCounter := rc } := rfl

def allocateBlockId : AllocM HashValue BlockId := do
  let a ← get
  match a.freeBlockIndices with
  | [] => throw (.runtimeError "BlockAllocator Error: No Free Blocks!")
  | b :: rest =>
    set ({ a with freeBlockIndices := rest } : HashLessBlockAllocator HashValue)
    let _ ← zoom refCounterLens (RefCounter.increase b)
    return b

/-- Take a reference off an id; with the last one the id becomes free. -/
def releaseBlockId (b : BlockId) : AllocM HashValue Unit := do
  let refCount ← zoom refCounterLens (RefCounter.decrease b)
  if refCount = 0 then
    modify fun a => { a with freeBlockIndices := a.freeBlockIndices ++ [b] }

abbrev M (HashValue : Type) := WorldM HashValue (HashLessBlockAllocator HashValue)

def freeBlockId (p : Ptr) : M HashValue Unit := do
  let b := (← onMem (load p)).blockId
  onAlloc (releaseBlockId b)
  onMem (withObj p HashLessBlockObj.resetBlockId)

def cowBlockIfNotAppendable (p : Ptr) : M HashValue BlockId := do
  let src := (← onMem (load p)).blockId
  let refCount ← onAlloc (zoom refCounterLens (RefCounter.getRefCount src))
  if refCount ≤ 1 then
    return src
  freeBlockId p
  let trg ← onAlloc allocateBlockId
  onAlloc (modify fun a => { a with cowTracker := a.cowTracker.recordCow src trg })
  return trg

def appendTokenIds (p : Ptr) (tokenIds : List TokenId) : M HashValue Unit := do
  onMem (withObj p (HashLessBlockObj.appendTokenIds tokenIds))
  let b ← cowBlockIfNotAppendable p
  onMem (withObj p (HashLessBlockObj.setBlockId b))

def replaceToken (p : Ptr) (startIndex : Nat) (newToken : TokenId) : M HashValue Unit :=
  onMem (withObj p (HashLessBlockObj.replaceToken startIndex newToken))

/-! ## Allocation, fork, swap -/

variable [PrefixHasher HashValue]

def freeObj (p : Ptr) : M HashValue Unit :=
  onMem (MindieLLM.freeObj HashLessBlockObj.resetBlockObj p)

/-- Take an object from the pool and initialise it with an id. -/
def acquireBlock (tokenIds : List TokenId) (prevBlock : Option Ptr) (b : BlockId) :
    M HashValue Ptr := do
  let p ← onMem acquireObj
  let blockSize := (← get).alloc.blockSize
  onMem (HashLessBlockObj.initBlockObj p prevBlock tokenIds blockSize b)
  return p

def allocateMutableBlock (tokenIds : List TokenId) (prevBlock : Option Ptr) :
    M HashValue Ptr := do
  let b ← onAlloc allocateBlockId
  acquireBlock tokenIds prevBlock b

def allocateImmutableBlock (tokenIds : List TokenId) (prevBlock : Option Ptr) :
    M HashValue Ptr := do
  let p ← allocateMutableBlock [] prevBlock
  appendTokenIds p tokenIds
  return p

/-- The second loop of `AllocateImmutableBlocks`: one object for each of the ids taken. -/
def acquireBlocks : List (List TokenId) → List BlockId → Option Ptr → M HashValue (List Ptr)
  | tokens :: chunks, b :: bs, prevBlock => do
    let p ← acquireBlock tokens prevBlock b
    let ps ← acquireBlocks chunks bs (some p)
    return p :: ps
  | _, _, _ => return []

def allocateImmutableBlocks (tokenChunks : List (List TokenId)) (prevBlock : Option Ptr) :
    M HashValue (List Ptr) := do
  let bs ← onAlloc (tokenChunks.mapM fun _ => allocateBlockId)
  acquireBlocks tokenChunks bs prevBlock

def free (p : Ptr) (keepBlockObj : Bool) : M HashValue Unit := do
  freeBlockId p
  if !keepBlockObj then
    freeObj p

/-- The loop of `Fork` over the source blocks. -/
def forkBlocks : Option Ptr → List Ptr → M HashValue (List Ptr)
  | _, [] => return []
  | prevBlock, source :: rest => do
    let o ← onMem (load source)
    let refCount ← onAlloc (zoom refCounterLens (RefCounter.increase o.blockId))
    if refCount < 2 then
      throw (.runtimeError "can't fork free'd block!")
    let p ← acquireBlock o.tokenIds prevBlock o.blockId
    let ps ← forkBlocks (some p) rest
    return p :: ps

def fork (lastBlock : Ptr) : M HashValue (List Ptr) := do
  let poolSize := (← get).mem.pool.poolSize
  let sources ← onMem (sourceBlocks poolSize lastBlock)
  forkBlocks none sources

def swapOut (blocks : List Ptr) : M HashValue Unit := forM blocks freeBlockId

def swapInBlock (p : Ptr) : M HashValue Unit := do
  let o ← onMem (load p)
  let tmp ←
    if o.isFull then allocateImmutableBlock o.tokenIds o.prevBlock
    else do
      let tmp ← allocateMutableBlock [] o.prevBlock
      appendTokenIds tmp o.tokenIds
      pure tmp
  let b := (← onMem (load tmp)).blockId
  onMem (withObj p (HashLessBlockObj.setBlockId b))
  onMem (withObj tmp HashLessBlockObj.resetBlockId)
  freeObj tmp

def swapIn (blocks : List Ptr) : M HashValue Unit := forM blocks swapInBlock

/-! ## The other methods -/

def getNumTotalBlocks (a : HashLessBlockAllocator HashValue) : Nat := a.allBlockIndices.length

def getNumFreeBlock (a : HashLessBlockAllocator HashValue) : Nat := a.freeBlockIndices.length

def clearCopyOnWrites : AllocM HashValue (List (BlockId × BlockId)) := do
  let a ← get
  set ({ a with cowTracker := a.cowTracker.clearCows.2 } : HashLessBlockAllocator HashValue)
  return a.cowTracker.clearCows.1

instance : BlockAllocator HashValue (HashLessBlockAllocator HashValue) where
  enableCaching := false
  new := new
  getHashValue _ := invalidHashValue
  allocateMutableBlock tokenIds prevBlock _ := allocateMutableBlock tokenIds prevBlock
  allocateImmutableBlock tokenIds prevBlock _ := allocateImmutableBlock tokenIds prevBlock
  allocateImmutableBlocks tokenChunks prevBlock _ := allocateImmutableBlocks tokenChunks prevBlock
  free := free
  fork := fork
  getNumTotalBlocks := getNumTotalBlocks
  getNumFreeBlock := getNumFreeBlock
  clearCopyOnWrites := clearCopyOnWrites
  markBlocksAsAccessed _ _ := pure ()
  markBlocksAsComputed := pure ()
  getCommonComputedBlockIds _ := []
  swapOut := swapOut
  swapIn := swapIn
  resetPrefixCache := pure true
  findCachedBlockPrefix _ := pure false
  findCachedBlocksPrefix _ := pure []
  appendTokenIds := appendTokenIds
  replaceToken := replaceToken

end HashLessBlockAllocator

end MindieLLM
