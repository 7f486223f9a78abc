import MindieLLM.BlockManager.BlockAllocator

/-!
# Block allocators of several devices

A `CpuNpuBlockAllocator` keeps an allocator for each rank of the NPU and one for each host. Their
blocks come from one pool of objects. The id of a block tells its device, and the object carries
the rank, so an operation on a block finds the allocator it belongs to.

## Main definitions

* `AllocatorConfig`, `CpuNpuBlockAllocator`, `CpuNpuBlockAllocator.new`: the allocators and how
  they are constructed
* `onAllocator`: run an operation of one allocator
* `allocateMutableBlock`, `allocateImmutableBlock`, `allocateImmutableBlocks`, `free`, `fork`,
  `swap`, `appendTokenIds`, `replaceToken`, …: the operations
-/

namespace MindieLLM

open Program

variable {HashValue A : Type}

/-- `AllocatorConfig`; the type of the allocators is the type `A` they are modelled by. -/
structure AllocatorConfig where
  numCpuBlocks : Nat
  numNpuBlocks : Nat
  blockSize : Nat
  rankSize : Nat := 1
  hostSize : Nat := 1

/-- The allocators by device and index. There are `hostSize` allocators for the CPU and `rankSize`
for the NPU. -/
structure CpuNpuBlockAllocator (A : Type) where
  rankSize : Nat
  hostSize : Nat
  beginCpuBlockId : BlockId
  allocators : DeviceType → Nat → A

namespace CpuNpuBlockAllocator

abbrev DeviceM (HashValue A : Type) := WorldM HashValue (CpuNpuBlockAllocator A)

/-- How many allocators a device has. -/
def numAllocators (s : CpuNpuBlockAllocator A) : DeviceType → Nat
  | .cpu => s.hostSize
  | .npu => s.rankSize

def setAllocator (s : CpuNpuBlockAllocator A) (deviceType : DeviceType) (rankIdx : Nat) (a : A) :
    CpuNpuBlockAllocator A :=
  { s with
    allocators := Function.update s.allocators deviceType
      (Function.update (s.allocators deviceType) rankIdx a) }

/-- One allocator together with the memory that all of them share. -/
def allocatorLens (deviceType : DeviceType) (rankIdx : Nat) :
    Lens (World HashValue (CpuNpuBlockAllocator A)) (World HashValue A) where
  get w := ⟨w.mem, w.alloc.allocators deviceType rankIdx⟩
  put v w := ⟨v.mem, w.alloc.setAllocator deviceType rankIdx v.alloc⟩
  get_put _ _ := by simp [setAllocator]
  put_get _ := by simp [setAllocator]
  put_put _ _ _ := by simp [setAllocator]

/-- `GetAllocator`, and an operation of the allocator found. -/
def onAllocator (deviceType : DeviceType) (rankIdx : Nat) {α : Type} (c : WorldM HashValue A α) :
    DeviceM HashValue A α := do
  let s := (← get).alloc
  if rankIdx ≥ s.numAllocators deviceType then
    match deviceType with
    | .cpu => throw (.outOfRange "Invalid rank index for CPU allocator")
    | .npu => throw (.outOfRange "Invalid rank index for NPU allocator")
  zoom (allocatorLens deviceType rankIdx) c

def getDeviceTypeForBlockId (s : CpuNpuBlockAllocator A) (b : BlockId) : DeviceType :=
  if b < s.beginCpuBlockId then .npu else .cpu

/-- The device and the rank of a block. -/
def locate (p : Ptr) : DeviceM HashValue A (DeviceType × Nat) := do
  let o ← onMem (load p)
  return ((← get).alloc.getDeviceTypeForBlockId o.blockId, o.rankIdx)

variable [BlockAllocator HashValue A]

/-- The constructor; the number of objects in the pool is four times the number of blocks. -/
def new [PrefixHasher HashValue] (config : AllocatorConfig) :
    Except Exn (World HashValue (CpuNpuBlockAllocator A)) :=
  if config.rankSize = 0 then
    throw (.runtimeError "Rank size cannot be zero.")
  else
    return {
      mem := .new (4 * (config.numCpuBlocks * config.hostSize +
        config.numNpuBlocks * config.rankSize))
      alloc := {
        rankSize := config.rankSize
        hostSize := config.hostSize
        beginCpuBlockId := config.numNpuBlocks
        allocators := fun deviceType i => match deviceType with
          | .cpu => BlockAllocator.new (config.numNpuBlocks + config.numCpuBlocks * i)
              config.numCpuBlocks config.blockSize
          | .npu => BlockAllocator.new 0 config.numNpuBlocks config.blockSize } }

/-! ## Allocation -/

def allocateMutableBlock (deviceType : DeviceType) (tokenIds : List TokenId)
    (prevBlock : Option Ptr) (extraHash : HashValue) (rankIdx : Nat) :
    DeviceM HashValue A Ptr := do
  let p ← onAllocator deviceType rankIdx
    (BlockAllocator.allocateMutableBlock tokenIds prevBlock extraHash)
  onMem (withObj p (HashLessBlockObj.setRankIdx rankIdx))
  return p

def allocateImmutableBlock (deviceType : DeviceType) (tokenIds : List TokenId)
    (prevBlock : Option Ptr) (extraHash : HashValue) (rankIdx : Nat) :
    DeviceM HashValue A Ptr := do
  let p ← onAllocator deviceType rankIdx
    (BlockAllocator.allocateImmutableBlock tokenIds prevBlock extraHash)
  onMem (withObj p (HashLessBlockObj.setRankIdx rankIdx))
  return p

def allocateImmutableBlocks (deviceType : DeviceType) (tokenIds : List (List TokenId))
    (prevBlock : Option Ptr) (extraHash : HashValue) (rankIdx : Nat) :
    DeviceM HashValue A (List Ptr) := do
  let ps ← onAllocator deviceType rankIdx
    (BlockAllocator.allocateImmutableBlocks tokenIds prevBlock extraHash)
  forM ps fun p => onMem (withObj p (HashLessBlockObj.setRankIdx rankIdx))
  return ps

/-! ## Operations on blocks -/

/-- Run an operation of the allocator a block belongs to. -/
def onAllocatorOf (p : Ptr) {α : Type} (c : WorldM HashValue A α) : DeviceM HashValue A α := do
  let (deviceType, rankIdx) ← locate p
  onAllocator deviceType rankIdx c

def free (p : Ptr) : DeviceM HashValue A Unit :=
  onAllocatorOf p (BlockAllocator.free p false)

def fork (p : Ptr) : DeviceM HashValue A (List Ptr) := onAllocatorOf p (BlockAllocator.fork p)

def appendTokenIds (p : Ptr) (tokenIds : List TokenId) : DeviceM HashValue A Unit :=
  onAllocatorOf p (BlockAllocator.appendTokenIds p tokenIds)

def replaceToken (p : Ptr) (startIndex : Nat) (newToken : TokenId) : DeviceM HashValue A Unit :=
  onAllocatorOf p (BlockAllocator.replaceToken p startIndex newToken)

def swap (swapTargetBlocks : List Ptr) (srcDevice dstDevice : DeviceType) :
    DeviceM HashValue A (List (BlockId × BlockId)) := do
  let s := (← get).alloc
  if s.rankSize ≠ 1 then
    throw (.invalidArgument "Can not swap when rank size larger than 1!")
  let blockIds : DeviceM HashValue A (List BlockId) :=
    swapTargetBlocks.mapM fun p => do return (← onMem (load p)).blockId
  let srcBlockIds ← blockIds
  if srcBlockIds.any fun b => s.getDeviceTypeForBlockId b ≠ srcDevice then
    throw (.invalidArgument "BlockIds in swapTargetBlocks must belong to srcDevice!")
  onAllocator srcDevice 0 (BlockAllocator.swapOut swapTargetBlocks)
  onAllocator dstDevice 0 (BlockAllocator.swapIn swapTargetBlocks)
  let dstBlockIds ← blockIds
  return srcBlockIds.zip dstBlockIds

/-! ## Counts -/

/-- `GetAllocator`, and a value read off it. -/
def readAllocator (deviceType : DeviceType) (rankIdx : Nat) {α : Type} (f : A → α) :
    DeviceM HashValue A α :=
  onAllocator deviceType rankIdx do return f (← get).alloc

/-- The total over the ranks of the NPU, whatever the device. -/
def getNumTotalBlocks (deviceType : DeviceType) : DeviceM HashValue A Nat := do
  let s := (← get).alloc
  let counts ← (List.range s.rankSize).mapM fun rankId =>
    readAllocator deviceType rankId BlockAllocator.getNumTotalBlocks
  return counts.sum

/-- With several ranks the count of the rank that has the fewest free blocks stands for all. -/
def getNumFreeBlock (deviceType : DeviceType) : DeviceM HashValue A Nat := do
  let s := (← get).alloc
  let first ← readAllocator deviceType 0 BlockAllocator.getNumFreeBlock
  if s.rankSize = 1 then
    return first
  let counts ← (List.range (s.numAllocators deviceType)).mapM fun i =>
    readAllocator deviceType i BlockAllocator.getNumFreeBlock
  return counts.foldl min first * s.rankSize

def getNumFreeBlockOfRank (deviceType : DeviceType) (rankId : Nat) : DeviceM HashValue A Nat :=
  readAllocator deviceType rankId BlockAllocator.getNumFreeBlock

def getPhysicalBlockId (s : CpuNpuBlockAllocator A) (b : BlockId) : BlockId :=
  match s.getDeviceTypeForBlockId b with
  | .npu => b
  | .cpu => b - s.beginCpuBlockId

/-! ## Marks, lookups and the reset -/

def clearCopyOnWrites : DeviceM HashValue A (List (BlockId × BlockId)) := do
  if (← get).alloc.rankSize > 1 then
    throw (.runtimeError "ClearCopyOnWrites only supports single rank")
  onAllocator .npu 0 (onAlloc BlockAllocator.clearCopyOnWrites)

/-- All ids are taken to be on the device of the first one. -/
def markBlocksAsAccessed (rankId : Nat) (blockIds : List BlockId) (now : TimeStamp) :
    DeviceM HashValue A Unit := do
  match blockIds with
  | [] => return
  | b :: _ =>
    let deviceType := (← get).alloc.getDeviceTypeForBlockId b
    onAllocator deviceType rankId (onAlloc (BlockAllocator.markBlocksAsAccessed blockIds now))

def markBlocksAsComputed : DeviceM HashValue A Unit := do
  let s := (← get).alloc
  forM (List.range s.rankSize) fun rankIdx =>
    onAllocator .npu rankIdx (onAlloc BlockAllocator.markBlocksAsComputed)

def getCommonComputedBlockIds (computedSeqBlockIds : List (List BlockId)) :
    DeviceM HashValue A (List BlockId) :=
  onAllocator .npu 0 do
    return BlockAllocator.getCommonComputedBlockIds A computedSeqBlockIds

def getAllRankCommonComputedBlockNum (rankedComputedSeqBlockIds : List (List (List BlockId))) :
    DeviceM HashValue A (List Nat) :=
  rankedComputedSeqBlockIds.zipIdx.mapM fun (computedSeqBlockIds, rankIdx) =>
    onAllocator .npu rankIdx do
      return (BlockAllocator.getCommonComputedBlockIds A computedSeqBlockIds).length

def resetPrefixCache : DeviceM HashValue A Bool :=
  onAllocator .npu 0 (onAlloc BlockAllocator.resetPrefixCache)

def findCachedBlockPrefix (rankIdx : Nat) (blockHash : HashValue) : DeviceM HashValue A Bool :=
  onAllocator .npu rankIdx (onAlloc (BlockAllocator.findCachedBlockPrefix blockHash))

def findCachedBlocksPrefix (rankIdx : Nat) (blockHashes : List HashValue) :
    DeviceM HashValue A (List BlockId) :=
  onAllocator .npu rankIdx (onAlloc (BlockAllocator.findCachedBlocksPrefix blockHashes))

end CpuNpuBlockAllocator

end MindieLLM
