import MindieLLM.BlockManager.BlockInfo

/-!
# The block allocator interface

An allocator hands out block ids and the objects that carry them. The objects live in a memory
that several allocators share, so an allocator's methods are programs on a `World`: that memory
together with the allocator's own state. `BlockAllocator` is the interface the two allocators
implement.
-/

namespace MindieLLM

open Program

variable {HashValue A : Type}

/-- An allocator and the memory its block objects live in. -/
structure World (HashValue A : Type) where
  mem : Mem HashValue
  alloc : A

namespace World

def memLens : Lens (World HashValue A) (Mem HashValue) where
  get w := w.mem
  put m w := { w with mem := m }
  get_put _ _ := rfl
  put_get _ := rfl
  put_put _ _ _ := rfl

def allocLens : Lens (World HashValue A) A where
  get w := w.alloc
  put a w := { w with alloc := a }
  get_put _ _ := rfl
  put_get _ := rfl
  put_put _ _ _ := rfl

@[simp]
theorem memLens_get (w : World HashValue A) : memLens.get w = w.mem := rfl

@[simp]
theorem memLens_put (m : Mem HashValue) (w : World HashValue A) :
    memLens.put m w = { w with mem := m } := rfl

@[simp]
theorem allocLens_get (w : World HashValue A) : allocLens.get w = w.alloc := rfl

@[simp]
theorem allocLens_put (a : A) (w : World HashValue A) :
    allocLens.put a w = { w with alloc := a } := rfl

end World

abbrev WorldM (HashValue A : Type) := EStateM Exn (World HashValue A)

/-- A program on the memory. -/
abbrev onMem {α : Type} (c : MemM HashValue α) : WorldM HashValue A α := zoom World.memLens c

/-- A program on the allocator's own state. -/
abbrev onAlloc {α : Type} (c : EStateM Exn A α) : WorldM HashValue A α :=
  zoom World.allocLens c

/-- The source blocks of a fork: the chain of previous blocks, first block first. The fuel bounds
the walk; a cyclic chain is walked for ever. -/
def sourceBlocks : Nat → Ptr → MemM HashValue (List Ptr)
  | 0, _ => throw (.diverges "Fork")
  | fuel + 1, p => do
    let o ← load p
    match o.prevBlock with
    | none => return [p]
    | some q =>
      let before ← sourceBlocks fuel q
      return before ++ [p]

/-! ## The interface -/

/-- The ids `beginBlockId, …, beginBlockId + numBlocks - 1`. -/
def blockIndices (beginBlockId : BlockId) (numBlocks : Nat) : List BlockId :=
  (List.range numBlocks).map fun i : Nat => (i : Int) + beginBlockId

theorem mem_blockIndices {beginBlockId b : BlockId} {numBlocks : Nat} :
    b ∈ blockIndices beginBlockId numBlocks ↔
      beginBlockId ≤ b ∧ b < beginBlockId + numBlocks := by
  simp only [blockIndices, List.mem_map, List.mem_range]
  constructor
  · rintro ⟨i, hi, rfl⟩
    lia
  · rintro ⟨h₁, h₂⟩
    exact ⟨(b - beginBlockId).toNat, by lia, by lia⟩

theorem nodup_blockIndices (beginBlockId : BlockId) (numBlocks : Nat) :
    (blockIndices beginBlockId numBlocks).Nodup :=
  List.nodup_range.map fun i j h => by simpa using h

/-- The virtual methods of `BlockAllocator`, and those of its class of block objects that the
callers of an allocator use. `enableCaching` is the configuration under which the allocator is
constructed. -/
class BlockAllocator (HashValue : outParam Type) (A : Type) where
  enableCaching : Bool
  new : (beginBlockId : BlockId) → (numBlocks blockSize : Nat) → A
  getHashValue : BlockObj HashValue → HashValue
  allocateMutableBlock : List TokenId → Option Ptr → HashValue → WorldM HashValue A Ptr
  allocateImmutableBlock : List TokenId → Option Ptr → HashValue → WorldM HashValue A Ptr
  allocateImmutableBlocks :
    List (List TokenId) → Option Ptr → HashValue → WorldM HashValue A (List Ptr)
  free : Ptr → Bool → WorldM HashValue A Unit
  fork : Ptr → WorldM HashValue A (List Ptr)
  getNumTotalBlocks : A → Nat
  getNumFreeBlock : A → Nat
  clearCopyOnWrites : EStateM Exn A (List (BlockId × BlockId))
  markBlocksAsAccessed : List BlockId → TimeStamp → EStateM Exn A Unit
  markBlocksAsComputed : EStateM Exn A Unit
  getCommonComputedBlockIds : List (List BlockId) → List BlockId
  swapOut : List Ptr → WorldM HashValue A Unit
  swapIn : List Ptr → WorldM HashValue A Unit
  resetPrefixCache : EStateM Exn A Bool
  findCachedBlockPrefix : HashValue → EStateM Exn A Bool
  findCachedBlocksPrefix : List HashValue → EStateM Exn A (List BlockId)
  appendTokenIds : Ptr → List TokenId → WorldM HashValue A Unit
  replaceToken : Ptr → Nat → TokenId → WorldM HashValue A Unit

end MindieLLM
