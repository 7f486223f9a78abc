import MindieLLM.Program.Wp
import Mathlib.Data.List.AList

/-!
# Block objects and the object pool

A block object stands for one block of a sequence's key-value cache: the tokens it holds, the
block before it in the sequence, and the id of the physical block it owns. Objects are pooled
and referred to by address, so a block's predecessor is an address and can outlive the block it
named. `HashLessBlockObj` and `PrefixCachingBlockObj` share one record: the second class adds
its own fields to the first.

## Main definitions

* `Exn`: the exceptions of the block manager, with their messages
* `PrefixHasher`, `hashCombine`: the hash of a block given the hash of the block before it
* `BlockObj`, `ObjPool`, `Mem`: block objects, the pool of free ones, the memory they live in
* `HashLessBlockObj.*`, `PrefixCachingBlockObj.*`: the methods of the two block classes
* `acquireObj`, `freeObj`: taking an object from the pool and putting it back
-/

namespace MindieLLM

open Program

abbrev TokenId := Int
abbrev BlockId := Int
abbrev RefCount := Int
abbrev SequenceId := Int

/-- Access times are exact rationals. -/
abbrev TimeStamp := Rat

/-- The address of a pooled block object (`BlockObjSPtr`). -/
abbrev Ptr := Nat

def invalidBlockId : BlockId := -1
def placeholderToken : TokenId := -1
def defaultLastAccessedTime : TimeStamp := -1
def simulateSequenceId : SequenceId := 9223372036854774

/-- What the block manager throws; `diverges` stands for a call that never returns and
`undefinedBehavior` for one the language gives no meaning. -/
inductive Exn
  | runtimeError (what : String)
  | invalidArgument (what : String)
  | outOfRange (what : String)
  | diverges (what : String)
  | undefinedBehavior (what : String)
  deriving DecidableEq, Repr

inductive DeviceType
  | cpu
  | npu
  deriving DecidableEq, Repr

inductive AllocStatus
  | ok
  | later
  | never
  deriving DecidableEq, Repr

/-! ## Prefix hashes -/

/-- A hash for full blocks: the hash of a block depends on the hash of the block before it (none
for the first block of a sequence), on its tokens and on the extra hash of the sequence. -/
class PrefixHasher (HashValue : Type) where
  invalidHashValue : HashValue
  prefixHash : Option HashValue → List TokenId → HashValue → HashValue
  prefixHash_ne_invalid : ∀ prev tokenIds extraHash,
    prefixHash prev tokenIds extraHash ≠ invalidHashValue

export PrefixHasher (invalidHashValue)

/-- `HashCombine` on 64-bit hash values; it never yields the invalid hash value 0. -/
def hashCombine (seed hv : UInt64) : UInt64 :=
  let seed' :=
    seed ^^^ (hv + (0x9e3779b97f4a7c15 : UInt64) + seed <<< (6 : UInt64) + seed >>> (2 : UInt64))
  if seed' = 0 then 1 else seed'

theorem hashCombine_ne_zero (seed hv : UInt64) : hashCombine seed hv ≠ 0 := by
  unfold hashCombine
  simp only
  split
  · decide
  · assumption

/-- The loop of `PrefixCachingBlockObj::PrefixHash` over the previous hash, the tokens and the
extra hash. A token hashes to itself. -/
instance : PrefixHasher UInt64 where
  invalidHashValue := 0
  prefixHash prev tokenIds extraHash :=
    let seed := match prev with
      | none => 0
      | some h => hashCombine 0 h
    hashCombine (tokenIds.foldl (fun s t => hashCombine s (UInt64.ofInt t)) seed) extraHash
  prefixHash_ne_invalid _ _ _ := hashCombine_ne_zero _ _

/-! ## Block objects -/

variable {HashValue : Type}

/-- A block object. The fields from `prefixBlockSize` on belong to `PrefixCachingBlockObj`, which
keeps a block size of its own. -/
structure BlockObj (HashValue : Type) where
  prevBlock : Option Ptr
  tokenIds : List TokenId
  blockSize : Nat
  blockId : BlockId
  rankIdx : Nat
  prefixBlockSize : Nat
  cachedPrefixHash : HashValue
  extraHash : HashValue
  numTokensTotal : Nat
  tokenIds_le : tokenIds.length ≤ blockSize

namespace BlockObj

/-- A block object as its constructor leaves it. -/
def new [PrefixHasher HashValue] : BlockObj HashValue where
  prevBlock := none
  tokenIds := []
  blockSize := 0
  blockId := invalidBlockId
  rankIdx := 0
  prefixBlockSize := 0
  cachedPrefixHash := invalidHashValue
  extraHash := invalidHashValue
  numTokensTotal := 0
  tokenIds_le := le_rfl

/-- `GetNumEmptySlots`; the throw it guards against is excluded by `tokenIds_le`. -/
def getNumEmptySlots (o : BlockObj HashValue) : Nat := o.blockSize - o.tokenIds.length

def isFull (o : BlockObj HashValue) : Bool := o.getNumEmptySlots == 0

theorem isFull_iff {o : BlockObj HashValue} : o.isFull ↔ o.tokenIds.length = o.blockSize := by
  have := o.tokenIds_le
  simp only [isFull, getNumEmptySlots, beq_iff_eq]
  omega

def isLastTokenPlaceholder (o : BlockObj HashValue) : Bool :=
  o.tokenIds.getLast? == some placeholderToken

def isReadyToCalcPrefixHash (o : BlockObj HashValue) : Bool :=
  o.isFull && !o.isLastTokenPlaceholder

/-- The tokens of a block grow to the right, within its block size. -/
def pushTokens (o : BlockObj HashValue) (tokenIds : List TokenId)
    (h : tokenIds.length ≤ o.getNumEmptySlots) : BlockObj HashValue :=
  { o with
    tokenIds := o.tokenIds ++ tokenIds
    tokenIds_le := by
      have := o.tokenIds_le
      simp only [List.length_append, getNumEmptySlots] at *
      omega }

def setToken (o : BlockObj HashValue) (i : Nat) (t : TokenId) : BlockObj HashValue :=
  { o with
    tokenIds := o.tokenIds.set i t
    tokenIds_le := by simpa using o.tokenIds_le }

end BlockObj

/-! ## The object pool and the memory -/

/-- The pool of free objects. Objects `0, …, poolSize - 1` have been created; the stack holds
those that are free, its head is the top. -/
structure ObjPool where
  poolSize : Nat
  stack : List Ptr
  deriving DecidableEq, Repr

/-- The block objects, by address, and the pool they are taken from. -/
structure Mem (HashValue : Type) where
  obj : Ptr → BlockObj HashValue
  pool : ObjPool

namespace Mem

/-- The memory after a pool of `poolSize` objects has been constructed. -/
def new [PrefixHasher HashValue] (poolSize : Nat) : Mem HashValue where
  obj := fun _ => BlockObj.new
  pool := ⟨poolSize, (List.range poolSize).reverse⟩

def setObj (m : Mem HashValue) (p : Ptr) (o : BlockObj HashValue) : Mem HashValue :=
  { m with obj := Function.update m.obj p o }

@[simp]
theorem setObj_obj_same (m : Mem HashValue) (p : Ptr) (o : BlockObj HashValue) :
    (m.setObj p o).obj p = o := by
  simp [setObj]

theorem setObj_obj_ne (m : Mem HashValue) {p q : Ptr} (o : BlockObj HashValue) (h : q ≠ p) :
    (m.setObj p o).obj q = m.obj q := by
  simp [setObj, h]

theorem setObj_obj (m : Mem HashValue) (p q : Ptr) (o : BlockObj HashValue) :
    (m.setObj p o).obj q = if q = p then o else m.obj q := by
  by_cases h : q = p
  · subst h; simp
  · simp [setObj_obj_ne m o h, h]

@[simp]
theorem setObj_pool (m : Mem HashValue) (p : Ptr) (o : BlockObj HashValue) :
    (m.setObj p o).pool = m.pool := rfl

/-- The object at an address, as a component of the memory. -/
def objAt (p : Ptr) : Lens (Mem HashValue) (BlockObj HashValue) where
  get m := m.obj p
  put o m := m.setObj p o
  get_put o m := by simp
  put_get m := by simp [setObj]
  put_put o o' m := by simp [setObj]

@[simp]
theorem objAt_get (p : Ptr) (m : Mem HashValue) : (objAt p).get m = m.obj p := rfl

@[simp]
theorem objAt_put (p : Ptr) (o : BlockObj HashValue) (m : Mem HashValue) :
    (objAt p).put o m = m.setObj p o := rfl

end Mem

abbrev MemM (HashValue : Type) := EStateM Exn (Mem HashValue)

/-- A program on the object at address `p`. -/
abbrev withObj (p : Ptr) {α : Type} (c : EStateM Exn (BlockObj HashValue) α) :
    MemM HashValue α :=
  zoom (Mem.objAt p) c

/-- Read the object at address `p`. -/
def load (p : Ptr) : MemM HashValue (BlockObj HashValue) := do
  let m ← get
  return m.obj p

@[simp]
theorem wp_load {Q : BlockObj HashValue → Mem HashValue → Prop} {T : Exn → Mem HashValue → Prop}
    (p : Ptr) (m : Mem HashValue) : wp (load p) Q T m ↔ Q (m.obj p) m := Iff.rfl

/-! ## `HashLessBlockObj` -/

namespace HashLessBlockObj

/-- `AppendTokenIdsNoCow` -/
def appendTokenIdsNoCow (tokenIds : List TokenId) : EStateM Exn (BlockObj HashValue) Unit := do
  if tokenIds.isEmpty then
    return
  let o ← get
  if h : tokenIds.length ≤ o.getNumEmptySlots then
    set (o.pushTokens tokenIds h)
  else
    throw (.runtimeError "space on block is not enough for appending given tokens")

def resetBlockObj [PrefixHasher HashValue] (o : BlockObj HashValue) : BlockObj HashValue :=
  { o with
    prevBlock := none
    tokenIds := []
    blockSize := 0
    blockId := invalidBlockId
    tokenIds_le := le_rfl }

/-- The assignments of `HashLessBlockObj::InitBlockObj` after the reset. -/
def assign (prevBlock : Option Ptr) (blockSize : Nat) (blockId : BlockId)
    (o : BlockObj HashValue) : BlockObj HashValue :=
  { o with
    prevBlock := prevBlock
    tokenIds := []
    blockSize := blockSize
    blockId := blockId
    tokenIds_le := Nat.zero_le _ }

/-- `InitBlockObj`, with the virtual `ResetBlockObj` of the class as an argument. -/
def initBlockObjWith (reset : BlockObj HashValue → BlockObj HashValue)
    (prevBlock : Option Ptr) (tokenIds : List TokenId) (blockSize : Nat) (blockId : BlockId) :
    EStateM Exn (BlockObj HashValue) Unit := do
  modify reset
  modify (assign prevBlock blockSize blockId)
  appendTokenIdsNoCow tokenIds

def initBlockObj [PrefixHasher HashValue] (p : Ptr) (prevBlock : Option Ptr)
    (tokenIds : List TokenId) (blockSize : Nat) (blockId : BlockId) : MemM HashValue Unit :=
  withObj p (initBlockObjWith resetBlockObj prevBlock tokenIds blockSize blockId)

/-- `AppendTokenIds` of the object itself; the allocator does the copy-on-write. -/
def appendTokenIds (tokenIds : List TokenId) : EStateM Exn (BlockObj HashValue) Unit := do
  let o ← get
  if o.blockId = invalidBlockId then
    throw (.runtimeError "block id invalid!")
  appendTokenIdsNoCow tokenIds

def resetBlockId : EStateM Exn (BlockObj HashValue) Unit := do
  let o ← get
  if o.blockId = invalidBlockId then
    throw (.runtimeError "block id is null!")
  set { o with blockId := invalidBlockId }

def setBlockId (blockId : BlockId) : EStateM Exn (BlockObj HashValue) Unit :=
  modify fun o => { o with blockId := blockId }

def setRankIdx (rankIdx : Nat) : EStateM Exn (BlockObj HashValue) Unit :=
  modify fun o => { o with rankIdx := rankIdx }

/-- `ReplaceToken` writes in place: neither the hash nor the block id is looked at. -/
def replaceToken (startIndex : Nat) (newToken : TokenId) :
    EStateM Exn (BlockObj HashValue) Unit := do
  let o ← get
  if startIndex ≥ o.tokenIds.length then
    throw (.outOfRange "startIndex is out of range of tokenIds_")
  if startIndex ≥ o.blockSize then
    throw (.outOfRange "startIndex is out of range of blockSize_")
  set (o.setToken startIndex newToken)

end HashLessBlockObj

/-! ## `PrefixCachingBlockObj` -/

namespace PrefixCachingBlockObj

variable [PrefixHasher HashValue]

/-- `ResetBlockObj` overrides the base method without calling it: the tokens, the predecessor
and the block id of the object survive in the pool. -/
def resetBlockObj (o : BlockObj HashValue) : BlockObj HashValue :=
  { o with
    prefixBlockSize := 0
    cachedPrefixHash := invalidHashValue
    extraHash := invalidHashValue
    numTokensTotal := 0 }

/-- `UpdateNumTokensTotal` -/
def updateNumTokensTotal (p : Ptr) : MemM HashValue Unit := do
  let o ← load p
  let prevTotal ← match o.prevBlock with
    | none => pure 0
    | some q => do
      let prev ← load q
      pure prev.numTokensTotal
  withObj p (modify fun o => { o with numTokensTotal := prevTotal + o.tokenIds.length })

def initBlockObj (p : Ptr) (prevBlock : Option Ptr) (tokenIds : List TokenId) (blockSize : Nat)
    (blockId : BlockId) (extraHash : HashValue) : MemM HashValue Unit := do
  withObj p
    (HashLessBlockObj.initBlockObjWith resetBlockObj prevBlock tokenIds blockSize blockId)
  withObj p (modify fun o => { o with prefixBlockSize := blockSize, extraHash := extraHash })
  updateNumTokensTotal p

variable [DecidableEq HashValue]

/-- The recursion of `PrefixHash` along the chain of previous blocks. The fuel bounds the depth:
a chain without a cycle has at most as many blocks as there are objects, a cyclic one overflows
the stack. -/
def prefixHashAux : Nat → Ptr → MemM HashValue HashValue
  | 0, _ => throw (.diverges "PrefixHash")
  | fuel + 1, p => do
    let o ← load p
    if o.cachedPrefixHash ≠ invalidHashValue then
      return o.cachedPrefixHash
    if !o.isReadyToCalcPrefixHash then
      return invalidHashValue
    let prevHash ← match o.prevBlock with
      | none => pure none
      | some q => do
        let h ← prefixHashAux fuel q
        pure (some h)
    if prevHash = some invalidHashValue then
      return invalidHashValue
    let seed := PrefixHasher.prefixHash prevHash o.tokenIds o.extraHash
    withObj p (modify fun o => { o with cachedPrefixHash := seed })
    return seed

/-- `PrefixHash`: the memoised hash, or else the hash computed from the chain, which is valid
only if every block from the first one on is full and does not end in a placeholder. -/
def prefixHash (p : Ptr) : MemM HashValue HashValue := do
  let m ← get
  prefixHashAux m.pool.poolSize p

def appendTokenIds (p : Ptr) (tokenIds : List TokenId) : MemM HashValue Unit := do
  let hash ← prefixHash p
  if hash ≠ invalidHashValue then
    throw (.runtimeError "AllocateBLockId Error:block is cached!")
  let o ← load p
  if tokenIds.length > o.prefixBlockSize ∨
      tokenIds.length > o.prefixBlockSize - o.tokenIds.length then
    throw (.runtimeError "AllocateBlockId Error:block is not enough!")
  withObj p (HashLessBlockObj.appendTokenIds tokenIds)
  updateNumTokensTotal p
  let _ ← prefixHash p

end PrefixCachingBlockObj

/-! ## `ObjPool` -/

/-- `AcquireObj`: the pool doubles when it is empty. -/
def acquireObj : MemM HashValue Ptr := do
  let m ← get
  match m.pool.stack with
  | p :: rest =>
    set { m with pool := { m.pool with stack := rest } }
    return p
  | [] =>
    let n := m.pool.poolSize
    match (List.range' n n).reverse with
    | p :: rest =>
      set { m with pool := ⟨2 * n, rest⟩ }
      return p
    | [] => throw (.undefinedBehavior "top of an empty pool")

/-- `FreeObj`, with the virtual `ResetBlockObj` of the class as an argument. -/
def freeObj (reset : BlockObj HashValue → BlockObj HashValue) (p : Ptr) :
    MemM HashValue Unit := do
  let m ← get
  if m.pool.stack.length = m.pool.poolSize then
    throw (.runtimeError
      "no ObjPool is used, but caller holds an object to free. must be a bug!")
  withObj p (modify reset)
  modify fun m => { m with pool := { m.pool with stack := p :: m.pool.stack } }

end MindieLLM
