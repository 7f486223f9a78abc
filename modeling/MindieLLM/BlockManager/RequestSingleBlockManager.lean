import MindieLLM.BlockManager.EmptyBlocks
import MindieLLM.BlockManager.SelfAttnBlockManager
import Mathlib.Data.Set.Card

/-!
# The block manager that keeps one block for each request

A request owns one block, shared by all of its sequences. One map binds sequences to requests and
another holds, for each request, the block and the number of sequences bound to it; the block goes
back to the allocator with the last of them.

## Main definitions

* `RequestSingleBlockManager`, `RequestSingleBlockManager.new`: the manager and its constructor
* `canAllocate`, `allocate`, `fork`, `free`: the operations
* `Op`, `Op.Regular`, `Run`: runs of the manager whose calls fail or return
* `Bookkept`: the two maps and the allocator agree

## Main results

* `bookkept_of_run`: regular calls keep the books
* `not_keepsBooks`: an allocation that throws leaves an entry without a block
-/

namespace MindieLLM

open Program

variable {HashValue A : Type}

structure RequestEntry where
  block : Option Ptr := none
  refCount : Nat := 0
  deriving DecidableEq

structure RequestSingleBlockManager (HashValue A : Type) where
  npuBlockNum : Nat
  reservedBlockNum : Nat
  rankSize : Nat
  blockAllocator : World HashValue (CpuNpuBlockAllocator A)
  seqId2RequestId : SequenceId → Option RequestId
  requestEntries : RequestId → Option RequestEntry

namespace RequestSingleBlockManager

abbrev RequestM (HashValue A : Type) := EStateM Exn (RequestSingleBlockManager HashValue A)

def allocatorLens :
    Lens (RequestSingleBlockManager HashValue A) (World HashValue (CpuNpuBlockAllocator A)) where
  get s := s.blockAllocator
  put w s := { s with blockAllocator := w }
  get_put _ _ := rfl
  put_get _ := rfl
  put_put _ _ _ := rfl

@[simp]
theorem allocatorLens_get (s : RequestSingleBlockManager HashValue A) :
    allocatorLens.get s = s.blockAllocator := rfl

@[simp]
theorem allocatorLens_put (w : World HashValue (CpuNpuBlockAllocator A))
    (s : RequestSingleBlockManager HashValue A) :
    allocatorLens.put w s = { s with blockAllocator := w } := rfl

/-- An operation of `blockAllocator_`. -/
abbrev onAllocator {α : Type} (c : CpuNpuBlockAllocator.DeviceM HashValue A α) :
    RequestM HashValue A α :=
  zoom allocatorLens c

/-- `requestEntries_[rid] = entry` -/
def setEntry (rid : RequestId) (entry : Option RequestEntry) : RequestM HashValue A Unit :=
  modify fun s => { s with requestEntries := Function.update s.requestEntries rid entry }

def setBinding (sid : SequenceId) (rid : Option RequestId) : RequestM HashValue A Unit :=
  modify fun s => { s with seqId2RequestId := Function.update s.seqId2RequestId sid rid }

/-- `entry.refCount++` on the entry of a request. -/
def incrRefCount (rid : RequestId) : RequestM HashValue A Unit :=
  modify fun s => { s with
    requestEntries := Function.update s.requestEntries rid
      ((s.requestEntries rid).map fun e => { e with refCount := e.refCount + 1 }) }

variable [PrefixHasher HashValue] [BlockAllocator HashValue A]

/-- The constructor. -/
def new (config : BlockManagerConfig) : Except Exn (RequestSingleBlockManager HashValue A) := do
  if config.rankSize = 0 ∨ config.hostSize = 0 then
    throw (.invalidArgument "The rank and host size must be greater than 0")
  if config.npuBlockNum = 0 then
    throw (.invalidArgument "npuBlockNum must be > 0")
  if config.reservedBlockNum > config.npuBlockNum then
    throw (.invalidArgument "reservedBlockNum must be <= npuBlockNum")
  let blockAllocator ← CpuNpuBlockAllocator.new {
    numCpuBlocks := config.cpuBlockNum
    numNpuBlocks := config.npuBlockNum - config.reservedBlockNum
    blockSize := if config.cacheBlockSize = 0 then 1 else config.cacheBlockSize
    rankSize := config.rankSize
    hostSize := config.hostSize }
  return {
    npuBlockNum := config.npuBlockNum
    reservedBlockNum := config.reservedBlockNum
    rankSize := config.rankSize
    blockAllocator := blockAllocator
    seqId2RequestId := fun _ => none
    requestEntries := fun _ => none }

def getNumFreeNpuBlocks : RequestM HashValue A Nat :=
  onAllocator (CpuNpuBlockAllocator.getNumFreeBlockOfRank .npu 0)

def canAllocate (seqGroup : Option (SequenceGroup HashValue)) :
    RequestM HashValue A AllocStatus := do
  match seqGroup with
  | none => return .never
  | some seqGroup =>
    if (seqGroup.getFirstSequence .waiting).isEmpty then
      return .never
    let s ← get
    if (s.requestEntries seqGroup.requestId).isSome then
      return .ok
    if s.npuBlockNum - s.reservedBlockNum < 1 then
      return .never
    if (← getNumFreeNpuBlocks) ≥ 1 then
      return .ok
    return .later

/-- Bind a sequence that is not bound to any request. -/
def bindSeq (rid : RequestId) (sid : SequenceId) : RequestM HashValue A Unit := do
  if ((← get).seqId2RequestId sid).isSome then
    return
  setBinding sid (some rid)
  incrRefCount rid

/-- The entry is in the map before the block is allocated. -/
def allocate (seqGroup : Option (SequenceGroup HashValue)) : RequestM HashValue A Bool := do
  match seqGroup with
  | none => return false
  | some seqGroup =>
    let waitingSeqs := seqGroup.getFirstSequence .waiting
    if waitingSeqs.isEmpty then
      return false
    let rid := seqGroup.requestId
    let entry := ((← get).requestEntries rid).getD {}
    setEntry rid (some entry)
    if entry.block.isNone then
      let p ← onAllocator
        (CpuNpuBlockAllocator.allocateMutableBlock .npu [] none invalidHashValue 0)
      setEntry rid (some { block := some p, refCount := 0 })
    forM waitingSeqs fun seq => bindSeq rid seq.seqId
    return true

def fork (parentSeq childSeq : Option (Sequence HashValue)) : RequestM HashValue A Unit := do
  match parentSeq, childSeq with
  | some parentSeq, some childSeq =>
    let s ← get
    match s.seqId2RequestId parentSeq.seqId with
    | none => throw (.runtimeError
        "parentSeq has no bound requestId in RequestSingleBlockManager::Fork")
    | some rid =>
      if ((s.requestEntries rid).bind (·.block)).isNone then
        throw (.runtimeError "request entry missing in RequestSingleBlockManager::Fork")
      setBinding childSeq.seqId (some rid)
      incrRefCount rid
  | _, _ => throw (.invalidArgument "parentSeq/childSeq cannot be null")

def free (seqId : SequenceId) : RequestM HashValue A Unit := do
  let s ← get
  match s.seqId2RequestId seqId with
  | none => return
  | some rid =>
    match s.requestEntries rid with
    | none => setBinding seqId none
    | some entry =>
      let entry := { entry with refCount := entry.refCount - 1 }
      setEntry rid (some entry)
      setBinding seqId none
      if entry.refCount = 0 then
        match entry.block with
        | some p => onAllocator (CpuNpuBlockAllocator.free p)
        | none => pure ()
        setEntry rid none

/-! ## Runs -/

/-- A call of the manager. -/
inductive Op (HashValue : Type)
  | canAllocate (seqGroup : Option (SequenceGroup HashValue))
  | allocate (seqGroup : Option (SequenceGroup HashValue))
  | fork (parentSeq childSeq : Option (Sequence HashValue))
  | free (seqId : SequenceId)

/-- The manager after a call, whether it returned or threw. -/
def after {α : Type} (c : RequestM HashValue A α) (m : RequestSingleBlockManager HashValue A) :
    RequestSingleBlockManager HashValue A :=
  match c m with
  | .ok _ m' => m'
  | .error _ m' => m'

def step (m : RequestSingleBlockManager HashValue A) : Op HashValue →
    RequestSingleBlockManager HashValue A
  | .canAllocate seqGroup => after (canAllocate seqGroup) m
  | .allocate seqGroup => after (allocate seqGroup) m
  | .fork parentSeq childSeq => after (fork parentSeq childSeq) m
  | .free seqId => after (free seqId) m

/-- The free blocks of the rank that all ranks share. -/
def freeBlocks (m : RequestSingleBlockManager HashValue A) : Nat :=
  BlockAllocator.getNumFreeBlock (m.blockAllocator.alloc.allocators .npu 0)

/-- A call meets the condition in the state it is made in if it does not allocate for a new request
without a free block, or without a sequence to bind to it, and does not fork a child that is bound
already. -/
def Op.Regular (m : RequestSingleBlockManager HashValue A) : Op HashValue → Prop
  | .allocate (some seqGroup) =>
    seqGroup.getFirstSequence .waiting ≠ [] → m.requestEntries seqGroup.requestId = none →
      0 < m.freeBlocks ∧
        ∃ seq ∈ seqGroup.getFirstSequence .waiting, m.seqId2RequestId seq.seqId = none
  | .fork (some parentSeq) (some childSeq) =>
    m.seqId2RequestId parentSeq.seqId ≠ none → m.seqId2RequestId childSeq.seqId = none
  | _ => True

instance (m : RequestSingleBlockManager HashValue A) (op : Op HashValue) :
    Decidable (op.Regular m) :=
  match op with
  | .canAllocate _ | .allocate none | .free _ => inferInstanceAs (Decidable True)
  | .fork none _ | .fork (some _) none => inferInstanceAs (Decidable True)
  | .allocate (some seqGroup) => inferInstanceAs (Decidable
      (seqGroup.getFirstSequence .waiting ≠ [] → m.requestEntries seqGroup.requestId = none →
        0 < m.freeBlocks ∧
          ∃ seq ∈ seqGroup.getFirstSequence .waiting, m.seqId2RequestId seq.seqId = none))
  | .fork (some parentSeq) (some childSeq) => inferInstanceAs (Decidable
      (m.seqId2RequestId parentSeq.seqId ≠ none → m.seqId2RequestId childSeq.seqId = none))

/-- The states a manager can reach by calls that satisfy `C` in the state they are made in. -/
inductive Run (C : RequestSingleBlockManager HashValue A → Op HashValue → Prop)
    (config : BlockManagerConfig) : RequestSingleBlockManager HashValue A → Prop
  | new {m : RequestSingleBlockManager HashValue A} (h : new config = .ok m) : Run C config m
  | step {m : RequestSingleBlockManager HashValue A} (op : Op HashValue) (h : Run C config m)
    (hop : C m op) : Run C config (m.step op)

/-- The sequences bound to a request. -/
def boundTo (m : RequestSingleBlockManager HashValue A) (rid : RequestId) : Set SequenceId :=
  {sid | m.seqId2RequestId sid = some rid}

/-- The books of the manager. -/
structure Bookkept (m : RequestSingleBlockManager HashValue A) : Prop where
  /-- An entry holds a block, and no other entry holds the same. -/
  holdsBlock : ∀ rid entry, m.requestEntries rid = some entry → ∃ p, entry.block = some p ∧
    ∀ rid' entry' p', m.requestEntries rid' = some entry' → entry'.block = some p' →
      (m.blockAllocator.mem.obj p').blockId = (m.blockAllocator.mem.obj p).blockId → rid' = rid
  /-- Every block that is not free is held by an entry. -/
  blocks : m.freeBlocks + {rid | m.requestEntries rid ≠ none}.encard =
    (m.npuBlockNum - m.reservedBlockNum : Nat)
  /-- The reference count is the number of sequences bound to the request. -/
  refCount : ∀ rid, (m.boundTo rid).encard = ((m.requestEntries rid).map (·.refCount)).getD 0
  /-- Without bound sequences all blocks are free. -/
  allFreed : (∀ sid, m.seqId2RequestId sid = none) →
    m.freeBlocks = m.npuBlockNum - m.reservedBlockNum

/-- A call of `Allocate` that throws or returns false leaves no entry behind. -/
def FailsClean (m : RequestSingleBlockManager HashValue A) (seqGroup : SequenceGroup HashValue) :
    Prop :=
  (∀ m', allocate (some seqGroup) m ≠ .ok true m') →
    (m.step (.allocate (some seqGroup))).requestEntries seqGroup.requestId ≠ none →
      m.requestEntries seqGroup.requestId ≠ none

/-! ## The allocator of rank 0 -/

variable {w w' : World HashValue (CpuNpuBlockAllocator A)} {live : Finset Ptr} {total : Nat}
  {p : Ptr}

/-- The allocator that the manager takes its blocks from, with the memory. -/
def rank0 (w : World HashValue (CpuNpuBlockAllocator A)) : World HashValue A :=
  (CpuNpuBlockAllocator.allocatorLens .npu 0).get w

variable [LeasesEmptyBlocks A]

/-- The live blocks are lent by the allocator of rank 0, and are found to belong to it. -/
structure Rank0 (w : World HashValue (CpuNpuBlockAllocator A)) (live : Finset Ptr) (total : Nat) :
    Prop where
  rankSize : 0 < w.alloc.rankSize
  begin : w.alloc.beginCpuBlockId = total
  total : BlockAllocator.getNumTotalBlocks (rank0 w).alloc = total
  lent : LeasesEmptyBlocks.Lent (rank0 w) live
  rankIdx : ∀ p ∈ live, (w.mem.obj p).rankIdx = 0

omit [PrefixHasher HashValue] [BlockAllocator HashValue A] [LeasesEmptyBlocks A] in
theorem rank0_put (v : World HashValue A) (m : Mem HashValue) :
    rank0 { (CpuNpuBlockAllocator.allocatorLens .npu 0).put v w with mem := m } =
      { v with mem := m } := by
  simp [rank0, CpuNpuBlockAllocator.allocatorLens, CpuNpuBlockAllocator.setAllocator]

namespace Rank0

theorem card (h : Rank0 w live total) :
    BlockAllocator.getNumFreeBlock (w.alloc.allocators .npu 0) + live.card = total := by
  have := LeasesEmptyBlocks.card h.lent
  rw [h.total] at this
  exact this

omit [PrefixHasher HashValue] [BlockAllocator HashValue A] [LeasesEmptyBlocks A] in
theorem wp_onAllocator {α : Type} {c : WorldM HashValue A α}
    {Q : α → World HashValue (CpuNpuBlockAllocator A) → Prop}
    {T : Exn → World HashValue (CpuNpuBlockAllocator A) → Prop} (hrank : 0 < w.alloc.rankSize) :
    wp (CpuNpuBlockAllocator.onAllocator .npu 0 c) Q T w ↔
      wp c (fun a v => Q a ((CpuNpuBlockAllocator.allocatorLens .npu 0).put v w))
        (fun e v => T e ((CpuNpuBlockAllocator.allocatorLens .npu 0).put v w)) (rank0 w) := by
  have hlt : ¬0 ≥ w.alloc.numAllocators .npu := not_le.mpr hrank
  unfold CpuNpuBlockAllocator.onAllocator
  rw [wp_bind, wp_get]
  simp only [hlt, if_false, wp_zoom, rank0]

theorem wp_allocate (h : Rank0 w live total) (extraHash : HashValue) :
    wp (CpuNpuBlockAllocator.allocateMutableBlock .npu [] none extraHash 0)
      (fun p w' => p ∉ live ∧ Rank0 w' (insert p live) total ∧
        ∀ q ∈ live, w'.mem.obj q = w.mem.obj q)
      (fun _ w' => w' = w ∧ BlockAllocator.getNumFreeBlock (w.alloc.allocators .npu 0) = 0) w := by
  unfold CpuNpuBlockAllocator.allocateMutableBlock
  rw [wp_bind, wp_onAllocator h.rankSize]
  refine wp_mono (LeasesEmptyBlocks.wp_allocate h.lent extraHash) ?_ ?_
  · rintro p v ⟨hp, hlent, htotal, hframe⟩
    simp only [HashLessBlockObj.setRankIdx, wp_bind, wp_zoom, wp_modify, wp_pure]
    have hne : ∀ q ∈ live, q ≠ p := fun q hq heq => hp (heq ▸ hq)
    have hframe' : ∀ q ∈ live,
        (v.mem.setObj p { v.mem.obj p with rankIdx := 0 }).obj q = w.mem.obj q := by
      intro q hq
      rw [Mem.setObj_obj_ne _ _ (hne q hq)]
      exact hframe q hq
    refine ⟨hp, ?_, hframe'⟩
    constructor
    · exact h.rankSize
    · exact h.begin
    · exact (congrArg _ (congrArg World.alloc (rank0_put v _))).trans (htotal.trans h.total)
    · exact (rank0_put v _).symm ▸ LeasesEmptyBlocks.setRankIdx hlent p 0
    · intro q hq
      rcases Finset.mem_insert.mp hq with rfl | hq
      · exact congrArg BlockObj.rankIdx (Mem.setObj_obj_same v.mem q _)
      · exact (congrArg BlockObj.rankIdx (hframe' q hq)).trans (h.rankIdx q hq)
  · rintro _ v ⟨rfl, hzero⟩
    exact ⟨Lens.put_get _ w, hzero⟩

theorem wp_free (h : Rank0 w live total) (hp : p ∈ live) :
    wp (CpuNpuBlockAllocator.free p)
      (fun _ w' => Rank0 w' (live.erase p) total ∧
        ∀ q ∈ live.erase p, w'.mem.obj q = w.mem.obj q)
      (fun _ _ => False) w := by
  have hid := LeasesEmptyBlocks.blockId_lt h.lent p hp
  rw [h.total, ← h.begin] at hid
  have hdevice : w.alloc.getDeviceTypeForBlockId (w.mem.obj p).blockId = .npu := if_pos hid
  unfold CpuNpuBlockAllocator.free CpuNpuBlockAllocator.onAllocatorOf CpuNpuBlockAllocator.locate
  simp only [wp_bind, wp_zoom, wp_load, World.memLens_get, World.memLens_put, wp_get, wp_pure]
  rw [hdevice, h.rankIdx p hp, wp_onAllocator h.rankSize]
  refine wp_mono (LeasesEmptyBlocks.wp_free h.lent p hp) ?_ fun _ _ hf => hf
  rintro _ v ⟨hlent, htotal, hframe⟩
  have hput := rank0_put (w := w) v v.mem
  refine ⟨?_, hframe⟩
  constructor
  · exact h.rankSize
  · exact h.begin
  · exact (congrArg _ (congrArg World.alloc hput)).trans (htotal.trans h.total)
  · exact hput.symm ▸ hlent
  · intro q hq
    exact (congrArg BlockObj.rankIdx (hframe q hq)).trans
      (h.rankIdx q (Finset.mem_of_mem_erase hq))

end Rank0

/-! ## The invariant -/

variable {m : RequestSingleBlockManager HashValue A} {rid : RequestId} {sid : SequenceId}
  {entry : RequestEntry}

/-- The entries hold the live blocks, one each, and count the sequences bound to them. -/
structure Kept (m : RequestSingleBlockManager HashValue A) (live : Finset Ptr) : Prop where
  rank0 : Rank0 m.blockAllocator live (m.npuBlockNum - m.reservedBlockNum)
  block : ∀ rid entry, m.requestEntries rid = some entry → ∃ p ∈ live, entry.block = some p
  inj : ∀ rid rid' entry entry', m.requestEntries rid = some entry →
    m.requestEntries rid' = some entry' → entry.block = entry'.block → rid = rid'
  cover : ∀ p ∈ live, ∃ rid entry, m.requestEntries rid = some entry ∧ entry.block = some p
  refCount : ∀ rid, (m.boundTo rid).encard = ((m.requestEntries rid).map (·.refCount)).getD 0

/-- Every entry has a sequence that will free it. -/
def Served (m : RequestSingleBlockManager HashValue A) : Prop :=
  ∀ rid, m.requestEntries rid ≠ none → ∃ sid, m.seqId2RequestId sid = some rid

namespace Kept

theorem refCount_of_some (h : Kept m live) (he : m.requestEntries rid = some entry) :
    (m.boundTo rid).encard = entry.refCount := by
  rw [h.refCount rid, he]
  rfl

/-- Sequences are bound to requests that have an entry. -/
theorem exists_entry (h : Kept m live) (hsid : m.seqId2RequestId sid = some rid) :
    ∃ entry, m.requestEntries rid = some entry := by
  have hcount := h.refCount rid
  cases he : m.requestEntries rid with
  | some entry => exact ⟨entry, rfl⟩
  | none =>
    rw [he] at hcount
    have hempty : m.boundTo rid = ∅ := Set.encard_eq_zero.mp hcount
    exact absurd (show sid ∈ m.boundTo rid from hsid) (hempty ▸ Set.notMem_empty sid)

theorem boundTo_eq_empty (h : Kept m live) (he : m.requestEntries rid = none) :
    m.boundTo rid = ∅ := by
  have hcount := h.refCount rid
  rw [he] at hcount
  exact Set.encard_eq_zero.mp hcount

/-- The entries are as many as the live blocks. -/
theorem encard_entries (h : Kept m live) :
    {rid | m.requestEntries rid ≠ none}.encard = live.card := by
  let blockOf (rid : RequestId) : Ptr := ((m.requestEntries rid).bind (·.block)).getD 0
  have hblock : ∀ rid entry p, m.requestEntries rid = some entry → entry.block = some p →
      blockOf rid = p := by
    intro rid entry p he hp
    simp [blockOf, he, hp]
  have hinj : Set.InjOn blockOf {rid | m.requestEntries rid ≠ none} := by
    intro rid hrid rid' hrid' heq
    obtain ⟨entry, he⟩ := Option.ne_none_iff_exists'.mp hrid
    obtain ⟨entry', he'⟩ := Option.ne_none_iff_exists'.mp hrid'
    obtain ⟨p, -, hp⟩ := h.block rid entry he
    obtain ⟨p', -, hp'⟩ := h.block rid' entry' he'
    rw [hblock _ _ _ he hp, hblock _ _ _ he' hp'] at heq
    exact h.inj _ _ _ _ he he' (by rw [hp, hp', heq])
  have himage : Set.image blockOf {rid | m.requestEntries rid ≠ none} = live := by
    ext p
    constructor
    · rintro ⟨rid, hrid, rfl⟩
      obtain ⟨entry, he⟩ := Option.ne_none_iff_exists'.mp hrid
      obtain ⟨p, hlive, hp⟩ := h.block rid entry he
      rw [hblock _ _ _ he hp]
      exact hlive
    · intro hp
      obtain ⟨rid, entry, he, hblk⟩ := h.cover p hp
      exact ⟨rid, by simp [he], hblock _ _ _ he hblk⟩
  rw [← hinj.encard_image, himage, Set.encard_coe_eq_coe_finsetCard]

theorem bookkept (h : Kept m live) (hserved : Served m) : Bookkept m where
  holdsBlock rid entry he := by
    obtain ⟨p, hlive, hp⟩ := h.block rid entry he
    refine ⟨p, hp, fun rid' entry' p' he' hp' hid => ?_⟩
    obtain ⟨q, hlive', hq⟩ := h.block rid' entry' he'
    obtain rfl : q = p' := Option.some.inj (hq.symm.trans hp')
    have heq := LeasesEmptyBlocks.blockId_inj h.rank0.lent q hlive' p hlive hid
    exact h.inj _ _ _ _ he' he (by rw [hp', hp, heq])
  blocks := by
    rw [h.encard_entries, ← h.rank0.card]
    push_cast
    rfl
  refCount := h.refCount
  allFreed hnone := by
    have hlive : live = ∅ := by
      rw [Finset.eq_empty_iff_forall_notMem]
      intro p hp
      obtain ⟨rid, entry, he, -⟩ := h.cover p hp
      obtain ⟨sid, hsid⟩ := hserved rid (by simp [he])
      rw [hnone sid] at hsid
      cases hsid
    have hcard := h.rank0.card
    rw [hlive] at hcard
    exact hcard

end Kept

/-! ## What the calls do to the books -/

theorem encard_eq_pred {x : ℕ∞} {n : Nat} (h : x + 1 = n) : x = ((n - 1 : Nat) : ℕ∞) := by
  cases x with
  | top => simp at h
  | coe k =>
    have hk : k + 1 = n := by exact_mod_cast h
    subst hk
    simp

/-- An unbound sequence becomes bound to a request. -/
def bound (m : RequestSingleBlockManager HashValue A) (rid : RequestId) (sid : SequenceId) :
    RequestSingleBlockManager HashValue A :=
  { m with
    seqId2RequestId := Function.update m.seqId2RequestId sid (some rid)
    requestEntries := Function.update m.requestEntries rid
      ((m.requestEntries rid).map fun e => { e with refCount := e.refCount + 1 }) }

/-- A sequence of a request is no longer bound. -/
def unbound (m : RequestSingleBlockManager HashValue A) (rid : RequestId) (sid : SequenceId) :
    RequestSingleBlockManager HashValue A :=
  { m with
    seqId2RequestId := Function.update m.seqId2RequestId sid none
    requestEntries := Function.update m.requestEntries rid
      ((m.requestEntries rid).map fun e => { e with refCount := e.refCount - 1 }) }

omit [PrefixHasher HashValue] [BlockAllocator HashValue A] [LeasesEmptyBlocks A] in
theorem boundTo_update (sid : SequenceId) (r : Option RequestId) (rid : RequestId) :
    boundTo { m with seqId2RequestId := Function.update m.seqId2RequestId sid r } rid =
      if r = some rid then insert sid (m.boundTo rid) else m.boundTo rid \ {sid} := by
  ext s
  by_cases hs : s = sid
  · subst hs
    by_cases hr : r = some rid <;> simp [boundTo, hr]
  · by_cases hr : r = some rid <;> simp [boundTo, hr, hs]

namespace Kept

/-- A change of the counts only. -/
theorem recount (h : Kept m live) (f : RequestEntry → RequestEntry)
    (hf : ∀ e, (f e).block = e.block) (seqId2RequestId : SequenceId → Option RequestId)
    (hcount : ∀ rid', (boundTo { m with seqId2RequestId := seqId2RequestId } rid').encard =
      (((Function.update m.requestEntries rid ((m.requestEntries rid).map f)) rid').map
        (·.refCount)).getD 0) :
    Kept { m with
      seqId2RequestId := seqId2RequestId
      requestEntries := Function.update m.requestEntries rid ((m.requestEntries rid).map f) }
      live := by
  have hentry : ∀ rid' entry', (Function.update m.requestEntries rid
      ((m.requestEntries rid).map f)) rid' = some entry' →
      ∃ entry, m.requestEntries rid' = some entry ∧ entry'.block = entry.block := by
    intro rid' entry' he'
    rw [Function.update_apply] at he'
    split at he'
    · rename_i heq
      subst heq
      obtain ⟨entry, he, rfl⟩ := Option.map_eq_some_iff.mp he'
      exact ⟨entry, he, hf entry⟩
    · exact ⟨entry', he', rfl⟩
  constructor
  · exact h.rank0
  · intro rid' entry' he'
    obtain ⟨entry, he, hblk⟩ := hentry rid' entry' he'
    rw [hblk]
    exact h.block rid' entry he
  · intro rid₁ rid₂ e₁ e₂ h₁ h₂ heq
    obtain ⟨entry₁, he₁, hblk₁⟩ := hentry rid₁ e₁ h₁
    obtain ⟨entry₂, he₂, hblk₂⟩ := hentry rid₂ e₂ h₂
    exact h.inj _ _ _ _ he₁ he₂ (by rw [← hblk₁, ← hblk₂, heq])
  · intro p hp
    obtain ⟨rid', entry, he, hblk⟩ := h.cover p hp
    by_cases heq : rid' = rid
    · subst heq
      exact ⟨rid', f entry, by simp [he], (hf entry).trans hblk⟩
    · exact ⟨rid', entry, by simp [heq, he], hblk⟩
  · exact hcount

theorem bound (h : Kept m live) (hsid : m.seqId2RequestId sid = none)
    (he : m.requestEntries rid = some entry) : Kept (m.bound rid sid) live := by
  have hnot : ∀ rid', sid ∉ m.boundTo rid' := by
    intro rid' hmem
    rw [show m.seqId2RequestId sid = some rid' from hmem] at hsid
    cases hsid
  refine h.recount (fun e => { e with refCount := e.refCount + 1 }) (fun _ => rfl) _ fun rid' => ?_
  rw [boundTo_update]
  by_cases heq : rid' = rid
  · subst heq
    rw [if_pos rfl, Set.encard_insert_of_notMem (hnot rid'), h.refCount_of_some he]
    simp [he]
  · have hne : some rid ≠ some rid' := fun hr => heq (Option.some.inj hr).symm
    rw [if_neg hne, Set.sdiff_singleton_eq_self (hnot rid'), h.refCount rid']
    simp [heq]

theorem unbound (h : Kept m live) (hsid : m.seqId2RequestId sid = some rid) :
    Kept (m.unbound rid sid) live := by
  obtain ⟨entry, he⟩ := h.exists_entry hsid
  refine h.recount (fun e => { e with refCount := e.refCount - 1 }) (fun _ => rfl) _ fun rid' => ?_
  rw [boundTo_update, if_neg (by simp)]
  by_cases heq : rid' = rid
  · subst heq
    have hmem : sid ∈ m.boundTo rid' := hsid
    have hcount := Set.encard_sdiff_singleton_add_one hmem
    rw [h.refCount_of_some he] at hcount
    rw [encard_eq_pred hcount]
    simp [he]
  · have hnot : sid ∉ m.boundTo rid' := by
      intro hmem
      rw [show m.seqId2RequestId sid = some rid' from hmem] at hsid
      exact heq (Option.some.inj hsid)
    rw [Set.sdiff_singleton_eq_self hnot, h.refCount rid']
    simp [heq]

/-- A new request takes a block. -/
theorem take (h : Kept m live) (hnone : m.requestEntries rid = none) (hp : p ∉ live)
    (hrank : Rank0 w' (insert p live) (m.npuBlockNum - m.reservedBlockNum)) :
    Kept { m with
      blockAllocator := w'
      requestEntries := Function.update m.requestEntries rid (some ⟨some p, 0⟩) }
      (insert p live) := by
  have hempty := h.boundTo_eq_empty hnone
  constructor
  · exact hrank
  · intro rid' entry' he'
    dsimp only at he'
    rw [Function.update_apply] at he'
    split at he'
    · obtain rfl := Option.some.inj he'
      exact ⟨p, Finset.mem_insert_self p live, rfl⟩
    · obtain ⟨q, hq, hblk⟩ := h.block rid' entry' he'
      exact ⟨q, Finset.mem_insert_of_mem hq, hblk⟩
  · have hfresh : ∀ rid' entry', m.requestEntries rid' = some entry' → entry'.block ≠ some p := by
      intro rid' entry' he' hblk
      obtain ⟨q, hq, hblk'⟩ := h.block rid' entry' he'
      rw [hblk', Option.some.injEq] at hblk
      exact hp (hblk ▸ hq)
    intro rid₁ rid₂ e₁ e₂ h₁ h₂ heq
    dsimp only at h₁ h₂
    rw [Function.update_apply] at h₁ h₂
    split at h₁ <;> split at h₂
    · rename_i hr₁ hr₂
      rw [hr₁, hr₂]
    · obtain rfl := Option.some.inj h₁
      exact absurd heq.symm (hfresh _ _ h₂)
    · obtain rfl := Option.some.inj h₂
      exact absurd heq (hfresh _ _ h₁)
    · exact h.inj _ _ _ _ h₁ h₂ heq
  · intro q hq
    rcases Finset.mem_insert.mp hq with rfl | hq
    · exact ⟨rid, ⟨some q, 0⟩, by simp, rfl⟩
    · obtain ⟨rid', entry', he', hblk⟩ := h.cover q hq
      refine ⟨rid', entry', ?_, hblk⟩
      have hne : rid' ≠ rid := by
        rintro rfl
        rw [hnone] at he'
        cases he'
      simp [hne, he']
  · intro rid'
    show (m.boundTo rid').encard = _
    by_cases heq : rid' = rid
    · subst heq
      rw [hempty]
      simp
    · rw [h.refCount rid']
      simp [heq]

/-- The entry of a request without sequences goes, and its block is free. -/
theorem close (h : Kept m live) (he : m.requestEntries rid = some entry)
    (hcount : entry.refCount = 0) (hp : entry.block = some p)
    (hrank : Rank0 w' (live.erase p) (m.npuBlockNum - m.reservedBlockNum)) :
    Kept { m with
      blockAllocator := w'
      requestEntries := Function.update m.requestEntries rid none } (live.erase p) := by
  have hentry : ∀ rid' entry', (Function.update m.requestEntries rid none) rid' = some entry' →
      rid' ≠ rid ∧ m.requestEntries rid' = some entry' := by
    intro rid' entry' he'
    rw [Function.update_apply] at he'
    split at he'
    · cases he'
    · rename_i hne
      exact ⟨hne, he'⟩
  constructor
  · exact hrank
  · intro rid' entry' he'
    obtain ⟨hne, he'⟩ := hentry rid' entry' he'
    obtain ⟨q, hq, hblk⟩ := h.block rid' entry' he'
    refine ⟨q, Finset.mem_erase.mpr ⟨?_, hq⟩, hblk⟩
    rintro rfl
    exact hne (h.inj _ _ _ _ he' he (hblk.trans hp.symm))
  · intro rid₁ rid₂ e₁ e₂ h₁ h₂ heq
    exact h.inj _ _ _ _ (hentry _ _ h₁).2 (hentry _ _ h₂).2 heq
  · intro q hq
    obtain ⟨hne, hq⟩ := Finset.mem_erase.mp hq
    obtain ⟨rid', entry', he', hblk⟩ := h.cover q hq
    refine ⟨rid', entry', ?_, hblk⟩
    have hne' : rid' ≠ rid := by
      rintro rfl
      obtain rfl := Option.some.inj (he.symm.trans he')
      exact hne (Option.some.inj (hblk.symm.trans hp))
    simp [hne', he']
  · intro rid'
    show (m.boundTo rid').encard = _
    by_cases heq : rid' = rid
    · subst heq
      rw [h.refCount_of_some he, hcount]
      simp
    · rw [h.refCount rid']
      simp [heq]

end Kept

/-! ## The calls -/

/-- Between the calls the books are kept, and every entry has a sequence. -/
structure Good (m : RequestSingleBlockManager HashValue A) : Prop where
  kept : ∃ live, Kept m live
  served : Served m

theorem Good.bookkept (h : Good m) : Bookkept m := by
  obtain ⟨live, hkept⟩ := h.kept
  exact hkept.bookkept h.served

omit [PrefixHasher HashValue] [BlockAllocator HashValue A] [LeasesEmptyBlocks A] in
theorem Served.bound (h : Served m) (hsid : m.seqId2RequestId sid = none) :
    Served (m.bound rid sid) := by
  intro rid' hrid'
  by_cases heq : rid' = rid
  · exact ⟨sid, by simp [RequestSingleBlockManager.bound, heq]⟩
  · obtain ⟨sid', hsid'⟩ := h rid' (by simpa [RequestSingleBlockManager.bound, heq] using hrid')
    refine ⟨sid', ?_⟩
    have hne : sid' ≠ sid := by
      rintro rfl
      rw [hsid] at hsid'
      cases hsid'
    simpa [RequestSingleBlockManager.bound, hne] using hsid'

theorem Kept.wp_getNumFreeNpuBlocks (h : Kept m live) :
    wp getNumFreeNpuBlocks (fun n m' => n = m.freeBlocks ∧ m' = m) (fun _ _ => False) m := by
  unfold getNumFreeNpuBlocks CpuNpuBlockAllocator.getNumFreeBlockOfRank
    CpuNpuBlockAllocator.readAllocator
  rw [wp_zoom, allocatorLens_get, Rank0.wp_onAllocator h.rank0.rankSize, wp_bind, wp_get, wp_pure]
  have hput : (CpuNpuBlockAllocator.allocatorLens .npu 0).put
      (RequestSingleBlockManager.rank0 m.blockAllocator) m.blockAllocator = m.blockAllocator :=
    Lens.put_get _ _
  refine ⟨rfl, ?_⟩
  rw [hput]
  rfl

theorem wp_canAllocate (h : Good m) (seqGroup : Option (SequenceGroup HashValue)) :
    wp (canAllocate seqGroup) (fun _ m' => m' = m) (fun _ _ => False) m := by
  obtain ⟨live, hkept⟩ := h.kept
  unfold canAllocate
  cases seqGroup with
  | none => rfl
  | some seqGroup =>
    dsimp only
    rw [wp_ite]
    refine ⟨fun _ => rfl, fun _ => ?_⟩
    simp only [wp_bind, wp_get]
    rw [wp_ite]
    refine ⟨fun _ => rfl, fun _ => ?_⟩
    rw [wp_ite]
    refine ⟨fun _ => rfl, fun _ => ?_⟩
    rw [wp_bind]
    refine wp_mono hkept.wp_getNumFreeNpuBlocks ?_ fun _ _ hf => hf
    rintro n _ ⟨-, rfl⟩
    rw [wp_ite]
    exact ⟨fun _ => rfl, fun _ => rfl⟩

theorem wp_fork (h : Good m) (parentSeq childSeq : Option (Sequence HashValue))
    (hop : Op.Regular m (.fork parentSeq childSeq)) :
    wp (fork parentSeq childSeq) (fun _ m' => Good m') (fun _ m' => m' = m) m := by
  obtain ⟨live, hkept⟩ := h.kept
  unfold fork
  rcases parentSeq with _ | parentSeq
  · rfl
  rcases childSeq with _ | childSeq
  · rfl
  simp only [wp_bind, wp_get]
  cases hparent : m.seqId2RequestId parentSeq.seqId with
  | none => rfl
  | some rid =>
    have hchild : m.seqId2RequestId childSeq.seqId = none := hop (by simp [hparent])
    obtain ⟨entry, he⟩ := hkept.exists_entry hparent
    obtain ⟨p, -, hp⟩ := hkept.block rid entry he
    have hblock : ((m.requestEntries rid).bind (·.block)).isNone = false := by simp [he, hp]
    simp only [hblock, Bool.false_eq_true, if_false, wp_bind, setBinding, incrRefCount, wp_modify]
    exact ⟨⟨live, hkept.bound hchild he⟩, h.served.bound hchild⟩

/-- A request has a sequence exactly if its count is not zero. -/
theorem Kept.served_iff (h : Kept m live) :
    Served m ↔ ∀ rid entry, m.requestEntries rid = some entry → entry.refCount ≠ 0 := by
  constructor
  · intro hserved rid entry he hzero
    obtain ⟨sid, hsid⟩ := hserved rid (by simp [he])
    have hcount := h.refCount_of_some he
    rw [hzero, Nat.cast_zero, Set.encard_eq_zero] at hcount
    exact absurd (show sid ∈ m.boundTo rid from hsid) (hcount ▸ Set.notMem_empty sid)
  · intro hpos rid hrid
    obtain ⟨entry, he⟩ := Option.ne_none_iff_exists'.mp hrid
    have hne : m.boundTo rid ≠ ∅ := by
      intro hempty
      have hcount := h.refCount_of_some he
      rw [hempty, Set.encard_empty] at hcount
      exact hpos rid entry he (by exact_mod_cast hcount.symm)
    exact Set.nonempty_iff_ne_empty.mpr hne

theorem wp_free (h : Good m) (seqId : SequenceId) :
    wp (free seqId) (fun _ m' => Good m') (fun _ _ => False) m := by
  obtain ⟨live, hkept⟩ := h.kept
  have hpos := hkept.served_iff.mp h.served
  unfold free
  rw [wp_bind, wp_get]
  cases hsid : m.seqId2RequestId seqId with
  | none => exact h
  | some rid =>
    obtain ⟨⟨block, n⟩, he⟩ := hkept.exists_entry hsid
    obtain ⟨p, hlive, rfl : block = some p⟩ := hkept.block rid _ he
    have hkept' := hkept.unbound hsid
    have hunbound : m.unbound rid seqId = { m with
        seqId2RequestId := Function.update m.seqId2RequestId seqId none
        requestEntries := Function.update m.requestEntries rid (some ⟨some p, n - 1⟩) } := by
      simp [RequestSingleBlockManager.unbound, he]
    rw [hunbound] at hkept'
    simp only [he, setEntry, setBinding, wp_bind, wp_modify]
    rw [wp_ite]
    constructor
    · -- the last sequence: the block goes back
      intro hzero
      simp only [wp_bind, wp_zoom, allocatorLens_get]
      refine wp_mono (hkept'.rank0.wp_free hlive) ?_ fun _ _ hf => hf
      rintro _ w' ⟨hrank, -⟩
      have hclose := hkept'.close (Function.update_self _ _ _) hzero rfl hrank
      refine ⟨⟨_, hclose⟩, hclose.served_iff.mpr fun rid' entry' he' => ?_⟩
      simp only [Function.update_apply] at he'
      split at he'
      · cases he'
      · exact hpos rid' entry' he'
    · intro hn
      refine ⟨⟨_, hkept'⟩, hkept'.served_iff.mpr fun rid' entry' he' => ?_⟩
      simp only [Function.update_apply] at he'
      split at he'
      · obtain rfl := Option.some.inj he'
        exact hn
      · exact hpos rid' entry' he'

omit [PrefixHasher HashValue] [BlockAllocator HashValue A] [LeasesEmptyBlocks A] in
/-- A sequence that is bound already is passed over. -/
theorem wp_bindSeq {Q : Unit → RequestSingleBlockManager HashValue A → Prop}
    {T : Exn → RequestSingleBlockManager HashValue A → Prop} :
    wp (bindSeq rid sid) Q T m ↔
      (m.seqId2RequestId sid ≠ none → Q () m) ∧
      (m.seqId2RequestId sid = none → Q () (m.bound rid sid)) := by
  unfold bindSeq
  rw [wp_bind, wp_get]
  cases hsid : m.seqId2RequestId sid with
  | none => simp [setBinding, incrRefCount, RequestSingleBlockManager.bound]
  | some _ => simp

/-- What binding the waiting sequences keeps: the request gets a sequence if it has none. -/
structure Binding (rid : RequestId) (waiting : List (Sequence HashValue))
    (m : RequestSingleBlockManager HashValue A) : Prop where
  kept : ∃ live, Kept m live
  entry : m.requestEntries rid ≠ none
  others : ∀ rid', rid' ≠ rid → m.requestEntries rid' ≠ none →
    ∃ sid, m.seqId2RequestId sid = some rid'
  own : (∃ sid, m.seqId2RequestId sid = some rid) ∨
    ∃ seq ∈ waiting, m.seqId2RequestId seq.seqId = none

theorem wp_bindSeqs {waiting : List (Sequence HashValue)} (h : Binding rid waiting m) :
    wp (forM waiting fun seq => bindSeq rid seq.seqId) (fun _ m' => Good m') (fun _ _ => False)
      m := by
  refine wp_mono (wp_forM (I := Binding rid) _ waiting h ?_) ?_ fun _ _ hf => hf
  · intro seq rest m h
    rw [wp_bindSeq]
    constructor
    · intro hbound
      refine ⟨h.kept, h.entry, h.others, h.own.imp id ?_⟩
      rintro ⟨seq', hmem, hnone⟩
      rcases List.mem_cons.mp hmem with rfl | hmem
      · exact absurd hnone hbound
      · exact ⟨seq', hmem, hnone⟩
    · intro hnone
      obtain ⟨live, hkept⟩ := h.kept
      obtain ⟨entry, he⟩ := Option.ne_none_iff_exists'.mp h.entry
      refine ⟨⟨live, hkept.bound hnone he⟩, ?_, fun rid' hne hrid' => ?_, .inl ⟨seq.seqId, ?_⟩⟩
      · simp [RequestSingleBlockManager.bound, he]
      · obtain ⟨sid, hsid⟩ := h.others rid' hne
          (by simpa [RequestSingleBlockManager.bound, hne] using hrid')
        have hne' : sid ≠ seq.seqId := by
          rintro rfl
          rw [hnone] at hsid
          cases hsid
        exact ⟨sid, by simpa [RequestSingleBlockManager.bound, hne'] using hsid⟩
      · simp [RequestSingleBlockManager.bound]
  · rintro _ m h
    refine ⟨h.kept, fun rid' hrid' => ?_⟩
    by_cases heq : rid' = rid
    · subst heq
      rcases h.own with hsid | ⟨seq, hmem, -⟩
      · exact hsid
      · cases hmem
    · exact h.others rid' heq hrid'

theorem wp_allocate (h : Good m) (seqGroup : Option (SequenceGroup HashValue))
    (hop : Op.Regular m (.allocate seqGroup)) :
    wp (allocate seqGroup) (fun ok m' => Good m' ∧ (ok = false → m' = m)) (fun _ _ => False) m := by
  obtain ⟨live, hkept⟩ := h.kept
  unfold allocate
  rcases seqGroup with _ | seqGroup
  · exact ⟨h, fun _ => rfl⟩
  dsimp only
  rw [wp_ite]
  refine ⟨fun _ => ⟨h, fun _ => rfl⟩, fun hwaiting => ?_⟩
  have hwaiting : seqGroup.getFirstSequence .waiting ≠ [] := by simpa using hwaiting
  simp only [wp_bind, wp_get, setEntry, wp_modify]
  cases he : m.requestEntries seqGroup.requestId with
  | some entry =>
    obtain ⟨p, -, hp⟩ := hkept.block _ entry he
    have hsame : Function.update m.requestEntries seqGroup.requestId (some entry) =
        m.requestEntries := by
      rw [← he, Function.update_eq_self]
    simp only [Option.getD_some, hp, Option.isNone_some, Bool.false_eq_true, if_false, hsame,
      wp_pure, wp_bind]
    have hstart : Binding seqGroup.requestId (seqGroup.getFirstSequence .waiting) m :=
      ⟨⟨live, hkept⟩, by simp [he], fun rid' _ => h.served rid', .inl (h.served _ (by simp [he]))⟩
    refine wp_mono (wp_bindSeqs hstart) ?_ fun _ _ hf => hf
    exact fun _ m' hgood => ⟨hgood, fun hfalse => Bool.noConfusion hfalse⟩
  | none =>
    obtain ⟨hfree, hunbound⟩ := hop hwaiting he
    simp only [Option.getD_none, Option.isNone_none, if_true, wp_bind, wp_zoom, allocatorLens_get]
    refine wp_mono (hkept.rank0.wp_allocate invalidHashValue) ?_ ?_
    · rintro p w' ⟨hp, hrank, -⟩
      have htake := hkept.take he hp hrank
      simp only [wp_modify, allocatorLens_put, Function.update_idem]
      have hstart : Binding seqGroup.requestId (seqGroup.getFirstSequence .waiting)
          { m with
            blockAllocator := w'
            requestEntries :=
              Function.update m.requestEntries seqGroup.requestId (some ⟨some p, 0⟩) } := by
        refine ⟨⟨_, htake⟩, by simp, fun rid' hne hrid' => ?_, .inr hunbound⟩
        exact h.served rid' (by simpa [hne] using hrid')
      refine wp_mono (wp_bindSeqs hstart) ?_ fun _ _ hf => hf
      exact fun _ m' hgood => ⟨hgood, fun hfalse => Bool.noConfusion hfalse⟩
    · rintro _ w' ⟨-, hzero⟩
      exact absurd hzero hfree.ne'

/-! ## Runs -/

omit [PrefixHasher HashValue] [BlockAllocator HashValue A] [LeasesEmptyBlocks A] in
theorem after_of_wp {α : Type} {c : RequestM HashValue A α}
    {P : RequestSingleBlockManager HashValue A → Prop}
    (h : wp c (fun _ m' => P m') (fun _ m' => P m') m) : P (after c m) := by
  unfold wp at h
  unfold after
  cases hc : c m with
  | ok a m' => rw [hc] at h; exact h
  | error e m' => rw [hc] at h; exact h

theorem Good.step (h : Good m) {op : Op HashValue} (hop : op.Regular m) : Good (m.step op) := by
  cases op with
  | canAllocate seqGroup =>
    refine after_of_wp (wp_mono (wp_canAllocate h seqGroup) ?_ fun _ _ hf => hf.elim)
    rintro _ _ rfl
    exact h
  | allocate seqGroup =>
    exact after_of_wp (wp_mono (wp_allocate h seqGroup hop) (fun _ _ h' => h'.1)
      fun _ _ hf => hf.elim)
  | fork parentSeq childSeq =>
    refine after_of_wp (wp_mono (wp_fork h parentSeq childSeq hop) (fun _ _ h' => h') ?_)
    rintro _ _ rfl
    exact h
  | free seqId =>
    exact after_of_wp (wp_mono (wp_free h seqId) (fun _ _ h' => h') fun _ _ hf => hf.elim)

theorem Good.new {config : BlockManagerConfig} (hnew : new config = .ok m) : Good m := by
  unfold RequestSingleBlockManager.new CpuNpuBlockAllocator.new at hnew
  simp only [bind, Except.bind, pure, Except.pure, throw, throwThe, MonadExceptOf.throw] at hnew
  split at hnew
  · cases hnew
  rename_i hsizes
  split at hnew
  · cases hnew
  rename_i hnpu
  split at hnew
  · cases hnew
  have hrank : ¬config.rankSize = 0 := fun h => hsizes (.inl h)
  simp only [hrank, if_false, Except.ok.injEq] at hnew
  subst hnew
  refine ⟨⟨∅, ?_⟩, fun rid hrid => absurd rfl hrid⟩
  constructor
  · constructor
    · exact Nat.pos_of_ne_zero hrank
    · rfl
    · exact LeasesEmptyBlocks.total_new _ _
    · refine LeasesEmptyBlocks.new ?_ fun hpos => ?_
      · split <;> omega
      · have := Nat.mul_pos hpos (Nat.pos_of_ne_zero hrank)
        omega
    · simp
  · simp
  · simp
  · simp
  · simp [boundTo]

theorem Good.of_run {config : BlockManagerConfig} (h : Run (fun m op => op.Regular m) config m) :
    Good m := by
  induction h with
  | new hnew => exact .new hnew
  | step op _ hop ih => exact ih.step hop

theorem Good.failsClean (h : Good m) {seqGroup : SequenceGroup HashValue}
    (hop : Op.Regular m (.allocate (some seqGroup))) : FailsClean m seqGroup := by
  intro hfail hentry
  have hwp := wp_allocate h (some seqGroup) hop
  change (after (allocate (some seqGroup)) m).requestEntries _ ≠ none at hentry
  unfold after at hentry
  unfold wp at hwp
  cases hc : allocate (some seqGroup) m with
  | ok a m' =>
    rw [hc] at hwp hentry
    cases a with
    | false => rwa [hwp.2 rfl] at hentry
    | true => exact absurd hc (hfail m')
  | error e m' =>
    rw [hc] at hwp
    exact hwp.elim

/-! ## The books over whole runs -/

/-- In every state reached by calls that satisfy `C`, the books are kept and an allocation that
satisfies `C` and fails leaves no entry behind. -/
def KeepsBooks (A : Type) [BlockAllocator HashValue A]
    (C : RequestSingleBlockManager HashValue A → Op HashValue → Prop) : Prop :=
  ∀ config m, Run C config m →
    Bookkept m ∧ ∀ seqGroup, C m (.allocate (some seqGroup)) → FailsClean m seqGroup

theorem keepsBooks_of_leases : KeepsBooks A fun m op => op.Regular m := by
  intro config m hrun
  have hgood := Good.of_run hrun
  exact ⟨hgood.bookkept, fun seqGroup hop => hgood.failsClean hop⟩

/-- **Bookkeeping.** With either allocator, regular calls in any order keep the books. -/
theorem bookkept_of_run (HashValue : Type) [PrefixHasher HashValue] [DecidableEq HashValue] :
    KeepsBooks (HashLessBlockAllocator HashValue) (fun m op => op.Regular m) ∧
      KeepsBooks (PrefixCacheBlockAllocator HashValue) (fun m op => op.Regular m) :=
  ⟨keepsBooks_of_leases, keepsBooks_of_leases⟩

section Leaks

/-- One block for the NPU. -/
def oneBlock : BlockManagerConfig where
  cacheBlockSize := 4
  cpuBlockNum := 0
  npuBlockNum := 1
  reservedBlockNum := 0
  speculativeSlots := 0

def waitingSeq (seqId : SequenceId) : Sequence UInt64 where
  seqId := seqId
  promptTokenIds := [1, 2]
  outputTokenIds := []
  stage := .prefill
  numComputedTokens := 0
  status := .waiting
  hashValue := 0

def waitingGroup (requestId : RequestId) (seqIds : List SequenceId) : SequenceGroup UInt64 where
  firstSeq := waitingSeq (seqIds.headD 0)
  otherSeqs := seqIds.tail.map waitingSeq
  enableParallelSampling := false
  parallelSeqs := []
  requestId := requestId

/-- Two sequences are bound to one request and freed again. -/
theorem bookkept_of_two :
    ∃ m : RequestSingleBlockManager UInt64 (PrefixCacheBlockAllocator UInt64),
      m.requestEntries "a" = some ⟨some 3, 2⟩ ∧ Bookkept m := by
  refine ⟨_, ?_, ((bookkept_of_run UInt64).2 oneBlock _
    (.step (.allocate (some (waitingGroup "a" [1, 2]))) (.new rfl) ?_)).1⟩
  · decide +kernel
  · decide +kernel

/-- The second request finds no free block; its entry stays, without a block. -/
theorem not_keepsBooks :
    ¬KeepsBooks (HashLessBlockAllocator UInt64) (fun _ _ => True) ∧
      ¬KeepsBooks (PrefixCacheBlockAllocator UInt64) (fun _ _ => True) := by
  have hrun (A : Type) [BlockAllocator UInt64 A] (m : RequestSingleBlockManager UInt64 A)
      (hnew : new oneBlock = .ok m) : Run (fun _ _ => True) oneBlock
        ((m.step (.allocate (some (waitingGroup "a" [1])))).step
          (.allocate (some (waitingGroup "b" [2])))) :=
    .step _ (.step _ (.new hnew) trivial) trivial
  constructor <;> intro h
  · have hbooks := (h _ _ (hrun _ _ rfl)).1
    obtain ⟨p, hp, -⟩ := hbooks.holdsBlock "b" ⟨none, 0⟩ (by decide +kernel)
    cases hp
  · have hbooks := (h _ _ (hrun _ _ rfl)).1
    obtain ⟨p, hp, -⟩ := hbooks.holdsBlock "b" ⟨none, 0⟩ (by decide +kernel)
    cases hp

end Leaks

end RequestSingleBlockManager

end MindieLLM
