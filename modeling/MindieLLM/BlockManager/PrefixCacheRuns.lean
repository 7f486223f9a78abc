import MindieLLM.BlockManager.PrefixCacheOwner

/-!
# Runs of the prefix-caching allocator

An owner calls the operations of the allocator one after the other. It names live blocks only,
builds every chain with one extra hash, and swaps in only blocks that carry no id. A run consists
of calls that return.

## Main definitions

* `Client`, `Op`, `Op.Allowed`, `step`: the owner, its calls, and what a call does
* `Op.Safe R`: a call that gives up the last use of an id does so when the id can be released
* `SafeRun R`: a run all of whose calls are safe
* `Partitioned`: each managed id is free, evictable or in use

## Main results

* `SafeRun.tidy`: safe runs keep the allocator consistent
* `partitioned_of_safeRun`: in a safe run no id is lost and none is shared by accident
-/

namespace MindieLLM.PrefixCacheBlockAllocator

open Program

variable {HashValue : Type} [PrefixHasher HashValue] [DecidableEq HashValue]
  {R : PrefixCacheBlockAllocator HashValue → BlockId → Prop}

/-- An owner of blocks: the allocator with its memory, and the blocks that are live. -/
structure Client (HashValue : Type) where
  world : World HashValue (PrefixCacheBlockAllocator HashValue)
  live : Finset Ptr

/-- A fresh allocator and no live block. -/
def Client.new (beginBlockId : BlockId) (numBlocks blockSize poolSize : Nat) :
    Client HashValue where
  world := ⟨Mem.new poolSize, .new beginBlockId numBlocks blockSize⟩
  live := ∅

inductive Op (HashValue : Type)
  | allocateMutableBlock (tokenIds : List TokenId) (prevBlock : Option Ptr) (extraHash : HashValue)
  | allocateImmutableBlock (tokenIds : List TokenId) (prevBlock : Option Ptr)
    (extraHash : HashValue)
  | allocateImmutableBlocks (tokenIds : List (List TokenId)) (prevBlock : Option Ptr)
    (extraHash : HashValue)
  | appendTokenIds (p : Ptr) (tokenIds : List TokenId)
  | free (p : Ptr) (keepBlockObj : Bool)
  | fork (p : Ptr)
  | swapOut (blocks : List Ptr)
  | swapIn (blocks : List Ptr)
  | markBlocksAsComputed

namespace Op

/-- A block can follow `prevBlock` if that is live and of the same extra hash. -/
def CanFollow (c : Client HashValue) (prevBlock : Option Ptr) (extraHash : HashValue) : Prop :=
  ∀ q ∈ prevBlock, q ∈ c.live ∧ (c.world.mem.obj q).extraHash = extraHash

instance (c : Client HashValue) (prevBlock : Option Ptr) (extraHash : HashValue) :
    Decidable (CanFollow c prevBlock extraHash) :=
  inferInstanceAs (Decidable (∀ q ∈ prevBlock, _))

/-- The blocks a fork copies are live. -/
def CanFork (c : Client HashValue) (p : Ptr) : Prop :=
  match sourceBlocks c.world.mem.pool.poolSize p c.world.mem with
  | .ok sources _ => ∀ q ∈ sources, q ∈ c.live
  | .error _ _ => False

instance (c : Client HashValue) (p : Ptr) : Decidable (CanFork c p) := by
  unfold CanFork
  split <;> infer_instance

/-- The calls an owner may make. -/
def Allowed (c : Client HashValue) : Op HashValue → Prop
  | allocateMutableBlock _ prevBlock extraHash => CanFollow c prevBlock extraHash
  | allocateImmutableBlock _ prevBlock extraHash => CanFollow c prevBlock extraHash
  | allocateImmutableBlocks _ prevBlock extraHash => CanFollow c prevBlock extraHash
  | appendTokenIds p _ => p ∈ c.live
  | free p _ => p ∈ c.live
  | fork p => CanFork c p
  | swapOut blocks => ∀ p ∈ blocks, p ∈ c.live
  | swapIn blocks =>
    blocks.Nodup ∧ ∀ p ∈ blocks, p ∈ c.live ∧ (c.world.mem.obj p).blockId = invalidBlockId
  | markBlocksAsComputed => True

instance (c : Client HashValue) : DecidablePred (Allowed c)
  | allocateMutableBlock _ prevBlock extraHash =>
    inferInstanceAs (Decidable (CanFollow c prevBlock extraHash))
  | allocateImmutableBlock _ prevBlock extraHash =>
    inferInstanceAs (Decidable (CanFollow c prevBlock extraHash))
  | allocateImmutableBlocks _ prevBlock extraHash =>
    inferInstanceAs (Decidable (CanFollow c prevBlock extraHash))
  | appendTokenIds p _ => inferInstanceAs (Decidable (p ∈ c.live))
  | free p _ => inferInstanceAs (Decidable (p ∈ c.live))
  | fork p => inferInstanceAs (Decidable (CanFork c p))
  | swapOut blocks => inferInstanceAs (Decidable (∀ p ∈ blocks, p ∈ c.live))
  | swapIn blocks => inferInstanceAs (Decidable (blocks.Nodup ∧ ∀ p ∈ blocks,
      p ∈ c.live ∧ (c.world.mem.obj p).blockId = invalidBlockId))
  | markBlocksAsComputed => inferInstanceAs (Decidable True)

/-- The call, and the blocks that are live after it. -/
def exec (live : Finset Ptr) : Op HashValue → M HashValue (Finset Ptr)
  | allocateMutableBlock tokenIds prevBlock extraHash => do
    let p ← PrefixCacheBlockAllocator.allocateMutableBlock tokenIds prevBlock extraHash
    return insert p live
  | allocateImmutableBlock tokenIds prevBlock extraHash => do
    let p ← PrefixCacheBlockAllocator.allocateImmutableBlock tokenIds prevBlock extraHash
    return insert p live
  | allocateImmutableBlocks tokenIds prevBlock extraHash => do
    let ps ← PrefixCacheBlockAllocator.allocateImmutableBlocks tokenIds prevBlock extraHash
    return live ∪ ps.toFinset
  | appendTokenIds p tokenIds => do
    PrefixCacheBlockAllocator.appendTokenIds p tokenIds
    return live
  | free p keepBlockObj => do
    PrefixCacheBlockAllocator.free p keepBlockObj
    return if keepBlockObj then live else live.erase p
  | fork p => do
    let ps ← PrefixCacheBlockAllocator.fork p
    return live ∪ ps.toFinset
  | swapOut blocks => do
    PrefixCacheBlockAllocator.swapOut blocks
    return live
  | swapIn blocks => do
    PrefixCacheBlockAllocator.swapIn blocks
    return live
  | markBlocksAsComputed => do
    onAlloc PrefixCacheBlockAllocator.markBlocksAsComputed
    return live

/-- What a call must not do: give up the last use of an id that cannot be released. -/
def Safe (R : PrefixCacheBlockAllocator HashValue → BlockId → Prop) (c : Client HashValue) :
    Op HashValue → Prop
  | free p _ => SafeRelease R c.world c.live p
  | swapOut blocks => SwapOutSafe R c.live c.world blocks
  | _ => True

end Op

/-- The client after a call that is allowed and returns. -/
def step (c : Client HashValue) (op : Op HashValue) : Option (Client HashValue) :=
  if op.Allowed c then
    match op.exec c.live c.world with
    | .ok live w => some ⟨w, live⟩
    | .error _ _ => none
  else none

/-- The client after a sequence of calls. -/
def run (c : Client HashValue) : List (Op HashValue) → Option (Client HashValue)
  | [] => some c
  | op :: ops => (step c op).bind fun c' => run c' ops

/-- A run whose calls are all safe. -/
inductive SafeRun (R : PrefixCacheBlockAllocator HashValue → BlockId → Prop) :
    Client HashValue → List (Op HashValue) → Client HashValue → Prop
  | nil (c) : SafeRun R c [] c
  | snoc {c ops c₁ op c₂} (h : SafeRun R c ops c₁) (hsafe : op.Safe R c₁)
    (hstep : step c₁ op = some c₂) : SafeRun R c (ops ++ [op]) c₂

/-! ## Safe runs -/

theorem wp_exec_moved {c : Client HashValue} (h : Tidy c.world c.live) {op : Op HashValue}
    (hallowed : op.Allowed c) (hsafe : op.Safe R c) (hop : op ≠ .markBlocksAsComputed) :
    wp (op.exec c.live) (fun live' w' => Moved R c.world c.live w' live') (fun _ _ => True)
      c.world := by
  cases op with
  | allocateMutableBlock tokenIds prevBlock extraHash =>
    refine (wp_bind _ _).mpr (wp_mono
      (wp_allocateMutableBlock_moved (R := R) h tokenIds prevBlock extraHash) ?_ fun _ _ h => h)
    exact fun p w' hmoved => hmoved.2
  | allocateImmutableBlock tokenIds prevBlock extraHash =>
    refine (wp_bind _ _).mpr (wp_mono
      (wp_allocateImmutableBlock_moved (R := R) h tokenIds prevBlock extraHash) ?_ fun _ _ h => h)
    exact fun p w' hmoved => hmoved.2
  | allocateImmutableBlocks tokenIds prevBlock extraHash =>
    exact (wp_bind _ _).mpr (wp_allocateImmutableBlocks_moved h tokenIds prevBlock extraHash)
  | appendTokenIds p tokenIds =>
    exact (wp_bind _ _).mpr (wp_appendTokenIds_moved h hallowed tokenIds)
  | free p keepBlockObj => exact (wp_bind _ _).mpr (wp_free_moved h hallowed hsafe keepBlockObj)
  | fork p =>
    have hchain := wp_sourceBlocks c.world.mem.pool.poolSize p c.world.mem
    change Op.CanFork c p at hallowed
    unfold Op.CanFork at hallowed
    cases hrun : sourceBlocks c.world.mem.pool.poolSize p c.world.mem with
    | ok sources m =>
      rw [hrun] at hallowed
      obtain ⟨rfl, -⟩ := wp_ok hchain hrun
      exact (wp_bind _ _).mpr (wp_fork_moved h hrun hallowed)
    | error e m =>
      rw [hrun] at hallowed
      exact hallowed.elim
  | swapOut blocks => exact (wp_bind _ _).mpr (wp_swapOut_moved h blocks hallowed hsafe)
  | swapIn blocks => exact (wp_bind _ _).mpr (wp_swapIn_moved h blocks hallowed.1 hallowed.2)
  | markBlocksAsComputed => exact absurd rfl hop

/-- **Step lemma.** A safe call either moves ids or marks the touched ones as computed. -/
theorem step_cases {c c' : Client HashValue} {op : Op HashValue} (h : Tidy c.world c.live)
    (hsafe : op.Safe R c) (hstep : step c op = some c') :
    (op ≠ .markBlocksAsComputed ∧ Moved R c.world c.live c'.world c'.live) ∨
      (op = .markBlocksAsComputed ∧
        c' = ⟨{ c.world with alloc := c.world.alloc.marked }, c.live⟩) := by
  unfold step at hstep
  split at hstep
  swap
  · cases hstep
  rename_i hallowed
  cases hrun : op.exec c.live c.world with
  | error e w => rw [hrun] at hstep; cases hstep
  | ok live w =>
    rw [hrun] at hstep
    obtain rfl := Option.some.inj hstep
    by_cases hop : op = .markBlocksAsComputed
    · subst hop
      refine .inr ⟨rfl, ?_⟩
      have hmark : wp (Op.markBlocksAsComputed.exec c.live)
          (fun live w => live = c.live ∧ w = { c.world with alloc := c.world.alloc.marked })
          (fun _ _ => True) c.world := by
        simp only [Op.exec, wp_bind, wp_zoom, World.allocLens_get, World.allocLens_put]
        refine wp_mono (wp_markBlocksAsComputed c.world.alloc) ?_ fun _ _ _ => trivial
        rintro _ _ rfl
        exact ⟨rfl, rfl⟩
      obtain ⟨rfl, rfl⟩ := wp_ok hmark hrun
      rfl
    · have hmoved := wp_ok (wp_exec_moved h hallowed hsafe hop) hrun
      exact .inl ⟨hop, hmoved⟩

theorem step_tidy {c c' : Client HashValue} {op : Op HashValue} (h : Tidy c.world c.live)
    (hsafe : op.Safe R c) (hstep : step c op = some c') : Tidy c'.world c'.live := by
  rcases step_cases h hsafe hstep with ⟨-, hmoved⟩ | ⟨-, rfl⟩
  · exact hmoved.tidy
  · exact h.marked

/-- **Run lemma.** Safe runs keep the allocator consistent with the live blocks. -/
theorem SafeRun.tidy {c c' : Client HashValue} {ops : List (Op HashValue)}
    (hrun : SafeRun R c ops c') (h : Tidy c.world c.live) : Tidy c'.world c'.live := by
  induction hrun with
  | nil => exact h
  | snoc _ hsafe hstep ih => exact step_tidy ih hsafe hstep

theorem step_allBlockIndices {c c' : Client HashValue} {op : Op HashValue}
    (h : Tidy c.world c.live) (hsafe : op.Safe R c) (hstep : step c op = some c') :
    c'.world.alloc.allBlockIndices = c.world.alloc.allBlockIndices := by
  rcases step_cases h hsafe hstep with ⟨-, hmoved⟩ | ⟨-, rfl⟩
  · exact (IdSteps.const hmoved.steps).1
  · rfl

/-- The ids an allocator manages never change. -/
theorem SafeRun.allBlockIndices {c c' : Client HashValue} {ops : List (Op HashValue)}
    (hrun : SafeRun R c ops c') (h : Tidy c.world c.live) :
    c'.world.alloc.allBlockIndices = c.world.alloc.allBlockIndices := by
  induction hrun with
  | nil => rfl
  | snoc hrun hsafe hstep ih => exact (step_allBlockIndices (hrun.tidy h) hsafe hstep).trans ih

/-! ## The partition of the block ids -/

section Partition

variable (c : Client HashValue) (b : BlockId)

/-- The live blocks that carry the id. -/
def users : Finset Ptr := c.live.filter fun p => (c.world.mem.obj p).blockId = b

/-- The id is on the free list, once. -/
structure IsFree : Prop where
  once : c.world.alloc.freeBlockIndices.count b = 1
  refCount : c.world.alloc.refCounter.refCounts b = some 0
  evictor : c.world.alloc.evictor.containsBlock b = false

/-- The id is in the evictor, and registered for the contents recorded there and no other. -/
structure IsEvictable : Prop where
  cached : ∃ d, c.world.alloc.evictor.candidates.lookup b = some d ∧
    ∀ h, c.world.alloc.cachedBlocks h = some b ↔ h = d.prefixHash
  refCount : c.world.alloc.refCounter.refCounts b = some 0

/-- The id is in use, by as many live blocks as its reference count says. -/
structure IsInUse : Prop where
  users : (users c b).Nonempty
  refCount : c.world.alloc.refCounter.refCounts b =
    some ((PrefixCacheBlockAllocator.users c b).card : Int)
  free : b ∉ c.world.alloc.freeBlockIndices
  evictor : c.world.alloc.evictor.containsBlock b = false

end Partition

/-- Each of the ids is in exactly one of the three situations, and the free ones and those in use
add up. -/
structure Partitioned (ids : List BlockId) (c : Client HashValue) : Prop where
  situation : ∀ b ∈ ids,
    (IsFree c b ∧ ¬IsEvictable c b ∧ ¬IsInUse c b) ∨
    (¬IsFree c b ∧ IsEvictable c b ∧ ¬IsInUse c b) ∨
    (¬IsFree c b ∧ ¬IsEvictable c b ∧ IsInUse c b)
  total : c.world.alloc.getNumFreeBlock +
    ((c.live.image fun p => (c.world.mem.obj p).blockId).filter (· ≠ invalidBlockId)).card =
      ids.length

section

omit [DecidableEq HashValue]

theorem Tidy.isInUse {c : Client HashValue} (h : Tidy c.world c.live) {b : BlockId}
    (hb : b ∈ c.world.alloc.allBlockIndices) (hown : b ∈ carried c.world.mem c.live) :
    IsInUse c b := by
  have hcount : (carried c.world.mem c.live).count b = (c.live.filter _).card :=
    count_carried (h.consistent.ne_invalid hb)
  refine ⟨?_, ?_, fun hfree => ((h.consistent.free b).mp hfree).2.1 hown, ?_⟩
  · rw [← Finset.card_pos, users, ← hcount]
    exact Multiset.count_pos.mpr hown
  · rw [h.consistent.refCounts, if_pos hb, users, ← hcount]
  · cases hd : c.world.alloc.evictor.candidates.lookup b with
    | none => simp [LRUEvictor.containsBlock, hd]
    | some d => exact absurd hown (h.consistent.evictor b d hd).2.1

theorem Tidy.refCount_idle {c : Client HashValue} (h : Tidy c.world c.live) {b : BlockId}
    (hb : b ∈ c.world.alloc.allBlockIndices) (hown : b ∉ carried c.world.mem c.live) :
    c.world.alloc.refCounter.refCounts b = some 0 := by
  rw [h.consistent.refCounts, if_pos hb, Multiset.count_eq_zero.mpr hown]
  rfl

theorem Tidy.isFree {c : Client HashValue} (h : Tidy c.world c.live) {b : BlockId}
    (hb : b ∈ c.world.alloc.allBlockIndices) (hown : b ∉ carried c.world.mem c.live)
    (hev : c.world.alloc.evictor.candidates.lookup b = none) : IsFree c b where
  once := List.count_eq_one_of_mem h.consistent.free_nodup
    ((h.consistent.free b).mpr ⟨hb, hown, hev⟩)
  refCount := h.refCount_idle hb hown
  evictor := by simp [LRUEvictor.containsBlock, hev]

theorem Tidy.isEvictable {c : Client HashValue} (h : Tidy c.world c.live) {b : BlockId}
    {d : BlockMetaData HashValue}
    (hev : c.world.alloc.evictor.candidates.lookup b = some d) : IsEvictable c b := by
  obtain ⟨hb, hown, hreg⟩ := h.consistent.evictor b d hev
  refine ⟨⟨d, hev, fun key => ⟨fun hkey => ?_, ?_⟩⟩, h.refCount_idle hb hown⟩
  · exact h.consistent.cached_inj _ _ b hkey hreg
  · rintro rfl
    exact hreg

end

omit [PrefixHasher HashValue] [DecidableEq HashValue] in
/-- The situations exclude each other. -/
theorem exclusive {c : Client HashValue} {b : BlockId} :
    ¬(IsFree c b ∧ IsEvictable c b) ∧ ¬(IsFree c b ∧ IsInUse c b) ∧
      ¬(IsEvictable c b ∧ IsInUse c b) := by
  refine ⟨fun ⟨hf, he⟩ => ?_, fun ⟨hf, hu⟩ => ?_, fun ⟨he, hu⟩ => ?_⟩
  · obtain ⟨d, hd, -⟩ := he.cached
    have := hf.evictor
    simp [LRUEvictor.containsBlock, hd] at this
  · exact hu.free (List.count_pos_iff.mp (by rw [hf.once]; exact Nat.one_pos))
  · obtain ⟨d, hd, -⟩ := he.cached
    have := hu.evictor
    simp [LRUEvictor.containsBlock, hd] at this

omit [DecidableEq HashValue] in
theorem Tidy.partitioned {c : Client HashValue} (h : Tidy c.world c.live) :
    Partitioned c.world.alloc.allBlockIndices c := by
  refine ⟨fun b hb => ?_, ?_⟩
  · obtain ⟨hfe, hfu, heu⟩ := exclusive (c := c) (b := b)
    by_cases hown : b ∈ carried c.world.mem c.live
    · have hu := h.isInUse hb hown
      exact .inr (.inr ⟨fun hf => hfu ⟨hf, hu⟩, fun he => heu ⟨he, hu⟩, hu⟩)
    · cases hev : c.world.alloc.evictor.candidates.lookup b with
      | none =>
        have hf := h.isFree hb hown hev
        exact .inl ⟨hf, fun he => hfe ⟨hf, he⟩, fun hu => hfu ⟨hf, hu⟩⟩
      | some d =>
        have he := h.isEvictable hev
        exact .inr (.inl ⟨fun hf => hfe ⟨hf, he⟩, he, fun hu => heu ⟨he, hu⟩⟩)
  · have hnodup : c.world.alloc.allBlockIndices.Nodup :=
      h.consistent.indices ▸ nodup_blockIndices _ _
    have hused : (c.live.image fun p => (c.world.mem.obj p).blockId).filter (· ≠ invalidBlockId) =
        (c.world.alloc.allBlockIndices.filter (· ∈ carried c.world.mem c.live)).toFinset := by
      ext b
      simp only [Finset.mem_filter, Finset.mem_image, List.mem_toFinset, List.mem_filter,
        decide_eq_true_eq, mem_carried]
      constructor
      · rintro ⟨⟨p, hp, rfl⟩, hne⟩
        exact ⟨h.managed p hp hne, hne, p, hp, rfl⟩
      · rintro ⟨-, hne, hp⟩
        exact ⟨hp, hne⟩
    rw [hused, List.toFinset_card_of_nodup (hnodup.filter _), h.consistent.getNumFreeBlock_eq,
      add_comm]
    simp only [← List.countP_eq_length_filter]
    rw [List.length_eq_countP_add_countP fun b => decide (b ∈ carried c.world.mem c.live)]
    simp only [decide_eq_true_eq]

/-- **Partition of the ids.** In a run that starts from a fresh allocator and gives up the last
use of an id only where that can be released, every id is free, evictable or in use. -/
theorem partitioned_of_safeRun {beginBlockId : BlockId} (hbegin : 0 ≤ beginBlockId)
    {numBlocks blockSize poolSize : Nat} {ops : List (Op HashValue)} {c : Client HashValue}
    (hrun : SafeRun (fun _ _ => True) (.new beginBlockId numBlocks blockSize poolSize) ops c) :
    Partitioned (blockIndices beginBlockId numBlocks) c := by
  have hnew := @Tidy.new HashValue _ _ hbegin numBlocks blockSize poolSize
  have := (hrun.tidy hnew).partitioned
  rwa [hrun.allBlockIndices hnew] at this

/-- The only block of a sequence is full. It is freed, and its id waits in the evictor. -/
theorem partitioned_cached :
    ∃ c, SafeRun (fun _ _ => True) (.new 0 2 2 4 : Client UInt64)
      [.allocateImmutableBlock [1, 2] none 0, .free 3 false] c ∧
      Partitioned (blockIndices 0 2) c := by
  let alloc : Op UInt64 := .allocateImmutableBlock [1, 2] none 0
  obtain ⟨c₁, h₁⟩ : ∃ c₁, step (.new 0 2 2 4) alloc = some c₁ :=
    Option.isSome_iff_exists.mp (by decide +kernel)
  obtain ⟨c₂, h₂⟩ : ∃ c₂, step c₁ (.free 3 false) = some c₂ := by
    have : ((step (.new 0 2 2 4) alloc).bind fun c => step c (.free 3 false)).isSome := by
      decide +kernel
    rw [h₁] at this
    exact Option.isSome_iff_exists.mp this
  have hhash : ∀ c ∈ step (.new 0 2 2 4) alloc,
      valueOf (PrefixCachingBlockObj.prefixHash 3) c.world.mem ≠ some 0 := by
    decide +kernel
  have hsafe : (Op.free 3 false).Safe (fun _ _ => True) c₁ := by
    refine fun _ => ⟨fun m' hinv => ?_, fun _ _ _ _ => trivial⟩
    exact absurd (valueOf_eq_some_iff.mpr ⟨m', hinv⟩) (hhash c₁ h₁)
  have hfirst : SafeRun (fun _ _ => True) (.new 0 2 2 4) [alloc] c₁ := .snoc (.nil _) trivial h₁
  have hrun := hfirst.snoc hsafe h₂
  exact ⟨c₂, hrun, partitioned_of_safeRun le_rfl hrun⟩

/-- The chain `[1, 2], [3, 4]` is forked, and the original freed. The first block of the copy is
freed before the second, its object is taken for another block, and with that gone from the chain
the hash of the second block cannot be computed any more: its id goes to the free list although
its contents stay registered. The next request for these contents shares an id that is free. -/
theorem not_partitioned :
    ∃ ops c, run (.new 0 4 2 8 : Client UInt64) ops = some c ∧
      ¬Partitioned (blockIndices 0 4) c := by
  let ops : List (Op UInt64) :=
    [.allocateImmutableBlocks [[1, 2], [3, 4]] none 0, .fork 6, .free 7 false, .free 6 false,
      .free 5 false, .allocateMutableBlock [9] none 0, .free 4 false,
      .allocateImmutableBlocks [[1, 2], [3, 4]] none 0]
  have hrun : (run (.new 0 4 2 8) ops).map (fun c => (c.world.alloc.freeBlockIndices,
      c.world.alloc.refCounter.refCounts 1)) = some ([3, 1], some 1) := by decide +kernel
  obtain ⟨c, hc, hstate⟩ := Option.map_eq_some_iff.mp hrun
  rw [Prod.mk.injEq] at hstate
  refine ⟨ops, c, hc, fun h => ?_⟩
  have hone : (1 : BlockId) ∈ blockIndices 0 4 := by decide
  rcases h.situation 1 hone with ⟨hf, -⟩ | ⟨-, he, -⟩ | ⟨-, -, hu⟩
  · have := hstate.2.symm.trans hf.refCount
    simp at this
  · have := hstate.2.symm.trans he.refCount
    simp at this
  · exact hu.free (by simp [hstate.1])

end MindieLLM.PrefixCacheBlockAllocator
