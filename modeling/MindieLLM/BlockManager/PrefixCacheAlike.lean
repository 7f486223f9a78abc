import MindieLLM.BlockManager.PrefixCacheRuns
import MindieLLM.Program.Agree

/-!
# Allocators that cannot be told apart

The flags of an id matter only while it is in use, and the hit rate is a statistic. Two allocators
that differ in nothing else answer every call alike. The constants of an allocator are part of the
relation, so relating a state to itself shows that calls keep them.

## Main definitions

* `Pinned`: the constants the allocator was created with
* `Alike`: the same state up to the flags of idle ids and the hit rate
* `AlikeWith pool`: the same memory, with the given pool, and allocators alike

## Main results

* `KeepsWorlds.appendTokenIds`, `agree_free`, `agree_allocateMutableBlock`,
  `agree_allocateImmutableBlock`: the calls agree on alike allocators
-/

namespace MindieLLM.PrefixCacheBlockAllocator

open Program

variable {HashValue : Type}

/-- The constants of an allocator that manages `num` blocks of size `size`, from `first` on. -/
structure Pinned (first : BlockId) (num size : Nat) (a : PrefixCacheBlockAllocator HashValue) :
    Prop where
  beginBlockId : a.beginBlockId = first
  numBlocks : a.numBlocks = num
  blockSize : a.blockSize = size
  allBlockIndices : a.allBlockIndices = blockIndices first num

/-- Flags of ids that are alike: an id is in use in both or in neither, and if it is its flags are
the same. An idle id has never been accessed. -/
structure AlikeInfos (first : BlockId) (num : Nat) (s t : BlockComputedAttr) : Prop where
  beginBlockId : s.beginBlockId = first
  numBlocks : s.numBlocks = num
  beginBlockId' : t.beginBlockId = first
  numBlocks' : t.numBlocks = num
  active : ∀ b, s.Valid b → (t.blockInfos b).active = (s.blockInfos b).active
  accessed : ∀ b, s.Valid b → (t.blockInfos b).lastAccessed = (s.blockInfos b).lastAccessed
  computed : ∀ b, s.Valid b → (s.blockInfos b).active = true →
    (t.blockInfos b).computed = (s.blockInfos b).computed
  idle : ∀ b, s.Valid b → (s.blockInfos b).active = false →
    (s.blockInfos b).lastAccessed = defaultLastAccessedTime

/-- The same allocator up to the flags of idle ids and the hit rate. -/
def Alike (first : BlockId) (num size : Nat) (a a' : PrefixCacheBlockAllocator HashValue) : Prop :=
  Pinned first num size a ∧ ∃ attr rate,
    a' = { a with
      blockComputedAttr := attr
      hitRateCalculator := rate } ∧ AlikeInfos first num a.blockComputedAttr attr

namespace AlikeInfos

variable {first : BlockId} {num : Nat} {s t : BlockComputedAttr} {b : BlockId}

theorem valid_iff (h : AlikeInfos first num s t) {b : BlockId} : t.Valid b ↔ s.Valid b := by
  rw [BlockComputedAttr.Valid, BlockComputedAttr.Valid, h.beginBlockId, h.numBlocks,
    h.beginBlockId', h.numBlocks']

/-- Flags can be written to an id on both sides. -/
theorem updateInfo (h : AlikeInfos first num s t) {i i' : BlockInfo}
    (hactive : i'.active = i.active)
    (haccessed : i'.lastAccessed = i.lastAccessed)
    (hcomputed : i.active = true → i'.computed = i.computed)
    (hidle : i.active = false → i.lastAccessed = defaultLastAccessedTime) :
    AlikeInfos first num (s.updateInfo b fun _ => i) (t.updateInfo b fun _ => i') := by
  refine ⟨h.beginBlockId, h.numBlocks, h.beginBlockId', h.numBlocks', fun c hc => ?_,
    fun c hc => ?_, fun c hc => ?_, fun c hc => ?_⟩ <;>
    simp only [BlockComputedAttr.updateInfo_blockInfos] <;> split
  · exact hactive
  · exact h.active c hc
  · exact haccessed
  · exact h.accessed c hc
  · exact hcomputed
  · exact h.computed c hc
  · exact hidle
  · exact h.idle c hc

end AlikeInfos

/-! ## Flags -/

section Flags

variable {first : BlockId} {num : Nat} (b : BlockId)

theorem respects_enable :
    Respects (AlikeInfos first num) (AlikeInfos first num) (BlockComputedAttr.enable b) := by
  intro s t h
  refine agree_of_wp ?_
  by_cases hv : s.Valid b
  · have hactive := h.active b hv
    cases ha : (s.blockInfos b).active <;> rw [ha] at hactive <;>
      simp [BlockComputedAttr.wp_enable, h.valid_iff, hv, ha, hactive, h, h.updateInfo]
  · simp [BlockComputedAttr.wp_enable, h.valid_iff, hv, h]

theorem respects_disable :
    Respects (AlikeInfos first num) (AlikeInfos first num) (BlockComputedAttr.disable b) := by
  intro s t h
  refine agree_of_wp ?_
  by_cases hv : s.Valid b
  · have hactive := h.active b hv
    cases ha : (s.blockInfos b).active <;> rw [ha] at hactive <;>
      simp [BlockComputedAttr.wp_disable, h.valid_iff, hv, ha, hactive, h, h.updateInfo]
  · simp [BlockComputedAttr.wp_disable, h.valid_iff, hv, h]

theorem respects_setComputed (computed : Bool) : Respects (AlikeInfos first num)
    (AlikeInfos first num) (BlockComputedAttr.setComputed b computed) := by
  intro s t h
  refine agree_of_wp ?_
  by_cases hv : s.Valid b
  · have hset : AlikeInfos first num (s.updateInfo b fun i => { i with computed := computed })
        (t.updateInfo b fun i => { i with computed := computed }) :=
      h.updateInfo (h.active b hv) (h.accessed b hv) (fun _ => rfl) (h.idle b hv)
    simp [BlockComputedAttr.setComputed, h.valid_iff, hv, hset]
  · simp [BlockComputedAttr.setComputed, h.valid_iff, hv, h]

theorem respects_lastAccessed :
    Respects (AlikeInfos first num) (AlikeInfos first num) (BlockComputedAttr.lastAccessed b) := by
  intro s t h
  refine agree_of_wp ?_
  by_cases hv : s.Valid b
  · simp [BlockComputedAttr.lastAccessed, h.valid_iff, hv, h.accessed b hv, h]
  · simp [BlockComputedAttr.lastAccessed, h.valid_iff, hv, h]

end Flags

/-! ## Methods on ids -/

section Ids

variable {first : BlockId} {num size : Nat} {a a' : PrefixCacheBlockAllocator HashValue}

theorem Alike.infos (h : Alike first num size a a') :
    AlikeInfos first num a.blockComputedAttr a'.blockComputedAttr := by
  obtain ⟨_, _, _, rfl, hattr⟩ := h
  exact hattr

theorem Alike.cachedBlocks (h : Alike first num size a a') : a'.cachedBlocks = a.cachedBlocks := by
  obtain ⟨-, _, _, rfl, -⟩ := h
  rfl

/-- Alike allocators stay alike when their parts are exchanged on both sides. -/
theorem Pinned.alike (h : Pinned first num size a) (free : List BlockId) (cow : CopyOnWriteTracker)
    {attr attr' : BlockComputedAttr} (hattr : AlikeInfos first num attr attr')
    (cached : HashValue → Option BlockId) (touched : List BlockId)
    (e : LRUEvictor HashValue) (rc : RefCounter) (rate rate' : HitRateCalculator) :
    Alike first num size
      ⟨a.beginBlockId, a.blockSize, a.numBlocks, a.allBlockIndices, free, cow, attr, cached,
        touched, e, rc, rate⟩
      ⟨a.beginBlockId, a.blockSize, a.numBlocks, a.allBlockIndices, free, cow, attr', cached,
        touched, e, rc, rate'⟩ :=
  ⟨⟨h.1, h.2, h.3, h.4⟩, attr', rate', rfl, hattr⟩

/-- The program does the same on alike allocators. -/
def KeepsAlike {α : Type} (first : BlockId) (num size : Nat) (c : AllocM HashValue α) : Prop :=
  Respects (Alike first num size) (Alike first num size) c

theorem keepsAlike_attr {α : Type} {c : EStateM Exn BlockComputedAttr α}
    (hc : Respects (AlikeInfos first num) (AlikeInfos first num) c) :
    KeepsAlike first num size (zoom attrLens c : AllocM HashValue α) := by
  rintro a - ⟨hp, attr, rate, rfl, hattr⟩
  exact agree_zoom attrLens (hc hattr) (fun _ _ _ hst => hp.alike _ _ hst _ _ _ _ _ _)
    fun _ _ hst => hp.alike _ _ hst _ _ _ _ _ _

theorem keepsAlike_refCounter {α : Type} (c : EStateM Exn RefCounter α) :
    KeepsAlike first num size (zoom refCounterLens c : AllocM HashValue α) := by
  rintro a - ⟨hp, attr, rate, rfl, hattr⟩
  refine agree_zoom refCounterLens agree_rfl ?_ ?_
  · rintro _ rc _ rfl
    exact hp.alike _ _ hattr _ _ _ _ _ _
  · rintro rc _ rfl
    exact hp.alike _ _ hattr _ _ _ _ _ _

theorem keepsAlike_evictor {α : Type} (c : EStateM Exn (LRUEvictor HashValue) α) :
    KeepsAlike first num size (zoom evictorLens c : AllocM HashValue α) := by
  rintro a - ⟨hp, attr, rate, rfl, hattr⟩
  refine agree_zoom evictorLens agree_rfl ?_ ?_
  · rintro _ e _ rfl
    exact hp.alike _ _ hattr _ _ _ _ _ _
  · rintro e _ rfl
    exact hp.alike _ _ hattr _ _ _ _ _ _

theorem keepsAlike_trackBlockId (b : BlockId) (computed : Bool) :
    KeepsAlike first num size (trackBlockId b computed : AllocM HashValue Unit) :=
  .bind (keepsAlike_attr (respects_enable b)) fun _ =>
    keepsAlike_attr (respects_setComputed b computed)

theorem keepsAlike_untrackBlockId (b : BlockId) :
    KeepsAlike first num size (untrackBlockId b : AllocM HashValue Unit) :=
  keepsAlike_attr (respects_disable b)

theorem keepsAlike_pushFree (b : BlockId) :
    KeepsAlike first num size (pushFree b : AllocM HashValue Unit) := by
  rintro a - ⟨hp, attr, rate, rfl, hattr⟩
  exact agree_modify (hp.alike _ _ hattr _ _ _ _ _ _)

variable [DecidableEq HashValue]

omit [DecidableEq HashValue] in
/-- An id comes into use. -/
theorem keepsAlike_claim (b : BlockId) :
    KeepsAlike first num size (do
      let _ ← increase b
      trackBlockId b false
      return b : AllocM HashValue BlockId) :=
  .bind (keepsAlike_refCounter _) fun _ => .bind (keepsAlike_trackBlockId b false) fun _ => .pure b

theorem keepsAlike_mayBeAllocateEvictedBlockId :
    KeepsAlike first num size (mayBeAllocateEvictedBlockId : AllocM HashValue BlockId) := by
  refine .bind (keepsAlike_evictor _) ?_
  rintro ⟨key, evicted⟩
  refine .ite (.throw_bind id) ?_
  intro s t h
  rw [agree_get_bind]
  obtain ⟨hp, attr, rate, rfl, hattr⟩ := id h
  dsimp only
  cases s.cachedBlocks key with
  | none => exact agree_throw h
  | some b =>
    refine agree_ite (fun _ => agree_throw_bind h) fun _ => ?_
    refine agree_ite (fun _ => agree_throw_bind h) fun _ => ?_
    rw [agree_set_bind]
    exact keepsAlike_claim b (hp.alike _ _ hattr _ _ _ _ _ _)

theorem keepsAlike_allocateBlockId :
    KeepsAlike first num size (allocateBlockId : AllocM HashValue BlockId) := by
  intro a a' h
  unfold allocateBlockId
  rw [agree_get_bind]
  obtain ⟨hp, attr, rate, rfl, hattr⟩ := id h
  dsimp only
  cases hfree : a.freeBlockIndices with
  | nil =>
    rw [hfree] at h
    exact keepsAlike_mayBeAllocateEvictedBlockId h
  | cons b rest =>
    rw [agree_set_bind]
    exact keepsAlike_claim b (hp.alike _ _ hattr _ _ _ _ _ _)

omit [DecidableEq HashValue] in
theorem keepsAlike_incrRefCountCacheBlock (b : BlockId) :
    KeepsAlike first num size (incrRefCountCacheBlock b : AllocM HashValue Unit) := by
  refine .bind (keepsAlike_refCounter _) fun _ => .ite ?_ (.pure _)
  refine .bind (.modify fun s t h => ?_) fun _ => keepsAlike_trackBlockId b true
  obtain ⟨hp, attr, rate, rfl, hattr⟩ := id h
  dsimp only
  split
  · exact hp.alike _ _ hattr _ _ _ _ _ _
  · exact h

omit [DecidableEq HashValue] in
theorem keepsAlike_releaseBlockId (b : BlockId) :
    KeepsAlike first num size (releaseBlockId b : AllocM HashValue Unit) :=
  .bind (keepsAlike_refCounter _) fun _ =>
    .ite (.bind (keepsAlike_untrackBlockId b) fun _ => keepsAlike_pushFree b) (.pure _)

end Ids

/-! ## Methods on blocks -/

section Blocks

variable {first : BlockId} {num size : Nat} {pool : ObjPool} {p : Ptr}
  {w w' : World HashValue (PrefixCacheBlockAllocator HashValue)}

/-- The same memory, with the pool `pool`, and allocators alike. -/
structure AlikeWith (first : BlockId) (num size : Nat) (pool : ObjPool)
    (w w' : World HashValue (PrefixCacheBlockAllocator HashValue)) : Prop where
  mem : w'.mem = w.mem
  pool : w.mem.pool = pool
  alloc : Alike first num size w.alloc w'.alloc

/-- The same memory and allocators alike. -/
structure AlikeWorlds (first : BlockId) (num size : Nat)
    (w w' : World HashValue (PrefixCacheBlockAllocator HashValue)) : Prop where
  mem : w'.mem = w.mem
  alloc : Alike first num size w.alloc w'.alloc

theorem AlikeWith.worlds (h : AlikeWith first num size pool w w') :
    AlikeWorlds first num size w w' :=
  ⟨h.mem, h.alloc⟩

theorem AlikeWorlds.withPool (h : AlikeWorlds first num size w w') :
    AlikeWith first num size w.mem.pool w w' :=
  ⟨h.mem, rfl, h.alloc⟩

/-- The program does the same in worlds alike, and leaves the pool alone. -/
def KeepsWorlds {α : Type} (first : BlockId) (num size : Nat) (c : M HashValue α) : Prop :=
  ∀ pool, Respects (AlikeWith first num size pool) (AlikeWorlds first num size) c

namespace KeepsWorlds

variable {α β : Type} {c d : M HashValue α}

protected theorem pure (a : α) : KeepsWorlds first num size (pure a : M HashValue α) :=
  fun _ => .pure a

protected theorem bind {c : M HashValue β} {f : β → M HashValue α}
    (hc : KeepsWorlds first num size c) (hf : ∀ b, KeepsWorlds first num size (f b)) :
    KeepsWorlds first num size (c >>= f) := fun pool => .bind (hc pool) fun b => hf b pool

protected theorem ite {q : Prop} [Decidable q] (hc : KeepsWorlds first num size c)
    (hd : KeepsWorlds first num size d) : KeepsWorlds first num size (if q then c else d) :=
  fun pool => .ite (hc pool) (hd pool)

theorem throw_bind {e : Exn} {f : β → M HashValue α} :
    KeepsWorlds first num size (throw e >>= f) := fun _ => .throw_bind AlikeWith.worlds

theorem onAlloc {c : AllocM HashValue α} (hc : KeepsAlike first num size c) :
    KeepsWorlds first num size (onAlloc c) := fun _ _ _ h =>
  agree_zoom World.allocLens (hc h.alloc) (fun _ _ _ ha => ⟨h.mem, h.pool, ha⟩)
    fun _ _ ha => ⟨h.mem, ha⟩

theorem onMem {c : MemM HashValue α}
    (hc : ∀ m, wp c (fun _ m' => m'.pool = m.pool) (fun _ _ => True) m) :
    KeepsWorlds first num size (onMem c) := by
  intro pool w w' h
  refine agree_zoom World.memLens (U := fun _ m m' => m = m' ∧ m.pool = pool) (F := Eq) ?_ ?_ ?_
  · have hwp := hc w.mem
    rw [World.memLens_get, World.memLens_get, h.mem]
    unfold wp at hwp
    unfold agree
    cases hr : c w.mem <;> rw [hr] at hwp
    · exact ⟨rfl, rfl, hwp.trans h.pool⟩
    · exact ⟨rfl, rfl⟩
  · rintro _ m _ ⟨rfl, hpool⟩
    exact ⟨rfl, hpool, h.alloc⟩
  · rintro m _ rfl
    exact ⟨rfl, h.alloc⟩

theorem load (p : Ptr) : KeepsWorlds first num size (MindieLLM.onMem (load p) : M HashValue _) :=
  onMem fun _ => rfl

theorem withObj (p : Ptr) (c : EStateM Exn (BlockObj HashValue) Unit) :
    KeepsWorlds first num size (MindieLLM.onMem (withObj p c) : M HashValue Unit) :=
  onMem fun m => (wp_zoom _ _).mpr
    (wp_mono (wp_self c (m.obj p)) (fun _ _ _ => rfl) fun _ _ _ => trivial)

variable [PrefixHasher HashValue] [DecidableEq HashValue]

theorem prefixHash (p : Ptr) : KeepsWorlds first num size
    (MindieLLM.onMem (PrefixCachingBlockObj.prefixHash p) : M HashValue HashValue) :=
  onMem fun m => wp_mono (PrefixCachingBlockObj.wp_prefixHash p m)
    (fun _ _ hm => hm.1.pool) fun _ _ _ => trivial

theorem decrRefCountCacheBlock (p : Ptr) :
    KeepsWorlds first num size (decrRefCountCacheBlock p : M HashValue Unit) := by
  refine .bind (load p) fun o => .bind (withObj p _) fun _ =>
    .bind (onAlloc (keepsAlike_refCounter _)) fun refCount => ?_
  refine .ite throw_bind (.ite (.bind (prefixHash p) fun key => ?_) (.pure _))
  intro pool s t h
  rw [agree_get_bind, h.alloc.cachedBlocks]
  cases s.alloc.cachedBlocks key with
  | none => exact agree_throw h.worlds
  | some reuse =>
    refine KeepsWorlds.ite throw_bind (.bind (prefixHash p) fun key =>
      .bind (load p) fun o' => ?_) pool h
    refine .bind (onAlloc (keepsAlike_attr (respects_lastAccessed _))) fun last => ?_
    refine .bind (fun pool => .modify ?_) fun _ => onAlloc (keepsAlike_untrackBlockId _)
    rintro s t ⟨hmem, hpool, hp, attr, rate, heq, hattr⟩
    refine ⟨hmem, hpool, ?_⟩
    rw [heq]
    exact hp.alike _ _ hattr _ _ _ _ _ _

theorem freeBlockId (p : Ptr) :
    KeepsWorlds first num size (freeBlockId p : M HashValue Unit) := by
  refine .bind (load p) fun o => .bind (prefixHash p) fun key => ?_
  refine .ite (decrRefCountCacheBlock p) ?_
  exact .bind (onAlloc (keepsAlike_releaseBlockId _)) fun _ => withObj p _

theorem promoteToImmutableBlock (p : Ptr) :
    KeepsWorlds first num size (promoteToImmutableBlock p : M HashValue BlockId) := by
  refine .bind (prefixHash p) fun key => .bind (load p) fun o => ?_
  intro pool s t h
  rw [agree_get_bind]
  dsimp only
  rw [h.alloc.cachedBlocks]
  cases s.alloc.cachedBlocks key with
  | none =>
    refine KeepsWorlds.bind (onAlloc (.modify ?_)) (fun _ => .pure _) pool h
    rintro s - ⟨hp, attr, rate, rfl, hattr⟩
    exact hp.alike _ _ hattr _ _ _ _ _ _
  | some reuse =>
    refine KeepsWorlds.bind (onAlloc (keepsAlike_releaseBlockId _)) (fun _ => ?_) pool h
    refine .bind (withObj p _) fun _ => .bind (withObj p _) fun _ => ?_
    exact .bind (onAlloc (keepsAlike_incrRefCountCacheBlock _)) fun _ => .pure _

theorem cowBlockIfNotAppendable (p : Ptr) :
    KeepsWorlds first num size (cowBlockIfNotAppendable p : M HashValue BlockId) := by
  refine .bind (load p) fun o => .ite throw_bind ?_
  refine .bind (onAlloc (keepsAlike_refCounter _)) fun refCount => .ite (.pure _) ?_
  refine .bind (freeBlockId p) fun _ => .bind (onAlloc keepsAlike_allocateBlockId) fun trg => ?_
  refine .bind (onAlloc (.modify ?_)) fun _ => .pure _
  rintro s - ⟨hp, attr, rate, rfl, hattr⟩
  exact hp.alike _ _ hattr _ _ _ _ _ _

theorem promoteIfHashed (p : Ptr) :
    KeepsWorlds first num size (promoteIfHashed p : M HashValue Unit) :=
  .bind (prefixHash p) fun _ => .ite (.bind (promoteToImmutableBlock p) fun _ => .pure _) (.pure _)

theorem appendTokenIds (p : Ptr) (tokenIds : List TokenId) :
    KeepsWorlds first num size (appendTokenIds p tokenIds : M HashValue Unit) := by
  refine .bind (onMem fun m => ?_) fun _ => ?_
  · refine wp_mono (PrefixCachingBlockObj.wp_appendTokenIds p tokenIds m) ?_ fun _ _ _ => trivial
    rintro _ m' ⟨o, -, -, -, hm⟩
    exact hm.pool
  exact .bind (cowBlockIfNotAppendable p) fun b => .bind (withObj p _) fun _ => promoteIfHashed p

end KeepsWorlds

variable [PrefixHasher HashValue] [DecidableEq HashValue]

/-! ## Allocating and freeing -/

/-- Alike worlds; if `T` holds then the blocks in `live` are in use. -/
structure AlikeOwned (first : BlockId) (num size : Nat) (T : Prop) (live : Finset Ptr)
    (w w' : World HashValue (PrefixCacheBlockAllocator HashValue)) : Prop where
  worlds : AlikeWorlds first num size w w'
  tracks : T → w.mem.pool.Tracks live ∧ 0 < w.mem.pool.poolSize

variable {T : Prop} {live : Finset Ptr}

omit [PrefixHasher HashValue] [DecidableEq HashValue] in
theorem AlikeOwned.congr {live' : Finset Ptr} (h : AlikeOwned first num size T live w w')
    (hlive : T → live = live') : AlikeOwned first num size T live' w w' :=
  ⟨h.worlds, fun hT => hlive hT ▸ h.tracks hT⟩

/-- The program does the same in worlds alike, and the same blocks stay in use. -/
def KeepsOwned {α : Type} (first : BlockId) (num size : Nat) (T : Prop) (live : Finset Ptr)
    (c : M HashValue α) : Prop :=
  Respects (AlikeOwned first num size T live) (AlikeWorlds first num size) c

section

omit [PrefixHasher HashValue] [DecidableEq HashValue]

/-- A program that leaves the pool alone. -/
theorem KeepsWorlds.owned {α : Type} {c : M HashValue α} (hc : KeepsWorlds first num size c) :
    KeepsOwned first num size T live c := fun _ _ h =>
  agree_mono (hc _ h.worlds.withPool) (fun _ _ _ hst => ⟨hst.worlds, hst.pool ▸ h.tracks⟩)
    fun _ _ hst => hst

/-- A program on the memory, the pool included. -/
theorem agree_mem (h : AlikeWorlds first num size w w') {α : Type} {c : MemM HashValue α}
    {P : α → Mem HashValue → Prop} (hc : wp c P (fun _ _ => True) w.mem) :
    agree (fun x s t => AlikeWorlds first num size s t ∧ P x s.mem) (AlikeWorlds first num size)
      (onMem c) (onMem c) w w' := by
  refine agree_zoom World.memLens (U := fun x m m' => m = m' ∧ P x m) (F := Eq) ?_ ?_ ?_
  · rw [World.memLens_get, World.memLens_get, h.mem]
    unfold wp at hc
    unfold agree
    cases hr : c w.mem <;> rw [hr] at hc
    · exact ⟨rfl, rfl, hc⟩
    · exact ⟨rfl, rfl⟩
  · rintro x m _ ⟨rfl, hP⟩
    exact ⟨⟨rfl, h.alloc⟩, hP⟩
  · rintro m _ rfl
    exact ⟨rfl, h.alloc⟩

theorem agree_acquireObj (h : AlikeOwned first num size T live w w') :
    agree (fun p s t => AlikeOwned first num size T (insert p live) s t ∧ (T → p ∉ live))
      (AlikeWorlds first num size) (onMem acquireObj) (onMem acquireObj) w w' := by
  have hwp : wp acquireObj
      (fun p m => T → p ∉ live ∧ m.pool.Tracks (insert p live) ∧ 0 < m.pool.poolSize)
      (fun _ _ => True) w.mem := by
    by_cases hT : T
    · obtain ⟨htracks, hpos⟩ := h.tracks hT
      refine wp_mono (wp_acquireObj htracks) ?_ fun _ _ _ => trivial
      exact fun p m hm _ => ⟨hm.1, hm.2.2.1, hpos.trans_le hm.2.2.2.1⟩
    · exact wp_mono (wp_self _ _) (fun _ _ _ hT' => absurd hT' hT) fun _ _ _ => trivial
  refine agree_mono (agree_mem h.worlds hwp) (fun _ _ _ hst => ⟨⟨hst.1, ?_⟩, ?_⟩) fun _ _ h => h
  · exact fun hT => (hst.2 hT).2
  · exact fun hT => (hst.2 hT).1

end

section

omit [DecidableEq HashValue]

theorem agree_freeObj (h : AlikeOwned first num size T live w w') (hp : T → p ∈ live) :
    agree (fun _ => AlikeOwned first num size T (live.erase p)) (AlikeWorlds first num size)
      (freeObj p) (freeObj p) w w' := by
  have hwp : wp (MindieLLM.freeObj PrefixCachingBlockObj.resetBlockObj p)
      (fun _ m => T → m.pool.Tracks (live.erase p) ∧ 0 < m.pool.poolSize) (fun _ _ => True)
      w.mem := by
    by_cases hT : T
    · obtain ⟨htracks, hpos⟩ := h.tracks hT
      refine wp_mono (wp_freeObj htracks (hp hT)) ?_ fun _ _ _ => trivial
      rintro _ m ⟨-, hpool, htracks'⟩ -
      exact ⟨htracks', by rw [hpool]; exact hpos⟩
    · exact wp_mono (wp_self _ _) (fun _ _ _ hT' => absurd hT' hT) fun _ _ _ => trivial
  exact agree_mono (agree_mem h.worlds hwp) (fun _ _ _ hst => ⟨hst.1, hst.2⟩) fun _ _ h => h

theorem keepsWorlds_initBlockObj (p : Ptr) (prev : Option Ptr) (tokenIds : List TokenId) (n : Nat)
    (id : BlockId) (extraHash : HashValue) : KeepsWorlds first num size
      (onMem (PrefixCachingBlockObj.initBlockObj p prev tokenIds n id extraHash)) := by
  refine .onMem fun m => wp_mono (PrefixCachingBlockObj.wp_initBlockObj m) ?_ fun _ _ _ => trivial
  rintro _ _ ⟨o, -, rfl⟩
  rfl

/-- A block is taken from the pool and initialised. -/
theorem agree_acquire {α : Type} {S : α → _ → _ → Prop} {f : Ptr → M HashValue α}
    (h : AlikeOwned first num size T live w w') (prev : Option Ptr) (tokenIds : List TokenId)
    (id : BlockId) (extraHash : HashValue)
    (hf : ∀ p s t, AlikeOwned first num size T (insert p live) s t → (T → p ∉ live) →
      agree S (AlikeWorlds first num size) (f p) (f p) s t) :
    agree S (AlikeWorlds first num size)
      (do
        let p ← onMem acquireObj
        let blockSize := (← get).alloc.blockSize
        onMem (PrefixCachingBlockObj.initBlockObj p prev tokenIds blockSize id extraHash)
        f p)
      (do
        let p ← onMem acquireObj
        let blockSize := (← get).alloc.blockSize
        onMem (PrefixCachingBlockObj.initBlockObj p prev tokenIds blockSize id extraHash)
        f p) w w' := by
  refine agree_bind (agree_acquireObj h) fun p s t ⟨h, hfresh⟩ => ?_
  obtain ⟨_, _, _, _, hsize, -⟩ := h.worlds
  rw [agree_get_bind, hsize]
  exact agree_bind ((keepsWorlds_initBlockObj p _ _ _ _ _).owned h) fun _ s t h => hf p s t h hfresh

end

theorem agree_free (h : AlikeOwned first num size T live w w') (hp : T → p ∈ live)
    (keepBlockObj : Bool) :
    agree (fun _ => AlikeOwned first num size T (if keepBlockObj then live else live.erase p))
      (AlikeWorlds first num size) (free p keepBlockObj) (free p keepBlockObj) w w' := by
  refine agree_bind ((KeepsWorlds.freeBlockId p).owned h) fun _ s t h => ?_
  cases keepBlockObj
  · exact agree_freeObj h hp
  · exact agree_pure h

theorem agree_allocateMutableBlock (h : AlikeOwned first num size T live w w')
    (tokenIds : List TokenId) (prev : Option Ptr) (extraHash : HashValue) :
    agree (fun p s t => AlikeOwned first num size T (insert p live) s t ∧ (T → p ∉ live))
      (AlikeWorlds first num size) (allocateMutableBlock tokenIds prev extraHash)
      (allocateMutableBlock tokenIds prev extraHash) w w' := by
  refine agree_bind ((KeepsWorlds.onAlloc keepsAlike_allocateBlockId).owned h) fun b s t h => ?_
  refine agree_acquire h _ _ _ _ fun p s t h hfresh => ?_
  refine agree_bind ((KeepsWorlds.appendTokenIds p tokenIds).owned h) fun _ s t h => ?_
  exact agree_pure ⟨h, hfresh⟩

omit [PrefixHasher HashValue] [DecidableEq HashValue] in
theorem keepsOwned_record (hit : Bool) :
    KeepsOwned first num size T live (onAlloc (record hit) : M HashValue Unit) := by
  refine KeepsWorlds.owned (.onAlloc ?_)
  rintro a - ⟨hp, attr, rate, rfl, hattr⟩
  exact agree_modify (hp.alike _ _ hattr _ _ _ _ _ _)

theorem agree_allocateImmutableBlock (h : AlikeOwned first num size T live w w')
    (tokenIds : List TokenId) (prev : Option Ptr) (extraHash : HashValue) :
    agree (fun p s t => AlikeOwned first num size T (insert p live) s t ∧ (T → p ∉ live))
      (AlikeWorlds first num size) (allocateImmutableBlock tokenIds prev extraHash)
      (allocateImmutableBlock tokenIds prev extraHash) w w' := by
  refine agree_acquire h _ _ _ _ fun p s t h hfresh => ?_
  refine agree_bind ((KeepsWorlds.prefixHash p).owned h) fun key s t h => ?_
  rw [agree_get_bind, h.worlds.alloc.cachedBlocks]
  refine agree_ite (fun _ => ?_) fun _ => ?_
  · refine agree_bind ((KeepsWorlds.withObj p _).owned h) fun _ s t h => ?_
    refine agree_bind (keepsOwned_record true h) fun _ s t h => ?_
    refine agree_bind ((KeepsWorlds.onAlloc (keepsAlike_incrRefCountCacheBlock _)).owned h)
      fun _ s t h => ?_
    exact agree_pure ⟨h, hfresh⟩
  · refine agree_bind (agree_freeObj h fun _ => Finset.mem_insert_self p _) fun _ s t h => ?_
    refine agree_bind (keepsOwned_record false h) fun _ s t h => ?_
    exact agree_allocateMutableBlock (h.congr fun hT => Finset.erase_insert (hfresh hT)) tokenIds
      prev extraHash

theorem agree_allocateImmutableBlocks (h : AlikeOwned first num size T live w w')
    (tokenIds : List (List TokenId)) (prev : Option Ptr) (extraHash : HashValue) :
    agree (fun ps => AlikeOwned first num size T (live ∪ ps.toFinset))
      (AlikeWorlds first num size) (allocateImmutableBlocks tokenIds prev extraHash)
      (allocateImmutableBlocks tokenIds prev extraHash) w w' := by
  induction tokenIds generalizing w w' live prev with
  | nil => exact agree_pure (by simpa using h)
  | cons tokens rest ih =>
    refine agree_bind (agree_allocateImmutableBlock h tokens prev extraHash)
      fun p s t ⟨h, _⟩ => ?_
    refine agree_bind (ih h (some p)) fun ps s t h => ?_
    refine agree_pure (h.congr fun _ => ?_)
    rw [Finset.insert_union, ← Finset.union_insert, ← List.toFinset_cons]

/-! ## Forking and swapping -/

omit [DecidableEq HashValue] in
theorem agree_forkBlocks (h : AlikeOwned first num size T live w w') (prev : Option Ptr)
    (sources : List Ptr) :
    agree (fun ps => AlikeOwned first num size T (live ∪ ps.toFinset))
      (AlikeWorlds first num size) (forkBlocks prev sources) (forkBlocks prev sources) w w' := by
  induction sources generalizing w w' live prev with
  | nil => exact agree_pure (by simpa using h)
  | cons source rest ih =>
    refine agree_bind ((KeepsWorlds.load source).owned h) fun o s t h => ?_
    refine agree_bind ((KeepsWorlds.onAlloc (keepsAlike_refCounter _)).owned h)
      fun refCount s t h => ?_
    refine agree_ite (fun _ => agree_throw_bind h.worlds) fun _ => ?_
    refine agree_acquire h _ _ _ _ fun p s t h _ => ?_
    refine agree_bind (ih h (some p)) fun ps s t h => ?_
    refine agree_pure (h.congr fun _ => ?_)
    rw [Finset.insert_union, ← Finset.union_insert, ← List.toFinset_cons]

omit [DecidableEq HashValue] in
theorem agree_fork (h : AlikeOwned first num size T live w w') (p : Ptr) :
    agree (fun ps => AlikeOwned first num size T (live ∪ ps.toFinset))
      (AlikeWorlds first num size) (fork p) (fork p) w w' := by
  unfold fork
  rw [agree_get_bind, h.worlds.mem]
  refine agree_bind ((KeepsWorlds.onMem fun m => ?_).owned h) fun sources s t h => ?_
  · refine wp_mono (wp_sourceBlocks _ p m) ?_ fun _ _ _ => trivial
    rintro _ _ ⟨rfl, -⟩
    rfl
  · exact agree_forkBlocks h none sources

theorem keepsOwned_swapOut (blocks : List Ptr) :
    KeepsOwned first num size T live (swapOut blocks : M HashValue Unit) := by
  unfold swapOut
  induction blocks with
  | nil => exact .pure _
  | cons p ps ih => exact .bind (KeepsWorlds.freeBlockId p).owned fun _ => ih

omit [DecidableEq HashValue] in
/-- The temporary block of a swap goes back to the pool. -/
theorem agree_handOver {tmp : Ptr} (h : AlikeOwned first num size T (insert tmp live) w w')
    (hfresh : T → tmp ∉ live) (p : Ptr) :
    agree (fun _ => AlikeOwned first num size T live) (AlikeWorlds first num size)
      (do
        let b := (← onMem (load tmp)).blockId
        onMem (withObj p (HashLessBlockObj.setBlockId b))
        freeObj tmp)
      (do
        let b := (← onMem (load tmp)).blockId
        onMem (withObj p (HashLessBlockObj.setBlockId b))
        freeObj tmp) w w' := by
  refine agree_bind ((KeepsWorlds.load tmp).owned h) fun o s t h => ?_
  refine agree_bind ((KeepsWorlds.withObj p _).owned h) fun _ s t h => ?_
  refine agree_mono (agree_freeObj h fun _ => Finset.mem_insert_self tmp live)
    (fun _ _ _ h => h.congr fun hT => Finset.erase_insert (hfresh hT)) fun _ _ h => h

theorem keepsOwned_swapInBlock (p : Ptr) :
    KeepsOwned first num size T live (swapInBlock p : M HashValue Unit) := by
  refine .bind (KeepsWorlds.load p).owned fun o => .ite (fun _ _ h => ?_) fun _ _ h => ?_
  · exact agree_bind (agree_allocateImmutableBlock h _ _ _)
      fun tmp s t ⟨h, hfresh⟩ => agree_handOver h hfresh p
  · exact agree_bind (agree_allocateMutableBlock h _ _ _)
      fun tmp s t ⟨h, hfresh⟩ => agree_handOver h hfresh p

theorem keepsOwned_swapIn (blocks : List Ptr) :
    KeepsOwned first num size T live (swapIn blocks : M HashValue Unit) := by
  unfold swapIn
  induction blocks with
  | nil => exact .pure _
  | cons p ps ih => exact .bind (keepsOwned_swapInBlock p) fun _ => ih

theorem keepsOwned_replaceToken (p : Ptr) (i : Nat) (token : TokenId) :
    KeepsOwned first num size T live (replaceToken p i token : M HashValue Unit) :=
  KeepsWorlds.owned (.bind (.withObj p _) fun _ => .promoteIfHashed p)

end Blocks

/-! ## Lookups -/

section Lookups

variable {first : BlockId} {num size : Nat} {a a' : PrefixCacheBlockAllocator HashValue}
  [DecidableEq HashValue]

omit [DecidableEq HashValue] in
theorem keepsAlike_isBlockComputed (b : BlockId) :
    KeepsAlike first num size (isBlockComputed b : AllocM HashValue Bool) := by
  intro a a' h
  refine agree_of_wp ?_
  obtain ⟨hp, attr, rate, rfl, hinfos⟩ := id h
  by_cases hv : a.blockComputedAttr.Valid b
  · have hactive := hinfos.active b hv
    cases ha : (a.blockComputedAttr.blockInfos b).active <;> rw [ha] at hactive
    · simp [isBlockComputed, BlockComputedAttr.isActive, hinfos.valid_iff, hv, ha, hactive, h]
    · have hcomp := hinfos.computed b hv ha
      simp [isBlockComputed, BlockComputedAttr.isActive, BlockComputedAttr.isComputed,
        hinfos.valid_iff, hv, ha, hactive, hcomp, h]
  · simp [isBlockComputed, BlockComputedAttr.isActive, hinfos.valid_iff, hv, h]

omit [DecidableEq HashValue] in
theorem keepsAlike_isBlockCached (key : HashValue) :
    KeepsAlike first num size (isBlockCached key : AllocM HashValue Bool) := by
  intro a a' h
  unfold isBlockCached
  rw [agree_get_bind, h.cachedBlocks]
  cases a.cachedBlocks key with
  | none => exact agree_pure h
  | some b => exact keepsAlike_isBlockComputed b h

theorem keepsAlike_findCachedBlockPrefix [PrefixHasher HashValue] (key : HashValue) :
    KeepsAlike first num size (findCachedBlockPrefix key : AllocM HashValue Bool) :=
  .ite (.pure _) (keepsAlike_isBlockCached key)

section

omit [DecidableEq HashValue]

theorem keepsAlike_findCachedBlocksPrefix (keys : List HashValue) :
    KeepsAlike first num size (findCachedBlocksPrefix keys : AllocM HashValue (List BlockId)) := by
  induction keys with
  | nil => exact .pure _
  | cons key keys ih =>
    refine .bind (keepsAlike_isBlockCached key) fun cached => .ite ?_ (.pure _)
    intro s t h
    rw [agree_get_bind, h.cachedBlocks]
    cases s.cachedBlocks key with
    | none => exact agree_throw h
    | some b => exact Respects.bind ih (fun _ => .pure _) h

theorem keepsAlike_markBlocksAsComputed :
    KeepsAlike first num size (markBlocksAsComputed : AllocM HashValue Unit) := by
  have hloop : ∀ bs : List BlockId, KeepsAlike first num size
      (forM bs fun b => zoom attrLens (BlockComputedAttr.setComputed b true) :
        AllocM HashValue Unit) := by
    intro bs
    induction bs with
    | nil => exact .pure _
    | cons b bs ih => exact .bind (keepsAlike_attr (respects_setComputed b true)) fun _ => ih
  intro a a' h
  unfold markBlocksAsComputed
  rw [agree_get_bind]
  obtain ⟨-, _, _, rfl, -⟩ := id h
  refine agree_bind (hloop a.touchedBlocks h) fun _ s t h => ?_
  obtain ⟨hp, attr, rate, rfl, hattr⟩ := h
  exact agree_modify (hp.alike _ _ hattr _ _ _ _ _ _)

theorem Alike.getNumFreeBlock (h : Alike first num size a a') :
    a'.getNumFreeBlock = a.getNumFreeBlock := by
  obtain ⟨-, _, _, rfl, -⟩ := h
  rfl

theorem getCachedBlockNum_eq (h : Alike first num size a a') (keys : List HashValue) :
    a'.getCachedBlockNum keys = a.getCachedBlockNum keys := by
  rw [getCachedBlockNum, getCachedBlockNum, h.cachedBlocks]

end

end Lookups

/-- The calls of an owner. -/
theorem agree_exec [PrefixHasher HashValue] [DecidableEq HashValue] {first : BlockId}
    {num size : Nat} {T : Prop} {live : Finset Ptr}
    {w w' : World HashValue (PrefixCacheBlockAllocator HashValue)}
    (h : AlikeOwned first num size T live w w') {op : Op HashValue}
    (hfree : ∀ p keepBlockObj, op = .free p keepBlockObj → T → p ∈ live) :
    agree (fun live' => AlikeOwned first num size T live') (AlikeWorlds first num size)
      (op.exec live) (op.exec live) w w' := by
  cases op with
  | allocateMutableBlock tokenIds prevBlock extraHash =>
    exact agree_bind (agree_allocateMutableBlock h tokenIds prevBlock extraHash)
      fun _ _ _ h => agree_pure h.1
  | allocateImmutableBlock tokenIds prevBlock extraHash =>
    exact agree_bind (agree_allocateImmutableBlock h tokenIds prevBlock extraHash)
      fun _ _ _ h => agree_pure h.1
  | allocateImmutableBlocks tokenIds prevBlock extraHash =>
    exact agree_bind (agree_allocateImmutableBlocks h tokenIds prevBlock extraHash)
      fun _ _ _ h => agree_pure h
  | appendTokenIds p tokenIds =>
    exact agree_bind ((KeepsWorlds.appendTokenIds p tokenIds).owned h)
      fun _ _ _ h => agree_pure h
  | free p keepBlockObj =>
    exact agree_bind (agree_free h (hfree p keepBlockObj rfl) keepBlockObj)
      fun _ _ _ h => agree_pure h
  | fork p => exact agree_bind (agree_fork h p) fun _ _ _ h => agree_pure h
  | swapOut blocks => exact agree_bind (keepsOwned_swapOut blocks h) fun _ _ _ h => agree_pure h
  | swapIn blocks => exact agree_bind (keepsOwned_swapIn blocks h) fun _ _ _ h => agree_pure h
  | markBlocksAsComputed =>
    exact agree_bind ((KeepsWorlds.onAlloc keepsAlike_markBlocksAsComputed).owned h)
      fun _ _ _ h => agree_pure h

end MindieLLM.PrefixCacheBlockAllocator
