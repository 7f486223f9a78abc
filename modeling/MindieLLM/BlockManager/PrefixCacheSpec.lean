import MindieLLM.BlockManager.PrefixCacheLedger

/-!
# What the operations of the prefix-caching allocator do

One specification for each method, in terms of moves of ids and of memories up to memoised
hashes. The state in which a method throws is not described; the condition for throwing is.

## Main results

* `wp_allocateBlockId`, `wp_releaseBlockId`, `wp_incrRefCountCacheBlock`: methods on ids
* `wp_freeBlockId`, `wp_cowBlockIfNotAppendable`, `wp_promoteToImmutableBlock`,
  `wp_appendTokenIds`: methods on blocks
-/

namespace MindieLLM

open Program

variable {HashValue : Type}

/-! ## Changing the id of a block -/

def Mem.setId (m : Mem HashValue) (p : Ptr) (b : BlockId) : Mem HashValue :=
  m.setObj p { m.obj p with blockId := b }

@[simp]
theorem Mem.setId_setId (m : Mem HashValue) (p : Ptr) (b c : BlockId) :
    (m.setId p b).setId p c = m.setId p c := by
  simp [Mem.setId, Mem.setObj]

@[simp]
theorem Mem.setObj_setId (m : Mem HashValue) (p : Ptr) (o : BlockObj HashValue) (b : BlockId) :
    (m.setObj p o).setId p b = m.setObj p { o with blockId := b } := by
  simp [Mem.setId, Mem.setObj]

theorem Mem.setId_of_eq {m : Mem HashValue} {p : Ptr} {b : BlockId}
    (h : (m.obj p).blockId = b) : m.setId p b = m := by
  subst h
  simp [Mem.setId, Mem.setObj]

@[simp]
theorem Mem.setId_blockId (m : Mem HashValue) (p : Ptr) (b : BlockId) :
    ((m.setId p b).obj p).blockId = b := by
  simp [Mem.setId]

theorem Mem.setId_hash (m : Mem HashValue) (p q : Ptr) (b : BlockId) :
    ((m.setId p b).obj q).cachedPrefixHash = (m.obj q).cachedPrefixHash := by
  rw [Mem.setId, Mem.setObj_obj]
  split
  · rename_i h; rw [h]
  · rfl

theorem Mem.setId_prevBlock (m : Mem HashValue) (p q : Ptr) (b : BlockId) :
    ((m.setId p b).obj q).prevBlock = (m.obj q).prevBlock := by
  rw [Mem.setId, Mem.setObj_obj]
  split
  · rename_i h; rw [h]
  · rfl

theorem Mem.setId_ready (m : Mem HashValue) (p q : Ptr) (b : BlockId) :
    ((m.setId p b).obj q).isReadyToCalcPrefixHash = (m.obj q).isReadyToCalcPrefixHash := by
  rw [Mem.setId, Mem.setObj_obj]
  split
  · rename_i h; rw [h]; rfl
  · rfl

variable [PrefixHasher HashValue]

theorem hashable_setId {m : Mem HashValue} {p q : Ptr} {b : BlockId} :
    Hashable (m.setId p b) q ↔ Hashable m q := by
  constructor <;> refine fun h => h.mono (fun r hr => .memo ?_) (fun r hr => ?_) fun r => ?_
  · rwa [Mem.setId_hash] at hr
  · rwa [Mem.setId_ready] at hr
  · rw [Mem.setId_prevBlock]
  · rwa [Mem.setId_hash]
  · rwa [Mem.setId_ready]
  · rw [Mem.setId_prevBlock]

theorem Memoised.setId {m m' : Mem HashValue} (h : Memoised m m') (p : Ptr) (b : BlockId) :
    Memoised (m.setId p b) (m'.setId p b) where
  pool := h.pool
  obj q := by
    rw [Mem.setId, Mem.setId, Mem.setObj_obj, Mem.setObj_obj]
    split
    · have := h.obj p
      unfold SameButHash at *
      rw [this]
    · exact h.obj q
  hash q := by
    simp only [Mem.setId_hash, Mem.setId_prevBlock, Mem.setId_ready]
    have htok : ((m.setId p b).obj q).tokenIds = (m.obj q).tokenIds ∧
        ((m.setId p b).obj q).extraHash = (m.obj q).extraHash := by
      rw [Mem.setId, Mem.setObj_obj]
      split
      · rename_i hq; rw [hq]; exact ⟨rfl, rfl⟩
      · exact ⟨rfl, rfl⟩
    rw [htok.1, htok.2]
    exact h.hash q
  hashable q hq := by
    rw [Mem.setId_hash] at hq
    exact hashable_setId.mpr (h.hashable q hq)

namespace PrefixCacheBlockAllocator

variable [DecidableEq HashValue] {R : PrefixCacheBlockAllocator HashValue → BlockId → Prop}

/-! ## Methods on ids -/

section Ids

variable {a : PrefixCacheBlockAllocator HashValue} {own : Multiset BlockId} {b : BlockId}

omit [PrefixHasher HashValue] [DecidableEq HashValue] in
theorem wp_trackBlockId {Q : Unit → PrefixCacheBlockAllocator HashValue → Prop}
    {T : Exn → PrefixCacheBlockAllocator HashValue → Prop} {computed : Bool}
    (hv : a.blockComputedAttr.Valid b) (ha : (a.blockComputedAttr.blockInfos b).active = false) :
    wp (trackBlockId b computed) Q T a ↔
      Q () (a.setInfo b { active := true, computed := computed }) := by
  simp only [trackBlockId, wp_bind, wp_zoom, BlockComputedAttr.wp_enable,
    BlockComputedAttr.setComputed, attrLens_get, attrLens_put, hv, ha,
    BlockComputedAttr.wp_isValidBlockId, BlockComputedAttr.valid_updateInfo, wp_modify,
    BlockComputedAttr.updateInfo_updateInfo]
  simp [setInfo, Function.comp_def]

omit [PrefixHasher HashValue] [DecidableEq HashValue] in
theorem wp_untrackBlockId {Q : Unit → PrefixCacheBlockAllocator HashValue → Prop}
    {T : Exn → PrefixCacheBlockAllocator HashValue → Prop}
    (hv : a.blockComputedAttr.Valid b) (ha : (a.blockComputedAttr.blockInfos b).active = true) :
    wp (untrackBlockId b) Q T a ↔ Q () (a.setInfo b {}) := by
  simp [untrackBlockId, BlockComputedAttr.wp_disable, hv, ha, setInfo]

omit [DecidableEq HashValue] in
theorem Consistent.inactive (h : Consistent a own) (hb : b ∈ a.allBlockIndices) (hown : b ∉ own) :
    (a.blockComputedAttr.blockInfos b).active = false := by
  rw [Bool.eq_false_iff, Ne, h.active b hb]
  exact hown

/-- A managed id comes into use, unregistered. -/
structure Claimed (R : PrefixCacheBlockAllocator HashValue → BlockId → Prop)
    (a : PrefixCacheBlockAllocator HashValue) (own : Multiset BlockId) (b : BlockId)
    (a' : PrefixCacheBlockAllocator HashValue) : Prop where
  steps : IdSteps R (a, own) (a', b ::ₘ own)
  managed : b ∈ a.allBlockIndices
  fresh : b ∉ own
  unregistered : a'.Unregistered b
  cached : ∀ key c, a'.cachedBlocks key = some c → a.cachedBlocks key = some c
  kept : ∀ key c, c ≠ b → a.cachedBlocks key = some c → a'.cachedBlocks key = some c

omit [DecidableEq HashValue] in
theorem wp_increase {Q : RefCount → PrefixCacheBlockAllocator HashValue → Prop}
    {T : Exn → PrefixCacheBlockAllocator HashValue → Prop} (h : Consistent a own)
    (hb : b ∈ a.allBlockIndices) :
    wp (increase b) Q T a ↔ Q (own.count b + 1) (a.setCount b (own.count b + 1)) := by
  have hcount : a.refCounter.refCounts b = some (own.count b : RefCount) := by
    rw [h.refCounts, if_pos hb]
  simp [increase, RefCounter.wp_increase, hcount, setCount, not_lt.mpr]

theorem wp_mayBeAllocateEvictedBlockId (h : Consistent a own) (hfree : a.freeBlockIndices = []) :
    wp mayBeAllocateEvictedBlockId (Claimed R a own) (fun _ _ => a.getNumFreeBlock = 0) a := by
  unfold mayBeAllocateEvictedBlockId
  simp only [wp_bind, wp_zoom, evictorLens_get, evictorLens_put]
  refine wp_mono (LRUEvictor.wp_evict a.evictor) ?_ fun _ _ hempty => ?_
  · rintro ⟨key, b⟩ e hev
    obtain ⟨d, hd, hkey⟩ := hev.1
    obtain ⟨hb, hown, hreg⟩ := h.evictor b d hd
    dsimp only at hkey
    rw [← hkey] at hreg
    have hrange := mem_blockIndices.mp (h.indices ▸ hb)
    have hne := h.ne_invalid hb
    have hnot : ¬(b ≥ a.beginBlockId + a.numBlocks ∨ b < a.beginBlockId) := by lia
    simp only [hne, if_false, wp_bind, wp_pure, wp_get, hreg, ne_eq, not_true_eq_false, hnot,
      wp_set]
    have hcount : a.refCounter.refCounts b = some 0 := by
      rw [h.refCounts, if_pos hb, Multiset.count_eq_zero.mpr hown]; rfl
    simp only [increase, wp_zoom, refCounterLens_get, RefCounter.wp_increase, hcount,
      Option.some.injEq, forall_eq', le_refl, forall_true_left, refCounterLens_put,
      lt_self_iff_false, false_imp_iff, and_true, zero_add]
    rw [wp_trackBlockId]
    rotate_left
    · exact h.valid_iff.mpr hb
    · exact h.inactive hb hown
    refine ⟨.single (.claimEvicted hfree hev), hb, hown, fun k hk => ?_, fun k c hk => ?_,
      fun k c hc hk => ?_⟩
    · change Function.update a.cachedBlocks key none k = some b at hk
      rw [Function.update_apply] at hk
      split at hk
      · cases hk
      · rename_i hne'
        exact hne' (h.cached_inj _ _ b hk hreg)
    · change Function.update a.cachedBlocks key none k = some c at hk
      rw [Function.update_apply] at hk
      split at hk
      · cases hk
      · exact hk
    · change Function.update a.cachedBlocks key none k = some c
      rw [Function.update_of_ne, hk]
      rintro rfl
      rw [hreg, Option.some.injEq] at hk
      exact hc hk.symm
  · rw [getNumFreeBlock, hfree, LRUEvictor.getNumblocks, hempty h.covered]
    rfl

/-- `AllocateBlockId` brings an unregistered id into use. It fails only if no id is free or in
the evictor. -/
theorem wp_allocateBlockId (h : Consistent a own) :
    wp allocateBlockId (Claimed R a own) (fun _ _ => a.getNumFreeBlock = 0) a := by
  unfold allocateBlockId
  rw [wp_bind, wp_get]
  cases hfree : a.freeBlockIndices with
  | nil => exact wp_mayBeAllocateEvictedBlockId h hfree
  | cons b rest =>
    obtain ⟨hb, hown, hev⟩ := (h.free b).mp (by simp [hfree])
    have hcount : a.refCounter.refCounts b = some 0 := by
      rw [h.refCounts, if_pos hb, Multiset.count_eq_zero.mpr hown]; rfl
    simp only [wp_bind, wp_set, increase, wp_zoom, refCounterLens_get, RefCounter.wp_increase,
      hcount, Option.some.injEq, forall_eq', le_refl, forall_true_left, refCounterLens_put,
      lt_self_iff_false, false_imp_iff, and_true, zero_add]
    rw [wp_trackBlockId]
    · exact ⟨.single (.claimFree hfree), hb, hown,
        fun key hkey => (h.cached key b hkey).2.1 (by simp [hfree]), fun _ _ hk => hk,
        fun _ _ _ hk => hk⟩
    · exact h.valid_iff.mpr hb
    · exact h.inactive hb hown

/-- Giving up one use of an id; the last use must be that of an unregistered id. -/
theorem wp_releaseBlockId (h : Consistent a (b ::ₘ own))
    (hreg : b ∉ own → a.Unregistered b) :
    wp (releaseBlockId b)
      (fun _ a' => b ∈ a.allBlockIndices ∧ IdSteps R (a, b ::ₘ own) (a', own) ∧
        a'.cachedBlocks = a.cachedBlocks)
      (fun _ _ => b ∉ a.allBlockIndices) a := by
  unfold releaseBlockId
  by_cases hb : b ∈ a.allBlockIndices
  swap
  · have hcount : a.refCounter.refCounts b = none := by rw [h.refCounts, if_neg hb]
    simp [decrease, RefCounter.wp_decrease, hcount, hb]
  have hcount : a.refCounter.refCounts b = some (own.count b + 1 : RefCount) := by
    rw [h.refCounts, if_pos hb, Multiset.count_cons_self]; rfl
  have hpos : ¬(own.count b + 1 : RefCount) ≤ 0 := by lia
  simp only [wp_bind, decrease, wp_zoom, refCounterLens_get, RefCounter.wp_decrease, hcount,
    Option.some.injEq, forall_eq', refCounterLens_put, add_sub_cancel_right, hpos, false_imp_iff,
    and_true]
  intro _
  by_cases hown : b ∈ own
  · have hne : ¬(own.count b : RefCount) = 0 := by
      have := Multiset.count_pos.mpr hown
      lia
    simp only [hne, if_false, wp_pure]
    exact ⟨hb, .single (.drop hb hown), trivial⟩
  · have hzero : (own.count b : RefCount) = 0 := by
      rw [Multiset.count_eq_zero.mpr hown]; rfl
    simp only [hzero, if_true, wp_bind]
    rw [wp_untrackBlockId]
    · simp only [pushFree, wp_modify]
      exact ⟨hb, .single (.releaseFree hb hown (hreg hown)), rfl⟩
    · exact h.valid_iff.mpr hb
    · exact (h.active b hb).mpr (Multiset.mem_cons_self b own)

/-- One more use of the id of a cached block. -/
theorem wp_incrRefCountCacheBlock (h : Consistent a own) {key : HashValue}
    (hreg : a.cachedBlocks key = some b) :
    wp (incrRefCountCacheBlock b)
      (fun _ a' => IdSteps R (a, own) (a', b ::ₘ own) ∧ a'.cachedBlocks = a.cachedBlocks)
      (fun _ _ => False) a := by
  obtain ⟨hb, -⟩ := h.cached key b hreg
  unfold incrRefCountCacheBlock
  rw [wp_bind, wp_increase h hb]
  by_cases hown : b ∈ own
  · have hne : ¬(own.count b + 1 : RefCount) = 1 := by
      have := Multiset.count_pos.mpr hown
      lia
    simp only [hne, if_false, wp_pure]
    exact ⟨.single (.share hb hown), rfl⟩
  · have hzero : own.count b = 0 := Multiset.count_eq_zero.mpr hown
    obtain ⟨d, hd, -⟩ := h.lookup_of_cached hreg hown
    have hcontains : a.evictor.containsBlock b = true := by
      rw [LRUEvictor.containsBlock, hd]; rfl
    simp only [hzero, Nat.cast_zero, zero_add, if_true, wp_bind, wp_modify, setCount, hcontains]
    rw [wp_trackBlockId]
    · exact ⟨.single (.revive hown hreg), rfl⟩
    · exact h.valid_iff.mpr hb
    · exact h.inactive hb hown

end Ids

/-! ## Methods on blocks -/

section Blocks

variable {w : World HashValue (PrefixCacheBlockAllocator HashValue)} {own : Multiset BlockId}
  {b : BlockId} {p : Ptr}

/-- A block gives its id `b` up. -/
structure Dropped (R : PrefixCacheBlockAllocator HashValue → BlockId → Prop)
    (w : World HashValue (PrefixCacheBlockAllocator HashValue)) (own : Multiset BlockId)
    (p : Ptr) (b : BlockId) (w' : World HashValue (PrefixCacheBlockAllocator HashValue)) :
    Prop where
  managed : b ∈ w.alloc.allBlockIndices
  steps : IdSteps R (w.alloc, b ::ₘ own) (w'.alloc, own)
  cached : w'.alloc.cachedBlocks = w.alloc.cachedBlocks
  mem : Memoised (w.mem.setId p invalidBlockId) w'.mem

/-- The ways `freeBlockId` can fail. -/
def FreeFails (w : World HashValue (PrefixCacheBlockAllocator HashValue)) (p : Ptr) : Prop :=
  (w.mem.obj p).blockId ∉ w.alloc.allBlockIndices ∨ ¬ChainEnds w.mem p w.mem.pool.poolSize

/-- The block gives up the last use of its id, and the hash computed for it is registered for
another id or for none. -/
def Mismatch (w : World HashValue (PrefixCacheBlockAllocator HashValue)) (own : Multiset BlockId)
    (p : Ptr) : Prop :=
  (w.mem.obj p).blockId ∉ own ∧ ∃ key m', PrefixCachingBlockObj.prefixHash p w.mem = .ok key m' ∧
    key ≠ invalidHashValue ∧ w.alloc.cachedBlocks key ≠ some (w.mem.obj p).blockId

omit [PrefixHasher HashValue] [DecidableEq HashValue] in
theorem chainEnds_setId {m : Mem HashValue} {q : Ptr} {n : Nat} :
    ChainEnds (m.setId p b) q n ↔ ChainEnds m q n :=
  chainEnds_setObj (by rfl)

theorem wp_decrRefCountCacheBlock
    (h : Consistent w.alloc (b ::ₘ own)) (hid : (w.mem.obj p).blockId = b) {key : HashValue}
    (hkey : (w.mem.obj p).cachedPrefixHash = key) (hvalid : key ≠ invalidHashValue)
    (hR : b ∉ own → R w.alloc b) :
    wp (decrRefCountCacheBlock p) (fun _ => Dropped R w own p b)
      (fun _ _ => FreeFails w p ∨ (b ∉ own ∧ w.alloc.cachedBlocks key ≠ some b)) w := by
  unfold decrRefCountCacheBlock
  simp only [wp_bind, wp_zoom, wp_load, World.memLens_get, World.memLens_put, Mem.objAt_get,
    Mem.objAt_put, HashLessBlockObj.setBlockId, wp_modify, World.allocLens_get,
    World.allocLens_put, hid]
  change wp (decrease b) (fun refCount a' => wp _ _ _ (World.mk (w.mem.setId p invalidBlockId) a'))
    _ w.alloc
  by_cases hb : b ∈ w.alloc.allBlockIndices
  swap
  · have hcount : w.alloc.refCounter.refCounts b = none := by rw [h.refCounts, if_neg hb]
    simp [decrease, RefCounter.wp_decrease, hcount, FreeFails, hid, hb]
  have hcount : w.alloc.refCounter.refCounts b = some (own.count b + 1 : RefCount) := by
    rw [h.refCounts, if_pos hb, Multiset.count_cons_self]; rfl
  have hpos : ¬(own.count b + 1 : RefCount) ≤ 0 := by lia
  have hneg : ¬(own.count b : RefCount) < 0 := by lia
  simp only [decrease, wp_zoom, refCounterLens_get, RefCounter.wp_decrease, hcount,
    Option.some.injEq, forall_eq', refCounterLens_put, add_sub_cancel_right, hpos, false_imp_iff,
    and_true, hneg, if_false]
  intro _
  by_cases hown : b ∈ own
  · have hne : ¬(own.count b : RefCount) = 0 := by
      have := Multiset.count_pos.mpr hown
      lia
    simp only [hne, if_false, wp_pure]
    exact ⟨hb, .single (.drop hb hown), rfl, .refl _⟩
  · have hzero : (own.count b : RefCount) = 0 := by
      rw [Multiset.count_eq_zero.mpr hown]; rfl
    have hdiv : ∀ {m : Mem HashValue}, Memoised (w.mem.setId p invalidBlockId) m →
        ¬ChainEnds m p m.pool.poolSize → FreeFails w p := by
      intro m hm hends
      rw [hm.chainEnds, hm.pool, chainEnds_setId] at hends
      exact .inr hends
    have hhash : ∀ {m : Mem HashValue}, Memoised (w.mem.setId p invalidBlockId) m →
        (m.obj p).cachedPrefixHash = key := by
      intro m hm
      rw [hm.hash_stable] <;> rw [Mem.setId_hash, hkey]
      exact hvalid
    simp only [hzero, if_true, wp_bind, wp_zoom, World.memLens_get, World.memLens_put, wp_get]
    refine wp_mono (PrefixCachingBlockObj.wp_prefixHash p _) ?_
      fun _ _ hf => .inl (hdiv (.refl _) hf)
    rintro _ m₁ ⟨hm₁, rfl, -⟩
    rw [hhash hm₁]
    obtain hc | ⟨c, hc⟩ := Option.eq_none_or_eq_some (w.alloc.cachedBlocks key)
    · simp only [hc, wp_throw]
      exact .inr ⟨hown, by simp⟩
    by_cases hbc : b = c
    swap
    · simp only [hc, ne_eq, hbc, not_false_eq_true, if_true, wp_bind, wp_throw]
      exact .inr ⟨hown, fun heq => hbc (Option.some.inj heq).symm⟩
    subst hbc
    simp only [hc, ne_eq, not_true_eq_false, if_false, wp_bind, wp_zoom, World.memLens_get,
      World.memLens_put]
    refine wp_mono (PrefixCachingBlockObj.wp_prefixHash p _) ?_ fun _ _ hf => .inl (hdiv hm₁ hf)
    rintro _ m₂ ⟨hm₂, rfl, -⟩
    rw [hhash (hm₁.trans hm₂)]
    have hv : (w.alloc.setCount b 0).blockComputedAttr.Valid b := h.valid_iff.mpr hb
    simp only [wp_load, World.allocLens_get, attrLens_get, BlockComputedAttr.lastAccessed,
      wp_bind, BlockComputedAttr.wp_isValidBlockId, wp_get, wp_pure, attrLens_put,
      World.allocLens_put, wp_modify]
    refine ⟨fun _ => ?_, fun hnv => absurd hv hnv⟩
    rw [wp_untrackBlockId]
    · exact ⟨hb, .single (.releaseCached hown hc (hR hown)), rfl, hm₁.trans hm₂⟩
    · exact hv
    · exact (h.active b hb).mpr (Multiset.mem_cons_self b own)

/-- What has to hold where a block gives up the last use of its id: without a valid hash the code
makes the id free, and then no contents may be registered for it. -/
structure Releasable (R : PrefixCacheBlockAllocator HashValue → BlockId → Prop)
    (w : World HashValue (PrefixCacheBlockAllocator HashValue)) (p : Ptr) : Prop where
  unregistered : ∀ m', PrefixCachingBlockObj.prefixHash p w.mem = .ok invalidHashValue m' →
    w.alloc.Unregistered (w.mem.obj p).blockId
  cached : ∀ key m', PrefixCachingBlockObj.prefixHash p w.mem = .ok key m' →
    key ≠ invalidHashValue → R w.alloc (w.mem.obj p).blockId

/-- `FreeBlockId` gives up one use of the id. -/
theorem wp_freeBlockId (h : Consistent w.alloc (b ::ₘ own)) (hid : (w.mem.obj p).blockId = b)
    (hrel : b ∉ own → Releasable R w p) :
    wp (freeBlockId p) (fun _ => Dropped R w own p b)
      (fun _ _ => FreeFails w p ∨ Mismatch w own p) w := by
  unfold freeBlockId
  simp only [wp_bind, wp_zoom, wp_load, World.memLens_get, World.memLens_put]
  refine wp_mono (wp_and (PrefixCachingBlockObj.wp_prefixHash p w.mem) (wp_self _ _)) ?_
    fun _ _ hdiv => .inl (.inr hdiv.1)
  rintro key m₁ ⟨⟨hm₁, hkey, -⟩, hrun⟩
  have hid₁ : (m₁.obj p).blockId = b := (hm₁.obj p).blockId.trans hid
  rw [wp_ite]
  refine ⟨fun hvalid => ?_, fun hinv => ?_⟩
  · have hR : b ∉ own → R w.alloc b := fun hown => hid ▸ (hrel hown).cached key m₁ hrun hvalid
    refine wp_mono (wp_decrRefCountCacheBlock (w := { w with mem := m₁ }) h hid₁ hkey.symm hvalid
      hR) ?_ fun _ _ hf => ?_
    · rintro _ w' ⟨hb, hsteps, hcached, hmem⟩
      exact ⟨hb, hsteps, hcached, (hm₁.setId p _).trans hmem⟩
    · rcases hf with (hb | hends) | ⟨hown, hne⟩
      · exact .inl (.inl (by rwa [hid, ← hid₁]))
      · exact .inl (.inr (by rwa [hm₁.chainEnds, hm₁.pool] at hends))
      · exact .inr ⟨hid ▸ hown, key, m₁, hrun, hvalid, hid ▸ hne⟩
  · have hinv := not_not.mp hinv
    have hreg : b ∉ own → w.alloc.Unregistered b := fun hown =>
      hid ▸ (hrel hown).unregistered m₁ (hinv ▸ hrun)
    simp only [wp_bind, wp_zoom, World.allocLens_get, World.allocLens_put, World.memLens_get,
      World.memLens_put, Mem.objAt_get, Mem.objAt_put, hid]
    refine wp_mono (wp_releaseBlockId (R := R) h hreg) ?_ fun _ _ hb => .inl (.inl (hid ▸ hb))
    rintro _ a' ⟨hb, hsteps, hcached⟩
    simp only [HashLessBlockObj.resetBlockId, wp_bind, wp_get, hid₁, h.ne_invalid hb, if_false,
      wp_set]
    exact ⟨hb, hsteps, hcached, hm₁.setId p _⟩

/-- A block whose id is shared gets one of its own. -/
structure Unshared (R : PrefixCacheBlockAllocator HashValue → BlockId → Prop)
    (w : World HashValue (PrefixCacheBlockAllocator HashValue)) (own : Multiset BlockId)
    (p : Ptr) (b b' : BlockId) (w' : World HashValue (PrefixCacheBlockAllocator HashValue)) :
    Prop where
  managed : b' ∈ w.alloc.allBlockIndices
  steps : IdSteps R (w.alloc, b ::ₘ own) (w'.alloc, b' ::ₘ own)
  fresh : b' ∉ own
  unregistered : b' = b ∨ w'.alloc.Unregistered b'
  cached : ∀ key c, w'.alloc.cachedBlocks key = some c → w.alloc.cachedBlocks key = some c
  kept : ∀ key c, c ∈ own → w.alloc.cachedBlocks key = some c →
    w'.alloc.cachedBlocks key = some c
  mem : Memoised (w.mem.setId p b') (w'.mem.setId p b')

theorem wp_cowBlockIfNotAppendable (h : Consistent w.alloc (b ::ₘ own))
    (hid : (w.mem.obj p).blockId = b) :
    wp (cowBlockIfNotAppendable p) (fun b' => Unshared R w own p b b')
      (fun _ _ => FreeFails w p ∨ (b ∈ own ∧ w.alloc.getNumFreeBlock = 0)) w := by
  unfold cowBlockIfNotAppendable
  simp only [wp_bind, wp_zoom, wp_load, World.memLens_get, World.memLens_put, hid]
  by_cases hb : b ∈ w.alloc.allBlockIndices
  swap
  · have hfails : FreeFails w p := .inl (hid ▸ hb)
    have hcount : w.alloc.refCounter.refCounts b = none := by rw [h.refCounts, if_neg hb]
    rw [wp_ite]
    refine ⟨fun _ => .inl hfails, fun _ => ?_⟩
    simp [RefCounter.wp_getRefCount, hcount, hfails]
  have hcount : w.alloc.refCounter.refCounts b = some (own.count b + 1 : RefCount) := by
    rw [h.refCounts, if_pos hb, Multiset.count_cons_self]; rfl
  simp only [h.ne_invalid hb, if_false, wp_bind, wp_zoom, World.allocLens_get, refCounterLens_get,
    RefCounter.wp_getRefCount, hcount, Option.some.injEq, forall_eq', reduceCtorEq,
    false_imp_iff, and_true, refCounterLens_put, World.allocLens_put]
  by_cases hown : b ∈ own
  swap
  · have hle : (own.count b + 1 : RefCount) ≤ 1 := by
      rw [Multiset.count_eq_zero.mpr hown]; rfl
    simp only [hle, if_true, wp_pure]
    exact ⟨hb, .refl, hown, .inl rfl, fun _ _ hk => hk, fun _ _ _ hk => hk, .refl _⟩
  have hnle : ¬(own.count b + 1 : RefCount) ≤ 1 := by
    have := Multiset.count_pos.mpr hown
    lia
  simp only [hnle, if_false, wp_bind]
  refine wp_mono (wp_freeBlockId (R := R) h hid fun hno => absurd hown hno) ?_ fun _ _ hf => ?_
  swap
  · exact .inl (hf.resolve_right fun hmis => hmis.1 (hid ▸ hown))
  rintro _ w₁ ⟨-, hsteps₁, hcached₁, hmem₁⟩
  have h₁ : Consistent w₁.alloc own := h.idSteps hsteps₁
  have hall := (IdSteps.const hsteps₁).1
  dsimp only at hall
  have hidle : w₁.alloc.getNumFreeBlock = w.alloc.getNumFreeBlock := by
    rw [h₁.getNumFreeBlock_eq, h.getNumFreeBlock_eq, hall]
    congr 2
    ext c
    simp only [Multiset.mem_cons, not_or, decide_eq_decide]
    exact ⟨fun hc => ⟨fun heq => hc (heq ▸ hown), hc⟩, fun hc => hc.2⟩
  simp only [wp_zoom, World.allocLens_get, World.allocLens_put]
  refine wp_mono (wp_allocateBlockId (R := R) h₁) ?_ fun _ _ hnone => .inr ⟨hown, hidle ▸ hnone⟩
  rintro b' a₂ ⟨hsteps₂, hb', hfresh, hunreg, hcached₂, hkept₂⟩
  simp only [wp_modify, wp_pure]
  refine ⟨hall ▸ hb', (hsteps₁.trans hsteps₂).tail .note, hfresh, .inr hunreg, ?_, ?_, ?_⟩
  · intro key c hk
    rw [← hcached₁]
    exact hcached₂ key c hk
  · intro key c hc hk
    refine hkept₂ key c (fun heq => hfresh (heq ▸ hc)) ?_
    rwa [hcached₁]
  · have := hmem₁.setId p b'
    rwa [Mem.setId_setId] at this

/-- A block that has become full holds the id registered for its hash. -/
structure Promoted (R : PrefixCacheBlockAllocator HashValue → BlockId → Prop)
    (w : World HashValue (PrefixCacheBlockAllocator HashValue)) (own : Multiset BlockId)
    (p : Ptr) (b : BlockId) (key : HashValue) (b' : BlockId)
    (w' : World HashValue (PrefixCacheBlockAllocator HashValue)) : Prop where
  steps : IdSteps R (w.alloc, b ::ₘ own) (w'.alloc, b' ::ₘ own)
  registered : w'.alloc.cachedBlocks key = some b'
  cached : ∀ k c, w'.alloc.cachedBlocks k = some c →
    w.alloc.cachedBlocks k = some c ∨ (k = key ∧ c = b' ∧ b' ∉ own)
  kept : ∀ k c, w.alloc.cachedBlocks k = some c → w'.alloc.cachedBlocks k = some c
  mem : Memoised (w.mem.setId p b') w'.mem

theorem wp_promoteToImmutableBlock (h : Consistent w.alloc (b ::ₘ own))
    (hid : (w.mem.obj p).blockId = b) (hb : b ∈ w.alloc.allBlockIndices) (hown : b ∉ own)
    (hunreg : w.alloc.Unregistered b) {key : HashValue}
    (hkey : (w.mem.obj p).cachedPrefixHash = key) (hvalid : key ≠ invalidHashValue) :
    wp (promoteToImmutableBlock p) (fun b' => Promoted R w own p b key b')
      (fun _ _ => FreeFails w p) w := by
  unfold promoteToImmutableBlock
  simp only [wp_bind, wp_zoom, World.memLens_get, World.memLens_put]
  refine wp_mono (PrefixCachingBlockObj.wp_prefixHash p w.mem) ?_ fun _ _ => .inr
  rintro _ m₁ ⟨hm₁, rfl, -⟩
  have hid₁ : (m₁.obj p).blockId = b := (hm₁.obj p).blockId.trans hid
  rw [hm₁.hash_stable (hkey ▸ hvalid), hkey]
  simp only [wp_load, hid₁, wp_get]
  cases hc : w.alloc.cachedBlocks key with
  | none =>
    simp only [wp_bind, wp_zoom, World.allocLens_get, wp_modify, World.allocLens_put, wp_pure]
    refine ⟨.single (.register (by simp [Multiset.count_eq_zero.mpr hown]) hb hunreg hc hvalid),
      by simp, fun k c hk => ?_, fun k c hk => ?_, ?_⟩
    · change Function.update w.alloc.cachedBlocks key (some b) k = some c at hk
      rw [Function.update_apply] at hk
      split at hk
      · rename_i hkk
        rw [Option.some.injEq] at hk
        exact .inr ⟨hkk, hk.symm, hown⟩
      · exact .inl hk
    · change Function.update w.alloc.cachedBlocks key (some b) k = some c
      rw [Function.update_of_ne, hk]
      rintro rfl
      rw [hc] at hk
      cases hk
    · rw [Mem.setId_of_eq hid]
      exact hm₁
  | some reuse =>
    simp only [wp_bind, wp_zoom, World.allocLens_get, World.allocLens_put, World.memLens_get,
      World.memLens_put, Mem.objAt_get, Mem.objAt_put]
    refine wp_mono (wp_releaseBlockId (R := R) h fun _ => hunreg) ?_ fun _ _ hnb => absurd hb hnb
    rintro _ a₁ ⟨-, hsteps₁, hcached₁⟩
    have h₁ : Consistent a₁ own := h.idSteps hsteps₁
    have hreg₁ : a₁.cachedBlocks key = some reuse := by rw [hcached₁, hc]
    simp only [HashLessBlockObj.resetBlockId, HashLessBlockObj.setBlockId, wp_bind, wp_get, hid₁,
      h.ne_invalid hb, if_false, wp_set, wp_modify, Mem.setObj_obj_same, wp_pure]
    refine wp_mono (wp_incrRefCountCacheBlock (R := R) h₁ hreg₁) ?_ fun _ _ hfalse => hfalse.elim
    rintro _ a₂ ⟨hsteps₂, hcached₂⟩
    have hcached : a₂.cachedBlocks = w.alloc.cachedBlocks := hcached₂.trans hcached₁
    refine ⟨hsteps₁.trans hsteps₂, ?_, fun k c hk => .inl ?_, fun k c hk => ?_, ?_⟩
    · change a₂.cachedBlocks key = some reuse
      rw [hcached, hc]
    · rwa [← hcached]
    · change a₂.cachedBlocks k = some c
      rwa [hcached]
    · have := hm₁.setId p reuse
      simpa [Mem.setId, Mem.setObj] using this

/-- A block takes tokens; its id can change on the way. -/
structure Appended (R : PrefixCacheBlockAllocator HashValue → BlockId → Prop)
    (w : World HashValue (PrefixCacheBlockAllocator HashValue)) (own : Multiset BlockId)
    (p : Ptr) (b : BlockId) (tokenIds : List TokenId)
    (w' : World HashValue (PrefixCacheBlockAllocator HashValue)) (o : BlockObj HashValue) :
    Prop where
  id_ne : b ≠ invalidBlockId
  not_hashable : ¬Hashable w.mem p
  pushed : Pushed (w.mem.obj p) tokenIds { o with blockId := b }
  mem : Memoised (w.mem.setObj p o) w'.mem
  steps : IdSteps R (w.alloc, b ::ₘ own) (w'.alloc, o.blockId ::ₘ own)
  managed : o.blockId ∈ w.alloc.allBlockIndices
  /-- What is registered was registered before, or it is the block's own contents. -/
  cached : ∀ key c, w'.alloc.cachedBlocks key = some c →
    w.alloc.cachedBlocks key = some c ∨
      (key = (w'.mem.obj p).cachedPrefixHash ∧ c = o.blockId ∧ c ∉ own)
  kept : ∀ key c, c ∈ own → w.alloc.cachedBlocks key = some c →
    w'.alloc.cachedBlocks key = some c
  /-- A block with a valid hash holds the id registered for it. -/
  registered : (w'.mem.obj p).cachedPrefixHash ≠ invalidHashValue →
    w'.alloc.cachedBlocks (w'.mem.obj p).cachedPrefixHash = some o.blockId
  /-- Without a valid hash the id is not shared, and a new one is unregistered. -/
  unregistered : (w'.mem.obj p).cachedPrefixHash = invalidHashValue →
    o.blockId ∉ own ∧ (o.blockId = b ∨ w'.alloc.Unregistered o.blockId)

/-- The ways `appendTokenIds` can fail. -/
def AppendFails (w : World HashValue (PrefixCacheBlockAllocator HashValue))
    (own : Multiset BlockId) (p : Ptr) (tokenIds : List TokenId) : Prop :=
  ¬PrefixCachingBlockObj.CanAppend w.mem p tokenIds ∨ FreeFails w p ∨
    ((w.mem.obj p).blockId ∈ own ∧ w.alloc.getNumFreeBlock = 0)

/-- The last step of an append: a block whose hash has become valid is promoted. -/
theorem wp_promoteIfHashed (h : Consistent w.alloc (b ::ₘ own))
    (hid : (w.mem.obj p).blockId = b) (hb : b ∈ w.alloc.allBlockIndices) (hown : b ∉ own)
    (hunreg : Hashable w.mem p → w.alloc.Unregistered b) :
    wp (promoteIfHashed p)
      (fun _ w' => ∃ b', Memoised (w.mem.setId p b') w'.mem ∧
        ((w'.mem.obj p).cachedPrefixHash ≠ invalidHashValue ∧
          Promoted R w own p b (w'.mem.obj p).cachedPrefixHash b' w' ∨
        (w'.mem.obj p).cachedPrefixHash = invalidHashValue ∧ b' = b ∧ w'.alloc = w.alloc))
      (fun _ _ => FreeFails w p) w := by
  unfold promoteIfHashed
  simp only [wp_bind, wp_zoom, World.memLens_get, World.memLens_put]
  refine wp_mono (PrefixCachingBlockObj.wp_prefixHash p w.mem) ?_ fun _ _ => .inr
  rintro key m₁ ⟨hm₁, hkey, -⟩
  have hid₁ : (m₁.obj p).blockId = b := (hm₁.obj p).blockId.trans hid
  rw [wp_ite]
  refine ⟨fun hvalid => ?_, fun hinv => ?_⟩
  · rw [wp_bind]
    have hfails : FreeFails { w with mem := m₁ } p → FreeFails w p := by
      rintro (hb' | hends)
      · exact absurd hb (hid₁ ▸ hb')
      · exact .inr (by rwa [hm₁.chainEnds, hm₁.pool] at hends)
    refine wp_mono (wp_promoteToImmutableBlock (R := R) (w := { w with mem := m₁ }) h hid₁ hb hown
      (hunreg (hm₁.hashable p (hkey ▸ hvalid))) hkey.symm hvalid) ?_ fun _ _ => hfails
    rintro b' w' ⟨hsteps, hreg, hcached, hkept, hmem⟩
    have hmem' : Memoised (w.mem.setId p b') w'.mem := (hm₁.setId p b').trans hmem
    have hhash : (w'.mem.obj p).cachedPrefixHash = key := by
      rw [hmem.hash_stable, Mem.setId_hash, hkey]
      rwa [Mem.setId_hash, ← hkey]
    rw [wp_pure, hhash]
    exact ⟨b', hmem', .inl ⟨hvalid, ⟨hsteps, hreg, hcached, hkept, hmem'⟩⟩⟩
  · have hinv := not_not.mp hinv
    refine ⟨b, ?_, .inr ⟨hkey ▸ hinv, rfl, rfl⟩⟩
    rw [Mem.setId_of_eq hid]
    exact hm₁

/-- `AppendTokenIds`. Before the call only a full block may carry a registered id. -/
theorem wp_appendTokenIds (h : Consistent w.alloc (b ::ₘ own))
    (hid : (w.mem.obj p).blockId = b)
    (hfull : ∀ key, w.alloc.cachedBlocks key = some b → (w.mem.obj p).isFull)
    (tokenIds : List TokenId) :
    wp (appendTokenIds p tokenIds) (fun _ w' => ∃ o, Appended R w own p b tokenIds w' o)
      (fun _ _ => AppendFails w own p tokenIds) w := by
  unfold appendTokenIds
  simp only [wp_bind, wp_zoom, World.memLens_get, World.memLens_put]
  refine wp_mono (PrefixCachingBlockObj.wp_appendTokenIds p tokenIds w.mem) ?_ fun _ _ => .inl
  rintro _ m₁ ⟨o, hpush, hne, hno, hm₁⟩
  have hid₁ : (m₁.obj p).blockId = b := by
    rw [(hm₁.obj p).blockId, Mem.setObj_obj_same, hpush.blockId, hid]
  have hfails₁ : FreeFails { w with mem := m₁ } p → FreeFails w p := by
    rintro (hb | hends)
    · exact .inl (by rwa [hid, ← hid₁])
    · rw [hm₁.chainEnds, hm₁.pool, chainEnds_setObj hpush.prevBlock] at hends
      exact .inr hends
  -- the tokens that make the hash valid went onto a block that was not full
  have hunreg : Hashable m₁ p → w.alloc.Unregistered b := by
    intro hhash key hreg
    obtain rfl := hpush.eq_nil_of_isFull (hfull key hreg)
    rw [hm₁.hashable_iff] at hhash
    refine hno (hhash.mono (fun q hq => .memo ?_) (fun q hq => ?_) fun q => ?_) <;>
      by_cases hqp : q = p
    · subst hqp; rwa [Mem.setObj_obj_same, hpush.cachedPrefixHash] at hq
    · rwa [Mem.setObj_obj_ne _ _ hqp] at hq
    · subst hqp; rwa [Mem.setObj_obj_same, hpush.isReadyToCalcPrefixHash] at hq
    · rwa [Mem.setObj_obj_ne _ _ hqp] at hq
    · subst hqp; rw [Mem.setObj_obj_same, hpush.prevBlock]
    · rw [Mem.setObj_obj_ne _ _ hqp]
  refine wp_mono (wp_cowBlockIfNotAppendable (R := R) h hid₁) ?_ fun _ _ hf => .inr ?_
  swap
  · rcases hf with hf | ⟨hown, hnone⟩
    · exact .inl (hfails₁ hf)
    · exact .inr ⟨hid ▸ hown, hnone⟩
  rintro b₂ w₂ ⟨hb₂, hsteps₂, hfresh₂, hunreg₂, hcached₂, hkept₂, hmem₂⟩
  have h₂ : Consistent w₂.alloc (b₂ ::ₘ own) := h.idSteps hsteps₂
  have hall : w₂.alloc.allBlockIndices = w.alloc.allBlockIndices := (IdSteps.const hsteps₂).1
  simp only [HashLessBlockObj.setBlockId, Mem.objAt_get, Mem.objAt_put, wp_modify]
  change wp (promoteIfHashed p) _ _ { w₂ with mem := w₂.mem.setId p b₂ }
  have hunreg₂' : Hashable (w₂.mem.setId p b₂) p → w₂.alloc.Unregistered b₂ := by
    intro hhash
    rcases hunreg₂ with rfl | hunreg₂
    · rw [hmem₂.hashable_iff, hashable_setId] at hhash
      exact fun key hk => hunreg hhash key (hcached₂ key _ hk)
    · exact hunreg₂
  have hends₂ : ∀ n, ChainEnds (w₂.mem.setId p b₂) p n ↔ ChainEnds w.mem p n := by
    intro n
    rw [hmem₂.chainEnds, chainEnds_setId, hm₁.chainEnds, chainEnds_setObj hpush.prevBlock]
  have hpool₂ : w₂.mem.pool = w.mem.pool := hmem₂.pool.trans hm₁.pool
  refine wp_mono (wp_promoteIfHashed (R := R) (w := { w₂ with mem := w₂.mem.setId p b₂ }) h₂
    (Mem.setId_blockId _ _ _) (hall ▸ hb₂) hfresh₂ hunreg₂') ?_ fun _ _ hf => .inr (.inl ?_)
  swap
  · rcases hf with hf | hf
    · simp only [Mem.setId_blockId] at hf
      exact absurd (hall ▸ hb₂) hf
    · refine .inr fun hends => hf ?_
      rw [hends₂]
      change ChainEnds w.mem p w₂.mem.pool.poolSize
      rwa [hpool₂]
  rintro _ w₃ ⟨b₃, hmem₃, hcases⟩
  simp only [Mem.setId_setId] at hmem₃
  have hmem : Memoised (w.mem.setObj p { o with blockId := b₃ }) w₃.mem := by
    have h₁ := (hm₁.setId p b₂).trans hmem₂ |>.setId p b₃
    simp only [Mem.setId_setId, Mem.setObj_setId] at h₁
    exact h₁.trans hmem₃
  have hpush' : Pushed (w.mem.obj p) tokenIds { { o with blockId := b₃ } with blockId := b } :=
    ⟨hpush.1, hpush.2, hpush.3, hid.symm, hpush.5, hpush.6, hpush.7, hpush.8⟩
  refine ⟨{ o with blockId := b₃ }, ?_⟩
  rcases hcases with ⟨hvalid, hprom⟩ | ⟨hinv, rfl, halloc⟩
  · have hb₃ : b₃ ∈ w.alloc.allBlockIndices :=
      (IdSteps.const (hsteps₂.trans hprom.steps)).1 ▸
        ((h₂.idSteps hprom.steps).cached _ _ hprom.registered).1
    refine ⟨hid ▸ hne, hno, hpush', hmem, hsteps₂.trans hprom.steps, hb₃, fun key c hk => ?_,
      fun key c hc hk => hprom.kept key c (hkept₂ key c hc hk), fun _ => hprom.registered,
      fun hinv => absurd hinv hvalid⟩
    rcases hprom.cached key c hk with hk | ⟨rfl, rfl, hown⟩
    · exact .inl (hcached₂ key c hk)
    · exact .inr ⟨rfl, rfl, hown⟩
  · refine ⟨hid ▸ hne, hno, hpush', hmem, ?_, hb₂, fun key c hk => .inl ?_, fun key c hc hk => ?_,
      fun hvalid => absurd hinv hvalid, fun _ => ⟨hfresh₂, ?_⟩⟩
    · rw [halloc]; exact hsteps₂
    · rw [halloc] at hk; exact hcached₂ key c hk
    · rw [halloc]; exact hkept₂ key c hc hk
    · rw [halloc]; exact hunreg₂

end Blocks

end PrefixCacheBlockAllocator

end MindieLLM
