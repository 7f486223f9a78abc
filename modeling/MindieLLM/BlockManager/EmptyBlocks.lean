import MindieLLM.BlockManager.HashLessBlockAllocator
import MindieLLM.BlockManager.PrefixCacheSpec

/-!
# Blocks without tokens

A block that never takes a token is never full: it has no hash, no other block shares its id, and
freeing it makes the id free. For the owner of such blocks both allocators are the same pool of
ids.

## Main definitions

* `Leased m live free all`: the live blocks hold the ids that are not free, one each
* `LeasesEmptyBlocks`: allocating, freeing and counting blocks without tokens

## Main results

* `Leased.acquire`, `Leased.release`: an id is taken, and given back
* the instances of `LeasesEmptyBlocks` for both allocators
-/

namespace MindieLLM

open Program

variable {HashValue : Type}

/-- The live blocks are in use, and each holds one of the ids that are not free. -/
structure Leased (m : Mem HashValue) (live : Finset Ptr) (free all : List BlockId) : Prop where
  tracks : m.pool.Tracks live
  pool_pos : all ≠ [] → 0 < m.pool.poolSize
  nodup : all.Nodup
  ids : (free : Multiset BlockId) + live.val.map (fun p => (m.obj p).blockId) = all

namespace Leased

variable {m m' : Mem HashValue} {live : Finset Ptr} {free rest all : List BlockId}
  {p q : Ptr} {b : BlockId}

theorem new [PrefixHasher HashValue] {poolSize : Nat} (hall : all.Nodup)
    (hpool : all ≠ [] → 0 < poolSize) :
    Leased (Mem.new poolSize : Mem HashValue) ∅ all all where
  tracks := .new poolSize
  pool_pos := hpool
  nodup := hall
  ids := by simp

theorem card (h : Leased m live free all) : free.length + live.card = all.length := by
  have := congrArg Multiset.card h.ids
  simpa using this

theorem mem_all (h : Leased m live free all) :
    b ∈ all ↔ b ∈ free ∨ ∃ p ∈ live, (m.obj p).blockId = b := by
  rw [← Multiset.mem_coe (l := all), ← h.ids]
  simp

theorem free_nodup (h : Leased m live free all) : free.Nodup := by
  have hall : (all : Multiset BlockId).Nodup := h.nodup
  rw [← h.ids, Multiset.nodup_add] at hall
  exact hall.1

theorem blockId_notMem (h : Leased m live free all) (hp : p ∈ live) :
    (m.obj p).blockId ∉ free := by
  have hall : (all : Multiset BlockId).Nodup := h.nodup
  rw [← h.ids, Multiset.nodup_add] at hall
  intro hfree
  refine Multiset.disjoint_left.mp hall.2.2 (Multiset.mem_coe.mpr hfree) ?_
  exact Multiset.mem_map.mpr ⟨p, hp, rfl⟩

theorem blockId_inj (h : Leased m live free all) (hp : p ∈ live) (hq : q ∈ live)
    (heq : (m.obj p).blockId = (m.obj q).blockId) : p = q := by
  have hall : (all : Multiset BlockId).Nodup := h.nodup
  rw [← h.ids, Multiset.nodup_add] at hall
  exact Multiset.inj_on_of_nodup_map hall.2.1 p hp q hq heq

/-- The first free id goes to a new block. -/
theorem acquire (h : Leased m live (b :: rest) all) (hp : p ∉ live)
    (htracks : m'.pool.Tracks (insert p live)) (hpool : m.pool.poolSize ≤ m'.pool.poolSize)
    (hframe : ∀ q ∈ live, m'.obj q = m.obj q) (hid : (m'.obj p).blockId = b) :
    Leased m' (insert p live) rest all where
  tracks := htracks
  pool_pos hne := (h.pool_pos hne).trans_le hpool
  nodup := h.nodup
  ids := by
    have hmap : live.val.map (fun q => (m'.obj q).blockId) =
        live.val.map fun q => (m.obj q).blockId :=
      Multiset.map_congr rfl fun q hq => by rw [hframe q hq]
    rw [Finset.insert_val_of_notMem hp, Multiset.map_cons, hid, hmap, ← h.ids,
      ← Multiset.cons_coe, Multiset.cons_add, Multiset.add_cons]

/-- The id of a block that is given back becomes the last free one. -/
theorem release (h : Leased m live free all) (hp : p ∈ live)
    (htracks : m'.pool.Tracks (live.erase p)) (hpool : m.pool.poolSize ≤ m'.pool.poolSize)
    (hframe : ∀ q ∈ live.erase p, m'.obj q = m.obj q) :
    Leased m' (live.erase p) (free ++ [(m.obj p).blockId]) all where
  tracks := htracks
  pool_pos hne := (h.pool_pos hne).trans_le hpool
  nodup := h.nodup
  ids := by
    have hmap : (live.erase p).val.map (fun q => (m'.obj q).blockId) =
        (live.erase p).val.map fun q => (m.obj q).blockId :=
      Multiset.map_congr rfl fun q hq => by rw [hframe q hq]
    have hcons : live.val = p ::ₘ (live.erase p).val := by
      rw [← Finset.insert_val_of_notMem (Finset.notMem_erase p live), Finset.insert_erase hp]
    rw [hmap, ← h.ids, hcons, Multiset.map_cons, ← Multiset.coe_add, add_assoc]
    rfl

theorem congr (h : Leased m live free all) (hpool : m'.pool = m.pool)
    (hids : ∀ p ∈ live, (m'.obj p).blockId = (m.obj p).blockId) : Leased m' live free all where
  tracks := hpool ▸ h.tracks
  pool_pos := hpool ▸ h.pool_pos
  nodup := h.nodup
  ids := by rw [← h.ids, Multiset.map_congr rfl hids]

end Leased

variable [PrefixHasher HashValue]

/-- The ids that are not free count one block each. -/
def RefCounter.CountsUse (rc : RefCounter) (free all : List BlockId) : Prop :=
  ∀ b ∈ all, rc.refCounts b = some (if b ∈ free then 0 else 1)

namespace RefCounter.CountsUse

variable {rc : RefCounter} {free rest all : List BlockId} {b : BlockId}

theorem make (all : List BlockId) : (RefCounter.make all).CountsUse all all := by
  intro b hb
  simp [RefCounter.make, hb]

theorem take (h : rc.CountsUse (b :: rest) all) (hnodup : (b :: rest).Nodup) :
    (rc.setCount b 1).CountsUse rest all := by
  intro c hc
  by_cases hcb : c = b
  · subst hcb
    rw [setCount_same, if_neg (List.nodup_cons.mp hnodup).1]
  · rw [setCount_ne _ _ hcb, h c hc]
    simp [hcb]

theorem give (h : rc.CountsUse free all) (b : BlockId) :
    (rc.setCount b 0).CountsUse (free ++ [b]) all := by
  intro c hc
  by_cases hcb : c = b
  · subst hcb
    simp
  · rw [setCount_ne _ _ hcb, h c hc]
    simp [hcb]

end RefCounter.CountsUse

/-- The ids that are not free are active. -/
def BlockComputedAttr.FlagsUse (s : BlockComputedAttr) (free all : List BlockId) : Prop :=
  ∀ b ∈ all, s.Valid b ∧ (s.blockInfos b).active = decide (b ∉ free)

namespace BlockComputedAttr.FlagsUse

variable {s : BlockComputedAttr} {free rest all : List BlockId} {b : BlockId}

theorem new (numBlocks : Nat) :
    (BlockComputedAttr.new numBlocks 0).FlagsUse (blockIndices 0 numBlocks)
      (blockIndices 0 numBlocks) := by
  intro b hb
  refine ⟨mem_blockIndices.mp hb, ?_⟩
  simp [BlockComputedAttr.new, hb]

theorem take (h : s.FlagsUse (b :: rest) all) (hnodup : (b :: rest).Nodup) :
    (s.updateInfo b fun _ => { active := true }).FlagsUse rest all := by
  intro c hc
  refine ⟨(h c hc).1, ?_⟩
  rw [updateInfo_blockInfos]
  by_cases hcb : c = b
  · subst hcb
    simp [(List.nodup_cons.mp hnodup).1]
  · rw [if_neg hcb, (h c hc).2]
    simp [hcb]

theorem give (h : s.FlagsUse free all) (b : BlockId) :
    (s.updateInfo b fun _ => {}).FlagsUse (free ++ [b]) all := by
  intro c hc
  refine ⟨(h c hc).1, ?_⟩
  rw [updateInfo_blockInfos]
  by_cases hcb : c = b
  · subst hcb
    simp
  · rw [if_neg hcb, (h c hc).2]
    simp [hcb]

end BlockComputedAttr.FlagsUse

theorem blockIndices_bounds {b : BlockId} {numBlocks : Nat} (hb : b ∈ blockIndices 0 numBlocks) :
    0 ≤ b ∧ b < (blockIndices 0 numBlocks).length := by
  rw [mem_blockIndices] at hb
  simp only [blockIndices, List.length_map, List.length_range]
  lia

theorem blockIndices_ne_nil {b : BlockId} {numBlocks : Nat} (h : blockIndices b numBlocks ≠ []) :
    0 < numBlocks := by
  refine Nat.pos_of_ne_zero fun heq => h ?_
  rw [heq]
  rfl

theorem length_blockIndices (b : BlockId) (numBlocks : Nat) :
    (blockIndices b numBlocks).length = numBlocks := by
  simp [blockIndices]

omit [PrefixHasher HashValue] in
/-- A change of the rank of a block. -/
theorem Mem.setRank_blockId (m : Mem HashValue) (p q : Ptr) (rankIdx : Nat) :
    ((m.setObj p { m.obj p with rankIdx := rankIdx }).obj q).blockId = (m.obj q).blockId := by
  rw [Mem.setObj_obj]
  split
  · rename_i hq
    rw [hq]
  · rfl

/-- What the owner of blocks without tokens relies on: `Lent w live` says that the allocator has
lent the live blocks, and that none of them has tokens. -/
class LeasesEmptyBlocks (A : Type) [BlockAllocator HashValue A] where
  Lent : World HashValue A → Finset Ptr → Prop
  new : ∀ {numBlocks blockSize poolSize : Nat}, 0 < blockSize → (0 < numBlocks → 0 < poolSize) →
    Lent ⟨Mem.new poolSize, BlockAllocator.new 0 numBlocks blockSize⟩ ∅
  total_new : ∀ numBlocks blockSize : Nat,
    BlockAllocator.getNumTotalBlocks (BlockAllocator.new 0 numBlocks blockSize : A) = numBlocks
  card : ∀ {w : World HashValue A} {live : Finset Ptr}, Lent w live →
    BlockAllocator.getNumFreeBlock w.alloc + live.card = BlockAllocator.getNumTotalBlocks w.alloc
  blockId_lt : ∀ {w : World HashValue A} {live : Finset Ptr}, Lent w live → ∀ p ∈ live,
    (w.mem.obj p).blockId < BlockAllocator.getNumTotalBlocks w.alloc
  blockId_inj : ∀ {w : World HashValue A} {live : Finset Ptr}, Lent w live →
    ∀ p ∈ live, ∀ q ∈ live, (w.mem.obj p).blockId = (w.mem.obj q).blockId → p = q
  setRankIdx : ∀ {w : World HashValue A} {live : Finset Ptr}, Lent w live → ∀ p rankIdx,
    Lent { w with mem := w.mem.setObj p { w.mem.obj p with rankIdx := rankIdx } } live
  wp_allocate : ∀ {w : World HashValue A} {live : Finset Ptr}, Lent w live → ∀ extraHash,
    wp (BlockAllocator.allocateMutableBlock [] none extraHash)
      (fun p w' => p ∉ live ∧ Lent w' (insert p live) ∧
        BlockAllocator.getNumTotalBlocks w'.alloc = BlockAllocator.getNumTotalBlocks w.alloc ∧
        ∀ q ∈ live, w'.mem.obj q = w.mem.obj q)
      (fun _ w' => w' = w ∧ BlockAllocator.getNumFreeBlock w.alloc = 0) w
  wp_free : ∀ {w : World HashValue A} {live : Finset Ptr}, Lent w live → ∀ p ∈ live,
    wp (BlockAllocator.free p false)
      (fun _ w' => Lent w' (live.erase p) ∧
        BlockAllocator.getNumTotalBlocks w'.alloc = BlockAllocator.getNumTotalBlocks w.alloc ∧
        ∀ q ∈ live.erase p, w'.mem.obj q = w.mem.obj q)
      (fun _ _ => False) w

/-! ## Without prefix caching -/

namespace HashLessBlockAllocator

/-- The allocator has lent the live blocks. -/
structure Lent (w : World HashValue (HashLessBlockAllocator HashValue)) (live : Finset Ptr) :
    Prop where
  leased : Leased w.mem live w.alloc.freeBlockIndices w.alloc.allBlockIndices
  bounds : ∀ b ∈ w.alloc.allBlockIndices, 0 ≤ b ∧ b < w.alloc.allBlockIndices.length
  counts : w.alloc.refCounter.CountsUse w.alloc.freeBlockIndices w.alloc.allBlockIndices

variable {w : World HashValue (HashLessBlockAllocator HashValue)} {live : Finset Ptr} {p : Ptr}

omit [PrefixHasher HashValue] in
theorem Lent.mem_all (h : Lent w live) (hp : p ∈ live) :
    (w.mem.obj p).blockId ∈ w.alloc.allBlockIndices :=
  h.leased.mem_all.mpr (.inr ⟨p, hp, rfl⟩)

theorem wp_allocate_lent (h : Lent w live) :
    wp (allocateMutableBlock [] none)
      (fun p w' => p ∉ live ∧ Lent w' (insert p live) ∧
        getNumTotalBlocks w'.alloc = getNumTotalBlocks w.alloc ∧
        ∀ q ∈ live, w'.mem.obj q = w.mem.obj q)
      (fun _ w' => w' = w ∧ getNumFreeBlock w.alloc = 0) w := by
  unfold allocateMutableBlock allocateBlockId acquireBlock
  simp only [wp_bind, wp_zoom, wp_get, World.allocLens_get, World.memLens_get]
  cases hfree : w.alloc.freeBlockIndices with
  | nil => simp [getNumFreeBlock, hfree]
  | cons b rest =>
    have hleased := h.leased
    have hcounts := h.counts
    rw [hfree] at hleased hcounts
    have hb : b ∈ w.alloc.allBlockIndices := hleased.mem_all.mpr (.inl List.mem_cons_self)
    have hcount : w.alloc.refCounter.refCounts b = some 0 := by
      rw [hcounts b hb, if_pos List.mem_cons_self]
    simp only [wp_bind, wp_set, wp_zoom, refCounterLens_get, refCounterLens_put, wp_pure,
      RefCounter.wp_increase, hcount, Option.some.injEq, forall_eq', World.allocLens_put]
    refine ⟨fun _ => ?_, fun hneg => absurd hneg (by decide)⟩
    refine wp_mono (wp_acquireObj h.leased.tracks) ?_ fun _ _ hpool => ?_
    · rintro p m ⟨hp, hobj, htracks, hpool, -⟩
      simp only [HashLessBlockObj.initBlockObj, HashLessBlockObj.initBlockObjWith, wp_zoom, wp_bind,
        wp_modify, HashLessBlockObj.wp_appendTokenIdsNoCow]
      refine ⟨fun _ => ?_, fun hroom => absurd (Nat.zero_le _) hroom⟩
      have hframe : ∀ q ∈ live, q ≠ p := fun q hq heq => hp (heq ▸ hq)
      refine ⟨hp, ⟨?_, h.bounds, hcounts.take hleased.free_nodup⟩, rfl, fun q hq => ?_⟩
      · refine hleased.acquire hp htracks hpool (fun q hq => ?_) ?_
        · simp [Mem.setObj_obj_ne _ _ (hframe q hq), hobj]
        · simp [BlockObj.pushTokens, HashLessBlockObj.assign]
      · simp [Mem.setObj_obj_ne _ _ (hframe q hq), hobj]
    · -- a pool that lends ids has objects
      have := h.leased.pool_pos (List.ne_nil_of_mem hb)
      omega

theorem wp_free_lent (h : Lent w live) (hp : p ∈ live) :
    wp (free p false)
      (fun _ w' => Lent w' (live.erase p) ∧
        getNumTotalBlocks w'.alloc = getNumTotalBlocks w.alloc ∧
        ∀ q ∈ live.erase p, w'.mem.obj q = w.mem.obj q)
      (fun _ _ => False) w := by
  have hb := h.mem_all hp
  have hnonneg := (h.bounds _ hb).1
  have hne : (w.mem.obj p).blockId ≠ invalidBlockId := by
    intro heq
    rw [heq] at hnonneg
    exact absurd hnonneg (by decide)
  have hcount : w.alloc.refCounter.refCounts (w.mem.obj p).blockId = some 1 := by
    rw [h.counts _ hb, if_neg (h.leased.blockId_notMem hp)]
  unfold free freeBlockId releaseBlockId freeObj HashLessBlockObj.resetBlockId
  simp only [wp_bind, wp_zoom, wp_load, World.memLens_get, World.memLens_put, World.allocLens_get,
    World.allocLens_put, refCounterLens_get, refCounterLens_put, RefCounter.wp_decrease, hcount,
    Option.some.injEq, forall_eq', sub_self, if_true, wp_modify, wp_get, Mem.objAt_get,
    Mem.objAt_put, hne, if_false, wp_set, Bool.not_false]
  refine ⟨fun _ => ?_, fun hneg => absurd hneg (by decide)⟩
  refine wp_mono (wp_freeObj (m := w.mem.setObj p _) h.leased.tracks hp) ?_ fun _ _ hf => hf
  rintro _ m ⟨hobj, hpool, htracks⟩
  have hframe : ∀ q ∈ live.erase p, m.obj q = w.mem.obj q := by
    intro q hq
    have hqp := Finset.ne_of_mem_erase hq
    rw [hobj, Function.update_of_ne hqp, Mem.setObj_obj_ne _ _ hqp]
  refine ⟨⟨?_, h.bounds, h.counts.give _⟩, rfl, hframe⟩
  exact h.leased.release hp htracks (by rw [hpool]; rfl) hframe

instance : LeasesEmptyBlocks (HashLessBlockAllocator HashValue) where
  Lent := Lent
  new _ hpool := {
    leased := .new (nodup_blockIndices _ _) fun hne => hpool (blockIndices_ne_nil hne)
    bounds := fun _ hb => blockIndices_bounds hb
    counts := .make _ }
  total_new n _ := length_blockIndices 0 n
  card h := h.leased.card
  blockId_lt h _ hp := (h.bounds _ (h.mem_all hp)).2
  blockId_inj h _ hp _ hq := h.leased.blockId_inj hp hq
  setRankIdx {w} _ h p rankIdx := {
    leased := h.leased.congr rfl fun q _ => Mem.setRank_blockId w.mem p q rankIdx
    bounds := h.bounds
    counts := h.counts }
  wp_allocate h _ := wp_allocate_lent h
  wp_free h _ hp := wp_free_lent h hp

end HashLessBlockAllocator

/-! ## With prefix caching -/

/-- The hash of a block that is not full and has no hash yet. -/
theorem PrefixCachingBlockObj.wp_prefixHash_of_not_full [DecidableEq HashValue] {m : Mem HashValue}
    {p : Ptr} {Q : HashValue → Mem HashValue → Prop} {T : Exn → Mem HashValue → Prop}
    (hpool : 0 < m.pool.poolSize) (hhash : (m.obj p).cachedPrefixHash = invalidHashValue)
    (hfull : (m.obj p).isFull = false) :
    wp (prefixHash p) Q T m ↔ Q invalidHashValue m := by
  obtain ⟨n, hn⟩ := Nat.exists_eq_succ_of_ne_zero hpool.ne'
  have hready : (m.obj p).isReadyToCalcPrefixHash = false := by
    rw [BlockObj.isReadyToCalcPrefixHash, hfull, Bool.false_and]
  unfold prefixHash
  rw [wp_bind, wp_get, hn]
  unfold prefixHashAux
  simp [hhash, hready]

/-- A block without tokens whose hash is not known. -/
structure BlockObj.Blank (o : BlockObj HashValue) (size : Nat) : Prop where
  tokenIds : o.tokenIds = []
  blockSize : o.blockSize = size
  cachedPrefixHash : o.cachedPrefixHash = invalidHashValue

theorem BlockObj.Blank.isFull {o : BlockObj HashValue} {size : Nat} (h : o.Blank size)
    (hsize : 0 < size) : o.isFull = false := by
  rw [Bool.eq_false_iff, Ne, BlockObj.isFull_iff, h.tokenIds, h.blockSize, List.length_nil]
  omega

theorem BlockObj.Blank.withTotal {o : BlockObj HashValue} {size : Nat} (h : o.Blank size)
    (n : Nat) : BlockObj.Blank { o with numTokensTotal := n } size :=
  ⟨h.tokenIds, h.blockSize, h.cachedPrefixHash⟩

theorem BlockObj.Blank.withId {o : BlockObj HashValue} {size : Nat} (h : o.Blank size)
    (b : BlockId) : BlockObj.Blank { o with blockId := b } size :=
  ⟨h.tokenIds, h.blockSize, h.cachedPrefixHash⟩

/-- Appending no token to a blank block writes its count of tokens. -/
theorem PrefixCachingBlockObj.wp_appendTokenIds_blank [DecidableEq HashValue] {m : Mem HashValue}
    {p : Ptr} {size : Nat} (hpool : 0 < m.pool.poolSize) (hblank : (m.obj p).Blank size)
    (hsize : 0 < size) (hid : (m.obj p).blockId ≠ invalidBlockId) :
    wp (appendTokenIds p [])
      (fun _ m' => ∃ o : BlockObj HashValue, o.Blank size ∧ o.blockId = (m.obj p).blockId ∧
        m' = m.setObj p o)
      (fun _ _ => False) m := by
  have hfull := hblank.isFull hsize
  have hhash := hblank.cachedPrefixHash
  unfold appendTokenIds HashLessBlockObj.appendTokenIds
  rw [wp_bind, wp_prefixHash_of_not_full hpool hhash hfull]
  simp only [ne_eq, not_true_eq_false, if_false, wp_bind, wp_load, List.length_nil, not_lt_zero,
    or_self, wp_pure, wp_zoom, wp_get, Mem.objAt_get, hid, Mem.objAt_put,
    HashLessBlockObj.wp_appendTokenIdsNoCow, BlockObj.pushTokens_nil]
  refine ⟨fun _ => ?_, fun hroom => absurd (Nat.zero_le _) hroom⟩
  refine wp_updateNumTokensTotal fun n => ?_
  rw [Mem.setObj_obj_same]
  refine (wp_prefixHash_of_not_full (m := (m.setObj p (m.obj p)).setObj p _) hpool ?_ ?_).mpr
    ⟨_, hblank.withTotal n, rfl, by simp [Mem.setObj]⟩
  · rw [Mem.setObj_obj_same]
    exact hhash
  · rw [Mem.setObj_obj_same]
    exact hfull

namespace PrefixCacheBlockAllocator

variable [DecidableEq HashValue]

/-- The allocator has lent the live blocks, and the evictor is empty. -/
structure Lent (w : World HashValue (PrefixCacheBlockAllocator HashValue)) (live : Finset Ptr) :
    Prop where
  leased : Leased w.mem live w.alloc.freeBlockIndices w.alloc.allBlockIndices
  bounds : ∀ b ∈ w.alloc.allBlockIndices, 0 ≤ b ∧ b < w.alloc.allBlockIndices.length
  counts : w.alloc.refCounter.CountsUse w.alloc.freeBlockIndices w.alloc.allBlockIndices
  size_pos : 0 < w.alloc.blockSize
  flags : w.alloc.blockComputedAttr.FlagsUse w.alloc.freeBlockIndices w.alloc.allBlockIndices
  evictor : w.alloc.evictor.candidates.entries = []
  blank : ∀ p ∈ live, (w.mem.obj p).Blank w.alloc.blockSize

variable {w : World HashValue (PrefixCacheBlockAllocator HashValue)} {live : Finset Ptr} {p : Ptr}

omit [DecidableEq HashValue] in
theorem Lent.mem_all (h : Lent w live) (hp : p ∈ live) :
    (w.mem.obj p).blockId ∈ w.alloc.allBlockIndices :=
  h.leased.mem_all.mpr (.inr ⟨p, hp, rfl⟩)

omit [DecidableEq HashValue] in
theorem Lent.ne_invalid (h : Lent w live) {b : BlockId} (hb : b ∈ w.alloc.allBlockIndices) :
    b ≠ invalidBlockId := by
  rintro rfl
  exact absurd (h.bounds _ hb).1 (by decide)

omit [PrefixHasher HashValue] [DecidableEq HashValue] in
theorem getNumFreeBlock_of_empty {a : PrefixCacheBlockAllocator HashValue}
    (h : a.evictor.candidates.entries = []) : getNumFreeBlock a = a.freeBlockIndices.length := by
  rw [getNumFreeBlock, LRUEvictor.getNumblocks, h]
  rfl

/-- Taking the first free id. -/
theorem wp_allocateBlockId_lent (h : Lent w live) :
    wp allocateBlockId
      (fun b a => ∃ rest, w.alloc.freeBlockIndices = b :: rest ∧ a = w.alloc.claimFree b rest)
      (fun _ a => a = w.alloc ∧ getNumFreeBlock w.alloc = 0) w.alloc := by
  unfold allocateBlockId
  rw [wp_bind, wp_get, getNumFreeBlock_of_empty h.evictor]
  cases hfree : w.alloc.freeBlockIndices with
  | nil =>
    unfold mayBeAllocateEvictedBlockId LRUEvictor.evict
    simp only [wp_bind, wp_zoom, wp_get, evictorLens_get, h.evictor, List.isEmpty_nil, if_true,
      wp_throw]
    exact ⟨rfl, rfl⟩
  | cons b rest =>
    have hb : b ∈ w.alloc.allBlockIndices :=
      h.leased.mem_all.mpr (.inl (hfree ▸ List.mem_cons_self))
    have hcount : w.alloc.refCounter.refCounts b = some 0 := by
      rw [h.counts b hb, if_pos (hfree ▸ List.mem_cons_self)]
    have hactive : (w.alloc.blockComputedAttr.blockInfos b).active = false := by
      rw [(h.flags b hb).2, hfree]
      simp
    simp only [wp_bind, wp_set, increase, wp_zoom, refCounterLens_get, RefCounter.wp_increase,
      hcount, Option.some.injEq, forall_eq', le_refl, forall_true_left, refCounterLens_put,
      lt_self_iff_false, false_imp_iff, and_true, zero_add]
    rw [wp_trackBlockId]
    · exact ⟨rest, rfl, rfl⟩
    · exact (h.flags b hb).1
    · exact hactive

/-- Appending no token to a blank block that shares its id with no other. -/
theorem wp_appendTokenIds_blank {a : PrefixCacheBlockAllocator HashValue} {m : Mem HashValue}
    (hpool : 0 < m.pool.poolSize) (hblank : (m.obj p).Blank a.blockSize) (hsize : 0 < a.blockSize)
    (hid : (m.obj p).blockId ≠ invalidBlockId)
    (hcount : a.refCounter.refCounts (m.obj p).blockId = some 1) :
    wp (appendTokenIds p [])
      (fun _ w' => ∃ o : BlockObj HashValue, o.Blank a.blockSize ∧
        o.blockId = (m.obj p).blockId ∧ w' = ⟨m.setObj p o, a⟩)
      (fun _ _ => False) ⟨m, a⟩ := by
  unfold appendTokenIds cowBlockIfNotAppendable promoteIfHashed
  rw [wp_bind, wp_zoom]
  refine wp_mono (PrefixCachingBlockObj.wp_appendTokenIds_blank hpool hblank hsize hid) ?_
    fun _ _ hf => hf
  rintro _ _ ⟨o, ho, hoid, rfl⟩
  replace hoid : o.blockId = (m.obj p).blockId := hoid
  simp only [wp_bind, wp_zoom, wp_load, World.memLens_get, World.memLens_put, Mem.setObj_obj_same,
    hoid, hid, if_false, World.allocLens_get, World.allocLens_put, refCounterLens_get,
    refCounterLens_put, RefCounter.wp_getRefCount, hcount, Option.some.injEq, forall_eq', le_refl,
    if_true, wp_pure, reduceCtorEq, false_imp_iff, and_true, HashLessBlockObj.setBlockId,
    wp_modify, Mem.objAt_get, Mem.objAt_put]
  refine (PrefixCachingBlockObj.wp_prefixHash_of_not_full (m := (m.setObj p o).setObj p _) hpool
    ?_ ?_).mpr ?_
  · rw [Mem.setObj_obj_same]
    exact ho.cachedPrefixHash
  · rw [Mem.setObj_obj_same]
    exact ho.isFull hsize
  · simp only [ne_eq, not_true_eq_false, if_false, wp_pure]
    exact ⟨_, ho.withId _, rfl, by simp [Mem.setObj]⟩

theorem wp_allocate_lent (h : Lent w live) (extraHash : HashValue) :
    wp (allocateMutableBlock [] none extraHash)
      (fun p w' => p ∉ live ∧ Lent w' (insert p live) ∧
        getNumTotalBlocks w'.alloc = getNumTotalBlocks w.alloc ∧
        ∀ q ∈ live, w'.mem.obj q = w.mem.obj q)
      (fun _ w' => w' = w ∧ getNumFreeBlock w.alloc = 0) w := by
  unfold allocateMutableBlock
  rw [wp_bind, wp_zoom]
  refine wp_mono (wp_allocateBlockId_lent h) ?_ ?_
  · rintro b a ⟨rest, hfree, rfl⟩
    have hleased := h.leased
    have hcounts := h.counts
    have hflags := h.flags
    rw [hfree] at hleased hcounts hflags
    have hb : b ∈ w.alloc.allBlockIndices := hleased.mem_all.mpr (.inl List.mem_cons_self)
    have hpool : 0 < w.mem.pool.poolSize := hleased.pool_pos (List.ne_nil_of_mem hb)
    simp only [wp_bind, wp_zoom, wp_get, World.allocLens_put, World.memLens_get]
    refine wp_mono (wp_acquireObj h.leased.tracks) ?_ fun _ _ hzero => by omega
    rintro p m ⟨hp, hobj, htracks, hgrow, -⟩
    simp only [World.memLens_put]
    refine wp_mono (PrefixCachingBlockObj.wp_initBlockObj m) ?_ fun _ _ hlt =>
      absurd hlt (Nat.not_lt_zero _)
    rintro _ _ ⟨o, ho, rfl⟩
    have hid : ((m.setObj p o).obj p).blockId = b := by rw [Mem.setObj_obj_same, ho.blockId]
    have hblank : ((m.setObj p o).obj p).Blank w.alloc.blockSize := by
      rw [Mem.setObj_obj_same]
      exact ⟨ho.tokenIds, ho.blockSize, ho.cachedPrefixHash⟩
    have happend := wp_appendTokenIds_blank (a := w.alloc.claimFree b rest) (m := m.setObj p o)
      (hpool.trans_le hgrow) hblank h.size_pos (hid ▸ h.ne_invalid hb)
      (by rw [hid]; exact RefCounter.setCount_same _ _ _)
    refine wp_mono happend ?_ fun _ _ hf => hf.elim
    rintro _ _ ⟨o', ho', hid', rfl⟩
    rw [hid] at hid'
    have hne : ∀ q ∈ live, q ≠ p := fun q hq heq => hp (heq ▸ hq)
    have hframe : ∀ q ∈ live, (((m.setObj p o).setObj p o').obj q) = w.mem.obj q := by
      intro q hq
      rw [Mem.setObj_obj_ne _ _ (hne q hq), Mem.setObj_obj_ne _ _ (hne q hq), hobj]
    refine ⟨hp, ?_, rfl, hframe⟩
    constructor
    · exact hleased.acquire hp htracks hgrow hframe (by rw [Mem.setObj_obj_same, hid'])
    · exact h.bounds
    · exact hcounts.take hleased.free_nodup
    · exact h.size_pos
    · exact hflags.take hleased.free_nodup
    · exact h.evictor
    · intro q hq
      rcases Finset.mem_insert.mp hq with rfl | hq
      · rw [Mem.setObj_obj_same]
        exact ho'
      · rw [hframe q hq]
        exact h.blank q hq
  · rintro _ a ⟨rfl, hzero⟩
    exact ⟨rfl, hzero⟩

omit [DecidableEq HashValue] in
/-- Giving up the only use of an id. -/
theorem wp_releaseBlockId_lent (h : Lent w live) (hp : p ∈ live) :
    wp (releaseBlockId (w.mem.obj p).blockId)
      (fun _ a => a = w.alloc.releaseFree (w.mem.obj p).blockId) (fun _ _ => False) w.alloc := by
  have hb := h.mem_all hp
  have hcount : w.alloc.refCounter.refCounts (w.mem.obj p).blockId = some 1 := by
    rw [h.counts _ hb, if_neg (h.leased.blockId_notMem hp)]
  unfold releaseBlockId decrease pushFree
  simp only [wp_bind, wp_zoom, refCounterLens_get, refCounterLens_put, RefCounter.wp_decrease,
    hcount, Option.some.injEq, forall_eq', sub_self, if_true]
  refine ⟨fun _ => ?_, fun hneg => absurd hneg (by decide)⟩
  rw [wp_untrackBlockId]
  · rfl
  · exact (h.flags _ hb).1
  · simpa [h.leased.blockId_notMem hp] using (h.flags _ hb).2

theorem wp_free_lent (h : Lent w live) (hp : p ∈ live) :
    wp (free p false)
      (fun _ w' => Lent w' (live.erase p) ∧
        getNumTotalBlocks w'.alloc = getNumTotalBlocks w.alloc ∧
        ∀ q ∈ live.erase p, w'.mem.obj q = w.mem.obj q)
      (fun _ _ => False) w := by
  have hb := h.mem_all hp
  have hpool : 0 < w.mem.pool.poolSize := h.leased.pool_pos (List.ne_nil_of_mem hb)
  have hblank := h.blank p hp
  unfold free freeBlockId
  simp only [wp_bind, wp_zoom, wp_load, World.memLens_get, World.memLens_put]
  rw [PrefixCachingBlockObj.wp_prefixHash_of_not_full hpool hblank.cachedPrefixHash
    (hblank.isFull h.size_pos)]
  simp only [ne_eq, not_true_eq_false, if_false, wp_bind, wp_zoom, World.allocLens_get]
  refine wp_mono (wp_releaseBlockId_lent h hp) ?_ fun _ _ hf => hf
  rintro _ _ rfl
  unfold HashLessBlockObj.resetBlockId freeObj
  simp only [wp_bind, wp_zoom, wp_get, World.memLens_get, World.memLens_put, World.allocLens_put,
    Mem.objAt_get, Mem.objAt_put, h.ne_invalid hb, if_false, wp_set, Bool.not_false, if_true]
  refine wp_mono (wp_freeObj (m := w.mem.setObj p _) h.leased.tracks hp) ?_ fun _ _ hf => hf
  rintro _ m ⟨hobj, hgrow, htracks⟩
  have hframe : ∀ q ∈ live.erase p, m.obj q = w.mem.obj q := by
    intro q hq
    have hqp := Finset.ne_of_mem_erase hq
    rw [hobj, Function.update_of_ne hqp, Mem.setObj_obj_ne _ _ hqp]
  refine ⟨?_, rfl, hframe⟩
  constructor
  · exact h.leased.release hp htracks (by rw [hgrow]; rfl) hframe
  · exact h.bounds
  · exact h.counts.give _
  · exact h.size_pos
  · exact h.flags.give _
  · exact h.evictor
  · intro q hq
    show (m.obj q).Blank w.alloc.blockSize
    rw [hframe q hq]
    exact h.blank q (Finset.mem_of_mem_erase hq)

instance : LeasesEmptyBlocks (PrefixCacheBlockAllocator HashValue) where
  Lent := Lent
  new hsize hpool := {
    leased := .new (nodup_blockIndices _ _) fun hne => hpool (blockIndices_ne_nil hne)
    bounds := fun _ hb => blockIndices_bounds hb
    counts := .make _
    size_pos := hsize
    flags := .new _
    evictor := rfl
    blank := by simp }
  total_new n _ := length_blockIndices 0 n
  card h := (congrArg (· + _) (getNumFreeBlock_of_empty h.evictor)).trans h.leased.card
  blockId_lt h _ hp := (h.bounds _ (h.mem_all hp)).2
  blockId_inj h _ hp _ hq := h.leased.blockId_inj hp hq
  setRankIdx {w} _ h p rankIdx := {
    leased := h.leased.congr rfl fun q _ => Mem.setRank_blockId w.mem p q rankIdx
    bounds := h.bounds
    counts := h.counts
    size_pos := h.size_pos
    flags := h.flags
    evictor := h.evictor
    blank := fun q hq => by
      have := h.blank q hq
      show ((w.mem.setObj p { w.mem.obj p with rankIdx := rankIdx }).obj q).Blank _
      rw [Mem.setObj_obj]
      split
      · rename_i hqp
        subst hqp
        exact ⟨this.tokenIds, this.blockSize, this.cachedPrefixHash⟩
      · exact this }
  wp_allocate := wp_allocate_lent
  wp_free h _ hp := wp_free_lent h hp


end PrefixCacheBlockAllocator

end MindieLLM
