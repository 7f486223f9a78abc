import MindieLLM.BlockManager.HashLessBlockAllocator
import MindieLLM.BlockManager.ObjPool

/-!
# The ids of the hash-less allocator

The hash-less allocator counts how often each id is used; an id that nobody uses is free. A shared
block gets an id of its own before it is written to, and the allocator notes the copy.

## Main definitions

* `Consistent a own`: the allocator agrees with the ids in use, each as often as it is used
* `Unshared`: the id of a block before and after it is made sure that nobody shares it

## Main results

* `wp_allocateBlockId`, `wp_releaseBlockId`: an id is taken, and given back
* `wp_cowBlockIfNotAppendable`: a copy is made exactly if the id is shared
* `wp_appendTokenIds`, `wp_acquireBlock`: what the operations do to a block
-/

namespace MindieLLM.HashLessBlockAllocator

open Program

variable {HashValue : Type}

/-- The id `b` is counted `n` times now, and the given ids are free. -/
def recount (a : HashLessBlockAllocator HashValue) (b : BlockId) (n : RefCount)
    (free : List BlockId) : HashLessBlockAllocator HashValue :=
  { a with freeBlockIndices := free, refCounter := a.refCounter.setCount b n }

/-- The allocator agrees with the ids in use. -/
structure Consistent (a : HashLessBlockAllocator HashValue) (own : Multiset BlockId) : Prop where
  nonneg : ∀ b ∈ a.allBlockIndices, 0 ≤ b
  all_nodup : a.allBlockIndices.Nodup
  refCounts : ∀ b, a.refCounter.refCounts b =
    if b ∈ a.allBlockIndices then some (own.count b : RefCount) else none
  free_nodup : a.freeBlockIndices.Nodup
  free : ∀ b, b ∈ a.freeBlockIndices ↔ b ∈ a.allBlockIndices ∧ b ∉ own

theorem Consistent.new {beginBlockId : BlockId} (hbegin : 0 ≤ beginBlockId)
    (numBlocks blockSize : ℕ) :
    Consistent (.new beginBlockId numBlocks blockSize : HashLessBlockAllocator HashValue) 0 where
  nonneg b hb := hbegin.trans (mem_blockIndices.mp hb).1
  all_nodup := nodup_blockIndices _ _
  refCounts := by simp [HashLessBlockAllocator.new, RefCounter.make]
  free_nodup := nodup_blockIndices _ _
  free := by simp [HashLessBlockAllocator.new]

namespace Consistent

variable {a : HashLessBlockAllocator HashValue} {own own' : Multiset BlockId} {b : BlockId}

theorem ne_invalid (h : Consistent a own) (hb : b ∈ a.allBlockIndices) : b ≠ invalidBlockId := by
  rintro rfl
  exact absurd (h.nonneg _ hb) (by decide)

/-- The count of `b` changes, and with it what is free. -/
theorem recount (h : Consistent a own) (hb : b ∈ a.allBlockIndices)
    (hne : ∀ c, c ≠ b → own'.count c = own.count c) {n : RefCount} (hn : n = own'.count b)
    {free : List BlockId} (hnodup : free.Nodup)
    (hfree : ∀ c, c ∈ free ↔ c ∈ a.allBlockIndices ∧ c ∉ own') :
    Consistent (a.recount b n free) own' where
  nonneg := h.nonneg
  all_nodup := h.all_nodup
  refCounts c := by
    by_cases hc : c = b
    · subst hc
      simp [HashLessBlockAllocator.recount, hb, hn]
    · exact (RefCounter.setCount_ne _ _ hc).trans (by rw [h.refCounts, hne c hc]; rfl)
  free_nodup := hnodup
  free := hfree

theorem claim (h : Consistent a own) {rest : List BlockId}
    (hfree : a.freeBlockIndices = b :: rest) :
    Consistent (a.recount b 1 rest) (b ::ₘ own) := by
  have hnodup := h.free_nodup
  rw [hfree, List.nodup_cons] at hnodup
  obtain ⟨hb, hown⟩ := (h.free b).mp (by rw [hfree]; exact List.mem_cons_self)
  refine h.recount hb (fun c hc => Multiset.count_cons_of_ne hc own) ?_ hnodup.2 fun c => ?_
  · rw [Multiset.count_cons_self, Multiset.count_eq_zero_of_notMem hown]
    rfl
  · have hmem := h.free c
    rw [hfree, List.mem_cons] at hmem
    rw [Multiset.mem_cons, not_or]
    constructor
    · intro hc
      exact ⟨(hmem.mp (.inr hc)).1, fun heq => hnodup.1 (heq ▸ hc), (hmem.mp (.inr hc)).2⟩
    · rintro ⟨hall, hne, hc⟩
      exact (hmem.mpr ⟨hall, hc⟩).resolve_left hne

theorem share (h : Consistent a own) (hb : b ∈ a.allBlockIndices) (hown : b ∈ own) :
    Consistent (a.recount b (own.count b + 1) a.freeBlockIndices) (b ::ₘ own) := by
  refine h.recount hb (fun c hc => Multiset.count_cons_of_ne hc own) ?_ h.free_nodup fun c => ?_
  · rw [Multiset.count_cons_self]
    rfl
  · rw [h.free, Multiset.mem_cons, not_or]
    exact and_congr_right fun _ => ⟨fun hc => ⟨fun heq => hc (heq ▸ hown), hc⟩, fun hc => hc.2⟩

theorem drop (h : Consistent a (b ::ₘ own)) (hb : b ∈ a.allBlockIndices) (hown : b ∈ own) :
    Consistent (a.recount b (own.count b) a.freeBlockIndices) own := by
  refine h.recount hb (fun c hc => (Multiset.count_cons_of_ne hc own).symm) rfl h.free_nodup
    fun c => ?_
  rw [h.free, Multiset.mem_cons, not_or]
  exact and_congr_right fun _ => ⟨fun hc => hc.2, fun hc => ⟨fun heq => hc (heq ▸ hown), hc⟩⟩

theorem release (h : Consistent a (b ::ₘ own)) (hb : b ∈ a.allBlockIndices) (hown : b ∉ own) :
    Consistent (a.recount b 0 (a.freeBlockIndices ++ [b])) own := by
  refine h.recount hb (fun c hc => (Multiset.count_cons_of_ne hc own).symm) ?_ ?_ fun c => ?_
  · rw [Multiset.count_eq_zero_of_notMem hown]
    rfl
  · refine List.nodup_append.mpr ⟨h.free_nodup, List.nodup_singleton b, ?_⟩
    rintro c hc d hd rfl
    rw [List.mem_singleton] at hd
    exact ((h.free c).mp hc).2 (hd ▸ Multiset.mem_cons_self b own)
  · rw [List.mem_append, List.mem_singleton, h.free, Multiset.mem_cons, not_or]
    constructor
    · rintro (⟨hall, -, hc⟩ | rfl)
      · exact ⟨hall, hc⟩
      · exact ⟨hb, hown⟩
    · rintro ⟨hall, hc⟩
      by_cases heq : c = b
      · exact .inr heq
      · exact .inl ⟨hall, heq, hc⟩

end Consistent

/-! ## Ids -/

section Ids

variable {a : HashLessBlockAllocator HashValue} {own : Multiset BlockId} {b : BlockId}

theorem wp_allocateBlockId (h : Consistent a own) :
    wp allocateBlockId
      (fun b a' => b ∉ own ∧ b ∈ a.allBlockIndices ∧ Consistent a' (b ::ₘ own) ∧
        ∃ rest, a.freeBlockIndices = b :: rest ∧ a' = a.recount b 1 rest)
      (fun _ a' => a' = a ∧ a.freeBlockIndices = []) a := by
  unfold allocateBlockId
  rw [wp_bind, wp_get]
  cases hfree : a.freeBlockIndices with
  | nil => exact ⟨rfl, rfl⟩
  | cons b rest =>
    obtain ⟨hb, hown⟩ := (h.free b).mp (by rw [hfree]; exact List.mem_cons_self)
    have hcount : a.refCounter.refCounts b = some 0 := by
      rw [h.refCounts, if_pos hb, Multiset.count_eq_zero_of_notMem hown]
      rfl
    simp only [wp_bind, wp_set, wp_zoom, refCounterLens_get, refCounterLens_put,
      RefCounter.wp_increase, hcount, wp_pure]
    refine ⟨?_, fun hneg => absurd (hneg 0 rfl) (lt_irrefl 0)⟩
    rintro _ ⟨⟩ -
    exact ⟨hown, hb, h.claim hfree, rest, rfl, rfl⟩

theorem wp_releaseBlockId (h : Consistent a (b ::ₘ own)) (hb : b ∈ a.allBlockIndices) :
    wp (releaseBlockId b)
      (fun _ a' => Consistent a' own ∧ a'.blockSize = a.blockSize ∧
        a'.allBlockIndices = a.allBlockIndices ∧ a'.cowTracker = a.cowTracker ∧
        (b ∈ own → a'.freeBlockIndices = a.freeBlockIndices))
      (fun _ _ => False) a := by
  unfold releaseBlockId
  have hcount : a.refCounter.refCounts b = some (own.count b + 1 : RefCount) := by
    rw [h.refCounts, if_pos hb, Multiset.count_cons_self]
    rfl
  simp only [wp_bind, wp_zoom, refCounterLens_get, refCounterLens_put, RefCounter.wp_decrease,
    hcount]
  refine ⟨?_, fun hneg => absurd (hneg _ rfl) (by lia)⟩
  rintro _ ⟨⟩ -
  rw [add_sub_cancel_right, wp_ite]
  constructor
  · intro hzero
    have hown : b ∉ own := Multiset.count_eq_zero.mp (by exact_mod_cast hzero)
    rw [hzero]
    exact ⟨h.release hb hown, rfl, rfl, rfl, fun hmem => absurd hmem hown⟩
  · intro hzero
    have hown : b ∈ own := Multiset.count_ne_zero.mp (by exact_mod_cast hzero)
    exact ⟨h.drop hb hown, rfl, rfl, rfl, fun _ => rfl⟩

end Ids

/-! ## Blocks -/

section Blocks

variable {w w' : World HashValue (HashLessBlockAllocator HashValue)} {own : Multiset BlockId}
  {b c : BlockId} {p : Ptr} {tokens : List TokenId}

/-- The block `p` without an id. -/
def stripped (w : World HashValue (HashLessBlockAllocator HashValue)) (p : Ptr) :
    Mem HashValue :=
  w.mem.setObj p { w.mem.obj p with blockId := invalidBlockId }

theorem wp_freeBlockId (h : Consistent w.alloc (b ::ₘ own)) (hid : (w.mem.obj p).blockId = b)
    (hb : b ∈ w.alloc.allBlockIndices) :
    wp (freeBlockId p)
      (fun _ w' => w'.mem = stripped w p ∧ Consistent w'.alloc own ∧
        w'.alloc.blockSize = w.alloc.blockSize ∧
        w'.alloc.allBlockIndices = w.alloc.allBlockIndices ∧
        w'.alloc.cowTracker = w.alloc.cowTracker ∧
        (b ∈ own → w'.alloc.freeBlockIndices = w.alloc.freeBlockIndices))
      (fun _ _ => False) w := by
  unfold freeBlockId
  simp only [wp_bind, wp_zoom, World.memLens_get, World.memLens_put, World.allocLens_get,
    World.allocLens_put, wp_load, hid]
  refine wp_mono (wp_releaseBlockId h hb) ?_ fun _ _ hfalse => hfalse
  rintro _ a ⟨hcons, hsize, hall, hcow, hfree⟩
  unfold HashLessBlockObj.resetBlockId
  simp only [wp_bind, wp_get, Mem.objAt_get, Mem.objAt_put, wp_ite, wp_throw, wp_set]
  exact ⟨fun hinv => h.ne_invalid hb (hid ▸ hinv), fun _ => ⟨rfl, hcons, hsize, hall, hcow, hfree⟩⟩

/-- The id of a block before and after it is made sure that nobody shares it. -/
structure Unshared (w : World HashValue (HashLessBlockAllocator HashValue))
    (own : Multiset BlockId) (p : Ptr) (b c : BlockId)
    (w' : World HashValue (HashLessBlockAllocator HashValue)) : Prop where
  consistent : Consistent w'.alloc (c ::ₘ own)
  managed : c ∈ w.alloc.allBlockIndices
  blockSize : w'.alloc.blockSize = w.alloc.blockSize
  all : w'.alloc.allBlockIndices = w.alloc.allBlockIndices
  kept : b ∉ own → c = b ∧ w' = w
  copied : b ∈ own → c ∉ own ∧ w'.mem = stripped w p ∧
    w'.alloc.cowTracker = w.alloc.cowTracker.recordCow b c

/-- No id is left for the copy: the block is without an id. -/
structure Stranded (w : World HashValue (HashLessBlockAllocator HashValue))
    (own : Multiset BlockId) (b : BlockId)
    (w' : World HashValue (HashLessBlockAllocator HashValue)) : Prop where
  shared : b ∈ own
  full : w.alloc.freeBlockIndices = []
  consistent : Consistent w'.alloc own
  blockSize : w'.alloc.blockSize = w.alloc.blockSize
  all : w'.alloc.allBlockIndices = w.alloc.allBlockIndices
  cowTracker : w'.alloc.cowTracker = w.alloc.cowTracker

/-- A copy is made exactly if the id is shared. -/
theorem wp_cowBlockIfNotAppendable (h : Consistent w.alloc (b ::ₘ own))
    (hid : (w.mem.obj p).blockId = b) (hb : b ∈ w.alloc.allBlockIndices) :
    wp (cowBlockIfNotAppendable p) (fun c w' => Unshared w own p b c w')
      (fun _ w' => w'.mem = stripped w p ∧ Stranded w own b w') w := by
  unfold cowBlockIfNotAppendable
  have hcount : w.alloc.refCounter.refCounts b = some (own.count b + 1 : RefCount) := by
    rw [h.refCounts, if_pos hb, Multiset.count_cons_self]
    rfl
  simp only [wp_bind, wp_zoom, World.memLens_get, World.memLens_put, World.allocLens_get,
    World.allocLens_put, refCounterLens_get, refCounterLens_put, wp_load, hid,
    RefCounter.wp_getRefCount, hcount]
  refine ⟨?_, fun hnone => absurd hnone (by simp)⟩
  rintro _ ⟨⟩
  rw [wp_ite]
  constructor
  · intro hle
    have hown : b ∉ own := by
      rw [← Multiset.count_eq_zero]
      lia
    exact ⟨h, hb, rfl, rfl, fun _ => ⟨rfl, rfl⟩, fun hmem => absurd hmem hown⟩
  · intro hlt
    have hown : b ∈ own := by
      rw [← Multiset.one_le_count_iff_mem]
      lia
    rw [wp_bind]
    refine wp_mono (wp_freeBlockId h hid hb) ?_ fun _ _ hfalse => hfalse.elim
    rintro _ w₁ ⟨hmem₁, hcons₁, hsize₁, hall₁, hcow₁, hfree₁⟩
    simp only [wp_bind, wp_zoom, World.allocLens_get, World.allocLens_put]
    refine wp_mono (wp_allocateBlockId hcons₁) ?_ ?_
    · rintro c a₂ ⟨hc, hcb, hcons₂, rest, -, rfl⟩
      simp only [wp_modify, wp_pure]
      refine ⟨⟨hcons₂.1, hcons₂.2, hcons₂.3, hcons₂.4, hcons₂.5⟩, hall₁ ▸ hcb, hsize₁, hall₁,
        fun hno => absurd hown hno, fun _ => ⟨hc, hmem₁, ?_⟩⟩
      exact congrArg (·.recordCow b c) hcow₁
    · rintro _ a₂ ⟨rfl, hnone⟩
      exact ⟨hmem₁, hown, by rw [← hfree₁ hown]; exact hnone, hcons₁, hsize₁, hall₁, hcow₁⟩

/-- Tokens are appended to the block `p` of id `b`, which has the id `c` then. -/
structure Appended (w : World HashValue (HashLessBlockAllocator HashValue))
    (own : Multiset BlockId) (p : Ptr) (b : BlockId) (tokens : List TokenId) (c : BlockId)
    (w' : World HashValue (HashLessBlockAllocator HashValue)) : Prop where
  pushed : Pushed { w.mem.obj p with blockId := c } tokens (w'.mem.obj p)
  mem : w'.mem = w.mem.setObj p (w'.mem.obj p)
  consistent : Consistent w'.alloc (c ::ₘ own)
  managed : c ∈ w.alloc.allBlockIndices
  blockSize : w'.alloc.blockSize = w.alloc.blockSize
  all : w'.alloc.allBlockIndices = w.alloc.allBlockIndices
  kept : b ∉ own → c = b ∧ w'.alloc = w.alloc
  copied : b ∈ own → c ∉ own ∧ w'.alloc.cowTracker = w.alloc.cowTracker.recordCow b c

/-- Tokens are not appended: there is no room for them, or no id for a copy. -/
def AppendFailed (w : World HashValue (HashLessBlockAllocator HashValue))
    (own : Multiset BlockId) (p : Ptr) (b : BlockId) (tokens : List TokenId)
    (w' : World HashValue (HashLessBlockAllocator HashValue)) : Prop :=
  w' = w ∧ ¬tokens.length ≤ (w.mem.obj p).getNumEmptySlots ∨
    Pushed { w.mem.obj p with blockId := invalidBlockId } tokens (w'.mem.obj p) ∧
      w'.mem = w.mem.setObj p (w'.mem.obj p) ∧ Stranded w own b w'

theorem wp_appendTokenIds (h : Consistent w.alloc (b ::ₘ own)) (hid : (w.mem.obj p).blockId = b)
    (hb : b ∈ w.alloc.allBlockIndices) (tokens : List TokenId) :
    wp (appendTokenIds p tokens) (fun _ w' => ∃ c, Appended w own p b tokens c w')
      (fun _ w' => AppendFailed w own p b tokens w') w := by
  unfold appendTokenIds HashLessBlockObj.appendTokenIds
  have hvalid : (w.mem.obj p).blockId ≠ invalidBlockId := hid ▸ h.ne_invalid hb
  simp only [wp_bind, wp_zoom, wp_get, World.memLens_get, World.memLens_put, Mem.objAt_get,
    Mem.objAt_put, wp_ite, wp_throw, hvalid, false_imp_iff, true_and, not_false_eq_true,
    forall_true_left, HashLessBlockObj.wp_appendTokenIdsNoCow]
  refine ⟨fun hroom => ?_, fun hno => .inl ⟨by simp [Mem.setObj], hno⟩⟩
  have hid₁ : ((w.mem.setObj p ((w.mem.obj p).pushTokens tokens hroom)).obj p).blockId = b := by
    rw [Mem.setObj_obj_same]
    exact hid
  have hset : ∀ (o o' : BlockObj HashValue), (w.mem.setObj p o).setObj p o' = w.mem.setObj p o' :=
    fun o o' => (Mem.objAt p).put_put o' o w.mem
  refine wp_mono (wp_cowBlockIfNotAppendable (w := ⟨w.mem.setObj p _, w.alloc⟩) h hid₁ hb) ?_ ?_
  · rintro c w₁ hcow
    simp only [HashLessBlockObj.setBlockId, wp_modify]
    have hmem₁ : w₁.mem.setObj p { w₁.mem.obj p with blockId := c } =
        w.mem.setObj p { (w.mem.obj p).pushTokens tokens hroom with blockId := c } := by
      by_cases hown : b ∈ own
      · rw [(hcow.copied hown).2.1, stripped]
        simp only [Mem.setObj_obj_same, hset]
      · obtain ⟨-, rfl⟩ := hcow.kept hown
        simp only [Mem.setObj_obj_same, hset]
    rw [hmem₁]
    refine ⟨c, ?_, ?_, hcow.consistent, hcow.managed, hcow.blockSize, hcow.all, fun hown => ?_,
      fun hown => ⟨(hcow.copied hown).1, (hcow.copied hown).2.2⟩⟩
    · rw [Mem.setObj_obj_same]
      exact ⟨rfl, rfl, rfl, rfl, rfl, rfl, rfl, rfl⟩
    · rw [Mem.setObj_obj_same]
    · obtain ⟨hcb, rfl⟩ := hcow.kept hown
      exact ⟨hcb, rfl⟩
  · rintro _ w₁ ⟨hmem₁, hstranded⟩
    simp only [stripped, Mem.setObj_obj_same, hset] at hmem₁
    refine .inr ⟨?_, ?_, ?_⟩
    · rw [hmem₁, Mem.setObj_obj_same]
      exact ⟨rfl, rfl, rfl, rfl, rfl, rfl, rfl, rfl⟩
    · rw [hmem₁]
      simp only [Mem.setObj_obj_same]
    · exact ⟨hstranded.1, hstranded.2, hstranded.3, hstranded.4, hstranded.5, hstranded.6⟩

/-- A block is taken from the pool, with an id that is already in use. -/
theorem wp_acquireBlock [PrefixHasher HashValue] {used : Finset Ptr}
    (htracks : w.mem.pool.Tracks used) (tokens : List TokenId) (prevBlock : Option Ptr)
    (b : BlockId) :
    wp (acquireBlock tokens prevBlock b)
      (fun p w' => p ∉ used ∧ w'.alloc = w.alloc ∧ w'.mem.pool.Tracks (insert p used) ∧
        w.mem.pool.poolSize ≤ w'.mem.pool.poolSize ∧
        (∀ q, q ≠ p → w'.mem.obj q = w.mem.obj q) ∧
        (w'.mem.obj p).prevBlock = prevBlock ∧ (w'.mem.obj p).tokenIds = tokens ∧
        (w'.mem.obj p).blockSize = w.alloc.blockSize ∧ (w'.mem.obj p).blockId = b ∧
        (w'.mem.obj p).rankIdx = (w.mem.obj p).rankIdx)
      (fun _ _ => w.mem.pool.poolSize = 0 ∨ w.alloc.blockSize < tokens.length) w := by
  unfold acquireBlock HashLessBlockObj.initBlockObj HashLessBlockObj.initBlockObjWith
  simp only [wp_bind, wp_zoom, World.memLens_get, World.memLens_put, wp_get]
  refine wp_mono (wp_acquireObj htracks) ?_ fun _ _ hempty => .inl hempty
  rintro p ⟨_, pool⟩ ⟨hp, rfl, htracks', hpool, -⟩
  simp only [wp_modify, Mem.objAt_get, Mem.objAt_put, wp_pure,
    HashLessBlockObj.wp_appendTokenIdsNoCow, HashLessBlockObj.assign, BlockObj.getNumEmptySlots,
    List.length_nil, Nat.sub_zero, not_le]
  refine ⟨fun hroom => ⟨hp, trivial, htracks', hpool, fun q hq => ?_, ?_⟩, fun hlt => .inr hlt⟩
  · simp [Mem.setObj, Function.update_of_ne hq]
  · rw [Mem.setObj_obj_same]
    exact ⟨rfl, List.nil_append _, rfl, rfl, rfl⟩

end Blocks

end MindieLLM.HashLessBlockAllocator
