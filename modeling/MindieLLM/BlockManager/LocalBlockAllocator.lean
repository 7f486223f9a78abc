import MindieLLM.Program.Within
import MindieLLM.BlockManager.HashLessLedger
import MindieLLM.BlockManager.PrefixCacheSpec

/-!
# Allocators that touch one block

Appending to a block, and replacing a token of it, can give that block another id; no other block
changes, whatever the state of the allocator. A new block is one that nobody uses.

## Main definitions

* `Relabelled p m m'`: the block `p` has another id, the others stay as they are
* `Written`: what writing to a block does
* `Entered`: what an allocation does
* `LocalBlockAllocator`: the allocators that touch no other block, and when the id is kept

## Main results

* The hash-less and the prefix-caching allocator are local.
-/

namespace MindieLLM

open Program

variable {HashValue A : Type}

/-! ## Counted ids -/

/-- The same ids are counted. -/
def SameIds (counts : A → BlockId → Prop) (a a' : A) : Prop := ∀ b, counts a' b ↔ counts a b

instance (counts : A → BlockId → Prop) : Std.Refl (SameIds counts) := ⟨fun _ _ => Iff.rfl⟩

theorem SameIds.trans {counts : A → BlockId → Prop} {a a' a'' : A} (h : SameIds counts a a')
    (h' : SameIds counts a' a'') : SameIds counts a a'' :=
  fun b => (h' b).trans (h b)

instance (counts : A → BlockId → Prop) : IsTrans A (SameIds counts) := ⟨fun _ _ _ => .trans⟩

namespace RefCounter

/-- The references of the id are counted. -/
def Counts (rc : RefCounter) (b : BlockId) : Prop := ∃ n, rc.refCounts b = some n

variable {rc : RefCounter} {b : BlockId}

theorem counts_make {ids : List BlockId} : (make ids).Counts b ↔ b ∈ ids := by
  unfold Counts make
  by_cases hb : b ∈ ids
  · simp [hb]
  · simp [hb]

theorem Counts.setCount (h : rc.Counts b) (n : RefCount) : SameIds Counts rc (rc.setCount b n) := by
  intro c
  by_cases hc : c = b
  · subst hc
    exact ⟨fun _ => h, fun _ => ⟨n, setCount_same rc c n⟩⟩
  · rw [Counts, Counts, setCount_ne rc n hc]

theorem wp_increase_counts (b : BlockId) :
    wp (increase b) (fun _ rc' => SameIds Counts rc rc' ∧ rc.Counts b) (fun _ _ => True) rc := by
  rw [wp_increase]
  exact ⟨fun n hn _ => ⟨Counts.setCount ⟨n, hn⟩ _, n, hn⟩, fun _ => trivial⟩

theorem wp_decrease_counts (b : BlockId) :
    wp (decrease b) (fun _ rc' => SameIds Counts rc rc' ∧ rc.Counts b) (fun _ _ => True) rc := by
  rw [wp_decrease]
  exact ⟨fun n hn _ => ⟨Counts.setCount ⟨n, hn⟩ _, n, hn⟩, fun _ => trivial⟩

theorem wp_getRefCount_counts (b : BlockId) :
    wp (getRefCount b) (fun _ rc' => rc' = rc ∧ rc.Counts b) (fun _ _ => True) rc := by
  rw [wp_getRefCount]
  exact ⟨fun n hn => ⟨rfl, n, hn⟩, fun _ => trivial⟩

end RefCounter

/-! ## What a call does to its block -/

/-- The block `p` has another id; beside memoised hashes nothing else changes. -/
structure Relabelled (p : Ptr) (m m' : Mem HashValue) : Prop where
  pool : m'.pool = m.pool
  frame : ∀ q, q ≠ p → SameButHash (m.obj q) (m'.obj q)
  self : SameButHash { m.obj p with blockId := (m'.obj p).blockId } (m'.obj p)

namespace Relabelled

variable {p : Ptr} {m m' m'' : Mem HashValue}

theorem refl (p : Ptr) (m : Mem HashValue) : Relabelled p m m := ⟨rfl, fun _ _ => .refl _, .refl _⟩

theorem trans (h : Relabelled p m m') (h' : Relabelled p m' m'') : Relabelled p m m'' where
  pool := h'.pool.trans h.pool
  frame q hq := (h.frame q hq).trans (h'.frame q hq)
  self := by
    have hself := h.self
    have hself' := h'.self
    unfold SameButHash at *
    rw [hself', hself]

theorem of_memoised [PrefixHasher HashValue] (h : Memoised m m') : Relabelled p m m' where
  pool := h.pool
  frame q _ := h.obj q
  self := by
    rw [(h.obj p).blockId]
    exact h.obj p

theorem setId (m : Mem HashValue) (p : Ptr) (b : BlockId) : Relabelled p m (m.setId p b) where
  pool := rfl
  frame q hq := by
    rw [Mem.setId, Mem.setObj_obj_ne _ _ hq]
    exact .refl _
  self := by
    rw [Mem.setId, Mem.setObj_obj_same]
    exact .refl _

end Relabelled

/-- The block `p` has another id in a world, and the allocator counts the ids that it did. -/
structure RelabelledIn (counts : A → BlockId → Prop) (p : Ptr) (w w' : World HashValue A) :
    Prop where
  mem : Relabelled p w.mem w'.mem
  ids : SameIds counts w.alloc w'.alloc

/-- The allocator counts the ids that it did, and that of the block `p` is one of them. -/
structure Registers (counts : A → BlockId → Prop) (p : Ptr) (w w' : World HashValue A) :
    Prop where
  ids : SameIds counts w.alloc w'.alloc
  counted : counts w'.alloc (w'.mem.obj p).blockId

section Within

variable {α : Type} {p : Ptr} {counts : A → BlockId → Prop}

instance : Std.Refl (RelabelledIn counts p : World HashValue A → World HashValue A → Prop) :=
  ⟨fun w => ⟨.refl p w.mem, Std.Refl.refl _⟩⟩

instance : IsTrans (World HashValue A) (RelabelledIn counts p) :=
  ⟨fun _ _ _ h h' => ⟨h.mem.trans h'.mem, IsTrans.trans _ _ _ h.ids h'.ids⟩⟩

theorem within_onAlloc {c : EStateM Exn A α} (h : Within (SameIds counts) c) :
    Within (RelabelledIn counts p) (onAlloc c : WorldM HashValue A α) :=
  h.zoom fun w _ ha => ⟨.refl p w.mem, ha⟩

theorem within_onMem {c : MemM HashValue α} (h : Within (Relabelled p) c) :
    Within (RelabelledIn counts p) (onMem c : WorldM HashValue A α) :=
  h.zoom fun _ _ hm => ⟨hm, Std.Refl.refl _⟩

theorem within_load (q : Ptr) : Within (Relabelled p) (load q : MemM HashValue _) :=
  fun m => Relabelled.refl p m

theorem within_setBlockId (b : BlockId) :
    Within (Relabelled p) (withObj p (HashLessBlockObj.setBlockId b) : MemM HashValue Unit) :=
  fun m => Relabelled.setId m p b

theorem within_resetBlockId :
    Within (Relabelled p) (withObj p HashLessBlockObj.resetBlockId : MemM HashValue Unit) := by
  intro m
  simp only [HashLessBlockObj.resetBlockId, wp_zoom, wp_bind, wp_get, wp_ite, wp_throw, wp_set]
  exact ⟨fun _ => trivial, fun _ => Relabelled.setId m p invalidBlockId⟩

end Within

/-- Something is written to the block `p`, which has `n` more tokens then. Its id may change. -/
structure Written (m : Mem HashValue) (p : Ptr) (n : ℕ) (m' : Mem HashValue) : Prop where
  pool : m'.pool = m.pool
  frame : ∀ q, q ≠ p → SameButHash (m.obj q) (m'.obj q)
  rankIdx : (m'.obj p).rankIdx = (m.obj p).rankIdx
  blockSize : (m'.obj p).blockSize = (m.obj p).blockSize
  length : (m'.obj p).tokenIds.length = (m.obj p).tokenIds.length + n

theorem Written.relabelled {m m' m'' : Mem HashValue} {p : Ptr} {n : ℕ} (h : Written m p n m')
    (h' : Relabelled p m' m'') : Written m p n m'' where
  pool := h'.pool.trans h.pool
  frame q hq := (h.frame q hq).trans (h'.frame q hq)
  rankIdx := h'.self.rankIdx.trans h.rankIdx
  blockSize := h'.self.blockSize.trans h.blockSize
  length := by
    rw [h'.self.tokenIds]
    exact h.length

theorem Written.of_pushed {m : Mem HashValue} {p : Ptr} {tokens : List TokenId}
    {o : BlockObj HashValue} (h : Pushed (m.obj p) tokens o) :
    Written m p tokens.length (m.setObj p o) where
  pool := rfl
  frame q hq := by
    rw [Mem.setObj_obj_ne _ _ hq]
    exact .refl _
  rankIdx := by rw [Mem.setObj_obj_same, h.rankIdx]
  blockSize := by rw [Mem.setObj_obj_same, h.blockSize]
  length := by rw [Mem.setObj_obj_same, h.tokenIds, List.length_append]

theorem Written.setToken (m : Mem HashValue) (p : Ptr) (i : ℕ) (t : TokenId) :
    Written m p 0 (m.setObj p ((m.obj p).setToken i t)) where
  pool := rfl
  frame q hq := by
    rw [Mem.setObj_obj_ne _ _ hq]
    exact .refl _
  rankIdx := by rw [Mem.setObj_obj_same]; rfl
  blockSize := by rw [Mem.setObj_obj_same]; rfl
  length := by
    rw [Mem.setObj_obj_same]
    exact List.length_set

/-- A block that nobody uses comes into use; those in use stay as they are. -/
structure Entered (m : Mem HashValue) (used : Finset Ptr) (p : Ptr) (m' : Mem HashValue) :
    Prop where
  fresh : p ∉ used
  tracks : m'.pool.Tracks (insert p used)
  frame : ∀ q ∈ used, SameButHash (m.obj q) (m'.obj q)

/-- An allocator that touches one block at a time. `AppendKeepsId` and `ReplaceKeepsId` say of the
state before that the block keeps its id. -/
class LocalBlockAllocator (HashValue : outParam Type) (A : Type) [BlockAllocator HashValue A]
    where
  AppendKeepsId : World HashValue A → Ptr → List TokenId → Prop
  ReplaceKeepsId : World HashValue A → Ptr → ℕ → TokenId → Prop
  wp_allocateMutableBlock : ∀ {w : World HashValue A} {used : Finset Ptr} (tokenIds : List TokenId)
    (prev : Option Ptr) (extraHash : HashValue), w.mem.pool.Tracks used →
    wp (BlockAllocator.allocateMutableBlock tokenIds prev extraHash)
      (fun p w' => Entered w.mem used p w'.mem) (fun _ _ => True) w
  wp_allocateImmutableBlock : ∀ {w : World HashValue A} {used : Finset Ptr}
    (tokenIds : List TokenId) (prev : Option Ptr) (extraHash : HashValue),
    w.mem.pool.Tracks used →
    wp (BlockAllocator.allocateImmutableBlock tokenIds prev extraHash)
      (fun p w' => Entered w.mem used p w'.mem) (fun _ _ => True) w
  wp_appendTokenIds : ∀ (w : World HashValue A) (p : Ptr) (tokenIds : List TokenId),
    wp (BlockAllocator.appendTokenIds p tokenIds)
      (fun _ w' => Written w.mem p tokenIds.length w'.mem ∧
        (AppendKeepsId w p tokenIds → (w'.mem.obj p).blockId = (w.mem.obj p).blockId))
      (fun _ _ => True) w
  wp_replaceToken : ∀ (w : World HashValue A) (p : Ptr) (i : ℕ) (t : TokenId),
    wp (BlockAllocator.replaceToken p i t)
      (fun _ w' => Written w.mem p 0 w'.mem ∧
        (ReplaceKeepsId w p i t → (w'.mem.obj p).blockId = (w.mem.obj p).blockId))
      (fun _ _ => True) w

/-- A write to a block that has just been taken from the pool. -/
theorem Entered.written {m m₁ m₂ : Mem HashValue} {used : Finset Ptr} {p : Ptr} {n : ℕ}
    (h : Entered m used p m₁) (hw : Written m₁ p n m₂) : Entered m used p m₂ where
  fresh := h.fresh
  tracks := hw.pool ▸ h.tracks
  frame q hq := (h.frame q hq).trans (hw.frame q fun heq => h.fresh (heq ▸ hq))

theorem Entered.relabelled {m m₁ m₂ : Mem HashValue} {used : Finset Ptr} {p : Ptr}
    (h : Entered m used p m₁) (hr : Relabelled p m₁ m₂) : Entered m used p m₂ where
  fresh := h.fresh
  tracks := hr.pool ▸ h.tracks
  frame q hq := (h.frame q hq).trans (hr.frame q fun heq => h.fresh (heq ▸ hq))

/-- Nobody else has the id of the block, as far as it is counted. -/
def HeldOnce (refCounter : RefCounter) (b : BlockId) : Prop :=
  ∀ n, refCounter.refCounts b = some n → n ≤ 1

/-! ## Without prefix caching -/

namespace HashLessBlockAllocator

/-- The allocator counts the references of the id. -/
def Counts (a : HashLessBlockAllocator HashValue) (b : BlockId) : Prop := a.refCounter.Counts b

variable {w : World HashValue (HashLessBlockAllocator HashValue)} {p : Ptr}
  {a : HashLessBlockAllocator HashValue}

theorem wp_allocateBlockId_counts :
    wp allocateBlockId (fun b a' => SameIds Counts a a' ∧ a.Counts b) (fun _ _ => True) a := by
  unfold allocateBlockId
  rw [wp_bind, wp_get]
  cases a.freeBlockIndices with
  | nil => trivial
  | cons b rest =>
    simp only [wp_bind, wp_set, wp_zoom, refCounterLens_get, refCounterLens_put, wp_pure]
    exact RefCounter.wp_increase_counts b

theorem within_releaseBlockId (b : BlockId) :
    Within (SameIds Counts)
      (releaseBlockId b : EStateM Exn (HashLessBlockAllocator HashValue) Unit) := by
  intro a
  unfold releaseBlockId
  rw [wp_bind, wp_zoom]
  refine wp_mono (RefCounter.wp_decrease_counts b) ?_ fun _ _ h => h
  rintro n rc ⟨hsame, -⟩
  rw [wp_ite]
  exact ⟨fun _ => hsame, fun _ => hsame⟩

theorem within_freeBlockId (p : Ptr) :
    Within (RelabelledIn Counts p) (freeBlockId p : M HashValue Unit) :=
  .bind (within_onMem (within_load p)) fun _ =>
    .bind (within_onAlloc (within_releaseBlockId _)) fun _ => within_onMem within_resetBlockId

/-- The block has a counted id afterwards. -/
theorem wp_cowBlockIfNotAppendable_counts (p : Ptr) :
    wp (cowBlockIfNotAppendable p) (fun b w' => RelabelledIn Counts p w w' ∧ w'.alloc.Counts b)
      (fun _ _ => True) w := by
  unfold cowBlockIfNotAppendable
  simp only [wp_bind, wp_zoom, World.memLens_get, World.memLens_put, World.allocLens_get,
    World.allocLens_put, refCounterLens_get, refCounterLens_put, wp_load]
  refine wp_mono (RefCounter.wp_getRefCount_counts _) ?_ fun _ _ h => h
  rintro n _ ⟨rfl, hcounts⟩
  refine (wp_ite _ _ _).mpr ⟨fun _ => ⟨Std.Refl.refl _, hcounts⟩, fun _ => ?_⟩
  rw [wp_bind]
  refine wp_mono (within_freeBlockId p _) ?_ fun _ _ h => h
  intro _ w₁ hfree
  simp only [wp_bind, wp_zoom, World.allocLens_get, World.allocLens_put]
  refine wp_mono wp_allocateBlockId_counts ?_ fun _ _ h => h
  rintro b a ⟨halloc, hb⟩
  exact ⟨⟨hfree.mem, hfree.ids.trans halloc⟩, (halloc b).mpr hb⟩

/-- A block whose id nobody else has keeps it. -/
theorem wp_cowBlockIfNotAppendable_alone (h : HeldOnce w.alloc.refCounter (w.mem.obj p).blockId) :
    wp (cowBlockIfNotAppendable p) (fun b w' => b = (w.mem.obj p).blockId ∧ w' = w)
      (fun _ _ => True) w := by
  unfold cowBlockIfNotAppendable
  simp only [wp_bind, wp_zoom, World.memLens_get, World.memLens_put, World.allocLens_get,
    World.allocLens_put, refCounterLens_get, refCounterLens_put, wp_load,
    RefCounter.wp_getRefCount]
  refine ⟨fun n hn => ?_, fun _ => trivial⟩
  rw [if_pos (h n hn)]
  exact ⟨rfl, rfl⟩

theorem wp_appendTokenIds_written (tokenIds : List TokenId) :
    wp (appendTokenIds p tokenIds) (fun _ w' => (Written w.mem p tokenIds.length w'.mem ∧
        (HeldOnce w.alloc.refCounter (w.mem.obj p).blockId →
          (w'.mem.obj p).blockId = (w.mem.obj p).blockId)) ∧ Registers Counts p w w')
      (fun _ _ => True) w := by
  unfold appendTokenIds HashLessBlockObj.appendTokenIds
  simp only [wp_bind, wp_zoom, wp_get, World.memLens_get, World.memLens_put, Mem.objAt_get,
    Mem.objAt_put, wp_ite, wp_throw, implies_true, true_and,
    HashLessBlockObj.wp_appendTokenIdsNoCow, and_true]
  intro _ hroom
  have hpushed : Pushed (w.mem.obj p) tokenIds ((w.mem.obj p).pushTokens tokenIds hroom) :=
    ⟨rfl, rfl, rfl, rfl, rfl, rfl, rfl, rfl⟩
  have hid : ((w.mem.setObj p ((w.mem.obj p).pushTokens tokenIds hroom)).obj p).blockId =
      (w.mem.obj p).blockId := by
    rw [Mem.setObj_obj_same]
    rfl
  refine wp_mono (wp_and (wp_cowBlockIfNotAppendable_counts p) (wp_imp fun h =>
    wp_cowBlockIfNotAppendable_alone (hid.symm ▸ h))) ?_ fun _ _ _ => trivial
  rintro b w₁ ⟨⟨hrelabels, hcounts⟩, hb⟩
  have hnew : ((w₁.mem.setId p b).obj p).blockId = b := Mem.setId_blockId _ _ _
  refine ⟨⟨((Written.of_pushed hpushed).relabelled hrelabels.mem).relabelled (.setId _ _ _),
    fun h => hnew.trans ((hb h).1.trans hid)⟩, hrelabels.ids, ?_⟩
  exact hnew.symm ▸ hcounts

theorem wp_replaceToken_written (i : ℕ) (t : TokenId) :
    wp (replaceToken p i t) (fun _ w' => Written w.mem p 0 w'.mem ∧
        (w'.mem.obj p).blockId = (w.mem.obj p).blockId)
      (fun _ _ => True) w := by
  unfold replaceToken HashLessBlockObj.replaceToken
  simp only [wp_bind, wp_zoom, wp_get, World.memLens_get, World.memLens_put, Mem.objAt_get,
    Mem.objAt_put, wp_ite, wp_throw, wp_set, implies_true, true_and]
  refine fun _ _ => ⟨.setToken _ _ _ _, ?_⟩
  rw [Mem.setObj_obj_same]
  rfl

variable [PrefixHasher HashValue] {used : Finset Ptr}

theorem wp_allocateMutableBlock_entered (htracks : w.mem.pool.Tracks used)
    (tokenIds : List TokenId) (prev : Option Ptr) :
    wp (allocateMutableBlock tokenIds prev)
      (fun p w' => Entered w.mem used p w'.mem ∧ SameIds Counts w.alloc w'.alloc)
      (fun _ _ => True) w := by
  unfold allocateMutableBlock
  simp only [wp_bind, wp_zoom, World.allocLens_get, World.allocLens_put]
  refine wp_mono wp_allocateBlockId_counts ?_ fun _ _ _ => trivial
  rintro b a ⟨hsame, -⟩
  refine wp_mono (wp_acquireBlock (w := ⟨w.mem, a⟩) htracks tokenIds prev b) ?_
    fun _ _ _ => trivial
  rintro p w' ⟨hp, halloc, htracks', -, hframe, -⟩
  refine ⟨⟨hp, htracks', fun q hq => ?_⟩, halloc ▸ hsame⟩
  rw [hframe q fun heq => hp (heq ▸ hq)]
  exact .refl _

theorem wp_allocateImmutableBlock_entered (htracks : w.mem.pool.Tracks used)
    (tokenIds : List TokenId) (prev : Option Ptr) :
    wp (allocateImmutableBlock tokenIds prev)
      (fun p w' => Entered w.mem used p w'.mem ∧ Registers Counts p w w') (fun _ _ => True) w := by
  unfold allocateImmutableBlock
  rw [wp_bind]
  refine wp_mono (wp_allocateMutableBlock_entered htracks [] prev) ?_ fun _ _ h => h
  rintro p w₁ ⟨hentered, hsame⟩
  rw [wp_bind]
  refine wp_mono (wp_appendTokenIds_written tokenIds) (fun _ w' h => ?_) fun _ _ h => h
  exact ⟨hentered.written h.1.1, hsame.trans h.2.ids, h.2.counted⟩

instance : LocalBlockAllocator HashValue (HashLessBlockAllocator HashValue) where
  AppendKeepsId w p _ := HeldOnce w.alloc.refCounter (w.mem.obj p).blockId
  ReplaceKeepsId _ _ _ _ := True
  wp_allocateMutableBlock tokenIds prev _ htracks :=
    wp_mono (wp_allocateMutableBlock_entered htracks tokenIds prev) (fun _ _ h => h.1)
      fun _ _ h => h
  wp_allocateImmutableBlock tokenIds prev _ htracks :=
    wp_mono (wp_allocateImmutableBlock_entered htracks tokenIds prev) (fun _ _ h => h.1)
      fun _ _ h => h
  wp_appendTokenIds _ _ tokenIds :=
    wp_mono (wp_appendTokenIds_written tokenIds) (fun _ _ h => h.1) fun _ _ h => h
  wp_replaceToken _ _ i t :=
    wp_mono (wp_replaceToken_written i t) (fun _ _ h => ⟨h.1, fun _ => h.2⟩) fun _ _ h => h

end HashLessBlockAllocator

/-! ## Prefix caching -/

namespace PrefixCacheBlockAllocator

/-- The allocator counts the references of the id. -/
def Counts (a : PrefixCacheBlockAllocator HashValue) (b : BlockId) : Prop := a.refCounter.Counts b

section Allocator

variable {a : PrefixCacheBlockAllocator HashValue} {α : Type}

theorem within_attr (c : EStateM Exn BlockComputedAttr α) :
    Within (SameIds Counts) (zoom attrLens c : AllocM HashValue α) :=
  Within.zoom (S := fun _ _ => True) (fun _ => wp_mono (wp_self _ _) (fun _ _ _ => trivial)
    fun _ _ _ => trivial) fun _ _ _ _ => Iff.rfl

theorem within_evictor (c : EStateM Exn (LRUEvictor HashValue) α) :
    Within (SameIds Counts) (zoom evictorLens c) :=
  Within.zoom (S := fun _ _ => True) (fun _ => wp_mono (wp_self _ _) (fun _ _ _ => trivial)
    fun _ _ _ => trivial) fun _ _ _ _ => Iff.rfl

theorem within_trackBlockId (b : BlockId) (computed : Bool) :
    Within (SameIds Counts) (trackBlockId b computed : AllocM HashValue Unit) :=
  .bind (within_attr _) fun _ => within_attr _

theorem within_decrease (b : BlockId) :
    Within (SameIds Counts) (decrease b : AllocM HashValue RefCount) := by
  intro a
  unfold decrease
  rw [wp_zoom]
  exact wp_mono (RefCounter.wp_decrease_counts b) (fun _ _ h => h.1) fun _ _ h => h

theorem within_releaseBlockId (b : BlockId) :
    Within (SameIds Counts) (releaseBlockId b : AllocM HashValue Unit) :=
  .bind (within_decrease b) fun _ =>
    .ite (.bind (within_attr _) fun _ => .modify fun _ _ => Iff.rfl) (.pure _)

theorem wp_increase_counts (b : BlockId) :
    wp (increase b) (fun _ a' => SameIds Counts a a' ∧ a.Counts b) (fun _ _ => True) a := by
  unfold increase
  rw [wp_zoom]
  exact RefCounter.wp_increase_counts b

/-- An id that comes into use. -/
theorem wp_claim_counts (b : BlockId) :
    wp (do
        let _ ← increase b
        trackBlockId b false
        return b) (fun c a' => SameIds Counts a a' ∧ a.Counts c) (fun _ _ => True) a := by
  rw [wp_bind]
  refine wp_mono (wp_increase_counts b) ?_ fun _ _ h => h
  rintro n a₁ ⟨hsame, hb⟩
  rw [wp_bind]
  refine wp_mono (within_trackBlockId b false a₁) ?_ fun _ _ h => h
  exact fun _ a₂ htrack => ⟨hsame.trans htrack, hb⟩

theorem wp_incrRefCountCacheBlock_counts (b : BlockId) :
    wp (incrRefCountCacheBlock b) (fun _ a' => SameIds Counts a a' ∧ a.Counts b) (fun _ _ => True)
      a := by
  unfold incrRefCountCacheBlock
  rw [wp_bind]
  refine wp_mono (wp_increase_counts b) ?_ fun _ _ h => h
  rintro n a₁ ⟨hsame, hb⟩
  have hrest : Within (SameIds Counts) (do
      modify fun a =>
        if a.evictor.containsBlock b then { a with evictor := a.evictor.remove b } else a
      trackBlockId b true : AllocM HashValue Unit) := by
    refine .bind (.modify fun a => ?_) fun _ => within_trackBlockId b true
    split_ifs
    · exact fun _ => Iff.rfl
    · exact Std.Refl.refl a
  exact wp_mono (Within.ite hrest (.pure _) a₁) (fun _ _ h => ⟨hsame.trans h, hb⟩) fun _ _ h => h

variable [DecidableEq HashValue]

theorem wp_mayBeAllocateEvictedBlockId_counts :
    wp mayBeAllocateEvictedBlockId (fun b a' => SameIds Counts a a' ∧ a.Counts b)
      (fun _ _ => True) a := by
  unfold mayBeAllocateEvictedBlockId
  rw [wp_bind]
  refine wp_mono (within_evictor _ a) ?_ fun _ _ h => h
  rintro ⟨key, evicted⟩ a₁ hsame
  refine (wp_ite _ _ _).mpr ⟨fun _ => trivial, fun _ => ?_⟩
  rw [wp_bind, wp_get]
  dsimp only
  cases a₁.cachedBlocks key with
  | none => trivial
  | some b =>
    refine (wp_ite _ _ _).mpr ⟨fun _ => trivial, fun _ => ?_⟩
    refine (wp_ite _ _ _).mpr ⟨fun _ => trivial, fun _ => ?_⟩
    rw [wp_bind, wp_set]
    refine wp_mono (wp_claim_counts b) ?_ fun _ _ h => h
    exact fun c a₂ h => ⟨hsame.trans h.1, (hsame c).mp h.2⟩

theorem wp_allocateBlockId_counts :
    wp allocateBlockId (fun b a' => SameIds Counts a a' ∧ a.Counts b) (fun _ _ => True) a := by
  unfold allocateBlockId
  rw [wp_bind, wp_get]
  cases a.freeBlockIndices with
  | nil => exact wp_mayBeAllocateEvictedBlockId_counts
  | cons b rest =>
    dsimp only
    rw [wp_bind, wp_set]
    exact wp_claim_counts b

end Allocator

variable [DecidableEq HashValue] [PrefixHasher HashValue]
  {w : World HashValue (PrefixCacheBlockAllocator HashValue)} {p : Ptr} {b : BlockId}

theorem within_prefixHash (p : Ptr) :
    Within (Relabelled p) (PrefixCachingBlockObj.prefixHash p : MemM HashValue HashValue) :=
  fun m => wp_mono (PrefixCachingBlockObj.wp_prefixHash p m) (fun _ _ h => .of_memoised h.1)
    fun _ _ _ => trivial

theorem within_decrRefCountCacheBlock (p : Ptr) :
    Within (RelabelledIn Counts p) (decrRefCountCacheBlock p : M HashValue Unit) := by
  refine .bind (within_onMem (within_load p)) fun o =>
    .bind (within_onMem (within_setBlockId _)) fun _ =>
      .bind (within_onAlloc (within_decrease _)) fun n => ?_
  refine .ite (.throw _) (.ite ?_ (.pure _))
  refine .bind (within_onMem (within_prefixHash p)) fun key => .bind .get fun w => ?_
  split
  · exact .throw _
  · refine .ite (.throw _) ?_
    exact .bind (within_onMem (within_prefixHash p)) fun _ =>
      .bind (within_onMem (within_load p)) fun _ =>
        .bind (within_onAlloc (within_attr _)) fun _ =>
          .bind (.modify fun w => ⟨.refl p w.mem, fun _ => Iff.rfl⟩) fun _ =>
            within_onAlloc (within_attr _)

theorem within_freeBlockId (p : Ptr) :
    Within (RelabelledIn Counts p) (freeBlockId p : M HashValue Unit) := by
  refine .bind (within_onMem (within_load p)) fun o =>
    .bind (within_onMem (within_prefixHash p)) fun key => ?_
  exact .ite (within_decrRefCountCacheBlock p)
    (.bind (within_onAlloc (within_releaseBlockId _)) fun _ => within_onMem within_resetBlockId)

/-- The block has a counted id afterwards. -/
theorem wp_cowBlockIfNotAppendable_counts (p : Ptr) :
    wp (cowBlockIfNotAppendable p) (fun b w' => RelabelledIn Counts p w w' ∧ w'.alloc.Counts b)
      (fun _ _ => True) w := by
  unfold cowBlockIfNotAppendable
  simp only [wp_bind, wp_zoom, World.memLens_get, World.memLens_put, wp_load]
  refine (wp_ite _ _ _).mpr ⟨fun _ => trivial, fun _ => ?_⟩
  simp only [wp_bind, wp_zoom, World.allocLens_get, World.allocLens_put, refCounterLens_get,
    refCounterLens_put]
  refine wp_mono (RefCounter.wp_getRefCount_counts _) ?_ fun _ _ h => h
  rintro n _ ⟨rfl, hcounts⟩
  refine (wp_ite _ _ _).mpr ⟨fun _ => ⟨Std.Refl.refl _, hcounts⟩, fun _ => ?_⟩
  rw [wp_bind]
  refine wp_mono (within_freeBlockId p _) ?_ fun _ _ h => h
  intro _ w₁ hfree
  simp only [wp_bind, wp_zoom, World.allocLens_get, World.allocLens_put]
  refine wp_mono wp_allocateBlockId_counts ?_ fun _ _ h => h
  rintro b a ⟨halloc, hb⟩
  exact ⟨⟨hfree.mem, hfree.ids.trans halloc⟩, (halloc b).mpr hb⟩

/-- A block that is promoted keeps its id, or takes over a counted one. -/
theorem wp_promoteIfHashed_counts (p : Ptr) :
    wp (promoteIfHashed p) (fun _ w' => RelabelledIn Counts p w w' ∧
        (w.alloc.Counts (w.mem.obj p).blockId → w'.alloc.Counts (w'.mem.obj p).blockId))
      (fun _ _ => True) w := by
  unfold promoteIfHashed promoteToImmutableBlock
  simp only [wp_bind, wp_zoom, World.memLens_get, World.memLens_put]
  refine wp_mono (PrefixCachingBlockObj.wp_prefixHash p w.mem) ?_ fun _ _ _ => trivial
  rintro key m₁ ⟨hm₁, -, -⟩
  refine (wp_ite _ _ _).mpr ⟨fun _ => ?_, fun _ => ?_⟩
  · simp only [wp_bind, wp_zoom, World.memLens_get, World.memLens_put]
    refine wp_mono (PrefixCachingBlockObj.wp_prefixHash p m₁) ?_ fun _ _ _ => trivial
    rintro key m₂ ⟨hm₂, -, -⟩
    have hmem : Relabelled p w.mem m₂ := (Relabelled.of_memoised hm₁).trans (.of_memoised hm₂)
    simp only [wp_load, wp_get]
    cases w.alloc.cachedBlocks key with
    | none =>
      refine ⟨⟨hmem, fun _ => Iff.rfl⟩, fun hp => ?_⟩
      exact (hm₂.obj p).blockId ▸ (hm₁.obj p).blockId ▸ hp
    | some reuse =>
      simp only [wp_bind, wp_zoom, World.memLens_get, World.memLens_put, World.allocLens_get,
        World.allocLens_put]
      refine wp_mono (within_releaseBlockId _ _) ?_ fun _ _ h => h
      intro _ a₃ hrelease
      have hreset := within_resetBlockId (p := p) m₂
      unfold withObj at hreset
      rw [wp_zoom] at hreset
      refine wp_mono hreset ?_ fun _ _ _ => trivial
      intro _ o hm₃
      simp only [HashLessBlockObj.setBlockId, wp_modify]
      refine wp_mono (wp_incrRefCountCacheBlock_counts reuse) ?_ fun _ _ h => h
      rintro _ a₄ ⟨hincr, hreuse⟩
      refine ⟨⟨(hmem.trans hm₃).trans (.setId _ p reuse), hrelease.trans hincr⟩, fun _ => ?_⟩
      exact (Mem.setId_blockId _ p reuse).symm ▸ (hincr reuse).mpr hreuse
  · exact ⟨⟨.of_memoised hm₁, fun _ => Iff.rfl⟩, fun hp => (hm₁.obj p).blockId ▸ hp⟩

/-- If the block has a valid hash in the given memory, then the hash is registered for nothing or
for the id `b`. -/
def Settles (m : Mem HashValue) (cachedBlocks : HashValue → Option BlockId) (p : Ptr)
    (b : BlockId) : Prop :=
  ∀ key m', PrefixCachingBlockObj.prefixHash p m = .ok key m' → key ≠ invalidHashValue →
    cachedBlocks key = none ∨ cachedBlocks key = some b

/-- A block keeps its id on promotion unless its hash is registered for another one. -/
theorem wp_promoteIfHashed_settles (hid : (w.mem.obj p).blockId = b)
    (h : Settles w.mem w.alloc.cachedBlocks p b) :
    wp (promoteIfHashed p) (fun _ w' => (w'.mem.obj p).blockId = b) (fun _ _ => True) w := by
  unfold promoteIfHashed promoteToImmutableBlock
  simp only [wp_bind, wp_zoom, World.memLens_get, World.memLens_put]
  refine wp_mono (wp_and (PrefixCachingBlockObj.wp_prefixHash p w.mem) (wp_self _ _)) ?_
    fun _ _ _ => trivial
  rintro key m₁ ⟨⟨hm₁, hkey, -⟩, hrun⟩
  refine (wp_ite _ _ _).mpr ⟨fun hvalid => ?_, fun _ => (hm₁.obj p).blockId.trans hid⟩
  simp only [wp_bind, wp_zoom, World.memLens_get, World.memLens_put, wp_load, wp_get, wp_pure]
  refine wp_mono (PrefixCachingBlockObj.wp_prefixHash p m₁) ?_ fun _ _ _ => trivial
  rintro _ m₂ ⟨hm₂, rfl, -⟩
  -- the hash found first is still there
  rw [hm₂.hash_stable (hkey ▸ hvalid), ← hkey]
  have hid₂ : (m₂.obj p).blockId = b :=
    (hm₂.obj p).blockId.trans ((hm₁.obj p).blockId.trans hid)
  rcases h key m₁ hrun hvalid with hnone | hsome
  · simp only [hnone, wp_bind, wp_zoom, World.allocLens_put, wp_modify, wp_pure]
    exact hid₂
  · simp only [hsome, wp_bind, wp_zoom, World.allocLens_get, World.allocLens_put,
      World.memLens_get, World.memLens_put, wp_pure]
    refine wp_mono (wp_self _ _) (fun _ a _ => ?_) fun _ _ _ => trivial
    refine wp_mono (wp_self _ _) (fun _ o _ => ?_) fun _ _ _ => trivial
    simp only [HashLessBlockObj.setBlockId, wp_modify]
    exact wp_mono (wp_self _ _) (fun _ _ _ => Mem.setId_blockId _ _ _) fun _ _ _ => trivial

/-- A block whose id nobody else has keeps it. -/
theorem wp_cowBlockIfNotAppendable_alone (h : HeldOnce w.alloc.refCounter (w.mem.obj p).blockId) :
    wp (cowBlockIfNotAppendable p) (fun b w' => b = (w.mem.obj p).blockId ∧ w' = w)
      (fun _ _ => True) w := by
  unfold cowBlockIfNotAppendable
  simp only [wp_bind, wp_zoom, World.memLens_get, World.memLens_put, wp_load]
  refine (wp_ite _ _ _).mpr ⟨fun _ => trivial, fun _ => ?_⟩
  simp only [wp_bind, wp_zoom, World.allocLens_get, World.allocLens_put, refCounterLens_get,
    refCounterLens_put, RefCounter.wp_getRefCount]
  refine ⟨fun n hn => ?_, fun _ => trivial⟩
  rw [if_pos (h n hn)]
  exact ⟨rfl, rfl⟩

/-- An append keeps the id of a block if nobody else has it and if the hash that the block gets is
not registered for another one. -/
structure AppendSettles (w : World HashValue (PrefixCacheBlockAllocator HashValue)) (p : Ptr)
    (tokenIds : List TokenId) : Prop where
  alone : HeldOnce w.alloc.refCounter (w.mem.obj p).blockId
  settles : ∀ m', PrefixCachingBlockObj.appendTokenIds p tokenIds w.mem = .ok () m' →
    Settles m' w.alloc.cachedBlocks p (w.mem.obj p).blockId

theorem wp_appendTokenIds_written (tokenIds : List TokenId) :
    wp (appendTokenIds p tokenIds) (fun _ w' => (Written w.mem p tokenIds.length w'.mem ∧
        (AppendSettles w p tokenIds → (w'.mem.obj p).blockId = (w.mem.obj p).blockId)) ∧
          Registers Counts p w w')
      (fun _ _ => True) w := by
  unfold appendTokenIds
  simp only [wp_bind, wp_zoom, World.memLens_get, World.memLens_put]
  refine wp_mono (wp_and (PrefixCachingBlockObj.wp_appendTokenIds p tokenIds w.mem) (wp_self _ _))
    ?_ fun _ _ _ => trivial
  rintro _ m₁ ⟨⟨o, hpush, -, -, hm₁⟩, hrun⟩
  have hid : (m₁.obj p).blockId = (w.mem.obj p).blockId := by
    rw [(hm₁.obj p).blockId, Mem.setObj_obj_same, hpush.blockId]
  have hwritten : Written w.mem p tokenIds.length m₁ :=
    (Written.of_pushed hpush).relabelled (.of_memoised hm₁)
  have halone (h : AppendSettles w p tokenIds) := wp_cowBlockIfNotAppendable_alone
    (w := { w with mem := m₁ }) (hid.symm ▸ h.alone)
  refine wp_mono (wp_and (wp_cowBlockIfNotAppendable_counts p) (wp_imp halone)) ?_
    fun _ _ _ => trivial
  rintro b w₁ ⟨⟨hcow, hb⟩, hkeep⟩
  simp only [HashLessBlockObj.setBlockId, wp_modify, Mem.objAt_get, Mem.objAt_put]
  change wp (promoteIfHashed p) _ _ { w₁ with mem := w₁.mem.setId p b }
  refine wp_mono (wp_and (wp_promoteIfHashed_counts p) (wp_imp
    fun hset : AppendSettles w p tokenIds =>
      wp_promoteIfHashed_settles (b := (w.mem.obj p).blockId) ?_ ?_)) ?_ fun _ _ _ => trivial
  · obtain ⟨rfl, -⟩ := hkeep hset
    exact (Mem.setId_blockId _ _ _).trans hid
  · obtain ⟨rfl, rfl⟩ := hkeep hset
    change Settles (m₁.setId p (m₁.obj p).blockId) _ p _
    rw [Mem.setId_of_eq rfl]
    exact hset.settles m₁ hrun
  · rintro _ w₂ ⟨⟨hpromote, hcounted⟩, hsettle⟩
    refine ⟨⟨((hwritten.relabelled hcow.mem).relabelled (.setId _ _ _)).relabelled hpromote.mem,
      hsettle⟩, hcow.ids.trans hpromote.ids, hcounted ?_⟩
    exact (Mem.setId_blockId w₁.mem p b).symm ▸ hb

/-- A replaced token keeps the id of a block if the hash that the block gets is not registered for
another one. -/
def ReplaceSettles (w : World HashValue (PrefixCacheBlockAllocator HashValue)) (p : Ptr) (i : ℕ)
    (t : TokenId) : Prop :=
  ∀ m', withObj p (HashLessBlockObj.replaceToken i t) w.mem = .ok () m' →
    Settles m' w.alloc.cachedBlocks p (w.mem.obj p).blockId

theorem wp_replaceToken_written (i : ℕ) (t : TokenId) :
    wp (replaceToken p i t) (fun _ w' => Written w.mem p 0 w'.mem ∧
        (ReplaceSettles w p i t → (w'.mem.obj p).blockId = (w.mem.obj p).blockId))
      (fun _ _ => True) w := by
  have hobj : wp (withObj p (HashLessBlockObj.replaceToken i t))
      (fun _ m' => m' = w.mem.setObj p ((w.mem.obj p).setToken i t)) (fun _ _ => True) w.mem := by
    unfold HashLessBlockObj.replaceToken
    simp only [wp_bind, wp_zoom, wp_get, Mem.objAt_get, Mem.objAt_put, wp_ite, wp_throw, wp_set,
      implies_true, true_and]
  unfold replaceToken
  rw [wp_bind, wp_zoom]
  refine wp_mono (wp_and hobj (wp_self _ _)) ?_ fun _ _ _ => trivial
  rintro _ m₁ ⟨hm₁, hrun⟩
  have hid : (m₁.obj p).blockId = (w.mem.obj p).blockId := by
    rw [hm₁, Mem.setObj_obj_same]
    rfl
  have hwritten : Written w.mem p 0 m₁ := hm₁ ▸ .setToken _ _ _ _
  have hsettles (h : ReplaceSettles w p i t) :=
    wp_promoteIfHashed_settles (w := { w with mem := m₁ }) hid (h m₁ hrun)
  refine wp_mono (wp_and (wp_promoteIfHashed_counts p) (wp_imp hsettles)) ?_ fun _ _ _ => trivial
  exact fun _ w' h => ⟨hwritten.relabelled h.1.1.mem, h.2⟩

variable {used : Finset Ptr}

omit [DecidableEq HashValue] in
/-- A block is taken from the pool and initialised. -/
theorem wp_acquire_entered (htracks : w.mem.pool.Tracks used) (prev : Option Ptr)
    (tokenIds : List TokenId) (b : BlockId) (extraHash : HashValue) {β : Type}
    {f : Ptr → M HashValue β} {Q : β → World HashValue (PrefixCacheBlockAllocator HashValue) → Prop}
    (hf : ∀ p w', w'.alloc = w.alloc → Entered w.mem used p w'.mem →
      wp (f p) Q (fun _ _ => True) w') :
    wp (do
        let p ← onMem acquireObj
        let blockSize := (← get).alloc.blockSize
        onMem (PrefixCachingBlockObj.initBlockObj p prev tokenIds blockSize b extraHash)
        f p) Q (fun _ _ => True) w := by
  simp only [wp_bind, wp_zoom, World.memLens_get, World.memLens_put, wp_get]
  refine wp_mono (wp_acquireObj htracks) ?_ fun _ _ _ => trivial
  rintro p ⟨_, pool⟩ ⟨hp, rfl, htracks', -, -⟩
  refine wp_mono (PrefixCachingBlockObj.wp_initBlockObj _) ?_ fun _ _ _ => trivial
  rintro _ _ ⟨o, -, rfl⟩
  refine hf p _ rfl ⟨hp, htracks', fun q hq => ?_⟩
  have hne : q ≠ p := fun heq => hp (heq ▸ hq)
  rw [Mem.setObj_obj_ne _ _ hne]
  exact .refl _

theorem wp_allocateMutableBlock_entered (htracks : w.mem.pool.Tracks used)
    (tokenIds : List TokenId) (prev : Option Ptr) (extraHash : HashValue) :
    wp (allocateMutableBlock tokenIds prev extraHash)
      (fun p w' => Entered w.mem used p w'.mem ∧ Registers Counts p w w') (fun _ _ => True) w := by
  unfold allocateMutableBlock
  rw [wp_bind, wp_zoom]
  refine wp_mono wp_allocateBlockId_counts ?_ fun _ _ h => h
  rintro b a ⟨hsame, -⟩
  refine wp_acquire_entered (w := World.allocLens.put a w) htracks prev [] b extraHash
    fun p ⟨m₁, a₁⟩ halloc hentered => ?_
  obtain rfl : a₁ = a := halloc
  rw [wp_bind]
  refine wp_mono (wp_appendTokenIds_written tokenIds) (fun _ w' h => ?_) fun _ _ h => h
  exact ⟨hentered.written h.1.1, hsame.trans h.2.ids, h.2.counted⟩

/-- A cached id is counted when it is shared, else another block is taken. -/
theorem wp_allocateImmutableBlock_entered (htracks : w.mem.pool.Tracks used)
    (tokenIds : List TokenId) (prev : Option Ptr) (extraHash : HashValue) :
    wp (allocateImmutableBlock tokenIds prev extraHash)
      (fun p w' => Entered w.mem used p w'.mem ∧ Registers Counts p w w') (fun _ _ => True) w := by
  unfold allocateImmutableBlock
  refine wp_acquire_entered htracks prev tokenIds invalidBlockId extraHash
    fun p w₁ halloc hentered => ?_
  simp only [wp_bind, wp_zoom, World.memLens_get, World.memLens_put, wp_get]
  refine wp_mono (within_prefixHash p w₁.mem) (fun key m₂ hm₂ => ?_) fun _ _ _ => trivial
  have hentered₂ := hentered.relabelled hm₂
  refine (wp_ite _ _ _).mpr ⟨fun _ => ?_, fun _ => ?_⟩
  · simp only [wp_bind, wp_zoom, World.memLens_get, World.memLens_put, World.allocLens_get,
      World.allocLens_put, HashLessBlockObj.setBlockId, wp_modify, record, wp_pure]
    refine wp_mono (wp_incrRefCountCacheBlock_counts _) ?_ fun _ _ h => h
    rintro _ a ⟨hincr, hb⟩
    refine ⟨hentered₂.relabelled (.setId m₂ p _), halloc ▸ hincr, ?_⟩
    exact (Mem.setId_blockId m₂ p _).symm ▸ (hincr _).mpr hb
  · -- the object goes back, and another block is taken
    simp only [freeObj, wp_bind, wp_zoom, World.memLens_get, World.memLens_put,
      World.allocLens_get, World.allocLens_put, record, wp_modify]
    refine wp_mono (wp_freeObj hentered₂.tracks (Finset.mem_insert_self p used)) ?_
      fun _ _ _ => trivial
    rintro _ m₃ ⟨hobj, -, htracks₃⟩
    rw [Finset.erase_insert hentered.fresh] at htracks₃
    refine wp_mono (wp_allocateMutableBlock_entered htracks₃ tokenIds prev extraHash) ?_
      fun _ _ h => h
    rintro q w₄ ⟨h₄, hreg⟩
    refine ⟨⟨h₄.fresh, h₄.tracks, fun r hr => (hentered₂.frame r hr).trans ?_⟩,
      halloc ▸ hreg.ids, hreg.counted⟩
    have hne : r ≠ p := fun heq => hentered.fresh (heq ▸ hr)
    have hsame : m₃.obj r = m₂.obj r := by rw [hobj, Function.update_of_ne hne]
    rw [← hsame]
    exact h₄.frame r hr

instance : LocalBlockAllocator HashValue (PrefixCacheBlockAllocator HashValue) where
  AppendKeepsId := AppendSettles
  ReplaceKeepsId := ReplaceSettles
  wp_allocateMutableBlock tokenIds prev extraHash htracks :=
    wp_mono (wp_allocateMutableBlock_entered htracks tokenIds prev extraHash) (fun _ _ h => h.1)
      fun _ _ h => h
  wp_allocateImmutableBlock tokenIds prev extraHash htracks :=
    wp_mono (wp_allocateImmutableBlock_entered htracks tokenIds prev extraHash) (fun _ _ h => h.1)
      fun _ _ h => h
  wp_appendTokenIds _ _ tokenIds :=
    wp_mono (wp_appendTokenIds_written tokenIds) (fun _ _ h => h.1) fun _ _ h => h
  wp_replaceToken _ _ i t := wp_replaceToken_written i t

end PrefixCacheBlockAllocator

end MindieLLM
