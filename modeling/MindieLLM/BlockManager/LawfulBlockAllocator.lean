import MindieLLM.BlockManager.HashLessLedger
import MindieLLM.BlockManager.PrefixCacheAllocate

/-!
# Laws of the block allocators

Both allocators hand out blocks alike: a new block has the tokens and the predecessor asked for, and
no other block changes. An allocation succeeds as long as an id is free.

## Main definitions

* `Taken`: what an allocation does
* `Enough`: what it needs
* `LawfulBlockAllocator`: the allocators whose allocations do that

## Main results

* The hash-less and the prefix-caching allocator are lawful.
-/

namespace MindieLLM

open Program

variable {HashValue A : Type}

/-- What an allocation needs. -/
structure Enough (w : World HashValue A) (used : Finset Ptr) (blockSize numFree : ℕ)
    (tokenIds : List TokenId) (prev : Option Ptr) : Prop where
  free : 0 < numFree
  pool : 0 < w.mem.pool.poolSize
  size : 0 < blockSize
  fits : tokenIds.length ≤ blockSize
  prev : PrevWithin w.mem used prev

/-- What an allocation does to the objects: `p` is a new block in use, all others stay as they
are. -/
structure Taken (m : Mem HashValue) (used : Finset Ptr) (tokenIds : List TokenId)
    (prev : Option Ptr) (p : Ptr) (m' : Mem HashValue) : Prop where
  fresh : p ∉ used
  tracks : m'.pool.Tracks (insert p used)
  poolSize : m.pool.poolSize ≤ m'.pool.poolSize
  prevBlock : (m'.obj p).prevBlock = prev
  tokenIds : (m'.obj p).tokenIds = tokenIds
  frame : ∀ q, q ≠ p → SameButHash (m.obj q) (m'.obj q)

/-- The chain of a new block is in use with it. -/
theorem Taken.prevWithin {m m' : Mem HashValue} {used : Finset Ptr} {tokenIds : List TokenId}
    {prev : Option Ptr} {p : Ptr} (h : Taken m used tokenIds prev p m')
    (hprev : PrevWithin m used prev) : PrevWithin m' (insert p used) (some p) := by
  have hcard := Finset.card_insert_of_notMem h.fresh
  have hframe : ∀ q ∈ used, (m'.obj q).prevBlock = (m.obj q).prevBlock :=
    fun q hq => (h.frame q fun heq => h.fresh (heq ▸ hq)).prevBlock
  rintro _ ⟨rfl⟩
  cases prev with
  | none =>
    refine ⟨1, by omega, Finset.mem_insert_self _ _, fun q hq => ?_⟩
    rw [h.prevBlock] at hq
    cases hq
  | some q =>
    obtain ⟨n, hn, hchain⟩ := hprev q rfl
    refine ⟨n + 1, by omega, Finset.mem_insert_self _ _, fun r hr => ?_⟩
    rw [h.prevBlock] at hr
    obtain rfl := Option.some.inj hr
    exact hchain.congr (Finset.subset_insert p used) hframe

theorem Taken.setRankIdx {m m' : Mem HashValue} {used : Finset Ptr} {tokenIds : List TokenId}
    {prev : Option Ptr} {p : Ptr} (h : Taken m used tokenIds prev p m') (r : ℕ) :
    Taken m used tokenIds prev p (m'.setObj p { m'.obj p with rankIdx := r }) where
  fresh := h.fresh
  tracks := h.tracks
  poolSize := h.poolSize
  prevBlock := by
    rw [Mem.setObj_obj_same]
    exact h.prevBlock
  tokenIds := by
    rw [Mem.setObj_obj_same]
    exact h.tokenIds
  frame q hq := by
    rw [Mem.setObj_obj_ne _ _ hq]
    exact h.frame q hq

/-! ## The laws -/

/-- An allocator whose allocations do what they should. `Holds a own` says that the allocator is in
order while the ids `own` are in use. -/
class LawfulBlockAllocator (HashValue : outParam Type) (A : Type) [BlockAllocator HashValue A]
    where
  Holds : A → Multiset BlockId → Prop
  blockSize : A → ℕ
  holds_new : ∀ {beginBlockId : BlockId} (numBlocks size : ℕ), 0 ≤ beginBlockId →
    Holds (BlockAllocator.new beginBlockId numBlocks size) 0 ∧
      blockSize (BlockAllocator.new beginBlockId numBlocks size : A) = size
  wp_allocateMutableBlock : ∀ {w : World HashValue A} {used : Finset Ptr} {own : Multiset BlockId}
    (tokenIds : List TokenId) (prev : Option Ptr) (extraHash : HashValue),
    Holds w.alloc own → w.mem.pool.Tracks used →
    wp (BlockAllocator.allocateMutableBlock tokenIds prev extraHash)
      (fun p w' => ∃ b, Taken w.mem used tokenIds prev p w'.mem ∧ Holds w'.alloc (b ::ₘ own) ∧
        blockSize w'.alloc = blockSize w.alloc ∧
        BlockAllocator.getNumFreeBlock w.alloc ≤ BlockAllocator.getNumFreeBlock w'.alloc + 1)
      (fun _ _ => ¬Enough w used (blockSize w.alloc) (BlockAllocator.getNumFreeBlock w.alloc)
        tokenIds prev) w
  wp_allocateImmutableBlock : ∀ {w : World HashValue A} {used : Finset Ptr}
    {own : Multiset BlockId} (tokenIds : List TokenId) (prev : Option Ptr) (extraHash : HashValue),
    Holds w.alloc own → w.mem.pool.Tracks used →
    wp (BlockAllocator.allocateImmutableBlock tokenIds prev extraHash)
      (fun p w' => ∃ b, Taken w.mem used tokenIds prev p w'.mem ∧ Holds w'.alloc (b ::ₘ own) ∧
        blockSize w'.alloc = blockSize w.alloc ∧
        BlockAllocator.getNumFreeBlock w.alloc ≤ BlockAllocator.getNumFreeBlock w'.alloc + 1)
      (fun _ _ => ¬Enough w used (blockSize w.alloc) (BlockAllocator.getNumFreeBlock w.alloc)
        tokenIds prev) w

/-! ## Prefix caching -/

section PrefixCache

variable [DecidableEq HashValue] [PrefixHasher HashValue]
  {w w' : World HashValue (PrefixCacheBlockAllocator HashValue)} {used : Finset Ptr}
  {own : Multiset BlockId} {tokenIds : List TokenId} {prev : Option Ptr} {extraHash : HashValue}
  {p : Ptr} {o : BlockObj HashValue}
  {R : PrefixCacheBlockAllocator HashValue → BlockId → Prop}

theorem PrefixCacheBlockAllocator.Allocated.taken
    (h : Allocated R w used own tokenIds prev extraHash p w' o) :
    Taken w.mem used tokenIds prev p w'.mem where
  fresh := h.fresh
  tracks := h.tracks
  poolSize := h.poolSize
  prevBlock := h.self.prevBlock.trans h.init.prevBlock
  tokenIds := h.self.tokenIds.trans h.init.tokenIds
  frame := h.frame

theorem PrefixCacheBlockAllocator.Allocated.holds
    (h : Allocated R w used own tokenIds prev extraHash p w' o) (hcons : Consistent w.alloc own) :
    Consistent w'.alloc (o.blockId ::ₘ own) ∧ w'.alloc.blockSize = w.alloc.blockSize ∧
      w.alloc.getNumFreeBlock ≤ w'.alloc.getNumFreeBlock + 1 := by
  obtain ⟨hall, hsize⟩ := IdSteps.const h.steps
  have hcons' : Consistent w'.alloc (o.blockId ::ₘ own) := hcons.idSteps h.steps
  exact ⟨hcons', hsize, hcons.getNumFreeBlock_le hcons' hall⟩

omit [DecidableEq HashValue] [PrefixHasher HashValue] in
theorem Enough.room (h : Enough w used w.alloc.blockSize w.alloc.getNumFreeBlock tokenIds prev) :
    PrefixCacheBlockAllocator.Room w used tokenIds prev :=
  ⟨h.free, h.pool, h.size, h.fits, h.prev⟩

instance : LawfulBlockAllocator HashValue (PrefixCacheBlockAllocator HashValue) where
  Holds := PrefixCacheBlockAllocator.Consistent
  blockSize a := a.blockSize
  holds_new numBlocks size hbegin :=
    ⟨PrefixCacheBlockAllocator.Consistent.new hbegin numBlocks size, rfl⟩
  wp_allocateMutableBlock tokenIds prev extraHash h htracks := by
    refine wp_mono (PrefixCacheBlockAllocator.wp_allocateMutableBlock (R := fun _ _ => True) h
      htracks tokenIds prev extraHash) ?_ fun _ _ hno henough => hno henough.room
    rintro p w' ⟨o, hal⟩
    exact ⟨o.blockId, hal.taken, hal.holds h⟩
  wp_allocateImmutableBlock tokenIds prev extraHash h htracks := by
    refine wp_mono (PrefixCacheBlockAllocator.wp_allocateImmutableBlock (R := fun _ _ => True) h
      htracks tokenIds prev extraHash) ?_ fun _ _ hno henough => hno henough.room
    rintro p w' ⟨o, hal⟩
    exact ⟨o.blockId, hal.taken, hal.holds h⟩

end PrefixCache

/-! ## Without prefix caching -/

namespace HashLessBlockAllocator

variable [PrefixHasher HashValue] {w : World HashValue (HashLessBlockAllocator HashValue)}
  {used : Finset Ptr} {own : Multiset BlockId}

/-- What an allocation leaves besides: an id that nobody else has. -/
structure Owns (w : World HashValue (HashLessBlockAllocator HashValue)) (own : Multiset BlockId)
    (p : Ptr) (b : BlockId) (w' : World HashValue (HashLessBlockAllocator HashValue)) : Prop where
  blockId : (w'.mem.obj p).blockId = b
  blockSize : (w'.mem.obj p).blockSize = w.alloc.blockSize
  rankIdx : (w'.mem.obj p).rankIdx = (w.mem.obj p).rankIdx
  managed : b ∈ w.alloc.allBlockIndices
  unshared : b ∉ own
  all : w'.alloc.allBlockIndices = w.alloc.allBlockIndices
  cowTracker : w'.alloc.cowTracker = w.alloc.cowTracker
  frame : ∀ q, q ≠ p → w'.mem.obj q = w.mem.obj q

theorem wp_allocateMutableBlock (h : Consistent w.alloc own) (htracks : w.mem.pool.Tracks used)
    (tokenIds : List TokenId) (prev : Option Ptr) :
    wp (allocateMutableBlock tokenIds prev)
      (fun p w' => ∃ b, Taken w.mem used tokenIds prev p w'.mem ∧ Owns w own p b w' ∧
        Consistent w'.alloc (b ::ₘ own) ∧ w'.alloc.blockSize = w.alloc.blockSize ∧
        w.alloc.getNumFreeBlock ≤ w'.alloc.getNumFreeBlock + 1)
      (fun _ w' => w.alloc.getNumFreeBlock = 0 ∧ w' = w ∨ w.mem.pool.poolSize = 0 ∨
        w.alloc.blockSize < tokenIds.length) w := by
  unfold allocateMutableBlock
  simp only [wp_bind, wp_zoom, World.allocLens_get, World.allocLens_put]
  refine wp_mono (wp_allocateBlockId h) ?_ ?_
  swap
  · rintro _ _ ⟨rfl, hnone⟩
    exact .inl ⟨by rw [getNumFreeBlock, hnone]; rfl, rfl⟩
  rintro b _ ⟨hown, hb, hcons, rest, hfree, rfl⟩
  refine wp_mono (wp_acquireBlock (w := ⟨w.mem, w.alloc.recount b 1 rest⟩) htracks tokenIds prev b)
    ?_ fun _ _ hno => .inr hno
  rintro p w' ⟨hp, halloc, htracks', hpool, hframe, hprev, htokens, hsize, hid, hrank⟩
  refine ⟨b, ⟨hp, htracks', hpool, hprev, htokens, fun q hq => ?_⟩,
    ⟨hid, hsize, hrank, hb, hown, ?_, ?_, hframe⟩, ?_, ?_, ?_⟩
  · rw [hframe q hq]
    exact .refl _
  · rw [halloc]; rfl
  · rw [halloc]; rfl
  · rw [halloc]; exact hcons
  · rw [halloc]; rfl
  · rw [halloc, getNumFreeBlock, hfree]
    exact Nat.le_refl _

/-- A full block is taken empty and then filled; nobody shares its id, so none is copied. -/
theorem wp_allocateImmutableBlock (h : Consistent w.alloc own) (htracks : w.mem.pool.Tracks used)
    (tokenIds : List TokenId) (prev : Option Ptr) :
    wp (allocateImmutableBlock tokenIds prev)
      (fun p w' => ∃ b, Taken w.mem used tokenIds prev p w'.mem ∧ Owns w own p b w' ∧
        Consistent w'.alloc (b ::ₘ own) ∧ w'.alloc.blockSize = w.alloc.blockSize ∧
        w.alloc.getNumFreeBlock ≤ w'.alloc.getNumFreeBlock + 1)
      (fun _ _ => w.alloc.getNumFreeBlock = 0 ∨ w.mem.pool.poolSize = 0 ∨
        w.alloc.blockSize < tokenIds.length) w := by
  unfold allocateImmutableBlock
  rw [wp_bind]
  refine wp_mono (wp_allocateMutableBlock h htracks [] prev) ?_ fun _ _ hno => ?_
  swap
  · exact hno.imp (fun hfull => hfull.1) (Or.imp_right fun hlt => absurd hlt (Nat.not_lt_zero _))
  rintro p w₁ ⟨b, htaken, howns, hcons, hsize, hfree⟩
  rw [wp_bind]
  refine wp_mono (wp_appendTokenIds hcons howns.blockId (howns.all ▸ howns.managed) tokenIds) ?_ ?_
  · rintro _ w₂ ⟨c, happ⟩
    obtain ⟨rfl, halloc⟩ := happ.kept howns.unshared
    have hobj : ∀ q, q ≠ p → w₂.mem.obj q = w₁.mem.obj q := fun q hq => by
      rw [happ.mem, Mem.setObj_obj_ne _ _ hq]
    have hpool : w₂.mem.pool = w₁.mem.pool := by
      rw [happ.mem, Mem.setObj_pool]
    rw [wp_pure]
    refine ⟨c, ⟨htaken.fresh, hpool ▸ htaken.tracks, hpool ▸ htaken.poolSize,
      happ.pushed.prevBlock.trans htaken.prevBlock, ?_, fun q hq => ?_⟩,
      ⟨happ.pushed.blockId, happ.pushed.blockSize.trans howns.blockSize,
        happ.pushed.rankIdx.trans howns.rankIdx, howns.managed, howns.unshared, ?_, ?_,
        fun q hq => (hobj q hq).trans (howns.frame q hq)⟩, ?_, ?_, ?_⟩
    · rw [happ.pushed.tokenIds]
      simp [htaken.tokenIds]
    · rw [hobj q hq]
      exact htaken.frame q hq
    · rw [halloc]; exact howns.all
    · rw [halloc]; exact howns.cowTracker
    · rw [halloc]; exact hcons
    · rw [halloc]; exact hsize
    · rw [halloc]; exact hfree
  · rintro _ w₂ (⟨-, hno⟩ | ⟨-, -, hstranded⟩)
    · refine .inr (.inr ?_)
      rw [BlockObj.getNumEmptySlots, htaken.tokenIds, howns.blockSize] at hno
      exact Nat.not_le.mp hno
    · exact absurd hstranded.shared howns.unshared

omit [PrefixHasher HashValue] in
theorem not_enough {tokenIds : List TokenId} {prev : Option Ptr}
    (h : w.alloc.getNumFreeBlock = 0 ∨ w.mem.pool.poolSize = 0 ∨
      w.alloc.blockSize < tokenIds.length) :
    ¬Enough w used w.alloc.blockSize w.alloc.getNumFreeBlock tokenIds prev := by
  intro henough
  have hfree := henough.free
  have hpool := henough.pool
  have hfits := henough.fits
  omega

instance : LawfulBlockAllocator HashValue (HashLessBlockAllocator HashValue) where
  Holds := Consistent
  blockSize a := a.blockSize
  holds_new numBlocks size hbegin := ⟨Consistent.new hbegin numBlocks size, rfl⟩
  wp_allocateMutableBlock tokenIds prev _ h htracks :=
    wp_mono (wp_allocateMutableBlock h htracks tokenIds prev)
      (fun _ _ ⟨b, htaken, _, hrest⟩ => ⟨b, htaken, hrest⟩)
      fun _ _ hno => not_enough (hno.imp_left fun hfull => hfull.1)
  wp_allocateImmutableBlock tokenIds prev _ h htracks :=
    wp_mono (wp_allocateImmutableBlock h htracks tokenIds prev)
      (fun _ _ ⟨b, htaken, _, hrest⟩ => ⟨b, htaken, hrest⟩) fun _ _ hno => not_enough hno

end HashLessBlockAllocator

end MindieLLM
