import MindieLLM.BlockManager.PrefixCacheSpec

/-!
# Allocating, freeing and forking blocks

The specifications of the methods that take block objects from the pool or give them back.

## Main definitions

* `Allocated`: what a new block looks like, and what has changed elsewhere
* `Room`: what an allocation needs in order not to fail

## Main results

* `wp_allocateMutableBlock`, `wp_allocateImmutableBlock`: both allocate; they fail only without
  `Room`
* `wp_free`: an id is given up and the object goes back to the pool
-/

namespace MindieLLM

open Program

variable {HashValue : Type} [PrefixHasher HashValue] [DecidableEq HashValue]

omit [DecidableEq HashValue] in
theorem Initialised.not_full {o o' : BlockObj HashValue} {prev : Option Ptr} {size : Nat}
    {id : BlockId} {extra : HashValue} (h : Initialised o prev [] size id extra o')
    (hsize : 0 < size) : o'.isFull = false := by
  rw [Bool.eq_false_iff, Ne, BlockObj.isFull_iff, h.tokenIds, h.blockSize]
  exact hsize.ne

omit [DecidableEq HashValue] in
/-- A block whose hash has been computed is initialised anew. What has been memoised for the blocks
before it does not depend on it. -/
theorem Memoised.reinit {m m₁ : Mem HashValue} {used : Finset Ptr} {p : Ptr}
    {o₁ o : BlockObj HashValue} (h : Memoised (m.setObj p o₁) m₁)
    (hframe : ∀ q, ¬OnChain (m.setObj p o₁) p q → m₁.obj q = (m.setObj p o₁).obj q)
    (hprev : PrevWithin m used o₁.prevBlock) (hp : p ∉ used)
    (ho : o.cachedPrefixHash = invalidHashValue) :
    Memoised (m.setObj p o) (m₁.setObj p o) := by
  have hne : ∀ q ∈ used, q ≠ p := fun q hq heq => hp (heq ▸ hq)
  have hchain : ∀ q, q ≠ p → m₁.obj q ≠ m.obj q → ∃ n, ChainWithin m used q n := by
    intro q hq hchanged
    have hon : OnChain (m.setObj p o₁) p q := by
      by_contra hoff
      rw [hframe q hoff, Mem.setObj_obj_ne _ _ hq] at hchanged
      exact hchanged rfl
    obtain ⟨r, hr, hon⟩ := hon.eq_or_tail.resolve_left hq
    rw [Mem.setObj_obj_same] at hr
    obtain ⟨n, -, hn⟩ := hprev r hr
    exact hn.of_onChain (fun q hq => by rw [Mem.setObj_obj_ne _ _ (hne q hq)]) hon
  have hhashable : ∀ q, Hashable (m.setObj p o₁) q → ∀ n, ChainWithin m used q n →
      Hashable (m.setObj p o) q := by
    intro q hq
    induction hq with
    | @memo q hmemo =>
      intro n hn
      rw [Mem.setObj_obj_ne _ _ (hne q hn.mem)] at hmemo
      exact .memo (by rwa [Mem.setObj_obj_ne _ _ (hne q hn.mem)])
    | @ready q hready _ ih =>
      intro n hn
      rw [Mem.setObj_obj_ne _ _ (hne q hn.mem)] at hready ih
      refine .ready ?_ ?_ <;> rw [Mem.setObj_obj_ne _ _ (hne q hn.mem)]
      · exact hready
      · intro r hr
        obtain ⟨k, hk⟩ := hn.prev hr
        exact ih r hr k hk
  refine ⟨h.pool, fun q => ?_, fun q => ?_, fun q hq => ?_⟩
  · by_cases hq : q = p
    · subst hq; simpa using .refl o
    · have := h.obj q
      rw [Mem.setObj_obj_ne _ _ hq] at this
      rwa [Mem.setObj_obj_ne _ _ hq, Mem.setObj_obj_ne _ _ hq]
  · by_cases hq : q = p
    · subst hq; simp
    rcases h.hash q with hsame | ⟨hinv, hready, hvalid, heq⟩
    · rw [Mem.setObj_obj_ne _ _ hq] at hsame
      rw [Mem.setObj_obj_ne _ _ hq, Mem.setObj_obj_ne _ _ hq]
      exact .inl hsame
    · rw [Mem.setObj_obj_ne _ _ hq] at hinv hready hvalid heq
      obtain ⟨n, hn⟩ := hchain q hq fun hsame => by
        rw [hsame, hinv] at heq
        exact PrefixHasher.prefixHash_ne_invalid _ _ _ heq.symm
      have hprev' : ∀ r, (m.obj q).prevBlock = some r → r ≠ p := fun r hr => by
        obtain ⟨k, hk⟩ := hn.prev hr
        exact hne r hk.mem
      rw [Mem.setObj_obj_ne _ _ hq, Mem.setObj_obj_ne _ _ hq]
      refine .inr ⟨hinv, hready, fun r hr => ?_, ?_⟩
      · rw [Mem.setObj_obj_ne _ _ (hprev' r hr)]
        exact hvalid r hr
      · rw [heq]
        cases hr : (m.obj q).prevBlock with
        | none => rfl
        | some r => simp [Mem.setObj_obj_ne _ _ (hprev' r hr)]
  · have hqp : q ≠ p := by
      rintro rfl
      rw [Mem.setObj_obj_same] at hq
      exact hq ho
    rw [Mem.setObj_obj_ne _ _ hqp] at hq
    by_cases hsame : m₁.obj q = m.obj q
    · exact .memo (by rwa [Mem.setObj_obj_ne _ _ hqp, ← hsame])
    · obtain ⟨n, hn⟩ := hchain q hqp hsame
      exact hhashable q (h.hashable q hq) n hn

namespace PrefixCacheBlockAllocator

variable {R : PrefixCacheBlockAllocator HashValue → BlockId → Prop}

/-- `p` is a new block in use, initialised as `o`. -/
structure Allocated (R : PrefixCacheBlockAllocator HashValue → BlockId → Prop)
    (w : World HashValue (PrefixCacheBlockAllocator HashValue)) (used : Finset Ptr)
    (own : Multiset BlockId) (tokenIds : List TokenId) (prev : Option Ptr)
    (extraHash : HashValue) (p : Ptr)
    (w' : World HashValue (PrefixCacheBlockAllocator HashValue)) (o : BlockObj HashValue) :
    Prop where
  fresh : p ∉ used
  top : ∀ q, w.mem.pool.stack.head? = some q → p = q
  tracks : w'.mem.pool.Tracks (insert p used)
  poolSize : w.mem.pool.poolSize ≤ w'.mem.pool.poolSize
  init : Initialised (w.mem.obj p) prev tokenIds w.alloc.blockSize o.blockId extraHash o
  frame : ∀ q, q ≠ p → SameButHash (w.mem.obj q) (w'.mem.obj q)
  stable : ∀ q, q ≠ p → (w.mem.obj q).cachedPrefixHash ≠ invalidHashValue →
    (w'.mem.obj q).cachedPrefixHash = (w.mem.obj q).cachedPrefixHash
  self : SameButHash o (w'.mem.obj p)
  mem : PrevWithin w.mem used prev →
    Memoised (Mem.setObj ⟨w.mem.obj, w'.mem.pool⟩ p o) w'.mem
  steps : IdSteps R (w.alloc, own) (w'.alloc, o.blockId ::ₘ own)
  managed : o.blockId ∈ w.alloc.allBlockIndices
  cached : ∀ key c, w'.alloc.cachedBlocks key = some c →
    w.alloc.cachedBlocks key = some c ∨
      (key = (w'.mem.obj p).cachedPrefixHash ∧ c = o.blockId ∧ c ∉ own)
  kept : ∀ key c, c ∈ own → w.alloc.cachedBlocks key = some c →
    w'.alloc.cachedBlocks key = some c
  registered : (w'.mem.obj p).cachedPrefixHash ≠ invalidHashValue →
    w'.alloc.cachedBlocks (w'.mem.obj p).cachedPrefixHash = some o.blockId
  unregistered : (w'.mem.obj p).cachedPrefixHash = invalidHashValue →
    o.blockId ∉ own ∧ w'.alloc.Unregistered o.blockId
  full : (w'.mem.obj p).cachedPrefixHash ≠ invalidHashValue → (w'.mem.obj p).isFull

/-- What an allocation needs. -/
structure Room (w : World HashValue (PrefixCacheBlockAllocator HashValue)) (used : Finset Ptr)
    (tokenIds : List TokenId) (prev : Option Ptr) : Prop where
  free : 0 < w.alloc.getNumFreeBlock
  pool : 0 < w.mem.pool.poolSize
  size : 0 < w.alloc.blockSize
  fits : tokenIds.length ≤ w.alloc.blockSize
  prev : PrevWithin w.mem used prev

omit [PrefixHasher HashValue] [DecidableEq HashValue] in
/-- A new block ends a chain of objects in use. -/
theorem chainEnds_of_prevWithin {m m' : Mem HashValue} {used : Finset Ptr} {p : Ptr}
    {prev : Option Ptr} (hprev : PrevWithin m used prev) (hp : p ∉ used)
    (htracks : m'.pool.Tracks (insert p used)) (hself : (m'.obj p).prevBlock = prev)
    (hframe : ∀ q ∈ used, (m'.obj q).prevBlock = (m.obj q).prevBlock) :
    ChainEnds m' p m'.pool.poolSize := by
  have hcard := htracks.card_le
  rw [Finset.card_insert_of_notMem hp] at hcard
  obtain ⟨k, hk⟩ : ∃ k, m'.pool.poolSize = k + 1 := ⟨m'.pool.poolSize - 1, by omega⟩
  rw [hk]
  intro q hq
  obtain ⟨n, hn, hchain⟩ := hprev q (hself ▸ hq)
  exact hchain.chainEnds (by omega) hframe

theorem wp_allocateMutableBlock {w : World HashValue (PrefixCacheBlockAllocator HashValue)}
    {used : Finset Ptr} {own : Multiset BlockId} (h : Consistent w.alloc own)
    (htracks : w.mem.pool.Tracks used) (tokenIds : List TokenId) (prev : Option Ptr)
    (extraHash : HashValue) :
    wp (allocateMutableBlock tokenIds prev extraHash)
      (fun p w' => ∃ o, Allocated R w used own tokenIds prev extraHash p w' o)
      (fun _ _ => ¬Room w used tokenIds prev) w := by
  unfold allocateMutableBlock
  simp only [wp_bind, wp_zoom, World.allocLens_get, World.allocLens_put, World.memLens_get,
    World.memLens_put, wp_get]
  refine wp_mono (wp_allocateBlockId (R := R) h) ?_ fun _ _ hnone hroom => ?_
  swap
  · have := hroom.free
    omega
  rintro b a₁ ⟨hsteps₁, hb, hfresh₁, hunreg₁, hcached₁, hkept₁⟩
  obtain ⟨hall, hsize⟩ := IdSteps.const hsteps₁
  dsimp only at hall hsize
  refine wp_mono (wp_acquireObj htracks) ?_ fun _ _ hempty hroom => ?_
  swap
  · have := hroom.pool
    omega
  rintro p ⟨_, pool⟩ ⟨hp, rfl, htracks', hpool, htop⟩
  dsimp only at htracks' hpool
  simp only [hsize]
  refine wp_mono (PrefixCachingBlockObj.wp_initBlockObj _) ?_ fun _ _ hlt => ?_
  swap
  · exact absurd hlt (by simp)
  rintro _ _ ⟨o₁, hinit, rfl⟩
  have h₁ : Consistent a₁ (b ::ₘ own) := h.idSteps hsteps₁
  refine wp_mono (wp_appendTokenIds (R := R)
    (w := ⟨Mem.setObj ⟨w.mem.obj, pool⟩ p o₁, a₁⟩) (p := p) h₁ (by simpa using hinit.blockId)
    (fun key hkey => absurd hkey (hunreg₁ key)) tokenIds) ?_ fun _ _ hfails hroom => ?_
  · rintro _ w' ⟨o, happ⟩
    have hpush := happ.pushed
    rw [Mem.setObj_obj_same] at hpush
    have hmem := happ.mem
    have hset : (Mem.setObj ⟨w.mem.obj, pool⟩ p o₁).setObj p o =
        Mem.setObj ⟨w.mem.obj, pool⟩ p o := by simp [Mem.setObj]
    dsimp only at hmem
    rw [hset] at hmem
    have hpool' : w'.mem.pool = pool := hmem.pool
    have hinit' : Initialised (w.mem.obj p) prev tokenIds w.alloc.blockSize o.blockId extraHash o :=
      ⟨hpush.prevBlock.trans hinit.prevBlock,
        by simpa [hinit.tokenIds] using hpush.tokenIds,
        hpush.blockSize.trans hinit.blockSize, rfl, hpush.rankIdx.trans hinit.rankIdx,
        hpush.prefixBlockSize.trans hinit.prefixBlockSize,
        hpush.cachedPrefixHash.trans hinit.cachedPrefixHash,
        hpush.extraHash.trans hinit.extraHash⟩
    rw [wp_pure]
    refine ⟨o, hp, htop, hpool' ▸ htracks', hpool' ▸ hpool, hinit', fun q hq => ?_,
      fun q hq hvalid => ?_, ?_,
      fun _ => hpool' ▸ hmem, hsteps₁.trans happ.steps, hall ▸ happ.managed, fun key c hk => ?_,
      fun key c hc hk => happ.kept key c hc (hkept₁ key c (fun heq => hfresh₁ (heq ▸ hc)) hk),
      happ.registered, fun hinv => ?_, fun hvalid => ?_⟩
    · have := hmem.obj q
      rwa [Mem.setObj_obj_ne _ _ hq] at this
    · have := hmem.hash_stable (q := q)
      rw [Mem.setObj_obj_ne _ _ hq] at this
      exact this hvalid
    · simpa using hmem.obj p
    · rcases happ.cached key c hk with hk | hk
      · exact .inl (hcached₁ key c hk)
      · exact .inr hk
    · obtain ⟨hfresh, heq | hunreg⟩ := happ.unregistered hinv
      · refine ⟨hfresh, fun key hkey => ?_⟩
        rcases happ.cached key o.blockId hkey with hk | ⟨rfl, -, -⟩
        · exact hunreg₁ key (heq ▸ hk)
        · exact ((h₁.idSteps happ.steps).cached _ _ hkey).2.2 hinv
      · exact ⟨hfresh, hunreg⟩
    · exact hmem.isFull (by simp [hinit'.cachedPrefixHash]) hvalid
  · have hprevBlock : ((Mem.setObj ⟨w.mem.obj, pool⟩ p o₁).obj p).prevBlock = prev := by
      simp [hinit.prevBlock]
    have hends : ChainEnds (Mem.setObj ⟨w.mem.obj, pool⟩ p o₁) p pool.poolSize := by
      refine chainEnds_of_prevWithin hroom.prev hp htracks' hprevBlock fun q hq => ?_
      have hne : q ≠ p := fun heq => hp (heq ▸ hq)
      simp [Mem.setObj_obj_ne, hne]
    have hnf := hinit.not_full hroom.size
    rcases hfails with hfails | hfails | ⟨hown, -⟩
    · refine hfails ⟨hends, ?_, ?_, ?_, ?_⟩
      · simpa [hinit.blockId] using h.ne_invalid hb
      · simp [hinit.prefixBlockSize, hinit.blockSize]
      · simpa [BlockObj.getNumEmptySlots, hinit.tokenIds, hinit.blockSize] using hroom.fits
      · rintro (hmemo | ⟨hready, -⟩)
        · simp [hinit.cachedPrefixHash] at hmemo
        · rw [Mem.setObj_obj_same] at hready
          rw [BlockObj.isFull_of_ready hready] at hnf
          cases hnf
    · rcases hfails with hnb | hends'
      · simp only [Mem.setObj_obj_same, hinit.blockId] at hnb
        exact hnb (hall ▸ hb)
      · exact hends' hends
    · simp only [Mem.setObj_obj_same, hinit.blockId] at hown
      exact hfresh₁ hown

/-- `AllocateImmutableBlock` allocates, whether the contents are cached or not. -/
theorem wp_allocateImmutableBlock {w : World HashValue (PrefixCacheBlockAllocator HashValue)}
    {used : Finset Ptr} {own : Multiset BlockId} (h : Consistent w.alloc own)
    (htracks : w.mem.pool.Tracks used) (tokenIds : List TokenId) (prev : Option Ptr)
    (extraHash : HashValue) :
    wp (allocateImmutableBlock tokenIds prev extraHash)
      (fun p w' => ∃ o, Allocated R w used own tokenIds prev extraHash p w' o)
      (fun _ _ => ¬Room w used tokenIds prev) w := by
  unfold allocateImmutableBlock
  simp only [wp_bind, wp_zoom, World.memLens_get, World.memLens_put, wp_get]
  refine wp_mono (wp_acquireObj htracks) ?_ fun _ _ hempty hroom => ?_
  swap
  · have := hroom.pool
    omega
  rintro p ⟨_, pool⟩ ⟨hp, rfl, htracks', hpool, htop⟩
  dsimp only at htracks' hpool
  refine wp_mono (PrefixCachingBlockObj.wp_initBlockObj _) ?_ fun _ _ hlt hroom => ?_
  swap
  · have := hroom.fits
    omega
  rintro _ _ ⟨o₁, hinit, rfl⟩
  refine wp_mono (wp_and (PrefixCachingBlockObj.wp_prefixHash p _)
    (PrefixCachingBlockObj.wp_prefixHash_chain p _)) ?_ fun _ _ hdiv hroom => hdiv.1 ?_
  swap
  · refine chainEnds_of_prevWithin hroom.prev hp htracks' ?_ fun q hq => ?_
    · simp [hinit.prevBlock]
    · have hne : q ≠ p := fun heq => hp (heq ▸ hq)
      simp [Mem.setObj_obj_ne, hne]
  rintro key m₁ ⟨⟨hm₁, hkey, hno⟩, hchain⟩
  have hpool₁ : m₁.pool = pool := hm₁.pool
  have hframe₁ : ∀ q, q ≠ p → SameButHash (w.mem.obj q) (m₁.obj q) := by
    intro q hq
    have := hm₁.obj q
    rwa [Mem.setObj_obj_ne _ _ hq] at this
  obtain hc | ⟨c, hc⟩ := Option.eq_none_or_eq_some (w.alloc.cachedBlocks key)
  swap
  · obtain ⟨hcb, -, hvalid⟩ := h.cached key c hc
    simp only [hc, Option.getD_some, ne_eq, h.ne_invalid hcb, not_false_eq_true, if_true, wp_bind,
      wp_zoom, World.memLens_get, World.memLens_put, Mem.objAt_get, Mem.objAt_put,
      HashLessBlockObj.setBlockId, wp_modify, World.allocLens_get, World.allocLens_put, record]
    refine wp_mono (wp_incrRefCountCacheBlock (R := R) (h.idStep (R := R) .note) hc) ?_
      fun _ _ hfalse => hfalse.elim
    rintro _ a₂ ⟨hsteps₂, hcached₂⟩
    have hmem := hm₁.setId p c
    rw [Mem.setObj_setId] at hmem
    have hhash : ((m₁.setId p c).obj p).cachedPrefixHash = key := by rw [Mem.setId_hash, hkey]
    rw [wp_pure]
    refine ⟨{ o₁ with blockId := c }, hp, htop, hpool₁ ▸ htracks', hpool₁ ▸ hpool,
      ⟨hinit.1, hinit.2, hinit.3, rfl, hinit.5, hinit.6, hinit.7, hinit.8⟩, fun q hq => ?_,
      fun q hq hq' => ?_, ?_,
      fun _ => ?_, (Relation.ReflTransGen.single .note).trans hsteps₂, hcb,
      fun key' c' hk => .inl ?_, fun key' c' _ hk => ?_, fun _ => ?_,
      fun hinv => absurd (hhash.symm.trans hinv) hvalid, fun _ => ?_⟩
    · have := hmem.obj q
      rwa [Mem.setObj_obj_ne _ _ hq] at this
    · have := hmem.hash_stable (q := q)
      rw [Mem.setObj_obj_ne _ _ hq] at this
      exact this hq'
    · have := hmem.obj p
      rwa [Mem.setObj_obj_same] at this
    · exact hpool₁ ▸ hmem
    · dsimp only at hk
      rwa [hcached₂] at hk
    · dsimp only
      rwa [hcached₂]
    · change a₂.cachedBlocks ((m₁.setId p c).obj p).cachedPrefixHash = some c
      rw [hcached₂, hhash]
      exact hc
    · exact hmem.isFull (by simp [hinit.cachedPrefixHash])
        (fun hinv => hvalid (hhash.symm.trans hinv))
  · simp only [hc, Option.getD_none, ne_eq, not_true_eq_false, if_false, wp_bind, wp_zoom,
      World.memLens_get, World.memLens_put, freeObj, wp_modify, World.allocLens_get,
      World.allocLens_put, record]
    refine wp_mono (wp_freeObj (hpool₁ ▸ htracks') (Finset.mem_insert_self p used)) ?_
      fun _ _ hfalse => hfalse.elim
    rintro _ ⟨_, pool₂⟩ ⟨rfl, hpool₂, htracks₂⟩
    dsimp only at hpool₂ htracks₂
    rw [Finset.erase_insert hp] at htracks₂
    have hframe₂ : ∀ q ∈ used, Function.update m₁.obj p
        (PrefixCachingBlockObj.resetBlockObj (m₁.obj p)) q = m₁.obj q := by
      intro q hq
      have hne : q ≠ p := fun heq => hp (heq ▸ hq)
      rw [Function.update_of_ne hne]
    refine wp_mono (wp_allocateMutableBlock (R := R)
      (w := ⟨⟨_, pool₂⟩, { w.alloc with hitRateCalculator := _ }⟩)
      (h.idStep (R := R) .note) htracks₂ tokenIds prev extraHash) ?_ fun _ _ hno hroom => hno ?_
    · rintro p' w' ⟨o, hal⟩
      obtain rfl : p' = p := hal.top p (by rw [hpool₂]; rfl)
      have hset : Mem.setObj (⟨Function.update m₁.obj p'
          (PrefixCachingBlockObj.resetBlockObj (m₁.obj p')), w'.mem.pool⟩ : Mem HashValue) p' o =
          Mem.setObj ⟨m₁.obj, w'.mem.pool⟩ p' o := by simp [Mem.setObj]
      have hi := hal.init
      simp only [Function.update_self] at hi
      have hrank : (PrefixCachingBlockObj.resetBlockObj (m₁.obj p')).rankIdx =
          (w.mem.obj p').rankIdx := by
        have := (hm₁.obj p').rankIdx
        rw [Mem.setObj_obj_same, hinit.rankIdx] at this
        exact this
      refine ⟨o, hp, htop, hal.tracks, ?_,
        ⟨hi.1, hi.2, hi.3, hi.4, hi.5.trans hrank, hi.6, hi.7, hi.8⟩, fun q hq => ?_,
        fun q hq hvalid => ?_, hal.self,
        fun hprev => ?_, (Relation.ReflTransGen.single .note).trans hal.steps, hal.managed,
        hal.cached, hal.kept, hal.registered, hal.unregistered, hal.full⟩
      · have := hal.poolSize
        dsimp only at this
        rw [hpool₂, hpool₁] at this
        exact hpool.trans this
      · have := hal.frame q hq
        dsimp only at this
        rw [Function.update_of_ne hq] at this
        exact (hframe₁ q hq).trans this
      · have hstable₁ := hm₁.hash_stable (q := q)
        rw [Mem.setObj_obj_ne _ _ hq] at hstable₁
        have hstable₂ := hal.stable q hq
        dsimp only at hstable₂
        rw [Function.update_of_ne hq, hstable₁ hvalid] at hstable₂
        exact hstable₂ hvalid
      · have hprev₂ : PrevWithin (⟨Function.update m₁.obj p'
            (PrefixCachingBlockObj.resetBlockObj (m₁.obj p')), pool₂⟩ : Mem HashValue) used prev :=
          hprev.congr (Finset.Subset.refl used) fun q hq => by
            dsimp only
            rw [hframe₂ q hq, (hframe₁ q fun heq => hp (heq ▸ hq)).prevBlock]
        have hmem := hal.mem hprev₂
        dsimp only at hmem
        rw [hset] at hmem
        have hprev₁ : PrevWithin (⟨w.mem.obj, pool⟩ : Mem HashValue) used o₁.prevBlock := by
          rw [hinit.prevBlock]
          exact hprev.congr (Finset.Subset.refl used) fun _ _ => rfl
        exact ((hm₁.reinit hchain hprev₁ hp hi.cachedPrefixHash).withPool w'.mem.pool).trans hmem
    · refine ⟨hroom.free, ?_, hroom.size, hroom.fits, ?_⟩
      · have := hroom.pool
        simp only [hpool₂, hpool₁]
        omega
      · exact hroom.prev.congr (Finset.Subset.refl used) fun q hq => by
          dsimp only
          rw [hframe₂ q hq, (hframe₁ q fun heq => hp (heq ▸ hq)).prevBlock]

end PrefixCacheBlockAllocator

end MindieLLM
