import MindieLLM.BlockManager.PrefixCacheAllocate

/-!
# Blocks and their owner

The owner of an allocator's blocks holds a set of live ones: what the allocator has handed out
and not been given back. Every operation moves the owner's ledger, the allocator together with
the ids its live blocks carry, by moves of single ids.

## Main definitions

* `Tidy w live`: the allocator is consistent with the ids the live blocks carry
* `Moved R w live w' live'`: moves of ids lead from one tidy ledger to the other
* `LastUse`: no other live block carries the id

## Main results

* `wp_appendTokenIds_moved`, `wp_free_moved`, `wp_fork_moved`, `wp_swapOut_moved`,
  `wp_swapIn_moved`: what the operations do to the ledger of their caller
-/

namespace MindieLLM.PrefixCacheBlockAllocator

open Program

variable {HashValue : Type} [PrefixHasher HashValue] [DecidableEq HashValue]
  {R : PrefixCacheBlockAllocator HashValue → BlockId → Prop}

/-- The allocator and the ids the live blocks carry. -/
abbrev ledger (w : World HashValue (PrefixCacheBlockAllocator HashValue)) (live : Finset Ptr) :
    Ledger HashValue :=
  (w.alloc, carried w.mem live)

/-- The live blocks are in use, and the allocator is consistent with the ids they carry. A block
that carries a registered id is full. -/
structure Tidy (w : World HashValue (PrefixCacheBlockAllocator HashValue)) (live : Finset Ptr) :
    Prop where
  tracks : w.mem.pool.Tracks live
  consistent : Consistent w.alloc (carried w.mem live)
  managed : ∀ p ∈ live, (w.mem.obj p).blockId ≠ invalidBlockId →
    (w.mem.obj p).blockId ∈ w.alloc.allBlockIndices
  size : ∀ p ∈ live, (w.mem.obj p).blockSize = w.alloc.blockSize
  full : ∀ p ∈ live, ∀ key, w.alloc.cachedBlocks key = some (w.mem.obj p).blockId →
    (w.mem.obj p).isFull

/-- Moves of ids lead from the ledger of `live` to a tidy ledger of `live'`. -/
structure Moved (R : PrefixCacheBlockAllocator HashValue → BlockId → Prop)
    (w : World HashValue (PrefixCacheBlockAllocator HashValue)) (live : Finset Ptr)
    (w' : World HashValue (PrefixCacheBlockAllocator HashValue)) (live' : Finset Ptr) : Prop where
  tidy : Tidy w' live'
  steps : IdSteps R (ledger w live) (ledger w' live')

variable {w w' w'' : World HashValue (PrefixCacheBlockAllocator HashValue)}
  {live live' live'' : Finset Ptr} {p : Ptr}

omit [DecidableEq HashValue] in
theorem Tidy.new {beginBlockId : BlockId} (hbegin : 0 ≤ beginBlockId)
    (numBlocks blockSize poolSize : Nat) :
    Tidy (⟨Mem.new poolSize, .new beginBlockId numBlocks blockSize⟩ :
      World HashValue (PrefixCacheBlockAllocator HashValue)) ∅ where
  tracks := .new poolSize
  consistent := Consistent.new hbegin numBlocks blockSize
  managed := by simp
  size := by simp
  full := by simp

theorem Moved.refl (h : Tidy w live) : Moved R w live w live := ⟨h, .refl⟩

theorem Moved.trans (h : Moved R w live w' live') (h' : Moved R w' live' w'' live'') :
    Moved R w live w'' live'' :=
  ⟨h'.tidy, h.steps.trans h'.steps⟩

namespace Tidy

omit [DecidableEq HashValue] in
/-- The id of a live block, set apart from the others. -/
theorem consistent_cons (h : Tidy w live) (hp : p ∈ live) :
    Consistent w.alloc ((w.mem.obj p).blockId ::ₘ carried w.mem (live.erase p)) := by
  by_cases hid : (w.mem.obj p).blockId = invalidBlockId
  · rw [hid, ← carried_erase_invalid hp hid]
    exact h.consistent.cons_invalid
  · rw [← carried_erase hp hid]
    exact h.consistent

omit [PrefixHasher HashValue] [DecidableEq HashValue] in
/-- A block is in no other's way: the ids the others carry stay the same. -/
theorem carried_frame {m m' : Mem HashValue} {others : Finset Ptr}
    (hframe : ∀ q, q ≠ p → SameButHash (m.obj q) (m'.obj q)) (hp : p ∉ others) :
    carried m' others = carried m others :=
  carried_congr fun q hq => (hframe q fun heq => hp (heq ▸ hq)).blockId

omit [DecidableEq HashValue] in
/-- What happens to the live blocks other than `p` when only `p` changes. -/
theorem frame (h : Tidy w live) {others : Finset Ptr} (hsub : others ⊆ live) (hp : p ∉ others)
    (hall : w'.alloc.allBlockIndices = w.alloc.allBlockIndices)
    (hsize : w'.alloc.blockSize = w.alloc.blockSize)
    (hframe : ∀ q, q ≠ p → SameButHash (w.mem.obj q) (w'.mem.obj q))
    (hcached : ∀ key c, w'.alloc.cachedBlocks key = some c →
      w.alloc.cachedBlocks key = some c ∨ c ∉ carried w.mem others ∧ c ≠ invalidBlockId) :
    ∀ q ∈ others,
      ((w'.mem.obj q).blockId ≠ invalidBlockId →
        (w'.mem.obj q).blockId ∈ w'.alloc.allBlockIndices) ∧
      (w'.mem.obj q).blockSize = w'.alloc.blockSize ∧
      ∀ key, w'.alloc.cachedBlocks key = some (w'.mem.obj q).blockId → (w'.mem.obj q).isFull := by
  intro q hq
  have hq' := hframe q fun heq => hp (heq ▸ hq)
  rw [hq'.blockId, hq'.blockSize, hq'.isFull, hall, hsize]
  refine ⟨h.managed q (hsub hq), h.size q (hsub hq), fun key hkey => ?_⟩
  rcases hcached key _ hkey with hkey | ⟨hno, hne⟩
  · exact h.full q (hsub hq) key hkey
  · exact absurd (mem_carried.mpr ⟨hne, q, hq, rfl⟩) hno

end Tidy

/-! ## Appending -/

theorem Appended.moved {tokenIds : List TokenId} {o : BlockObj HashValue} (h : Tidy w live)
    (hp : p ∈ live)
    (happ : Appended R w (carried w.mem (live.erase p)) p (w.mem.obj p).blockId tokenIds w' o) :
    Moved R w live w' live := by
  have hid := happ.id_ne
  have hown := carried_erase hp hid
  obtain ⟨hall, hsize⟩ := IdSteps.const happ.steps
  dsimp only at hall hsize
  have hne : o.blockId ≠ invalidBlockId := h.consistent.ne_invalid happ.managed
  have hself : SameButHash o (w'.mem.obj p) := by
    have := happ.mem.obj p
    rwa [Mem.setObj_obj_same] at this
  have hframe : ∀ q, q ≠ p → SameButHash (w.mem.obj q) (w'.mem.obj q) := by
    intro q hq
    have := happ.mem.obj q
    rwa [Mem.setObj_obj_ne _ _ hq] at this
  have hrest := Tidy.carried_frame hframe (Finset.notMem_erase p live)
  have hown' : carried w'.mem live = o.blockId ::ₘ carried w.mem (live.erase p) := by
    rw [carried_erase hp (hself.blockId ▸ hne), hself.blockId, hrest]
  have hsteps : IdSteps R (ledger w live) (ledger w' live) := by
    rw [ledger, ledger, hown, hown']
    exact happ.steps
  have hothers := h.frame (Finset.erase_subset p live)
    (Finset.notMem_erase p live) hall hsize hframe fun key c hk =>
      (happ.cached key c hk).imp id fun ⟨_, hc, hno⟩ => ⟨hno, hc ▸ hne⟩
  have hpool : w'.mem.pool = w.mem.pool := happ.mem.pool
  refine ⟨⟨hpool ▸ h.tracks, h.consistent.idSteps hsteps, fun q hq hqid => ?_, fun q hq => ?_,
    fun q hq key hkey => ?_⟩, hsteps⟩ <;> obtain rfl | hqp := eq_or_ne q p
  · rw [hself.blockId, hall]
    exact happ.managed
  · exact (hothers q (Finset.mem_erase.mpr ⟨hqp, hq⟩)).1 hqid
  · rw [hself.blockSize, hsize, ← h.size q hq]
    exact happ.pushed.blockSize
  · exact (hothers q (Finset.mem_erase.mpr ⟨hqp, hq⟩)).2.1
  · rw [hself.blockId] at hkey
    by_cases hhash : (w'.mem.obj q).cachedPrefixHash = invalidHashValue
    · rcases (happ.unregistered hhash).2 with heq | hunreg
      · -- the id was registered before, so the block was full before
        rcases happ.cached key _ hkey with hkey | ⟨rfl, -, -⟩
        · rw [hself.isFull]
          exact happ.pushed.isFull_of_isFull (h.full q hq key (heq ▸ hkey))
        · exact absurd hhash ((h.consistent.idSteps hsteps).cached _ _ hkey).2.2
      · exact absurd hkey (hunreg key)
    · refine happ.mem.isFull (fun hvalid => ?_) hhash
      rw [Mem.setObj_obj_same] at hvalid
      have hmemo : o.cachedPrefixHash = (w.mem.obj q).cachedPrefixHash :=
        happ.pushed.cachedPrefixHash
      exact absurd (.memo (hmemo ▸ hvalid)) happ.not_hashable
  · exact (hothers q (Finset.mem_erase.mpr ⟨hqp, hq⟩)).2.2 key hkey

theorem wp_appendTokenIds_moved (h : Tidy w live) (hp : p ∈ live) (tokenIds : List TokenId) :
    wp (appendTokenIds p tokenIds) (fun _ w' => Moved R w live w' live) (fun _ _ => True) w := by
  refine wp_mono (wp_appendTokenIds (R := R) (h.consistent_cons hp) rfl
    (fun key hkey => h.full p hp key hkey) tokenIds) ?_ fun _ _ _ => trivial
  rintro _ w' ⟨o, happ⟩
  exact happ.moved h hp

/-! ## Allocating -/

theorem Allocated.moved {tokenIds : List TokenId} {prev : Option Ptr} {extraHash : HashValue}
    {o : BlockObj HashValue} (h : Tidy w live)
    (hal : Allocated R w live (carried w.mem live) tokenIds prev extraHash p w' o) :
    Moved R w live w' (insert p live) := by
  obtain ⟨hall, hsize⟩ := IdSteps.const hal.steps
  dsimp only at hall hsize
  have hne : o.blockId ≠ invalidBlockId := h.consistent.ne_invalid hal.managed
  have hself := hal.self
  have hown' : carried w'.mem (insert p live) = o.blockId ::ₘ carried w.mem live := by
    rw [carried_insert hal.fresh (hself.blockId ▸ hne), hself.blockId,
      Tidy.carried_frame hal.frame hal.fresh]
  have hsteps : IdSteps R (ledger w live) (ledger w' (insert p live)) := by
    rw [ledger, ledger, hown']
    exact hal.steps
  have hothers := h.frame (Finset.Subset.refl live) hal.fresh hall hsize hal.frame
      fun key c hk => by
    rcases hal.cached key c hk with hk | ⟨-, rfl, hno⟩
    · exact .inl hk
    · exact .inr ⟨hno, hne⟩
  refine ⟨⟨hal.tracks, h.consistent.idSteps hsteps, fun q hq hqid => ?_, fun q hq => ?_,
    fun q hq key hkey => ?_⟩, hsteps⟩ <;> obtain rfl | hq := Finset.mem_insert.mp hq
  · rw [hself.blockId, hall]
    exact hal.managed
  · exact (hothers q hq).1 hqid
  · rw [hself.blockSize, hal.init.blockSize, hsize]
  · exact (hothers q hq).2.1
  · rw [hself.blockId] at hkey
    by_cases hhash : (w'.mem.obj q).cachedPrefixHash = invalidHashValue
    · exact absurd hkey ((hal.unregistered hhash).2 key)
    · exact hal.full hhash
  · exact (hothers q hq).2.2 key hkey

theorem wp_allocateMutableBlock_moved (h : Tidy w live) (tokenIds : List TokenId)
    (prev : Option Ptr) (extraHash : HashValue) :
    wp (allocateMutableBlock tokenIds prev extraHash)
      (fun p w' => p ∉ live ∧ Moved R w live w' (insert p live)) (fun _ _ => True) w := by
  refine wp_mono (wp_allocateMutableBlock (R := R) h.consistent h.tracks tokenIds prev extraHash)
    ?_ fun _ _ _ => trivial
  rintro p w' ⟨o, hal⟩
  exact ⟨hal.fresh, hal.moved h⟩

theorem wp_allocateImmutableBlock_moved (h : Tidy w live) (tokenIds : List TokenId)
    (prev : Option Ptr) (extraHash : HashValue) :
    wp (allocateImmutableBlock tokenIds prev extraHash)
      (fun p w' => p ∉ live ∧ Moved R w live w' (insert p live)) (fun _ _ => True) w := by
  refine wp_mono (wp_allocateImmutableBlock (R := R) h.consistent h.tracks tokenIds prev extraHash)
    ?_ fun _ _ _ => trivial
  rintro p w' ⟨o, hal⟩
  exact ⟨hal.fresh, hal.moved h⟩

theorem wp_allocateImmutableBlocks_moved (h : Tidy w live) (tokenIds : List (List TokenId))
    (prev : Option Ptr) (extraHash : HashValue) :
    wp (allocateImmutableBlocks tokenIds prev extraHash)
      (fun ps w' => Moved R w live w' (live ∪ ps.toFinset)) (fun _ _ => True) w := by
  induction tokenIds generalizing w live prev with
  | nil => simpa [allocateImmutableBlocks] using Moved.refl h
  | cons tokens rest ih =>
    unfold allocateImmutableBlocks
    rw [wp_bind]
    refine wp_mono (wp_allocateImmutableBlock_moved (R := R) h tokens prev extraHash) ?_
      fun _ _ _ => trivial
    rintro p w₁ ⟨-, hmoved⟩
    rw [wp_bind]
    refine wp_mono (ih hmoved.tidy (some p)) ?_ fun _ _ _ => trivial
    intro ps w₂ hmoved₂
    rw [wp_pure]
    have := hmoved.trans hmoved₂
    rwa [Finset.insert_union, ← Finset.union_insert, ← List.toFinset_cons] at this

/-! ## Freeing -/

/-- No other live block carries the id of `p`. -/
def LastUse (w : World HashValue (PrefixCacheBlockAllocator HashValue)) (live : Finset Ptr)
    (p : Ptr) : Prop :=
  ∀ q ∈ live, (w.mem.obj q).blockId = (w.mem.obj p).blockId → q = p

omit [PrefixHasher HashValue] [DecidableEq HashValue] in
theorem LastUse.of_notMem (hid : (w.mem.obj p).blockId ≠ invalidBlockId)
    (h : (w.mem.obj p).blockId ∉ carried w.mem (live.erase p)) : LastUse w live p := by
  intro q hq heq
  by_contra hne
  exact h (mem_carried.mpr ⟨hid, q, Finset.mem_erase.mpr ⟨hne, hq⟩, heq⟩)

/-- The block gives up the last use of its id only if that can be released. -/
abbrev SafeRelease (R : PrefixCacheBlockAllocator HashValue → BlockId → Prop)
    (w : World HashValue (PrefixCacheBlockAllocator HashValue)) (live : Finset Ptr) (p : Ptr) :
    Prop :=
  LastUse w live p → Releasable R w p

theorem wp_freeBlockId_moved (h : Tidy w live) (hp : p ∈ live) (hsafe : SafeRelease R w live p) :
    wp (freeBlockId p)
      (fun _ w' => Moved R w live w' live ∧ (w'.mem.obj p).blockId = invalidBlockId)
      (fun _ _ => True) w := by
  by_cases hid : (w.mem.obj p).blockId = invalidBlockId
  · -- an id that is not managed cannot be given up
    refine wp_mono (wp_freeBlockId (R := R) (h.consistent.cons_invalid.cons_invalid) hid
      fun hno => absurd (Multiset.mem_cons_self _ _) hno) ?_ fun _ _ _ => trivial
    rintro _ w' hdrop
    exact absurd rfl (h.consistent.ne_invalid hdrop.managed)
  refine wp_mono (wp_freeBlockId (h.consistent_cons hp) rfl
    fun hno => hsafe (.of_notMem hid hno)) ?_ fun _ _ _ => trivial
  rintro _ w' hdrop
  obtain ⟨hall, hsize⟩ := IdSteps.const hdrop.steps
  dsimp only at hall hsize
  have hself := hdrop.mem.obj p
  rw [Mem.setId, Mem.setObj_obj_same] at hself
  have hframe : ∀ q, q ≠ p → SameButHash (w.mem.obj q) (w'.mem.obj q) := by
    intro q hq
    have := hdrop.mem.obj q
    rwa [Mem.setId, Mem.setObj_obj_ne _ _ hq] at this
  have hown' : carried w'.mem live = carried w.mem (live.erase p) := by
    rw [carried_erase_invalid hp hself.blockId,
      Tidy.carried_frame hframe (Finset.notMem_erase p live)]
  have hsteps : IdSteps R (ledger w live) (ledger w' live) := by
    rw [ledger, ledger, hown', carried_erase hp hid]
    exact hdrop.steps
  have hothers := h.frame (Finset.erase_subset p live)
    (Finset.notMem_erase p live) hall hsize hframe fun key c hk => .inl (hdrop.cached ▸ hk)
  have hpool : w'.mem.pool = w.mem.pool := hdrop.mem.pool
  have hcons : Consistent w'.alloc (carried w'.mem live) := h.consistent.idSteps hsteps
  refine ⟨⟨⟨hpool ▸ h.tracks, hcons, fun q hq hqid => ?_, fun q hq => ?_,
    fun q hq key hkey => ?_⟩, hsteps⟩, hself.blockId⟩ <;> obtain rfl | hqp := eq_or_ne q p
  · exact absurd hself.blockId hqid
  · exact (hothers q (Finset.mem_erase.mpr ⟨hqp, hq⟩)).1 hqid
  · rw [hself.blockSize, hsize]
    exact h.size q hq
  · exact (hothers q (Finset.mem_erase.mpr ⟨hqp, hq⟩)).2.1
  · exact absurd hself.blockId (hcons.ne_invalid (hcons.cached key _ hkey).1)
  · exact (hothers q (Finset.mem_erase.mpr ⟨hqp, hq⟩)).2.2 key hkey

/-- Giving an object back to the pool, once it carries no id. -/
theorem wp_freeObj_moved (h : Tidy w live) (hp : p ∈ live)
    (hid : (w.mem.obj p).blockId = invalidBlockId) :
    wp (freeObj p) (fun _ w' => Moved R w live w' (live.erase p)) (fun _ _ => False) w := by
  simp only [freeObj, wp_zoom, World.memLens_get, World.memLens_put]
  refine wp_mono (wp_freeObj h.tracks hp) ?_ fun _ _ hfalse => hfalse
  rintro _ m ⟨hobj, -, htracks⟩
  have hne : ∀ q ∈ live.erase p, m.obj q = w.mem.obj q := by
    intro q hq
    rw [hobj, Function.update_of_ne (Finset.ne_of_mem_erase hq)]
  have hown : carried m (live.erase p) = carried w.mem live := by
    rw [carried_erase_invalid hp hid]
    exact carried_congr fun q hq => by rw [hne q hq]
  have hsteps : IdSteps R (ledger w live) (ledger { w with mem := m } (live.erase p)) := by
    rw [ledger, ledger, hown]
  refine ⟨⟨htracks, h.consistent.idSteps hsteps, fun q hq => ?_, fun q hq => ?_, fun q hq => ?_⟩,
    hsteps⟩ <;> dsimp only <;> rw [hne q hq]
  · exact h.managed q (Finset.mem_of_mem_erase hq)
  · exact h.size q (Finset.mem_of_mem_erase hq)
  · exact h.full q (Finset.mem_of_mem_erase hq)

theorem wp_free_moved (h : Tidy w live) (hp : p ∈ live) (hsafe : SafeRelease R w live p)
    (keepBlockObj : Bool) :
    wp (free p keepBlockObj)
      (fun _ w' => Moved R w live w' (if keepBlockObj then live else live.erase p))
      (fun _ _ => True) w := by
  unfold free
  rw [wp_bind]
  refine wp_mono (wp_freeBlockId_moved h hp hsafe) ?_ fun _ _ _ => trivial
  rintro _ w₁ ⟨hmoved, hid⟩
  cases keepBlockObj
  · refine wp_mono (wp_freeObj_moved (R := R) hmoved.tidy hp hid) ?_ fun _ _ _ => trivial
    exact fun _ w₂ hmoved₂ => hmoved.trans hmoved₂
  · exact hmoved

/-! ## Forking -/

omit [PrefixHasher HashValue] [DecidableEq HashValue] in
theorem wp_sourceBlocks (fuel : Nat) (p : Ptr) (m : Mem HashValue) :
    wp (sourceBlocks fuel p) (fun ps m' => m' = m ∧ ∀ q ∈ ps, OnChain m p q)
      (fun _ _ => ¬ChainEnds m p fuel) m := by
  induction fuel generalizing p with
  | zero => simp [sourceBlocks, ChainEnds]
  | succ fuel ih =>
    unfold sourceBlocks
    simp only [wp_bind, wp_load]
    cases hprev : (m.obj p).prevBlock with
    | none => simpa using .refl
    | some q =>
      simp only [wp_bind, wp_pure]
      refine wp_mono (ih q) ?_ fun _ _ hdiv hends => hdiv (hends q hprev)
      rintro ps m' ⟨rfl, hps⟩
      refine ⟨rfl, fun r hr => ?_⟩
      rw [List.mem_append, List.mem_singleton] at hr
      rcases hr with hr | rfl
      · exact (hps r hr).head hprev
      · exact .refl

/-- The loop of `Fork` gives every source block a second one with the same id. -/
theorem wp_forkBlocks_moved (h : Tidy w live) (prev : Option Ptr) (sources : List Ptr)
    (hsources : ∀ q ∈ sources, q ∈ live) :
    wp (forkBlocks prev sources) (fun ps w' => Moved R w live w' (live ∪ ps.toFinset))
      (fun _ _ => True) w := by
  induction sources generalizing w live prev with
  | nil => simpa [forkBlocks] using Moved.refl h
  | cons source rest ih =>
    have hsource := hsources source (by simp)
    unfold forkBlocks
    simp only [wp_bind, wp_zoom, wp_load, World.memLens_get, World.memLens_put,
      World.allocLens_get, World.allocLens_put]
    by_cases hb : (w.mem.obj source).blockId ∈ w.alloc.allBlockIndices
    swap
    · have hcount : w.alloc.refCounter.refCounts (w.mem.obj source).blockId = none := by
        rw [h.consistent.refCounts, if_neg hb]
      simp [increase, RefCounter.wp_increase, hcount]
    have hne := h.consistent.ne_invalid hb
    have hown : (w.mem.obj source).blockId ∈ carried w.mem live :=
      mem_carried.mpr ⟨hne, source, hsource, rfl⟩
    rw [wp_increase h.consistent hb]
    rw [wp_ite]
    refine ⟨fun _ => trivial, fun _ => ?_⟩
    simp only [wp_bind, wp_zoom, wp_get, World.memLens_get, World.memLens_put]
    refine wp_mono (wp_acquireObj h.tracks) ?_ fun _ _ _ => trivial
    rintro p ⟨_, pool⟩ ⟨hp, rfl, htracks, -⟩
    refine wp_mono (PrefixCachingBlockObj.wp_initBlockObj _) ?_ fun _ _ _ => trivial
    rintro _ _ ⟨o, hinit, rfl⟩
    have hframe : ∀ q ∈ live, (Mem.setObj ⟨w.mem.obj, pool⟩ p o).obj q = w.mem.obj q := by
      intro q hq
      have hqp : q ≠ p := fun heq => hp (heq ▸ hq)
      rw [Mem.setObj_obj_ne _ _ hqp]
    have hid : ((Mem.setObj ⟨w.mem.obj, pool⟩ p o).obj p).blockId = (w.mem.obj source).blockId := by
      rw [Mem.setObj_obj_same, hinit.blockId]
    have hmoved : Moved R w live ⟨Mem.setObj ⟨w.mem.obj, pool⟩ p o,
        w.alloc.setCount (w.mem.obj source).blockId
          ((carried w.mem live).count (w.mem.obj source).blockId + 1)⟩ (insert p live) := by
      have hown' : carried (Mem.setObj ⟨w.mem.obj, pool⟩ p o) (insert p live) =
          (w.mem.obj source).blockId ::ₘ carried w.mem live := by
        rw [carried_insert hp (by rwa [hid]), hid]
        congr 1
        exact carried_congr fun q hq => by rw [hframe q hq]
      have hsteps : IdSteps R (ledger w live)
          (ledger ⟨Mem.setObj ⟨w.mem.obj, pool⟩ p o, w.alloc.setCount (w.mem.obj source).blockId
            ((carried w.mem live).count (w.mem.obj source).blockId + 1)⟩ (insert p live)) := by
        rw [ledger, ledger, hown']
        exact .single (.share hb hown)
      refine ⟨⟨htracks, h.consistent.idSteps hsteps, fun q hq hqid => ?_, fun q hq => ?_,
        fun q hq key hkey => ?_⟩, hsteps⟩ <;> obtain rfl | hq := Finset.mem_insert.mp hq
      · rw [hid]
        exact hb
      · rw [hframe q hq] at hqid ⊢
        exact h.managed q hq hqid
      · rw [Mem.setObj_obj_same, hinit.blockSize]
      · rw [hframe q hq]
        exact h.size q hq
      · rw [hid] at hkey
        have hfull := h.full source hsource key hkey
        rw [BlockObj.isFull_iff] at hfull ⊢
        rw [Mem.setObj_obj_same, hinit.tokenIds, hinit.blockSize, hfull, h.size source hsource]
        rfl
      · rw [hframe q hq] at hkey ⊢
        exact h.full q hq key hkey
    refine wp_mono (ih hmoved.tidy (some p) fun q hq =>
      Finset.mem_insert_of_mem (hsources q (by simp [hq]))) ?_ fun _ _ _ => trivial
    intro ps w₂ hmoved₂
    rw [wp_pure]
    have := hmoved.trans hmoved₂
    rwa [Finset.insert_union, ← Finset.union_insert, ← List.toFinset_cons] at this

theorem wp_fork_moved (h : Tidy w live) {sources : List Ptr}
    (hrun : sourceBlocks w.mem.pool.poolSize p w.mem = .ok sources w.mem)
    (hsources : ∀ q ∈ sources, q ∈ live) :
    wp (fork p) (fun ps w' => Moved R w live w' (live ∪ ps.toFinset)) (fun _ _ => True) w := by
  unfold fork
  simp only [wp_bind, wp_get, wp_zoom, World.memLens_get, World.memLens_put]
  rw [wp_iff_of_ok hrun]
  exact wp_forkBlocks_moved h none sources hsources

/-! ## Swapping -/

/-- Every release of a `SwapOut` is safe. -/
def SwapOutSafe (R : PrefixCacheBlockAllocator HashValue → BlockId → Prop) (live : Finset Ptr) :
    World HashValue (PrefixCacheBlockAllocator HashValue) → List Ptr → Prop
  | _, [] => True
  | w, p :: ps => SafeRelease R w live p ∧
      ∀ w', freeBlockId p w = .ok () w' → SwapOutSafe R live w' ps

theorem wp_swapOut_moved (h : Tidy w live) (blocks : List Ptr) (hblocks : ∀ p ∈ blocks, p ∈ live)
    (hsafe : SwapOutSafe R live w blocks) :
    wp (swapOut blocks) (fun _ w' => Moved R w live w' live) (fun _ _ => True) w := by
  unfold swapOut
  induction blocks generalizing w with
  | nil => exact Moved.refl h
  | cons p ps ih =>
    rw [wp_forM_cons]
    refine wp_mono (wp_and (wp_freeBlockId_moved h (hblocks p (by simp)) hsafe.1) (wp_self _ _)) ?_
      fun _ _ _ => trivial
    rintro _ w₁ ⟨⟨hmoved, -⟩, hrun⟩
    refine wp_mono (ih hmoved.tidy (fun q hq => hblocks q (by simp [hq])) (hsafe.2 w₁ hrun)) ?_
      fun _ _ _ => trivial
    exact fun _ w₂ hmoved₂ => hmoved.trans hmoved₂

/-- A block that carries no id takes over the id of a block with the same tokens, which goes back
to the pool. -/
theorem Allocated.handOver {prev : Option Ptr} {extraHash : HashValue} {tmp : Ptr}
    {o : BlockObj HashValue} (h : Tidy w live) (hp : p ∈ live)
    (hid : (w.mem.obj p).blockId = invalidBlockId)
    (hal : Allocated R w live (carried w.mem live) (w.mem.obj p).tokenIds prev extraHash tmp w' o) :
    wp (freeObj tmp)
      (fun _ w₂ => Moved R w live w₂ live ∧
        ∀ q ∈ live, q ≠ p → (w₂.mem.obj q).blockId = (w.mem.obj q).blockId)
      (fun _ _ => False) { w' with mem := w'.mem.setId p (w'.mem.obj tmp).blockId } := by
  obtain ⟨hall, hsize⟩ := IdSteps.const hal.steps
  dsimp only at hall hsize
  have hne : o.blockId ≠ invalidBlockId := h.consistent.ne_invalid hal.managed
  have hself := hal.self
  have hpt : p ≠ tmp := fun heq => hal.fresh (heq ▸ hp)
  simp only [freeObj, wp_zoom, World.memLens_get, World.memLens_put]
  refine wp_mono (wp_freeObj (p := tmp) hal.tracks (Finset.mem_insert_self tmp live)) ?_
    fun _ _ hfalse => hfalse
  rintro _ m ⟨hobj, -, htracks⟩
  rw [Finset.erase_insert hal.fresh] at htracks
  have hpid : (m.obj p).blockId = o.blockId := by
    rw [hobj, Function.update_of_ne hpt, Mem.setId_blockId, hself.blockId]
  have hpself : SameButHash (w'.mem.obj p) { m.obj p with blockId := (w'.mem.obj p).blockId } := by
    rw [hobj, Function.update_of_ne hpt, Mem.setId, Mem.setObj_obj_same]
    exact .refl _
  have hframe : ∀ q ∈ live, q ≠ p → m.obj q = w'.mem.obj q := by
    intro q hq hqp
    have hqt : q ≠ tmp := fun heq => hal.fresh (heq ▸ hq)
    rw [hobj, Function.update_of_ne hqt, Mem.setId, Mem.setObj_obj_ne _ _ hqp]
  have hown' : carried m live = o.blockId ::ₘ carried w.mem live := by
    rw [carried_erase hp (by rwa [hpid]), hpid, carried_erase_invalid hp hid]
    congr 1
    refine carried_congr fun q hq => ?_
    obtain ⟨hqp, hq⟩ := Finset.mem_erase.mp hq
    rw [hframe q hq hqp, (hal.frame q fun heq => hal.fresh (heq ▸ hq)).blockId]
  have hsteps : IdSteps R (ledger w live) (ledger { w' with mem := m } live) := by
    rw [ledger, ledger, hown']
    exact hal.steps
  have hothers := h.frame (Finset.Subset.refl live) hal.fresh hall hsize hal.frame
      fun key c hk => by
    rcases hal.cached key c hk with hk | ⟨-, rfl, hno⟩
    · exact .inl hk
    · exact .inr ⟨hno, hne⟩
  have hpold := hal.frame p hpt
  refine ⟨⟨⟨htracks, h.consistent.idSteps hsteps, fun q hq hqid => ?_, fun q hq => ?_,
    fun q hq key hkey => ?_⟩, hsteps⟩, fun q hq hqp => ?_⟩
  · obtain rfl | hqp := eq_or_ne q p
    · dsimp only
      rw [hpid, hall]
      exact hal.managed
    · dsimp only at hqid ⊢
      rw [hframe q hq hqp] at hqid ⊢
      exact (hothers q hq).1 hqid
  · obtain rfl | hqp := eq_or_ne q p
    · have hq := h.size q hp
      rw [← hsize, ← hpold.blockSize, ← hpself.blockSize] at hq
      exact hq
    · dsimp only
      rw [hframe q hq hqp]
      exact (hothers q hq).2.1
  · obtain rfl | hqp := eq_or_ne q p
    · dsimp only at hkey ⊢
      rw [hpid] at hkey
      -- the contents registered for the id are those of the temporary block
      have hhash : (w'.mem.obj tmp).cachedPrefixHash ≠ invalidHashValue :=
        fun hinv => (hal.unregistered hinv).2 key hkey
      have hfull := hal.full hhash
      rw [BlockObj.isFull_iff, hself.tokenIds, hself.blockSize, hal.init.tokenIds,
        hal.init.blockSize] at hfull
      have htok : (m.obj q).tokenIds = (w.mem.obj q).tokenIds :=
        hpself.tokenIds.trans hpold.tokenIds
      have hbs : (m.obj q).blockSize = (w.mem.obj q).blockSize :=
        hpself.blockSize.trans hpold.blockSize
      rw [BlockObj.isFull_iff, htok, hbs, h.size q hp, hfull]
    · dsimp only at hkey ⊢
      rw [hframe q hq hqp] at hkey ⊢
      exact (hothers q hq).2.2 key hkey
  · rw [hframe q hq hqp]
    exact (hal.frame q fun heq => hal.fresh (heq ▸ hq)).blockId

theorem wp_swapInBlock_moved (h : Tidy w live) (hp : p ∈ live)
    (hid : (w.mem.obj p).blockId = invalidBlockId) :
    wp (swapInBlock p)
      (fun _ w' => Moved R w live w' live ∧
        ∀ q ∈ live, q ≠ p → (w'.mem.obj q).blockId = (w.mem.obj q).blockId)
      (fun _ _ => True) w := by
  unfold swapInBlock
  simp only [wp_bind, wp_zoom, wp_load, World.memLens_get, World.memLens_put]
  rw [wp_ite]
  refine ⟨fun _ => ?_, fun _ => ?_⟩ <;> rw [wp_bind]
  · refine wp_mono (wp_allocateImmutableBlock (R := R) h.consistent h.tracks _ _ _) ?_
      fun _ _ _ => trivial
    rintro tmp w₁ ⟨o, hal⟩
    simp only [wp_bind, wp_zoom, wp_load, World.memLens_get, World.memLens_put, Mem.objAt_get,
      Mem.objAt_put, HashLessBlockObj.setBlockId, wp_modify]
    exact wp_mono (hal.handOver h hp hid) (fun _ _ hq => hq) fun _ _ _ => trivial
  · refine wp_mono (wp_allocateMutableBlock (R := R) h.consistent h.tracks _ _ _) ?_
      fun _ _ _ => trivial
    rintro tmp w₁ ⟨o, hal⟩
    simp only [wp_bind, wp_zoom, wp_load, World.memLens_get, World.memLens_put, Mem.objAt_get,
      Mem.objAt_put, HashLessBlockObj.setBlockId, wp_modify]
    exact wp_mono (hal.handOver h hp hid) (fun _ _ hq => hq) fun _ _ _ => trivial

theorem wp_swapIn_moved (h : Tidy w live) (blocks : List Ptr) (hnodup : blocks.Nodup)
    (hblocks : ∀ p ∈ blocks, p ∈ live ∧ (w.mem.obj p).blockId = invalidBlockId) :
    wp (swapIn blocks) (fun _ w' => Moved R w live w' live) (fun _ _ => True) w := by
  unfold swapIn
  induction blocks generalizing w with
  | nil => exact Moved.refl h
  | cons p ps ih =>
    obtain ⟨hp, hid⟩ := hblocks p (by simp)
    obtain ⟨hps, hnodup⟩ := List.nodup_cons.mp hnodup
    rw [wp_forM_cons]
    refine wp_mono (wp_swapInBlock_moved (R := R) h hp hid) ?_ fun _ _ _ => trivial
    rintro _ w₁ ⟨hmoved, hframe⟩
    refine wp_mono (ih hmoved.tidy hnodup fun q hq => ?_) ?_ fun _ _ _ => trivial
    · obtain ⟨hql, hqid⟩ := hblocks q (by simp [hq])
      exact ⟨hql, (hframe q hql fun heq => hps (heq ▸ hq)).trans hqid⟩
    · exact fun _ w₂ hmoved₂ => hmoved.trans hmoved₂

/-! ## Marking -/

/-- The flags after the ids in `bs` have become computed. -/
def markComputed (bs : List BlockId) (s : BlockComputedAttr) : BlockComputedAttr :=
  { s with
    blockInfos := fun b =>
      if b ∈ bs then { s.blockInfos b with computed := true } else s.blockInfos b }

/-- `MarkBlocksAsComputed` as a function: the touched ids become computed, and none is touched. -/
def marked (a : PrefixCacheBlockAllocator HashValue) : PrefixCacheBlockAllocator HashValue :=
  { a with
    touchedBlocks := []
    blockComputedAttr := markComputed a.touchedBlocks a.blockComputedAttr }

theorem markComputed_cons (b : BlockId) (bs : List BlockId) (s : BlockComputedAttr) :
    markComputed bs (s.updateInfo b fun i => { i with computed := true }) =
      markComputed (b :: bs) s := by
  simp only [markComputed, BlockComputedAttr.updateInfo, BlockComputedAttr.mk.injEq, true_and]
  funext c
  by_cases hc : c = b
  · subst hc; simp
  · simp [hc]

omit [PrefixHasher HashValue] [DecidableEq HashValue] in
theorem wp_markBlocksAsComputed (a : PrefixCacheBlockAllocator HashValue) :
    wp markBlocksAsComputed (fun _ a' => a' = a.marked)
      (fun _ _ => ∃ b ∈ a.touchedBlocks, ¬a.blockComputedAttr.Valid b) a := by
  have hloop (bs : List BlockId) (a : PrefixCacheBlockAllocator HashValue) :
      wp (forM bs fun b => zoom attrLens (BlockComputedAttr.setComputed b true))
        (fun _ a' => a' = { a with blockComputedAttr := markComputed bs a.blockComputedAttr })
        (fun _ _ => ∃ b ∈ bs, ¬a.blockComputedAttr.Valid b) a := by
    induction bs generalizing a with
    | nil => simp [markComputed]
    | cons b bs ih =>
      rw [wp_forM_cons]
      simp only [wp_zoom, BlockComputedAttr.setComputed, wp_bind,
        BlockComputedAttr.wp_isValidBlockId, wp_modify, attrLens_get, attrLens_put]
      refine ⟨fun _ => ?_, fun hb => ⟨b, by simp, hb⟩⟩
      refine wp_mono (ih _) ?_ ?_
      · rintro _ a' rfl
        simp only [markComputed_cons]
      · rintro _ _ ⟨c, hc, hv⟩
        exact ⟨c, List.mem_cons_of_mem b hc, hv⟩
  unfold markBlocksAsComputed
  simp only [wp_bind, wp_get]
  refine wp_mono (hloop a.touchedBlocks a) ?_ fun _ _ hf => hf
  rintro _ a' rfl
  rw [wp_modify]
  rfl

omit [DecidableEq HashValue] in
theorem Consistent.marked {a : PrefixCacheBlockAllocator HashValue} {own : Multiset BlockId}
    (h : Consistent a own) : Consistent a.marked own := by
  refine ⟨h.1, h.2, h.3, h.4, h.5, fun b hb => ?_, h.7, h.8, h.9, h.10, h.11, h.12⟩
  rw [← h.active b hb, PrefixCacheBlockAllocator.marked, markComputed]
  dsimp only
  split <;> rfl

omit [DecidableEq HashValue] in
theorem Tidy.marked (h : Tidy w live) : Tidy { w with alloc := w.alloc.marked } live :=
  ⟨h.tracks, h.consistent.marked, h.managed, h.size, h.full⟩

end MindieLLM.PrefixCacheBlockAllocator
