import MindieLLM.BlockManager.PrefixCacheAlike
import MindieLLM.BlockManager.PrefixCacheShared

/-!
# Resetting the prefix cache

`ResetPrefixCache` is a true reset if nothing that is asked of the allocator afterwards tells it
from a new one. It clears the free list, the reference counts and the evictor. The registered
hashes, the ids that wait for a mark and the flags of ids stay, so the reset is a true one only
where there are none.

## Main definitions

* `Reachable c₀ c`: any sequence of calls that return leads from `c₀` to `c`
* `Request`, `observe`: what can be asked of an allocator, and its answers
* `SameAsFresh`, `OneOwner`, `TrueReset`: what the reset is meant to achieve

## Main results

* `Reachable.owned`: the constants of an allocator never change
* `touchedBlocks_eq_nil_of_observe`: a mark tells an allocator in which an id waits for one
* `observe_eq`: alike allocators answer alike
* `trueReset_iff`: exactly when the reset is a true one
-/

namespace MindieLLM.PrefixCacheBlockAllocator

open Program

variable {HashValue : Type} [PrefixHasher HashValue] [DecidableEq HashValue]

/-! ## Reachable states -/

/-- The clients that calls of any kind lead to, as long as they return. -/
inductive Reachable (c₀ : Client HashValue) : Client HashValue → Prop
  | refl : Reachable c₀ c₀
  | op {c c' op} (h : Reachable c₀ c) (hstep : step c op = some c') : Reachable c₀ c'
  | replaceToken {c p i token w} (h : Reachable c₀ c) (hp : p ∈ c.live)
    (hrun : replaceToken p i token c.world = .ok () w) : Reachable c₀ ⟨w, c.live⟩
  | markBlocksAsAccessed {c bs now a} (h : Reachable c₀ c)
    (hrun : markBlocksAsAccessed bs now c.world.alloc = .ok () a) :
    Reachable c₀ ⟨⟨c.world.mem, a⟩, c.live⟩
  | clearCopyOnWrites {c cows a} (h : Reachable c₀ c)
    (hrun : clearCopyOnWrites c.world.alloc = .ok cows a) :
    Reachable c₀ ⟨⟨c.world.mem, a⟩, c.live⟩
  | resetPrefixCache {c r a} (h : Reachable c₀ c)
    (hrun : resetPrefixCache c.world.alloc = .ok r a) : Reachable c₀ ⟨⟨c.world.mem, a⟩, c.live⟩

theorem Reachable.run {c₀ c c' : Client HashValue} {ops : List (Op HashValue)}
    (h : Reachable c₀ c) (hrun : PrefixCacheBlockAllocator.run c ops = some c') :
    Reachable c₀ c' := by
  induction ops generalizing c with
  | nil =>
    obtain rfl := Option.some.inj hrun
    exact h
  | cons op ops ih =>
    obtain ⟨c₁, hstep, hrest⟩ := Option.bind_eq_some_iff.mp hrun
    exact ih (h.op hstep) hrest

section Sound

variable {first : BlockId} {num size : Nat} {a : PrefixCacheBlockAllocator HashValue}

omit [PrefixHasher HashValue] [DecidableEq HashValue] in
/-- The ways the flags of an allocator can change. -/
theorem Alike.setInfos (h : Alike first num size a a) {s : BlockComputedAttr}
    (hbegin : s.beginBlockId = a.blockComputedAttr.beginBlockId)
    (hnum : s.numBlocks = a.blockComputedAttr.numBlocks)
    (hidle : ∀ b, s.Valid b → (s.blockInfos b).active = false →
      (s.blockInfos b).lastAccessed = defaultLastAccessedTime) :
    Alike first num size { a with blockComputedAttr := s } { a with blockComputedAttr := s } := by
  have hinfos := h.infos
  have hs := hbegin.trans hinfos.beginBlockId
  have hn := hnum.trans hinfos.numBlocks
  exact h.1.alike _ _ ⟨hs, hn, hs, hn, fun _ _ => rfl, fun _ _ => rfl, fun _ _ _ => rfl, hidle⟩
    _ _ _ _ _ _

omit [PrefixHasher HashValue] [DecidableEq HashValue] in
/-- Only ids in use are accessed. -/
theorem wp_markBlocksAsAccessed_alike (h : Alike first num size a a) (bs : List BlockId)
    (now : TimeStamp) :
    wp (markBlocksAsAccessed bs now) (fun _ a' => Alike first num size a' a') (fun _ _ => True)
      a := by
  unfold markBlocksAsAccessed
  refine wp_forM (I := fun _ a' => Alike first num size a' a') _ bs h fun b rest a h => ?_
  simp only [wp_bind, wp_zoom, BlockComputedAttr.isActive, BlockComputedAttr.wp_isValidBlockId,
    wp_get, wp_pure, attrLens_get, attrLens_put]
  refine ⟨fun hv => ?_, fun _ => trivial⟩
  rw [wp_ite]
  refine ⟨fun hactive => ?_, fun _ => ?_⟩
  · simp only [BlockComputedAttr.updateAccessTime, wp_zoom, wp_bind,
      BlockComputedAttr.wp_isValidBlockId, wp_modify, attrLens_get, attrLens_put]
    refine ⟨fun _ => h.setInfos rfl rfl fun c hc => ?_, fun _ => trivial⟩
    rw [BlockComputedAttr.updateInfo_blockInfos]
    split
    · intro hinactive
      rw [hactive] at hinactive
      cases hinactive
    · exact h.infos.idle c hc
  · simp only [wp_bind, wp_get]
    rw [wp_ite]
    refine ⟨fun _ => ?_, fun _ => trivial⟩
    rw [wp_bind]
    exact wp_mono (wp_self _ _) (fun _ _ _ => trivial) fun _ _ _ => trivial

/-- What `ResetPrefixCache` does. -/
def resetState (a : PrefixCacheBlockAllocator HashValue) : PrefixCacheBlockAllocator HashValue :=
  { a with
    allBlockIndices := blockIndices a.beginBlockId a.numBlocks
    freeBlockIndices := blockIndices a.beginBlockId a.numBlocks
    refCounter := .make (blockIndices a.beginBlockId a.numBlocks)
    cowTracker := ⟨[]⟩
    evictor := .new }

section

omit [PrefixHasher HashValue] [DecidableEq HashValue]

theorem resetPrefixCache_eq (a : PrefixCacheBlockAllocator HashValue) :
    resetPrefixCache a =
      if a.getNumTotalBlocks ≤ a.getNumFreeBlock then .ok true a.resetState else .ok false a := by
  change (if (a.getNumTotalBlocks : Int) - a.getNumFreeBlock > 0 then pure false
    else do
      set a.resetState
      return true : AllocM HashValue Bool) a = _
  by_cases h : a.getNumTotalBlocks ≤ a.getNumFreeBlock
  · rw [if_neg (by omega), if_pos h]
    rfl
  · rw [if_pos (by omega), if_neg h]
    rfl

theorem Alike.resetState (h : Alike first num size a a) :
    Alike first num size a.resetState a.resetState := by
  refine ⟨⟨h.1.1, h.1.2, h.1.3, ?_⟩, _, _, rfl, h.infos⟩
  change blockIndices a.beginBlockId a.numBlocks = _
  rw [h.1.1, h.1.2]

theorem Alike.new (first : BlockId) (num size : Nat) :
    Alike first num size (.new first num size : PrefixCacheBlockAllocator HashValue)
      (.new first num size) :=
  ⟨⟨rfl, rfl, rfl, rfl⟩, _, _, rfl, rfl, rfl, rfl, rfl, fun _ _ => rfl, fun _ _ => rfl,
    fun _ _ _ => rfl, fun _ _ _ => rfl⟩

end

end Sound

/-- **Run lemma.** The constants of the allocator never change, idle ids have never been accessed,
and the objects of live blocks are in use. -/
theorem Reachable.owned {first : BlockId} {num size poolSize : Nat} (hpool : 0 < poolSize)
    {c : Client HashValue} (h : Reachable (.new first num size poolSize) c) :
    AlikeOwned first num size True c.live c.world c.world := by
  induction h with
  | refl => exact ⟨⟨rfl, .new first num size⟩, fun _ => ⟨.new poolSize, hpool⟩⟩
  | @op c c' op _ hstep ih =>
    unfold step at hstep
    split at hstep
    swap
    · cases hstep
    rename_i hallowed
    cases hexec : op.exec c.live c.world with
    | error e w => rw [hexec] at hstep; cases hstep
    | ok live w =>
      rw [hexec] at hstep
      obtain rfl := Option.some.inj hstep
      have hfree : ∀ p keepBlockObj, op = .free p keepBlockObj → True → p ∈ c.live := by
        rintro p keepBlockObj rfl -
        exact hallowed
      have howned := wp_ok (wp_of_agree (agree_exec ih hfree)) hexec
      exact howned
  | @replaceToken c p i token w _ _ hrun ih =>
    have howned := wp_ok (wp_of_agree (keepsOwned_replaceToken p i token ih)) hrun
    exact howned
  | @markBlocksAsAccessed c bs now a _ hrun ih =>
    have halike := wp_ok (wp_markBlocksAsAccessed_alike ih.worlds.alloc bs now) hrun
    exact ⟨⟨rfl, halike⟩, ih.tracks⟩
  | @clearCopyOnWrites c cows a _ hrun ih =>
    have hclear : wp PrefixCacheBlockAllocator.clearCopyOnWrites
        (fun _ a' => Alike first num size a' a') (fun _ _ => True) c.world.alloc := by
      simp only [PrefixCacheBlockAllocator.clearCopyOnWrites, wp_bind, wp_get, wp_set, wp_pure]
      exact ih.worlds.alloc.1.alike _ _ ih.worlds.alloc.infos _ _ _ _ _ _
    have halike := wp_ok hclear hrun
    exact ⟨⟨rfl, halike⟩, ih.tracks⟩
  | @resetPrefixCache c r a _ hrun ih =>
    rw [resetPrefixCache_eq] at hrun
    split at hrun <;> cases hrun
    · exact ⟨⟨rfl, ih.worlds.alloc.resetState⟩, ih.tracks⟩
    · exact ⟨⟨rfl, ih.worlds.alloc⟩, ih.tracks⟩

/-! ## Requests and answers -/

/-- Allocations, appends, frees, marks and cache lookups. -/
inductive Request (HashValue : Type)
  | allocateMutableBlock (tokenIds : List TokenId) (prevBlock : Option Ptr) (extraHash : HashValue)
  | allocateImmutableBlock (tokenIds : List TokenId) (prevBlock : Option Ptr)
    (extraHash : HashValue)
  | allocateImmutableBlocks (tokenIds : List (List TokenId)) (prevBlock : Option Ptr)
    (extraHash : HashValue)
  | appendTokenIds (p : Ptr) (tokenIds : List TokenId)
  | free (p : Ptr) (keepBlockObj : Bool)
  | markBlocksAsComputed
  | getNumFreeBlock
  | getCachedBlockNum (hashValues : List HashValue)
  | isBlockComputed (b : BlockId)
  | isBlockCached (prefixHash : HashValue)
  | findCachedBlockPrefix (blockHash : HashValue)
  | findCachedBlocksPrefix (blockHashes : List HashValue)

/-- What an allocation hands out are blocks with the ids they carry; the ids show the hits. -/
inductive Answer
  | blocks (bs : List (Ptr × BlockId))
  | done
  | count (n : Nat)
  | flag (b : Bool)
  | ids (bs : List BlockId)
  deriving DecidableEq

/-- The blocks `ps` with the ids they carry. -/
def withIds (ps : List Ptr) : M HashValue Answer := do
  let w ← get
  return .blocks (ps.map fun p => (p, (w.mem.obj p).blockId))

def Request.exec : Request HashValue → M HashValue Answer
  | allocateMutableBlock tokenIds prevBlock extraHash => do
    let p ← PrefixCacheBlockAllocator.allocateMutableBlock tokenIds prevBlock extraHash
    withIds [p]
  | allocateImmutableBlock tokenIds prevBlock extraHash => do
    let p ← PrefixCacheBlockAllocator.allocateImmutableBlock tokenIds prevBlock extraHash
    withIds [p]
  | allocateImmutableBlocks tokenIds prevBlock extraHash => do
    let ps ← PrefixCacheBlockAllocator.allocateImmutableBlocks tokenIds prevBlock extraHash
    withIds ps
  | appendTokenIds p tokenIds => do
    PrefixCacheBlockAllocator.appendTokenIds p tokenIds
    withIds [p]
  | free p keepBlockObj => do
    PrefixCacheBlockAllocator.free p keepBlockObj
    return .done
  | markBlocksAsComputed => do
    onAlloc PrefixCacheBlockAllocator.markBlocksAsComputed
    return .done
  | getNumFreeBlock => do
    let w ← get
    return .count w.alloc.getNumFreeBlock
  | getCachedBlockNum hashValues => do
    let w ← get
    return .count (w.alloc.getCachedBlockNum hashValues)
  | isBlockComputed b => do
    let computed ← onAlloc (PrefixCacheBlockAllocator.isBlockComputed b)
    return .flag computed
  | isBlockCached prefixHash => do
    let cached ← onAlloc (PrefixCacheBlockAllocator.isBlockCached prefixHash)
    return .flag cached
  | findCachedBlockPrefix blockHash => do
    let found ← onAlloc (PrefixCacheBlockAllocator.findCachedBlockPrefix blockHash)
    return .flag found
  | findCachedBlocksPrefix blockHashes => do
    let bs ← onAlloc (PrefixCacheBlockAllocator.findCachedBlocksPrefix blockHashes)
    return .ids bs

/-- The answers to a sequence of requests; one that throws does not end it. -/
def observe (w : World HashValue (PrefixCacheBlockAllocator HashValue)) :
    List (Request HashValue) → List (Except Exn Answer)
  | [] => []
  | r :: rs =>
    match r.exec w with
    | .ok answer w' => .ok answer :: observe w' rs
    | .error e w' => .error e :: observe w' rs

section Observe

variable {first : BlockId} {num size : Nat}
  {w w' : World HashValue (PrefixCacheBlockAllocator HashValue)}

section

omit [PrefixHasher HashValue] [DecidableEq HashValue]

theorem AlikeWorlds.owned (h : AlikeWorlds first num size w w') :
    AlikeOwned first num size False ∅ w w' :=
  ⟨h, fun hfalse => hfalse.elim⟩

theorem agree_withIds (h : AlikeWorlds first num size w w') (ps : List Ptr) :
    agree (fun _ => AlikeWorlds first num size) (AlikeWorlds first num size)
      (withIds ps : M HashValue Answer) (withIds ps) w w' := by
  unfold withIds
  rw [agree_get_bind, h.mem]
  exact agree_pure h

theorem agree_lookup (h : AlikeWorlds first num size w w') {α : Type} {c : AllocM HashValue α}
    (hc : KeepsAlike first num size c) (f : α → Answer) :
    agree (fun _ => AlikeWorlds first num size) (AlikeWorlds first num size)
      (do let x ← onAlloc c; return f x) (do let x ← onAlloc c; return f x) w w' :=
  agree_bind (KeepsWorlds.onAlloc hc _ h.withPool) fun _ _ _ h => agree_pure h.worlds

end

theorem agree_request (h : AlikeWorlds first num size w w') (r : Request HashValue) :
    agree (fun _ => AlikeWorlds first num size) (AlikeWorlds first num size) r.exec r.exec
      w w' := by
  have ho := h.owned
  cases r with
  | allocateMutableBlock tokenIds prevBlock extraHash =>
    exact agree_bind (agree_allocateMutableBlock ho tokenIds prevBlock extraHash)
      fun p _ _ h => agree_withIds h.1.worlds [p]
  | allocateImmutableBlock tokenIds prevBlock extraHash =>
    exact agree_bind (agree_allocateImmutableBlock ho tokenIds prevBlock extraHash)
      fun p _ _ h => agree_withIds h.1.worlds [p]
  | allocateImmutableBlocks tokenIds prevBlock extraHash =>
    exact agree_bind (agree_allocateImmutableBlocks ho tokenIds prevBlock extraHash)
      fun ps _ _ h => agree_withIds h.worlds ps
  | appendTokenIds p tokenIds =>
    exact agree_bind (KeepsWorlds.appendTokenIds p tokenIds _ h.withPool)
      fun _ _ _ h => agree_withIds h.worlds [p]
  | free p keepBlockObj =>
    exact agree_bind (agree_free ho (fun hfalse => hfalse.elim) keepBlockObj)
      fun _ _ _ h => agree_pure h.worlds
  | markBlocksAsComputed => exact agree_lookup h keepsAlike_markBlocksAsComputed fun _ => .done
  | getNumFreeBlock =>
    unfold Request.exec
    rw [agree_get_bind, h.alloc.getNumFreeBlock]
    exact agree_pure h
  | getCachedBlockNum hashValues =>
    unfold Request.exec
    rw [agree_get_bind, getCachedBlockNum_eq h.alloc]
    exact agree_pure h
  | isBlockComputed b => exact agree_lookup h (keepsAlike_isBlockComputed b) .flag
  | isBlockCached prefixHash => exact agree_lookup h (keepsAlike_isBlockCached prefixHash) .flag
  | findCachedBlockPrefix blockHash =>
    exact agree_lookup h (keepsAlike_findCachedBlockPrefix blockHash) .flag
  | findCachedBlocksPrefix blockHashes =>
    exact agree_lookup h (keepsAlike_findCachedBlocksPrefix blockHashes) .ids

/-- **Alike allocators answer alike**, whatever they are asked. -/
theorem observe_eq (h : AlikeWorlds first num size w w') (rs : List (Request HashValue)) :
    observe w rs = observe w' rs := by
  induction rs generalizing w w' with
  | nil => rfl
  | cons r rs ih =>
    have hr := agree_request h r
    unfold agree at hr
    unfold observe
    cases hw : r.exec w <;> cases hw' : r.exec w' <;> rw [hw, hw'] at hr
    · obtain ⟨rfl, hst⟩ := hr
      exact congrArg _ (ih hst)
    · exact hr.elim
    · exact hr.elim
    · obtain ⟨rfl, hst⟩ := hr
      exact congrArg _ (ih hst)

end Observe

/-! ## True resets -/

/-- Nothing that is asked tells the allocator from a new one. -/
def SameAsFresh (first : BlockId) (num size : Nat) (mem : Mem HashValue)
    (a : PrefixCacheBlockAllocator HashValue) : Prop :=
  ∀ rs, observe ⟨mem, a⟩ rs = observe ⟨mem, .new first num size⟩ rs

/-- Of the blocks handed out from now on two share an id only if they have the same valid prefix
hash, and every id is free, evictable or in use. -/
def OneOwner (first : BlockId) (num : Nat) (mem : Mem HashValue)
    (a : PrefixCacheBlockAllocator HashValue) : Prop :=
  ∀ ops c, (∀ op ∈ ops, op.Plain) → run ⟨⟨mem, a⟩, ∅⟩ ops = some c →
    Partitioned (blockIndices first num) c ∧
    ∀ p ∈ c.live, ∀ q ∈ c.live, p ≠ q →
      (c.world.mem.obj p).blockId = (c.world.mem.obj q).blockId →
      (c.world.mem.obj p).blockId ≠ invalidBlockId →
      (c.world.mem.obj p).cachedPrefixHash = (c.world.mem.obj q).cachedPrefixHash ∧
        (c.world.mem.obj p).cachedPrefixHash ≠ invalidHashValue

/-- If `ResetPrefixCache` returns true then the allocator is as good as new, and if it returns
false then nothing has changed. -/
structure TrueReset (first : BlockId) (num size : Nat) (c : Client HashValue) : Prop where
  fresh : ∀ a, resetPrefixCache c.world.alloc = .ok true a →
    SameAsFresh first num size c.world.mem a ∧ OneOwner first num c.world.mem a
  unchanged : ∀ a, resetPrefixCache c.world.alloc = .ok false a → a = c.world.alloc

section TrueReset

variable {first : BlockId} {num size : Nat} {a : PrefixCacheBlockAllocator HashValue}
  {mem : Mem HashValue}

/-- Nothing is registered, no id is flagged as in use, and none waits for a mark. -/
structure Blank (first : BlockId) (num : Nat) (a : PrefixCacheBlockAllocator HashValue) : Prop where
  cached : ∀ key, a.cachedBlocks key = none
  touched : a.touchedBlocks = []
  inactive : ∀ b ∈ blockIndices first num, (a.blockComputedAttr.blockInfos b).active = false

omit [PrefixHasher HashValue] [DecidableEq HashValue] in
theorem Alike.valid_iff (h : Alike first num size a a) {b : BlockId} :
    a.blockComputedAttr.Valid b ↔ b ∈ blockIndices first num := by
  rw [mem_blockIndices, BlockComputedAttr.Valid, h.infos.beginBlockId, h.infos.numBlocks]

omit [PrefixHasher HashValue] [DecidableEq HashValue] in
theorem Blank.alike (hblank : Blank first num a) (h : Alike first num size a a) :
    Alike first num size a.resetState (.new first num size) := by
  refine ⟨h.resetState.1, .new num first, ⟨0, 0⟩, ?_, ?_⟩
  · have hcached : a.cachedBlocks = fun _ => none := funext hblank.cached
    simp only [PrefixCacheBlockAllocator.resetState, hcached, hblank.touched, h.1.beginBlockId,
      h.1.numBlocks, h.1.blockSize]
    rfl
  · have hinactive : ∀ b, a.blockComputedAttr.Valid b →
        (a.blockComputedAttr.blockInfos b).active = false :=
      fun b hb => hblank.inactive b (h.valid_iff.mp hb)
    refine ⟨h.infos.beginBlockId, h.infos.numBlocks, rfl, rfl, fun b hb => ?_, fun b hb => ?_,
      fun b hb hactive => ?_, h.infos.idle⟩
    · exact (hinactive b hb).symm
    · exact (h.infos.idle b hb (hinactive b hb)).symm
    · exact absurd ((hinactive b hb).symm.trans hactive) Bool.false_ne_true

omit [DecidableEq HashValue] in
theorem Blank.consistent (hblank : Blank first num a) (h : Alike first num size a a)
    (hfirst : 0 ≤ first) : Consistent a.resetState 0 where
  indices := rfl
  begin_nonneg := by
    change 0 ≤ a.beginBlockId
    rw [h.1.beginBlockId]
    exact hfirst
  attr_begin := h.infos.beginBlockId.trans h.1.beginBlockId.symm
  attr_num := h.infos.numBlocks.trans h.1.numBlocks.symm
  refCounts := by simp [PrefixCacheBlockAllocator.resetState, RefCounter.make]
  active b hb := by
    change b ∈ blockIndices a.beginBlockId a.numBlocks at hb
    rw [h.1.beginBlockId, h.1.numBlocks] at hb
    change (a.blockComputedAttr.blockInfos b).active = true ↔ b ∈ (0 : Multiset BlockId)
    simp [hblank.inactive b hb]
  free_nodup := nodup_blockIndices _ _
  free := by simp [PrefixCacheBlockAllocator.resetState, LRUEvictor.new]
  evictor := by simp [PrefixCacheBlockAllocator.resetState, LRUEvictor.new]
  covered := LRUEvictor.covered_new
  cached := by simp [PrefixCacheBlockAllocator.resetState, hblank.cached]
  cached_inj := by simp [PrefixCacheBlockAllocator.resetState, hblank.cached]

theorem Blank.oneOwner (hblank : Blank first num a) (h : Alike first num size a a)
    (hfirst : 0 ≤ first) (hpool : mem.pool.Tracks ∅) : OneOwner first num mem a.resetState := by
  have htidy : Tidy ⟨mem, a.resetState⟩ ∅ :=
    ⟨hpool, hblank.consistent h hfirst, by simp, by simp, by simp⟩
  intro ops c hplain hrun
  obtain ⟨htidy', hshared, hall⟩ := plainRun_safe (.empty _) htidy hplain hrun
  refine ⟨?_, fun p hp q hq hpq heq hne => ?_⟩
  · have hpart := htidy'.partitioned
    rw [hall] at hpart
    change Partitioned (blockIndices a.beginBlockId a.numBlocks) c at hpart
    rwa [h.1.beginBlockId, h.1.numBlocks] at hpart
  · obtain ⟨key, hkey⟩ := hshared.shared p hp q hq hpq heq hne
    have hkp := hshared.registered p hp key hkey
    have hkq := hshared.registered q hq key (heq ▸ hkey)
    exact ⟨hkp.trans hkq.symm, hshared.hash_ne_invalid htidy' hp hkey⟩

/-! ### Telling a reset allocator from a new one -/

/-- An answer that is no exception. -/
def succeeded : Except Exn Answer → Bool
  | .ok _ => true
  | .error _ => false

/-- The request for an empty block. -/
def emptyBlock : Request HashValue := .allocateMutableBlock [] none invalidHashValue

/-- A new allocator hands out as many empty blocks as it has ids. -/
theorem observe_fresh {w : World HashValue (PrefixCacheBlockAllocator HashValue)}
    {live : Finset Ptr} (htidy : Tidy w live) (hpool : 0 < w.mem.pool.poolSize)
    (hsize : 0 < w.alloc.blockSize) {n : Nat} (hn : n ≤ w.alloc.getNumFreeBlock) :
    ∀ x ∈ observe w (List.replicate n emptyBlock), succeeded x = true := by
  induction n generalizing w live with
  | zero => simp [observe]
  | succ n ih =>
    have hroom : Room w live [] none :=
      ⟨by omega, hpool, hsize, by simp, fun q hq => by cases hq⟩
    obtain ⟨p, w₁, hrun, o, hal⟩ := exists_ok (wp_mono (wp_allocateMutableBlock
      (R := fun _ _ => True) htidy.consistent htidy.tracks [] none invalidHashValue)
      (fun _ _ hal => hal) fun _ _ hno => hno hroom)
    have hmoved := hal.moved htidy
    have hconst := IdSteps.const hmoved.steps
    have hfree : w.alloc.getNumFreeBlock ≤ w₁.alloc.getNumFreeBlock + 1 :=
      htidy.consistent.getNumFreeBlock_le (htidy.consistent.idSteps hal.steps) hconst.1
    have hexec : emptyBlock.exec w = .ok (.blocks [(p, (w₁.mem.obj p).blockId)]) w₁ := by
      simp only [emptyBlock, Request.exec, withIds, bind, EStateM.bind, hrun]
      rfl
    intro x hx
    rw [List.replicate_succ, observe, hexec] at hx
    rcases List.mem_cons.mp hx with rfl | hx
    · rfl
    · exact ih hmoved.tidy (hpool.trans_le hal.poolSize) (hconst.2 ▸ hsize) (by omega) x hx

/-- What a run of empty blocks finds on the free list: nothing of it is counted as in use. -/
structure Untaken (w : World HashValue (PrefixCacheBlockAllocator HashValue))
    (free : List BlockId) : Prop where
  size : 0 < w.alloc.blockSize
  free_eq : w.alloc.freeBlockIndices = free
  nodup : free.Nodup
  nonneg : ∀ b ∈ free, 0 ≤ b
  count : ∀ b ∈ free, w.alloc.refCounter.refCounts b = some 0

/-- The hash of a block that is not full is not valid, and asking for it changes nothing else. -/
theorem wp_promoteIfHashed_of_not_full
    {w : World HashValue (PrefixCacheBlockAllocator HashValue)} {p : Ptr}
    (hmemo : (w.mem.obj p).cachedPrefixHash = invalidHashValue)
    (hfull : (w.mem.obj p).isFull = false) :
    wp (promoteIfHashed p) (fun _ w' => w'.alloc = w.alloc) (fun _ _ => True) w := by
  unfold promoteIfHashed
  simp only [wp_bind, wp_zoom, World.memLens_get, World.memLens_put]
  refine wp_mono (PrefixCachingBlockObj.wp_prefixHash p w.mem) ?_ fun _ _ _ => trivial
  rintro key m ⟨hm, hkey, -⟩
  have hinv : key = invalidHashValue := by
    rcases hm.hash p with hsame | ⟨-, hready, -⟩
    · rw [hkey, hsame, hmemo]
    · rw [BlockObj.isFull_of_ready hready] at hfull
      cases hfull
  rw [wp_ite]
  exact ⟨fun hvalid => absurd hinv hvalid, fun _ => rfl⟩

/-- Empty blocks have taken the ids `taken`, none of which was flagged as in use. -/
structure Took (w : World HashValue (PrefixCacheBlockAllocator HashValue)) (taken : List BlockId)
    (w' : World HashValue (PrefixCacheBlockAllocator HashValue)) : Prop where
  inactive : ∀ b ∈ taken, (w.alloc.blockComputedAttr.blockInfos b).active = false
  active : ∀ b ∈ taken, (w'.alloc.blockComputedAttr.blockInfos b).active = true
  computed : ∀ b ∈ taken, (w'.alloc.blockComputedAttr.blockInfos b).computed = false
  others : ∀ b, b ∉ taken →
    w'.alloc.blockComputedAttr.blockInfos b = w.alloc.blockComputedAttr.blockInfos b
  valid : ∀ b, w'.alloc.blockComputedAttr.Valid b ↔ w.alloc.blockComputedAttr.Valid b
  touched : w'.alloc.touchedBlocks = w.alloc.touchedBlocks

/-- An empty block takes the first free id. -/
theorem wp_emptyBlock {w : World HashValue (PrefixCacheBlockAllocator HashValue)} {b : BlockId}
    {rest : List BlockId} (h : Untaken w (b :: rest)) :
    wp emptyBlock.exec (fun _ w' => Took w [b] w' ∧ Untaken w' rest) (fun _ _ => True) w := by
  obtain ⟨hnotMem, hnodup⟩ := List.nodup_cons.mp h.nodup
  have hne : ∀ c ∈ rest, c ≠ b := by
    rintro c hc rfl
    exact hnotMem hc
  have hid : b ≠ invalidBlockId := by
    have := h.nonneg b (by simp)
    simp only [invalidBlockId]
    lia
  simp only [emptyBlock, Request.exec, allocateMutableBlock, allocateBlockId, wp_bind, wp_zoom,
    World.allocLens_get, World.allocLens_put, World.memLens_get, World.memLens_put, wp_get,
    h.free_eq, wp_set, increase, RefCounter.wp_increase, refCounterLens_get, refCounterLens_put,
    h.count b (by simp), trackBlockId, attrLens_get, attrLens_put, wp_pure]
  refine ⟨fun n hn _ => ?_, fun _ => trivial⟩
  obtain rfl := Option.some.inj hn
  rw [BlockComputedAttr.wp_enable]
  refine ⟨fun hv hinactive => ?_, fun _ _ => trivial, fun _ => trivial⟩
  simp only [BlockComputedAttr.setComputed, wp_bind, BlockComputedAttr.wp_isValidBlockId,
    wp_modify, BlockComputedAttr.valid_updateInfo, hv, forall_true_left, not_true_eq_false,
    false_imp_iff, and_true]
  refine wp_mono (wp_self acquireObj w.mem) ?_ fun _ _ _ => trivial
  rintro p m -
  refine wp_mono (PrefixCachingBlockObj.wp_initBlockObj m) ?_ fun _ _ _ => trivial
  rintro _ _ ⟨o, hinit, rfl⟩
  simp only [appendTokenIds, wp_bind, wp_zoom, World.memLens_get, World.memLens_put]
  refine wp_mono (PrefixCachingBlockObj.wp_appendTokenIds p [] _) ?_ fun _ _ _ => trivial
  rintro _ m₁ ⟨o₁, hpush, -, -, hm₁⟩
  rw [Mem.setObj_obj_same] at hpush
  have hid₁ : (m₁.obj p).blockId = b := by
    rw [(hm₁.obj p).blockId, Mem.setObj_obj_same, hpush.blockId, hinit.blockId]
  have hfull₁ : o₁.isFull = false := by
    rw [Bool.eq_false_iff, Ne, BlockObj.isFull_iff, hpush.tokenIds, hinit.tokenIds,
      hpush.blockSize, hinit.blockSize]
    exact h.size.ne
  have hmemo₁ : (m₁.obj p).cachedPrefixHash = invalidHashValue := by
    rcases hm₁.hash p with hsame | ⟨-, hready, -⟩
    · rw [hsame, Mem.setObj_obj_same, hpush.cachedPrefixHash, hinit.cachedPrefixHash]
    · rw [Mem.setObj_obj_same] at hready
      rw [BlockObj.isFull_of_ready hready] at hfull₁
      cases hfull₁
  simp only [cowBlockIfNotAppendable, wp_bind, wp_zoom, wp_load, World.memLens_get,
    World.memLens_put, World.allocLens_get, World.allocLens_put, hid₁, hid, if_false,
    RefCounter.wp_getRefCount, refCounterLens_get, refCounterLens_put, RefCounter.setCount_same]
  refine ⟨fun n hn => ?_, fun _ => trivial⟩
  obtain rfl := Option.some.inj hn
  rw [if_pos (by decide)]
  simp only [wp_pure, HashLessBlockObj.setBlockId, wp_modify, Mem.objAt_get, Mem.objAt_put]
  refine wp_mono (wp_promoteIfHashed_of_not_full (by simpa using hmemo₁) ?_) ?_
    fun _ _ _ => trivial
  · have hfull := (hm₁.obj p).isFull
    rw [Mem.setObj_obj_same, hfull₁] at hfull
    rw [Mem.setObj_obj_same]
    exact hfull
  rintro _ ⟨m₂, _⟩ rfl
  simp only [withIds, wp_bind, wp_get, wp_pure]
  refine ⟨⟨?_, ?_, ?_, fun c hc => ?_, fun c => ?_, rfl⟩,
    ⟨h.size, rfl, hnodup, fun c hc => h.nonneg c (by simp [hc]), fun c hc => ?_⟩⟩
  · simpa using hinactive
  · simp [BlockComputedAttr.updateInfo_blockInfos]
  · simp [BlockComputedAttr.updateInfo_blockInfos]
  · rw [List.mem_singleton] at hc
    rw [BlockComputedAttr.updateInfo_blockInfos, if_neg hc,
      BlockComputedAttr.updateInfo_blockInfos, if_neg hc]
  · rw [BlockComputedAttr.valid_updateInfo, BlockComputedAttr.valid_updateInfo]
  · rw [RefCounter.setCount_ne _ _ (hne c hc)]
    exact h.count c (by simp [hc])

/-- If every free id can be taken by an empty block then all of them have been taken afterwards. -/
theorem exists_took_of_observe {w : World HashValue (PrefixCacheBlockAllocator HashValue)}
    {free : List BlockId} (h : Untaken w free)
    (hall : ∀ x ∈ observe w (List.replicate free.length emptyBlock), succeeded x = true) :
    ∃ w', Took w free w' ∧ ∀ rs, observe w (List.replicate free.length emptyBlock ++ rs) =
      observe w (List.replicate free.length emptyBlock) ++ observe w' rs := by
  induction free generalizing w with
  | nil => exact ⟨w, ⟨by simp, by simp, by simp, fun _ _ => rfl, fun _ => Iff.rfl, rfl⟩,
      fun _ => rfl⟩
  | cons b rest ih =>
    rw [List.length_cons, List.replicate_succ] at hall ⊢
    rw [observe] at hall
    cases hexec : (emptyBlock : Request HashValue).exec w with
    | error e w' =>
      rw [hexec] at hall
      exact absurd (hall _ List.mem_cons_self) Bool.false_ne_true
    | ok answer w₁ =>
      rw [hexec] at hall
      obtain ⟨hone, hrest⟩ := wp_ok (wp_emptyBlock h) hexec
      obtain ⟨w', htook, hobserve⟩ := ih hrest fun x hx => hall x (List.mem_cons_of_mem _ hx)
      have hnotMem := (List.nodup_cons.mp h.nodup).1
      have hne : ∀ c ∈ rest, c ∉ [b] := by
        rintro c hc hcb
        exact hnotMem (List.mem_singleton.mp hcb ▸ hc)
      refine ⟨w', ⟨fun c hc => ?_, fun c hc => ?_, fun c hc => ?_, fun c hc => ?_, fun c =>
        (htook.valid c).trans (hone.valid c), htook.touched.trans hone.touched⟩, fun rs => ?_⟩
      · rcases List.mem_cons.mp hc with rfl | hc
        · exact hone.inactive c (List.mem_singleton_self c)
        · rw [← hone.others c (hne c hc)]
          exact htook.inactive c hc
      · rcases List.mem_cons.mp hc with rfl | hc
        · rw [htook.others c hnotMem]
          exact hone.active c (List.mem_singleton_self c)
        · exact htook.active c hc
      · rcases List.mem_cons.mp hc with rfl | hc
        · rw [htook.others c hnotMem]
          exact hone.computed c (List.mem_singleton_self c)
        · exact htook.computed c hc
      · rw [List.mem_cons, not_or] at hc
        rw [htook.others c hc.2, hone.others c (by simpa using hc.1)]
      · rw [List.cons_append, observe, observe, hexec]
        exact congrArg _ (hobserve rs)

/-! ### Marks that are left over -/

theorem exec_markBlocksAsComputed {w : World HashValue (PrefixCacheBlockAllocator HashValue)}
    (h : ∀ b ∈ w.alloc.touchedBlocks, w.alloc.blockComputedAttr.Valid b) :
    Request.markBlocksAsComputed.exec w = .ok .done ⟨w.mem, w.alloc.marked⟩ := by
  obtain ⟨_, _, hmark, rfl⟩ := exists_ok (wp_mono (wp_markBlocksAsComputed w.alloc)
    (fun _ _ h => h) fun _ _ ⟨b, hb, hnot⟩ => hnot (h b hb))
  simp only [Request.exec, onAlloc, zoom, bind, EStateM.bind, World.allocLens_get, hmark]
  rfl

/-- A mark of an id that the allocator does not have throws. -/
theorem exec_markBlocksAsComputed_throws
    {w : World HashValue (PrefixCacheBlockAllocator HashValue)} {b : BlockId}
    (hb : b ∈ w.alloc.touchedBlocks) (hnot : ¬w.alloc.blockComputedAttr.Valid b) :
    wp Request.markBlocksAsComputed.exec (fun _ _ => False) (fun _ _ => True) w := by
  simp only [Request.exec, onAlloc, wp_bind, wp_zoom, World.allocLens_get,
    PrefixCacheBlockAllocator.markBlocksAsComputed, wp_get]
  refine wp_mono (wp_forM_throws (T := fun _ _ => True)
    (I := fun a => ∀ c, a.blockComputedAttr.Valid c ↔ w.alloc.blockComputedAttr.Valid c)
    (fun _ => Iff.rfl) (fun c a ha => ?_) hb fun a ha => ?_) (fun _ _ h => h.elim)
    fun _ _ _ => trivial
  · simp only [wp_zoom, BlockComputedAttr.setComputed, wp_bind,
      BlockComputedAttr.wp_isValidBlockId, wp_modify, attrLens_get, attrLens_put]
    exact ⟨fun _ c' => (BlockComputedAttr.valid_updateInfo ..).trans (ha c'), fun _ => trivial⟩
  · simp only [wp_zoom, BlockComputedAttr.setComputed, wp_bind,
      BlockComputedAttr.wp_isValidBlockId, wp_modify, attrLens_get]
    exact ⟨fun hvalid => hnot ((ha b).mp hvalid), fun _ => trivial⟩

/-- The flag of an id in use after a mark. -/
theorem exec_isBlockComputed_marked
    {w : World HashValue (PrefixCacheBlockAllocator HashValue)} {b : BlockId}
    (hvalid : w.alloc.blockComputedAttr.Valid b)
    (hactive : (w.alloc.blockComputedAttr.blockInfos b).active = true)
    (hcomputed : (w.alloc.blockComputedAttr.blockInfos b).computed = false) :
    ((Request.isBlockComputed b).exec ⟨w.mem, w.alloc.marked⟩ :
      EStateM.Result Exn (World HashValue (PrefixCacheBlockAllocator HashValue)) Answer) =
      .ok (.flag (decide (b ∈ w.alloc.touchedBlocks))) ⟨w.mem, w.alloc.marked⟩ := by
  have hinfo : w.alloc.marked.blockComputedAttr.blockInfos b =
      if b ∈ w.alloc.touchedBlocks then
        { w.alloc.blockComputedAttr.blockInfos b with computed := true }
      else w.alloc.blockComputedAttr.blockInfos b := rfl
  have hwp : wp (Request.isBlockComputed b).exec
      (fun answer w' => answer = .flag (decide (b ∈ w.alloc.touchedBlocks)) ∧
        w' = ⟨w.mem, w.alloc.marked⟩) (fun _ _ => False) ⟨w.mem, w.alloc.marked⟩ := by
    have hvalid' : w.alloc.marked.blockComputedAttr.Valid b := hvalid
    have hactive' : (w.alloc.marked.blockComputedAttr.blockInfos b).active = true := by
      rw [hinfo]
      split_ifs <;> exact hactive
    simp only [Request.exec, isBlockComputed, BlockComputedAttr.isActive,
      BlockComputedAttr.isComputed, wp_bind, wp_zoom, World.allocLens_get, World.allocLens_put,
      attrLens_get, attrLens_put, BlockComputedAttr.wp_isValidBlockId, wp_get, wp_pure]
    refine ⟨fun _ => ?_, fun hnot => hnot hvalid'⟩
    rw [wp_ite]
    refine ⟨fun _ => ?_, fun hnot => absurd hactive' hnot⟩
    simp only [wp_bind, wp_zoom, attrLens_get, attrLens_put, BlockComputedAttr.wp_isValidBlockId,
      wp_get, wp_pure]
    refine ⟨fun _ => ⟨?_, trivial⟩, fun hnot => hnot hvalid'⟩
    rw [hinfo]
    split_ifs with hb
    · simp [hb]
    · simp [hb, hcomputed]
  obtain ⟨_, _, hexec, rfl, rfl⟩ := exists_ok hwp
  exact hexec

/-- Where nothing tells an allocator from one in which no id waits for a mark, none waits. -/
theorem touchedBlocks_eq_nil_of_observe
    {w w₂ : World HashValue (PrefixCacheBlockAllocator HashValue)} {free : List BlockId}
    (h : Untaken w free) (h₂ : Untaken w₂ free) (htouched₂ : w₂.alloc.touchedBlocks = [])
    (hvalid : ∀ b, w.alloc.blockComputedAttr.Valid b ↔ b ∈ free)
    (hvalid₂ : ∀ b, w₂.alloc.blockComputedAttr.Valid b ↔ b ∈ free)
    (hall : ∀ x ∈ observe w₂ (List.replicate free.length emptyBlock), succeeded x = true)
    (hsame : ∀ rs, observe w rs = observe w₂ rs) : w.alloc.touchedBlocks = [] := by
  obtain ⟨w', htook, hobserve⟩ := exists_took_of_observe h (hsame _ ▸ hall)
  obtain ⟨w₂', htook₂, hobserve₂⟩ := exists_took_of_observe h₂ hall
  have hlater : ∀ rs, observe w' rs = observe w₂' rs := by
    intro rs
    have heq := hsame (List.replicate free.length emptyBlock ++ rs)
    rw [hobserve, hobserve₂, hsame] at heq
    exact List.append_cancel_left heq
  have hmark₂ := exec_markBlocksAsComputed (w := w₂') (by simp [htook₂.touched, htouched₂])
  rw [List.eq_nil_iff_forall_not_mem]
  intro b hb
  rw [← htook.touched] at hb
  -- all ids that wait are ids of the allocator, or the mark would throw
  have hall' : ∀ c ∈ w'.alloc.touchedBlocks, w'.alloc.blockComputedAttr.Valid c := by
    intro c hc
    by_contra hnot
    have hthrows := exec_markBlocksAsComputed_throws hc hnot
    have heq := hlater [.markBlocksAsComputed]
    rw [observe, observe, hmark₂] at heq
    unfold wp at hthrows
    cases hexec : (Request.markBlocksAsComputed : Request HashValue).exec w' with
    | ok answer w'' =>
      rw [hexec] at hthrows
      exact hthrows
    | error e w'' =>
      rw [hexec] at heq
      cases (List.cons.inj heq).1
  have hmark := exec_markBlocksAsComputed hall'
  have hmem : b ∈ free := (hvalid b).mp ((htook.valid b).mp (hall' b hb))
  have heq := hlater [.markBlocksAsComputed, .isBlockComputed b]
  simp only [observe, hmark, hmark₂, exec_isBlockComputed_marked (hall' b hb)
    (htook.active b hmem) (htook.computed b hmem), exec_isBlockComputed_marked
    ((htook₂.valid b).mpr ((hvalid₂ b).mpr hmem)) (htook₂.active b hmem)
    (htook₂.computed b hmem), htook₂.touched, htouched₂] at heq
  simp [hb] at heq

/-- **The reset is a true one exactly when it starts from a blank allocator**: from one that has
no hash registered and no id flagged as in use, or from one that is not reset. -/
theorem trueReset_iff {poolSize : Nat} (hfirst : 0 ≤ first) (hsize : 0 < size)
    (hpool : 0 < poolSize) {c : Client HashValue}
    (h : Reachable (.new first num size poolSize) c) :
    TrueReset first num size c ↔
      (c.world.alloc.getNumTotalBlocks ≤ c.world.alloc.getNumFreeBlock →
        Blank first num c.world.alloc) := by
  have howned := h.owned hpool
  have halike := howned.worlds.alloc
  obtain ⟨htracks, hpos⟩ := howned.tracks trivial
  have hnopool : c.world.mem.pool.Tracks ∅ := htracks.mono (Finset.empty_subset _)
  constructor
  · intro htrue hfree
    obtain ⟨hfresh, -⟩ := htrue.fresh c.world.alloc.resetState
      (by rw [resetPrefixCache_eq, if_pos hfree])
    have htidy : Tidy (⟨c.world.mem, .new first num size⟩ :
        World HashValue (PrefixCacheBlockAllocator HashValue)) ∅ :=
      ⟨hnopool, .new hfirst num size, by simp, by simp, by simp⟩
    -- empty blocks take all ids of a new allocator, so they do here
    have huntaken : Untaken ⟨c.world.mem, c.world.alloc.resetState⟩ (blockIndices first num) := by
      refine ⟨?_, ?_, nodup_blockIndices _ _, fun b hb => ?_, fun b hb => ?_⟩
      · change 0 < c.world.alloc.blockSize
        rwa [halike.1.blockSize]
      · change blockIndices c.world.alloc.beginBlockId c.world.alloc.numBlocks = _
        rw [halike.1.beginBlockId, halike.1.numBlocks]
      · exact hfirst.trans (mem_blockIndices.mp hb).1
      · change (RefCounter.make (blockIndices c.world.alloc.beginBlockId
          c.world.alloc.numBlocks)).refCounts b = some 0
        rw [halike.1.beginBlockId, halike.1.numBlocks]
        simp [RefCounter.make, hb]
    have hnew : Untaken ⟨c.world.mem, .new first num size⟩ (blockIndices first num) :=
      ⟨hsize, rfl, nodup_blockIndices _ _, huntaken.nonneg,
        fun b hb => by simp [new, RefCounter.make, hb]⟩
    have hall := observe_fresh htidy hpos hsize
      (n := (blockIndices first num).length) (by simp [getNumFreeBlock, new])
    refine ⟨fun key => ?_, ?_, ?_⟩
    · -- a hash that is registered counts as a hit
      have hkey := hfresh [.getCachedBlockNum [key]]
      change [Except.ok (Answer.count (c.world.alloc.resetState.getCachedBlockNum [key]))] =
        [Except.ok (Answer.count 0)] at hkey
      simp only [List.cons.injEq, Except.ok.injEq, Answer.count.injEq, and_true,
        getCachedBlockNum, List.length_eq_zero_iff] at hkey
      by_contra hne
      have hsome : (c.world.alloc.resetState.cachedBlocks key).isSome = true :=
        Option.isSome_iff_ne_none.mpr hne
      simp [hsome] at hkey
    · have htouched := touchedBlocks_eq_nil_of_observe huntaken hnew rfl
        (fun b => halike.valid_iff) (fun b => (Alike.new first num size).valid_iff) hall hfresh
      exact htouched
    · obtain ⟨_, htook, -⟩ := exists_took_of_observe huntaken (hfresh _ ▸ hall)
      exact htook.inactive
  · intro hblank
    refine ⟨fun a hrun => ?_, fun a hrun => ?_⟩ <;> rw [resetPrefixCache_eq] at hrun <;>
      split at hrun <;> cases hrun
    · rename_i hfree
      refine ⟨fun rs => ?_, (hblank hfree).oneOwner halike hfirst hnopool⟩
      have hworlds : AlikeWorlds first num size
          (⟨c.world.mem, c.world.alloc.resetState⟩ : World HashValue _)
          ⟨c.world.mem, .new first num size⟩ := ⟨rfl, (hblank hfree).alike halike⟩
      exact observe_eq hworlds rs
    · rfl

/-- Two blocks that are not full have been allocated, and freed before the reset. -/
theorem trueReset_notFull :
    ∃ c, run (.new 0 2 2 4 : Client UInt64)
        [.allocateMutableBlock [7] none 0, .allocateMutableBlock [8] none 0, .free 2 false,
          .free 3 false] = some c ∧
      c.world.alloc.getNumTotalBlocks ≤ c.world.alloc.getNumFreeBlock ∧
      c.world.alloc.freeBlockIndices = [1, 0] ∧ TrueReset 0 2 2 c := by
  have hrest : ((run (.new 0 2 2 4 : Client UInt64)
      [.allocateMutableBlock [7] none 0, .allocateMutableBlock [8] none 0, .free 2 false,
        .free 3 false]).map fun c =>
      (decide (c.world.alloc.getNumTotalBlocks ≤ c.world.alloc.getNumFreeBlock),
        c.world.alloc.freeBlockIndices, c.world.alloc.touchedBlocks,
        decide (∀ b ∈ blockIndices 0 2,
          (c.world.alloc.blockComputedAttr.blockInfos b).active = false))) =
      some (true, [1, 0], [], true) := by
    decide +kernel
  obtain ⟨c, hrun, hc⟩ := Option.map_eq_some_iff.mp hrest
  simp only [Prod.mk.injEq, decide_eq_true_eq] at hc
  obtain ⟨htotal, hfree, htouched, hinactive⟩ := hc
  have htidy : Tidy (Client.new 0 2 2 4 : Client UInt64).world ∅ :=
    ⟨.new 4, .new le_rfl 2 2, by simp, by simp, by simp⟩
  obtain ⟨htidy, -, hall⟩ := plainRun_safe (.empty _) htidy (by simp [Op.Plain]) hrun
  refine ⟨c, hrun, htotal, hfree, ?_⟩
  refine (trueReset_iff le_rfl (by decide) (by decide) (Reachable.refl.run hrun)).mpr fun _ =>
    ⟨fun key => ?_, htouched, hinactive⟩
  -- a registered hash would be that of an id that is not free
  cases hkey : c.world.alloc.cachedBlocks key with
  | none => rfl
  | some b =>
    obtain ⟨hmem, hnot, -⟩ := htidy.consistent.cached key b hkey
    rw [hall] at hmem
    rw [hfree] at hnot
    have hids : ∀ b ∈ blockIndices 0 2, b ∈ ([1, 0] : List BlockId) := by decide
    exact absurd (hids b hmem) hnot

/-- A full block is freed and the allocator reset. The next request for its contents hits the hash
left behind and shares an id that is on the free list, so that the request after that, which is
given the same id, throws. -/
theorem not_trueReset :
    ∃ c, Reachable (.new 0 2 2 4 : Client UInt64) c ∧ ¬TrueReset 0 2 2 c := by
  let alloc : Op UInt64 := .allocateImmutableBlock [1, 2] none 0
  let start : Client UInt64 := .new 0 2 2 4
  let requests : List (Request UInt64) :=
    [.allocateImmutableBlock [1, 2] none 0, .allocateMutableBlock [7] none 0]
  obtain ⟨c, hrun⟩ : ∃ c, run start [alloc, .free 3 false] = some c :=
    Option.isSome_iff_exists.mp (by decide +kernel)
  have hfree : ((run start [alloc, .free 3 false]).map fun c =>
      decide (c.world.alloc.getNumTotalBlocks ≤ c.world.alloc.getNumFreeBlock)) = some true := by
    decide +kernel
  have hobserve : ((run start [alloc, .free 3 false]).map fun c =>
      ((observe ⟨c.world.mem, c.world.alloc.resetState⟩ requests).map succeeded,
        (observe ⟨c.world.mem, .new 0 2 2⟩ requests).map succeeded)) =
      some ([true, false], [true, true]) := by decide +kernel
  rw [hrun, Option.map_some, Option.some.injEq] at hfree hobserve
  refine ⟨c, Reachable.refl.run hrun, fun htrue => ?_⟩
  have hsame := (htrue.fresh c.world.alloc.resetState
    (by rw [resetPrefixCache_eq, if_pos (of_decide_eq_true hfree)])).1 requests
  rw [hsame] at hobserve
  have := (Prod.mk.inj hobserve).1.symm.trans (Prod.mk.inj hobserve).2
  cases this

end TrueReset

end MindieLLM.PrefixCacheBlockAllocator
