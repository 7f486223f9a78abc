import MindieLLM.BlockManager.RankedBlockIds

/-!
# The ids of swapped blocks

An allocator counts the references of its ids, and it never hands out an id that it does not count.
Which ids it counts is settled when it is constructed. So the blocks of a swap get ids of the other
device, whatever the states of the allocators; besides, they stay as they are.

## Main definitions

* `Reissued`: blocks in use have other ids
* `SwappingAllocator`: the allocators whose swaps do that
* `CpuNpuBlockAllocator.Swapped`: what a swap from one device to another does

## Main results

* The hash-less and the prefix-caching allocator swap so.
* `CpuNpuBlockAllocator.wp_swap`: the mapping of a swap pairs the old ids with the new ones
-/

namespace MindieLLM

open Program

variable {HashValue A : Type}

/-! ## Blocks with other ids -/

/-- The blocks `ps` have other ids; beside memoised hashes nothing else changes of the blocks in
use. -/
structure Reissued (used : Finset Ptr) (ps : List Ptr) (m m' : Mem HashValue) : Prop where
  tracks : m'.pool.Tracks used
  frame : ∀ q ∈ used, q ∉ ps → SameButHash (m.obj q) (m'.obj q)
  self : ∀ q ∈ used, SameButHash { m.obj q with blockId := (m'.obj q).blockId } (m'.obj q)

namespace Reissued

variable {used : Finset Ptr} {p q : Ptr} {ps qs : List Ptr} {m m' m'' : Mem HashValue}

theorem refl (h : m.pool.Tracks used) : Reissued used [] m m :=
  ⟨h, fun _ _ _ => .refl _, fun _ _ => .refl _⟩

theorem trans (h : Reissued used ps m m') (h' : Reissued used qs m' m'') :
    Reissued used (ps ++ qs) m m'' where
  tracks := h'.tracks
  frame q hq hno := by
    rw [List.mem_append, not_or] at hno
    exact (h.frame q hq hno.1).trans (h'.frame q hq hno.2)
  self q hq := by
    have hself := h.self q hq
    have hself' := h'.self q hq
    unfold SameButHash at *
    rw [hself', hself]

theorem tokenIds (h : Reissued used ps m m') (hq : q ∈ used) :
    (m'.obj q).tokenIds = (m.obj q).tokenIds := (h.self q hq).tokenIds

theorem rankIdx (h : Reissued used ps m m') (hq : q ∈ used) :
    (m'.obj q).rankIdx = (m.obj q).rankIdx := (h.self q hq).rankIdx

theorem of_relabelled (h : Relabelled p m m') (htracks : m.pool.Tracks used) :
    Reissued used [p] m m' where
  tracks := h.pool ▸ htracks
  frame q _ hno := h.frame q fun heq => hno (heq ▸ List.mem_singleton_self q)
  self q _ := by
    by_cases hq : q = p
    · rw [hq]
      exact h.self
    · rw [(h.frame q hq).blockId]
      exact h.frame q hq

end Reissued

/-- What a program does that gives the blocks `ps` other ids; the allocator counts the ids it did
before. -/
structure Reissues (counts : A → BlockId → Prop) (used : Finset Ptr) (ps : List Ptr)
    (w w' : World HashValue A) : Prop extends Reissued used ps w.mem w'.mem where
  counts : SameIds counts w.alloc w'.alloc

/-- The ids of the blocks `ps` are ids of the allocator. -/
def Issued (counts : A → BlockId → Prop) (ps : List Ptr) (w : World HashValue A) : Prop :=
  ∀ p ∈ ps, counts w.alloc (w.mem.obj p).blockId

theorem Reissues.trans {counts : A → BlockId → Prop} {used : Finset Ptr} {ps qs : List Ptr}
    {w w' w'' : World HashValue A} (h : Reissues counts used ps w w')
    (h' : Reissues counts used qs w' w'') : Reissues counts used (ps ++ qs) w w'' :=
  ⟨h.toReissued.trans h'.toReissued, h.counts.trans h'.counts⟩

/-- A block takes over the id of a new one, which is given back. -/
theorem Entered.wp_freeObj_reissues {counts : A → BlockId → Prop} {used : Finset Ptr} {p tmp : Ptr}
    {w w₁ : World HashValue A} {m : Mem HashValue}
    {reset : BlockObj HashValue → BlockObj HashValue} (h : Entered w.mem used tmp w₁.mem)
    (hreg : Registers counts tmp w w₁) (hp : p ∈ used) (hpool : m.pool = w₁.mem.pool)
    (hself : m.obj p = { w₁.mem.obj p with blockId := (w₁.mem.obj tmp).blockId })
    (hframe : ∀ q, q ≠ p → q ≠ tmp → m.obj q = w₁.mem.obj q) :
    wp (freeObj reset tmp) (fun _ m' => Reissues counts used [p] w ⟨m', w₁.alloc⟩ ∧
      Issued counts [p] ⟨m', w₁.alloc⟩) (fun _ _ => True) m := by
  refine wp_mono (wp_freeObj (hpool ▸ h.tracks) (Finset.mem_insert_self tmp used)) ?_
    fun _ _ _ => trivial
  rintro _ m₂ ⟨hobj, -, htracks⟩
  rw [Finset.erase_insert h.fresh] at htracks
  have hsame : ∀ q ∈ used, m₂.obj q = m.obj q := by
    intro q hq
    have hne : q ≠ tmp := fun heq => h.fresh (heq ▸ hq)
    rw [hobj, Function.update_of_ne hne]
  have hrest : ∀ q ∈ used, q ≠ p → SameButHash (w.mem.obj q) (m₂.obj q) := by
    intro q hq hne
    rw [hsame q hq, hframe q hne fun heq => h.fresh (heq ▸ hq)]
    exact h.frame q hq
  have hid : (m₂.obj p).blockId = (w₁.mem.obj tmp).blockId := by rw [hsame p hp, hself]
  refine ⟨⟨⟨htracks, fun q hq hno => ?_, fun q hq => ?_⟩, hreg.ids⟩, fun q hq => ?_⟩
  · exact hrest q hq fun heq => hno (heq ▸ List.mem_singleton_self q)
  · by_cases hqp : q = p
    · subst hqp
      have hq' := h.frame q hq
      rw [hid, hsame q hq, hself]
      unfold SameButHash at *
      rw [hq']
    · rw [(hrest q hq hqp).blockId]
      exact hrest q hq hqp
  · obtain rfl := List.mem_singleton.mp hq
    exact hid.symm ▸ hreg.counted

section Loops

variable {counts : A → BlockId → Prop} {used : Finset Ptr} {ps : List Ptr}
  {f : Ptr → WorldM HashValue A Unit} {w : World HashValue A}

theorem wp_forM_reissues
    (hf : ∀ w p, w.mem.pool.Tracks used → p ∈ used →
      wp (f p) (fun _ w' => Reissues counts used [p] w w') (fun _ _ => True) w)
    (htracks : w.mem.pool.Tracks used) (hps : ∀ p ∈ ps, p ∈ used) :
    wp (forM ps f) (fun _ w' => Reissues counts used ps w w') (fun _ _ => True) w := by
  induction ps generalizing w with
  | nil =>
    rw [wp_forM_nil]
    exact ⟨.refl htracks, fun _ => Iff.rfl⟩
  | cons p rest ih =>
    rw [wp_forM_cons]
    refine wp_mono (hf w p htracks (hps p List.mem_cons_self)) ?_ fun _ _ h => h
    intro _ w₁ h₁
    refine wp_mono (ih h₁.tracks fun q hq => hps q (List.mem_cons_of_mem p hq)) ?_ fun _ _ h => h
    exact fun _ w₂ h₂ => h₁.trans h₂

/-- A loop over programs that give one block another id each. -/
theorem wp_forM_relabels (hf : ∀ p, Within (RelabelledIn counts p) (f p))
    (htracks : w.mem.pool.Tracks used) (hps : ∀ p ∈ ps, p ∈ used) :
    wp (forM ps f) (fun _ w' => Reissues counts used ps w w') (fun _ _ => True) w := by
  refine wp_forM_reissues (fun w p htracks _ => ?_) htracks hps
  exact wp_mono (hf p w) (fun _ _ h => ⟨.of_relabelled h.mem htracks, h.ids⟩) fun _ _ h => h

/-- A block that comes up again later gets an id of the allocator then. -/
theorem wp_forM_issues
    (hf : ∀ w p, w.mem.pool.Tracks used → p ∈ used →
      wp (f p) (fun _ w' => Reissues counts used [p] w w' ∧ Issued counts [p] w')
        (fun _ _ => True) w)
    (htracks : w.mem.pool.Tracks used) (hps : ∀ p ∈ ps, p ∈ used) :
    wp (forM ps f) (fun _ w' => Reissues counts used ps w w' ∧ Issued counts ps w')
      (fun _ _ => True) w := by
  induction ps generalizing w with
  | nil =>
    rw [wp_forM_nil]
    exact ⟨⟨.refl htracks, fun _ => Iff.rfl⟩, fun p hp => absurd hp List.not_mem_nil⟩
  | cons p rest ih =>
    have hp := hps p List.mem_cons_self
    rw [wp_forM_cons]
    refine wp_mono (hf w p htracks hp) ?_ fun _ _ h => h
    rintro _ w₁ ⟨h₁, hissued₁⟩
    refine wp_mono (ih h₁.tracks fun q hq => hps q (List.mem_cons_of_mem p hq)) ?_ fun _ _ h => h
    rintro _ w₂ ⟨h₂, hissued₂⟩
    refine ⟨h₁.trans h₂, fun q hq => ?_⟩
    by_cases hrest : q ∈ rest
    · exact hissued₂ q hrest
    · obtain rfl := (List.mem_cons.mp hq).resolve_right hrest
      rw [(h₂.frame q hp hrest).blockId, h₂.counts]
      exact hissued₁ q (List.mem_singleton_self q)

end Loops

/-- An allocator whose swaps give blocks other ids, and counted ones when they are swapped in. -/
class SwappingAllocator (HashValue : outParam Type) (A : Type) [BlockAllocator HashValue A] where
  Counts : A → BlockId → Prop
  counts_new : ∀ {beginBlockId b : BlockId} {numBlocks blockSize : ℕ},
    Counts (BlockAllocator.new beginBlockId numBlocks blockSize) b ↔
      b ∈ blockIndices beginBlockId numBlocks
  wp_swapOut : ∀ {w : World HashValue A} {used : Finset Ptr} {blocks : List Ptr},
    w.mem.pool.Tracks used → (∀ p ∈ blocks, p ∈ used) →
    wp (BlockAllocator.swapOut blocks) (fun _ w' => Reissues Counts used blocks w w')
      (fun _ _ => True) w
  wp_swapIn : ∀ {w : World HashValue A} {used : Finset Ptr} {blocks : List Ptr},
    w.mem.pool.Tracks used → (∀ p ∈ blocks, p ∈ used) →
    wp (BlockAllocator.swapIn blocks)
      (fun _ w' => Reissues Counts used blocks w w' ∧ Issued Counts blocks w') (fun _ _ => True) w

/-! ## Without prefix caching -/

namespace HashLessBlockAllocator

variable {w : World HashValue (HashLessBlockAllocator HashValue)} {used : Finset Ptr} {p : Ptr}

variable [PrefixHasher HashValue]

/-- A full block is allocated like any other one, empty at first. -/
theorem swapInBlock_eq (p : Ptr) :
    swapInBlock p = (do
      let o ← onMem (load p)
      let tmp ← allocateImmutableBlock o.tokenIds o.prevBlock
      let b := (← onMem (load tmp)).blockId
      onMem (withObj p (HashLessBlockObj.setBlockId b))
      onMem (withObj tmp HashLessBlockObj.resetBlockId)
      HashLessBlockAllocator.freeObj tmp : M HashValue Unit) := by
  unfold swapInBlock
  congr 1
  funext o
  split_ifs
  · rfl
  · simp [allocateImmutableBlock]

theorem wp_swapInBlock_reissues (htracks : w.mem.pool.Tracks used) (hp : p ∈ used) :
    wp (swapInBlock p) (fun _ w' => Reissues Counts used [p] w w' ∧ Issued Counts [p] w')
      (fun _ _ => True) w := by
  rw [swapInBlock_eq]
  simp only [wp_bind, wp_zoom, World.memLens_get, World.memLens_put, wp_load]
  refine wp_mono (wp_allocateImmutableBlock_entered htracks _ _) ?_ fun _ _ h => h
  rintro tmp w₁ ⟨hentered, hreg⟩
  have hne : p ≠ tmp := fun heq => hentered.fresh (heq ▸ hp)
  simp only [HashLessBlockObj.setBlockId, HashLessBlockObj.resetBlockId, wp_modify, wp_bind, wp_get,
    Mem.objAt_get, Mem.objAt_put, wp_ite, wp_throw, wp_set]
  refine ⟨fun _ => trivial, fun _ => ?_⟩
  unfold HashLessBlockAllocator.freeObj
  rw [wp_zoom, World.memLens_get]
  refine hentered.wp_freeObj_reissues hreg hp rfl ?_ fun q hq hqt => ?_
  · rw [Mem.setObj_obj_ne _ _ hne, Mem.setObj_obj_same]
  · rw [Mem.setObj_obj_ne _ _ hqt, Mem.setObj_obj_ne _ _ hq]

instance : SwappingAllocator HashValue (HashLessBlockAllocator HashValue) where
  Counts := Counts
  counts_new := RefCounter.counts_make
  wp_swapOut htracks hblocks := wp_forM_relabels within_freeBlockId htracks hblocks
  wp_swapIn htracks hblocks :=
    wp_forM_issues (fun _ _ htracks hp => wp_swapInBlock_reissues htracks hp) htracks hblocks

end HashLessBlockAllocator

/-! ## Prefix caching -/

namespace PrefixCacheBlockAllocator

variable [DecidableEq HashValue] [PrefixHasher HashValue]
  {w : World HashValue (PrefixCacheBlockAllocator HashValue)} {used : Finset Ptr} {p : Ptr}

/-- The block that a block is swapped in with. -/
def swapTarget (o : BlockObj HashValue) : M HashValue Ptr :=
  if o.isFull then allocateImmutableBlock o.tokenIds o.prevBlock o.extraHash
  else allocateMutableBlock o.tokenIds o.prevBlock o.extraHash

theorem swapInBlock_eq (p : Ptr) :
    swapInBlock p = (do
      let o ← onMem (load p)
      let tmp ← swapTarget o
      let b := (← onMem (load tmp)).blockId
      onMem (withObj p (HashLessBlockObj.setBlockId b))
      freeObj tmp : M HashValue Unit) := by
  unfold swapInBlock swapTarget
  congr 1
  funext o
  split_ifs
  · rfl
  · rfl

theorem wp_swapTarget (o : BlockObj HashValue) (htracks : w.mem.pool.Tracks used) :
    wp (swapTarget o) (fun p w' => Entered w.mem used p w'.mem ∧ Registers Counts p w w')
      (fun _ _ => True) w := by
  unfold swapTarget
  split_ifs
  · exact wp_allocateImmutableBlock_entered htracks _ _ _
  · exact wp_allocateMutableBlock_entered htracks _ _ _

theorem wp_swapInBlock_reissues (htracks : w.mem.pool.Tracks used) (hp : p ∈ used) :
    wp (swapInBlock p) (fun _ w' => Reissues Counts used [p] w w' ∧ Issued Counts [p] w')
      (fun _ _ => True) w := by
  rw [swapInBlock_eq]
  simp only [wp_bind, wp_zoom, World.memLens_get, World.memLens_put, wp_load]
  refine wp_mono (wp_swapTarget _ htracks) ?_ fun _ _ h => h
  rintro tmp w₁ ⟨hentered, hreg⟩
  have hne : p ≠ tmp := fun heq => hentered.fresh (heq ▸ hp)
  unfold freeObj
  simp only [HashLessBlockObj.setBlockId, wp_modify, Mem.objAt_get, Mem.objAt_put, wp_zoom,
    World.memLens_get]
  refine hentered.wp_freeObj_reissues hreg hp rfl ?_ fun q hq _ => ?_
  · rw [Mem.setObj_obj_same]
  · rw [Mem.setObj_obj_ne _ _ hq]

instance : SwappingAllocator HashValue (PrefixCacheBlockAllocator HashValue) where
  Counts := Counts
  counts_new := RefCounter.counts_make
  wp_swapOut htracks hblocks := wp_forM_relabels within_freeBlockId htracks hblocks
  wp_swapIn htracks hblocks :=
    wp_forM_issues (fun _ _ htracks hp => wp_swapInBlock_reissues htracks hp) htracks hblocks

end PrefixCacheBlockAllocator

/-! ## From one device to another -/

namespace CpuNpuBlockAllocator

open BlockTable (idsOf)

theorem wp_loadIds {w : World HashValue (CpuNpuBlockAllocator A)} (blocks : List Ptr)
    {Q : List BlockId → World HashValue (CpuNpuBlockAllocator A) → Prop}
    {T : Exn → World HashValue (CpuNpuBlockAllocator A) → Prop} :
    wp (blocks.mapM fun p => do return (← onMem (load p)).blockId) Q T w ↔
      Q (idsOf w.mem blocks) w := by
  induction blocks generalizing Q with
  | nil => rfl
  | cons p rest ih =>
    rw [List.mapM_cons]
    simp only [wp_bind, wp_zoom, World.memLens_get, World.memLens_put, wp_load, wp_pure, ih, idsOf,
      List.map_cons]

variable [BlockAllocator HashValue A] [SwappingAllocator HashValue A]
  {w w₁ w₂ : World HashValue (CpuNpuBlockAllocator A)} {used : Finset Ptr} {blocks : List Ptr}

/-- The allocators are the same ones, and each counts the ids that it did. -/
structure SameDevices (s s' : CpuNpuBlockAllocator A) : Prop where
  rankSize : s'.rankSize = s.rankSize
  beginCpuBlockId : s'.beginCpuBlockId = s.beginCpuBlockId
  counts : ∀ device r b, SwappingAllocator.Counts (s'.allocators device r) b ↔
    SwappingAllocator.Counts (s.allocators device r) b

namespace SameDevices

variable {s s' s'' : CpuNpuBlockAllocator A}

theorem refl (s : CpuNpuBlockAllocator A) : SameDevices s s := ⟨rfl, rfl, fun _ _ _ => Iff.rfl⟩

theorem trans (h : SameDevices s s') (h' : SameDevices s' s'') : SameDevices s s'' :=
  ⟨h'.rankSize.trans h.rankSize, h'.beginCpuBlockId.trans h.beginCpuBlockId,
    fun device r b => (h'.counts device r b).trans (h.counts device r b)⟩

theorem deviceType (h : SameDevices s s') (b : BlockId) :
    s'.getDeviceTypeForBlockId b = s.getDeviceTypeForBlockId b := by
  unfold getDeviceTypeForBlockId
  rw [h.beginCpuBlockId]

theorem physical (h : SameDevices s s') (b : BlockId) :
    s'.getPhysicalBlockId b = s.getPhysicalBlockId b := by
  unfold getPhysicalBlockId
  rw [h.deviceType, h.beginCpuBlockId]

theorem setAllocator {device : DeviceType} {r : ℕ} {a : A}
    (h : ∀ b, SwappingAllocator.Counts a b ↔ SwappingAllocator.Counts (s.allocators device r) b) :
    SameDevices s (s.setAllocator device r a) := by
  refine ⟨rfl, rfl, fun device' r' b => ?_⟩
  unfold CpuNpuBlockAllocator.setAllocator
  by_cases hdevice : device' = device
  · subst hdevice
    by_cases hr : r' = r
    · subst hr
      simp [h]
    · simp [Function.update_of_ne hr]
  · simp [Function.update_of_ne hdevice]

end SameDevices

/-- What a swap does: the mapping pairs the ids of the blocks on the source device with those of the
target device. -/
structure Swapped (used : Finset Ptr) (blocks : List Ptr) (src dst : DeviceType)
    (mapping : List (BlockId × BlockId)) (w w' : World HashValue (CpuNpuBlockAllocator A)) :
    Prop extends Reissued used blocks w.mem w'.mem where
  single : w.alloc.rankSize = 1
  source : ∀ b ∈ idsOf w.mem blocks, w.alloc.getDeviceTypeForBlockId b = src
  target : ∀ b ∈ idsOf w'.mem blocks, SwappingAllocator.Counts (w.alloc.allocators dst 0) b
  devices : SameDevices w.alloc w'.alloc
  mapping : mapping = (idsOf w.mem blocks).zip (idsOf w'.mem blocks)

theorem wp_onAllocator_reissues {device : DeviceType} {c : WorldM HashValue A Unit}
    {P : World HashValue A → Prop}
    (hc : wp c (fun _ v => Reissues SwappingAllocator.Counts used blocks
        ((allocatorLens device 0).get w) v ∧ P v) (fun _ _ => True)
      ((allocatorLens device 0).get w)) :
    wp (onAllocator device 0 c) (fun _ w' => Reissued used blocks w.mem w'.mem ∧
      SameDevices w.alloc w'.alloc ∧ P ⟨w'.mem, w'.alloc.allocators device 0⟩)
      (fun _ _ => True) w := by
  unfold onAllocator
  simp only [wp_bind, wp_get]
  refine (wp_ite _ _ _).mpr ⟨fun _ => ?_, fun _ => ?_⟩
  · cases device <;> trivial
  · rw [wp_zoom]
    refine wp_mono hc ?_ fun _ _ h => h
    rintro _ v ⟨hreissues, hP⟩
    refine ⟨hreissues.toReissued, .setAllocator hreissues.counts, ?_⟩
    have hv : (allocatorLens device 0).get ((allocatorLens device 0).put v w) = v :=
      (allocatorLens device 0).get_put v w
    change P ((allocatorLens device 0).get ((allocatorLens device 0).put v w))
    rw [hv]
    exact hP

/-- **A swap** gives the blocks ids of the target device and leaves them as they are otherwise. -/
theorem wp_swap (htracks : w.mem.pool.Tracks used) (hblocks : ∀ p ∈ blocks, p ∈ used)
    (src dst : DeviceType) :
    wp (swap blocks src dst) (fun mapping w' => Swapped used blocks src dst mapping w w')
      (fun _ _ => True) w := by
  unfold swap
  rw [wp_bind, wp_get]
  refine (wp_ite _ _ _).mpr ⟨fun _ => trivial, fun hsingle => ?_⟩
  dsimp only
  rw [wp_bind, wp_loadIds]
  refine (wp_ite _ _ _).mpr ⟨fun _ => trivial, fun hall => ?_⟩
  have hsource : ∀ b ∈ idsOf w.mem blocks, w.alloc.getDeviceTypeForBlockId b = src := by
    intro b hb
    by_contra hne
    exact hall (List.any_eq_true.mpr ⟨b, hb, decide_eq_true hne⟩)
  rw [wp_bind]
  have hout := SwappingAllocator.wp_swapOut (w := (allocatorLens src 0).get w) htracks hblocks
  refine wp_mono (wp_onAllocator_reissues (P := fun _ => True)
    (wp_mono hout (fun _ _ h => ⟨h, trivial⟩) fun _ _ h => h)) ?_ fun _ _ h => h
  rintro _ w₁ ⟨hout, hdevices₁, -⟩
  rw [wp_bind]
  refine wp_mono (wp_onAllocator_reissues
    (SwappingAllocator.wp_swapIn (w := (allocatorLens dst 0).get w₁) hout.tracks hblocks)) ?_
    fun _ _ h => h
  rintro _ w₂ ⟨hin, hdevices₂, hissued⟩
  rw [wp_bind, wp_loadIds, wp_pure]
  have hboth := hout.trans hin
  refine ⟨⟨hboth.tracks, fun q hq hno => ?_, hboth.self⟩, not_not.mp hsingle, hsource,
    fun b hb => ?_, hdevices₁.trans hdevices₂, rfl⟩
  · exact hboth.frame q hq fun hmem => hno ((List.mem_append.mp hmem).elim id id)
  · obtain ⟨p, hp, rfl⟩ := List.mem_map.mp hb
    rw [← hdevices₁.counts dst 0, ← hdevices₂.counts dst 0]
    exact hissued p hp

end CpuNpuBlockAllocator

end MindieLLM
