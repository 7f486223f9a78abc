import MindieLLM.BlockManager.CopyOnWriteBlocks
import MindieLLM.BlockManager.SwappedIds

/-!
# Swapped blocks

A swap gives the ids of blocks back to one device and takes new ids for them from the other. The
blocks stay as they are otherwise.

## Main definitions

* `Relabels`: blocks get other ids

## Main results

* `wp_swap_relabels`: a swap gives each block an id that nobody has
-/

namespace MindieLLM.HashLessBlockAllocator

open Program CpuNpuBlockAllocator

variable {HashValue : Type}

section Swap

variable {w w' : Devices HashValue} {used : Finset Ptr} {device : DeviceType} {p q : Ptr}
  {blocks rest : List Ptr}

/-- The id of a block is given back. -/
theorem wp_freeBlockId_strips (h : Sound w used) (hp : p ∈ used)
    (hid : (w.mem.obj p).blockId ≠ invalidBlockId)
    (hdevice : deviceOf w (w.mem.obj p).blockId = device) :
    wp (freeBlockId p)
      (fun _ v => Sound (put w device v) used ∧ v.mem = stripped (part w device) p)
      (fun _ _ => False) (part w device) := by
  subst hdevice
  refine wp_mono (wp_freeBlockId (h.consistent_cons hp hid) rfl (h.mem_all hp hid)) ?_
    fun _ _ hfalse => hfalse
  rintro _ v ⟨hmem, hcons, -, hall, -, -⟩
  have hframe : ∀ q, q ≠ p → v.mem.obj q = w.mem.obj q := by
    intro q hq
    rw [hmem, stripped, Mem.setObj_obj_ne _ _ hq]
    rfl
  have hself : v.mem.obj p = { w.mem.obj p with blockId := invalidBlockId } := by
    rw [hmem, stripped, Mem.setObj_obj_same]
    rfl
  have hpool : v.mem.pool = w.mem.pool := by
    rw [hmem]
    rfl
  refine ⟨h.put {(w.mem.obj p).blockId} 0 (carried w.mem (used.erase p)) ?_ ?_ ?_ hall
    (fun _ hc => absurd hc (Multiset.notMem_zero _)) ?_ (hpool ▸ h.tracks)
    (rankIdx_write h.rankIdx hframe (by rw [hself])), hmem⟩
  · rw [carried_erase hp hid, Multiset.singleton_add]
  · intro b hb
    rw [Multiset.mem_singleton.mp hb]
  · rw [carried_erase_invalid hp (by rw [hself]), zero_add]
    exact carried_congr fun q hq =>
      congrArg BlockObj.blockId (hframe q (Finset.ne_of_mem_erase hq))
  · rw [zero_add]
    exact hcons

/-- The blocks have no ids, and stay as they are otherwise. -/
structure Stripped (w : Devices HashValue) (used : Finset Ptr) (blocks : List Ptr)
    (w' : Devices HashValue) : Prop where
  sound : Sound w' used
  frame : ∀ q, q ∉ blocks → w'.mem.obj q = w.mem.obj q
  invalid : ∀ q ∈ blocks, (w'.mem.obj q).blockId = invalidBlockId
  prevBlock : ∀ q, (w'.mem.obj q).prevBlock = (w.mem.obj q).prevBlock

theorem wp_swapOut_strips (h : Sound w used) (hnodup : blocks.Nodup)
    (hblocks : ∀ p ∈ blocks, p ∈ used ∧ (w.mem.obj p).blockId ≠ invalidBlockId ∧
      deviceOf w (w.mem.obj p).blockId = device) :
    wp (swapOut blocks) (fun _ v => Stripped w used blocks (put w device v)) (fun _ _ => True)
      (part w device) := by
  unfold swapOut
  induction blocks generalizing w with
  | nil =>
    rw [wp_forM_nil, put_part]
    exact ⟨h, fun _ _ => rfl, by simp, fun _ => rfl⟩
  | cons p rest ih =>
    obtain ⟨hp, hid, hdevice⟩ := hblocks p List.mem_cons_self
    rw [List.nodup_cons] at hnodup
    rw [wp_forM_cons]
    refine wp_mono (wp_freeBlockId_strips h hp hid hdevice) ?_ fun _ _ _ => trivial
    rintro _ v₁ ⟨hsound, hmem⟩
    have hframe : ∀ q, q ≠ p → v₁.mem.obj q = w.mem.obj q := by
      intro q hq
      rw [hmem, stripped, Mem.setObj_obj_ne _ _ hq]
      rfl
    have hself : v₁.mem.obj p = { w.mem.obj p with blockId := invalidBlockId } := by
      rw [hmem, stripped, Mem.setObj_obj_same]
      rfl
    have hrest := ih hsound hnodup.2 fun q hq => by
      rw [put_mem, deviceOf_put, hframe q fun heq => hnodup.1 (heq ▸ hq)]
      exact hblocks q (List.mem_cons_of_mem p hq)
    rw [part_put] at hrest
    refine wp_mono hrest ?_ fun _ _ h => h
    intro _ v₂ hst
    rw [put_put] at hst
    refine ⟨hst.sound, fun q hq => ?_, fun q hq => ?_, fun q => ?_⟩
    · rw [List.mem_cons, not_or] at hq
      rw [hst.frame q hq.2]
      exact hframe q hq.1
    · by_cases hin : q ∈ rest
      · exact hst.invalid q hin
      · obtain rfl := (List.mem_cons.mp hq).resolve_right hin
        rw [hst.frame q hin, put_mem, hself]
    · rw [hst.prevBlock, put_mem]
      by_cases hq : q = p
      · rw [hq, hself]
      · rw [hframe q hq]

/-- The block `p` gets an id that nobody has. -/
structure Labels (w : Devices HashValue) (used : Finset Ptr) (p : Ptr) (w' : Devices HashValue) :
    Prop where
  sound : Sound w' used
  frame : ∀ q ∈ used, q ≠ p → w'.mem.obj q = w.mem.obj q
  prevBlock : (w'.mem.obj p).prevBlock = (w.mem.obj p).prevBlock
  ne_invalid : (w'.mem.obj p).blockId ≠ invalidBlockId
  unshared : ∀ q ∈ used, q ≠ p → (w.mem.obj q).blockId ≠ (w'.mem.obj p).blockId

/-- The block `p` takes over the id of a new block, which is given back. -/
theorem Owns.labels {tmp : Ptr} {b : BlockId} {m : Mem HashValue}
    {v : World HashValue (HashLessBlockAllocator HashValue)} (h : Sound w used) (hp : p ∈ used)
    (hid : (w.mem.obj p).blockId = invalidBlockId) (htmp : tmp ∉ used)
    (howns : Owns (part w device) (idsOn w device (carried w.mem used)) tmp b v)
    (hcons : Consistent v.alloc (b ::ₘ idsOn w device (carried w.mem used)))
    (hself : m.obj p = { w.mem.obj p with blockId := b })
    (hframe : ∀ q, q ≠ p → q ≠ tmp → m.obj q = w.mem.obj q)
    (hrank : (m.obj tmp).rankIdx = 0) (htracks : m.pool.Tracks used) :
    Labels w used p (put w device ⟨m, v.alloc⟩) := by
  have hb := h.ne_invalid howns.managed
  have hframe' : ∀ q ∈ used, q ≠ p → m.obj q = w.mem.obj q :=
    fun q hq hne => hframe q hne fun heq => htmp (heq ▸ hq)
  have hrank' : ∀ q, (m.obj q).rankIdx = 0 := by
    intro q
    by_cases hq : q = p
    · rw [hq, hself]
      exact h.rankIdx p
    · by_cases hqt : q = tmp
      · rw [hqt, hrank]
      · rw [hframe q hq hqt]
        exact h.rankIdx q
  have hpost : carried m used = {b} + carried w.mem used := by
    rw [carried_erase hp (by rw [hself]; exact hb), carried_erase_invalid hp hid, hself,
      Multiset.singleton_add]
    congr 1
    exact carried_congr fun q hq => congrArg BlockObj.blockId
      (hframe' q (Finset.mem_of_mem_erase hq) (Finset.ne_of_mem_erase hq))
  refine ⟨?_, hframe', by rw [put_mem, hself], by rw [put_mem, hself]; exact hb, ?_⟩
  · refine h.put 0 {b} _ (zero_add _).symm
      (fun _ hc => absurd hc (Multiset.notMem_zero _)) hpost howns.all ?_ ?_ htracks hrank'
    · intro c hc
      rw [Multiset.mem_singleton.mp hc]
      exact howns.managed
    · rw [Multiset.singleton_add]
      exact hcons
  · intro q hq _ heq
    rw [put_mem, hself] at heq
    refine howns.unshared (Multiset.mem_filter.mpr ⟨mem_carried.mpr ⟨hb, q, hq, heq⟩, ?_⟩)
    exact h.located device b howns.managed

variable [PrefixHasher HashValue]

/-- A block without an id gets one. -/
theorem wp_swapInBlock_labels (h : Sound w used) (hp : p ∈ used)
    (hid : (w.mem.obj p).blockId = invalidBlockId) :
    wp (swapInBlock p) (fun _ v => Labels w used p (put w device v)) (fun _ _ => True)
      (part w device) := by
  rw [swapInBlock_eq]
  simp only [wp_bind, wp_zoom, World.memLens_get, World.memLens_put, wp_load, part_mem]
  refine wp_mono (wp_allocateImmutableBlock (h.consistent device) h.tracks _ _) ?_
    fun _ _ _ => trivial
  rintro tmp v₁ ⟨b, htaken, howns, hcons, -⟩
  have htmp : p ≠ tmp := fun heq => htaken.fresh (heq ▸ hp)
  simp only [HashLessBlockObj.setBlockId, HashLessBlockObj.resetBlockId, wp_modify, wp_bind, wp_get,
    Mem.objAt_get, Mem.objAt_put, wp_ite, wp_throw, wp_set, howns.blockId]
  refine ⟨fun _ => trivial, fun _ => ?_⟩
  unfold HashLessBlockAllocator.freeObj
  rw [wp_zoom, World.memLens_get]
  refine wp_mono (wp_freeObj htaken.tracks (Finset.mem_insert_self tmp used)) ?_
    fun _ _ _ => trivial
  rintro _ m ⟨hobj, -, htracks⟩
  rw [Finset.erase_insert htaken.fresh] at htracks
  change Labels w used p (put w device ⟨m, v₁.alloc⟩)
  refine howns.labels h hp hid htaken.fresh hcons ?_ (fun q hq hqt => ?_) ?_ htracks
  · rw [hobj, Function.update_of_ne htmp, Mem.setObj_obj_ne _ _ htmp, Mem.setObj_obj_same,
      howns.frame p htmp]
  · rw [hobj, Function.update_of_ne hqt, Mem.setObj_obj_ne _ _ hqt, Mem.setObj_obj_ne _ _ hq]
    exact howns.frame q hqt
  · rw [hobj, Function.update_self, Mem.setObj_obj_same, Mem.setObj_obj_ne _ _ (Ne.symm htmp)]
    exact howns.rankIdx.trans (h.rankIdx tmp)

/-- Blocks get ids that nobody else has, and stay as they are otherwise. -/
structure Relabels (w : Devices HashValue) (used : Finset Ptr) (blocks : List Ptr)
    (w' : Devices HashValue) : Prop where
  sound : Sound w' used
  frame : ∀ q ∈ used, q ∉ blocks → w'.mem.obj q = w.mem.obj q
  prevBlock : ∀ q ∈ used, (w'.mem.obj q).prevBlock = (w.mem.obj q).prevBlock
  ne_invalid : ∀ p ∈ blocks, (w'.mem.obj p).blockId ≠ invalidBlockId
  unshared : ∀ p ∈ blocks, ∀ q ∈ used, q ≠ p →
    (w'.mem.obj q).blockId ≠ (w'.mem.obj p).blockId

theorem wp_swapIn_labels (h : Sound w used) (hnodup : blocks.Nodup)
    (hblocks : ∀ p ∈ blocks, p ∈ used ∧ (w.mem.obj p).blockId = invalidBlockId) :
    wp (swapIn blocks) (fun _ v => Relabels w used blocks (put w device v)) (fun _ _ => True)
      (part w device) := by
  unfold swapIn
  induction blocks generalizing w with
  | nil =>
    rw [wp_forM_nil, put_part]
    exact ⟨h, fun _ _ _ => rfl, fun _ _ => rfl, by simp, by simp⟩
  | cons p rest ih =>
    obtain ⟨hp, hid⟩ := hblocks p List.mem_cons_self
    rw [List.nodup_cons] at hnodup
    rw [wp_forM_cons]
    refine wp_mono (wp_swapInBlock_labels h hp hid) ?_ fun _ _ _ => trivial
    intro _ v₁ hlabels
    have hrest := ih hlabels.sound hnodup.2 fun q hq => by
      obtain ⟨hused, hinvalid⟩ := hblocks q (List.mem_cons_of_mem p hq)
      refine ⟨hused, ?_⟩
      rw [hlabels.frame q hused fun heq => hnodup.1 (heq ▸ hq), hinvalid]
    rw [part_put] at hrest
    refine wp_mono hrest ?_ fun _ _ h => h
    intro _ v₂ hrel
    rw [put_put] at hrel
    have hself : v₂.mem.obj p = v₁.mem.obj p := hrel.frame p hp hnodup.1
    refine ⟨hrel.sound, fun q hq hno => ?_, fun q hq => ?_, fun q hq => ?_, fun q hq r hr hne => ?_⟩
    · rw [List.mem_cons, not_or] at hno
      rw [hrel.frame q hq hno.2, hlabels.frame q hq hno.1]
    · rw [hrel.prevBlock q hq]
      by_cases hqp : q = p
      · rw [hqp, hlabels.prevBlock]
      · rw [hlabels.frame q hq hqp]
    · rcases List.mem_cons.mp hq with rfl | hq
      · rw [put_mem, hself]
        exact hlabels.ne_invalid
      · exact hrel.ne_invalid q hq
    · rcases List.mem_cons.mp hq with rfl | hq
      · by_cases hmem : r ∈ rest
        · exact fun heq => hrel.unshared r hmem q hp hne.symm heq.symm
        · rw [hrel.frame r hr hmem, hlabels.frame r hr hne, put_mem, hself]
          exact hlabels.unshared r hr hne
      · exact hrel.unshared q hq r hr hne

/-- **A swap** gives each block an id of the other device that nobody has. -/
theorem wp_swap_relabels (h : Sound w used) (hnodup : blocks.Nodup)
    (hblocks : ∀ p ∈ blocks, p ∈ used ∧ (w.mem.obj p).blockId ≠ invalidBlockId)
    (src dst : DeviceType) :
    wp (swap blocks src dst) (fun _ w' => Relabels w used blocks w') (fun _ _ => True) w := by
  unfold swap
  rw [wp_bind, wp_get]
  refine (wp_ite _ _ _).mpr ⟨fun _ => trivial, fun _ => ?_⟩
  dsimp only
  rw [wp_bind, wp_loadIds]
  refine (wp_ite _ _ _).mpr ⟨fun _ => trivial, fun hall => ?_⟩
  have hdevice : ∀ p ∈ blocks, deviceOf w (w.mem.obj p).blockId = src := by
    intro p hp
    by_contra hne
    refine hall (List.any_eq_true.mpr ⟨(w.mem.obj p).blockId, List.mem_map_of_mem hp, ?_⟩)
    exact decide_eq_true hne
  rw [wp_bind]
  refine wp_onAllocator (fun _ => trivial) ?_
  refine wp_mono (wp_swapOut_strips h hnodup fun p hp =>
    ⟨(hblocks p hp).1, (hblocks p hp).2, hdevice p hp⟩) ?_ fun _ _ _ => trivial
  intro _ v₁ hst
  rw [wp_bind]
  refine wp_onAllocator (fun _ => trivial) ?_
  refine wp_mono (wp_swapIn_labels hst.sound hnodup fun p hp =>
    ⟨(hblocks p hp).1, hst.invalid p hp⟩) ?_ fun _ _ _ => trivial
  intro _ v₂ hrel
  rw [wp_bind, wp_loadIds, wp_pure]
  refine ⟨hrel.sound, fun q hq hno => ?_, fun q hq => ?_, hrel.ne_invalid, hrel.unshared⟩
  · rw [hrel.frame q hq hno, hst.frame q hno]
  · rw [hrel.prevBlock q hq, hst.prevBlock]

end Swap

end MindieLLM.HashLessBlockAllocator
