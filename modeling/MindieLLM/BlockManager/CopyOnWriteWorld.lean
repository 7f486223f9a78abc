import MindieLLM.Program.CopyOnWrite
import MindieLLM.BlockManager.LawfulBlockAllocator
import MindieLLM.BlockManager.CpuNpuBlockAllocator

/-!
# Blocks that share ids

With one rank, each device has one hash-less allocator. The blocks in use carry ids of one device or
the other; the allocator of the device counts how many blocks carry an id. Writing to a block and
taking a new one are the steps of copy on write, with the ids as labels.

## Main definitions

* `Sound w used`: the allocators agree with the ids that the blocks in use carry
* `sharing w used`: the blocks in use as objects that share labels
* `Appends`, `Takes`: what an append and an allocation do

## Main results

* `wp_appendTokenIds_appends`: an append writes to one block, or throws and changes nothing
* `wp_allocateMutableBlock_takes`: an allocation takes a block
-/

namespace MindieLLM.HashLessBlockAllocator

open Program CpuNpuBlockAllocator

variable {HashValue : Type}

/-- The hash-less allocators of the devices, and the memory. -/
abbrev Devices (HashValue : Type) :=
  World HashValue (CpuNpuBlockAllocator (HashLessBlockAllocator HashValue))

/-- The device that an id belongs to. -/
abbrev deviceOf (w : Devices HashValue) (b : BlockId) : DeviceType :=
  w.alloc.getDeviceTypeForBlockId b

/-- The ids that belong to a device. -/
def idsOn (w : Devices HashValue) (device : DeviceType) (ids : Multiset BlockId) :
    Multiset BlockId :=
  ids.filter fun b => deviceOf w b = device

/-- The allocators agree with the ids that the blocks in use carry. -/
structure Sound (w : Devices HashValue) (used : Finset Ptr) : Prop where
  tracks : w.mem.pool.Tracks used
  rankIdx : ∀ p, (w.mem.obj p).rankIdx = 0
  consistent : ∀ device,
    Consistent (w.alloc.allocators device 0) (idsOn w device (carried w.mem used))
  located : ∀ device, ∀ b ∈ (w.alloc.allocators device 0).allBlockIndices, deviceOf w b = device
  managed : ∀ b ∈ carried w.mem used,
    b ∈ (w.alloc.allocators (deviceOf w b) 0).allBlockIndices

/-- The copies noted so far, by the trackers of both devices. -/
def copies (w : Devices HashValue) : Multiset (BlockId × BlockId) :=
  ↑(w.alloc.allocators .npu 0).cowTracker.copyOnWrites +
    ↑(w.alloc.allocators .cpu 0).cowTracker.copyOnWrites

/-- The blocks in use as objects that share labels. -/
def sharing (w : Devices HashValue) (used : Finset Ptr) : Sharing Ptr BlockId TokenId where
  lost := invalidBlockId
  used := used
  label p := (w.mem.obj p).blockId
  contents p := (w.mem.obj p).tokenIds
  capacity p := (w.mem.obj p).blockSize
  copies := copies w

/-- One allocator does something. -/
def put (w : Devices HashValue) (device : DeviceType)
    (v : World HashValue (HashLessBlockAllocator HashValue)) : Devices HashValue :=
  (allocatorLens device 0).put v w

/-- The memory with one allocator. -/
def part (w : Devices HashValue) (device : DeviceType) :
    World HashValue (HashLessBlockAllocator HashValue) :=
  (allocatorLens device 0).get w

section Put

variable {w : Devices HashValue} {device device' : DeviceType}
  {v v' : World HashValue (HashLessBlockAllocator HashValue)}

@[simp] theorem put_mem : (put w device v).mem = v.mem := rfl

@[simp] theorem part_mem : (part w device).mem = w.mem := rfl

@[simp] theorem part_put : part (put w device v) device = v := (allocatorLens device 0).get_put v w

@[simp] theorem put_part : put w device (part w device) = w := (allocatorLens device 0).put_get w

@[simp] theorem put_put : put (put w device v) device v' = put w device v' :=
  (allocatorLens device 0).put_put v' v w

@[simp] theorem put_allocators : (put w device v).alloc.allocators device 0 = v.alloc := by
  simp [put, allocatorLens, setAllocator]

theorem put_allocators_ne (h : device' ≠ device) :
    (put w device v).alloc.allocators device' 0 = w.alloc.allocators device' 0 := by
  simp [put, allocatorLens, setAllocator, Function.update_of_ne h]

@[simp] theorem deviceOf_put (b : BlockId) : deviceOf (put w device v) b = deviceOf w b := rfl

@[simp] theorem idsOn_put (ids : Multiset BlockId) :
    idsOn (put w device v) device' ids = idsOn w device' ids := rfl

/-- The copies stay as they are as long as the tracker does. -/
theorem copies_put (h : v.alloc.cowTracker = (w.alloc.allocators device 0).cowTracker) :
    copies (put w device v) = copies w := by
  cases device <;> simp [copies, put, allocatorLens, setAllocator, h]

theorem copies_put_recordCow {b c : BlockId}
    (h : v.alloc.cowTracker = (w.alloc.allocators device 0).cowTracker.recordCow b c) :
    copies (put w device v) = (b, c) ::ₘ copies w := by
  have hcoe : ∀ xs : List (BlockId × BlockId),
      ((xs ++ [(b, c)] : List (BlockId × BlockId)) : Multiset (BlockId × BlockId)) =
        (b, c) ::ₘ (xs : Multiset (BlockId × BlockId)) := by
    intro xs
    rw [← Multiset.coe_add, Multiset.coe_singleton, add_comm, Multiset.singleton_add]
  cases device <;>
    simp [copies, put, allocatorLens, setAllocator, h, CopyOnWriteTracker.recordCow, hcoe]

/-- An operation of one allocator; there may be no such allocator. -/
theorem wp_onAllocator {α : Type} {c : M HashValue α} {Q : α → Devices HashValue → Prop}
    {T : Exn → Devices HashValue → Prop} (hthrow : ∀ e, T e w)
    (h : wp c (fun a v => Q a (put w device v)) (fun e v => T e (put w device v))
      (part w device)) :
    wp (onAllocator device 0 c) Q T w := by
  unfold onAllocator
  simp only [wp_bind, wp_get]
  refine (wp_ite _ _ _).mpr ⟨fun _ => ?_, fun _ => ?_⟩
  · cases device <;> exact hthrow _
  · exact (wp_zoom _ _).mpr h

end Put

namespace Sound

variable {w : Devices HashValue} {used used' : Finset Ptr} {device : DeviceType}
  {v : World HashValue (HashLessBlockAllocator HashValue)} {pre post rest : Multiset BlockId}
  {p q : Ptr} {b : BlockId}

theorem idsOn_of_forall {ids : Multiset BlockId} (h : ∀ b ∈ ids, deviceOf w b = device) :
    idsOn w device ids = ids := Multiset.filter_eq_self.mpr h

theorem idsOn_of_ne {device' : DeviceType} {ids : Multiset BlockId}
    (h : ∀ b ∈ ids, deviceOf w b = device) (hne : device' ≠ device) :
    idsOn w device' ids = 0 :=
  Multiset.filter_eq_nil.mpr fun b hb heq => hne (heq.symm.trans (h b hb))

theorem idsOn_add (ids ids' : Multiset BlockId) :
    idsOn w device (ids + ids') = idsOn w device ids + idsOn w device ids' :=
  Multiset.filter_add _ _ _

/-- The allocator of a device agrees with the ids `pre` of the device and the others. -/
theorem at_device (h : Sound w used) (hpre : carried w.mem used = pre + rest)
    (hdevice : ∀ b ∈ pre, deviceOf w b = device) :
    Consistent (part w device).alloc (pre + idsOn w device rest) := by
  have hcons := h.consistent device
  rwa [hpre, idsOn_add, idsOn_of_forall hdevice] at hcons

/-- The ids `pre` of a device are replaced by the ids `post` of it. -/
theorem put (h : Sound w used) (pre post rest : Multiset BlockId)
    (hpre : carried w.mem used = pre + rest)
    (hdevice : ∀ b ∈ pre, deviceOf w b = device)
    (hpost : carried v.mem used' = post + rest)
    (hall : v.alloc.allBlockIndices = (part w device).alloc.allBlockIndices)
    (hmanaged : ∀ b ∈ post, b ∈ (part w device).alloc.allBlockIndices)
    (hcons : Consistent v.alloc (post + idsOn w device rest)) (htracks : v.mem.pool.Tracks used')
    (hrank : ∀ p, (v.mem.obj p).rankIdx = 0) :
    Sound (HashLessBlockAllocator.put w device v) used' := by
  have hpostdevice : ∀ b ∈ post, deviceOf w b = device :=
    fun b hb => h.located device b (hmanaged b hb)
  have hall' : ∀ device', ((HashLessBlockAllocator.put w device v).alloc.allocators
      device' 0).allBlockIndices = (w.alloc.allocators device' 0).allBlockIndices := by
    intro device'
    by_cases heq : device' = device
    · subst heq
      rw [put_allocators]
      exact hall
    · rw [put_allocators_ne heq]
  refine ⟨htracks, hrank, fun device' => ?_, fun device' b hb => ?_, fun b hb => ?_⟩
  · rw [put_mem, idsOn_put, hpost, idsOn_add]
    by_cases heq : device' = device
    · subst heq
      rw [put_allocators, idsOn_of_forall hpostdevice]
      exact hcons
    · have hcons' := h.consistent device'
      rw [hpre, idsOn_add, idsOn_of_ne hdevice heq] at hcons'
      rw [put_allocators_ne heq, idsOn_of_ne hpostdevice heq]
      exact hcons'
  · rw [hall'] at hb
    exact h.located device' b hb
  · rw [hall', deviceOf_put]
    rw [put_mem, hpost, Multiset.mem_add] at hb
    rcases hb with hb | hb
    · rw [hpostdevice b hb]
      exact hmanaged b hb
    · exact h.managed b (by rw [hpre]; exact Multiset.mem_add.mpr (.inr hb))

/-- New allocators agree with there being no blocks in use. -/
theorem new [PrefixHasher HashValue] {config : AllocatorConfig}
    (hw : CpuNpuBlockAllocator.new config = .ok w) : Sound w ∅ := by
  unfold CpuNpuBlockAllocator.new at hw
  split_ifs at hw with hzero
  obtain rfl := Except.ok.inj hw
  refine ⟨.new _, fun _ => rfl, fun device => ?_, fun device b hb => ?_, fun b hb => ?_⟩
  · cases device
    · exact Consistent.new (by positivity) _ _
    · exact Consistent.new le_rfl _ _
  · cases device
    · have hge := (mem_blockIndices.mp hb).1
      exact if_neg (by simpa using hge)
    · have hlt := (mem_blockIndices.mp hb).2
      exact if_pos (by simpa using hlt)
  · simp [carried] at hb

theorem ne_invalid (h : Sound w used) (hb : b ∈ (part w device).alloc.allBlockIndices) :
    b ≠ invalidBlockId := (h.consistent device).ne_invalid hb

/-- The id of a block in use is managed. -/
theorem mem_all (h : Sound w used) (hp : p ∈ used)
    (hid : (w.mem.obj p).blockId ≠ invalidBlockId) :
    (w.mem.obj p).blockId ∈
      (part w (deviceOf w (w.mem.obj p).blockId)).alloc.allBlockIndices :=
  h.managed _ (mem_carried.mpr ⟨hid, p, hp, rfl⟩)

/-- The allocator of a block in use, with the id of the block set apart. -/
theorem consistent_cons (h : Sound w used) (hp : p ∈ used)
    (hid : (w.mem.obj p).blockId ≠ invalidBlockId) :
    Consistent (part w (deviceOf w (w.mem.obj p).blockId)).alloc ((w.mem.obj p).blockId ::ₘ
      idsOn w (deviceOf w (w.mem.obj p).blockId) (carried w.mem (used.erase p))) := by
  rw [← Multiset.singleton_add]
  refine h.at_device ?_ fun b hb => by rw [Multiset.mem_singleton.mp hb]
  rw [carried_erase hp hid, Multiset.singleton_add]

/-- An id of the device is shared with another block if the allocator counts it for another. -/
theorem mem_idsOn_iff (h : Sound w used) (hb : b ∈ (part w device).alloc.allBlockIndices) :
    b ∈ idsOn w device (carried w.mem (used.erase p)) ↔ (sharing w used).Shared p b := by
  rw [idsOn, Multiset.mem_filter, mem_carried]
  constructor
  · rintro ⟨⟨-, q, hq, hid⟩, -⟩
    exact ⟨q, Finset.mem_of_mem_erase hq, Finset.ne_of_mem_erase hq, hid⟩
  · rintro ⟨q, hq, hne, hid⟩
    exact ⟨⟨h.ne_invalid hb, q, Finset.mem_erase.mpr ⟨hne, hq⟩, hid⟩, h.located device b hb⟩

end Sound

/-! ## Writing to a block -/

/-- Tokens are appended to the block `p`. -/
structure Appends (w : Devices HashValue) (used : Finset Ptr) (p : Ptr) (tokens : List TokenId)
    (w' : Devices HashValue) : Prop where
  sound : Sound w' used
  wrote : (sharing w used).Wrote p tokens (sharing w' used)
  frame : ∀ q, q ≠ p → w'.mem.obj q = w.mem.obj q
  prevBlock : (w'.mem.obj p).prevBlock = (w.mem.obj p).prevBlock

section Append

variable {w : Devices HashValue} {used : Finset Ptr} {device : DeviceType} {p : Ptr}
  {tokens : List TokenId} {b c : BlockId}
  {v : World HashValue (HashLessBlockAllocator HashValue)}

/-- What the object says about an append, whatever becomes of the id. -/
theorem Appends.of_pushed (hp : p ∈ used) (hne : tokens ≠ [])
    (hid : (w.mem.obj p).blockId ≠ invalidBlockId)
    (hpushed : Pushed { w.mem.obj p with blockId := c } tokens (v.mem.obj p))
    (hmem : v.mem = w.mem.setObj p (v.mem.obj p)) (hsound : Sound (put w device v) used)
    (hrelabelled : (sharing w used).Relabelled p (w.mem.obj p).blockId
      (sharing (put w device v) used)) :
    Appends w used p tokens (put w device v) := by
  have hframe : ∀ q, q ≠ p → v.mem.obj q = w.mem.obj q := by
    intro q hq
    rw [hmem, Mem.setObj_obj_ne _ _ hq]
  have hfits : ((w.mem.obj p).tokenIds ++ tokens).length ≤ (w.mem.obj p).blockSize := by
    have hle := (v.mem.obj p).tokenIds_le
    rwa [hpushed.tokenIds, hpushed.blockSize] at hle
  rw [List.length_append] at hfits
  refine ⟨hsound, ⟨hp, hne, hid, hfits, rfl, rfl, hpushed.tokenIds, hrelabelled,
    fun q hq => congrArg BlockObj.blockId (hframe q hq),
    fun q hq => congrArg BlockObj.tokenIds (hframe q hq), ?_⟩, hframe, hpushed.prevBlock⟩
  funext q
  change (v.mem.obj q).blockSize = (w.mem.obj q).blockSize
  by_cases hq : q = p
  · rw [hq, hpushed.blockSize]
  · rw [hframe q hq]

/-- The ids that the blocks in use carry when one of them has another id. -/
theorem carried_write (hp : p ∈ used) (hframe : ∀ q, q ≠ p → v.mem.obj q = w.mem.obj q)
    (hid : (v.mem.obj p).blockId = c) (hc : c ≠ invalidBlockId) :
    carried v.mem used = {c} + carried w.mem (used.erase p) := by
  rw [carried_erase hp (hid ▸ hc), hid, Multiset.singleton_add]
  congr 1
  exact carried_congr fun q hq => congrArg BlockObj.blockId (hframe q (Finset.ne_of_mem_erase hq))

theorem rankIdx_write (hrank : ∀ p, (w.mem.obj p).rankIdx = 0)
    (hframe : ∀ q, q ≠ p → v.mem.obj q = w.mem.obj q)
    (hp : (v.mem.obj p).rankIdx = (w.mem.obj p).rankIdx) (q : Ptr) :
    (v.mem.obj q).rankIdx = 0 := by
  by_cases hq : q = p
  · rw [hq, hp, hrank]
  · rw [hframe q hq, hrank]

/-- An append that gives the block the id `c`. -/
theorem Appended.appends (h : Sound w used) (hp : p ∈ used) (hne : tokens ≠ [])
    (hid : (w.mem.obj p).blockId = b) (hb : b ∈ (part w device).alloc.allBlockIndices)
    (happ : Appended (part w device) (idsOn w device (carried w.mem (used.erase p))) p b tokens c
      v) :
    Appends w used p tokens (put w device v) := by
  have hframe : ∀ q, q ≠ p → v.mem.obj q = w.mem.obj q := by
    intro q hq
    rw [happ.mem, Mem.setObj_obj_ne _ _ hq]
    rfl
  have hbv := h.ne_invalid hb
  have hcv := h.ne_invalid happ.managed
  have hpost := carried_write hp hframe happ.pushed.blockId hcv
  have hpool : v.mem.pool = w.mem.pool := by
    rw [happ.mem]
    rfl
  have hsound : Sound (put w device v) used := by
    refine h.put {b} {c} (carried w.mem (used.erase p)) ?_ ?_ hpost
      happ.all ?_ ?_ (hpool ▸ h.tracks) (rankIdx_write h.rankIdx hframe happ.pushed.rankIdx)
    · rw [carried_erase hp (hid ▸ hbv), hid, Multiset.singleton_add]
    · intro b' hb'
      rw [Multiset.mem_singleton.mp hb']
      exact h.located device b hb
    · intro c' hc'
      rw [Multiset.mem_singleton.mp hc']
      exact happ.managed
    · rw [Multiset.singleton_add]
      exact happ.consistent
  refine Appends.of_pushed hp hne (hid ▸ hbv) happ.pushed happ.mem hsound ?_
  rw [hid]
  by_cases hown : b ∈ idsOn w device (carried w.mem (used.erase p))
  · obtain ⟨hcown, htracker⟩ := happ.copied hown
    have hlabel : (sharing (put w device v) used).label p = c := happ.pushed.blockId
    refine .copied ((h.mem_idsOn_iff hb).mp hown) (hlabel ▸ hcv) ?_ ?_
    · rw [hlabel]
      exact fun hshared => hcown ((h.mem_idsOn_iff happ.managed).mpr hshared)
    · rw [hlabel]
      exact copies_put_recordCow htracker
  · obtain ⟨hcb, halloc⟩ := happ.kept hown
    refine .kept (fun hshared => hown ((h.mem_idsOn_iff hb).mpr hshared)) ?_ (copies_put ?_)
    · exact happ.pushed.blockId.trans hcb
    · rw [halloc]
      rfl

/-- An append that leaves the block without an id. -/
theorem Stranded.appends (h : Sound w used) (hp : p ∈ used) (hne : tokens ≠ [])
    (hid : (w.mem.obj p).blockId = b) (hb : b ∈ (part w device).alloc.allBlockIndices)
    (hpushed : Pushed { w.mem.obj p with blockId := invalidBlockId } tokens (v.mem.obj p))
    (hmem : v.mem = w.mem.setObj p (v.mem.obj p))
    (hst : Stranded (part w device) (idsOn w device (carried w.mem (used.erase p))) b v) :
    Appends w used p tokens (put w device v) := by
  have hframe : ∀ q, q ≠ p → v.mem.obj q = w.mem.obj q := by
    intro q hq
    rw [hmem, Mem.setObj_obj_ne _ _ hq]
  have hbv := h.ne_invalid hb
  have hpool : v.mem.pool = w.mem.pool := by
    rw [hmem]
    rfl
  have hpost : carried v.mem used = 0 + carried w.mem (used.erase p) := by
    rw [carried_erase_invalid hp hpushed.blockId, zero_add]
    exact carried_congr fun q hq =>
      congrArg BlockObj.blockId (hframe q (Finset.ne_of_mem_erase hq))
  have hsound : Sound (put w device v) used := by
    refine h.put {b} 0 (carried w.mem (used.erase p)) ?_ ?_ hpost
      hst.all (fun _ hc => absurd hc (Multiset.notMem_zero _)) ?_ (hpool ▸ h.tracks)
      (rankIdx_write h.rankIdx hframe hpushed.rankIdx)
    · rw [carried_erase hp (hid ▸ hbv), hid, Multiset.singleton_add]
    · intro b' hb'
      rw [Multiset.mem_singleton.mp hb']
      exact h.located device b hb
    · rw [zero_add]
      exact hst.consistent
  refine Appends.of_pushed hp hne (hid ▸ hbv) hpushed hmem hsound ?_
  rw [hid]
  exact .lost ((h.mem_idsOn_iff hb).mp hst.shared) hpushed.blockId (copies_put hst.cowTracker)

variable [PrefixHasher HashValue]

/-- **An append writes to one block**, or throws and changes nothing. If it returns then the block
has an id. -/
theorem wp_appendTokenIds_appends (h : Sound w used) (hp : p ∈ used) (hne : tokens ≠ []) :
    wp (CpuNpuBlockAllocator.appendTokenIds p tokens)
      (fun _ w' => Appends w used p tokens w' ∧ (w'.mem.obj p).blockId ≠ invalidBlockId)
      (fun _ w' => w' = w ∨ Appends w used p tokens w') w := by
  unfold CpuNpuBlockAllocator.appendTokenIds onAllocatorOf locate
  simp only [wp_bind, wp_zoom, World.memLens_get, World.memLens_put, wp_load, wp_get, wp_pure,
    h.rankIdx p]
  refine wp_onAllocator (fun _ => .inl rfl) ?_
  by_cases hid : (w.mem.obj p).blockId = invalidBlockId
  · change wp (HashLessBlockAllocator.appendTokenIds p tokens) _ _ _
    unfold HashLessBlockAllocator.appendTokenIds HashLessBlockObj.appendTokenIds
    simp only [wp_bind, wp_zoom, wp_get, World.memLens_get, World.memLens_put, Mem.objAt_get,
      Mem.objAt_put, part_mem, wp_ite, wp_throw, hid, forall_true_left, not_true_eq_false,
      false_imp_iff, and_true]
    have hset : w.mem.setObj p (w.mem.obj p) = w.mem := (Mem.objAt p).put_get w.mem
    rw [hset]
    exact .inl put_part
  · have hb := h.mem_all hp hid
    refine wp_mono (wp_appendTokenIds (h.consistent_cons hp hid) rfl hb tokens) ?_ ?_
    · rintro _ v ⟨c, happ⟩
      refine ⟨happ.appends h hp hne rfl hb, ?_⟩
      rw [put_mem, happ.pushed.blockId]
      exact h.ne_invalid happ.managed
    · rintro _ v (⟨rfl, -⟩ | ⟨hpushed, hmem, hst⟩)
      · exact .inl put_part
      · exact .inr (hst.appends h hp hne rfl hb hpushed hmem)

end Append

/-! ## Taking a block -/

/-- The block `p` comes into use, with an id that nobody has. -/
structure Takes (w : Devices HashValue) (used : Finset Ptr) (p : Ptr) (prev : Option Ptr)
    (w' : Devices HashValue) : Prop where
  sound : Sound w' (insert p used)
  took : (sharing w used).Took p (sharing w' (insert p used))
  frame : ∀ q, q ≠ p → w'.mem.obj q = w.mem.obj q
  prevBlock : (w'.mem.obj p).prevBlock = prev

section Take

variable {w : Devices HashValue} {used : Finset Ptr} {device : DeviceType} {p : Ptr}
  {tokens : List TokenId} {prev : Option Ptr} {b : BlockId}
  {v : World HashValue (HashLessBlockAllocator HashValue)}

theorem Owns.takes (h : Sound w used)
    (htaken : Taken w.mem used tokens prev p v.mem)
    (howns : Owns (part w device) (idsOn w device (carried w.mem used)) p b v)
    (hcons : Consistent v.alloc (b ::ₘ idsOn w device (carried w.mem used))) :
    Takes w used p prev (put w device v) := by
  have hbv := h.ne_invalid howns.managed
  have hold : carried v.mem used = carried w.mem used := carried_congr fun q hq =>
    congrArg BlockObj.blockId (howns.frame q fun heq => htaken.fresh (heq ▸ hq))
  have hpost : carried v.mem (insert p used) = {b} + carried w.mem used := by
    rw [carried_insert htaken.fresh (howns.blockId ▸ hbv), howns.blockId, hold,
      Multiset.singleton_add]
  have hsound : Sound (put w device v) (insert p used) := by
    refine h.put 0 {b} _ (zero_add _).symm
      (fun _ hc => absurd hc (Multiset.notMem_zero _)) hpost howns.all ?_ ?_ htaken.tracks ?_
    · intro c hc
      rw [Multiset.mem_singleton.mp hc]
      exact howns.managed
    · rw [Multiset.singleton_add]
      exact hcons
    · exact rankIdx_write h.rankIdx howns.frame howns.rankIdx
  refine ⟨hsound, ⟨htaken.fresh, rfl, fun q => Finset.mem_insert, ?_, ?_, ?_, ?_, ?_,
    copies_put howns.cowTracker⟩, howns.frame, htaken.prevBlock⟩
  · change (v.mem.obj p).blockId ≠ invalidBlockId
    rwa [howns.blockId]
  · rintro ⟨q, hq, -, hid⟩
    change (w.mem.obj q).blockId = (v.mem.obj p).blockId at hid
    rw [howns.blockId] at hid
    refine howns.unshared (Multiset.mem_filter.mpr ⟨mem_carried.mpr ⟨hbv, q, hq, hid⟩, ?_⟩)
    exact h.located device b howns.managed
  · exact fun q hq => congrArg BlockObj.blockId (howns.frame q hq)
  · exact fun q hq => congrArg BlockObj.tokenIds (howns.frame q hq)
  · exact fun q hq => congrArg BlockObj.blockSize (howns.frame q hq)

/-- A block of rank 0 that is given the rank 0. -/
theorem wp_setRankIdx {Q : Unit → Devices HashValue → Prop} {T : Exn → Devices HashValue → Prop}
    (hrank : (w.mem.obj p).rankIdx = 0) :
    wp (onMem (withObj p (HashLessBlockObj.setRankIdx 0))) Q T w ↔ Q () w := by
  have hset : w.mem.setObj p { w.mem.obj p with rankIdx := 0 } = w.mem := by
    rw [← hrank]
    exact (Mem.objAt p).put_get w.mem
  simp only [wp_zoom, World.memLens_get, World.memLens_put, HashLessBlockObj.setRankIdx, wp_modify,
    Mem.objAt_get, Mem.objAt_put, hset]

variable [PrefixHasher HashValue]

/-- A block is taken; if none is left for an empty one then nothing changes. -/
theorem wp_allocateMutableBlock_takes (h : Sound w used) (tokens : List TokenId)
    (prev : Option Ptr) (extraHash : HashValue) :
    wp (CpuNpuBlockAllocator.allocateMutableBlock device tokens prev extraHash 0)
      (fun p w' => Takes w used p prev w')
      (fun _ w' => used.Nonempty → tokens = [] → w' = w) w := by
  unfold CpuNpuBlockAllocator.allocateMutableBlock
  rw [wp_bind]
  refine wp_onAllocator (fun _ _ _ => rfl) ?_
  refine wp_mono (wp_allocateMutableBlock (h.consistent device) h.tracks tokens prev) ?_ ?_
  · rintro p v ⟨b, htaken, howns, hcons, -⟩
    have htakes := howns.takes h htaken hcons
    rw [wp_bind, wp_setRankIdx (htakes.sound.rankIdx p)]
    exact htakes
  · rintro _ v (⟨-, rfl⟩ | hpool | hsize) ⟨q, hq⟩ hnil
    · exact put_part
    · have hlt := h.tracks.used_lt q hq
      exact absurd (hlt.trans_eq hpool) (Nat.not_lt_zero q)
    · rw [hnil] at hsize
      exact absurd hsize (Nat.not_lt_zero _)

end Take

end MindieLLM.HashLessBlockAllocator
