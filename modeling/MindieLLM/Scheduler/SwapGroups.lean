import MindieLLM.BlockManager.SwappedIds
import MindieLLM.Scheduler.SelfAttnManager

/-!
# A group that is swapped out and in again

`SwapOut` swaps every group of a parallel sampling out, while `SwapIn` swaps the root in, once for
each of them. So what comes back is the sequence of the root, with the tokens it had, and the other
sequences stay on the host.

## Main definitions

* `SelfAttnBlockManager.Housed`: the blocks of the tables are in use
* `SelfAttnBlockManager.Retained`: the sequences keep their blocks and the tokens in them
* `PolicyHelper.Restored`: every sequence that has not finished is back
* `PolicyHelper.Meanwhile`: what may happen between the two calls

## Main results

* `PolicyHelper.restored_iff`: when a group is restored
-/

namespace MindieLLM

open Program

variable {HashValue A : Type}

/-! ## The tables -/

namespace SelfAttnBlockManager

/-- The blocks that the table of a sequence lists. -/
def blocksOf (s : SelfAttnBlockManager HashValue A) (seqId : SequenceId) : List Ptr :=
  ((s.seqId2BlockTable seqId).map BlockTable.getBlockObjs).getD []

/-- The tokens in the blocks of a sequence. -/
def heldTokens (s : SelfAttnBlockManager HashValue A) (seqId : SequenceId) : List (List TokenId) :=
  (s.blocksOf seqId).map fun p => (s.world.mem.obj p).tokenIds

/-- The ids of the blocks of a sequence. -/
def heldIds (s : SelfAttnBlockManager HashValue A) (seqId : SequenceId) : List BlockId :=
  BlockTable.idsOf s.world.mem (s.blocksOf seqId)

/-- The physical ids of the blocks of a sequence in one state, with those in another. -/
def copiesOf (s s' : SelfAttnBlockManager HashValue A) (seqId : SequenceId) :
    List (BlockId × BlockId) :=
  ((s.heldIds seqId).zip (s'.heldIds seqId)).map fun (src, dst) =>
    (s.world.alloc.getPhysicalBlockId src, s.world.alloc.getPhysicalBlockId dst)

theorem wp_onTable {α : Type} {seqId : SequenceId} {c : BlockTable.TableM HashValue A α}
    {s : SelfAttnBlockManager HashValue A} {Q : α → SelfAttnBlockManager HashValue A → Prop}
    (h : ∀ t, s.seqId2BlockTable seqId = some t →
      wp c (fun a v => Q a { s.setTable seqId (some v.table) with world := v.world })
        (fun _ _ => True) ⟨t, s.world⟩) :
    wp (onTable seqId c) Q (fun _ _ => True) s := by
  unfold wp onTable
  cases ht : s.seqId2BlockTable seqId with
  | none => trivial
  | some t =>
    have hc := h t ht
    unfold wp at hc
    dsimp only
    cases hrun : c ⟨t, s.world⟩ with
    | ok a v =>
      rw [hrun] at hc
      exact hc
    | error e v => trivial

variable [BlockAllocator HashValue A] [SwappingAllocator HashValue A]
  {s s' s'' : SelfAttnBlockManager HashValue A} {used : Finset Ptr}

/-- The blocks of the tables are in use, and the allocator of the NPU counts ids of the NPU. -/
structure Housed (s : SelfAttnBlockManager HashValue A) (used : Finset Ptr) : Prop where
  tracks : s.world.mem.pool.Tracks used
  rankSize : ∀ seqId t, s.seqId2BlockTable seqId = some t → t.rankSize = s.world.alloc.rankSize
  blocks : ∀ seqId, ∀ p ∈ s.blocksOf seqId, p ∈ used
  npu : ∀ b, SwappingAllocator.Counts (s.world.alloc.allocators .npu 0) b →
    s.world.alloc.getDeviceTypeForBlockId b = .npu

/-- The sequences keep their blocks and the tokens in them. -/
structure Retained (used : Finset Ptr) (s s' : SelfAttnBlockManager HashValue A) : Prop where
  housed : s'.Housed used
  blocks : ∀ seqId, s'.blocksOf seqId = s.blocksOf seqId
  tokens : ∀ p ∈ used, (s'.world.mem.obj p).tokenIds = (s.world.mem.obj p).tokenIds

theorem Retained.refl (h : s.Housed used) : Retained used s s :=
  ⟨h, fun _ => rfl, fun _ _ => rfl⟩

theorem Retained.trans (h : Retained used s s') (h' : Retained used s' s'') :
    Retained used s s'' :=
  ⟨h'.housed, fun seqId => (h'.blocks seqId).trans (h.blocks seqId),
    fun p hp => (h'.tokens p hp).trans (h.tokens p hp)⟩

theorem Retained.heldTokens (h : Retained used s s') (seqId : SequenceId) :
    s'.heldTokens seqId = s.heldTokens seqId := by
  unfold SelfAttnBlockManager.heldTokens
  rw [h.blocks]
  apply List.map_congr_left
  intro p hp
  exact h.tokens p (h.housed.blocks seqId p ((h.blocks seqId).symm ▸ hp))

/-- The blocks of a single rank are listed in the order in which they are given. -/
theorem getBlockObjs_listing {t : BlockTable} (hrank : t.rankSize = 1) {m : Mem HashValue}
    {ps : List Ptr} (hps : ∀ p ∈ ps, (m.obj p).rankIdx < t.rankSize) :
    (BlockTable.listing t m ps).getBlockObjs = ps := by
  change (List.range t.rankSize).flatMap (fun r => ps.filter fun p => (m.obj p).rankIdx = r) = ps
  rw [hrank, List.range_one, List.flatMap_singleton, List.filter_eq_self]
  intro p hp
  have hlt := hps p hp
  rw [hrank] at hlt
  exact decide_eq_true (Nat.lt_one_iff.mp hlt)

omit [BlockAllocator HashValue A] [SwappingAllocator HashValue A] in
theorem blocksOf_setTable (s : SelfAttnBlockManager HashValue A) (seqId seqId' : SequenceId)
    (t : BlockTable) (w : World HashValue (CpuNpuBlockAllocator A)) :
    blocksOf { s.setTable seqId (some t) with world := w } seqId' =
      if seqId' = seqId then t.getBlockObjs else s.blocksOf seqId' := by
  unfold blocksOf setTable
  by_cases hseq : seqId' = seqId
  · subst hseq
    simp
  · simp [hseq]

/-- What the swap of one sequence does. -/
structure SwapsSeq (used : Finset Ptr) (seqId : SequenceId) (src dst : DeviceType)
    (mapping : List (BlockId × BlockId)) (s s' : SelfAttnBlockManager HashValue A) : Prop extends
    Retained used s s' where
  devices : CpuNpuBlockAllocator.SameDevices s.world.alloc s'.world.alloc
  source : ∀ b ∈ s.heldIds seqId, s.world.alloc.getDeviceTypeForBlockId b = src
  target : ∀ b ∈ s'.heldIds seqId, SwappingAllocator.Counts (s.world.alloc.allocators dst 0) b
  mapping : mapping = copiesOf s s' seqId

/-- **A sequence is swapped**: its table lists the same blocks with the same tokens. -/
theorem wp_swapSeqs_singleton (h : s.Housed used) (seq : Sequence HashValue)
    (src dst : DeviceType) :
    wp (swapSeqs src dst [seq]) (fun mapping s' => SwapsSeq used seq.seqId src dst mapping s s')
      (fun _ _ => True) s := by
  simp only [swapSeqs, wp_bind, wp_pure, wp_get, List.append_nil]
  refine wp_onTable fun t ht => ?_
  have hblocks : s.blocksOf seq.seqId = t.getBlockObjs := by
    unfold blocksOf
    rw [ht]
    rfl
  have hused : ∀ p ∈ t.getBlockObjs, p ∈ used := fun p hp =>
    h.blocks seq.seqId p (hblocks.symm ▸ hp)
  simp only [wp_bind, wp_get, wp_zoom, BlockTable.worldLens_get, BlockTable.worldLens_put]
  refine wp_mono (CpuNpuBlockAllocator.wp_swap h.tracks hused src dst) ?_ fun _ _ h => h
  intro mapping w hswap
  refine wp_mono (BlockTable.wp_update_returns t.getBlockObjs) ?_ fun _ _ h => h
  rintro _ _ ⟨hrank, rfl⟩
  have hsize : t.rankSize = 1 := (h.rankSize seq.seqId t ht).trans hswap.single
  have hlisting := getBlockObjs_listing hsize (m := w.mem) hrank
  have hsame : ∀ seqId, blocksOf { s.setTable seq.seqId
      (some (BlockTable.listing t w.mem t.getBlockObjs)) with world := w } seqId =
      s.blocksOf seqId := by
    intro seqId
    rw [blocksOf_setTable]
    split_ifs with hseq
    · rw [hseq, hblocks, hlisting]
    · rfl
  have hids : heldIds { s.setTable seq.seqId
      (some (BlockTable.listing t w.mem t.getBlockObjs)) with world := w } seq.seqId =
      BlockTable.idsOf w.mem t.getBlockObjs := by
    unfold heldIds
    rw [hsame, hblocks]
  have hids' : s.heldIds seq.seqId = BlockTable.idsOf s.world.mem t.getBlockObjs := by
    unfold heldIds
    rw [hblocks]
  refine ⟨⟨⟨hswap.tracks, fun seqId t' ht' => ?_, fun seqId p hp => ?_, fun b hb => ?_⟩, hsame,
    fun p hp => hswap.tokenIds hp⟩, hswap.devices, fun b hb => ?_, fun b hb => ?_, ?_⟩
  · change t'.rankSize = w.alloc.rankSize
    rw [hswap.devices.rankSize]
    by_cases hseq : seqId = seq.seqId
    · subst hseq
      rw [setTable] at ht'
      simp only [Function.update_self, Option.some.injEq] at ht'
      rw [← ht']
      exact h.rankSize seq.seqId t ht
    · rw [setTable] at ht'
      simp only [Function.update_of_ne hseq] at ht'
      exact h.rankSize seqId t' ht'
  · exact h.blocks seqId p (hsame seqId ▸ hp)
  · rw [hswap.devices.deviceType]
    exact h.npu b ((hswap.devices.counts .npu 0 b).mp hb)
  · exact hswap.source b (hids' ▸ hb)
  · exact hswap.target b (hids ▸ hb)
  · unfold copiesOf
    rw [hids, hids', hswap.mapping]
    apply List.map_congr_left
    rintro ⟨src, dst⟩ -
    change (w.alloc.getPhysicalBlockId src, w.alloc.getPhysicalBlockId dst) = _
    rw [hswap.devices.physical, hswap.devices.physical]

end SelfAttnBlockManager

/-! ## What swaps do to the groups -/

namespace SeqGroupObj

/-- A group whose sequence has been swapped out. -/
def swappedOut (o : SeqGroupObj HashValue) : SeqGroupObj HashValue :=
  if o.firstSeq.status = .running then o.setStatus .swapped else o

/-- A group whose sequence has been swapped in. -/
def swappedIn (o : SeqGroupObj HashValue) : SeqGroupObj HashValue :=
  if o.firstSeq.status = .swapped then o.setStatus .running else o

variable (o : SeqGroupObj HashValue)

theorem swappedOut_swappedOut : o.swappedOut.swappedOut = o.swappedOut := by
  unfold swappedOut
  by_cases hrunning : o.firstSeq.status = .running
  · rw [if_pos hrunning]
    exact if_neg fun h => by cases h
  · rw [if_neg hrunning, if_neg hrunning]

theorem swappedOut_status : o.swappedOut.firstSeq.status =
    if o.firstSeq.status = .running then .swapped else o.firstSeq.status := by
  unfold swappedOut
  split_ifs
  · rfl
  · rfl

theorem swappedIn_status : o.swappedIn.firstSeq.status =
    if o.firstSeq.status = .swapped then .running else o.firstSeq.status := by
  unfold swappedIn
  split_ifs
  · rfl
  · rfl

theorem swappedOut_ne_running : o.swappedOut.firstSeq.status ≠ .running := by
  rw [swappedOut_status]
  split_ifs with hrunning
  · exact fun h => by cases h
  · exact hrunning

theorem swappedOut_swapped_iff : o.swappedOut.firstSeq.status = .swapped ↔
    o.firstSeq.status = .running ∨ o.firstSeq.status = .swapped := by
  rw [swappedOut_status]
  split_ifs with hrunning
  · exact ⟨fun _ => .inl hrunning, fun _ => rfl⟩
  · exact (or_iff_right hrunning).symm

theorem swappedOut_getTokenIds : o.swappedOut.firstSeq.getTokenIds = o.firstSeq.getTokenIds := by
  unfold swappedOut
  split_ifs
  · rfl
  · rfl

theorem swappedIn_getTokenIds : o.swappedIn.firstSeq.getTokenIds = o.firstSeq.getTokenIds := by
  unfold swappedIn
  split_ifs
  · rfl
  · rfl

end SeqGroupObj

/-! ## The policy helper -/

namespace PolicyHelper

open SelfAttnBlockManager

/-- The state of the policies over a self-attention manager. -/
abbrev ManagedState (HashValue A : Type) :=
  PolicyState HashValue (SelfAttnBlockManager HashValue A)

section Reads

variable {σ : Type}

theorem within_zoom_eq {τ α : Type} {l : Lens σ τ} {c : EStateM Exn τ α} (h : Within Eq c) :
    Within Eq (zoom l c) :=
  h.zoom fun s t ht => by rw [← ht, l.put_get]

theorem within_readAllocator {α : Type} (device : DeviceType) (r : ℕ) (f : A → α) :
    Within Eq (CpuNpuBlockAllocator.readAllocator device r f :
      CpuNpuBlockAllocator.DeviceM HashValue A α) := by
  have hread : Within Eq (zoom (CpuNpuBlockAllocator.allocatorLens device r)
      (do return f (← get).alloc : WorldM HashValue A α)) :=
    within_zoom_eq (.bind .get fun _ => .pure _)
  refine .bind .get fun w => .ite ?_ hread
  cases device with
  | cpu => exact .bind (.throw _) fun _ => hread
  | npu => exact .bind (.throw _) fun _ => hread

variable [BlockAllocator HashValue A]

theorem within_getNumTotalBlocks (device : DeviceType) :
    Within Eq (CpuNpuBlockAllocator.getNumTotalBlocks device :
      CpuNpuBlockAllocator.DeviceM HashValue A ℕ) :=
  .bind .get fun _ => .bind (.mapM _ fun _ => within_readAllocator _ _ _) fun _ => .pure _

theorem within_getNumFreeBlock (device : DeviceType) :
    Within Eq (CpuNpuBlockAllocator.getNumFreeBlock device :
      CpuNpuBlockAllocator.DeviceM HashValue A ℕ) :=
  .bind .get fun _ => .bind (within_readAllocator _ _ _) fun _ =>
    .ite (.pure _) (.bind (.mapM _ fun _ => within_readAllocator _ _ _) fun _ => .pure _)

theorem within_canSwap (device : DeviceType) (status : SequenceStatus) (n : ℕ)
    (seqGroup : SequenceGroup HashValue) :
    Within Eq (canSwap device status n seqGroup : ManagerM HashValue A AllocStatus) := by
  refine .bind .get fun s => ?_
  refine .ite (.throw _) ?_
  refine .bind (within_zoom_eq (within_getNumTotalBlocks device)) fun total => ?_
  refine .bind (within_zoom_eq (within_getNumFreeBlock device)) fun free => ?_
  exact .ite (.pure _) (.ite (.pure _) (.pure _))

variable [PrefixHasher HashValue]

theorem within_canSwapOut (ctx : PolicyContext) (p : SeqGroupPtr) :
    Within Eq (canSwapOut ctx p : PolicyM HashValue (SelfAttnBlockManager HashValue A) Bool) := by
  refine .allM _ fun q => .bind (.bind .get fun s => .pure _) fun seqGroup => within_zoom_eq ?_
  exact .bind (within_canSwap _ _ _ _) fun _ => .pure _

end Reads

/-- The groups of `p` whose sequences have not finished. -/
def unfinished (ctx : PolicyContext) (s : ManagedState HashValue A) (p : SeqGroupPtr) :
    List SeqGroupPtr :=
  ((ctx.sampling p).sequencesOf p).dedup.filter fun q => !(s.firstSeq q).isFinished

/-- **A group is restored**: every sequence of it that had not finished runs on the NPU, with the
tokens that it and its blocks had, and each of its blocks is copied once. The group was swapped out
in `s`, and swapped in from `s₂` to `s'`. -/
structure Restored (ctx : PolicyContext) (p : SeqGroupPtr) (s s₂ s' : ManagedState HashValue A)
    (blockToSwapIn : List (BlockId × BlockId)) : Prop where
  running : ∀ q ∈ unfinished ctx s p, (s'.groups q).firstSeq.status = .running
  tokens : ∀ q ∈ unfinished ctx s p,
    (s'.groups q).firstSeq.getTokenIds = (s.groups q).firstSeq.getTokenIds ∧
      s'.blockManager.heldTokens q.seqId = s.blockManager.heldTokens q.seqId
  npu : ∀ q ∈ unfinished ctx s p, ∀ b ∈ s'.blockManager.heldIds q.seqId,
    s'.blockManager.world.alloc.getDeviceTypeForBlockId b = .npu
  copies : blockToSwapIn.Perm ((unfinished ctx s p).flatMap fun q =>
    copiesOf s₂.blockManager s'.blockManager q.seqId)

/-- What happens between the two calls leaves the sequences of the group and the tokens in their
blocks as they are. -/
structure Meanwhile (ctx : PolicyContext) (p : SeqGroupPtr) (s₁ s₂ : ManagedState HashValue A) :
    Prop where
  firstSeq : ∀ q, q = p ∨ q ∈ (ctx.sampling p).sequencesOf p →
    (s₂.groups q).firstSeq = (s₁.groups q).firstSeq
  heldTokens : ∀ q, q = p ∨ q ∈ (ctx.sampling p).sequencesOf p →
    s₂.blockManager.heldTokens q.seqId = s₁.blockManager.heldTokens q.seqId

section Swaps

variable [BlockAllocator HashValue A] [SwappingAllocator HashValue A] [PrefixHasher HashValue]
  {ctx : PolicyContext} {p : SeqGroupPtr} {s s₁ s₂ s' : ManagedState HashValue A}
  {used used₂ : Finset Ptr}

omit [BlockAllocator HashValue A] [SwappingAllocator HashValue A] [PrefixHasher HashValue] in
theorem getFirstSequence_view {status : SequenceStatus} (hstatus : status ≠ .allStatus) :
    (s.view ctx p).getFirstSequence status =
      if (s.groups p).firstSeq.status = status then [s.firstSeq p] else [] := by
  unfold SequenceGroup.getFirstSequence
  rw [if_neg hstatus]
  rfl

/-- One group is swapped out. -/
theorem wp_seqsSwapOut (h : s.blockManager.Housed used) (p : SeqGroupPtr) :
    wp (seqsSwapOut ctx p) (fun _ s' =>
        s'.groups = Function.update s.groups p (s.groups p).swappedOut ∧
        Retained used s.blockManager s'.blockManager)
      (fun _ _ => True) s := by
  have hswap : wp (BlockSpaceManager.swapOut (s.view ctx p))
      (fun _ b => Retained used s.blockManager b) (fun _ _ => True) s.blockManager := by
    change wp (swapSeqs .npu .cpu ((s.view ctx p).getFirstSequence .running)) _ _ _
    rw [getFirstSequence_view fun h => by cases h]
    split_ifs
    · exact wp_mono (wp_swapSeqs_singleton h _ _ _) (fun _ _ h => h.toRetained) fun _ _ h => h
    · exact Retained.refl h
  unfold seqsSwapOut
  simp only [getView, onBlockManager, wp_bind, wp_get, wp_pure, wp_zoom]
  exact wp_mono hswap (fun _ _ h => ⟨rfl, h⟩) fun _ _ h => h

/-- The groups of a list are swapped out. -/
theorem wp_mapM_seqsSwapOut (h : s.blockManager.Housed used) (ps : List SeqGroupPtr) :
    wp (ps.mapM (seqsSwapOut ctx)) (fun _ s' =>
        (∀ q, s'.groups q = if q ∈ ps then (s.groups q).swappedOut else s.groups q) ∧
        Retained used s.blockManager s'.blockManager)
      (fun _ _ => True) s := by
  induction ps generalizing s with
  | nil => exact ⟨fun q => rfl, .refl h⟩
  | cons p rest ih =>
    rw [List.mapM_cons, wp_bind]
    refine wp_mono (wp_seqsSwapOut h p) ?_ fun _ _ h => h
    rintro _ s₁ ⟨hgroups₁, hretained₁⟩
    rw [wp_bind]
    refine wp_mono (ih hretained₁.housed) ?_ fun _ _ h => h
    rintro _ s₂ ⟨hgroups₂, hretained₂⟩
    refine ⟨fun q => ?_, hretained₁.trans hretained₂⟩
    rw [hgroups₂, hgroups₁]
    by_cases hq : q = p
    · -- a group that comes up again is swapped out already
      subst hq
      rw [Function.update_self, if_pos List.mem_cons_self, SeqGroupObj.swappedOut_swappedOut,
        ite_self]
    · simp only [Function.update_of_ne hq, List.mem_cons, hq, false_or]

/-- **`SwapOut`** swaps out every group of a parallel sampling. -/
theorem wp_swapOut (h : s.blockManager.Housed used) :
    wp (swapOut ctx p) (fun _ s' =>
        (∀ q, s'.groups q =
          if q ∈ (ctx.sampling p).sequencesOf p then (s.groups q).swappedOut else s.groups q) ∧
        Retained used s.blockManager s'.blockManager)
      (fun _ _ => True) s := by
  unfold swapOut
  rw [wp_bind]
  refine wp_mono (within_canSwapOut ctx p s) ?_ fun _ _ h => h
  rintro can _ rfl
  refine (wp_ite _ _ _).mpr ⟨fun _ => trivial, fun _ => ?_⟩
  rw [wp_bind]
  exact wp_mono (wp_mapM_seqsSwapOut h _) (fun _ _ h => h) fun _ _ h => h

/-- What swapping a group in does to it, and what it leaves. -/
structure SwapsIn (used : Finset Ptr) (p : SeqGroupPtr) (mapping : List (BlockId × BlockId))
    (s s' : ManagedState HashValue A) : Prop where
  groups : s'.groups = Function.update s.groups p (s.groups p).swappedIn
  retained : Retained used s.blockManager s'.blockManager
  npu : ∀ b ∈ s'.blockManager.heldIds p.seqId,
    s'.blockManager.world.alloc.getDeviceTypeForBlockId b = .npu
  mapping : mapping = copiesOf s.blockManager s'.blockManager p.seqId

theorem wp_seqsSwapIn (h : s.blockManager.Housed used)
    (hstatus : (s.groups p).firstSeq.status = .swapped) :
    wp (seqsSwapIn ctx p) (fun mapping s' => SwapsIn used p mapping s s') (fun _ _ => True) s := by
  unfold seqsSwapIn
  simp only [getView, onBlockManager, wp_bind, wp_get, wp_pure, wp_zoom]
  change wp (swapSeqs .cpu .npu ((s.view ctx p).getFirstSequence .swapped)) _ _ _
  rw [getFirstSequence_view (fun h => by cases h), if_pos hstatus]
  refine wp_mono (wp_swapSeqs_singleton h _ _ _) ?_ fun _ _ h => h
  intro mapping b hswaps
  refine ⟨rfl, hswaps.toRetained, fun c hc => ?_, hswaps.mapping⟩
  change b.world.alloc.getDeviceTypeForBlockId c = .npu
  rw [hswaps.devices.deviceType]
  exact h.npu c (hswaps.target c hc)

omit [SwappingAllocator HashValue A] in
/-- A sequence that is not swapped out is left alone. -/
theorem wp_seqsSwapIn_of_ne (hstatus : (s.groups p).firstSeq.status ≠ .swapped) :
    wp (seqsSwapIn ctx p) (fun mapping s' => mapping = [] ∧ s' = s) (fun _ _ => True) s := by
  unfold seqsSwapIn
  simp only [getView, onBlockManager, wp_bind, wp_get, wp_pure, wp_zoom]
  change wp (swapSeqs .cpu .npu ((s.view ctx p).getFirstSequence .swapped)) _ _ _
  rw [getFirstSequence_view (fun h => by cases h), if_neg hstatus]
  refine ⟨rfl, ?_⟩
  dsimp only
  rw [Lens.put_get, if_neg hstatus, Function.update_eq_self]

omit [SwappingAllocator HashValue A] in
theorem wp_mapM_seqsSwapIn_of_ne (hstatus : (s.groups p).firstSeq.status ≠ .swapped)
    (ps : List SeqGroupPtr) :
    wp (ps.mapM fun _ => seqsSwapIn ctx p) (fun mappings s' => mappings.flatten = [] ∧ s' = s)
      (fun _ _ => True) s := by
  induction ps with
  | nil => exact ⟨rfl, rfl⟩
  | cons q rest ih =>
    rw [List.mapM_cons, wp_bind]
    refine wp_mono (wp_seqsSwapIn_of_ne hstatus) ?_ fun _ _ h => h
    rintro _ _ ⟨rfl, rfl⟩
    rw [wp_bind]
    refine wp_mono ih ?_ fun _ _ h => h
    rintro mappings _ ⟨hnone, rfl⟩
    exact ⟨hnone, rfl⟩

/-- **`SwapIn`** swaps in the root, whatever other groups there are. -/
theorem wp_swapIn (h : s.blockManager.Housed used)
    (hstatus : (s.groups p).firstSeq.status = .swapped)
    (hne : (ctx.sampling p).sequencesOf p ≠ []) :
    wp (swapIn ctx p) (fun mapping s' => SwapsIn used p mapping s s') (fun _ _ => True) s := by
  unfold swapIn
  rw [wp_bind]
  cases hps : (ctx.sampling p).sequencesOf p with
  | nil => exact absurd hps hne
  | cons q rest =>
    rw [List.mapM_cons, wp_bind]
    refine wp_mono (wp_seqsSwapIn h hstatus) ?_ fun _ _ h => h
    intro mapping s₁ hswaps
    have hrunning : (s₁.groups p).firstSeq.status ≠ .swapped := by
      rw [hswaps.groups, Function.update_self, SeqGroupObj.swappedIn_status, if_pos hstatus]
      exact fun h => by cases h
    rw [wp_bind]
    refine wp_mono (wp_mapM_seqsSwapIn_of_ne hrunning rest) ?_ fun _ _ h => h
    rintro mappings _ ⟨hnone, rfl⟩
    simp only [wp_pure, List.flatten_cons, hnone, List.append_nil]
    exact hswaps

omit [SwappingAllocator HashValue A] in
theorem wp_swapIn_of_ne (hstatus : (s.groups p).firstSeq.status ≠ .swapped) :
    wp (swapIn ctx p) (fun mapping s' => mapping = [] ∧ s' = s) (fun _ _ => True) s := by
  unfold swapIn
  rw [wp_bind]
  exact wp_mono (wp_mapM_seqsSwapIn_of_ne hstatus _) (fun _ _ h => h) fun _ _ h => h

section

omit [BlockAllocator HashValue A] [SwappingAllocator HashValue A] [PrefixHasher HashValue]

/-- The first sequence of a group that is swapped in is the one that was swapped out. -/
theorem Meanwhile.firstSeq_of_mem (hmeanwhile : Meanwhile ctx p s₁ s₂)
    (hgroups : ∀ q, s₁.groups q =
      if q ∈ (ctx.sampling p).sequencesOf p then (s.groups q).swappedOut else s.groups q)
    {q : SeqGroupPtr} (hq : q ∈ (ctx.sampling p).sequencesOf p) :
    (s₂.groups q).firstSeq = (s.groups q).swappedOut.firstSeq := by
  rw [hmeanwhile.firstSeq q (.inr hq), hgroups, if_pos hq]

theorem mem_unfinished {q : SeqGroupPtr} : q ∈ unfinished ctx s p ↔
    q ∈ (ctx.sampling p).sequencesOf p ∧ (s.groups q).firstSeq.isFinished = false := by
  unfold unfinished
  rw [List.mem_filter, List.mem_dedup, Bool.not_eq_true']
  rfl

/-- Only the root can be unfinished, so there is nothing else to restore. -/
theorem unfinished_eq (hroot : ∀ q ∈ unfinished ctx s p, q = p) :
    unfinished ctx s p = if p ∈ unfinished ctx s p then [p] else [] := by
  have hnodup : (unfinished ctx s p).Nodup := (List.nodup_dedup _).filter _
  cases hps : unfinished ctx s p with
  | nil => rfl
  | cons q rest =>
    rw [hps] at hroot hnodup
    obtain rfl := hroot q List.mem_cons_self
    cases rest with
    | nil => rw [if_pos List.mem_cons_self]
    | cons r rest =>
      obtain rfl := hroot r (List.mem_cons_of_mem _ List.mem_cons_self)
      exact absurd List.mem_cons_self (List.nodup_cons.mp hnodup).1

end

/-- **When a group is restored.** A group that is swapped out and later in again is restored exactly
if the sequence of its root, running or swapped out already, is the only one that has not
finished. -/
theorem restored_iff {blockToSwapOut blockToSwapIn : List (BlockId × BlockId)}
    (h : s.blockManager.Housed used) (h₂ : s₂.blockManager.Housed used₂)
    (hroot : p ∈ (ctx.sampling p).sequencesOf p ∨ (s.groups p).firstSeq.isFinished = true)
    (hout : swapOut ctx p s = .ok blockToSwapOut s₁) (hmeanwhile : Meanwhile ctx p s₁ s₂)
    (hin : swapIn ctx p s₂ = .ok blockToSwapIn s') :
    Restored ctx p s s₂ s' blockToSwapIn ↔ ∀ q ∈ unfinished ctx s p, q = p ∧
      ((s.groups q).firstSeq.status = .running ∨ (s.groups q).firstSeq.status = .swapped) := by
  obtain ⟨hgroups, hretained⟩ := wp_ok (wp_swapOut h) hout
  constructor
  · -- a sequence that is not the root's does not get to run
    intro hrestored q hq
    have hmem := (mem_unfinished.mp hq).1
    have hfirst := hmeanwhile.firstSeq_of_mem hgroups hmem
    have hrunning := hrestored.running q hq
    by_cases hswapped : (s₂.groups p).firstSeq.status = .swapped
    · have hswaps := wp_ok (wp_swapIn h₂ hswapped (List.ne_nil_of_mem hmem)) hin
      by_cases hqp : q = p
      · subst hqp
        rw [hfirst] at hswapped
        exact ⟨rfl, (SeqGroupObj.swappedOut_swapped_iff _).mp hswapped⟩
      · rw [hswaps.groups, Function.update_of_ne hqp, hfirst] at hrunning
        exact absurd hrunning (SeqGroupObj.swappedOut_ne_running _)
    · obtain ⟨-, rfl⟩ := wp_ok (wp_swapIn_of_ne hswapped) hin
      rw [hfirst] at hrunning
      exact absurd hrunning (SeqGroupObj.swappedOut_ne_running _)
  · intro honly
    have hunfinished := unfinished_eq fun q hq => (honly q hq).1
    by_cases hp : p ∈ unfinished ctx s p
    · rw [if_pos hp] at hunfinished
      have hmem := (mem_unfinished.mp hp).1
      have hfirst := hmeanwhile.firstSeq_of_mem hgroups hmem
      have hswapped : (s₂.groups p).firstSeq.status = .swapped := by
        rw [hfirst]
        exact (SeqGroupObj.swappedOut_swapped_iff _).mpr (honly p hp).2
      have hswaps := wp_ok (wp_swapIn h₂ hswapped (List.ne_nil_of_mem hmem)) hin
      have hself : s'.groups p = (s₂.groups p).swappedIn := by
        rw [hswaps.groups, Function.update_self]
      refine ⟨?_, ?_, ?_, ?_⟩
      · rw [hunfinished]
        intro q hq
        obtain rfl := List.mem_singleton.mp hq
        rw [hself, SeqGroupObj.swappedIn_status, if_pos hswapped]
      · rw [hunfinished]
        intro q hq
        obtain rfl := List.mem_singleton.mp hq
        rw [hself, SeqGroupObj.swappedIn_getTokenIds, hfirst, SeqGroupObj.swappedOut_getTokenIds,
          hswaps.retained.heldTokens, hmeanwhile.heldTokens q (.inl rfl), hretained.heldTokens]
        exact ⟨rfl, rfl⟩
      · rw [hunfinished]
        intro q hq
        obtain rfl := List.mem_singleton.mp hq
        exact hswaps.npu
      · rw [hunfinished, List.flatMap_singleton, hswaps.mapping]
    · rw [if_neg hp] at hunfinished
      -- the sequence of the root has finished, so nothing is swapped in
      have hfinished : (s.groups p).firstSeq.isFinished = true := by
        rcases hroot with hroot | hfinished
        · by_contra hnot
          exact hp (mem_unfinished.mpr ⟨hroot, Bool.not_eq_true _ ▸ hnot⟩)
        · exact hfinished
      have hstatus : (s₂.groups p).firstSeq.status ≠ .swapped := by
        intro hswapped
        rw [hmeanwhile.firstSeq p (.inl rfl), hgroups] at hswapped
        unfold Sequence.isFinished at hfinished
        split_ifs at hswapped with hmem
        · rcases (SeqGroupObj.swappedOut_swapped_iff _).mp hswapped with hstatus | hstatus
          · rw [hstatus] at hfinished
            cases hfinished
          · rw [hstatus] at hfinished
            cases hfinished
        · rw [hswapped] at hfinished
          cases hfinished
      obtain ⟨rfl, rfl⟩ := wp_ok (wp_swapIn_of_ne hstatus) hin
      refine ⟨?_, ?_, ?_, ?_⟩
      · rw [hunfinished]
        exact fun q hq => absurd hq List.not_mem_nil
      · rw [hunfinished]
        exact fun q hq => absurd hq List.not_mem_nil
      · rw [hunfinished]
        exact fun q hq => absurd hq List.not_mem_nil
      · rw [hunfinished]
        exact List.Perm.nil

end Swaps

/-! ### Two sequences with a block each -/

section TwoSequences

/-- A full block on the NPU. -/
def fullBlock (blockId : BlockId) (tokenIds : List TokenId) (h : tokenIds.length ≤ 2) :
    BlockObj UInt64 :=
  { (BlockObj.new : BlockObj UInt64) with
    tokenIds := tokenIds
    blockSize := 2
    blockId := blockId
    tokenIds_le := h }

def oneBlockTable (p : Ptr) (blockId : BlockId) : BlockTable where
  blockObjs := Function.update (fun _ => []) 0 [p]
  blockIds := [blockId]
  blockSize := 2
  numFullSlotsPerRank := Function.update (fun _ => 0) 0 2
  rankSize := 1
  currentSpRank := 0
  isAppendBlock := false
  appendBlockRankId := 0

/-- Sequences 1 and 2 have a block each on the NPU, where two are left; the CPU has four blocks. -/
def twoSequences : SelfAttnBlockManager UInt64 (HashLessBlockAllocator UInt64) where
  blockSize := 2
  npuBlockNum := 4
  reservedBlockNum := 0
  speculativeSlots := 0
  rankSize := 1
  seqId2BlockTable := fun seqId =>
    if seqId = 1 then some (oneBlockTable 0 0)
    else if seqId = 2 then some (oneBlockTable 1 1)
    else none
  world := {
    mem := {
      obj := fun p =>
        if p = 0 then fullBlock 0 [5, 6] (Nat.le_refl 2)
        else if p = 1 then fullBlock 1 [7, 8] (Nat.le_refl 2)
        else .new
      pool := ⟨32, List.range' 2 30⟩ }
    alloc := {
      rankSize := 1
      hostSize := 1
      beginCpuBlockId := 4
      allocators := fun
        | .cpu, _ => .new 4 4 2
        | .npu, _ => { (HashLessBlockAllocator.new 0 4 2 : HashLessBlockAllocator UInt64) with
          freeBlockIndices := [2, 3]
          refCounter := ((RefCounter.make (blockIndices 0 4)).setCount 0 1).setCount 1 1 } } }
  seqIdToNumComputedTokens := fun _ => none
  seqIdToLastAccessTime := fun _ => none

theorem housed_twoSequences : twoSequences.Housed {0, 1} := by
  refine ⟨⟨?_, ?_, ?_, ?_⟩, fun seqId t ht => ?_, fun seqId p hp => ?_, fun b hb => ?_⟩
  · exact List.nodup_range'
  · decide
  · decide
  · decide
  · change (if seqId = 1 then some (oneBlockTable 0 0)
      else if seqId = 2 then some (oneBlockTable 1 1) else none) = some t at ht
    split_ifs at ht
    · obtain rfl := Option.some.inj ht
      rfl
    · obtain rfl := Option.some.inj ht
      rfl
  · unfold blocksOf twoSequences at hp
    dsimp only at hp
    split_ifs at hp
    · obtain rfl := List.mem_singleton.mp hp
      exact Finset.mem_insert_self _ _
    · obtain rfl := List.mem_singleton.mp hp
      exact Finset.mem_insert_of_mem (Finset.mem_singleton_self _)
    · exact absurd hp List.not_mem_nil
  · have hcounts : ((RefCounter.make (blockIndices 0 4)).setCount 0 1).Counts 1 :=
      ⟨0, rfl⟩
    have hcounts' : (RefCounter.make (blockIndices 0 4)).Counts 0 := ⟨0, rfl⟩
    have hb' := (hcounts'.setCount 1 b).mp ((hcounts.setCount 1 b).mp hb)
    have hlt := (mem_blockIndices.mp (RefCounter.counts_make.mp hb')).2
    exact if_pos hlt

def rootPtr : SeqGroupPtr := ⟨0, "r", 1⟩

def childPtr : SeqGroupPtr := ⟨1, "r", 2⟩

/-- Both sequences run. -/
def twoRunning : ManagedState UInt64 (HashLessBlockAllocator UInt64) where
  groups p := {
    firstSeq := {
      seqId := p.seqId
      promptTokenIds := if p.seqId = 1 then [5, 6] else [7, 8]
      outputTokenIds := []
      stage := .decode
      numComputedTokens := 2
      status := .running
      hashValue := 0 } }
  blockManager := twoSequences

/-- Both sequences belong to the beam search of the root. -/
def beamContext : PolicyContext where
  cacheBlockSize := 2
  sampling := fun _ => {
    enableParallelSampling := true
    useBeamsearch := true
    n := 2
    seqId2ParallelSeqGroup := [(1, rootPtr), (2, childPtr)] }

/-- The child has finished. -/
def rootRunning : ManagedState UInt64 (HashLessBlockAllocator UInt64) :=
  let child := twoRunning.groups childPtr
  { twoRunning with
    groups := Function.update twoRunning.groups childPtr
      { child with firstSeq := { child.firstSeq with status := .finishStopped } } }

/-- The root comes back, from block 0 of the host to block 2 of the NPU. -/
theorem restored_iff_single : ∃ s₁ s' blockToSwapOut,
    swapOut beamContext rootPtr rootRunning = .ok blockToSwapOut s₁ ∧
    swapIn beamContext rootPtr s₁ = .ok [(0, 2)] s' ∧
    Restored beamContext rootPtr rootRunning s₁ s' [(0, 2)] := by
  have hrun : valueOf (do
      let _ ← swapOut beamContext rootPtr
      swapIn beamContext rootPtr) rootRunning = some [(0, 2)] := by
    decide +kernel
  obtain ⟨blockToSwapOut, s₁, hout, hin⟩ := valueOf_bind_eq_some_iff.mp hrun
  obtain ⟨s', hin⟩ := valueOf_eq_some_iff.mp hin
  have hhoused : rootRunning.blockManager.Housed {0, 1} := housed_twoSequences
  have hroot : rootPtr ∈ (beamContext.sampling rootPtr).sequencesOf rootPtr :=
    List.mem_cons_self
  have honly : ∀ q ∈ unfinished beamContext rootRunning rootPtr, q = rootPtr ∧
      ((rootRunning.groups q).firstSeq.status = .running ∨
        (rootRunning.groups q).firstSeq.status = .swapped) := by
    intro q hq
    have hunfinished : unfinished beamContext rootRunning rootPtr = [rootPtr] := by
      decide
    obtain rfl : q = rootPtr := List.mem_singleton.mp (hunfinished ▸ hq)
    exact ⟨rfl, .inl rfl⟩
  -- the run itself is not evaluated
  generalize rootRunning = s at hout hhoused honly ⊢
  have hhoused₁ := (wp_ok (wp_swapOut hhoused) hout).2.housed
  exact ⟨s₁, s', blockToSwapOut, hout, hin, (restored_iff hhoused hhoused₁ (.inl hroot) hout
    ⟨fun _ _ => rfl, fun _ _ => rfl⟩ hin).mpr honly⟩

/-- The other sequence of a beam search does not come back: both calls succeed, and it stays on the
host. -/
theorem not_restored : ¬∀ (ctx : PolicyContext) (p : SeqGroupPtr)
    (s s₁ s' : ManagedState UInt64 (HashLessBlockAllocator UInt64))
    (blockToSwapOut blockToSwapIn : List (BlockId × BlockId)), s.blockManager.Housed {0, 1} →
    p ∈ (ctx.sampling p).sequencesOf p → swapOut ctx p s = .ok blockToSwapOut s₁ →
    swapIn ctx p s₁ = .ok blockToSwapIn s' → Restored ctx p s s₁ s' blockToSwapIn := by
  intro h
  have hrun : valueOf (do
      let _ ← swapOut beamContext rootPtr
      let _ ← swapIn beamContext rootPtr
      return (← getObj childPtr).firstSeq.status) twoRunning = some .swapped := by
    decide +kernel
  obtain ⟨blockToSwapOut, s₁, hout, hrun⟩ := valueOf_bind_eq_some_iff.mp hrun
  obtain ⟨blockToSwapIn, s', hin, hstays⟩ := valueOf_bind_eq_some_iff.mp hrun
  have hstatus : (s'.groups childPtr).firstSeq.status = .swapped := Option.some.inj hstays
  have hroot : rootPtr ∈ (beamContext.sampling rootPtr).sequencesOf rootPtr :=
    List.mem_cons_self
  have hchild : childPtr ∈ unfinished beamContext twoRunning rootPtr :=
    mem_unfinished.mpr ⟨List.mem_cons_of_mem _ List.mem_cons_self, rfl⟩
  have hhoused : twoRunning.blockManager.Housed {0, 1} := housed_twoSequences
  clear hrun
  generalize twoRunning = s at hout hhoused hchild
  have hrestored := h beamContext rootPtr s s₁ s' _ _ hhoused hroot hout hin
  have hrunning := hrestored.running childPtr hchild
  rw [hstatus] at hrunning
  cases hrunning

end TwoSequences

end PolicyHelper

end MindieLLM
