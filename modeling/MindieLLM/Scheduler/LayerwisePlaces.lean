import MindieLLM.BlockManager.HashLessBlockAllocator
import MindieLLM.Program.Within
import MindieLLM.Scheduler.PolicyConservation
import MindieLLM.Scheduler.SelfAttnManager

/-!
# Places in the waiting queue

The layer-wise pass takes the groups off the waiting queue one by one. Those that it sets aside go
back to the front when it is done: first the groups that are to be computed again and have not
returned, then the long prompts, then what the pass has not reached. The groups that the statistics
refuse go to the back. Each kind has kept its order, but a group that is to be computed again passes
the long prompts that were before it.

## Main definitions

* `LayerwiseFcfsPolicy.serve`: the calls that a round makes for a group
* `LayerwiseFcfsPolicy.Round`: what a round does to a group
* `LayerwiseFcfsPolicy.Places`: where the groups are after a pass
* `LayerwiseFcfsPolicy.Admitted`: what a group is asked before it is taken into the batch

## Main results

* `LayerwiseFcfsPolicy.wp_generatePrefillBatch`: one round
* `LayerwiseFcfsPolicy.applyToWaitingQueue_places`: a pass, and a long prompt at the head
-/

namespace MindieLLM

open Program

variable {HashValue B : Type}

namespace LayerwiseFcfsPolicy

open FcfsPolicy

variable {ctx : PolicyContext} {now : ℕ} {p : SeqGroupPtr} {v : LayerwisePass}
  {s : PolicyState HashValue B}

/-! ## What a round leaves alone -/

/-- A prompt that gets a batch of its own. -/
def IsLong (ctx : PolicyContext) (seq : Sequence HashValue) : Prop :=
  ctx.longprefillLenThreshold ≤ promptTokenIdsLen seq

/-- What decides on the kind of a group is not the status of its sequence. -/
def SameKinds (s s' : PolicyState HashValue B) : Prop :=
  ∀ q, ∃ status, s'.firstSeq q = { s.firstSeq q with status := status }

instance : Std.Refl (SameKinds : PolicyState HashValue B → PolicyState HashValue B → Prop) :=
  ⟨fun _ _ => ⟨_, rfl⟩⟩

instance : IsTrans (PolicyState HashValue B) SameKinds :=
  ⟨fun _ _ _ h h' q => by
    obtain ⟨status, hstatus⟩ := h q
    obtain ⟨status', hstatus'⟩ := h' q
    exact ⟨status', by rw [hstatus', hstatus]⟩⟩

namespace SameKinds

variable {s' : PolicyState HashValue B} {q : SeqGroupPtr}

theorem promptTokenIdsLen_eq (h : SameKinds s s') :
    promptTokenIdsLen (s'.firstSeq q) = promptTokenIdsLen (s.firstSeq q) := by
  obtain ⟨status, hq⟩ := h q
  rw [hq]
  rfl

theorem awaitsReturn_eq (h : SameKinds s s') :
    awaitsReturn (s'.firstSeq q) = awaitsReturn (s.firstSeq q) := by
  obtain ⟨status, hq⟩ := h q
  rw [hq]
  rfl

theorem isLong_eq (h : SameKinds s s') :
    Statistics4PartialPrefill.isLong ctx.toPolicyConfig (s'.firstSeq q) =
      Statistics4PartialPrefill.isLong ctx.toPolicyConfig (s.firstSeq q) := by
  obtain ⟨status, hq⟩ := h q
  rw [hq]
  rfl

end SameKinds

theorem within_onBlockManager {α : Type} (c : EStateM Exn B α) :
    Within SameKinds (onBlockManager c : PolicyM HashValue B α) := by
  refine .zoom (S := fun _ _ => True) ?_ fun s t _ q => ⟨_, rfl⟩
  exact fun _ => wp_any fun _ _ => trivial

theorem within_modifyObj {f : SeqGroupObj HashValue → SeqGroupObj HashValue}
    (hf : ∀ o, (f o).firstSeq = { o.firstSeq with status := (f o).firstSeq.status }) :
    Within SameKinds (modifyObj p f : PolicyM HashValue B Unit) := by
  refine .modify fun s q => ?_
  unfold PolicyState.firstSeq
  by_cases hq : q = p
  · subst hq
    dsimp only
    rw [Function.update_self, hf]
    exact ⟨_, rfl⟩
  · dsimp only
    rw [Function.update_of_ne hq]
    exact ⟨_, rfl⟩

theorem within_changeStatus (old new : SequenceStatus) :
    Within SameKinds (changeStatus old new p : PolicyM HashValue B Unit) := by
  refine within_modifyObj fun o => ?_
  split
  · rfl
  · rfl

variable [BlockSpaceManager HashValue B]

theorem within_fillsFreeBlocks :
    Within SameKinds (fillsFreeBlocks ctx p : PolicyM HashValue B Bool) := by
  unfold fillsFreeBlocks
  exact .bind .get fun _ => .bind (within_onBlockManager _) fun _ =>
    .ite (.bind (.throw _) fun _ => .pure _) (.pure _)

theorem within_getNumNewTokens (status : SequenceStatus) (enableChunking : Bool)
    (budget : SchedulingBudget) :
    Within SameKinds (PolicyHelper.getNumNewTokens ctx p status enableChunking budget :
      PolicyM HashValue B (ℕ × ℕ)) := by
  have hseq : ∀ seq : Sequence HashValue, Within SameKinds
      (PolicyHelper.getNumNewTokensOfSeq ctx.toSchedulerConfig
        (fun seq => onBlockManager (BlockSpaceManager.getSeqNumCachedTokens seq)) seq :
        PolicyM HashValue B (ℕ × ℕ)) := by
    intro seq
    unfold PolicyHelper.getNumNewTokensOfSeq
    refine .ite (.pure _) (.ite (.bind (.throw _) fun _ => ?_) ?_)
    · dsimp only
      exact .ite (.pure _) (.bind (within_onBlockManager _) fun n => .ite (.pure _) (.pure _))
    · exact .ite (.pure _) (.bind (within_onBlockManager _) fun n => .ite (.pure _) (.pure _))
  unfold PolicyHelper.getNumNewTokens getView
  refine .bind (.bind .get fun _ => .pure _) fun seqGroup => ?_
  unfold PolicyHelper.getNumComputeNewUnCachedAndCachedTokens
  exact .bind (.mapM _ hseq) fun counts => .ite (.pure _) (.pure _)

theorem within_allocateAndSetRunning :
    Within SameKinds (PolicyHelper.allocateAndSetRunning ctx p : PolicyM HashValue B Unit) := by
  unfold PolicyHelper.allocateAndSetRunning getView
  exact .bind (.bind .get fun _ => .pure _) fun _ => .bind (within_onBlockManager _) fun _ =>
    within_changeStatus _ _

theorem within_scheduleWaiting (n : ℕ × ℕ) (numNewSeqs : ℕ) (pass : WaitingPass) :
    Within SameKinds (scheduleWaiting ctx false p n numNewSeqs pass :
      PolicyM HashValue B WaitingPass) := by
  unfold scheduleWaiting
  refine .bind within_allocateAndSetRunning fun _ => .bind .get fun _ => .bind ?_ fun _ => .pure _
  exact within_modifyObj fun o => rfl

theorem within_generatePrefillBatch :
    Within SameKinds (generatePrefillBatch ctx now p v : PolicyM HashValue B _) := by
  unfold generatePrefillBatch
  refine .bind within_fillsFreeBlocks fun _ => .ite (.pure _) (.bind .get fun _ =>
    .ite (.pure _) (.bind (within_getNumNewTokens _ _ _) fun _ => .ite ?_ ?_))
  · exact .bind (within_changeStatus _ _) fun _ => .pure _
  refine .bind (.bind .get fun _ => .pure _) fun _ => .bind (within_onBlockManager _)
    fun status => ?_
  cases status with
  | later =>
    refine .bind (.modify fun s q => ?_) fun _ => .pure _
    split
    · exact ⟨_, rfl⟩
    · exact ⟨_, rfl⟩
  | never => exact .throw _
  | ok =>
    refine .bind (.bind .get fun _ => .pure _) fun _ => .ite (.pure _) (.ite (.pure _)
      (.ite (.pure _) (.bind (within_scheduleWaiting _ _ _) fun _ => .ite (.pure _) ?_)))
    exact .pure _

/-! ## One round -/

/-- The calls that a round makes for a group. -/
def serve (ctx : PolicyContext) (p : SeqGroupPtr) (budget : SchedulingBudget) :
    PolicyM HashValue B Unit := do
  let _ ← fillsFreeBlocks ctx p
  let _ ← PolicyHelper.getNumNewTokens ctx p .waiting false budget
  match ← onBlockManager (BlockSpaceManager.canAllocate (← getView ctx p)) with
  | .later => return
  | .never => throw (.runtimeError "Prompt sequence too long.")
  | .ok => PolicyHelper.allocateAndSetRunning ctx p

/-- What a round does to a group: it stays where it is and ends the pass, it goes to one of the
queues, or it is taken into the batch. -/
inductive Round (ctx : PolicyContext) (p : SeqGroupPtr) (seq : Sequence HashValue)
    (v : LayerwisePass) : Verdict LayerwisePass → Prop
  | refuse : Round ctx p seq v (.refuse v)
  | leaveOver : v.pass.statistics.any (!·.canSchedule ctx.toPolicyConfig seq) →
    Round ctx p seq v (.next { v with
      pass := { v.pass with leftOverSeqGroups := p :: v.pass.leftOverSeqGroups } })
  | ignore : Round ctx p seq v (.next { v with
      pass := { v.pass with ignoredSeqGroups := v.pass.ignoredSeqGroups ++ [p] } })
  | keepLong : IsLong ctx seq → Round ctx p seq v (.next { v with
      longprefillQueue := v.longprefillQueue ++ [p] })
  | keepRecompute : awaitsReturn seq → Round ctx p seq v (.next { v with
      recomputeprefillQueue := v.recomputeprefillQueue ++ [p] })
  | schedule {v' : LayerwisePass} {r : Verdict LayerwisePass} (n : ℕ)
      (verdict : r = .last v' ∨ r = .next v')
      (longprefillQueue : v'.longprefillQueue = v.longprefillQueue)
      (recomputeprefillQueue : v'.recomputeprefillQueue = v.recomputeprefillQueue)
      (seqGroups : v'.pass.seqGroups = v.pass.seqGroups ++ [⟨p, n⟩])
      (leftOverSeqGroups : v'.pass.leftOverSeqGroups = v.pass.leftOverSeqGroups)
      (statistics : v'.pass.statistics =
        v.pass.statistics.map (·.maybeIncrementPartialPrefills ctx.toPolicyConfig seq)) :
      Round ctx p seq v r

omit [BlockSpaceManager HashValue B] in
/-- Only the kind of the group matters. -/
theorem Round.congr {s₁ : PolicyState HashValue B} (hkinds : SameKinds s s₁)
    {r : Verdict LayerwisePass} (h : Round ctx p (s₁.firstSeq p) v r) :
    Round ctx p (s.firstSeq p) v r := by
  have hlong : Statistics4PartialPrefill.isLong ctx.toPolicyConfig (s₁.firstSeq p) =
      Statistics4PartialPrefill.isLong ctx.toPolicyConfig (s.firstSeq p) := hkinds.isLong_eq
  cases h with
  | refuse => exact .refuse
  | leaveOver hany =>
    refine .leaveOver ?_
    simpa only [Statistics4PartialPrefill.canSchedule, hlong] using hany
  | ignore => exact .ignore
  | keepLong h => exact .keepLong (h.trans_eq hkinds.promptTokenIdsLen_eq)
  | keepRecompute h => exact .keepRecompute (hkinds.awaitsReturn_eq.symm.trans h)
  | schedule n hverdict hlongs hrecompute hgroups hleft hstatistics =>
    refine .schedule n hverdict hlongs hrecompute hgroups hleft ?_
    simpa only [Statistics4PartialPrefill.maybeIncrementPartialPrefills, hlong] using hstatistics

theorem wp_scheduleWaiting (n : ℕ × ℕ) (numNewSeqs : ℕ) (pass : WaitingPass) :
    wp (scheduleWaiting ctx false p n numNewSeqs pass) (fun pass' _ =>
        pass'.seqGroups = pass.seqGroups ++ [⟨p, n.1 + n.2⟩] ∧
        pass'.ignoredSeqGroups = pass.ignoredSeqGroups ∧
        pass'.leftOverSeqGroups = pass.leftOverSeqGroups ∧
        pass'.statistics = pass.statistics.map
          (·.maybeIncrementPartialPrefills ctx.toPolicyConfig (s.firstSeq p)))
      (fun e s' => PolicyHelper.allocateAndSetRunning ctx p s = .error e s') s := by
  unfold scheduleWaiting
  rw [wp_bind]
  refine wp_mono (wp_and (wp_self _ _) (within_allocateAndSetRunning s)) ?_ fun _ _ h => h.1
  rintro _ s₁ ⟨-, hkinds⟩
  rw [wp_bind, wp_get, wp_bind]
  refine ⟨rfl, rfl, rfl, ?_⟩
  simp only [Statistics4PartialPrefill.maybeIncrementPartialPrefills, hkinds.isLong_eq]

/-- **One round.** It throws only where one of its calls does, or where the block manager says that
there will never be room. -/
theorem wp_generatePrefillBatch :
    wp (generatePrefillBatch ctx now p v) (fun r _ => Round ctx p (s.firstSeq p) v r)
      (fun e s' => serve ctx p v.pass.budget s = .error e s') s := by
  have hget : ∀ t : PolicyState HashValue B,
      (EStateM.get t : EStateM.Result Exn _ _) = .ok t t := fun _ => rfl
  unfold generatePrefillBatch
  rw [wp_bind]
  refine wp_mono (wp_and (wp_self _ _) (within_fillsFreeBlocks s)) ?_ ?_
  swap
  · rintro e s' ⟨h, -⟩
    simp only [serve, bind, EStateM.bind, h]
  rintro fills s₁ ⟨hfills, hkinds₁⟩
  rw [wp_ite]
  refine ⟨fun _ => .refuse, fun _ => ?_⟩
  rw [wp_bind, wp_get, wp_ite]
  refine ⟨fun hany => (Round.leaveOver hany).congr hkinds₁, fun _ => ?_⟩
  rw [wp_bind]
  refine wp_mono (wp_and (wp_self _ _) (within_getNumNewTokens _ _ _ s₁)) ?_ ?_
  swap
  · rintro e s' ⟨h, -⟩
    simp only [serve, bind, EStateM.bind, hfills, h]
  rintro n s₂ ⟨hn, hkinds₂⟩
  rw [wp_ite]
  refine ⟨fun _ => .ignore, fun _ => ?_⟩
  unfold getView
  rw [wp_bind, wp_bind, wp_get, wp_pure, wp_bind]
  refine wp_mono (wp_and (wp_self _ _) (within_onBlockManager _ s₂)) ?_ ?_
  swap
  · rintro e s' ⟨h, -⟩
    simp only [serve, getView, bind, EStateM.bind, hfills, hn, get, getThe, MonadStateOf.get,
      hget, pure, EStateM.pure, h]
  rintro status s₃ ⟨hcan, hkinds₃⟩
  -- the calls up to here, so that only the last one is left
  have hserve : serve ctx p v.pass.budget s = (match status with
      | .later => (return : PolicyM HashValue B Unit)
      | .never => throw (Exn.runtimeError "Prompt sequence too long.")
      | .ok => PolicyHelper.allocateAndSetRunning ctx p) s₃ := by
    simp only [serve, getView, bind, EStateM.bind, hfills, hn, get, getThe, MonadStateOf.get,
      hget, pure, EStateM.pure, hcan]
  cases status with
  | later =>
    rw [wp_bind]
    exact .refuse
  | never => exact hserve
  | ok =>
    rw [wp_bind, wp_bind, wp_get, wp_pure, wp_ite]
    refine ⟨fun _ => .refuse, fun _ => ?_⟩
    rw [wp_ite]
    refine ⟨fun hlong => (Round.keepLong hlong.2).congr hkinds₁, fun _ => ?_⟩
    rw [wp_ite]
    refine ⟨fun hawaits => (Round.keepRecompute hawaits).congr hkinds₁, fun _ => ?_⟩
    rw [wp_bind]
    refine wp_mono (wp_scheduleWaiting n _ v.pass) ?_ fun e s' h => hserve.trans h
    rintro pass s₄ ⟨hgroups, -, hleft, hstatistics⟩
    have hkinds : SameKinds s s₃ :=
      IsTrans.trans _ _ _ (IsTrans.trans _ _ _ hkinds₁ hkinds₂) hkinds₃
    -- the verdict depends on the length of the batch, what is kept does not
    have hround : ∀ v' r, (r = .last v' ∨ r = .next v') →
        v'.longprefillQueue = v.longprefillQueue →
        v'.recomputeprefillQueue = v.recomputeprefillQueue → v'.pass = pass →
        Round ctx p (s.firstSeq p) v r := by
      rintro v' r hverdict hlong hrecompute rfl
      exact (Round.schedule _ hverdict hlong hrecompute hgroups hleft hstatistics).congr hkinds
    rw [wp_ite]
    refine ⟨fun _ => hround _ _ (.inl rfl) rfl rfl rfl, fun _ => ?_⟩
    rw [wp_pure]
    split
    · exact hround _ _ (.inl rfl) rfl rfl rfl
    · exact hround _ _ (.inr rfl) rfl rfl rfl

/-! ## A pass -/

/-- The statistics of a pass once its batch has these groups: the long ones are counted. -/
def withBatch (ctx : PolicyContext) (s : PolicyState HashValue B) (batch : List SeqGroupPtr)
    (st : Statistics4PartialPrefill) : Statistics4PartialPrefill :=
  { st with numLongPrefills := st.numLongPrefills + (batch.filter fun q =>
      Statistics4PartialPrefill.isLong ctx.toPolicyConfig (s.firstSeq q)).length }

/-- The statistics, if there are any, refuse a group beside this batch. -/
def Refused (ctx : PolicyContext) (s : PolicyState HashValue B)
    (statistics : Option Statistics4PartialPrefill) (batch : List SeqGroupPtr) (p : SeqGroupPtr) :
    Prop :=
  ∃ st ∈ statistics, ¬(withBatch ctx s batch st).canSchedule ctx.toPolicyConfig (s.firstSeq p)

/-- Where the groups are: those that are kept or refused are behind what the pass has taken, and
those that are kept are of their kind. The refused ones are in the opposite order. -/
structure Keeping (ctx : PolicyContext) (s : PolicyState HashValue B)
    (statistics : Option Statistics4PartialPrefill) (taken : List SeqGroupPtr)
    (v : LayerwisePass) : Prop where
  long_sublist : v.longprefillQueue.Sublist taken
  long : ∀ p ∈ v.longprefillQueue, IsLong ctx (s.firstSeq p)
  recompute_sublist : v.recomputeprefillQueue.Sublist taken
  recompute : ∀ p ∈ v.recomputeprefillQueue, awaitsReturn (s.firstSeq p)
  refused_sublist : v.pass.leftOverSeqGroups.reverse.Sublist taken
  refused : ∀ p ∈ v.pass.leftOverSeqGroups,
    Refused ctx s statistics (seqGroupsOf v.pass.seqGroups) p
  statistics : v.pass.statistics =
    statistics.map (withBatch ctx s (seqGroupsOf v.pass.seqGroups))

section

omit [BlockSpaceManager HashValue B]

theorem withBatch_concat (batch : List SeqGroupPtr) (st : Statistics4PartialPrefill) :
    withBatch ctx s (batch ++ [p]) st =
      (withBatch ctx s batch st).maybeIncrementPartialPrefills ctx.toPolicyConfig
        (s.firstSeq p) := by
  unfold withBatch Statistics4PartialPrefill.maybeIncrementPartialPrefills
  rw [List.filter_append, List.length_append]
  split_ifs with hlong
  · simp [hlong, Nat.add_assoc]
  · simp [hlong]

/-- What is refused beside a batch is refused beside a larger one. -/
theorem Refused.concat {statistics : Option Statistics4PartialPrefill} {batch : List SeqGroupPtr}
    (h : Refused ctx s statistics batch p) (q : SeqGroupPtr) :
    Refused ctx s statistics (batch ++ [q]) p := by
  obtain ⟨st, hst, hrefused⟩ := h
  refine ⟨st, hst, ?_⟩
  have hle : (withBatch ctx s batch st).numLongPrefills ≤
      (withBatch ctx s (batch ++ [q]) st).numLongPrefills := by
    rw [withBatch_concat]
    unfold Statistics4PartialPrefill.maybeIncrementPartialPrefills
    split_ifs
    · exact Nat.le_succ _
    · exact le_rfl
  simp only [Statistics4PartialPrefill.canSchedule, decide_eq_true_eq, not_or, not_lt]
    at hrefused ⊢
  exact ⟨hrefused.1, hrefused.2.trans hle⟩

/-- One more group is taken off the queue. -/
theorem Round.keeping {statistics : Option Statistics4PartialPrefill} {taken : List SeqGroupPtr}
    (h : Keeping ctx s statistics taken v) {r : Verdict LayerwisePass}
    (hround : Round ctx p (s.firstSeq p) v r) (rest : List SeqGroupPtr) :
    ∃ taken', p :: rest = taken' ++ (r.after p rest).1 ∧
      Keeping ctx s statistics (taken ++ taken') (r.after p rest).2 := by
  have hgrow : taken.Sublist (taken ++ [p]) := List.sublist_append_left _ _
  have hlong := h.long_sublist.trans hgrow
  have hrecompute := h.recompute_sublist.trans hgrow
  have hrefused := h.refused_sublist.trans hgrow
  cases hround with
  | refuse => exact ⟨[], rfl, by rw [List.append_nil]; exact h⟩
  | leaveOver hany =>
    refine ⟨[p], rfl, hlong, h.long, hrecompute, h.recompute, ?_, ?_, h.statistics⟩
    · exact List.reverse_cons ▸ h.refused_sublist.append (.refl [p])
    · refine List.forall_mem_cons.mpr ⟨?_, h.refused⟩
      rw [h.statistics, Option.any_map, Option.any_eq_true] at hany
      obtain ⟨st, hst, hno⟩ := hany
      exact ⟨st, hst, by simpa using hno⟩
  | ignore =>
    exact ⟨[p], rfl, hlong, h.long, hrecompute, h.recompute, hrefused, h.refused, h.statistics⟩
  | keepLong hkind =>
    refine ⟨[p], rfl, h.long_sublist.append (.refl _), ?_, hrecompute, h.recompute, hrefused,
      h.refused, h.statistics⟩
    exact List.forall_mem_append.mpr ⟨h.long, List.forall_mem_singleton.mpr hkind⟩
  | keepRecompute hkind =>
    refine ⟨[p], rfl, hlong, h.long, h.recompute_sublist.append (.refl _), ?_, hrefused,
      h.refused, h.statistics⟩
    exact List.forall_mem_append.mpr ⟨h.recompute, List.forall_mem_singleton.mpr hkind⟩
  | @schedule v' r n hverdict hlongs hrecomputes hgroups hleft hstatistics =>
    have hafter : r.after p rest = (rest, v') := by
      rcases hverdict with rfl | rfl
      · rfl
      · rfl
    have hbatch : seqGroupsOf v'.pass.seqGroups = seqGroupsOf v.pass.seqGroups ++ [p] := by
      rw [hgroups, seqGroupsOf_append, seqGroupsOf_singleton]
    rw [hafter]
    refine ⟨[p], rfl, hlongs ▸ hlong, hlongs ▸ h.long, hrecomputes ▸ hrecompute,
      hrecomputes ▸ h.recompute, hleft ▸ hrefused, ?_, ?_⟩
    · rw [hleft, hbatch]
      exact fun q hq => (h.refused q hq).concat p
    · rw [hstatistics, h.statistics, Option.map_map, hbatch]
      exact congrArg (statistics.map ·) (funext fun st => (withBatch_concat _ st).symm)

end

/-- Where the groups that still wait are after a pass that has taken a part of the queue: in front
those of this part that were set aside, then what was not taken, and last those of the part that the
statistics refused. -/
structure Places (ctx : PolicyContext) (s : PolicyState HashValue B)
    (statistics : Option Statistics4PartialPrefill) (waiting : List SeqGroupPtr)
    (out : PrefillOutputs) (queue : List SeqGroupPtr) : Prop where
  perm : (out.groups ++ queue).Perm waiting
  parts : ∃ taken rest recompute long refused, waiting = taken ++ rest ∧
    queue = recompute ++ long ++ rest ++ refused ∧
    recompute.Sublist taken ∧ (∀ p ∈ recompute, awaitsReturn (s.firstSeq p)) ∧
    long.Sublist taken ∧ (∀ p ∈ long, IsLong ctx (s.firstSeq p)) ∧
    refused.reverse.Sublist taken ∧
    ∀ p ∈ refused, Refused ctx s statistics (seqGroupsOf out.seqGroups) p

theorem wp_drain_keeping {statistics : Option Statistics4PartialPrefill}
    (waiting : List SeqGroupPtr) (hv : Keeping ctx s statistics [] v) :
    wp (drain (generatePrefillBatch ctx now) waiting v)
      (fun r _ => ∃ taken, waiting = taken ++ r.1 ∧ Keeping ctx s statistics taken r.2)
      (fun _ _ => True) s := by
  have hstart : (∃ taken, waiting = taken ++ waiting ∧ Keeping ctx s statistics taken v) ∧
      SameKinds s s := ⟨⟨[], rfl, hv⟩, refl _⟩
  refine wp_mono (wp_drain (T := fun _ _ => True) (I := fun rest v s' =>
    (∃ taken, waiting = taken ++ rest ∧ Keeping ctx s statistics taken v) ∧ SameKinds s s')
    hstart ?_) (fun r s' h => h.1) fun _ _ _ => trivial
  rintro p rest v s₁ ⟨⟨taken, rfl, hkeeping⟩, hkinds⟩
  refine wp_mono (wp_and wp_generatePrefillBatch (within_generatePrefillBatch s₁)) ?_
    fun _ _ _ => trivial
  rintro r s₂ ⟨hround, hkinds₂⟩
  obtain ⟨taken', htaken, hafter⟩ := (hround.congr hkinds).keeping hkeeping rest
  refine ⟨⟨taken ++ taken', ?_, hafter⟩, IsTrans.trans _ _ _ hkinds hkinds₂⟩
  rw [htaken, List.append_assoc]

/-- The variables that a pass starts with. -/
def start (budget : SchedulingBudget) (statistics : Option Statistics4PartialPrefill) :
    LayerwisePass :=
  { pass := ⟨budget, statistics, [], [], []⟩ }

/-- The pass gets to a group that it cannot serve. -/
def Unserved (ctx : PolicyContext) (now : ℕ) (waiting : List SeqGroupPtr)
    (budget : SchedulingBudget) (statistics : Option Statistics4PartialPrefill)
    (s : PolicyState HashValue B) (e : Exn) (s' : PolicyState HashValue B) : Prop :=
  ∃ taken p rest v s₁, waiting = taken ++ p :: rest ∧
    drain (generatePrefillBatch ctx now) taken (start budget statistics) s = .ok ([], v) s₁ ∧
    serve ctx p v.pass.budget s₁ = .error e s'

theorem wp_applyToWaitingQueue (enableChunking : Bool) (waiting : List SeqGroupPtr)
    (budget : SchedulingBudget) (statistics : Option Statistics4PartialPrefill) :
    wp (applyToWaitingQueue ctx now enableChunking waiting budget statistics)
      (fun r _ => Places ctx s statistics waiting r.1 r.2.1)
      (Unserved ctx now waiting budget statistics s) s := by
  have hperm := returns_applyToWaitingQueue (B := B) ctx now enableChunking waiting budget
    statistics s
  have hparts : wp (applyToWaitingQueue ctx now enableChunking waiting budget statistics)
      (fun r _ => ∃ taken rest recompute long refused, waiting = taken ++ rest ∧
        r.2.1 = recompute ++ long ++ rest ++ refused ∧
        recompute.Sublist taken ∧ (∀ p ∈ recompute, awaitsReturn (s.firstSeq p)) ∧
        long.Sublist taken ∧ (∀ p ∈ long, IsLong ctx (s.firstSeq p)) ∧
        refused.reverse.Sublist taken ∧
        ∀ p ∈ refused, Refused ctx s statistics (seqGroupsOf r.1.seqGroups) p)
      (Unserved ctx now waiting budget statistics s) s := by
    unfold applyToWaitingQueue
    rw [wp_bind]
    have hnone : Keeping ctx s statistics [] (start budget statistics) :=
      { long_sublist := .refl _
        long := List.forall_mem_nil _
        recompute_sublist := .refl _
        recompute := List.forall_mem_nil _
        refused_sublist := .refl _
        refused := List.forall_mem_nil _
        statistics := Option.map_id'.symm }
    refine wp_mono (wp_and (wp_self _ _) (wp_drain_keeping waiting hnone)) ?_ ?_
    · rintro ⟨rest, v⟩ s₁ ⟨-, taken, rfl, h⟩
      exact ⟨taken, rest, _, _, _, rfl, rfl, h.recompute_sublist, h.recompute, h.long_sublist,
        h.long, h.refused_sublist, h.refused⟩
    · rintro e s' ⟨herror, -⟩
      obtain ⟨taken, p, rest, v, s₁, hsplit, htaken, hround⟩ := drain_error herror
      have hserve : serve ctx p v.pass.budget s₁ = .error e s' :=
        wp_error (T := fun e s' => serve ctx p v.pass.budget s₁ = .error e s')
          wp_generatePrefillBatch hround
      exact ⟨taken, p, rest, v, s₁, hsplit, htaken, hserve⟩
  exact wp_mono (wp_and hperm hparts) (fun r _ h => ⟨h.1, h.2⟩) fun _ _ h => h.2

/-! ## A long prompt at the head -/

/-- What a group is asked before it is taken into the batch, with the answers that let it in. -/
def Admitted (ctx : PolicyContext) (budget : SchedulingBudget)
    (statistics : Option Statistics4PartialPrefill) (p : SeqGroupPtr)
    (s : PolicyState HashValue B) : Prop :=
  wp (fillsFreeBlocks ctx p) (fun fills s₁ =>
    ¬fills ∧
    ¬statistics.any (!·.canSchedule ctx.toPolicyConfig (s₁.firstSeq p)) ∧
    ¬awaitsReturn (s₁.firstSeq p) ∧
    wp (PolicyHelper.getNumNewTokens ctx p .waiting false budget) (fun n s₂ =>
      ¬((s₁.firstSeq p).outputTokenIds.length = 0 ∧
        PolicyHelper.getPromptLimit ctx.toSchedulerConfig budget < n.1 + n.2) ∧
      wp (onBlockManager (BlockSpaceManager.canAllocate (s₂.view ctx p))) (fun status s₃ =>
        status = .ok ∧
        ¬(n.1 = 0 ∨ !budget.canSchedule n.1 (s₃.view ctx p).getMaxNumRunningSeqs) ∧
        wp (PolicyHelper.allocateAndSetRunning ctx p) (fun _ _ => True) (fun _ _ => False) s₃)
      (fun _ _ => False) s₂)
    (fun _ _ => False) s₁)
  (fun _ _ => False) s

theorem wp_applyToWaitingQueue_long (enableChunking : Bool) (rest : List SeqGroupPtr)
    {budget : SchedulingBudget} {statistics : Option Statistics4PartialPrefill}
    (hlong : IsLong ctx (s.firstSeq p)) (h : Admitted ctx budget statistics p s) :
    wp (applyToWaitingQueue ctx now enableChunking (p :: rest) budget statistics)
      (fun r _ => seqGroupsOf r.1.seqGroups = [p] ∧ r.1.ignoredSeqGroups = [] ∧ r.2.1 = rest)
      (fun _ _ => False) s := by
  unfold applyToWaitingQueue drain generatePrefillBatch
  rw [wp_bind, wp_bind, wp_bind]
  refine wp_mono (wp_and h (within_fillsFreeBlocks s)) ?_ fun _ _ h => h.1
  rintro fills s₁ ⟨⟨hfills, hstatistics, hreturned, hcount⟩, hkinds₁⟩
  rw [wp_ite]
  refine ⟨fun hyes => absurd hyes hfills, fun _ => ?_⟩
  rw [wp_bind, wp_get, wp_ite]
  refine ⟨fun hany => absurd hany hstatistics, fun _ => ?_⟩
  rw [wp_bind]
  refine wp_mono hcount ?_ fun _ _ h => h
  rintro n s₂ ⟨hlimit, hroom⟩
  rw [wp_ite]
  refine ⟨fun hover => absurd hover hlimit, fun _ => ?_⟩
  unfold getView
  rw [wp_bind, wp_bind, wp_get, wp_pure, wp_bind]
  refine wp_mono hroom ?_ fun _ _ h => h
  rintro status s₃ ⟨rfl, hbudget, hallocate⟩
  rw [wp_bind, wp_bind, wp_get, wp_pure, wp_ite]
  refine ⟨fun hno => absurd hno hbudget, fun _ => ?_⟩
  rw [wp_ite]
  refine ⟨fun hkept => absurd hkept.1 (Nat.lt_irrefl 0), fun _ => ?_⟩
  rw [wp_ite]
  refine ⟨fun hawaits => absurd hawaits hreturned, fun _ => ?_⟩
  rw [wp_bind]
  have hlong₁ : IsLong ctx (s₁.firstSeq p) := hlong.trans_eq hkinds₁.promptTokenIdsLen_eq.symm
  refine wp_mono (wp_scheduleWaiting n _ _) ?_ ?_
  · rintro pass s₄ ⟨hscheduled, hignored, hleftOver, -⟩
    rw [wp_ite]
    refine ⟨fun _ => ?_, fun hshort => absurd ⟨rfl, hlong₁⟩ hshort⟩
    refine ⟨?_, hignored, ?_⟩
    · rw [hscheduled, seqGroupsOf_append, seqGroupsOf_nil, seqGroupsOf_singleton, List.nil_append]
    · dsimp only
      rw [hleftOver, List.append_nil, List.nil_append, List.nil_append]
  · intro e s' herror
    exact wp_error hallocate herror

/-- **Every group and its place.** A pass that can serve the groups it gets to leaves each of them
in the batch, among the ignored ones or in the queue, where each kind has kept its order; and a long
prompt at the head that is admitted has the batch to itself. -/
theorem applyToWaitingQueue_places (ctx : PolicyContext) (now : ℕ) (enableChunking : Bool)
    (waiting : List SeqGroupPtr) (budget : SchedulingBudget)
    (statistics : Option Statistics4PartialPrefill) (s : PolicyState HashValue B) :
    wp (applyToWaitingQueue ctx now enableChunking waiting budget statistics)
        (fun r _ => Places ctx s statistics waiting r.1 r.2.1)
        (Unserved ctx now waiting budget statistics s) s ∧
      ∀ p rest, waiting = p :: rest → IsLong ctx (s.firstSeq p) →
        Admitted ctx budget statistics p s →
        wp (applyToWaitingQueue ctx now enableChunking waiting budget statistics)
          (fun r _ => seqGroupsOf r.1.seqGroups = [p] ∧ r.1.ignoredSeqGroups = [] ∧ r.2.1 = rest)
          (fun _ _ => False) s := by
  refine ⟨wp_applyToWaitingQueue enableChunking waiting budget statistics, ?_⟩
  rintro p rest rfl hlong hadmitted
  exact wp_applyToWaitingQueue_long enableChunking rest hlong hadmitted

/-! ### A recomputed group behind a long prompt -/

section LongFirst

open SelfAttnBlockManager

def eightBlocksConfig : BlockManagerConfig where
  cacheBlockSize := 2
  cpuBlockNum := 0
  npuBlockNum := 8
  reservedBlockNum := 0
  speculativeSlots := 0

/-- Eight blocks of two tokens, all free. -/
def eightBlocks : SelfAttnBlockManager UInt64 (HashLessBlockAllocator UInt64) :=
  (SelfAttnBlockManager.new eightBlocksConfig).toOption.get rfl

/-- Prompts of three tokens are long. -/
def shortContext : PolicyContext where
  cacheBlockSize := 2
  maxSeqLen := 8
  longprefillLenThreshold := 3
  sampling := fun _ => {}

def shortPtr : SeqGroupPtr := ⟨0, "short", 1⟩
def longPtr : SeqGroupPtr := ⟨1, "long", 2⟩
def againPtr : SeqGroupPtr := ⟨2, "again", 3⟩

def waitingSeq (seqId : SequenceId) (promptTokenIds : List TokenId) : Sequence UInt64 where
  seqId := seqId
  promptTokenIds := promptTokenIds
  outputTokenIds := []
  stage := .prefill
  numComputedTokens := 0
  status := .waiting
  hashValue := 0

/-- A short prompt, a long one, and a group that is to be computed again. -/
def longFirst : PolicyState UInt64 (SelfAttnBlockManager UInt64 (HashLessBlockAllocator UInt64))
    where
  groups p := {
    firstSeq :=
      if p = shortPtr then waitingSeq 1 [7]
      else if p = longPtr then waitingSeq 2 [7, 8, 9]
      else
        { waitingSeq 3 [7] with
          outputTokenIds := [8]
          layerwise := { layerwiseStage := .prefill, layerwiseRecompute := true } } }
  blockManager := eightBlocks

theorem not_sublist_longFirst :
    valueOf ((fun r => (seqGroupsOf r.1.seqGroups, r.1.ignoredSeqGroups, r.2.1)) <$>
        applyToWaitingQueue shortContext 0 false [shortPtr, longPtr, againPtr]
          (.new 16 4 shortContext.toSchedulerConfig) none) longFirst =
      some ([shortPtr], [], [againPtr, longPtr]) ∧
    ¬[againPtr, longPtr].Sublist [shortPtr, longPtr, againPtr] := by
  constructor
  · decide +kernel
  · decide

end LongFirst

end LayerwiseFcfsPolicy

end MindieLLM
