import MindieLLM.Scheduler.PDDSPolicy

/-!
# The policies lose no group

Whatever the block manager answers, the outputs of a policy are the groups of the collection it was
given, each as often as it was there.

## Main definitions

* `SeqGroupCollection.groups`, `PolicyOutput.groups`: the groups a policy takes and returns

## Main results

* `Policy.returns_apply`: a policy shares out the groups of its collection
-/

namespace MindieLLM

open Program

variable {HashValue B : Type}

def SeqGroupCollection.groups (c : SeqGroupCollection) : List SeqGroupPtr :=
  c.waiting ++ c.running ++ c.swapped

def PrefillOutputs.groups (out : PrefillOutputs) : List SeqGroupPtr :=
  seqGroupsOf out.seqGroups ++ out.ignoredSeqGroups

def RunningOutputs.groups (out : RunningOutputs) : List SeqGroupPtr :=
  out.preempted ++ out.swappedOut ++ seqGroupsOf out.decodeSeqGroups ++
    seqGroupsOf out.chunkedPrefillSeqGroups

def SwappedInOutputs.groups (out : SwappedInOutputs) : List SeqGroupPtr :=
  seqGroupsOf out.decodeSeqGroups ++ seqGroupsOf out.chunkedPrefillSeqGroups ++
    out.infeasibleSeqGroups

def PolicyOutput.groups (out : PolicyOutput) : List SeqGroupPtr :=
  out.withdrewSeqGroups ++ out.preemptedSeqGroups ++ seqGroupsOf out.prefillSeqGroups ++
    seqGroupsOf out.decodeSeqGroups ++ out.swappedOutSeqGroups ++ out.ignoredSeqGroups

/-- The list of prefills that the outputs are tested by is empty only if there are none. -/
def RunningOutputs.Listed (out : RunningOutputs) : Prop :=
  out.prefillSeqGroupsList = [] → out.chunkedPrefillSeqGroups = []

namespace FcfsPolicy

variable [BlockSpaceManager HashValue B] (ctx : PolicyContext) {p : SeqGroupPtr}

/-! ## The waiting queue -/

def WaitingPass.groups (v : WaitingPass) : List SeqGroupPtr :=
  seqGroupsOf v.seqGroups ++ v.ignoredSeqGroups ++ v.leftOverSeqGroups

theorem returns_scheduleWaiting (enableChunking : Bool) (numNewTokens : Nat × Nat)
    (numNewSeqs : Nat) (v : WaitingPass) :
    Returns (scheduleWaiting ctx enableChunking p numNewTokens numNewSeqs v :
      PolicyM HashValue B WaitingPass) fun v' => v'.groups.Perm (p :: v.groups) := by
  unfold scheduleWaiting
  refine .skip fun _ => .skip fun _ => .skip fun _ => returns_pure ?_
  rw [List.perm_iff_count]
  intro q
  simp [WaitingPass.groups, List.count_cons, List.count_append]
  omega

/-- One round of the loop over the waiting queue moves at most the group at its front. -/
theorem returns_considerWaiting (now : Nat) (enableChunking : Bool) (v : WaitingPass) :
    Returns (considerWaiting ctx now enableChunking p v : PolicyM HashValue B _) fun r =>
      ∀ rest, ((r.after p rest).1 ++ (r.after p rest).2.groups).Perm (p :: rest ++ v.groups) := by
  unfold considerWaiting
  refine .skip fun _ => returns_ite (fun _ => returns_pure fun _ => .refl _) fun _ => ?_
  refine .skip fun _ => returns_ite (fun _ => returns_pure fun rest => ?_) fun _ => ?_
  · rw [List.perm_iff_count]
    intro q
    simp [WaitingPass.groups, List.count_cons, List.count_append]
    omega
  refine .skip fun numNewTokens => returns_ite (fun _ => ?_) fun _ => ?_
  · refine .skip fun _ => returns_pure fun rest => ?_
    rw [List.perm_iff_count]
    intro q
    simp [WaitingPass.groups, List.count_cons, List.count_append]
    omega
  refine .skip fun _ => .skip fun status => ?_
  cases status with
  | later => exact .skip fun _ => returns_pure fun _ => .refl _
  | never => exact returns_throw _
  | ok =>
    refine .skip fun _ => returns_ite (fun _ => returns_pure fun _ => .refl _) fun _ => ?_
    refine (returns_scheduleWaiting ctx enableChunking _ _ v).bind fun v' hv' => ?_
    refine returns_pure fun rest => ?_
    exact (hv'.append_left rest).trans List.perm_middle

theorem returns_applyToWaitingQueue (now : Nat) (enableChunking : Bool) (waiting : List SeqGroupPtr)
    (budget : SchedulingBudget) (statistics : Option Statistics4PartialPrefill) :
    Returns (applyToWaitingQueue ctx now enableChunking waiting budget statistics :
      PolicyM HashValue B _) fun r => (r.1.groups ++ r.2.1).Perm waiting := by
  unfold applyToWaitingQueue
  have hloop := returns_drain (f := considerWaiting (B := B) ctx now enableChunking)
    (I := fun rest v => (rest ++ v.groups).Perm waiting) (l := waiting)
    (v := ⟨budget, statistics, [], [], []⟩) (by simp [WaitingPass.groups])
    fun p rest v hI => (returns_considerWaiting ctx now enableChunking v).mono
      fun r hr => (hr rest).trans hI
  refine hloop.bind fun r hr => returns_pure ?_
  refine List.Perm.trans ?_ hr
  rw [List.perm_iff_count]
  intro q
  simp [WaitingPass.groups, PrefillOutputs.groups, List.count_append]
  omega

/-! ## Preemption -/

/-- The outputs of a pass are those of an earlier one and the given groups. -/
structure RunningPass.Adds (ps : List SeqGroupPtr) (v v' : RunningPass) : Prop where
  groups : v'.out.groups.Perm (ps ++ v.out.groups)
  listed : v.out.Listed → v'.out.Listed

namespace RunningPass.Adds

variable {ps qs : List SeqGroupPtr} {v v' v'' : RunningPass}

theorem addCopies (v : RunningPass) (copies : List (BlockId × BlockId)) :
    Adds [] v (addCopies v copies) := ⟨.refl _, id⟩

theorem preempted (p : SeqGroupPtr) (v : RunningPass) :
    Adds [p] v { v with out := { v.out with preempted := v.out.preempted ++ [p] } } := by
  refine ⟨?_, id⟩
  rw [List.perm_iff_count]
  intro q
  simp [RunningOutputs.groups, List.count_append, List.count_cons]
  omega

protected theorem trans (h : Adds ps v v') (h' : Adds qs v' v'') : Adds (ps ++ qs) v v'' := by
  refine ⟨?_, fun hv => h'.listed (h.listed hv)⟩
  refine h'.groups.trans ?_
  rw [List.append_assoc]
  exact (h.groups.append_left qs).trans (List.perm_append_comm_assoc _ _ _)

end RunningPass.Adds

theorem returns_preempt (v : RunningPass) :
    Returns (preempt ctx p v : PolicyM HashValue B RunningPass) (RunningPass.Adds [p] v) := by
  unfold preempt
  refine .skip fun _ => returns_ite (fun _ => .skip fun _ => returns_pure ⟨?_, id⟩) fun _ =>
    .skip fun _ => returns_pure (.preempted p v)
  rw [List.perm_iff_count]
  intro q
  simp [RunningOutputs.groups, List.count_append, List.count_cons]
  omega

theorem returns_preemptVictim (v : RunningPass) :
    Returns (preemptVictim ctx p v : PolicyM HashValue B RunningPass) (RunningPass.Adds [p] v) := by
  unfold preemptVictim
  exact (returns_preempt ctx v).bind fun v' hv' => .skip fun _ => returns_pure hv'

theorem returns_needsRoom (v : RunningPass) :
    Returns (needsRoom ctx p v : PolicyM HashValue B (Bool × RunningPass)) fun r =>
      RunningPass.Adds [] v r.2 := by
  have hcopies := RunningPass.Adds.addCopies v
  unfold needsRoom
  refine returns_ite (fun _ => returns_pure ⟨.refl _, id⟩) fun _ => .skip fun r => ?_
  refine returns_ite (fun _ => returns_pure (hcopies _)) fun _ => .skip fun _ => ?_
  exact returns_ite (fun _ => returns_pure (hcopies _)) fun _ =>
    .skip fun _ => returns_pure (hcopies _)

omit [BlockSpaceManager HashValue B] in
/-- **Making room.** The groups that are taken off the queue are in the outputs, and so is the
group itself if there is no room for it. -/
theorem returns_makeRoom
    {needsRoom : RunningPass → PolicyM HashValue B (Bool × RunningPass)}
    {preempt : SeqGroupPtr → RunningPass → PolicyM HashValue B RunningPass}
    (hneeds : ∀ v, Returns (needsRoom v) fun r => RunningPass.Adds [] v r.2)
    (hpreempt : ∀ q v, Returns (preempt q v) (RunningPass.Adds [q] v))
    (victims : List SeqGroupPtr) (v : RunningPass) :
    Returns (makeRoom needsRoom preempt p victims v) fun r =>
      ∃ taken, victims = taken ++ r.1 ∧
        RunningPass.Adds (if r.2.2 then taken else taken ++ [p]) v r.2.1 := by
  induction victims generalizing v with
  | nil =>
    unfold makeRoom
    refine (hneeds v).bind fun r hr => ?_
    refine returns_ite (fun _ => returns_pure ⟨[], rfl, hr⟩) fun _ => ?_
    refine (hpreempt p r.2).bind fun v' hv' => returns_pure ⟨[], rfl, ?_⟩
    exact hr.trans hv'
  | cons victim rest ih =>
    unfold makeRoom
    refine (hneeds v).bind fun r hr => ?_
    refine returns_ite (fun _ => returns_pure ⟨[], rfl, hr⟩) fun _ => ?_
    refine (hpreempt victim r.2).bind fun v' hv' => (ih v').mono fun r' hr' => ?_
    obtain ⟨taken, rfl, hadds⟩ := hr'
    refine ⟨victim :: taken, rfl, ?_⟩
    have hall := (hr.trans hv').trans hadds
    split_ifs at hall ⊢ <;> exact hall

/-! ## The running queue -/

/-- What a round of a loop over the running queue leaves. -/
structure RunningPass.Moves (p : SeqGroupPtr) (rest : List SeqGroupPtr) (v : RunningPass)
    (rest' : List SeqGroupPtr) (v' : RunningPass) : Prop where
  groups : (rest' ++ v'.out.groups).Perm (p :: rest ++ v.out.groups)
  listed : v.out.Listed → v'.out.Listed
  shorter : rest'.length ≤ rest.length

/-- Groups at the end of the queue and the group at its front are entered into the outputs. -/
theorem RunningPass.Adds.moves {rest taken left : List SeqGroupPtr} {v v' : RunningPass}
    (h : Adds (taken ++ [p]) v v') (hrest : rest.reverse = taken ++ left) :
    Moves p rest v left.reverse v' := by
  have hperm : rest.Perm (taken ++ left) := by
    rw [← hrest]
    exact rest.reverse_perm.symm
  refine ⟨?_, h.listed, ?_⟩
  · have hgroups := h.groups
    rw [List.perm_iff_count] at hgroups hperm ⊢
    intro q
    have hq := hgroups q
    have hq' := hperm q
    simp only [List.count_append, List.count_cons, List.count_nil, List.count_reverse,
      List.cons_append] at hq hq' ⊢
    omega
  · have hlen := hperm.length_eq
    simp only [List.length_append, List.length_reverse] at hlen ⊢
    omega

omit [BlockSpaceManager HashValue B] in
theorem returns_enterRunning (enableChunking : Bool) (numUncachedNewTokens : Nat)
    (v : RunningPass) :
    Returns (enterRunning ctx enableChunking p numUncachedNewTokens v :
      PolicyM HashValue B RunningPass) (RunningPass.Adds [p] v) := by
  unfold enterRunning
  refine .skip fun _ => .skip fun seqGroup => returns_pure ?_
  by_cases hprefill : seqGroup.firstSeq.isPrefill
  all_goals
    refine ⟨?_, fun hv => ?_⟩
    · rw [List.perm_iff_count]
      intro q
      simp [hprefill, RunningOutputs.groups, List.count_append, List.count_cons]
      omega
    · revert hv
      simp [RunningOutputs.Listed, hprefill]

theorem returns_considerRunning (enableChunking : Bool) (rest : List SeqGroupPtr)
    (v : RunningPass) :
    Returns (considerRunning ctx enableChunking p rest v : PolicyM HashValue B _) fun r =>
      ∀ q, r = some q → RunningPass.Moves p rest v q.1 q.2 := by
  unfold considerRunning
  refine .skip fun _ => .skip fun _ => returns_ite (fun _ => returns_pure (by simp)) fun _ => ?_
  refine (returns_makeRoom (returns_needsRoom ctx) (fun q => returns_preemptVictim ctx) _ v).bind
    fun r hr => ?_
  obtain ⟨taken, hrest, hadds⟩ := hr
  refine returns_ite (fun hroom => returns_pure ?_) fun hroom => ?_
  -- there is no room: the group is among the preempted
  · rw [if_neg (by simpa using hroom)] at hadds
    rintro q ⟨⟩
    exact hadds.moves hrest
  rw [if_pos (by simpa using hroom)] at hadds
  refine .skip fun _ => returns_ite (fun _ => .skip fun _ => returns_pure ?_) fun _ => ?_
  · rintro q ⟨⟩
    refine (hadds.trans ?_).moves hrest
    exact RunningPass.Adds.preempted p r.2.1
  · unfold scheduleRunningSeqGroup
    refine Returns.bind (P := RunningPass.Adds [p] r.2.1) ?_ fun v' hv' => returns_pure ?_
    · refine .skip fun copies => (returns_enterRunning ctx enableChunking _ _).mono fun v' hv' => ?_
      exact (RunningPass.Adds.addCopies r.2.1 copies).trans hv'
    · rintro q ⟨⟩
      exact (hadds.trans hv').moves hrest

/-- The bound on the rounds of the loop over the running queue is never met early: each round
takes a group off the queue. -/
theorem consume_considerRunning (enableChunking : Bool) (running : List SeqGroupPtr)
    (v : RunningPass) {n : Nat} (hn : running.length ≤ n) :
    consume (considerRunning (B := B) ctx enableChunking) n running v =
      consume (considerRunning ctx enableChunking) running.length running v :=
  consume_of_length_le (fun _ rest v => (returns_considerRunning ctx enableChunking rest v).mono
    fun _ hr q hq => (hr q hq).shorter) v hn

theorem returns_applyToRunningQueue (enableChunking : Bool) (running : List SeqGroupPtr)
    (budget : SchedulingBudget) :
    Returns (applyToRunningQueue ctx enableChunking running budget : PolicyM HashValue B _) fun r =>
      (r.1.groups ++ r.2.1).Perm running ∧ r.1.Listed := by
  unfold applyToRunningQueue
  have hloop := returns_consume (f := considerRunning (B := B) ctx enableChunking)
    (I := fun rest v => (rest ++ v.out.groups).Perm running ∧ v.out.Listed) (n := running.length)
    (l := running) (v := ⟨budget, {}, 0⟩)
    ⟨by simp [RunningOutputs.groups], fun _ => rfl⟩
    fun _ rest v hI => (returns_considerRunning ctx enableChunking rest v).mono fun r hr q hq =>
      ⟨(hr q hq).groups.trans hI.1, (hr q hq).listed hI.2⟩
  exact hloop.bind fun r hr => returns_pure ⟨List.perm_append_comm.trans hr.1, hr.2⟩

/-! ## The swapped queue -/

theorem returns_considerSwapped (enableChunking : Bool) (v : SwappedPass) :
    Returns (considerSwapped ctx enableChunking p v : PolicyM HashValue B _) fun r =>
      ∀ rest, ((r.after p rest).1 ++ (r.after p rest).2.out.groups).Perm
        (p :: rest ++ v.out.groups) := by
  unfold considerSwapped
  refine .skip fun status => ?_
  cases status with
  | later => exact returns_pure fun _ => .refl _
  | never => exact returns_throw _
  | ok =>
    refine .skip fun r => returns_ite (fun _ => returns_pure fun _ => .refl _) fun _ => ?_
    refine .skip fun _ => .skip fun _ =>
      returns_ite (fun _ => returns_pure fun _ => .refl _) fun _ => ?_
    refine .skip fun _ => .skip fun _ => .skip fun _ => ?_
    refine returns_ite (fun _ => .skip fun _ => returns_pure fun rest => ?_) fun _ =>
      .skip fun _ => returns_pure fun rest => ?_
    all_goals
      rw [List.perm_iff_count]
      intro q
      simp [SwappedInOutputs.groups, List.count_append, List.count_cons]
      omega

theorem returns_applyToSwappedQueue (enableChunking : Bool) (swapped : List SeqGroupPtr)
    (budget : SchedulingBudget) :
    Returns (applyToSwappedQueue ctx enableChunking swapped budget : PolicyM HashValue B _) fun r =>
      (r.1.groups ++ r.2.1).Perm swapped := by
  unfold applyToSwappedQueue
  have hloop := returns_drain (f := considerSwapped (B := B) ctx enableChunking)
    (I := fun rest v => (rest ++ v.out.groups).Perm swapped) (l := swapped) (v := ⟨budget, {}⟩)
    (by simp [SwappedInOutputs.groups])
    fun p rest v hI => (returns_considerSwapped ctx enableChunking v).mono
      fun r hr => (hr rest).trans hI
  exact hloop.bind fun r hr => returns_pure (List.perm_append_comm.trans hr)

theorem returns_maybeApplyToSwappedQueue (enableChunking : Bool) (runningOut : RunningOutputs)
    (swapped : List SeqGroupPtr) (budget : SchedulingBudget) :
    Returns (maybeApplyToSwappedQueue ctx enableChunking runningOut swapped budget :
      PolicyM HashValue B _) fun r => (r.1.groups ++ r.2.1).Perm swapped := by
  unfold maybeApplyToSwappedQueue
  exact returns_ite (fun _ => returns_applyToSwappedQueue ctx enableChunking swapped budget)
    fun _ => returns_pure (.refl _)

/-! ## The policy -/

theorem groups_buildPolicyOutput (prefillOut : PrefillOutputs) {runningOut : RunningOutputs}
    (swappedInOut : SwappedInOutputs) (left : SeqGroupCollection) (budget : SchedulingBudget)
    (hlisted : runningOut.Listed) :
    (buildPolicyOutput prefillOut runningOut swappedInOut left budget).groups.Perm
      ((prefillOut.groups ++ left.waiting) ++ (runningOut.groups ++ left.running) ++
        (swappedInOut.groups ++ left.swapped)) := by
  have hchunked : (if runningOut.prefillSeqGroupsList ≠ [] then
      runningOut.chunkedPrefillSeqGroups else []) = runningOut.chunkedPrefillSeqGroups := by
    split_ifs with hlist
    · rfl
    · exact (hlisted (not_not.mp hlist)).symm
  rw [List.perm_iff_count]
  intro q
  simp only [PolicyOutput.groups, buildPolicyOutput, hchunked, PrefillOutputs.groups,
    RunningOutputs.groups, SwappedInOutputs.groups, seqGroupsOf_append, List.count_append]
  omega

/-- The passes over the two queues lose no group. -/
structure Passes.Conserve (passes : Passes HashValue B) : Prop where
  waiting : ∀ enableChunking waiting budget statistics,
    Returns (passes.applyToWaitingQueue enableChunking waiting budget statistics) fun r =>
      (r.1.groups ++ r.2.1).Perm waiting
  running : ∀ enableChunking running budget,
    Returns (passes.applyToRunningQueue enableChunking running budget) fun r =>
      (r.1.groups ++ r.2.1).Perm running ∧ r.1.Listed

theorem conserve_passes (now : Nat) : Passes.Conserve (passes ctx now : Passes HashValue B) where
  waiting := returns_applyToWaitingQueue ctx now
  running := returns_applyToRunningQueue ctx

section

variable {passes : Passes HashValue B} (hpasses : passes.Conserve)
  (collection : SeqGroupCollection) (budget : SchedulingBudget)

include hpasses

omit [BlockSpaceManager HashValue B] in
theorem returns_schedulePrefill :
    Returns (schedulePrefill passes collection budget) fun out =>
      out.groups.Perm collection.groups ∧ out.preemptedSeqGroups = [] := by
  unfold schedulePrefill
  refine (hpasses.waiting _ _ _ _).bind fun w hw => returns_pure ⟨?_, rfl⟩
  refine (groups_buildPolicyOutput _ _ _ _ fun _ => rfl).trans ?_
  exact (hw.append_right _).append_right _

theorem returns_scheduleDecode :
    Returns (scheduleDecode ctx passes collection budget) fun out =>
      out.groups.Perm collection.groups := by
  unfold scheduleDecode
  refine (hpasses.running _ _ _).bind fun r hr => ?_
  refine (returns_maybeApplyToSwappedQueue ctx _ _ _ _).bind fun s hs => returns_pure ?_
  refine (groups_buildPolicyOutput _ _ _ _ hr.2).trans ?_
  exact (hr.1.append_left _).append hs

theorem returns_scheduleChunkedPrefill :
    Returns (scheduleChunkedPrefill ctx passes collection budget) fun out =>
      out.groups.Perm collection.groups := by
  unfold scheduleChunkedPrefill
  refine .skip fun _ => (hpasses.running _ _ _).bind fun r hr => ?_
  refine (returns_maybeApplyToSwappedQueue ctx _ _ _ _).bind fun s hs => ?_
  refine (hpasses.waiting _ _ _ _).bind fun w hw => returns_pure ?_
  refine (groups_buildPolicyOutput _ _ _ _ hr.2).trans ?_
  exact (hw.append hr.1).append hs

theorem returns_round :
    Returns (apply ctx passes collection budget) fun out =>
      out.groups.Perm collection.groups := by
  unfold apply
  cases collection.pdPriorityType with
  | prefillFirst =>
    exact (returns_schedulePrefill hpasses collection budget).mono fun _ h => h.1
  | decodeFirst => exact returns_scheduleDecode ctx hpasses collection budget
  | mix => exact returns_scheduleChunkedPrefill ctx hpasses collection budget

end

end FcfsPolicy

/-! ## The layer-wise disaggregation -/

namespace LayerwiseFcfsPolicy

open FcfsPolicy

variable [BlockSpaceManager HashValue B] (ctx : PolicyContext) {p : SeqGroupPtr}

def LayerwisePass.groups (v : LayerwisePass) : List SeqGroupPtr :=
  v.pass.groups ++ v.longprefillQueue ++ v.recomputeprefillQueue

theorem returns_generatePrefillBatch (now : Nat) (v : LayerwisePass) :
    Returns (generatePrefillBatch ctx now p v : PolicyM HashValue B _) fun r =>
      ∀ rest, ((r.after p rest).1 ++ (r.after p rest).2.groups).Perm (p :: rest ++ v.groups) := by
  unfold generatePrefillBatch
  refine .skip fun _ => returns_ite (fun _ => returns_pure fun _ => .refl _) fun _ => ?_
  refine .skip fun seq => returns_ite (fun _ => returns_pure fun rest => ?_) fun _ => ?_
  · rw [List.perm_iff_count]
    intro q
    simp [LayerwisePass.groups, WaitingPass.groups, List.count_cons, List.count_append]
    omega
  refine .skip fun numNewTokens => returns_ite (fun _ => .skip fun _ => ?_) fun _ => ?_
  · refine returns_pure fun rest => ?_
    rw [List.perm_iff_count]
    intro q
    simp [LayerwisePass.groups, WaitingPass.groups, List.count_cons, List.count_append]
    omega
  refine .skip fun _ => .skip fun status => ?_
  cases status with
  | later => exact .skip fun _ => returns_pure fun _ => .refl _
  | never => exact returns_throw _
  | ok =>
    refine .skip fun _ => returns_ite (fun _ => returns_pure fun _ => .refl _) fun _ => ?_
    -- the two queues of groups that are kept for a later batch
    refine returns_ite (fun _ => returns_pure fun rest => ?_) fun _ =>
      returns_ite (fun _ => returns_pure fun rest => ?_) fun _ => ?_
    · rw [List.perm_iff_count]
      intro q
      simp [LayerwisePass.groups, List.count_cons, List.count_append]
      omega
    · rw [List.perm_iff_count]
      intro q
      simp [LayerwisePass.groups, List.count_cons, List.count_append]
      omega
    refine (returns_scheduleWaiting ctx false _ _ v.pass).bind fun pass hpass => ?_
    have hscheduled : ∀ rest : List SeqGroupPtr,
        (rest ++ LayerwisePass.groups { v with pass := pass }).Perm (p :: rest ++ v.groups) := by
      intro rest
      rw [List.perm_iff_count] at hpass ⊢
      intro q
      have hq := hpass q
      simp only [LayerwisePass.groups, List.count_cons, List.count_append] at hq ⊢
      omega
    refine returns_ite (fun _ => returns_pure hscheduled) fun _ => returns_pure fun rest => ?_
    split_ifs <;> exact hscheduled rest

theorem returns_applyToWaitingQueue (now : Nat) (enableChunking : Bool) (waiting : List SeqGroupPtr)
    (budget : SchedulingBudget) (statistics : Option Statistics4PartialPrefill) :
    Returns (applyToWaitingQueue ctx now enableChunking waiting budget statistics :
      PolicyM HashValue B _) fun r => (r.1.groups ++ r.2.1).Perm waiting := by
  unfold applyToWaitingQueue
  have hloop := returns_drain (f := generatePrefillBatch (B := B) ctx now)
    (I := fun rest v => (rest ++ v.groups).Perm waiting) (l := waiting)
    (v := { pass := ⟨budget, statistics, [], [], []⟩ })
    (by simp [LayerwisePass.groups, WaitingPass.groups])
    fun p rest v hI => (returns_generatePrefillBatch ctx now v).mono fun r hr => (hr rest).trans hI
  refine hloop.bind fun r hr => returns_pure ?_
  refine List.Perm.trans ?_ hr
  rw [List.perm_iff_count]
  intro q
  simp [LayerwisePass.groups, WaitingPass.groups, PrefillOutputs.groups, List.count_append]
  omega

theorem returns_needsRoom (v : RunningPass) :
    Returns (needsRoom ctx p v : PolicyM HashValue B (Bool × RunningPass)) fun r =>
      RunningPass.Adds [] v r.2 := by
  unfold needsRoom
  exact .skip fun _ => returns_ite (fun _ => returns_pure ⟨.refl _, id⟩) fun _ =>
    .skip fun _ => returns_pure (RunningPass.Adds.addCopies v _)

theorem returns_considerRunning (enableChunking : Bool) (rest : List SeqGroupPtr)
    (v : RunningPass × List SeqGroupPtr) :
    Returns (considerRunning ctx enableChunking p rest v : PolicyM HashValue B _) fun r =>
      ∀ q, r = some q → (q.1 ++ (q.2.1.out.groups ++ q.2.2)).Perm
        (p :: rest ++ (v.1.out.groups ++ v.2)) ∧
        (v.1.out.Listed → q.2.1.out.Listed) ∧ q.1.length ≤ rest.length := by
  unfold considerRunning
  refine .skip fun _ => .skip fun _ => returns_ite (fun _ => returns_pure (by simp)) fun _ => ?_
  refine (returns_makeRoom (returns_needsRoom ctx) (fun q => returns_preempt ctx) _ v.1).bind
    fun r hr => ?_
  obtain ⟨taken, hrest, hadds⟩ := hr
  have hkept : ∀ {rest' : List SeqGroupPtr} {v' : RunningPass},
      RunningPass.Moves p rest v.1 rest' v' →
        (rest' ++ (v'.out.groups ++ v.2)).Perm (p :: rest ++ (v.1.out.groups ++ v.2)) ∧
          (v.1.out.Listed → v'.out.Listed) ∧ rest'.length ≤ rest.length := by
    intro rest' v' h
    refine ⟨?_, h.listed, h.shorter⟩
    simpa only [List.append_assoc] using h.groups.append_right v.2
  refine returns_ite (fun hroom => returns_pure ?_) fun hroom => ?_
  · rw [if_neg (by simpa using hroom)] at hadds
    rintro q ⟨⟩
    exact hkept (hadds.moves hrest)
  rw [if_pos (by simpa using hroom)] at hadds
  refine .skip fun _ => returns_ite (fun _ => returns_pure ?_) fun _ => .skip fun copies => ?_
  · -- set aside: as if it had been entered into the outputs
    rintro q ⟨⟩
    have hmoves := (hadds.trans (RunningPass.Adds.preempted p r.2.1)).moves hrest
    refine ⟨?_, hadds.listed, hmoves.shorter⟩
    change (r.1.reverse ++ (r.2.1.out.groups ++ (v.2 ++ [p]))).Perm _
    have hgroups := hmoves.groups
    rw [List.perm_iff_count] at hgroups ⊢
    intro q
    have hq := hgroups q
    simp only [RunningOutputs.groups, List.count_append, List.count_cons, List.count_nil,
      List.cons_append] at hq ⊢
    omega
  · refine (returns_enterRunning ctx enableChunking _ _).bind fun v' hv' => returns_pure ?_
    rintro q ⟨⟩
    exact hkept ((hadds.trans ((RunningPass.Adds.addCopies r.2.1 copies).trans hv')).moves hrest)

theorem consume_considerRunning (enableChunking : Bool) (running : List SeqGroupPtr)
    (v : RunningPass × List SeqGroupPtr) {n : Nat} (hn : running.length ≤ n) :
    consume (considerRunning (B := B) ctx enableChunking) n running v =
      consume (considerRunning ctx enableChunking) running.length running v :=
  consume_of_length_le (fun _ rest v => (returns_considerRunning ctx enableChunking rest v).mono
    fun _ hr q hq => (hr q hq).2.2) v hn

theorem returns_applyToRunningQueue (enableChunking : Bool) (running : List SeqGroupPtr)
    (budget : SchedulingBudget) :
    Returns (applyToRunningQueue ctx enableChunking running budget : PolicyM HashValue B _) fun r =>
      (r.1.groups ++ r.2.1).Perm running ∧ r.1.Listed := by
  unfold applyToRunningQueue
  have hloop := returns_consume (f := considerRunning (B := B) ctx enableChunking)
    (I := fun rest v => (rest ++ (v.1.out.groups ++ v.2)).Perm running ∧ v.1.out.Listed)
    (n := running.length) (l := running) (v := (⟨budget, {}, 0⟩, []))
    ⟨by simp [RunningOutputs.groups], fun _ => rfl⟩
    fun _ rest v hI => (returns_considerRunning ctx enableChunking rest v).mono fun r hr q hq =>
      ⟨(hr q hq).1.trans hI.1, (hr q hq).2.1 hI.2⟩
  refine hloop.bind fun r hr => returns_pure ⟨?_, hr.2⟩
  refine List.Perm.trans ?_ hr.1
  rw [← List.append_assoc]
  exact List.perm_append_comm

theorem conserve_passes (now : Nat) : Passes.Conserve (passes ctx now : Passes HashValue B) where
  waiting := returns_applyToWaitingQueue ctx now
  running := returns_applyToRunningQueue ctx

end LayerwiseFcfsPolicy

/-! ## Disaggregated nodes -/

section

variable [BlockSpaceManager HashValue B] (ctx : PolicyContext)

namespace PDDSPolicy

open FcfsPolicy

theorem returns_scheduleChunkedPrefill (now : Nat) (collection : SeqGroupCollection)
    (budget : SchedulingBudget) :
    Returns (scheduleChunkedPrefill ctx now collection budget : PolicyM HashValue B PolicyOutput)
      fun out => out.groups.Perm collection.groups := by
  unfold scheduleChunkedPrefill
  refine .skip fun _ => (returns_applyToRunningQueue ctx _ _ _).bind fun r hr => ?_
  refine (returns_applyToWaitingQueue ctx _ _ _ _ _).bind fun w hw => returns_pure ?_
  refine (groups_buildPolicyOutput _ _ _ _ hr.2).trans ?_
  exact (hw.append hr.1).append (.refl _)

end PDDSPolicy

/-- The rounds that may preempt a running group. -/
def Role.preempts (role : Role) (cfg : SchedulerConfig) (pdPriorityType : PDPriorityType) : Prop :=
  match role with
  | .p => cfg.enableChunkedPrefill = true
  | .d => True
  | .pnD | .flexP | .flexPnD | .flexD => pdPriorityType ≠ .prefillFirst

/-- **The policies lose no group.** The outputs are the groups of the collection, and groups are
preempted only in rounds that make a pass over the running queue. -/
theorem Policy.returns_apply (role : Role) (now : Nat) (collection : SeqGroupCollection)
    (budget : SchedulingBudget) :
    Returns (Policy.apply ctx role now collection budget : PolicyM HashValue B PolicyOutput)
      fun out => out.groups.Perm collection.groups ∧
        (¬role.preempts ctx.toSchedulerConfig collection.pdPriorityType →
          out.preemptedSeqGroups = []) := by
  have hfcfs := FcfsPolicy.conserve_passes (B := B) ctx now
  have hlayerwise := LayerwiseFcfsPolicy.conserve_passes (B := B) ctx now
  -- the policy of a node that does both stages, whatever its passes
  have hboth : ∀ passes : FcfsPolicy.Passes HashValue B, passes.Conserve →
      Returns (FcfsPolicy.apply ctx passes collection budget) fun out =>
        out.groups.Perm collection.groups ∧
          (¬collection.pdPriorityType ≠ .prefillFirst → out.preemptedSeqGroups = []) := by
    intro passes hpasses
    cases hprio : collection.pdPriorityType with
    | prefillFirst =>
      have h := FcfsPolicy.returns_schedulePrefill hpasses collection budget
      simpa [FcfsPolicy.apply, hprio] using h
    | decodeFirst | mix =>
      have h := FcfsPolicy.returns_round ctx hpasses collection budget
      simpa using h
  unfold Policy.apply
  cases role with
  | p =>
    refine returns_ite (fun hchunk => ?_) fun hchunk => ?_
    · exact (PDDSPolicy.returns_scheduleChunkedPrefill ctx now collection budget).mono
        fun _ h => ⟨h, fun hnot => absurd hchunk hnot⟩
    · exact (FcfsPolicy.returns_schedulePrefill hfcfs collection budget).mono
        fun _ h => ⟨h.1, fun _ => h.2⟩
  | d =>
    exact (FcfsPolicy.returns_scheduleDecode ctx hfcfs collection budget).mono
      fun _ h => ⟨h, fun hnot => absurd trivial hnot⟩
  | pnD | flexP | flexPnD | flexD =>
    exact returns_ite (fun _ => hboth _ hlayerwise) fun _ => hboth _ hfcfs

end

end MindieLLM
