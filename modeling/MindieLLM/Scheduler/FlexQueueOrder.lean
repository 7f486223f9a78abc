import MindieLLM.Program.StoppingPass
import MindieLLM.Program.Within
import MindieLLM.BlockManager.HashLessBlockAllocator
import MindieLLM.Scheduler.SchedulerCore
import MindieLLM.Scheduler.SelfAttnManager

/-!
# The order of a queue that a flexible node dequeues from

`DequeueForFlex` serves a part of the queue only. The groups that its role does not serve go to the
back, so that a call that sees the whole queue leaves them in order. A call that has its number of
groups before it has seen all of them leaves the queue rotated.

What has been reported about a group may be forgotten when a group before it is wrapped up. So the
fate of a group is that in the state in which its turn comes.

## Main definitions

* `SameEnds s s'`: the same groups have ended, and the roles serve the same ones
* `Ended s p`, `wrapped s p`: whether a group has ended, and the reports that are left then
* `fates role s src`: what becomes of each group when its turn comes
* `KeepsOrder`: the first groups are taken and the others stay in order

## Main results

* `wp_dequeueForFlex_fates`: what is taken and what is left
* `keepsOrder_iff`: when the order is kept
* `not_keepsOrder`: a call that stops early
-/

namespace MindieLLM.SchedulerCore

open Program StoppingPass

variable {HashValue B : Type}

/-! ## What the end of a group depends on -/

/-- The same ends have been reported, and the roles serve the same groups. -/
structure SameEnds (s s' : SchedulerCore HashValue B) : Prop where
  role : s'.role = s.role
  sampling : s'.sampling = s.sampling
  finishedSeqIds : s'.finishedSeqIds = s.finishedSeqIds
  exceptionSeqIds : s'.exceptionSeqIds = s.exceptionSeqIds
  abortedReqIds : s'.abortedReqIds = s.abortedReqIds
  serves : ∀ p role,
    matchesFilter (s'.policy.groups p) role = matchesFilter (s.policy.groups p) role

/-- The roles serve the same groups. -/
def SameRoles (s s' : PolicyState HashValue B) : Prop :=
  ∀ p role, matchesFilter (s'.groups p) role = matchesFilter (s.groups p) role

namespace SameEnds

variable {s s' s'' : SchedulerCore HashValue B}

theorem refl (s : SchedulerCore HashValue B) : SameEnds s s :=
  ⟨rfl, rfl, rfl, rfl, rfl, fun _ _ => rfl⟩

theorem trans (h : SameEnds s s') (h' : SameEnds s' s'') : SameEnds s s'' where
  role := h'.role.trans h.role
  sampling := h'.sampling.trans h.sampling
  finishedSeqIds := h'.finishedSeqIds.trans h.finishedSeqIds
  exceptionSeqIds := h'.exceptionSeqIds.trans h.exceptionSeqIds
  abortedReqIds := h'.abortedReqIds.trans h.abortedReqIds
  serves p role := (h'.serves p role).trans (h.serves p role)

instance : Std.Refl (@SameEnds HashValue B) := ⟨refl⟩

instance : IsTrans (SchedulerCore HashValue B) SameEnds := ⟨fun _ _ _ => trans⟩

theorem finalizeSeqGrpStatus (h : SameEnds s s') (p : SeqGroupPtr) :
    s'.finalizeSeqGrpStatus p = s.finalizeSeqGrpStatus p := by
  simp only [SchedulerCore.finalizeSeqGrpStatus, h.role, h.sampling, h.finishedSeqIds,
    h.exceptionSeqIds, h.abortedReqIds]

theorem seqEnded (h : SameEnds s s') (x : SequenceId) : s'.seqEnded x = s.seqEnded x := by
  simp only [SchedulerCore.seqEnded, h.finishedSeqIds, h.exceptionSeqIds]

end SameEnds

instance : Std.Refl (@SameRoles HashValue B) := ⟨fun _ _ _ => rfl⟩

instance : IsTrans (PolicyState HashValue B) SameRoles :=
  ⟨fun _ _ _ h h' p role => (h' p role).trans (h p role)⟩

/-! ## The end of a group as a function of the state -/

/-- The end of a sequence is no longer reported. -/
def forgetSeq (s : SchedulerCore HashValue B) (x : SequenceId) : SchedulerCore HashValue B :=
  { s with
    exceptionSeqIds := eraseId x s.exceptionSeqIds
    finishedSeqIds := eraseId x s.finishedSeqIds }

/-- A sequence of a parallel sampling has left. -/
def forgetParallelSeq (p : SeqGroupPtr) (s : SchedulerCore HashValue B) (x : SequenceId) :
    SchedulerCore HashValue B :=
  { s.forgetSeq x with
    sampling := Function.update s.sampling p { s.sampling p with
      seqId2ParallelSeqGroup :=
        (s.sampling p).seqId2ParallelSeqGroup.filter fun e => e.1 ≠ x } }

/-- The sequences of a parallel sampling that have ended. -/
def endedParallelSeqs (s : SchedulerCore HashValue B) (p : SeqGroupPtr) : List SequenceId :=
  ((s.sampling p).seqId2ParallelSeqGroup.map Prod.fst).filter fun x =>
    p.requestId ∈ s.abortedReqIds ∨ s.seqEnded x

/-- The sequences of a parallel sampling that have ended have left. -/
def withoutEndedSeqs (s : SchedulerCore HashValue B) (p : SeqGroupPtr) :
    SchedulerCore HashValue B :=
  if (s.sampling p).enableParallelSampling then
    (s.endedParallelSeqs p).foldl (forgetParallelSeq p) s
  else s

/-- The group has ended. -/
def Ended (s : SchedulerCore HashValue B) (p : SeqGroupPtr) : Prop :=
  (s.withoutEndedSeqs p).finalizeSeqGrpStatus p ≠ .running

instance (s : SchedulerCore HashValue B) (p : SeqGroupPtr) : Decidable (s.Ended p) :=
  inferInstanceAs (Decidable (_ ≠ _))

/-- The reports that are left when it has been seen whether the group has ended. -/
def wrapped (s : SchedulerCore HashValue B) (p : SeqGroupPtr) : SchedulerCore HashValue B :=
  if s.Ended p then
    { (s.withoutEndedSeqs p).forgetSeq p.seqId with
      abortedReqIds := eraseId p.requestId (s.withoutEndedSeqs p).abortedReqIds }
  else s.withoutEndedSeqs p

/-- What becomes of a group when its turn comes. -/
def fate (role : Role) (s : SchedulerCore HashValue B) (p : SeqGroupPtr) : Fate :=
  if !matchesFilter (s.policy.groups p) role then .kept
  else if s.Ended p then .gone
  else .taken

/-- What becomes of the groups of a queue, each in the state in which its turn comes. -/
def fates (role : Role) : SchedulerCore HashValue B → List SeqGroupPtr → List (SeqGroupPtr × Fate)
  | _, [] => []
  | s, p :: src =>
    (p, s.fate role p) :: fates role (if s.fate role p = .kept then s else s.wrapped p) src

theorem map_fst_fates (role : Role) (s : SchedulerCore HashValue B) (src : List SeqGroupPtr) :
    (fates role s src).map Prod.fst = src := by
  induction src generalizing s with
  | nil => rfl
  | cons p src ih => rw [fates, List.map_cons, ih]

theorem policy_withoutEndedSeqs (s : SchedulerCore HashValue B) (p : SeqGroupPtr) :
    (s.withoutEndedSeqs p).policy = s.policy := by
  unfold withoutEndedSeqs
  split
  · next hpar =>
    clear hpar
    generalize s.endedParallelSeqs p = ids
    induction ids generalizing s with
    | nil => rfl
    | cons x ids ih => exact ih (s.forgetParallelSeq p x)
  · rfl

@[simp]
theorem policy_wrapped (s : SchedulerCore HashValue B) (p : SeqGroupPtr) :
    (s.wrapped p).policy = s.policy := by
  unfold wrapped
  split
  · exact policy_withoutEndedSeqs s p
  · exact policy_withoutEndedSeqs s p

theorem fate_eq_kept_iff {role : Role} {s : SchedulerCore HashValue B} {p : SeqGroupPtr} :
    s.fate role p = .kept ↔ matchesFilter (s.policy.groups p) role = false := by
  unfold fate
  cases matchesFilter (s.policy.groups p) role with
  | false => simp
  | true =>
    by_cases hended : s.Ended p
    · simp [hended]
    · simp [hended]

/-- The groups that are kept are those that the role does not serve. -/
theorem kept_iff_of_mem_fates {role : Role} {s : SchedulerCore HashValue B}
    {src : List SeqGroupPtr} {e : SeqGroupPtr × Fate} (h : e ∈ fates role s src) :
    e.2 = .kept ↔ matchesFilter (s.policy.groups e.1) role = false := by
  induction src generalizing s with
  | nil => cases h
  | cons p src ih =>
    rcases List.mem_cons.mp h with rfl | h
    · exact fate_eq_kept_iff
    · have hrest := ih h
      split at hrest
      · exact hrest
      · rwa [policy_wrapped] at hrest

namespace SameEnds

variable {s s' : SchedulerCore HashValue B} {p : SeqGroupPtr}

theorem forgetSeq (h : SameEnds s s') (x : SequenceId) :
    SameEnds (s.forgetSeq x) (s'.forgetSeq x) :=
  { h with
    finishedSeqIds := congrArg (eraseId x) h.finishedSeqIds
    exceptionSeqIds := congrArg (eraseId x) h.exceptionSeqIds }

theorem endedParallelSeqs (h : SameEnds s s') (p : SeqGroupPtr) :
    s'.endedParallelSeqs p = s.endedParallelSeqs p := by
  simp only [SchedulerCore.endedParallelSeqs, h.sampling, h.abortedReqIds, h.seqEnded]

end SameEnds

/-! ## Programs that change no end -/

section Within

variable {α : Type} {s s' : SchedulerCore HashValue B} {p : SeqGroupPtr}

theorem within_modifyObj {f : SeqGroupObj HashValue → SeqGroupObj HashValue} (q : SeqGroupPtr)
    (hf : ∀ o role, matchesFilter (f o) role = matchesFilter o role) :
    Within SameRoles (modifyObj q f : PolicyM HashValue B Unit) := by
  apply Within.modify
  intro s p role
  by_cases hp : p = q
  · subst hp
    simp only [Function.update_self]
    exact hf _ role
  · simp only [Function.update_of_ne hp]

theorem within_onBlockManager (c : EStateM Exn B α) :
    Within SameRoles (onBlockManager c : PolicyM HashValue B α) := by
  intro s
  rw [onBlockManager, wp_zoom]
  exact wp_any fun _ _ _ _ => rfl

theorem within_onPolicy {c : PolicyM HashValue B α} (h : Within SameRoles c) :
    Within SameEnds (onPolicy c) :=
  h.zoom fun s _ ht => { SameEnds.refl s with serves := ht }

/-- A program that changes no end keeps a state as it should be. -/
theorem SameEnds.keep {c : CoreM HashValue B α} (hc : Within SameEnds c) (h : SameEnds s s') :
    wp c (fun _ t => SameEnds s t) (fun _ _ => True) s' :=
  wp_mono (hc s') (fun _ _ ht => h.trans ht) fun _ _ h => h

theorem matchesFilter_setStatus (status : SequenceStatus) (o : SeqGroupObj HashValue)
    (role : Role) : matchesFilter (o.setStatus status) role = matchesFilter o role := by
  cases role <;> rfl

theorem within_setStatus (q : SeqGroupPtr) (status : SequenceStatus) :
    Within SameRoles (modifyObj q (·.setStatus status) : PolicyM HashValue B Unit) :=
  within_modifyObj q (matchesFilter_setStatus status)

theorem within_replacePlaceHolderWithToken (cfg : PolicyConfig) (p : SeqGroupPtr) :
    Within SameEnds (replacePlaceHolderWithToken cfg p : CoreM HashValue B Unit) := by
  unfold replacePlaceHolderWithToken replacePlaceHolderOf
  refine Within.bind .get fun s => Within.forM _ fun q => ?_
  refine Within.bind .get fun t => Within.bind ?_ fun r => Within.bind ?_ fun _ => ?_
  · cases Scheduler.replacePlaceHolderOfSeq cfg.toSchedulerConfig (s.policy.groups p).isLastChunk
      (t.predictedTokensBySeqId q.seqId) (t.policy.firstSeq q) with
    | ok r => exact Within.pure r
    | error e => exact Within.throw e
  · refine within_onPolicy (within_modifyObj q fun o role => ?_)
    cases role <;> rfl
  · apply Within.modify
    exact fun s => { SameEnds.refl s with }

variable [BlockSpaceManager HashValue B]

theorem within_saveParentBlockIds (q : SeqGroupPtr) :
    Within SameRoles (saveParentBlockIds q : PolicyM HashValue B Unit) := by
  unfold saveParentBlockIds getObj
  refine Within.bind (.bind .get fun s => .pure _) fun o => Within.ite ?_ (.pure ())
  refine Within.bind (within_onBlockManager _) fun ids => within_modifyObj q fun o role => ?_
  cases role <;> rfl

end Within

/-! ## The end of a group -/

section LifeEnd

variable [BlockSpaceManager HashValue B] {s s' : SchedulerCore HashValue B} {p : SeqGroupPtr}

theorem wp_clearSeq_ends (h : SameEnds s s') (x : SequenceId) :
    wp (clearSeq x : CoreM HashValue B Unit) (fun _ t => SameEnds (s.forgetSeq x) t)
      (fun _ _ => True) s' := by
  unfold clearSeq
  rw [wp_bind, wp_modify]
  apply SameEnds.keep (within_onPolicy (within_onBlockManager _))
  exact { h.forgetSeq x with }

theorem wp_clearParallelSeq_ends (h : SameEnds s s') (isAborted : Bool) (x : SequenceId) :
    wp (clearParallelSeq p isAborted x : CoreM HashValue B Unit)
      (fun _ t => SameEnds (s.forgetParallelSeq p x) t) (fun _ _ => True) s' := by
  unfold clearParallelSeq
  rw [wp_bind]
  refine wp_mono (wp_clearSeq_ends h x) (fun _ t ht => ?_) fun _ _ h => h
  rw [wp_modify]
  have hsampling : t.sampling = s.sampling := ht.sampling
  exact { ht with sampling := by simp only [hsampling, forgetParallelSeq, forgetSeq] }

/-- The sequences that have ended leave, one after the other. -/
theorem wp_parallelSeqGroupLifeEnd_ends (h : SameEnds s s')
    (hpar : (s.sampling p).enableParallelSampling = true) :
    wp (parallelSeqGroupLifeEnd p : CoreM HashValue B Unit)
      (fun _ t => SameEnds (s.withoutEndedSeqs p) t) (fun _ _ => True) s' := by
  unfold parallelSeqGroupLifeEnd
  simp only [wp_bind, wp_get]
  have hids : ((s'.sampling p).seqId2ParallelSeqGroup.map Prod.fst).filter (fun x =>
      decide (p.requestId ∈ s'.abortedReqIds) = true ∨ s'.seqEnded x) = s.endedParallelSeqs p := by
    rw [← h.endedParallelSeqs p]
    simp only [endedParallelSeqs, decide_eq_true_eq]
  rw [hids]
  -- the first loop works on the groups in memory
  refine wp_mono (SameEnds.keep (Within.forM _ fun e => within_onPolicy ?_) h) ?_ fun _ _ h => h
  · refine Within.ite (.bind (within_saveParentBlockIds _) fun _ => ?_) ?_
    · exact Within.ite (within_setStatus _ _) (.pure ())
    · exact Within.ite (within_setStatus _ _) (.pure ())
  intro _ t ht
  rw [withoutEndedSeqs, if_pos hpar]
  generalize s.endedParallelSeqs p = ids
  clear h hids hpar
  induction ids generalizing s t with
  | nil => exact ht
  | cons x ids ih =>
    rw [wp_forM_cons]
    exact wp_mono (wp_clearParallelSeq_ends ht _ x) (fun _ t' ht' => ih t' ht') fun _ _ h => h

theorem wp_wrapUp_ends {t : SchedulerCore HashValue B} (h : SameEnds (s.withoutEndedSeqs p) t) :
    wp (wrapUp p : CoreM HashValue B Bool)
      (fun r t' => (r = true ↔ s.Ended p) ∧ SameEnds (s.wrapped p) t') (fun _ _ => True) t := by
  unfold wrapUp
  simp only [wp_bind, wp_get, wp_ite, wp_pure, h.finalizeSeqGrpStatus]
  refine ⟨fun hrun => ?_, fun hrun => ?_⟩
  · have hlive : ¬s.Ended p := by
      rw [Ended, not_not]
      exact hrun
    rw [wrapped, if_neg hlive]
    exact ⟨⟨fun h => (Bool.false_ne_true h).elim, fun h => (hlive h).elim⟩, h⟩
  · have hended : s.Ended p := hrun
    rw [wrapped, if_pos hended, wp_modify]
    have hkeep : SameEnds (s.withoutEndedSeqs p) (if p.requestId ∈ t.abortedReqIds then
        { t with abortedSequenceIds := insertId p.seqId t.abortedSequenceIds } else t) := by
      split
      · exact { h with }
      · exact h
    generalize (if p.requestId ∈ t.abortedReqIds then
      { t with abortedSequenceIds := insertId p.seqId t.abortedSequenceIds } else t) = t' at hkeep ⊢
    unfold clearSeqGrp
    simp only [wp_bind, wp_modify]
    have hcleared : SameEnds { s.withoutEndedSeqs p with
        abortedReqIds := eraseId p.requestId (s.withoutEndedSeqs p).abortedReqIds }
        { t' with
          context := t'.context.removeReqId p.requestId
          abortedReqIds := eraseId p.requestId t'.abortedReqIds } :=
      { hkeep with abortedReqIds := congrArg (eraseId p.requestId) hkeep.abortedReqIds }
    refine wp_mono (wp_clearSeq_ends hcleared p.seqId) (fun _ t₁ ht₁ => ?_) fun _ _ h => h
    refine wp_mono (SameEnds.keep (within_onPolicy (within_setStatus p _)) ht₁) ?_ fun _ _ h => h
    exact fun _ t₂ ht₂ => ⟨⟨fun _ => hended, fun _ => trivial⟩, { ht₂ with }⟩

/-- Whether the group has ended, and the reports that are left. -/
theorem wp_lifeEndedWrapup_ends (h : SameEnds s s') :
    wp (lifeEndedWrapup p : CoreM HashValue B Bool)
      (fun r t => (r = true ↔ s.Ended p) ∧ SameEnds (s.wrapped p) t) (fun _ _ => True) s' := by
  unfold lifeEndedWrapup
  simp only [wp_bind, wp_get, wp_ite, h.sampling]
  refine ⟨fun hpar => ?_, fun hpar => ?_⟩
  · exact wp_mono (wp_parallelSeqGroupLifeEnd_ends h hpar) (fun _ t ht => wp_wrapUp_ends ht)
      fun _ _ h => h
  · apply wp_wrapUp_ends
    rw [withoutEndedSeqs, if_neg hpar]
    exact h

end LifeEnd

/-! ## The queue -/

section Queue

variable [BlockSpaceManager HashValue B] (cfg : PolicyConfig) {role : Role} {maxNum : Nat}
  {s s' : SchedulerCore HashValue B} {src : List SeqGroupPtr}
  {r : List SeqGroupPtr × List SeqGroupPtr}

/-- What one round makes of a group whose turn comes. -/
theorem wp_considerDequeueForFlex_fate (h : SameEnds s s') (p : SeqGroupPtr)
    (dst : List SeqGroupPtr × List SeqGroupPtr) (hmore : dst.1.length < maxNum) :
    wp (considerDequeueForFlex cfg role maxNum p dst : CoreM HashValue B _)
      (fun v t =>
        v = .next (dst.1 ++ having .taken [(p, s.fate role p)],
          dst.2 ++ having .kept [(p, s.fate role p)]) ∧
        SameEnds (if s.fate role p = .kept then s else s.wrapped p) t)
      (fun _ _ => True) s' := by
  have hserves : matchesFilter (s'.policy.groups p) role = matchesFilter (s.policy.groups p) role :=
    h.serves p role
  unfold considerDequeueForFlex
  rw [wp_ite]
  refine ⟨fun hfull => absurd hmore (Nat.not_lt.mpr hfull), fun _ => ?_⟩
  simp only [wp_bind, wp_get, wp_ite, hserves, wp_pure]
  refine ⟨fun hother => ?_, fun hserved => ?_⟩
  · have hfate : s.fate role p = .kept := by rw [fate, if_pos hother]
    rw [hfate, if_pos rfl]
    exact ⟨by simp [having], h⟩
  · refine wp_mono (h.keep (within_replacePlaceHolderWithToken cfg p)) (fun _ t ht => ?_)
      fun _ _ h => h
    refine wp_mono (wp_lifeEndedWrapup_ends ht) ?_ fun _ _ h => h
    rintro ended t' ⟨hended, ht'⟩
    cases ended with
    | true =>
      have hfate : s.fate role p = .gone := by rw [fate, if_neg hserved, if_pos (hended.mp rfl)]
      rw [hfate]
      exact ⟨fun _ => ⟨by simp [having], ht'⟩, fun hne => absurd rfl hne⟩
    | false =>
      have hlive : ¬s.Ended p := fun hend => Bool.false_ne_true (hended.mpr hend)
      have hfate : s.fate role p = .taken := by rw [fate, if_neg hserved, if_neg hlive]
      rw [hfate]
      exact ⟨fun heq => (Bool.false_ne_true heq).elim, fun _ => ⟨by simp [having], ht'⟩⟩

/-- The loop of `DequeueForFlex`. -/
theorem wp_drain_considerDequeueForFlex (h : SameEnds s s')
    (dst : List SeqGroupPtr × List SeqGroupPtr) :
    wp (drain (considerDequeueForFlex cfg role maxNum) src dst : CoreM HashValue B _)
      (fun v _ =>
        v.1 = (unreached (maxNum - dst.1.length) (fates role s src)).map Prod.fst ∧
        v.2.1 = dst.1 ++ having .taken (reached (maxNum - dst.1.length) (fates role s src)) ∧
        v.2.2 = dst.2 ++ having .kept (reached (maxNum - dst.1.length) (fates role s src)))
      (fun _ _ => True) s' := by
  induction src generalizing s s' dst with
  | nil =>
    unfold drain
    rw [wp_pure, fates, reached_nil, unreached_nil]
    simp
  | cons p src ih =>
    unfold drain
    rw [wp_bind]
    by_cases hfull : maxNum ≤ dst.1.length
    · -- the loop stops here, and nothing more is reached
      have hzero : maxNum - dst.1.length = 0 := Nat.sub_eq_zero_of_le hfull
      unfold considerDequeueForFlex
      rw [if_pos hfull, wp_pure, wp_pure, hzero, unreached_zero, reached_zero, map_fst_fates]
      simp
    · have hmore : dst.1.length < maxNum := Nat.lt_of_not_le hfull
      refine wp_mono (wp_considerDequeueForFlex_fate cfg h p dst hmore) ?_ fun _ _ h => h
      rintro v t ⟨rfl, ht⟩
      obtain ⟨n, hn⟩ : ∃ n, maxNum - dst.1.length = n + 1 :=
        Nat.exists_eq_succ_of_ne_zero (Nat.sub_ne_zero_of_lt hmore)
      have hrest := ih ht (dst.1 ++ having .taken [(p, s.fate role p)],
        dst.2 ++ having .kept [(p, s.fate role p)])
      have hleft : maxNum - (dst.1 ++ having .taken [(p, s.fate role p)]).length =
          if s.fate role p = .taken then n else n + 1 := by
        by_cases hfate : s.fate role p = .taken
        · rw [if_pos hfate, List.length_append, having_cons_of_eq hfate]
          simp only [having_nil, List.length_singleton]
          omega
        · rw [if_neg hfate, having_cons_of_ne hfate, having_nil, List.append_nil, hn]
      rw [hleft] at hrest
      rw [hn, fates, reached, unreached]
      refine wp_mono hrest ?_ fun _ _ h => h
      rintro v t' ⟨hrest, htaken, hkept⟩
      refine ⟨hrest, ?_, ?_⟩
      · rw [htaken, List.append_assoc, ← having_append]
        rfl
      · rw [hkept, List.append_assoc, ← having_append]
        rfl

/-- What is taken is in order; what is left has the groups of other roles behind it. -/
theorem wp_dequeueForFlex_fates (s : SchedulerCore HashValue B) :
    wp (dequeueForFlex cfg role src maxNum : CoreM HashValue B _)
      (fun r _ =>
        r.1 = (unreached maxNum (fates role s src)).map Prod.fst ++
          having .kept (reached maxNum (fates role s src)) ∧
        r.2 = having .taken (reached maxNum (fates role s src)))
      (fun _ _ => True) s := by
  unfold dequeueForFlex
  rw [wp_bind]
  refine wp_mono (wp_drain_considerDequeueForFlex cfg (.refl s) ([], [])) ?_ fun _ _ h => h
  rintro ⟨rest, taken, kept⟩ t ⟨hrest, htaken, hkept⟩
  simp only [List.length_nil, Nat.sub_zero, List.nil_append] at hrest htaken hkept
  rw [hrest, htaken, hkept]
  exact ⟨rfl, rfl⟩

/-- The first `maxNum` groups that the role serves and that have not ended are taken, in order. The
queue keeps the others in order, but for those that were found to have ended. -/
structure KeepsOrder (role : Role) (s : SchedulerCore HashValue B) (src : List SeqGroupPtr)
    (maxNum : Nat) (r : List SeqGroupPtr × List SeqGroupPtr) : Prop where
  taken : r.2 = (having .taken (fates role s src)).take maxNum
  left : r.1 = src.filter fun p =>
    p ∉ r.2 ∧ p ∉ having .gone (reached maxNum (fates role s src))

/-- Up to the last group that is taken the role serves all groups, or that group is the last of the
queue or there are too few to take. -/
def ServesOrEnds (role : Role) (s : SchedulerCore HashValue B) (src : List SeqGroupPtr)
    (maxNum : Nat) : Prop :=
  (∀ e ∈ reached maxNum (fates role s src), matchesFilter (s.policy.groups e.1) role = true) ∨
    unreached maxNum (fates role s src) = []

omit [BlockSpaceManager HashValue B] in
theorem servesOrEnds_iff : ServesOrEnds role s src maxNum ↔
    having .kept (reached maxNum (fates role s src)) = [] ∨
      unreached maxNum (fates role s src) = [] := by
  refine or_congr_left ?_
  have hsub : ∀ e ∈ reached maxNum (fates role s src), e ∈ fates role s src := by
    intro e he
    rw [← reached_append_unreached maxNum (fates role s src)]
    exact List.mem_append_left _ he
  rw [List.eq_nil_iff_forall_not_mem]
  constructor
  · intro h p hp
    have hmem := mem_having.mp hp
    have hserved := h _ hmem
    rw [(kept_iff_of_mem_fates (hsub _ hmem)).mp rfl] at hserved
    cases hserved
  · rintro h ⟨p, f⟩ hmem
    rw [← Bool.not_eq_false, ← kept_iff_of_mem_fates (hsub _ hmem)]
    rintro rfl
    exact h p (mem_having.mpr hmem)

/-- **When the order is kept.** `DequeueForFlex` takes the first groups that its role serves and
that have not ended and leaves the others in order, if and only if up to the last group taken there
is none that the role does not serve, or it has seen the whole queue. -/
theorem keepsOrder_iff (hsrc : src.Nodup)
    (hrun : dequeueForFlex cfg role src maxNum s = .ok r s') :
    KeepsOrder role s src maxNum r ↔ ServesOrEnds role s src maxNum := by
  obtain ⟨hleft, htaken⟩ := wp_ok (wp_dequeueForFlex_fates cfg s) hrun
  have hall := reached_append_unreached maxNum (fates role s src)
  have hnodup : ((reached maxNum (fates role s src) ++ unreached maxNum (fates role s src)).map
      Prod.fst).Nodup := by
    rw [hall, map_fst_fates]
    exact hsrc
  have hothers := filter_left hnodup
  rw [hall, map_fst_fates, ← htaken] at hothers
  -- the groups of other roles that were reached, and what was not reached, repeat no group
  have hdisj : (having .kept (reached maxNum (fates role s src)) ++
      (unreached maxNum (fates role s src)).map Prod.fst).Nodup := by
    rw [← hothers]
    exact hsrc.filter _
  rw [servesOrEnds_iff, ← List.map_eq_nil_iff (f := Prod.fst)
    (l := unreached maxNum (fates role s src)), ← append_comm_iff hdisj, ← hothers, ← hleft]
  constructor
  · exact fun h => h.left
  · intro h
    exact ⟨by rw [htaken, having_taken_reached], h⟩

end Queue

/-! ## Runs -/

section Runs

abbrev HashLessManager := SelfAttnBlockManager UInt64 (HashLessBlockAllocator UInt64)

/-- A manager that has no blocks. -/
def noBlocks : HashLessManager where
  blockSize := 4
  npuBlockNum := 0
  reservedBlockNum := 0
  speculativeSlots := 0
  rankSize := 1
  seqId2BlockTable := fun _ => none
  world := {
    mem := .new 0
    alloc := {
      rankSize := 1
      hostSize := 1
      beginCpuBlockId := 0
      allocators := fun _ _ => BlockAllocator.new 0 0 4 } }
  seqIdToNumComputedTokens := fun _ => none
  seqIdToLastAccessTime := fun _ => none

/-- A flexible node with a group of its own, at address 0, beside groups to prefill for others. -/
def flexNode : SchedulerCore UInt64 HashLessManager where
  policy := {
    groups := fun p => {
      firstSeq := {
        seqId := p.seqId
        promptTokenIds := [1]
        outputTokenIds := []
        stage := .prefill
        numComputedTokens := 0
        status := .waiting
        hashValue := 0 }
      isFlexLocal := p.address = 0 }
    blockManager := noBlocks }
  sampling := fun _ => {}
  role := .flexP

/-- Two groups are taken. The one of another role between them is passed over, and left. -/
theorem keepsOrder_two : KeepsOrder .flexP flexNode [⟨1, "b", 1⟩, ⟨0, "a", 0⟩, ⟨2, "c", 2⟩] 2
    ([⟨0, "a", 0⟩], [⟨1, "b", 1⟩, ⟨2, "c", 2⟩]) := by
  have hrun : valueOf (dequeueForFlex { cacheBlockSize := 4 } .flexP
      [⟨1, "b", 1⟩, ⟨0, "a", 0⟩, ⟨2, "c", 2⟩] 2) flexNode =
      some ([⟨0, "a", 0⟩], [⟨1, "b", 1⟩, ⟨2, "c", 2⟩]) := by
    decide +kernel
  obtain ⟨s', hrun⟩ := valueOf_eq_some_iff.mp hrun
  refine (keepsOrder_iff { cacheBlockSize := 4 } (by decide) hrun).mpr (.inr ?_)
  decide +kernel

/-- The first group is passed over and the second one is taken. The first one is now behind the
third. -/
theorem not_keepsOrder : ∃ s' : SchedulerCore UInt64 HashLessManager,
    dequeueForFlex { cacheBlockSize := 4 } .flexP [⟨0, "a", 0⟩, ⟨1, "b", 1⟩, ⟨2, "c", 2⟩] 1
        flexNode =
      .ok ([⟨2, "c", 2⟩, ⟨0, "a", 0⟩], [⟨1, "b", 1⟩]) s' ∧
    ¬KeepsOrder .flexP flexNode [⟨0, "a", 0⟩, ⟨1, "b", 1⟩, ⟨2, "c", 2⟩] 1
      ([⟨2, "c", 2⟩, ⟨0, "a", 0⟩], [⟨1, "b", 1⟩]) := by
  have hrun : valueOf (dequeueForFlex { cacheBlockSize := 4 } .flexP
      [⟨0, "a", 0⟩, ⟨1, "b", 1⟩, ⟨2, "c", 2⟩] 1) flexNode =
      some ([⟨2, "c", 2⟩, ⟨0, "a", 0⟩], [⟨1, "b", 1⟩]) := by
    decide +kernel
  obtain ⟨s', hrun⟩ := valueOf_eq_some_iff.mp hrun
  refine ⟨s', hrun, fun h => ?_⟩
  have hleft := h.left
  revert hleft
  decide +kernel

end Runs

end MindieLLM.SchedulerCore
