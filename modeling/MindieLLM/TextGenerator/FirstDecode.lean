import MindieLLM.TextGenerator.SequenceState

/-!
# A batch before a prefill

The fields are local to the rows. The first decode, where prefill and decode are separated, counts
the batch instead of the token, and raises for all of its sequences or for none.

## Main results

* `UpdateContext.rowLocal_updateFields`: the fields are local to the rows
* `UpdateContext.sameEffect_updateContextFirst`: when the batch does not matter
-/

namespace MindieLLM

open Program

namespace UpdateContext

variable {cfg : BatchContextConfig} {slots : SlotIdx → SlotContext} {h : SlotIdx}

/-! ## Before a prefill -/

section First

variable {given : Given} {batch : List (SlotIdx × PrefillEntry)} {e : PrefillEntry}

theorem rowLocal_updatePositions : RowLocal (updatePositions cfg) :=
  (RowLocal.assign _ _).seq ((RowLocal.assign _ _).seq (.ite _
    ((RowLocal.assign _ _).seq ((RowLocal.assign _ _).seq (.assign _ _))) (.assign _ _)))

theorem rowLocal_updateParameters (given : Given) : RowLocal (updateParameters given) :=
  (RowLocal.assignIf _ _ _).seq ((RowLocal.assignIf _ _ _).seq ((RowLocal.assignIf _ _ _).seq
    ((RowLocal.assignIf _ _ _).seq ((RowLocal.assignIf _ _ _).seq (.assignIf _ _ _)))))

theorem rowLocal_updateDicts (given : Given) : RowLocal (updateDicts given) :=
  (RowLocal.forRows _).seq ((RowLocal.forRows _).seq ((RowLocal.forRows _).seq
    ((RowLocal.forRows _).seq (.forRows _))))

theorem rowLocal_updateFields (given : Given) : RowLocal (updateFields cfg given) :=
  rowLocal_updatePositions.seq
    ((rowLocal_updateParameters given).seq (rowLocal_updateDicts given))

/-- A condition under which a row is written does not matter for what is not written. -/
theorem ite_keeps {α : Type} {proj : SlotContext → α} {p : Prop} [Decidable p] {c c' : SlotContext}
    (hc : proj c' = proj c) : proj (if p then c' else c) = proj c := by
  split
  · exact hc
  · rfl

theorem keeps_updateDicts {α : Type} {proj : SlotContext → α}
    (hproj : ∀ (c : SlotContext) texts strings ids format adapter trace,
      proj { c with
        outputTexts := texts
        stringStoppingCriteria := strings
        stoppingCriteria := ids
        responseFormat := format
        loraAdapterId := adapter
        traceIds := trace } = proj c) : Keeps proj (updateDicts given batch) := by
  refine .bind (.forRows fun e c => ite_keeps (hproj ..)) fun _ => ?_
  refine .bind (.forRows fun e c => ite_keeps (hproj ..)) fun _ => ?_
  refine .bind (.forRows fun e c => ?_) fun _ => ?_
  · split
    · rfl
    · exact hproj ..
  refine .bind (.forRows fun e c => ?_) fun _ => .forRows fun e c => ite_keeps (hproj ..)
  split
  · rfl
  · exact hproj ..

theorem keeps_updatePositions {α : Type} {proj : SlotContext → α}
    (hproj : ∀ (c : SlotContext) positions lens cached,
      proj { c with
        lastPositionIds := positions
        seqLens := lens
        cpuCachedSeqIdx := cached } = proj c) : Keeps proj (updatePositions cfg batch) := by
  refine .bind (.assign fun c v => hproj ..) fun _ => ?_
  refine .bind (.assign fun c v => hproj ..) fun _ => ?_
  refine .ite _ ?_ (.assign fun c v => hproj ..)
  refine .bind (.assign fun c v => hproj ..) fun _ => ?_
  exact .bind (.assign fun c v => hproj ..) fun _ => .assign fun c v => hproj ..

/-- The number of answers is the one that is asked for, or stays. -/
theorem wp_updateParameters_n (hbatch : Alone batch h e) (slots : SlotIdx → SlotContext) :
    wp (updateParameters given batch)
      (fun _ s => (s h).n = if given.n then e.n.getD 1 else (slots h).n) (fun _ _ => True)
      slots := by
  unfold updateParameters
  rw [wp_bind]
  have hfirst : wp (assignIf given.n batch (fun e _ => e.n.getD 1) fun c v => { c with n := v })
      (fun _ s => (s h).n = if given.n then e.n.getD 1 else (slots h).n) (fun _ _ => True)
      slots := by
    unfold assignIf
    cases given.n with
    | false => rfl
    | true => exact congrArg SlotContext.n (writeRows_alone (hbatch.map fun p => p.2.n.getD 1))
  refine wp_mono hfirst (fun _ s hs => ?_) fun _ _ _ => trivial
  have hrest : Keeps SlotContext.n (do
      assignIf given.bestOf batch bestOf fun c v => { c with bestOf := v }
      assignIf given.useBeamSearch batch (fun e _ => e.useBeamSearch) fun c v =>
        { c with useBeamSearch := v }
      assignIf given.ignoreEos batch (fun e _ => e.ignoreEos) fun c v => { c with ignoreEos := v }
      assignIf given.skipSpecialTokens batch (fun e _ => e.skipSpecialTokens.getD true) fun c v =>
        { c with skipSpecialTokens := v }
      assignIf given.includeStop batch (fun e _ => e.includeStop) fun c v =>
        { c with includeStop := v }) := by
    refine .bind (.assignIf fun _ _ => rfl) fun _ => ?_
    refine .bind (.assignIf fun _ _ => rfl) fun _ => ?_
    refine .bind (.assignIf fun _ _ => rfl) fun _ => ?_
    exact .bind (.assignIf fun _ _ => rfl) fun _ => .assignIf fun _ _ => rfl
  exact wp_mono (hrest s) (fun _ s' hs' => (hs' h).trans hs) fun _ _ _ => trivial

theorem wp_updateFields_n (hbatch : Alone batch h e) (slots : SlotIdx → SlotContext) :
    wp (updateFields cfg given batch)
      (fun _ s => (s h).n = if given.n then e.n.getD 1 else (slots h).n) (fun _ _ => True)
      slots := by
  have hpositions : Keeps SlotContext.n (updatePositions cfg batch) :=
    keeps_updatePositions fun _ _ _ _ => rfl
  have hdicts : Keeps SlotContext.n (updateDicts given batch) :=
    keeps_updateDicts fun _ _ _ _ _ _ _ => rfl
  unfold updateFields
  rw [wp_bind]
  refine wp_mono (hpositions slots) (fun _ s hs => ?_) fun _ _ _ => trivial
  rw [wp_bind]
  refine wp_mono (wp_updateParameters_n hbatch s) (fun _ s₁ hs₁ => ?_) fun _ _ _ => trivial
  refine wp_mono (hdicts s₁) (fun _ s₂ hs₂ => ?_) fun _ _ _ => trivial
  rw [hs₂ h, hs₁, hs h]

/-! ### The first decode -/

theorem keeps_updateOutputText {α : Type} {proj : SlotContext → α}
    (hproj : ∀ (c : SlotContext) text, proj { c with outputTexts := text } = proj c)
    (p : SlotIdx × PrefillEntry) : Keeps proj (updateOutputText cfg given p) :=
  .ite _ (.pure _) (.ite _ (.throw _) (.forRows fun _ _ => hproj ..))

/-- **The batch is counted**, not the token of the sequence. -/
theorem wp_updateFirstTokens (hbatch : Alone batch h e) (slots : SlotIdx → SlotContext) :
    wp (updateFirstTokens cfg batch)
      (fun _ s => (s h).outputLenCount = (slots h).outputLenCount + batch.length)
      (fun _ _ => False) slots := by
  -- the statements before and after do not write the counter
  have hmaps : MapsRow h _ (updateFirstTokens cfg batch) :=
    (MapsRow.assign hbatch).seq ((MapsRow.assign hbatch).seq ((MapsRow.assign hbatch).seq
      (.forRows hbatch)))
  exact wp_mono (hmaps slots) (fun _ s hs => by rw [hs]; rfl) fun _ _ hf => hf

theorem exists_of_not_bestOf {c : SlotContext} (hraises : PdRaises given e (slots h))
    (hbest : given.bestOf = true)
    (hn : c.n = if given.n then e.n.getD 1 else (slots h).n) (hle : ¬1 < bestOf e c) :
    e.stopStrings ≠ [] ∧ given.skipSpecialTokens = false := by
  rcases hraises with hnone | hmany | hstop
  · rw [hbest] at hnone
    cases hnone
  · rw [← hn] at hmany
    exact absurd hmany hle
  · exact hstop

/-- The batch raises if one of its sequences does. -/
theorem wp_updatePdSeparate_throws (hmem : (h, e) ∈ batch) (hraises : PdRaises given e (slots h))
    {s : SlotIdx → SlotContext}
    (hn : (s h).n = if given.n then e.n.getD 1 else (slots h).n) :
    wp (updatePdSeparate cfg given batch) (fun _ _ => False)
      (fun _ s' => ∀ h, sequenceState (s' h) = sequenceState (s h)) s := by
  unfold updatePdSeparate
  rw [wp_bind, wp_get]
  split
  · exact fun _ => rfl
  next hbest =>
  have hbest : given.bestOf = true := by simpa using hbest
  split
  · exact fun _ => rfl
  next hle =>
  have hstop := exists_of_not_bestOf hraises hbest hn fun hlt => hle ⟨(h, e), hmem, hlt⟩
  rw [wp_bind]
  refine wp_mono (wp_forM_throws (I := fun s' => ∀ h, sequenceState (s' h) = sequenceState (s h))
    (fun _ => rfl) (fun p s₁ hs₁ => ?_) hmem fun s₁ hs₁ => ?_) (fun _ _ hf => hf.elim)
    fun _ _ h => h
  · have hkeeps : Keeps sequenceState (updateOutputText cfg given p) :=
      keeps_updateOutputText (fun _ _ => rfl) p
    exact wp_mono (hkeeps s₁) (fun _ s' hs' h => (hs' h).trans (hs₁ h))
      fun _ s' hs' h => (hs' h).trans (hs₁ h)
  · simp only [updateOutputText, if_neg hstop.1, hstop.2, Bool.not_false, if_true]
    exact hs₁

/-- What the first decode does to the output length of a sequence. -/
theorem wp_updatePdSeparate (hbatch : Alone batch h e) (s : SlotIdx → SlotContext) :
    wp (updatePdSeparate cfg given batch)
      (fun _ s' => (s' h).outputLenCount = (s h).outputLenCount + batch.length)
      (fun _ s' => (s' h).outputLenCount = (s h).outputLenCount) s := by
  unfold updatePdSeparate
  rw [wp_bind, wp_get]
  split
  · rfl
  split
  · rfl
  rw [wp_bind]
  have hkeeps : Keeps SlotContext.outputLenCount (batch.forM (updateOutputText cfg given)) :=
    .forM fun p => keeps_updateOutputText (fun _ _ => rfl) p
  refine wp_mono (hkeeps s) (fun _ s₁ hs₁ => ?_) fun _ _ hs₁ => hs₁ h
  rw [← hs₁ h]
  exact wp_mono (wp_updateFirstTokens hbatch s₁) (fun _ _ hs => hs) fun _ _ hf => hf.elim

/-- A sequence alone is done if it does not raise. -/
theorem wp_updatePdSeparate_single (hreturns : ¬PdRaises given e (slots h))
    {s : SlotIdx → SlotContext}
    (hn : (s h).n = if given.n then e.n.getD 1 else (slots h).n) :
    wp (updatePdSeparate cfg given [(h, e)])
      (fun _ s' => (s' h).outputLenCount = (s h).outputLenCount + 1) (fun _ _ => False) s := by
  unfold PdRaises at hreturns
  rw [not_or, not_or, ← hn] at hreturns
  obtain ⟨hbest, hle, hstop⟩ := hreturns
  have hbest : given.bestOf = true := by simpa using hbest
  unfold updatePdSeparate
  rw [wp_bind, wp_get]
  rw [hbest, if_neg (by simp), if_neg (by simpa [bestOf] using hle), wp_bind]
  have htext : wp ([(h, e)].forM (updateOutputText cfg given))
      (fun _ s' => (s' h).outputLenCount = (s h).outputLenCount) (fun _ _ => False) s := by
    refine (wp_forM_cons _ _ _ _).mpr ?_
    unfold updateOutputText
    split
    · rfl
    next hne =>
    have hskip : given.skipSpecialTokens = true := by simpa [hne] using hstop
    rw [hskip, if_neg (by simp)]
    exact (congrArg SlotContext.outputLenCount (writeRows_alone Alone.single)).trans rfl
  refine wp_mono htext (fun _ s₁ hs₁ => ?_) fun _ _ hf => hf
  rw [← hs₁]
  exact wp_updateFirstTokens Alone.single s₁

/-- Before a prefill, and the first decode. -/
theorem sameEffect_updateContextFirst {m : PrefillMetadata} (hbatch : Alone m.batch h e) :
    SameEffect cfg (.updateContextFirst m) slots h ↔
      (m.isPdSeparate → m.batch.length = 1 ∨ PdRaises m.given e (slots h)) := by
  have hsingle : m.batch.filter (fun p => p.1 = h) = [(h, e)] := hbatch
  unfold SameEffect
  simp only [Call.run, Call.only, updateContextFirst, hsingle]
  -- the fields are the same in both
  have hlocal : RowLocal (updateFields cfg m.given) := rowLocal_updateFields m.given
  obtain ⟨g, hg⟩ := hlocal e
  obtain ⟨⟨⟩, s₁, hs₁, hrow₁⟩ := exists_ok (hg m.batch h hbatch slots)
  obtain ⟨⟨⟩, s₂, hs₂, hrow₂⟩ := exists_ok (hg [(h, e)] h .single slots)
  have hn : ∀ batch s, Alone batch h e → updateFields cfg m.given batch slots = .ok ⟨⟩ s →
      (s h).n = if m.given.n then e.n.getD 1 else (slots h).n := fun batch s hbatch hs =>
    wp_ok (Q := fun _ s => (s h).n = if m.given.n then e.n.getD 1 else (slots h).n)
      (wp_updateFields_n hbatch slots) hs
  have hn₁ := hn _ _ hbatch hs₁
  have hn₂ := hn _ _ .single hs₂
  have hsame : s₁ h = s₂ h := hrow₁.trans hrow₂.symm
  rw [after_of_ok hs₁, after_of_ok hs₂]
  cases hpd : m.isPdSeparate with
  | false =>
    refine iff_of_true ?_ nofun
    exact congrArg sequenceState hsame
  | true =>
    simp only [if_true, forall_const]
    constructor
    · intro heq
      by_contra hnot
      rw [not_or] at hnot
      have hcount := congrArg SequenceState.outputLenCount heq
      have halone : (after (updatePdSeparate cfg m.given [(h, e)]) s₂ h).outputLenCount =
          (s₂ h).outputLenCount + 1 :=
        after_of_wp (P := fun s => (s h).outputLenCount = (s₂ h).outputLenCount + 1)
          (wp_mono (wp_updatePdSeparate_single hnot.2 hn₂) (fun _ _ hs => hs) fun _ _ hf => hf.elim)
      have hbatched :
          (after (updatePdSeparate cfg m.given m.batch) s₁ h).outputLenCount =
            (s₁ h).outputLenCount + m.batch.length ∨
          (after (updatePdSeparate cfg m.given m.batch) s₁ h).outputLenCount =
            (s₁ h).outputLenCount :=
        after_of_wp (P := fun s => (s h).outputLenCount = (s₁ h).outputLenCount + m.batch.length ∨
            (s h).outputLenCount = (s₁ h).outputLenCount)
          (wp_mono (wp_updatePdSeparate hbatch s₁) (fun _ _ hs => .inl hs) fun _ _ hs => .inr hs)
      simp only [sequenceState] at hcount
      rw [hsame] at hbatched
      omega
    · rintro (hone | hraises)
      · -- the batch is the sequence
        obtain ⟨p, hp⟩ := List.length_eq_one_iff.mp hone
        have hmem := hbatch.mem
        rw [hp, List.mem_singleton] at hmem
        rw [← hmem] at hp
        rw [hp] at hs₁ ⊢
        rw [hs₁] at hs₂
        injection hs₂ with _ hs
        rw [hs]
      · have hbatched : sequenceState (after (updatePdSeparate cfg m.given m.batch) s₁ h) =
            sequenceState (s₁ h) :=
          after_of_wp (P := fun s => sequenceState (s h) = sequenceState (s₁ h))
            (wp_mono (wp_updatePdSeparate_throws hbatch.mem hraises hn₁)
              (fun _ _ hf => hf.elim) fun _ _ hs => hs h)
        have halone : sequenceState (after (updatePdSeparate cfg m.given [(h, e)]) s₂ h) =
            sequenceState (s₂ h) :=
          after_of_wp (P := fun s => sequenceState (s h) = sequenceState (s₂ h))
            (wp_mono (wp_updatePdSeparate_throws (List.mem_singleton_self _) hraises hn₂)
              (fun _ _ hf => hf.elim) fun _ _ hs => hs h)
        rw [hbatched, halone, hsame]

end First

end UpdateContext

end MindieLLM
