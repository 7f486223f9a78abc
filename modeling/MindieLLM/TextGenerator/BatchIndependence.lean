import MindieLLM.TextGenerator.FirstDecode
import MindieLLM.TextGenerator.SampledTokens

/-!
# When the batch does not matter

Each of the calls is followed to the rows of the batch. `join_context` writes only where the next
token is cached, so it has no effect on a sequence at all.

## Main results

* `UpdateContext.sameEffect_iff`: the condition is exact
* `UpdateContext.not_sameEffect`: two sequences in a first decode
-/

namespace MindieLLM

open Program

namespace UpdateContext

variable {cfg : BatchContextConfig} {slots : SlotIdx → SlotContext} {h : SlotIdx}

/-! ## Before a decode -/

theorem keeps_joinRows (b : JoinBatch) : Keeps sequenceState (joinRows cfg b) := by
  refine .bind (.forRows fun e c => ite_keeps rfl) fun _ => ?_
  refine .bind (.forRows fun e c => ite_keeps rfl) fun _ => ?_
  refine .bind (.forRows fun e c => ite_keeps rfl) fun _ => ?_
  exact .forRows fun e c => ite_keeps rfl

theorem keeps_joinContext (b : JoinBatch) : Keeps sequenceState (joinContext cfg b) := by
  refine .bind (keeps_joinRows b) fun _ => ?_
  refine .bind .get fun slots => ?_
  refine .bind (.mapM fun p => .orRaise) fun rows => ?_
  exact .ite _ (.bind (.throw _) fun _ => .pure _) (.pure _)

theorem sameEffect_joinContext (b : JoinBatch) : SameEffect cfg (.joinContext b) slots h := by
  have hkeeps : ∀ b : JoinBatch, Keeps sequenceState ((Call.joinContext b).run cfg) := fun b =>
    .bind (keeps_joinContext b) fun _ => .pure _
  exact ((hkeeps b).after slots h).trans ((hkeeps _).after slots h).symm

/-! ## The slots of a batch -/

/-- Several entries of a batch may share slot 0, no other slot. -/
theorem alone_of_nodup {β : Type} {l : List (SlotIdx × β)} {x : β}
    (hnodup : ((l.map Prod.fst).filter fun i => i ≠ 0).Nodup) (hne : h ≠ 0) (hmem : (h, x) ∈ l) :
    Alone l h x := by
  refine Alone.of_filter (k := fun i => i ≠ 0) (Alone.of_nodup ?_ ?_) (by simpa using hne)
  · rw [List.filter_map] at hnodup
    exact hnodup
  · exact List.mem_filter.mpr ⟨hmem, by simpa using hne⟩

theorem map_fst_valid (b : SamplingBatch) :
    b.valid.map Prod.fst = (b.entries.filterMap Prod.fst).filter fun i => i ≠ 0 := by
  unfold SamplingBatch.valid
  generalize b.entries = entries
  induction entries with
  | nil => rfl
  | cons p rest ih =>
    obtain ⟨slot, entry⟩ := p
    cases slot with
    | none => simpa using ih
    | some i => by_cases hi : i = 0 <;> simp_all

theorem mem_valid_iff (b : SamplingBatch) {p : SlotIdx × SamplingEntry} :
    p ∈ b.valid ↔ (some p.1, p.2) ∈ b.entries ∧ p.1 ≠ 0 := by
  unfold SamplingBatch.valid
  rw [List.mem_filter, List.mem_filterMap]
  constructor
  · rintro ⟨⟨q, hq, hmap⟩, hne⟩
    obtain ⟨i, hi, rfl⟩ := Option.map_eq_some_iff.mp hmap
    refine ⟨?_, by simpa using hne⟩
    rw [← hi]
    exact hq
  · rintro ⟨hentry, hne⟩
    exact ⟨⟨_, hentry, rfl⟩, by simpa using hne⟩

/-! ## The condition -/

/-- **The batch does not matter** if a first decode has one sequence, or raises for this one in any
case, and if no tokens overflow their row, or only those of this sequence. -/
theorem sameEffect_iff (call : Call) (hcall : call.WellFormed) (hne : h ≠ 0)
    (hmem : h ∈ call.handles) : SameEffect cfg call slots h ↔ Independent cfg slots h call := by
  cases call with
  | updateContextFirst m =>
    obtain ⟨p, hp, rfl⟩ := List.mem_map.mp hmem
    have halone : Alone m.batch p.1 p.2 := alone_of_nodup hcall.distinct hne hp
    rw [sameEffect_updateContextFirst halone]
    refine imp_congr_right fun _ => or_congr_right ⟨fun hraises e he => ?_, fun hall => ?_⟩
    · rw [halone.unique he]
      exact hraises
    · exact hall _ hp
  | updateContext b =>
    obtain ⟨hpos, hcolumns⟩ := hcall.columns b rfl
    have hnodup : (b.valid.map Prod.fst).Nodup := by
      rw [map_fst_valid b]
      exact hcall.distinct
    have hshape : WellShaped b.width b.valid :=
      { pos := hpos
        length := fun p hp => (hcolumns _ ((mem_valid_iff b).mp hp).1).1
        num := fun p hp => (hcolumns _ ((mem_valid_iff b).mp hp).1).2 }
    have hvalid : h ∈ b.valid.map Prod.fst := by
      rw [map_fst_valid b]
      exact List.mem_filter.mpr ⟨hmem, by simpa using hne⟩
    obtain ⟨p, hp, rfl⟩ := List.mem_map.mp hvalid
    exact sameEffect_updateContext (Alone.of_nodup hnodup hp) hnodup hshape
  | joinContext b => exact iff_of_true (sameEffect_joinContext b) trivial

section Example

/-- The decode of two sequences that stand at different places, one with a token that was
speculated. -/
def twoDecodes : SamplingBatch where
  width := 2
  entries := [(some 1, { tokenIds := [5, 0], numNewTokens := 1 }),
    (some 2, { tokenIds := [6, 7], numNewTokens := 2 })]

/-- Both have the effect that they have alone. -/
theorem sameEffect_iff_twoDecodes :
    let slots : SlotIdx → SlotContext := fun i => { SlotContext.blank {} with seqLens := 4 * i }
    SameEffect {} (.updateContext twoDecodes) slots 1 ∧
      SameEffect {} (.updateContext twoDecodes) slots 2 := by
  intro slots
  have hcall : (Call.updateContext twoDecodes).WellFormed :=
    { distinct := by decide
      columns := by
        rintro _ ⟨⟩
        decide }
  have hfits : ∀ p ∈ twoDecodes.updating, ¬Overflows {} twoDecodes.hasSampling p.2 (slots p.1) := by
    unfold Overflows
    decide
  exact ⟨(sameEffect_iff _ hcall (by decide) (by decide)).mpr (.inl hfits),
    (sameEffect_iff _ hcall (by decide) (by decide)).mpr (.inl hfits)⟩

/-- The first decode of two sequences. -/
def firstDecode : PrefillMetadata where
  isPdSeparate := true
  batch := [(1, { prefillNewToken := 5, inputLength := 3 }),
    (2, { prefillNewToken := 6, inputLength := 4 })]

/-- Each of the two sequences is counted for both. -/
theorem not_sameEffect :
    ¬∀ cfg call, Call.WellFormed call → ∀ slots h, h ≠ 0 → h ∈ call.handles →
      SameEffect cfg call slots h := by
  intro hsame
  have hfirst := hsame {} (.updateContextFirst firstDecode)
    { distinct := by decide
      columns := fun _ hcall => by cases hcall }
    (fun _ => .blank {}) 1 (by decide) (by decide)
  have halone : Alone firstDecode.batch 1 { prefillNewToken := 5, inputLength := 3 } := rfl
  rcases (sameEffect_updateContextFirst halone).mp hfirst rfl with hlength | hraises
  · exact absurd hlength (by decide)
  · exact absurd hraises (by unfold PdRaises; decide)

end Example

end UpdateContext

end MindieLLM
