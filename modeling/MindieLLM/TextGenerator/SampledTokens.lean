import MindieLLM.TextGenerator.SequenceState

/-!
# A batch after a forward pass

The tokens are written into the rows before they are counted, in whole columns, or slice by slice
if a row could be full. Columns that are not counted do not matter, so both ways come to the same,
but for the slice that does not fit: it raises, and nothing of the batch is counted.

## Main definitions

* `UpdateContext.Sliced c c'`: the tokens of a sequence have been written, but not counted
* `UpdateContext.Counted c t`: what the sequence is after they have been counted

## Main results

* `UpdateContext.wp_updateContext_of_mem`: what a forward pass does to a sequence
* `UpdateContext.sameEffect_updateContext`: when the batch does not matter
-/

namespace MindieLLM

open Program

namespace UpdateContext

variable {cfg : BatchContextConfig} {slots : SlotIdx → SlotContext} {h : SlotIdx}

section Sampled

variable {b : SamplingBatch} {batch : List (SlotIdx × SamplingEntry)} {e : SamplingEntry}
  {width start num : Nat} {row values : List Int}

theorem take_writeAt : (writeAt row start values).take start = row.take start := by
  refine List.ext_getElem? fun i => ?_
  rw [List.getElem?_take, List.getElem?_take]
  split
  · next hi =>
    rw [writeAt, List.getElem?_mapIdx]
    have hout : ¬(start ≤ i ∧ i < start + values.length) := fun h => by omega
    simp only [if_neg hout, Option.map_id']
  · rfl

theorem length_writeAt : (writeAt row start values).length = row.length := List.length_mapIdx

/-- The values stand behind what was in front of them. -/
theorem take_writeAt_append (hfit : start + values.length ≤ row.length) :
    (writeAt row start values).take (start + values.length) = row.take start ++ values := by
  refine List.ext_getElem? fun i => ?_
  have hlen : (row.take start).length = start := by
    rw [List.length_take]
    omega
  rw [List.getElem?_take, List.getElem?_append, hlen, writeAt, List.getElem?_mapIdx,
    List.getElem?_take]
  by_cases hi : i < start
  · rw [if_pos (by omega), if_pos hi, if_pos hi]
    simp [show ¬start ≤ i by omega]
  · rw [if_neg hi]
    by_cases hend : i < start + values.length
    · rw [if_pos hend, List.getElem?_eq_getElem (by omega), Option.map_some,
        if_pos ⟨by omega, hend⟩, List.getD_eq_getElem?_getD,
        List.getElem?_eq_getElem (show i - start < values.length by omega), Option.getD_some]
    · rw [if_neg hend, List.getElem?_eq_none (by omega)]

/-- The columns after the last of the new tokens are not counted. -/
theorem take_writeAt_take (hnum : num ≤ values.length) :
    (writeAt row start (values.take num)).take (start + num) =
      (writeAt row start values).take (start + num) := by
  refine List.ext_getElem? fun i => ?_
  rw [List.getElem?_take, List.getElem?_take]
  split
  · next hi =>
    rw [writeAt, writeAt, List.getElem?_mapIdx, List.getElem?_mapIdx]
    refine congrArg (fun f => Option.map f row[i]?) (funext fun x => ?_)
    rw [List.length_take, Nat.min_eq_left hnum]
    by_cases hstart : start ≤ i
    · rw [if_pos ⟨hstart, hi⟩, if_pos ⟨hstart, by omega⟩]
      simp only [List.getD_eq_getElem?_getD, List.getElem?_take,
        if_pos (show i - start < num by omega)]
    · rw [if_neg fun h => hstart h.1, if_neg fun h => hstart h.1]
  · rfl

theorem assignSlice_of_le (hfit : start + values.length ≤ width) :
    assignSlice width row start values = .ok (writeAt row start values) := by
  unfold assignSlice
  rw [if_pos (by omega)]

/-- A slice does not fit if there are several values, and less room. -/
theorem assignSlice_error_iff :
    (∃ error, assignSlice width row start values = .error error) ↔
      2 ≤ values.length ∧ width < start + values.length := by
  unfold assignSlice
  dsimp only
  split
  · simp only [reduceCtorEq, exists_false, false_iff]
    omega
  · split
    · simp only [reduceCtorEq, exists_false, false_iff]
      omega
    · simp only [Except.error.injEq, exists_eq', true_iff]
      omega

theorem take_assignSlice {row' : List Int} (hrow : assignSlice width row start values = .ok row') :
    row'.take start = row.take start := by
  unfold assignSlice at hrow
  dsimp only at hrow
  split at hrow
  · obtain rfl := Except.ok.inj hrow
    exact take_writeAt
  · split at hrow
    · rw [Except.ok.inj hrow]
    · cases hrow

/-- The tokens of a sequence have been written, as far as they are going to be counted. -/
structure Sliced (cfg : BatchContextConfig) (hasSampling : Bool) (e : SamplingEntry)
    (c c' : SlotContext) : Prop where
  same : sequenceState c' = sequenceState c
  input : ∃ row, (if hasSampling then
      assignSlice cfg.allInputWidth c.allInputIds c.seqLens (e.tokenIds.take e.numNewTokens)
    else .ok c.allInputIds) = .ok row ∧
      c'.allInputIds.take (c.seqLens + e.numNewTokens) = row.take (c.seqLens + e.numNewTokens)
  output : ∃ row,
    assignSlice cfg.allOutputWidth c.allOutputIds c.outputLenCount
      (e.tokenIds.take e.numNewTokens) = .ok row ∧
      c'.allOutputIds.take (c.outputLenCount + e.numNewTokens) =
        row.take (c.outputLenCount + e.numNewTokens)

theorem forRows_single (p : SlotIdx × SamplingEntry) (f : SamplingEntry → SlotContext → SlotContext)
    (slots : SlotIdx → SlotContext) {Q : PUnit → (SlotIdx → SlotContext) → Prop}
    {T : PyError → (SlotIdx → SlotContext) → Prop} :
    wp (forRows [p] f) Q T slots ↔
      Q ⟨⟩ (Function.update slots p.1 (f p.2 (slots p.1))) := Iff.rfl

theorem wp_orRaise {α : Type} {x : Except PyError α} {Q : α → (SlotIdx → SlotContext) → Prop}
    {T : (SlotIdx → SlotContext) → Prop} {slots : SlotIdx → SlotContext}
    (hok : ∀ a, x = .ok a → Q a slots) (herror : ∀ error, x = .error error → T slots) :
    wp (orRaise x) Q (fun _ => T) slots := by
  cases x with
  | ok a => exact hok a rfl
  | error error => exact herror error rfl

/-- The input row of a slice. -/
theorem wp_inputSlice {hasSampling : Bool} {c : SlotContext}
    {Q : List Int → (SlotIdx → SlotContext) → Prop} {T : (SlotIdx → SlotContext) → Prop}
    (hok : ∀ row, (if hasSampling then assignSlice cfg.allInputWidth c.allInputIds c.seqLens values
      else .ok c.allInputIds) = .ok row → Q row slots)
    (herror : ∀ error, hasSampling = true →
      assignSlice cfg.allInputWidth c.allInputIds c.seqLens values = .error error → T slots) :
    wp (inputSlice cfg hasSampling c values) Q (fun _ => T) slots := by
  cases hasSampling with
  | true => exact wp_orRaise hok fun error he => herror error rfl he
  | false => exact hok _ rfl

/-- A slice does not fit if several tokens overflow the row. -/
theorem overflows_iff (hnum : e.numNewTokens ≤ e.tokenIds.length) {hasSampling : Bool}
    {c : SlotContext} :
    Overflows cfg hasSampling e c ↔
      (hasSampling = true ∧ ∃ error, assignSlice cfg.allInputWidth c.allInputIds c.seqLens
        (e.tokenIds.take e.numNewTokens) = .error error) ∨
      ∃ error, assignSlice cfg.allOutputWidth c.allOutputIds c.outputLenCount
        (e.tokenIds.take e.numNewTokens) = .error error := by
  rw [assignSlice_error_iff, assignSlice_error_iff, List.length_take, Nat.min_eq_left hnum]
  unfold Overflows
  tauto

/-- One slice: it raises where it does not fit, and counts nothing. -/
theorem wp_updateSlice {hasSampling : Bool} (hnum : e.numNewTokens ≤ e.tokenIds.length)
    (slots : SlotIdx → SlotContext) :
    wp (updateSlice cfg hasSampling (h, e))
      (fun _ s => ¬Overflows cfg hasSampling e (slots h) ∧
        Sliced cfg hasSampling e (slots h) (s h) ∧ ∀ i, i ≠ h → s i = slots i)
      (fun _ s => Overflows cfg hasSampling e (slots h) ∧
        ∀ i, sequenceState (s i) = sequenceState (slots i)) slots := by
  unfold updateSlice
  rw [wp_bind, wp_get]
  dsimp only
  rw [wp_bind]
  refine wp_inputSlice (fun inputRow hinput => ?_) fun error hs he => ?_
  · have htake : inputRow.take (slots h).seqLens =
        (slots h).allInputIds.take (slots h).seqLens := by
      split at hinput
      · exact take_assignSlice hinput
      · rw [Except.ok.inj hinput]
    rw [wp_bind, forRows_single, wp_bind]
    refine wp_orRaise (fun outputRow houtput => ?_) fun error he => ⟨?_, fun i => ?_⟩
    · rw [forRows_single]
      refine ⟨fun hover => ?_, ⟨?_, ⟨inputRow, hinput, ?_⟩, ⟨outputRow, houtput, ?_⟩⟩, ?_⟩
      · rcases (overflows_iff hnum).mp hover with ⟨hs, error, he⟩ | ⟨error, he⟩
        · rw [if_pos hs, he] at hinput
          cases hinput
        · rw [he] at houtput
          cases houtput
      · rw [Function.update_self, Function.update_self]
        simp only [sequenceState, htake, take_assignSlice houtput]
      · rw [Function.update_self, Function.update_self]
      · rw [Function.update_self]
      · intro i hi
        rw [Function.update_of_ne hi, Function.update_of_ne hi]
    · exact (overflows_iff hnum).mpr (.inr ⟨error, he⟩)
    · by_cases hi : i = h
      · subst hi
        rw [Function.update_self]
        simp only [sequenceState, htake]
      · rw [Function.update_of_ne hi]
  · exact ⟨(overflows_iff hnum).mpr (.inl ⟨hs, error, he⟩), fun _ => rfl⟩

/-- The rows of a batch, once their tokens have been written. -/
structure AllSliced (cfg : BatchContextConfig) (hasSampling : Bool)
    (batch : List (SlotIdx × SamplingEntry)) (slots s : SlotIdx → SlotContext) : Prop where
  fits : ∀ p ∈ batch, ¬Overflows cfg hasSampling p.2 (slots p.1)
  rows : ∀ p ∈ batch, Sliced cfg hasSampling p.2 (slots p.1) (s p.1)
  others : ∀ i, (∀ p ∈ batch, p.1 ≠ i) → s i = slots i

/-- A row of the batch does not fit. -/
def Raised (cfg : BatchContextConfig) (hasSampling : Bool)
    (batch : List (SlotIdx × SamplingEntry)) (slots s : SlotIdx → SlotContext) : Prop :=
  (∃ p ∈ batch, Overflows cfg hasSampling p.2 (slots p.1)) ∧
    ∀ i, sequenceState (s i) = sequenceState (slots i)

/-- Slice by slice. -/
theorem wp_forM_updateSlice {hasSampling : Bool} (hnodup : (batch.map Prod.fst).Nodup)
    (hnum : ∀ p ∈ batch, p.2.numNewTokens ≤ p.2.tokenIds.length) (slots : SlotIdx → SlotContext) :
    wp (batch.forM (updateSlice cfg hasSampling))
      (fun _ s => AllSliced cfg hasSampling batch slots s)
      (fun _ s => Raised cfg hasSampling batch slots s) slots := by
  induction batch generalizing slots with
  | nil =>
    exact
      { fits := fun _ hp => by cases hp
        rows := fun _ hp => by cases hp
        others := fun _ _ => rfl }
  | cons q rest ih =>
    obtain ⟨h, e⟩ := q
    rw [List.map_cons, List.nodup_cons] at hnodup
    have hne : ∀ p ∈ rest, p.1 ≠ h := fun p hp heq =>
      hnodup.1 (List.mem_map.mpr ⟨p, hp, heq⟩)
    have hrest : ∀ p ∈ rest, p.2.numNewTokens ≤ p.2.tokenIds.length := fun p hp =>
      hnum p (List.mem_cons_of_mem _ hp)
    refine (wp_forM_cons _ _ _ _).mpr ?_
    refine wp_mono (wp_updateSlice (hnum _ List.mem_cons_self) slots) (fun _ s hs => ?_)
      fun _ s hs => ⟨⟨(h, e), List.mem_cons_self, hs.1⟩, hs.2⟩
    obtain ⟨hfits, hsliced, hothers⟩ := hs
    refine wp_mono (ih hnodup.2 hrest s) (fun _ s' hs' => ?_) fun _ s' hs' => ?_
    · -- the rest has not been written yet, and does not write this row
      refine ⟨?_, ?_, fun i hi => ?_⟩
      · intro p hp
        rcases List.mem_cons.mp hp with rfl | hp
        · exact hfits
        · rw [← hothers p.1 (hne p hp)]
          exact hs'.fits p hp
      · intro p hp
        rcases List.mem_cons.mp hp with rfl | hp
        · rw [hs'.others h hne]
          exact hsliced
        · rw [← hothers p.1 (hne p hp)]
          exact hs'.rows p hp
      · have hih : i ≠ h := fun heq => hi (h, e) List.mem_cons_self heq.symm
        rw [hs'.others i fun p hp => hi p (List.mem_cons_of_mem _ hp), hothers i hih]
    · obtain ⟨⟨p, hp, hover⟩, hsame⟩ := hs'
      rw [hothers p.1 (hne p hp)] at hover
      refine ⟨⟨p, List.mem_cons_of_mem _ hp, hover⟩, fun i => (hsame i).trans ?_⟩
      by_cases hi : i = h
      · subst hi
        exact hsliced.same
      · rw [hothers i hi]

/-- A batch as the sampler gives it: the rows of the array have its width, and the new tokens are
among the columns. -/
structure WellShaped (width : Nat) (batch : List (SlotIdx × SamplingEntry)) : Prop where
  pos : 0 < width
  length : ∀ p ∈ batch, p.2.tokenIds.length = width
  num : ∀ p ∈ batch, p.2.numNewTokens ≤ width

theorem not_overflows_of_not_outOfBound {hasSampling : Bool} {c : SlotContext}
    (hpos : 0 < width) (hnum : e.numNewTokens ≤ width) (hin : ¬outOfBound cfg width c) :
    ¬Overflows cfg hasSampling e c := by
  unfold outOfBound at hin
  unfold Overflows
  omega

/-- Whole columns: what is beyond the new tokens is not counted. -/
theorem sliced_of_columns {hasSampling : Bool} {c : SlotContext}
    (hlength : e.tokenIds.length = width) (hpos : 0 < width) (hnum : e.numNewTokens ≤ width)
    (hin : ¬outOfBound cfg width c) :
    Sliced cfg hasSampling e c { c with
      allOutputIds := writeAt c.allOutputIds c.outputLenCount e.tokenIds
      allInputIds :=
        if hasSampling then writeAt c.allInputIds c.seqLens e.tokenIds else c.allInputIds } := by
  have hlen : (e.tokenIds.take e.numNewTokens).length = e.numNewTokens := by
    rw [List.length_take]
    omega
  unfold outOfBound at hin
  refine ⟨?_, ?_, ?_⟩
  · cases hasSampling <;> simp [sequenceState, take_writeAt]
  · cases hasSampling with
    | false => exact ⟨_, rfl, rfl⟩
    | true =>
      refine ⟨_, assignSlice_of_le (by omega), ?_⟩
      exact (take_writeAt_take (by omega)).symm
  · refine ⟨_, assignSlice_of_le (by omega), ?_⟩
    exact (take_writeAt_take (by omega)).symm

theorem wp_updateColumns {hasSampling : Bool} (hnodup : (batch.map Prod.fst).Nodup)
    (hshape : WellShaped width batch) (slots : SlotIdx → SlotContext)
    (hin : ∀ p ∈ batch, ¬outOfBound cfg width (slots p.1)) :
    wp (updateColumns hasSampling batch) (fun _ s => AllSliced cfg hasSampling batch slots s)
      (fun _ _ => False) slots := by
  have hmaps : ∀ p ∈ batch, MapsRow p.1 _ (updateColumns hasSampling batch) := fun p hp =>
    (MapsRow.assign (Alone.of_nodup hnodup hp)).seq (.assignIf (Alone.of_nodup hnodup hp))
  obtain ⟨⟨⟩, s, hs, -⟩ := exists_ok (c := updateColumns hasSampling batch) (s := slots)
    (Q := fun _ _ => True) (by cases hasSampling <;> trivial)
  rw [wp_iff_of_ok hs]
  refine ⟨fun p hp => ?_, fun p hp => ?_, fun i hi => ?_⟩
  · exact not_overflows_of_not_outOfBound hshape.pos (hshape.num p hp) (hin p hp)
  · have hrow := wp_ok (hmaps p hp slots) hs
    rw [hrow]
    cases hasSampling <;>
      exact sliced_of_columns (hshape.length p hp) hshape.pos (hshape.num p hp) (hin p hp)
  · have hid : MapsRow i id (updateColumns hasSampling batch) :=
      (MapsRow.assign_of_notMem hi).seq (.assignIf_of_notMem hi)
    have hrow := wp_ok (hid slots) hs
    exact hrow

/-- Both ways of writing the tokens come to the same. -/
theorem wp_updateTokens (hnodup : (b.updating.map Prod.fst).Nodup)
    (hshape : WellShaped b.width b.updating) (slots : SlotIdx → SlotContext) :
    wp (updateTokens cfg b) (fun _ s => AllSliced cfg b.hasSampling b.updating slots s)
      (fun _ s => Raised cfg b.hasSampling b.updating slots s) slots := by
  unfold updateTokens
  rw [wp_bind, wp_get]
  split
  · refine wp_forM_updateSlice hnodup (fun p hp => ?_) slots
    rw [hshape.length p hp]
    exact hshape.num p hp
  next hin =>
  refine wp_mono (wp_updateColumns hnodup hshape slots fun p hp hout => hin ⟨p, hp, hout⟩)
    (fun _ _ hs => hs) fun _ _ hf => hf.elim

/-! ### The counters -/

/-- The sequence once `num` more tokens are counted. -/
def counted (num : Nat) (c : SlotContext) : SequenceState :=
  sequenceState
    { c with
      outputLenCount := c.outputLenCount + num
      seqLens := c.seqLens + num
      lastPositionIds := c.lastPositionIds + num }

theorem counted_zero (c : SlotContext) : counted 0 c = sequenceState c := by
  simp [counted, sequenceState]

theorem wp_updateCounters (hvalid : Alone b.valid h e) (hupdating : Alone b.updating h e)
    (slots : SlotIdx → SlotContext) :
    wp (updateCounters cfg b)
      (fun _ s => sequenceState (s h) = counted e.numNewTokens (slots h)) (fun _ _ => False)
      slots := by
  have hcached : MapsRow h _ (updateCached cfg b.updating) :=
    .ite _ (.forRows hupdating) (.forRows hupdating)
  have hmaps : MapsRow h _ (updateCounters cfg b) :=
    (MapsRow.assignIf hupdating).seq ((MapsRow.assignIf hupdating).seq
      ((MapsRow.assign hupdating).seq ((MapsRow.assign hupdating).seq (hcached.seq
        ((MapsRow.assign hupdating).seq (.forRows hvalid))))))
  refine wp_mono (hmaps slots) (fun _ s hs => ?_) fun _ _ hf => hf
  rw [hs]
  generalize slots h = c
  simp only [Function.comp_apply]
  split <;> split <;> split <;> rfl

/-- A row in the middle of its prompt is not counted, nor is one that is not in the batch. -/
theorem wp_updateCounters_of_notMem (hvalid : Alone b.valid h e ∨ ∀ p ∈ b.valid, p.1 ≠ h)
    (hupdating : ∀ p ∈ b.updating, p.1 ≠ h) (slots : SlotIdx → SlotContext) :
    wp (updateCounters cfg b) (fun _ s => sequenceState (s h) = sequenceState (slots h))
      (fun _ _ => False) slots := by
  have hcached : MapsRow h _ (updateCached cfg b.updating) :=
    .ite _ (.forRows_of_notMem hupdating) (.forRows_of_notMem hupdating)
  have hmaps {f} (hlast : MapsRow h f (forRows b.valid fun _ => withUsedBlock cfg)) :
      MapsRow h _ (updateCounters cfg b) :=
    (MapsRow.assignIf_of_notMem hupdating).seq ((MapsRow.assignIf_of_notMem hupdating).seq
      ((MapsRow.assign_of_notMem hupdating).seq ((MapsRow.assign_of_notMem hupdating).seq
        (hcached.seq ((MapsRow.assign_of_notMem hupdating).seq hlast)))))
  rcases hvalid with hvalid | hvalid
  · refine wp_mono (hmaps (.forRows hvalid) slots) (fun _ s hs => ?_) fun _ _ hf => hf
    rw [hs]
    split <;> rfl
  · refine wp_mono (hmaps (.forRows_of_notMem hvalid) slots) (fun _ s hs => ?_) fun _ _ hf => hf
    rw [hs]
    split <;> rfl

/-! ### The whole update -/

/-- The first statement, which is not undone where a slice raises. -/
def withLastToken (width : Nat) (e : SamplingEntry) (c : SlotContext) : SlotContext :=
  { c with lastInputIds := lastToken width e }

/-- What the sequence is after its tokens have been written and counted. -/
def Counted (cfg : BatchContextConfig) (hasSampling : Bool) (e : SamplingEntry) (c : SlotContext)
    (t : SequenceState) : Prop :=
  ∃ c', Sliced cfg hasSampling e c c' ∧ t = counted e.numNewTokens c'

/-- What is counted does not depend on how the tokens were written. -/
theorem Counted.unique {hasSampling : Bool} {c : SlotContext} {t t' : SequenceState}
    (ht : Counted cfg hasSampling e c t) (ht' : Counted cfg hasSampling e c t') : t = t' := by
  obtain ⟨c₁, ⟨hsame₁, ⟨in₁, hin₁, htake₁⟩, ⟨out₁, hout₁, htakeOut₁⟩⟩, rfl⟩ := ht
  obtain ⟨c₂, ⟨hsame₂, ⟨in₂, hin₂, htake₂⟩, ⟨out₂, hout₂, htakeOut₂⟩⟩, rfl⟩ := ht'
  obtain rfl := Except.ok.inj (hin₁.symm.trans hin₂)
  obtain rfl := Except.ok.inj (hout₁.symm.trans hout₂)
  simp only [sequenceState, SequenceState.mk.injEq] at hsame₁ hsame₂
  obtain ⟨hlast₁, -, -, hseq₁, hcount₁, hpos₁⟩ := hsame₁
  obtain ⟨hlast₂, -, -, hseq₂, hcount₂, hpos₂⟩ := hsame₂
  simp only [counted, sequenceState, hlast₁, hlast₂, hseq₁, hseq₂, hcount₁, hcount₂, hpos₁, hpos₂,
    htake₁, htake₂, htakeOut₁, htakeOut₂]

theorem Counted.seqLen {hasSampling : Bool} {c : SlotContext} {t : SequenceState}
    (ht : Counted cfg hasSampling e c t) : t.seqLen = c.seqLens + e.numNewTokens := by
  obtain ⟨c', hsliced, rfl⟩ := ht
  have hseq : c'.seqLens = c.seqLens := congrArg SequenceState.seqLen hsliced.same
  simp only [counted, sequenceState, hseq]

theorem Counted.eq_of_zero {hasSampling : Bool} {c : SlotContext} {t : SequenceState}
    (ht : Counted cfg hasSampling e c t) (hzero : e.numNewTokens = 0) : t = sequenceState c := by
  obtain ⟨c', hsliced, rfl⟩ := ht
  rw [hzero, counted_zero, hsliced.same]

/-- The update of the context by a batch, whatever way the tokens are written. -/
def updateContextWith (cfg : BatchContextConfig) (tokens : SlotsM PUnit) (b : SamplingBatch) :
    SlotsM PUnit := do
  assign b.updating (fun e _ => lastToken b.width e) fun c v => { c with lastInputIds := v }
  tokens
  updateCounters cfg b

theorem wp_updateContextWith_of_mem {tokens : SlotsM PUnit} (hvalid : Alone b.valid h e)
    (hnodup : (b.updating.map Prod.fst).Nodup)
    (htokens : ∀ s, wp tokens (fun _ s' => AllSliced cfg b.hasSampling b.updating s s')
      (fun _ s' => Raised cfg b.hasSampling b.updating s s') s)
    (hmem : (h, e) ∈ b.updating) (slots : SlotIdx → SlotContext) :
    wp (updateContextWith cfg tokens b)
      (fun _ s => (∀ p ∈ b.updating, ¬Overflows cfg b.hasSampling p.2 (slots p.1)) ∧
        Counted cfg b.hasSampling e (withLastToken b.width e (slots h)) (sequenceState (s h)))
      (fun _ s => (∃ p ∈ b.updating, Overflows cfg b.hasSampling p.2 (slots p.1)) ∧
        sequenceState (s h) = sequenceState (withLastToken b.width e (slots h))) slots := by
  have hlast : ∀ p ∈ b.updating, MapsRow p.1 (withLastToken b.width p.2)
      (assign b.updating (fun e _ => lastToken b.width e) fun c v =>
        { c with lastInputIds := v }) := fun p hp => .assign (Alone.of_nodup hnodup hp)
  obtain ⟨⟨⟩, s₁, hs₁, hrow⟩ := exists_ok (hlast _ hmem slots)
  -- the last token does not matter for whether a row overflows
  have hover : ∀ p ∈ b.updating, Overflows cfg b.hasSampling p.2 (s₁ p.1) ↔
      Overflows cfg b.hasSampling p.2 (slots p.1) := by
    intro p hp
    have hp' := wp_ok (hlast p hp slots) hs₁
    rw [hp']
    rfl
  unfold updateContextWith
  rw [wp_bind, wp_iff_of_ok hs₁, wp_bind]
  refine wp_mono (htokens s₁) (fun _ s hs => ?_) fun _ s hs => ?_
  · refine wp_mono (wp_updateCounters hvalid (Alone.of_nodup hnodup hmem) s) (fun _ s' hs' => ?_)
      fun _ _ hf => hf.elim
    refine ⟨fun p hp => (hover p hp).not.mp (hs.fits p hp), s h, ?_, hs'⟩
    have hsliced := hs.rows _ hmem
    rw [hrow] at hsliced
    exact hsliced
  · obtain ⟨⟨p, hp, hraised⟩, hsame⟩ := hs
    refine ⟨⟨p, hp, (hover p hp).mp hraised⟩, ?_⟩
    rw [hsame h, hrow]

theorem wp_updateContextWith_of_notMem {tokens : SlotsM PUnit}
    (hvalid : Alone b.valid h e ∨ ∀ p ∈ b.valid, p.1 ≠ h)
    (htokens : ∀ s, wp tokens (fun _ s' => AllSliced cfg b.hasSampling b.updating s s')
      (fun _ s' => Raised cfg b.hasSampling b.updating s s') s)
    (hnone : ∀ p ∈ b.updating, p.1 ≠ h) (slots : SlotIdx → SlotContext) :
    wp (updateContextWith cfg tokens b)
      (fun _ s => sequenceState (s h) = sequenceState (slots h))
      (fun _ s => sequenceState (s h) = sequenceState (slots h)) slots := by
  have hlast : MapsRow h id (assign b.updating (fun e _ => lastToken b.width e) fun c v =>
      { c with lastInputIds := v }) := .assign_of_notMem hnone
  obtain ⟨⟨⟩, s₁, hs₁, hrow⟩ := exists_ok (hlast slots)
  have hrow : s₁ h = slots h := hrow
  unfold updateContextWith
  rw [wp_bind, wp_iff_of_ok hs₁, wp_bind]
  refine wp_mono (htokens s₁) (fun _ s hs => ?_) fun _ s hs => ?_
  · refine wp_mono (wp_updateCounters_of_notMem hvalid hnone s) (fun _ s' hs' => ?_)
      fun _ _ hf => hf.elim
    rw [hs', hs.others h hnone, hrow]
  · rw [hs.2 h, hrow]

theorem wp_updateContext_of_mem (hvalid : Alone b.valid h e)
    (hnodup : (b.updating.map Prod.fst).Nodup) (hshape : WellShaped b.width b.updating)
    (hmem : (h, e) ∈ b.updating) (slots : SlotIdx → SlotContext) :
    wp (updateContext cfg b)
      (fun _ s => (∀ p ∈ b.updating, ¬Overflows cfg b.hasSampling p.2 (slots p.1)) ∧
        Counted cfg b.hasSampling e (withLastToken b.width e (slots h)) (sequenceState (s h)))
      (fun _ s => (∃ p ∈ b.updating, Overflows cfg b.hasSampling p.2 (slots p.1)) ∧
        sequenceState (s h) = sequenceState (withLastToken b.width e (slots h))) slots :=
  wp_updateContextWith_of_mem hvalid hnodup (wp_updateTokens hnodup hshape) hmem slots

theorem wp_updateContext_of_notMem (hvalid : Alone b.valid h e)
    (hnodup : (b.updating.map Prod.fst).Nodup) (hshape : WellShaped b.width b.updating)
    (hnone : ∀ p ∈ b.updating, p.1 ≠ h) (slots : SlotIdx → SlotContext) :
    wp (updateContext cfg b) (fun _ s => sequenceState (s h) = sequenceState (slots h))
      (fun _ s => sequenceState (s h) = sequenceState (slots h)) slots :=
  wp_updateContextWith_of_notMem (.inl hvalid) (wp_updateTokens hnodup hshape) hnone slots

/-- What the rows of a sequence hold of its tokens, once more of them have been counted. -/
theorem Counted.history {c : SlotContext} {t : SequenceState} (ht : Counted cfg true e c t)
    (hnum : e.numNewTokens ≤ e.tokenIds.length)
    (hinput : c.seqLens + e.numNewTokens ≤ c.allInputIds.length)
    (houtput : c.outputLenCount + e.numNewTokens ≤ c.allOutputIds.length)
    (hwidths : c.allInputIds.length = cfg.allInputWidth ∧
      c.allOutputIds.length = cfg.allOutputWidth) :
    t.allInputIds = c.allInputIds.take c.seqLens ++ e.tokenIds.take e.numNewTokens ∧
      t.allOutputIds = c.allOutputIds.take c.outputLenCount ++ e.tokenIds.take e.numNewTokens ∧
      t.seqLen = c.seqLens + e.numNewTokens ∧
      t.outputLenCount = c.outputLenCount + e.numNewTokens := by
  obtain ⟨c', ⟨hsame, ⟨inputRow, hin, hinTake⟩, ⟨outputRow, hout, houtTake⟩⟩, rfl⟩ := ht
  have hlen : (e.tokenIds.take e.numNewTokens).length = e.numNewTokens := by
    rw [List.length_take]
    omega
  have hseq : c'.seqLens = c.seqLens := congrArg SequenceState.seqLen hsame
  have hcount : c'.outputLenCount = c.outputLenCount :=
    congrArg SequenceState.outputLenCount hsame
  rw [if_pos rfl, assignSlice_of_le (by omega)] at hin
  rw [assignSlice_of_le (by omega)] at hout
  obtain rfl := Except.ok.inj hin
  obtain rfl := Except.ok.inj hout
  have happend {row : List Int} {start : Nat} (hfit : start + e.numNewTokens ≤ row.length) :
      (writeAt row start (e.tokenIds.take e.numNewTokens)).take (start + e.numNewTokens) =
        row.take start ++ e.tokenIds.take e.numNewTokens := by
    rw [← hlen] at hfit
    have hwritten := take_writeAt_append hfit
    rwa [hlen] at hwritten
  have hinput' := happend hinput
  have houtput' := happend houtput
  refine ⟨?_, ?_, ?_, ?_⟩
  · rw [← hinput', ← hinTake, ← hseq]
    rfl
  · rw [← houtput', ← houtTake, ← hcount]
    rfl
  · rw [← hseq]
    rfl
  · rw [← hcount]
    rfl

/-! ### What an update leaves alone -/

/-- A row that is not in the batch. -/
theorem wp_updateContextWith_of_absent {tokens : SlotsM PUnit} (hvalid : ∀ p ∈ b.valid, p.1 ≠ h)
    (htokens : ∀ s, wp tokens (fun _ s' => AllSliced cfg b.hasSampling b.updating s s')
      (fun _ s' => Raised cfg b.hasSampling b.updating s s') s) (slots : SlotIdx → SlotContext) :
    wp (updateContextWith cfg tokens b)
      (fun _ s => sequenceState (s h) = sequenceState (slots h))
      (fun _ s => sequenceState (s h) = sequenceState (slots h)) slots :=
  wp_updateContextWith_of_notMem (e := { tokenIds := [], numNewTokens := 0 })
    (.inr hvalid) htokens
    (fun p hp => hvalid p (List.mem_filter.mp hp).1) slots

/-- The widths of the two rows. -/
def widths (c : SlotContext) : Nat × Nat := (c.allInputIds.length, c.allOutputIds.length)

theorem length_assignSlice {row' : List Int} (h : assignSlice width row start values = .ok row') :
    row'.length = row.length := by
  unfold assignSlice at h
  dsimp only at h
  split at h
  · rw [← Except.ok.inj h, length_writeAt]
  · split at h
    · rw [← Except.ok.inj h]
    · cases h

theorem keeps_updateSlice {hasSampling : Bool} (p : SlotIdx × SamplingEntry) :
    Keeps widths (updateSlice cfg hasSampling p) := by
  intro slots
  unfold updateSlice
  rw [wp_bind, wp_get]
  dsimp only
  rw [wp_bind]
  refine wp_inputSlice (fun inputRow hinput => ?_) fun _ _ _ _ => rfl
  have hlength : inputRow.length = (slots p.1).allInputIds.length := by
    split at hinput
    · exact length_assignSlice hinput
    · rw [Except.ok.inj hinput]
  have hwritten : ∀ i, widths (Function.update slots p.1
      { slots p.1 with allInputIds := inputRow } i) = widths (slots i) := by
    intro i
    by_cases hi : i = p.1
    · rw [hi, Function.update_self]
      simp only [widths, hlength]
    · rw [Function.update_of_ne hi]
  rw [wp_bind, forRows_single, wp_bind]
  refine wp_orRaise (fun outputRow houtput => ?_) fun _ _ i => hwritten i
  rw [forRows_single]
  intro i
  by_cases hi : i = p.1
  · rw [hi, Function.update_self, Function.update_self]
    simp only [widths, hlength, length_assignSlice houtput]
  · rw [Function.update_of_ne hi]
    exact hwritten i

/-- Values that are as long as what they replace. -/
theorem keeps_assign_of_length {value : SamplingEntry → SlotContext → List Int}
    {set : SlotContext → List Int → SlotContext} (part : Nat × Nat → Nat)
    (hvalue : ∀ e c, (value e c).length = part (widths c))
    (hset : ∀ c row, row.length = part (widths c) → widths (set c row) = widths c) :
    Keeps widths (assign batch value set) := by
  intro slots i
  change widths (writeRows set (batch.map fun p => (p.1, value p.2 (slots p.1))) slots i) = _
  rw [writeRows_apply]
  have hrows : ∀ row ∈ (((batch.map fun p => (p.1, value p.2 (slots p.1))).filter
      fun p => p.1 = i).map Prod.snd), row.length = part (widths (slots i)) := by
    intro row hrow
    obtain ⟨q, hq, rfl⟩ := List.mem_map.mp hrow
    obtain ⟨hmem, hi⟩ := List.mem_filter.mp hq
    obtain ⟨p, -, rfl⟩ := List.mem_map.mp hmem
    rw [← of_decide_eq_true hi]
    exact hvalue _ _
  generalize ((batch.map fun p => (p.1, value p.2 (slots p.1))).filter
      fun p => p.1 = i).map Prod.snd = rows at hrows
  suffices hfold : ∀ c, widths c = widths (slots i) →
      widths (rows.foldl set c) = widths (slots i) from hfold _ rfl
  induction rows with
  | nil => exact fun c hc => hc
  | cons row rest ih =>
    intro c hc
    refine ih (fun row hrow => hrows row (List.mem_cons_of_mem _ hrow)) _ ?_
    rw [hset c row (by rw [hc, hrows row List.mem_cons_self]), hc]

theorem keeps_updateColumns {hasSampling : Bool} :
    Keeps widths (updateColumns hasSampling batch) := by
  refine Keeps.bind ?_ fun _ => Keeps.ite _ ?_ (Keeps.pure _)
  · refine keeps_assign_of_length Prod.snd (fun _ _ => length_writeAt) fun c row hrow => ?_
    simp only [widths, hrow]
  · refine keeps_assign_of_length Prod.fst (fun _ _ => length_writeAt) fun c row hrow => ?_
    simp only [widths, hrow]

/-- The rows keep their widths. -/
theorem keeps_updateContext : Keeps widths (updateContext cfg b) := by
  have hcached : Keeps widths (updateCached cfg b.updating) :=
    .ite _ (.forRows fun _ _ => rfl) (.forRows fun _ _ => rfl)
  have hcounters : Keeps widths (updateCounters cfg b) :=
    .bind (.assignIf fun _ _ => rfl) fun _ => .bind (.assignIf fun _ _ => rfl) fun _ =>
      .bind (.assign fun _ _ => rfl) fun _ => .bind (.assign fun _ _ => rfl) fun _ =>
        .bind hcached fun _ => .bind (.assign fun _ _ => rfl) fun _ => .forRows fun _ _ => rfl
  have htokens : Keeps widths (updateTokens cfg b) :=
    .bind .get fun _ => .ite _ (.forM keeps_updateSlice) keeps_updateColumns
  exact .bind (.assign fun _ _ => rfl) fun _ => .bind htokens fun _ => hcounters

/-! ### The sequence alone -/

/-- The batch that holds only the sequence. -/
def SamplingBatch.only (b : SamplingBatch) (h : SlotIdx) : SamplingBatch :=
  { b with entries := b.entries.filter fun p => p.1 = some h }

theorem SamplingBatch.valid_only (b : SamplingBatch) (h : SlotIdx) :
    (b.only h).valid = b.valid.filter fun p => p.1 = h := by
  unfold valid only
  generalize b.entries = entries
  rw [List.filter_filter, ← List.filter_filter]
  induction entries with
  | nil => rfl
  | cons p rest ih =>
    obtain ⟨slot, entry⟩ := p
    cases slot with
    | none => simpa using ih
    | some i =>
      by_cases hi : i = h
      · by_cases hzero : i = 0 <;> simp_all
      · simp_all

theorem SamplingBatch.updating_only (b : SamplingBatch) (h : SlotIdx) :
    (b.only h).updating = b.updating.filter fun p => p.1 = h := by
  have hupdates : ∀ e, (b.only h).updates e = b.updates e := fun _ => rfl
  unfold updating
  rw [b.valid_only h, List.filter_filter, List.filter_filter]
  exact List.filter_congr fun p _ => by rw [hupdates, Bool.and_comm]

theorem WellShaped.of_sublist {batch' : List (SlotIdx × SamplingEntry)}
    (hshape : WellShaped width batch) (hsub : ∀ p ∈ batch', p ∈ batch) :
    WellShaped width batch' where
  pos := hshape.pos
  length p hp := hshape.length p (hsub p hp)
  num p hp := hshape.num p (hsub p hp)

/-- After a forward pass. -/
theorem sameEffect_updateContext (hvalid : Alone b.valid h e)
    (hnodup : (b.valid.map Prod.fst).Nodup) (hshape : WellShaped b.width b.valid) :
    SameEffect cfg (.updateContext b) slots h ↔
      (∀ p ∈ b.updating, ¬Overflows cfg b.hasSampling p.2 (slots p.1)) ∨
        ∀ e, (h, e) ∈ b.updating → e.numNewTokens = 0 ∨
          Overflows cfg b.hasSampling e (slots h) := by
  have hnodup' : (b.updating.map Prod.fst).Nodup :=
    hnodup.sublist (List.filter_sublist.map _)
  have hshape' : WellShaped b.width b.updating :=
    hshape.of_sublist fun p hp => (List.mem_filter.mp hp).1
  have honly : (b.only h).valid = [(h, e)] := (b.valid_only h).trans hvalid
  have hsingle : Alone (b.only h).valid h e := by
    rw [honly]
    exact .single
  have hsub : ∀ p ∈ (b.only h).updating, p ∈ b.updating := by
    intro p hp
    rw [b.updating_only h] at hp
    exact (List.mem_filter.mp hp).1
  have hnodupOnly : ((b.only h).updating.map Prod.fst).Nodup := by
    rw [b.updating_only h]
    exact hnodup'.sublist (List.filter_sublist.map _)
  have hshapeOnly : WellShaped (b.only h).width (b.only h).updating := hshape'.of_sublist hsub
  unfold SameEffect
  change sequenceState (after (updateContext cfg b) slots h) =
    sequenceState (after (updateContext cfg (b.only h)) slots h) ↔ _
  by_cases hupdates : b.updates e
  · have hmem : (h, e) ∈ b.updating := List.mem_filter.mpr ⟨hvalid.mem, hupdates⟩
    have hone : (b.only h).updating = [(h, e)] :=
      (b.updating_only h).trans (Alone.of_nodup hnodup' hmem)
    have hmemOnly : (h, e) ∈ (b.only h).updating := by
      rw [hone]
      exact List.mem_singleton_self _
    have hunique : ∀ e', (h, e') ∈ b.updating → e' = e := fun _ he' =>
      (Alone.of_nodup hnodup' hmem).unique he'
    have hbatched := after_of_wp (c := updateContext cfg b) (P := fun s =>
      ((∀ p ∈ b.updating, ¬Overflows cfg b.hasSampling p.2 (slots p.1)) ∧
        Counted cfg b.hasSampling e (withLastToken b.width e (slots h)) (sequenceState (s h))) ∨
      ((∃ p ∈ b.updating, Overflows cfg b.hasSampling p.2 (slots p.1)) ∧
        sequenceState (s h) = sequenceState (withLastToken b.width e (slots h))))
      (wp_mono (wp_updateContext_of_mem hvalid hnodup' hshape' hmem slots)
        (fun _ _ hs => .inl hs) fun _ _ hs => .inr hs)
    have halone := after_of_wp (c := updateContext cfg (b.only h)) (P := fun s =>
      (¬Overflows cfg b.hasSampling e (slots h) ∧
        Counted cfg b.hasSampling e (withLastToken b.width e (slots h)) (sequenceState (s h))) ∨
      (Overflows cfg b.hasSampling e (slots h) ∧
        sequenceState (s h) = sequenceState (withLastToken b.width e (slots h))))
      (wp_mono (wp_updateContext_of_mem hsingle hnodupOnly hshapeOnly hmemOnly slots)
        (fun _ _ hs => .inl ⟨hs.1 _ hmemOnly, hs.2⟩) fun _ _ hs => .inr ⟨?_, hs.2⟩)
    · have hright : (∀ e', (h, e') ∈ b.updating → e'.numNewTokens = 0 ∨
          Overflows cfg b.hasSampling e' (slots h)) ↔
          e.numNewTokens = 0 ∨ Overflows cfg b.hasSampling e (slots h) := by
        refine ⟨fun hall => hall e hmem, fun hor e' he' => ?_⟩
        rw [hunique e' he']
        exact hor
      rw [hright]
      have hseq : (sequenceState (withLastToken b.width e (slots h))).seqLen =
          (slots h).seqLens := rfl
      rcases hbatched with ⟨hfits, hcounted⟩ | ⟨⟨p, hp, hover⟩, hraised⟩
      · refine iff_of_true ?_ (.inl hfits)
        rcases halone with ⟨-, hcounted'⟩ | ⟨hover, -⟩
        · exact hcounted.unique hcounted'
        · exact absurd hover (hfits _ hmem)
      · have hnot : ¬∀ p ∈ b.updating, ¬Overflows cfg b.hasSampling p.2 (slots p.1) :=
          fun hall => hall p hp hover
        rw [or_iff_right hnot, hraised]
        rcases halone with ⟨hfit, hcounted⟩ | ⟨hover', hraised'⟩
        · rw [or_iff_left hfit]
          refine ⟨fun heq => ?_, fun hzero => (hcounted.eq_of_zero hzero).symm⟩
          -- the tokens of the sequence alone are counted
          have hlen := hcounted.seqLen
          rw [← heq] at hlen
          simp only [sequenceState, withLastToken] at hlen
          omega
        · exact iff_of_true hraised'.symm (.inr hover')
    · obtain ⟨⟨p, hp, hover⟩, -⟩ := hs
      rw [hone, List.mem_singleton] at hp
      rw [hp] at hover
      exact hover
  · have hnone : ∀ p ∈ b.updating, p.1 ≠ h := by
      intro p hp heq
      have hp' := List.mem_filter.mp hp
      have hmem' : p ∈ b.valid.filter fun p => p.1 = h := List.mem_filter.mpr ⟨hp'.1, by simpa⟩
      rw [hvalid, List.mem_singleton] at hmem'
      rw [hmem'] at hp'
      exact hupdates hp'.2
    refine iff_of_true ?_ (.inr fun e' he' => absurd rfl (hnone _ he'))
    rw [after_of_wp (P := fun s => sequenceState (s h) = sequenceState (slots h))
        (wp_updateContext_of_notMem hvalid hnodup' hshape' hnone slots),
      after_of_wp (P := fun s => sequenceState (s h) = sequenceState (slots h))
        (wp_updateContext_of_notMem hsingle hnodupOnly hshapeOnly
          (fun p hp => hnone p (hsub p hp)) slots)]

end Sampled

end UpdateContext

end MindieLLM
