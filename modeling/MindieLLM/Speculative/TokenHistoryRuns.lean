import MindieLLM.Speculative.TokenHistory

/-!
# Runs that keep the history of the tokens

A step in which the tokens fit returns, and the rows of the context hold what they held and the new
tokens of each sequence. Whether they have been written in whole columns or row by row cannot be
seen.

## Main results

* `TokenHistory.Kept.step`: a step keeps the histories exact
* `TokenHistory.sameBranches`: both ways of writing the tokens come to the same
* `TokenHistory.exact_of_reaches`: the history is exact in runs of such steps
* `TokenHistory.not_exact`: look-ahead near the greatest length of a sequence
-/

namespace MindieLLM

open Program Truncation UpdateContext

namespace TokenHistory

variable {cfg : Config} {s s' : State} {b : Batch} {p : SlotIdx × Entry} {h : SlotIdx}

/-! ## The step -/

/-- What the filter finds for the sequences. -/
def found (cfg : Config) (s : State) (b : Batch) : List (SlotIdx × Outcome) :=
  b.entries.map fun p => (p.1, outcome cfg s p (row cfg s b p, marked cfg s b p))

/-- What the context gets of a sequence. -/
def newTokens (cfg : Config) (s : State) (b : Batch) (p : SlotIdx × Entry) : SamplingEntry where
  tokenIds := (row cfg s b p).tokenIds
  numNewTokens := newLen cfg s b p

theorem length_row (henabled : Enabled cfg s b) (hp : p ∈ b.entries) :
    (row cfg s b p).tokenIds.length = width cfg s b := by
  have hle := length_final_le henabled hp
  simp only [row, padRow, List.length_append, List.length_replicate]
  omega

theorem valid_samplingBatch (henabled : Enabled cfg s b) :
    (samplingBatch b (found cfg s b)).valid =
      b.entries.map fun p => (p.1, newTokens cfg s b p) := by
  have hslots : ∀ p ∈ b.entries, p.1 ≠ 0 := fun p hp => (henabled.2.2.2 p hp).1
  have hentries : (samplingBatch b (found cfg s b)).entries =
      b.entries.map fun p => (some p.1, newTokens cfg s b p) := by
    simp only [samplingBatch, found, List.map_map]
    rfl
  unfold SamplingBatch.valid
  rw [hentries, List.filterMap_map]
  have hsome : (b.entries.filterMap fun p =>
      (some p.1).map fun h => (h, newTokens cfg s b p)) =
      b.entries.map fun p => (p.1, newTokens cfg s b p) := congrFun List.filterMap_eq_map _
  change List.filter _ (b.entries.filterMap fun p =>
    (some p.1).map fun h => (h, newTokens cfg s b p)) = _
  rw [hsome, List.filter_eq_self]
  intro q hq
  obtain ⟨p, hp, rfl⟩ := List.mem_map.mp hq
  exact decide_eq_true (hslots p hp)

theorem updating_samplingBatch (henabled : Enabled cfg s b) :
    (samplingBatch b (found cfg s b)).updating =
      b.entries.map fun p => (p.1, newTokens cfg s b p) := by
  unfold SamplingBatch.updating
  rw [valid_samplingBatch henabled, List.filter_eq_self]
  exact fun _ _ => rfl

theorem nodup_samplingBatch (henabled : Enabled cfg s b) :
    ((b.entries.map fun p => (p.1, newTokens cfg s b p)).map Prod.fst).Nodup := by
  rw [List.map_map]
  exact henabled.2.2.1

theorem width_samplingBatch (henabled : Enabled cfg s b) :
    (samplingBatch b (found cfg s b)).width = width cfg s b := by
  have hlengths : (found cfg s b).map (fun o => o.2.row.tokenIds.length) =
      List.replicate b.entries.length (width cfg s b) := by
    unfold found
    rw [List.map_map, List.eq_replicate_iff]
    refine ⟨List.length_map _, fun n hn => ?_⟩
    obtain ⟨p, hp, rfl⟩ := List.mem_map.mp hn
    exact length_row henabled hp
  have hfold (n m : Nat) : (List.replicate (n + 1) m).foldl max 0 = m := by
    have hsame : ∀ n, (List.replicate n m).foldl max m = m := by
      intro n
      induction n with
      | zero => rfl
      | succ n ih => rw [List.replicate_succ, List.foldl_cons, Nat.max_self, ih]
    rw [List.replicate_succ, List.foldl_cons, Nat.zero_max, hsame]
  obtain ⟨n, hn⟩ : ∃ n, b.entries.length = n + 1 :=
    ⟨b.entries.length - 1, by
      have := List.length_pos_iff.mpr henabled.2.1
      omega⟩
  unfold samplingBatch
  rw [hlengths, hn]
  exact hfold n _

theorem wellShaped_samplingBatch (henabled : Enabled cfg s b)
    (hroomy : ∀ h, s.status h = .live → Roomy cfg s h) :
    WellShaped (samplingBatch b (found cfg s b)).width
      (samplingBatch b (found cfg s b)).updating := by
  rw [width_samplingBatch henabled, updating_samplingBatch henabled]
  obtain ⟨p, hp⟩ := List.exists_mem_of_ne_nil _ henabled.2.1
  have hpos := List.length_pos_iff.mpr (kept_ne_nil henabled hroomy hp)
  refine ⟨hpos.trans_le (length_kept_le henabled hp), ?_, ?_⟩
  · intro q hq
    obtain ⟨p, hp, rfl⟩ := List.mem_map.mp hq
    exact length_row henabled hp
  · intro q hq
    obtain ⟨p, hp, rfl⟩ := List.mem_map.mp hq
    exact (newLen_le cfg s b p).trans (length_final_le henabled hp)

/-- The rows of the context, between two steps. -/
structure Kept (cfg : Config) (s : State) : Prop where
  exact : Exact cfg s
  widths : ∀ h, UpdateContext.widths (s.slots h) =
    (cfg.context.allInputWidth, cfg.context.allOutputWidth)
  roomy : ∀ h, s.status h = .live → Roomy cfg s h

theorem not_overflows (hfits : Fits cfg s b) (hp : p ∈ b.entries) (hasSampling : Bool) :
    ¬Overflows cfg.context hasSampling (newTokens cfg s b p) (s.slots p.1) := by
  have hnew := newLen_fits hfits hp
  change ¬(2 ≤ newLen cfg s b p ∧ _)
  simp only [newTokens]
  omega

/-- The update returns, and counts the new tokens of a sequence. -/
theorem wp_update_of_mem (henabled : Enabled cfg s b) (hkept : Kept cfg s)
    (hfits : Fits cfg s b) (hp : p ∈ b.entries) :
    wp (updateContext cfg.context (samplingBatch b (found cfg s b)))
      (fun _ slots => Counted cfg.context true (newTokens cfg s b p)
        (withLastToken (width cfg s b) (newTokens cfg s b p) (s.slots p.1))
        (sequenceState (slots p.1)))
      (fun _ _ => False) s.slots := by
  have hvalid := valid_samplingBatch henabled
  have hupdating := updating_samplingBatch henabled
  have hnodup := nodup_samplingBatch henabled
  have hmem : (p.1, newTokens cfg s b p) ∈ (samplingBatch b (found cfg s b)).updating := by
    rw [hupdating]
    exact List.mem_map_of_mem hp
  have halone : Alone (samplingBatch b (found cfg s b)).valid p.1 (newTokens cfg s b p) := by
    rw [hvalid]
    exact Alone.of_nodup hnodup (List.mem_map_of_mem hp)
  have hsampling : (samplingBatch b (found cfg s b)).hasSampling = true := hfits.sampling
  have hnone : ∀ q ∈ (samplingBatch b (found cfg s b)).updating,
      ¬Overflows cfg.context true q.2 (s.slots q.1) := by
    rw [hupdating]
    intro q hq
    obtain ⟨p, hp, rfl⟩ := List.mem_map.mp hq
    exact not_overflows hfits hp true
  refine wp_mono (wp_updateContext_of_mem halone (by rw [hupdating]; exact hnodup)
    (wellShaped_samplingBatch henabled hkept.roomy) hmem s.slots) (fun _ slots hs => ?_)
    fun _ _ hs => ?_
  · obtain ⟨-, hcounted⟩ := hs
    rw [hsampling, width_samplingBatch henabled] at hcounted
    exact hcounted
  rw [hsampling] at hs
  obtain ⟨⟨q, hq, hover⟩, -⟩ := hs
  exact hnone q hq hover

theorem wp_update_of_notMem (henabled : Enabled cfg s b) (hkept : Kept cfg s)
    (hh : ∀ p ∈ b.entries, p.1 ≠ h) :
    wp (updateContext cfg.context (samplingBatch b (found cfg s b)))
      (fun _ slots => sequenceState (slots h) = sequenceState (s.slots h))
      (fun _ slots => sequenceState (slots h) = sequenceState (s.slots h)) s.slots := by
  have hnodup := nodup_samplingBatch henabled
  refine wp_updateContextWith_of_absent ?_ ?_ s.slots
  · rw [valid_samplingBatch henabled]
    intro q hq
    obtain ⟨p, hp, rfl⟩ := List.mem_map.mp hq
    exact hh p hp
  · refine wp_updateTokens ?_ (wellShaped_samplingBatch henabled hkept.roomy)
    rw [updating_samplingBatch henabled]
    exact hnodup

/-- The context after the update. -/
structure Updated (cfg : Config) (s : State) (b : Batch) (slots : SlotIdx → SlotContext) :
    Prop where
  counted : ∀ p ∈ b.entries, Counted cfg.context true (newTokens cfg s b p)
    (withLastToken (width cfg s b) (newTokens cfg s b p) (s.slots p.1)) (sequenceState (slots p.1))
  others : ∀ h, (∀ p ∈ b.entries, p.1 ≠ h) → sequenceState (slots h) = sequenceState (s.slots h)
  widths : ∀ h, UpdateContext.widths (slots h) = UpdateContext.widths (s.slots h)

theorem exists_update (henabled : Enabled cfg s b) (hkept : Kept cfg s) (hfits : Fits cfg s b) :
    ∃ slots, updateContext cfg.context (samplingBatch b (found cfg s b)) s.slots = .ok ⟨⟩ slots ∧
      Updated cfg s b slots := by
  obtain ⟨p, hp⟩ := List.exists_mem_of_ne_nil _ henabled.2.1
  obtain ⟨⟨⟩, slots, hslots, -⟩ := exists_ok (wp_update_of_mem henabled hkept hfits hp)
  refine ⟨slots, hslots, fun q hq => ?_, fun h hh => ?_, ?_⟩
  · have hcounted := wp_ok (wp_update_of_mem henabled hkept hfits hq) hslots
    exact hcounted
  · have hsame := wp_ok (wp_update_of_notMem henabled hkept hh) hslots
    exact hsame
  · exact wp_ok (keeps_updateContext s.slots) hslots

theorem decode_eq {slots : SlotIdx → SlotContext} (henabled : Enabled cfg s b)
    (hkept : Kept cfg s) (hfits : Fits cfg s b)
    (hslots : updateContext cfg.context (samplingBatch b (found cfg s b)) s.slots = .ok ⟨⟩ slots) :
    decode cfg s b =
      { s with
        slots := slots
        accepted := writeRows (fun tokens o => tokens ++ o.accepted) (found cfg s b) s.accepted
        status := writeRows (fun status o => if o.finished then .finished else status)
          (found cfg s b) s.status } := by
  have houtcomes : outcomes cfg s b = .ok (found cfg s b) :=
    outcomes_eq henabled hkept.roomy hfits
  simp only [decode, houtcomes, hslots]

/-- A row of a live sequence after the update. -/
theorem Updated.history {slots : SlotIdx → SlotContext} (hupdated : Updated cfg s b slots)
    (hkept : Kept cfg s) (hfits : Fits cfg s b) (henabled : Enabled cfg s b)
    (hp : p ∈ b.entries) (hlive : s.status p.1 = .live) :
    (slots p.1).allInputIds.take (slots p.1).seqLens =
        (s.slots p.1).allInputIds.take (s.slots p.1).seqLens ++
          (final cfg s b p).take (newLen cfg s b p) ∧
      (slots p.1).allOutputIds.take (slots p.1).outputLenCount =
        (s.slots p.1).allOutputIds.take (s.slots p.1).outputLenCount ++
          (final cfg s b p).take (newLen cfg s b p) ∧
      (slots p.1).seqLens = (s.slots p.1).seqLens + newLen cfg s b p ∧
      (slots p.1).outputLenCount = (s.slots p.1).outputLenCount + newLen cfg s b p := by
  obtain ⟨hseq, -, hgen⟩ := hkept.roomy p.1 hlive
  have hwidths := Prod.ext_iff.mp (hkept.widths p.1)
  have hin := maxSeqLen_le_allInputWidth cfg
  have hout := maxGenLen_le_allOutputWidth cfg
  have hnew := newLen_fits hfits hp
  have hle := newLen_le cfg s b p
  have htokens : (row cfg s b p).tokenIds.take (newLen cfg s b p) =
      (final cfg s b p).take (newLen cfg s b p) := by
    rw [row, padRow, List.take_append_of_le_length hle]
  have hhistory := (hupdated.counted p hp).history
    (by
      change newLen cfg s b p ≤ (row cfg s b p).tokenIds.length
      rw [length_row henabled hp]
      exact hle.trans (length_final_le henabled hp))
    (by
      change (s.slots p.1).seqLens + newLen cfg s b p ≤ (UpdateContext.widths (s.slots p.1)).1
      rw [hwidths.1]
      dsimp only
      omega)
    (by
      change (s.slots p.1).outputLenCount + newLen cfg s b p ≤
        (UpdateContext.widths (s.slots p.1)).2
      rw [hwidths.2]
      dsimp only
      omega)
    hwidths
  simp only [newTokens, htokens] at hhistory
  exact hhistory

/-- A sequence that goes on has its history. -/
theorem Kept.exact_of_mem {slots : SlotIdx → SlotContext} (hkept : Kept cfg s)
    (hupdated : Updated cfg s b slots) (hfits : Fits cfg s b) (henabled : Enabled cfg s b)
    (hp : p ∈ b.entries) (hlive : s.status p.1 = .live) (hgoesOn : GoesOn cfg s b p) :
    (slots p.1).allOutputIds.take (slots p.1).outputLenCount =
        s.accepted p.1 ++ p.2.tokens.take (newLen cfg s b p) ∧
      (slots p.1).allInputIds.take (slots p.1).seqLens =
        s.prompt p.1 ++ (s.accepted p.1 ++ p.2.tokens.take (newLen cfg s b p)) ∧
      (slots p.1).seqLens = (s.prompt p.1).length +
        (s.accepted p.1 ++ p.2.tokens.take (newLen cfg s b p)).length ∧
      (slots p.1).seqLens < cfg.maxSeqLen ∧
      (slots p.1).outputLenCount < s.maxOutputLen p.1 ∧
      (slots p.1).outputLenCount < cfg.maxGenLen := by
  obtain ⟨hinput, houtput, hseqLens, hcount⟩ := hupdated.history hkept hfits henabled hp hlive
  have hprefix := hgoesOn.final_prefix hfits hp
  have htokens : (final cfg s b p).take (newLen cfg s b p) =
      p.2.tokens.take (newLen cfg s b p) := by
    rw [hgoesOn.newLen, List.take_length]
    exact List.prefix_iff_eq_take.mp hprefix
  have hlength : (p.2.tokens.take (newLen cfg s b p)).length = newLen cfg s b p := by
    rw [← htokens, hgoesOn.newLen, List.take_length]
  rw [htokens] at hinput houtput
  refine ⟨?_, ?_, ?_, ?_, ?_, ?_⟩
  · rw [houtput, hkept.exact.allOutputIds p.1 hlive]
  · rw [hinput, hkept.exact.allInputIds p.1 hlive, List.append_assoc]
  · rw [hseqLens, hkept.exact.seqLens p.1 hlive, List.length_append, hlength, Nat.add_assoc]
  · rw [hseqLens, hgoesOn.newLen]
    exact hgoesOn.seqLens
  · rw [hcount, hgoesOn.newLen]
    exact hgoesOn.maxOutputLen
  · rw [hcount, hgoesOn.newLen]
    exact hgoesOn.maxGenLen

theorem alone_found (henabled : Enabled cfg s b) (hp : p ∈ b.entries) :
    Alone (found cfg s b) p.1 (outcome cfg s p (row cfg s b p, marked cfg s b p)) := by
  have halone := Alone.of_nodup henabled.2.2.1 (show (p.1, p.2) ∈ b.entries from hp)
  exact halone.map fun p => outcome cfg s p (row cfg s b p, marked cfg s b p)

theorem notMem_found (hh : ∀ p ∈ b.entries, p.1 ≠ h) : ∀ o ∈ found cfg s b, o.1 ≠ h := by
  intro o ho
  obtain ⟨p, hp, rfl⟩ := List.mem_map.mp ho
  exact hh p hp

/-- A sequence that is live after a step has gone on, or is not in the batch. -/
theorem live_cases (henabled : Enabled cfg s b) {accepted : SlotIdx → List Int}
    {status : SlotIdx → Status}
    (haccepted : accepted =
      writeRows (fun tokens o => tokens ++ o.accepted) (found cfg s b) s.accepted)
    (hstatus : status = writeRows (fun status o => if o.finished then .finished else status)
      (found cfg s b) s.status) (hlive : status h = .live) :
    (∃ p ∈ b.entries, p.1 = h ∧ s.status h = .live ∧ GoesOn cfg s b p ∧
      accepted h = s.accepted h ++ p.2.tokens.take (newLen cfg s b p)) ∨
    (∀ p ∈ b.entries, p.1 ≠ h) ∧ s.status h = .live ∧ accepted h = s.accepted h := by
  by_cases hh : ∃ p ∈ b.entries, p.1 = h
  · obtain ⟨p, hp, rfl⟩ := hh
    have halone := alone_found henabled hp
    rw [hstatus, writeRows_alone halone] at hlive
    split at hlive
    · cases hlive
    · next hunfinished =>
      refine .inl ⟨p, hp, rfl, hlive, goesOn (Bool.not_eq_true _ ▸ hunfinished), ?_⟩
      rw [haccepted, writeRows_alone halone, outcome, if_pos hlive]
      rfl
  · have hh : ∀ p ∈ b.entries, p.1 ≠ h := fun p hp heq => hh ⟨p, hp, heq⟩
    rw [hstatus, writeRows_of_notMem (notMem_found hh)] at hlive
    refine .inr ⟨hh, hlive, ?_⟩
    rw [haccepted, writeRows_of_notMem (notMem_found hh)]

/-- No sequence grows beyond its greatest length. -/
theorem length_accepted_le (henabled : Enabled cfg s b) (hkept : Kept cfg s)
    (hfits : Fits cfg s b) (h : SlotIdx) :
    (s.prompt h).length + (writeRows (fun tokens o => tokens ++ o.accepted) (found cfg s b)
      s.accepted h).length ≤ cfg.maxSeqLen := by
  have hbound := hkept.exact.maxSeqLen h
  by_cases hh : ∃ p ∈ b.entries, p.1 = h
  · obtain ⟨p, hp, rfl⟩ := hh
    rw [writeRows_alone (alone_found henabled hp), List.length_append]
    by_cases hlive : s.status p.1 = .live
    · have hroom := newLen_le_room henabled hfits (hkept.roomy p.1 hlive) hp
      have hseqLens := hkept.exact.seqLens p.1 hlive
      have hlength : (outcome cfg s p (row cfg s b p, marked cfg s b p)).accepted.length ≤
          newLen cfg s b p := by
        rw [outcome, if_pos hlive]
        exact (List.length_take ..).le.trans (Nat.min_le_left _ _)
      omega
    · rw [outcome, if_neg hlive]
      exact hbound
  · rw [writeRows_of_notMem (notMem_found fun p hp heq => hh ⟨p, hp, heq⟩)]
    exact hbound

/-- A step in which the tokens fit keeps the histories exact. -/
theorem Kept.step (hkept : Kept cfg s) (hfits : Fits cfg s b) (hstep : step cfg s b = some s') :
    Kept cfg s' := by
  unfold TokenHistory.step at hstep
  split at hstep
  case isFalse => cases hstep
  next henabled =>
  obtain ⟨slots, hslots, hupdated⟩ := exists_update henabled hkept hfits
  rw [decode_eq henabled hkept hfits hslots] at hstep
  obtain rfl := Option.some.inj hstep
  refine ⟨⟨hkept.exact.raised, fun h hh => ?_, fun h hh => ?_, fun h hh => ?_,
    length_accepted_le henabled hkept hfits⟩,
    fun h => (hupdated.widths h).trans (hkept.widths h), fun h hh => ?_⟩
  · rcases live_cases henabled rfl rfl hh with
      ⟨p, hp, rfl, hlive, hgoesOn, haccepted⟩ | ⟨hnot, hlive, haccepted⟩
    · have hexact := hkept.exact_of_mem hupdated hfits henabled hp hlive hgoesOn
      exact hexact.1.trans haccepted.symm
    · have hsame := congrArg SequenceState.allOutputIds (hupdated.others h hnot)
      exact hsame.trans ((hkept.exact.allOutputIds h hlive).trans haccepted.symm)
  · rcases live_cases henabled rfl rfl hh with
      ⟨p, hp, rfl, hlive, hgoesOn, haccepted⟩ | ⟨hnot, hlive, haccepted⟩
    · have hexact := hkept.exact_of_mem hupdated hfits henabled hp hlive hgoesOn
      exact hexact.2.1.trans (congrArg (fun l => s.prompt p.1 ++ l) haccepted.symm)
    · have hsame := congrArg SequenceState.allInputIds (hupdated.others h hnot)
      exact hsame.trans ((hkept.exact.allInputIds h hlive).trans
        (congrArg (fun l => s.prompt h ++ l) haccepted.symm))
  · rcases live_cases henabled rfl rfl hh with
      ⟨p, hp, rfl, hlive, hgoesOn, haccepted⟩ | ⟨hnot, hlive, haccepted⟩
    · have hexact := hkept.exact_of_mem hupdated hfits henabled hp hlive hgoesOn
      exact hexact.2.2.1.trans
        (congrArg (fun l => (s.prompt p.1).length + l.length) haccepted.symm)
    · have hsame := congrArg SequenceState.seqLen (hupdated.others h hnot)
      exact hsame.trans ((hkept.exact.seqLens h hlive).trans
        (congrArg (fun l => (s.prompt h).length + l.length) haccepted.symm))
  · rcases live_cases henabled rfl rfl hh with ⟨p, hp, rfl, hlive, hgoesOn, -⟩ | ⟨hnot, hlive, -⟩
    · exact (hkept.exact_of_mem hupdated hfits henabled hp hlive hgoesOn).2.2.2
    · have hsame := hupdated.others h hnot
      have hseqLens : (slots h).seqLens = (s.slots h).seqLens :=
        congrArg SequenceState.seqLen hsame
      have hcount : (slots h).outputLenCount = (s.slots h).outputLenCount :=
        congrArg SequenceState.outputLenCount hsame
      unfold Roomy
      rw [hseqLens, hcount]
      exact hkept.roomy h hlive

/-! ## Runs -/

theorem Started.kept (hstarted : Started cfg s) : Kept cfg s where
  exact :=
    { raised := hstarted.raised
      allOutputIds := fun h hh => by
        rw [(hstarted.slots h hh).2.1, hstarted.accepted h, List.take_zero]
      allInputIds := fun h hh => by
        obtain ⟨hseqLens, -, hprompt⟩ := hstarted.slots h hh
        rw [hseqLens, hprompt, hstarted.accepted h, List.append_nil]
      seqLens := fun h hh => by
        rw [(hstarted.slots h hh).1, hstarted.accepted h]
        rfl
      maxSeqLen := fun h => by
        rw [hstarted.accepted h]
        exact (hstarted.prompt h).le }
  widths h := Prod.ext (hstarted.widths h).1 (hstarted.widths h).2
  roomy h hh := by
    obtain ⟨hseqLens, hcount, -⟩ := hstarted.slots h hh
    obtain ⟨hout, hgen⟩ := hstarted.limits h hh
    refine ⟨?_, ?_, ?_⟩
    · rw [hseqLens]
      exact hstarted.prompt h
    · rw [hcount]
      exact hout
    · rw [hcount]
      exact hgen

/-- Row by row and by columns the same is counted. -/
theorem sameBranches (henabled : Enabled cfg s b) (hkept : Kept cfg s) (hfits : Fits cfg s b) :
    SameBranches cfg s b := by
  intro found' hfound h
  rw [outcomes_eq henabled hkept.roomy hfits] at hfound
  obtain rfl := Except.ok.inj hfound
  have hnodup : ((samplingBatch b (found cfg s b)).updating.map Prod.fst).Nodup := by
    rw [updating_samplingBatch henabled]
    exact nodup_samplingBatch henabled
  have hshape := wellShaped_samplingBatch henabled hkept.roomy
  have hsliced (slots) : wp ((samplingBatch b (found cfg s b)).updating.forM
        (updateSlice cfg.context (samplingBatch b (found cfg s b)).hasSampling))
      (fun _ s' => AllSliced cfg.context (samplingBatch b (found cfg s b)).hasSampling
        (samplingBatch b (found cfg s b)).updating slots s')
      (fun _ s' => UpdateContext.Raised cfg.context (samplingBatch b (found cfg s b)).hasSampling
        (samplingBatch b (found cfg s b)).updating slots s') slots :=
    wp_forM_updateSlice hnodup (fun p hp => by rw [hshape.length p hp]; exact hshape.num p hp) slots
  change sequenceState (after (updateContext cfg.context (samplingBatch b (found cfg s b)))
      s.slots h) =
    sequenceState (after (updateContextSliced cfg.context (samplingBatch b (found cfg s b)))
      s.slots h)
  by_cases hh : ∃ p ∈ b.entries, p.1 = h
  · obtain ⟨p, hp, rfl⟩ := hh
    have hmem : (p.1, newTokens cfg s b p) ∈ (samplingBatch b (found cfg s b)).updating := by
      rw [updating_samplingBatch henabled]
      exact List.mem_map_of_mem hp
    have halone : Alone (samplingBatch b (found cfg s b)).valid p.1 (newTokens cfg s b p) := by
      rw [valid_samplingBatch henabled]
      exact Alone.of_nodup (nodup_samplingBatch henabled) (List.mem_map_of_mem hp)
    have hnone : ∀ q ∈ (samplingBatch b (found cfg s b)).updating, ¬Overflows cfg.context
        (samplingBatch b (found cfg s b)).hasSampling q.2 (s.slots q.1) := by
      rw [updating_samplingBatch henabled]
      intro q hq
      obtain ⟨p, hp, rfl⟩ := List.mem_map.mp hq
      exact not_overflows hfits hp _
    have hcounted {tokens} (htokens : ∀ slots, wp tokens
        (fun _ s' => AllSliced cfg.context (samplingBatch b (found cfg s b)).hasSampling
          (samplingBatch b (found cfg s b)).updating slots s')
        (fun _ s' => Raised cfg.context (samplingBatch b (found cfg s b)).hasSampling
          (samplingBatch b (found cfg s b)).updating slots s') slots) :=
      after_of_wp (c := updateContextWith cfg.context tokens (samplingBatch b (found cfg s b)))
        (P := fun s' => Counted cfg.context (samplingBatch b (found cfg s b)).hasSampling
          (newTokens cfg s b p) (withLastToken (samplingBatch b (found cfg s b)).width
            (newTokens cfg s b p) (s.slots p.1)) (sequenceState (s' p.1)))
        (wp_mono (wp_updateContextWith_of_mem halone hnodup htokens hmem s.slots)
          (fun _ _ hs => hs.2) fun _ _ hs => by
            obtain ⟨⟨q, hq, hover⟩, -⟩ := hs
            exact absurd hover (hnone q hq))
    exact (hcounted (wp_updateTokens hnodup hshape)).unique (hcounted hsliced)
  · have hvalid : ∀ p ∈ (samplingBatch b (found cfg s b)).valid, p.1 ≠ h := by
      rw [valid_samplingBatch henabled]
      intro q hq heq
      obtain ⟨p, hp, rfl⟩ := List.mem_map.mp hq
      exact hh ⟨p, hp, heq⟩
    have hsame {tokens} (htokens) :=
      after_of_wp (c := updateContextWith cfg.context tokens (samplingBatch b (found cfg s b)))
        (P := fun s' => sequenceState (s' h) = sequenceState (s.slots h))
        (wp_updateContextWith_of_absent hvalid htokens s.slots)
    exact (hsame (wp_updateTokens hnodup hshape)).trans (hsame hsliced).symm

/-- Room for six tokens. -/
def small (plugin : Plugin) : Config where
  context := { cacheConfig := { maxSeqLen := 6, maxGenLen := 6 } }
  plugin := plugin
  modelRunnerExp := false
  eos := ⟨[.single 2], by decide, by decide⟩
  ignoreEos := false
  mtp := fun h => by rcases h with h | h <;> cases h

/-- A prompt of one token, in slot 1. -/
def onePrompt (plugin : Plugin) : State where
  slots _ :=
    { SlotContext.blank (small plugin).context with
      allInputIds := [9, -1, -1, -1, -1, -1]
      seqLens := 1 }
  prompt _ := [9]
  maxOutputLen _ := 8
  accepted _ := []
  status h := if h = 1 then .live else .absent

theorem started_onePrompt (plugin : Plugin) : Started (small plugin) (onePrompt plugin) where
  raised := rfl
  accepted _ := rfl
  prompt _ := (by decide : 1 < 6)
  slots _ _ := ⟨rfl, rfl, rfl⟩
  widths _ := ⟨rfl, rfl⟩
  limits _ _ := ⟨(by decide : 0 < 8), (by decide : 0 < 6)⟩

def firstToken : Batch where
  isPrefill := true
  entries := [(1, ⟨[5], none⟩)]

def nextTokens (tokens : List Int) : Batch where
  entries := [(1, ⟨tokens, none⟩)]

/-- The steps of memory decoding in which the tokens fit. -/
def FitRows (s : State) (b : Batch) : Prop :=
  b.hasSampling = true ∧ ∀ p ∈ b.entries,
    (s.slots p.1).seqLens + keptLen (small .memoryDecoding) s b p ≤ 6 ∧
      (s.slots p.1).outputLenCount + keptLen (small .memoryDecoding) s b p ≤ 6

instance (s : State) (b : Batch) : Decidable (FitRows s b) := inferInstanceAs (Decidable (_ ∧ _))

theorem FitRows.fits (h : FitRows s b) : Fits (small .memoryDecoding) s b where
  sampling := h.1
  compared _ hplugin := absurd rfl hplugin
  numbers hexp := by cases hexp
  padding hexp := by cases hexp
  rows _ p hp := by
    have hcut := stopCut_le p.2.stoppedAt (keptLen (small .memoryDecoding) s b p)
    obtain ⟨hin, hout⟩ := h.2 p hp
    exact .inr ⟨(Nat.add_le_add_left hcut _).trans hin, (Nat.add_le_add_left hcut _).trans hout⟩

end TokenHistory

end MindieLLM
