import MindieLLM.TextGenerator.BeamSearchSequenceIds
import Mathlib.Algebra.Order.Field.Rat

/-!
# The beams that are selected

The candidates that end their sequence are ranked with the same score, so their order is that of the
sort. Their own scores are put back in the order of their places.

## Main definitions

* `eosAverages`: the scores of the candidates that end their sequence, in the order of their places

## Main results

* `select_eq`: what the selector gives
* `selects_iff`: when each candidate has its own score
-/

namespace MindieLLM

open Program

namespace BeamSearchTokenSelector

variable {F G : Type} [Field F] [LinearOrder F] {p : SelectorParams} {topk : Nat → TopCandidates F}
  {m : SamplingMetadata F G} {top : TopCandidates F} {numDecode numColumns n i : Nat}

/-! ## The arrays of the candidates -/

omit [Field F] [LinearOrder F] in
/-- The sequences of a group. -/
theorem getElem?_groupIntervals (m : SamplingMetadata F G) (hi : i < m.batchSequenceIds.length) :
    (intervals 0 (m.batchSequenceIds.map List.length))[i]? =
      some (groupStart m i, groupStart m (i + 1)) := by
  have hstart : (((List.range m.batchSequenceIds.length).map (groupWidth m)).take i).sum =
      groupStart m i := by
    rw [← List.map_take, List.take_range, Nat.min_eq_left (Nat.le_of_lt hi)]
    rfl
  rw [groupWidths_eq, getElem?_intervals, List.getElem?_map, List.getElem?_range hi,
    Option.map_some, Option.map_some, hstart, Nat.zero_add, groupStart, groupStart, sumTo_succ]

theorem groupBeamWidths_eq (hb : Batch p topk m numDecode) :
    groupBeamWidths m =
      some ((List.range m.batchSequenceIds.length).map fun i => (beamWidth m i : Int)) := by
  obtain ⟨beamWidths, hbeam, -, -, hgroup⟩ := hb.beamWidths
  simp only [groupBeamWidths, hbeam, Option.bind_eq_bind, Option.bind_some]
  refine mapM_eq_some_map fun i hi => ?_
  have hi := List.mem_range.mp hi
  have hwidth := hgroup i hi 0 (hb.group_pos i hi)
  rw [Nat.add_zero] at hwidth
  rw [hb.groupIndices, getElem?_groupIntervals m hi, Option.bind_some, hwidth]

/-- The scores of the candidates that end their sequence, in the order of their places. -/
def eosAverages (p : SelectorParams) (m : SamplingMetadata F G) (top : TopCandidates F)
    (numColumns n i : Nat) : List F :=
  ((List.range n).filter (isEosPlace p m top numColumns i)).map fun idx =>
    averageAt m top (place m numColumns i idx)

theorem eosAverageLogprobs_eq (hp : Proposed p topk m top numDecode numColumns n) :
    eosAverageLogprobs p ((List.range m.batchSequenceIds.length).map fun i =>
        (List.range n).map (groupCell p m top numColumns i)) =
      (List.range m.batchSequenceIds.length).flatMap fun i =>
        (eosAverages p m top numColumns n i).map ((↑) : F → WithBot F) := by
  rw [eosAverageLogprobs, List.flatMap_map]
  refine List.flatMap_congr fun i hi => ?_
  have hi := List.mem_range.mp hi
  have hfilter : (List.range n).filter (isEos p ∘ groupCell p m top numColumns i) =
      (List.range n).filter (isEosPlace p m top numColumns i) :=
    List.filter_congr fun idx _ => isEos_groupCell hp hi
  rw [List.filter_map, hfilter, List.map_map, eosAverages, List.map_map]
  refine List.map_congr_left fun idx hidx => ?_
  have hcand := (Bool.and_eq_true_iff.mp (List.mem_filter.mp hidx).2).1
  rw [Function.comp_apply, Function.comp_apply, groupCell_eq hp hi, if_pos hcand]

omit [Field F] [LinearOrder F] in
/-- The row and column of a candidate. -/
theorem of_mem_candidates {c : Nat × Nat} (hc : c ∈ candidates p m numColumns i) :
    (∃ j < groupWidth m i, c.1 = groupStart m i + j) ∧ c.2 < numConsidered p m numColumns i := by
  obtain ⟨j, hj, hc⟩ := List.mem_flatMap.mp hc
  obtain ⟨col, hcol, rfl⟩ := List.mem_map.mp hc
  exact ⟨⟨j, List.mem_range.mp hj, rfl⟩, List.mem_range.mp hcol⟩

theorem lt_of_mem_candidates (hp : Proposed p topk m top numDecode numColumns n)
    (hi : i < m.batchSequenceIds.length) {c : Nat × Nat} (hc : c ∈ candidates p m numColumns i) :
    c.1 < m.allSequenceIds.length ∧ c.2 < numColumns := by
  obtain ⟨⟨j, hj, hrow⟩, hcol⟩ := of_mem_candidates hc
  rw [hrow]
  exact ⟨row_lt hp.batch hi hj, Nat.lt_of_lt_of_le hcol (numConsidered_spec hp hi).2⟩

/-- An element of an array with rows of one length. -/
theorem getElem?_bind_getElem? {α : Type} {xs : List (List α)} {numSeqs r col : Nat}
    (hlength : xs.length = numSeqs) (hwidth : ∀ row ∈ xs, row.length = numColumns)
    (hr : r < numSeqs) (hcol : col < numColumns) (d : α) :
    xs[r]?.bind (·[col]?) = some ((xs.getD r []).getD col d) := by
  have hrow : r < xs.length := by
    rw [hlength]
    exact hr
  have hlt : col < xs[r].length := by
    rw [hwidth _ (List.getElem_mem hrow)]
    exact hcol
  rw [List.getElem?_eq_getElem hrow, Option.bind_some, List.getElem?_eq_getElem hlt,
    List.getD_eq_getElem _ _ hrow, List.getD_eq_getElem _ _ hlt]

/-- The tokens of the candidates are not masked. -/
theorem maskedTokenIds_eq (hp : Proposed p topk m top numDecode numColumns n) :
    ∃ tokenIds, maskedTokenIds p m top = some tokenIds ∧
      tokenIds.length = m.allSequenceIds.length ∧ (∀ row ∈ tokenIds, row.length = numColumns) ∧
      ∀ i < m.batchSequenceIds.length, ∀ c ∈ candidates p m numColumns i,
        tokenIds[c.1]?.bind (·[c.2]?) = some (tokenIdAt top c) := by
  obtain ⟨maxLogprobs, hmax, -⟩ := Option.map_eq_some_iff.mp hp.columns
  obtain ⟨beamWidths, hbeam, hbeamlen, -⟩ := hp.batch.beamWidths
  have hne : beamWidths ≠ [] := by
    rw [← List.length_pos_iff, hbeamlen]
    exact batch_ids_pos hp.batch
  obtain ⟨minBeamWidth, hmin, hmasks⟩ := minBeamWidth_eq (p := p) hbeam hne
  have htoken : ∀ i < m.batchSequenceIds.length, ∀ c ∈ candidates p m numColumns i,
      top.topTokenIds[c.1]?.bind (·[c.2]?) = some (tokenIdAt top c) := by
    intro i hi c hc
    obtain ⟨hrow, hcol⟩ := lt_of_mem_candidates hp hi hc
    exact getElem?_bind_getElem? hp.lawful.tokenIds_length hp.lawful.tokenIds_width hrow hcol (-1)
  simp only [maskedTokenIds, hmax, hbeam, hmin, hmasks, Option.bind_eq_bind, Option.bind_some]
  split
  · exact ⟨_, rfl, hp.lawful.tokenIds_length, hp.lawful.tokenIds_width, htoken⟩
  · rename_i hmasked
    have hmasked : masks p m = true := by
      by_contra hnot
      exact hmasked (.inr hnot)
    have hrow : ∀ r < m.allSequenceIds.length, r < top.topTokenIds.length ∧
        r < beamWidths.length := by
      intro r hr
      rw [hp.lawful.tokenIds_length, hbeamlen]
      exact ⟨hr, hr⟩
    refine ⟨_, mapM_eq_some_map (g := fun r => (top.topTokenIds.getD r []).mapIdx
      fun (col : Nat) tokenId =>
        if ((numEos p : Int) + 1) * beamWidths.getD r 0 ≤ (col : Int) then (-1 : Int)
        else tokenId) fun r hr => ?_, ?_, ?_, ?_⟩
    · have hr := List.mem_range.mp hr
      rw [hp.lawful.tokenIds_length] at hr
      obtain ⟨htop, hwidth⟩ := hrow r hr
      rw [List.getElem?_eq_getElem hwidth, List.getElem?_eq_getElem htop, Option.bind_some,
        Option.bind_some, List.getD_eq_getElem _ _ htop, List.getD_eq_getElem _ _ hwidth]
    · rw [List.length_map, List.length_range, hp.lawful.tokenIds_length]
    · intro row hmem
      obtain ⟨r, hr, rfl⟩ := List.mem_map.mp hmem
      have hr := List.mem_range.mp hr
      rw [List.length_mapIdx, List.getD_eq_getElem _ _ hr]
      exact hp.lawful.tokenIds_width _ (List.getElem_mem hr)
    · intro i hi c hc
      obtain ⟨⟨j, hj, hstart⟩, hcol⟩ := of_mem_candidates hc
      obtain ⟨hlt, -⟩ := lt_of_mem_candidates hp hi hc
      have hwidth := (beamWidth_spec hp hi).2.2 j hj
      rw [hbeam, Option.getD_some, ← hstart] at hwidth
      rw [numConsidered, if_pos hmasked] at hcol
      have hnot : ¬ ((numEos p : Int) + 1) * beamWidths.getD c.1 0 ≤ (c.2 : Int) := by
        rw [hwidth, ← Nat.cast_add_one, ← Nat.cast_mul, Nat.cast_le]
        exact Nat.not_le.mpr hcol
      have hget := htoken i hi c hc
      rw [List.getElem?_eq_getElem (hrow c.1 hlt).1, Option.bind_some] at hget
      rw [List.getElem?_map, List.getElem?_range (hrow c.1 hlt).1, Option.map_some,
        Option.bind_some, List.getElem?_mapIdx, List.getD_eq_getElem _ _ (hrow c.1 hlt).1, hget,
        Option.map_some, if_neg hnot]

/-! ## What is taken from them -/

section Picks

variable {eos beams : Nat → List (Nat × Nat)}

omit [LinearOrder F] in
theorem map_takenPicks_cell {α : Type} (f : Nat × Nat → α) (i : Nat) :
    (takenPicks m top eos beams i).map (fun k => f (k.rowId, k.colId)) =
      (eos i ++ beams i).map f := by
  rw [map_takenPicks, List.map_append]
  rfl

omit [LinearOrder F] in
/-- The elements at the picks of all groups. -/
theorem mapM_takenPicks {α : Type} {n : Nat} {g : Pick F → Option α} {f : Nat × Nat → α}
    (h : ∀ i < n, ∀ k ∈ takenPicks m top eos beams i, g k = some (f (k.rowId, k.colId))) :
    ((List.range n).flatMap (takenPicks m top eos beams)).mapM g =
      some ((List.range n).flatMap fun i => (eos i ++ beams i).map f) := by
  refine (mapM_eq_some_map (g := fun k => f (k.rowId, k.colId)) fun k hk => ?_).trans ?_
  · obtain ⟨i, hi, hk⟩ := List.mem_flatMap.mp hk
    exact h i (List.mem_range.mp hi) k hk
  · rw [List.map_flatMap]
    exact congrArg some (List.flatMap_congr fun i _ => map_takenPicks_cell f i)

omit [LinearOrder F] in
theorem mem_of_mem_takenPicks {k : Pick F} (hk : k ∈ takenPicks m top eos beams i) :
    (k.rowId, k.colId) ∈ eos i ++ beams i := by
  rcases List.mem_append.mp hk with hk | hk
  · obtain ⟨c, hc, rfl⟩ := List.mem_map.mp hk
    exact List.mem_append_left _ hc
  · obtain ⟨c, hc, rfl⟩ := List.mem_map.mp hk
    exact List.mem_append_right _ hc

end Picks

/-! ## What is replaced -/

section Replaced

variable [IsStrictOrderedRing F] {eos beams : Nat → List (Nat × Nat)}

/-- What ends its sequence is told by its score. -/
theorem outputEosMask_eq (ht : Taken m top eos beams) (hi : i < m.batchSequenceIds.length) :
    (takenPicks m top eos beams i).map (fun k => decide (k.score = 1)) =
      List.replicate (eos i).length true ++ List.replicate (beams i).length false := by
  have hfront : (eos i).map (fun c => decide ((eosPick F c).score = 1)) =
      List.replicate (eos i).length true := by
    have htrue : ∀ c ∈ eos i, decide ((eosPick F c).score = 1) = true :=
      fun c _ => decide_eq_true rfl
    rw [List.map_congr_left htrue, List.map_const']
  have hback : (beams i).map (fun c => decide ((beamPick m top c).score = 1)) =
      List.replicate (beams i).length false := by
    have hfalse : ∀ c ∈ beams i, decide ((beamPick m top c).score = 1) = false := by
      intro c hc
      refine decide_eq_false fun heq => ?_
      have hle := ht.beams_nonpos i hi c hc
      have hone : averageAt m top c = 1 := WithBot.coe_injective heq
      rw [hone] at hle
      exact absurd hle (not_le_of_gt zero_lt_one)
    rw [List.map_congr_left hfalse, List.map_const']
  rw [map_takenPicks, hfront, hback]

theorem assignMask_scores (ht : Taken m top eos beams) {values : Nat → List F}
    (hvalues : ∀ i < m.batchSequenceIds.length, (values i).length = (eos i).length) :
    assignMask (((List.range m.batchSequenceIds.length).flatMap
        (takenPicks m top eos beams)).map fun k => decide (k.score = 1))
      (((List.range m.batchSequenceIds.length).flatMap
        (takenPicks m top eos beams)).map (·.score))
      ((List.range m.batchSequenceIds.length).flatMap fun i =>
        (values i).map ((↑) : F → WithBot F)) =
      some ((List.range m.batchSequenceIds.length).flatMap fun i =>
        (values i).map ((↑) : F → WithBot F) ++
          (beams i).map fun c => ((averageAt m top c : F) : WithBot F)) := by
  rw [List.map_flatMap, List.map_flatMap]
  refine assignMask_eq_some (fillMask_flatMap fun i hi => ?_)
  have hi := List.mem_range.mp hi
  have hlength : ((values i).map ((↑) : F → WithBot F)).length =
      ((eos i).map fun c => (eosPick F c).score).length := by
    rw [List.length_map, List.length_map, hvalues i hi]
  have hfill := fillMask_replicate ((beams i).map fun c => (beamPick m top c).score) hlength
  rw [List.length_map, List.length_map, ← outputEosMask_eq ht hi] at hfill
  rw [map_takenPicks (·.score)]
  exact hfill

theorem fillMask_sequenceIds (ht : Taken m top eos beams) {front ids : Nat → List Int}
    (hfront : ∀ i < m.batchSequenceIds.length, (front i).length = (eos i).length)
    (hids : ∀ i < m.batchSequenceIds.length, (ids i).length = beamWidth m i) :
    fillMask (((List.range m.batchSequenceIds.length).flatMap
        (takenPicks m top eos beams)).map fun k => decide (k.score = 1))
      ((List.range m.batchSequenceIds.length).flatMap fun i => front i ++ ids i)
      (List.replicate ((((List.range m.batchSequenceIds.length).flatMap
        (takenPicks m top eos beams)).map fun k => decide (k.score = 1)).count true) (-1)) =
      some ((List.range m.batchSequenceIds.length).flatMap fun i =>
        List.replicate (eos i).length (-1) ++ ids i) := by
  have hgroup : ∀ i ∈ List.range m.batchSequenceIds.length,
      fillMask ((takenPicks m top eos beams i).map fun k => decide (k.score = 1))
        (front i ++ ids i) (List.replicate (eos i).length (-1)) =
          some (List.replicate (eos i).length (-1) ++ ids i) := by
    intro i hi
    have hi := List.mem_range.mp hi
    have hlength : (List.replicate (eos i).length (-1 : Int)).length = (front i).length := by
      rw [List.length_replicate, hfront i hi]
    have hfill := fillMask_replicate (ids i) hlength
    rwa [hfront i hi, hids i hi, ← ht.beams_length i hi, ← outputEosMask_eq ht hi] at hfill
  have hfill := fillMask_flatMap hgroup
  rw [List.map_flatMap, ← (length_of_fillMask hfill).1]
  -- As many values as there are places, all the same.
  have hvalues : ((List.range m.batchSequenceIds.length).flatMap fun i =>
      List.replicate (eos i).length (-1 : Int)) = List.replicate
        ((List.range m.batchSequenceIds.length).flatMap fun i =>
          List.replicate (eos i).length (-1 : Int)).length (-1) := by
    refine List.eq_replicate_iff.mpr ⟨rfl, fun x hx => ?_⟩
    obtain ⟨i, -, hx⟩ := List.mem_flatMap.mp hx
    exact List.eq_of_mem_replicate hx
  rw [← hvalues]
  exact hfill

end Replaced

omit [Field F] [LinearOrder F] in
/-- Rows of one length keep as many columns. -/
theorem exists_takeRows {α : Type} {xs : List (List α)} {numSeqs : Nat}
    (hlength : xs.length = numSeqs) (hpos : 0 < numSeqs)
    (hwidth : ∀ row ∈ xs, row.length = numColumns) {picks : List (Pick F)}
    (hpicks : ∀ k ∈ picks, k.rowId < numSeqs) (stop : Int) :
    ∃ t, takeRows xs stop picks = some t := by
  have hslice : ∀ row ∈ xs, (pySlice row 0 stop).length =
      min (bound numColumns stop - bound numColumns 0) (numColumns - bound numColumns 0) := by
    intro row hrow
    rw [pySlice, hwidth row hrow, slice, List.length_take, List.length_drop, hwidth row hrow]
  have hgather : gather xs (picks.map (·.rowId)) =
      some ((picks.map (·.rowId)).map (xs.getD · [])) := by
    refine mapM_eq_some_map fun r hr => ?_
    obtain ⟨k, hk, rfl⟩ := List.mem_map.mp hr
    have hrow : k.rowId < xs.length := by
      rw [hlength]
      exact hpicks k hk
    rw [List.getElem?_eq_getElem hrow, List.getD_eq_getElem _ _ hrow]
  have hhead : xs.headD [] ∈ xs := by
    cases xs with
    | nil => exact absurd hlength (Nat.ne_of_lt hpos)
    | cons row xs => exact List.mem_cons_self
  have hall : ∀ row ∈ ((picks.map (·.rowId)).map (xs.getD · [])).map (pySlice · 0 stop),
      row.length = (pySlice (xs.headD []) 0 stop).length := by
    intro row hrow
    obtain ⟨row', hrow', rfl⟩ := List.mem_map.mp hrow
    obtain ⟨r, hr, rfl⟩ := List.mem_map.mp hrow'
    obtain ⟨k, hk, rfl⟩ := List.mem_map.mp hr
    have hlt : k.rowId < xs.length := by
      rw [hlength]
      exact hpicks k hk
    rw [hslice _ hhead, List.getD_eq_getElem _ _ hlt]
    exact hslice _ (List.getElem_mem hlt)
  simp only [takeRows, hgather, Option.bind_eq_bind, Option.bind_some]
  exact ⟨_, dif_pos hall⟩

theorem exists_maxTopTokens (hb : Batch p topk m numDecode) :
    ∃ maxTop, maxTopTokens m = some maxTop := by
  rw [maxTopTokens]
  cases hnum : m.numTopTokens with
  | none => exact ⟨0, rfl⟩
  | some numTopTokens =>
    refine Option.ne_none_iff_exists'.mp fun hnone => ?_
    have hlength := (hb.numTopTokens numTopTokens hnum).1
    rw [List.max?_eq_none_iff.mp hnone, List.length_nil] at hlength
    exact absurd hlength (Nat.ne_of_lt (batch_ids_pos hb))

theorem exists_takeNumTopTokens (hb : Batch p topk m numDecode) {rows : List Nat}
    (hrows : ∀ r ∈ rows, r < m.allSequenceIds.length) :
    ∃ numTopTokens, takeNumTopTokens m rows = some numTopTokens := by
  rw [takeNumTopTokens]
  cases hnum : m.numTopTokens with
  | none => exact ⟨none, rfl⟩
  | some numTopTokens =>
    refine ⟨some (rows.map (numTopTokens.getD · 0)), Option.map_eq_some_iff.mpr ⟨_, ?_, rfl⟩⟩
    refine mapM_eq_some_map fun r hr => ?_
    have hlt : r < numTopTokens.length := by
      rw [(hb.numTopTokens numTopTokens hnum).1]
      exact hrows r hr
    rw [List.getElem?_eq_getElem hlt, List.getD_eq_getElem _ _ hlt]

/-! ## The run -/

section Run

variable [IsStrictOrderedRing F] {a : ArraySort (WithBot F)}

section Ranked

variable (hp : Proposed p topk m top numDecode numColumns n) (ha : a.Lawful)

include hp ha

/-- What is taken are candidates. -/
theorem mem_candidates_of_ranked (hi : i < m.batchSequenceIds.length) {c : Nat × Nat}
    (hc : c ∈ rankedEos p a m top numColumns n i ++ rankedBeams p a m top numColumns n i) :
    c ∈ candidates p m numColumns i := by
  rcases List.mem_append.mp hc with hc | hc
  · have hmem := (rankedEos_perm hp hi ha).mem_iff.mp hc
    exact (List.mem_filter.mp hmem).1
  · have hmem := (best_beams hp hi ha).2.mem c hc
    exact (List.mem_filter.mp hmem).1

theorem taken_ranked :
    Taken m top (rankedEos p a m top numColumns n) (rankedBeams p a m top numColumns n) where
  rows i hi c hc := (of_mem_candidates (mem_candidates_of_ranked hp ha hi hc)).1
  beams_length i hi := (best_beams hp hi ha).2.length
  beams_nonpos i hi c hc := by
    have hmem := mem_candidates_of_ranked hp ha hi (List.mem_append_right _ hc)
    obtain ⟨hrow, hcol⟩ := lt_of_mem_candidates hp hi hmem
    exact averageAt_nonpos hp hrow hcol

theorem length_eosAverages (hi : i < m.batchSequenceIds.length) :
    (eosAverages p m top numColumns n i).length = (rankedEos p a m top numColumns n i).length := by
  rw [(rankedEos_perm hp hi ha).length_eq, ← (perm_eosPlaces hp hi).length_eq, eosAverages,
    List.length_map, List.length_map]

end Ranked

/-- **What the selector gives**: the scores of the candidates that end their sequence stand in the
order of the places, everything else as the candidates are ranked. -/
structure Selected (p : SelectorParams) (a : ArraySort (WithBot F)) (m : SamplingMetadata F G)
    (top : TopCandidates F) (numColumns n : Nat) (out : SamplingOutput (WithBot F))
    (ids : Nat → List Int) : Prop where
  ids_spec : ∀ i < m.batchSequenceIds.length, (ids i).length = beamWidth m i ∧ (ids i).Nodup ∧
    ∀ id ∈ ids i, id ∈ groupIds m i ++ reservedIds m i
  groupIndices : out.groupIndices = intervals 0 ((List.range m.batchSequenceIds.length).map fun i =>
    (rankedEos p a m top numColumns n i).length + beamWidth m i)
  sequenceIds : out.sequenceIds = (List.range m.batchSequenceIds.length).flatMap fun i =>
    List.replicate (rankedEos p a m top numColumns n i).length (-1) ++ ids i
  parentSequenceIds : out.parentSequenceIds =
    (List.range m.batchSequenceIds.length).flatMap fun i =>
      (rankedEos p a m top numColumns n i ++ rankedBeams p a m top numColumns n i).map
        (parentIdAt m)
  tokenIds : out.tokenIds = (List.range m.batchSequenceIds.length).flatMap fun i =>
    (rankedEos p a m top numColumns n i ++ rankedBeams p a m top numColumns n i).map
      (tokenIdAt top)
  logprobs : out.logprobs = (List.range m.batchSequenceIds.length).flatMap fun i =>
    (rankedEos p a m top numColumns n i ++ rankedBeams p a m top numColumns n i).map fun c =>
      ((logprobAt top c : F) : WithBot F)
  cumulativeLogprobs : out.cumulativeLogprobs =
    (List.range m.batchSequenceIds.length).flatMap fun i =>
      (eosAverages p m top numColumns n i).map ((↑) : F → WithBot F) ++
        (rankedBeams p a m top numColumns n i).map fun c => ((averageAt m top c : F) : WithBot F)

theorem select_eq (hp : Proposed p topk m (topk numColumns) numDecode numColumns n) (ha : a.Lawful)
    {rows : List (List (Cell F))}
    (hrows : padRows (m.batchSequenceIds.map List.length) numColumns
      ((List.range m.allSequenceIds.length).map fun r =>
        (List.range numColumns).map (cellAt p m (topk numColumns) r)) = some rows)
    (hreshape : reshape m.batchSequenceIds.length rows.flatten =
      some ((List.range m.batchSequenceIds.length).map fun i =>
        (List.range n).map (groupCell p m (topk numColumns) numColumns i))) :
    ∃ out ids, select p a topk m = some out ∧
      Selected p a m (topk numColumns) numColumns n out ids := by
  set top := topk numColumns with htop
  set eos := rankedEos p a m top numColumns n with heos
  set beams := rankedBeams p a m top numColumns n with hbeams
  have hb := hp.batch
  have ht := hp.lawful
  have htaken : Taken m top eos beams := taken_ranked hp ha
  have hcand : ∀ i < m.batchSequenceIds.length, ∀ k ∈ takenPicks m top eos beams i,
      (k.rowId, k.colId) ∈ candidates p m numColumns i := fun i hi k hk =>
    mem_candidates_of_ranked hp ha hi (mem_of_mem_takenPicks hk)
  have hpicks : ∀ k ∈ (List.range m.batchSequenceIds.length).flatMap (takenPicks m top eos beams),
      k.rowId < m.allSequenceIds.length := by
    intro k hk
    obtain ⟨i, hi, hk⟩ := List.mem_flatMap.mp hk
    have hi := List.mem_range.mp hi
    exact (lt_of_mem_candidates hp hi (hcand i hi k hk)).1
  -- The arrays for the groups.
  have hgroupPicks : allGroupPicks p a numColumns (m.batchSequenceIds.map List.length)
      ((List.range m.batchSequenceIds.length).map fun i => (beamWidth m i : Int))
      ((List.range m.batchSequenceIds.length).map fun i =>
        (List.range n).map (groupCell p m top numColumns i)) =
        some ((List.range m.batchSequenceIds.length).map (takenPicks m top eos beams)) := by
    rw [allGroupPicks, List.length_map, List.length_range]
    refine mapM_eq_some_map fun i hi => ?_
    have hi := List.mem_range.mp hi
    rw [getElem?_groupIntervals m hi, List.getElem?_map, List.getElem?_map,
      List.getElem?_range hi]
    exact groupPicks_ranked hp hi ha
  have hnumEos : ((List.range m.batchSequenceIds.length).map fun i =>
      (List.range n).map (groupCell p m top numColumns i)).map
        (fun cells => (cells.filter (isEos p)).length) =
        (List.range m.batchSequenceIds.length).map fun i => (eos i).length := by
    rw [List.map_map]
    refine List.map_congr_left fun i hi => ?_
    have hi := List.mem_range.mp hi
    rw [Function.comp_apply, length_filter_isEos hp hi, heos, ← length_eosAverages hp ha hi,
      eosAverages, List.length_map, numEosPlaces]
  have heosne : ¬ p.eosTokenId.isEmpty = true := by
    rw [List.isEmpty_iff]
    exact hb.eos_ne_nil
  -- The arrays for the picks.
  set picks := (List.range m.batchSequenceIds.length).flatMap (takenPicks m top eos beams)
    with hpicksdef
  have hflatten : ((List.range m.batchSequenceIds.length).map
      (takenPicks m top eos beams)).flatten = picks := by
    rw [hpicksdef, List.flatMap_def]
  have hrowIds : ∀ r ∈ picks.map (·.rowId), r < m.allSequenceIds.length := by
    intro r hr
    obtain ⟨k, hk, rfl⟩ := List.mem_map.mp hr
    exact hpicks k hk
  have hparentIndices : gather (List.range m.allSequenceIds.length) (picks.map (·.rowId)) =
      some (picks.map (·.rowId)) := by
    have hrange := gather_map_range (v := id) hrowIds
    rwa [List.map_id, List.map_id] at hrange
  have hparents : gather m.allSequenceIds (picks.map (·.rowId)) =
      some (picks.map fun k => m.allSequenceIds.getD k.rowId 0) := by
    refine (mapM_eq_some_map (g := (m.allSequenceIds.getD · 0)) fun r hr => ?_).trans ?_
    · rw [List.getElem?_eq_getElem (hrowIds r hr), List.getD_eq_getElem _ _ (hrowIds r hr)]
    · rw [List.map_map]
      rfl
  obtain ⟨tokenIds, htokens, htokenslen, htokenswidth, htoken⟩ := maskedTokenIds_eq hp
  have htakeTokens : takeCells tokenIds picks =
      some ((List.range m.batchSequenceIds.length).flatMap fun i =>
        (eos i ++ beams i).map (tokenIdAt top)) :=
    mapM_takenPicks fun i hi k hk => htoken i hi _ (hcand i hi k hk)
  have htakeLogprobs : takeCells top.topLogprobs picks =
      some ((List.range m.batchSequenceIds.length).flatMap fun i =>
        (eos i ++ beams i).map (logprobAt top)) := by
    refine mapM_takenPicks fun i hi k hk => ?_
    obtain ⟨hrow, hcol⟩ := lt_of_mem_candidates hp hi (hcand i hi k hk)
    exact getElem?_bind_getElem? ht.logprobs_length ht.logprobs_width hrow hcol 0
  obtain ⟨maxTop, hmaxTop⟩ := exists_maxTopTokens hb
  obtain ⟨topTokenRows, htopTokenRows⟩ := exists_takeRows htokenslen (batch_ids_pos hb)
    htokenswidth hpicks maxTop
  have hlogprobslen : (top.topLogprobs.map (·.map ((↑) : F → WithBot F))).length =
      m.allSequenceIds.length := by
    rw [List.length_map, ht.logprobs_length]
  have hlogprobswidth : ∀ row ∈ top.topLogprobs.map (·.map ((↑) : F → WithBot F)),
      row.length = numColumns := by
    intro row hrow
    obtain ⟨row', hrow', rfl⟩ := List.mem_map.mp hrow
    rw [List.length_map, ht.logprobs_width row' hrow']
  obtain ⟨topLogprobRows, htopLogprobRows⟩ := exists_takeRows hlogprobslen (batch_ids_pos hb)
    hlogprobswidth hpicks maxTop
  obtain ⟨front, ids, hids, hsequenceIds⟩ := newSequenceIds_eq hb htaken
    (Eq.refl (picks.map fun k => m.allSequenceIds.getD k.rowId 0))
  obtain ⟨numTopTokens, hnumTop⟩ := exists_takeNumTopTokens hb hrowIds
  -- The scores and ids of what ends its sequence are replaced.
  have hcumulative := assignMask_scores htaken fun i hi => length_eosAverages hp ha hi
  have hsequenceIds' := fillMask_sequenceIds htaken (fun i hi => (hids i hi).1)
    (fun i hi => (hids i hi).2.1)
  have hgroupIndices : List.zipWith (fun (beamWidth : Int) (n : Nat) => (beamWidth + n).toNat)
      ((List.range m.batchSequenceIds.length).map fun i => (beamWidth m i : Int))
      ((List.range m.batchSequenceIds.length).map fun i => (eos i).length) =
      (List.range m.batchSequenceIds.length).map fun i => (eos i).length + beamWidth m i := by
    rw [List.zipWith_map, List.zipWith_self]
    refine List.map_congr_left fun i _ => ?_
    omega
  let out : SamplingOutput (WithBot F) :=
    { sequenceIds := (List.range m.batchSequenceIds.length).flatMap fun i =>
        List.replicate (eos i).length (-1) ++ ids i
      parentSequenceIds := picks.map fun k => m.allSequenceIds.getD k.rowId 0
      tokenIds := (List.range m.batchSequenceIds.length).flatMap fun i =>
        (eos i ++ beams i).map (tokenIdAt top)
      logprobs := ((List.range m.batchSequenceIds.length).flatMap fun i =>
        (eos i ++ beams i).map (logprobAt top)).map (↑)
      topTokenIds := topTokenRows
      topLogprobs := topLogprobRows
      cumulativeLogprobs := (List.range m.batchSequenceIds.length).flatMap fun i =>
        (eosAverages p m top numColumns n i).map ((↑) : F → WithBot F) ++
          (beams i).map fun c => ((averageAt m top c : F) : WithBot F)
      numNewTokens :=
        List.replicate (picks.map fun k => m.allSequenceIds.getD k.rowId 0).length 1
      numTopTokens := numTopTokens
      groupIndices := intervals 0 ((List.range m.batchSequenceIds.length).map fun i =>
        (eos i).length + beamWidth m i)
      repeatingIndices := picks.map (·.rowId) }
  refine ⟨out, ids, ?_, ?_⟩
  · refine Option.bind_eq_some_iff.mpr ⟨_, hp.columns, ?_⟩
    refine Option.bind_eq_some_iff.mpr ⟨_, groupBeamWidths_eq hb, ?_⟩
    refine Option.bind_eq_some_iff.mpr ⟨_, cells_eq hb ht, ?_⟩
    refine Option.bind_eq_some_iff.mpr ⟨_, htokens, ?_⟩
    refine Option.bind_eq_some_iff.mpr ⟨_, hrows, ?_⟩
    refine Option.bind_eq_some_iff.mpr ⟨_, hreshape, ?_⟩
    refine (if_neg heosne).trans ?_
    refine Option.bind_eq_some_iff.mpr ⟨_, hgroupPicks, ?_⟩
    dsimp only
    rw [hflatten, hnumEos, hgroupIndices, ht.logprobs_length, eosAverageLogprobs_eq hp]
    refine Option.bind_eq_some_iff.mpr ⟨_, hparentIndices, ?_⟩
    refine Option.bind_eq_some_iff.mpr ⟨_, hparents, ?_⟩
    refine Option.bind_eq_some_iff.mpr ⟨_, htakeTokens, ?_⟩
    refine Option.bind_eq_some_iff.mpr ⟨_, htakeLogprobs, ?_⟩
    refine Option.bind_eq_some_iff.mpr ⟨_, hmaxTop, ?_⟩
    refine Option.bind_eq_some_iff.mpr ⟨_, htopTokenRows, ?_⟩
    refine Option.bind_eq_some_iff.mpr ⟨_, htopLogprobRows, ?_⟩
    refine Option.bind_eq_some_iff.mpr ⟨_, hsequenceIds, ?_⟩
    refine Option.bind_eq_some_iff.mpr ⟨_, hcumulative, ?_⟩
    refine Option.bind_eq_some_iff.mpr ⟨_, hsequenceIds', ?_⟩
    exact Option.bind_eq_some_iff.mpr ⟨_, hnumTop, rfl⟩
  · exact
      { ids_spec := fun i hi => (hids i hi).2
        groupIndices := rfl
        sequenceIds := rfl
        parentSequenceIds := by
          refine List.map_flatMap.trans (List.flatMap_congr fun i _ => ?_)
          exact map_takenPicks_cell (parentIdAt m) i
        tokenIds := rfl
        logprobs := by
          refine List.map_flatMap.trans (List.flatMap_congr fun i _ => ?_)
          exact List.map_map
        cumulativeLogprobs := rfl }

/-! ## The rows of a group -/

variable {out : SamplingOutput (WithBot F)} {ids : Nat → List Int}

omit [LinearOrder F] [IsStrictOrderedRing F] in
/-- The rows of a group in arrays for all groups. -/
theorem exists_interval (hgroup : out.groupIndices =
      intervals 0 ((List.range m.batchSequenceIds.length).map fun i =>
        (rankedEos p a m top numColumns n i).length + beamWidth m i))
    (hi : i < m.batchSequenceIds.length) :
    ∃ interval, out.groupIndices[i]? = some interval ∧
      ∀ {α : Type} {row : Nat → List α}, (∀ j < m.batchSequenceIds.length, (row j).length =
        (rankedEos p a m top numColumns n j).length + beamWidth m j) →
          slice ((List.range m.batchSequenceIds.length).flatMap row) interval.1 interval.2 =
            row i := by
  set size := fun i => (rankedEos p a m top numColumns n i).length + beamWidth m i with hsize
  refine ⟨(sumTo size i, sumTo size (i + 1)), ?_, fun h => slice_flatMap_range h hi⟩
  have hstart : (((List.range m.batchSequenceIds.length).map size).take i).sum =
      sumTo size i := by
    rw [← List.map_take, List.take_range, Nat.min_eq_left (Nat.le_of_lt hi)]
    rfl
  rw [hgroup, getElem?_intervals, List.getElem?_map, List.getElem?_range hi, Option.map_some,
    Option.map_some, hstart, Nat.zero_add, sumTo_succ]

/-- What the selector gives for a group. -/
theorem Selected.slice (hs : Selected p a m top numColumns n out ids)
    (hp : Proposed p topk m top numDecode numColumns n) (ha : a.Lawful)
    (hi : i < m.batchSequenceIds.length) :
    ∃ interval rows, out.groupIndices[i]? = some interval ∧
      out.toOutputRows.slice interval.1 interval.2 = rows ∧
      rows.sequenceIds = List.replicate (rankedEos p a m top numColumns n i).length (-1) ++ ids i ∧
      rows.parentSequenceIds = (rankedEos p a m top numColumns n i ++
        rankedBeams p a m top numColumns n i).map (parentIdAt m) ∧
      rows.tokenIds = (rankedEos p a m top numColumns n i ++
        rankedBeams p a m top numColumns n i).map (tokenIdAt top) ∧
      rows.logprobs = (rankedEos p a m top numColumns n i ++
        rankedBeams p a m top numColumns n i).map (fun c => ((logprobAt top c : F) : WithBot F)) ∧
      rows.cumulativeLogprobs = (eosAverages p m top numColumns n i).map ((↑) : F → WithBot F) ++
        (rankedBeams p a m top numColumns n i).map fun c =>
          ((averageAt m top c : F) : WithBot F) := by
  obtain ⟨interval, hinterval, hslice⟩ := exists_interval hs.groupIndices hi
  have hbeams : ∀ j < m.batchSequenceIds.length,
      (rankedBeams p a m top numColumns n j).length = beamWidth m j :=
    fun j hj => (best_beams hp hj ha).2.length
  refine ⟨interval, _, hinterval, rfl, ?_, ?_, ?_, ?_, ?_⟩
  · rw [OutputRows.slice, hs.sequenceIds]
    refine hslice fun j hj => ?_
    rw [List.length_append, List.length_replicate, (hs.ids_spec j hj).1]
  · rw [OutputRows.slice, hs.parentSequenceIds]
    refine hslice fun j hj => ?_
    rw [List.length_map, List.length_append, hbeams j hj]
  · rw [OutputRows.slice, hs.tokenIds]
    refine hslice fun j hj => ?_
    rw [List.length_map, List.length_append, hbeams j hj]
  · rw [OutputRows.slice, hs.logprobs]
    refine hslice fun j hj => ?_
    rw [List.length_map, List.length_append, hbeams j hj]
  · rw [OutputRows.slice, hs.cumulativeLogprobs]
    refine hslice fun j hj => ?_
    rw [List.length_append, List.length_map, List.length_map, hbeams j hj,
      length_eosAverages hp ha hj]

omit [IsStrictOrderedRing F] in
/-- A candidate is known from its parent and its token. -/
theorem eq_of_parentIdAt (hp : Proposed p topk m top numDecode numColumns n)
    (hi : i < m.batchSequenceIds.length) {c c' : Nat × Nat} (hc : c ∈ candidates p m numColumns i)
    (hc' : c' ∈ candidates p m numColumns i) (hparent : parentIdAt m c = parentIdAt m c')
    (htoken : tokenIdAt top c = tokenIdAt top c') : c = c' := by
  obtain ⟨hrow, hcol⟩ := lt_of_mem_candidates hp hi hc
  obtain ⟨hrow', hcol'⟩ := lt_of_mem_candidates hp hi hc'
  have hsame : c.1 = c'.1 := getD_allSequenceIds_inj hp.batch hrow hrow' hparent
  obtain ⟨r, col⟩ := c
  obtain ⟨r', col'⟩ := c'
  obtain rfl : r = r' := hsame
  exact congrArg (Prod.mk r) (tokenIdAt_inj hp.lawful hrow hcol hcol' htoken)

/-- **A group has its rows** if the scores in the order of the places are those in the order of the
ranking, and only then. -/
theorem Selected.selectsGroup_iff (hs : Selected p a m top numColumns n out ids)
    (hp : Proposed p topk m top numDecode numColumns n) (ha : a.Lawful)
    (hi : i < m.batchSequenceIds.length) :
    SelectsGroup p m top numColumns out i ↔
      eosAverages p m top numColumns n i =
        (rankedEos p a m top numColumns n i).map (averageAt m top) := by
  obtain ⟨interval, _, hinterval, rfl, hsequence, hparents, htokens, hlogprobs, hcumulative⟩ :=
    hs.slice hp ha hi
  have hperm := rankedEos_perm hp hi ha
  constructor
  · rintro ⟨interval', eos, beams, ids', hinterval', hrows⟩
    obtain rfl := Option.some.inj (hinterval.symm.trans hinterval')
    have hlength : (rankedEos p a m top numColumns n i).length =
        eos.length := by
      rw [hperm.length_eq, hrows.eos_perm.length_eq]
    have hparent := hparents.symm.trans hrows.parentSequenceIds
    have htoken := htokens.symm.trans hrows.tokenIds
    have hscore := hcumulative.symm.trans hrows.cumulativeLogprobs
    rw [List.map_append, List.map_append] at hparent htoken
    rw [List.map_append] at hscore
    have hparent := (List.append_inj hparent (by rw [List.length_map, List.length_map, hlength])).1
    have htoken := (List.append_inj htoken (by rw [List.length_map, List.length_map, hlength])).1
    have hscore := (List.append_inj hscore (by
      rw [List.length_map, List.length_map, ← hlength, length_eosAverages hp ha hi])).1
    have heos : rankedEos p a m top numColumns n i = eos := by
      refine List.ext_getElem hlength fun q hq hq' => ?_
      have hmem := hperm.mem_iff.mp (List.getElem_mem hq)
      have hmem' := hrows.eos_perm.mem_iff.mp (List.getElem_mem hq')
      refine eq_of_parentIdAt hp hi (List.mem_filter.mp hmem).1
        (List.mem_filter.mp hmem').1 ?_ ?_
      · have hget := congrArg (·[q]?) hparent
        simpa [hq, hq', parentIdAt] using hget
      · have hget := congrArg (·[q]?) htoken
        simpa [hq, hq'] using hget
    rw [heos]
    refine List.map_injective_iff.mpr WithBot.coe_injective ?_
    rw [hscore, List.map_map]
    rfl
  · intro heos
    obtain ⟨hidslength, hidsnodup, hidsmem⟩ := hs.ids_spec i hi
    refine ⟨interval, _, _, ids i, hinterval,
      { eos_perm := hperm
        beams_best := (best_beams hp hi ha).2
        ids_length := hidslength
        ids_nodup := hidsnodup
        ids_mem := hidsmem
        sequenceIds := hsequence
        parentSequenceIds := hparents
        tokenIds := htokens
        logprobs := hlogprobs
        cumulativeLogprobs := ?_ }⟩
    rw [hcumulative, heos, List.map_append, List.map_map]
    rfl

end Run

/-! ## When the scores are those of the candidates -/

section Ties

variable [IsStrictOrderedRing F]

omit [IsStrictOrderedRing F] in
/-- Every row of a group is that of a candidate. -/
theorem GroupRows.mem_candidates {rows : OutputRows (WithBot F)} {eos beams : List (Nat × Nat)}
    {ids : List Int} (h : GroupRows p m top numColumns i rows eos beams ids) {c : Nat × Nat}
    (hc : c ∈ eos ++ beams) : c ∈ candidates p m numColumns i := by
  rcases List.mem_append.mp hc with hc | hc
  · exact (List.mem_filter.mp (h.eos_perm.mem_iff.mp hc)).1
  · exact (List.mem_filter.mp (h.beams_best.mem c hc)).1

/-- The scores of what ends its sequence are in place if they are all the same. -/
theorem eosAverages_eq {a : ArraySort (WithBot F)} (ha : a.Lawful)
    (hp : Proposed p topk m top numDecode numColumns n) (hi : i < m.batchSequenceIds.length)
    (h : ∀ c ∈ (candidates p m numColumns i).filter (endsSequence p top),
      ∀ c' ∈ (candidates p m numColumns i).filter (endsSequence p top),
        averageAt m top c = averageAt m top c') :
    eosAverages p m top numColumns n i =
      (rankedEos p a m top numColumns n i).map (averageAt m top) := by
  have hplaces := perm_eosPlaces hp hi
  have hranked := rankedEos_perm hp hi ha
  apply List.ext_getElem
  · rw [length_eosAverages hp ha hi, List.length_map]
  · intro q hq hq'
    rw [List.length_map] at hq'
    have hmem := hranked.mem_iff.mp (List.getElem_mem hq')
    rw [eosAverages, List.length_map] at hq
    have hmem' := hplaces.mem_iff.mp (List.mem_map_of_mem (List.getElem_mem hq))
    rw [List.getElem_map]
    simp only [eosAverages, List.getElem_map]
    exact h _ hmem' _ hmem

/-- **Each candidate has its own score** under every order of equal elements if no group has two
candidates that end their sequence with different scores, and only then. -/
theorem selects_iff (hb : Batch p topk m numDecode) :
    (∀ a : ArraySort (WithBot F), a.Lawful → Selects p a topk m) ↔
      ∀ numColumns, maxNeededTokens p m = some numColumns →
        ∀ i < m.batchSequenceIds.length,
          ∀ c ∈ (candidates p m numColumns i).filter (endsSequence p (topk numColumns)),
            ∀ c' ∈ (candidates p m numColumns i).filter (endsSequence p (topk numColumns)),
              averageAt m (topk numColumns) c = averageAt m (topk numColumns) c' := by
  obtain ⟨numColumns, hcols, ht⟩ := hb.top
  obtain ⟨maxWidth, rows, hwidth, -, hrows, hreshape⟩ :=
    @groups_eq F G _ _ p topk m (topk numColumns) numDecode numColumns hb
  set n := maxWidth * numColumns
  have hp : Proposed p topk m (topk numColumns) numDecode numColumns n :=
    ⟨hb, hcols, ht, fun i hi => Nat.mul_le_mul_right _ (hwidth i hi)⟩
  have hrun : ∀ a : ArraySort (WithBot F), a.Lawful → ∃ out ids, select p a topk m = some out ∧
      Selected p a m (topk numColumns) numColumns n out ids :=
    fun a ha => select_eq hp ha hrows hreshape
  constructor
  · intro h numColumns' hcols' i hi c hc c' hc'
    obtain rfl := Option.some.inj (hcols.symm.trans hcols')
    have hscores : ∀ a : ArraySort (WithBot F), a.Lawful →
        eosAverages p m (topk numColumns) numColumns n i =
          (rankedEos p a m (topk numColumns) numColumns n i).map
            (averageAt m (topk numColumns)) := by
      intro a ha
      obtain ⟨out, ids, hout, hs⟩ := hrun a ha
      obtain ⟨numColumns', out', hcols', hout', -, hgroups⟩ := h a ha
      obtain rfl := Option.some.inj (hcols.symm.trans hcols')
      obtain rfl := Option.some.inj (hout.symm.trans hout')
      exact (hs.selectsGroup_iff hp ha hi).mp (hgroups i hi)
    -- Another sort has the one candidate where this one has the other.
    have ha := ArraySort.lawful_stable (S := WithBot F)
    have hperm := rankedEos_perm hp hi ha
    obtain ⟨q, hq⟩ := List.mem_iff_getElem?.mp (hperm.mem_iff.mpr hc)
    obtain ⟨q', hq'⟩ := List.mem_iff_getElem?.mp (hperm.mem_iff.mpr hc')
    obtain ⟨a', ha', hswap⟩ := rankedEos_swap hp hi ha hq hq'
    have hget := congrArg (·[q]?) ((hscores _ ha).symm.trans (hscores a' ha'))
    simp only [List.getElem?_map, hq, hswap, Option.map_some, Option.some.injEq] at hget
    exact hget
  · intro h a ha
    obtain ⟨out, ids, hout, hs⟩ := hrun a ha
    refine ⟨numColumns, out, hcols, hout, ?_, fun i hi => ?_⟩
    · rw [hs.groupIndices, length_intervals, List.length_map, List.length_range]
    · refine (hs.selectsGroup_iff hp ha hi).mpr ?_
      exact eosAverages_eq ha hp hi (h numColumns hcols i hi)

end Ties

/-! ## Two beams -/

section TwoBeams

/-- A group of two sequences that is decoded. -/
def twoBeams : SamplingMetadata ℚ Unit where
  batchSequenceIds := [[7, 8]]
  reservedSequenceIds := [[]]
  isPrefill := false
  isMix := false
  allSequenceIds := [7, 8]
  parentSequenceIds := []
  groupIndices := [(0, 2)]
  maxLogprobs := some 0
  beamWidthArray := some [2, 2]
  maxBeamWidth := 2
  outputLengths := some [0, 0]
  cumulativeLogprobs := some [-1, -2]

/-- The second sequence does not end. -/
def twoRows : TopCandidates ℚ where
  topLogprobs := [[-1, -2, -3, -4], [-1, -2, -3, -4]]
  topTokenIds := [[2, 3, 4, 5], [6, 3, 4, 5]]

/-- One of the sequences ends. -/
theorem selects_oneEnd : (ArraySort.stable (WithBot ℚ)).Lawful ∧
    Selects ⟨[2], false⟩ (ArraySort.stable (WithBot ℚ)) (fun _ => twoRows) twoBeams := by
  have hlawful : (ArraySort.stable (WithBot ℚ)).Lawful := ArraySort.lawful_stable
  have hbatch : Batch ⟨[2], false⟩ (fun _ => twoRows) twoBeams 1 :=
    { eos_ne_nil := by decide
      eos_nonneg := by decide
      group_pos := by decide
      batch_pos := by decide
      allSequenceIds := rfl
      ids_nodup := by decide
      reserved_length := rfl
      groupIndices := rfl
      beamWidths := ⟨[2, 2], rfl, rfl, by decide, by decide⟩
      outputLengths := ⟨[0, 0], rfl, rfl, by decide⟩
      cumulativeLogprobs := ⟨[-1, -2], rfl, rfl, by decide +kernel⟩
      numTopTokens := by
        intro numTopTokens h
        cases h
      top := ⟨4, rfl, rfl, by decide, by decide +kernel, rfl, by decide, by decide, by decide⟩
      numDecode_le := by decide
      decode := by decide
      prefill := by
        intro i hi hle
        exact absurd hi (Nat.not_lt.mpr hle)
      mode := by decide }
  refine ⟨hlawful, (selects_iff hbatch).mpr (fun numColumns hcols => ?_) _ hlawful⟩
  obtain rfl := Option.some.inj hcols
  decide +kernel

/-- A sequence that is prefilled, with an id for its second beam. -/
def onePrompt : SamplingMetadata ℚ Unit where
  batchSequenceIds := [[7]]
  reservedSequenceIds := [[8]]
  isPrefill := true
  isMix := false
  allSequenceIds := [7]
  parentSequenceIds := []
  groupIndices := [(0, 1)]
  maxLogprobs := some 0
  beamWidthArray := some [2]
  maxBeamWidth := 2
  outputLengths := some [0]
  cumulativeLogprobs := some [0]

def sixTokens : TopCandidates ℚ where
  topLogprobs := [[-1, -2, -3, -4, -5, -6]]
  topTokenIds := [[2, 3, 4, 5, 6, 7]]

/-- Two tokens end the sequence, and each gets the score of the other one. -/
theorem not_selects_bothEnd : (ArraySort.stable (WithBot ℚ)).Lawful ∧
    Batch ⟨[2, 3], false⟩ (fun _ => sixTokens) onePrompt 0 ∧
    ¬ Selects ⟨[2, 3], false⟩ (ArraySort.stable (WithBot ℚ)) (fun _ => sixTokens) onePrompt := by
  refine ⟨ArraySort.lawful_stable, ?_, ?_⟩
  · exact
      { eos_ne_nil := by decide
        eos_nonneg := by decide
        group_pos := by decide
        batch_pos := by decide
        allSequenceIds := rfl
        ids_nodup := by decide
        reserved_length := rfl
        groupIndices := rfl
        beamWidths := ⟨[2], rfl, rfl, by decide, by decide⟩
        outputLengths := ⟨[0], rfl, rfl, by decide⟩
        cumulativeLogprobs := ⟨[0], rfl, rfl, by decide +kernel⟩
        numTopTokens := by
          intro numTopTokens h
          cases h
        top := ⟨6, rfl, rfl, by decide, by decide +kernel, rfl, by decide, by decide, by decide⟩
        numDecode_le := by decide
        decode := by
          intro i hi
          exact absurd hi (Nat.not_lt_zero i)
        prefill := by decide
        mode := by decide }
  rintro ⟨numColumns, out, hcols, hout, -, hgroups⟩
  obtain rfl := Option.some.inj hcols
  have hrun : (select ⟨[2, 3], false⟩ (ArraySort.stable (WithBot ℚ)) (fun _ => sixTokens)
      onePrompt).map (fun out => (out.groupIndices, out.tokenIds, out.cumulativeLogprobs)) =
      some ([(0, 4)], [3, 2, 4, 5], [((-1 : ℚ) : WithBot ℚ), ((-2 : ℚ) : WithBot ℚ),
        ((-3 : ℚ) : WithBot ℚ), ((-4 : ℚ) : WithBot ℚ)]) := by
    decide +kernel
  rw [hout, Option.map_some, Option.some.injEq, Prod.mk.injEq, Prod.mk.injEq] at hrun
  obtain ⟨hgroup, htokens, hscores⟩ := hrun
  obtain ⟨interval, eos, beams, ids, hinterval, hrows⟩ := hgroups 0 (by decide)
  rw [hgroup] at hinterval
  obtain rfl := Option.some.inj hinterval
  have htoken := hrows.tokenIds
  have hscore := hrows.cumulativeLogprobs
  rw [OutputRows.slice, htokens] at htoken
  rw [OutputRows.slice, hscores] at hscore
  -- The first row has the token of one candidate and the score of the other.
  have hnone : ∀ c ∈ candidates ⟨[2, 3], false⟩ onePrompt 6 0, tokenIdAt sixTokens c = 3 →
      averageAt onePrompt sixTokens c ≠ -1 := by
    decide +kernel
  cases hall : eos ++ beams with
  | nil =>
    rw [hall] at htoken
    cases htoken
  | cons c rest =>
    have hmem : c ∈ candidates ⟨[2, 3], false⟩ onePrompt 6 0 := by
      refine hrows.mem_candidates ?_
      rw [hall]
      exact List.mem_cons_self
    rw [hall] at htoken hscore
    exact hnone c hmem (List.cons.inj htoken).1.symm
      (WithBot.coe_injective (List.cons.inj hscore).1.symm)

end TwoBeams

end BeamSearchTokenSelector

end MindieLLM
