import MindieLLM.TextGenerator.BeamSearchTokenSelector

/-!
# The candidates of a group in one row

The candidates of the sequences are padded to as many rows for each group, and the rows of a group
are put one behind the other. A place of this row is a candidate of the group, or it is filtered.

## Main definitions

* `groupCell`: what is at a place of the row of a group

## Main results

* `groups_eq`: the rows that are ranked
-/

namespace MindieLLM

open Program

namespace BeamSearchTokenSelector

variable {F G : Type} [Field F] [LinearOrder F] {p : SelectorParams} {topk : Nat → TopCandidates F}
  {m : SamplingMetadata F G} {top : TopCandidates F} {numDecode numColumns : Nat}

/-- The candidate of a sequence in a column. -/
def cellAt (p : SelectorParams) (m : SamplingMetadata F G) (top : TopCandidates F) (r col : Nat) :
    Cell F :=
  if masks p m ∧ (numEos p + 1) * (m.beamWidthArray.getD []).getD r 0 ≤ (col : Int) then
    Cell.filtered
  else ⟨tokenIdAt top (r, col), ((averageAt m top (r, col) : F) : WithBot F)⟩

omit [Field F] [LinearOrder F] in
theorem minBeamWidth_eq {beamWidths : List Int} (h : m.beamWidthArray = some beamWidths)
    (hne : beamWidths ≠ []) :
    ∃ minBeamWidth, beamWidths.min? = some minBeamWidth ∧
      masksColumns p m minBeamWidth = masks p m := by
  obtain ⟨minBeamWidth, hmin⟩ := Option.ne_none_iff_exists'.mp
    (fun hnone => hne (List.min?_eq_none_iff.mp hnone))
  refine ⟨minBeamWidth, hmin, ?_⟩
  rw [masks, h, Option.getD_some, hmin, Option.getD_some]

theorem batch_ids_pos (hb : Batch p topk m numDecode) : 0 < m.allSequenceIds.length := by
  obtain ⟨id, hid⟩ := List.exists_mem_of_length_pos (hb.group_pos 0 hb.batch_pos)
  rw [groupIds, List.getD_eq_getElem _ _ hb.batch_pos] at hid
  rw [hb.allSequenceIds]
  exact List.length_pos_of_mem (List.mem_flatten_of_mem (List.getElem_mem _) hid)

omit [LinearOrder F] in
theorem cellRow_eq {cumulativeLogprob : F} {outputLength beamWidth : Int} {logprobs : List F}
    {tokenIds : List Int} (hlogprobs : logprobs.length = numColumns)
    (htokens : tokenIds.length = numColumns) (columnMask : Bool) :
    cellRow p columnMask cumulativeLogprob outputLength beamWidth logprobs tokenIds =
      (List.range numColumns).map fun col : Nat =>
        if columnMask ∧ (numEos p + 1) * beamWidth ≤ (col : Int) then Cell.filtered
        else ⟨tokenIds.getD col (-1),
          ((averageLogprob cumulativeLogprob outputLength (logprobs.getD col 0) : F) :
            WithBot F)⟩ := by
  apply List.ext_getElem
  · simp [cellRow, hlogprobs, htokens]
  · intro col hcol _
    have hlt : col < numColumns := by
      rw [cellRow, List.length_mapIdx, List.length_zip, hlogprobs, htokens, Nat.min_self] at hcol
      exact hcol
    rw [List.getElem_map, List.getElem_range, List.getD_eq_getElem _ _ (by omega),
      List.getD_eq_getElem _ _ (by omega)]
    simp only [cellRow, List.getElem_mapIdx, List.getElem_zip]

/-- The candidates of all sequences. -/
theorem cells_eq (hb : Batch p topk m numDecode)
    (ht : top.Lawful m.allSequenceIds.length numColumns) :
    cells p m top = some ((List.range m.allSequenceIds.length).map fun r =>
      (List.range numColumns).map (cellAt p m top r)) := by
  obtain ⟨beamWidths, hbeam, hbeamlen, -⟩ := hb.beamWidths
  obtain ⟨outputLengths, hout, houtlen, hnonneg⟩ := hb.outputLengths
  obtain ⟨cumulativeLogprobs, hcum, hcumlen, -⟩ := hb.cumulativeLogprobs
  have hne : beamWidths ≠ [] := by
    rw [← List.length_pos_iff, hbeamlen]
    exact batch_ids_pos hb
  obtain ⟨minBeamWidth, hmin, hmasks⟩ := minBeamWidth_eq (p := p) hbeam hne
  have hany : ¬ outputLengths.any (· < 0) = true := by
    rw [List.any_eq_true]
    rintro ⟨n, hn, hlt⟩
    have hle := hnonneg n hn
    rw [decide_eq_true_iff] at hlt
    omega
  simp only [cells, hout, hcum, hbeam, hmin, Option.bind_eq_bind, Option.bind_some]
  rw [if_neg hany, ht.logprobs_length]
  refine mapM_eq_some_map fun r hr => ?_
  have hr := List.mem_range.mp hr
  have hlogprobs : r < top.topLogprobs.length := by
    rw [ht.logprobs_length]
    exact hr
  have htokens : r < top.topTokenIds.length := by
    rw [ht.tokenIds_length]
    exact hr
  rw [List.getElem?_eq_getElem (by omega), List.getElem?_eq_getElem (by omega),
    List.getElem?_eq_getElem (by omega), List.getElem?_eq_getElem hlogprobs,
    List.getElem?_eq_getElem htokens]
  simp only [Option.bind_some, hmasks]
  rw [cellRow_eq (ht.logprobs_width _ (List.getElem_mem _))
    (ht.tokenIds_width _ (List.getElem_mem _))]
  refine congrArg some (List.map_congr_left fun col _ => ?_)
  rw [cellAt, tokenIdAt, averageAt, logprobAt, hbeam, hout, hcum, Option.getD_some,
    Option.getD_some, Option.getD_some, List.getD_eq_getElem beamWidths _ (by omega)]
  dsimp only
  rw [List.getD_eq_getElem _ _ htokens, List.getD_eq_getElem _ _ hlogprobs,
    List.getD_eq_getElem cumulativeLogprobs _ (by omega),
    List.getD_eq_getElem outputLengths _ (by omega)]

/-! ## Groups of as many rows -/

section Sizes

omit [Field F] [LinearOrder F]

theorem groupWidths_eq (m : SamplingMetadata F G) :
    m.batchSequenceIds.map List.length =
      (List.range m.batchSequenceIds.length).map (groupWidth m) := by
  apply List.ext_getElem
  · rw [List.length_map, List.length_map, List.length_range]
  · intro i hi _
    rw [List.length_map] at hi
    rw [List.getElem_map, List.getElem_map, List.getElem_range, groupWidth, groupIds,
      List.getD_eq_getElem _ _ hi]

theorem length_flatten_batchSequenceIds (m : SamplingMetadata F G) :
    m.batchSequenceIds.flatten.length = groupStart m m.batchSequenceIds.length := by
  rw [List.length_flatten, groupWidths_eq]
  rfl

end Sizes

theorem batch_ids_length (hb : Batch p topk m numDecode) :
    m.allSequenceIds.length = groupStart m m.batchSequenceIds.length := by
  rw [hb.allSequenceIds, length_flatten_batchSequenceIds]

/-- A sequence of a group is one of the batch. -/
theorem row_lt (hb : Batch p topk m numDecode) {i j : Nat} (hi : i < m.batchSequenceIds.length)
    (hj : j < groupWidth m i) : groupStart m i + j < m.allSequenceIds.length := by
  have hle : groupStart m (i + 1) ≤ groupStart m m.batchSequenceIds.length := sumTo_le _ hi
  rw [groupStart, sumTo_succ] at hle
  rw [batch_ids_length hb]
  exact Nat.lt_of_lt_of_le (Nat.add_lt_add_left hj _) hle

/-- What is in a column of a row of a group. -/
def placeCell (p : SelectorParams) (m : SamplingMetadata F G) (top : TopCandidates F)
    (i j col : Nat) : Cell F :=
  if j < groupWidth m i then cellAt p m top (groupStart m i + j) col else Cell.filtered

/-- What is at a place of the row of a group. -/
def groupCell (p : SelectorParams) (m : SamplingMetadata F G) (top : TopCandidates F)
    (numColumns i idx : Nat) : Cell F :=
  placeCell p m top i (idx / numColumns) (idx % numColumns)

omit [Field F] [LinearOrder F] in
theorem replicate_filtered (numColumns : Nat) :
    List.replicate numColumns (Cell.filtered : Cell F) =
      (List.range numColumns).map fun _ => Cell.filtered := by
  rw [List.map_const', List.length_range]

/-- The rows of each group, and behind them filtered rows up to the width of the widest. -/
theorem padRows_eq (hb : Batch p topk m numDecode) {maxWidth : Nat}
    (hmax : (m.batchSequenceIds.map List.length).max? = some maxWidth) :
    padRows (m.batchSequenceIds.map List.length) numColumns
        ((List.range m.allSequenceIds.length).map fun r =>
          (List.range numColumns).map (cellAt p m top r)) =
      some ((List.range m.batchSequenceIds.length).flatMap fun i =>
        (List.range maxWidth).map fun j =>
          (List.range numColumns).map (placeCell p m top i j)) := by
  have hwidths := groupWidths_eq m
  have hle : ∀ i < m.batchSequenceIds.length, groupWidth m i ≤ maxWidth := by
    intro i hi
    refine (List.max?_eq_some_iff.mp hmax).2 _ ?_
    rw [hwidths]
    exact List.mem_map_of_mem (List.mem_range.mpr hi)
  obtain ⟨minWidth, hmin⟩ :
      ∃ minWidth, (m.batchSequenceIds.map List.length).min? = some minWidth := by
    refine Option.ne_none_iff_exists'.mp fun hnone => ?_
    rw [List.min?_eq_none_iff.mp hnone] at hmax
    cases hmax
  have hrows : ∀ i j, j < groupWidth m i →
      (List.range numColumns).map (placeCell p m top i j) =
        (List.range numColumns).map (cellAt p m top (groupStart m i + j)) := by
    intro i j hj
    refine List.map_congr_left fun col _ => ?_
    rw [placeCell, if_pos hj]
  simp only [padRows, hmin, hmax, Option.bind_eq_bind, Option.bind_some]
  split
  · rename_i heq
    subst heq
    refine congrArg some ?_
    rw [batch_ids_length hb, groupStart, range_sumTo, List.map_flatMap]
    refine List.flatMap_congr fun i hi => ?_
    have hi := List.mem_range.mp hi
    have hwidth : groupWidth m i = minWidth := by
      refine Nat.le_antisymm (hle i hi) ((List.min?_eq_some_iff.mp hmin).2 _ ?_)
      rw [hwidths]
      exact List.mem_map_of_mem (List.mem_range.mpr hi)
    rw [List.map_map, ← hwidth]
    refine List.map_congr_left fun j hj => ?_
    exact (hrows i j (List.mem_range.mp hj)).symm
  · -- A place behind the sequences of its group has the row behind all sequences.
    have hindices : rowPaddingIndices (m.batchSequenceIds.map List.length) maxWidth
        m.allSequenceIds.length =
          (List.range m.batchSequenceIds.length).flatMap fun i =>
            (List.range maxWidth).map fun j =>
              if j < groupWidth m i then groupStart m i + j else m.allSequenceIds.length := by
      refine Eq.trans ?_ (maskIndices_flatMap m.allSequenceIds.length hle)
      rw [rowPaddingIndices, rowPaddingMask, hwidths, List.flatMap_map, maskIndices]
      simp only [Nat.zero_add]
    have hrow : ∀ i < m.batchSequenceIds.length, ∀ j,
        ((List.range m.allSequenceIds.length).map (fun r =>
            (List.range numColumns).map (cellAt p m top r)) ++
          [List.replicate numColumns Cell.filtered])[if j < groupWidth m i then
            groupStart m i + j else m.allSequenceIds.length]? =
        some ((List.range numColumns).map (placeCell p m top i j)) := by
      intro i hi j
      by_cases hj : j < groupWidth m i
      · have hlt := row_lt hb hi hj
        rw [if_pos hj, List.getElem?_append_left (by simpa using hlt), List.getElem?_map,
          List.getElem?_range hlt, Option.map_some, hrows i j hj]
      · rw [if_neg hj, List.getElem?_append_right (by simp), List.length_map, List.length_range,
          Nat.sub_self, List.getElem?_cons_zero, replicate_filtered]
        refine congrArg some (List.map_congr_left fun col _ => ?_)
        rw [placeCell, if_neg hj]
    rw [List.length_map, List.length_range, hindices, gather_eq_some_iff, List.flatMap_def,
      List.flatMap_def]
    refine List.rel_flatten ?_
    rw [List.forall₂_map_left_iff, List.forall₂_map_right_iff, List.forall₂_same]
    intro i hi
    rw [List.forall₂_map_left_iff, List.forall₂_map_right_iff, List.forall₂_same]
    exact fun j _ => hrow i (List.mem_range.mp hi) j

/-- Rows of one length are cut apart again. -/
theorem reshape_flatten {α : Type} {chunk : Nat → List α} {n size : Nat} (hn : n ≠ 0)
    (h : ∀ i < n, (chunk i).length = size) :
    reshape n ((List.range n).map chunk).flatten = some ((List.range n).map chunk) := by
  have hsizes : ∀ row ∈ (List.range n).map chunk, row.length = size := by
    intro row hrow
    obtain ⟨i, hi, rfl⟩ := List.mem_map.mp hrow
    exact h i (List.mem_range.mp hi)
  have hlength : ((List.range n).map chunk).flatten.length = n * size := by
    rw [List.length_flatten, List.map_congr_left hsizes, List.map_const', List.length_map,
      List.length_range, List.sum_replicate_nat]
  rw [reshape, hlength, Nat.mul_div_cancel_left _ (Nat.pos_of_ne_zero hn),
    if_pos ⟨hn, Nat.dvd_mul_right n size⟩]
  refine congrArg some (List.map_congr_left fun i hi => ?_)
  rw [slice_flatten hsizes (by simpa using hi), List.getElem_map, List.getElem_range]

/-- **The rows that are ranked**, one for each group. -/
theorem groups_eq (hb : Batch p topk m numDecode) :
    ∃ maxWidth rows, (∀ i < m.batchSequenceIds.length, groupWidth m i ≤ maxWidth) ∧
      (∃ i < m.batchSequenceIds.length, groupWidth m i = maxWidth) ∧
      padRows (m.batchSequenceIds.map List.length) numColumns
        ((List.range m.allSequenceIds.length).map fun r =>
          (List.range numColumns).map (cellAt p m top r)) = some rows ∧
      reshape m.batchSequenceIds.length rows.flatten =
        some ((List.range m.batchSequenceIds.length).map fun i =>
          (List.range (maxWidth * numColumns)).map (groupCell p m top numColumns i)) := by
  have hwidths := groupWidths_eq m
  obtain ⟨maxWidth, hmax⟩ :
      ∃ maxWidth, (m.batchSequenceIds.map List.length).max? = some maxWidth := by
    refine Option.ne_none_iff_exists'.mp fun hnone => ?_
    have hnil := List.map_eq_nil_iff.mp (List.max?_eq_none_iff.mp hnone)
    have hpos := hb.batch_pos
    rw [hnil] at hpos
    exact Nat.lt_irrefl 0 hpos
  obtain ⟨hmem, hle⟩ := List.max?_eq_some_iff.mp hmax
  rw [hwidths] at hmem hle
  obtain ⟨i, hi, hwidth⟩ := List.mem_map.mp hmem
  refine ⟨maxWidth, _, fun i hi => hle _ (List.mem_map_of_mem (List.mem_range.mpr hi)),
    ⟨i, List.mem_range.mp hi, hwidth⟩, padRows_eq hb hmax, ?_⟩
  have hchunks : ((List.range m.batchSequenceIds.length).flatMap fun i =>
      (List.range maxWidth).map fun j =>
        (List.range numColumns).map (placeCell p m top i j)).flatten =
      ((List.range m.batchSequenceIds.length).map fun i =>
        (List.range (maxWidth * numColumns)).map (groupCell p m top numColumns i)).flatten := by
    rw [List.flatMap_def, List.flatten_flatten, List.map_map]
    refine congrArg List.flatten (List.map_congr_left fun i _ => ?_)
    exact flatten_map_range (placeCell p m top i) maxWidth numColumns
  have hlength : ∀ i < m.batchSequenceIds.length,
      ((List.range (maxWidth * numColumns)).map (groupCell p m top numColumns i)).length =
        maxWidth * numColumns := by
    intro i _
    rw [List.length_map, List.length_range]
  rw [hchunks]
  exact reshape_flatten (Nat.pos_iff_ne_zero.mp hb.batch_pos) hlength

end BeamSearchTokenSelector

end MindieLLM
