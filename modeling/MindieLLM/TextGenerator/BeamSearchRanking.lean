import MindieLLM.TextGenerator.BeamSearchCells
import Mathlib.Data.List.ProdSigma

/-!
# The candidates of a group are ranked

In the row of a group the places with candidates that end the sequence have a score larger than all
others, and those that are filtered a score smaller than all others. So the ranking begins with the
candidates that end the sequence, and the beams behind them are not filtered.

## Main definitions

* `place`: the candidate at a place of the row
* `rowScore`: what a place is ranked by

## Main results

* `groupPicks_ranked`: the candidates of a group that are taken
-/

namespace MindieLLM

open Program

namespace BeamSearchTokenSelector

variable {F G : Type} [Field F] [LinearOrder F] {p : SelectorParams} {topk : Nat → TopCandidates F}
  {m : SamplingMetadata F G} {top : TopCandidates F} {numDecode numColumns n i idx : Nat}

/-- The row and column of the candidate at a place of the row of a group. -/
def place (m : SamplingMetadata F G) (numColumns i idx : Nat) : Nat × Nat :=
  (groupStart m i + idx / numColumns, idx % numColumns)

/-- Whether there is a candidate at a place. -/
def isCandidate (p : SelectorParams) (m : SamplingMetadata F G) (numColumns i idx : Nat) : Bool :=
  decide (idx / numColumns < groupWidth m i ∧ idx % numColumns < numConsidered p m numColumns i)

/-- Whether the candidate at a place ends its sequence. -/
def isEosPlace (p : SelectorParams) (m : SamplingMetadata F G) (top : TopCandidates F)
    (numColumns i idx : Nat) : Bool :=
  isCandidate p m numColumns i idx && endsSequence p top (place m numColumns i idx)

/-- The number of candidates of a group that end their sequence. -/
def numEosPlaces (p : SelectorParams) (m : SamplingMetadata F G) (top : TopCandidates F)
    (numColumns i n : Nat) : Nat :=
  ((List.range n).filter (isEosPlace p m top numColumns i)).length

/-- What a place of the row of a group is ranked by. -/
def rowScore (p : SelectorParams) (m : SamplingMetadata F G) (top : TopCandidates F)
    (numColumns i idx : Nat) : WithBot F :=
  if isEos p (groupCell p m top numColumns i idx) then 1
  else (groupCell p m top numColumns i idx).averageLogprob

/-- The places of the row of a group, the best first. -/
def ranked (p : SelectorParams) (a : ArraySort (WithBot F)) (m : SamplingMetadata F G)
    (top : TopCandidates F) (numColumns n i : Nat) : List Nat :=
  (topIndices a ((List.range n).map (rowScore p m top numColumns i)) numColumns).getD []

/-- The candidates that end their sequence, as they are ranked. -/
def rankedEos (p : SelectorParams) (a : ArraySort (WithBot F)) (m : SamplingMetadata F G)
    (top : TopCandidates F) (numColumns n i : Nat) : List (Nat × Nat) :=
  ((ranked p a m top numColumns n i).take (numEosPlaces p m top numColumns i n)).map
    (place m numColumns i)

/-- The candidates behind them that become beams. -/
def rankedBeams (p : SelectorParams) (a : ArraySort (WithBot F)) (m : SamplingMetadata F G)
    (top : TopCandidates F) (numColumns n i : Nat) : List (Nat × Nat) :=
  (((ranked p a m top numColumns n i).drop (numEosPlaces p m top numColumns i n)).take
    (beamWidth m i)).map (place m numColumns i)

/-! ## The candidates -/

section Candidates

omit [Field F] [LinearOrder F]

theorem place_injective {idx' : Nat}
    (h : place m numColumns i idx = place m numColumns i idx') : idx = idx' := by
  obtain ⟨hrow, hcol⟩ := Prod.mk.inj h
  rw [← Nat.div_add_mod idx numColumns, ← Nat.div_add_mod idx' numColumns, hcol,
    Nat.add_left_cancel hrow]

theorem candidates_eq (p : SelectorParams) (m : SamplingMetadata F G) (numColumns i : Nat) :
    candidates p m numColumns i =
      (List.range (groupWidth m i * numConsidered p m numColumns i)).map fun t =>
        (groupStart m i + t / numConsidered p m numColumns i,
          t % numConsidered p m numColumns i) := by
  rw [← flatten_map_range fun j col => (groupStart m i + j, col)]
  rfl

theorem nodup_candidates : (candidates p m numColumns i).Nodup := by
  rw [candidates_eq]
  refine List.nodup_range.map fun t t' h => ?_
  obtain ⟨hrow, hcol⟩ := Prod.mk.inj h
  rw [← Nat.div_add_mod t (numConsidered p m numColumns i),
    ← Nat.div_add_mod t' (numConsidered p m numColumns i), hcol, Nat.add_left_cancel hrow]

/-- The candidates of a group are those at the places of its row. -/
theorem mem_candidates (hle : numConsidered p m numColumns i ≤ numColumns)
    (hwidth : groupWidth m i * numColumns ≤ n) {c : Nat × Nat} :
    c ∈ candidates p m numColumns i ↔
      ∃ idx < n, isCandidate p m numColumns i idx = true ∧
        place m numColumns i idx = c := by
  rw [candidates, List.mem_flatMap]
  constructor
  · rintro ⟨j, hj, hc⟩
    obtain ⟨col, hcol, rfl⟩ := List.mem_map.mp hc
    have hj := List.mem_range.mp hj
    have hcol := List.mem_range.mp hcol
    have hlt := Nat.lt_of_lt_of_le hcol hle
    have hdiv : (j * numColumns + col) / numColumns = j := by
      rw [Nat.mul_comm, Nat.mul_add_div (Nat.zero_lt_of_lt hlt), Nat.div_eq_of_lt hlt, Nat.add_zero]
    have hmod : (j * numColumns + col) % numColumns = col := by
      rw [Nat.mul_comm, Nat.mul_add_mod, Nat.mod_eq_of_lt hlt]
    refine ⟨j * numColumns + col, ?_, ?_, ?_⟩
    · have hmul : (j + 1) * numColumns ≤ groupWidth m i * numColumns :=
        Nat.mul_le_mul_right _ hj
      rw [Nat.succ_mul] at hmul
      omega
    · rw [isCandidate, hdiv, hmod]
      exact decide_eq_true ⟨hj, hcol⟩
    · rw [place, hdiv, hmod]
  · rintro ⟨idx, -, hcand, rfl⟩
    obtain ⟨hrow, hcol⟩ := of_decide_eq_true hcand
    exact ⟨idx / numColumns, List.mem_range.mpr hrow,
      List.mem_map.mpr ⟨idx % numColumns, List.mem_range.mpr hcol, rfl⟩⟩

end Candidates

/-- The candidates of a sequence have different tokens. -/
theorem tokenIdAt_inj {numSeqs r col col' : Nat} (ht : top.Lawful numSeqs numColumns)
    (hr : r < numSeqs) (hcol : col < numColumns) (hcol' : col' < numColumns)
    (h : tokenIdAt top (r, col) = tokenIdAt top (r, col')) : col = col' := by
  have hrow : r < top.topTokenIds.length := by
    rw [ht.tokenIds_length]
    exact hr
  have hmem := List.getElem_mem hrow
  have hwidth := ht.tokenIds_width _ hmem
  rw [tokenIdAt, tokenIdAt] at h
  dsimp only at h
  rw [List.getD_eq_getElem _ _ hrow, List.getD_eq_getElem _ _ (by omega),
    List.getD_eq_getElem _ _ (by omega)] at h
  exact (ht.tokenIds_nodup _ hmem).getElem_inj_iff.mp h

/-! ## The row of a group -/

/-- A batch with the candidates of its sequences. The rows of a group have `n` places. -/
structure Proposed (p : SelectorParams) (topk : Nat → TopCandidates F) (m : SamplingMetadata F G)
    (top : TopCandidates F) (numDecode numColumns n : Nat) : Prop where
  batch : Batch p topk m numDecode
  columns : maxNeededTokens p m = some numColumns
  lawful : top.Lawful m.allSequenceIds.length numColumns
  places : ∀ i < m.batchSequenceIds.length, groupWidth m i * numColumns ≤ n

omit [LinearOrder F] in
theorem scores_groupCell :
    scores p ((List.range n).map (groupCell p m top numColumns i)) =
      (List.range n).map (rowScore p m top numColumns i) := by
  rw [scores, List.map_map]
  rfl

/-! ## The candidates that are taken -/

def eosPick (F : Type) [Field F] (c : Nat × Nat) : Pick F where
  rowId := c.1
  colId := c.2
  score := 1
  isBeam := false

def beamPick (m : SamplingMetadata F G) (top : TopCandidates F) (c : Nat × Nat) : Pick F where
  rowId := c.1
  colId := c.2
  score := ((averageAt m top c : F) : WithBot F)
  isBeam := true

section Rows

variable (hp : Proposed p topk m top numDecode numColumns n)

include hp

/-- A sequence is no likelier than one. -/
theorem averageAt_nonpos [IsStrictOrderedRing F] {r col : Nat} (hr : r < m.allSequenceIds.length)
    (hcol : col < numColumns) : averageAt m top (r, col) ≤ 0 := by
  obtain ⟨outputLengths, hout, houtlen, hnonneg⟩ := hp.batch.outputLengths
  obtain ⟨cumulativeLogprobs, hcum, hcumlen, hnonpos⟩ := hp.batch.cumulativeLogprobs
  have hrow : r < top.topLogprobs.length := by
    rw [hp.lawful.logprobs_length]
    exact hr
  have hmem := List.getElem_mem hrow
  have hwidth := hp.lawful.logprobs_width _ hmem
  rw [averageAt, averageLogprob, logprobAt, hout, hcum, Option.getD_some, Option.getD_some]
  dsimp only
  rw [List.getD_eq_getElem _ _ hrow, List.getD_eq_getElem cumulativeLogprobs _ (by omega),
    List.getD_eq_getElem outputLengths _ (by omega), List.getD_eq_getElem _ _ (by omega)]
  have hlogprob := hp.lawful.logprobs_nonpos _ hmem _ (List.getElem_mem (by omega : col < _))
  have hcumulative := hnonpos _ (List.getElem_mem (by omega : r < cumulativeLogprobs.length))
  have hlength := hnonneg _ (List.getElem_mem (by omega : r < outputLengths.length))
  refine div_nonpos_of_nonpos_of_nonneg (add_nonpos hcumulative hlogprob) ?_
  exact add_nonneg (Int.cast_nonneg hlength) zero_le_one

variable (hi : i < m.batchSequenceIds.length)

include hi

/-- What the callers of the selector give: the width of the beams, for each sequence. -/
theorem beamWidth_spec :
    1 ≤ beamWidth m i ∧ (beamWidth m i : Int) ≤ m.maxBeamWidth ∧
      ∀ j < groupWidth m i, (m.beamWidthArray.getD []).getD (groupStart m i + j) 0 =
        (beamWidth m i : Int) := by
  obtain ⟨beamWidths, hbeam, -, hbounds, hgroup⟩ := hp.batch.beamWidths
  have hmem : (beamWidth m i : Int) ∈ beamWidths :=
    List.mem_of_getElem? (hgroup i hi 0 (hp.batch.group_pos i hi))
  obtain ⟨hone, hmax⟩ := hbounds _ hmem
  refine ⟨by omega, hmax, fun j hj => ?_⟩
  rw [hbeam, Option.getD_some, List.getD_eq_getElem?_getD, hgroup i hi j hj, Option.getD_some]

theorem numConsidered_spec :
    (numEos p + 1) * beamWidth m i ≤ numConsidered p m numColumns i ∧
      numConsidered p m numColumns i ≤ numColumns := by
  obtain ⟨-, hmax, -⟩ := beamWidth_spec hp hi
  obtain ⟨maxLogprobs, -, rfl⟩ := Option.map_eq_some_iff.mp hp.columns
  have hle : ((numEos p + 1) * beamWidth m i : Nat) ≤ (numEos p + 1 : Int) * m.maxBeamWidth := by
    rw [Nat.cast_mul, Nat.cast_add_one]
    exact Int.mul_le_mul_of_nonneg_left hmax (by omega)
  rw [numConsidered]
  split <;> omega

theorem numColumns_pos : 0 < numColumns := by
  obtain ⟨hconsidered, hle⟩ := numConsidered_spec hp hi
  have hone := (beamWidth_spec hp hi).1
  have hmul := Nat.le_mul_of_pos_left (beamWidth m i) (Nat.succ_pos (numEos p))
  rw [Nat.succ_eq_add_one] at hmul
  omega

theorem numColumns_le : numColumns ≤ n :=
  Nat.le_trans (Nat.le_mul_of_pos_left _ (hp.batch.group_pos i hi)) (hp.places i hi)

/-- **A place of the row of a group** has a candidate of it, or it is filtered. -/
theorem groupCell_eq :
    groupCell p m top numColumns i idx = if isCandidate p m numColumns i idx then
      ⟨tokenIdAt top (place m numColumns i idx),
        ((averageAt m top (place m numColumns i idx) : F) : WithBot F)⟩
    else Cell.filtered := by
  obtain ⟨-, -, hwidth⟩ := beamWidth_spec hp hi
  have hmod := Nat.mod_lt idx (numColumns_pos hp hi)
  rw [groupCell, placeCell, isCandidate]
  by_cases hrow : idx / numColumns < groupWidth m i
  · rw [if_pos hrow, cellAt, hwidth _ hrow, numConsidered]
    cases hmasks : masks p m with
    | false =>
      rw [if_neg (by simp), if_neg Bool.false_ne_true, decide_eq_true ⟨hrow, hmod⟩, if_pos rfl]
      rfl
    | true =>
      rw [if_pos rfl]
      by_cases hcol : idx % numColumns < (numEos p + 1) * beamWidth m i
      · have hcast : ¬ ((numEos p : Int) + 1) * beamWidth m i ≤ (idx % numColumns : Nat) := by
          rw [← Nat.cast_add_one, ← Nat.cast_mul, Nat.cast_le]
          exact Nat.not_le.mpr hcol
        rw [if_neg fun h => hcast h.2, decide_eq_true ⟨hrow, hcol⟩, if_pos rfl]
        rfl
      · have hcast : ((numEos p : Int) + 1) * beamWidth m i ≤ (idx % numColumns : Nat) := by
          rw [← Nat.cast_add_one, ← Nat.cast_mul, Nat.cast_le]
          exact Nat.le_of_not_lt hcol
        rw [if_pos ⟨rfl, hcast⟩, decide_eq_false fun h => hcol h.2, if_neg Bool.false_ne_true]
  · rw [if_neg hrow, decide_eq_false fun h => hrow h.1, if_neg Bool.false_ne_true]

/-! ## The number of candidates -/

theorem isEos_groupCell :
    isEos p (groupCell p m top numColumns i idx) = isEosPlace p m top numColumns i idx := by
  rw [groupCell_eq hp hi, isEosPlace]
  cases isCandidate p m numColumns i idx with
  | true => rfl
  | false =>
    rw [if_neg Bool.false_ne_true, Bool.false_and]
    -- The token of what is filtered is no token of the vocabulary.
    refine decide_eq_false fun hmem => ?_
    have hnonneg : (0 : Int) ≤ -1 := hp.batch.eos_nonneg _ hmem
    omega

/-- At most one candidate of a sequence for each token that ends it. -/
theorem numEosPlaces_le :
    numEosPlaces p m top numColumns i n ≤ groupWidth m i * numEos p := by
  have hpos := numColumns_pos hp hi
  have hspec : ∀ idx ∈ (List.range n).filter (isEosPlace p m top numColumns i),
      idx / numColumns < groupWidth m i ∧
        tokenIdAt top (place m numColumns i idx) ∈ p.eosTokenId := by
    intro idx hidx
    obtain ⟨hcand, hends⟩ := Bool.and_eq_true_iff.mp (List.mem_filter.mp hidx).2
    exact ⟨(of_decide_eq_true hcand).1, of_decide_eq_true hends⟩
  have hle := length_le_of_injOn
    (fun idx => (idx / numColumns, tokenIdAt top (place m numColumns i idx)))
    (List.nodup_range.filter (isEosPlace p m top numColumns i)) ?_
    (fun idx hidx => List.mem_product.mpr
      ⟨List.mem_range.mpr (hspec idx hidx).1, (hspec idx hidx).2⟩)
  · rwa [List.length_product, List.length_range] at hle
  · intro idx hidx idx' hidx' h
    obtain ⟨hdiv, htoken⟩ := Prod.mk.inj h
    rw [place, place, ← hdiv] at htoken
    have hrow := row_lt hp.batch hi (hspec idx hidx).1
    have hcol := tokenIdAt_inj hp.lawful hrow (Nat.mod_lt idx hpos) (Nat.mod_lt idx' hpos) htoken
    rw [← Nat.div_add_mod idx numColumns, ← Nat.div_add_mod idx' numColumns, hdiv, hcol]

/-- **There are enough candidates** that do not end their sequence, those of the first sequence. -/
theorem beamWidth_le_length :
    beamWidth m i ≤ ((List.range n).filter fun idx =>
      isCandidate p m numColumns i idx &&
        !endsSequence p top (place m numColumns i idx)).length := by
  obtain ⟨hone, -, -⟩ := beamWidth_spec hp hi
  obtain ⟨hconsidered, hle⟩ := numConsidered_spec hp hi
  have hgroup := hp.batch.group_pos i hi
  set considered := numConsidered p m numColumns i with hdef
  -- At most `numEos` of the columns of the first sequence end it.
  have hrow : groupStart m i < m.allSequenceIds.length := row_lt hp.batch hi hgroup
  have heos : ((List.range considered).filter fun col =>
      endsSequence p top (groupStart m i, col)).length ≤ numEos p := by
    refine length_le_of_injOn (fun col => tokenIdAt top (groupStart m i, col))
      (List.nodup_range.filter _) ?_ fun col hcol =>
        of_decide_eq_true (List.mem_filter.mp hcol).2
    intro col hcol col' hcol' h
    have hlt := List.mem_range.mp (List.mem_filter.mp hcol).1
    have hlt' := List.mem_range.mp (List.mem_filter.mp hcol').1
    exact tokenIdAt_inj hp.lawful hrow (Nat.lt_of_lt_of_le hlt hle) (Nat.lt_of_lt_of_le hlt' hle) h
  have hsum := List.length_eq_length_filter_add (l := List.range considered)
    (fun col => endsSequence p top (groupStart m i, col))
  rw [List.length_range] at hsum
  have hothers : beamWidth m i ≤ ((List.range considered).filter fun col =>
      !endsSequence p top (groupStart m i, col)).length := by
    have hmul : numEos p + beamWidth m i ≤ (numEos p + 1) * beamWidth m i := by
      rw [Nat.succ_mul]
      exact Nat.add_le_add_right (Nat.le_mul_of_pos_right _ hone) _
    omega
  refine Nat.le_trans hothers (length_le_of_injOn id (List.nodup_range.filter _)
    (fun _ _ _ _ h => h) ?_)
  intro col hcol
  obtain ⟨hcol, hends⟩ := List.mem_filter.mp hcol
  have hcol := List.mem_range.mp hcol
  have hlt := Nat.lt_of_lt_of_le hcol hle
  have hdiv : col / numColumns = 0 := Nat.div_eq_of_lt hlt
  have hmod : col % numColumns = col := Nat.mod_eq_of_lt hlt
  refine List.mem_filter.mpr ⟨List.mem_range.mpr ?_, ?_⟩
  · exact Nat.lt_of_lt_of_le hlt (numColumns_le hp hi)
  · rw [id_eq, isCandidate, place, hdiv, hmod, Nat.add_zero, hends, Bool.and_true]
    exact decide_eq_true ⟨hgroup, hcol⟩

/-! ## The scores -/

theorem rowScore_eq :
    rowScore p m top numColumns i idx =
      if isEosPlace p m top numColumns i idx then 1
      else if isCandidate p m numColumns i idx then
        ((averageAt m top (place m numColumns i idx) : F) : WithBot F)
      else ⊥ := by
  rw [rowScore, isEos_groupCell hp hi, groupCell_eq hp hi]
  cases isCandidate p m numColumns i idx <;> rfl

theorem perm_eosPlaces :
    (((List.range n).filter (isEosPlace p m top numColumns i)).map (place m numColumns i)).Perm
      ((candidates p m numColumns i).filter (endsSequence p top)) := by
  have hle := (numConsidered_spec hp hi).2
  refine (List.perm_ext_iff_of_nodup ?_ (nodup_candidates.filter _)).mpr fun c => ?_
  · exact (List.nodup_range.filter _).map fun _ _ h => place_injective h
  · rw [List.mem_map, List.mem_filter, mem_candidates hle (hp.places i hi)]
    constructor
    · rintro ⟨idx, hidx, rfl⟩
      obtain ⟨hlt, heos⟩ := List.mem_filter.mp hidx
      obtain ⟨hcand, hends⟩ := Bool.and_eq_true_iff.mp heos
      exact ⟨⟨idx, List.mem_range.mp hlt, hcand, rfl⟩, hends⟩
    · rintro ⟨⟨idx, hlt, hcand, rfl⟩, hends⟩
      refine ⟨idx, List.mem_filter.mpr ⟨List.mem_range.mpr hlt, ?_⟩, rfl⟩
      exact Bool.and_eq_true_iff.mpr ⟨hcand, hends⟩

/-- The candidates that end their sequence and the beams find room among what is ranked. -/
theorem numEosPlaces_add_le : numEosPlaces p m top numColumns i n + beamWidth m i ≤ numColumns := by
  obtain ⟨hone, -, -⟩ := beamWidth_spec hp hi
  obtain ⟨hconsidered, hle⟩ := numConsidered_spec hp hi
  have hcount := numEosPlaces_le hp hi
  have hwidth : groupWidth m i ≤ beamWidth m i := by
    rcases Nat.lt_or_ge i numDecode with hlt | hge
    · exact Nat.le_of_eq (hp.batch.decode i hlt)
    · rw [(hp.batch.prefill i hi hge).1]
      exact hone
  have hmul := Nat.mul_le_mul_right (numEos p) hwidth
  rw [Nat.succ_mul, Nat.mul_comm (numEos p)] at hconsidered
  omega

/-- What ends its sequence has a larger score than everything else. -/
theorem rowScore_lt_of_isEos [IsStrictOrderedRing F] {idx' : Nat}
    (h : isEosPlace p m top numColumns i idx = true)
    (h' : isEosPlace p m top numColumns i idx' = false) :
    rowScore p m top numColumns i idx' < rowScore p m top numColumns i idx := by
  rw [rowScore_eq hp hi, rowScore_eq hp hi, h, h', if_neg Bool.false_ne_true, if_pos rfl]
  cases hcand : isCandidate p m numColumns i idx' with
  | false =>
    rw [if_neg Bool.false_ne_true]
    exact WithBot.bot_lt_coe (1 : F)
  | true =>
    have hrow := row_lt hp.batch hi (of_decide_eq_true hcand).1
    rw [if_pos rfl]
    refine WithBot.coe_lt_coe.mpr (lt_of_le_of_lt ?_ zero_lt_one)
    exact averageAt_nonpos hp hrow (Nat.mod_lt idx' (numColumns_pos hp hi))

/-- The candidates of a group in the order of their places. -/
theorem length_filter_isEos :
    (((List.range n).map (groupCell p m top numColumns i)).filter (isEos p)).length =
      numEosPlaces p m top numColumns i n := by
  rw [List.filter_map, List.length_map, numEosPlaces]
  refine congrArg List.length (List.filter_congr fun idx _ => ?_)
  exact isEos_groupCell hp hi

/-! ## The ranking -/

section Ranked

variable [IsStrictOrderedRing F] {a : ArraySort (WithBot F)} (ha : a.Lawful)

include ha

omit [IsStrictOrderedRing F] in
theorem ranked_spec :
    topIndices a ((List.range n).map (rowScore p m top numColumns i)) numColumns =
        some (ranked p a m top numColumns n i) ∧
      Best (rowScore p m top numColumns i) numColumns (List.range n)
        (ranked p a m top numColumns n i) := by
  obtain ⟨is, hrun, hbest⟩ := topIndices_best (v := rowScore p m top numColumns i) ha
    (numColumns_pos hp hi) (numColumns_le hp hi)
  rw [ranked, hrun, Option.getD_some]
  exact ⟨rfl, hbest⟩

/-- **What is ranked first** ends its sequence, in any order. -/
theorem take_ranked_perm :
    ((ranked p a m top numColumns n i).take (numEosPlaces p m top numColumns i n)).Perm
      ((List.range n).filter (isEosPlace p m top numColumns i)) := by
  refine (ranked_spec hp hi ha).2.take_marked List.nodup_range
    (fun _ _ _ _ => rowScore_lt_of_isEos hp hi) ?_
  exact Nat.le_trans (Nat.le_add_right _ _) (numEosPlaces_add_le hp hi)

/-- **Behind it** there are the best of the candidates that do not. -/
theorem best_beams :
    (∀ idx ∈ ((ranked p a m top numColumns n i).drop (numEosPlaces p m top numColumns i n)).take
        (beamWidth m i), rowScore p m top numColumns i idx =
          ((averageAt m top (place m numColumns i idx) : F) : WithBot F)) ∧
      Best (averageAt m top) (beamWidth m i)
        ((candidates p m numColumns i).filter fun c => !endsSequence p top c)
        (rankedBeams p a m top numColumns n i) := by
  have hle := (numConsidered_spec hp hi).2
  have hbest := (ranked_spec hp hi ha).2.drop_marked List.nodup_range
    (fun _ _ _ _ => rowScore_lt_of_isEos hp hi) (numEosPlaces_add_le hp hi)
  have hscore : ∀ idx, isEosPlace p m top numColumns i idx = false →
      isCandidate p m numColumns i idx = true → rowScore p m top numColumns i idx =
        ((averageAt m top (place m numColumns i idx) : F) : WithBot F) := by
    intro idx heos hcand
    rw [rowScore_eq hp hi, heos, hcand, if_neg Bool.false_ne_true, if_pos rfl]
  have hothers : ∀ idx ∈ (List.range n).filter fun idx => !isEosPlace p m top numColumns i idx,
      isEosPlace p m top numColumns i idx = false := by
    intro idx hidx
    have hnot := (List.mem_filter.mp hidx).2
    rwa [Bool.not_eq_true'] at hnot
  -- What is filtered has the least score, so it is not among the beams.
  have hfilter := hbest.filter (List.nodup_range.filter _) (p := isCandidate p m numColumns i)
    (fun idx hidx idx' hidx' hcand hcand' => by
      rw [hscore idx (hothers idx hidx) hcand, rowScore_eq hp hi, hothers idx' hidx', hcand',
        if_neg Bool.false_ne_true, if_neg Bool.false_ne_true]
      exact WithBot.bot_lt_coe _) (by
      refine Nat.le_trans (beamWidth_le_length hp hi) (Nat.le_of_eq ?_)
      rw [List.filter_filter]
      refine congrArg List.length (List.filter_congr fun idx _ => ?_)
      rw [isEosPlace]
      cases isCandidate p m numColumns i idx <;> rfl)
  have hplaces : ∀ idx ∈ ((List.range n).filter fun idx =>
      !isEosPlace p m top numColumns i idx).filter (isCandidate p m numColumns i),
      rowScore p m top numColumns i idx =
        ((averageAt m top (place m numColumns i idx) : F) : WithBot F) := by
    intro idx hidx
    obtain ⟨hmem, hcand⟩ := List.mem_filter.mp hidx
    exact hscore idx (hothers idx hmem) hcand
  refine ⟨fun idx hidx => hplaces idx (hfilter.mem idx hidx), ?_⟩
  refine Best.of_coe (hfilter.map (fun idx _ idx' _ h => place_injective h)
    (fun idx hidx => (hplaces idx hidx).symm) fun c => ?_)
  rw [List.mem_filter, mem_candidates hle (hp.places i hi)]
  constructor
  · rintro ⟨⟨idx, hidx, hcand, rfl⟩, hends⟩
    refine ⟨idx, List.mem_filter.mpr ⟨List.mem_filter.mpr ⟨List.mem_range.mpr hidx, ?_⟩, hcand⟩,
      rfl⟩
    rw [isEosPlace, hcand, Bool.true_and]
    exact hends
  · rintro ⟨idx, hidx, rfl⟩
    obtain ⟨hmem, hcand⟩ := List.mem_filter.mp hidx
    obtain ⟨hrange, heos⟩ := List.mem_filter.mp hmem
    rw [isEosPlace, hcand, Bool.true_and] at heos
    exact ⟨⟨idx, List.mem_range.mp hrange, hcand, rfl⟩, heos⟩

/-- **All candidates that end their sequence are taken.** -/
theorem rankedEos_perm :
    (rankedEos p a m top numColumns n i).Perm
      ((candidates p m numColumns i).filter (endsSequence p top)) :=
  ((take_ranked_perm hp hi ha).map _).trans (perm_eosPlaces hp hi)

/-- The candidates that are taken, those that end their sequence in front. -/
theorem groupPicks_ranked :
    groupPicks p a numColumns (groupStart m i) (beamWidth m i)
        ((List.range n).map (groupCell p m top numColumns i)) =
      some ((rankedEos p a m top numColumns n i).map (eosPick F) ++
        (rankedBeams p a m top numColumns n i).map (beamPick m top)) := by
  obtain ⟨hrun, hbest⟩ := ranked_spec hp hi ha
  set e := numEosPlaces p m top numColumns i n with he
  set is := ranked p a m top numColumns n i with his
  have hwidth : ((beamWidth m i : Int) + (e : Nat)).toNat = e + beamWidth m i := by omega
  simp only [groupPicks, scores_groupCell, hrun, Option.bind_eq_bind, Option.bind_some]
  rw [length_filter_isEos hp hi, hwidth, List.take_add, rankedEos, rankedBeams, List.map_map,
    List.map_map]
  have hlength : (is.take e).length = e := by
    have hroom := numEosPlaces_add_le hp hi
    rw [List.length_take, hbest.length]
    omega
  have hget : ∀ idx ∈ is, ((List.range n).map (rowScore p m top numColumns i))[idx]? =
      some (rowScore p m top numColumns i idx) := by
    intro idx hidx
    rw [List.getElem?_map, List.getElem?_range (List.mem_range.mp (hbest.mem idx hidx)),
      Option.map_some]
  refine mapM_zipIdx_append (fun idx hidx t ht => ?_) (fun idx hidx t ht => ?_)
  · have heos := (List.mem_filter.mp ((take_ranked_perm hp hi ha).mem_iff.mp hidx)).2
    rw [hlength] at ht
    rw [hget idx (List.mem_of_mem_take hidx), rowScore_eq hp hi, heos, if_pos rfl,
      Option.bind_some, decide_eq_false (Nat.not_le.mpr ht)]
    rfl
  · rw [hlength] at ht
    rw [hget idx (List.mem_of_mem_drop (List.mem_of_mem_take hidx)),
      (best_beams hp hi ha).1 idx hidx, Option.bind_some, decide_eq_true ht]
    rfl

/-- **Either of two candidates that end their sequence may come first.** -/
theorem rankedEos_swap {q q' : Nat} {c c' : Nat × Nat}
    (hq : (rankedEos p a m top numColumns n i)[q]? = some c)
    (hq' : (rankedEos p a m top numColumns n i)[q']? = some c') :
    ∃ a' : ArraySort (WithBot F), a'.Lawful ∧
      (rankedEos p a' m top numColumns n i)[q]? = some c' := by
  have hrun := (ranked_spec hp hi ha).1
  rw [rankedEos, List.getElem?_map, Option.map_eq_some_iff] at hq hq'
  obtain ⟨idx, hidx, -⟩ := hq
  obtain ⟨idx', hidx', rfl⟩ := hq'
  have hone : ∀ idx ∈ (ranked p a m top numColumns n i).take (numEosPlaces p m top numColumns i n),
      rowScore p m top numColumns i idx = 1 := by
    intro idx hidx
    have heos := (List.mem_filter.mp ((take_ranked_perm hp hi ha).mem_iff.mp hidx)).2
    rw [rowScore_eq hp hi, heos, if_pos rfl]
  have hsame : rowScore p m top numColumns i idx = rowScore p m top numColumns i idx' := by
    rw [hone idx (List.mem_of_getElem? hidx), hone idx' (List.mem_of_getElem? hidx')]
  rw [List.getElem?_take, Option.ite_none_right_eq_some] at hidx hidx'
  obtain ⟨hlt, hget⟩ := hidx
  obtain ⟨-, hget'⟩ := hidx'
  obtain ⟨a', ha', is', hrun', hswap⟩ := exists_topIndices_swap ha (numColumns_pos hp hi)
    (numColumns_le hp hi) hrun hget hget' hsame
  refine ⟨a', ha', ?_⟩
  rw [rankedEos, ranked, hrun', Option.getD_some, List.getElem?_map,
    List.getElem?_take_of_lt hlt, hswap, Option.map_some]

end Ranked

end Rows

end BeamSearchTokenSelector

end MindieLLM
