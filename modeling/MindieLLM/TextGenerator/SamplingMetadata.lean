import MindieLLM.Program.RowGroups

/-!
# The parameters of a batch are split

A batch holds one row of sampling parameters for each of its sequences, and the sequences of a
request are a group of rows. If some requests use beam search and others do not, the rows are split
between two selectors.

## Main definitions

* `SamplingMetadata`: the parameters of a batch, one array for each of them
* `splitSamplingMetadata`: the parameters of the two selectors
* `SamplingMetadata.row`: what all the arrays hold for one sequence
* `HandedTo`: a selector has what the batch holds for its rows

## Main results

* `splitSamplingMetadata_eq_some_iff`: what the split gives, and when
* `handedTo_iff`: each selector has what the batch holds for its rows if no array is left behind
-/

namespace MindieLLM

open Program

/-- `F` are the numbers of a tensor, `G` the random generators. -/
structure SamplingMetadata (F G : Type) where
  batchSequenceIds : List (List Int)
  reservedSequenceIds : List (List Int)
  isPrefill : Bool
  isMix : Bool
  allSequenceIds : List Int
  parentSequenceIds : List Int
  groupIndices : List (Nat × Nat)
  repeatingIndices : Option (List Nat) := none
  repeatingIndicesArray : Option (List Nat) := none
  minTokensArray : Option (List Int) := none
  repetitionPenalty : Option (List F) := none
  frequencyPenalty : Option (List F) := none
  presencePenalty : Option (List F) := none
  temperature : Option (List F) := none
  topKArray : Option (List Int) := none
  topKIdx : Option (List Int) := none
  topKDisabledMask : Option (List Bool) := none
  maxTopK : Int := 0
  topPArray : Option (List F) := none
  topP : Option (List F) := none
  doSampleArray : Option (List Bool) := none
  doSampleTensor : Option (List Bool) := none
  topLogprobsArray : Option (List Int) := none
  maxLogprobs : Option Int := none
  seedArray : Option (List Int) := none
  numTopTokens : Option (List Int) := none
  beamWidthArray : Option (List Int) := none
  maxBeamWidth : Int := 1
  bestOfArray : Option (List Int) := none
  useBeamSearchArray : Option (List Bool) := none
  outputLengths : Option (List Int) := none
  cumulativeLogprobs : Option (List F) := none
  randomNumberGenerators : Option (List (Option G)) := none
  allTokenIds : Option (List (List Int)) := none
  outputTokenIds : Option (List (List Int)) := none
  isSeqPrefill : Option (List Bool) := none
  guidedBitmask : Option (List (List Int)) := none
  cacheIds : Option (List Int) := none

variable {α F G : Type}

/-! ## The split -/

/-- The variables of the loop over the groups, for one of the two selectors. -/
structure SideLoop where
  batchSequenceIds : List (List Int)
  reservedSequenceIds : List (List Int)
  groupIndices : List (Nat × Nat)
  idx : Nat

def SideLoop.append (loop : SideLoop) (ids reserved : List Int) : SideLoop where
  batchSequenceIds := loop.batchSequenceIds ++ [ids]
  reservedSequenceIds := loop.reservedSequenceIds ++ [reserved]
  groupIndices := loop.groupIndices ++ [(loop.idx, loop.idx + ids.length)]
  idx := loop.idx + ids.length

def SideLoop.empty : SideLoop where
  batchSequenceIds := []
  reservedSequenceIds := []
  groupIndices := []
  idx := 0

structure SplitLoop where
  retained : SideLoop
  discarded : SideLoop
  retainedIndices : List Nat

def SplitLoop.append (loop : SplitLoop) (retains : Bool) (i : Nat) (ids reserved : List Int) :
    SplitLoop :=
  if retains then
    { loop with
      retained := loop.retained.append ids reserved
      retainedIndices := loop.retainedIndices ++ [i] }
  else { loop with discarded := loop.discarded.append ids reserved }

namespace SamplingMetadata

/-- A group goes where its first row goes. Without a value if an index is out of range. -/
def splitGroup (m : SamplingMetadata F G) (splitMask : List Bool) (loop : SplitLoop)
    (group : (Nat × Nat) × Nat) : Option SplitLoop := do
  let retains ← splitMask[group.1.1]?
  let ids ← m.batchSequenceIds[group.2]?
  let reserved ← m.reservedSequenceIds[group.2]?
  some (loop.append retains group.2 ids reserved)

/-- `xs[mask]`, which needs a mask of the length of the array. -/
def maskRows (mask : List Bool) (xs : List α) : Option (List α) :=
  if mask.length = xs.length then some (keep mask xs) else none

/-- An array that is `None` stays it. -/
def maskColumn (mask : List Bool) : Option (List α) → Option (Option (List α))
  | none => some none
  | some column => (maskRows mask column).map some

/-- The maximum of an array, which an empty array does not have. -/
def maxColumn : Option (List Int) → Option (Option Int)
  | none => some none
  | some column => column.max?.map some

/-- Skipped, with a warning, if there is not a row for each entry of the mask. -/
def maskBitmask (mask : List Bool) (guidedBitmask : Option (List (List Int))) :
    Option (List (List Int)) :=
  guidedBitmask.bind fun gb => if gb.length ≠ mask.length then none else some (keep mask gb)

/-- The metadata of one of the two selectors. -/
def selectorMetadata (m : SamplingMetadata F G) (mask : List Bool) (side : SideLoop) :
    Option (SamplingMetadata F G) := do
  let cacheIds ← maskColumn mask m.cacheIds
  let allSequenceIds ← maskRows mask m.allSequenceIds
  let parentSequenceIds ← maskRows mask m.parentSequenceIds
  let repetitionPenalty ← maskColumn mask m.repetitionPenalty
  let frequencyPenalty ← maskColumn mask m.frequencyPenalty
  let presencePenalty ← maskColumn mask m.presencePenalty
  let temperature ← maskColumn mask m.temperature
  let topKArray ← maskColumn mask m.topKArray
  let topKIdx ← maskColumn mask m.topKIdx
  let topKDisabledMask ← maskColumn mask m.topKDisabledMask
  let topPArray ← maskColumn mask m.topPArray
  let topP ← maskColumn mask m.topP
  let doSampleArray ← maskColumn mask m.doSampleArray
  let topLogprobsArray ← maskColumn mask m.topLogprobsArray
  let seedArray ← maskColumn mask m.seedArray
  let numTopTokens ← maskColumn mask m.numTopTokens
  let beamWidthArray ← maskColumn mask m.beamWidthArray
  let bestOfArray ← maskColumn mask m.bestOfArray
  let useBeamSearchArray ← maskColumn mask m.useBeamSearchArray
  let outputLengths ← maskColumn mask m.outputLengths
  let cumulativeLogprobs ← maskColumn mask m.cumulativeLogprobs
  let allTokenIds ← maskColumn mask m.allTokenIds
  let outputTokenIds ← maskColumn mask m.outputTokenIds
  let isSeqPrefill ← maskColumn mask m.isSeqPrefill
  let maxTopK ← maxColumn topKArray
  let maxLogprobs ← maxColumn topLogprobsArray
  let maxBeamWidth ← maxColumn beamWidthArray
  some
    { batchSequenceIds := side.batchSequenceIds
      reservedSequenceIds := side.reservedSequenceIds
      isPrefill := m.isPrefill
      isMix := m.isMix
      allSequenceIds := allSequenceIds
      parentSequenceIds := parentSequenceIds
      groupIndices := side.groupIndices
      repetitionPenalty := repetitionPenalty
      frequencyPenalty := frequencyPenalty
      presencePenalty := presencePenalty
      temperature := temperature
      topKArray := topKArray
      topKIdx := topKIdx
      topKDisabledMask := topKDisabledMask
      maxTopK := maxTopK.getD 0
      topPArray := topPArray
      topP := topP
      doSampleArray := doSampleArray
      topLogprobsArray := topLogprobsArray
      maxLogprobs := maxLogprobs
      seedArray := seedArray
      numTopTokens := numTopTokens
      beamWidthArray := beamWidthArray
      maxBeamWidth := maxBeamWidth.getD 1
      bestOfArray := bestOfArray
      useBeamSearchArray := useBeamSearchArray
      outputLengths := outputLengths
      cumulativeLogprobs := cumulativeLogprobs
      allTokenIds := allTokenIds
      outputTokenIds := outputTokenIds
      isSeqPrefill := isSeqPrefill
      guidedBitmask := maskBitmask mask m.guidedBitmask
      cacheIds := cacheIds }

def splitSamplingMetadata (m : SamplingMetadata F G) (splitMask : List Bool) :
    Option (SamplingMetadata F G × SamplingMetadata F G × List Nat) := do
  let loop ← m.groupIndices.zipIdx.foldlM (m.splitGroup splitMask)
    { retained := .empty
      discarded := .empty
      retainedIndices := [] }
  let retained ← m.selectorMetadata splitMask loop.retained
  let discarded ← m.selectorMetadata (splitMask.map not) loop.discarded
  some (retained, discarded, loop.retainedIndices)

/-! ## Rows -/

/-- What the arrays hold for a sequence. -/
structure Row (F G : Type) where
  sequenceId : Option Int
  parentSequenceId : Option Int
  repeatingIndex : Option (Option Nat)
  repeatingIndexArray : Option (Option Nat)
  minTokens : Option (Option Int)
  repetitionPenalty : Option (Option F)
  frequencyPenalty : Option (Option F)
  presencePenalty : Option (Option F)
  temperature : Option (Option F)
  topKArray : Option (Option Int)
  topKIdx : Option (Option Int)
  topKDisabledMask : Option (Option Bool)
  topPArray : Option (Option F)
  topP : Option (Option F)
  doSampleArray : Option (Option Bool)
  doSampleTensor : Option (Option Bool)
  topLogprobs : Option (Option Int)
  seed : Option (Option Int)
  numTopTokens : Option (Option Int)
  beamWidth : Option (Option Int)
  bestOf : Option (Option Int)
  useBeamSearch : Option (Option Bool)
  outputLength : Option (Option Int)
  cumulativeLogprob : Option (Option F)
  randomNumberGenerator : Option (Option (Option G))
  allTokenIds : Option (Option (List Int))
  outputTokenIds : Option (Option (List Int))
  isSeqPrefill : Option (Option Bool)
  guidedBitmask : Option (Option (List Int))
  cacheId : Option (Option Int)

/-- The row of an array, if it is not `None`. -/
def rowOf (column : Option (List α)) (r : Nat) : Option (Option α) :=
  column.map fun xs => xs[r]?

def row (m : SamplingMetadata F G) (r : Nat) : Row F G where
  sequenceId := m.allSequenceIds[r]?
  parentSequenceId := m.parentSequenceIds[r]?
  repeatingIndex := rowOf m.repeatingIndices r
  repeatingIndexArray := rowOf m.repeatingIndicesArray r
  minTokens := rowOf m.minTokensArray r
  repetitionPenalty := rowOf m.repetitionPenalty r
  frequencyPenalty := rowOf m.frequencyPenalty r
  presencePenalty := rowOf m.presencePenalty r
  temperature := rowOf m.temperature r
  topKArray := rowOf m.topKArray r
  topKIdx := rowOf m.topKIdx r
  topKDisabledMask := rowOf m.topKDisabledMask r
  topPArray := rowOf m.topPArray r
  topP := rowOf m.topP r
  doSampleArray := rowOf m.doSampleArray r
  doSampleTensor := rowOf m.doSampleTensor r
  topLogprobs := rowOf m.topLogprobsArray r
  seed := rowOf m.seedArray r
  numTopTokens := rowOf m.numTopTokens r
  beamWidth := rowOf m.beamWidthArray r
  bestOf := rowOf m.bestOfArray r
  useBeamSearch := rowOf m.useBeamSearchArray r
  outputLength := rowOf m.outputLengths r
  cumulativeLogprob := rowOf m.cumulativeLogprobs r
  randomNumberGenerator := rowOf m.randomNumberGenerators r
  allTokenIds := rowOf m.allTokenIds r
  outputTokenIds := rowOf m.outputTokenIds r
  isSeqPrefill := rowOf m.isSeqPrefill r
  guidedBitmask := rowOf m.guidedBitmask r
  cacheId := rowOf m.cacheIds r

/-- The array has a row for each of the sequences, if it is not `None`. -/
def HasRows (n : Nat) (column : Option (List α)) : Prop := ∀ xs ∈ column, xs.length = n

/-- Every array has a row for each of the sequences, the bitmask apart. -/
structure Aligned (m : SamplingMetadata F G) (n : Nat) : Prop where
  allSequenceIds : m.allSequenceIds.length = n
  parentSequenceIds : m.parentSequenceIds.length = n
  repeatingIndices : HasRows n m.repeatingIndices
  repeatingIndicesArray : HasRows n m.repeatingIndicesArray
  minTokensArray : HasRows n m.minTokensArray
  repetitionPenalty : HasRows n m.repetitionPenalty
  frequencyPenalty : HasRows n m.frequencyPenalty
  presencePenalty : HasRows n m.presencePenalty
  temperature : HasRows n m.temperature
  topKArray : HasRows n m.topKArray
  topKIdx : HasRows n m.topKIdx
  topKDisabledMask : HasRows n m.topKDisabledMask
  topPArray : HasRows n m.topPArray
  topP : HasRows n m.topP
  doSampleArray : HasRows n m.doSampleArray
  doSampleTensor : HasRows n m.doSampleTensor
  topLogprobsArray : HasRows n m.topLogprobsArray
  seedArray : HasRows n m.seedArray
  numTopTokens : HasRows n m.numTopTokens
  beamWidthArray : HasRows n m.beamWidthArray
  bestOfArray : HasRows n m.bestOfArray
  useBeamSearchArray : HasRows n m.useBeamSearchArray
  outputLengths : HasRows n m.outputLengths
  cumulativeLogprobs : HasRows n m.cumulativeLogprobs
  randomNumberGenerators : HasRows n m.randomNumberGenerators
  allTokenIds : HasRows n m.allTokenIds
  outputTokenIds : HasRows n m.outputTokenIds
  isSeqPrefill : HasRows n m.isSeqPrefill
  cacheIds : HasRows n m.cacheIds

/-- The numbers of sequences of the groups. -/
def sizes (m : SamplingMetadata F G) : List Nat := m.batchSequenceIds.map List.length

/-- A batch of groups, with a flag for each group: whether it uses beam search. -/
structure Batch (m : SamplingMetadata F G) (flags : List Bool) : Prop where
  flags_length : flags.length = m.batchSequenceIds.length
  reserved_length : m.reservedSequenceIds.length = m.batchSequenceIds.length
  groupIndices : m.groupIndices = intervals 0 m.sizes
  not_empty : m.batchSequenceIds ≠ []
  group_not_empty : ∀ ids ∈ m.batchSequenceIds, ids ≠ []
  aligned : m.Aligned m.sizes.sum

/-- The mask of the rows of the groups with the flag. -/
def splitMask (m : SamplingMetadata F G) (flags : List Bool) : List Bool := rowMask flags m.sizes

/-- The groups that a selector gets: those with the flag for beam search, and the others. -/
def sideFlags (flags : List Bool) (side : Bool) : List Bool := flags.map (· == side)

/-- The rows that a selector gets. -/
def sideRows (m : SamplingMetadata F G) (flags : List Bool) (side : Bool) : List Nat :=
  (keep (sideFlags flags side) m.groupIndices).flatMap fun g => List.range' g.1 (g.2 - g.1)

/-- **A selector has what the batch holds for its rows**: every array row by row, and its groups
where their rows are. -/
structure HandedTo (m : SamplingMetadata F G) (flags : List Bool) (side : Bool)
    (s : SamplingMetadata F G) : Prop where
  isPrefill : s.isPrefill = m.isPrefill
  isMix : s.isMix = m.isMix
  batchSequenceIds : s.batchSequenceIds = keep (sideFlags flags side) m.batchSequenceIds
  reservedSequenceIds : s.reservedSequenceIds = keep (sideFlags flags side) m.reservedSequenceIds
  aligned : s.Aligned (m.sideRows flags side).length
  bitmask : HasRows (m.sideRows flags side).length s.guidedBitmask
  row : ∀ j r, (m.sideRows flags side)[j]? = some r → s.row j = m.row r
  groups_length : s.groupIndices.length = (keep (sideFlags flags side) m.groupIndices).length
  group : ∀ (k : Nat) (g : Nat × Nat),
    (keep (sideFlags flags side) m.groupIndices)[k]? = some g →
    ∃ g' : Nat × Nat, s.groupIndices[k]? = some g' ∧
      slice (m.sideRows flags side) g'.1 g'.2 = List.range' g.1 (g.2 - g.1)

variable {m s : SamplingMetadata F G} {flags mask : List Bool} {side : Bool} {n : Nat}

/-! ## The loop over the groups -/

/-- The loop of a selector behind some groups. -/
def SideLoop.of (ids reserved : List (List Int)) : SideLoop where
  batchSequenceIds := ids
  reservedSequenceIds := reserved
  groupIndices := intervals 0 (ids.map List.length)
  idx := (ids.map List.length).sum

theorem SideLoop.append_of (ids reserved : List (List Int)) (i r : List Int) :
    (SideLoop.of ids reserved).append i r = SideLoop.of (ids ++ [i]) (reserved ++ [r]) := by
  simp [SideLoop.of, SideLoop.append, intervals_append, intervals]

/-- The variables of the loop behind the first groups. -/
def SplitLoop.of (m : SamplingMetadata F G) (flags : List Bool) (i : Nat) : SplitLoop where
  retained := SideLoop.of (keep (flags.take i) (m.batchSequenceIds.take i))
    (keep (flags.take i) (m.reservedSequenceIds.take i))
  discarded := SideLoop.of (keep ((flags.map not).take i) (m.batchSequenceIds.take i))
    (keep ((flags.map not).take i) (m.reservedSequenceIds.take i))
  retainedIndices := keep (flags.take i) ((List.range flags.length).take i)

/-- One more group. -/
theorem splitGroup_of {i : Nat} (hb : m.Batch flags) (hi : i < flags.length) :
    ∃ g, m.groupIndices[i]? = some g ∧
      m.splitGroup (m.splitMask flags) (SplitLoop.of m flags i) (g, i) =
        some (SplitLoop.of m flags (i + 1)) := by
  have hib : i < m.batchSequenceIds.length := hb.flags_length ▸ hi
  have hflag : flags[i]? = some flags[i] := List.getElem?_eq_getElem hi
  have hids : m.batchSequenceIds[i]? = some m.batchSequenceIds[i] := List.getElem?_eq_getElem hib
  have hir : i < m.reservedSequenceIds.length := hb.reserved_length.symm ▸ hib
  have hreserved : m.reservedSequenceIds[i]? = some m.reservedSequenceIds[i] :=
    List.getElem?_eq_getElem hir
  have hsize : m.sizes[i]? = some m.batchSequenceIds[i].length := by
    rw [sizes, List.getElem?_map, hids, Option.map_some]
  have hpos : 0 < m.batchSequenceIds[i].length :=
    List.length_pos_of_ne_nil (hb.group_not_empty _ (List.getElem_mem hib))
  have hmask : (m.splitMask flags)[(m.sizes.take i).sum]? = some flags[i] :=
    getElem?_rowMask hflag hsize hpos
  have hnot : (flags.map not)[i]? = some !flags[i] := by
    rw [List.getElem?_map, hflag, Option.map_some]
  have hrange : (List.range flags.length)[i]? = some i := List.getElem?_range hi
  refine ⟨_, by rw [hb.groupIndices, getElem?_intervals, hsize, Option.map_some], ?_⟩
  simp only [splitGroup, Nat.zero_add, hmask, hids, hreserved, Option.bind_eq_bind,
    Option.bind_some]
  cases hf : flags[i] with
  | true =>
    rw [hf] at hflag hnot
    simp only [SplitLoop.append, SplitLoop.of, SideLoop.append_of, keep_take_succ hflag hids,
      keep_take_succ hflag hreserved, keep_take_succ hnot hids, keep_take_succ hnot hreserved,
      keep_take_succ hflag hrange, if_true, Bool.not_true, Bool.false_eq_true, if_false,
      List.append_nil]
  | false =>
    rw [hf] at hflag hnot
    simp only [SplitLoop.append, SplitLoop.of, SideLoop.append_of, keep_take_succ hflag hids,
      keep_take_succ hflag hreserved, keep_take_succ hnot hids, keep_take_succ hnot hreserved,
      keep_take_succ hflag hrange, if_true, Bool.not_false, Bool.false_eq_true, if_false,
      List.append_nil]

/-- **The groups of the selectors**: each has its groups in the order of the batch. -/
theorem foldlM_splitGroup {i : Nat} (hb : m.Batch flags) (hi : i ≤ flags.length) :
    (m.groupIndices.zipIdx.take i).foldlM (m.splitGroup (m.splitMask flags))
      (SplitLoop.of m flags 0) = some (SplitLoop.of m flags i) := by
  induction i with
  | zero => rfl
  | succ i ih =>
    obtain ⟨g, hg, hstep⟩ := splitGroup_of hb hi
    rw [List.take_add_one, List.getElem?_zipIdx, hg, List.foldlM_append, ih (Nat.le_of_lt hi)]
    simpa using hstep

/-! ## The arrays of a selector -/

/-- The metadata of a selector, where its arrays have a maximum. -/
def handed (m : SamplingMetadata F G) (mask : List Bool) (side : SideLoop) :
    SamplingMetadata F G where
  batchSequenceIds := side.batchSequenceIds
  reservedSequenceIds := side.reservedSequenceIds
  isPrefill := m.isPrefill
  isMix := m.isMix
  allSequenceIds := keep mask m.allSequenceIds
  parentSequenceIds := keep mask m.parentSequenceIds
  groupIndices := side.groupIndices
  repetitionPenalty := m.repetitionPenalty.map (keep mask)
  frequencyPenalty := m.frequencyPenalty.map (keep mask)
  presencePenalty := m.presencePenalty.map (keep mask)
  temperature := m.temperature.map (keep mask)
  topKArray := m.topKArray.map (keep mask)
  topKIdx := m.topKIdx.map (keep mask)
  topKDisabledMask := m.topKDisabledMask.map (keep mask)
  maxTopK := ((m.topKArray.map (keep mask)).bind List.max?).getD 0
  topPArray := m.topPArray.map (keep mask)
  topP := m.topP.map (keep mask)
  doSampleArray := m.doSampleArray.map (keep mask)
  topLogprobsArray := m.topLogprobsArray.map (keep mask)
  maxLogprobs := (m.topLogprobsArray.map (keep mask)).bind List.max?
  seedArray := m.seedArray.map (keep mask)
  numTopTokens := m.numTopTokens.map (keep mask)
  beamWidthArray := m.beamWidthArray.map (keep mask)
  maxBeamWidth := ((m.beamWidthArray.map (keep mask)).bind List.max?).getD 1
  bestOfArray := m.bestOfArray.map (keep mask)
  useBeamSearchArray := m.useBeamSearchArray.map (keep mask)
  outputLengths := m.outputLengths.map (keep mask)
  cumulativeLogprobs := m.cumulativeLogprobs.map (keep mask)
  allTokenIds := m.allTokenIds.map (keep mask)
  outputTokenIds := m.outputTokenIds.map (keep mask)
  isSeqPrefill := m.isSeqPrefill.map (keep mask)
  guidedBitmask := maskBitmask mask m.guidedBitmask
  cacheIds := m.cacheIds.map (keep mask)

theorem maskRows_eq {xs : List α} (h : xs.length = n) (hmask : mask.length = n) :
    maskRows mask xs = some (keep mask xs) :=
  if_pos (hmask.trans h.symm)

theorem maskColumn_eq {column : Option (List α)} (h : HasRows n column) (hmask : mask.length = n) :
    maskColumn mask column = some (column.map (keep mask)) := by
  cases column with
  | none => rfl
  | some xs =>
    rw [maskColumn, maskRows_eq (h xs rfl) hmask]
    rfl

/-- An array of which a mask keeps something, or no array. -/
def Kept (mask : List Bool) (column : Option (List α)) : Prop :=
  ∀ xs ∈ column, keep mask xs ≠ []

theorem kept_none : Kept mask (none : Option (List α)) :=
  fun xs h => absurd h (Option.not_mem_none xs)

theorem kept_some {xs : List α} : Kept mask (some xs) ↔ keep mask xs ≠ [] :=
  ⟨fun h => h xs rfl, fun h _ hys => Option.some.inj hys ▸ h⟩

theorem maxColumn_eq_some_iff {column : Option (List Int)} {x : Option Int} :
    maxColumn (column.map (keep mask)) = some x ↔
      Kept mask column ∧ x = (column.map (keep mask)).bind List.max? := by
  cases column with
  | none =>
    exact ⟨fun h => ⟨kept_none, (Option.some.inj h).symm⟩, fun h => congrArg some h.2.symm⟩
  | some xs =>
    rw [kept_some, Option.map_some, Option.bind_some, maxColumn]
    constructor
    · intro h
      obtain ⟨y, hy, rfl⟩ := Option.map_eq_some_iff.mp h
      refine ⟨fun hnil => ?_, hy.symm⟩
      rw [hnil] at hy
      cases hy
    · rintro ⟨hne, rfl⟩
      obtain ⟨y, hy⟩ := Option.isSome_iff_exists.mp (List.isSome_max?_of_ne_nil hne)
      rw [hy, Option.map_some]

theorem selectorMetadata_eq_some_iff {loop : SideLoop} (h : m.Aligned n)
    (hmask : mask.length = n) :
    m.selectorMetadata mask loop = some s ↔
      (Kept mask m.topKArray ∧ Kept mask m.topLogprobsArray ∧ Kept mask m.beamWidthArray) ∧
        s = m.handed mask loop := by
  simp only [selectorMetadata, maskRows_eq h.allSequenceIds hmask,
    maskRows_eq h.parentSequenceIds hmask,
    maskColumn_eq h.repetitionPenalty hmask, maskColumn_eq h.frequencyPenalty hmask,
    maskColumn_eq h.presencePenalty hmask, maskColumn_eq h.temperature hmask,
    maskColumn_eq h.topKArray hmask, maskColumn_eq h.topKIdx hmask,
    maskColumn_eq h.topKDisabledMask hmask, maskColumn_eq h.topPArray hmask,
    maskColumn_eq h.topP hmask, maskColumn_eq h.doSampleArray hmask,
    maskColumn_eq h.topLogprobsArray hmask, maskColumn_eq h.seedArray hmask,
    maskColumn_eq h.numTopTokens hmask, maskColumn_eq h.beamWidthArray hmask,
    maskColumn_eq h.bestOfArray hmask, maskColumn_eq h.useBeamSearchArray hmask,
    maskColumn_eq h.outputLengths hmask, maskColumn_eq h.cumulativeLogprobs hmask,
    maskColumn_eq h.allTokenIds hmask, maskColumn_eq h.outputTokenIds hmask,
    maskColumn_eq h.isSeqPrefill hmask, maskColumn_eq h.cacheIds hmask,
    Option.bind_eq_bind, Option.bind_some, Option.bind_eq_some_iff, maxColumn_eq_some_iff,
    Option.some.injEq]
  constructor
  · rintro ⟨_, ⟨hk, rfl⟩, _, ⟨hl, rfl⟩, _, ⟨hw, rfl⟩, rfl⟩
    exact ⟨⟨hk, hl, hw⟩, rfl⟩
  · rintro ⟨⟨hk, hl, hw⟩, rfl⟩
    exact ⟨_, ⟨hk, rfl⟩, _, ⟨hl, rfl⟩, _, ⟨hw, rfl⟩, rfl⟩

theorem hasRows_none : HasRows n (none : Option (List α)) :=
  fun xs h => absurd h (Option.not_mem_none xs)

theorem HasRows.keep {column : Option (List α)} (h : HasRows n column) (hmask : mask.length = n) :
    HasRows (mask.count true) (column.map (Program.keep mask)) := by
  intro xs hxs
  obtain ⟨ys, hys, rfl⟩ := Option.map_eq_some_iff.mp hxs
  exact length_keep (hmask.trans (h ys hys).symm)

theorem rowOf_keep {column : Option (List α)} {j r : Nat} (h : HasRows n column)
    (hmask : mask.length = n) (hj : (keep mask (List.range mask.length))[j]? = some r) :
    rowOf (column.map (keep mask)) j = rowOf column r := by
  cases column with
  | none => rfl
  | some xs => exact congrArg some (getElem?_keep_of_range (hmask.trans (h xs rfl).symm) hj)

/-- Nothing is in the arrays that are not split, and the bitmask has a row for each sequence. -/
structure NothingLeft (m : SamplingMetadata F G) : Prop where
  randomNumberGenerators : m.randomNumberGenerators = none
  doSampleTensor : m.doSampleTensor = none
  minTokensArray : m.minTokensArray = none
  repeatingIndices : m.repeatingIndices = none
  repeatingIndicesArray : m.repeatingIndicesArray = none
  guidedBitmask : HasRows m.allSequenceIds.length m.guidedBitmask

theorem maskBitmask_eq {gb : Option (List (List Int))} (h : HasRows n gb)
    (hmask : mask.length = n) : maskBitmask mask gb = gb.map (keep mask) := by
  cases gb with
  | none => rfl
  | some xs => exact if_neg (not_not.mpr ((h xs rfl).trans hmask.symm))

theorem hasRows_maskBitmask (mask : List Bool) (gb : Option (List (List Int))) :
    HasRows (mask.count true) (maskBitmask mask gb) := by
  intro xs hxs
  obtain ⟨ys, -, hys⟩ := Option.bind_eq_some_iff.mp hxs
  split at hys
  · cases hys
  · next h =>
    cases hys
    exact length_keep (not_not.mp h).symm

variable {loop : SideLoop}

theorem aligned_handed (h : m.Aligned n) (hmask : mask.length = n) :
    (m.handed mask loop).Aligned (mask.count true) where
  allSequenceIds := length_keep (hmask.trans h.allSequenceIds.symm)
  parentSequenceIds := length_keep (hmask.trans h.parentSequenceIds.symm)
  repeatingIndices := hasRows_none
  repeatingIndicesArray := hasRows_none
  minTokensArray := hasRows_none
  repetitionPenalty := h.repetitionPenalty.keep hmask
  frequencyPenalty := h.frequencyPenalty.keep hmask
  presencePenalty := h.presencePenalty.keep hmask
  temperature := h.temperature.keep hmask
  topKArray := h.topKArray.keep hmask
  topKIdx := h.topKIdx.keep hmask
  topKDisabledMask := h.topKDisabledMask.keep hmask
  topPArray := h.topPArray.keep hmask
  topP := h.topP.keep hmask
  doSampleArray := h.doSampleArray.keep hmask
  doSampleTensor := hasRows_none
  topLogprobsArray := h.topLogprobsArray.keep hmask
  seedArray := h.seedArray.keep hmask
  numTopTokens := h.numTopTokens.keep hmask
  beamWidthArray := h.beamWidthArray.keep hmask
  bestOfArray := h.bestOfArray.keep hmask
  useBeamSearchArray := h.useBeamSearchArray.keep hmask
  outputLengths := h.outputLengths.keep hmask
  cumulativeLogprobs := h.cumulativeLogprobs.keep hmask
  randomNumberGenerators := hasRows_none
  allTokenIds := h.allTokenIds.keep hmask
  outputTokenIds := h.outputTokenIds.keep hmask
  isSeqPrefill := h.isSeqPrefill.keep hmask
  cacheIds := h.cacheIds.keep hmask

/-- A row of a selector is the row of the batch at its index. -/
theorem row_handed {j r : Nat} (h : m.Aligned n) (hleft : m.NothingLeft) (hmask : mask.length = n)
    (hj : (keep mask (List.range mask.length))[j]? = some r) :
    (m.handed mask loop).row j = m.row r := by
  have hgb := h.allSequenceIds ▸ hleft.guidedBitmask
  simp only [row, handed, getElem?_keep_of_range (hmask.trans h.allSequenceIds.symm) hj,
    getElem?_keep_of_range (hmask.trans h.parentSequenceIds.symm) hj,
    hleft.randomNumberGenerators, hleft.doSampleTensor, hleft.minTokensArray,
    hleft.repeatingIndices, hleft.repeatingIndicesArray, maskBitmask_eq hgb hmask,
    rowOf_keep hgb hmask hj,
    rowOf_keep h.repetitionPenalty hmask hj, rowOf_keep h.frequencyPenalty hmask hj,
    rowOf_keep h.presencePenalty hmask hj, rowOf_keep h.temperature hmask hj,
    rowOf_keep h.topKArray hmask hj, rowOf_keep h.topKIdx hmask hj,
    rowOf_keep h.topKDisabledMask hmask hj, rowOf_keep h.topPArray hmask hj,
    rowOf_keep h.topP hmask hj, rowOf_keep h.doSampleArray hmask hj,
    rowOf_keep h.topLogprobsArray hmask hj, rowOf_keep h.seedArray hmask hj,
    rowOf_keep h.numTopTokens hmask hj, rowOf_keep h.beamWidthArray hmask hj,
    rowOf_keep h.bestOfArray hmask hj, rowOf_keep h.useBeamSearchArray hmask hj,
    rowOf_keep h.outputLengths hmask hj, rowOf_keep h.cumulativeLogprobs hmask hj,
    rowOf_keep h.allTokenIds hmask hj, rowOf_keep h.outputTokenIds hmask hj,
    rowOf_keep h.isSeqPrefill hmask hj, rowOf_keep h.cacheIds hmask hj]
  rfl

theorem eq_none_of_rowOf {column : Option (List α)} {j r : Nat}
    (h : rowOf (none : Option (List α)) j = rowOf column r) : column = none :=
  Option.map_eq_none_iff.mp h.symm

/-- A selector that has a row of the batch shows what is not split. -/
theorem nothingLeft_of_row {j r : Nat} (h : m.Aligned n) (hmask : mask.length = n)
    (hrow : (m.handed mask loop).row j = m.row r) : m.NothingLeft where
  randomNumberGenerators := eq_none_of_rowOf (j := j) (congrArg Row.randomNumberGenerator hrow)
  doSampleTensor := eq_none_of_rowOf (j := j) (congrArg Row.doSampleTensor hrow)
  minTokensArray := eq_none_of_rowOf (j := j) (congrArg Row.minTokens hrow)
  repeatingIndices := eq_none_of_rowOf (j := j) (congrArg Row.repeatingIndex hrow)
  repeatingIndicesArray := eq_none_of_rowOf (j := j) (congrArg Row.repeatingIndexArray hrow)
  guidedBitmask := by
    intro gb hgb
    by_contra hne
    have hskip : maskBitmask mask m.guidedBitmask = none := by
      rw [maskBitmask, Option.mem_def.mp hgb, Option.bind_some]
      exact if_pos (fun hlen => hne (hlen.trans (hmask.trans h.allSequenceIds.symm)))
    have hgb' : rowOf (maskBitmask mask m.guidedBitmask) j = rowOf m.guidedBitmask r :=
      congrArg Row.guidedBitmask hrow
    rw [hskip] at hgb'
    rw [eq_none_of_rowOf hgb'] at hgb
    cases hgb

/-! ## Rows of a selector -/

theorem sideFlags_true (flags : List Bool) : sideFlags flags true = flags := by
  simp [sideFlags]

theorem sideFlags_false (flags : List Bool) : sideFlags flags false = flags.map not := by
  refine List.map_congr_left fun b _ => ?_
  cases b <;> rfl

theorem Batch.sideFlags_length (hb : m.Batch flags) (side : Bool) :
    (sideFlags flags side).length = m.sizes.length := by
  rw [sideFlags, List.length_map, hb.flags_length, sizes, List.length_map]

theorem Batch.splitMask_length (hb : m.Batch flags) (side : Bool) :
    (m.splitMask (sideFlags flags side)).length = m.sizes.sum :=
  length_rowMask (hb.sideFlags_length side)

theorem Batch.sideRows_eq (hb : m.Batch flags) (side : Bool) :
    m.sideRows flags side =
      keep (m.splitMask (sideFlags flags side))
        (List.range (m.splitMask (sideFlags flags side)).length) := by
  rw [hb.splitMask_length, List.range_eq_range', splitMask,
    keep_rowMask_range' (hb.sideFlags_length side), ← hb.groupIndices]
  rfl

theorem Batch.length_sideRows (hb : m.Batch flags) (side : Bool) :
    (m.sideRows flags side).length = (m.splitMask (sideFlags flags side)).count true := by
  rw [hb.sideRows_eq, length_keep List.length_range.symm]

/-- The metadata of a selector. -/
def sideMetadata (m : SamplingMetadata F G) (flags : List Bool) (side : Bool) :
    SamplingMetadata F G :=
  m.handed (m.splitMask (sideFlags flags side))
    (SideLoop.of (keep (sideFlags flags side) m.batchSequenceIds)
      (keep (sideFlags flags side) m.reservedSequenceIds))

/-- **The rows of a selector**, where nothing is left. -/
theorem handedTo_sideMetadata (hb : m.Batch flags) (hleft : m.NothingLeft) (side : Bool) :
    HandedTo m flags side (m.sideMetadata flags side) where
  isPrefill := rfl
  isMix := rfl
  batchSequenceIds := rfl
  reservedSequenceIds := rfl
  aligned := hb.length_sideRows side ▸ aligned_handed hb.aligned (hb.splitMask_length side)
  bitmask := hb.length_sideRows side ▸ hasRows_maskBitmask _ _
  row := by
    intro j r hj
    rw [hb.sideRows_eq] at hj
    exact row_handed hb.aligned hleft (hb.splitMask_length side) hj
  groups_length := by
    have hlen := hb.sideFlags_length side
    have hsizes : m.sizes.length = m.batchSequenceIds.length := List.length_map _
    change (intervals 0
      ((keep (sideFlags flags side) m.batchSequenceIds).map List.length)).length = _
    rw [length_intervals, List.length_map, length_keep (hlen.trans hsizes), hb.groupIndices,
      length_keep (by rw [length_intervals, hlen])]
  group := by
    intro k g hg
    let chunks := (keep (sideFlags flags side) m.groupIndices).map fun g =>
      List.range' g.1 (g.2 - g.1)
    have hchunk : chunks[k]? = some (List.range' g.1 (g.2 - g.1)) := by
      rw [List.getElem?_map, hg, Option.map_some]
    have hlens : chunks.map List.length =
        (keep (sideFlags flags side) m.batchSequenceIds).map List.length := by
      rw [List.map_map, ← keep_map, ← keep_map, hb.groupIndices]
      congr 1
      refine Eq.trans (List.map_congr_left fun g _ => ?_) (map_sub_intervals 0 m.sizes)
      exact List.length_range'
    obtain ⟨g', hg'⟩ : ∃ g', (intervals 0 (chunks.map List.length))[k]? = some g' := by
      rw [getElem?_intervals, List.getElem?_map, hchunk]
      exact ⟨_, rfl⟩
    have hslice := slice_flatten_intervals hchunk hg'
    rw [hlens] at hg'
    refine ⟨g', hg', ?_⟩
    rwa [← List.flatMap_def] at hslice

/-- Each selector has a group, or no array has a maximum. -/
def BothSides (m : SamplingMetadata F G) (flags : List Bool) : Prop :=
  (∀ side, side ∈ flags) ∨
    m.topKArray = none ∧ m.topLogprobsArray = none ∧ m.beamWidthArray = none

theorem Batch.mem_splitMask (hb : m.Batch flags) (side : Bool) :
    true ∈ m.splitMask (sideFlags flags side) ↔ side ∈ flags := by
  rw [splitMask, mem_rowMask (hb.sideFlags_length side)]
  · simp [sideFlags]
  · intro size hsize
    obtain ⟨ids, hids, rfl⟩ := List.mem_map.mp hsize
    exact List.length_pos_of_ne_nil (hb.group_not_empty ids hids)

theorem Batch.kept_iff (hb : m.Batch flags) (side : Bool) {column : Option (List α)}
    (h : HasRows m.sizes.sum column) :
    Kept (m.splitMask (sideFlags flags side)) column ↔ side ∈ flags ∨ column = none := by
  cases column with
  | none => exact ⟨fun _ => Or.inr rfl, fun _ => kept_none⟩
  | some xs =>
    rw [kept_some, ← hb.mem_splitMask side]
    constructor
    · exact fun hne => Or.inl (mem_of_keep_ne_nil hne)
    · rintro (hmem | hnone)
      · exact keep_ne_nil ((hb.splitMask_length side).trans (h xs rfl).symm) hmem
      · cases hnone

theorem Batch.bothSides_iff (hb : m.Batch flags) :
    m.BothSides flags ↔ ∀ side,
      Kept (m.splitMask (sideFlags flags side)) m.topKArray ∧
        Kept (m.splitMask (sideFlags flags side)) m.topLogprobsArray ∧
          Kept (m.splitMask (sideFlags flags side)) m.beamWidthArray := by
  simp only [hb.kept_iff _ hb.aligned.topKArray, hb.kept_iff _ hb.aligned.topLogprobsArray,
    hb.kept_iff _ hb.aligned.beamWidthArray, BothSides]
  constructor
  · rintro (hsides | ⟨hk, hl, hw⟩) side
    · exact ⟨Or.inl (hsides side), Or.inl (hsides side), Or.inl (hsides side)⟩
    · exact ⟨Or.inr hk, Or.inr hl, Or.inr hw⟩
  · intro h
    by_cases hsides : ∀ side, side ∈ flags
    · exact Or.inl hsides
    · obtain ⟨side, hside⟩ := not_forall.mp hsides
      obtain ⟨hk, hl, hw⟩ := h side
      exact Or.inr ⟨hk.resolve_left hside, hl.resolve_left hside, hw.resolve_left hside⟩

/-- The groups with beam search. -/
def beamIndices (flags : List Bool) : List Nat := keep flags (List.range flags.length)

/-- **The split**: it fails where a maximum is missing. -/
theorem splitSamplingMetadata_eq_some_iff (hb : m.Batch flags) {r d : SamplingMetadata F G}
    {indices : List Nat} :
    m.splitSamplingMetadata (m.splitMask flags) = some (r, d, indices) ↔
      m.BothSides flags ∧ r = m.sideMetadata flags true ∧ d = m.sideMetadata flags false ∧
        indices = beamIndices flags := by
  have hgroups : m.groupIndices.zipIdx.foldlM (m.splitGroup (m.splitMask flags))
      (SplitLoop.of m flags 0) = some (SplitLoop.of m flags flags.length) := by
    have hloop := foldlM_splitGroup hb (Nat.le_refl flags.length)
    rwa [List.take_of_length_le] at hloop
    rw [List.length_zipIdx, hb.groupIndices, length_intervals, sizes, List.length_map,
      hb.flags_length]
  have hloop : SplitLoop.of m flags flags.length =
      { retained := SideLoop.of (keep flags m.batchSequenceIds) (keep flags m.reservedSequenceIds)
        discarded := SideLoop.of (keep (flags.map not) m.batchSequenceIds)
          (keep (flags.map not) m.reservedSequenceIds)
        retainedIndices := beamIndices flags } := by
    simp [SplitLoop.of, beamIndices, List.take_of_length_le, hb.flags_length, hb.reserved_length]
  have hnot : (m.splitMask flags).map not = m.splitMask (flags.map not) := map_rowMask not _ _
  have htrue := hb.splitMask_length true
  have hfalse := hb.splitMask_length false
  rw [sideFlags_true] at htrue
  rw [sideFlags_false] at hfalse
  rw [hb.bothSides_iff, Bool.forall_bool, sideFlags_true, sideFlags_false, sideMetadata,
    sideMetadata, sideFlags_true, sideFlags_false]
  change (m.groupIndices.zipIdx.foldlM (m.splitGroup (m.splitMask flags))
    (SplitLoop.of m flags 0)).bind _ = _ ↔ _
  rw [hgroups, hloop, Option.bind_some, hnot]
  simp only [Option.bind_eq_bind, Option.bind_eq_some_iff,
    selectorMetadata_eq_some_iff hb.aligned htrue, selectorMetadata_eq_some_iff hb.aligned hfalse,
    Option.some.injEq, Prod.mk.injEq]
  constructor
  · rintro ⟨_, ⟨hr, rfl⟩, _, ⟨hd, rfl⟩, rfl, rfl, rfl⟩
    exact ⟨⟨hd, hr⟩, rfl, rfl, rfl⟩
  · rintro ⟨⟨hd, hr⟩, rfl, rfl, rfl⟩
    exact ⟨_, ⟨hr, rfl⟩, _, ⟨hd, rfl⟩, rfl, rfl, rfl⟩

/-- **When each selector has what the batch holds for its rows.** -/
theorem handedTo_iff (hb : m.Batch flags) :
    (∀ side, HandedTo m flags side (m.sideMetadata flags side)) ↔ m.NothingLeft := by
  constructor
  · intro h
    -- the side of the first group has a row
    obtain ⟨side, hside⟩ : ∃ side, side ∈ flags := by
      have hne : flags ≠ [] := by
        rw [ne_eq, ← List.length_eq_zero_iff, hb.flags_length, List.length_eq_zero_iff]
        exact hb.not_empty
      exact List.exists_mem_of_ne_nil flags hne
    have hrows : 0 < (m.sideRows flags side).length := by
      rw [hb.length_sideRows]
      exact List.count_pos_iff.mpr ((hb.mem_splitMask side).mpr hside)
    exact nothingLeft_of_row hb.aligned (hb.splitMask_length side)
      ((h side).row 0 _ (List.getElem?_eq_getElem hrows))
  · exact fun hleft side => handedTo_sideMetadata hb hleft side

end SamplingMetadata

end MindieLLM
