import MindieLLM.Program.MaskWrites
import MindieLLM.Program.Ranking
import MindieLLM.TextGenerator.SamplingOutput
import Mathlib.Algebra.Order.Field.Basic

/-!
# A step of the beam search

Each sequence of a group proposes its likeliest next tokens. The proposals of a group are laid out
in one row and ranked by their average log probability. Proposals that end the sequence are all
taken, and of the others as many as the beams of the group.

## Main definitions

* `BeamSearchTokenSelector.select`: the selector
* `BeamSearchTokenSelector.SelectsGroup`: the rows that a group should have in the output
-/

namespace MindieLLM

open Program

namespace BeamSearchTokenSelector

variable {F G : Type}

/-- What the selector is configured with. The value of what is filtered is minus infinity. -/
structure SelectorParams where
  eosTokenId : List Int
  splitfuseEnabled : Bool

/-- What `torch.topk` gives for the log probabilities of the tokens: a row for each sequence. -/
structure TopCandidates (F : Type) where
  topLogprobs : List (List F)
  topTokenIds : List (List Int)

/-- A place in the arrays `masked_token_ids` and `average_logprobs`, which are masked and padded
alike. -/
structure Cell (F : Type) where
  tokenId : Int
  averageLogprob : WithBot F

def Cell.filtered : Cell F := ⟨-1, ⊥⟩

def numEos (p : SelectorParams) : Nat := p.eosTokenId.length

/-- The number of columns of the candidates. -/
def maxNeededTokens (p : SelectorParams) (m : SamplingMetadata F G) : Option Nat :=
  m.maxLogprobs.map fun maxLogprobs => (max maxLogprobs ((numEos p + 1) * m.maxBeamWidth)).toNat

/-- Whether the beam widths differ, so that columns are masked. -/
def masksColumns (p : SelectorParams) (m : SamplingMetadata F G) (minBeamWidth : Int) : Bool :=
  decide ((numEos p + 1) * minBeamWidth ≠ (numEos p + 1) * m.maxBeamWidth)

/-! ## The arrays -/

section Arrays

variable [Field F]

/-- The average log probability of a sequence with one token more. -/
def averageLogprob (cumulativeLogprob : F) (outputLength : Int) (logprob : F) : F :=
  (cumulativeLogprob + logprob) / (outputLength + 1)

/-- The candidates of one sequence. -/
def cellRow (p : SelectorParams) (masks : Bool) (cumulativeLogprob : F)
    (outputLength beamWidth : Int) (logprobs : List F) (tokenIds : List Int) : List (Cell F) :=
  (logprobs.zip tokenIds).mapIdx fun col c =>
    if masks ∧ (numEos p + 1) * beamWidth ≤ col then Cell.filtered
    else ⟨c.2, (averageLogprob cumulativeLogprob outputLength c.1 : F)⟩

/-- The candidates of all sequences. -/
def cells (p : SelectorParams) (m : SamplingMetadata F G) (top : TopCandidates F) :
    Option (List (List (Cell F))) := do
  let outputLengths ← m.outputLengths
  let cumulativeLogprobs ← m.cumulativeLogprobs
  let beamWidths ← m.beamWidthArray
  let minBeamWidth ← beamWidths.min?
  if outputLengths.any (· < 0) then none
  else (List.range top.topLogprobs.length).mapM fun r => do
    let cumulativeLogprob ← cumulativeLogprobs[r]?
    let outputLength ← outputLengths[r]?
    let beamWidth ← beamWidths[r]?
    let logprobs ← top.topLogprobs[r]?
    let tokenIds ← top.topTokenIds[r]?
    some (cellRow p (masksColumns p m minBeamWidth) cumulativeLogprob outputLength beamWidth
      logprobs tokenIds)

end Arrays

/-- `row_padding_mask` as one row: which places of the groups have a sequence. -/
def rowPaddingMask (groupWidths : List Nat) (maxGroupWidth : Nat) : List Bool :=
  groupWidths.flatMap fun width => (List.range maxGroupWidth).map fun j => decide (j < width)

/-- The sequences at these places. A place without one has the row that is padded on, the last. -/
def rowPaddingIndices (groupWidths : List Nat) (maxGroupWidth padding : Nat) : List Nat :=
  let mask := rowPaddingMask groupWidths maxGroupWidth
  (List.range mask.length).map fun t =>
    if mask.getD t false then (mask.take (t + 1)).count true - 1 else padding

/-- The rows, as many for each group. -/
def padRows (groupWidths : List Nat) (numColumns : Nat) (rows : List (List (Cell F))) :
    Option (List (List (Cell F))) := do
  let minGroupWidth ← groupWidths.min?
  let maxGroupWidth ← groupWidths.max?
  let indices := rowPaddingIndices groupWidths maxGroupWidth rows.length
  let padded := rows ++ [List.replicate numColumns Cell.filtered]
  if minGroupWidth = maxGroupWidth then some rows else gather padded indices

/-- `reshape(batch_size, -1)` -/
def reshape {α : Type} (batchSize : Nat) (xs : List α) : Option (List (List α)) :=
  if batchSize ≠ 0 ∧ batchSize ∣ xs.length then
    some ((List.range batchSize).map fun i =>
      slice xs (i * (xs.length / batchSize)) ((i + 1) * (xs.length / batchSize)))
  else none

/-- `masked_token_ids` is `top_token_ids` itself if no log probabilities are asked for beyond the
candidates. It is then masked in place. -/
def maskedTokenIds (p : SelectorParams) (m : SamplingMetadata F G) (top : TopCandidates F) :
    Option (List (List Int)) := do
  let maxLogprobs ← m.maxLogprobs
  let beamWidths ← m.beamWidthArray
  let minBeamWidth ← beamWidths.min?
  if (numEos p + 1) * minBeamWidth < maxLogprobs ∨ ¬ masksColumns p m minBeamWidth then
    some top.topTokenIds
  else
    (List.range top.topTokenIds.length).mapM fun r => do
      let beamWidth ← beamWidths[r]?
      let tokenIds ← top.topTokenIds[r]?
      some (tokenIds.mapIdx fun col tokenId =>
        if (numEos p + 1) * beamWidth ≤ col then -1 else tokenId)

/-! ## The ranking -/

/-- A candidate that is taken: its row and column, its score and whether it is a beam. -/
structure Pick (F : Type) where
  rowId : Nat
  colId : Nat
  score : WithBot F
  isBeam : Bool

def isEos (p : SelectorParams) (c : Cell F) : Bool := decide (c.tokenId ∈ p.eosTokenId)

/-- `average_logprobs[eos_mask]` -/
def eosAverageLogprobs (p : SelectorParams) (groups : List (List (Cell F))) : List (WithBot F) :=
  groups.flatMap fun cells => (cells.filter (isEos p)).map (·.averageLogprob)

section Ranking

variable [Field F] [LinearOrder F]

/-- The average log probabilities, with 1 for what ends the sequence. -/
def scores (p : SelectorParams) (cells : List (Cell F)) : List (WithBot F) :=
  cells.map fun c => if isEos p c then 1 else c.averageLogprob

/-- The candidates of a group that are taken, the first of whose rows is `groupStart`. -/
def groupPicks (p : SelectorParams) (a : ArraySort (WithBot F)) (numColumns groupStart : Nat)
    (beamWidth : Int) (cells : List (Cell F)) : Option (List (Pick F)) := do
  let beamIndices ← topIndices a (scores p cells) numColumns
  let numEosGroup := (cells.filter (isEos p)).length
  (beamIndices.take (beamWidth + numEosGroup).toNat).zipIdx.mapM fun x => do
    let score ← (scores p cells)[x.1]?
    some
      { rowId := groupStart + x.1 / numColumns
        colId := x.1 % numColumns
        score := score
        isBeam := decide (numEosGroup ≤ x.2) }

/-- The candidates that are taken, of all groups. -/
def allGroupPicks (p : SelectorParams) (a : ArraySort (WithBot F)) (numColumns : Nat)
    (groupWidths : List Nat) (groupBeamWidths : List Int) (groups : List (List (Cell F))) :
    Option (List (List (Pick F))) :=
  (List.range groups.length).mapM fun i => do
    let interval ← (intervals 0 groupWidths)[i]?
    let beamWidth ← groupBeamWidths[i]?
    let cells ← groups[i]?
    groupPicks p a numColumns interval.1 beamWidth cells

/-- The beam width of each group: that of its first sequence. -/
def groupBeamWidths (m : SamplingMetadata F G) : Option (List Int) := do
  let beamWidths ← m.beamWidthArray
  (List.range m.batchSequenceIds.length).mapM fun i => do
    let group ← m.groupIndices[i]?
    beamWidths[group.1]?

/-! ## The sequence ids -/

/-- The last elements of a list. -/
def lastN {α : Type} (count : Nat) (xs : List α) : Option (List α) :=
  if count ≤ xs.length then some (xs.drop (xs.length - count)) else none

/-- A sequence that is prefilled keeps its id for the first beam. The other beams get the reserved
ids. -/
def prefillSequenceIds (m : SamplingMetadata F G) (count : Nat) (numEosArray : List Nat) :
    Option (List Int) := do
  let numEosLast ← lastN count numEosArray
  let originalSequenceIds ← lastN count m.batchSequenceIds
  let reservedSequenceIds ← lastN count m.reservedSequenceIds
  some ((numEosLast.zip (originalSequenceIds.zip reservedSequenceIds)).flatMap fun x =>
    List.replicate x.1 (-1) ++ x.2.1 ++ x.2.2)

/-- Which of the beams are not the first of their parent. -/
def newSequenceMask : List Int → List (Int × WithBot F) → List Bool
  | _, [] => []
  | usedIds, (id, score) :: rest =>
    if id ∈ usedIds ∧ score ≤ 0 then true :: newSequenceMask usedIds rest
    else if 0 < score then false :: newSequenceMask usedIds rest
    else false :: newSequenceMask (id :: usedIds) rest

/-- Behind the groups that are decoded, and behind their sequences, as those that are prefilled have
one each. -/
def decodeReqLastIdx (m : SamplingMetadata F G) (parentSequenceIds : List Int) : Int :=
  let numPrefill := (m.isSeqPrefill.getD []).count true
  if numPrefill ≠ 0 then -numPrefill else parentSequenceIds.length

/-- A sequence that is decoded keeps its id for the first of its beams. The other beams get the ids
of sequences that have none. -/
def decodeSequenceIds (m : SamplingMetadata F G) (numSeqs : Nat) (groups : List (List (Pick F)))
    (parentSequenceIds : List Int) : Option (List Int) :=
  let lastIdx := decodeReqLastIdx m parentSequenceIds
  let picks := (pySlice groups 0 lastIdx).flatten
  let newSeqMask := newSequenceMask []
    ((parentSequenceIds.take picks.length).zip (groups.flatten.map (·.score)))
  let beamIndices := (picks.filter (·.isBeam)).map (·.rowId)
  let freeRows := (pySlice (List.range numSeqs) 0 lastIdx).filter (· ∉ beamIndices)
  (assignMask newSeqMask (picks.map (·.rowId)) freeRows).bind (gather m.allSequenceIds)

/-- The ids of a batch that is prefilled, decoded or both. -/
def newSequenceIds (p : SelectorParams) (m : SamplingMetadata F G) (numSeqs : Nat)
    (numEosArray : List Nat) (groups : List (List (Pick F))) (parentSequenceIds : List Int) :
    Option (List Int) :=
  if p.splitfuseEnabled then
    match m.isSeqPrefill with
    | none => none
    | some flags => do
      let decodeIds ←
        (if false ∈ flags then decodeSequenceIds m numSeqs groups parentSequenceIds else some [])
      let prefillIds ←
        (if true ∈ flags then prefillSequenceIds m (flags.count true) numEosArray else some [])
      if flags.isEmpty then none else some (decodeIds ++ prefillIds)
  else if m.isPrefill then prefillSequenceIds m m.allSequenceIds.length numEosArray
  else decodeSequenceIds m numSeqs groups parentSequenceIds

/-! ## The selector -/

/-- `xs[row_ids, col_ids]` -/
def takeCells {α : Type} (xs : List (List α)) (picks : List (Pick F)) : Option (List α) :=
  picks.mapM fun k => xs[k.rowId]?.bind (·[k.colId]?)

/-- `xs[row_ids][:, :stop]` -/
def takeRows {α : Type} (xs : List (List α)) (stop : Int) (picks : List (Pick F)) :
    Option (Table α) := do
  let rows ← gather xs (picks.map (·.rowId))
  let rows := rows.map (pySlice · 0 stop)
  let width := (pySlice (xs.headD []) 0 stop).length
  if h : ∀ row ∈ rows, row.length = width then some ⟨width, rows, h⟩ else none

/-- `max(num_top_tokens)` -/
def maxTopTokens (m : SamplingMetadata F G) : Option Int :=
  match m.numTopTokens with
  | none => some 0
  | some numTopTokens => numTopTokens.max?

/-- `num_top_tokens[parent_indices]` -/
def takeNumTopTokens (m : SamplingMetadata F G) (parentIndices : List Nat) :
    Option (Option (List Int)) :=
  match m.numTopTokens with
  | none => some none
  | some numTopTokens => (gather numTopTokens parentIndices).map some

/-- The selector. `topk` gives the candidates of the sequences, as many as are needed. -/
def select (p : SelectorParams) (a : ArraySort (WithBot F)) (topk : Nat → TopCandidates F)
    (m : SamplingMetadata F G) : Option (SamplingOutput (WithBot F)) := do
  let numColumns ← maxNeededTokens p m
  let top := topk numColumns
  let numSeqs := top.topLogprobs.length
  let groupWidths := m.batchSequenceIds.map List.length
  let groupBeamWidths ← groupBeamWidths m
  let rows ← cells p m top
  let topTokenIds ← maskedTokenIds p m top
  let rows ← padRows groupWidths numColumns rows
  let groups ← reshape m.batchSequenceIds.length rows.flatten
  if p.eosTokenId.isEmpty then none
  else
    let numEosArray := groups.map fun cells => (cells.filter (isEos p)).length
    let groupPicks ← allGroupPicks p a numColumns groupWidths groupBeamWidths groups
    let picks := groupPicks.flatten
    let parentIndices ← gather (List.range numSeqs) (picks.map (·.rowId))
    let parentSequenceIds ← gather m.allSequenceIds parentIndices
    let tokenIds ← takeCells topTokenIds picks
    let logprobs ← takeCells top.topLogprobs picks
    let maxTopTokens ← maxTopTokens m
    let topTokenRows ← takeRows topTokenIds maxTopTokens picks
    let topLogprobRows ← takeRows (top.topLogprobs.map (·.map ((↑) : F → WithBot F))) maxTopTokens
      picks
    let sequenceIds ← newSequenceIds p m numSeqs numEosArray groupPicks parentSequenceIds
    let outputEosMask := picks.map fun k => decide (k.score = 1)
    let cumulativeLogprobs ← assignMask outputEosMask (picks.map (·.score))
      (eosAverageLogprobs p groups)
    let sequenceIds ← fillMask outputEosMask sequenceIds
      (List.replicate (outputEosMask.count true) (-1))
    let numTopTokens ← takeNumTopTokens m parentIndices
    some
      { sequenceIds := sequenceIds
        parentSequenceIds := parentSequenceIds
        tokenIds := tokenIds
        logprobs := logprobs.map (↑)
        topTokenIds := topTokenRows
        topLogprobs := topLogprobRows
        cumulativeLogprobs := cumulativeLogprobs
        numNewTokens := List.replicate parentSequenceIds.length 1
        numTopTokens := numTopTokens
        groupIndices := intervals 0 (List.zipWith (fun beamWidth n => (beamWidth + n).toNat)
          groupBeamWidths numEosArray)
        repeatingIndices := parentIndices }

end Ranking

/-! ## What a group should have -/

/-- The ids of a group. -/
def groupIds (m : SamplingMetadata F G) (i : Nat) : List Int := m.batchSequenceIds.getD i []

def groupWidth (m : SamplingMetadata F G) (i : Nat) : Nat := (groupIds m i).length

def groupStart (m : SamplingMetadata F G) (i : Nat) : Nat := sumTo (groupWidth m) i

def reservedIds (m : SamplingMetadata F G) (i : Nat) : List Int := m.reservedSequenceIds.getD i []

def beamWidth (m : SamplingMetadata F G) (i : Nat) : Nat :=
  ((m.beamWidthArray.getD []).getD (groupStart m i) 0).toNat

def tokenIdAt (top : TopCandidates F) (c : Nat × Nat) : Int :=
  (top.topTokenIds.getD c.1 []).getD c.2 (-1)

def endsSequence (p : SelectorParams) (top : TopCandidates F) (c : Nat × Nat) : Bool :=
  decide (tokenIdAt top c ∈ p.eosTokenId)

/-- Whether the columns beyond the beams of a narrower group are masked. -/
def masks (p : SelectorParams) (m : SamplingMetadata F G) : Bool :=
  masksColumns p m (((m.beamWidthArray.getD []).min?).getD 0)

/-- How many candidates of each sequence of a group are considered. -/
def numConsidered (p : SelectorParams) (m : SamplingMetadata F G) (numColumns i : Nat) : Nat :=
  if masks p m then (numEos p + 1) * beamWidth m i else numColumns

/-- The candidates of a group, by row and column. -/
def candidates (p : SelectorParams) (m : SamplingMetadata F G) (numColumns i : Nat) :
    List (Nat × Nat) :=
  (List.range (groupWidth m i)).flatMap fun j =>
    (List.range (numConsidered p m numColumns i)).map fun col => (groupStart m i + j, col)

section Selects

variable [Field F]

def logprobAt (top : TopCandidates F) (c : Nat × Nat) : F :=
  (top.topLogprobs.getD c.1 []).getD c.2 0

/-- The score of a candidate. -/
def averageAt (m : SamplingMetadata F G) (top : TopCandidates F) (c : Nat × Nat) : F :=
  averageLogprob ((m.cumulativeLogprobs.getD []).getD c.1 0) ((m.outputLengths.getD []).getD c.1 0)
    (logprobAt top c)

variable [LinearOrder F]

/-- **The rows of a group**: its candidates that end the sequence, in any order, and the best of its
other candidates, in descending order. Each has its own score and parent. The beams have different
ids, of the group or reserved for it. -/
structure GroupRows (p : SelectorParams) (m : SamplingMetadata F G) (top : TopCandidates F)
    (numColumns i : Nat) (rows : OutputRows (WithBot F)) (eos beams : List (Nat × Nat))
    (ids : List Int) : Prop where
  eos_perm : eos.Perm ((candidates p m numColumns i).filter (endsSequence p top))
  beams_best : Best (averageAt m top) (beamWidth m i)
    ((candidates p m numColumns i).filter fun c => !endsSequence p top c) beams
  ids_length : ids.length = beamWidth m i
  ids_nodup : ids.Nodup
  ids_mem : ∀ id ∈ ids, id ∈ groupIds m i ++ reservedIds m i
  sequenceIds : rows.sequenceIds = List.replicate eos.length (-1) ++ ids
  parentSequenceIds : rows.parentSequenceIds =
    (eos ++ beams).map fun c => m.allSequenceIds.getD c.1 0
  tokenIds : rows.tokenIds = (eos ++ beams).map (tokenIdAt top)
  logprobs : rows.logprobs = (eos ++ beams).map fun c => ((logprobAt top c : F) : WithBot F)
  cumulativeLogprobs : rows.cumulativeLogprobs =
    (eos ++ beams).map fun c => ((averageAt m top c : F) : WithBot F)

def SelectsGroup (p : SelectorParams) (m : SamplingMetadata F G) (top : TopCandidates F)
    (numColumns : Nat) (out : SamplingOutput (WithBot F)) (i : Nat) : Prop :=
  ∃ interval eos beams ids, out.groupIndices[i]? = some interval ∧
    GroupRows p m top numColumns i (out.toOutputRows.slice interval.1 interval.2) eos beams ids

/-- The selector gives each group its rows. -/
def Selects (p : SelectorParams) (a : ArraySort (WithBot F)) (topk : Nat → TopCandidates F)
    (m : SamplingMetadata F G) : Prop :=
  ∃ numColumns out, maxNeededTokens p m = some numColumns ∧ select p a topk m = some out ∧
    out.groupIndices.length = m.batchSequenceIds.length ∧
    ∀ i < m.batchSequenceIds.length, SelectsGroup p m (topk numColumns) numColumns out i

/-- The largest log probabilities of the tokens, of `numColumns` different tokens for each
sequence. -/
structure TopCandidates.Lawful (top : TopCandidates F) (numSeqs numColumns : Nat) : Prop where
  logprobs_length : top.topLogprobs.length = numSeqs
  logprobs_width : ∀ row ∈ top.topLogprobs, row.length = numColumns
  logprobs_nonpos : ∀ row ∈ top.topLogprobs, ∀ x ∈ row, x ≤ 0
  tokenIds_length : top.topTokenIds.length = numSeqs
  tokenIds_width : ∀ row ∈ top.topTokenIds, row.length = numColumns
  tokenIds_nodup : ∀ row ∈ top.topTokenIds, row.Nodup
  tokenIds_nonneg : ∀ row ∈ top.topTokenIds, ∀ t ∈ row, 0 ≤ t

/-- What the selector is called with. The first groups are decoded and have a sequence for each of
their beams. The others are prefilled: they have one sequence, and reserved ids for the other
beams. -/
structure Batch (p : SelectorParams) (topk : Nat → TopCandidates F) (m : SamplingMetadata F G)
    (numDecode : Nat) : Prop where
  eos_ne_nil : p.eosTokenId ≠ []
  eos_nonneg : ∀ t ∈ p.eosTokenId, 0 ≤ t
  group_pos : ∀ i < m.batchSequenceIds.length, 0 < groupWidth m i
  batch_pos : 0 < m.batchSequenceIds.length
  allSequenceIds : m.allSequenceIds = m.batchSequenceIds.flatten
  ids_nodup : m.allSequenceIds.Nodup
  reserved_length : m.reservedSequenceIds.length = m.batchSequenceIds.length
  groupIndices : m.groupIndices = intervals 0 (m.batchSequenceIds.map List.length)
  beamWidths : ∃ beamWidths, m.beamWidthArray = some beamWidths ∧
    beamWidths.length = m.allSequenceIds.length ∧
    (∀ b ∈ beamWidths, 1 ≤ b ∧ b ≤ m.maxBeamWidth) ∧
    ∀ i < m.batchSequenceIds.length, ∀ j < groupWidth m i,
      beamWidths[groupStart m i + j]? = some (beamWidth m i : Int)
  outputLengths : ∃ outputLengths, m.outputLengths = some outputLengths ∧
    outputLengths.length = m.allSequenceIds.length ∧ ∀ n ∈ outputLengths, 0 ≤ n
  cumulativeLogprobs : ∃ cumulativeLogprobs, m.cumulativeLogprobs = some cumulativeLogprobs ∧
    cumulativeLogprobs.length = m.allSequenceIds.length ∧ ∀ x ∈ cumulativeLogprobs, x ≤ 0
  numTopTokens : ∀ numTopTokens ∈ m.numTopTokens,
    numTopTokens.length = m.allSequenceIds.length ∧ ∀ n ∈ numTopTokens, 0 ≤ n
  top : ∃ numColumns, maxNeededTokens p m = some numColumns ∧
    (topk numColumns).Lawful m.allSequenceIds.length numColumns
  numDecode_le : numDecode ≤ m.batchSequenceIds.length
  decode : ∀ i < numDecode, groupWidth m i = beamWidth m i
  prefill : ∀ i < m.batchSequenceIds.length, numDecode ≤ i → groupWidth m i = 1 ∧
    (reservedIds m i).length + 1 = beamWidth m i ∧ (groupIds m i ++ reservedIds m i).Nodup
  mode : if p.splitfuseEnabled then m.isSeqPrefill = some
      (List.replicate (groupStart m numDecode) false ++
        List.replicate (m.batchSequenceIds.length - numDecode) true)
    else if m.isPrefill then numDecode = 0
    else numDecode = m.batchSequenceIds.length ∧ true ∉ m.isSeqPrefill.getD []

end Selects

end BeamSearchTokenSelector

end MindieLLM
