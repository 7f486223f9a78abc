import MindieLLM.BlockManager.BlockObj
import MindieLLM.Program.FlatRows
import MindieLLM.Program.OptionLoops
import MindieLLM.TextGenerator.SlotContext
import Mathlib.Algebra.BigOperators.Group.List.Basic
import Mathlib.Data.List.GetD

/-!
# The input of a batch without the cached blocks

The keys and values of the first blocks of a prompt may be in the cache already. The tokens of these
blocks are taken out of the input of the batch, with their positions and slots: the tokens of all
sequences lie one behind the other in flat arrays, so those of the later sequences move up.

## Main definitions

* `updateInferInput`: the input without the cached blocks
* `Batch`: what the metadata and the input of a batch have in common
* `Trimmed`: each sequence has its last tokens, and points to the last of them

## Main results

* `run_inv`: the loop over the sequences fills the arrays row after row
* `trimmed_iff`: when each sequence has the tokens behind its cached blocks
-/

namespace MindieLLM

open Program

namespace PrefixCachePreprocess

/-- What the context store of a rank is configured with. The generator gives one block size to the
store and to the settings of the cache. -/
structure Store where
  spcpParallelInfo : SpCpParallelInfo
  numNpuBlocks : ℕ
  blockSize : ℕ

/-- A row of `kv_slots`. -/
def slotRow (blockSize : ℕ) (block : ℤ) : List ℤ :=
  (List.range blockSize).map fun i : ℕ => block * blockSize + i

/-- `kv_slots[block]`; a negative index counts from the end. -/
def Store.blockTableToSlots (store : Store) (block : BlockId) : Option (List ℤ) :=
  if 0 ≤ block ∧ block < store.numNpuBlocks then some (slotRow store.blockSize block)
  else if -store.numNpuBlocks ≤ block ∧ block < 0 then
    some (slotRow store.blockSize (store.numNpuBlocks + block))
  else none

/-- What the metadata of a batch say about one sequence. -/
structure SequenceMetadata where
  seqLen : ℕ
  isPrefill : Bool
  splitStartPosition : ℕ
  blockTable : List BlockId
  deriving Inhabited

/-- With chunked prefill (`splitfuse`) the metadata have `batch_is_prefill` and
`split_start_position`, and without it they have neither. A request may have several sequences, one
behind the other. Its cached blocks are a number for each rank, a single one without sequence
parallelism. -/
structure InputMetadata where
  isPrefill : Bool
  splitfuse : Bool
  totalSeqNum : ℕ
  batchSequenceIds : List (List SequenceId)
  sequences : List SequenceMetadata
  remoteComputedBlocks : Option (List (List ℤ))

structure ModelInput where
  inputIds : List ℤ
  positionIds : List ℤ
  slots : List ℤ
  prefillHeadIndices : List ℤ
  contextLength : List ℤ
  padTokenCount : Option (List ℤ)
  queryLength : Option (List ℤ) := none
  deriving DecidableEq

/-! ## The input without the cached blocks -/

def decodeLen (m : InputMetadata) : ℕ :=
  if m.splitfuse then (m.sequences.filter fun s => !s.isPrefill).length else 0

/-- The cached blocks of each sequence. -/
def computedBlocks (store : Store) (m : InputMetadata) (remote : List (List ℤ)) : List ℤ :=
  if 1 < store.spcpParallelInfo.scpSize then remote.map List.sum
  else (m.batchSequenceIds.zip remote).flatMap fun p => p.1.map fun _ => p.2.sum

/-- Whether the cached blocks are taken out: of a whole prompt, and of the first part of one. -/
def isFirst (m : InputMetadata) (s : SequenceMetadata) : Bool :=
  !m.splitfuse || s.splitStartPosition == 0

/-- The number of tokens that stay. One block less is taken out if none would be left. -/
def uncachedLen (store : Store) (m : InputMetadata) (s : SequenceMetadata) (computed : ℤ) : ℤ :=
  if isFirst m s then
    let seqLen := s.seqLen - computed * store.blockSize
    if seqLen ≤ 0 then seqLen + store.blockSize else seqLen
  else s.seqLen

def noCacheBlocks (store : Store) (m : InputMetadata) (s : SequenceMetadata) (computed : ℤ) :
    List BlockId :=
  if isFirst m s then
    if s.seqLen - computed * store.blockSize ≤ 0 then
      pySlice s.blockTable (computed - 1) s.blockTable.length
    else pySlice s.blockTable computed s.blockTable.length
  else s.blockTable

/-- `block_table_to_slots(block_table).reshape(-1)` -/
def tableSlots (store : Store) (blockTable : List BlockId) : Option (List ℤ) :=
  (blockTable.mapM store.blockTableToSlots).map List.flatten

/-- The slots of the tokens that stay. `slotsEndIdx` is where those of the sequence end in the
input. -/
def newSlotValues (store : Store) (m : InputMetadata) (slots : List ℤ) (s : SequenceMetadata)
    (computed slotsEndIdx : ℤ) : Option (List ℤ) :=
  let seqLen := uncachedLen store m s computed
  if m.splitfuse then
    (tableSlots store (noCacheBlocks store m s computed)).map fun row =>
      pySlice row s.splitStartPosition (s.splitStartPosition + seqLen)
  else if 1 < store.spcpParallelInfo.scpSize then
    some (pySlice slots (slotsEndIdx - seqLen) slotsEndIdx)
  else
    (tableSlots store (noCacheBlocks store m s computed)).map fun row => pySlice row 0 seqLen

/-- The variables of the loop over the sequences. -/
structure Loop where
  newTotalSeqNum : ℤ
  inputStartIdx : ℤ
  batchEndIdx : ℤ
  slotsStartIdx : ℤ
  newInputIds : List ℤ
  newPositionIds : List ℤ
  newSlots : List ℤ
  newPrefillHeadIndices : List ℤ
  qLens : List ℤ
  contextLength : List ℤ

/-- A sequence that is prefilled. -/
def step (store : Store) (m : InputMetadata) (computedBlocks : List ℤ) (inputs : ModelInput)
    (loop : Loop) (i : ℕ) : Option Loop := do
  let s ← m.sequences[i]?
  let computed ← computedBlocks[i]?
  let contextLength ← loop.contextLength[i]?
  let padTokenCount ← (match inputs.padTokenCount with
    | some pads => pads[i]?
    | none => some 0)
  let seqLen := uncachedLen store m s computed
  let batchEndIdx := loop.batchEndIdx + s.seqLen
  let newInputIds ← assignPySlice loop.newInputIds loop.inputStartIdx (loop.inputStartIdx + seqLen)
    (pySlice inputs.inputIds (batchEndIdx - seqLen) batchEndIdx)
  let newPositionIds ← assignPySlice loop.newPositionIds loop.inputStartIdx
    (loop.inputStartIdx + seqLen) (pySlice inputs.positionIds (batchEndIdx - seqLen) batchEndIdx)
  let values ← newSlotValues store m inputs.slots s computed (loop.slotsStartIdx + contextLength)
  let newSlots ← assignPySlice loop.newSlots loop.inputStartIdx (loop.inputStartIdx + seqLen) values
  some
    { newTotalSeqNum := loop.newTotalSeqNum + seqLen
      inputStartIdx := loop.inputStartIdx + seqLen
      batchEndIdx := batchEndIdx
      slotsStartIdx := loop.slotsStartIdx + contextLength
      newInputIds := newInputIds
      newPositionIds := newPositionIds
      newSlots := newSlots
      newPrefillHeadIndices := loop.newPrefillHeadIndices.set i
        (loop.newTotalSeqNum + seqLen - 1 - padTokenCount)
      qLens := loop.qLens.set i (seqLen / store.spcpParallelInfo.cpSize)
      contextLength :=
        if 1 < store.spcpParallelInfo.cpSize then
          loop.contextLength.set i (contextLength - computed * store.blockSize)
        else loop.contextLength }

/-- The variables before the loop: those of the decode rows are set. -/
def start (m : InputMetadata) (inputs : ModelInput) : Option Loop := do
  let zeros := List.replicate m.totalSeqNum 0
  let d : ℤ := decodeLen m
  let newInputIds ← assignPySlice zeros 0 d (pySlice inputs.inputIds 0 d)
  let newPositionIds ← assignPySlice zeros 0 d (pySlice inputs.positionIds 0 d)
  let newSlots ← assignPySlice zeros 0 d (pySlice inputs.slots 0 d)
  let qLens ← assignPySlice (List.replicate m.sequences.length 0) 0 d
    (List.replicate (decodeLen m) 1)
  some
    { newTotalSeqNum := d
      inputStartIdx := d
      batchEndIdx := d
      slotsStartIdx := d
      newInputIds := newInputIds
      newPositionIds := newPositionIds
      newSlots := newSlots
      newPrefillHeadIndices := (List.range m.sequences.length).map Int.ofNat
      qLens := qLens
      contextLength := inputs.contextLength }

/-- The input of a batch, less what is only there with several ranks. -/
def updateInferInput (store : Store) (inputs : ModelInput) (m : InputMetadata) :
    Option ModelInput :=
  match m.remoteComputedBlocks with
  | none => some inputs
  | some remote =>
    if m.isPrefill then do
      let loop ← start m inputs
      let loop ← (List.range' (decodeLen m) (m.sequences.length - decodeLen m)).foldlM
        (step store m (computedBlocks store m remote) inputs) loop
      some
        { inputIds := pySlice loop.newInputIds 0 loop.newTotalSeqNum
          positionIds := pySlice loop.newPositionIds 0 loop.newTotalSeqNum
          slots := pySlice loop.newSlots 0 loop.newTotalSeqNum
          prefillHeadIndices := loop.newPrefillHeadIndices
          contextLength := loop.contextLength
          padTokenCount := inputs.padTokenCount
          queryLength := some loop.qLens }
    else some inputs

/-! ## What the input is -/

def seqAt (m : InputMetadata) (i : ℕ) : SequenceMetadata := m.sequences.getD i default

def seqLenAt (m : InputMetadata) (i : ℕ) : ℕ := (seqAt m i).seqLen

/-- The request of each sequence. -/
def requestRows (m : InputMetadata) : List ℕ :=
  m.batchSequenceIds.zipIdx.flatMap fun p => p.1.map fun _ => p.2

/-- The cached blocks of the request that the sequence is of. -/
def computedAt (m : InputMetadata) (i : ℕ) : ℤ :=
  ((m.remoteComputedBlocks.getD []).getD ((requestRows m).getD i 0) []).sum

/-- A sequence is padded in front of context parallelism only. -/
def padAt (inputs : ModelInput) (i : ℕ) : ℤ := (inputs.padTokenCount.getD []).getD i 0

/-- Where the tokens of the input begin in the prompt. -/
def positionStart (m : InputMetadata) (i : ℕ) : ℕ :=
  if m.splitfuse then (seqAt m i).splitStartPosition else 0

/-- A row that is decoded is one without chunked prefill. -/
def isPrefillAt (m : InputMetadata) (i : ℕ) : Bool := !m.splitfuse || (seqAt m i).isPrefill

/-- The tokens of the input that are in cached blocks. -/
def cachedLen (store : Store) (m : InputMetadata) (i : ℕ) : ℤ :=
  if isPrefillAt m i && isFirst m (seqAt m i) then computedAt m i * store.blockSize else 0

/-- Whether the slots are made from the block table, and not taken from the input. -/
def UsesTable (store : Store) (m : InputMetadata) : Prop :=
  m.splitfuse = true ∨ store.spcpParallelInfo.scpSize ≤ 1

instance (store : Store) (m : InputMetadata) : Decidable (UsesTable store m) :=
  inferInstanceAs (Decidable (_ ∨ _))

/-- What the metadata and the input of a batch have in common. The rows that are decoded come first,
with a token each, and the block table has a block for every token. With sequence parallelism there
is one block table for each request. -/
structure Batch (store : Store) (m : InputMetadata) (inputs : ModelInput) : Prop where
  isPrefill : m.isPrefill = true
  blockSize_pos : 0 < store.blockSize
  remote : ∃ remote, m.remoteComputedBlocks = some remote ∧
    remote.length = m.batchSequenceIds.length ∧ ∀ r ∈ remote, 0 ≤ r.sum
  rows : (m.batchSequenceIds.map List.length).sum = m.sequences.length
  one_sequence : 1 < store.spcpParallelInfo.scpSize → ∀ ids ∈ m.batchSequenceIds, ids.length = 1
  seqLen_pos : ∀ s ∈ m.sequences, 0 < s.seqLen
  decode_first : ∀ i < m.sequences.length, isPrefillAt m i = decide (decodeLen m ≤ i)
  decode_one : ∀ i < decodeLen m, seqLenAt m i = 1
  totalSeqNum : m.totalSeqNum = sumTo (seqLenAt m) m.sequences.length
  inputIds : inputs.inputIds.length = m.totalSeqNum
  positionIds : inputs.positionIds.length = m.totalSeqNum
  slots : inputs.slots.length = m.totalSeqNum
  contextLength_length : inputs.contextLength.length = m.sequences.length
  contextLength : m.splitfuse = false → ∀ i < m.sequences.length,
    inputs.contextLength[i]? = some (seqLenAt m i : ℤ)
  padTokenCount : ∀ pads ∈ inputs.padTokenCount, m.splitfuse = false ∧
    pads.length = m.sequences.length ∧ ∀ p ∈ pads, 0 ≤ p
  blockTable : UsesTable store m → ∀ i < m.sequences.length, isPrefillAt m i →
    ∃ row, tableSlots store (seqAt m i).blockTable = some row ∧
      positionStart m i + seqLenAt m i ≤ row.length

/-- The last tokens of a sequence, in a flat array. -/
def lastTokens (m : InputMetadata) (kept : ℕ → ℕ) (xs : List ℤ) (i : ℕ) : List ℤ :=
  slice xs (sumTo (seqLenAt m) (i + 1) - kept i) (sumTo (seqLenAt m) (i + 1))

/-- **Each sequence has its last tokens**, those behind its cached blocks if these do not cover them
all, and points to the last of them in front of the padding. -/
structure Trimmed (store : Store) (m : InputMetadata) (inputs out : ModelInput) (kept : ℕ → ℕ) :
    Prop where
  kept_le : ∀ i < m.sequences.length, kept i ≤ seqLenAt m i
  kept_gt : ∀ i < m.sequences.length, padAt inputs i < kept i
  kept_eq : ∀ i < m.sequences.length, cachedLen store m i < seqLenAt m i →
    (kept i : ℤ) = seqLenAt m i - cachedLen store m i
  inputIds : out.inputIds =
    (List.range m.sequences.length).flatMap (lastTokens m kept inputs.inputIds)
  positionIds : out.positionIds =
    (List.range m.sequences.length).flatMap (lastTokens m kept inputs.positionIds)
  slots : out.slots = (List.range m.sequences.length).flatMap (lastTokens m kept inputs.slots)
  heads_length : out.prefillHeadIndices.length = m.sequences.length
  heads : ∀ i < m.sequences.length, out.prefillHeadIndices[i]? =
    some (sumTo kept (i + 1) - 1 - padAt inputs i : ℤ)

variable {store : Store} {m : InputMetadata} {inputs : ModelInput} {kept : ℕ → ℕ} {i : ℕ}

/-- The tokens that are taken out of a row: those in cached blocks, and one block less if these
cover the whole row. -/
def removedLen (store : Store) (m : InputMetadata) (i : ℕ) : ℤ :=
  if cachedLen store m i < seqLenAt m i then cachedLen store m i
  else cachedLen store m i - store.blockSize

/-- The tokens behind the cached blocks have the slots of the block table. -/
def SlotsOfTable (store : Store) (m : InputMetadata) (inputs : ModelInput) (i : ℕ) : Prop :=
  ∃ row, tableSlots store (seqAt m i).blockTable = some row ∧
    slice row (positionStart m i + (removedLen store m i).toNat)
        (positionStart m i + seqLenAt m i) =
      slice inputs.slots (sumTo (seqLenAt m) i + (removedLen store m i).toNat)
        (sumTo (seqLenAt m) (i + 1))

/-- The tokens that the code keeps of a row. -/
def keptLen (store : Store) (m : InputMetadata) (i : ℕ) : ℤ :=
  if isPrefillAt m i then uncachedLen store m (seqAt m i) (computedAt m i) else 1

/-- The slots that the code gives to the tokens. -/
def newSlotsAt (store : Store) (m : InputMetadata) (inputs : ModelInput) (kept : ℕ → ℕ) (i : ℕ) :
    List ℤ :=
  if UsesTable store m ∧ isPrefillAt m i then
    slice ((tableSlots store (seqAt m i).blockTable).getD [])
      (positionStart m i + seqLenAt m i - kept i) (positionStart m i + seqLenAt m i)
  else lastTokens m kept inputs.slots i

theorem seqAt_mem (hi : i < m.sequences.length) : seqAt m i ∈ m.sequences := by
  rw [seqAt, List.getD_eq_getElem _ _ hi]
  exact List.getElem_mem hi

theorem getElem?_sequences (hi : i < m.sequences.length) :
    m.sequences[i]? = some (seqAt m i) := by
  rw [seqAt, List.getD_eq_getElem _ _ hi, List.getElem?_eq_getElem hi]

namespace Batch

theorem decodeLen_le (m : InputMetadata) : decodeLen m ≤ m.sequences.length := by
  unfold decodeLen
  split
  · exact List.length_filter_le _ _
  · exact Nat.zero_le _

theorem isPrefillAt_iff (hb : Batch store m inputs) (hi : i < m.sequences.length) :
    isPrefillAt m i = true ↔ decodeLen m ≤ i := by
  rw [hb.decode_first i hi, decide_eq_true_iff]

theorem length_requestRows (hb : Batch store m inputs) :
    (requestRows m).length = m.sequences.length := by
  have hlengths : (m.batchSequenceIds.zipIdx.map fun p => p.1.length) =
      m.batchSequenceIds.map List.length := by
    change m.batchSequenceIds.zipIdx.map (List.length ∘ Prod.fst) = _
    rw [← List.map_map, List.zipIdx_map_fst]
  simp only [requestRows, List.length_flatMap, List.length_map, hlengths, hb.rows]

/-- The blocks of a sequence are those of its request. -/
theorem getElem?_computedBlocks (hb : Batch store m inputs) (hi : i < m.sequences.length) :
    ∃ remote, m.remoteComputedBlocks = some remote ∧
      (computedBlocks store m remote)[i]? = some (computedAt m i) := by
  obtain ⟨remote, hremote, hlen, -⟩ := hb.remote
  have hrow : i < (requestRows m).length := hb.length_requestRows ▸ hi
  have hcomputed : computedAt m i = (remote.getD (requestRows m)[i] []).sum := by
    rw [computedAt, hremote, Option.getD_some, List.getD_eq_getElem _ _ hrow]
  suffices hblocks : computedBlocks store m remote =
      (requestRows m).map fun r => (remote.getD r []).sum by
    refine ⟨remote, hremote, ?_⟩
    rw [hblocks, List.getElem?_map, List.getElem?_eq_getElem hrow, Option.map_some, hcomputed]
  rw [computedBlocks, requestRows, List.map_flatMap]
  split
  · next hscp =>
    -- A request has one row.
    have hone : (m.batchSequenceIds.zipIdx.flatMap fun p =>
        (p.1.map fun _ => p.2).map fun r => (remote.getD r []).sum) =
          m.batchSequenceIds.zipIdx.map fun p => (remote.getD p.2 []).sum := by
      rw [List.map_eq_flatMap]
      refine List.flatMap_congr fun p hp => ?_
      have hids := hb.one_sequence hscp p.1 (List.fst_mem_of_mem_zipIdx hp)
      obtain ⟨id, hid⟩ := List.length_eq_one_iff.mp hids
      rw [hid]
      rfl
    rw [hone]
    refine List.ext_getElem (by simp [hlen]) fun j hj hj' => ?_
    rw [List.length_map] at hj
    simp [hj]
  · have hzip : m.batchSequenceIds.zip remote =
        m.batchSequenceIds.zipIdx.map fun p => (p.1, remote.getD p.2 []) := by
      refine List.ext_getElem (by simp [hlen]) fun j hj hj' => ?_
      rw [List.length_zip] at hj
      have hj : j < remote.length := by omega
      simp [hj]
    rw [hzip, List.flatMap_map]
    refine List.flatMap_congr fun p _ => ?_
    rw [List.map_map]
    rfl

theorem computedAt_nonneg (hb : Batch store m inputs) (i : ℕ) : 0 ≤ computedAt m i := by
  obtain ⟨remote, hremote, -, hsum⟩ := hb.remote
  rw [computedAt, hremote, Option.getD_some, List.getD_eq_getElem?_getD]
  cases hr : remote[(requestRows m).getD i 0]? with
  | none => exact Int.le_refl 0
  | some r => exact hsum r (List.mem_of_getElem? hr)

theorem getElem?_padTokenCount (hb : Batch store m inputs) (hi : i < m.sequences.length) :
    (match inputs.padTokenCount with
      | some pads => pads[i]?
      | none => some 0) = some (padAt inputs i) := by
  cases hpads : inputs.padTokenCount with
  | none => simp [padAt, hpads]
  | some pads =>
    have hip : i < pads.length := (hb.padTokenCount pads hpads).2.1 ▸ hi
    simp only [padAt, hpads, Option.getD_some]
    rw [List.getD_eq_getElem _ _ hip, List.getElem?_eq_getElem hip]

theorem padAt_nonneg (hb : Batch store m inputs) (hi : i < m.sequences.length) :
    0 ≤ padAt inputs i := by
  cases hpads : inputs.padTokenCount with
  | none => simp [padAt, hpads]
  | some pads =>
    have hip : i < pads.length := (hb.padTokenCount pads hpads).2.1 ▸ hi
    rw [padAt, hpads, Option.getD_some, List.getD_eq_getElem _ _ hip]
    exact (hb.padTokenCount pads hpads).2.2 _ (List.getElem_mem hip)

theorem isPrefillAt_decode (hb : Batch store m inputs) (hi : i < decodeLen m) :
    isPrefillAt m i = false := by
  rw [hb.decode_first i (Nat.lt_of_lt_of_le hi (decodeLen_le m)), decide_eq_false_iff_not]
  omega

theorem padAt_decode (hb : Batch store m inputs) (hi : i < decodeLen m) : padAt inputs i = 0 := by
  cases hpads : inputs.padTokenCount with
  | none => simp [padAt, hpads]
  | some pads =>
    have hsplit := (hb.padTokenCount pads hpads).1
    rw [decodeLen, hsplit] at hi
    exact absurd hi (Nat.not_lt_zero i)

end Batch

/-! ## The heads of the sequences -/

/-- What a run makes of the heads, whether the arrays are filled rightly or not. -/
structure Heads (store : Store) (m : InputMetadata) (inputs : ModelInput) (loop : Loop) (i : ℕ) :
    Prop where
  newTotalSeqNum : loop.newTotalSeqNum = sumTo (keptLen store m) i
  heads_length : loop.newPrefillHeadIndices.length = m.sequences.length
  heads : ∀ j < i, loop.newPrefillHeadIndices[j]? =
    some (sumTo (keptLen store m) (j + 1) - 1 - padAt inputs j)

theorem heads_start {loop : Loop} (hb : Batch store m inputs) (h : start m inputs = some loop) :
    Heads store m inputs loop (decodeLen m) := by
  simp only [start, Option.bind_eq_bind, Option.bind_eq_some_iff, Option.some.injEq] at h
  obtain ⟨_, -, _, -, _, -, _, -, rfl⟩ := h
  have hsum : ∀ j ≤ decodeLen m, sumTo (keptLen store m) j = j := by
    intro j hj
    apply sumTo_eq_natCast
    intro k hk
    rw [keptLen, hb.isPrefillAt_decode (Nat.lt_of_lt_of_le hk hj)]
    rfl
  refine ⟨(hsum _ (Nat.le_refl _)).symm, by simp, fun j hj => ?_⟩
  have hlt := Nat.lt_of_lt_of_le hj (Batch.decodeLen_le m)
  rw [List.getElem?_map, List.getElem?_range hlt, hsum _ hj, hb.padAt_decode hj]
  simp

/-- A sequence more. -/
theorem heads_step {loop loop' : Loop} {remote : List (List ℤ)} (hb : Batch store m inputs)
    (hremote : m.remoteComputedBlocks = some remote) (hi : i < m.sequences.length)
    (hle : decodeLen m ≤ i) (h : Heads store m inputs loop i)
    (hstep : step store m (computedBlocks store m remote) inputs loop i = some loop') :
    Heads store m inputs loop' (i + 1) := by
  obtain ⟨remote', hremote', hcomputed⟩ := hb.getElem?_computedBlocks hi
  obtain rfl : remote' = remote := Option.some.inj (hremote'.symm.trans hremote)
  simp only [step, getElem?_sequences hi, hcomputed, hb.getElem?_padTokenCount hi,
    Option.bind_eq_bind, Option.bind_some, Option.bind_eq_some_iff, Option.some.injEq] at hstep
  obtain ⟨_, -, _, -, _, -, _, -, _, -, rfl⟩ := hstep
  have hkept : keptLen store m i = uncachedLen store m (seqAt m i) (computedAt m i) := by
    rw [keptLen, if_pos ((hb.isPrefillAt_iff hi).mpr hle)]
  have htotal : loop.newTotalSeqNum + uncachedLen store m (seqAt m i) (computedAt m i) =
      sumTo (keptLen store m) (i + 1) := by
    rw [sumTo_succ, ← h.newTotalSeqNum, hkept]
  refine ⟨htotal, by rw [List.length_set, h.heads_length], fun j hj => ?_⟩
  dsimp only
  rw [htotal]
  rcases Nat.lt_succ_iff_lt_or_eq.mp hj with hj | rfl
  · rw [List.getElem?_set_ne (by omega), h.heads j hj]
  · rw [List.getElem?_set_self (by rw [h.heads_length]; exact hi)]

/-! ## The slots of a sequence -/

theorem length_slotRow (size : ℕ) (block : ℤ) : (slotRow size block).length = size := by
  rw [slotRow, List.length_map, List.length_range]

theorem length_blockTableToSlots {block : BlockId} {row : List ℤ}
    (h : store.blockTableToSlots block = some row) : row.length = store.blockSize := by
  rw [Store.blockTableToSlots] at h
  split at h
  · rw [← Option.some.inj h, length_slotRow]
  · split at h
    · rw [← Option.some.inj h, length_slotRow]
    · cases h

/-- Each block has a slot for each of its tokens. -/
theorem map_length_rows {blockTable : List BlockId} {rows : List (List ℤ)}
    (h : blockTable.mapM store.blockTableToSlots = some rows) :
    rows.map List.length = List.replicate blockTable.length store.blockSize := by
  rw [mapM_eq_some_iff] at h
  rw [h.length_eq]
  refine List.eq_replicate_iff.mpr ⟨List.length_map _, ?_⟩
  intro n hn
  obtain ⟨r, hr, rfl⟩ := List.mem_map.mp hn
  obtain ⟨j, hj, rfl⟩ := List.getElem_of_mem hr
  exact length_blockTableToSlots (h.get (h.length_eq ▸ hj) hj)

/-- Without its first blocks, a block table has the slots of the blocks behind them. -/
theorem tableSlots_drop {blockTable : List BlockId} {row : List ℤ} {k : ℕ}
    (h : tableSlots store blockTable = some row) (hk : k ≤ blockTable.length) :
    tableSlots store (blockTable.drop k) = some (row.drop (k * store.blockSize)) := by
  obtain ⟨rows, hrows, rfl⟩ := Option.map_eq_some_iff.mp h
  have hlength := map_length_rows hrows
  rw [mapM_eq_some_iff] at hrows
  rw [tableSlots, mapM_eq_some_iff.mpr (List.forall₂_drop k hrows), Option.map_some,
    ← List.drop_sum_flatten, hlength, List.take_replicate, Nat.min_eq_left hk,
    List.sum_replicate_nat]

theorem length_tableSlots {blockTable : List BlockId} {row : List ℤ}
    (h : tableSlots store blockTable = some row) :
    row.length = blockTable.length * store.blockSize := by
  obtain ⟨rows, hrows, rfl⟩ := Option.map_eq_some_iff.mp h
  rw [List.length_flatten, map_length_rows hrows, List.sum_replicate_nat]

theorem pySlice_zero_length (l : List ℤ) : pySlice l 0 l.length = l := by
  rw [← Nat.cast_zero, pySlice_of_length_le (Nat.zero_le _) (Nat.le_refl _), List.drop_zero]

theorem positionStart_of_isFirst (h : isFirst m (seqAt m i) = true) : positionStart m i = 0 := by
  rw [positionStart]
  split
  · rename_i hsplit
    rw [isFirst, hsplit, Bool.not_true, Bool.false_or] at h
    exact eq_of_beq h
  · rfl

/-- The blocks that are left are those behind the tokens that are taken out. -/
theorem noCacheBlocks_eq (hb : Batch store m inputs) (hi : i < m.sequences.length)
    (hprefill : isPrefillAt m i = true) :
    ∃ k : ℕ, removedLen store m i = k * store.blockSize ∧ (k = 0 ∨ positionStart m i = 0) ∧
      uncachedLen store m (seqAt m i) (computedAt m i) = seqLenAt m i - k * store.blockSize ∧
      noCacheBlocks store m (seqAt m i) (computedAt m i) =
        pySlice (seqAt m i).blockTable k (seqAt m i).blockTable.length := by
  have hpos : 0 < seqLenAt m i := hb.seqLen_pos _ (seqAt_mem hi)
  cases hfirst : isFirst m (seqAt m i) with
  | false =>
    have hcached : cachedLen store m i = 0 := by
      rw [cachedLen, hprefill, hfirst]
      rfl
    refine ⟨0, ?_, .inl rfl, ?_, ?_⟩
    · rw [removedLen, hcached, if_pos (by omega)]
      simp
    · simp [uncachedLen, hfirst, seqLenAt]
    · rw [noCacheBlocks, hfirst, Nat.cast_zero, pySlice_zero_length]
      rfl
  | true =>
    have hcached : cachedLen store m i = computedAt m i * store.blockSize := by
      rw [cachedLen, hprefill, hfirst]
      rfl
    obtain ⟨c, hc⟩ := Int.eq_ofNat_of_zero_le (hb.computedAt_nonneg i)
    rw [hc] at hcached
    have hzero := positionStart_of_isFirst hfirst
    by_cases hall : (seqLenAt m i : ℤ) - c * store.blockSize ≤ 0
    · -- The cached blocks cover the whole row: the last of them is not used.
      obtain ⟨k, rfl⟩ : ∃ k, c = k + 1 := by
        refine Nat.exists_eq_add_one.mpr (Nat.pos_of_ne_zero ?_)
        rintro rfl
        rw [Nat.cast_zero, Int.zero_mul] at hall
        omega
      refine ⟨k, ?_, .inr hzero, ?_, ?_⟩
      · rw [removedLen, hcached, if_neg (by omega), Nat.cast_add, Int.add_mul]
        omega
      · rw [uncachedLen, hfirst, if_pos rfl, hc, ← seqLenAt]
        dsimp only
        rw [if_pos hall, Nat.cast_add, Int.add_mul]
        omega
      · rw [noCacheBlocks, hfirst, if_pos rfl, hc, ← seqLenAt, if_pos hall, Nat.cast_add,
          Nat.cast_one, Int.add_sub_cancel]
    · refine ⟨c, ?_, .inr hzero, ?_, ?_⟩
      · rw [removedLen, hcached, if_pos (by omega)]
      · rw [uncachedLen, hfirst, if_pos rfl, hc, ← seqLenAt]
        dsimp only
        rw [if_neg hall]
      · rw [noCacheBlocks, hfirst, if_pos rfl, hc, ← seqLenAt, if_neg hall]

theorem keptLen_eq (hb : Batch store m inputs) (hi : i < m.sequences.length) :
    keptLen store m i = seqLenAt m i - removedLen store m i ∧ 0 ≤ removedLen store m i := by
  cases hprefill : isPrefillAt m i with
  | true =>
    obtain ⟨k, hremoved, -, hlen, -⟩ := noCacheBlocks_eq hb hi hprefill
    rw [keptLen, if_pos hprefill, hlen, hremoved]
    exact ⟨rfl, Int.mul_nonneg (Int.natCast_nonneg k) (Int.natCast_nonneg _)⟩
  | false =>
    have hdecode : i < decodeLen m := by
      rw [hb.decode_first i hi, decide_eq_false_iff_not] at hprefill
      omega
    have hone := hb.decode_one i hdecode
    have hremoved : removedLen store m i = 0 := by
      rw [removedLen, cachedLen, hprefill, hone]
      rfl
    rw [keptLen, hprefill, hremoved, hone]
    exact ⟨rfl, Int.le_refl _⟩

/-- The numbers of tokens that the code keeps, where it keeps some of each row. -/
structure Keeps (store : Store) (m : InputMetadata) (kept : ℕ → ℕ) : Prop where
  eq : ∀ i < m.sequences.length, (kept i : ℤ) = keptLen store m i
  pos : ∀ i < m.sequences.length, 0 < kept i

theorem Keeps.add_removedLen (hb : Batch store m inputs) (h : Keeps store m kept)
    (hi : i < m.sequences.length) :
    kept i + (removedLen store m i).toNat = seqLenAt m i := by
  obtain ⟨hlen, hnonneg⟩ := keptLen_eq hb hi
  have heq := h.eq i hi
  omega

theorem pySlice_drop {row : List ℤ} {p k n c : ℕ} (hsum : c + k = n) (hle : p + n ≤ row.length) :
    pySlice (row.drop k) p (p + c : ℤ) = slice row (p + n - c) (p + n) := by
  have hlast : ((p : ℤ) + c) = (p + c : ℕ) := rfl
  have hfirst : k + p = p + n - c := by omega
  have hlen : p + n - (p + n - c) = c := by omega
  rw [hlast, pySlice_eq (Nat.le_add_right p c) (by rw [List.length_drop]; omega), slice, slice,
    List.drop_drop, hfirst, hlen, Nat.add_sub_cancel_left]

/-- **The slots of a sequence**, from its block table or from those of the input. -/
theorem newSlotValues_eq (hb : Batch store m inputs) (h : Keeps store m kept)
    (hi : i < m.sequences.length) (hprefill : isPrefillAt m i = true) {slotsEndIdx : ℤ}
    (hend : m.splitfuse = false → slotsEndIdx = sumTo (seqLenAt m) (i + 1)) :
    newSlotValues store m inputs.slots (seqAt m i) (computedAt m i) slotsEndIdx =
      some (newSlotsAt store m inputs kept i) := by
  obtain ⟨k, hremoved, hstart, hlen, hblocks⟩ := noCacheBlocks_eq hb hi hprefill
  have hkept : uncachedLen store m (seqAt m i) (computedAt m i) = kept i := by
    rw [h.eq i hi, keptLen, if_pos hprefill]
  have hsum := h.add_removedLen hb hi
  have hk : (removedLen store m i).toNat = k * store.blockSize := by
    rw [hremoved]
    exact Int.toNat_natCast _
  rw [newSlotValues, hkept]
  by_cases htable : UsesTable store m
  · obtain ⟨row, hrow, hle⟩ := hb.blockTable htable i hi hprefill
    have hrowlen := length_tableSlots hrow
    have hpos := h.pos i hi
    have hkle : k ≤ (seqAt m i).blockTable.length := by
      refine Nat.le_of_mul_le_mul_right ?_ hb.blockSize_pos
      omega
    have hnew : newSlotsAt store m inputs kept i =
        slice row (positionStart m i + seqLenAt m i - kept i)
          (positionStart m i + seqLenAt m i) := by
      rw [newSlotsAt, if_pos ⟨htable, hprefill⟩, hrow, Option.getD_some]
    rw [hnew, hblocks, pySlice_of_length_le hkle (Nat.le_refl _), tableSlots_drop hrow hkle]
    rw [hk, Nat.add_comm] at hsum
    cases hsplit : m.splitfuse with
    | true =>
      have hfirst : ((seqAt m i).splitStartPosition : ℤ) = positionStart m i := by
        rw [positionStart, if_pos hsplit]
      rw [if_pos rfl, Option.map_some, hfirst, pySlice_drop (by omega) hle]
    | false =>
      have hfirst : positionStart m i = 0 := by
        rw [positionStart, hsplit]
        rfl
      have hscp : ¬ 1 < store.spcpParallelInfo.scpSize := by
        rcases htable with hsplit' | hscp
        · rw [hsplit] at hsplit'
          cases hsplit'
        · exact Nat.not_lt.mpr hscp
      rw [hfirst] at hle ⊢
      have hslice := @pySlice_drop row 0 (k * store.blockSize) (seqLenAt m i) (kept i)
        (by omega) hle
      rw [Nat.cast_zero, Int.zero_add] at hslice
      rw [if_neg Bool.false_ne_true, if_neg hscp, Option.map_some, hslice]
  · have hsplit : m.splitfuse = false := by
      rw [← Bool.not_eq_true]
      exact fun hsplit => htable (.inl hsplit)
    have hscp : 1 < store.spcpParallelInfo.scpSize := Nat.lt_of_not_le fun hle => htable (.inr hle)
    have hnot : ¬ (UsesTable store m ∧ isPrefillAt m i = true) := fun hand => htable hand.1
    have hlast : sumTo (seqLenAt m) (i + 1) ≤ _ := sumTo_le (seqLenAt m) (Nat.succ_le_of_lt hi)
    have hslots := hb.slots
    rw [hb.totalSeqNum] at hslots
    have hsucc := sumTo_succ (seqLenAt m) i
    rw [newSlotsAt, if_neg hnot, hsplit, hend hsplit, lastTokens]
    rw [if_neg Bool.false_ne_true, if_pos hscp, ← Nat.cast_sub (by omega),
      pySlice_eq (Nat.sub_le _ _) (by omega)]

/-! ## The loop over the sequences -/

theorem length_lastTokens {xs : List ℤ} (hxs : xs.length = sumTo (seqLenAt m) m.sequences.length)
    (hi : i < m.sequences.length) (hle : kept i ≤ seqLenAt m i) :
    (lastTokens m kept xs i).length = kept i := by
  have hlast : sumTo (seqLenAt m) (i + 1) ≤ xs.length := by
    rw [hxs]
    exact sumTo_le _ hi
  have hsucc := sumTo_succ (seqLenAt m) i
  rw [lastTokens, length_slice hlast]
  omega

theorem length_newSlotsAt (hb : Batch store m inputs) (h : Keeps store m kept)
    (hi : i < m.sequences.length) : (newSlotsAt store m inputs kept i).length = kept i := by
  have hsum := h.add_removedLen hb hi
  rw [newSlotsAt]
  split
  · rename_i htable
    obtain ⟨row, hrow, hle⟩ := hb.blockTable htable.1 i hi htable.2
    rw [hrow, Option.getD_some, length_slice hle]
    omega
  · exact length_lastTokens (hb.slots.trans hb.totalSeqNum) hi (by omega)

/-- What the arrays hold in front of a sequence. -/
structure Inv (store : Store) (m : InputMetadata) (inputs : ModelInput) (kept : ℕ → ℕ)
    (loop : Loop) (i : ℕ) : Prop where
  heads : Heads store m inputs loop i
  inputStartIdx : loop.inputStartIdx = sumTo kept i
  batchEndIdx : loop.batchEndIdx = sumTo (seqLenAt m) i
  slotsStartIdx : m.splitfuse = false → loop.slotsStartIdx = sumTo (seqLenAt m) i
  newInputIds : Filled (lastTokens m kept inputs.inputIds) m.totalSeqNum i loop.newInputIds
  newPositionIds :
    Filled (lastTokens m kept inputs.positionIds) m.totalSeqNum i loop.newPositionIds
  newSlots : Filled (newSlotsAt store m inputs kept) m.totalSeqNum i loop.newSlots
  contextLength : ∀ j, i ≤ j → loop.contextLength[j]? = inputs.contextLength[j]?

/-- The rows that are decoded are taken over as they are. -/
theorem filled_decode (hb : Batch store m inputs) (h : Keeps store m kept) {xs : List ℤ}
    (hxs : xs.length = m.totalSeqNum) :
    ∃ l, assignPySlice (List.replicate m.totalSeqNum 0) 0 (decodeLen m)
        (pySlice xs 0 (decodeLen m)) = some l ∧
      Filled (lastTokens m kept xs) m.totalSeqNum (decodeLen m) l := by
  have hle := Batch.decodeLen_le m
  have hone : sumTo (seqLenAt m) (decodeLen m) = decodeLen m := sumTo_eq_natCast hb.decode_one
  have htotal : decodeLen m ≤ m.totalSeqNum := by
    rw [hb.totalSeqNum, ← hone]
    exact sumTo_le _ hle
  have htake : pySlice xs 0 (decodeLen m) = xs.take (decodeLen m) := by
    rw [← Nat.cast_zero, pySlice_eq (Nat.zero_le _) (by omega)]
    rfl
  have hlength : (xs.take (decodeLen m)).length = decodeLen m := List.length_take_of_le (by omega)
  have hrows : (List.range (decodeLen m)).flatMap (lastTokens m kept xs) =
      xs.take (decodeLen m) := by
    conv_rhs => rw [← hone, ← flatMap_range_slice]
    refine List.flatMap_congr fun j hj => ?_
    have hj := List.mem_range.mp hj
    have hkept := h.eq j (Nat.lt_of_lt_of_le hj hle)
    have hdecode := hb.isPrefillAt_decode hj
    rw [keptLen, hdecode, if_neg Bool.false_ne_true] at hkept
    have hkept : kept j = seqLenAt m j := by
      rw [hb.decode_one j hj]
      exact_mod_cast hkept
    rw [lastTokens, hkept, sumTo_succ, Nat.add_sub_cancel_right]
  have happend := @assignPySlice_append ℤ [] (List.replicate m.totalSeqNum 0)
    (xs.take (decodeLen m)) 0 (decodeLen m) rfl (by rw [hlength, Int.zero_add])
    (by rw [hlength, List.length_replicate]; exact htotal)
  rw [List.nil_append, List.nil_append] at happend
  refine ⟨_, by rw [htake]; exact happend, ?_, ?_⟩
  · rw [List.length_append, List.length_drop, List.length_replicate, hlength]
    omega
  · rw [hrows]
    exact List.prefix_append _ _

theorem start_inv (hb : Batch store m inputs) (h : Keeps store m kept) :
    ∃ loop, start m inputs = some loop ∧ Inv store m inputs kept loop (decodeLen m) := by
  have hle := Batch.decodeLen_le m
  have hones : sumTo kept (decodeLen m) = decodeLen m := by
    refine sumTo_eq_natCast fun j hj => ?_
    have hkept := h.eq j (Nat.lt_of_lt_of_le hj hle)
    rw [keptLen, hb.isPrefillAt_decode hj, if_neg Bool.false_ne_true] at hkept
    exact_mod_cast hkept
  have hlens : sumTo (seqLenAt m) (decodeLen m) = decodeLen m := sumTo_eq_natCast hb.decode_one
  obtain ⟨ids, hids, hfilledIds⟩ := filled_decode hb h hb.inputIds
  obtain ⟨positions, hpositions, hfilledPositions⟩ := filled_decode hb h hb.positionIds
  obtain ⟨slots, hslots, hfilledSlots⟩ := filled_decode hb h hb.slots
  have hq := @assignPySlice_append ℤ [] (List.replicate m.sequences.length 0)
    (List.replicate (decodeLen m) 1) 0 (decodeLen m) rfl (by simp) (by simpa using hle)
  rw [List.nil_append] at hq
  have hstart : ∃ loop, start m inputs = some loop ∧ loop.inputStartIdx = decodeLen m ∧
      loop.batchEndIdx = decodeLen m ∧ loop.slotsStartIdx = decodeLen m ∧
      loop.newInputIds = ids ∧ loop.newPositionIds = positions ∧ loop.newSlots = slots ∧
      loop.contextLength = inputs.contextLength := by
    simp only [start, hids, hpositions, hslots, hq, Option.bind_eq_bind, Option.bind_some]
    exact ⟨_, rfl, rfl, rfl, rfl, rfl, rfl, rfl, rfl⟩
  obtain ⟨loop, hloop, hinput, hbatch, hslotsStart, rfl, rfl, rfl, hctx⟩ := hstart
  refine ⟨loop, hloop, heads_start hb hloop, ?_, ?_, fun _ => ?_, hfilledIds, hfilledPositions,
    hfilledSlots.congr fun j hj => ?_, fun j _ => by rw [hctx]⟩
  · rw [hinput, hones]
  · rw [hbatch, hlens]
  · rw [hslotsStart, hlens]
  · have hnot : ¬ (UsesTable store m ∧ isPrefillAt m j = true) := by
      rw [hb.isPrefillAt_decode hj]
      exact fun hand => Bool.false_ne_true hand.2
    rw [newSlotsAt, if_neg hnot]

/-- A sequence more. -/
theorem step_inv {remote : List (List ℤ)} {loop : Loop} (hb : Batch store m inputs)
    (hremote : m.remoteComputedBlocks = some remote) (h : Keeps store m kept)
    (hi : i < m.sequences.length) (hle : decodeLen m ≤ i) (hinv : Inv store m inputs kept loop i) :
    ∃ loop', step store m (computedBlocks store m remote) inputs loop i = some loop' ∧
      Inv store m inputs kept loop' (i + 1) := by
  obtain ⟨remote', hremote', hcomputed⟩ := hb.getElem?_computedBlocks hi
  obtain rfl : remote' = remote := Option.some.inj (hremote'.symm.trans hremote)
  have hprefill := (hb.isPrefillAt_iff hi).mpr hle
  have hic : i < inputs.contextLength.length := by
    rw [hb.contextLength_length]
    exact hi
  have hctx := hinv.contextLength i (Nat.le_refl i)
  rw [List.getElem?_eq_getElem hic] at hctx
  have hkept : uncachedLen store m (seqAt m i) (computedAt m i) = kept i := by
    rw [h.eq i hi, keptLen, if_pos hprefill]
  have hkeptle : ∀ j < i + 1, kept j ≤ seqLenAt m j := fun j hj => by
    have hsum := h.add_removedLen hb (Nat.lt_of_lt_of_le hj hi)
    omega
  have htotal : sumTo kept (i + 1) ≤ m.totalSeqNum := by
    rw [hb.totalSeqNum]
    exact (sumTo_mono hkeptle).trans (sumTo_le _ hi)
  have hsucc := sumTo_succ (seqLenAt m) i
  have hlast : sumTo (seqLenAt m) (i + 1) ≤ m.totalSeqNum := by
    rw [hb.totalSeqNum]
    exact sumTo_le _ hi
  have hend : loop.batchEndIdx + (seqAt m i).seqLen = (sumTo (seqLenAt m) (i + 1) : ℕ) := by
    rw [hinv.batchEndIdx, hsucc]
    rfl
  -- The tokens and positions of the sequence.
  have hvalues : ∀ xs : List ℤ, xs.length = m.totalSeqNum →
      pySlice xs ((sumTo (seqLenAt m) (i + 1) : ℕ) - kept i) (sumTo (seqLenAt m) (i + 1) : ℕ) =
        lastTokens m kept xs i := fun xs hxs => by
    have hle := hkeptle i (Nat.lt_succ_self i)
    rw [← Nat.cast_sub (by omega), pySlice_eq (Nat.sub_le _ _) (by omega), lastTokens]
  have hlength : ∀ xs : List ℤ, xs.length = m.totalSeqNum → ∀ j < i + 1,
      (lastTokens m kept xs j).length = kept j := fun xs hxs j hj =>
    length_lastTokens (hxs.trans hb.totalSeqNum) (Nat.lt_of_lt_of_le hj hi) (hkeptle j hj)
  obtain ⟨ids, hids, hfilledIds⟩ := hinv.newInputIds.assign (hlength _ hb.inputIds) htotal
    hinv.inputStartIdx rfl
  obtain ⟨positions, hpositions, hfilledPositions⟩ := hinv.newPositionIds.assign
    (hlength _ hb.positionIds) htotal hinv.inputStartIdx rfl
  obtain ⟨slots, hslots, hfilledSlots⟩ := hinv.newSlots.assign
    (fun j hj => length_newSlotsAt hb h (Nat.lt_of_lt_of_le hj hi)) htotal hinv.inputStartIdx rfl
  have hslotsEnd : m.splitfuse = false →
      loop.slotsStartIdx + inputs.contextLength[i] = sumTo (seqLenAt m) (i + 1) := fun hsplit => by
    have hlen := hb.contextLength hsplit i hi
    rw [List.getElem?_eq_getElem hic] at hlen
    rw [Option.some.inj hlen, hinv.slotsStartIdx hsplit, hsucc]
    rfl
  have hnewSlots := newSlotValues_eq hb h hi hprefill hslotsEnd
  have hstep : ∃ loop', step store m (computedBlocks store m remote') inputs loop i = some loop' ∧
      loop'.inputStartIdx = loop.inputStartIdx + kept i ∧
      loop'.batchEndIdx = (sumTo (seqLenAt m) (i + 1) : ℕ) ∧
      loop'.slotsStartIdx = loop.slotsStartIdx + inputs.contextLength[i] ∧
      loop'.newInputIds = ids ∧ loop'.newPositionIds = positions ∧ loop'.newSlots = slots ∧
      ∀ j, i + 1 ≤ j → loop'.contextLength[j]? = loop.contextLength[j]? := by
    simp only [step, getElem?_sequences hi, hcomputed, hctx, hb.getElem?_padTokenCount hi,
      Option.bind_eq_bind, Option.bind_some, hend, hkept, hvalues _ hb.inputIds,
      hvalues _ hb.positionIds, hids, hpositions, hnewSlots, hslots]
    refine ⟨_, rfl, rfl, rfl, rfl, rfl, rfl, rfl, fun j hj => ?_⟩
    dsimp only
    split
    · exact List.getElem?_set_ne (by omega)
    · rfl
  obtain ⟨loop', hloop', hinput, hbatch, hslotsStart, rfl, rfl, rfl, hrest⟩ := hstep
  refine ⟨loop', hloop', heads_step hb hremote hi hle hinv.heads hloop', ?_, hbatch,
    fun hsplit => ?_, hfilledIds, hfilledPositions, hfilledSlots, fun j hj => ?_⟩
  · rw [hinput, hinv.inputStartIdx, sumTo_succ, Nat.cast_add]
  · rw [hslotsStart, hslotsEnd hsplit]
  · rw [hrest j hj, hinv.contextLength j (Nat.le_of_succ_le hj)]

/-- What a run makes of the heads. -/
theorem heads_run {remote : List (List ℤ)} {out : ModelInput} (hb : Batch store m inputs)
    (hremote : m.remoteComputedBlocks = some remote)
    (h : updateInferInput store inputs m = some out) :
    ∀ i < m.sequences.length, out.prefillHeadIndices[i]? =
      some (sumTo (keptLen store m) (i + 1) - 1 - padAt inputs i) := by
  simp only [updateInferInput, hremote, hb.isPrefill, if_true, Option.bind_eq_bind,
    Option.bind_eq_some_iff, Option.some.injEq] at h
  obtain ⟨loop₀, hstart, loop, hrun, rfl⟩ := h
  have hle := Batch.decodeLen_le m
  have hheads : Heads store m inputs loop
      (decodeLen m + (m.sequences.length - decodeLen m)) := by
    refine foldlM_range'_keeps (I := fun i loop => Heads store m inputs loop i)
      (heads_start hb hstart) ?_ hrun
    intro i s s' hlo hhi hs hstep
    exact heads_step hb hremote (by omega) hlo hs hstep
  rw [Nat.add_sub_cancel' hle] at hheads
  exact hheads.heads

/-- **The loop over the sequences** fills the arrays row after row. -/
theorem run_inv (hb : Batch store m inputs) (h : Keeps store m kept) :
    ∃ out, updateInferInput store inputs m = some out ∧
      out.inputIds =
        (List.range m.sequences.length).flatMap (lastTokens m kept inputs.inputIds) ∧
      out.positionIds =
        (List.range m.sequences.length).flatMap (lastTokens m kept inputs.positionIds) ∧
      out.slots = (List.range m.sequences.length).flatMap (newSlotsAt store m inputs kept) ∧
      out.prefillHeadIndices.length = m.sequences.length := by
  obtain ⟨remote, hremote, -⟩ := hb.remote
  have hle := Batch.decodeLen_le m
  obtain ⟨loop₀, hstart, hinv₀⟩ := start_inv hb h
  have hloop := @foldlM_range'_some _ (step store m (computedBlocks store m remote) inputs)
    (fun i loop => Inv store m inputs kept loop i) (decodeLen m)
    (m.sequences.length - decodeLen m) loop₀ hinv₀ fun i loop hlo hhi hinv =>
      step_inv hb hremote h (by omega) hlo hinv
  rw [Nat.add_sub_cancel' hle] at hloop
  obtain ⟨loop, hrun, hinv⟩ := hloop
  have hkeptle : ∀ j < m.sequences.length, kept j ≤ seqLenAt m j := fun j hj => by
    have hsum := h.add_removedLen hb hj
    omega
  have htotal : loop.newTotalSeqNum = sumTo kept m.sequences.length := by
    rw [hinv.heads.newTotalSeqNum]
    exact sumTo_of_natCast h.eq
  have hlength : ∀ xs : List ℤ, xs.length = m.totalSeqNum → ∀ j < m.sequences.length,
      (lastTokens m kept xs j).length = kept j := fun xs hxs j hj =>
    length_lastTokens (hxs.trans hb.totalSeqNum) hj (hkeptle j hj)
  have hout : ∃ out, updateInferInput store inputs m = some out ∧
      out.inputIds = pySlice loop.newInputIds 0 loop.newTotalSeqNum ∧
      out.positionIds = pySlice loop.newPositionIds 0 loop.newTotalSeqNum ∧
      out.slots = pySlice loop.newSlots 0 loop.newTotalSeqNum ∧
      out.prefillHeadIndices = loop.newPrefillHeadIndices := by
    simp only [updateInferInput, hremote, hb.isPrefill, if_true, hstart, hrun,
      Option.bind_eq_bind, Option.bind_some]
    exact ⟨_, rfl, rfl, rfl, rfl, rfl⟩
  obtain ⟨out, hrun, hids, hpositions, hslots, hheads⟩ := hout
  refine ⟨out, hrun, ?_, ?_, ?_, ?_⟩
  · rw [hids, hinv.newInputIds.pySlice (hlength _ hb.inputIds) htotal]
  · rw [hpositions, hinv.newPositionIds.pySlice (hlength _ hb.positionIds) htotal]
  · rw [hslots, hinv.newSlots.pySlice (fun j hj => length_newSlotsAt hb h hj) htotal]
  · rw [hheads, hinv.heads.heads_length]

/-! ## When each sequence has its last tokens -/

theorem slotsOfTable_iff (hb : Batch store m inputs) (h : Keeps store m kept)
    (hi : i < m.sequences.length) (htable : UsesTable store m) (hprefill : isPrefillAt m i = true) :
    SlotsOfTable store m inputs i ↔
      newSlotsAt store m inputs kept i = lastTokens m kept inputs.slots i := by
  obtain ⟨row, hrow, -⟩ := hb.blockTable htable i hi hprefill
  have hsum := h.add_removedLen hb hi
  have hstart : positionStart m i + seqLenAt m i - kept i =
      positionStart m i + (removedLen store m i).toNat := by omega
  have hflat : sumTo (seqLenAt m) (i + 1) - kept i =
      sumTo (seqLenAt m) i + (removedLen store m i).toNat := by
    rw [sumTo_succ]
    omega
  rw [newSlotsAt, if_pos ⟨htable, hprefill⟩, lastTokens, hrow, Option.getD_some, hstart, hflat]
  constructor
  · rintro ⟨row', hrow', heq⟩
    obtain rfl : row = row' := Option.some.inj (hrow.symm.trans hrow')
    exact heq
  · exact fun heq => ⟨row, hrow, heq⟩

/-- **A sequence has its last tokens**, with their positions and slots, exactly if a token is left
behind its cached blocks and its padding, and its slots in the input are those of its block table
where the slots are made from it. -/
theorem trimmed_iff (hb : Batch store m inputs) :
    (∃ out kept, updateInferInput store inputs m = some out ∧
        Trimmed store m inputs out kept) ↔
      ∀ i < m.sequences.length, isPrefillAt m i = true →
        removedLen store m i + padAt inputs i < seqLenAt m i ∧
          (UsesTable store m → SlotsOfTable store m inputs i) := by
  obtain ⟨remote, hremote, -⟩ := hb.remote
  constructor
  · rintro ⟨out, kept, hrun, ht⟩
    have hsums : ∀ i < m.sequences.length,
        sumTo (keptLen store m) (i + 1) = (sumTo kept (i + 1) : ℕ) := by
      intro i hi
      have hhead := (heads_run hb hremote hrun i hi).symm.trans (ht.heads i hi)
      have hhead := Option.some.inj hhead
      omega
    have hkeeps : Keeps store m kept := by
      refine ⟨natCast_of_sumTo hsums, fun i hi => ?_⟩
      have hpad := hb.padAt_nonneg hi
      have hgt := ht.kept_gt i hi
      omega
    obtain ⟨out', hrun', -, -, hslots, -⟩ := run_inv hb hkeeps
    obtain rfl : out = out' := Option.some.inj (hrun.symm.trans hrun')
    have hlast : ∀ j < m.sequences.length,
        (lastTokens m kept inputs.slots j).length = kept j := fun j hj =>
      length_lastTokens (hb.slots.trans hb.totalSeqNum) hj (ht.kept_le j hj)
    have hrows := flatMap_range_inj
      (fun j hj => (length_newSlotsAt hb hkeeps hj).trans (hlast j hj).symm)
      (hslots.symm.trans ht.slots)
    intro i hi hprefill
    refine ⟨?_, fun htable => (slotsOfTable_iff hb hkeeps hi htable hprefill).mpr (hrows i hi)⟩
    have hgt := ht.kept_gt i hi
    have hsum := hkeeps.add_removedLen hb hi
    have hnonneg := (keptLen_eq hb hi).2
    omega
  · intro h
    have hgt : ∀ i < m.sequences.length, padAt inputs i < keptLen store m i := by
      intro i hi
      cases hprefill : isPrefillAt m i with
      | true =>
        have hlt := (h i hi hprefill).1
        rw [(keptLen_eq hb hi).1]
        omega
      | false =>
        have hdecode : i < decodeLen m := by
          rw [← Bool.not_eq_true, hb.isPrefillAt_iff hi] at hprefill
          exact Nat.lt_of_not_le hprefill
        rw [keptLen, hprefill, hb.padAt_decode hdecode]
        exact Int.zero_lt_one
    have hkeeps : Keeps store m fun i => (keptLen store m i).toNat := by
      have hpos : ∀ i < m.sequences.length, 0 < keptLen store m i := fun i hi =>
        Int.lt_of_le_of_lt (hb.padAt_nonneg hi) (hgt i hi)
      refine ⟨fun i hi => Int.toNat_of_nonneg (Int.le_of_lt (hpos i hi)), fun i hi => ?_⟩
      have hlt := hpos i hi
      omega
    obtain ⟨out, hrun, hids, hpositions, hslots, hlength⟩ := run_inv hb hkeeps
    refine ⟨out, _, hrun, ?_, ?_, ?_, hids, hpositions, ?_, hlength, ?_⟩
    · intro i hi
      have hsum := hkeeps.add_removedLen hb hi
      omega
    · intro i hi
      rw [hkeeps.eq i hi]
      exact hgt i hi
    · intro i hi hcached
      rw [hkeeps.eq i hi, (keptLen_eq hb hi).1, removedLen, if_pos hcached]
    · rw [hslots]
      refine List.flatMap_congr fun i hi => ?_
      have hi := List.mem_range.mp hi
      by_cases hand : UsesTable store m ∧ isPrefillAt m i = true
      · exact (slotsOfTable_iff hb hkeeps hi hand.1 hand.2).mp ((h i hi hand.2).2 hand.1)
      · rw [newSlotsAt, if_neg hand]
    · intro i hi
      rw [heads_run hb hremote hrun i hi,
        sumTo_of_natCast fun j hj => hkeeps.eq j (Nat.lt_of_lt_of_le hj hi)]

/-! ## A mixed batch, and one with a simulate request -/

def tenBlocks : Store := ⟨{}, 10, 2⟩

/-- Two rows of a request that are decoded, a first part with a cached block and a second part. -/
def mixedBatch : InputMetadata where
  isPrefill := true
  splitfuse := true
  totalSeqNum := 7
  batchSequenceIds := [[1, 11], [2], [3]]
  sequences := [⟨1, false, 4, [0, 1, 2]⟩, ⟨1, false, 4, [0, 1, 7]⟩, ⟨3, true, 0, [3, 4]⟩,
    ⟨2, true, 2, [5, 6]⟩]
  remoteComputedBlocks := some [[0], [1], [1]]

def mixedInput : ModelInput where
  inputIds := [50, 51, 60, 61, 62, 70, 71]
  positionIds := [4, 4, 0, 1, 2, 2, 3]
  slots := [4, 14, 6, 7, 8, 12, 13]
  prefillHeadIndices := [0, 1, 4, 6]
  contextLength := [5, 5, 3, 4]
  padTokenCount := none

theorem batch_mixed : Batch tenBlocks mixedBatch mixedInput where
  isPrefill := rfl
  blockSize_pos := by decide
  remote := ⟨[[0], [1], [1]], rfl, rfl, by decide⟩
  rows := by decide
  one_sequence := by
    intro hscp
    exact absurd hscp (by decide)
  seqLen_pos := by decide
  decode_first := by decide
  decode_one := by decide
  totalSeqNum := by decide
  inputIds := rfl
  positionIds := rfl
  slots := rfl
  contextLength_length := rfl
  contextLength := by
    intro hsplit
    cases hsplit
  padTokenCount := by
    intro pads hpads
    cases hpads
  blockTable := by
    intro _ i hi hprefill
    match i, hi with
    | 0, _ | 1, _ => cases hprefill
    | 2, _ => exact ⟨[6, 7, 8, 9], by decide, by decide⟩
    | 3, _ => exact ⟨[10, 11, 12, 13], by decide, by decide⟩

theorem trimmed_mixed : ∃ out kept, updateInferInput tenBlocks mixedInput mixedBatch = some out ∧
    Trimmed tenBlocks mixedBatch mixedInput out kept := by
  refine (trimmed_iff batch_mixed).mpr fun i hi hprefill => ?_
  match i, hi with
  | 0, _ | 1, _ => cases hprefill
  | 2, _ => exact ⟨by decide, fun _ => ⟨[6, 7, 8, 9], by decide, by decide⟩⟩
  | 3, _ => exact ⟨by decide, fun _ => ⟨[10, 11, 12, 13], by decide, by decide⟩⟩

/-- A prompt with a cached block, and a simulate request. The slots of the latter are -1: it must
not write the cache. -/
def simulateBatch : InputMetadata where
  isPrefill := true
  splitfuse := false
  totalSeqNum := 5
  batchSequenceIds := [[1], [9223372036854774]]
  sequences := [⟨4, true, 0, [5, 6]⟩, ⟨1, true, 0, [9]⟩]
  remoteComputedBlocks := some [[1], [0]]

def simulateInput : ModelInput where
  inputIds := [20, 21, 22, 23, 1]
  positionIds := [0, 1, 2, 3, 0]
  slots := [10, 11, 12, 13, -1]
  prefillHeadIndices := [3, 4]
  contextLength := [4, 1]
  padTokenCount := some [0, 0]

/-- The simulate request gets the first slot of its block. -/
theorem not_trimmed : Batch tenBlocks simulateBatch simulateInput ∧
    (∀ i < 2, cachedLen tenBlocks simulateBatch i < seqLenAt simulateBatch i) ∧
    ¬ ∃ out kept, updateInferInput tenBlocks simulateInput simulateBatch = some out ∧
      Trimmed tenBlocks simulateBatch simulateInput out kept := by
  refine ⟨?_, by decide, ?_⟩
  · refine ⟨rfl, by decide, ⟨[[1], [0]], rfl, rfl, by decide⟩, by decide, fun _ => by decide,
      by decide, by decide, by decide, by decide, rfl, rfl, rfl, rfl, fun _ => by decide, ?_, ?_⟩
    · rintro pads ⟨⟩
      exact ⟨rfl, rfl, by decide⟩
    · intro _ i hi _
      match i, hi with
      | 0, _ => exact ⟨[10, 11, 12, 13], by decide, by decide⟩
      | 1, _ => exact ⟨[18, 19], by decide, by decide⟩
  · rintro ⟨out, kept, hrun, ht⟩
    have hslots : (updateInferInput tenBlocks simulateInput simulateBatch).map (·.slots) =
        some [12, 13, 18] := by decide +kernel
    rw [hrun, Option.map_some, ht.slots] at hslots
    have hfirst : kept 0 = 2 := by
      have hkept : (kept 0 : ℤ) = 2 :=
        (ht.kept_eq 0 (by decide) (by decide)).trans (by decide)
      exact_mod_cast hkept
    have hsecond : kept 1 = 1 := by
      have hkept : (kept 1 : ℤ) = 1 :=
        (ht.kept_eq 1 (by decide) (by decide)).trans (by decide)
      exact_mod_cast hkept
    have hrows : (List.range 2).flatMap (lastTokens simulateBatch kept simulateInput.slots) =
        [12, 13, -1] := by
      simp only [List.range_succ, List.range_zero, List.nil_append, List.flatMap_append,
        List.flatMap_singleton, lastTokens, hfirst, hsecond]
      decide
    have heq := (Option.some.inj hslots).symm.trans hrows
    cases heq

end PrefixCachePreprocess

end MindieLLM
