import MindieLLM.Program.Slices
import Mathlib.Algebra.Order.Ring.Int

/-!
# The two encoders of a generation output

What the engine generates for a batch is sent to the scheduler as a message. Small batches are
encoded in Python, large ones in C++ from the buffers of the same arrays, where nothing is known of
the types and the lengths of the arrays.

## Main definitions

* `GenerateOutput`, `NumTopTokens`: the arrays of a batch, and the one that comes in two types
* `processChunk`, `convertGenerateOutput`: the C++ encoder; `none` when it reads outside an array
* `buildGroup`, `buildFromGenerateOutput`: the Python encoder; `none` when it raises
* `Encodable`: the batches that both encode

## Main results

* `encoders_agree_iff`: they give the same message exactly for the batches that are `Encodable`
-/

namespace MindieLLM

open Program

namespace ResponseBuilder

variable {F : Type}

/-! ## Messages -/

structure SequenceOutput (F : Type) where
  seqId : ℤ
  parentSeqId : ℤ
  outputToken : List ℤ
  logprob : List F
  finishReason : ℤ
  truncationIndex : ℤ
  numSpeculativeTokens : ℤ
  cumulativeLogprobs : F
  topTokenIds : List ℤ
  topLogprobs : List F
  numParallelTokens : ℤ
  deriving DecidableEq

/-- `execute_model_response` is there or not, as one of the results a response can have. -/
structure ExecuteResponse (F : Type) where
  msgType : ℤ
  status : ℤ
  executeModelResponse : Option (List (List (SequenceOutput F)))
  deriving DecidableEq

def modelInfer : ℤ := 1
def successStatus : ℤ := 0

/-! ## Arrays -/

/-- The numbers of top tokens that were asked for. The sampler has them as `int32`; an output that
starts out empty or that another stage fills in has them as `int64`. -/
inductive NumTopTokens
  | int32 (values : List ℤ)
  | int64 (values : List ℤ)
  deriving DecidableEq

namespace NumTopTokens

def values : NumTopTokens → List ℤ
  | int32 values => values
  | int64 values => values

/-- The memory of the array, as numbers of 32 bits. The low half of an `int64` comes first. -/
def words : NumTopTokens → List ℤ
  | int32 values => values
  | int64 values => values.flatMap fun v => [v.bmod (2 ^ 32), (v / 2 ^ 32).bmod (2 ^ 32)]

end NumTopTokens

/-- A generation output after `collate`. The arrays lie in memory row by row: token ids and their
log-probabilities with `numParallelTokens` entries for a sequence, the top tokens with `shape1` rows
of `shape2` entries. -/
structure GenerateOutput (F : Type) where
  numSeqs : ℕ
  groupIndices : List (ℕ × ℕ)
  sequenceIds : List ℤ
  parentSequenceIds : List ℤ
  numParallelTokens : ℕ
  tokenIds : List ℤ
  logprobs : List F
  eosInfo : List ℤ
  truncationIndices : List ℤ
  cumulativeLogprobs : List F
  shape1 : ℕ
  shape2 : ℕ
  topTokenIds : List ℤ
  topLogprobs : List F
  numTopTokens : NumTopTokens
  group_le : ∀ g ∈ groupIndices, g.1 ≤ g.2 ∧ g.2 ≤ numSeqs
  length_sequenceIds : sequenceIds.length = numSeqs
  length_parentSequenceIds : parentSequenceIds.length = numSeqs
  length_tokenIds : tokenIds.length = numSeqs * numParallelTokens
  length_logprobs : logprobs.length = numSeqs * numParallelTokens
  length_eosInfo : eosInfo.length = numSeqs * 2
  length_truncationIndices : truncationIndices.length = numSeqs
  length_cumulativeLogprobs : cumulativeLogprobs.length = numSeqs
  length_topTokenIds : topTokenIds.length = numSeqs * (shape1 * shape2)
  length_topLogprobs : topLogprobs.length = numSeqs * (shape1 * shape2)
  length_numTopTokens : numTopTokens.values.length = numSeqs

/-! ## The C++ encoder -/

/-- `static_cast<int32_t>` -/
def toInt32 (x : ℤ) : ℤ := x.bmod (2 ^ 32)

variable (out : GenerateOutput F)

/-- The two loops over the top tokens of a sequence: of each row the first `numTopToken` entries. -/
def readTop {α : Type} (data : List α) (currentIdx : ℕ) (numTopToken : ℤ) : Option (List α) := do
  let rows ← (List.range out.shape1).mapM fun j =>
    gather data (List.range' (currentIdx * (out.shape1 * out.shape2) + j * out.shape2)
      numTopToken.toNat)
  return rows.flatten

/-- The body of the loop over the sequences of a group. -/
def processSequence (numTopToken : ℤ) (currentIdx : ℕ) : Option (SequenceOutput F) := do
  let seqId ← out.sequenceIds[currentIdx]?
  let parentSeqId ← out.parentSequenceIds[currentIdx]?
  let numSpeculativeTokens ← out.eosInfo[2 * currentIdx + 1]?
  let finishReason ← out.eosInfo[2 * currentIdx]?
  let truncationIndex ← out.truncationIndices[currentIdx]?
  let cumulativeLogprobs ← out.cumulativeLogprobs[currentIdx]?
  let outputToken ← gather out.tokenIds
    (List.range' (currentIdx * out.numParallelTokens) out.numParallelTokens)
  let logprob ← gather out.logprobs
    (List.range' (currentIdx * out.numParallelTokens) out.numParallelTokens)
  let topTokenIds ← readTop out out.topTokenIds currentIdx numTopToken
  let topLogprobs ← readTop out out.topLogprobs currentIdx numTopToken
  return {
    seqId := seqId
    parentSeqId := parentSeqId
    outputToken := outputToken
    logprob := logprob
    finishReason := toInt32 finishReason
    truncationIndex := toInt32 truncationIndex
    numSpeculativeTokens := numSpeculativeTokens
    cumulativeLogprobs := cumulativeLogprobs
    topTokenIds := topTokenIds
    topLogprobs := topLogprobs
    numParallelTokens := toInt32 out.numParallelTokens }

/-- The numbers of top tokens are read as numbers of 32 bits, whatever the array holds. -/
def processChunk (g : ℕ × ℕ) : Option (List (SequenceOutput F)) := do
  let numTopToken ← out.numTopTokens.words[g.1]?
  if g.2 - g.1 = 0 then return []
  (List.range' g.1 (g.2 - g.1)).mapM (processSequence out numTopToken)

/-- Each group has a task and a part of the message of its own, and all tasks are waited for. -/
def convertGenerateOutput : Option (ExecuteResponse F) := do
  let outputs ← out.groupIndices.mapM (processChunk out)
  return ⟨modelInfer, successStatus, some outputs⟩

/-! ## The Python encoder -/

/-- The rows of an array with `n` rows of `width` entries. -/
def rows {α : Type} (n width : ℕ) (data : List α) : List (List α) :=
  (List.range n).map fun i => slice data (i * width) ((i + 1) * width)

/-- `l[:k]` -/
def upTo {α : Type} (k : ℤ) (l : List α) : List α :=
  if 0 ≤ k then l.take k.toNat else l.take (l.length - k.natAbs)

def IsInt32 (x : ℤ) : Prop := -2 ^ 31 ≤ x ∧ x < 2 ^ 31

instance (x : ℤ) : Decidable (IsInt32 x) := inferInstanceAs (Decidable (_ ∧ _))

/-- A field of type `int32` does not take other numbers. -/
def asInt32 (x : ℤ) : Option ℤ := if IsInt32 x then some x else none

/-- `arr[start:end][:, :, :k]`, with the rows of each sequence put together by `ravel`. -/
def topOf {α : Type} (data : List α) (g : ℕ × ℕ) (k : ℤ) : List (List α) :=
  (slice (rows out.numSeqs (out.shape1 * out.shape2) data) g.1 g.2).map fun plane =>
    ((rows out.shape1 out.shape2 plane).map (upTo k)).flatten

/-- The output of the sequence with this index in its group. -/
def buildSequence (g : ℕ × ℕ) (numTopTokens : ℤ) (i : ℕ) : Option (SequenceOutput F) := do
  let outputIds := slice (rows out.numSeqs out.numParallelTokens out.tokenIds) g.1 g.2
  let logProbs := slice (rows out.numSeqs out.numParallelTokens out.logprobs) g.1 g.2
  let eosAttrs := slice (rows out.numSeqs 2 out.eosInfo) g.1 g.2
  let seqId ← (slice out.sequenceIds g.1 g.2)[i]?
  let parentSeqId ← (slice out.parentSequenceIds g.1 g.2)[i]?
  let outputToken ← outputIds[i]?
  let logprob ← logProbs[i]?
  let eosAttr ← eosAttrs[i]?
  let finishReason ← (eosAttr[0]?).bind asInt32
  let numSpeculativeTokens ← eosAttr[1]?
  let truncationIndex ← ((slice out.truncationIndices g.1 g.2)[i]?).bind asInt32
  let cumulativeLogprobs ← (slice out.cumulativeLogprobs g.1 g.2)[i]?
  let numParallelTokens ← asInt32 outputToken.length
  let topTokenIds ← (topOf out out.topTokenIds g numTopTokens)[i]?
  let topLogprobs ← (topOf out out.topLogprobs g numTopTokens)[i]?
  return {
    seqId := seqId
    parentSeqId := parentSeqId
    outputToken := outputToken
    logprob := logprob
    finishReason := finishReason
    truncationIndex := truncationIndex
    numSpeculativeTokens := numSpeculativeTokens
    cumulativeLogprobs := cumulativeLogprobs
    topTokenIds := topTokenIds
    topLogprobs := topLogprobs
    numParallelTokens := numParallelTokens }

def buildGroup (g : ℕ × ℕ) : Option (List (SequenceOutput F)) := do
  let seqCount := (slice out.sequenceIds g.1 g.2).length
  let numTopTokens ← out.numTopTokens.values[g.1]?
  (List.range seqCount).mapM (buildSequence out g numTopTokens)

/-- The result is in the message from the first group on that is appended to it. -/
def buildFromGenerateOutput (eventType : ℤ) : Option (ExecuteResponse F) := do
  let outputs ← out.groupIndices.mapM (buildGroup out)
  return ⟨eventType, successStatus, if outputs.isEmpty then none else some outputs⟩

/-! ## Top tokens -/

/-- How many of `size` entries `l[:k]` keeps. -/
def kept (k : ℤ) (size : ℕ) : ℕ := if 0 ≤ k then min k.toNat size else size - k.natAbs

variable {α : Type} {out}

theorem kept_le (k : ℤ) (size : ℕ) : kept k size ≤ size := by
  unfold kept
  split <;> omega

theorem upTo_eq_take (k : ℤ) (l : List α) : upTo k l = l.take (kept k l.length) := by
  unfold upTo kept
  split
  · exact List.take_eq_take_min
  · rfl

/-- The rows of the top tokens of a sequence. -/
def topRow (out : GenerateOutput F) (data : List α) (idx j : ℕ) : List α :=
  slice data (idx * (out.shape1 * out.shape2) + j * out.shape2)
    (idx * (out.shape1 * out.shape2) + (j + 1) * out.shape2)

theorem topRow_end_le {idx j : ℕ} (hidx : idx < out.numSeqs) (hj : j < out.shape1) :
    (j + 1) * out.shape2 ≤ out.shape1 * out.shape2 ∧
      idx * (out.shape1 * out.shape2) + out.shape1 * out.shape2 ≤
        out.numSeqs * (out.shape1 * out.shape2) := by
  refine ⟨Nat.mul_le_mul_right _ hj, ?_⟩
  rw [← Nat.succ_mul]
  exact Nat.mul_le_mul_right _ hidx

theorem length_topRow {data : List α}
    (hdata : data.length = out.numSeqs * (out.shape1 * out.shape2))
    {idx j : ℕ} (hidx : idx < out.numSeqs) (hj : j < out.shape1) :
    (topRow out data idx j).length = out.shape2 := by
  obtain ⟨hrow, hplane⟩ := topRow_end_le hidx hj
  rw [topRow, length_slice (by omega), Nat.succ_mul]
  omega

/-- What is kept of the top tokens of a sequence: of each row so many entries. -/
def topTaken (out : GenerateOutput F) (data : List α) (idx n : ℕ) : List α :=
  ((List.range out.shape1).map fun j => (topRow out data idx j).take n).flatten

theorem length_topTaken {data : List α}
    (hdata : data.length = out.numSeqs * (out.shape1 * out.shape2)) {idx n : ℕ}
    (hidx : idx < out.numSeqs) (hn : n ≤ out.shape2) :
    (topTaken out data idx n).length = out.shape1 * n := by
  rw [topTaken, List.length_flatten, List.map_map, List.map_congr_left (g := fun _ => n)]
  · simp
  · intro j hj
    rw [Function.comp_apply, List.length_take,
      length_topRow hdata hidx (List.mem_range.mp hj), Nat.min_eq_left hn]

theorem getElem?_topOf {data : List α} {g : ℕ × ℕ} {i : ℕ} (k : ℤ)
    (hdata : data.length = out.numSeqs * (out.shape1 * out.shape2)) (hi : g.1 + i < g.2)
    (hg : g.2 ≤ out.numSeqs) :
    (topOf out data g k)[i]? = some (topTaken out data (g.1 + i) (kept k out.shape2)) := by
  rw [topOf, List.getElem?_map, getElem?_slice hi, rows, List.getElem?_map,
    List.getElem?_range (by omega), Option.map_some, Option.map_some, rows, List.map_map, topTaken]
  refine congrArg (fun l => some (List.flatten l)) (List.map_congr_left fun j hj => ?_)
  rw [List.mem_range] at hj
  have hrow : (j + 1) * out.shape2 ≤ out.shape1 * out.shape2 := Nat.mul_le_mul_right _ hj
  have hslice : slice (slice data ((g.1 + i) * (out.shape1 * out.shape2))
      ((g.1 + i + 1) * (out.shape1 * out.shape2))) (j * out.shape2) ((j + 1) * out.shape2) =
      topRow out data (g.1 + i) j := by
    rw [topRow, slice_slice (by rw [Nat.succ_mul (g.1 + i)]; omega)]
  rw [Function.comp_apply, hslice, upTo_eq_take, length_topRow hdata (by omega) hj]

/-- Reading no more than the rows hold. -/
theorem readTop_eq {data : List α}
    (hdata : data.length = out.numSeqs * (out.shape1 * out.shape2)) {idx : ℕ} {w : ℤ}
    (hidx : idx < out.numSeqs) (hw : w.toNat ≤ out.shape2) :
    readTop out data idx w = some (topTaken out data idx w.toNat) := by
  have hrows : ((List.range out.shape1).mapM fun j =>
      gather data (List.range' (idx * (out.shape1 * out.shape2) + j * out.shape2) w.toNat)) =
      some ((List.range out.shape1).map fun j => (topRow out data idx j).take w.toNat) := by
    refine mapM_eq_some_map fun j hj => ?_
    obtain ⟨hrow, hplane⟩ := topRow_end_le hidx (List.mem_range.mp hj)
    rw [topRow, Nat.succ_mul] at *
    exact gather_range'_slice (by omega) (by omega)
  rw [readTop, hrows]
  rfl

theorem length_of_readTop {data xs : List α} {idx : ℕ} {w : ℤ}
    (h : readTop out data idx w = some xs) : xs.length = out.shape1 * w.toNat := by
  obtain ⟨rows, hrows, hxs⟩ := Option.bind_eq_some_iff.mp h
  obtain rfl := Option.some.inj hxs
  rw [mapM_eq_some_iff] at hrows
  have hlength : ∀ r ∈ rows, r.length = w.toNat := by
    intro r hr
    obtain ⟨j, hj, rfl⟩ := List.getElem_of_mem hr
    have hread := List.Forall₂.get hrows (by rw [hrows.length_eq]; exact hj) hj
    exact (length_gather hread).trans List.length_range'
  have hcount : rows.length = out.shape1 := by rw [← hrows.length_eq, List.length_range]
  rw [List.length_flatten, List.map_congr_left hlength]
  simp [hcount]

/-! ## One sequence -/

/-- The values a message holds as `int32` for a sequence. -/
def FitsInt32 (out : GenerateOutput F) (idx : ℕ) : Prop :=
  (∀ x, out.eosInfo[2 * idx]? = some x → IsInt32 x) ∧
    (∀ x, out.truncationIndices[idx]? = some x → IsInt32 x) ∧ IsInt32 out.numParallelTokens

theorem toInt32_of_isInt32 {x : ℤ} (h : IsInt32 x) : toInt32 x = x := by
  obtain ⟨hlow, hhigh⟩ := h
  rw [toInt32, Int.bmod_eq_of_le] <;> omega

/-- The output of a sequence, with what is read as its top tokens. -/
def sequenceAt (out : GenerateOutput F) (idx : ℕ) (h : idx < out.numSeqs) (topTokenIds : List ℤ)
    (topLogprobs : List F) : SequenceOutput F where
  seqId := out.sequenceIds.get ⟨idx, by rw [out.length_sequenceIds]; exact h⟩
  parentSeqId := out.parentSequenceIds.get ⟨idx, by rw [out.length_parentSequenceIds]; exact h⟩
  outputToken :=
    slice out.tokenIds (idx * out.numParallelTokens) ((idx + 1) * out.numParallelTokens)
  logprob := slice out.logprobs (idx * out.numParallelTokens) ((idx + 1) * out.numParallelTokens)
  finishReason := out.eosInfo.get ⟨2 * idx, by rw [out.length_eosInfo]; omega⟩
  truncationIndex := out.truncationIndices.get ⟨idx, by rw [out.length_truncationIndices]; exact h⟩
  numSpeculativeTokens := out.eosInfo.get ⟨2 * idx + 1, by rw [out.length_eosInfo]; omega⟩
  cumulativeLogprobs :=
    out.cumulativeLogprobs.get ⟨idx, by rw [out.length_cumulativeLogprobs]; exact h⟩
  topTokenIds := topTokenIds
  topLogprobs := topLogprobs
  numParallelTokens := out.numParallelTokens

/-- The output as the C++ encoder puts it into the message. -/
def narrowed (seq : SequenceOutput F) : SequenceOutput F :=
  { seq with
    finishReason := toInt32 seq.finishReason
    truncationIndex := toInt32 seq.truncationIndex
    numParallelTokens := toInt32 seq.numParallelTokens }

/-- The output as the Python encoder puts it into the message. -/
def checked (seq : SequenceOutput F) : Option (SequenceOutput F) := do
  let finishReason ← asInt32 seq.finishReason
  let truncationIndex ← asInt32 seq.truncationIndex
  let numParallelTokens ← asInt32 seq.numParallelTokens
  return { seq with
    finishReason := finishReason
    truncationIndex := truncationIndex
    numParallelTokens := numParallelTokens }

variable {idx : ℕ}

/-- The entries of a sequence in an array that has so many for each. -/
theorem gather_row {data : List α} {width : ℕ} (hdata : data.length = out.numSeqs * width)
    (h : idx < out.numSeqs) : gather data (List.range' (idx * width) width) =
      some (slice data (idx * width) ((idx + 1) * width)) := by
  have hend : (idx + 1) * width ≤ data.length := by
    rw [hdata]
    exact Nat.mul_le_mul_right _ h
  have hlength := length_slice (l := data) (a := idx * width) hend
  rw [Nat.succ_mul] at hend hlength ⊢
  rw [gather_range'_slice (b := idx * width + width) (Nat.le_refl _) hend, List.take_of_length_le]
  omega

/-- Where a value is read at an index that is there. -/
theorem getElem?_eq_get {l : List α} {i : ℕ} (h : i < l.length) :
    l[i]? = some (l.get ⟨i, h⟩) := List.getElem?_eq_getElem h

/-- What the C++ encoder makes of a sequence. -/
theorem processSequence_eq (h : idx < out.numSeqs) (w : ℤ) :
    processSequence out w idx = do
      let topTokenIds ← readTop out out.topTokenIds idx w
      let topLogprobs ← readTop out out.topLogprobs idx w
      return narrowed (sequenceAt out idx h topTokenIds topLogprobs) := by
  rw [processSequence, gather_row out.length_tokenIds h, gather_row out.length_logprobs h,
    getElem?_eq_get (l := out.sequenceIds) (by rw [out.length_sequenceIds]; exact h),
    getElem?_eq_get (l := out.parentSequenceIds) (by rw [out.length_parentSequenceIds]; exact h),
    getElem?_eq_get (l := out.eosInfo) (by rw [out.length_eosInfo]; omega),
    getElem?_eq_get (l := out.eosInfo) (i := 2 * idx) (by rw [out.length_eosInfo]; omega),
    getElem?_eq_get (l := out.truncationIndices) (by rw [out.length_truncationIndices]; exact h),
    getElem?_eq_get (l := out.cumulativeLogprobs)
      (by rw [out.length_cumulativeLogprobs]; exact h)]
  rfl

/-- Stated for rewriting: by definition alone the whole encoder would be compared at once. -/
theorem some_bind {β γ : Type} (x : β) (f : β → Option γ) : (some x >>= f) = f x := by
  rw [Option.bind_eq_bind, Option.bind_some]

theorem getElem?_rows {data : List α} {width : ℕ} {g : ℕ × ℕ} {i : ℕ} (hi : g.1 + i < g.2)
    (hg : g.2 ≤ out.numSeqs) : (slice (rows out.numSeqs width data) g.1 g.2)[i]? =
      some (slice data ((g.1 + i) * width) ((g.1 + i + 1) * width)) := by
  rw [getElem?_slice hi, rows, List.getElem?_map, List.getElem?_range (by omega), Option.map_some]

/-- What the Python encoder makes of a sequence. -/
theorem buildSequence_eq {g : ℕ × ℕ} {i : ℕ} (hi : g.1 + i < g.2) (hg : g.2 ≤ out.numSeqs) (k : ℤ) :
    buildSequence out g k i = checked (sequenceAt out (g.1 + i) (by omega)
      (topTaken out out.topTokenIds (g.1 + i) (kept k out.shape2))
      (topTaken out out.topLogprobs (g.1 + i) (kept k out.shape2))) := by
  have hidx : g.1 + i < out.numSeqs := by omega
  have hrow : (slice out.tokenIds ((g.1 + i) * out.numParallelTokens)
      ((g.1 + i + 1) * out.numParallelTokens)).length = out.numParallelTokens := by
    have hend := Nat.mul_le_mul_right out.numParallelTokens hidx
    rw [length_slice (by rw [out.length_tokenIds]; exact hend), Nat.succ_mul]
    omega
  have heos : ∀ c < 2, (slice out.eosInfo ((g.1 + i) * 2) ((g.1 + i + 1) * 2))[c]? =
      out.eosInfo[2 * (g.1 + i) + c]? := by
    intro c hc
    rw [getElem?_slice (by omega), Nat.mul_comm]
  rw [buildSequence, getElem?_rows hi hg, getElem?_rows hi hg, getElem?_rows hi hg,
    getElem?_topOf k out.length_topTokenIds hi hg, getElem?_topOf k out.length_topLogprobs hi hg,
    getElem?_slice hi, getElem?_slice hi, getElem?_slice hi, getElem?_slice hi,
    getElem?_eq_get (l := out.sequenceIds) (by rw [out.length_sequenceIds]; exact hidx),
    getElem?_eq_get (l := out.parentSequenceIds)
      (by rw [out.length_parentSequenceIds]; exact hidx),
    getElem?_eq_get (l := out.truncationIndices)
      (by rw [out.length_truncationIndices]; exact hidx),
    getElem?_eq_get (l := out.cumulativeLogprobs)
      (by rw [out.length_cumulativeLogprobs]; exact hidx)]
  simp only [some_bind, hrow, heos 0 (by omega), heos 1 (by omega)]
  rw [getElem?_eq_get (l := out.eosInfo) (i := 2 * (g.1 + i) + 0)
      (by rw [out.length_eosInfo]; omega),
    getElem?_eq_get (l := out.eosInfo) (i := 2 * (g.1 + i) + 1)
      (by rw [out.length_eosInfo]; omega)]
  simp only [some_bind, Option.bind_some, checked, sequenceAt, Nat.add_zero]

/-- The numbers that the message holds as `int32`. -/
def HoldsInt32 (seq : SequenceOutput F) : Prop :=
  IsInt32 seq.finishReason ∧ IsInt32 seq.truncationIndex ∧ IsInt32 seq.numParallelTokens

theorem narrowed_eq {seq : SequenceOutput F} (h : HoldsInt32 seq) : narrowed seq = seq := by
  obtain ⟨hfinish, htrunc, hnum⟩ := h
  rw [narrowed, toInt32_of_isInt32 hfinish, toInt32_of_isInt32 htrunc, toInt32_of_isInt32 hnum]

theorem asInt32_eq_some_iff {x y : ℤ} : asInt32 x = some y ↔ IsInt32 x ∧ x = y := by
  unfold asInt32
  split <;> rename_i h
  · rw [Option.some.injEq]
    exact ⟨fun heq => ⟨h, heq⟩, fun heq => heq.2⟩
  · exact ⟨fun heq => (Option.some_ne_none _ heq.symm).elim, fun heq => absurd heq.1 h⟩

theorem checked_eq_some_iff {seq s : SequenceOutput F} :
    checked seq = some s ↔ HoldsInt32 seq ∧ seq = s := by
  constructor
  · intro h
    obtain ⟨_, hfinish, h⟩ := Option.bind_eq_some_iff.mp h
    obtain ⟨_, htrunc, h⟩ := Option.bind_eq_some_iff.mp h
    obtain ⟨_, hnum, h⟩ := Option.bind_eq_some_iff.mp h
    obtain ⟨hfits, rfl⟩ := asInt32_eq_some_iff.mp hfinish
    obtain ⟨hfits', rfl⟩ := asInt32_eq_some_iff.mp htrunc
    obtain ⟨hfits'', rfl⟩ := asInt32_eq_some_iff.mp hnum
    exact ⟨⟨hfits, hfits', hfits''⟩, Option.some.inj h⟩
  · rintro ⟨⟨hfinish, htrunc, hnum⟩, rfl⟩
    rw [checked, asInt32_eq_some_iff.mpr ⟨hfinish, rfl⟩, asInt32_eq_some_iff.mpr ⟨htrunc, rfl⟩,
      asInt32_eq_some_iff.mpr ⟨hnum, rfl⟩]
    rfl

theorem holdsInt32_sequenceAt_iff (h : idx < out.numSeqs) (topTokenIds : List ℤ)
    (topLogprobs : List F) :
    HoldsInt32 (sequenceAt out idx h topTokenIds topLogprobs) ↔ FitsInt32 out idx := by
  have heos := getElem?_eq_get (l := out.eosInfo) (i := 2 * idx) (by rw [out.length_eosInfo]; omega)
  have htrunc := getElem?_eq_get (l := out.truncationIndices) (i := idx)
    (by rw [out.length_truncationIndices]; exact h)
  simp only [FitsInt32, HoldsInt32, heos, htrunc, Option.some.injEq, forall_eq', sequenceAt]

/-- **One sequence**: both encoders give the same output if its numbers fit, and if as many top
tokens are read as are kept. -/
theorem sequence_agrees_iff {g : ℕ × ℕ} {i : ℕ} (hi : g.1 + i < g.2) (hg : g.2 ≤ out.numSeqs)
    (w k : ℤ) :
    (∃ s, processSequence out w (g.1 + i) = some s ∧ buildSequence out g k i = some s) ↔
      FitsInt32 out (g.1 + i) ∧ (out.shape1 = 0 ∨ w.toNat = kept k out.shape2) := by
  have hidx : g.1 + i < out.numSeqs := by omega
  have hids := out.length_topTokenIds
  have hlps := out.length_topLogprobs
  rw [processSequence_eq hidx, buildSequence_eq hi hg, ← holdsInt32_sequenceAt_iff hidx
    (topTaken out out.topTokenIds (g.1 + i) (kept k out.shape2))
    (topTaken out out.topLogprobs (g.1 + i) (kept k out.shape2))]
  constructor
  · rintro ⟨s, hcpp, hpy⟩
    obtain ⟨ids, hreadIds, hcpp⟩ := Option.bind_eq_some_iff.mp hcpp
    obtain ⟨lps, hreadLps, hcpp⟩ := Option.bind_eq_some_iff.mp hcpp
    obtain ⟨hholds, rfl⟩ := checked_eq_some_iff.mp hpy
    refine ⟨hholds, ?_⟩
    -- Both give the same top tokens, so the lists have the same length.
    have hsame : ids = topTaken out out.topTokenIds (g.1 + i) (kept k out.shape2) :=
      congrArg SequenceOutput.topTokenIds (Option.some.inj hcpp)
    have hlength := length_of_readTop hreadIds
    rw [hsame, length_topTaken hids hidx (kept_le _ _)] at hlength
    rcases Nat.eq_zero_or_pos out.shape1 with hzero | hpos
    · exact .inl hzero
    · exact .inr (Nat.eq_of_mul_eq_mul_left hpos hlength).symm
  · rintro ⟨hholds, htop⟩
    have hread : ∀ {α : Type} {data : List α},
        data.length = out.numSeqs * (out.shape1 * out.shape2) →
        readTop out data (g.1 + i) w =
          some (topTaken out data (g.1 + i) (kept k out.shape2)) := by
      intro α data hdata
      rcases htop with hzero | hkept
      · rw [readTop, topTaken, hzero]
        rfl
      · rw [readTop_eq hdata hidx (hkept ▸ kept_le _ _), hkept]
    refine ⟨_, ?_, checked_eq_some_iff.mpr ⟨hholds, rfl⟩⟩
    rw [hread hids, hread hlps, some_bind, some_bind, narrowed_eq hholds]
    rfl

/-! ## The message -/

/-- What both encoders need of a group: it starts at a sequence, the numbers of its sequences fit,
and what lies in memory where the C++ encoder reads the number of top tokens is the number of
entries that the number at the start of the group keeps. -/
def GroupEncodable (out : GenerateOutput F) (g : ℕ × ℕ) : Prop :=
  g.1 < out.numSeqs ∧ ∀ idx, g.1 ≤ idx → idx < g.2 → FitsInt32 out idx ∧
    (out.shape1 = 0 ∨ ∀ w k, out.numTopTokens.words[g.1]? = some w →
      out.numTopTokens.values[g.1]? = some k → w.toNat = kept k out.shape2)

/-- There is a group, and every group can be encoded. -/
def Encodable (out : GenerateOutput F) : Prop :=
  out.groupIndices ≠ [] ∧ ∀ g ∈ out.groupIndices, GroupEncodable out g

theorem NumTopTokens.length_values_le (n : NumTopTokens) : n.values.length ≤ n.words.length := by
  cases n with
  | int32 => exact Nat.le_refl _
  | int64 values =>
    rw [words, List.length_flatMap]
    simp only [List.length_cons, List.length_nil, NumTopTokens.values, List.map_const',
      List.sum_replicate_nat]
    omega

theorem group_agrees_iff {g : ℕ × ℕ} (hg : g ∈ out.groupIndices) :
    (∃ samples, processChunk out g = some samples ∧ buildGroup out g = some samples) ↔
      GroupEncodable out g := by
  obtain ⟨hle, hend⟩ := out.group_le g hg
  have hcount : (slice out.sequenceIds g.1 g.2).length = g.2 - g.1 :=
    length_slice (by rw [out.length_sequenceIds]; exact hend)
  by_cases hstart : g.1 < out.numSeqs
  · have hvalue := getElem?_eq_get (l := out.numTopTokens.values) (i := g.1)
      (by rw [out.length_numTopTokens]; exact hstart)
    have hword := getElem?_eq_get (l := out.numTopTokens.words) (i := g.1)
      (Nat.lt_of_lt_of_le (by rw [out.length_numTopTokens]; exact hstart)
        out.numTopTokens.length_values_le)
    generalize out.numTopTokens.values.get _ = k at hvalue
    generalize out.numTopTokens.words.get _ = w at hword
    have hcpp : processChunk out g =
        (List.range (g.2 - g.1)).mapM fun i => processSequence out w (g.1 + i) := by
      rw [processChunk, hword, some_bind]
      split
      · rename_i hzero
        rw [hzero]
        rfl
      · rw [List.range'_eq_map_range, List.mapM_map]
        rfl
    have hpy : buildGroup out g = (List.range (g.2 - g.1)).mapM (buildSequence out g k) := by
      rw [buildGroup, hcount, hvalue, some_bind]
    rw [hcpp, hpy, exists_mapM_eq_some_iff]
    constructor
    · refine fun h => ⟨hstart, fun idx hidx hlt => ?_⟩
      have hseq := (sequence_agrees_iff (i := idx - g.1) (by omega) hend w k).mp
        (h _ (List.mem_range.mpr (by omega)))
      rw [Nat.add_sub_cancel' hidx] at hseq
      refine ⟨hseq.1, hseq.2.imp_right fun hkept w' k' hw' hk' => ?_⟩
      obtain rfl := Option.some.inj (hword.symm.trans hw')
      obtain rfl := Option.some.inj (hvalue.symm.trans hk')
      exact hkept
    · rintro ⟨-, h⟩ i hi
      rw [List.mem_range] at hi
      obtain ⟨hfits, htop⟩ := h (g.1 + i) (by omega) (by omega)
      exact (sequence_agrees_iff (by omega) hend w k).mpr
        ⟨hfits, htop.imp_right fun hkept => hkept w k hword hvalue⟩
  · refine ⟨?_, fun h => absurd h.1 hstart⟩
    rintro ⟨samples, -, hpy⟩
    have hnone : out.numTopTokens.values[g.1]? = none :=
      List.getElem?_eq_none (by rw [out.length_numTopTokens]; omega)
    rw [buildGroup, hnone] at hpy
    exact absurd hpy.symm (Option.some_ne_none _)

/-- **The two encoders agree** on a generation output, and the C++ encoder reads nothing outside the
arrays, exactly if the output is `Encodable`. -/
theorem encoders_agree_iff (out : GenerateOutput F) :
    (∃ r, convertGenerateOutput out = some r ∧ buildFromGenerateOutput out modelInfer = some r) ↔
      Encodable out := by
  have hgroups : (∃ outputs, out.groupIndices.mapM (processChunk out) = some outputs ∧
      out.groupIndices.mapM (buildGroup out) = some outputs) ↔
      ∀ g ∈ out.groupIndices, GroupEncodable out g := by
    rw [exists_mapM_eq_some_iff]
    exact forall₂_congr fun g hg => group_agrees_iff hg
  rw [Encodable, ← hgroups]
  constructor
  · rintro ⟨r, hcpp, hpy⟩
    obtain ⟨outputs, houtputs, hcpp⟩ := Option.bind_eq_some_iff.mp hcpp
    obtain ⟨outputs', houtputs', hpy⟩ := Option.bind_eq_some_iff.mp hpy
    have hsame := congrArg ExecuteResponse.executeModelResponse
      ((Option.some.inj hpy).trans (Option.some.inj hcpp).symm)
    by_cases hempty : outputs'.isEmpty
    · rw [if_pos hempty] at hsame
      exact absurd hsame.symm (Option.some_ne_none _)
    · rw [if_neg hempty, Option.some.injEq] at hsame
      subst hsame
      refine ⟨fun hnil => hempty ?_, _, houtputs, houtputs'⟩
      rw [hnil] at houtputs
      rw [← Option.some.inj houtputs]
      rfl
  · rintro ⟨hne, outputs, houtputs, houtputs'⟩
    have hempty : ¬outputs.isEmpty = true := by
      intro hempty
      have hlength := (mapM_eq_some_iff.mp houtputs).length_eq
      rw [List.isEmpty_iff.mp hempty] at hlength
      exact hne (List.eq_nil_of_length_eq_zero hlength)
    refine ⟨⟨modelInfer, successStatus, some outputs⟩, ?_, ?_⟩
    · rw [convertGenerateOutput, houtputs, some_bind]
      rfl
    · rw [buildFromGenerateOutput, houtputs', some_bind, if_neg hempty]
      rfl

/-- Two groups of one sequence, each with one token and one top token. -/
def twoGroups (numTopTokens : NumTopTokens) (h : numTopTokens.values.length = 2) :
    GenerateOutput ℕ where
  numSeqs := 2
  groupIndices := [(0, 1), (1, 2)]
  sequenceIds := [10, 11]
  parentSequenceIds := [10, 11]
  numParallelTokens := 1
  tokenIds := [7, 8]
  logprobs := [70, 80]
  eosInfo := [0, 1, 0, 1]
  truncationIndices := [0, 0]
  cumulativeLogprobs := [0, 0]
  shape1 := 1
  shape2 := 1
  topTokenIds := [7, 8]
  topLogprobs := [70, 80]
  numTopTokens := numTopTokens
  group_le := by decide
  length_sequenceIds := rfl
  length_parentSequenceIds := rfl
  length_tokenIds := rfl
  length_logprobs := rfl
  length_eosInfo := rfl
  length_truncationIndices := rfl
  length_cumulativeLogprobs := rfl
  length_topTokenIds := rfl
  length_topLogprobs := rfl
  length_numTopTokens := h

/-- With numbers of 64 bits the C++ encoder takes the high half of the first one for the second
one, and leaves out the top token of the second group. With a number above the width it reads on
behind the row: the first group gets the top token of the second, the second reads outside. -/
theorem not_encoders_agree :
    (∃ r r', convertGenerateOutput (twoGroups (.int64 [1, 1]) rfl) = some r ∧
      buildFromGenerateOutput (twoGroups (.int64 [1, 1]) rfl) modelInfer = some r' ∧ r ≠ r') ∧
    (convertGenerateOutput (twoGroups (.int32 [2, 2]) rfl) = none ∧
      buildFromGenerateOutput (twoGroups (.int32 [2, 2]) rfl) modelInfer ≠ none) := by
  refine ⟨⟨_, _, rfl, rfl, by decide⟩, by decide, by decide⟩

end ResponseBuilder

end MindieLLM
