import MindieLLM.Connector.ChunkPartition
import MindieLLM.Program.OptionLoops
import MindieLLM.Program.Rounding

/-!
# Prefills in the cloud

In the cloud a prefill is cut by layers, and a long one by chunks as well. The master rank asks the
cut policy how many cuts to make; for a long request it shares them out to the chunks and rounds.
It writes the number of cuts and the number of chunks to a memory that the other ranks read, and
each rank fills its own queue.

Divisions of counts are exact, and those that round go to the even number.

## Main definitions

* `preparePrefillCutPolicy`: how many layers each cut has
* `getPrefillExecMetadata`: the metadata of some layers of a chunk
* `preparePrefillRequest`, `recvDoPrefillTypeUpdatePolicy`: the queues of the master and of the
  other ranks
* `Executes`: the layers of each chunk, and the tokens of all chunks
* `CutsSuffice`: no more than two chunks for a cut, and two chunks at least

## Main results

* `queueLayers_spec`, `queueChunks_spec`: the loops
* `executes_iff`: a rank is prepared as it should if and only if the cuts suffice
-/

namespace MindieLLM.Layerwise

open Program

structure CloudConfig extends Config where
  cloudLayerNum : ℕ
  prefillLayersDiviSwitch : Bool := true

/-- A list that is repeated less than zero times is empty. -/
def preparePrefillCutPolicy (cfg : CloudConfig) (diviNum : ℤ) : Option (List ℕ) :=
  if diviNum = 0 then none
  else
    let diviAverageLayerNum := (cfg.cloudLayerNum : ℤ).tdiv diviNum
    let mod := (cfg.cloudLayerNum : ℤ).fmod diviNum
    some <|
      if mod = 0 then List.replicate diviNum.toNat diviAverageLayerNum.toNat
      else List.replicate mod.toNat (diviAverageLayerNum + 1).toNat ++
        List.replicate (diviNum - mod).toNat diviAverageLayerNum.toNat

/-! ## The metadata of some layers -/

/-- The arguments that only a long request is given. -/
structure ChunkArgs where
  chunkPolicy : List ℕ
  chunkIdx : ℕ
  edgeChunkLenPolicy : List ℕ

def isLongSeq (cfg : CloudConfig) (info : RequestInfo) : Bool :=
  cfg.longSeqLenMin < info.prefillDpMaxSeqLen

/-- The marks of the last layers of a chunk. A rank whose own request is short does one chunk. -/
def markLastLayers (cfg : CloudConfig) (info : RequestInfo) (chunkIdx : ℕ)
    (metadata : LwdMetadata) : LwdMetadata :=
  if metadata.endExecLayer < cfg.cloudLayerNum then metadata
  else if 2 * info.prefillDpLen ≤ cfg.longSeqLenMin then
    { metadata with endOfGenerateToken := chunkIdx = 0, isDummyBatch := 0 < chunkIdx }
  else { metadata with endOfGenerateToken := metadata.isLastChunk }

/-- What the first layers of a chunk wait for, and what is to be received for the next chunk. -/
def receiveChunks (args : ChunkArgs) (metadata : LwdMetadata) : Option (LwdMetadata × ℕ) := do
  let (currRecvList, currRecvHiddenPos) :=
    longSeqGetRecvList args.edgeChunkLenPolicy metadata.longSeqStartIdx metadata.longSeqEndIdx
  let nextRecvList ← (
    if metadata.isLastChunk then some []
    else do
      let nextLen ← args.chunkPolicy[args.chunkIdx + 1]?
      some (longSeqGetRecvList args.edgeChunkLenPolicy metadata.longSeqEndIdx
        (metadata.longSeqEndIdx + nextLen)).1)
  some ({ metadata with hiddenStartPos := currRecvHiddenPos, longSeqRecvList := nextRecvList },
    currRecvList.length)

/-- What a long request adds. -/
def longSeqMetadata (cfg : CloudConfig) (info : RequestInfo) (args : ChunkArgs)
    (metadata : LwdMetadata) : Option (LwdMetadata × ℕ) := do
  let chunkLen ← args.chunkPolicy[args.chunkIdx]?
  let chunkStartOffset := (args.chunkPolicy.take args.chunkIdx).sum
  let metadata := markLastLayers cfg info args.chunkIdx
    { metadata with
      longSeqStartIdx := chunkStartOffset
      longSeqEndIdx := chunkStartOffset + chunkLen
      isLastChunk := args.chunkIdx = args.chunkPolicy.length - 1 }
  if metadata.startExecLayer = 0 then receiveChunks args metadata else some (metadata, 1)

/-- The metadata, and how often the edge has to send before it can be executed. Without the
arguments of a chunk a long request raises. -/
def getPrefillExecMetadata (cfg : CloudConfig) (info : RequestInfo)
    (execStartLayer execEndLayer requestKey : ℕ) (args : Option ChunkArgs) :
    Option (LwdMetadata × ℕ) :=
  let metadata : LwdMetadata :=
    ⟨requestKey, execStartLayer, execEndLayer, cfg.cloudLayerNum ≤ execEndLayer, true, false,
      info.dpEmpty, cfg.cloudLayerNum, isLongSeq cfg info, 0, 0, 0, info.prefillDpLen, false, []⟩
  if isLongSeq cfg info then args.bind fun args => longSeqMetadata cfg info args metadata
  else some (metadata, 1)

/-! ## The queues -/

/-- The loop over the cuts, with the layer that the next one starts with. -/
def queueLayers (cfg : CloudConfig) (info : RequestInfo) (requestKey : ℕ)
    (args : Option ChunkArgs) : ℕ → List ℕ → Option (List PrefillEntry)
  | _, [] => some []
  | execStartLayer, layer :: rest => do
    let (metadata, needRecvNum) ← getPrefillExecMetadata cfg info execStartLayer
      (execStartLayer + layer) requestKey args
    let entries ← queueLayers cfg info requestKey args (execStartLayer + layer) rest
    some ((requestKey, metadata, ⟨1, 0, needRecvNum, 0⟩) :: entries)

/-- The loop over the chunks. -/
def queueChunks (cfg : CloudConfig) (info : RequestInfo) (requestKey : ℕ)
    (cutPolicy chunkPolicy edgeChunkLenPolicy : List ℕ) : Option (List PrefillEntry) :=
  (List.range chunkPolicy.length).foldlM (fun queue chunkIdx =>
    (queueLayers cfg info requestKey (some ⟨chunkPolicy, chunkIdx, edgeChunkLenPolicy⟩) 0
      cutPolicy).map (queue ++ ·)) []

/-- `cutNum` is what the cut policy answers; the request keeps it. -/
def updatePrefillLayersDiviNum (cfg : CloudConfig) (cutNum : ℤ) (info : RequestInfo) :
    Option (List ℕ × RequestInfo) :=
  if cfg.prefillLayersDiviSwitch then
    (preparePrefillCutPolicy cfg cutNum).map (·, { info with layersDiviNum := cutNum })
  else (preparePrefillCutPolicy cfg 5).map (·, info)

def updatePrefillLongSeqData (cfg : CloudConfig) (info : RequestInfo) (requestKey : ℕ) :
    Option (List PrefillEntry × RequestInfo) := do
  let chunkPolicy ← cfg.getChunkLenPolicy info.prefillDpLen false
  if chunkPolicy = [] then none
  let layersDiviNum := roundEven ((info.layersDiviNum : ℚ) / chunkPolicy.length)
  let info := { info with layersDiviNum := layersDiviNum }
  let cutPolicy ← preparePrefillCutPolicy cfg layersDiviNum
  let edgeChunkLenPolicy ← cfg.getChunkLenPolicy info.prefillDpLen true
  let queue ← queueChunks cfg info requestKey cutPolicy chunkPolicy edgeChunkLenPolicy
  some (queue, info)

/-- The queue of the master, and what it keeps of the request. -/
def preparePrefillRequest (cfg : CloudConfig) (cutNum : ℤ) (info : RequestInfo)
    (requestKey : ℕ) : Option (List PrefillEntry × RequestInfo) := do
  let (cutPolicy, info) ← updatePrefillLayersDiviNum cfg cutNum info
  if isLongSeq cfg info then updatePrefillLongSeqData cfg info requestKey
  else do
    let queue ← queueLayers cfg info requestKey none 0 cutPolicy
    some (queue, info)

/-- What the master writes for a prefill. -/
structure CtrlTensor where
  diviNum : ℤ
  chunkNum : ℕ
  requestKey : ℕ
  prefillDpSeqLen : ℕ

def broadcastDecisionType (cfg : CloudConfig) (info : RequestInfo) (requestKey : ℕ) :
    Option CtrlTensor := do
  let prefillChunkNum ← (
    if isLongSeq cfg info then (cfg.getChunkLenPolicy info.prefillDpLen false).map List.length
    else some 1)
  some ⟨info.layersDiviNum, prefillChunkNum, requestKey, info.prefillDpLen⟩

/-- The queue of another rank, whose own record of the request is `info`. -/
def recvDoPrefillTypeUpdatePolicy (cfg : CloudConfig) (info : RequestInfo)
    (ctrlTensor : CtrlTensor) : Option (List PrefillEntry) := do
  let cutPolicy ← preparePrefillCutPolicy cfg ctrlTensor.diviNum
  if 1 < ctrlTensor.chunkNum then do
    let chunkPolicy ← cfg.getChunkLenPolicy ctrlTensor.prefillDpSeqLen false
    let edgeChunkLenPolicy ← cfg.getChunkLenPolicy ctrlTensor.prefillDpSeqLen true
    queueChunks cfg info ctrlTensor.requestKey cutPolicy chunkPolicy edgeChunkLenPolicy
  else queueLayers cfg info ctrlTensor.requestKey none 0 cutPolicy

inductive RankKind
  | master
  | follower
  deriving DecidableEq

/-- What a rank queues for a request of the master. The own length of another rank and whether it
has something to do are its own; the greatest length of the request is that of all ranks. -/
def rankQueue (kind : RankKind) (cfg : CloudConfig) (cutNum : ℤ) (info : RequestInfo)
    (ownLen : ℕ) (ownEmpty : Bool) (requestKey : ℕ) : Option (List PrefillEntry) := do
  let (queue, masterInfo) ← preparePrefillRequest cfg cutNum info requestKey
  match kind with
  | .master => some queue
  | .follower => do
    let ctrlTensor ← broadcastDecisionType cfg masterInfo requestKey
    recvDoPrefillTypeUpdatePolicy cfg { info with prefillDpLen := ownLen, dpEmpty := ownEmpty }
      ctrlTensor

/-! ## What is to hold -/

def layerRange (e : PrefillEntry) : ℕ × ℕ := (e.2.1.startExecLayer, e.2.1.endExecLayer)

/-- Ranges that are not empty, each from where the one before ends. -/
def Consecutive : ℕ → ℕ → List (ℕ × ℕ) → Prop
  | first, last, [] => first = last
  | first, last, r :: rest => r.1 = first ∧ first < r.2 ∧ Consecutive r.2 last rest

/-- **What a rank is to execute**: the layers of each chunk, or those of a request that is not long,
are all cloud layers in order, and the tokens of the chunks are side by side. The chunks are those
of the master's length, on every rank. -/
def Executes (cfg : CloudConfig) (info : RequestInfo) (chunks : List ℕ)
    (queue : List PrefillEntry) : Prop :=
  if isLongSeq cfg info then
    ∃ groups : List (List PrefillEntry), groups.flatten = queue ∧ groups.length = chunks.length ∧
      ∀ k (hk : k < groups.length), Consecutive 0 cfg.cloudLayerNum (groups[k].map layerRange) ∧
        ∀ e ∈ groups[k], e.2.1.longSeqStartIdx = (chunks.take k).sum ∧
          e.2.1.longSeqEndIdx = (chunks.take (k + 1)).sum
  else Consecutive 0 cfg.cloudLayerNum (queue.map layerRange)

/-- The condition: the cut policy is asked and its cuts are more than half the chunks, and a rank
other than the master has two chunks at least to tell a long request by. -/
def CutsSuffice (kind : RankKind) (cfg : CloudConfig) (cutNum : ℕ) (info : RequestInfo)
    (chunks : List ℕ) : Prop :=
  match kind with
  | .master =>
    if isLongSeq cfg info then cfg.prefillLayersDiviSwitch ∧ chunks.length < 2 * cutNum
    else cfg.prefillLayersDiviSwitch ∨ 5 ≤ cfg.cloudLayerNum
  | .follower =>
    cfg.prefillLayersDiviSwitch ∧
      (isLongSeq cfg info → 1 < chunks.length ∧ chunks.length < 2 * cutNum)

variable {cfg : CloudConfig} {info : RequestInfo} {requestKey : ℕ}

/-! ## Rounding the cuts -/

/-- The cuts of a chunk: at least one, and not more than there are. -/
theorem roundEven_div {d n : ℕ} (hn : 0 < n) (h : n < 2 * d) :
    ∃ m : ℕ, roundEven ((d : ℚ) / n) = m ∧ 0 < m ∧ m ≤ d := by
  have hcast : (0 : ℚ) < n := by exact_mod_cast hn
  have hhalf : 1 / 2 < (d : ℚ) / n := by
    rw [div_lt_div_iff₀ two_pos hcast]
    have hlt : (n : ℚ) < 2 * d := by exact_mod_cast h
    linarith
  have hle : (d : ℚ) / n ≤ (d : ℤ) := by
    push_cast
    exact div_le_self (Nat.cast_nonneg d) (by exact_mod_cast hn)
  have hone := one_le_roundEven hhalf
  obtain ⟨m, hm⟩ := Int.eq_ofNat_of_zero_le (by omega : 0 ≤ roundEven ((d : ℚ) / n))
  have hbound := roundEven_le hle
  exact ⟨m, hm, by omega, by omega⟩

theorem roundEven_div_eq_zero {d n : ℕ} (hn : 0 < n) (h : 2 * d ≤ n) :
    roundEven ((d : ℚ) / n) = 0 := by
  have hcast : (0 : ℚ) < n := by exact_mod_cast hn
  have hle : (2 : ℚ) * d ≤ n := by exact_mod_cast h
  have hnonneg : (0 : ℚ) ≤ (d : ℚ) / n := by positivity
  apply roundEven_eq_zero (by linarith)
  rw [div_le_div_iff₀ hcast two_pos]
  linarith

/-! ## The cut policy -/

/-- Cuts are made like chunks. -/
theorem preparePrefillCutPolicy_of_pos {d : ℕ} (hd : 0 < d) :
    preparePrefillCutPolicy cfg d = some (splitLongSeqByChunkNum cfg.cloudLayerNum d) := by
  have hne : (d : ℤ) ≠ 0 := by exact_mod_cast hd.ne'
  have hdiv : (cfg.cloudLayerNum : ℤ).tdiv d = ((cfg.cloudLayerNum / d : ℕ) : ℤ) := rfl
  have hmod : (cfg.cloudLayerNum : ℤ).fmod d = ((cfg.cloudLayerNum % d : ℕ) : ℤ) := by
    rw [Int.fmod_eq_emod_of_nonneg _ (Int.natCast_nonneg d), Int.natCast_emod]
  rw [preparePrefillCutPolicy, if_neg hne, hdiv, hmod, splitLongSeqByChunkNum]
  have hsub : ((d : ℤ) - (cfg.cloudLayerNum % d : ℕ)).toNat = d - cfg.cloudLayerNum % d := by omega
  have hsucc : (((cfg.cloudLayerNum / d : ℕ) : ℤ) + 1).toNat = cfg.cloudLayerNum / d + 1 :=
    Int.toNat_natCast (cfg.cloudLayerNum / d + 1)
  dsimp only
  rw [hsub, hsucc, Int.toNat_natCast, Int.toNat_natCast, Int.toNat_natCast]
  simp only [Int.natCast_eq_zero]

/-- Minus one cut, which a request starts with, is no cut at all. -/
theorem preparePrefillCutPolicy_neg_one : preparePrefillCutPolicy cfg (-1) = some [] := by
  have hmod : (cfg.cloudLayerNum : ℤ).fmod (-1) = 0 := by
    rw [Int.fmod_eq_zero_of_dvd]
    exact ⟨-cfg.cloudLayerNum, by ring⟩
  rw [preparePrefillCutPolicy, if_neg (by decide), hmod]
  rfl

/-! ## The metadata -/

/-- A short request has no chunk. -/
theorem getPrefillExecMetadata_short (h : isLongSeq cfg info = false) (first last : ℕ)
    (args : Option ChunkArgs) :
    ∃ m n, getPrefillExecMetadata cfg info first last requestKey args = some (m, n) ∧
      m.startExecLayer = first ∧ m.endExecLayer = last := by
  unfold getPrefillExecMetadata
  rw [h]
  exact ⟨_, _, rfl, rfl, rfl⟩

/-- A long one raises without the arguments of a chunk. -/
theorem getPrefillExecMetadata_none (h : isLongSeq cfg info = true) (first last : ℕ) :
    getPrefillExecMetadata cfg info first last requestKey none = none := by
  unfold getPrefillExecMetadata
  rw [h]
  rfl

/-- What the last layers are marked with, and nothing else. -/
theorem markLastLayers_frame (chunkIdx : ℕ) (m : LwdMetadata) :
    ∃ endOfGenerateToken isDummyBatch, markLastLayers cfg info chunkIdx m =
      { m with endOfGenerateToken := endOfGenerateToken, isDummyBatch := isDummyBatch } := by
  unfold markLastLayers
  split_ifs
  · exact ⟨_, _, rfl⟩
  · exact ⟨_, _, rfl⟩
  · exact ⟨_, m.isDummyBatch, rfl⟩

theorem receiveChunks_eq_some {args : ChunkArgs} {m : LwdMetadata}
    (hnext : m.isLastChunk = false → args.chunkIdx + 1 < args.chunkPolicy.length) :
    ∃ pos recvList n, receiveChunks args m =
      some ({ m with hiddenStartPos := pos, longSeqRecvList := recvList }, n) := by
  unfold receiveChunks
  cases hlast : m.isLastChunk with
  | true => exact ⟨_, _, _, rfl⟩
  | false =>
    rw [List.getElem?_eq_getElem (hnext hlast)]
    exact ⟨_, _, _, rfl⟩

/-- A long request with the arguments of a chunk. -/
theorem getPrefillExecMetadata_long (h : isLongSeq cfg info = true) (first last : ℕ)
    {chunks edge : List ℕ} {k : ℕ} (hk : k < chunks.length) :
    ∃ m n, getPrefillExecMetadata cfg info first last requestKey (some ⟨chunks, k, edge⟩) =
        some (m, n) ∧ m.startExecLayer = first ∧ m.endExecLayer = last ∧
      m.longSeqStartIdx = (chunks.take k).sum ∧ m.longSeqEndIdx = (chunks.take (k + 1)).sum := by
  have hend : (chunks.take (k + 1)).sum = (chunks.take k).sum + chunks[k] := by
    rw [List.take_succ_eq_append_getElem hk, List.sum_append, List.sum_singleton]
  unfold getPrefillExecMetadata
  rw [h, if_pos rfl, Option.bind_some, longSeqMetadata, List.getElem?_eq_getElem hk, hend]
  simp only [Option.bind_eq_bind, Option.bind_some]
  generalize hm : LwdMetadata.mk _ _ _ _ _ _ _ _ _ _ _ _ _ _ _ = m
  obtain ⟨eog, dummy, hmark⟩ := @markLastLayers_frame cfg info k m
  rw [hmark]
  split_ifs
  · have hnext : m.isLastChunk = false → k + 1 < chunks.length := by
      subst hm
      intro hlast
      have := of_decide_eq_false hlast
      omega
    obtain ⟨pos, recvList, n, hrecv⟩ := @receiveChunks_eq_some ⟨chunks, k, edge⟩
      { m with endOfGenerateToken := eog, isDummyBatch := dummy } hnext
    rw [hrecv]
    subst hm
    exact ⟨_, _, rfl, rfl, rfl, rfl, rfl⟩
  · subst hm
    exact ⟨_, _, rfl, rfl, rfl, rfl, rfl⟩

/-! ## The loops -/

/-- The ranges of some cuts. -/
def ranges : ℕ → List ℕ → List (ℕ × ℕ)
  | _, [] => []
  | first, layer :: rest => (first, first + layer) :: ranges (first + layer) rest

theorem consecutive_ranges_iff {first last : ℕ} {layers : List ℕ} :
    Consecutive first last (ranges first layers) ↔
      (∀ n ∈ layers, 0 < n) ∧ first + layers.sum = last := by
  induction layers generalizing first with
  | nil => simp [ranges, Consecutive]
  | cons n layers ih =>
    have hlt : first < first + n ↔ 0 < n := by omega
    rw [ranges, Consecutive, ih, List.forall_mem_cons, List.sum_cons, ← Nat.add_assoc, hlt]
    tauto

/-- **The loop over the cuts.** -/
theorem queueLayers_spec {args : Option ChunkArgs} {Q : LwdMetadata → Prop}
    (h : ∀ first last, ∃ m n, getPrefillExecMetadata cfg info first last requestKey args =
      some (m, n) ∧ m.startExecLayer = first ∧ m.endExecLayer = last ∧ Q m)
    (first : ℕ) (layers : List ℕ) :
    ∃ entries, queueLayers cfg info requestKey args first layers = some entries ∧
      entries.map layerRange = ranges first layers ∧ ∀ e ∈ entries, Q e.2.1 := by
  induction layers generalizing first with
  | nil => exact ⟨[], rfl, rfl, fun e he => absurd he List.not_mem_nil⟩
  | cons n layers ih =>
    obtain ⟨m, needed, hget, hstart, hend, hQ⟩ := h first (first + n)
    obtain ⟨entries, hrest, hranges, hall⟩ := ih (first + n)
    refine ⟨(requestKey, m, ⟨1, 0, needed, 0⟩) :: entries, ?_, ?_, ?_⟩
    · rw [queueLayers, hget, Option.bind_eq_bind, Option.bind_some, hrest]
      rfl
    · rw [List.map_cons, hranges, ranges, layerRange, hstart, hend]
    · exact List.forall_mem_cons.mpr ⟨hQ, hall⟩

/-- **The loop over the chunks.** -/
theorem queueChunks_spec (h : isLongSeq cfg info = true) (layers chunks edge : List ℕ) :
    ∃ groups : List (List PrefillEntry),
      queueChunks cfg info requestKey layers chunks edge = some groups.flatten ∧
      groups.length = chunks.length ∧
      ∀ k (hk : k < groups.length), groups[k].map layerRange = ranges 0 layers ∧
        ∀ e ∈ groups[k], e.2.1.longSeqStartIdx = (chunks.take k).sum ∧
          e.2.1.longSeqEndIdx = (chunks.take (k + 1)).sum := by
  let I : ℕ → List PrefillEntry → Prop := fun n queue =>
    ∃ groups : List (List PrefillEntry), groups.flatten = queue ∧ groups.length = n ∧
      ∀ k (hk : k < groups.length), groups[k].map layerRange = ranges 0 layers ∧
        ∀ e ∈ groups[k], e.2.1.longSeqStartIdx = (chunks.take k).sum ∧
          e.2.1.longSeqEndIdx = (chunks.take (k + 1)).sum
  have hstart : I 0 [] := ⟨[], rfl, rfl, fun k hk => absurd hk (Nat.not_lt_zero k)⟩
  have hstep : ∀ i queue, i < chunks.length → I i queue → ∃ queue',
      (queueLayers cfg info requestKey (some ⟨chunks, i, edge⟩) 0 layers).map (queue ++ ·) =
        some queue' ∧ I (i + 1) queue' := by
    rintro i _ hi ⟨groups, rfl, hlength, hgroups⟩
    obtain ⟨entries, hentries, hranges, htokens⟩ := queueLayers_spec
      (fun first last => getPrefillExecMetadata_long h first last hi) 0 layers
    refine ⟨groups.flatten ++ entries, by rw [hentries]; rfl, groups ++ [entries], ?_, ?_, ?_⟩
    · rw [List.flatten_append, List.flatten_singleton]
    · rw [List.length_append, List.length_singleton, hlength]
    · intro k hk
      rw [List.length_append, List.length_singleton] at hk
      rcases Nat.lt_or_ge k groups.length with hlt | hge
      · rw [List.getElem_append_left hlt]
        exact hgroups k hlt
      · obtain rfl : k = groups.length := by omega
        rw [List.getElem_concat_length rfl, hlength]
        exact ⟨hranges, htokens⟩
  obtain ⟨queue, hqueue, groups, rfl, hlength, hgroups⟩ := foldlM_range_some hstart hstep
  exact ⟨groups, hqueue, hlength, hgroups⟩

/-! ## The ranks -/

section Ranks

variable {chunks edge : List ℕ} {cutNum ownLen : ℕ} {ownEmpty : Bool}

/-- Good cuts of all layers. -/
theorem consecutive_cuts {d : ℕ} (hd : 0 < d) (hle : d ≤ cfg.cloudLayerNum) :
    Consecutive 0 cfg.cloudLayerNum (ranges 0 (splitLongSeqByChunkNum cfg.cloudLayerNum d)) :=
  consecutive_ranges_iff.mpr ⟨splitLongSeqByChunkNum_pos hd hle, by
    rw [Nat.zero_add, splitLongSeqByChunkNum_sum hd]⟩

/-- Five cuts of fewer layers: some are empty. -/
theorem not_consecutive_five (hlt : cfg.cloudLayerNum < 5) :
    ¬ Consecutive 0 cfg.cloudLayerNum (ranges 0 (splitLongSeqByChunkNum cfg.cloudLayerNum 5)) := by
  intro h
  have hpos := (consecutive_ranges_iff.mp h).1
  have hzero : 0 ∈ splitLongSeqByChunkNum cfg.cloudLayerNum 5 := by
    have hmod : cfg.cloudLayerNum % 5 = cfg.cloudLayerNum := Nat.mod_eq_of_lt hlt
    have hdiv : cfg.cloudLayerNum / 5 = 0 := Nat.div_eq_of_lt hlt
    rw [splitLongSeqByChunkNum, hmod, hdiv]
    split_ifs
    · decide
    · refine List.mem_append_right _ (List.mem_replicate.mpr ⟨?_, rfl⟩)
      omega
  exact absurd (hpos 0 hzero) (lt_irrefl 0)

/-- The queue of a request that is not long. -/
theorem queueLayers_short (h : isLongSeq cfg info = false) (layers : List ℕ) :
    ∃ queue, queueLayers cfg info requestKey none 0 layers = some queue ∧
      queue.map layerRange = ranges 0 layers := by
  have hget : ∀ first last, ∃ m n, getPrefillExecMetadata cfg info first last requestKey none =
      some (m, n) ∧ m.startExecLayer = first ∧ m.endExecLayer = last ∧ True := by
    intro first last
    obtain ⟨m, n, hsome, hstart, hend⟩ := @getPrefillExecMetadata_short _ _ requestKey h first last
      none
    exact ⟨m, n, hsome, hstart, hend, trivial⟩
  obtain ⟨queue, hqueue, hranges, -⟩ := queueLayers_spec hget 0 layers
  exact ⟨queue, hqueue, hranges⟩

/-- A long request without the arguments of a chunk. -/
theorem queueLayers_none (h : isLongSeq cfg info = true) {layers : List ℕ} (hne : layers ≠ []) :
    queueLayers cfg info requestKey none 0 layers = none := by
  obtain ⟨n, rest, rfl⟩ := List.exists_cons_of_ne_nil hne
  rw [queueLayers, getPrefillExecMetadata_none h]
  rfl

/-- The chunks of a long request, with good cuts. -/
theorem executes_queueChunks (h : isLongSeq cfg info = true) {info' : RequestInfo}
    (hsame : info'.prefillDpMaxSeqLen = info.prefillDpMaxSeqLen) {d : ℕ} (hd : 0 < d)
    (hle : d ≤ cfg.cloudLayerNum) :
    ∃ queue, queueChunks cfg info' requestKey (splitLongSeqByChunkNum cfg.cloudLayerNum d) chunks
      edge = some queue ∧ Executes cfg info chunks queue := by
  have h' : isLongSeq cfg info' = true := by rwa [isLongSeq, hsame]
  obtain ⟨groups, hqueue, hlength, hgroups⟩ := @queueChunks_spec _ _ requestKey h'
    (splitLongSeqByChunkNum cfg.cloudLayerNum d) chunks edge
  refine ⟨_, hqueue, ?_⟩
  rw [Executes, if_pos h]
  refine ⟨groups, rfl, hlength, fun k hk => ⟨?_, (hgroups k hk).2⟩⟩
  rw [(hgroups k hk).1]
  exact consecutive_cuts hd hle

/-- Nothing at all is not what a rank is to execute. -/
theorem not_executes_nil (hlayers : 0 < cfg.cloudLayerNum) (hne : chunks ≠ []) :
    ¬ Executes cfg info chunks [] := by
  unfold Executes
  split_ifs
  · rintro ⟨groups, hflatten, hlength, hgroups⟩
    have hk : 0 < groups.length := hlength ▸ List.length_pos_iff.mpr hne
    have hnil : groups[0] = [] := List.flatten_eq_nil_iff.mp hflatten _ (List.getElem_mem hk)
    have hcover := (hgroups 0 hk).1
    rw [hnil] at hcover
    exact hlayers.ne hcover
  · exact hlayers.ne

theorem updatePrefillLongSeqData_eq
    (hchunks : cfg.getChunkLenPolicy info.prefillDpLen false = some chunks) (hne : chunks ≠ [])
    (hedge : cfg.getChunkLenPolicy info.prefillDpLen true = some edge) {m : ℤ}
    (hm : roundEven ((info.layersDiviNum : ℚ) / chunks.length) = m) :
    updatePrefillLongSeqData cfg info requestKey =
      (preparePrefillCutPolicy cfg m).bind fun layers =>
        (queueChunks cfg { info with layersDiviNum := m } requestKey layers chunks edge).bind
          fun queue => some (queue, { info with layersDiviNum := m }) := by
  unfold updatePrefillLongSeqData
  rw [hchunks]
  simp only [Option.bind_eq_bind, Option.bind_some, if_neg hne, hm, hedge]

/-- The queue of the master for a request that is not long. -/
theorem preparePrefillRequest_short (h : isLongSeq cfg info = false) {d : ℕ} (hd : 0 < d)
    {info' : RequestInfo} (hupdate : updatePrefillLayersDiviNum cfg cutNum info =
      (preparePrefillCutPolicy cfg d).map (·, info'))
    (hsame : info'.prefillDpMaxSeqLen = info.prefillDpMaxSeqLen) :
    ∃ queue, preparePrefillRequest cfg cutNum info requestKey = some (queue, info') ∧
      queue.map layerRange = ranges 0 (splitLongSeqByChunkNum cfg.cloudLayerNum d) := by
  have h' : isLongSeq cfg info' = false := by rwa [isLongSeq, hsame]
  obtain ⟨queue, hqueue, hranges⟩ := @queueLayers_short _ _ requestKey h'
    (splitLongSeqByChunkNum cfg.cloudLayerNum d)
  refine ⟨queue, ?_, hranges⟩
  rw [preparePrefillRequest, hupdate, preparePrefillCutPolicy_of_pos hd, Option.map_some,
    Option.bind_eq_bind, Option.bind_some]
  dsimp only
  rw [h', hqueue]
  rfl

/-- The queue of another rank for a request that is not long. -/
theorem recvDoPrefillTypeUpdatePolicy_short (h : isLongSeq cfg info = false)
    {layers : List ℕ} {t : CtrlTensor}
    (hpolicy : preparePrefillCutPolicy cfg t.diviNum = some layers)
    (hchunk : t.chunkNum = 1) :
    ∃ queue, recvDoPrefillTypeUpdatePolicy cfg info t = some queue ∧
      queue.map layerRange = ranges 0 layers := by
  obtain ⟨queue, hqueue, hranges⟩ := @queueLayers_short _ _ t.requestKey h layers
  refine ⟨queue, ?_, hranges⟩
  rw [recvDoPrefillTypeUpdatePolicy, hpolicy, Option.bind_eq_bind, Option.bind_some, hchunk,
    if_neg (lt_irrefl 1), hqueue]

theorem preparePrefillRequest_long (h : isLongSeq cfg info = true) {layers : List ℕ}
    {info' : RequestInfo}
    (hupdate : updatePrefillLayersDiviNum cfg cutNum info = some (layers, info'))
    (hsame : info'.prefillDpMaxSeqLen = info.prefillDpMaxSeqLen) :
    preparePrefillRequest cfg cutNum info requestKey =
      updatePrefillLongSeqData cfg info' requestKey := by
  have h' : isLongSeq cfg info' = true := by rwa [isLongSeq, hsame]
  rw [preparePrefillRequest, hupdate, Option.bind_eq_bind, Option.bind_some]
  dsimp only
  rw [h', if_pos rfl]

/-! ### A rank after the master -/

theorem rankQueue_none (kind : RankKind)
    (h : preparePrefillRequest cfg cutNum info requestKey = none) :
    rankQueue kind cfg cutNum info ownLen ownEmpty requestKey = none := by
  rw [rankQueue, h]
  rfl

theorem rankQueue_master {queue : List PrefillEntry} {info' : RequestInfo}
    (h : preparePrefillRequest cfg cutNum info requestKey = some (queue, info')) :
    rankQueue .master cfg cutNum info ownLen ownEmpty requestKey = some queue := by
  rw [rankQueue, h]
  rfl

theorem rankQueue_follower {queue : List PrefillEntry} {info' : RequestInfo} {t : CtrlTensor}
    (h : preparePrefillRequest cfg cutNum info requestKey = some (queue, info'))
    (ht : broadcastDecisionType cfg info' requestKey = some t) :
    rankQueue .follower cfg cutNum info ownLen ownEmpty requestKey =
      recvDoPrefillTypeUpdatePolicy cfg { info with prefillDpLen := ownLen, dpEmpty := ownEmpty }
        t := by
  rw [rankQueue, h, Option.bind_eq_bind, Option.bind_some]
  dsimp only
  rw [ht]
  rfl

/-! ### Requests that are not long -/

theorem broadcastDecisionType_short (h : isLongSeq cfg info = false) :
    broadcastDecisionType cfg info requestKey =
      some ⟨info.layersDiviNum, 1, requestKey, info.prefillDpLen⟩ := by
  rw [broadcastDecisionType, h]
  rfl

theorem executes_short_iff (kind : RankKind) (h : isLongSeq cfg info = false) (hcut : 0 < cutNum)
    (hle : cutNum ≤ cfg.cloudLayerNum) (hfresh : info.layersDiviNum = -1) :
    (∃ queue, rankQueue kind cfg cutNum info ownLen ownEmpty requestKey = some queue ∧
        Executes cfg info chunks queue) ↔
      CutsSuffice kind cfg cutNum info chunks := by
  have hlayers : 0 < cfg.cloudLayerNum := hcut.trans_le hle
  have hown : isLongSeq cfg { info with prefillDpLen := ownLen, dpEmpty := ownEmpty } = false := h
  have hexecutes : ∀ queue, Executes cfg info chunks queue ↔
      Consecutive 0 cfg.cloudLayerNum (queue.map layerRange) := fun queue => by
    rw [Executes, h, if_neg Bool.false_ne_true]
  cases hswitch : cfg.prefillLayersDiviSwitch with
  | true =>
    have hupdate : updatePrefillLayersDiviNum cfg cutNum info = (preparePrefillCutPolicy cfg
        cutNum).map (·, { info with layersDiviNum := (cutNum : ℤ) }) := by
      rw [updatePrefillLayersDiviNum, hswitch, if_pos rfl]
    obtain ⟨queue, hqueue, hranges⟩ := @preparePrefillRequest_short _ _ requestKey _ h _ hcut _
      hupdate rfl
    cases kind with
    | master =>
      refine iff_of_true ⟨queue, rankQueue_master hqueue, ?_⟩ ?_
      · rw [hexecutes, hranges]
        exact consecutive_cuts hcut hle
      · rw [CutsSuffice, h, if_neg Bool.false_ne_true]
        exact .inl hswitch
    | follower =>
      obtain ⟨queue', hqueue', hranges'⟩ := recvDoPrefillTypeUpdatePolicy_short hown
        (show preparePrefillCutPolicy cfg
          (CtrlTensor.mk cutNum 1 requestKey info.prefillDpLen).diviNum = _ from
            preparePrefillCutPolicy_of_pos hcut) rfl
      refine iff_of_true ⟨queue', ?_, ?_⟩ ⟨hswitch, fun hlong => ?_⟩
      · rw [rankQueue_follower hqueue (broadcastDecisionType_short h), hqueue']
      · rw [hexecutes, hranges']
        exact consecutive_cuts hcut hle
      · rw [h] at hlong
        cases hlong
  | false =>
    have hupdate : updatePrefillLayersDiviNum cfg cutNum info =
        (preparePrefillCutPolicy cfg (5 : ℕ)).map (·, info) := by
      rw [updatePrefillLayersDiviNum, hswitch, if_neg Bool.false_ne_true]
      rfl
    obtain ⟨queue, hqueue, hranges⟩ := @preparePrefillRequest_short _ _ requestKey _ h 5
      (by decide) _ hupdate rfl
    cases kind with
    | master =>
      have hsuffice : CutsSuffice .master cfg cutNum info chunks ↔ 5 ≤ cfg.cloudLayerNum := by
        rw [CutsSuffice, h, if_neg Bool.false_ne_true, hswitch]
        simp
      rw [hsuffice, rankQueue_master hqueue]
      constructor
      · rintro ⟨_, heq, hexec⟩
        obtain rfl := Option.some.inj heq
        rw [hexecutes, hranges] at hexec
        exact Nat.le_of_not_lt fun hlt => not_consecutive_five hlt hexec
      · intro hfive
        refine ⟨queue, rfl, ?_⟩
        rw [hexecutes, hranges]
        exact consecutive_cuts (by decide) hfive
    | follower =>
      -- the others are told minus one cut and queue nothing
      obtain ⟨queue', hqueue', hranges'⟩ := recvDoPrefillTypeUpdatePolicy_short hown
        (show preparePrefillCutPolicy cfg
          (CtrlTensor.mk (-1) 1 requestKey info.prefillDpLen).diviNum = _ from
            preparePrefillCutPolicy_neg_one) rfl
      have hbroadcast := @broadcastDecisionType_short _ _ requestKey h
      rw [hfresh] at hbroadcast
      rw [rankQueue_follower hqueue hbroadcast, hqueue']
      refine iff_of_false ?_ fun hsuffice => ?_
      · rintro ⟨_, heq, hexec⟩
        obtain rfl := Option.some.inj heq
        rw [hexecutes, hranges'] at hexec
        exact hlayers.ne hexec
      · rw [CutsSuffice, hswitch] at hsuffice
        exact Bool.false_ne_true hsuffice.1

/-! ### Long requests -/

theorem broadcastDecisionType_long (h : isLongSeq cfg info = true)
    (hchunks : cfg.getChunkLenPolicy info.prefillDpLen false = some chunks) :
    broadcastDecisionType cfg info requestKey =
      some ⟨info.layersDiviNum, chunks.length, requestKey, info.prefillDpLen⟩ := by
  rw [broadcastDecisionType, h, hchunks]
  rfl

/-- Without cuts nothing is queued for the chunks. -/
theorem queueChunks_nil (h : isLongSeq cfg info = true) :
    queueChunks cfg info requestKey [] chunks edge = some [] := by
  obtain ⟨groups, hqueue, -, hgroups⟩ := @queueChunks_spec _ _ requestKey h [] chunks edge
  have hnil : groups.flatten = [] := by
    refine List.flatten_eq_nil_iff.mpr fun g hg => ?_
    obtain ⟨k, hk, rfl⟩ := List.mem_iff_getElem.mp hg
    exact List.map_eq_nil_iff.mp (hgroups k hk).1
  rw [hqueue, hnil]

theorem executes_long_iff (kind : RankKind) (h : isLongSeq cfg info = true) (hcut : 0 < cutNum)
    (hle : cutNum ≤ cfg.cloudLayerNum) (hfresh : info.layersDiviNum = -1)
    (hchunks : cfg.getChunkLenPolicy info.prefillDpLen false = some chunks) (hne : chunks ≠ [])
    (hedge : cfg.getChunkLenPolicy info.prefillDpLen true = some edge) :
    (∃ queue, rankQueue kind cfg cutNum info ownLen ownEmpty requestKey = some queue ∧
        Executes cfg info chunks queue) ↔
      CutsSuffice kind cfg cutNum info chunks := by
  have hlayers : 0 < cfg.cloudLayerNum := hcut.trans_le hle
  have hlength : 0 < chunks.length := List.length_pos_iff.mpr hne
  have hnone : preparePrefillRequest cfg cutNum info requestKey = none →
      ¬ ∃ queue, rankQueue kind cfg cutNum info ownLen ownEmpty requestKey = some queue ∧
        Executes cfg info chunks queue := by
    rintro hprepare ⟨queue, hqueue, -⟩
    rw [rankQueue_none kind hprepare] at hqueue
    cases hqueue
  have hsuffice : CutsSuffice kind cfg cutNum info chunks ↔
      (cfg.prefillLayersDiviSwitch ∧ chunks.length < 2 * cutNum) ∧
        (kind = .follower → 1 < chunks.length) := by
    cases kind with
    | master => simp [CutsSuffice, h]
    | follower =>
      simp only [CutsSuffice, h, true_implies]
      tauto
  rw [hsuffice]
  cases hswitch : cfg.prefillLayersDiviSwitch with
  | true =>
    have hupdate : updatePrefillLayersDiviNum cfg cutNum info =
        some (splitLongSeqByChunkNum cfg.cloudLayerNum cutNum,
          { info with layersDiviNum := (cutNum : ℤ) }) := by
      rw [updatePrefillLayersDiviNum, hswitch, if_pos rfl, preparePrefillCutPolicy_of_pos hcut]
      rfl
    have hprepare := @preparePrefillRequest_long _ _ requestKey _ h _ _ hupdate rfl
    rcases Nat.lt_or_ge chunks.length (2 * cutNum) with hlt | hge
    · obtain ⟨m, hround, hpos, hmle⟩ := roundEven_div hlength hlt
      rw [@updatePrefillLongSeqData_eq _ { info with layersDiviNum := (cutNum : ℤ) } _ _ _ hchunks
        hne hedge (m : ℤ) (by push_cast; exact hround), preparePrefillCutPolicy_of_pos hpos,
        Option.bind_some] at hprepare
      obtain ⟨queue, hqueue, hexec⟩ := @executes_queueChunks _ _ requestKey chunks edge h
        { info with layersDiviNum := (m : ℤ) } rfl m hpos (hmle.trans hle)
      rw [hqueue] at hprepare
      cases kind with
      | master => exact iff_of_true ⟨queue, rankQueue_master hprepare, hexec⟩ ⟨⟨rfl, hlt⟩, nofun⟩
      | follower =>
        have hbroadcast := @broadcastDecisionType_long _ { info with layersDiviNum := (m : ℤ) }
          requestKey _ h hchunks
        rw [rankQueue_follower hprepare hbroadcast, recvDoPrefillTypeUpdatePolicy,
          preparePrefillCutPolicy_of_pos hpos, Option.bind_eq_bind, Option.bind_some]
        rcases Nat.lt_or_ge 1 chunks.length with hmany | hone
        · obtain ⟨queue', hqueue', hexec'⟩ := @executes_queueChunks _ _ requestKey chunks edge h
            { info with prefillDpLen := ownLen, dpEmpty := ownEmpty } rfl m hpos (hmle.trans hle)
          refine iff_of_true ⟨queue', ?_, hexec'⟩ ⟨⟨rfl, hlt⟩, fun _ => hmany⟩
          rw [if_pos hmany, hchunks, Option.bind_some, hedge, Option.bind_some, hqueue']
        · -- the others take the request for one that is not long
          have hcuts : splitLongSeqByChunkNum cfg.cloudLayerNum m ≠ [] := by
            intro hnil
            have hsum := @splitLongSeqByChunkNum_sum cfg.cloudLayerNum m hpos
            rw [hnil] at hsum
            exact hlayers.ne hsum
          refine iff_of_false ?_ fun hcond => absurd (hcond.2 rfl) (Nat.not_lt.mpr hone)
          rintro ⟨queue', hqueue', -⟩
          rw [if_neg (Nat.not_lt.mpr hone), queueLayers_none (by exact h) hcuts] at hqueue'
          cases hqueue'
    · have hround := roundEven_div_eq_zero hlength hge
      rw [@updatePrefillLongSeqData_eq _ { info with layersDiviNum := (cutNum : ℤ) } _ _ _ hchunks
        hne hedge 0 (by push_cast; exact hround)] at hprepare
      exact iff_of_false (hnone hprepare) fun hcond => absurd hcond.1.2 (Nat.not_lt.mpr hge)
  | false =>
    refine iff_of_false ?_ fun hcond => Bool.false_ne_true hcond.1.1
    have hupdate : updatePrefillLayersDiviNum cfg cutNum info =
        some (splitLongSeqByChunkNum cfg.cloudLayerNum 5, info) := by
      rw [updatePrefillLayersDiviNum, hswitch, if_neg Bool.false_ne_true]
      show (preparePrefillCutPolicy cfg (5 : ℕ)).map (·, info) = _
      rw [preparePrefillCutPolicy_of_pos (by decide)]
      rfl
    have hprepare := @preparePrefillRequest_long _ _ requestKey _ h _ _ hupdate rfl
    rcases Nat.lt_or_ge 1 chunks.length with hmany | hone
    · -- minus one cut for several chunks is rounded to zero
      have hround : roundEven ((info.layersDiviNum : ℚ) / chunks.length) = 0 := by
        have hcast : (2 : ℚ) ≤ chunks.length := by exact_mod_cast hmany
        rw [hfresh]
        push_cast
        apply roundEven_eq_zero
        · rw [le_div_iff₀ (by linarith)]
          linarith
        · rw [div_le_iff₀ (by linarith)]
          linarith
      rw [updatePrefillLongSeqData_eq hchunks hne hedge hround] at hprepare
      exact hnone hprepare
    · have hlen : chunks.length = 1 := le_antisymm hone hlength
      have hround : roundEven ((info.layersDiviNum : ℚ) / chunks.length) = -1 := by
        rw [hfresh, hlen, Nat.cast_one, div_one]
        exact roundEven_intCast (-1)
      rw [updatePrefillLongSeqData_eq hchunks hne hedge hround, preparePrefillCutPolicy_neg_one,
        Option.bind_some, queueChunks_nil (by exact h)] at hprepare
      have hempty : rankQueue kind cfg cutNum info ownLen ownEmpty requestKey = some [] := by
        cases kind with
        | master => exact rankQueue_master hprepare
        | follower =>
          have hbroadcast := @broadcastDecisionType_long _ { info with layersDiviNum := -1 }
            requestKey _ h hchunks
          rw [rankQueue_follower hprepare hbroadcast, recvDoPrefillTypeUpdatePolicy,
            preparePrefillCutPolicy_neg_one, Option.bind_eq_bind, Option.bind_some,
            if_neg (Nat.not_lt.mpr hone)]
          rfl
      rintro ⟨queue, hqueue, hexec⟩
      rw [hempty] at hqueue
      obtain rfl := Option.some.inj hqueue
      exact not_executes_nil hlayers hne hexec

/-- **The ranks of the cloud.** For every number of cuts up to that of the layers and all chunks of
a request, a rank queues all layers in order for each chunk, and preparing does not raise, if and
only if the cuts suffice. -/
theorem executes_iff (kind : RankKind) (hcut : 0 < cutNum) (hle : cutNum ≤ cfg.cloudLayerNum)
    (hfresh : info.layersDiviNum = -1)
    (hchunks : cfg.getChunkLenPolicy info.prefillDpLen false = some chunks) (hne : chunks ≠ [])
    (hedge : cfg.getChunkLenPolicy info.prefillDpLen true = some edge) :
    (∃ queue, rankQueue kind cfg cutNum info ownLen ownEmpty requestKey = some queue ∧
        Executes cfg info chunks queue) ↔
      CutsSuffice kind cfg cutNum info chunks := by
  cases hlong : isLongSeq cfg info with
  | false => exact executes_short_iff kind hlong hcut hle hfresh
  | true => exact executes_long_iff kind hlong hcut hle hfresh hchunks hne hedge

end Ranks

/-! ## Two requests -/

/-- A rank of 62 layers, with so many chunks for a long request. -/
def cloudOf (chunkNum : ℕ) : CloudConfig where
  rank := 0
  currDpRank := 0
  cpSize := 1
  longSeqLenMin := 7500
  getChunkLenPolicy len _ := some (splitLongSeqByChunkNum len chunkNum)
  cloudLayerNum := 62

def requestOf (len : ℕ) : RequestInfo where
  request := ⟨[0], [[len]], Nat.le_refl 1⟩
  prefillDpLen := len
  prefillDpMaxSeqLen := len

/-- Five cuts of two chunks. -/
theorem executes_twoChunks :
    ∃ queue, rankQueue .follower (cloudOf 2) (5 : ℕ) (requestOf 8000) 8000 false 0 = some queue ∧
      Executes (cloudOf 2) (requestOf 8000) [4000, 4000] queue := by
  refine (executes_iff .follower (by decide) (by decide) rfl rfl (by decide) rfl).mpr ⟨rfl, ?_⟩
  intro _
  decide

/-- Five cuts of ten chunks: half a cut for a chunk is none, and the layers are divided by it. -/
theorem not_executes_tenChunks :
    ¬ ∀ (kind : RankKind) (cfg : CloudConfig) (cutNum : ℕ) (info : RequestInfo)
      (chunks edge : List ℕ), 0 < cutNum → cutNum ≤ cfg.cloudLayerNum → info.layersDiviNum = -1 →
      cfg.getChunkLenPolicy info.prefillDpLen false = some chunks → chunks ≠ [] →
      cfg.getChunkLenPolicy info.prefillDpLen true = some edge →
      ∃ queue, rankQueue kind cfg cutNum info info.prefillDpLen false 0 = some queue ∧
        Executes cfg info chunks queue := by
  intro h
  obtain ⟨queue, hqueue, -⟩ := h .master (cloudOf 10) 5 (requestOf 32768) _ _ (by decide)
    (by decide) rfl rfl (by decide) rfl
  have hnone : (rankQueue .master (cloudOf 10) (5 : ℕ) (requestOf 32768) 32768 false 0).isNone := by
    decide +kernel
  have heq : rankQueue .master (cloudOf 10) (5 : ℕ) (requestOf 32768) 32768 false 0 = some queue :=
    hqueue
  rw [heq] at hnone
  cases hnone

end MindieLLM.Layerwise
