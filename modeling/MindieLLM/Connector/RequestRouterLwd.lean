import Mathlib.Algebra.Order.Ring.Int
import Mathlib.Data.List.AList

/-!
# The layer-wise request router

In layer-wise disaggregation the first and the last layers of the model run at the edge and the
layers between them in the cloud. A prefill at the edge has two stages, P-first and P-last; that of
a long request is cut in chunks which have two stages each. In the cloud a prefill is cut by layers,
and by chunks if it is long.

Each rank of a side has a router with the requests it is at work on, and a queue with the stages to
come. What the routers of both sides share is here: the records in the queues and the lengths of a
request.

## Main definitions

* `DecisionType`, `DecisionMetadata`, `LwdMetadata`: what is to be executed
* `ExecuteRequest`, `RequestInfo`: the requests of a rank
* `Config`: what a rank knows from its start
* `splitLongSeqByChunkNum`, `ChunkPrefilPolicy`: the cut of a long request in chunks
-/

namespace MindieLLM.Layerwise

inductive DecisionType
  | doNothing
  | doPrefillFirst
  | doPrefill
  | doPrefillLast
  | doDecodeFirst
  | doDecode
  | doDecodeLast
  | doCleanUp
  | doCleanEos
  | waitComm
  | waitDecode
  deriving DecidableEq

structure DecisionMetadata where
  /-- the chunks of the cloud -/
  chunkGroupSize : ℕ := 1
  chunkGroupIndex : ℕ := 0
  /-- the chunks of the edge in one chunk of the cloud -/
  chunkIndexSize : ℕ := 1
  chunkIndexInGroup : ℕ := 0
  deriving DecidableEq

/-- One stage. At the edge the layers are `[0, 0]` in a first stage and `[1, 1]` in a last one. -/
structure LwdMetadata where
  requestKey : ℕ
  startExecLayer : ℕ
  endExecLayer : ℕ
  endOfGenerateToken : Bool
  isPrefill : Bool
  isDummyBatch : Bool
  requestDpEmpty : Bool
  cloudTotalLayer : ℕ
  isLongSeq : Bool
  longSeqStartIdx : ℕ
  longSeqEndIdx : ℕ
  hiddenStartPos : ℤ
  prefillTotalSeqLen : ℕ
  isLastChunk : Bool
  longSeqRecvList : List (ℤ × ℕ) := []
  deriving DecidableEq

/-- An entry of `prefill_metadata_queue`. -/
abbrev PrefillEntry : Type := ℕ × LwdMetadata × DecisionMetadata

/-! ## Requests -/

/-- What the routers read of a request: the data-parallel ranks of its sequences, and for each rank
that has some the lengths of its sequences. -/
structure ExecuteRequest where
  dpRankIds : List ℕ
  allDpBatchesSeqLens : List (List ℕ)
  length_le : dpRankIds.eraseDups.length ≤ allDpBatchesSeqLens.length

instance : DecidableEq ExecuteRequest := fun r r' =>
  decidable_of_iff
      (r.dpRankIds = r'.dpRankIds ∧ r.allDpBatchesSeqLens = r'.allDpBatchesSeqLens) <| by
    cases r
    cases r'
    simp

structure RequestInfo where
  request : ExecuteRequest
  layersDiviNum : ℤ := -1
  prefillDpLen : ℕ := 0
  prefillMetadataReady : Bool := false
  prefillDpMaxSeqLen : ℕ := 0
  dpEmpty : Bool := false
  deriving DecidableEq

/-- What a rank knows from its start. The policy says how the chunk manager cuts a request of some
length, at the edge (`true`) and in the cloud; without a value where it raises. -/
structure Config where
  rank : ℕ
  currDpRank : ℕ
  cpSize : ℕ
  longSeqLenMin : ℕ
  getChunkLenPolicy : ℕ → Bool → Option (List ℕ)

/-! ## The lengths of a request -/

/-- The number of tokens of the sequences that are at the rank's own data-parallel rank. -/
def calcCurrDpSeqLen (cfg : Config) (request : ExecuteRequest) : ℕ :=
  let allBatchDpRankIds := request.dpRankIds.eraseDups
  if cfg.currDpRank ∈ allBatchDpRankIds then
    (request.allDpBatchesSeqLens.getD (allBatchDpRankIds.idxOf cfg.currDpRank) []).sum
  else 0

def calcMaxSeqLen (request : ExecuteRequest) : ℕ := request.allDpBatchesSeqLens.flatten.foldl max 0

/-- Each sequence is padded to a multiple of `2 * cp_size`. -/
def calcCpSeqLen (cfg : Config) (request : ExecuteRequest) : ℕ :=
  let seqLensList := request.allDpBatchesSeqLens.flatten.map fun n =>
    n + (2 * cfg.cpSize - n % (2 * cfg.cpSize)) % (2 * cfg.cpSize)
  seqLensList.sum / cfg.cpSize

/-- `prefill_dp_len`; one with nothing to do at this rank has length one. -/
def prefillDpSeqLen (cfg : Config) (request : ExecuteRequest) : ℕ :=
  if 1 < cfg.cpSize then calcCpSeqLen cfg request
  else if calcCurrDpSeqLen cfg request = 0 then 1 else calcCurrDpSeqLen cfg request

def dpEmpty (cfg : Config) (request : ExecuteRequest) : Bool := calcCurrDpSeqLen cfg request = 0

def isLongRequest (cfg : Config) (request : ExecuteRequest) : Bool :=
  cfg.longSeqLenMin < calcMaxSeqLen request

/-! ## Chunks -/

/-- `list(accumulate(..))` with a zero before it. -/
def chunkPolicy (lens : List ℕ) : List ℕ := lens.scanl (· + ·) 0

/-- How the chunk manager cuts a length, without context parallelism. -/
def splitLongSeqByChunkNum (totalLen chunkNum : ℕ) : List ℕ :=
  let averageLen := totalLen / chunkNum
  let mod := totalLen % chunkNum
  if mod = 0 then List.replicate chunkNum averageLen
  else List.replicate mod (averageLen + 1) ++ List.replicate (chunkNum - mod) averageLen

/-- The chunk manager. Its maps have the ratios of the chunks by the length of a request in units of
1024 tokens (half a unit counts as one), the longest first. -/
structure ChunkPrefilPolicy where
  cpSize : ℕ
  ratioListDefaultEdgeMap : List (ℕ × List ℕ)
  ratioListDefaultCloudMap : List (ℕ × List ℕ)

/-- `get_chunk_len_policy`. With context parallelism a length is cut by the ratios, in floating
point and in multiples of a unit; without it only their number counts. -/
def ChunkPrefilPolicy.getChunkLenPolicy (splitLongSeqByRatio : ℕ → List ℕ → ℕ → Option (List ℕ))
    (p : ChunkPrefilPolicy) (prefillSeqLen : ℕ) (isEdge : Bool) : Option (List ℕ) :=
  let prefillChunkListMap :=
    if isEdge then p.ratioListDefaultEdgeMap else p.ratioListDefaultCloudMap
  let tmpKLen := (prefillSeqLen + 1023) / 1024
  let tmpChunkLenList :=
    ((prefillChunkListMap.find? fun entry => entry.1 ≤ tmpKLen).map Prod.snd).getD [1, 1]
  if 1 < p.cpSize then
    splitLongSeqByRatio prefillSeqLen tmpChunkLenList (if isEdge then 1024 else 2048)
  else some (splitLongSeqByChunkNum prefillSeqLen tmpChunkLenList.length)

end MindieLLM.Layerwise
