import MindieLLM.Connector.RequestRouterLwd

/-!
# The router of the edge

A prefill request that is not long is one chunk: its two stages go into the queue, the first before
the last entry that is there, so that the edge has work while the cloud is busy with the request
before. A long request is cut in chunks, and the chunks are put in groups, one for each chunk of the
cloud: the first stages of a group come before the last stages of the group before it.

`none` stands for an exception: `pop(0)` of an empty list or of `None`, an index that is out of
range, a policy that raises.

## Main definitions

* `getCloudEqEdgePrefillChunkNumList`: the sizes of the groups
* `prepareChunkPrefillMetadata`, `generateSendMetadataToQueue`: the entries of a long request
* `prepareLongPrefill`, `prepareShortPrefill`, `preparePrefillRequest`: a request enters the queue
* `calcDecisionType`, `arrangeExecStage`: a stage leaves a queue
-/

namespace MindieLLM.Layerwise

/-! ## Groups of chunks -/

/-- The first index from `lastChunkEndIndex` on whose offset is not before `cloudEndOffset`. -/
def findChunkEnd (prefillChunkPolicy : List ℕ) (lastChunkEndIndex cloudEndOffset : ℕ) : Option ℕ :=
  (List.range' lastChunkEndIndex (prefillChunkPolicy.length - lastChunkEndIndex)).find? fun i =>
    cloudEndOffset ≤ prefillChunkPolicy.getD i 0

/-- One round of the outer loop; the state is the list so far and `last_chunk_end_index`. -/
def eqChunkNumStep (prefillChunkPolicy : List ℕ) (s : List ℕ × ℕ) (cloudEndOffset : ℕ) :
    List ℕ × ℕ :=
  match findChunkEnd prefillChunkPolicy s.2 cloudEndOffset with
  | some i => (s.1 ++ [i - s.2], i)
  | none => s

/-- How many chunks of the edge make one of the cloud. -/
def getCloudEqEdgePrefillChunkNumList (prefillChunkPolicy cloudChunkPolicy : List ℕ) : List ℕ :=
  ((cloudChunkPolicy.drop 1).foldl (eqChunkNumStep prefillChunkPolicy) ([], 0)).1

/-! ## The metadata of a long request -/

/-- The list that `prepare_lt_chunk_num_prefill_metadata` fills: one chunk with all there is, and
dummies. -/
def ltChunkNumMetadataList (currDpSeqLen chunkNum : ℕ) (isPFirst : Bool) (requestKey : ℕ) :
    List LwdMetadata :=
  let startOrEndLayer := if isPFirst then 0 else 1
  ⟨requestKey, startOrEndLayer, startOrEndLayer, !isPFirst, true, false, true, 0, true, 0,
    currDpSeqLen, 0, currDpSeqLen, false, []⟩ ::
    (List.range' 1 (chunkNum - 1)).map fun i =>
      ⟨requestKey, startOrEndLayer, startOrEndLayer, false, true, true, true, 0, true, currDpSeqLen,
        currDpSeqLen, 0, currDpSeqLen, i == chunkNum - 1, []⟩

/-- The function ends after it has filled the list, and returns `None`. -/
def prepareLtChunkNumPrefillMetadata (currDpSeqLen chunkNum : ℕ) (isPFirst : Bool)
    (requestKey : ℕ) : Option (List LwdMetadata) :=
  let _metadataList := ltChunkNumMetadataList currDpSeqLen chunkNum isPFirst requestKey
  none

/-- The metadata of chunk `i`. -/
def chunkMetadata (prefillChunkPolicy : List ℕ) (currDpSeqLen : ℕ) (isPFirst : Bool)
    (requestKey i : ℕ) : LwdMetadata :=
  let startOrEndLayer := if isPFirst then 0 else 1
  let isLastChunk := i == prefillChunkPolicy.length - 1 - 1
  ⟨requestKey, startOrEndLayer, startOrEndLayer, isLastChunk && !isPFirst, true, false, false, 0,
    true, prefillChunkPolicy.getD i 0, prefillChunkPolicy.getD (i + 1) 0, 0, currDpSeqLen,
    isLastChunk, []⟩

/-- The list may be `None`. -/
def prepareChunkPrefillMetadata (cfg : Config) (prefillChunkPolicy : List ℕ) (currDpSeqLen : ℕ)
    (dpEmpty isPFirst : Bool) (requestKey : ℕ) : Option (List LwdMetadata) :=
  let chunkNum := prefillChunkPolicy.length - 1
  if dpEmpty || 2 * currDpSeqLen ≤ cfg.longSeqLenMin then
    prepareLtChunkNumPrefillMetadata currDpSeqLen chunkNum isPFirst requestKey
  else
    some <| (List.range chunkNum).map <|
      chunkMetadata prefillChunkPolicy currDpSeqLen isPFirst requestKey

/-! ## The queue -/

/-- `pop(0)` of a list, or of `None`. -/
def popFront {α : Type} : Option (List α) → Option (α × Option (List α))
  | some (a :: rest) => some (a, some rest)
  | _ => none

/-- The two lists of metadata and the queue, while the one goes into the other. -/
structure Filling where
  pFirstMetadataList : Option (List LwdMetadata)
  pLastMetadataList : Option (List LwdMetadata)
  queue : List PrefillEntry

namespace Filling

/-- The next first stage, as number `j` of group `group`. -/
def putFirst (requestKey chunkGroupSize group firstChunkNum : ℕ) (s : Filling) (j : ℕ) :
    Option Filling := do
  let (metadata, rest) ← popFront s.pFirstMetadataList
  let entry := (requestKey, metadata, ⟨chunkGroupSize, group, firstChunkNum, j⟩)
  return { s with pFirstMetadataList := rest, queue := s.queue ++ [entry] }

/-- The next last stage, with the place of its hidden states in what is received. -/
def putLast (requestKey chunkGroupSize group lastChunkNum : ℕ) (s : Filling × ℤ) (j : ℕ) :
    Option (Filling × ℤ) := do
  let (metadata, rest) ← popFront s.1.pLastMetadataList
  let metadata := { metadata with hiddenStartPos := s.2 }
  let entry := (requestKey, metadata, ⟨chunkGroupSize, group, lastChunkNum, j⟩)
  return ({ s.1 with pLastMetadataList := rest, queue := s.1.queue ++ [entry] },
    s.2 + (metadata.longSeqEndIdx - metadata.longSeqStartIdx))

def putFirsts (requestKey chunkGroupSize group firstChunkNum : ℕ) (s : Filling) : Option Filling :=
  (List.range firstChunkNum).foldlM (putFirst requestKey chunkGroupSize group firstChunkNum) s

def putLasts (requestKey chunkGroupSize group lastChunkNum : ℕ) (s : Filling) : Option Filling := do
  let (s, _) ← (List.range lastChunkNum).foldlM
    (putLast requestKey chunkGroupSize group lastChunkNum) (s, 0)
  return s

/-- `queue[-1][1].long_seq_recv_list = [(0, recv_len)]`. -/
def setRecvList (recvLen : ℕ) (s : Filling) : Option Filling := do
  let (requestKey, metadata, decision) ← s.queue.getLast?
  let entry := (requestKey, { metadata with longSeqRecvList := [(0, recvLen)] }, decision)
  return { s with queue := s.queue.dropLast ++ [entry] }

/-- The first stages of group `i` and the last stages of the group before. -/
def putGroup (requestKey : ℕ) (cloudEqEdgeChunkNumList cloudChunkLenPolicy : List ℕ) (s : Filling)
    (i : ℕ) : Option Filling := do
  let chunkGroupSize := cloudEqEdgeChunkNumList.length
  let firstChunkNum ← cloudEqEdgeChunkNumList[i]?
  let lastChunkNum ← cloudEqEdgeChunkNumList[i - 1]?
  let s ← s.putFirsts requestKey chunkGroupSize i firstChunkNum
  let s ← s.setRecvList (← cloudChunkLenPolicy[i - 1]?)
  s.putLasts requestKey chunkGroupSize (i - 1) lastChunkNum

end Filling

/-- The last entries, which are to come after the first group of a new request. -/
def tailSize (queue : List PrefillEntry) (lastChunkNumEqCloud : ℕ) : ℕ :=
  if lastChunkNumEqCloud ≤ queue.length then lastChunkNumEqCloud else 0

def generateSendMetadataToQueue (queue : List PrefillEntry) (requestKey : ℕ)
    (cloudEqEdgeChunkNumList : List ℕ)
    (pFirstMetadataList pLastMetadataList : Option (List LwdMetadata)) (lastChunkNumEqCloud : ℕ)
    (cloudChunkLenPolicy : List ℕ) : Option (List PrefillEntry) := do
  let kept := queue.length - tailSize queue lastChunkNumEqCloud
  -- popped from the right, and put back from the right of the list they are in meanwhile
  let tmpMetadataList := (queue.drop kept).reverse
  let chunkGroupSize := cloudEqEdgeChunkNumList.length
  let firstChunkNum ← cloudEqEdgeChunkNumList[0]?
  let s : Filling := ⟨pFirstMetadataList, pLastMetadataList, queue.take kept⟩
  let s ← s.putFirsts requestKey chunkGroupSize 0 firstChunkNum
  let s := { s with queue := s.queue ++ tmpMetadataList.reverse }
  let s ← (List.range' 1 (chunkGroupSize - 1)).foldlM
    (Filling.putGroup requestKey cloudEqEdgeChunkNumList cloudChunkLenPolicy) s
  let s ← s.setRecvList (← cloudChunkLenPolicy.getLast?)
  let s ← s.putLasts requestKey chunkGroupSize (chunkGroupSize - 1)
    (← cloudEqEdgeChunkNumList.getLast?)
  return s.queue

/-- The size of the group of the last entry. -/
def edgeEqLastChunkNum (queue : List PrefillEntry) : ℕ :=
  match queue.getLast? with
  | some (_, _, decision) => decision.chunkIndexSize
  | none => 0

/-- `prepare_chunk_prefill_metadata_queue`. -/
def prepareLongPrefill (cfg : Config) (queue : List PrefillEntry) (currDpSeqLen : ℕ)
    (dpEmpty : Bool) (requestKey : ℕ) : Option (List PrefillEntry) := do
  let chunkLenPolicy ← cfg.getChunkLenPolicy currDpSeqLen true
  let prefillChunkPolicy := chunkPolicy chunkLenPolicy
  let cloudChunkLenPolicy ← cfg.getChunkLenPolicy currDpSeqLen false
  let cloudChunkPolicy := chunkPolicy cloudChunkLenPolicy
  generateSendMetadataToQueue queue requestKey
    (getCloudEqEdgePrefillChunkNumList prefillChunkPolicy cloudChunkPolicy)
    (prepareChunkPrefillMetadata cfg prefillChunkPolicy currDpSeqLen dpEmpty true requestKey)
    (prepareChunkPrefillMetadata cfg prefillChunkPolicy currDpSeqLen dpEmpty false requestKey)
    (edgeEqLastChunkNum queue) cloudChunkLenPolicy

def shortMetadata (requestKey layer : ℕ) (endOfGenerateToken : Bool) : LwdMetadata :=
  ⟨requestKey, layer, layer, endOfGenerateToken, true, false, false, 0, false, 0, 0, 0, 0, false,
    []⟩

/-- What `prepare_prefill_request` does for a request that is not long: its first stage goes before
the last entry. -/
def prepareShortPrefill (queue : List PrefillEntry) (requestKey : ℕ) : List PrefillEntry :=
  let first := (requestKey, shortMetadata requestKey 0 false, {})
  let last := (requestKey, shortMetadata requestKey 1 true, {})
  match queue.getLast? with
  | some lastMetadata => queue.dropLast ++ [first] ++ [lastMetadata] ++ [last]
  | none => queue ++ [first] ++ [last]

/-- `prepare_prefill_request`, as far as the queue. -/
def prepareQueue (cfg : Config) (queue : List PrefillEntry) (requestKey : ℕ)
    (request : ExecuteRequest) : Option (List PrefillEntry) :=
  if isLongRequest cfg request then
    prepareLongPrefill cfg queue (prefillDpSeqLen cfg request) (dpEmpty cfg request) requestKey
  else some (prepareShortPrefill queue requestKey)

/-- The two stages of a decode. -/
def prepareDecodeRequest (queue : List (ℕ × LwdMetadata)) (requestKey : ℕ) :
    List (ℕ × LwdMetadata) :=
  let first : LwdMetadata :=
    ⟨requestKey, 0, 0, false, false, false, false, 0, false, 0, 0, 0, 0, false, []⟩
  let last : LwdMetadata :=
    ⟨requestKey, 1, 1, true, false, false, false, 0, false, 0, 0, 0, 0, false, []⟩
  queue ++ [(requestKey, first)] ++ [(requestKey, last)]

/-! ## Decisions -/

/-- What a decision depends on apart from the queues: which messages from the cloud have come,
whether a decode was the last stage less than ten milliseconds ago, and what cleaning is due. -/
structure Signals where
  prefillCommFinish : Bool
  decodeCommFinish : Bool
  forceWaitDTime : Bool
  cleanEos : Bool
  cleanUp : Bool
  deriving DecidableEq

def isFirstStage (metadata : Option LwdMetadata) : Bool :=
  metadata.any fun m => m.startExecLayer == 0

def isLastStage (metadata : Option LwdMetadata) : Bool :=
  metadata.any fun m => m.endExecLayer == 1

def calcPrefillPriorityDecisionType (sig : Signals) (prefill decode : Option LwdMetadata) :
    DecisionType :=
  if sig.forceWaitDTime && isFirstStage decode then .doDecodeFirst
  else if sig.forceWaitDTime then .waitDecode
  else if isFirstStage prefill then .doPrefillFirst
  else if isLastStage prefill && sig.prefillCommFinish then .doPrefillLast
  else if isFirstStage decode then .doDecodeFirst
  else if isLastStage decode && sig.decodeCommFinish then .doDecodeLast
  else .waitComm

def calcDecodePriorityDecisionType (sig : Signals) (prefill decode : Option LwdMetadata) :
    DecisionType :=
  if isFirstStage decode then .doDecodeFirst
  else if isLastStage decode && sig.decodeCommFinish then .doDecodeLast
  else if isFirstStage prefill then .doPrefillFirst
  else if isLastStage prefill && sig.prefillCommFinish then .doPrefillLast
  else .waitComm

/-- The two queues of a rank. -/
structure Queues where
  prefillMetadataQueue : List PrefillEntry := []
  decodeMetadataQueue : List (ℕ × LwdMetadata) := []
  deriving DecidableEq

def calcDecisionType (sig : Signals) (q : Queues) : DecisionType :=
  let prefill := q.prefillMetadataQueue.head?.map fun entry => entry.2.1
  let decode := q.decodeMetadataQueue.head?.map fun entry => entry.2
  if sig.cleanEos then .doCleanEos
  else if sig.cleanUp && q.prefillMetadataQueue.isEmpty && q.decodeMetadataQueue.isEmpty then
    .doCleanUp
  else if prefill.any fun m => m.isLongSeq then calcDecodePriorityDecisionType sig prefill decode
  else calcPrefillPriorityDecisionType sig prefill decode

/-- What a decision takes from the queues: a key and the metadata of a stage, or nothing. -/
def arrangeExecStage (q : Queues) : DecisionType → Option (Option (ℕ × LwdMetadata) × Queues)
  | .doDecodeFirst | .doDecodeLast =>
    match q.decodeMetadataQueue with
    | entry :: rest => some (some entry, { q with decodeMetadataQueue := rest })
    | [] => none
  | .doPrefillFirst | .doPrefillLast =>
    match q.prefillMetadataQueue with
    | (key, metadata, _) :: rest =>
      some (some (key, metadata), { q with prefillMetadataQueue := rest })
    | [] => none
  | _ => some (none, q)

end MindieLLM.Layerwise
