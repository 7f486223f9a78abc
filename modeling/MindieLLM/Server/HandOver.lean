import MindieLLM.Server.DecodeParameters

/-!
# The request on the decode node

The decode node builds its own request and parameters from the message of the prefill node. Every
field is copied by hand on both sides.

## Main definitions

* `getContextJsonBody`, `updateInferRequest`, `generateInferRequest`: how the decode node reads
  the message
* `Agrees`: the decode node has what the prefill node had
* `Carried`: the request uses nothing that the message has no field for

## Main results

* `agrees_iff_carried`: the two nodes agree exactly on the requests that are carried
* `not_agrees_toolHandler`: the schema of the tools is lost
-/

namespace MindieLLM.HandOver

open ReqHandler

/-! ## The decode node -/

structure KvCacheInfo where
  blockTable : List (List ℤ) := []
  dpInstanceIds : List UInt64 := []

/-- What came with the call. -/
structure GrpcContext where
  decodeParams : DecodeParameters
  kvCacheInfo : KvCacheInfo

def handleDecodeRequest (para : DecodeParameters) : GrpcContext where
  decodeParams := para
  kvCacheInfo := { blockTable := para.blockTable, dpInstanceIds := para.dpInstanceIds }

/-- What the decode node has built so far. -/
structure Decoded where
  inputParam : InferParam := {}
  request : Request := { requestId := "0" }
  reqTokens : List ℤ := []
  respTokens : List ℤ := []

def getContextSamplingParamsFirst (samplingParams : SamplingParams) (request : Request) :
    Request :=
  { request with
    temperature := samplingParams.temperature.or request.temperature
    topK := (samplingParams.topK.map UInt32.toInt32).or request.topK
    topP := samplingParams.topP.or request.topP
    typicalP := samplingParams.typicalP.or request.typicalP
    doSample := samplingParams.doSample.or request.doSample
    seed := samplingParams.seed.or request.seed
    repetitionPenalty := samplingParams.repetitionPenalty.or request.repetitionPenalty }

/-- The window is counted in bytes here. -/
def stopWindow (list : List String) : UInt32 :=
  list.foldl (fun window s => max window (.ofNat s.utf8ByteSize)) 0

def getContextSamplingStopWords (samplingParams : SamplingParams) (d : Decoded) : Decoded :=
  let request := { d.request with
    stopTokenIds := if samplingParams.stopTokenIds = [] then d.request.stopTokenIds
      else some samplingParams.stopTokenIds
    stopStrings := samplingParams.stopStrings.or d.request.stopStrings
    stopStrList := if samplingParams.stopStringsList = [] then d.request.stopStrList
      else some samplingParams.stopStringsList
    windowSize := stopWindow samplingParams.stopStringsList
    includeStopStrInOutput :=
      samplingParams.includeStopStrInOutput.or d.request.includeStopStrInOutput }
  if d.inputParam.streamMode && request.hasStopWords then
    -- the maps have no other key by now
    { d with
      request := request
      inputParam := { d.inputParam with
        prevDecodeIndex := [(specialSeqIdPreset, .ofNat d.inputParam.preOutputTokenNum)]
        currentDecodeIndex := [(specialSeqIdPreset, .ofNat d.inputParam.preOutputTokenNum)] } }
  else
    { d with request := request }

def getContextSamplingParamsNext (samplingParams : SamplingParams) (d : Decoded) : Decoded :=
  let d := { d with request := { d.request with
    watermark := samplingParams.watermark.or d.request.watermark
    frequencyPenalty := samplingParams.frequencyPenalty.or d.request.frequencyPenalty
    presencyPenalty := samplingParams.presencyPenalty.or d.request.presencyPenalty } }
  let d := getContextSamplingStopWords samplingParams d
  { d with
    request := { d.request with
      skipSpecialTokens := samplingParams.skipSpecialTokens.or d.request.skipSpecialTokens
      ignoreEos := samplingParams.ignoreEos.or d.request.ignoreEos
      logprobs := samplingParams.logprobs.or d.request.logprobs
      topLogprobs := (samplingParams.topLogprobs.map UInt64.toUInt32).or d.request.topLogprobs
      enableThinking := samplingParams.enableThinking.or d.request.enableThinking
      thinkingBudget := samplingParams.thinkingBudget.or d.request.thinkingBudget
      isThinking := samplingParams.isThinking.getD d.request.isThinking
      responseFormat := samplingParams.responseFormat.or d.request.responseFormat }
    inputParam := { d.inputParam with
      enableThinking := samplingParams.enableThinking.or d.inputParam.enableThinking
      thinkingBudget := samplingParams.thinkingBudget.or d.inputParam.thinkingBudget } }

def getContextInferParams (inferParams : InferParams) (d : Decoded) : Decoded :=
  { d with
    request := { d.request with priority := inferParams.priority }
    inputParam := { d.inputParam with timeout := inferParams.timeout } }

def fillRespTokensAndReplayIds (params : DecodeParameters) (d : Decoded) : Decoded :=
  let tokenNum : ℤ := params.firstToken.length
  let replayStartIdx := max 0 (tokenNum - params.prefillTokenNum.toNat)
  { d with
    request := { d.request with
      prefillReplayTokenIds := params.firstToken.drop replayStartIdx.toNat }
    respTokens := d.respTokens ++ params.firstToken }

/-- The parameters that are read first. -/
def readInferParam (maxIterTimes : UInt32) (params : DecodeParameters) (inputParam : InferParam) :
    InferParam :=
  { inputParam with
    batchSize := params.batchSize
    showDetails := params.details
    maxNewTokens := if params.maxNewToken = 0 then maxIterTimes.toInt32 else params.maxNewToken
    streamMode := params.isStream
    returnFullText := params.returnFullText
    decoderInputDetails := params.decoderInputDetails
    tools := params.tools
    toolChoice := params.toolChoice
    model := params.modelName
    prevDecodeIndex := [(specialSeqIdPreset, params.prevdecodeindex)]
    currentDecodeIndex := [(specialSeqIdPreset, params.currentdecodeindex)]
    preOutputTokenNum := params.preOutputTokenNum.toNat
    respStreamStr := [(specialSeqIdPreset, params.postsingletext)]
    useToolsCall := params.useToolCall
    isChatReq := params.msgType = .openai || params.msgType = .vllmOpenai }

def getContextJsonBody (maxIterTimes : UInt32) (params : DecodeParameters) (d : Decoded) :
    Decoded :=
  let d := { d with
    inputParam := readInferParam maxIterTimes params d.inputParam
    request := { d.request with requestId := params.id, loraId := params.loraId }
    reqTokens := d.reqTokens ++ params.tokens }
  let d := fillRespTokensAndReplayIds params d
  let d := { d with
    inputParam := { d.inputParam with
      outputNames := d.inputParam.outputNames ++ params.outputNames }
    request := getContextSamplingParamsFirst params.samplingParams d.request }
  let d := getContextSamplingParamsNext params.samplingParams d
  let d := getContextInferParams params.inferParams d
  { d with
    inputParam := { d.inputParam with
      userInputId := params.inputId.or d.inputParam.userInputId
      textInput := params.textInput.getD d.inputParam.textInput
      outputLenOffset := d.respTokens.length - params.prefillTokenNum.toNat } }

def updateInferRequest (ctx : GrpcContext) (request : Request) : Request :=
  { request with
    reqType := .decode
    pInstanceId := some ctx.decodeParams.pInstanceId
    srcBlockTable := ctx.kvCacheInfo.blockTable
    dpInstanceIds := ctx.kvCacheInfo.dpInstanceIds.map fun dpRank =>
      (ctx.decodeParams.pInstanceId * 10000).toUInt64 + dpRank
    ignoreEos := some (ctx.decodeParams.samplingParams.ignoreEos.getD false) }

def generateInferRequest (ctx : GrpcContext) (d : Decoded) : Except String Decoded :=
  let request := updateInferRequest ctx { d.request with
    inputIds := d.reqTokens ++ d.respTokens
    inputTokenNum := d.reqTokens.length }
  if 0 < d.inputParam.maxNewTokens then
    let maxOutputLen := d.inputParam.maxNewTokens - .ofNat d.inputParam.outputLenOffset
    if maxOutputLen < 0 then
      if d.inputParam.thinkingBudget.any (0 < ·) then
        .ok { d with request := { request with maxOutputLen := 0 } }
      else
        .error ("MaxNewTokens is less than already generated tokens. The requestId is " ++
          request.requestId)
    else
      .ok { d with request := { request with maxOutputLen := maxOutputLen.toInt64.toUInt64 } }
  else
    .ok { d with request := request }

/-- The decode node, from the message to the request that it forwards. -/
def decodeProcess (maxIterTimes : UInt32) (params : DecodeParameters) : Except String Decoded :=
  generateInferRequest (handleDecodeRequest params) (getContextJsonBody maxIterTimes params {})

/-- What it has built from the message when only the output budget is missing. -/
def decoded (maxIterTimes : UInt32) (params : DecodeParameters) : Decoded :=
  let d := getContextJsonBody maxIterTimes params {}
  { d with request := updateInferRequest (handleDecodeRequest params) d.request }

/-! ## Agreement -/

/-- Sampling, penalties, log probabilities and the response format. Unset, `ignoreEos` is false. -/
structure SameSampling (r r' : Request) : Prop where
  temperature : r'.temperature = r.temperature
  topK : r'.topK = r.topK
  topP : r'.topP = r.topP
  typicalP : r'.typicalP = r.typicalP
  doSample : r'.doSample = r.doSample
  seed : r'.seed = r.seed
  repetitionPenalty : r'.repetitionPenalty = r.repetitionPenalty
  watermark : r'.watermark = r.watermark
  frequencyPenalty : r'.frequencyPenalty = r.frequencyPenalty
  presencyPenalty : r'.presencyPenalty = r.presencyPenalty
  ignoreEos : r'.ignoreEos.getD false = r.ignoreEos.getD false
  skipSpecialTokens : r'.skipSpecialTokens = r.skipSpecialTokens
  bestOf : r'.bestOf = r.bestOf
  n : r'.n = r.n
  useBeamSearch : r'.useBeamSearch = r.useBeamSearch
  logprobs : r'.logprobs = r.logprobs
  topLogprobs : r'.topLogprobs = r.topLogprobs
  responseFormat : r'.responseFormat = r.responseFormat

/-- What stops the generation. An empty list of tokens is as none. -/
structure SameStopWords (r r' : Request) : Prop where
  stopTokenIds : r'.stopTokenIds = r.stopTokenIds.filter (· ≠ [])
  stopStrings : r'.stopStrings = r.stopStrings
  stopStrList : r'.stopStrList = r.stopStrList
  includeStopStrInOutput : r'.includeStopStrInOutput = r.includeStopStrInOutput
  windowSize : r'.windowSize = r.windowSize

/-- What the thinking is to be, in the request and the parameters of a node. -/
structure SameThinking (r : Request) (p : InferParam) (r' : Request) (p' : InferParam) :
    Prop where
  request_enable : r'.enableThinking = r.enableThinking
  request_budget : r'.thinkingBudget = r.thinkingBudget
  param_enable : p'.enableThinking = p.enableThinking
  param_budget : p'.thinkingBudget = p.thinkingBudget

/-- The tools, their choice, and the schema that the output is parsed with. -/
structure SameTools (p p' : InferParam) : Prop where
  tools : p'.tools = p.tools
  toolChoice : p'.toolChoice = p.toolChoice
  useToolsCall : p'.useToolsCall = p.useToolsCall
  toolCallsJson : p'.toolCallsJson = p.toolCallsJson
  isChatReq : p'.isChatReq = p.isChatReq

/-- What a limit leaves after some tokens. A request over its limit is refused, unless it may still
think. -/
def budgetLeft (limit : Int32) (generated : ℕ) (thinkingBudget : Option UInt32) : Option ℤ :=
  if limit.toInt < generated then
    if thinkingBudget.any (0 < ·) then some 0 else none
  else
    some (limit.toInt - generated)

/-- The decode node has what the prefill node had. -/
structure Agrees (h : PrefillHandler) (content : ResponseContent) (d : Decoded)
    (result : Except String Decoded) : Prop where
  prompt : d.reqTokens = h.prompt
  outputs : d.respTokens = h.generated ++ h.firstToken
  replay : d.request.prefillReplayTokenIds = h.firstToken
  sampling : SameSampling h.request d.request
  stopWords : SameStopWords h.request d.request
  thinking : SameThinking h.request h.inferParam d.request d.inputParam
  isThinking : d.request.isThinking = content.isThinking
  tools : SameTools h.inferParam d.inputParam
  loraId : d.request.loraId = h.request.loraId
  priority : d.request.priority = h.request.priority
  timeout : d.inputParam.timeout = h.inferParam.timeout
  streamMode : d.inputParam.streamMode = h.inferParam.streamMode
  delivered : d.inputParam.preOutputTokenNum = h.inferParam.preOutputTokenNum
  decodeIndex : (h.inferParam.streamMode && h.request.hasStopWords) = false →
    d.inputParam.prevDecodeIndex =
        [(specialSeqIdPreset, h.inferParam.prevDecodeIndex.first?.getD 0)] ∧
      d.inputParam.currentDecodeIndex =
        [(specialSeqIdPreset, h.inferParam.currentDecodeIndex.first?.getD 0)]
  blockTable : d.request.srcBlockTable = content.srcBlockTable
  limit : d.inputParam.maxNewTokens = h.inferParam.maxNewTokens
  budget : result.toOption.map (fun d => (d.request.maxOutputLen.toNat : ℤ)) =
    budgetLeft h.inferParam.maxNewTokens h.generated.length h.inferParam.thinkingBudget

/-- The request uses nothing that the message has no field for. -/
structure Carried (maxIterTimes : UInt32) (h : PrefillHandler) : Prop where
  toolCallsJson : h.inferParam.toolCallsJson = none
  bestOf : h.request.bestOf = none
  n : h.request.n = none
  useBeamSearch : h.request.useBeamSearch = none
  stopStrList : h.request.stopStrList ≠ some []
  windowSize : h.request.windowSize = stopWindow (h.request.stopStrList.getD [])
  enableThinking : h.request.enableThinking = h.inferParam.enableThinking
  thinkingBudget : h.inferParam.thinkingBudget = h.request.thinkingBudget
  isChatReq : h.inferParam.isChatReq = decide (h.msgType = .openai ∨ h.msgType = .vllmOpenai)
  limit_pos : 0 < h.inferParam.maxNewTokens
  limit_eq : h.inferParam.isMaxNewTokensSetByUser = false →
    h.inferParam.maxNewTokens = maxIterTimes.toInt32

/-! ## What is read back -/

section ReadBack

variable (maxIterTimes : UInt32) (h : PrefillHandler) (content : ResponseContent)

/-- The stop words that the decode node reads from the message. -/
def readStopWords (samplingParams : SamplingParams) (request : Request) : Request :=
  { request with
    stopTokenIds := if samplingParams.stopTokenIds = [] then request.stopTokenIds
      else some samplingParams.stopTokenIds
    stopStrings := samplingParams.stopStrings.or request.stopStrings
    stopStrList := if samplingParams.stopStringsList = [] then request.stopStrList
      else some samplingParams.stopStringsList
    windowSize := stopWindow samplingParams.stopStringsList
    includeStopStrInOutput :=
      samplingParams.includeStopStrInOutput.or request.includeStopStrInOutput }

theorem getContextSamplingStopWords_eq (samplingParams : SamplingParams) (d : Decoded) :
    getContextSamplingStopWords samplingParams d =
      { d with
        request := readStopWords samplingParams d.request
        inputParam := { d.inputParam with
          prevDecodeIndex :=
            if d.inputParam.streamMode && (readStopWords samplingParams d.request).hasStopWords
            then [(specialSeqIdPreset, .ofNat d.inputParam.preOutputTokenNum)]
            else d.inputParam.prevDecodeIndex
          currentDecodeIndex :=
            if d.inputParam.streamMode && (readStopWords samplingParams d.request).hasStopWords
            then [(specialSeqIdPreset, .ofNat d.inputParam.preOutputTokenNum)]
            else d.inputParam.currentDecodeIndex } } := by
  simp only [getContextSamplingStopWords, readStopWords]
  split_ifs <;> rfl

/-- The request of the decode node, in terms of the one of the prefill node. -/
def handedOver (r : Request) : Request where
  requestId := r.requestId
  ignoreEos := some (r.ignoreEos.getD false)
  windowSize := stopWindow (r.stopStrList.getD [])
  temperature := r.temperature
  topK := r.topK
  topP := r.topP
  enableThinking := h.inferParam.enableThinking
  thinkingBudget := r.thinkingBudget
  typicalP := r.typicalP
  doSample := r.doSample
  seed := r.seed
  repetitionPenalty := r.repetitionPenalty
  watermark := r.watermark
  frequencyPenalty := r.frequencyPenalty
  presencyPenalty := r.presencyPenalty
  stopTokenIds := r.stopTokenIds.filter (· ≠ [])
  stopStrings := r.stopStrings
  stopStrList := r.stopStrList.filter (· ≠ [])
  includeStopStrInOutput := r.includeStopStrInOutput
  skipSpecialTokens := r.skipSpecialTokens
  topLogprobs := r.topLogprobs
  logprobs := r.logprobs
  responseFormat := r.responseFormat
  prefillReplayTokenIds := h.firstToken
  priority := r.priority
  loraId := r.loraId
  reqType := .decode
  pInstanceId := some h.pInstanceId
  srcBlockTable := content.srcBlockTable
  dpInstanceIds :=
    [(h.pInstanceId * 10000).toUInt64 + content.singleLLMPrefillReqHandlerId.toUInt64]
  isThinking := content.isThinking

/-- A list is sent as its elements, so an empty one comes back as none. -/
theorem some_getD_nil {α : Type} [DecidableEq α] (list : Option (List α)) :
    (if list.getD [] = [] then none else some (list.getD [])) = list.filter (· ≠ []) := by
  cases list with
  | none => rfl
  | some l => by_cases hl : l = [] <;> simp [hl, Option.filter]

/-- The first tokens are the last of the tokens sent. -/
theorem replay_eq {α : Type} (generated firstToken : List α) (hlt : firstToken.length < 2 ^ 31) :
    (generated ++ firstToken).drop (max 0 (((generated ++ firstToken).length : ℤ) -
      (UInt32.ofNat firstToken.length).toNat)).toNat = firstToken := by
  have hnum : (UInt32.ofNat firstToken.length).toNat = firstToken.length :=
    UInt32.toNat_ofNat_of_lt' (Nat.lt_trans hlt (by decide))
  have hidx : (max 0 (((generated ++ firstToken).length : ℤ) - firstToken.length)).toNat =
      generated.length := by
    simp
  rw [hnum, hidx, List.drop_left]

theorem drop_min_length {α : Type} (tokens : List α) (n : ℕ) :
    tokens.drop (min n tokens.length) = tokens.drop n := by
  rcases Nat.le_total n tokens.length with hle | hle
  · rw [Nat.min_eq_left hle]
  · rw [Nat.min_eq_right hle, List.drop_length, List.drop_eq_nil_of_le hle]

theorem decoded_request :
    (decoded maxIterTimes (h.buildDecodeParameters content)).request =
      handedOver h content h.request := by
  have hreplay := replay_eq h.generated h.firstToken (by have := h.length_lt; omega)
  rw [PrefillHandler.generated] at hreplay
  simp only [decoded, getContextJsonBody, getContextInferParams, getContextSamplingParamsNext,
    getContextSamplingStopWords_eq, readStopWords, getContextSamplingParamsFirst,
    fillRespTokensAndReplayIds, updateInferRequest, PrefillHandler.buildDecodeParameters,
    PrefillHandler.buildSamplingParametersNext, PrefillHandler.buildSamplingParametersFirst,
    PrefillHandler.buildInferParameters, handleDecodeRequest, handedOver,
    drop_min_length, hreplay, some_getD_nil, List.nil_append, Option.or_none, Option.map_map,
    Function.comp_def, Int32.toInt32_toUInt32, UInt32.toUInt32_toUInt64, Option.map_id',
    Option.getD_some, List.map_cons, List.map_nil]

/-- The limit that the decode node reads. -/
def readLimit : Int32 :=
  if h.inferParam.isMaxNewTokensSetByUser = true ∧ h.inferParam.maxNewTokens ≠ 0 then
    h.inferParam.maxNewTokens
  else
    maxIterTimes.toInt32

/-- The parameters of the decode node, in terms of those of the prefill node. -/
def handedOverParam (p : InferParam) : InferParam where
  timeout := p.timeout
  userInputId := p.userInputId
  textInput := p.textInput
  streamMode := p.streamMode
  maxNewTokens := readLimit maxIterTimes h
  outputLenOffset := h.generated.length
  showDetails := p.showDetails
  returnFullText := p.returnFullText
  decoderInputDetails := p.decoderInputDetails
  batchSize := p.batchSize
  tools := p.tools
  toolChoice := p.toolChoice
  useToolsCall := p.useToolsCall
  enableThinking := p.enableThinking
  thinkingBudget := h.request.thinkingBudget
  isChatReq := decide (h.msgType = .openai ∨ h.msgType = .vllmOpenai)
  model := h.modelName
  outputNames := p.outputNames
  prevDecodeIndex := [(specialSeqIdPreset,
    if p.streamMode && h.request.hasStopWords then .ofNat p.preOutputTokenNum
    else p.prevDecodeIndex.first?.getD 0)]
  currentDecodeIndex := [(specialSeqIdPreset,
    if p.streamMode && h.request.hasStopWords then .ofNat p.preOutputTokenNum
    else p.currentDecodeIndex.first?.getD 0)]
  preOutputTokenNum := p.preOutputTokenNum
  respStreamStr := [(specialSeqIdPreset, p.postSingleText.first?.getD "")]

theorem hasStopWords_congr {r r' : Request} (hstrings : r'.stopStrings = r.stopStrings)
    (hids : r'.stopTokenIds = r.stopTokenIds.filter (· ≠ [])) :
    r'.hasStopWords = r.hasStopWords := by
  rw [Request.hasStopWords, Request.hasStopWords, hstrings, hids]
  cases r.stopTokenIds with
  | none => rfl
  | some ids => by_cases hnil : ids = [] <;> simp [hnil, Option.filter]

/-- The decode node sees stop words exactly when the prefill node does. -/
theorem hasStopWords_readStopWords (request : Request) (hstrings : request.stopStrings = none)
    (hids : request.stopTokenIds = none) :
    (readStopWords (h.buildDecodeParameters content).samplingParams request).hasStopWords =
      h.request.hasStopWords := by
  refine hasStopWords_congr ?_ ?_
  · simp [readStopWords, PrefillHandler.buildDecodeParameters,
      PrefillHandler.buildSamplingParametersNext, PrefillHandler.buildSamplingParametersFirst,
      hstrings]
  · rw [← some_getD_nil]
    simp [readStopWords, PrefillHandler.buildDecodeParameters,
      PrefillHandler.buildSamplingParametersNext, PrefillHandler.buildSamplingParametersFirst,
      hids]

theorem readLimit_eq :
    (if (h.buildDecodeParameters content).maxNewToken = 0 then maxIterTimes.toInt32
      else (h.buildDecodeParameters content).maxNewToken) = readLimit maxIterTimes h := by
  simp only [PrefillHandler.buildDecodeParameters, readLimit]
  by_cases hset : h.inferParam.isMaxNewTokensSetByUser = true <;>
    by_cases hzero : h.inferParam.maxNewTokens = 0 <;> simp [hset, hzero]

theorem outputLenOffset_eq :
    (h.buildDecodeParameters content).firstToken.length -
      (h.buildDecodeParameters content).prefillTokenNum.toNat = h.generated.length := by
  have hlt := h.length_lt
  have hnum : (UInt32.ofNat h.firstToken.length).toNat = h.firstToken.length :=
    UInt32.toNat_ofNat_of_lt' (Nat.lt_trans (by omega : _ < 2 ^ 31) (by decide))
  simp only [PrefillHandler.buildDecodeParameters, drop_min_length, hnum, List.length_append,
    PrefillHandler.generated]
  omega

theorem decoded_inputParam :
    (decoded maxIterTimes (h.buildDecodeParameters content)).inputParam =
      handedOverParam maxIterTimes h h.inferParam := by
  have hnum : (UInt32.ofNat h.inferParam.preOutputTokenNum).toNat =
      h.inferParam.preOutputTokenNum :=
    UInt32.toNat_ofNat_of_lt' h.preOutputTokenNum_lt
  have hlimit := readLimit_eq maxIterTimes h content
  have hoffset := outputLenOffset_eq h content
  have hstream : (h.buildDecodeParameters content).isStream = h.inferParam.streamMode :=
    h.streamMode_eq
  simp only [decoded, getContextJsonBody, getContextInferParams, getContextSamplingParamsNext,
    getContextSamplingStopWords_eq, fillRespTokensAndReplayIds, readInferParam, List.nil_append,
    hlimit, hoffset, hstream]
  rw [hasStopWords_readStopWords h content _ rfl rfl]
  simp only [PrefillHandler.buildDecodeParameters, PrefillHandler.buildSamplingParametersNext,
    PrefillHandler.buildSamplingParametersFirst, PrefillHandler.buildInferParameters, hnum,
    handedOverParam, Option.or_none, Option.getD_some]
  split_ifs <;> simp

end ReadBack

/-! ## The budget -/

theorem toInt_sub_ofNat {limit : Int32} {n : ℕ} (hpos : 0 < limit) (hn : n < 2 ^ 31) :
    (limit - .ofNat n).toInt = limit.toInt - n := by
  have hlt := limit.toInt_lt
  have hlimit : 0 < limit.toInt := Int32.lt_iff_toInt_lt.mp hpos
  rw [Int32.toInt_sub, Int32.toInt_ofNat_of_lt hn]
  refine Int.bmod_eq_of_le ?_ ?_ <;> omega

theorem toNat_toUInt64 {budget : Int32} (hnonneg : 0 ≤ budget.toInt) :
    (budget.toInt64.toUInt64.toNat : ℤ) = budget.toInt := by
  rw [Int64.toNat_toUInt64_of_le (by simpa [Int64.le_iff_toInt_le] using hnonneg),
    Int32.toNatClampNeg_toInt64, Int32.toNatClampNeg, Int.toNat_of_nonneg hnonneg]

/-- What the decode node allows is what the limit leaves. -/
theorem generateInferRequest_budget (ctx : GrpcContext) (d : Decoded)
    (hpos : 0 < d.inputParam.maxNewTokens) (hoffset : d.inputParam.outputLenOffset < 2 ^ 31) :
    (generateInferRequest ctx d).toOption.map (fun d => (d.request.maxOutputLen.toNat : ℤ)) =
      budgetLeft d.inputParam.maxNewTokens d.inputParam.outputLenOffset
        d.inputParam.thinkingBudget := by
  have hsub := toInt_sub_ofNat hpos hoffset
  have hneg : d.inputParam.maxNewTokens - .ofNat d.inputParam.outputLenOffset < 0 ↔
      d.inputParam.maxNewTokens.toInt < d.inputParam.outputLenOffset := by
    rw [Int32.lt_iff_toInt_lt, hsub, Int32.toInt_zero]
    omega
  simp only [generateInferRequest, if_pos hpos, budgetLeft, hneg]
  by_cases hover : d.inputParam.maxNewTokens.toInt < d.inputParam.outputLenOffset
  · rw [if_pos hover, if_pos hover]
    split_ifs <;> rfl
  · rw [if_neg hover, if_neg hover]
    have hnonneg : 0 ≤ (d.inputParam.maxNewTokens -
        .ofNat d.inputParam.outputLenOffset).toInt := by omega
    have hbudget := toNat_toUInt64 hnonneg
    rw [hsub] at hbudget
    exact congrArg some hbudget

/-- Without a limit the budget is the one of an unprepared request. -/
theorem generateInferRequest_nonpos (ctx : GrpcContext) (d : Decoded)
    (hpos : ¬ 0 < d.inputParam.maxNewTokens) :
    (generateInferRequest ctx d).toOption.map (fun d => (d.request.maxOutputLen.toNat : ℤ)) =
      some (d.request.maxOutputLen.toNat : ℤ) := by
  simp only [generateInferRequest, if_neg hpos]
  rfl

theorem budgetLeft_nonpos {limit : Int32} (hpos : ¬ 0 < limit) (generated : ℕ)
    (thinkingBudget : Option UInt32) {left : ℤ}
    (hleft : budgetLeft limit generated thinkingBudget = some left) : left ≤ 0 := by
  have hlimit : limit.toInt ≤ 0 := by
    rw [Int32.lt_iff_toInt_lt] at hpos
    exact Int.not_lt.mp hpos
  simp only [budgetLeft] at hleft
  split_ifs at hleft <;> simp only [Option.some.injEq] at hleft <;> omega

/-! ## Agreement on what is carried -/

section Agreement

variable {maxIterTimes : UInt32} {h : PrefillHandler} {content : ResponseContent}

theorem sameSampling_iff :
    SameSampling h.request (handedOver h content h.request) ↔
      h.request.bestOf = none ∧ h.request.n = none ∧ h.request.useBeamSearch = none := by
  constructor
  · intro same
    exact ⟨same.bestOf.symm, same.n.symm, same.useBeamSearch.symm⟩
  · rintro ⟨hbestOf, hn, hbeam⟩
    constructor <;> simp [handedOver, hbestOf, hn, hbeam]

theorem filter_ne_nil_iff {α : Type} [DecidableEq α] {list : Option (List α)} :
    list.filter (· ≠ []) = list ↔ list ≠ some [] := by
  cases list with
  | none => simp
  | some l => by_cases hl : l = [] <;> simp [hl, Option.filter]

theorem sameStopWords_iff :
    SameStopWords h.request (handedOver h content h.request) ↔
      h.request.stopStrList ≠ some [] ∧
        h.request.windowSize = stopWindow (h.request.stopStrList.getD []) := by
  rw [← filter_ne_nil_iff]
  constructor
  · intro same
    exact ⟨same.stopStrList, same.windowSize.symm⟩
  · rintro ⟨hlist, hwindow⟩
    exact ⟨rfl, rfl, hlist, rfl, hwindow.symm⟩

theorem sameThinking_iff :
    SameThinking h.request h.inferParam (handedOver h content h.request)
        (handedOverParam maxIterTimes h h.inferParam) ↔
      h.request.enableThinking = h.inferParam.enableThinking ∧
        h.inferParam.thinkingBudget = h.request.thinkingBudget := by
  constructor
  · intro same
    exact ⟨same.request_enable.symm, same.param_budget.symm⟩
  · rintro ⟨henable, hbudget⟩
    exact ⟨henable.symm, rfl, rfl, hbudget.symm⟩

theorem sameTools_iff :
    SameTools h.inferParam (handedOverParam maxIterTimes h h.inferParam) ↔
      h.inferParam.toolCallsJson = none ∧
        h.inferParam.isChatReq = decide (h.msgType = .openai ∨ h.msgType = .vllmOpenai) := by
  constructor
  · intro same
    exact ⟨same.toolCallsJson.symm, same.isChatReq.symm⟩
  · rintro ⟨hjson, hchat⟩
    exact ⟨rfl, rfl, rfl, hjson.symm, hchat.symm⟩

/-- The decode node reads the limit of the prefill node, if that is one that it can tell from an
absent one. -/
theorem readLimit_eq_iff :
    (readLimit maxIterTimes h = h.inferParam.maxNewTokens ∧ 0 < h.inferParam.maxNewTokens) ↔
      0 < h.inferParam.maxNewTokens ∧
        (h.inferParam.isMaxNewTokensSetByUser = false →
          h.inferParam.maxNewTokens = maxIterTimes.toInt32) := by
  rw [and_comm]
  refine and_congr_right fun hpos => ?_
  have hne : h.inferParam.maxNewTokens ≠ 0 := fun hzero => absurd (hzero ▸ hpos) (by decide)
  cases hset : h.inferParam.isMaxNewTokensSetByUser with
  | true => simp [readLimit, hset, hne]
  | false => simp [readLimit, hset, eq_comm]

theorem decodeProcess_budget (content : ResponseContent) (hpos : 0 < readLimit maxIterTimes h) :
    (decodeProcess maxIterTimes (h.buildDecodeParameters content)).toOption.map
        (fun d => (d.request.maxOutputLen.toNat : ℤ)) =
      budgetLeft (readLimit maxIterTimes h) h.generated.length h.request.thinkingBudget := by
  have hparam : (getContextJsonBody maxIterTimes (h.buildDecodeParameters content) {}).inputParam =
      handedOverParam maxIterTimes h h.inferParam :=
    decoded_inputParam maxIterTimes h content
  have hbudget := generateInferRequest_budget
    (handleDecodeRequest (h.buildDecodeParameters content))
    (getContextJsonBody maxIterTimes (h.buildDecodeParameters content) {})
  rw [hparam] at hbudget
  exact hbudget hpos h.length_generated_lt

theorem decodeProcess_nonpos (hpos : ¬ 0 < readLimit maxIterTimes h) :
    (decodeProcess maxIterTimes (h.buildDecodeParameters content)).toOption.map
        (fun d => (d.request.maxOutputLen.toNat : ℤ)) = some 20 := by
  have hparam : (getContextJsonBody maxIterTimes (h.buildDecodeParameters content) {}).inputParam =
      handedOverParam maxIterTimes h h.inferParam :=
    decoded_inputParam maxIterTimes h content
  have hnonpos := generateInferRequest_nonpos
    (handleDecodeRequest (h.buildDecodeParameters content))
    (getContextJsonBody maxIterTimes (h.buildDecodeParameters content) {})
  rw [hparam] at hnonpos
  have hlen : (getContextJsonBody maxIterTimes
      (h.buildDecodeParameters content) {}).request.maxOutputLen = 20 :=
    congrArg Request.maxOutputLen (decoded_request maxIterTimes h content)
  exact (hnonpos hpos).trans (by rw [hlen]; rfl)

theorem decoded_tokens (maxIterTimes : UInt32) (h : PrefillHandler) (content : ResponseContent) :
    (decoded maxIterTimes (h.buildDecodeParameters content)).reqTokens = h.prompt ∧
      (decoded maxIterTimes (h.buildDecodeParameters content)).respTokens =
        h.generated ++ h.firstToken := by
  simp only [decoded, getContextJsonBody, getContextInferParams, getContextSamplingParamsNext,
    getContextSamplingStopWords_eq, fillRespTokensAndReplayIds, List.nil_append,
    PrefillHandler.buildDecodeParameters, drop_min_length, PrefillHandler.prompt,
    PrefillHandler.generated]
  exact ⟨List.take_eq_take_iff.mpr (by omega), trivial⟩

/-- **The two nodes agree exactly on the requests that are carried.** -/
theorem agrees_iff_carried (maxIterTimes : UInt32) (h : PrefillHandler)
    (content : ResponseContent) :
    Agrees h content (decoded maxIterTimes (h.buildDecodeParameters content))
        (decodeProcess maxIterTimes (h.buildDecodeParameters content)) ↔
      Carried maxIterTimes h := by
  have hrequest := decoded_request maxIterTimes h content
  have hparam := decoded_inputParam maxIterTimes h content
  constructor
  · intro agrees
    obtain ⟨hbestOf, hn, hbeam⟩ := sameSampling_iff.mp (hrequest ▸ agrees.sampling)
    obtain ⟨hlist, hwindow⟩ := sameStopWords_iff.mp (hrequest ▸ agrees.stopWords)
    have hthinking := agrees.thinking
    rw [hrequest, hparam] at hthinking
    obtain ⟨henable, hthink⟩ := sameThinking_iff.mp hthinking
    obtain ⟨hjson, hchat⟩ := sameTools_iff.mp (hparam ▸ agrees.tools)
    have hlimit : readLimit maxIterTimes h = h.inferParam.maxNewTokens :=
      (congrArg InferParam.maxNewTokens hparam).symm.trans agrees.limit
    have hpos : 0 < h.inferParam.maxNewTokens := by
      by_contra hnonpos
      have hbudget := agrees.budget
      rw [decodeProcess_nonpos (by rwa [hlimit])] at hbudget
      have := budgetLeft_nonpos hnonpos _ _ hbudget.symm
      omega
    obtain ⟨-, hset⟩ := readLimit_eq_iff.mp ⟨hlimit, hpos⟩
    exact ⟨hjson, hbestOf, hn, hbeam, hlist, hwindow, henable, hthink, hchat, hpos, hset⟩
  · intro carried
    obtain ⟨hlimit, hpos⟩ := readLimit_eq_iff.mpr ⟨carried.limit_pos, carried.limit_eq⟩
    obtain ⟨hprompt, houtputs⟩ := decoded_tokens maxIterTimes h content
    have hreads : 0 < readLimit maxIterTimes h := by rwa [hlimit]
    have hbudget := decodeProcess_budget content hreads
    refine ⟨hprompt, houtputs, ?_, ?_, ?_, ?_, ?_, ?_, ?_, ?_, ?_, ?_, ?_, ?_, ?_, ?_, ?_⟩
    · rw [hrequest]; rfl
    · rw [hrequest]
      exact sameSampling_iff.mpr ⟨carried.bestOf, carried.n, carried.useBeamSearch⟩
    · rw [hrequest]
      exact sameStopWords_iff.mpr ⟨carried.stopStrList, carried.windowSize⟩
    · rw [hrequest, hparam]
      exact sameThinking_iff.mpr ⟨carried.enableThinking, carried.thinkingBudget⟩
    · rw [hrequest]; rfl
    · rw [hparam]
      exact sameTools_iff.mpr ⟨carried.toolCallsJson, carried.isChatReq⟩
    · rw [hrequest]; rfl
    · rw [hrequest]; rfl
    · rw [hparam]; rfl
    · rw [hparam]; rfl
    · rw [hparam]; rfl
    · intro hplain
      rw [hparam]
      simp only [handedOverParam, hplain]
      exact ⟨rfl, rfl⟩
    · rw [hrequest]; rfl
    · rw [hparam]; exact hlimit
    · rw [hbudget, hlimit, carried.thinkingBudget]

end Agreement

/-- The first content of a response with one token. -/
def firstContent : ResponseContent where
  seqId := 1
  parentSeqId := 1
  finishReason := .iterationContinue
  speculativeTokenNum := 1
  outTokenIds := [42]
  outLogProbs := []
  cumLogProb := 0
  truncationIndex := 0
  topLogProbTokenIds := []
  topLogProbs := []
  srcBlockTable := [[7]]
  singleLLMPrefillReqHandlerId := 0
  pdErrorCode := 0
  isThinking := false

/-- A chat request with one tool. -/
def toolHandler : PrefillHandler where
  prefillNodeAddr := "10.0.0.1:1121"
  pInstanceId := 1
  reqId := "1"
  msgType := .vllmOpenai
  streamMode := false
  inputTokens := [11, 12, 13]
  oriReqTokenLen := 2 ^ 64 - 1
  firstToken := [42]
  modelName := "model"
  request := { requestId := "1" }
  inferParam :=
    { maxNewTokens := 64
      model := "model"
      isChatReq := true
      useToolsCall := true
      tools := "[\x7b\"type\":\"function\",\"function\":\x7b\"name\":\"f\"\x7d\x7d]"
      toolChoice := "auto"
      toolCallsJson :=
        some "[\x7b\"type\":\"function\",\"function\":\x7b\"name\":\"f\"\x7d\x7d]" }
  streamMode_eq := rfl
  length_lt := by decide
  preOutputTokenNum_lt := by decide

/-- The schema of the tools is lost: the decode node parses the output without it. -/
theorem not_agrees_toolHandler :
    ¬ Agrees toolHandler firstContent
      (decoded 512 (toolHandler.buildDecodeParameters firstContent))
      (decodeProcess 512 (toolHandler.buildDecodeParameters firstContent)) := by
  intro agrees
  have hjson := agrees.tools.toolCallsJson
  rw [decoded_inputParam] at hjson
  exact absurd hjson (by simp [handedOverParam, toolHandler])

end MindieLLM.HandOver
