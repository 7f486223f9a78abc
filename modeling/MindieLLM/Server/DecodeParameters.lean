import MindieLLM.Server.SingleLLMReqHandlerBase

/-!
# The message from the prefill to the decode node

A request is prefilled on one node and decoded on another. What the decode node needs of it is
copied, field by field, into a message.

## Main definitions

* `Request`, `InferParam`: what a node holds of a request
* `PrefillHandler`: the handler of the request on the prefill node
* `DecodeParameters`: the message
* `PrefillHandler.buildDecodeParameters`: how the handler fills it
-/

namespace MindieLLM.HandOver

open ReqHandler

/-! ## The request -/

inductive InferReqType
  | standInfer
  | prefill
  | decode
  deriving DecidableEq

/-- The interface that the request came through. -/
inductive MsgType
  | invalid
  | tgi
  | generalTgi
  | vllm
  | openai
  | vllmOpenai
  | vllmOpenaiComp
  | kserve
  | infer
  | triton
  | tritonToken
  deriving DecidableEq

structure Request where
  requestId : String
  inputTokenNum : ℕ := 0
  inputIds : List ℤ := []
  maxOutputLen : UInt64 := 20
  ignoreEos : Option Bool := none
  windowSize : UInt32 := 0
  temperature : Option Float32 := none
  topK : Option Int32 := none
  topP : Option Float32 := none
  enableThinking : Option Bool := none
  thinkingBudget : Option UInt32 := none
  typicalP : Option Float32 := none
  doSample : Option Bool := none
  seed : Option UInt64 := none
  repetitionPenalty : Option Float32 := none
  watermark : Option Bool := none
  frequencyPenalty : Option Float32 := none
  presencyPenalty : Option Float32 := none
  stopTokenIds : Option (List ℤ) := none
  stopStrings : Option String := none
  stopStrList : Option (List String) := none
  includeStopStrInOutput : Option Bool := none
  skipSpecialTokens : Option Bool := none
  bestOf : Option UInt32 := none
  n : Option UInt32 := none
  useBeamSearch : Option Bool := none
  topLogprobs : Option UInt32 := none
  logprobs : Option Bool := none
  responseFormat : Option String := none
  prefillReplayTokenIds : List ℤ := []
  priority : UInt64 := 5
  loraId : String := "None"
  reqType : InferReqType := .standInfer
  pInstanceId : Option UInt32 := none
  srcBlockTable : List (List ℤ) := []
  dpInstanceIds : List UInt64 := []
  isThinking : Bool := false

def Request.hasStopWords (request : Request) : Bool :=
  request.stopStrings.any (· ≠ "") || request.stopTokenIds.any (· ≠ [])

/-- A map from sequence ids, by ascending id. -/
abbrev SeqMap (α : Type) := List (UInt64 × α)

/-- The value at `begin()`. -/
def SeqMap.first? {α : Type} (m : SeqMap α) : Option α := m.head?.map Prod.snd

def specialSeqIdPreset : UInt64 := 0

structure InferParam where
  timeout : UInt64 := 65535
  userInputId : Option String := none
  textInput : String := ""
  toolCallsJson : Option String := none
  streamMode : Bool := false
  maxNewTokens : Int32 := 20
  outputLenOffset : ℕ := 0
  isMaxNewTokensSetByUser : Bool := true
  showDetails : Bool := false
  returnFullText : Bool := false
  decoderInputDetails : Bool := false
  batchSize : Int32 := -1
  truncate : UInt32 := 0
  tools : String := ""
  toolChoice : String := ""
  useToolsCall : Bool := false
  enableThinking : Option Bool := none
  thinkingBudget : Option UInt32 := none
  isChatReq : Bool := false
  model : String := ""
  outputNames : List String := []
  prevDecodeIndex : SeqMap UInt32 := []
  currentDecodeIndex : SeqMap UInt32 := []
  preOutputTokenNum : ℕ := 0
  postSingleText : SeqMap String := []
  respStreamStr : SeqMap String := []

/-! ## The handler on the prefill node -/

/-- The handler of a request on the prefill node. The stream mode is the one of the parameters; a
repeated field of the message counts its tokens in an `int`. -/
structure PrefillHandler where
  prefillNodeAddr : String
  pInstanceId : UInt32
  reqId : String
  msgType : MsgType
  streamMode : Bool
  inputTokens : List ℤ
  oriReqTokenLen : ℕ
  firstToken : List ℤ
  modelName : String
  request : Request
  inferParam : InferParam
  streamMode_eq : streamMode = inferParam.streamMode
  length_lt : inputTokens.length + firstToken.length < 2 ^ 31
  preOutputTokenNum_lt : inferParam.preOutputTokenNum < 2 ^ 32

namespace PrefillHandler

/-- The tokens of the prompt. -/
def prompt (h : PrefillHandler) : List ℤ := h.inputTokens.take h.oriReqTokenLen

/-- The tokens generated before a recomputation, which the prefill took as input again. -/
def generated (h : PrefillHandler) : List ℤ := h.inputTokens.drop h.oriReqTokenLen

theorem length_generated_lt (h : PrefillHandler) : h.generated.length < 2 ^ 31 := by
  have hlt := h.length_lt
  simp only [generated, List.length_drop]
  omega

end PrefillHandler

/-! ## The message -/

/-- The wrapped optional fields. A wrapper is made when its value is set, and one that is absent
reads as an empty one. -/
structure SamplingParams where
  temperature : Option Float32 := none
  topK : Option UInt32 := none
  topP : Option Float32 := none
  typicalP : Option Float32 := none
  doSample : Option Bool := none
  seed : Option UInt64 := none
  repetitionPenalty : Option Float32 := none
  watermark : Option Bool := none
  frequencyPenalty : Option Float32 := none
  presencyPenalty : Option Float32 := none
  stopTokenIds : List ℤ := []
  stopStrings : Option String := none
  stopStringsList : List String := []
  skipSpecialTokens : Option Bool := none
  includeStopStrInOutput : Option Bool := none
  ignoreEos : Option Bool := none
  logprobs : Option Bool := none
  topLogprobs : Option UInt64 := none
  enableThinking : Option Bool := none
  thinkingBudget : Option UInt32 := none
  responseFormat : Option String := none
  isThinking : Option Bool := none

structure InferParams where
  priority : UInt64 := 0
  timeout : UInt64 := 0

/-- The message, but for the measurements that go with it. -/
structure DecodeParameters where
  reqId : String := ""
  tokens : List ℤ := []
  firstToken : List ℤ := []
  msgType : MsgType := .invalid
  samplingParams : SamplingParams := {}
  inferParams : InferParams := {}
  inputId : Option String := none
  textInput : Option String := none
  isStream : Bool := false
  maxNewToken : Int32 := 0
  details : Bool := false
  returnFullText : Bool := false
  decoderInputDetails : Bool := false
  batchSize : Int32 := 0
  id : String := ""
  truncate : UInt32 := 0
  tools : String := ""
  toolChoice : String := ""
  loraId : String := ""
  modelName : String := ""
  outputNames : List String := []
  prevdecodeindex : UInt32 := 0
  currentdecodeindex : UInt32 := 0
  blockTable : List (List ℤ) := []
  pNodeAddr : String := ""
  pInstanceId : UInt32 := 0
  postsingletext : String := ""
  dpInstanceIds : List UInt64 := []
  useToolCall : Bool := false
  prefillTokenNum : UInt32 := 0
  preOutputTokenNum : UInt32 := 0

/-! ## Filling it -/

namespace PrefillHandler

def buildSamplingParametersFirst (h : PrefillHandler) (params : SamplingParams) :
    SamplingParams :=
  { params with
    temperature := h.request.temperature.or params.temperature
    topK := (h.request.topK.map Int32.toUInt32).or params.topK
    topP := h.request.topP.or params.topP
    typicalP := h.request.typicalP.or params.typicalP
    doSample := h.request.doSample.or params.doSample
    seed := h.request.seed.or params.seed
    repetitionPenalty := h.request.repetitionPenalty.or params.repetitionPenalty
    watermark := h.request.watermark.or params.watermark }

def buildSamplingParametersNext (h : PrefillHandler) (params : SamplingParams) :
    SamplingParams :=
  { params with
    frequencyPenalty := h.request.frequencyPenalty.or params.frequencyPenalty
    presencyPenalty := h.request.presencyPenalty.or params.presencyPenalty
    stopTokenIds := params.stopTokenIds ++ h.request.stopTokenIds.getD []
    stopStrings := h.request.stopStrings.or params.stopStrings
    stopStringsList := params.stopStringsList ++ h.request.stopStrList.getD []
    includeStopStrInOutput :=
      h.request.includeStopStrInOutput.or params.includeStopStrInOutput
    skipSpecialTokens := h.request.skipSpecialTokens.or params.skipSpecialTokens
    ignoreEos := h.request.ignoreEos.or params.ignoreEos
    logprobs := h.request.logprobs.or params.logprobs
    topLogprobs := (h.request.topLogprobs.map UInt32.toUInt64).or params.topLogprobs
    enableThinking := h.inferParam.enableThinking.or params.enableThinking
    responseFormat := h.request.responseFormat.or params.responseFormat
    thinkingBudget := h.request.thinkingBudget.or params.thinkingBudget }

def buildInferParameters (h : PrefillHandler) : InferParams where
  priority := h.request.priority
  timeout := h.inferParam.timeout

/-- The message for the first content of the response. -/
def buildDecodeParameters (h : PrefillHandler) (content : ResponseContent) : DecodeParameters where
  pNodeAddr := h.prefillNodeAddr
  pInstanceId := h.pInstanceId
  reqId := h.reqId
  msgType := h.msgType
  isStream := h.streamMode
  tokens := h.inputTokens.take (min h.oriReqTokenLen h.inputTokens.length)
  firstToken := h.inputTokens.drop (min h.oriReqTokenLen h.inputTokens.length) ++ h.firstToken
  prefillTokenNum := .ofNat h.firstToken.length
  outputNames := h.inferParam.outputNames
  batchSize := h.inferParam.batchSize
  maxNewToken := if h.inferParam.isMaxNewTokensSetByUser then h.inferParam.maxNewTokens else 0
  truncate := h.inferParam.truncate
  tools := h.inferParam.tools
  toolChoice := h.inferParam.toolChoice
  loraId := h.request.loraId
  returnFullText := h.inferParam.returnFullText
  decoderInputDetails := h.inferParam.decoderInputDetails
  modelName := h.modelName
  details := h.inferParam.showDetails
  id := h.request.requestId
  useToolCall := h.inferParam.useToolsCall
  blockTable := content.srcBlockTable
  dpInstanceIds := [content.singleLLMPrefillReqHandlerId.toUInt64]
  prevdecodeindex := h.inferParam.prevDecodeIndex.first?.getD 0
  currentdecodeindex := h.inferParam.currentDecodeIndex.first?.getD 0
  preOutputTokenNum := .ofNat h.inferParam.preOutputTokenNum
  postsingletext := h.inferParam.postSingleText.first?.getD ""
  inputId := h.inferParam.userInputId
  textInput := some h.inferParam.textInput
  samplingParams := h.buildSamplingParametersNext
    (h.buildSamplingParametersFirst { isThinking := some content.isThinking })
  inferParams := h.buildInferParameters

end PrefillHandler

end MindieLLM.HandOver
