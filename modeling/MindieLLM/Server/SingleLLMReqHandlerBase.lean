import Mathlib.Algebra.Order.Ring.Int
import MindieLLM.Server.DecodeCache

/-!
# The responses of the engine

The handlers of a request share how they take the tokens out of a response: for each sequence that
the response has, what it has decoded, with the log probabilities that the request asks for.

## Main definitions

* `Response`: what the engine delivers
* `parseTokensFromResponse`: the tokens of a response, or that it cannot be parsed
-/

namespace MindieLLM.ReqHandler

open StreamCache DecodeCache

/-! ## Responses -/

/-- How far the transfer of the KV cache is. -/
inductive TransferStatusType
  | notTransfer
  | publishKvComplete
  | pullKvComplete
  | recomputedTriggered
  | prefillComplete
  deriving DecidableEq

/-- What a response has for one sequence. -/
structure ResponseContent where
  seqId : Int64
  parentSeqId : Int64
  finishReason : InferStatusType
  speculativeTokenNum : ℕ
  outTokenIds : List ℤ
  outLogProbs : List Float32
  cumLogProb : Float
  truncationIndex : ℤ
  topLogProbTokenIds : List ℤ
  topLogProbs : List Float32
  srcBlockTable : List (List ℤ)
  singleLLMPrefillReqHandlerId : UInt32
  pdErrorCode : ℤ
  isThinking : Bool

structure Response where
  reqId : String
  responseContents : List ResponseContent
  isEos : Bool
  inferStatusFlag : InferStatusType
  transferStatusFlag : TransferStatusType

/-- What the request says about log probabilities. -/
structure LogprobRequest where
  logprobs : Option Bool
  topLogprobs : Option ℕ

/-! ## Parsing -/

/-- What `postToken.resize` makes. -/
def emptyTokens : BestNTokens where
  seqId := 0
  parentSeqId := 0
  finishReason := .iterationContinue
  tokens := []
  cumLogprobs := 0
  logprob := []
  logprobsTokens := []
  logprobs := []
  truncationIndex := 0

/-- The ids go through an `int`. The largest id without a sign marks a simulated sequence. -/
def parseSeqId (simulatedSeqIndex : UInt64) :
    List (ResponseContent × BestNTokens) → UInt64 × Option (List (ResponseContent × BestNTokens))
  | [] => (simulatedSeqIndex, some [])
  | (content, token) :: rest =>
    let seqId := content.seqId.toInt32.toInt64
    if seqId = 0 then
      (simulatedSeqIndex, none)
    else if seqId.toUInt64 = -1 then
      let token := { token with seqId := (0x7fffffffffffffff + simulatedSeqIndex).toInt64 }
      let (index, rest) := parseSeqId (simulatedSeqIndex + 1) rest
      (index, rest.map ((content, token) :: ·))
    else
      let (index, rest) := parseSeqId simulatedSeqIndex rest
      (index, rest.map ((content, { token with seqId }) :: ·))

def parseParentSeqId : ResponseContent × BestNTokens → Option (ResponseContent × BestNTokens)
  | (content, token) =>
    let parentSeqId := content.parentSeqId.toInt32.toInt64
    if parentSeqId = 0 then none else some (content, { token with parentSeqId })

/-- A token id `-1` is no token. -/
def parseOutTokenId : ResponseContent × BestNTokens → Option (ResponseContent × BestNTokens)
  | (content, token) =>
    if content.outTokenIds = [] then none
    else some (content, { token with tokens := content.outTokenIds.filter (· ≠ -1) })

def parseCumLogProbs : ResponseContent × BestNTokens → ResponseContent × BestNTokens
  | (content, token) => (content, { token with cumLogprobs := content.cumLogProb })

/-- The truncation is read only once some sequence has ended. -/
def parseFinishReasonAndTruncationId (postToken : List (ResponseContent × BestNTokens)) :
    Option (List (ResponseContent × BestNTokens)) :=
  let postToken := postToken.map fun (content, token) =>
    (content, { token with finishReason := content.finishReason })
  if postToken.all fun p => p.2.finishReason = .iterationContinue then
    some postToken
  else
    postToken.mapM fun (content, token) =>
      if content.truncationIndex > 0 then none
      else some (content, { token with truncationIndex := content.truncationIndex })

def parseTopLogProbs (topLogprobs : ℕ) :
    ResponseContent × BestNTokens → Option (ResponseContent × BestNTokens)
  | (content, token) =>
    if content.topLogProbTokenIds.length ≠ topLogprobs * content.speculativeTokenNum ∨
        content.topLogProbs.length ≠ topLogprobs * content.speculativeTokenNum then
      none
    else
      some (content, { token with
        logprobsTokens := content.topLogProbTokenIds
        logprobs := content.topLogProbs })

def parseLogProbs (request : LogprobRequest) (postToken : List (ResponseContent × BestNTokens)) :
    Option (List (ResponseContent × BestNTokens)) :=
  match request.logprobs, request.topLogprobs with
  | some true, some topLogprobs =>
    let postToken := postToken.map fun (content, token) =>
      (content, { token with logprob := content.outLogProbs })
    if topLogprobs = 0 then some postToken else postToken.mapM (parseTopLogProbs topLogprobs)
  | _, _ => some postToken

/-- `ParseTokensFromResponse`, with the next index for simulated sequences. -/
def parseTokensFromResponse (request : LogprobRequest) (simulatedSeqIndex : UInt64)
    (response : Response) : UInt64 × Option (List BestNTokens) :=
  if response.responseContents = [] then
    (simulatedSeqIndex, none)
  else
    let (index, postToken) := parseSeqId simulatedSeqIndex
      (response.responseContents.map fun content => (content, emptyTokens))
    (index, do
      let postToken ← (← postToken).mapM parseParentSeqId
      let postToken ← postToken.mapM parseOutTokenId
      let postToken ← parseFinishReasonAndTruncationId (postToken.map parseCumLogProbs)
      let postToken ←
        if postToken.any fun p => p.2.finishReason = .illegalInput then some postToken
        else parseLogProbs request postToken
      some (postToken.map Prod.snd))

end MindieLLM.ReqHandler
