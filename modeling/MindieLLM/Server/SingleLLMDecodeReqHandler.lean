import MindieLLM.Server.SingleLLMReqHandlerBase

/-!
# The answers of a decode node

The engine of a decode node delivers the responses for a request one by one, and the handler of the
request passes messages to the dispatcher of the coordinator: texts marked `data:`, and at the end
one that is marked `lastData:`, `retry:` or `error:`. After it has pulled the KV cache the handler
tells the prefill node to release it. The coordinator closes the stream at the first message that is
not marked `data:`.

How a response becomes JSON texts, and how the body of a recomputation is built, are parameters of
the model: the interface that they come from has a state of its own.

## Main definitions

* `callback`: what the handler does with one response
* `EndsOnce`: one terminal message, after all others, and at most one release
* `MarksOne`: the condition on one response

## Main results

* `endsOnce_iff`: a request ends once if and only if all its responses meet the condition
* `not_endsOnce`: two texts with the end of a sequence are two terminal messages
-/

namespace MindieLLM.DecodeReqHandler

open DecodeCache ReqHandler

/-! ## The handler -/

/-- What stands before the body of a message. -/
inductive Mark
  | data
  | lastData
  | retry
  | error
  deriving DecidableEq

/-- What the dispatcher wraps and sends. -/
structure DResultWrapParam where
  body : String
  mark : Mark
  reqId : String
  tritonReqId : String

/-- The coordinator closes the stream at such a message. -/
def DResultWrapParam.terminal (msg : DResultWrapParam) : Bool := msg.mark ≠ .data

/-- What is fixed for a request. The interface of the request has the states `σ`. -/
structure Config (σ : Type) where
  streamMode : Bool
  tritonReqId : String
  request : LogprobRequest
  /-- The queue of JSON texts, unless the conversion fails. -/
  constructOneResponse : ReqHandler.Response → List BestNTokens → σ → σ × Option (List String)
  dmiReCompBuildMethod : Option (List BestNTokens → σ → String)

structure Handler (σ : Type) where
  isFinish : Bool
  reqId : String
  respTokens : List BestNTokens
  /-- Whether `constructOneResponseCallBack_` is set. -/
  hasConstruct : Bool
  simulatedSeqIndex : UInt64
  interface : σ
  /-- What was passed to the dispatcher. -/
  sent : List DResultWrapParam
  /-- The requests that the prefill node was told to release. -/
  released : List String

variable {σ : Type} (cfg : Config σ)

/-- The handler after `SetBackManagerCallBack`. -/
def Handler.init (reqId : String) (hasConstruct : Bool) (interface : σ) : Handler σ where
  isFinish := false
  reqId
  respTokens := []
  hasConstruct
  simulatedSeqIndex := 1
  interface
  sent := []
  released := []

def sendDResult (mark : Mark) (body : String) (h : Handler σ) : Handler σ :=
  { h with sent := h.sent ++ [⟨body, mark, h.reqId, cfg.tritonReqId⟩] }

def sendDError (errorMsg : String) (h : Handler σ) : Handler σ := sendDResult cfg .error errorMsg h

def responseReCompute (body : String) (h : Handler σ) : Handler σ := sendDResult cfg .retry body h

/-- A text without streaming is sent as a last token. -/
def sendResponse (responseStr : String) (h : Handler σ) : Handler σ :=
  if responseStr = "" then h else sendDResult cfg .lastData responseStr h

def sendResponseStream (isEnd : Bool) (responseStr : String) (h : Handler σ) : Handler σ :=
  if responseStr = "" then h
  else sendDResult cfg (if isEnd then .lastData else .data) responseStr h

def sendKvRelease (h : Handler σ) : Handler σ := { h with released := h.released ++ [h.reqId] }

def finish (h : Handler σ) : Handler σ := { h with isFinish := true, hasConstruct := false }

def PULL_KV_FAIL_REVERSIBLY : ℤ := 2003

def PULL_KV_FAIL_IRREVERSIBLY : ℤ := 2004

/-- `pdErrorCode` as 16 bits; a response of a pull has a content. -/
def getPullKVFlag (response : ReqHandler.Response) : ℤ :=
  (response.responseContents.head?.map ResponseContent.pdErrorCode).getD 0 % 2 ^ 16

/-- The text about a pull that failed. -/
def pullError (response : ReqHandler.Response) : Option String :=
  if getPullKVFlag response = PULL_KV_FAIL_IRREVERSIBLY then some "Pull kv failed irreversibly."
  else if getPullKVFlag response = PULL_KV_FAIL_REVERSIBLY then some "Pull kv failed reversibly."
  else none

def onPullKv (response : ReqHandler.Response) (h : Handler σ) : Handler σ :=
  match pullError response with
  | some errorMsg => sendKvRelease (finish (sendDError cfg errorMsg h))
  | none => sendKvRelease h

def onRecompute (h : Handler σ) : Handler σ :=
  match cfg.dmiReCompBuildMethod with
  | none => finish (sendDError cfg "Try to do recompute but it is not supported." h)
  | some build => finish (responseReCompute cfg (build h.respTokens h.interface) h)

/-- The loop over `responseJsonQueue`. -/
def sendQueue (isEos : Bool) : List String → Handler σ → Handler σ
  | [], h => h
  | msgTmp :: queue, h =>
    sendQueue isEos queue <|
      if cfg.streamMode then
        sendResponseStream cfg (if queue.length > 1 then false else isEos) msgTmp h
      else
        sendResponse cfg msgTmp h

/-- What the conversion makes of tokens in this state. -/
def construct (response : ReqHandler.Response) (tokenIds : List BestNTokens) (h : Handler σ) :
    σ × Option (List String) :=
  if h.hasConstruct then cfg.constructOneResponse response tokenIds h.interface
  else (h.interface, none)

def onQueue (response : ReqHandler.Response) (bestNTokens : List BestNTokens) (h : Handler σ) :
    Handler σ :=
  match construct cfg response (if cfg.streamMode then bestNTokens else h.respTokens) h with
  | (interface, none) =>
    finish (sendDError cfg "Failed to decode token id to json response." { h with interface })
  | (interface, some queue) =>
    let h := sendQueue cfg response.isEos queue { h with interface }
    if response.isEos then finish h else h

/-- Without streaming the tokens are kept until the end of the sequence. -/
def keepTokens (bestNTokens : List BestNTokens) (h : Handler σ) : Handler σ :=
  if cfg.streamMode then h else { h with respTokens := h.respTokens ++ bestNTokens }

def onTokens (response : ReqHandler.Response) (h : Handler σ) : Handler σ :=
  match parseTokensFromResponse cfg.request h.simulatedSeqIndex response with
  | (simulatedSeqIndex, none) =>
    finish
      (sendDError cfg "Failed to get token id from infer response." { h with simulatedSeqIndex })
  | (simulatedSeqIndex, some bestNTokens) =>
    let h := keepTokens cfg bestNTokens { h with simulatedSeqIndex }
    if ¬cfg.streamMode ∧ ¬response.isEos then h else onQueue cfg response bestNTokens h

/-- **The callback for a response**, which may be null. -/
def callback (h : Handler σ) : Option ReqHandler.Response → Handler σ
  | none => h
  | some response =>
    if h.isFinish then h
    else
      let h := { h with reqId := response.reqId }
      match response.transferStatusFlag with
      | .pullKvComplete => onPullKv cfg response h
      | .recomputedTriggered => onRecompute cfg h
      | _ => onTokens cfg response h

def run (h : Handler σ) (responses : List (Option ReqHandler.Response)) : Handler σ :=
  responses.foldl (callback cfg) h

/-! ## Ending once -/

/-- The tokens that a response is converted with. -/
def tokensSoFar (bestNTokens : List BestNTokens) (h : Handler σ) : List BestNTokens :=
  if cfg.streamMode then bestNTokens else h.respTokens ++ bestNTokens

/-- The responses that end a request: the end of a sequence, a recomputation, or a failure. -/
def ends (response : ReqHandler.Response) (h : Handler σ) : Bool :=
  match response.transferStatusFlag with
  | .pullKvComplete => (pullError response).isSome
  | .recomputedTriggered => true
  | _ =>
    match parseTokensFromResponse cfg.request h.simulatedSeqIndex response with
    | (_, none) => true
    | (_, some bestNTokens) =>
      response.isEos ||
        (cfg.streamMode &&
          (construct cfg response (tokensSoFar cfg bestNTokens h) h).2.isNone)

/-- A response is processed if it arrives before the end. -/
def Processed (h : Handler σ) (responses before : List (Option ReqHandler.Response))
    (response : ReqHandler.Response) :
    Prop :=
  before ++ [some response] <+: responses ∧ (run cfg h before).isFinish = false

/-- The messages of a request end with one terminal message, and the KV cache is released once at
most. -/
structure EndsOnce (h : Handler σ) (responses : List (Option ReqHandler.Response)) : Prop where
  atMostOne : (run cfg h responses).sent.countP DResultWrapParam.terminal ≤ 1
  earlier : ∀ msg ∈ (run cfg h responses).sent.dropLast, msg.mark = .data
  ended : ∀ before response, Processed cfg h responses before response →
    ends cfg response (run cfg h before) →
    (run cfg h responses).sent.countP DResultWrapParam.terminal = 1
  released : (run cfg h responses).released.length ≤ 1

/-- The texts of a response with the end of a sequence that are marked `lastData:`, unless they are
empty: in a stream the last two. -/
def lastTexts (queue : List String) : List String :=
  (if cfg.streamMode then queue.drop (queue.length - 2) else queue).filter (· ≠ "")

/-- The texts that the end of a sequence is converted to, if the response is one. -/
def eosTexts (response : ReqHandler.Response) (h : Handler σ) : Option (List String) :=
  match response.transferStatusFlag with
  | .pullKvComplete | .recomputedTriggered => none
  | _ =>
    match parseTokensFromResponse cfg.request h.simulatedSeqIndex response with
    | (_, none) => none
    | (_, some bestNTokens) =>
      if response.isEos then (construct cfg response (tokensSoFar cfg bestNTokens h) h).2 else none

/-- **The condition on a response.** No release was sent before a pull that completes, and of the
texts of the end of a sequence that are marked as last exactly one is not empty. -/
structure MarksOne (response : ReqHandler.Response) (h : Handler σ) : Prop where
  release : response.transferStatusFlag = .pullKvComplete → h.released = []
  mark : ∀ queue ∈ eosTexts cfg response h, (lastTexts cfg queue).length = 1

/-! ## What one response does -/

/-- A step passes on data and then, if it ends the request, terminal messages; `one` says when that
is one message. -/
structure Sends (h h' : Handler σ) (ended : Bool) (one : Prop) (released : List String) : Prop where
  sent : ∃ data last, h'.sent = h.sent ++ data ++ last ∧ (∀ msg ∈ data, msg.mark = .data) ∧
    (∀ msg ∈ last, msg.mark ≠ .data) ∧ if ended then one ↔ last.length = 1 else last = []
  isFinish : h'.isFinish = (ended || h.isFinish)
  released : h'.released = h.released ++ released

variable {cfg} {h h' : Handler σ}

theorem Sends.one {mark : Mark} (body : String) (hmark : mark ≠ .data)
    (hsame : h'.sent = h.sent ∧ h'.released = h.released) :
    Sends h (finish (sendDResult cfg mark body h')) true True [] where
  sent := ⟨[], [⟨body, mark, h'.reqId, cfg.tritonReqId⟩], by simp [finish, sendDResult, hsame.1],
    by simp, by simp [hmark], by simp⟩
  isFinish := rfl
  released := by simp [finish, sendDResult, hsame.2]

theorem sends_onPullKv (response : ReqHandler.Response) :
    Sends h (onPullKv cfg response h) (pullError response).isSome True [h.reqId] := by
  unfold onPullKv
  split
  · next errorMsg herror =>
    have hone : Sends h (finish (sendDResult cfg .error errorMsg h)) true True [] :=
      Sends.one errorMsg (by decide) ⟨rfl, rfl⟩
    rw [herror]
    exact ⟨hone.sent, rfl, rfl⟩
  · next herror =>
    rw [herror]
    exact ⟨⟨[], [], by simp [sendKvRelease], by simp, by simp, by simp⟩, rfl, rfl⟩

theorem sends_onRecompute : Sends h (onRecompute cfg h) true True [] := by
  unfold onRecompute
  split
  · exact Sends.one _ (by decide) ⟨rfl, rfl⟩
  · exact Sends.one _ (by decide) ⟨rfl, rfl⟩

/-! ### The loop over the texts -/

variable (cfg)

/-- The texts of a queue as messages with one mark; empty texts are not sent. -/
def textMessages (mark : Mark) (queue : List String) (reqId : String) : List DResultWrapParam :=
  (queue.filter (· ≠ "")).map fun body => ⟨body, mark, reqId, cfg.tritonReqId⟩

def sendTexts (mark : Mark) (queue : List String) (h : Handler σ) : Handler σ :=
  { h with sent := h.sent ++ textMessages cfg mark queue h.reqId }

variable {cfg}

theorem mark_of_mem_textMessages {mark : Mark} {queue : List String} {reqId : String}
    {msg : DResultWrapParam} (hmsg : msg ∈ textMessages cfg mark queue reqId) :
    msg.mark = mark := by
  obtain ⟨body, -, rfl⟩ := List.mem_map.mp hmsg
  rfl

@[simp] theorem sendTexts_nil (mark : Mark) : sendTexts cfg mark [] h = h := by
  simp [sendTexts, textMessages]

theorem sendTexts_append (mark : Mark) (queue queue' : List String) :
    sendTexts cfg mark (queue ++ queue') h =
      sendTexts cfg mark queue' (sendTexts cfg mark queue h) := by
  simp [sendTexts, textMessages]

theorem sendTexts_cons (mark : Mark) (msgTmp : String) (queue : List String) :
    sendTexts cfg mark (msgTmp :: queue) h =
      sendTexts cfg mark queue (sendTexts cfg mark [msgTmp] h) :=
  sendTexts_append mark [msgTmp] queue

theorem sendResponse_eq (msgTmp : String) :
    sendResponse cfg msgTmp h = sendTexts cfg .lastData [msgTmp] h := by
  unfold sendResponse sendDResult sendTexts textMessages
  split
  · next hempty => simp [hempty]
  · next hempty => simp [hempty]

theorem sendResponseStream_eq (isEnd : Bool) (msgTmp : String) :
    sendResponseStream cfg isEnd msgTmp h =
      sendTexts cfg (if isEnd then .lastData else .data) [msgTmp] h := by
  unfold sendResponseStream sendDResult sendTexts textMessages
  split
  · next hempty => simp [hempty]
  · next hempty => simp [hempty]

/-- Without streaming each text is sent as a last one. -/
theorem sendQueue_of_not_streamMode (hstream : cfg.streamMode = false) (isEos : Bool)
    (queue : List String) : sendQueue cfg isEos queue h = sendTexts cfg .lastData queue h := by
  induction queue generalizing h with
  | nil => exact (sendTexts_nil _).symm
  | cons msgTmp queue ih =>
    unfold sendQueue
    rw [hstream, if_neg Bool.false_ne_true, sendResponse_eq, ih,
      sendTexts_cons .lastData msgTmp queue]

theorem sendQueue_of_not_eos (hstream : cfg.streamMode = true) (queue : List String) :
    sendQueue cfg false queue h = sendTexts cfg .data queue h := by
  induction queue generalizing h with
  | nil => exact (sendTexts_nil _).symm
  | cons msgTmp queue ih =>
    unfold sendQueue
    rw [if_pos hstream, ite_self, sendResponseStream_eq, ih, sendTexts_cons .data msgTmp queue]
    rfl

/-- In a stream the last two texts of the end of a sequence are sent as last ones. -/
theorem sendQueue_of_eos (hstream : cfg.streamMode = true) (queue : List String) :
    sendQueue cfg true queue h =
      sendTexts cfg .lastData (queue.drop (queue.length - 2))
        (sendTexts cfg .data (queue.take (queue.length - 2)) h) := by
  induction queue generalizing h with
  | nil => simp [sendQueue]
  | cons msgTmp queue ih =>
    unfold sendQueue
    rw [if_pos hstream, sendResponseStream_eq, ih]
    by_cases hlong : queue.length > 1
    · have hlength : (msgTmp :: queue).length - 2 = queue.length - 2 + 1 := by
        rw [List.length_cons]
        omega
      rw [if_pos hlong, hlength, List.take_succ_cons, List.drop_succ_cons, sendTexts_cons .data]
      rfl
    · have hshort : queue.length - 2 = 0 := by omega
      have hlength : (msgTmp :: queue).length - 2 = 0 := by
        rw [List.length_cons]
        omega
      rw [if_neg hlong, hshort, hlength, List.take_zero, List.take_zero, List.drop_zero,
        List.drop_zero, sendTexts_nil, sendTexts_nil, sendTexts_cons .lastData]
      rfl

theorem sends_sendQueue (isEos : Bool) (heos : cfg.streamMode = true ∨ isEos = true)
    (queue : List String) :
    ∃ data last, (sendQueue cfg isEos queue h) = { h with sent := h.sent ++ data ++ last } ∧
      (∀ msg ∈ data, msg.mark = .data) ∧ (∀ msg ∈ last, msg.mark ≠ .data) ∧
      last.length = if isEos then (lastTexts cfg queue).length else 0 := by
  have hlast : ∀ queue, ∀ msg ∈ textMessages cfg .lastData queue h.reqId, msg.mark ≠ .data := by
    intro queue msg hmsg
    rw [mark_of_mem_textMessages hmsg]
    decide
  by_cases hstream : cfg.streamMode = true
  · cases isEos with
    | false =>
      refine ⟨textMessages cfg .data queue h.reqId, [], ?_, fun _ => mark_of_mem_textMessages, ?_,
        rfl⟩
      · rw [sendQueue_of_not_eos hstream, List.append_nil]
        rfl
      · simp
    | true =>
      refine ⟨textMessages cfg .data (queue.take (queue.length - 2)) h.reqId,
        textMessages cfg .lastData (queue.drop (queue.length - 2)) h.reqId, ?_,
        fun _ => mark_of_mem_textMessages, hlast _, ?_⟩
      · rw [sendQueue_of_eos hstream]
        rfl
      · simp [textMessages, lastTexts, hstream]
  · obtain rfl := heos.resolve_left hstream
    refine ⟨[], textMessages cfg .lastData queue h.reqId, ?_, by simp, hlast _, ?_⟩
    · rw [sendQueue_of_not_streamMode (Bool.eq_false_iff.mpr hstream), List.append_nil]
      rfl
    · simp [textMessages, lastTexts, hstream]

/-! ### Token responses -/

theorem sends_onQueue (response : ReqHandler.Response) (bestNTokens : List BestNTokens)
    {queue? : Option (List String)}
    (hqueue? : (construct cfg response (if cfg.streamMode then bestNTokens else h.respTokens) h).2 =
      queue?)
    (heos : cfg.streamMode = true ∨ response.isEos = true) :
    Sends h (onQueue cfg response bestNTokens h) (response.isEos || queue?.isNone)
      (∀ queue, queue? = some queue → response.isEos = true → (lastTexts cfg queue).length = 1)
      [] := by
  unfold onQueue
  rcases hconstruct :
    construct cfg response (if cfg.streamMode then bestNTokens else h.respTokens) h
    with ⟨interface, _ | queue⟩
  · rw [hconstruct] at hqueue?
    subst hqueue?
    have hone : Sends h (finish (sendDResult cfg .error
        "Failed to decode token id to json response." { h with interface })) true True [] :=
      Sends.one _ (by decide) ⟨rfl, rfl⟩
    simpa [sendDError] using hone
  · rw [hconstruct] at hqueue?
    subst hqueue?
    obtain ⟨data, last, hqueue, hdata, hlast, hlength⟩ :=
      sends_sendQueue (h := { h with interface }) response.isEos heos queue
    simp only [hqueue]
    cases hresponse : response.isEos with
    | false =>
      rw [hresponse, if_neg Bool.false_ne_true, List.length_eq_zero_iff] at hlength
      exact ⟨⟨data, last, rfl, hdata, hlast, hlength⟩, rfl, (List.append_nil _).symm⟩
    | true =>
      rw [hresponse, if_pos rfl] at hlength
      refine ⟨⟨data, last, rfl, hdata, hlast, ?_⟩, rfl, (List.append_nil _).symm⟩
      simp [hlength]

/-- What a step passes on, counted from an earlier state with the same messages. -/
theorem Sends.of_same {h₀ : Handler σ} {ended : Bool} {one : Prop} {released : List String}
    (hsends : Sends h h' ended one released) (hsent : h.sent = h₀.sent)
    (hfinish : h.isFinish = h₀.isFinish) (hreleased : h.released = h₀.released) :
    Sends h₀ h' ended one released where
  sent := by
    rw [← hsent]
    exact hsends.sent
  isFinish := by
    rw [← hfinish]
    exact hsends.isFinish
  released := by
    rw [← hreleased]
    exact hsends.released

@[simp] theorem keepTokens_sent (bestNTokens : List BestNTokens) :
    (keepTokens cfg bestNTokens h).sent = h.sent := by
  unfold keepTokens
  split <;> rfl

@[simp] theorem keepTokens_isFinish (bestNTokens : List BestNTokens) :
    (keepTokens cfg bestNTokens h).isFinish = h.isFinish := by
  unfold keepTokens
  split <;> rfl

@[simp] theorem keepTokens_released (bestNTokens : List BestNTokens) :
    (keepTokens cfg bestNTokens h).released = h.released := by
  unfold keepTokens
  split <;> rfl

/-- The index for simulated sequences is not read by the conversion. -/
theorem construct_keepTokens (response : ReqHandler.Response) (bestNTokens : List BestNTokens)
    (simulatedSeqIndex : UInt64) :
    (construct cfg response
      (if cfg.streamMode then bestNTokens
        else (keepTokens cfg bestNTokens { h with simulatedSeqIndex }).respTokens)
      (keepTokens cfg bestNTokens { h with simulatedSeqIndex })).2 =
      (construct cfg response (tokensSoFar cfg bestNTokens h) h).2 := by
  unfold construct keepTokens tokensSoFar
  split <;> rfl

theorem sends_onTokens {response : ReqHandler.Response}
    (hpull : response.transferStatusFlag ≠ .pullKvComplete)
    (hrecompute : response.transferStatusFlag ≠ .recomputedTriggered) :
    Sends h (onTokens cfg response h) (ends cfg response h)
      (∀ queue ∈ eosTexts cfg response h, (lastTexts cfg queue).length = 1) [] := by
  have hends : ends cfg response h =
      match parseTokensFromResponse cfg.request h.simulatedSeqIndex response with
      | (_, none) => true
      | (_, some bestNTokens) =>
        response.isEos ||
          (cfg.streamMode &&
            (construct cfg response (tokensSoFar cfg bestNTokens h) h).2.isNone) := by
    unfold ends
    split <;> first | contradiction | rfl
  have hqueue : eosTexts cfg response h =
      match parseTokensFromResponse cfg.request h.simulatedSeqIndex response with
      | (_, none) => none
      | (_, some bestNTokens) =>
        if response.isEos then (construct cfg response (tokensSoFar cfg bestNTokens h) h).2
        else none := by
    unfold eosTexts
    split <;> first | contradiction | rfl
  rw [hends, hqueue]
  unfold onTokens
  rcases parseTokensFromResponse cfg.request h.simulatedSeqIndex response with
    ⟨simulatedSeqIndex, _ | bestNTokens⟩
  · have hone : Sends h (finish (sendDResult cfg .error
        "Failed to get token id from infer response." { h with simulatedSeqIndex })) true True [] :=
      Sends.one _ (by decide) ⟨rfl, rfl⟩
    simpa [sendDError] using hone
  · dsimp only
    split
    · next hkept =>
      obtain ⟨hstream, heos⟩ := hkept
      rw [Bool.not_eq_true] at hstream heos
      simp only [hstream, heos]
      exact ⟨⟨[], [], by simp, by simp, by simp, by simp⟩, by simp, by simp⟩
    · next hkept =>
      have heos : cfg.streamMode = true ∨ response.isEos = true := by
        by_contra hnot
        exact hkept ⟨fun h => hnot (.inl h), fun h => hnot (.inr h)⟩
      have hsends : Sends h (onQueue cfg response bestNTokens
          (keepTokens cfg bestNTokens { h with simulatedSeqIndex })) _ _ _ :=
        (sends_onQueue response bestNTokens
          (construct_keepTokens response bestNTokens simulatedSeqIndex)
          heos).of_same (keepTokens_sent bestNTokens) (keepTokens_isFinish bestNTokens)
          (keepTokens_released bestNTokens)
      have hended (b : Bool) :
          (response.isEos || (cfg.streamMode && b)) = (response.isEos || b) := by
        rcases heos with h | h <;> simp [h]
      have hone (queue? : Option (List String)) :
          (∀ queue ∈ if response.isEos = true then queue? else none,
              (lastTexts cfg queue).length = 1) ↔
            ∀ queue, queue? = some queue → response.isEos = true →
              (lastTexts cfg queue).length = 1 := by
        by_cases h : response.isEos = true <;> simp [h]
      rw [hended, hone]
      exact hsends

theorem ends_reqId (response : ReqHandler.Response) (reqId : String) :
    ends cfg response { h with reqId } = ends cfg response h := by
  rfl

theorem eosTexts_reqId (response : ReqHandler.Response) (reqId : String) :
    eosTexts cfg response { h with reqId } = eosTexts cfg response h := by
  rfl

/-- **What one response does.** -/
theorem sends_callback (response : ReqHandler.Response) (hfinish : h.isFinish = false) :
    Sends h (callback cfg h (some response)) (ends cfg response h)
      (∀ queue ∈ eosTexts cfg response h, (lastTexts cfg queue).length = 1)
      (if response.transferStatusFlag = .pullKvComplete then [response.reqId] else []) := by
  have htokens (hpull : response.transferStatusFlag ≠ .pullKvComplete)
      (hrecompute : response.transferStatusFlag ≠ .recomputedTriggered) :
      Sends h (onTokens cfg response { h with reqId := response.reqId }) _ _ _ :=
    (sends_onTokens hpull hrecompute).of_same rfl rfl rfl
  simp only [ends_reqId, eosTexts_reqId] at htokens
  unfold callback
  simp only [hfinish, Bool.false_eq_true, if_false]
  cases hflag : response.transferStatusFlag with
  | pullKvComplete =>
    have hends : ends cfg response h = (pullError response).isSome := by simp [ends, hflag]
    have hqueue : eosTexts cfg response h = none := by simp [eosTexts, hflag]
    rw [hends, hqueue]
    have hsends : Sends h (onPullKv cfg response { h with reqId := response.reqId }) _ _ _ :=
      (sends_onPullKv response).of_same rfl rfl rfl
    simpa [hflag, hfinish] using hsends
  | recomputedTriggered =>
    have hends : ends cfg response h = true := by simp [ends, hflag]
    have hqueue : eosTexts cfg response h = none := by simp [eosTexts, hflag]
    rw [hends, hqueue]
    have hsends : Sends h (onRecompute cfg { h with reqId := response.reqId }) _ _ _ :=
      sends_onRecompute.of_same rfl rfl rfl
    simpa [hflag, hfinish] using hsends
  | notTransfer => simpa [hflag, hfinish] using htokens (by simp [hflag]) (by simp [hflag])
  | publishKvComplete => simpa [hflag, hfinish] using htokens (by simp [hflag]) (by simp [hflag])
  | prefillComplete => simpa [hflag, hfinish] using htokens (by simp [hflag]) (by simp [hflag])

/-! ## Runs -/

theorem run_concat (h : Handler σ) (responses : List (Option ReqHandler.Response))
    (response : Option ReqHandler.Response) :
    run cfg h (responses ++ [response]) = callback cfg (run cfg h responses) response := by
  simp [run]

theorem callback_of_isFinish (hfinish : h.isFinish = true) (response : Option ReqHandler.Response) :
    callback cfg h response = h := by
  unfold callback
  split
  · rfl
  · rw [if_pos hfinish]

/-- Nothing is processed after the end. -/
theorem run_of_isFinish (hfinish : h.isFinish = true)
    (responses : List (Option ReqHandler.Response)) : run cfg h responses = h := by
  induction responses using List.reverseRecOn with
  | nil => rfl
  | append_singleton responses response ih =>
    rw [run_concat, ih, callback_of_isFinish hfinish]

theorem processed_concat {responses before : List (Option ReqHandler.Response)}
    {response : ReqHandler.Response}
    {last : Option ReqHandler.Response} :
    Processed cfg h (responses ++ [last]) before response ↔
      Processed cfg h responses before response ∨
        (before = responses ∧ last = some response ∧ (run cfg h responses).isFinish = false) := by
  unfold Processed
  rw [List.prefix_concat_iff]
  constructor
  · rintro ⟨heq | hbefore, hfinish⟩
    · obtain ⟨rfl, hlast⟩ := List.append_inj' heq rfl
      exact .inr ⟨rfl, (List.singleton_inj.mp hlast).symm, hfinish⟩
    · exact .inl ⟨hbefore, hfinish⟩
  · rintro (⟨hbefore, hfinish⟩ | ⟨rfl, rfl, hfinish⟩)
    · exact ⟨.inr hbefore, hfinish⟩
    · exact ⟨.inl rfl, hfinish⟩

/-- What has been sent at some point is data until the end, and then ends with one terminal
message. -/
structure Kept (h : Handler σ) : Prop where
  sent : ∃ data last, h.sent = data ++ last ∧ (∀ msg ∈ data, msg.mark = .data) ∧
    (∀ msg ∈ last, msg.mark ≠ .data) ∧ last.length = if h.isFinish then 1 else 0
  released : h.released.length ≤ 1

theorem Kept.callback {response : Option ReqHandler.Response} (hkept : Kept h)
    (hmarks : h.isFinish = false → ∀ r, response = some r → MarksOne cfg r h) :
    Kept (callback cfg h response) := by
  by_cases hfinish : h.isFinish = true
  · rwa [callback_of_isFinish hfinish]
  rw [Bool.not_eq_true] at hfinish
  cases response with
  | none => exact hkept
  | some response =>
    have hmarks := hmarks hfinish response rfl
    have hsends : Sends h (DecodeReqHandler.callback cfg h (some response)) _ _ _ :=
      sends_callback response hfinish
    obtain ⟨data, last, hsent, hdata, hlast, hone⟩ := hsends.sent
    obtain ⟨data₀, last₀, hsent₀, hdata₀, -, hlength₀⟩ := hkept.sent
    rw [hfinish, if_neg Bool.false_ne_true, List.length_eq_zero_iff] at hlength₀
    subst hlength₀
    refine ⟨⟨data₀ ++ data, last, ?_, ?_, hlast, ?_⟩, ?_⟩
    · rw [hsent, hsent₀, List.append_nil]
    · intro msg hmsg
      exact (List.mem_append.mp hmsg).elim (hdata₀ msg) (hdata msg)
    · rw [hsends.isFinish, hfinish, Bool.or_false]
      split at hone
      · next hends => rw [if_pos hends]; exact hone.mp hmarks.mark
      · next hends => rw [if_neg hends, hone]; rfl
    · rw [hsends.released]
      split
      · next hpull => simp [hmarks.release hpull]
      · rw [List.append_nil]
        exact hkept.released

/-- Until the end only data is sent, whatever the responses are. -/
theorem sent_of_not_isFinish {responses : List (Option ReqHandler.Response)} (hsent : h.sent = [])
    (hfinish : (run cfg h responses).isFinish = false) :
    ∀ msg ∈ (run cfg h responses).sent, msg.mark = .data := by
  induction responses using List.reverseRecOn with
  | nil =>
    have hrun : run cfg h [] = h := rfl
    rw [hrun, hsent]
    simp
  | append_singleton responses response ih =>
    rw [run_concat] at hfinish ⊢
    have hbefore : (run cfg h responses).isFinish = false := by
      by_contra hnot
      rw [Bool.not_eq_false] at hnot
      rw [callback_of_isFinish hnot, hnot] at hfinish
      cases hfinish
    cases response with
    | none => exact ih hfinish
    | some response =>
      have hsends : Sends _ (callback cfg (run cfg h responses) (some response)) _ _ _ :=
        sends_callback response hbefore
      rw [hsends.isFinish, Bool.or_eq_false_iff] at hfinish
      obtain ⟨data, last, hsent, hdata, -, hone⟩ := hsends.sent
      rw [hfinish.1, if_neg Bool.false_ne_true] at hone
      rw [hsent, hone, List.append_nil]
      intro msg hmsg
      exact (List.mem_append.mp hmsg).elim (ih hbefore msg) (hdata msg)

/-! ## When a request ends once -/

theorem countP_terminal {data last : List DResultWrapParam} (hdata : ∀ msg ∈ data, msg.mark = .data)
    (hlast : ∀ msg ∈ last, msg.mark ≠ .data) :
    (data ++ last).countP DResultWrapParam.terminal = last.length := by
  have hnone : data.countP DResultWrapParam.terminal = 0 := by
    rw [List.countP_eq_zero]
    intro msg hmsg
    simp [DResultWrapParam.terminal, hdata msg hmsg]
  have hall : last.countP DResultWrapParam.terminal = last.length := by
    rw [List.countP_eq_length]
    intro msg hmsg
    simp [DResultWrapParam.terminal, hlast msg hmsg]
  rw [List.countP_append, hnone, hall, Nat.zero_add]

theorem isFinish_of_processed {responses before : List (Option ReqHandler.Response)}
    {response : ReqHandler.Response}
    (hprocessed : Processed cfg h responses before response)
    (hends : ends cfg response (run cfg h before)) : (run cfg h responses).isFinish = true := by
  obtain ⟨⟨after, rfl⟩, hfinish⟩ := hprocessed
  have hafter : (run cfg h (before ++ [some response])).isFinish = true := by
    rw [run_concat, (sends_callback response hfinish).isFinish, hends, Bool.true_or]
  have hrun : run cfg h (before ++ [some response] ++ after) =
      run cfg (run cfg h (before ++ [some response])) after := List.foldl_append ..
  rw [hrun, run_of_isFinish hafter, hafter]

theorem Kept.endsOnce {responses : List (Option ReqHandler.Response)}
    (hkept : Kept (run cfg h responses)) :
    EndsOnce cfg h responses := by
  obtain ⟨data, last, hsent, hdata, hlast, hlength⟩ := hkept.sent
  have hcount := countP_terminal hdata hlast
  have hshort : last.length ≤ 1 := by
    rw [hlength]
    split <;> omega
  refine ⟨?_, ?_, ?_, hkept.released⟩
  · rw [hsent, hcount]
    exact hshort
  · rw [hsent]
    intro msg hmsg
    refine hdata msg ?_
    rcases last with _ | ⟨msg', _ | ⟨_, _⟩⟩
    · rw [List.append_nil] at hmsg
      exact List.dropLast_subset _ hmsg
    · rwa [List.dropLast_concat] at hmsg
    · simp at hshort
  · intro before response hprocessed hends
    rw [hsent, hcount, hlength, if_pos (isFinish_of_processed hprocessed hends)]

/-- What a step sends comes after what was sent. -/
theorem sent_callback (response : Option ReqHandler.Response) :
    h.sent <+: (callback cfg h response).sent ∧
      h.released <+: (callback cfg h response).released := by
  by_cases hfinish : h.isFinish = true
  · rw [callback_of_isFinish hfinish]
    exact ⟨List.prefix_refl _, List.prefix_refl _⟩
  · cases response with
    | none => exact ⟨List.prefix_refl _, List.prefix_refl _⟩
    | some response =>
      have hsends : Sends h (callback cfg h (some response)) _ _ _ :=
        sends_callback response (Bool.eq_false_iff.mpr hfinish)
      obtain ⟨data, last, hsent, -⟩ := hsends.sent
      rw [hsent, hsends.released, List.append_assoc]
      exact ⟨List.prefix_append _ _, List.prefix_append _ _⟩

theorem EndsOnce.of_concat {responses : List (Option ReqHandler.Response)}
    {last : Option ReqHandler.Response}
    (honce : EndsOnce cfg h (responses ++ [last])) : EndsOnce cfg h responses := by
  obtain ⟨⟨more, hmore⟩, hreleased⟩ :
      (run cfg h responses).sent <+: (callback cfg (run cfg h responses) last).sent ∧ _ :=
    sent_callback last
  have hcount := honce.atMostOne
  have hearlier := honce.earlier
  have hrelease := honce.released
  rw [run_concat] at hcount hearlier hrelease
  rw [← hmore] at hcount hearlier
  refine ⟨?_, ?_, ?_, Nat.le_trans hreleased.length_le hrelease⟩
  · rw [List.countP_append] at hcount
    omega
  · intro msg hmsg
    refine hearlier msg ?_
    by_cases hnil : more = []
    · rwa [hnil, List.append_nil]
    · rw [List.dropLast_append_of_ne_nil hnil]
      exact List.mem_append_left _ (List.dropLast_subset _ hmsg)
  · intro before response hprocessed hends
    have hended := honce.ended before response (processed_concat.mpr (.inl hprocessed)) hends
    rwa [run_concat, callback_of_isFinish (isFinish_of_processed hprocessed hends)] at hended

theorem ends_of_mem_eosTexts {response : ReqHandler.Response} {queue : List String}
    (hqueue : queue ∈ eosTexts cfg response h) : ends cfg response h = true := by
  unfold eosTexts at hqueue
  unfold ends
  split at hqueue
  · cases hqueue
  · cases hqueue
  · split at hqueue
    · cases hqueue
    · split at hqueue
      · next heos => simp [*]
      · cases hqueue

variable (cfg)

/-- **When a request ends once.** It does if and only if every response that is processed meets the
condition: no pull of the KV cache completes after one that has, and the end of a sequence has
exactly one text that is marked as last. -/
theorem endsOnce_iff (reqId : String) (hasConstruct : Bool) (interface : σ)
    (responses : List (Option ReqHandler.Response)) :
    EndsOnce cfg (.init reqId hasConstruct interface) responses ↔
      ∀ before response,
        Processed cfg (.init reqId hasConstruct interface) responses before response →
        MarksOne cfg response (run cfg (.init reqId hasConstruct interface) before) := by
  constructor
  · intro honce
    induction responses using List.reverseRecOn with
    | nil =>
      rintro before response ⟨hbefore, -⟩
      simp at hbefore
    | append_singleton responses last ih =>
      intro before response hprocessed
      rcases processed_concat.mp hprocessed with hprocessed | ⟨rfl, rfl, hfinish⟩
      · exact ih honce.of_concat before response hprocessed
      have hsends : Sends _ (callback cfg (run cfg (.init reqId hasConstruct interface) before)
          (some response)) _ _ _ := sends_callback response hfinish
      have hreleased := honce.released
      have hended := honce.ended before response hprocessed
      rw [run_concat] at hreleased hended
      refine ⟨fun hpull => ?_, fun queue hqueue => ?_⟩
      · rw [hsends.released, if_pos hpull, List.length_append, List.length_singleton] at hreleased
        exact List.length_eq_zero_iff.mp (by omega)
      · have hends := ends_of_mem_eosTexts hqueue
        obtain ⟨data, last, hsent, hdata, hlast, hone⟩ := hsends.sent
        rw [if_pos hends] at hone
        refine hone.mpr ?_ queue hqueue
        have hended := hended hends
        have hearlier := sent_of_not_isFinish rfl hfinish
        rwa [hsent, countP_terminal (fun msg hmsg =>
          (List.mem_append.mp hmsg).elim (hearlier msg) (hdata msg)) hlast] at hended
  · intro hmarks
    refine Kept.endsOnce ?_
    induction responses using List.reverseRecOn with
    | nil => exact ⟨⟨[], [], rfl, by simp, by simp, rfl⟩, Nat.zero_le _⟩
    | append_singleton responses last ih =>
      rw [run_concat]
      refine (ih fun before response hprocessed =>
        hmarks before response (processed_concat.mpr (.inl hprocessed))).callback ?_
      rintro hfinish response rfl
      exact hmarks _ response (processed_concat.mpr (.inr ⟨rfl, rfl, hfinish⟩))

/-- A request that is streamed, with an interface that makes two texts of each response. -/
def twoTexts : Config Unit where
  streamMode := true
  tritonReqId := ""
  request := ⟨none, none⟩
  constructOneResponse := fun _ _ _ => ((), some ["data: a", "data: [DONE]"])
  dmiReCompBuildMethod := none

/-- A token with the end of the sequence. -/
def eosResponse : ReqHandler.Response where
  reqId := "r"
  responseContents := [⟨1, 1, .endOfSentence, 1, [7], [], 0, 0, [], [], [], 0, 0, false⟩]
  isEos := true
  inferStatusFlag := .iterationContinue
  transferStatusFlag := .notTransfer

/-- Both texts of the end of a sequence are sent as the last one. -/
theorem not_endsOnce : ¬∀ (σ : Type) (cfg : Config σ) (reqId : String) (hasConstruct : Bool)
    (interface : σ) (responses : List (Option ReqHandler.Response)),
    EndsOnce cfg (.init reqId hasConstruct interface) responses := by
  intro h
  have hcount := (h Unit twoTexts "r" true () [some eosResponse]).atMostOne
  exact absurd hcount (by decide)

end MindieLLM.DecodeReqHandler
