import MindieLLM.Server.SingleLLMReqHandlerBase

/-!
# The answer of a prefill node

The HTTP thread hands a request to the engine of the prefill node and waits. The engine calls back
with responses, one after another under a mutex: when the first token is there, the callback sends
the request on to a decode node and answers with the first token. If the wait times out, the HTTP
thread answers. Who answers is settled by a compare and exchange of the flag `isFinish_`.

The HTTP thread, the callbacks and the requests to stop are interleaved; each statement that touches
what they share is a step. A wait may end at any time. The engine calls back only for a request that
it has taken in. How tokens become texts, which the callback puts into the queue `respStr_`, is a
parameter with a state of its own.

## Main definitions

* `step`: the statements of the HTTP thread and of the callback
* `AnswersOnce`: one body at most, and nothing is sent on after the answer of a timeout is chosen
* `Safe`: the condition on a step

## Main results

* `answersOnce_of_reaches`: safe steps answer once
* `not_answersOnce`: a first token without a text is answered twice
-/

namespace MindieLLM.PrefillReqHandler

open Program DecodeCache ReqHandler StreamCache

/-! ## The parties -/

/-- What is written as the body of the HTTP response. -/
inductive Body
  | error (code : ℕ) (message : String)
  /-- The first token, with the mark of the last response and the output if it is sent at once. -/
  | firstToken (reqId : String) (isStream : Bool) (output : Option (Bool × String))
  deriving DecidableEq

inductive Event
  | body (body : Body)
  /-- A request to the decode node, with the first tokens. -/
  | decodeRequest (firstToken : List ℤ)
  /-- The HTTP thread has won the exchange after a timeout. -/
  | timeoutChosen
  deriving DecidableEq

/-- The next statement of `Process`. -/
inductive HttpPc
  | enqueue
  | sendEnqueueError (code : ℕ) (message : String)
  | clearConstruct
  | waitUntil
  | exchangeTimeout
  | controlStop
  | sendTimeout
  | done

/-- The next statement of the callback. -/
inductive CallbackPc
  | idle
  | entered (response : Option ReqHandler.Response)
  | checkFinish (response : ReqHandler.Response)
  | parseTokens (response : ReqHandler.Response)
  | construct (response : ReqHandler.Response) (firstToken : List BestNTokens)
  | exchangeFailed (message : String)
  | sendFailed (message : String)
  | exchangeEos
  | checkStop
  | eraseStop
  | sendDecode
  | answer (isEnd : Bool)
  | collect (isEnd : Bool) (totalMsg : String)
  | sendTotal (isEnd : Bool) (totalMsg : String)
  | exchangePublished

/-- What is fixed for a request. The interface of the request has the states `σ`. -/
structure Config (σ : Type) where
  reqId : String
  streamMode : Bool
  request : LogprobRequest
  /-- The texts that are put into the queue, and whether the conversion succeeds. -/
  constructOneResponse : ReqHandler.Response → List BestNTokens → σ → σ × List String × Bool

structure State (σ : Type) where
  /-- Whether the engine has taken the request in. -/
  enqueued : Bool
  http : HttpPc
  callback : CallbackPc
  isFinish : Bool
  hasConstruct : Bool
  respStr : List String
  firstToken : List ℤ
  simulatedSeqIndex : UInt64
  interface : σ
  /-- Whether `stopReqSet_` has the request. -/
  isReqStopped : Bool
  log : List Event

variable {σ : Type} (cfg : Config σ)

def State.init (interface : σ) : State σ where
  enqueued := false
  http := .enqueue
  callback := .idle
  isFinish := false
  hasConstruct := true
  respStr := []
  firstToken := []
  simulatedSeqIndex := 1
  interface
  isReqStopped := false
  log := []

/-! ## Steps -/

def write (body : Body) (s : State σ) : State σ := { s with log := s.log ++ [.body body] }

/-- `Status` of the engine, if it does not take the request in. -/
def enqueueError (invalidArg : Bool) (statusMsg : String) : HttpPc :=
  .sendEnqueueError (if invalidArg then 424 else 500)
    ("Failed to enqueue inferRequest. " ++ statusMsg)

/-- `Process`, apart from the result of the engine and the wait. -/
def httpStep (s : State σ) : Option (State σ) :=
  match s.http with
  | .sendEnqueueError code message =>
    some { write (.error code message) s with http := .clearConstruct }
  | .clearConstruct => some { s with http := .done, hasConstruct := false }
  | .exchangeTimeout =>
    if s.isFinish then some { s with http := .done }
    else some { s with http := .controlStop, isFinish := true, log := s.log ++ [.timeoutChosen] }
  | .controlStop => some { s with http := .sendTimeout }
  | .sendTimeout => some { write (.error 500 "Engine callback timeout.") s with http := .done }
  | .enqueue | .waitUntil | .done => none

/-- The branch of a response that is neither the end of a request nor late. -/
def branch (response : ReqHandler.Response) (s : State σ) : State σ :=
  if response.isEos then
    { s with callback := .parseTokens response }
  else
    match response.transferStatusFlag with
    | .prefillComplete => { s with callback := .parseTokens response }
    | .publishKvComplete => { s with callback := .checkStop }
    | _ =>
      { s with hasConstruct := false, callback := .exchangeFailed "[P Node] Unknown transfer flag" }

/-- The first part of `GenerateFirstToken`. -/
def parseFirstToken (response : ReqHandler.Response) (s : State σ) : State σ :=
  match parseTokensFromResponse cfg.request s.simulatedSeqIndex response with
  | (simulatedSeqIndex, none) =>
    { s with
      simulatedSeqIndex
      firstToken := []
      callback := .exchangeFailed "[P Node] Failed to get tokenIds from inferResponse." }
  | (simulatedSeqIndex, some []) =>
    { s with simulatedSeqIndex, firstToken := [], callback := .idle }
  | (simulatedSeqIndex, some (first :: rest)) =>
    { s with
      simulatedSeqIndex
      firstToken := first.tokens
      callback := .construct response (first :: rest) }

/-- The second part of `GenerateFirstToken`. -/
def constructFirstToken (response : ReqHandler.Response) (firstToken : List BestNTokens)
    (s : State σ) : State σ :=
  let failed : CallbackPc := .exchangeFailed "[P Node] Failed to decode tokenIds to respStr."
  if s.hasConstruct then
    match cfg.constructOneResponse response firstToken s.interface with
    | (interface, texts, true) =>
      { s with
        interface
        respStr := s.respStr ++ texts
        hasConstruct := false
        callback := if response.isEos then .exchangeEos else .idle }
    | (interface, texts, false) =>
      { s with interface, respStr := s.respStr ++ texts, callback := failed }
  else
    { s with callback := failed }

/-- `SendResponseStream` -/
def sendResponseStream (isEnd : Bool) (responseStr : String) (s : State σ) : State σ :=
  write (.firstToken cfg.reqId cfg.streamMode
    (if cfg.streamMode || isEnd then some (isEnd, responseStr) else none)) s

/-- `AtomicReadWriteFinish`, with the next statement if the exchange succeeds. -/
def exchange (next : CallbackPc) (s : State σ) : State σ :=
  if s.isFinish then { s with callback := .idle } else { s with isFinish := true, callback := next }

/-- The callback, apart from the result of the decode node. -/
def callbackStep (s : State σ) : Option (State σ) :=
  match s.callback with
  | .idle | .sendDecode => none
  | .entered none => some { s with hasConstruct := false, callback := .idle }
  | .entered (some response) =>
    if response.inferStatusFlag = .releaseKvComplete ∨ response.inferStatusFlag = .illegalInput then
      some { s with hasConstruct := false, callback := .idle }
    else
      some { s with callback := .checkFinish response }
  | .checkFinish response =>
    if s.isFinish then some { s with hasConstruct := false, callback := .idle }
    else some (branch response s)
  | .parseTokens response => some (parseFirstToken cfg response s)
  | .construct response firstToken => some (constructFirstToken cfg response firstToken s)
  | .exchangeFailed message =>
    if s.isFinish then some { s with hasConstruct := false, callback := .idle }
    else some { s with isFinish := true, callback := .sendFailed message }
  | .sendFailed message =>
    some { write (.error 500 message) s with hasConstruct := false, callback := .idle }
  | .exchangeEos => some (exchange (.answer true) s)
  | .checkStop =>
    some { s with
      hasConstruct := false
      callback := if s.isReqStopped then .eraseStop else .sendDecode }
  | .eraseStop => some { s with isReqStopped := false, callback := .idle }
  | .answer isEnd =>
    some { (if s.respStr = [] then sendResponseStream cfg isEnd "" s else s) with
      callback := .collect isEnd "" }
  | .collect isEnd totalMsg =>
    match s.respStr with
    | [] => some { s with callback := .sendTotal isEnd totalMsg }
    | msgTmp :: respStr => some { s with respStr, callback := .collect isEnd (totalMsg ++ msgTmp) }
  | .sendTotal isEnd totalMsg =>
    some { sendResponseStream cfg isEnd totalMsg s with
      callback := if isEnd then .idle else .exchangePublished }
  | .exchangePublished => some (exchange .idle s)

inductive Op
  /-- The engine takes the request in, or refuses it with a status. -/
  | enqueue (refused : Option (Bool × String))
  | http
  /-- The wait ends, with a timeout or not. -/
  | wake (timeout : Bool)
  /-- The engine calls back. -/
  | arrive (response : Option ReqHandler.Response)
  | callback
  /-- The request is sent to the decode node, which may fail with a message. -/
  | sendDecode (errMsg : Option String)
  | stopRequest

def step (s : State σ) : Op → Option (State σ)
  | .enqueue refused =>
    match s.http, refused with
    | .enqueue, none => some { s with enqueued := true, http := .waitUntil }
    | .enqueue, some (invalidArg, statusMsg) =>
      some { s with http := enqueueError invalidArg statusMsg }
    | _, _ => none
  | .http => httpStep s
  | .wake timeout =>
    match s.http with
    | .waitUntil => some { s with http := if timeout then .exchangeTimeout else .done }
    | _ => none
  | .arrive response =>
    match s.enqueued, s.callback with
    | true, .idle => some { s with callback := .entered response }
    | _, _ => none
  | .callback => callbackStep cfg s
  | .sendDecode errMsg =>
    match s.callback with
    | .sendDecode =>
      some { s with
        log := s.log ++ [.decodeRequest s.firstToken]
        callback := match errMsg with
          | none => .answer false
          | some errMsg => .exchangeFailed ("[P Node] Send D request failed:" ++ errMsg) }
    | _ => none
  | .stopRequest => some { s with isReqStopped := true }

/-! ## Answering once -/

def Event.isBody : Event → Bool
  | .body _ => true
  | _ => false

/-- The request is sent on to the decode node, or the first token to the coordinator. -/
def Event.sendsOn : Event → Bool
  | .body (.firstToken ..) | .decodeRequest _ => true
  | _ => false

/-- At most one body is written, and after the answer of a timeout is chosen nothing is sent on. -/
structure AnswersOnce (s : State σ) : Prop where
  one : s.log.countP Event.isBody ≤ 1
  timeout : ∀ before after, s.log = before ++ .timeoutChosen :: after →
    ∀ event ∈ after, event.sendsOn = false

/-- The decode node has the request, and the flag is not yet exchanged. -/
def CallbackPc.publishes : CallbackPc → Bool
  | .answer false | .collect false _ | .sendTotal false _ | .exchangePublished => true
  | _ => false

/-- **The condition on a step.** There is a text to answer with, the request is not sent on after
`isFinish_` is set, and a timeout does not win the exchange once the request is sent on. -/
def Safe (s : State σ) : Op → Prop
  | .callback =>
    match s.callback with
    | .answer _ => s.respStr ≠ []
    | _ => True
  | .sendDecode _ => s.isFinish = false
  | .http =>
    match s.http with
    | .exchangeTimeout => s.isFinish = false → s.callback.publishes = false
    | _ => True
  | _ => True

/-! ## Who answers -/

/-- How many bodies the HTTP thread is going to write. -/
def HttpPc.owed : HttpPc → ℕ
  | .sendEnqueueError .. | .controlStop | .sendTimeout => 1
  | _ => 0

/-- Whether the engine is being asked, or has refused. -/
def HttpPc.enqueues : HttpPc → Bool
  | .enqueue | .sendEnqueueError .. | .clearConstruct => true
  | _ => false

/-- Whether the first token is going to be sent. -/
def CallbackPc.answers : CallbackPc → Bool
  | .answer _ | .collect .. | .sendTotal .. => true
  | _ => false

/-- How many bodies the callback is going to write. -/
def CallbackPc.owed : CallbackPc → ℕ
  | .sendFailed _ | .answer _ | .collect .. | .sendTotal .. => 1
  | _ => 0

/-- Whether it is settled who answers. -/
def State.settled (s : State σ) : Bool :=
  s.isFinish || s.callback.publishes ||
    (!s.enqueued && match s.http with | .enqueue => false | _ => true)

structure Invariant (s : State σ) : Prop where
  count : s.log.countP Event.isBody + s.http.owed + s.callback.owed = if s.settled then 1 else 0
  refused : s.enqueued = false → s.callback = .idle ∧ s.isFinish = false ∧
    (s.http.enqueues = true ∨ s.http = .done)
  taken : s.enqueued = true → s.http.enqueues = false
  publishes : s.callback.publishes = true → s.isFinish = false
  chosen : .timeoutChosen ∈ s.log → s.isFinish = true ∧ s.callback.answers = false
  timeout : ∀ before after, s.log = before ++ .timeoutChosen :: after →
    ∀ event ∈ after, event.sendsOn = false

theorem Invariant.answersOnce {s : State σ} (hinv : Invariant s) : AnswersOnce s := by
  refine ⟨?_, hinv.timeout⟩
  have hcount := hinv.count
  split at hcount <;> omega

theorem invariant_init (interface : σ) : Invariant (.init interface) := by
  refine ⟨rfl, fun _ => ⟨rfl, rfl, .inl rfl⟩, nofun, nofun, nofun, ?_⟩
  intro before after hlog
  simp [State.init] at hlog

/-- What is added to the log after a timeout is chosen sends nothing on. -/
theorem timeout_concat {log : List Event} {event : Event}
    (htimeout : ∀ before after, log = before ++ .timeoutChosen :: after →
      ∀ event ∈ after, event.sendsOn = false)
    (hevent : .timeoutChosen ∈ log → event.sendsOn = false) :
    ∀ before after, log ++ [event] = before ++ .timeoutChosen :: after →
      ∀ event ∈ after, event.sendsOn = false := by
  intro before after hlog
  rcases after.eq_nil_or_concat with rfl | ⟨after, last, rfl⟩
  · simp
  · rw [List.concat_eq_append, ← List.cons_append, ← List.append_assoc] at hlog
    obtain ⟨rfl, hlast⟩ := List.append_inj' hlog rfl
    obtain rfl := List.singleton_inj.mp hlast
    intro event' hmem
    rw [List.concat_eq_append, List.mem_append, List.mem_singleton] at hmem
    rcases hmem with hmem | rfl
    · exact htimeout before after rfl event' hmem
    · exact hevent (by simp)

/-! ## One step -/

variable {cfg} {s s' : State σ}

theorem Invariant.enqueued (hinv : Invariant s) (hbusy : s.callback ≠ .idle) :
    s.enqueued = true := by
  by_contra hnot
  exact hbusy (hinv.refused (Bool.eq_false_iff.mpr hnot)).1

theorem settled_of_enqueued (henqueued : s.enqueued = true) :
    s.settled = (s.isFinish || s.callback.publishes) := by
  simp [State.settled, henqueued]

/-- A statement of the callback that neither writes nor exchanges. -/
structure Moves (s s' : State σ) : Prop where
  enqueued : s'.enqueued = s.enqueued
  http : s'.http = s.http
  isFinish : s'.isFinish = s.isFinish
  log : s'.log = s.log
  owed : s'.callback.owed = s.callback.owed
  publishes : s'.callback.publishes = s.callback.publishes
  answers : s'.callback.answers = s.callback.answers

theorem Invariant.move (hinv : Invariant s) (henqueued : s.enqueued = true) (hmoves : Moves s s') :
    Invariant s' := by
  have henqueued' : s'.enqueued = true := hmoves.enqueued.trans henqueued
  refine ⟨?_, fun h => ?_, fun _ => ?_, ?_, ?_, ?_⟩
  · rw [settled_of_enqueued henqueued', hmoves.log, hmoves.http, hmoves.owed, hmoves.isFinish,
      hmoves.publishes, ← settled_of_enqueued henqueued]
    exact hinv.count
  · rw [henqueued'] at h
    cases h
  · rw [hmoves.http]
    exact hinv.taken henqueued
  · rw [hmoves.publishes, hmoves.isFinish]
    exact hinv.publishes
  · rw [hmoves.log, hmoves.isFinish, hmoves.answers]
    exact hinv.chosen
  · rw [hmoves.log]
    exact hinv.timeout

theorem moves_branch {response : ReqHandler.Response} (hpc : s.callback = .checkFinish response) :
    Moves s (branch response s) := by
  unfold branch
  split
  · exact ⟨rfl, rfl, rfl, rfl, by rw [hpc]; rfl, by rw [hpc]; rfl, by rw [hpc]; rfl⟩
  · split <;> exact ⟨rfl, rfl, rfl, rfl, by rw [hpc]; rfl, by rw [hpc]; rfl, by rw [hpc]; rfl⟩

theorem moves_parseFirstToken {response : ReqHandler.Response}
    (hpc : s.callback = .parseTokens response) : Moves s (parseFirstToken cfg response s) := by
  unfold parseFirstToken
  split <;> exact ⟨rfl, rfl, rfl, rfl, by rw [hpc]; rfl, by rw [hpc]; rfl, by rw [hpc]; rfl⟩

theorem moves_constructFirstToken {response : ReqHandler.Response} {firstToken : List BestNTokens}
    (hpc : s.callback = .construct response firstToken) :
    Moves s (constructFirstToken cfg response firstToken s) := by
  unfold constructFirstToken
  split
  · split
    · refine ⟨rfl, rfl, rfl, rfl, ?_, ?_, ?_⟩
      · rw [hpc]
        cases response.isEos <;> rfl
      · rw [hpc]
        cases response.isEos <;> rfl
      · rw [hpc]
        cases response.isEos <;> rfl
    · exact ⟨rfl, rfl, rfl, rfl, by rw [hpc]; rfl, by rw [hpc]; rfl, by rw [hpc]; rfl⟩
  · exact ⟨rfl, rfl, rfl, rfl, by rw [hpc]; rfl, by rw [hpc]; rfl, by rw [hpc]; rfl⟩

/-- The callback wins the exchange, and then owes a body. -/
theorem Invariant.claim {next : CallbackPc} (hinv : Invariant s) (henqueued : s.enqueued = true)
    (hfinish : s.isFinish = false) (howed : s.callback.owed = 0)
    (hpublishes : s.callback.publishes = false) (hnext : next.owed = 1)
    (hnext' : next.publishes = false) :
    Invariant { s with isFinish := true, callback := next } := by
  have hnone : .timeoutChosen ∉ s.log := by
    intro hchosen
    have hset := (hinv.chosen hchosen).1
    rw [hfinish] at hset
    cases hset
  refine ⟨?_, fun h => ?_, fun _ => hinv.taken henqueued, ?_, fun h => absurd h hnone, hinv.timeout⟩
  · have hcount := hinv.count
    rw [settled_of_enqueued henqueued, hfinish, hpublishes, howed] at hcount
    rw [if_pos (by simp [State.settled])]
    simp only [hnext, Bool.false_or, Bool.false_eq_true, if_false] at hcount ⊢
    omega
  · cases henqueued.symm.trans h
  · dsimp only
    rw [hnext']
    nofun

/-- The callback writes the body that it owes. -/
theorem Invariant.pay {body : Body} (hinv : Invariant s) (next : CallbackPc)
    (henqueued : s.enqueued = true) (howed : s.callback.owed = 1) (hnext : next.owed = 0)
    (hpublishes : next.publishes = s.callback.publishes) (hanswers : next.answers = false)
    (hsends : .timeoutChosen ∈ s.log → (Event.body body).sendsOn = false) (hasConstruct : Bool) :
    Invariant { write body s with hasConstruct, callback := next } := by
  refine ⟨?_, fun h => ?_, fun _ => hinv.taken henqueued, ?_, fun hchosen => ⟨?_, hanswers⟩, ?_⟩
  · have hsettled : State.settled { write body s with hasConstruct, callback := next } =
        s.settled := by
      simp [State.settled, write, hpublishes]
    have hlog :
        (s.log ++ [Event.body body]).countP Event.isBody = s.log.countP Event.isBody + 1 := by
      simp [Event.isBody]
    rw [hsettled, ← hinv.count, howed]
    simp only [write, hlog, hnext]
    omega
  · cases henqueued.symm.trans h
  · dsimp only
    rw [hpublishes]
    exact hinv.publishes
  · refine (hinv.chosen ?_).1
    simpa [write] using hchosen
  · exact timeout_concat hinv.timeout hsends

/-- The end of a sequence answers after it has won the exchange, the first token before. -/
theorem Invariant.sendTotal {isEnd : Bool} {totalMsg : String} (hinv : Invariant s)
    (hpc : s.callback = .sendTotal isEnd totalMsg) :
    Invariant { sendResponseStream cfg isEnd totalMsg s with
      callback := if isEnd then .idle else .exchangePublished } := by
  have henqueued := hinv.enqueued (by rw [hpc]; nofun)
  have hnone : .timeoutChosen ∉ s.log := by
    intro hchosen
    have hanswers := (hinv.chosen hchosen).2
    rw [hpc] at hanswers
    cases hanswers
  have howed : s.callback.owed = 1 := by rw [hpc]; rfl
  cases isEnd with
  | true =>
    exact hinv.pay .idle henqueued howed rfl (by rw [hpc]; rfl) rfl
      (fun h => absurd h hnone) s.hasConstruct
  | false =>
    exact hinv.pay .exchangePublished henqueued howed rfl (by rw [hpc]; rfl) rfl
      (fun h => absurd h hnone) s.hasConstruct

/-- Once the first token has been sent, the callback wins the exchange. -/
theorem Invariant.publish (hinv : Invariant s) (hpc : s.callback = .exchangePublished) :
    Invariant (exchange .idle s) := by
  have henqueued := hinv.enqueued (by rw [hpc]; nofun)
  have hfinish := hinv.publishes (by rw [hpc]; rfl)
  have hnone : .timeoutChosen ∉ s.log := by
    intro hchosen
    have hset := (hinv.chosen hchosen).1
    rw [hfinish] at hset
    cases hset
  unfold exchange
  rw [hfinish, if_neg Bool.false_ne_true]
  refine ⟨?_, fun h => ?_, fun _ => hinv.taken henqueued, nofun, fun h => absurd h hnone,
    hinv.timeout⟩
  · have hcount := hinv.count
    rw [settled_of_enqueued henqueued, hpc, hfinish] at hcount
    rw [if_pos (by simp [State.settled])]
    exact hcount
  · cases henqueued.symm.trans h

theorem Invariant.callbackStep (hinv : Invariant s) (hsafe : Safe s .callback)
    (hs : callbackStep cfg s = some s') : Invariant s' := by
  have hidle {pc : CallbackPc} (hpc : s.callback = pc) (howed : pc.owed = 0)
      (hpublishes : pc.publishes = false) (hanswers : pc.answers = false) (hbusy : pc ≠ .idle)
      (hasConstruct isReqStopped : Bool) :
      Invariant { s with hasConstruct, isReqStopped, callback := .idle } :=
    hinv.move (hinv.enqueued (hpc ▸ hbusy)) ⟨rfl, rfl, rfl, rfl, by rw [hpc, howed]; rfl,
      by rw [hpc, hpublishes]; rfl, by rw [hpc, hanswers]; rfl⟩
  unfold PrefillReqHandler.callbackStep at hs
  split at hs
  · cases hs
  · cases hs
  · next hpc =>
    cases hs
    exact hidle hpc rfl rfl rfl nofun false s.isReqStopped
  · next response hpc =>
    split at hs
    · cases hs
      exact hidle hpc rfl rfl rfl nofun false s.isReqStopped
    · cases hs
      exact hinv.move (hinv.enqueued (by rw [hpc]; nofun)) ⟨rfl, rfl, rfl, rfl, by rw [hpc]; rfl,
        by rw [hpc]; rfl, by rw [hpc]; rfl⟩
  · next response hpc =>
    split at hs
    · cases hs
      exact hidle hpc rfl rfl rfl nofun false s.isReqStopped
    · cases hs
      exact hinv.move (hinv.enqueued (by rw [hpc]; nofun)) (moves_branch hpc)
  · next response hpc =>
    cases hs
    exact hinv.move (hinv.enqueued (by rw [hpc]; nofun)) (moves_parseFirstToken hpc)
  · next response firstToken hpc =>
    cases hs
    exact hinv.move (hinv.enqueued (by rw [hpc]; nofun)) (moves_constructFirstToken hpc)
  · next message hpc =>
    split at hs
    · cases hs
      exact hidle hpc rfl rfl rfl nofun false s.isReqStopped
    · next hfinish =>
      cases hs
      exact hinv.claim (hinv.enqueued (by rw [hpc]; nofun)) (Bool.eq_false_iff.mpr hfinish)
        (by rw [hpc]; rfl) (by rw [hpc]; rfl) rfl rfl
  · next message hpc =>
    cases hs
    exact hinv.pay _ (hinv.enqueued (by rw [hpc]; nofun)) (by rw [hpc]; rfl) rfl (by rw [hpc]; rfl)
      rfl
      (fun _ => rfl) false
  · next hpc =>
    cases hs
    unfold exchange
    split
    · exact hidle hpc rfl rfl rfl nofun s.hasConstruct s.isReqStopped
    · next hfinish =>
      exact hinv.claim (hinv.enqueued (by rw [hpc]; nofun)) (Bool.eq_false_iff.mpr hfinish)
        (by rw [hpc]; rfl) (by rw [hpc]; rfl) rfl rfl
  · next hpc =>
    cases hs
    refine hinv.move (hinv.enqueued (by rw [hpc]; nofun)) ⟨rfl, rfl, rfl, rfl, ?_, ?_, ?_⟩
    · rw [hpc]
      cases s.isReqStopped <;> rfl
    · rw [hpc]
      cases s.isReqStopped <;> rfl
    · rw [hpc]
      cases s.isReqStopped <;> rfl
  · next hpc =>
    cases hs
    exact hidle hpc rfl rfl rfl nofun s.hasConstruct false
  · next isEnd hpc =>
    cases hs
    have htext : s.respStr ≠ [] := by
      simp only [Safe, hpc] at hsafe
      exact hsafe
    rw [if_neg htext]
    refine hinv.move (hinv.enqueued (by rw [hpc]; nofun)) ⟨rfl, rfl, rfl, rfl, ?_, ?_, ?_⟩
    · rw [hpc]
      rfl
    · rw [hpc]
      cases isEnd <;> rfl
    · rw [hpc]
      rfl
  · next isEnd totalMsg hpc =>
    split at hs
    · cases hs
      refine hinv.move (hinv.enqueued (by rw [hpc]; nofun)) ⟨rfl, rfl, rfl, rfl, ?_, ?_, ?_⟩
      · rw [hpc]
        rfl
      · rw [hpc]
        cases isEnd <;> rfl
      · rw [hpc]
        rfl
    · cases hs
      refine hinv.move (hinv.enqueued (by rw [hpc]; nofun)) ⟨rfl, rfl, rfl, rfl, ?_, ?_, ?_⟩
      · rw [hpc]
        rfl
      · rw [hpc]
        cases isEnd <;> rfl
      · rw [hpc]
        rfl
  · next isEnd totalMsg hpc =>
    cases hs
    exact hinv.sendTotal hpc
  · next hpc =>
    cases hs
    exact hinv.publish hpc

/-! ## The HTTP thread -/

theorem CallbackPc.owed_of_answers {pc : CallbackPc} (h : pc.answers = true) : pc.owed = 1 := by
  cases pc <;> first | rfl | cases h

/-- A statement of the HTTP thread that neither writes nor exchanges. -/
theorem Invariant.moveHttp {next : HttpPc} (hinv : Invariant s) (henqueued : s.enqueued = true)
    (howed : next.owed = s.http.owed) (hnext : next.enqueues = false) :
    Invariant { s with http := next } := by
  refine ⟨?_, fun h => ?_, fun _ => hnext, hinv.publishes, hinv.chosen, hinv.timeout⟩
  · have hcount := hinv.count
    rw [settled_of_enqueued henqueued, ← howed] at hcount
    rw [settled_of_enqueued (s := { s with http := next }) henqueued]
    exact hcount
  · cases henqueued.symm.trans h

/-- The timeout wins the exchange. -/
theorem Invariant.timeOut (hinv : Invariant s) (henqueued : s.enqueued = true)
    (hhttp : s.http = .exchangeTimeout) (hfinish : s.isFinish = false)
    (hpublishes : s.callback.publishes = false) :
    Invariant { s with
      http := .controlStop, isFinish := true, log := s.log ++ [.timeoutChosen] } := by
  have hcount := hinv.count
  rw [settled_of_enqueued henqueued, hfinish, hpublishes, hhttp] at hcount
  simp only [Bool.false_or, Bool.false_eq_true, if_false] at hcount
  have howed : s.callback.owed = 0 := by omega
  have hanswers : s.callback.answers = false := by
    by_contra hanswers
    have hone := CallbackPc.owed_of_answers (by simpa using hanswers)
    omega
  refine ⟨?_, fun h => ?_, fun _ => rfl, fun h => ?_, fun _ => ⟨rfl, hanswers⟩,
    timeout_concat hinv.timeout fun _ => rfl⟩
  · have hlog :
        (s.log ++ [Event.timeoutChosen]).countP Event.isBody = s.log.countP Event.isBody := by
      simp [Event.isBody]
    rw [if_pos (by simp [State.settled])]
    simp only [hlog, howed, HttpPc.owed]
    omega
  · cases henqueued.symm.trans h
  · cases hpublishes.symm.trans h

/-- The HTTP thread writes the error that it owes. -/
theorem Invariant.payError {next : HttpPc} {code : ℕ} {message : String} (hinv : Invariant s)
    (howed : s.http.owed = 1) (hnext : next.owed = 0)
    (hsettled : State.settled { write (.error code message) s with http := next } = s.settled)
    (hrefused : s.enqueued = false → next.enqueues = true ∨ next = .done)
    (htaken : s.enqueued = true → next.enqueues = false) :
    Invariant { write (.error code message) s with http := next } := by
  refine ⟨?_, fun h => ?_, htaken, hinv.publishes, fun hchosen => hinv.chosen ?_,
    timeout_concat hinv.timeout fun _ => rfl⟩
  · have hlog : (s.log ++ [Event.body (.error code message)]).countP Event.isBody =
        s.log.countP Event.isBody + 1 := by
      simp [Event.isBody]
    rw [hsettled, ← hinv.count, howed]
    simp only [write, hlog, hnext]
  · obtain ⟨hidle, hfinish, -⟩ := hinv.refused h
    exact ⟨hidle, hfinish, hrefused h⟩
  · simpa [write] using hchosen

theorem Invariant.httpStep (hinv : Invariant s) (hsafe : Safe s .http)
    (hs : httpStep s = some s') : Invariant s' := by
  have htaken (hnot : s.http.enqueues = false) (hbusy : s.http ≠ .done) : s.enqueued = true := by
    by_contra h
    rcases (hinv.refused (Bool.eq_false_iff.mpr h)).2.2 with henqueues | hdone
    · cases henqueues.symm.trans hnot
    · exact hbusy hdone
  have hrefused (henqueues : s.http.enqueues = true) : s.enqueued = false := by
    by_contra h
    cases henqueues.symm.trans (hinv.taken (by simpa using h))
  unfold PrefillReqHandler.httpStep at hs
  split at hs
  · next code message hhttp =>
    cases hs
    have hnot := hrefused (by rw [hhttp]; rfl)
    exact hinv.payError (by rw [hhttp]; rfl) rfl (by simp [State.settled, write, hnot, hhttp])
      (fun _ => .inl rfl) fun h => nomatch hnot.symm.trans h
  · next hhttp =>
    cases hs
    have hnot := hrefused (by rw [hhttp]; rfl)
    refine ⟨?_, fun h => ?_, fun _ => rfl, hinv.publishes, hinv.chosen, hinv.timeout⟩
    · have hsettled : State.settled { s with http := .done, hasConstruct := false } =
          s.settled := by
        simp [State.settled, hnot, hhttp]
      have hcount := hinv.count
      rw [hhttp] at hcount
      rw [hsettled]
      exact hcount
    · obtain ⟨hidle, hfinish, -⟩ := hinv.refused h
      exact ⟨hidle, hfinish, .inr rfl⟩
  · next hhttp =>
    have henqueued := htaken (by rw [hhttp]; rfl) (by rw [hhttp]; nofun)
    split at hs
    · cases hs
      exact hinv.moveHttp henqueued (by rw [hhttp]; rfl) rfl
    · next hfinish =>
      cases hs
      rw [Bool.not_eq_true] at hfinish
      simp only [Safe, hhttp] at hsafe
      exact hinv.timeOut henqueued hhttp hfinish (hsafe hfinish)
  · next hhttp =>
    cases hs
    exact hinv.moveHttp (htaken (by rw [hhttp]; rfl) (by rw [hhttp]; nofun)) (by rw [hhttp]; rfl)
      rfl
  · next hhttp =>
    cases hs
    have henqueued := htaken (by rw [hhttp]; rfl) (by rw [hhttp]; nofun)
    exact hinv.payError (by rw [hhttp]; rfl) rfl (by simp [State.settled, write, henqueued])
      (fun _ => .inr rfl) fun _ => rfl
  · cases hs
  · cases hs
  · cases hs

/-! ## Runs -/

theorem Invariant.enqueue {refused : Option (Bool × String)} (hinv : Invariant s)
    (hs : step cfg s (.enqueue refused) = some s') : Invariant s' := by
  simp only [step] at hs
  split at hs
  · next hhttp =>
    cases hs
    have hnot : s.enqueued = false := by
      by_contra h
      have htaken := hinv.taken (by simpa using h)
      rw [hhttp] at htaken
      cases htaken
    obtain ⟨hidle, hfinish, -⟩ := hinv.refused hnot
    refine ⟨?_, nofun, fun _ => rfl, hinv.publishes, hinv.chosen, hinv.timeout⟩
    have hcount := hinv.count
    simp only [State.settled, hhttp, hidle, hfinish, hnot, HttpPc.owed] at hcount ⊢
    exact hcount
  · next invalidArg statusMsg hhttp =>
    cases hs
    have hnot : s.enqueued = false := by
      by_contra h
      have htaken := hinv.taken (by simpa using h)
      rw [hhttp] at htaken
      cases htaken
    obtain ⟨hidle, hfinish, -⟩ := hinv.refused hnot
    refine ⟨?_, fun _ => ⟨hidle, hfinish, .inl rfl⟩, fun h => ?_, hinv.publishes, hinv.chosen,
      hinv.timeout⟩
    · have hcount := hinv.count
      simp only [State.settled, hhttp, hidle, hfinish, hnot, HttpPc.owed, CallbackPc.owed,
        enqueueError] at hcount ⊢
      simp only [CallbackPc.publishes] at hcount ⊢
      simpa using hcount
    · cases hnot.symm.trans h
  · cases hs

/-- The request is sent on while nothing is settled, and then the callback owes the first token. -/
theorem Invariant.sendDecode {next : CallbackPc} (hinv : Invariant s)
    (hpc : s.callback = .sendDecode) (hfinish : s.isFinish = false)
    (hnext : next.owed = if next.publishes then 1 else 0) :
    Invariant { s with log := s.log ++ [.decodeRequest s.firstToken], callback := next } := by
  have henqueued := hinv.enqueued (by rw [hpc]; nofun)
  have hnone : .timeoutChosen ∉ s.log := by
    intro hchosen
    cases hfinish.symm.trans (hinv.chosen hchosen).1
  have hlog : (s.log ++ [Event.decodeRequest s.firstToken]).countP Event.isBody =
      s.log.countP Event.isBody := by
    simp [Event.isBody]
  have hcount := hinv.count
  rw [settled_of_enqueued henqueued, hpc, hfinish] at hcount
  refine ⟨?_, fun h => ?_, fun _ => hinv.taken henqueued, fun _ => hfinish, fun hchosen => ?_,
    timeout_concat hinv.timeout fun h => absurd h hnone⟩
  · have hsettled : State.settled { s with
        log := s.log ++ [.decodeRequest s.firstToken], callback := next } = next.publishes := by
      simp [State.settled, henqueued, hfinish]
    have hzero : s.log.countP Event.isBody + s.http.owed + 0 = 0 := hcount
    rw [hsettled, hlog, hnext]
    dsimp only
    omega
  · cases henqueued.symm.trans h
  · simp [hnone] at hchosen

theorem Invariant.step {op : Op} (hinv : Invariant s) (hsafe : Safe s op)
    (hs : step cfg s op = some s') : Invariant s' := by
  cases op with
  | enqueue refused => exact hinv.enqueue hs
  | http => exact hinv.httpStep hsafe hs
  | wake timeout =>
    simp only [PrefillReqHandler.step] at hs
    split at hs
    · next hhttp =>
      cases hs
      have henqueued : s.enqueued = true := by
        by_contra h
        have hrefused := (hinv.refused (by simpa using h)).2.2
        rw [hhttp] at hrefused
        exact hrefused.elim nofun nofun
      refine hinv.moveHttp henqueued ?_ ?_
      · rw [hhttp]
        cases timeout <;> rfl
      · cases timeout <;> rfl
    · cases hs
  | arrive response =>
    simp only [PrefillReqHandler.step] at hs
    split at hs
    · next henqueued hidle =>
      cases hs
      exact hinv.move henqueued
        ⟨rfl, rfl, rfl, rfl, by rw [hidle]; rfl, by rw [hidle]; rfl, by rw [hidle]; rfl⟩
    · cases hs
  | callback => exact hinv.callbackStep hsafe hs
  | sendDecode errMsg =>
    simp only [PrefillReqHandler.step] at hs
    split at hs
    · next hpc =>
      cases hs
      refine hinv.sendDecode hpc hsafe ?_
      cases errMsg <;> rfl
    · cases hs
  | stopRequest =>
    cases hs
    exact ⟨hinv.count, hinv.refused, hinv.taken, hinv.publishes, hinv.chosen, hinv.timeout⟩

/-- **One answer.** In every run of safe steps at most one body is written, and after the answer of
a timeout is chosen neither a first token nor a request to the decode node is sent. -/
theorem answersOnce_of_reaches {interface : σ}
    (h : Reaches (step cfg) Safe (.init interface) s) : AnswersOnce s :=
  (h.invariant (I := Invariant) (invariant_init interface)
    fun _ _ _ hinv hsafe hs => hinv.step hsafe hs).answersOnce

/-! ## Runs on fixed input -/

/-- A request without streaming, with an interface that makes some texts of the first token. -/
def withTexts (texts : List String) : Config Unit where
  reqId := "r"
  streamMode := false
  request := ⟨none, none⟩
  constructOneResponse := fun _ _ _ => ((), texts, true)

/-- A response with one token. -/
def tokenResponse (transferStatusFlag : TransferStatusType) : ReqHandler.Response where
  reqId := "r"
  responseContents := [⟨1, 1, .iterationContinue, 1, [7], [], 0, 0, [], [], [], 0, 0, false⟩]
  isEos := false
  inferStatusFlag := .iterationContinue
  transferStatusFlag

/-- The prefill completes, the KV cache is published, and the first token is answered. -/
def firstAnswer : List Op :=
  [.enqueue none, .arrive (some (tokenResponse .prefillComplete)), .callback, .callback, .callback,
    .callback, .arrive (some (tokenResponse .publishKvComplete)), .callback, .callback, .callback,
    .sendDecode none, .callback, .callback, .callback, .callback]

instance (s : State σ) : (op : Op) → Decidable (Safe s op)
  | .callback => by
    unfold Safe
    dsimp only
    split <;> infer_instance
  | .sendDecode _ => inferInstanceAs (Decidable (s.isFinish = false))
  | .http => by
    unfold Safe
    dsimp only
    split <;> infer_instance
  | .enqueue _ | .wake _ | .arrive _ | .stopRequest => .isTrue trivial

/-- The wait for the KV cache times out while the engine calls back with it. -/
theorem exists_answersOnce : ∃ s, Reaches (step (withTexts ["a"])) Safe (.init ()) s ∧
    (s.log.countP Event.isBody = 1 ∧ .timeoutChosen ∈ s.log) ∧ AnswersOnce s := by
  obtain ⟨s, hs, hlog⟩ : ∃ s, Reaches (step (withTexts ["a"])) Safe (.init ()) s ∧
      s.log.countP Event.isBody = 1 ∧ .timeoutChosen ∈ s.log :=
    exists_reaches (firstAnswer.take 6 ++ [.wake true, firstAnswer[6], .callback, .http, .callback,
      .http, .http]) (by decide +kernel)
  exact ⟨s, hs, hlog, answersOnce_of_reaches hs⟩

/-- The conversion succeeds but makes no text: the body is written twice. -/
theorem not_answersOnce : ¬∀ (σ : Type) (cfg : Config σ) (interface : σ) (s : State σ),
    Reaches (step cfg) (fun _ _ => True) (.init interface) s → AnswersOnce s := by
  intro h
  obtain ⟨s, hs, hcount⟩ : ∃ s, Reaches (step (withTexts [])) (fun _ _ => True) (.init ()) s ∧
      s.log.countP Event.isBody = 2 :=
    exists_reaches firstAnswer (by decide +kernel)
  have hone := (h Unit (withTexts []) () s hs).one
  omega

end MindieLLM.PrefillReqHandler
