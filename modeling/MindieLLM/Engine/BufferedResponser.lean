import MindieLLM.Dataclass.Sequence
import MindieLLM.Program.Reaches

/-!
# Buffered responses

Responses are held back until the time that was promised for them has almost passed. Callbacks add
the responses of a request one after another; those of different requests may be added at the same
time. A thread visits the buffers, and forwards one response or, when the request has ended, all of
them.

Each step below is one access to the shared data. When the promised time has passed is left open.

## Main definitions

* `BufferedResponser`, `BufferedResponser.step`: the state and its atomic steps
* `BufferedResponser.Delivers`: responses are forwarded once each and in order
* `BufferedResponser.NoOvertaking`: the steps in which the end does not overtake a response

## Main results

* `BufferedResponser.delivers_of_reaches`: without overtaking, responses are delivered
* `BufferedResponser.not_delivers`: the end of a request can overtake a response
-/

namespace MindieLLM

open Program

inductive InferReqType
  | prefill
  | decode
  deriving DecidableEq, Repr

/-- A response: what it says, and whether it is the last one of its request. -/
structure Response (α : Type) where
  content : α
  isEos : Bool
  deriving DecidableEq, Repr

structure ResponseBuffer (α : Type) where
  responseQueue : List (Response α) := []
  inferStage : InferReqType := .prefill
  isEnded : Bool := false

variable {α : Type}

/-- Where a call of `TryRespond` is. -/
inductive TryRespondPc (α : Type)
  | idle
  /-- The buffer is looked up next. -/
  | start (response : Response α)
  /-- The buffer is there; its stage is read next. -/
  | found (response : Response α)
  /-- It is the end of a prefill; next is read whether the buffer is empty. -/
  | prefillEnd (response : Response α)
  /-- The response is forwarded next, and then the buffer erased. -/
  | direct (response : Response α)
  | erase
  /-- The response is added next. -/
  | add (response : Response α)
  | setEnded
  deriving DecidableEq, Repr

/-- Where the thread is, with the request of the buffer it visits. -/
inductive RespBufferPc (α : Type)
  | idle
  /-- It has the buffer; next is read whether the request has ended. -/
  | got (reqId : RequestId)
  /-- The loop of `SendEndResponse`, and the erasing of the buffer. -/
  | endLoop (reqId : RequestId)
  | endPop (reqId : RequestId)
  | endSend (reqId : RequestId) (response : Response α)
  | erase (reqId : RequestId)
  /-- `MaybeSendContinueResponse` -/
  | continueCheck (reqId : RequestId)
  | continuePop (reqId : RequestId)
  | continueSend (reqId : RequestId) (response : Response α)
  | setStage (reqId : RequestId)
  deriving DecidableEq, Repr

/-- The buffer of a request stays in memory when it is erased from the map. -/
structure BufferedResponser (α : Type) where
  buffers : RequestId → ResponseBuffer α := fun _ => {}
  respBufferMap : RequestId → Bool := fun _ => false
  tryRespond : RequestId → TryRespondPc α := fun _ => .idle
  thread : RespBufferPc α := .idle
  /-- The requests whose arrival has been recorded. -/
  recorded : RequestId → Bool := fun _ => false
  /-- The responses that `TryRespond` has been called with, and those that have been forwarded, in
  order. -/
  added : RequestId → List (Response α) := fun _ => []
  forwarded : RequestId → List (Response α) := fun _ => []

/-- The request that the thread visits. -/
def RespBufferPc.reqId : RespBufferPc α → Option RequestId
  | .idle => none
  | .got r | .endLoop r | .endPop r | .endSend r _ | .erase r | .continueCheck r
  | .continuePop r | .continueSend r _ | .setStage r => some r

/-- What the thread has taken out of the buffer and not forwarded yet. -/
def RespBufferPc.hand : RespBufferPc α → List (Response α)
  | .endSend _ x | .continueSend _ x => [x]
  | _ => []

/-- The thread is in `SendEndResponse`, or erases the buffer. -/
def RespBufferPc.ending : RespBufferPc α → Bool
  | .endLoop _ | .endPop _ | .endSend _ _ | .erase _ => true
  | _ => false

/-- What a call has been given and not added or forwarded yet. -/
def TryRespondPc.hand : TryRespondPc α → List (Response α)
  | .start x | .found x | .prefillEnd x | .direct x | .add x => [x]
  | _ => []

/-- No call is under way. -/
def TryRespondPc.isIdle : TryRespondPc α → Bool
  | .idle => true
  | _ => false

namespace BufferedResponser

inductive Op (α : Type)
  | recordArriveTime (reqId : RequestId)
  | callTryRespond (reqId : RequestId) (response : Response α)
  | tryRespond (reqId : RequestId)
  /-- The thread turns to a request. -/
  | visit (reqId : RequestId)
  | thread
  /-- The time of the first response has not passed. -/
  | notYet

variable (s : BufferedResponser α) (r : RequestId)

def setTryRespond (pc : TryRespondPc α) : BufferedResponser α :=
  { s with tryRespond := Function.update s.tryRespond r pc }

def setBuffer (b : ResponseBuffer α) : BufferedResponser α :=
  { s with buffers := Function.update s.buffers r b }

def setMapped (b : Bool) : BufferedResponser α :=
  { s with respBufferMap := Function.update s.respBufferMap r b }

def setThread (pc : RespBufferPc α) : BufferedResponser α := { s with thread := pc }

/-- `forwardRespToManagerCall_` -/
def forward (response : Response α) : BufferedResponser α :=
  { s with forwarded := Function.update s.forwarded r (s.forwarded r ++ [response]) }

/-- The request has ended for those who add responses. -/
def endAdded : Bool := (s.added r).any (·.isEos)

/-- The first access of `TryRespond`, up to its last. A response without a buffer is dropped. -/
def tryRespondStep : Option (BufferedResponser α) :=
  match s.tryRespond r with
  | .idle => none
  | .start response =>
    if s.respBufferMap r then some (s.setTryRespond r (.found response))
    else some (s.setTryRespond r .idle)
  | .found response =>
    if (s.buffers r).inferStage = .prefill ∧ response.isEos then
      some (s.setTryRespond r (.prefillEnd response))
    else some (s.setTryRespond r (.add response))
  | .prefillEnd response =>
    if (s.buffers r).responseQueue = [] then some (s.setTryRespond r (.direct response))
    else some (s.setTryRespond r (.add response))
  | .direct response => some ((s.forward r response).setTryRespond r .erase)
  | .erase => some ((s.setMapped r false).setTryRespond r .idle)
  | .add response =>
    let b := s.buffers r
    some ((s.setBuffer r { b with responseQueue := b.responseQueue ++ [response] }).setTryRespond r
      (if response.isEos then .setEnded else .idle))
  | .setEnded =>
    some ((s.setBuffer r { s.buffers r with isEnded := true }).setTryRespond r .idle)

/-- The accesses of the thread. -/
def threadStep : Option (BufferedResponser α) :=
  match s.thread with
  | .idle => none
  | .got r =>
    if (s.buffers r).isEnded then some (s.setThread (.endLoop r))
    else some (s.setThread (.continueCheck r))
  | .endLoop r =>
    if (s.buffers r).responseQueue = [] then some (s.setThread (.erase r))
    else some (s.setThread (.endPop r))
  | .endPop r =>
    match (s.buffers r).responseQueue with
    | [] => some (s.setThread (.endLoop r))
    | x :: rest =>
      some ((s.setBuffer r { s.buffers r with responseQueue := rest }).setThread (.endSend r x))
  | .endSend r x => some ((s.forward r x).setThread (.endLoop r))
  | .erase r => some ((s.setMapped r false).setThread .idle)
  | .continueCheck r =>
    if (s.buffers r).responseQueue = [] then some (s.setThread .idle)
    else some (s.setThread (.continuePop r))
  | .continuePop r =>
    match (s.buffers r).responseQueue with
    | [] => some (s.setThread (.setStage r))
    | x :: rest =>
      some ((s.setBuffer r { s.buffers r with responseQueue := rest }).setThread
        (.continueSend r x))
  | .continueSend r x => some ((s.forward r x).setThread (.setStage r))
  | .setStage r =>
    some ((s.setBuffer r { s.buffers r with inferStage := .decode }).setThread .idle)

/-- The steps. The responses of a request are added one after another, its arrival is recorded
before, and nothing is recorded or added after its end. -/
def step : Op α → Option (BufferedResponser α)
  | .recordArriveTime r =>
    if s.endAdded r then none
    else if s.respBufferMap r then some s
    else some { (s.setBuffer r {}).setMapped r true with
      recorded := Function.update s.recorded r true }
  | .callTryRespond r response =>
    if s.recorded r ∧ (s.tryRespond r).isIdle ∧ !s.endAdded r then
      some { s.setTryRespond r (.start response) with
        added := Function.update s.added r (s.added r ++ [response]) }
    else none
  | .tryRespond r => s.tryRespondStep r
  | .visit r =>
    match s.thread with
    | .idle => if s.respBufferMap r then some (s.setThread (.got r)) else some s
    | _ => none
  | .thread => s.threadStep
  | .notYet =>
    match s.thread with
    | .continuePop _ => some (s.setThread .idle)
    | _ => none

/-! ## Delivery -/

/-- Without further responses being added, a visit of the thread leads from one state to
another. -/
def Visits (r : RequestId) : BufferedResponser α → BufferedResponser α → Prop :=
  Reaches step fun _ op => op = .visit r ∨ op = .thread

/-- The responses of each request are forwarded once each and in the order they were added. -/
structure Delivers (s : BufferedResponser α) : Prop where
  inOrder : ∀ r, s.forwarded r <+: s.added r
  /-- The end comes last. -/
  endLast : ∀ r, ∀ x ∈ (s.forwarded r).dropLast, x.isEos = false
  /-- A buffer goes when all has been forwarded. -/
  complete : ∀ r, s.endAdded r → s.respBufferMap r = false → s.forwarded r = s.added r
  /-- When the end has been forwarded, what erases the buffer is under way, or it is the next visit
  of the thread. -/
  released : ∀ r, (s.forwarded r).any (·.isEos) → s.respBufferMap r →
    s.tryRespond r = .erase ∨ s.tryRespond r = .setEnded ∨ (s.buffers r).isEnded
  /-- The next visit to a buffer whose request has ended forwards all, and erases the buffer. -/
  visited : ∀ r, s.respBufferMap r → (s.buffers r).isEnded → s.thread = .idle →
    ∃ s', Visits r s s' ∧ s'.thread = .idle ∧ s'.forwarded r = s.added r ∧
      s'.respBufferMap r = false

/-- The end of a prefill is forwarded directly while the thread holds a response of the request that
it has taken out of the buffer. -/
def overtakes : Op α → Bool
  | .tryRespond r =>
    match s.tryRespond r, s.thread with
    | .direct _, .continueSend r' _ => r' = r
    | _, _ => false
  | _ => false

def NoOvertaking (s : BufferedResponser α) (op : Op α) : Prop := s.overtakes op = false

instance (s : BufferedResponser α) (op : Op α) : Decidable (NoOvertaking s op) :=
  inferInstanceAs (Decidable (s.overtakes op = false))

/-! ## One request

What happens to the responses of a request depends only on what concerns the request. -/

/-- What concerns one request. The thread is idle for all requests but the one it visits. -/
structure View (α : Type) where
  buffer : ResponseBuffer α
  mapped : Bool
  call : TryRespondPc α
  thread : RespBufferPc α
  recorded : Bool
  added : List (Response α)
  forwarded : List (Response α)

def threadAt : RespBufferPc α := if s.thread.reqId = some r then s.thread else .idle

def view : View α where
  buffer := s.buffers r
  mapped := s.respBufferMap r
  call := s.tryRespond r
  thread := s.threadAt r
  recorded := s.recorded r
  added := s.added r
  forwarded := s.forwarded r

namespace View

def endAdded (v : View α) : Prop := ∃ x ∈ v.added, x.isEos

/-- Everything has been forwarded, but for what a call has in hand. -/
def Drained (v : View α) : Prop := v.thread.hand = [] ∧ v.buffer.responseQueue = []

/-- The books of one request. -/
structure Good (v : View α) : Prop where
  ledger : v.added = v.forwarded ++ v.thread.hand ++ v.buffer.responseQueue ++ v.call.hand
  endLast : ∀ x ∈ v.added.dropLast, x.isEos = false
  unrecorded : v.recorded = false → v.added = [] ∧ v.mapped = false
  mapped : v.recorded → ¬v.endAdded → v.mapped
  inHand : v.call.hand ≠ [] → v.mapped
  prefillEnd : ∀ x, v.call = .prefillEnd x → x.isEos
  direct : ∀ x, v.call = .direct x → x.isEos ∧ v.buffer.responseQueue = []
  erase : v.call = .erase → v.endAdded ∧ v.Drained
  setEnded : v.call = .setEnded → v.endAdded ∧ v.mapped
  ended : v.buffer.isEnded → v.call = .idle ∧ v.endAdded
  ending : v.thread.ending → v.buffer.isEnded
  emptied : ∀ r, v.thread = .erase r → v.buffer.responseQueue = []
  idle : v.call = .idle → v.endAdded → v.mapped → v.buffer.isEnded
  gone : v.mapped = false → v.Drained ∧ v.call.hand = []

attribute [local grind] RespBufferPc.hand RespBufferPc.ending TryRespondPc.hand endAdded Drained

namespace Good

variable {v : View α} {x : Response α} {r : RequestId}

/-! A call -/

theorem recordArriveTime (h : v.Good) (hm : v.mapped = false) (he : ¬v.endAdded) :
    Good { v with buffer := {}, mapped := true, recorded := true } := by
  -- nothing has been recorded before, so nothing has been added
  have hrec : v.recorded = false := by
    rcases hrec : v.recorded with _ | _
    · rfl
    · exact absurd (h.mapped hrec he) (by simp [hm])
  have hnil := (h.unrecorded hrec).1
  cases h
  constructor <;> grind

theorem start (h : v.Good) (hrec : v.recorded) (hidle : v.call = .idle) (he : ¬v.endAdded) :
    Good { v with call := .start x, added := v.added ++ [x] } := by
  have hm := h.mapped hrec he
  cases h
  constructor <;> grind

theorem found (h : v.Good) (hc : v.call = .start x) : Good { v with call := .found x } := by
  cases h
  constructor <;> grind

/-- No response is dropped: its buffer is there. -/
theorem mapped_of_start (h : v.Good) (hc : v.call = .start x) : v.mapped = true :=
  h.inHand (by simp [TryRespondPc.hand, hc])

theorem prefillEnd' (h : v.Good) (hc : v.call = .found x) (hx : x.isEos) :
    Good { v with call := .prefillEnd x } := by
  cases h
  constructor <;> grind

theorem add (h : v.Good) (hc : v.call = .found x ∨ v.call = .prefillEnd x) :
    Good { v with call := .add x } := by
  cases h
  constructor <;> grind

theorem direct' (h : v.Good) (hc : v.call = .prefillEnd x) (hq : v.buffer.responseQueue = []) :
    Good { v with call := .direct x } := by
  cases h
  constructor <;> grind

/-- The end is forwarded directly only when nothing is before it. -/
theorem forwardDirect (h : v.Good) (hc : v.call = .direct x) (hhand : v.thread.hand = []) :
    Good { v with forwarded := v.forwarded ++ [x], call := .erase } := by
  cases h
  constructor <;> grind

theorem eraseDirect (h : v.Good) (hc : v.call = .erase) :
    Good { v with mapped := false, call := .idle } := by
  cases h
  constructor <;> grind

theorem added (h : v.Good) (hc : v.call = .add x) :
    Good { v with
      buffer := { v.buffer with responseQueue := v.buffer.responseQueue ++ [x] }
      call := if x.isEos then .setEnded else .idle } := by
  cases h
  constructor <;> grind

theorem setEnded' (h : v.Good) (hc : v.call = .setEnded) :
    Good { v with buffer := { v.buffer with isEnded := true }, call := .idle } := by
  cases h
  constructor <;> grind

/-- The end is the last response that is added, so when it has been forwarded nothing is left to
add. -/
theorem released (h : v.Good) (he : ∃ x ∈ v.forwarded, x.isEos) (hm : v.mapped) :
    v.call = .erase ∨ v.call = .setEnded ∨ v.buffer.isEnded := by
  obtain ⟨x, hx, heos⟩ := he
  have hadded : v.endAdded := ⟨x, by rw [h.ledger]; simp [hx], heos⟩
  by_cases hhand : v.call.hand = []
  · cases hc : v.call with
    | idle => exact .inr (.inr (h.idle hc hadded hm))
    | erase => exact .inl rfl
    | setEnded => exact .inr (.inl rfl)
    | _ => simp [hc, TryRespondPc.hand] at hhand
  · -- a response in hand is behind the end
    have hlast : x ∈ v.added.dropLast := by
      rw [h.ledger, List.dropLast_append_of_ne_nil hhand]
      simp [hx]
    rw [h.endLast x hlast] at heos
    cases heos

/-! The thread -/

/-- The thread moves on, with nothing in hand before and after. -/
theorem moves (h : v.Good) {t : RespBufferPc α} (hin : v.thread.hand = [])
    (hin' : t.hand = []) (hend : t.ending → v.buffer.isEnded)
    (hempty : ∀ r, t = .erase r → v.buffer.responseQueue = []) :
    Good { v with thread := t } := by
  have hadded := h.endLast
  cases h
  constructor <;> grind

theorem pop (h : v.Good) {rest : List (Response α)} {t : RespBufferPc α} (hin : v.thread.hand = [])
    (hq : v.buffer.responseQueue = x :: rest) (hin' : t.hand = [x])
    (hend : t.ending → v.buffer.isEnded) :
    Good { v with buffer := { v.buffer with responseQueue := rest }, thread := t } := by
  have hadded := h.endLast
  cases h
  constructor <;> grind

theorem send (h : v.Good) {t : RespBufferPc α} (hin : v.thread.hand = [x])
    (hin' : t.hand = []) (hend : t.ending → v.buffer.isEnded) (hempty : ∀ r, t ≠ .erase r) :
    Good { v with forwarded := v.forwarded ++ [x], thread := t } := by
  cases h
  constructor <;> grind

theorem eraseEnded (h : v.Good) (hc : v.thread = .erase r) :
    Good { v with mapped := false, thread := .idle } := by
  cases h
  constructor <;> grind

theorem setStage (h : v.Good) (hc : v.thread = .setStage r) :
    Good { v with buffer := { v.buffer with inferStage := .decode }, thread := .idle } := by
  cases h
  constructor <;> grind

end Good

end View

/-! ## Views of a state -/

section Views

variable {s} {r} {r' : RequestId}

/-- What changes for the request of a step, and for the others. -/
theorem view_setTryRespond (pc : TryRespondPc α) :
    (s.setTryRespond r pc).view r' =
      if r' = r then { s.view r' with call := pc } else s.view r' := by
  split
  · next h =>
    subst h
    simp only [view, setTryRespond, Function.update_self]
    rfl
  · next h =>
    simp only [view, setTryRespond, Function.update_of_ne h]
    rfl

theorem view_setBuffer (b : ResponseBuffer α) :
    (s.setBuffer r b).view r' =
      if r' = r then { s.view r' with buffer := b } else s.view r' := by
  split
  · next h =>
    subst h
    simp only [view, setBuffer, Function.update_self]
    rfl
  · next h =>
    simp only [view, setBuffer, Function.update_of_ne h]
    rfl

theorem view_setMapped (b : Bool) :
    (s.setMapped r b).view r' =
      if r' = r then { s.view r' with mapped := b } else s.view r' := by
  split
  · next h =>
    subst h
    simp only [view, setMapped, Function.update_self]
    rfl
  · next h =>
    simp only [view, setMapped, Function.update_of_ne h]
    rfl

theorem view_forward (x : Response α) :
    (s.forward r x).view r' =
      if r' = r then { s.view r' with forwarded := s.forwarded r ++ [x] } else s.view r' := by
  split
  · next h =>
    subst h
    simp only [view, forward, Function.update_self]
    rfl
  · next h =>
    simp only [view, forward, Function.update_of_ne h]
    rfl

theorem view_setThread (pc : RespBufferPc α) :
    (s.setThread pc).view r' =
      { s.view r' with thread := if pc.reqId = some r' then pc else .idle } := rfl

/-- At the request it visits. -/
theorem view_setThread_self {pc : RespBufferPc α} (hpc : pc.reqId = some r) :
    (s.setThread pc).view r = { s.view r with thread := pc } := by
  rw [view_setThread, if_pos hpc]

/-- The thread stays with its request, or comes to it, or leaves it. -/
theorem view_setThread_of_ne {pc : RespBufferPc α} (hne : r' ≠ r)
    (hs : s.thread.reqId = none ∨ s.thread.reqId = some r)
    (hpc : pc.reqId = none ∨ pc.reqId = some r) : (s.setThread pc).view r' = s.view r' := by
  have hother : ∀ {x : Option RequestId}, x = none ∨ x = some r → x ≠ some r' := by
    rintro _ (rfl | rfl) hx
    · cases hx
    · exact hne (Option.some.inj hx).symm
  rw [view_setThread, if_neg (hother hpc)]
  simp only [view, threadAt, if_neg (hother hs)]

theorem view_thread (h : s.thread.reqId = some r) : (s.view r).thread = s.thread := if_pos h

end Views

/-! ## The invariant -/

/-- The books of all requests are in order. -/
def Invariant (s : BufferedResponser α) : Prop := ∀ r, (s.view r).Good

theorem invariant_init : Invariant ({} : BufferedResponser α) := by
  intro r
  constructor <;> simp [view, threadAt, View.endAdded, View.Drained, RespBufferPc.hand,
    RespBufferPc.ending, RespBufferPc.reqId, TryRespondPc.hand]

section Steps

variable {s s' : BufferedResponser α} {r : RequestId}

/-- A step concerns one request. -/
theorem Invariant.at (h : Invariant s) (hgood : (s'.view r).Good)
    (hothers : ∀ r', r' ≠ r → s'.view r' = s.view r') : Invariant s' := by
  intro r'
  by_cases hr : r' = r
  · exact hr ▸ hgood
  · exact hothers r' hr ▸ h r'

theorem endAdded_view : (s.view r).endAdded ↔ s.endAdded r = true := by
  simp [View.endAdded, endAdded, view]

theorem call_eq_idle (h : (s.tryRespond r).isIdle = true) : (s.view r).call = .idle := by
  change s.tryRespond r = .idle
  cases hc : s.tryRespond r with
  | idle => rfl
  | _ => simp [hc, TryRespondPc.isIdle] at h

/-- The thread holds nothing that the end of a prefill could overtake. -/
theorem Invariant.handed (h : Invariant s) {x : Response α} (hc : s.tryRespond r = .direct x)
    (hsafe : NoOvertaking s (.tryRespond r)) : (s.view r).thread.hand = [] := by
  by_cases ht : s.thread.reqId = some r
  · rw [view_thread ht]
    cases hpc : s.thread with
    | endSend r' y =>
      -- the request would have ended
      have hending : (s.view r).thread.ending = true := by rw [view_thread ht, hpc]; rfl
      have hidle := ((h r).ended ((h r).ending hending)).1
      change s.tryRespond r = .idle at hidle
      rw [hc] at hidle
      cases hidle
    | continueSend r' y =>
      rw [hpc] at ht
      obtain rfl : r' = r := Option.some.inj ht
      simp [NoOvertaking, overtakes, hc, hpc] at hsafe
    | _ => rfl
  · change (s.threadAt r).hand = []
    rw [threadAt, if_neg ht]
    rfl

theorem Invariant.tryRespondStep (h : Invariant s) (hsafe : NoOvertaking s (.tryRespond r))
    (hs : s.tryRespondStep r = some s') : Invariant s' := by
  unfold BufferedResponser.tryRespondStep at hs
  split at hs
  · cases hs
  · next x hc =>
    have hm : s.respBufferMap r = true := (h r).mapped_of_start hc
    obtain rfl : _ = s' := by simpa only [hm, if_true, Option.some.injEq] using hs
    refine h.at (r := r) ?_ fun r' hne => by simp only [view_setTryRespond, if_neg hne]
    simp only [view_setTryRespond, if_true]
    exact (h r).found hc
  · next x hc =>
    split at hs <;> obtain rfl := Option.some.inj hs
    · next hx =>
      refine h.at (r := r) ?_ fun r' hne => by simp only [view_setTryRespond, if_neg hne]
      simp only [view_setTryRespond, if_true]
      exact (h r).prefillEnd' hc hx.2
    · refine h.at (r := r) ?_ fun r' hne => by simp only [view_setTryRespond, if_neg hne]
      simp only [view_setTryRespond, if_true]
      exact (h r).add (.inl hc)
  · next x hc =>
    split at hs <;> obtain rfl := Option.some.inj hs
    · next hq =>
      refine h.at (r := r) ?_ fun r' hne => by simp only [view_setTryRespond, if_neg hne]
      simp only [view_setTryRespond, if_true]
      exact (h r).direct' hc hq
    · refine h.at (r := r) ?_ fun r' hne => by simp only [view_setTryRespond, if_neg hne]
      simp only [view_setTryRespond, if_true]
      exact (h r).add (.inr hc)
  · next x hc =>
    obtain rfl := Option.some.inj hs
    refine h.at (r := r) ?_ fun r' hne => by
      simp only [view_setTryRespond, view_forward, if_neg hne]
    simp only [view_setTryRespond, view_forward, if_true]
    exact (h r).forwardDirect hc (h.handed hc hsafe)
  · next hc =>
    obtain rfl := Option.some.inj hs
    refine h.at (r := r) ?_ fun r' hne => by
      simp only [view_setTryRespond, view_setMapped, if_neg hne]
    simp only [view_setTryRespond, view_setMapped, if_true]
    exact (h r).eraseDirect hc
  · next x hc =>
    obtain rfl := Option.some.inj hs
    refine h.at (r := r) ?_ fun r' hne => by
      simp only [view_setTryRespond, view_setBuffer, if_neg hne]
    simp only [view_setTryRespond, view_setBuffer, if_true]
    exact (h r).added hc
  · next hc =>
    obtain rfl := Option.some.inj hs
    refine h.at (r := r) ?_ fun r' hne => by
      simp only [view_setTryRespond, view_setBuffer, if_neg hne]
    simp only [view_setTryRespond, view_setBuffer, if_true]
    exact (h r).setEnded' hc

/-- The thread visits one request; `s₁` is the state before it moves on. -/
theorem Invariant.moveThread (h : Invariant s) {s₁ : BufferedResponser α} {pc : RespBufferPc α}
    (hs : s.thread.reqId = some r) (hs₁ : s₁.thread = s.thread)
    (hpc : pc = .idle ∨ pc.reqId = some r) (hgood : View.Good { s₁.view r with thread := pc })
    (hothers : ∀ r', r' ≠ r → s₁.view r' = s.view r') : Invariant (s₁.setThread pc) := by
  refine h.at (r := r) ?_ fun r' hne => ?_
  · rcases hpc with rfl | hpc
    · exact hgood
    · rw [view_setThread_self hpc]
      exact hgood
  · have hnone : pc.reqId = none ∨ pc.reqId = some r := by
      rcases hpc with rfl | hpc
      · exact .inl rfl
      · exact .inr hpc
    rw [view_setThread_of_ne hne (.inr (hs₁ ▸ hs)) hnone]
    exact hothers r' hne

theorem Invariant.threadStep (h : Invariant s) (hs : s.threadStep = some s') : Invariant s' := by
  have hview {r : RequestId} {pc : RespBufferPc α} (hpc : s.thread = pc)
      (hr : pc.reqId = some r) : s.thread.reqId = some r ∧ (s.view r).thread = pc := by
    subst hpc
    exact ⟨hr, view_thread hr⟩
  unfold BufferedResponser.threadStep at hs
  split at hs
  · cases hs
  · next r ht =>
    obtain ⟨hr, hv⟩ := hview ht rfl
    have hin : (s.view r).thread.hand = [] := hv ▸ rfl
    split at hs <;> obtain rfl := Option.some.inj hs
    · next hend =>
      exact h.moveThread hr rfl (.inr rfl)
        ((h r).moves hin rfl (fun _ => hend) fun _ hr => by cases hr) fun _ _ => rfl
    · exact h.moveThread hr rfl (.inr rfl)
        ((h r).moves hin rfl (fun hr => by cases hr) fun _ hr => by cases hr) fun _ _ => rfl
  · next r ht =>
    obtain ⟨hr, hv⟩ := hview ht rfl
    have hin : (s.view r).thread.hand = [] := hv ▸ rfl
    have hend : (s.view r).buffer.isEnded = true := (h r).ending (hv ▸ rfl)
    split at hs <;> obtain rfl := Option.some.inj hs
    · next hq =>
      exact h.moveThread hr rfl (.inr rfl)
        ((h r).moves hin rfl (fun _ => hend) fun _ _ => hq) fun _ _ => rfl
    · exact h.moveThread hr rfl (.inr rfl)
        ((h r).moves hin rfl (fun _ => hend) fun _ hr => by cases hr) fun _ _ => rfl
  · next r ht =>
    obtain ⟨hr, hv⟩ := hview ht rfl
    have hin : (s.view r).thread.hand = [] := hv ▸ rfl
    have hend : (s.view r).buffer.isEnded = true := (h r).ending (hv ▸ rfl)
    split at hs <;> obtain rfl := Option.some.inj hs
    · exact h.moveThread hr rfl (.inr rfl)
        ((h r).moves hin rfl (fun _ => hend) fun _ hr => by cases hr) fun _ _ => rfl
    · next x rest hq =>
      refine h.moveThread hr rfl (.inr rfl) ?_ fun r' hne => by
        simp only [view_setBuffer, if_neg hne]
      simp only [view_setBuffer, if_true]
      exact (h r).pop hin hq rfl fun _ => hend
  · next r x ht =>
    obtain ⟨hr, hv⟩ := hview ht rfl
    have hend : (s.view r).buffer.isEnded = true := (h r).ending (hv ▸ rfl)
    obtain rfl := Option.some.inj hs
    refine h.moveThread hr rfl (.inr rfl) ?_ fun r' hne => by
      simp only [view_forward, if_neg hne]
    simp only [view_forward, if_true]
    exact (h r).send (hv ▸ rfl) rfl (fun _ => hend) fun _ hr => by cases hr
  · next r ht =>
    obtain ⟨hr, hv⟩ := hview ht rfl
    obtain rfl := Option.some.inj hs
    refine h.moveThread hr rfl (.inl rfl) ?_ fun r' hne => by
      simp only [view_setMapped, if_neg hne]
    simp only [view_setMapped, if_true]
    exact (h r).eraseEnded hv
  · next r ht =>
    obtain ⟨hr, hv⟩ := hview ht rfl
    have hin : (s.view r).thread.hand = [] := hv ▸ rfl
    split at hs <;> obtain rfl := Option.some.inj hs
    · exact h.moveThread hr rfl (.inl rfl)
        ((h r).moves hin rfl (fun hr => by cases hr) fun _ hr => by cases hr) fun _ _ => rfl
    · exact h.moveThread hr rfl (.inr rfl)
        ((h r).moves hin rfl (fun hr => by cases hr) fun _ hr => by cases hr) fun _ _ => rfl
  · next r ht =>
    obtain ⟨hr, hv⟩ := hview ht rfl
    have hin : (s.view r).thread.hand = [] := hv ▸ rfl
    split at hs <;> obtain rfl := Option.some.inj hs
    · exact h.moveThread hr rfl (.inr rfl)
        ((h r).moves hin rfl (fun hr => by cases hr) fun _ hr => by cases hr) fun _ _ => rfl
    · next x rest hq =>
      refine h.moveThread hr rfl (.inr rfl) ?_ fun r' hne => by
        simp only [view_setBuffer, if_neg hne]
      simp only [view_setBuffer, if_true]
      exact (h r).pop hin hq rfl fun hr => by cases hr
  · next r x ht =>
    obtain ⟨hr, hv⟩ := hview ht rfl
    obtain rfl := Option.some.inj hs
    refine h.moveThread hr rfl (.inr rfl) ?_ fun r' hne => by
      simp only [view_forward, if_neg hne]
    simp only [view_forward, if_true]
    exact (h r).send (hv ▸ rfl) rfl (fun hr => by cases hr) fun _ hr => by cases hr
  · next r ht =>
    obtain ⟨hr, hv⟩ := hview ht rfl
    obtain rfl := Option.some.inj hs
    refine h.moveThread hr rfl (.inl rfl) ?_ fun r' hne => by
      simp only [view_setBuffer, if_neg hne]
    simp only [view_setBuffer, if_true]
    exact (h r).setStage hv

/-- Every step that lets nothing be overtaken keeps the books in order. -/
theorem Invariant.step {op : Op α} (h : Invariant s) (hsafe : NoOvertaking s op)
    (hs : s.step op = some s') : Invariant s' := by
  cases op with
  | recordArriveTime r =>
    simp only [BufferedResponser.step] at hs
    split at hs
    · cases hs
    next he =>
      split at hs <;> obtain rfl := Option.some.inj hs
      · exact h
      · next hm =>
        have hgood := (h r).recordArriveTime (by simpa [view] using hm) (endAdded_view.not.mpr he)
        refine h.at (r := r) ?_ fun r' hne => ?_
        · simp only [view, setBuffer, setMapped, Function.update_self]
          exact hgood
        · simp only [view, setBuffer, setMapped, Function.update_of_ne hne]
          rfl
  | callTryRespond r x =>
    simp only [BufferedResponser.step] at hs
    split at hs
    · next hcall =>
      obtain ⟨hrec, hidle, he⟩ := hcall
      obtain rfl := Option.some.inj hs
      have hend : ¬(s.view r).endAdded := fun hend => by
        rw [endAdded_view.mp hend] at he
        cases he
      have hgood := (h r).start (x := x) hrec (call_eq_idle hidle) hend
      refine h.at (r := r) ?_ fun r' hne => ?_
      · simp only [view, setTryRespond, Function.update_self]
        exact hgood
      · simp only [view, setTryRespond, Function.update_of_ne hne]
        rfl
    · cases hs
  | tryRespond r => exact h.tryRespondStep hsafe hs
  | visit r =>
    simp only [BufferedResponser.step] at hs
    split at hs
    · next ht =>
      split at hs <;> obtain rfl := Option.some.inj hs
      · refine h.at (r := r) ?_ fun r' hne =>
          view_setThread_of_ne hne (.inl (by rw [ht]; rfl)) (.inr rfl)
        have hin : (s.view r).thread.hand = [] := by simp [view, threadAt, ht, RespBufferPc.hand]
        rw [view_setThread_self rfl]
        exact (h r).moves hin rfl (fun hr => by cases hr) fun _ hr => by cases hr
      · exact h
    · cases hs
  | thread => exact h.threadStep hs
  | notYet =>
    simp only [BufferedResponser.step] at hs
    split at hs
    · next r ht =>
      obtain rfl := Option.some.inj hs
      have hr : s.thread.reqId = some r := by rw [ht]; rfl
      have hin : (s.view r).thread.hand = [] := by rw [view_thread hr, ht]; rfl
      exact h.moveThread hr rfl (.inl rfl)
        ((h r).moves hin rfl (fun hr => by cases hr) fun _ hr => by cases hr) fun _ _ => rfl
    · cases hs

/-! ## Visits -/

/-- The loop of `SendEndResponse`, and the erasing of the buffer. -/
theorem exists_visits_endLoop (ht : s.thread = .endLoop r) : ∃ s', Visits r s s' ∧
    s'.thread = .idle ∧ s'.forwarded r = s.forwarded r ++ (s.buffers r).responseQueue ∧
      s'.respBufferMap r = false := by
  -- by induction on the responses in the buffer
  induction hq : (s.buffers r).responseQueue generalizing s with
  | nil =>
    refine ⟨((s.setThread (.erase r)).setMapped r false).setThread .idle, ?_, rfl, ?_, ?_⟩
    · refine .step (s := s.setThread (.erase r)) .thread (.one (a := .thread) (.inr rfl) ?_)
        (.inr rfl) rfl
      simp only [step, threadStep, ht, hq, if_true]
    · simp [setThread, setMapped]
    · simp [setThread, setMapped]
  | cons x rest ih =>
    let popped := (s.setBuffer r { s.buffers r with responseQueue := rest }).setThread
      (.endSend r x)
    have hpop : Visits r s popped := by
      refine .step (s := s.setThread (.endPop r)) .thread (.one (a := .thread) (.inr rfl) ?_)
        (.inr rfl) ?_
      · simp [step, threadStep, ht, hq]
      · simp [step, threadStep, setThread, hq, popped, setBuffer]
    have hqueue :
        (((popped.forward r x).setThread (.endLoop r)).buffers r).responseQueue = rest := by
      simp [popped, setThread, setBuffer, forward]
    obtain ⟨s', hs', hidle, hforward, hmap⟩ :=
      ih (s := (popped.forward r x).setThread (.endLoop r)) rfl hqueue
    refine ⟨s', (hpop.trans (.one (a := .thread) (.inr rfl) rfl)).trans hs', hidle, ?_, hmap⟩
    rw [hforward]
    simp [popped, setThread, setBuffer, forward]

/-- A visit to a buffer whose request has ended. -/
theorem exists_visits (hm : s.respBufferMap r = true) (he : (s.buffers r).isEnded = true)
    (ht : s.thread = .idle) : ∃ s', Visits r s s' ∧ s'.thread = .idle ∧
      s'.forwarded r = s.forwarded r ++ (s.buffers r).responseQueue ∧
      s'.respBufferMap r = false := by
  have hvisit : s.step (.visit r) = some (s.setThread (.got r)) := by
    simp only [step, ht, hm, if_true]
  have hend : (s.setThread (.got r)).step .thread = some (s.setThread (.endLoop r)) := by
    simp only [step, threadStep, setThread, he, if_true]
  obtain ⟨s', hs', hrest⟩ := exists_visits_endLoop (s := s.setThread (.endLoop r)) (r := r) rfl
  refine ⟨s', (Reaches.step .thread (.one (.inl rfl) hvisit) (.inr rfl) hend).trans hs', hrest⟩

/-! ## Responses are delivered -/

theorem Invariant.delivers (h : Invariant s) : Delivers s := by
  have hledger (r : RequestId) : s.added r = s.forwarded r ++ ((s.view r).thread.hand ++
      (s.buffers r).responseQueue ++ (s.tryRespond r).hand) := by
    have hr := (h r).ledger
    simp only [List.append_assoc] at hr ⊢
    exact hr
  have hfirst (r : RequestId) : s.forwarded r <+: s.added r :=
    ⟨_, (hledger r).symm⟩
  refine ⟨hfirst, fun r x hx => ?_, fun r he hm => ?_, fun r he hm => ?_, fun r hm he ht => ?_⟩
  · -- what is before the last response forwarded is before the last response added
    obtain ⟨t, ht⟩ := hfirst r
    refine (h r).endLast x ?_
    change x ∈ (s.added r).dropLast
    rw [← ht]
    rcases t with _ | ⟨y, t⟩
    · simpa using hx
    · rw [List.dropLast_append_of_ne_nil (by simp)]
      exact List.mem_append_left _ (List.dropLast_subset _ hx)
  · obtain ⟨⟨hthread, hq⟩, hcall⟩ := (h r).gone hm
    change (s.buffers r).responseQueue = [] at hq
    change (s.tryRespond r).hand = [] at hcall
    rw [hledger r, hthread, hq, hcall]
    simp
  · exact (h r).released (List.any_eq_true.mp he) hm
  · obtain ⟨s', hvisits, hidle, hforward, hmap⟩ := exists_visits hm he ht
    refine ⟨s', hvisits, hidle, ?_, hmap⟩
    have hcall : s.tryRespond r = .idle := ((h r).ended he).1
    have hthread : (s.view r).thread.hand = [] := by
      change (s.threadAt r).hand = []
      simp [threadAt, ht, RespBufferPc.reqId, RespBufferPc.hand]
    rw [hforward, hledger r, hthread, hcall]
    simp [TryRespondPc.hand]

end Steps

/-- **Delivery.** When the end of a prefill does not overtake a response that the thread holds, the
responses of each request are forwarded once each and in order, the end last, and then the buffer
goes. -/
theorem delivers_of_reaches (s : BufferedResponser α)
    (h : Reaches step NoOvertaking {} s) : Delivers s :=
  (h.invariant (I := Invariant) invariant_init fun _ _ _ hI hsafe hs => hI.step hsafe hs).delivers

/-- A request with a first response, which the thread forwards, and then with its end. -/
theorem exists_delivers : ∃ s : BufferedResponser Nat, Reaches step NoOvertaking {} s ∧
    s.forwarded "r" = [⟨1, false⟩, ⟨2, true⟩] ∧ s.respBufferMap "r" = false ∧ Delivers s := by
  let first : List (Op Nat) := [.recordArriveTime "r", .callTryRespond "r" ⟨1, false⟩,
    .tryRespond "r", .tryRespond "r", .tryRespond "r",
    .visit "r", .thread, .thread, .thread, .thread, .thread]
  let last : List (Op Nat) := [.callTryRespond "r" ⟨2, true⟩,
    .tryRespond "r", .tryRespond "r", .tryRespond "r", .tryRespond "r",
    .visit "r", .thread, .thread, .thread, .thread, .thread, .thread]
  obtain ⟨s, hs, hforward, hmap⟩ : ∃ s : BufferedResponser Nat, Reaches step NoOvertaking {} s ∧
      s.forwarded "r" = [⟨1, false⟩, ⟨2, true⟩] ∧ s.respBufferMap "r" = false :=
    exists_reaches (first ++ last) (by decide +kernel)
  exact ⟨s, hs, hforward, hmap, delivers_of_reaches s hs⟩

/-- The thread takes the first response of a request out of the buffer. Before it forwards it, the
end of the request finds the buffer empty, and is forwarded directly. -/
theorem not_delivers : ¬∀ s : BufferedResponser Nat, Reaches step (fun _ _ => True) {} s →
    Delivers s := by
  intro h
  let first : List (Op Nat) := [.recordArriveTime "r", .callTryRespond "r" ⟨1, false⟩,
    .tryRespond "r", .tryRespond "r", .tryRespond "r",
    .visit "r", .thread, .thread, .thread]
  let last : List (Op Nat) := [.callTryRespond "r" ⟨2, true⟩,
    .tryRespond "r", .tryRespond "r", .tryRespond "r", .tryRespond "r"]
  obtain ⟨s, hs, hadded, hforward⟩ : ∃ s : BufferedResponser Nat,
      Reaches step (fun _ _ => True) {} s ∧ s.added "r" = [⟨1, false⟩, ⟨2, true⟩] ∧
        s.forwarded "r" = [⟨2, true⟩] := exists_reaches (first ++ last) (by decide +kernel)
  have horder := (h s hs).inOrder "r"
  rw [hadded, hforward] at horder
  revert horder
  decide

end BufferedResponser

end MindieLLM
