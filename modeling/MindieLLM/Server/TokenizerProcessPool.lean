import MindieLLM.Program.Leases
import MindieLLM.Program.Reaches

/-!
# The pool of tokenizer processes

A call that encodes or decodes takes a process from the pool and writes its request, over what is
there, into memory that both share; the process answers there. Two semaphores and a state tell the
sides when to go on. Each step below is one access of a call or of a process to what they share.
What a process answers is left open, and so is what else is in the memory than what the protocol
reads.

## Main definitions

* `Pool`, `step`: the pool, the shared memories, and where the calls and the processes are
* `Request`: what a call writes, and what it leaves; `encode` for `Encode`
* `Owned`: each process waits in the pool or is held by one call

## Main results

* `owned_of_reaches`: no process is lost or held twice, whatever times out
-/

namespace MindieLLM.TokenizerProcessPool

open Program

abbrev Pid := ℕ

/-- The index of a shared memory. -/
abbrev MemoryId := ℕ

abbrev CallId := ℕ

variable {Data : Type}

inductive SharedTokenSemState
  | free
  | inUse
  | preFree

/-- The memory that a process shares, with its semaphores as counters; `data` is what the sides
write for each other. -/
structure SharedMemoryHeader (Data : Type) where
  data : Data
  isSuccess : Bool := true
  state : SharedTokenSemState := .free
  consume : ℕ := 0
  produce : ℕ := 0

/-- What a call writes over what it finds in the memory, whether it goes on then (a call that
decodes may fail to copy its tool calls), and what it makes of what the process leaves, which has
succeeded or not. -/
structure Request (Data : Type) where
  write : Data → Data
  fits : Bool := true
  clear : Bool → Data → Data

/-- Where a process is in `ProcessWorker`. -/
inductive Worker
  | waiting
  | working
  | reporting (succeeded : Bool)
  | marking
  | posting
deriving DecidableEq

/-- What a call has found in the end. -/
inductive Outcome (Data : Type)
  | answered (succeeded : Bool) (answer : Data)
  | rejected
  | timedOut
  | unavailable
deriving DecidableEq

/-- Where a call is that holds a process; `tries` is how often it has been turned away. -/
inductive Stage (Data : Type)
  | checking (tries : ℕ)
  | writing
  | marking
  | posting
  | waiting
  | freeing
  | reading
  | clearing (succeeded : Bool) (answer : Data)
  | turnedAway (tries : ℕ)
  | returning (outcome : Outcome Data)
deriving DecidableEq

inductive Call (Data : Type)
  | starting (tries : ℕ)
  | holding (stage : Stage Data) (pid : Pid)
  | returned (outcome : Outcome Data)
deriving DecidableEq

/-- The process that a call holds. -/
def Call.pid? : Call Data → Option Pid
  | .holding _ pid => some pid
  | _ => none

/-- What follows `ReturnPid`, for a call that is there; `GetPidAndMemory` tries twice. -/
def Stage.afterReturnPid : Stage Data → Option (Call Data)
  | .turnedAway tries =>
    some (if tries + 1 < 2 then .starting (tries + 1) else .returned .unavailable)
  | .returning outcome => some (.returned outcome)
  | _ => none

namespace SharedMemoryHeader

/-- A call between `GetAvailablePid` and `ReturnPid`. -/
def advance (request : Request Data) (h : SharedMemoryHeader Data) :
    Stage Data → Option (Stage Data × SharedMemoryHeader Data)
  | .checking tries =>
    match h.state with
    | .free => some (.writing, h)
    | .inUse => some (.turnedAway tries, h)
    -- `sem_trywait`, whether it takes one or not
    | .preFree => some (.writing, { h with produce := h.produce - 1 })
  | .writing =>
    some (if request.fits then .marking else .returning .rejected,
      { h with data := request.write h.data, isSuccess := false })
  | .marking => some (.posting, { h with state := .inUse })
  | .posting => some (.waiting, { h with consume := h.consume + 1 })
  | .waiting =>
    if h.produce = 0 then none else some (.freeing, { h with produce := h.produce - 1 })
  | .freeing => some (.reading, { h with state := .free })
  | .reading => some (.clearing h.isSuccess h.data, h)
  | .clearing succeeded answer =>
    some (.returning (.answered succeeded answer),
      { h with data := request.clear succeeded h.data })
  | .turnedAway _ | .returning _ => none

/-- `ProcessWorker`; the process succeeds or not and leaves `answer`. -/
def serve (succeeded : Bool) (answer : Data) (h : SharedMemoryHeader Data) :
    Worker → Option (Worker × SharedMemoryHeader Data)
  | .waiting =>
    if h.consume = 0 then none else some (.working, { h with consume := h.consume - 1 })
  | .working => some (.reporting succeeded, { h with data := answer })
  | .reporting succeeded => some (.marking, { h with isSuccess := succeeded })
  | .marking => some (.posting, { h with state := .preFree })
  | .posting => some (.waiting, { h with produce := h.produce + 1 })

end SharedMemoryHeader

/-- Each memory has the process that has been started for it. -/
structure Pool (Data : Type) where
  availablePid : List Pid
  headers : MemoryId → SharedMemoryHeader Data
  workers : MemoryId → Worker
  calls : CallId → Call Data

namespace Pool

variable (s : Pool Data)

def setCall (c : CallId) (x : Call Data) : Pool Data :=
  { s with calls := Function.update s.calls c x }

def setHeader (m : MemoryId) (h : SharedMemoryHeader Data) : Pool Data :=
  { s with headers := Function.update s.headers m h }

/-- The process that each call holds. -/
def held (c : CallId) : Option Pid := (s.calls c).pid?

end Pool

inductive Action (Data : Type)
  | call (c : CallId)
  /-- The wait of a call times out, and the call clears the memory. -/
  | timeout (c : CallId) (cleared : Data)
  | worker (m : MemoryId) (succeeded : Bool) (answer : Data)

/-- One step, where `pidMemoryMap` finds the memory of a process and the call `c` has the request
`request c`. -/
def step (pidMemoryMap : Pid → Option MemoryId) (request : CallId → Request Data) (s : Pool Data) :
    Action Data → Option (Pool Data)
  | .call c =>
    match s.calls c with
    | .starting tries =>
      match s.availablePid with
      | [] => none
      | pid :: rest =>
        some { s.setCall c (.holding (.checking tries) pid) with availablePid := rest }
    | .holding stage pid =>
      match stage.afterReturnPid with
      | some next => some { s.setCall c next with availablePid := s.availablePid ++ [pid] }
      | none =>
        match pidMemoryMap pid with
        | none => some (s.setCall c (.holding (.returning .unavailable) pid))
        | some m => do
          let (stage', h) ← (s.headers m).advance (request c) stage
          some ((s.setHeader m h).setCall c (.holding stage' pid))
    | .returned _ => none
  | .timeout c cleared =>
    match s.calls c with
    | .holding .waiting pid => do
      let m ← pidMemoryMap pid
      some ((s.setHeader m { s.headers m with data := cleared }).setCall c
        (.holding (.returning .timedOut) pid))
    | _ => none
  | .worker m succeeded answer => do
    let (worker, h) ← (s.headers m).serve succeeded answer (s.workers m)
    some { s.setHeader m h with workers := Function.update s.workers m worker }

/-- The pool with the processes that have been started. -/
def init (pids : List Pid) (data : Data) : Pool Data where
  availablePid := pids
  headers _ := { data }
  workers _ := .waiting
  calls _ := .starting 0

/-! ## Requests to encode -/

/-- What `Encode` and the process write for each other; `buffer` has the prompt, then the ids. -/
structure EncodeData where
  buffer : List ℕ := []
  enableThinking : Option Bool := none
  chatTemplate : List ℕ := []
deriving DecidableEq

/-- `Encode`, where a chat template may have `limit` bytes. Options that are not given stay as they
are, and are only reset at the end of a call that succeeds. -/
def encode (limit : ℕ) (prompt : List ℕ) (enableThinking : Option Bool)
    (chatTemplate : Option (List ℕ)) : Request EncodeData where
  write d :=
    { buffer := prompt
      enableThinking := enableThinking.or d.enableThinking
      chatTemplate := (chatTemplate.map (·.take limit)).getD d.chatTemplate }
  clear succeeded d :=
    if !succeeded then { d with buffer := d.buffer.map fun _ => 0 }
    else if d.chatTemplate ≠ [] then { d with chatTemplate := [] }
    else { buffer := d.buffer.map fun _ => 0 }

/-! ## Who holds a process -/

/-- What a step does. -/
inductive Moves (pidMemoryMap : Pid → Option MemoryId) (request : CallId → Request Data)
    (s : Pool Data) : Action Data → Pool Data → Prop
  | takes {c tries pid rest} : s.calls c = .starting tries → s.availablePid = pid :: rest →
    Moves pidMemoryMap request s (.call c)
      { s.setCall c (.holding (.checking tries) pid) with availablePid := rest }
  | returns {c stage pid next} : s.calls c = .holding stage pid →
    stage.afterReturnPid = some next →
    Moves pidMemoryMap request s (.call c)
      { s.setCall c next with availablePid := s.availablePid ++ [pid] }
  | unmapped {c stage pid} : s.calls c = .holding stage pid → pidMemoryMap pid = none →
    Moves pidMemoryMap request s (.call c) (s.setCall c (.holding (.returning .unavailable) pid))
  | advances {c stage pid m stage' h} : s.calls c = .holding stage pid →
    pidMemoryMap pid = some m → (s.headers m).advance (request c) stage = some (stage', h) →
    Moves pidMemoryMap request s (.call c) ((s.setHeader m h).setCall c (.holding stage' pid))
  | timesOut {c cleared stage pid m stage' h} : s.calls c = .holding stage pid →
    Moves pidMemoryMap request s (.timeout c cleared)
      ((s.setHeader m h).setCall c (.holding stage' pid))
  | serves {m succeeded answer worker h} :
    (s.headers m).serve succeeded answer (s.workers m) = some (worker, h) →
    Moves pidMemoryMap request s (.worker m succeeded answer)
      { s.setHeader m h with workers := Function.update s.workers m worker }

variable {pidMemoryMap : Pid → Option MemoryId} {request : CallId → Request Data}
  {s s' : Pool Data} {a : Action Data} {pids : List Pid} {data : Data}

theorem step_moves (hstep : step pidMemoryMap request s a = some s') :
    Moves pidMemoryMap request s a s' := by
  cases a with
  | call c =>
    cases hcall : s.calls c with
    | starting tries =>
      cases hpids : s.availablePid with
      | nil => simp [step, hcall, hpids] at hstep
      | cons pid rest =>
        simp only [step, hcall, hpids] at hstep
        cases hstep
        exact .takes hcall hpids
    | holding stage pid =>
      simp only [step, hcall] at hstep
      split at hstep
      · next next hnext =>
        cases hstep
        exact .returns hcall hnext
      · split at hstep
        · next hmemory =>
          cases hstep
          exact .unmapped hcall hmemory
        · next m hmemory =>
          obtain ⟨⟨stage', h⟩, hstage, hs⟩ := Option.bind_eq_some_iff.mp hstep
          cases hs
          exact .advances hcall hmemory hstage
    | returned => simp [step, hcall] at hstep
  | timeout c cleared =>
    simp only [step] at hstep
    split at hstep
    · next pid hcall =>
      obtain ⟨m, -, hs⟩ := Option.bind_eq_some_iff.mp hstep
      cases hs
      exact .timesOut hcall
    · cases hstep
  | worker m succeeded answer =>
    obtain ⟨⟨worker, h⟩, hworker, hs⟩ := Option.bind_eq_some_iff.mp hstep
    cases hs
    exact .serves hworker

/-- Each process of the pool waits there once, or is held by one call. -/
abbrev Owned (pids : List Pid) (s : Pool Data) : Prop := Lent pids s.availablePid s.held

theorem Owned.moves (hs : Owned pids s) (hmoves : Moves pidMemoryMap request s a s') :
    Owned pids s' := by
  have hheld {c x} (hcall : s.calls c = x) : s.held c = x.pid? := congrArg Call.pid? hcall
  have hset {c x} : (s.setCall c x).held = Function.update s.held c x.pid? :=
    Function.comp_update Call.pid? s.calls c x
  have hkeeps {c stage pid} (stage') (hcall : s.calls c = .holding stage pid) :
      Owned pids (s.setCall c (.holding stage' pid)) := by
    rw [Owned, hset, Function.update_eq_self_iff.mpr]
    · exact hs
    · rw [hheld hcall]
      rfl
  cases hmoves with
  | @takes c tries pid rest hcall hpids =>
    rw [Owned, hpids] at hs
    change Lent pids rest (s.setCall c (.holding (.checking tries) pid)).held
    rw [hset]
    exact hs.take (hheld hcall)
  | @returns c stage pid next hcall hnext =>
    have hnone : next.pid? = none := by cases stage <;> grind [Stage.afterReturnPid, Call.pid?]
    have hgive := hs.giveBack (hheld hcall)
    rwa [← hnone, ← hset] at hgive
  | unmapped hcall | advances hcall | timesOut hcall => exact hkeeps _ hcall
  | serves => exact hs

/-- **No process is lost or held twice**, whatever times out. -/
theorem owned_of_reaches (hpids : pids.Nodup)
    (h : Reaches (step pidMemoryMap request) (fun _ _ => True) (init pids data) s) :
    Owned pids s :=
  h.invariant (I := Owned pids) (.start hpids) fun _ _ _ hs _ hstep => hs.moves (step_moves hstep)

/-- Of two calls that take turns the first times out and the second is answered. The process of the
first answers when a third call has it. -/
theorem owned_of_reaches_timedOut :
    ∃ s : Pool EncodeData,
      (s.calls 0 = .returned .timedOut ∧
        s.calls 1 = .returned (.answered true { buffer := [5, 6] }) ∧
        s.calls 2 = .holding .waiting 7 ∧ s.availablePid = [8]) ∧ Owned [7, 8] s := by
  have hrun : ((execAll (step (List.idxOf? · [7, 8]) fun c => encode 9 [c] none none)
      (fun _ _ => True) (init [7, 8] {})
      ([0, 1, 0, 0, 1, 0, 1, 1, 0, 1].map .call ++ [.worker 0 true {}, .worker 1 true {}] ++
        List.replicate 4 (.worker 1 true { buffer := [5, 6] }) ++ [.timeout 0 {}] ++
        [0, 1, 2, 1].map .call ++ List.replicate 4 (.worker 0 true { buffer := [3] }) ++
        [2, 1, 2, 1, 2, 2, 1].map .call)).any fun s =>
          s.calls 0 = .returned .timedOut ∧
            s.calls 1 = .returned (.answered true { buffer := [5, 6] }) ∧
            s.calls 2 = .holding .waiting 7 ∧ s.availablePid = [8]) = true := by
    decide +kernel
  obtain ⟨s, hs, hP⟩ := Option.any_eq_true _ _ |>.mp hrun
  exact ⟨s, of_decide_eq_true hP,
    owned_of_reaches (by decide) (reaches_of_execAll hs)⟩

end MindieLLM.TokenizerProcessPool
