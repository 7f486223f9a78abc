import MindieLLM.Program.Counter
import MindieLLM.Program.Reaches

/-!
# The number of batches under way

The scheduling thread hands batches to the executor, and counts them; it goes on when there are not
too many. The executor calls back for each response. The worker answers each batch by a result,
which may be empty; when a batch fails, it sends error responses before.

Each step below is one access to the counter, or one that does not touch it. Batches may be answered
in any order, and a batch may be answered before it has been counted.

## Main definitions

* `AsyncEngineThread`, `AsyncEngineThread.step`: the state and its atomic steps
* `AsyncEngineThread.Counts`: what the scheduling thread reads off the counter

## Main results

* `AsyncEngineThread.counts_of_reaches`: it reads the number of batches without a result
* `AsyncEngineThread.not_countsResponses`: an error response does not count, and the counter can
  wrap around before a batch is counted
-/

namespace MindieLLM

open Program

/-- A response of the executor: its error message, and the number of samples of each output. -/
structure ModelBatchResult where
  errMsg : Option String := none
  outputs : List Nat := []
  deriving DecidableEq, Repr

/-- What a response does. -/
inductive ResponseEffect
  | pauseScheduling
  | fetchSub
  | throws
  deriving DecidableEq, Repr

namespace ModelBatchResult

/-- `ModelExecOutputHandler::Entry4Executor` -/
def entry4Executor (r : ModelBatchResult) : ResponseEffect :=
  if r.outputs = [] then .fetchSub
  else if 0 ∈ r.outputs then .throws
  else .fetchSub

/-- The callback of `SchedulerThreadEntry`. -/
def responseHandler (r : ModelBatchResult) : ResponseEffect :=
  if r.errMsg ≠ none ∧ r.errMsg ≠ some "" then .pauseScheduling else r.entry4Executor

end ModelBatchResult

/-- A batch that has been handed over, and has no result. -/
structure AsyncBatch where
  /-- An error response has been sent. -/
  failed : Bool := false
  deriving DecidableEq, Repr

/-- Where the scheduling thread is. -/
inductive SchedulerThreadPc
  | gate
  /-- The batch, if it has no result, is counted next. -/
  | handedOver (isDummy : Bool) (b : Option AsyncBatch)
  deriving DecidableEq, Repr

structure AsyncScheduleConfig where
  layerwiseDisaggregated : Bool := false
  lwdNextPHeadPrior : Bool := false
  deriving DecidableEq, Repr

/-- `MAX_ASYNC_SCHEDULE_TIMES`, or `maxDispatchBatchNum` -/
def AsyncScheduleConfig.asyncScheduleRound (cfg : AsyncScheduleConfig) : Nat :=
  if cfg.layerwiseDisaggregated then (if cfg.lwdNextPHeadPrior then 2 else 1) + 1 else 1

structure AsyncEngineThread where
  cfg : AsyncScheduleConfig := {}
  asyncBatchNum : Nat := 0
  pc : SchedulerThreadPc := .gate
  lastScheduleEmpty : Bool := false
  isPauseScheduling : Bool := false
  /-- The batches that have been counted and have no result. -/
  batches : List AsyncBatch := []
  deriving DecidableEq, Repr

namespace AsyncEngineThread

inductive Op
  /-- A batch is scheduled, or a dummy batch, and handed over. -/
  | issue (isDummy : Bool)
  /-- Nothing is scheduled. -/
  | nothing
  /-- The gate is closed. -/
  | sleep
  | fetchAdd
  /-- A response for a batch that has been counted, or for the one that is counted next. -/
  | respond (b : AsyncBatch) (r : ModelBatchResult)
  | respondEarly (r : ModelBatchResult)
  | pauseScheduling
  | resumeScheduling
  deriving DecidableEq

variable (s : AsyncEngineThread)

/-- The size of `size_t`. -/
@[irreducible] def sizeLimit : Nat := 2 ^ 64

/-- Asynchronous scheduling is possible. -/
def hasRoom : Bool := s.asyncBatchNum < s.cfg.asyncScheduleRound && !s.lastScheduleEmpty

/-- The thread goes on to schedule. -/
def gateOpen : Bool := !s.isPauseScheduling && s.hasRoom

/-- A response for a batch. The batch goes on unless it is its result. -/
def handle (b : AsyncBatch) (r : ModelBatchResult) :
    Option (AsyncEngineThread × Option AsyncBatch) :=
  match r.responseHandler with
  | .pauseScheduling => some ({ s with isPauseScheduling := true }, some { b with failed := true })
  | .fetchSub => some ({ s with asyncBatchNum := wrapPred sizeLimit s.asyncBatchNum }, none)
  | .throws => none

def step : Op → Option AsyncEngineThread
  -- scheduling may have been paused since the thread has looked
  | .issue isDummy =>
    if s.pc = .gate ∧ s.hasRoom then some { s with pc := .handedOver isDummy (some {}) } else none
  | .nothing =>
    if s.pc = .gate ∧ s.hasRoom then some { s with lastScheduleEmpty := true } else none
  | .sleep =>
    if s.pc = .gate ∧ !s.hasRoom then some { s with lastScheduleEmpty := false } else none
  | .fetchAdd =>
    match s.pc with
    | .gate => none
    | .handedOver isDummy b =>
      some { s with
        asyncBatchNum := wrapSucc sizeLimit s.asyncBatchNum
        pc := .gate
        lastScheduleEmpty := isDummy
        batches := b.toList ++ s.batches }
  | .respond b r =>
    if b ∈ s.batches then
      (s.handle b r).map fun p => { p.1 with batches := p.2.toList ++ s.batches.erase b }
    else none
  | .respondEarly r =>
    match s.pc with
    | .handedOver isDummy (some b) =>
      (s.handle b r).map fun p => { p.1 with pc := .handedOver isDummy p.2 }
    | _ => none
  | .pauseScheduling => some { s with isPauseScheduling := true }
  | .resumeScheduling => some { s with isPauseScheduling := false }

/-! ## What the counter says -/

/-- The batches that have been handed over and have no result. -/
def unfinished : List AsyncBatch :=
  match s.pc with
  | .gate => s.batches
  | .handedOver _ b => b.toList ++ s.batches

/-- Nothing but a pass of the thread at the closed gate, after scheduling has been resumed. -/
def Reopening (_ : AsyncEngineThread) (op : Op) : Prop := op = .resumeScheduling ∨ op = .sleep

/-- What the scheduling thread reads at the gate is the number of batches without a result. -/
structure Counts : Prop where
  atGate : s.pc = .gate → s.asyncBatchNum = s.unfinished.length
  few : s.unfinished.length ≤ s.cfg.asyncScheduleRound
  /-- The gate opens again when all batches have a result, however many of them have failed. -/
  reopens : s.pc = .gate → s.unfinished = [] →
    ∃ s', Reaches step Reopening s s' ∧ s'.gateOpen ∧ s'.asyncBatchNum = 0

/-- Where every response answers its batch, this is the number of batches without one. -/
def unanswered : Nat := (s.unfinished.filter fun b => !b.failed).length

/-- The counter, which may have been taken back for a batch before it is counted. -/
def counterOf : SchedulerThreadPc → Nat → Nat
  | .handedOver _ none, k => wrapPred sizeLimit k
  | _, k => k

/-- What all steps preserve. -/
structure Invariant : Prop where
  counter : s.asyncBatchNum = counterOf s.pc s.batches.length
  few : s.batches.length + (if s.pc = .gate then 0 else 1) ≤ s.cfg.asyncScheduleRound

variable {s} {s' : AsyncEngineThread}

theorem asyncScheduleRound_pos (cfg : AsyncScheduleConfig) : 0 < cfg.asyncScheduleRound := by
  unfold AsyncScheduleConfig.asyncScheduleRound
  split <;> omega

theorem asyncScheduleRound_lt (cfg : AsyncScheduleConfig) :
    cfg.asyncScheduleRound < sizeLimit := by
  unfold AsyncScheduleConfig.asyncScheduleRound sizeLimit
  split <;> (try split) <;> omega

theorem invariant_init (cfg : AsyncScheduleConfig) : Invariant { cfg := cfg } :=
  ⟨rfl, Nat.zero_le _⟩

/-- A response that is not a result leaves the counter. -/
theorem handle_some {b b' : AsyncBatch} {r : ModelBatchResult}
    (h : s.handle b r = some (s', some b')) : s' = { s with isPauseScheduling := true } := by
  unfold handle at h
  split at h
  · exact (Prod.mk.inj (Option.some.inj h)).1.symm
  · cases (Prod.mk.inj (Option.some.inj h)).2
  · cases h

/-- A result takes the counter back. -/
theorem handle_none {b : AsyncBatch} {r : ModelBatchResult}
    (h : s.handle b r = some (s', none)) :
    s' = { s with asyncBatchNum := wrapPred sizeLimit s.asyncBatchNum } := by
  unfold handle at h
  split at h
  · cases (Prod.mk.inj (Option.some.inj h)).2
  · exact (Prod.mk.inj (Option.some.inj h)).1.symm
  · cases h

theorem Invariant.batches_lt (h : s.Invariant) : s.batches.length < sizeLimit := by
  have hfew := h.few
  have hlt := asyncScheduleRound_lt s.cfg
  omega

theorem Invariant.fetchAdd (h : s.Invariant) {isDummy : Bool} {b : Option AsyncBatch}
    (hpc : s.pc = .handedOver isDummy b) : Invariant { s with
      asyncBatchNum := wrapSucc sizeLimit s.asyncBatchNum
      pc := .gate
      lastScheduleEmpty := isDummy
      batches := b.toList ++ s.batches } := by
  have hcounter := h.counter
  have hfew : s.batches.length + 1 ≤ s.cfg.asyncScheduleRound := by
    have hfew := h.few
    rw [hpc] at hfew
    exact hfew
  have hlt := asyncScheduleRound_lt s.cfg
  rw [hpc] at hcounter
  cases b with
  | none =>
    simp only [counterOf] at hcounter
    refine ⟨?_, ?_⟩
    · simp only [counterOf, Option.toList_none, List.nil_append, hcounter]
      exact wrapSucc_wrapPred h.batches_lt
    · simp only [Option.toList_none, List.nil_append, if_true]
      exact Nat.le_of_succ_le hfew
  | some b =>
    simp only [counterOf] at hcounter
    refine ⟨?_, hfew⟩
    simp only [counterOf, Option.toList_some, List.singleton_append, List.length_cons, hcounter]
    exact wrapSucc_of_lt (by omega)

/-- A result for a batch that has been counted. -/
theorem wrapPred_counterOf {pc : SchedulerThreadPc} {k : Nat} (h : k + 1 < sizeLimit) :
    wrapPred sizeLimit (counterOf pc (k + 1)) = counterOf pc k := by
  have hpred : wrapPred sizeLimit (k + 1) = k := wrapPred_of_pos (Nat.succ_pos k) h
  cases pc with
  | gate => exact hpred
  | handedOver isDummy b =>
    cases b with
    | none => simp only [counterOf, hpred]
    | some b => exact hpred

theorem Invariant.respond (h : s.Invariant) {b : AsyncBatch} (hb : b ∈ s.batches)
    {b' : Option AsyncBatch} {r : ModelBatchResult} (hs : s.handle b r = some (s', b')) :
    Invariant { s' with batches := b'.toList ++ s.batches.erase b } := by
  have hcounter := h.counter
  have hfew := h.few
  have hlt := h.batches_lt
  have hlen : s.batches.length = (s.batches.erase b).length + 1 := by
    have := List.length_erase_of_mem hb
    have := List.length_pos_of_mem hb
    omega
  rw [hlen] at hcounter hfew hlt
  cases b' with
  | some b' =>
    obtain rfl := handle_some hs
    refine ⟨?_, ?_⟩
    · simp only [Option.toList_some, List.singleton_append, List.length_cons]
      exact hcounter
    · simp only [Option.toList_some, List.singleton_append, List.length_cons]
      exact hfew
  | none =>
    obtain rfl := handle_none hs
    refine ⟨?_, ?_⟩
    · simp only [Option.toList_none, List.nil_append]
      rw [hcounter]
      exact wrapPred_counterOf hlt
    · simp only [Option.toList_none, List.nil_append]
      change (s.batches.erase b).length + (if s.pc = .gate then 0 else 1) ≤ s.cfg.asyncScheduleRound
      omega

theorem Invariant.respondEarly (h : s.Invariant) {isDummy : Bool} {b : AsyncBatch}
    (hpc : s.pc = .handedOver isDummy (some b)) {b' : Option AsyncBatch} {r : ModelBatchResult}
    (hs : s.handle b r = some (s', b')) :
    Invariant { s' with pc := .handedOver isDummy b' } := by
  have hcounter := h.counter
  have hfew := h.few
  rw [hpc] at hcounter hfew
  simp only [counterOf] at hcounter
  cases b' with
  | some b' =>
    obtain rfl := handle_some hs
    exact ⟨hcounter, hfew⟩
  | none =>
    obtain rfl := handle_none hs
    refine ⟨?_, hfew⟩
    simp only [counterOf, hcounter]

theorem Invariant.step {op : Op} (h : s.Invariant) (hs : s.step op = some s') : s'.Invariant := by
  cases op with
  | issue isDummy =>
    simp only [AsyncEngineThread.step] at hs
    split at hs
    · next hgate =>
      obtain ⟨hpc, hroom⟩ := hgate
      obtain rfl := Option.some.inj hs
      have hcounter := h.counter
      rw [hpc] at hcounter
      simp only [hasRoom, Bool.and_eq_true, decide_eq_true_eq] at hroom
      simp only [counterOf] at hcounter
      refine ⟨hcounter, ?_⟩
      change s.batches.length + 1 ≤ s.cfg.asyncScheduleRound
      omega
    · cases hs
  | nothing =>
    simp only [AsyncEngineThread.step] at hs
    split at hs
    · obtain rfl := Option.some.inj hs
      exact ⟨h.counter, h.few⟩
    · cases hs
  | sleep =>
    simp only [AsyncEngineThread.step] at hs
    split at hs
    · obtain rfl := Option.some.inj hs
      exact ⟨h.counter, h.few⟩
    · cases hs
  | fetchAdd =>
    simp only [AsyncEngineThread.step] at hs
    split at hs
    · cases hs
    · next hpc =>
      obtain rfl := Option.some.inj hs
      exact h.fetchAdd hpc
  | respond b r =>
    simp only [AsyncEngineThread.step] at hs
    split at hs
    · next hb =>
      obtain ⟨⟨s₁, b'⟩, hhandle, rfl⟩ := Option.map_eq_some_iff.mp hs
      exact h.respond hb hhandle
    · cases hs
  | respondEarly r =>
    simp only [AsyncEngineThread.step] at hs
    split at hs
    · next hpc =>
      obtain ⟨⟨s₁, b'⟩, hhandle, rfl⟩ := Option.map_eq_some_iff.mp hs
      exact h.respondEarly hpc hhandle
    · cases hs
  | pauseScheduling =>
    obtain rfl := Option.some.inj hs
    exact ⟨h.counter, h.few⟩
  | resumeScheduling =>
    obtain rfl := Option.some.inj hs
    exact ⟨h.counter, h.few⟩

/-- When scheduling is resumed, the thread goes on after one pass at most. -/
theorem exists_reopening (hpc : s.pc = .gate) (hzero : s.asyncBatchNum = 0) :
    ∃ s', Reaches step Reopening s s' ∧ s'.gateOpen ∧ s'.asyncBatchNum = 0 := by
  let resumed : AsyncEngineThread := { s with isPauseScheduling := false }
  have hresume : Reaches step Reopening s resumed := .one (a := .resumeScheduling) (.inl rfl) rfl
  have hpos : resumed.asyncBatchNum < resumed.cfg.asyncScheduleRound := by
    change s.asyncBatchNum < s.cfg.asyncScheduleRound
    rw [hzero]
    exact asyncScheduleRound_pos s.cfg
  by_cases hempty : s.lastScheduleEmpty = true
  · have hsleep : resumed.step .sleep = some { resumed with lastScheduleEmpty := false } := by
      simp [AsyncEngineThread.step, hasRoom, resumed, hpc, hempty]
    refine ⟨_, hresume.trans (.one (.inr rfl) hsleep), ?_, hzero⟩
    simpa [gateOpen, hasRoom, resumed] using hpos
  · refine ⟨resumed, hresume, ?_, hzero⟩
    simp only [Bool.not_eq_true] at hempty
    simpa [gateOpen, hasRoom, resumed, hempty] using hpos

theorem Invariant.counts (h : s.Invariant) : s.Counts := by
  have hcounter := h.counter
  have hfew := h.few
  have hgate (hpc : s.pc = .gate) : s.asyncBatchNum = s.unfinished.length := by
    rw [hpc] at hcounter
    simp only [unfinished, hpc]
    exact hcounter
  refine ⟨hgate, ?_, fun hpc hnil => exists_reopening hpc ?_⟩
  · cases hpc : s.pc with
    | gate =>
      rw [hpc] at hfew
      simp only [unfinished, hpc]
      exact hfew
    | handedOver isDummy b =>
      simp only [hpc, reduceCtorEq, if_false] at hfew
      have hb : b.toList.length ≤ 1 := by cases b <;> simp
      simp only [unfinished, hpc, List.length_append]
      omega
  · rw [hgate hpc, hnil, List.length_nil]

/-- **The counter.** Whenever the scheduling thread is at the gate, it reads the number of batches
without a result, and the gate opens again when all have one. -/
theorem counts_of_reaches (cfg : AsyncScheduleConfig) (s : AsyncEngineThread)
    (h : Reaches step (fun _ _ => True) { cfg := cfg } s) : s.Counts :=
  (h.invariant (I := Invariant) (invariant_init cfg) fun _ _ _ hI _ hs => hI.step hs).counts

/-- A batch fails, and gets a result; scheduling has been paused. -/
theorem exists_counts : ∃ s, Reaches step (fun _ _ => True) {} s ∧ s.isPauseScheduling = true ∧
    s.unfinished = [] ∧ s.Counts := by
  obtain ⟨s, hs, hpause, hnil⟩ : ∃ s, Reaches step (fun _ _ => True) {} s ∧
      s.isPauseScheduling = true ∧ s.unfinished = [] :=
    exists_reaches [.issue false, .fetchAdd, .respond {} { errMsg := some "error" },
      .respond { failed := true } { outputs := [1] }] (by decide +kernel)
  exact ⟨s, hs, hpause, hnil, counts_of_reaches {} s hs⟩

/-- An error response leaves the counter, and the gate stays closed; and when a batch gets its
result before it has been counted, the counter wraps around. -/
theorem not_countsResponses :
    (∃ s, Reaches step (fun _ _ => True) {} s ∧ s.pc = .gate ∧ s.unanswered = 0 ∧
      s.asyncBatchNum = 1 ∧ ¬s.hasRoom) ∧
    ∃ s, Reaches step (fun _ _ => True) {} s ∧ s.unanswered = 0 ∧
      s.asyncBatchNum = sizeLimit - 1 := by
  constructor
  · exact exists_reaches [.issue false, .fetchAdd, .respond {} { errMsg := some "error" }]
      (by decide +kernel)
  · exact exists_reaches [.issue false, .respondEarly { outputs := [1] }] (by decide +kernel)

end AsyncEngineThread

end MindieLLM
