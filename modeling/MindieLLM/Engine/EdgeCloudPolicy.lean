import MindieLLM.Scheduler.FcfsPolicy
import MindieLLM.Scheduler.LatencyPredictor

/-!
# Batches of the layer-wise engine

The layer-wise engine has several batches under way: one or two prefills and one decoding. Its
policy counts both kinds, and chooses what comes next by the counts; it throws when there is no room
for either. The thread of the engine hands a batch to the executor, and counts it then; the thread
of the executor calls back for each answer, and takes the count back.

A batch that is answered before it has been counted is taken back too early, which does nothing, and
is counted for good. So is a batch whose answer has no outputs. The gate does not see it, and lets
the engine on where the policy throws.

## Main definitions

* `EdgeCloudPolicy.apply`, `EdgeCloudPolicy.layerwiseAddBatchCnt`,
  `EdgeCloudPolicy.layerwiseSubBatchCnt`: the policy
* `LayerwiseEngine.step`: the steps of both threads
* `LayerwiseEngine.Timely`: the condition on the answers
* `LayerwiseEngine.Exact`: the counts are those of the batches, and the policy has not thrown

## Main results

* `LayerwiseEngine.Invariant.step`: one step
* `LayerwiseEngine.executes_exactly_of_reaches`: every run with timely answers
-/

namespace MindieLLM

open Program LatencyStats

/-! ## The policy -/

structure EdgeCloudPolicy where
  batchPnum : ℕ
  prefillBatchCount : ℤ := 0
  decodeBatchCount : ℤ := 0
  deriving DecidableEq

namespace EdgeCloudPolicy

variable (policy : EdgeCloudPolicy)

/-- What `Apply` throws. -/
def refusal : Exn :=
  .runtimeError ("Try to schedule one more batch when prefillBatchCount_=" ++
    toString policy.prefillBatchCount ++ " and decodeBatchCount_=1. " ++
    "It is not allowed because maxDispatchBatchNum=" ++ toString (policy.batchPnum + 1) ++ ".")

def apply (waitingEmpty runningEmpty : Bool) : Except Exn PDPriorityType :=
  if policy.prefillBatchCount < policy.batchPnum ∧ policy.decodeBatchCount = 0 then
    if !waitingEmpty then .ok .prefillFirst
    else if !runningEmpty then .ok .decodeFirst
    else .ok .prefillFirst
  else if policy.prefillBatchCount < policy.batchPnum ∧ policy.decodeBatchCount = 1 then
    .ok .prefillFirst
  else if policy.prefillBatchCount = policy.batchPnum ∧ policy.decodeBatchCount = 0 then
    .ok .decodeFirst
  else
    .error policy.refusal

/-- A count that does not fit is logged and left. -/
def layerwiseAddBatchCnt (forwardMode : ForwardMode) : EdgeCloudPolicy :=
  if forwardMode = .prefill ∧ 0 ≤ policy.prefillBatchCount ∧
      policy.prefillBatchCount < policy.batchPnum then
    { policy with prefillBatchCount := policy.prefillBatchCount + 1 }
  else if forwardMode = .decode ∧ policy.decodeBatchCount = 0 then
    { policy with decodeBatchCount := 1 }
  else
    policy

def layerwiseSubBatchCnt (forwardMode : ForwardMode) : EdgeCloudPolicy :=
  if forwardMode = .prefill ∧ 1 ≤ policy.prefillBatchCount ∧
      policy.prefillBatchCount ≤ policy.batchPnum then
    { policy with prefillBatchCount := policy.prefillBatchCount - 1 }
  else if forwardMode = .decode ∧ policy.decodeBatchCount = 1 then
    { policy with decodeBatchCount := 0 }
  else
    policy

def lwdNeedWaiting4Response (forwardMode : ForwardMode) : Bool :=
  let maxModeBatchNum : ℤ := if forwardMode = .prefill then policy.batchPnum else 1
  let runningModeBatchNum :=
    if forwardMode = .prefill then policy.prefillBatchCount else policy.decodeBatchCount
  ¬runningModeBatchNum < maxModeBatchNum

end EdgeCloudPolicy

/-- What a batch that is scheduled with a priority is. -/
def PDPriorityType.forwardMode (priority : PDPriorityType) : ForwardMode :=
  if priority = .prefillFirst then .prefill else .decode

/-! ## The engine -/

/-- Where the thread of the engine is. A batch without a mode is a dummy batch. -/
inductive LayerwisePc
  | gate
  | deciding
  | decided (priority : PDPriorityType)
  | scheduling (forwardMode : ForwardMode)
  /-- The batch is with the executor, `fetch_add` comes next. -/
  | handedOver (batch : Option ForwardMode) (answered : Bool)
  /-- `LwdEngineAddBatchCnt` comes next. -/
  | counting (forwardMode : ForwardMode) (answered : Bool)
  | thrown
  deriving DecidableEq

structure LayerwiseEngine where
  dpSize : ℕ
  policy : EdgeCloudPolicy
  /-- The counter wraps around, so it is read modulo `2 ^ 64`. -/
  asyncBatchNum : ℤ := 0
  pc : LayerwisePc := .gate
  /-- The batches that have been dispatched and have no answer. -/
  batches : List (Option ForwardMode) := []
  /-- The callbacks that have come as far as `fetch_sub`. -/
  settling : ℕ := 0
  deriving DecidableEq

namespace LayerwiseEngine

inductive Op
  /-- The engine passes the gate. -/
  | pass
  /-- `LayerwiseDecidePDPriority`; whether the queues and the free blocks ask for a decoding. -/
  | decide (forced waitingEmpty runningEmpty : Bool)
  /-- The ranks agree on a priority. -/
  | share (priority : PDPriorityType)
  /-- `LayerwiseDecidePDelay` puts a prefill off. -/
  | delay
  /-- With several ranks, `LwdWaitingResponse` is over. -/
  | schedule
  | nothing
  | handOver
  | handOverDummy
  | fetchAdd
  | addBatchCnt
  /-- `Entry4Executor` up to `fetch_sub`, for a batch that has been dispatched, or for the one that
  is counted next. A result without outputs is for a dummy batch. -/
  | answer (batch : Option ForwardMode) (hasOutputs : Bool)
  | answerEarly (hasOutputs : Bool)
  | fetchSub
  deriving DecidableEq

variable (s : LayerwiseEngine)

/-- The number of batches under way that the engine looks at. -/
def hasRoom : Bool := s.asyncBatchNum % 0x10000000000000000 < s.policy.batchPnum + 1

/-- What an answer does to the counters. -/
def handle (batch : Option ForwardMode) (hasOutputs : Bool) : Option LayerwiseEngine :=
  match batch, hasOutputs with
  | _, false => some { s with asyncBatchNum := s.asyncBatchNum - 1 }
  | some forwardMode, true =>
    some { s with
      policy := s.policy.layerwiseSubBatchCnt forwardMode
      settling := s.settling + 1 }
  | none, true => none

/-- One statement of a thread. An update of a counter, a plain integer of two threads, is one step,
and so is a call of `Apply`. -/
def step : Op → Option LayerwiseEngine
  | .pass => if s.pc = .gate ∧ s.hasRoom then some { s with pc := .deciding } else none
  | .decide forced waitingEmpty runningEmpty =>
    if s.pc = .deciding then
      if forced ∧ s.policy.decodeBatchCount = 0 then some { s with pc := .decided .decodeFirst }
      else
        match s.policy.apply waitingEmpty runningEmpty with
        | .ok priority => some { s with pc := .decided priority }
        | .error _ => some { s with pc := .thrown }
    else none
  | .share priority =>
    match s.pc with
    | .decided _ => if 1 < s.dpSize then some { s with pc := .decided priority } else none
    | _ => none
  | .delay =>
    if s.pc = .decided .prefillFirst ∧ s.dpSize = 1 ∧ s.policy.decodeBatchCount < 1 then
      some { s with pc := .decided .decodeFirst }
    else none
  | .schedule =>
    match s.pc with
    | .decided priority =>
      if 1 < s.dpSize ∧ s.policy.lwdNeedWaiting4Response priority.forwardMode then none
      else some { s with pc := .scheduling priority.forwardMode }
    | _ => none
  | .nothing =>
    match s.pc with
    | .scheduling _ => some { s with pc := .gate }
    | _ => none
  | .handOver =>
    match s.pc with
    | .scheduling forwardMode => some { s with pc := .handedOver (some forwardMode) false }
    | _ => none
  | .handOverDummy =>
    match s.pc with
    | .scheduling _ => some { s with pc := .handedOver none false }
    | _ => none
  | .fetchAdd =>
    match s.pc with
    | .handedOver (some forwardMode) answered =>
      some { s with
        asyncBatchNum := s.asyncBatchNum + 1
        pc := .counting forwardMode answered }
    | .handedOver none answered =>
      some { s with
        asyncBatchNum := s.asyncBatchNum + 1
        pc := .gate
        batches := if answered then s.batches else none :: s.batches }
    | _ => none
  | .addBatchCnt =>
    match s.pc with
    | .counting forwardMode answered =>
      some { s with
        policy := s.policy.layerwiseAddBatchCnt forwardMode
        pc := .gate
        batches := if answered then s.batches else some forwardMode :: s.batches }
    | _ => none
  | .answer batch hasOutputs =>
    if batch ∈ s.batches then
      (s.handle batch hasOutputs).map fun s' => { s' with batches := s.batches.erase batch }
    else none
  | .answerEarly hasOutputs =>
    match s.pc with
    | .handedOver batch false =>
      (s.handle batch hasOutputs).map fun s' => { s' with pc := .handedOver batch true }
    | .counting forwardMode false =>
      (s.handle (some forwardMode) hasOutputs).map fun s' =>
        { s' with pc := .counting forwardMode true }
    | _ => none
  | .fetchSub =>
    if 0 < s.settling then
      some { s with asyncBatchNum := s.asyncBatchNum - 1, settling := s.settling - 1 }
    else none

/-- The engine as it is made. -/
def init (lwdNextPHeadPrior : Bool) (dpSize : ℕ) : LayerwiseEngine where
  dpSize := dpSize
  policy := { batchPnum := if lwdNextPHeadPrior then 2 else 1 }

/-- The counts are those of the batches that have been dispatched and not answered, and `Apply` has
not thrown. -/
structure Exact : Prop where
  prefill : s.policy.prefillBatchCount = s.batches.count (some .prefill)
  decode : s.policy.decodeBatchCount = s.batches.count (some .decode)
  nonneg : 0 ≤ s.policy.prefillBatchCount ∧ 0 ≤ s.policy.decodeBatchCount
  apply : s.pc ≠ .thrown

/-- A batch, other than a dummy batch, is answered after it has been counted, and with outputs. -/
def Timely : Op → Prop
  | .answer batch hasOutputs => batch ≠ none → hasOutputs
  | .answerEarly _ => s.pc = .handedOver none false
  | _ => True

instance (op : Op) : Decidable (s.Timely op) := by
  cases op <;> unfold Timely <;> infer_instance

/-! ## What the steps preserve -/

/-- There is room for a batch of this kind. -/
def Room (forwardMode : ForwardMode) : Prop :=
  forwardMode = .prefill ∧ s.batches.count (some .prefill) < s.policy.batchPnum ∨
    forwardMode = .decode ∧ s.batches.count (some .decode) = 0

/-- What the engine relies on, by where it is. -/
def Ready : LayerwisePc → Prop
  | .gate | .deciding | .handedOver none _ => True
  | .decided priority => ¬1 < s.dpSize → s.Room priority.forwardMode
  | .scheduling forwardMode => s.Room forwardMode
  | .handedOver (some forwardMode) answered | .counting forwardMode answered =>
    answered = false ∧ s.Room forwardMode
  | .thrown => False

/-- By how much the number of batches is ahead of those that are dispatched. -/
def ahead : LayerwisePc → ℤ
  | .handedOver _ true => -1
  | .counting _ false => 1
  | _ => 0

structure Invariant : Prop where
  batchPnum : s.policy.batchPnum ≤ 2
  prefill : s.policy.prefillBatchCount = s.batches.count (some .prefill)
  decode : s.policy.decodeBatchCount = s.batches.count (some .decode)
  prefill_le : s.batches.count (some .prefill) ≤ s.policy.batchPnum
  decode_le : s.batches.count (some .decode) ≤ 1
  modes : ∀ forwardMode, some forwardMode ∈ s.batches →
    forwardMode = .prefill ∨ forwardMode = .decode
  asyncBatchNum : s.asyncBatchNum = s.batches.length + s.settling + ahead s.pc
  few : s.batches.length + s.settling + (if s.pc = .gate then 0 else 1) ≤ s.policy.batchPnum + 1
  ready : s.Ready s.pc

variable {s} {s' : LayerwiseEngine}

theorem invariant_init (lwdNextPHeadPrior : Bool) (dpSize : ℕ) :
    Invariant (init lwdNextPHeadPrior dpSize) where
  batchPnum := by
    cases lwdNextPHeadPrior with
    | false => exact Nat.le_succ 1
    | true => exact Nat.le_refl 2
  prefill := rfl
  decode := rfl
  prefill_le := Nat.zero_le _
  decode_le := Nat.zero_le _
  modes _ h := (List.not_mem_nil h).elim
  asyncBatchNum := rfl
  few := Nat.zero_le _
  ready := trivial

theorem Invariant.exact (h : s.Invariant) : s.Exact where
  prefill := h.prefill
  decode := h.decode
  nonneg := by
    rw [h.prefill, h.decode]
    exact ⟨Int.natCast_nonneg _, Int.natCast_nonneg _⟩
  apply hpc := by
    have hready := h.ready
    rw [hpc] at hready
    exact hready

/-- The engine goes from one place to another, and nothing else changes. -/
theorem Invariant.goTo (h : s.Invariant) {pc : LayerwisePc} (hpc : s.pc ≠ .gate)
    (hahead : ahead pc = ahead s.pc) (hready : s.Ready pc) : Invariant { s with pc := pc } where
  batchPnum := h.batchPnum
  prefill := h.prefill
  decode := h.decode
  prefill_le := h.prefill_le
  decode_le := h.decode_le
  modes := h.modes
  asyncBatchNum := by
    dsimp only
    rw [hahead]
    exact h.asyncBatchNum
  few := by
    have hfew := h.few
    rw [if_neg hpc] at hfew
    dsimp only
    split <;> omega
  ready := hready

theorem count_add_count_le (batches : List (Option ForwardMode)) :
    batches.count (some .prefill) + batches.count (some .decode) ≤ batches.length := by
  induction batches with
  | nil => exact Nat.le_refl 0
  | cons batch batches ih =>
    rw [List.count_cons, List.count_cons, List.length_cons]
    cases batch with
    | none => simp; omega
    | some forwardMode => cases forwardMode <;> simp <;> omega

/-- What the engine reads at the gate. -/
theorem Invariant.few_of_hasRoom (h : s.Invariant) (hpc : s.pc = .gate) (hroom : s.hasRoom) :
    s.batches.length + s.settling + 1 ≤ s.policy.batchPnum + 1 := by
  have hasync := h.asyncBatchNum
  have hfew := h.few
  have hpnum := h.batchPnum
  rw [hpc] at hasync
  simp only [ahead, Int.add_zero] at hasync
  unfold hasRoom at hroom
  rw [decide_eq_true_eq, hasync] at hroom
  rw [hpc, if_pos rfl] at hfew
  rw [Int.emod_eq_of_lt (by omega) (by omega)] at hroom
  omega

/-- The policy finds room for one of the two kinds. -/
theorem Invariant.apply_ok (h : s.Invariant) (hpc : s.pc = .deciding)
    (waitingEmpty runningEmpty : Bool) :
    ∃ priority, s.policy.apply waitingEmpty runningEmpty = .ok priority ∧
      s.Room priority.forwardMode := by
  have hfew := h.few
  have hsum := count_add_count_le s.batches
  have hprefill := h.prefill_le
  have hdecode := h.decode_le
  rw [hpc, if_neg (by simp)] at hfew
  unfold EdgeCloudPolicy.apply Room
  rw [h.prefill, h.decode]
  by_cases hless : s.batches.count (some .prefill) < s.policy.batchPnum
  · by_cases hnone : s.batches.count (some .decode) = 0
    · rw [if_pos (by omega)]
      cases waitingEmpty with
      | false => exact ⟨_, rfl, .inl ⟨rfl, hless⟩⟩
      | true =>
        cases runningEmpty with
        | false => exact ⟨_, rfl, .inr ⟨rfl, hnone⟩⟩
        | true => exact ⟨_, rfl, .inl ⟨rfl, hless⟩⟩
    · rw [if_neg (by omega), if_pos (by omega)]
      exact ⟨_, rfl, .inl ⟨rfl, hless⟩⟩
  · -- all prefills are under way, so the gate has let the engine on for a decoding
    rw [if_neg (by omega), if_neg (by omega), if_pos (by omega)]
    exact ⟨_, rfl, .inr ⟨rfl, by omega⟩⟩

/-- Room stays when a batch is answered. -/
theorem Room.erase {forwardMode : ForwardMode} (h : s.Room forwardMode)
    {policy : EdgeCloudPolicy} (hpnum : policy.batchPnum = s.policy.batchPnum)
    {asyncBatchNum : ℤ} {settling : ℕ} (batch : Option ForwardMode) :
    Room { s with
      policy := policy
      asyncBatchNum := asyncBatchNum
      settling := settling
      batches := s.batches.erase batch } forwardMode := by
  have hle : ∀ mode, (s.batches.erase batch).count (some mode) ≤ s.batches.count (some mode) :=
    fun mode => (List.erase_sublist).count_le _
  rcases h with ⟨rfl, hless⟩ | ⟨rfl, hnone⟩
  · refine .inl ⟨rfl, ?_⟩
    dsimp only
    rw [hpnum]
    exact (hle _).trans_lt hless
  · exact .inr ⟨rfl, Nat.le_zero.mp ((hle _).trans hnone.le)⟩

theorem Ready.erase {pc : LayerwisePc} (h : s.Ready pc) {policy : EdgeCloudPolicy}
    (hpnum : policy.batchPnum = s.policy.batchPnum) {asyncBatchNum : ℤ} {settling : ℕ}
    (batch : Option ForwardMode) :
    Ready { s with
      policy := policy
      asyncBatchNum := asyncBatchNum
      settling := settling
      batches := s.batches.erase batch } pc := by
  cases pc with
  | gate => trivial
  | deciding => trivial
  | decided priority => exact fun hsingle => (h hsingle).erase hpnum batch
  | scheduling forwardMode => exact Room.erase h hpnum batch
  | handedOver dispatched answered =>
    cases dispatched with
    | none => trivial
    | some forwardMode => exact ⟨h.1, h.2.erase hpnum batch⟩
  | counting forwardMode answered => exact ⟨h.1, h.2.erase hpnum batch⟩
  | thrown => exact h

/-- A batch is answered, and the policy counts what is left. -/
theorem Invariant.erase (h : s.Invariant) {batch : Option ForwardMode} (hmem : batch ∈ s.batches)
    {policy : EdgeCloudPolicy} (hpnum : policy.batchPnum = s.policy.batchPnum)
    (hprefill : policy.prefillBatchCount = (s.batches.erase batch).count (some .prefill))
    (hdecode : policy.decodeBatchCount = (s.batches.erase batch).count (some .decode))
    {asyncBatchNum : ℤ} {settling : ℕ}
    (hasync : asyncBatchNum - settling = s.asyncBatchNum - s.settling - 1)
    (hsettling : settling ≤ s.settling + 1) :
    Invariant { s with
      policy := policy
      asyncBatchNum := asyncBatchNum
      settling := settling
      batches := s.batches.erase batch } := by
  have hle : ∀ mode, (s.batches.erase batch).count (some mode) ≤ s.batches.count (some mode) :=
    fun mode => (List.erase_sublist).count_le _
  have hlength : (s.batches.erase batch).length + 1 = s.batches.length := by
    have hpos := List.length_pos_of_mem hmem
    rw [List.length_erase_of_mem hmem]
    omega
  refine ⟨?_, hprefill, hdecode, ?_, (hle _).trans h.decode_le, fun mode hmode => ?_, ?_, ?_,
    h.ready.erase hpnum batch⟩
  · exact hpnum.trans_le h.batchPnum
  · exact ((hle _).trans h.prefill_le).trans_eq hpnum.symm
  · exact h.modes mode (List.mem_of_mem_erase hmode)
  · have hcounter := h.asyncBatchNum
    dsimp only
    omega
  · have hfew := h.few
    dsimp only
    rw [hpnum]
    omega

theorem Invariant.answer (h : s.Invariant) {batch : Option ForwardMode} (hmem : batch ∈ s.batches)
    {hasOutputs : Bool} (htimely : batch ≠ none → hasOutputs)
    (hs : s.handle batch hasOutputs = some s') :
    Invariant { s' with batches := s.batches.erase batch } := by
  cases batch with
  | none =>
    cases hasOutputs with
    | true => cases hs
    | false =>
      obtain rfl := Option.some.inj hs
      have hsame : ∀ mode, (s.batches.erase none).count (some mode) = s.batches.count (some mode) :=
        fun mode => List.count_erase_of_ne (Option.some_ne_none mode)
      refine @Invariant.erase s h none hmem s.policy rfl ?_ ?_ (s.asyncBatchNum - 1) s.settling
        (by omega) (Nat.le_succ _)
      · rw [hsame, h.prefill]
      · rw [hsame, h.decode]
  | some forwardMode =>
    obtain rfl : hasOutputs = true := htimely (Option.some_ne_none _)
    obtain rfl := Option.some.inj hs
    have hpos : 0 < s.batches.count (some forwardMode) := List.count_pos_iff.mpr hmem
    have hprefill := h.prefill_le
    have hdecode := h.decode_le
    rcases h.modes forwardMode hmem with rfl | rfl
    · have hsub : s.policy.layerwiseSubBatchCnt .prefill =
          { s.policy with prefillBatchCount := s.policy.prefillBatchCount - 1 } := by
        refine if_pos ⟨rfl, ?_, ?_⟩
        · rw [h.prefill]
          omega
        · rw [h.prefill]
          omega
      refine @Invariant.erase s h _ hmem (s.policy.layerwiseSubBatchCnt .prefill) ?_ ?_ ?_
        s.asyncBatchNum (s.settling + 1) (by omega) (Nat.le_refl _)
      · rw [hsub]
      · rw [hsub, List.count_erase_self]
        dsimp only
        rw [h.prefill]
        omega
      · rw [hsub, List.count_erase_of_ne (by simp)]
        exact h.decode
    · have hsub : s.policy.layerwiseSubBatchCnt .decode =
          { s.policy with decodeBatchCount := 0 } := by
        refine (if_neg (by simp)).trans (if_pos ⟨rfl, ?_⟩)
        rw [h.decode]
        omega
      refine @Invariant.erase s h _ hmem (s.policy.layerwiseSubBatchCnt .decode) ?_ ?_ ?_
        s.asyncBatchNum (s.settling + 1) (by omega) (Nat.le_refl _)
      · rw [hsub]
      · rw [hsub, List.count_erase_of_ne (by simp)]
        exact h.prefill
      · rw [hsub, List.count_erase_self]
        dsimp only
        omega

/-- A dummy batch is counted by the gate only. -/
theorem Invariant.fetchAdd_dummy (h : s.Invariant) {answered : Bool}
    (hpc : s.pc = .handedOver none answered) :
    Invariant { s with
      asyncBatchNum := s.asyncBatchNum + 1
      pc := .gate
      batches := if answered then s.batches else none :: s.batches } := by
  have hasync := h.asyncBatchNum
  have hfew := h.few
  rw [hpc] at hasync
  rw [hpc, if_neg (by simp)] at hfew
  cases answered with
  | true =>
    refine ⟨h.batchPnum, h.prefill, h.decode, h.prefill_le, h.decode_le, h.modes, ?_, ?_, trivial⟩
    · simp only [ahead, if_true] at hasync ⊢
      omega
    · simp only [if_true]
      omega
  | false =>
    have hsame : ∀ mode, (none :: s.batches).count (some mode) = s.batches.count (some mode) :=
      fun mode => List.count_cons_of_ne (Option.some_ne_none mode).symm
    refine ⟨h.batchPnum, ?_, ?_, ?_, ?_, fun mode hmode => ?_, ?_, ?_, trivial⟩
    · exact h.prefill.trans (congrArg _ (hsame _).symm)
    · exact h.decode.trans (congrArg _ (hsame _).symm)
    · exact (hsame _).trans_le h.prefill_le
    · exact (hsame _).trans_le h.decode_le
    · refine h.modes mode ?_
      simpa using hmode
    · simp only [ahead] at hasync
      simp [ahead]
      omega
    · simp
      omega

/-- A batch is counted by the policy, which has room for it. -/
theorem Invariant.addBatchCnt (h : s.Invariant) {forwardMode : ForwardMode}
    (hpc : s.pc = .counting forwardMode false) :
    Invariant { s with
      policy := s.policy.layerwiseAddBatchCnt forwardMode
      pc := .gate
      batches := some forwardMode :: s.batches } := by
  have hasync := h.asyncBatchNum
  have hfew := h.few
  have hready := h.ready
  rw [hpc] at hasync hready
  rw [hpc, if_neg (by simp)] at hfew
  simp only [ahead] at hasync
  obtain ⟨-, ⟨rfl, hless⟩ | ⟨rfl, hnone⟩⟩ := hready
  · have hadd : s.policy.layerwiseAddBatchCnt .prefill =
        { s.policy with prefillBatchCount := s.policy.prefillBatchCount + 1 } := by
      refine if_pos ⟨rfl, ?_, ?_⟩
      · rw [h.prefill]
        exact Int.natCast_nonneg _
      · rw [h.prefill]
        omega
    rw [hadd]
    refine ⟨h.batchPnum, ?_, ?_, ?_, ?_, ?_, ?_, ?_, trivial⟩
    · dsimp only
      rw [List.count_cons_self, h.prefill]
      rfl
    · dsimp only
      rw [List.count_cons_of_ne (by simp), h.decode]
    · dsimp only
      rw [List.count_cons_self]
      exact hless
    · dsimp only
      rw [List.count_cons_of_ne (by simp)]
      exact h.decode_le
    · intro mode hmode
      rcases List.mem_cons.mp hmode with heq | hold
      · exact .inl (Option.some.inj heq)
      · exact h.modes mode hold
    · simp only [ahead, List.length_cons]
      omega
    · simp only [if_true, List.length_cons]
      omega
  · have hadd : s.policy.layerwiseAddBatchCnt .decode =
        { s.policy with decodeBatchCount := 1 } := by
      refine (if_neg (by simp)).trans (if_pos ⟨rfl, ?_⟩)
      rw [h.decode, hnone]
      rfl
    rw [hadd]
    refine ⟨h.batchPnum, ?_, ?_, ?_, ?_, ?_, ?_, ?_, trivial⟩
    · dsimp only
      rw [List.count_cons_of_ne (by simp), h.prefill]
    · dsimp only
      rw [List.count_cons_self, hnone]
      rfl
    · dsimp only
      rw [List.count_cons_of_ne (by simp)]
      exact h.prefill_le
    · dsimp only
      rw [List.count_cons_self, hnone]
    · intro mode hmode
      rcases List.mem_cons.mp hmode with heq | hold
      · exact .inr (Option.some.inj heq)
      · exact h.modes mode hold
    · simp only [ahead, List.length_cons]
      omega
    · simp only [if_true, List.length_cons]
      omega

/-- The rank waits until there is room. -/
theorem Invariant.room_of_not_waiting (h : s.Invariant) {priority : PDPriorityType}
    (hwait : ¬s.policy.lwdNeedWaiting4Response priority.forwardMode) :
    s.Room priority.forwardMode := by
  have hmode : priority.forwardMode = .prefill ∨ priority.forwardMode = .decode := by
    unfold PDPriorityType.forwardMode
    split
    · exact .inl rfl
    · exact .inr rfl
  unfold EdgeCloudPolicy.lwdNeedWaiting4Response at hwait
  rcases hmode with hmode | hmode
  · rw [hmode] at hwait ⊢
    simp only [if_true, decide_not, Bool.not_eq_true', decide_eq_false_iff_not, not_not] at hwait
    rw [h.prefill] at hwait
    exact .inl ⟨rfl, by omega⟩
  · rw [hmode] at hwait ⊢
    simp only [reduceCtorEq, if_false, decide_not, Bool.not_eq_true', decide_eq_false_iff_not,
      not_not] at hwait
    rw [h.decode] at hwait
    exact .inr ⟨rfl, by omega⟩

/-- **One step.** -/
theorem Invariant.step (h : s.Invariant) {op : Op} (htimely : s.Timely op)
    (hs : s.step op = some s') : s'.Invariant := by
  cases op with
  | pass =>
    obtain ⟨⟨hpc, hroom⟩, hs⟩ := Option.ite_none_right_eq_some.mp hs
    obtain rfl := Option.some.inj hs
    have hfew := h.few_of_hasRoom hpc hroom
    have hasync := h.asyncBatchNum
    rw [hpc] at hasync
    exact ⟨h.batchPnum, h.prefill, h.decode, h.prefill_le, h.decode_le, h.modes, hasync, hfew,
      trivial⟩
  | decide forced waitingEmpty runningEmpty =>
    obtain ⟨hpc, hs⟩ := Option.ite_none_right_eq_some.mp hs
    have hleave : s.pc ≠ .gate := by
      rw [hpc]
      simp
    obtain ⟨priority, hok, hroom⟩ := h.apply_ok hpc waitingEmpty runningEmpty
    rw [hok] at hs
    split at hs
    · next hforced =>
      obtain rfl := Option.some.inj hs
      have hdecode := h.decode
      refine h.goTo hleave (by rw [hpc]; rfl) fun _ => .inr ⟨rfl, ?_⟩
      omega
    · obtain rfl := Option.some.inj hs
      exact h.goTo hleave (by rw [hpc]; rfl) fun _ => hroom
  | share priority =>
    simp only [LayerwiseEngine.step] at hs
    split at hs
    · next hpc =>
      obtain ⟨hmany, hs⟩ := Option.ite_none_right_eq_some.mp hs
      obtain rfl := Option.some.inj hs
      refine h.goTo (by rw [hpc]; simp) (by rw [hpc]; rfl) fun hsingle => ?_
      exact absurd hmany hsingle
    · cases hs
  | delay =>
    obtain ⟨⟨hpc, -, hless⟩, hs⟩ := Option.ite_none_right_eq_some.mp hs
    obtain rfl := Option.some.inj hs
    have hdecode := h.decode
    refine h.goTo (by rw [hpc]; simp) (by rw [hpc]; rfl) fun _ => .inr ⟨rfl, ?_⟩
    omega
  | schedule =>
    simp only [LayerwiseEngine.step] at hs
    split at hs
    · next priority hpc =>
      obtain ⟨hgo, hs⟩ := Option.ite_none_left_eq_some.mp hs
      obtain rfl := Option.some.inj hs
      refine h.goTo (by rw [hpc]; simp) (by rw [hpc]; rfl) ?_
      have hready := h.ready
      rw [hpc] at hready
      by_cases hmany : 1 < s.dpSize
      · exact h.room_of_not_waiting fun hwait => hgo ⟨hmany, hwait⟩
      · exact hready hmany
    · cases hs
  | nothing =>
    simp only [LayerwiseEngine.step] at hs
    split at hs
    · next hpc =>
      obtain rfl := Option.some.inj hs
      exact h.goTo (by rw [hpc]; simp) (by rw [hpc]; rfl) trivial
    · cases hs
  | handOver =>
    simp only [LayerwiseEngine.step] at hs
    split at hs
    · next forwardMode hpc =>
      obtain rfl := Option.some.inj hs
      have hready := h.ready
      rw [hpc] at hready
      exact h.goTo (by rw [hpc]; simp) (by rw [hpc]; rfl) ⟨rfl, hready⟩
    · cases hs
  | handOverDummy =>
    simp only [LayerwiseEngine.step] at hs
    split at hs
    · next hpc =>
      obtain rfl := Option.some.inj hs
      exact h.goTo (by rw [hpc]; simp) (by rw [hpc]; rfl) trivial
    · cases hs
  | fetchAdd =>
    simp only [LayerwiseEngine.step] at hs
    split at hs
    · next forwardMode answered hpc =>
      obtain rfl := Option.some.inj hs
      have hready := h.ready
      have hasync := h.asyncBatchNum
      have hfew := h.few
      rw [hpc] at hready hasync hfew
      obtain ⟨rfl, hroom⟩ := hready
      refine ⟨h.batchPnum, h.prefill, h.decode, h.prefill_le, h.decode_le, h.modes, ?_, hfew,
        ⟨rfl, hroom⟩⟩
      simp only [ahead] at hasync ⊢
      omega
    · next answered hpc =>
      obtain rfl := Option.some.inj hs
      exact h.fetchAdd_dummy hpc
    · cases hs
  | addBatchCnt =>
    simp only [LayerwiseEngine.step] at hs
    split at hs
    · next forwardMode answered hpc =>
      obtain rfl := Option.some.inj hs
      have hready := h.ready
      rw [hpc] at hready
      obtain ⟨rfl, -⟩ := hready
      exact h.addBatchCnt hpc
    · cases hs
  | answer batch hasOutputs =>
    obtain ⟨hmem, hs⟩ := Option.ite_none_right_eq_some.mp hs
    obtain ⟨s₁, hhandle, rfl⟩ := Option.map_eq_some_iff.mp hs
    exact h.answer hmem htimely hhandle
  | answerEarly hasOutputs =>
    have hpc : s.pc = .handedOver none false := htimely
    simp only [LayerwiseEngine.step, hpc] at hs
    cases hasOutputs with
    | true => cases hs
    | false =>
      obtain rfl := Option.some.inj hs
      have hasync := h.asyncBatchNum
      have hfew := h.few
      rw [hpc] at hasync hfew
      refine ⟨h.batchPnum, h.prefill, h.decode, h.prefill_le, h.decode_le, h.modes, ?_, hfew,
        trivial⟩
      simp only [ahead] at hasync ⊢
      omega
  | fetchSub =>
    obtain ⟨hpos, hs⟩ := Option.ite_none_right_eq_some.mp hs
    obtain rfl := Option.some.inj hs
    have hasync := h.asyncBatchNum
    have hfew := h.few
    refine ⟨h.batchPnum, h.prefill, h.decode, h.prefill_le, h.decode_le, h.modes, ?_, ?_, ?_⟩
    · dsimp only
      omega
    · dsimp only
      omega
    · exact h.ready

/-- **Every run.** As long as the batches are answered after they have been counted and with
outputs, in whatever order, the counts of the policy are those of the batches, and there is room for
what it is asked to choose. -/
theorem executes_exactly_of_reaches (lwdNextPHeadPrior : Bool) (dpSize : ℕ) (s : LayerwiseEngine)
    (h : Reaches LayerwiseEngine.step Timely (init lwdNextPHeadPrior dpSize) s) : s.Exact :=
  (h.invariant (I := Invariant) (invariant_init _ _) fun _ _ _ hI hgood hs =>
    hI.step hgood hs).exact

/-! ## Two runs -/

/-- A prefill and a decoding are under way, and the decoding is answered first. -/
theorem exists_exact : ∃ s, Reaches LayerwiseEngine.step Timely (init false 1) s ∧
    s.batches = [some .prefill] ∧ s.Exact := by
  obtain ⟨s, hs, hbatches⟩ : ∃ s, Reaches LayerwiseEngine.step Timely (init false 1) s ∧
      s.batches = [some .prefill] :=
    exists_reaches [.pass, .decide false false true, .schedule, .handOver, .fetchAdd, .addBatchCnt,
      .pass, .decide true true false, .schedule, .handOver, .fetchAdd, .addBatchCnt,
      .answer (some .decode) true, .fetchSub] (by decide +kernel)
  exact ⟨s, hs, hbatches, executes_exactly_of_reaches false 1 s hs⟩

/-- A prefill is answered before it is counted. The count stays, and the policy throws when the next
decoding is under way. -/
theorem not_exact_answeredEarly :
    ¬ ∀ (lwdNextPHeadPrior : Bool) (dpSize : ℕ) (s : LayerwiseEngine),
      Reaches LayerwiseEngine.step (fun _ _ => True) (init lwdNextPHeadPrior dpSize) s →
      s.Exact := by
  intro h
  obtain ⟨s, hs, hpc⟩ : ∃ s, Reaches LayerwiseEngine.step (fun _ _ => True) (init false 1) s ∧
      s.pc = .thrown :=
    exists_reaches [.pass, .decide false false true, .schedule, .handOver, .answerEarly true,
      .fetchAdd, .fetchSub, .addBatchCnt, .pass, .decide false true false, .schedule, .handOver,
      .fetchAdd, .addBatchCnt, .pass, .decide false true false] (by decide +kernel)
  exact (h false 1 s hs).apply hpc

end LayerwiseEngine

end MindieLLM
