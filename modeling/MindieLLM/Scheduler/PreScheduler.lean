import MindieLLM.Scheduler.FcfsPolicy
import Mathlib.Data.List.OfFn
import Mathlib.Algebra.Order.Ring.Int

/-!
# Prefill or decode across the data-parallel ranks

Before a round the ranks tell each other what they would do and how many groups they have in their
queues. Each of them then takes the majority of those that have work. The vector that is sent has no
place for the number of swapped groups, so that a rank all of whose groups are swapped out passes
for idle. The two all-gathers are parameters, with what they deliver.

## Main definitions

* `SchedInfo`, `decidePDPriority`: what a rank knows of another one, and the vote
* `AllGather`, `shareSchedInfo`, `decideSynced`: the exchange, and the priority that a rank adopts
* `lead`: the votes for prefill less the others

## Main results

* `decidePDPriority_eq`: the majority of the ranks with work, ties to prefill
* `agrees_iff`: the ranks adopt it if and only if the ranks with swapped groups only do not turn it
-/

namespace MindieLLM

/-- The lengths of the queues in the metric of a scheduler. -/
structure ReqStatistic where
  waitingRequestNum : ℕ
  runningRequestNum : ℕ
  swappedRequestNum : ℕ

namespace PreScheduler

structure SchedInfo where
  pdPriority : PDPriorityType
  waitingSeqGroupNum : ℤ
  runningSeqGroupNum : ℤ
  swapSeqGroupNum : ℤ
  deriving DecidableEq, Repr

/-- The constructor from a metric. -/
def SchedInfo.ofMetric (pdPriority : PDPriorityType) (metric : ReqStatistic) : SchedInfo where
  pdPriority := pdPriority
  waitingSeqGroupNum := metric.waitingRequestNum
  runningSeqGroupNum := metric.runningRequestNum
  swapSeqGroupNum := metric.swappedRequestNum

/-! ## The exchange -/

def priorityToInt : PDPriorityType → ℤ
  | .prefillFirst => 0
  | .decodeFirst => 1
  | .mix => 2

/-- The cast back; the numbers of the three priorities are all that is sent. -/
def priorityOfInt (z : ℤ) : PDPriorityType :=
  if z = 0 then .prefillFirst else if z = 1 then .decodeFirst else .mix

@[simp] theorem priorityOfInt_priorityToInt (p : PDPriorityType) :
    priorityOfInt (priorityToInt p) = p := by
  cases p <;> rfl

/-- The vector that a rank sends. -/
def SchedInfo.sendData (info : SchedInfo) : List ℤ :=
  [priorityToInt info.pdPriority, info.waitingSeqGroupNum, info.runningSeqGroupNum]

/-- The elements that are read from a vector; the others of a new `SchedInfo` are zero. -/
def SchedInfo.ofVector : List ℤ → Option SchedInfo
  | p :: waiting :: running :: _ => some
    { pdPriority := priorityOfInt p
      waitingSeqGroupNum := waiting
      runningSeqGroupNum := running
      swapSeqGroupNum := 0 }
  | _ => none

/-- What arrives of a `SchedInfo` at another rank. -/
def SchedInfo.received (info : SchedInfo) : SchedInfo := { info with swapSeqGroupNum := 0 }

@[simp] theorem ofVector_sendData (info : SchedInfo) :
    SchedInfo.ofVector info.sendData = some info.received := by
  simp [SchedInfo.ofVector, SchedInfo.sendData, SchedInfo.received]

/-- `ThreadGroupCC::AllGather` and `ProcessGroup::AllGather` among `n` ranks, of what the ranks send
to what a rank receives. Both deliver every rank's vector to every rank. -/
structure AllGather (n : ℕ) where
  threads : (Fin n → List ℤ) → Fin n → List (List ℤ)
  processes : (Fin n → List (List ℤ)) → Fin n → Except Exn (List (List (List ℤ)))
  threads_eq : ∀ sent r, threads sent r = List.ofFn sent
  processes_eq : ∀ (sent : Fin n → List ℤ) r,
    processes (fun i => [sent i]) r = .ok [List.ofFn sent]

variable {n : ℕ} (gather : AllGather n)

def shareSchedInfoCrossDP (infos : Fin n → SchedInfo) (dpRank : Fin n) :
    Except Exn (List SchedInfo) :=
  let recvData := gather.threads (fun i => (infos i).sendData) dpRank
  recvData.zipIdx.mapM fun (vector, i) =>
    match SchedInfo.ofVector vector with
    | some info => .ok info
    | none => .error (.runtimeError ("Invalid received data from dpRank " ++ toString i ++
        ": expected 3 elements, got " ++ toString vector.length))

/-- `ShareSchedInfoCrossNode`; whatever is thrown, nothing is known of the ranks. -/
def shareSchedInfoCrossNode (infos : Fin n → SchedInfo) (rank : Fin n) : List SchedInfo :=
  match gather.processes (fun i => [(infos i).sendData]) rank with
  | .ok (output :: _) => (output.mapM SchedInfo.ofVector).getD []
  | .ok [] => []
  | .error _ => []

def shareSchedInfo (enableDistributed : Bool) (infos : Fin n → SchedInfo) (rank : Fin n) :
    Except Exn (List SchedInfo) :=
  if enableDistributed then .ok (shareSchedInfoCrossNode gather infos rank)
  else shareSchedInfoCrossDP gather infos rank

/-- `DecidePDPriority`: ranks without a group have no vote. -/
def decidePDPriority (schedInfos : List SchedInfo) : PDPriorityType :=
  let decideScheduleInfos := schedInfos.filter fun info =>
    info.waitingSeqGroupNum + info.runningSeqGroupNum + info.swapSeqGroupNum ≠ 0
  let numPrefill := decideScheduleInfos.countP fun info => info.pdPriority = .prefillFirst
  if numPrefill ≥ decideScheduleInfos.length - numPrefill then .prefillFirst else .decodeFirst

/-- The end of `Scheduler::DecidePDPriority` on a rank of a node of both stages. -/
def decideSynced (enableDistributed : Bool) (infos : Fin n → SchedInfo) (rank : Fin n) :
    Except Exn PDPriorityType := do
  let globalSchedInfo ← shareSchedInfo gather enableDistributed infos rank
  return decidePDPriority globalSchedInfo

theorem mapM_ofVector (infos : List SchedInfo) :
    (infos.map SchedInfo.sendData).mapM SchedInfo.ofVector =
      some (infos.map SchedInfo.received) := by
  induction infos with
  | nil => rfl
  | cons info infos ih => simp [List.mapM_cons, ih]

theorem mapM_zipIdx_sendData (f : List ℤ × ℕ → Except Exn SchedInfo)
    (hf : ∀ (info : SchedInfo) (i : ℕ), f (info.sendData, i) = .ok info.received)
    (infos : List SchedInfo) (k : ℕ) :
    ((infos.map SchedInfo.sendData).zipIdx k).mapM f =
      .ok (infos.map SchedInfo.received) := by
  induction infos generalizing k with
  | nil => rfl
  | cons info infos ih =>
    rw [List.map_cons, List.zipIdx_cons, List.mapM_cons, hf, ih]
    rfl

/-- Either way the ranks learn the same, and of each rank all but its swapped groups. -/
theorem shareSchedInfo_eq (enableDistributed : Bool) (infos : Fin n → SchedInfo) (rank : Fin n) :
    shareSchedInfo gather enableDistributed infos rank =
      .ok ((List.ofFn infos).map SchedInfo.received) := by
  have hsent : List.ofFn (fun i => (infos i).sendData) =
      (List.ofFn infos).map SchedInfo.sendData := List.ofFn_comp' infos SchedInfo.sendData
  cases enableDistributed with
  | true =>
    simp only [shareSchedInfo, if_true, shareSchedInfoCrossNode, gather.processes_eq, hsent,
      mapM_ofVector, Option.getD_some]
  | false =>
    simp only [shareSchedInfo, Bool.false_eq_true, if_false, shareSchedInfoCrossDP,
      gather.threads_eq, hsent]
    exact mapM_zipIdx_sendData _ (fun info i => by simp) _ 0

theorem decideSynced_eq (enableDistributed : Bool) (infos : Fin n → SchedInfo) (rank : Fin n) :
    decideSynced gather enableDistributed infos rank =
      .ok (decidePDPriority ((List.ofFn infos).map SchedInfo.received)) := by
  rw [decideSynced, shareSchedInfo_eq]
  rfl

/-! ## The vote -/

/-- How many more votes there are for prefill than not. -/
def lead (infos : List SchedInfo) : ℤ :=
  (infos.map fun info => if info.pdPriority = .prefillFirst then 1 else -1).sum

@[simp] theorem lead_cons (info : SchedInfo) (infos : List SchedInfo) :
    lead (info :: infos) = (if info.pdPriority = .prefillFirst then 1 else -1) + lead infos := rfl

theorem lead_map_received (infos : List SchedInfo) :
    lead (infos.map SchedInfo.received) = lead infos := by
  rw [lead, List.map_map]
  rfl

theorem lead_eq (infos : List SchedInfo) :
    lead infos = 2 * (infos.countP fun info => info.pdPriority = .prefillFirst : ℕ) -
      (infos.length : ℤ) := by
  induction infos with
  | nil => rfl
  | cons info infos ih =>
    rw [lead_cons, ih, List.countP_cons, List.length_cons]
    split_ifs <;> simp_all <;> omega

/-- A rank with some group. -/
def SchedInfo.busy (info : SchedInfo) : Bool :=
  info.waitingSeqGroupNum ≠ 0 ∨ info.runningSeqGroupNum ≠ 0 ∨ info.swapSeqGroupNum ≠ 0

/-- A rank with a group that is waiting or running. -/
def SchedInfo.seen (info : SchedInfo) : Bool :=
  info.waitingSeqGroupNum ≠ 0 ∨ info.runningSeqGroupNum ≠ 0

/-- A rank all of whose groups are swapped out. -/
def SchedInfo.swappedOnly (info : SchedInfo) : Bool :=
  info.waitingSeqGroupNum = 0 ∧ info.runningSeqGroupNum = 0 ∧ info.swapSeqGroupNum ≠ 0

/-- No queue has a negative length. -/
def SchedInfo.Counts (info : SchedInfo) : Prop :=
  0 ≤ info.waitingSeqGroupNum ∧ 0 ≤ info.runningSeqGroupNum ∧ 0 ≤ info.swapSeqGroupNum

theorem counts_ofMetric (p : PDPriorityType) (metric : ReqStatistic) :
    (SchedInfo.ofMetric p metric).Counts :=
  ⟨Int.natCast_nonneg _, Int.natCast_nonneg _, Int.natCast_nonneg _⟩

theorem SchedInfo.Counts.received {info : SchedInfo} (h : info.Counts) : info.received.Counts :=
  ⟨h.1, h.2.1, le_rfl⟩

theorem SchedInfo.busy_received (info : SchedInfo) : info.received.busy = info.seen := by
  simp [SchedInfo.busy, SchedInfo.seen, SchedInfo.received]

/-- The majority of the ranks with work decides, and ties go to prefill. -/
theorem decidePDPriority_eq {infos : List SchedInfo} (h : ∀ info ∈ infos, info.Counts) :
    decidePDPriority infos =
      if 0 ≤ lead (infos.filter SchedInfo.busy) then .prefillFirst else .decodeFirst := by
  have hfilter : (infos.filter fun info =>
      info.waitingSeqGroupNum + info.runningSeqGroupNum + info.swapSeqGroupNum ≠ 0) =
        infos.filter SchedInfo.busy := by
    refine List.filter_congr fun info hinfo => ?_
    obtain ⟨hwaiting, hrunning, hswap⟩ := h info hinfo
    simp only [SchedInfo.busy, decide_eq_decide]
    omega
  have hle := List.countP_le_length (l := infos.filter SchedInfo.busy)
    (p := fun info => info.pdPriority = .prefillFirst)
  simp only [decidePDPriority, hfilter, lead_eq]
  split_ifs <;> first | rfl | omega

theorem decidePDPriority_received {infos : List SchedInfo} (h : ∀ info ∈ infos, info.Counts) :
    decidePDPriority (infos.map SchedInfo.received) =
      if 0 ≤ lead (infos.filter SchedInfo.seen) then .prefillFirst else .decodeFirst := by
  have hcounts : ∀ info ∈ infos.map SchedInfo.received, info.Counts := by
    intro info hinfo
    obtain ⟨info', hinfo', rfl⟩ := List.mem_map.mp hinfo
    exact (h info' hinfo').received
  have hfilter : (infos.map SchedInfo.received).filter SchedInfo.busy =
      (infos.filter SchedInfo.seen).map SchedInfo.received := by
    rw [List.filter_map]
    congr 1
    exact List.filter_congr fun info _ => info.busy_received
  rw [decidePDPriority_eq hcounts, hfilter, lead_map_received]

/-- A rank with work has groups that are waiting or running, or only swapped ones. -/
theorem lead_busy (infos : List SchedInfo) :
    lead (infos.filter SchedInfo.busy) =
      lead (infos.filter SchedInfo.seen) + lead (infos.filter SchedInfo.swappedOnly) := by
  induction infos with
  | nil => rfl
  | cons info infos ih =>
    by_cases hseen : info.seen
    · have hbusy : info.busy := by
        simp only [SchedInfo.seen, SchedInfo.busy, decide_eq_true_eq] at hseen ⊢
        omega
      have hswapped : ¬info.swappedOnly := by
        simp only [SchedInfo.seen, SchedInfo.swappedOnly, decide_eq_true_eq] at hseen ⊢
        omega
      rw [List.filter_cons_of_pos hbusy, List.filter_cons_of_pos hseen,
        List.filter_cons_of_neg hswapped, lead_cons, lead_cons, ih, add_assoc]
    · have hbusy : info.busy = info.swappedOnly := by
        simp only [SchedInfo.seen, decide_eq_true_eq] at hseen
        simp only [SchedInfo.busy, SchedInfo.swappedOnly, decide_eq_decide]
        omega
      by_cases hswapped : info.swappedOnly
      · rw [List.filter_cons_of_pos (hbusy.trans hswapped), List.filter_cons_of_neg hseen,
          List.filter_cons_of_pos hswapped, lead_cons, lead_cons, ih, add_left_comm]
      · rw [List.filter_cons_of_neg (by rw [hbusy]; exact hswapped), List.filter_cons_of_neg hseen,
          List.filter_cons_of_neg hswapped, ih]

/-! ## Agreement -/

/-- The ranks adopt one priority, and it is the one that the vote on what they really have gives.
With no group waiting anywhere, and work only on ranks that are for decode, that is not prefill. -/
structure Agrees (enableDistributed : Bool) (infos : Fin n → SchedInfo) : Prop where
  adopts : ∀ r, decideSynced gather enableDistributed infos r =
    .ok (decidePDPriority (List.ofFn infos))
  decodes : (∀ i, (infos i).waitingSeqGroupNum = 0) → (∃ i, (infos i).busy) →
    (∀ i, (infos i).busy → (infos i).pdPriority = .decodeFirst) →
    ∀ r, decideSynced gather enableDistributed infos r ≠ .ok .prefillFirst

/-- If all ranks with work are for decode, and there is one, then the vote is for decode. -/
theorem decidePDPriority_decode {infos : List SchedInfo} (hcounts : ∀ info ∈ infos, info.Counts)
    (hbusy : ∃ info ∈ infos, info.busy)
    (hdecode : ∀ info ∈ infos, info.busy → info.pdPriority = .decodeFirst) :
    decidePDPriority infos = .decodeFirst := by
  have hnone : (infos.filter SchedInfo.busy).countP
      (fun info => info.pdPriority = .prefillFirst) = 0 := by
    rw [List.countP_eq_zero]
    intro info hinfo
    obtain ⟨hmem, hinfo⟩ := List.mem_filter.mp hinfo
    simp [hdecode info hmem hinfo]
  have hlength : 0 < (infos.filter SchedInfo.busy).length := by
    obtain ⟨info, hmem, hinfo⟩ := hbusy
    exact List.length_pos_of_mem (List.mem_filter.mpr ⟨hmem, hinfo⟩)
  rw [decidePDPriority_eq hcounts, lead_eq, hnone, if_neg (by omega)]

theorem agrees_iff_of_counts (enableDistributed : Bool) {infos : Fin n → SchedInfo}
    (hcounts : ∀ info ∈ List.ofFn infos, info.Counts) :
    Agrees gather enableDistributed infos ↔
      (0 ≤ lead ((List.ofFn infos).filter SchedInfo.seen) ↔
        0 ≤ lead ((List.ofFn infos).filter SchedInfo.seen) +
          lead ((List.ofFn infos).filter SchedInfo.swappedOnly)) := by
  have hreceived := decidePDPriority_received hcounts
  have htrue := decidePDPriority_eq hcounts
  rw [lead_busy] at htrue
  constructor
  · intro h
    cases n with
    | zero => simp
    | succ n =>
      have hadopts := h.adopts 0
      rw [decideSynced_eq, hreceived, htrue, Except.ok.injEq] at hadopts
      by_cases hseen : 0 ≤ lead ((List.ofFn infos).filter SchedInfo.seen)
      · rw [if_pos hseen] at hadopts
        refine ⟨fun _ => ?_, fun _ => hseen⟩
        by_contra hbusy
        rw [if_neg hbusy] at hadopts
        cases hadopts
      · rw [if_neg hseen] at hadopts
        refine ⟨fun h => absurd h hseen, fun hbusy => ?_⟩
        rw [if_pos hbusy] at hadopts
        cases hadopts
  · intro h
    have hadopts : ∀ r, decideSynced gather enableDistributed infos r =
        .ok (decidePDPriority (List.ofFn infos)) := by
      intro r
      rw [decideSynced_eq, hreceived, htrue]
      simp only [h]
    refine ⟨hadopts, fun _ ⟨i, hi⟩ hdecode r hprefill => ?_⟩
    rw [hadopts r, decidePDPriority_decode hcounts] at hprefill
    · cases hprefill
    · exact ⟨infos i, (List.mem_ofFn' _ _).mpr ⟨i, rfl⟩, hi⟩
    · intro info hinfo
      obtain ⟨i, rfl⟩ := (List.mem_ofFn' _ _).mp hinfo
      exact hdecode i

/-- **When the ranks agree.** The ranks all adopt the vote on what they really have if and only if
the ranks all of whose groups are swapped out do not turn the vote of the others. -/
theorem agrees_iff (enableDistributed : Bool) (priority : Fin n → PDPriorityType)
    (metric : Fin n → ReqStatistic) :
    Agrees gather enableDistributed (fun i => .ofMetric (priority i) (metric i)) ↔
      (0 ≤ lead ((List.ofFn fun i => SchedInfo.ofMetric (priority i) (metric i)).filter
          SchedInfo.seen) ↔
        0 ≤ lead ((List.ofFn fun i => SchedInfo.ofMetric (priority i) (metric i)).filter
            SchedInfo.seen) +
          lead ((List.ofFn fun i => SchedInfo.ofMetric (priority i) (metric i)).filter
            SchedInfo.swappedOnly)) := by
  refine agrees_iff_of_counts gather enableDistributed fun info hinfo => ?_
  obtain ⟨i, rfl⟩ := (List.mem_ofFn' _ _).mp hinfo
  exact counts_ofMetric _ _

/-- All-gathers that deliver at once. -/
def AllGather.direct (n : ℕ) : AllGather n where
  threads sent _ := List.ofFn sent
  processes sent r := .ok ((sent r).map fun _ => (List.ofFn sent).flatten)
  threads_eq _ _ := rfl
  processes_eq sent r := by
    have hsent : (List.ofFn fun i => [sent i]) = (List.ofFn sent).map fun vector => [vector] :=
      List.ofFn_comp' sent fun vector => [vector]
    rw [hsent, ← List.flatMap_def, List.flatMap_singleton']
    rfl

/-- Two ranks have no group but swapped ones, and both are for decode: both choose prefill. -/
theorem not_agrees : ¬∀ (n : ℕ) (gather : AllGather n) (enableDistributed : Bool)
    (priority : Fin n → PDPriorityType) (metric : Fin n → ReqStatistic),
    Agrees gather enableDistributed (fun i => .ofMetric (priority i) (metric i)) := by
  intro h
  have h := (h 2 (.direct 2) false (fun _ => .decodeFirst) fun _ => ⟨0, 0, 1⟩).adopts 0
  rw [decideSynced_eq, Except.ok.injEq] at h
  exact absurd h (by decide)

end PreScheduler

end MindieLLM
