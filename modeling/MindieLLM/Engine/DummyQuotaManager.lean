import MindieLLM.Program.Reaches
import Mathlib.Data.List.ReduceOption

/-!
# Quotas of dummy batches

The processes of a data-parallel group must all take part in a batch: when one of them has requests,
the others run dummy batches. Each has a quota of batches. Its scheduling thread takes from the
quota and pushes a batch in a queue; a second thread matches the batches of all processes with one
another, by an all-gather, and restores the quotas when there was a request. When nothing is left of
the quotas, an all-gather of another kind waits for a request.

Each step below is one access to the shared data of a process, or the all-gather, which happens when
all processes are at one.

## Main definitions

* `DummyQuotaManager`, `DummyQuotaManager.step`: a process, and the atomic steps of all
* `DummyQuotaManager.Agreement`: the processes are at the same all-gather, with the same quotas
* `DummyQuotaManager.undisturbed`: the quota is not taken between the accesses of a decision

## Main results

* `DummyQuotaManager.agreement_of_reaches`: undisturbed processes agree
* `DummyQuotaManager.not_agreement`: processes can be at different all-gathers
-/

namespace MindieLLM

open Program

/-- What a process sends in an all-gather. -/
structure BatchInfo where
  iAmDummy : Bool
  quota : Nat
  dummyBatchSync : Bool
  queueSize : Nat
  deriving DecidableEq, Repr

/-- What it learns. After a stop every batch is accompanied by dummies. -/
structure Gathered where
  allDummy : Bool
  maxQuota : Nat
  stop : Bool
  deriving DecidableEq, Repr

/-- Where the scheduling thread is. -/
inductive QuotaPc
  | idle
  /-- `AcquireQuota` -/
  | start (isDummy : Bool)
  | reqLoad
  | reqStop
  /-- `Wakeup`, and whether a request waits for it. -/
  | wakeupEmpty (waits : Bool)
  | wakeupPush (waits : Bool)
  | dummyLoad
  | push (isDummy : Bool)
  | fetchSub
  deriving DecidableEq, Repr

/-- Where `AcrossProcSyncThreadEntry_` is. -/
inductive AcrossProcSyncPc
  | top
  /-- The three reads of `needDummySync`. -/
  | load
  | size
  | loadAgain
  /-- `QuotaAllGather_` -/
  | pull
  /-- `WakeupAllGather_` -/
  | empty
  | drain
  /-- `AllGather_` -/
  | messageQuota (iAmDummy dummyBatchSync : Bool)
  | messageSize (iAmDummy dummyBatchSync : Bool) (quota : Nat)
  | allGather (info : BatchInfo)
  | gathered (g : Gathered)
  | storeStop (g : Gathered)
  | fill (g : Gathered)
  | exited
  deriving DecidableEq, Repr

structure DummyQuotaManager where
  initQuota : Nat
  quotaLeft : Nat
  threadNeedStop : Bool := false
  dummyBatchQueue : List Bool := []
  reqCommingQueue : List Bool := []
  scheduler : QuotaPc := .idle
  sync : AcrossProcSyncPc := .top
  /-- All that has been added to the quota. -/
  granted : Nat
  deriving DecidableEq, Repr

namespace Gathered

/-- `MAX_ALLOWED_DUMMY_QUEUE_PENDINGS` -/
def maxPendings : Nat := 1000

/-- The loop of `AllGather_`. -/
def ofInfos : List BatchInfo → Option Bool → Nat → Gathered → Gathered
  | [], _, _, g => g
  | b :: rest, preGatherType, maxSize, g =>
    let maxSize := max maxSize b.queueSize
    let g := { g with allDummy := g.allDummy && b.iAmDummy, maxQuota := max g.maxQuota b.quota }
    if (preGatherType ≠ none ∧ preGatherType ≠ some b.dummyBatchSync) ∨ maxPendings < maxSize then
      { g with stop := true }
    else ofInfos rest (some b.dummyBatchSync) maxSize g

def quotaToFill (g : Gathered) (initQuota : Nat) : Nat :=
  if g.allDummy then 0 else initQuota - g.maxQuota

end Gathered

namespace AcrossProcSyncPc

/-- What is sent. -/
def info : AcrossProcSyncPc → Option BatchInfo
  | .allGather b => some b
  | _ => none

/-- The all-gather that has been chosen. -/
def dummyBatchSync : AcrossProcSyncPc → Option Bool
  | .pull => some true
  | .empty | .drain => some false
  | .messageQuota _ b | .messageSize _ b _ => some b
  | .allGather b => some b.dummyBatchSync
  | _ => none

/-- The number of batches that have been pulled and not matched yet. -/
def pulled : AcrossProcSyncPc → Nat
  | .messageQuota _ b | .messageSize _ b _ => b.toNat
  | .allGather b => b.dummyBatchSync.toNat
  | _ => 0

/-- What will be added to the quota. -/
def due (initQuota : Nat) : AcrossProcSyncPc → Nat
  | .gathered g | .storeStop g | .fill g => g.quotaToFill initQuota
  | _ => 0

/-- An all-gather has told something that has not been followed yet. -/
def isSettled : AcrossProcSyncPc → Bool
  | .gathered _ | .storeStop _ | .fill _ => false
  | _ => true

/-- No all-gather has told to stop. -/
def isGoing : AcrossProcSyncPc → Bool
  | .gathered g => !g.stop
  | .storeStop _ | .fill _ | .exited => false
  | _ => true

end AcrossProcSyncPc

/-- The number of batches that have been pushed without their quota. -/
def QuotaPc.pushed : QuotaPc → Nat
  | .fetchSub => 1
  | _ => 0

/-- The quota is taken next, or after the push. -/
def QuotaPc.takes : QuotaPc → Bool
  | .push _ | .fetchSub => true
  | _ => false

namespace DummyQuotaManager

/-- A step of one of the processes, or the all-gather. -/
inductive Op (n : Nat)
  | acquireQuota (i : Fin n) (isDummy : Bool)
  | wakeup (i : Fin n)
  | scheduler (i : Fin n)
  | sync (i : Fin n)
  | allGather

variable (m : DummyQuotaManager)

def init (initQuota : Nat) : DummyQuotaManager where
  initQuota := initQuota
  quotaLeft := initQuota
  granted := initQuota

/-- The scheduling thread. -/
def schedulerStep : Option DummyQuotaManager :=
  match m.scheduler with
  | .idle => none
  | .start isDummy =>
    if m.threadNeedStop then some { m with scheduler := .idle }
    else some { m with scheduler := if isDummy then .dummyLoad else .reqLoad }
  | .reqLoad => some { m with scheduler := if m.quotaLeft = 0 then .reqStop else .push false }
  | .reqStop =>
    some { m with scheduler := if m.threadNeedStop then .push false else .wakeupEmpty true }
  | .wakeupEmpty waits =>
    some { m with scheduler :=
      if m.reqCommingQueue = [] then .wakeupPush waits else if waits then .reqLoad else .idle }
  | .wakeupPush waits =>
    some { m with
      reqCommingQueue := m.reqCommingQueue ++ [true]
      scheduler := if waits then .reqLoad else .idle }
  | .dummyLoad => some { m with scheduler := if m.quotaLeft = 0 then .idle else .push true }
  | .push isDummy =>
    some { m with
      dummyBatchQueue := m.dummyBatchQueue ++ [isDummy]
      scheduler := .fetchSub }
  | .fetchSub =>
    some { m with
      quotaLeft := m.quotaLeft - 1
      scheduler := .idle }

/-- The quota is restored. -/
def restore (g : Gathered) : DummyQuotaManager :=
  { m with
    quotaLeft := m.quotaLeft + g.quotaToFill m.initQuota
    granted := m.granted + g.quotaToFill m.initQuota
    sync := .top }

/-- The thread that matches batches, up to an all-gather and after it. -/
def syncStep : Option DummyQuotaManager :=
  match m.sync with
  | .top => some { m with sync := if m.threadNeedStop then .exited else .load }
  | .load => some { m with sync := if m.quotaLeft = 0 then .size else .loadAgain }
  | .size => some { m with sync := if m.dummyBatchQueue = [] then .loadAgain else .pull }
  | .loadAgain => some { m with sync := if m.quotaLeft = 0 then .empty else .pull }
  | .pull =>
    -- it waits until there is something
    match m.dummyBatchQueue with
    | [] => none
    | b :: rest =>
      some { m with
        dummyBatchQueue := rest
        sync := .messageQuota b true }
  | .empty =>
    some { m with sync := if m.reqCommingQueue = [] then .messageQuota true false else .drain }
  | .drain =>
    match m.reqCommingQueue with
    | [] => some { m with sync := .messageQuota false false }
    | _ :: rest => some { m with reqCommingQueue := rest }
  | .messageQuota d b => some { m with sync := .messageSize d b m.quotaLeft }
  | .messageSize d b q => some { m with sync := .allGather ⟨d, q, b, m.dummyBatchQueue.length⟩ }
  | .allGather _ => none
  | .gathered g =>
    if g.stop then
      some { m with
        quotaLeft := m.initQuota
        sync := .storeStop g }
    else some (m.restore g)
  | .storeStop g =>
    some { m with
      threadNeedStop := true
      sync := .fill g }
  | .fill g => some (m.restore g)
  | .exited => none

/-- What is true of the process is decided: when `quotaLeft_` is read for the last time in
`needDummySync`, it is zero only with an empty queue, and it is not the last of the quota, for which
the batch has been pulled and which is taken next. -/
def undisturbed : Bool :=
  match m.sync with
  | .loadAgain =>
    if m.quotaLeft = 0 then m.dummyBatchQueue = []
    else ¬(m.scheduler = .fetchSub ∧ m.quotaLeft = 1 ∧ m.dummyBatchQueue = [])
  | _ => true

variable {n : Nat} (s : Fin n → DummyQuotaManager)

/-- What all processes learn. -/
def gather : Gathered :=
  .ofInfos (List.ofFn fun i => (s i).sync.info).reduceOption none 0 ⟨true, 0, false⟩

def step : Op n → Option (Fin n → DummyQuotaManager)
  | .acquireQuota i isDummy =>
    if (s i).scheduler = .idle then
      some (Function.update s i { s i with scheduler := .start isDummy })
    else none
  | .wakeup i =>
    if (s i).scheduler = .idle then
      some (Function.update s i { s i with scheduler := .wakeupEmpty false })
    else none
  | .scheduler i => (s i).schedulerStep.map (Function.update s i)
  | .sync i => (s i).syncStep.map (Function.update s i)
  | .allGather =>
    if ∀ i, (s i).sync.info.isSome then
      some fun i => { s i with sync := .gathered (gather s) }
    else none

/-! ## Agreement -/

/-- Between two all-gathers, and so in every round, the processes agree. -/
structure Agreement (s : Fin n → DummyQuotaManager) : Prop where
  /-- Those that have chosen an all-gather have chosen the same. -/
  sameBranch : ∀ i j b c, (s i).sync.dummyBatchSync = some b →
    (s j).sync.dummyBatchSync = some c → b = c
  granted : ∀ i j, (s i).sync.isSettled → (s j).sync.isSettled → (s i).granted = (s j).granted
  /-- Who waits for a batch has one, or has a quota for it. -/
  woken : ∀ i, (s i).sync = .pull → (s i).dummyBatchQueue ≠ [] ∨ (s i).quotaLeft ≠ 0

def Undisturbed (s : Fin n → DummyQuotaManager) : Op n → Prop
  | .sync i => (s i).undisturbed
  | _ => True

instance (s : Fin n → DummyQuotaManager) (op : Op n) : Decidable (Undisturbed s op) :=
  match op with
  | .sync i => inferInstanceAs (Decidable ((s i).undisturbed = true))
  | .acquireQuota _ _ | .wakeup _ | .scheduler _ | .allGather => .isTrue trivial

/-! ## The books of a process -/

section Books

variable {m m' : DummyQuotaManager} {initQuota total matched : Nat}

/-- A process in a round, after `matched` batches and with `total` granted. -/
structure Balanced (initQuota total matched : Nat) (m : DummyQuotaManager) : Prop where
  fromInit : m.initQuota = initQuota
  /-- What is left, and what waits to be matched, are what has been granted and not matched. -/
  account : m.quotaLeft + m.dummyBatchQueue.length + m.sync.pulled + matched =
    m.granted + m.scheduler.pushed
  awaited : m.granted + m.sync.due initQuota = total
  quota : m.scheduler.takes → m.quotaLeft ≠ 0
  empty : m.sync = .size → m.quotaLeft = 0
  going : m.threadNeedStop = false ∧ m.sync.isGoing
  /-- What has been chosen follows from what is left to be matched. -/
  chosen : ∀ b, m.sync.dummyBatchSync = some b → (b = true ↔ total ≠ matched)

attribute [local grind] QuotaPc.takes QuotaPc.pushed AcrossProcSyncPc.pulled AcrossProcSyncPc.due
  AcrossProcSyncPc.isGoing AcrossProcSyncPc.dummyBatchSync

theorem balanced_init : Balanced initQuota initQuota 0 (init initQuota) := by
  constructor <;> simp [init, AcrossProcSyncPc.pulled, AcrossProcSyncPc.due, QuotaPc.pushed,
    QuotaPc.takes, AcrossProcSyncPc.isGoing, AcrossProcSyncPc.dummyBatchSync]

/-- A step of the scheduling thread that only reads. -/
theorem Balanced.scheduler (h : Balanced initQuota total matched m) {pc : QuotaPc}
    (hpushed : pc.pushed = m.scheduler.pushed) (htakes : pc.takes → m.quotaLeft ≠ 0) :
    Balanced initQuota total matched { m with scheduler := pc } :=
  ⟨h.fromInit, by simpa only [hpushed] using h.account, h.awaited, htakes, h.empty, h.going,
    h.chosen⟩

theorem Balanced.acquireQuota (h : Balanced initQuota total matched m)
    (hidle : m.scheduler = .idle) (isDummy : Bool) :
    Balanced initQuota total matched { m with scheduler := .start isDummy } :=
  h.scheduler (by rw [hidle]; rfl) nofun

theorem Balanced.wakeup (h : Balanced initQuota total matched m) (hidle : m.scheduler = .idle) :
    Balanced initQuota total matched { m with scheduler := .wakeupEmpty false } :=
  h.scheduler (by rw [hidle]; rfl) nofun

theorem Balanced.push (h : Balanced initQuota total matched m) {isDummy : Bool}
    (hpc : m.scheduler = .push isDummy) :
    Balanced initQuota total matched
      { m with dummyBatchQueue := m.dummyBatchQueue ++ [isDummy], scheduler := .fetchSub } := by
  refine ⟨h.fromInit, ?_, h.awaited, fun _ => h.quota (by rw [hpc]; rfl), h.empty, h.going,
    h.chosen⟩
  have haccount := h.account
  rw [hpc] at haccount
  simp only [QuotaPc.pushed, List.length_append, List.length_singleton] at haccount ⊢
  omega

theorem Balanced.fetchSub (h : Balanced initQuota total matched m)
    (hpc : m.scheduler = .fetchSub) :
    Balanced initQuota total matched
      { m with quotaLeft := m.quotaLeft - 1, scheduler := .idle } := by
  have hpos := h.quota (by rw [hpc]; rfl)
  refine ⟨h.fromInit, ?_, h.awaited, nofun, fun hsize => ?_, h.going, h.chosen⟩
  · have haccount := h.account
    rw [hpc] at haccount
    simp only [QuotaPc.pushed] at haccount ⊢
    omega
  · rw [h.empty hsize]

theorem Balanced.schedulerStep (h : Balanced initQuota total matched m)
    (hs : m.schedulerStep = some m') : Balanced initQuota total matched m' := by
  have hgo : ¬(m.threadNeedStop = true) := Bool.not_eq_true _ ▸ h.going.1
  unfold DummyQuotaManager.schedulerStep at hs
  cases hpc : m.scheduler with
  | idle => simp [hpc] at hs
  | start isDummy =>
    simp only [hpc, if_neg hgo, Option.some.injEq] at hs
    subst hs
    exact h.scheduler (by rw [hpc]; cases isDummy <;> rfl) (by cases isDummy <;> nofun)
  | reqLoad =>
    simp only [hpc, Option.some.injEq] at hs
    subst hs
    by_cases hzero : m.quotaLeft = 0
    · rw [if_pos hzero]
      exact h.scheduler (by rw [hpc]; rfl) nofun
    · rw [if_neg hzero]
      exact h.scheduler (by rw [hpc]; rfl) fun _ => hzero
  | reqStop =>
    simp only [hpc, if_neg hgo, Option.some.injEq] at hs
    subst hs
    exact h.scheduler (by rw [hpc]; rfl) nofun
  | wakeupEmpty waits =>
    simp only [hpc, Option.some.injEq] at hs
    subst hs
    split
    · exact h.scheduler (by rw [hpc]; rfl) nofun
    · exact h.scheduler (by rw [hpc]; cases waits <;> rfl) (by cases waits <;> nofun)
  | wakeupPush waits =>
    simp only [hpc, Option.some.injEq] at hs
    subst hs
    have hread : Balanced initQuota total matched
        { m with scheduler := if waits then .reqLoad else .idle } :=
      h.scheduler (by rw [hpc]; cases waits <;> rfl) (by cases waits <;> nofun)
    exact ⟨hread.fromInit, hread.account, hread.awaited, hread.quota, hread.empty, hread.going,
      hread.chosen⟩
  | dummyLoad =>
    simp only [hpc, Option.some.injEq] at hs
    subst hs
    by_cases hzero : m.quotaLeft = 0
    · rw [if_pos hzero]
      exact h.scheduler (by rw [hpc]; rfl) nofun
    · rw [if_neg hzero]
      exact h.scheduler (by rw [hpc]; rfl) fun _ => hzero
  | push isDummy =>
    simp only [hpc, Option.some.injEq] at hs
    subst hs
    exact h.push hpc
  | fetchSub =>
    simp only [hpc, Option.some.injEq] at hs
    subst hs
    exact h.fetchSub hpc

/-- What is left of the quotas, and what waits in the queue. -/
theorem Balanced.unmatched (h : Balanced initQuota total matched m)
    (hsync : m.sync = .size ∨ m.sync = .loadAgain ∨ m.sync = .pull) :
    m.quotaLeft + m.dummyBatchQueue.length + matched = total + m.scheduler.pushed := by
  cases h
  grind

/-- A step that only reads, of the thread that matches batches. -/
theorem Balanced.sync (h : Balanced initQuota total matched m) {pc : AcrossProcSyncPc}
    (hpulled : pc.pulled = m.sync.pulled) (hdue : pc.due initQuota = m.sync.due initQuota)
    (hempty : pc = .size → m.quotaLeft = 0) (hgoing : pc.isGoing)
    (hchosen : ∀ b, pc.dummyBatchSync = some b → (b = true ↔ total ≠ matched)) :
    Balanced initQuota total matched { m with sync := pc } :=
  ⟨h.fromInit, by simpa only [hpulled] using h.account, by simpa only [hdue] using h.awaited,
    h.quota, hempty, ⟨h.going.1, hgoing⟩, hchosen⟩

/-- A decision that is read off the books. -/
theorem Balanced.choose (h : Balanced initQuota total matched m)
    (hsync : m.sync = .size ∨ m.sync = .loadAgain) {pc : AcrossProcSyncPc}
    (hpc : pc = .pull ∧ total ≠ matched ∨ pc = .empty ∧ total = matched) :
    Balanced initQuota total matched { m with sync := pc } := by
  have hpulled : m.sync.pulled = 0 := by rcases hsync with hsync | hsync <;> rw [hsync] <;> rfl
  have hdue : m.sync.due initQuota = 0 := by rcases hsync with hsync | hsync <;> rw [hsync] <;> rfl
  obtain ⟨rfl, hne⟩ | ⟨rfl, heq⟩ := hpc
  · refine h.sync hpulled.symm hdue.symm nofun rfl fun b hb => ?_
    obtain rfl := Option.some.inj hb
    exact iff_of_true rfl hne
  · refine h.sync hpulled.symm hdue.symm nofun rfl fun b hb => ?_
    obtain rfl := Option.some.inj hb
    exact iff_of_false nofun (not_not.mpr heq)

/-- The first batch of the queue is pulled. -/
theorem Balanced.pull (h : Balanced initQuota total matched m) (hpc : m.sync = .pull) {b : Bool}
    {rest : List Bool} (hqueue : m.dummyBatchQueue = b :: rest) :
    Balanced initQuota total matched
      { m with dummyBatchQueue := rest, sync := .messageQuota b true } := by
  have haccount := h.account
  have hdue := h.awaited
  rw [hpc] at haccount hdue
  rw [hqueue] at haccount
  refine ⟨h.fromInit, ?_, hdue, h.quota, nofun, ⟨h.going.1, rfl⟩, fun c hc => ?_⟩
  · simp only [AcrossProcSyncPc.pulled, List.length_cons, Bool.toNat_true] at haccount ⊢
    omega
  · exact h.chosen c (by rw [hpc]; exact hc)

/-- The quota is restored by what the all-gather has told. -/
theorem Balanced.restore (h : Balanced initQuota total matched m) {g : Gathered}
    (hpc : m.sync = .gathered g) : Balanced initQuota total matched (m.restore g) := by
  have haccount := h.account
  have hdue := h.awaited
  rw [hpc] at haccount hdue
  simp only [AcrossProcSyncPc.pulled, AcrossProcSyncPc.due] at haccount hdue
  refine ⟨h.fromInit, ?_, ?_, fun htakes => ?_, nofun, ⟨h.going.1, rfl⟩, nofun⟩
  · simp only [DummyQuotaManager.restore, AcrossProcSyncPc.pulled]
    omega
  · simpa only [DummyQuotaManager.restore, h.fromInit, AcrossProcSyncPc.due,
      Nat.add_zero] using hdue
  · have hpos := h.quota htakes
    simp only [DummyQuotaManager.restore]
    omega

/-- `needDummySync`, after it has read that nothing is left of the quota. -/
theorem Balanced.size (h : Balanced initQuota total matched m) (hpc : m.sync = .size) :
    Balanced initQuota total matched
      { m with sync := if m.dummyBatchQueue = [] then .loadAgain else .pull } := by
  -- the quota is zero, so that nothing is pushed before the quota is restored
  have hzero := h.empty hpc
  have hleft := h.unmatched (.inl hpc)
  split
  · exact h.sync (by rw [hpc]; rfl) (by rw [hpc]; rfl) nofun rfl nofun
  · next hqueue =>
    have hpos := List.length_pos_iff.mpr hqueue
    have hpushed : m.scheduler.pushed = 0 := by
      have hquota := h.quota
      grind
    exact h.choose (.inl hpc) (.inl ⟨rfl, by omega⟩)

/-- The last read of `needDummySync`. -/
theorem Balanced.loadAgain (h : Balanced initQuota total matched m) (hpc : m.sync = .loadAgain)
    (hsafe : m.undisturbed) :
    Balanced initQuota total matched
      { m with sync := if m.quotaLeft = 0 then .empty else .pull } := by
  have hquota := h.quota
  have hleft := h.unmatched (.inr (.inl hpc))
  simp only [undisturbed, hpc] at hsafe
  split at hsafe
  · next hzero =>
    have hpushed : m.scheduler.pushed = 0 := by grind
    have hqueue : m.dummyBatchQueue = [] := of_decide_eq_true hsafe
    rw [if_pos hzero]
    rw [hzero, hqueue, hpushed] at hleft
    exact h.choose (.inr hpc) (.inr ⟨rfl, by simpa using hleft.symm⟩)
  · next hpos =>
    rw [if_neg hpos]
    refine h.choose (.inr hpc) (.inl ⟨rfl, ?_⟩)
    -- a batch that has been pushed without its quota is not the last
    have hlast : m.scheduler.pushed < m.quotaLeft + m.dummyBatchQueue.length := by
      have hsub : ¬(m.scheduler = .fetchSub ∧ m.quotaLeft = 1 ∧ m.dummyBatchQueue = []) :=
        of_decide_eq_true hsafe
      cases hsched : m.scheduler with
      | fetchSub =>
        have hone : m.quotaLeft ≠ 1 ∨ m.dummyBatchQueue.length ≠ 0 := by
          rw [← not_and_or]
          rintro ⟨hone, hnil⟩
          exact hsub ⟨hsched, hone, List.length_eq_zero_iff.mp hnil⟩
        simp only [QuotaPc.pushed]
        omega
      | _ =>
        simp only [QuotaPc.pushed]
        omega
    omega

/-- Between the all-gathers. -/
theorem Balanced.syncStep (h : Balanced initQuota total matched m) (hsafe : m.undisturbed)
    (hs : m.syncStep = some m') : Balanced initQuota total matched m' := by
  have hgo : ¬(m.threadNeedStop = true) := Bool.not_eq_true _ ▸ h.going.1
  have hgoing := h.going.2
  have hchosen := h.chosen
  unfold DummyQuotaManager.syncStep at hs
  cases hpc : m.sync with
  | top =>
    simp only [hpc, if_neg hgo, Option.some.injEq] at hs
    subst hs
    exact h.sync (by rw [hpc]; rfl) (by rw [hpc]; rfl) nofun rfl nofun
  | load =>
    simp only [hpc, Option.some.injEq] at hs
    subst hs
    split
    · next hzero => exact h.sync (by rw [hpc]; rfl) (by rw [hpc]; rfl) (fun _ => hzero) rfl nofun
    · exact h.sync (by rw [hpc]; rfl) (by rw [hpc]; rfl) nofun rfl nofun
  | size =>
    simp only [hpc, Option.some.injEq] at hs
    subst hs
    exact h.size hpc
  | loadAgain =>
    simp only [hpc, Option.some.injEq] at hs
    subst hs
    exact h.loadAgain hpc hsafe
  | pull =>
    cases hqueue : m.dummyBatchQueue with
    | nil => simp [hpc, hqueue] at hs
    | cons b rest =>
      simp only [hpc, hqueue, Option.some.injEq] at hs
      subst hs
      exact h.pull hpc hqueue
  | empty =>
    simp only [hpc, Option.some.injEq] at hs
    subst hs
    rw [hpc] at hchosen
    split
    · exact h.sync (by rw [hpc]; rfl) (by rw [hpc]; rfl) nofun rfl hchosen
    · exact h.sync (by rw [hpc]; rfl) (by rw [hpc]; rfl) nofun rfl hchosen
  | drain =>
    rw [hpc] at hchosen
    cases hqueue : m.reqCommingQueue with
    | nil =>
      simp only [hpc, hqueue, Option.some.injEq] at hs
      subst hs
      rw [← hqueue]
      exact h.sync (by rw [hpc]; rfl) (by rw [hpc]; rfl) nofun rfl hchosen
    | cons b rest =>
      simp only [hpc, hqueue, Option.some.injEq] at hs
      subst hs
      rw [← hpc]
      exact ⟨h.fromInit, h.account, h.awaited, h.quota, h.empty, h.going, h.chosen⟩
  | messageQuota d b =>
    simp only [hpc, Option.some.injEq] at hs
    subst hs
    rw [hpc] at hchosen
    exact h.sync (by rw [hpc]; rfl) (by rw [hpc]; rfl) nofun rfl hchosen
  | messageSize d b q =>
    simp only [hpc, Option.some.injEq] at hs
    subst hs
    rw [hpc] at hchosen
    exact h.sync (by rw [hpc]; rfl) (by rw [hpc]; rfl) nofun rfl hchosen
  | allGather b => simp [hpc] at hs
  | gathered g =>
    have hstop : ¬(g.stop = true) := by simpa [hpc, AcrossProcSyncPc.isGoing] using hgoing
    simp only [hpc, if_neg hstop, Option.some.injEq] at hs
    subst hs
    exact h.restore hpc
  | storeStop g => simp [hpc, AcrossProcSyncPc.isGoing] at hgoing
  | fill g => simp [hpc, AcrossProcSyncPc.isGoing] at hgoing
  | exited => simp [hpc, AcrossProcSyncPc.isGoing] at hgoing

theorem Balanced.woken (h : Balanced initQuota total matched m) (hpc : m.sync = .pull) :
    m.dummyBatchQueue ≠ [] ∨ m.quotaLeft ≠ 0 := by
  have hchosen := (h.chosen true (by rw [hpc]; rfl)).mp rfl
  have hleft := h.unmatched (.inr (.inr hpc))
  by_contra hnone
  rw [not_or, not_not, not_not] at hnone
  -- nothing is pushed without a quota that is left for it
  have hpushed : m.scheduler.pushed = 0 := by
    have hquota := h.quota
    grind
  rw [hnone.1, hnone.2, hpushed, List.length_nil] at hleft
  omega

/-- After an all-gather that does not tell to stop, a batch of every process has been matched, or
of none. -/
theorem Balanced.gathered (h : Balanced initQuota total matched m) {g : Gathered}
    (hinfo : m.sync.info.isSome) (hgo : g.stop = false) :
    Balanced initQuota (total + g.quotaToFill initQuota)
      (matched + if total = matched then 0 else 1) { m with sync := .gathered g } := by
  cases hpc : m.sync with
  | allGather b =>
    have hchosen := h.chosen b.dummyBatchSync (by rw [hpc]; rfl)
    cases h
    constructor <;> grind
  | _ => simp [hpc, AcrossProcSyncPc.info] at hinfo

/-- A process after an all-gather that has told to stop. -/
structure Stopped (initQuota total : Nat) (g : Gathered) (m : DummyQuotaManager) : Prop where
  fromInit : m.initQuota = initQuota
  awaited : m.granted + m.sync.due initQuota = total
  stopping : m.sync = .gathered g ∨ m.sync = .storeStop g ∨
    m.threadNeedStop ∧ (m.sync = .fill g ∨ m.sync = .top ∨ m.sync = .exited)

variable {g : Gathered}

theorem Balanced.stopped (h : Balanced initQuota total matched m) (hinfo : m.sync.info.isSome) :
    Stopped initQuota (total + g.quotaToFill initQuota) g { m with sync := .gathered g } := by
  cases hpc : m.sync with
  | allGather b =>
    cases h
    constructor <;> grind
  | _ => simp [hpc, AcrossProcSyncPc.info] at hinfo

theorem Stopped.scheduler (h : Stopped initQuota total g m) (pc : QuotaPc) :
    Stopped initQuota total g { m with scheduler := pc } := ⟨h.fromInit, h.awaited, h.stopping⟩

/-- What the scheduling thread does not write. -/
theorem schedulerStep_frame (hs : m.schedulerStep = some m') :
    m'.initQuota = m.initQuota ∧ m'.granted = m.granted ∧ m'.sync = m.sync ∧
      m'.threadNeedStop = m.threadNeedStop := by
  unfold DummyQuotaManager.schedulerStep at hs
  split at hs
  · cases hs
  case h_2 =>
    split at hs
    all_goals
      obtain rfl := Option.some.inj hs
      exact ⟨rfl, rfl, rfl, rfl⟩
  all_goals
    obtain rfl := Option.some.inj hs
    exact ⟨rfl, rfl, rfl, rfl⟩

theorem Stopped.schedulerStep (h : Stopped initQuota total g m)
    (hs : m.schedulerStep = some m') : Stopped initQuota total g m' := by
  obtain ⟨hinit, hgranted, hsync, hstop⟩ := schedulerStep_frame hs
  refine ⟨hinit.trans h.fromInit, ?_, ?_⟩
  · rw [hgranted, hsync]
    exact h.awaited
  · rw [hsync, hstop]
    exact h.stopping

theorem Stopped.syncStep (h : Stopped initQuota total g m) (hstop : g.stop)
    (hs : m.syncStep = some m') : Stopped initQuota total g m' := by
  have hawaited := h.awaited
  unfold DummyQuotaManager.syncStep at hs
  obtain hpc | hpc | ⟨hneed, hpc | hpc | hpc⟩ := h.stopping
  · simp only [hpc, if_pos hstop, Option.some.injEq] at hs
    subst hs
    exact ⟨h.fromInit, by simpa only [hpc, AcrossProcSyncPc.due] using hawaited, .inr (.inl rfl)⟩
  · simp only [hpc, Option.some.injEq] at hs
    subst hs
    exact ⟨h.fromInit, by simpa only [hpc, AcrossProcSyncPc.due] using hawaited,
      .inr (.inr ⟨rfl, .inl rfl⟩)⟩
  · simp only [hpc, Option.some.injEq] at hs
    subst hs
    refine ⟨h.fromInit, ?_, .inr (.inr ⟨hneed, .inr (.inl rfl)⟩)⟩
    simpa only [hpc, DummyQuotaManager.restore, h.fromInit, AcrossProcSyncPc.due,
      Nat.add_zero] using hawaited
  · simp only [hpc, if_pos hneed, Option.some.injEq] at hs
    subst hs
    exact ⟨h.fromInit, by simpa only [hpc, AcrossProcSyncPc.due] using hawaited,
      .inr (.inr ⟨hneed, .inr (.inr rfl)⟩)⟩
  · simp [hpc] at hs

end Books

/-! ## All processes -/

/-- The books of all processes agree, or all stop. -/
def Invariant (s : Fin n → DummyQuotaManager) : Prop :=
  ∃ initQuota total, (∃ matched, ∀ i, Balanced initQuota total matched (s i)) ∨
    ∃ g : Gathered, g.stop ∧ ∀ i, Stopped initQuota total g (s i)

section Steps

variable {s} {s' : Fin n → DummyQuotaManager}

theorem invariant_init (initQuota : Nat) : Invariant fun _ : Fin n => init initQuota :=
  ⟨initQuota, initQuota, .inl ⟨0, fun _ => balanced_init⟩⟩

/-- A step of one process. -/
theorem Invariant.update (h : Invariant s) (i : Fin n) {m : DummyQuotaManager}
    (hbalanced : ∀ initQuota total matched, Balanced initQuota total matched (s i) →
      Balanced initQuota total matched m)
    (hstopped : ∀ initQuota total g, g.stop → Stopped initQuota total g (s i) →
      Stopped initQuota total g m) : Invariant (Function.update s i m) := by
  obtain ⟨initQuota, total, ⟨matched, hall⟩ | ⟨g, hg, hall⟩⟩ := h
  · refine ⟨initQuota, total, .inl ⟨matched, ?_⟩⟩
    rw [Function.forall_update_iff s fun _ => Balanced initQuota total matched]
    exact ⟨hbalanced _ _ _ (hall i), fun j _ => hall j⟩
  · refine ⟨initQuota, total, .inr ⟨g, hg, ?_⟩⟩
    rw [Function.forall_update_iff s fun _ => Stopped initQuota total g]
    exact ⟨hstopped _ _ _ hg (hall i), fun j _ => hall j⟩

/-- All processes are at the same all-gather, which tells them the same. -/
theorem Invariant.allGather (h : Invariant s) (hinfo : ∀ i, (s i).sync.info.isSome) :
    Invariant fun i => { s i with sync := .gathered (gather s) } := by
  obtain ⟨initQuota, total, ⟨matched, hall⟩ | ⟨g, hg, hall⟩⟩ := h
  · refine ⟨initQuota, total + (gather s).quotaToFill initQuota, ?_⟩
    cases hstop : (gather s).stop with
    | false => exact .inl ⟨_, fun i => (hall i).gathered (hinfo i) hstop⟩
    | true => exact .inr ⟨_, hstop, fun i => (hall i).stopped (hinfo i)⟩
  · -- a process that stops is at no all-gather
    refine ⟨initQuota, total, .inr ⟨g, hg, fun i => ?_⟩⟩
    exfalso
    have hi := hinfo i
    rcases (hall i).stopping with hpc | hpc | ⟨-, hpc | hpc | hpc⟩ <;> rw [hpc] at hi <;> cases hi

theorem Invariant.step {op : Op n} (h : Invariant s) (hsafe : Undisturbed s op)
    (hs : step s op = some s') : Invariant s' := by
  cases op with
  | acquireQuota i isDummy =>
    simp only [DummyQuotaManager.step] at hs
    split at hs
    · next hidle =>
      obtain rfl := Option.some.inj hs
      exact h.update i (fun _ _ _ hb => hb.acquireQuota hidle isDummy)
        fun _ _ _ _ ht => ht.scheduler _
    · cases hs
  | wakeup i =>
    simp only [DummyQuotaManager.step] at hs
    split at hs
    · next hidle =>
      obtain rfl := Option.some.inj hs
      exact h.update i (fun _ _ _ hb => hb.wakeup hidle) fun _ _ _ _ ht => ht.scheduler _
    · cases hs
  | scheduler i =>
    obtain ⟨m, hm, rfl⟩ := Option.map_eq_some_iff.mp hs
    exact h.update i (fun _ _ _ hb => hb.schedulerStep hm) fun _ _ _ _ ht => ht.schedulerStep hm
  | sync i =>
    obtain ⟨m, hm, rfl⟩ := Option.map_eq_some_iff.mp hs
    exact h.update i (fun _ _ _ hb => hb.syncStep hsafe hm)
      fun _ _ _ hg ht => ht.syncStep hg hm
  | allGather =>
    simp only [DummyQuotaManager.step] at hs
    split at hs
    · next hinfo =>
      obtain rfl := Option.some.inj hs
      exact h.allGather hinfo
    · cases hs

theorem granted_eq {m : DummyQuotaManager} {initQuota total : Nat} (h : m.sync.isSettled)
    (hm : m.granted + m.sync.due initQuota = total) : m.granted = total := by
  have hdue : m.sync.due initQuota = 0 := by
    cases hpc : m.sync with
    | gathered g => simp [hpc, AcrossProcSyncPc.isSettled] at h
    | storeStop g => simp [hpc, AcrossProcSyncPc.isSettled] at h
    | fill g => simp [hpc, AcrossProcSyncPc.isSettled] at h
    | _ => rfl
  rw [← hm, hdue, Nat.add_zero]

theorem Invariant.agreement (h : Invariant s) : Agreement s := by
  obtain ⟨initQuota, total, ⟨matched, hall⟩ | ⟨g, hg, hall⟩⟩ := h
  · refine ⟨fun i j b c hb hc => ?_, fun i j hi hj => ?_, fun i hi => (hall i).woken hi⟩
    · rw [Bool.eq_iff_iff, (hall i).chosen b hb, (hall j).chosen c hc]
    · rw [granted_eq hi (hall i).awaited, granted_eq hj (hall j).awaited]
  · -- a process that stops chooses no all-gather
    have hnone (i : Fin n) : (s i).sync.dummyBatchSync = none := by
      rcases (hall i).stopping with hpc | hpc | ⟨-, hpc | hpc | hpc⟩ <;> rw [hpc] <;> rfl
    refine ⟨fun i j b c hb hc => ?_, fun i j hi hj => ?_, fun i hi => ?_⟩
    · rw [hnone i] at hb
      cases hb
    · rw [granted_eq hi (hall i).awaited, granted_eq hj (hall j).awaited]
    · have := hnone i
      rw [hi] at this
      cases this

end Steps

/-- **Agreement.** When the quota is not taken between the accesses of a decision, all processes are
at the same all-gather in every round, and have the same quotas granted. -/
theorem agreement_of_reaches {n initQuota : Nat} (s : Fin n → DummyQuotaManager)
    (h : Reaches step Undisturbed (fun _ => init initQuota) s) : Agreement s :=
  (h.invariant (I := Invariant) (invariant_init initQuota)
    fun _ _ _ hI hsafe hs => hI.step hsafe hs).agreement

/-! ## Disagreement -/

/-- `INIT_QUOTA_NUM` -/
def initQuotaNum : Nat := 10000

/-- Two processes that have the same quota left, and nothing under way. -/
def rested (k : Nat) : Fin 2 → DummyQuotaManager := fun _ =>
  { init initQuotaNum with quotaLeft := k }

/-- A dummy batch of one process, up to the all-gather. -/
def dummyBatch (i : Fin 2) : List (Op 2) :=
  [.sync i, .sync i, .sync i, .acquireQuota i true, .scheduler i, .scheduler i, .scheduler i,
    .scheduler i, .sync i, .sync i, .sync i]

/-- The end of a round. -/
def roundEnd : List (Op 2) := [.allGather, .sync 0, .sync 1]

theorem reaches_rested (k : Nat) :
    Reaches step (fun _ _ => True) (rested (k + 1)) (rested k) := by
  have hround : (execAll step (fun _ _ => True) (rested (k + 1))
      (dummyBatch 0 ++ dummyBatch 1 ++ roundEnd)).map (fun s => (s 0, s 1)) =
        some (rested k 0, rested k 1) := by
    rfl
  obtain ⟨s, hs, hrested⟩ := Option.map_eq_some_iff.mp hround
  obtain ⟨h₀, h₁⟩ := Prod.mk.inj hrested
  have heq : s = rested k := funext (Fin.forall_fin_two.mpr ⟨h₀, h₁⟩)
  exact heq ▸ reaches_of_execAll hs

/-- By dummy batches, all but one of the quota is used up. -/
theorem reaches_rested_one :
    Reaches step (fun _ _ => True) (fun _ : Fin 2 => init initQuotaNum) (rested 1) := by
  have hdown (k : Nat) : Reaches step (fun _ _ => True) (rested (1 + k)) (rested 1) := by
    induction k with
    | zero => exact .start
    | succ k ih => exact (reaches_rested (1 + k)).trans ih
  exact hdown 9999

/-- The scheduling thread of the first process pushes the last batch of the quota, and is then slow
to take the quota. The batch is matched meanwhile. The process takes it that some quota is left and
waits for another batch, while the second waits in an all-gather for a request. -/
theorem not_agreement : ¬∀ s : Fin 2 → DummyQuotaManager,
    Reaches step (fun _ _ => True) (fun _ => init initQuotaNum) s → Agreement s := by
  intro h
  let slow : List (Op 2) := [.sync 0, .sync 0, .sync 0, .acquireQuota 0 true, .scheduler 0,
    .scheduler 0, .scheduler 0, .sync 0, .sync 0, .sync 0]
  let next₀ : List (Op 2) := [.sync 0, .sync 0, .sync 0]
  let next₁ : List (Op 2) := [.sync 1, .sync 1, .sync 1, .sync 1]
  obtain ⟨s, hs, h₀, h₁⟩ : ∃ s, Reaches step (fun _ _ => True) (rested 1) s ∧
      (s 0).sync.dummyBatchSync = some true ∧ (s 1).sync.dummyBatchSync = some false :=
    exists_reaches (slow ++ dummyBatch 1 ++ roundEnd ++ next₀ ++ next₁) (by decide +kernel)
  cases (h s (reaches_rested_one.trans hs)).sameBranch 0 1 true false h₀ h₁

/-- A round in which a process has a request, and the quotas are restored. -/
theorem exists_agreement : ∃ s : Fin 2 → DummyQuotaManager,
    Reaches step Undisturbed (fun _ => init 1) s ∧ (s 0).granted = 2 ∧ (s 0).quotaLeft = 1 ∧
      Agreement s := by
  let request : List (Op 2) := [.wakeup 0, .scheduler 0, .scheduler 0, .acquireQuota 0 false,
    .scheduler 0, .scheduler 0, .scheduler 0, .scheduler 0,
    .sync 0, .sync 0, .sync 0, .sync 0, .sync 0, .sync 0]
  obtain ⟨s, hs, hgranted, hleft⟩ : ∃ s : Fin 2 → DummyQuotaManager,
      Reaches step Undisturbed (fun _ => init 1) s ∧ (s 0).granted = 2 ∧ (s 0).quotaLeft = 1 :=
    exists_reaches (request ++ dummyBatch 1 ++ roundEnd) (by decide +kernel)
  exact ⟨s, hs, hgranted, hleft, agreement_of_reaches s hs⟩

end DummyQuotaManager

end MindieLLM
