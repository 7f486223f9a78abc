import MindieLLM.Program.Reaches
import Mathlib.Data.Int.Notation
import Mathlib.Data.Nat.Notation
import Mathlib.Logic.Function.Basic

/-!
# The latency predictor

For each batch the scheduler saves what the batch is: its forward mode and how many tokens and KV
cache blocks it has. The engine then sets the time at which the batch is executed, and when the
outputs arrive, the time that has passed becomes a data point of a regression. The predictor finds
the batch again through a counter, which goes up when a batch is saved and down when one completes.

The clock counts nanoseconds. A data point is taken as it is added, before the regression computes
with it; its time is a number of milliseconds.

## Main definitions

* `saveBatchStats`, `setBatchExecuteStartTime`, `updateBatchStats`: the predictor
* `step`: the runs, with the batches that are in flight and those that completed
* `Attributed`: the data points are those of the batches that completed
* `AloneAndAlike`: the condition on a batch that is saved

## Main results

* `attributed_of_reaches`: batches that are alone and alike are measured right
* `not_attributed`: a second batch is taken for the first
-/

namespace MindieLLM.LatencyStats

open Program

/-! ## The predictor -/

inductive ForwardMode
  | prefill
  | decode
  | extend
  | mixed
  | dummy
  deriving DecidableEq

structure BatchStats where
  forwardMode : ForwardMode
  numBatchedTokens : ℕ
  kvCacheBlockNum : ℕ
  batchSpendTimeFloat : ℤ
  batchStartTime : ℤ

def WINDOW_SIZE : ℕ := 1000000

structure LatencyPredictor where
  /-- The tokens and the time of each data point. -/
  prefillRegression : List (ℕ × ℤ) := []
  /-- The tokens, the blocks and the time of each data point. -/
  decodeRegression : List (ℕ × ℕ × ℤ) := []
  prefillLatency : List ℤ := []
  batchId : ℤ := 0
  batchStatsMap : ℤ → Option BatchStats := fun _ => none

/-- `BatchLatencyTracker::AddDataPoint` -/
def addLatency (value : ℤ) (queue : List ℤ) : List ℤ :=
  (if queue.length = WINDOW_SIZE then queue.tail else queue) ++ [value]

def INT_MAX : ℤ := 2147483647

/-- The id of the batch that is saved next. -/
def nextBatchId (p : LatencyPredictor) : ℤ := (if p.batchId ≥ INT_MAX then 0 else p.batchId) + 1

/-- The map keeps the entry that it has for a key. -/
def saveBatchStats (batchStats : BatchStats) (p : LatencyPredictor) : LatencyPredictor :=
  { p with
    batchId := nextBatchId p
    batchStatsMap := Function.update p.batchStatsMap (nextBatchId p)
      ((p.batchStatsMap (nextBatchId p)).or (some batchStats)) }

/-- The entries of the map are shared: what is written into one is in the map. -/
def writeEntry (batchStats : BatchStats) (p : LatencyPredictor) : LatencyPredictor :=
  { p with batchStatsMap := Function.update p.batchStatsMap p.batchId (some batchStats) }

@[simp] theorem writeEntry_batchId (batchStats : BatchStats) (p : LatencyPredictor) :
    (writeEntry batchStats p).batchId = p.batchId := rfl

def setBatchExecuteStartTime (batchStartTime : ℤ) (p : LatencyPredictor) : LatencyPredictor :=
  match p.batchStatsMap p.batchId with
  | none => p
  | some batchStats => writeEntry { batchStats with batchStartTime } p

/-- `duration_cast<milliseconds>` -/
def milliseconds (nanoseconds : ℤ) : ℤ := nanoseconds.tdiv 1000000

/-- The data point of a batch that took some time. -/
def addDataPoint (batchStats : BatchStats) (time : ℤ) (p : LatencyPredictor) : LatencyPredictor :=
  match batchStats.forwardMode with
  | .prefill =>
    { p with
      prefillRegression := p.prefillRegression ++ [(batchStats.numBatchedTokens, time)]
      prefillLatency := addLatency time p.prefillLatency }
  | .decode =>
    { p with decodeRegression := p.decodeRegression ++
        [(batchStats.numBatchedTokens, batchStats.kvCacheBlockNum, time)] }
  | _ => p

def updateBatchStats (now : ℤ) (p : LatencyPredictor) : LatencyPredictor :=
  match p.batchStatsMap p.batchId with
  | none => p
  | some batchStats =>
    let time := milliseconds (now - batchStats.batchStartTime)
    let p := writeEntry { batchStats with batchSpendTimeFloat := time } p
    { addDataPoint batchStats time p with batchId := p.batchId - 1 }

/-! ## Runs -/

inductive Op
  | save (batchStats : BatchStats)
  | start (batchStartTime : ℤ)
  | update (now : ℤ)

/-- A batch in flight, and its own start once it is executed. -/
structure Flight where
  batchStats : BatchStats
  start : Option ℤ

structure Completed where
  batchStats : BatchStats
  start : ℤ
  now : ℤ

structure State where
  predictor : LatencyPredictor := {}
  /-- In issue order. -/
  inFlight : List Flight := []
  completed : List Completed := []

/-- The first batch that has not started starts. -/
def startFirst (batchStartTime : ℤ) : List Flight → Option (List Flight)
  | [] => none
  | ⟨batchStats, none⟩ :: rest => some (⟨batchStats, some batchStartTime⟩ :: rest)
  | flight :: rest => (startFirst batchStartTime rest).map (flight :: ·)

/-- Batches for prefill or decode are saved, started and completed, each in issue order. -/
def step (s : State) : Op → Option State
  | .save batchStats =>
    if batchStats.forwardMode = .prefill ∨ batchStats.forwardMode = .decode then
      some { s with
        predictor := saveBatchStats batchStats s.predictor
        inFlight := s.inFlight ++ [⟨batchStats, none⟩] }
    else
      none
  | .start batchStartTime =>
    (startFirst batchStartTime s.inFlight).map fun inFlight =>
      { s with predictor := setBatchExecuteStartTime batchStartTime s.predictor, inFlight }
  | .update now =>
    match s.inFlight with
    | ⟨batchStats, some start⟩ :: inFlight =>
      some {
        predictor := updateBatchStats now s.predictor
        inFlight
        completed := s.completed ++ [⟨batchStats, start, now⟩] }
    | _ => none

def Completed.time (c : Completed) : ℤ := milliseconds (c.now - c.start)

def Completed.prefillPoint (c : Completed) : Option (ℕ × ℤ) :=
  if c.batchStats.forwardMode = .prefill then some (c.batchStats.numBatchedTokens, c.time) else none

def Completed.decodePoint (c : Completed) : Option (ℕ × ℕ × ℤ) :=
  if c.batchStats.forwardMode = .decode then
    some (c.batchStats.numBatchedTokens, c.batchStats.kvCacheBlockNum, c.time)
  else
    none

/-- Each batch that completed has one data point, with what the batch is and the time since its own
start. -/
structure Attributed (s : State) : Prop where
  prefill : s.predictor.prefillRegression = s.completed.filterMap Completed.prefillPoint
  decode : s.predictor.decodeRegression = s.completed.filterMap Completed.decodePoint
  one : s.predictor.prefillRegression.length + s.predictor.decodeRegression.length =
    s.completed.length

/-- Two batches with the same mode, tokens and blocks. -/
def BatchStats.Alike (b b' : BatchStats) : Prop :=
  b.forwardMode = b'.forwardMode ∧ b.numBatchedTokens = b'.numBatchedTokens ∧
    b.kvCacheBlockNum = b'.kvCacheBlockNum

instance (b b' : BatchStats) : Decidable (b.Alike b') := inferInstanceAs (Decidable (_ ∧ _ ∧ _))

/-- **The condition on a batch that is saved.** No other batch is in flight, and an entry that is
left under the id of the batch is alike. -/
def AloneAndAlike (s : State) : Op → Prop
  | .save batchStats =>
    s.inFlight = [] ∧
      ((s.predictor.batchStatsMap (nextBatchId s.predictor)).getD batchStats).Alike batchStats
  | _ => True

instance (s : State) (op : Op) : Decidable (AloneAndAlike s op) := by
  cases op <;> unfold AloneAndAlike <;> infer_instance

/-! ## One batch at a time -/

/-- What the predictor has of the batches in flight: at most one, under the id 1. -/
inductive Tracked (p : LatencyPredictor) : List Flight → Prop
  | idle (hid : p.batchId = 0) : Tracked p []
  | busy {flight : Flight} (entry : BatchStats) (hid : p.batchId = 1)
      (hentry : p.batchStatsMap 1 = some entry) (halike : entry.Alike flight.batchStats)
      (hmode : flight.batchStats.forwardMode = .prefill ∨ flight.batchStats.forwardMode = .decode)
      (hstart : ∀ start ∈ flight.start, entry.batchStartTime = start) : Tracked p [flight]

structure Invariant (s : State) : Prop where
  attributed : Attributed s
  tracked : Tracked s.predictor s.inFlight

variable {s s' : State}

theorem invariant_init : Invariant {} := ⟨⟨rfl, rfl, rfl⟩, .idle rfl⟩

theorem Invariant.save {batchStats : BatchStats} (hinv : Invariant s)
    (hgood : AloneAndAlike s (.save batchStats)) (hs : step s (.save batchStats) = some s') :
    Invariant s' := by
  obtain ⟨hempty, halike⟩ := hgood
  have hid : s.predictor.batchId = 0 := by
    have htracked := hinv.tracked
    rw [hempty] at htracked
    cases htracked with
    | idle hid => exact hid
  have hnext : nextBatchId s.predictor = 1 := by
    unfold nextBatchId INT_MAX
    rw [hid]
    rfl
  simp only [step] at hs
  split at hs
  · next hmode =>
    cases hs
    rw [hnext] at halike
    refine ⟨⟨hinv.attributed.prefill, hinv.attributed.decode, hinv.attributed.one⟩, ?_⟩
    rw [hempty, List.nil_append]
    refine .busy ((s.predictor.batchStatsMap 1).getD batchStats) hnext ?_ halike hmode (by simp)
    simp only [saveBatchStats, hnext, Function.update_self]
    cases s.predictor.batchStatsMap 1 <;> rfl
  · cases hs

theorem Invariant.start {batchStartTime : ℤ} (hinv : Invariant s)
    (hs : step s (.start batchStartTime) = some s') : Invariant s' := by
  obtain ⟨inFlight, hfirst, rfl⟩ := Option.map_eq_some_iff.mp hs
  obtain ⟨hattributed, htracked⟩ := hinv
  rcases s with ⟨p, flights, completed⟩
  cases htracked with
  | idle => cases hfirst
  | @busy flight entry hid hentry halike hmode hstart =>
    dsimp only at hid hentry
    obtain ⟨batchStats, _ | start⟩ := flight
    · cases hfirst
      have hset : setBatchExecuteStartTime batchStartTime p =
          writeEntry { entry with batchStartTime } p := by
        unfold setBatchExecuteStartTime
        rw [hid, hentry]
      rw [hset]
      refine ⟨⟨hattributed.prefill, hattributed.decode, hattributed.one⟩,
        .busy { entry with batchStartTime } hid ?_ halike hmode ?_⟩
      · simp only [writeEntry, hid, Function.update_self]
      · rintro start ⟨⟩
        rfl
    · cases hfirst

/-- The data point of a batch that completes is its own. -/
theorem attributed_complete {p : LatencyPredictor} {inFlight : List Flight}
    {completed : List Completed} (hattributed : Attributed ⟨p, inFlight, completed⟩)
    {entry : BatchStats} {c : Completed} (halike : entry.Alike c.batchStats)
    (hmode : c.batchStats.forwardMode = .prefill ∨ c.batchStats.forwardMode = .decode)
    (entry' : BatchStats) (rest : List Flight) (batchId : ℤ) :
    Attributed ⟨{ addDataPoint entry c.time (writeEntry entry' p) with batchId }, rest,
      completed ++ [c]⟩ := by
  obtain ⟨hprefill, hdecode, hone⟩ := hattributed
  obtain ⟨hsame, htokens, hblocks⟩ := halike
  unfold addDataPoint writeEntry
  dsimp only at hprefill hdecode hone
  rcases hmode with hmode | hmode
  · rw [hmode] at hsame
    rw [hsame]
    refine ⟨?_, ?_, ?_⟩
    · simp [hprefill, Completed.prefillPoint, hmode, htokens]
    · simp [hdecode, Completed.decodePoint, hmode]
    · simp only [List.length_append, List.length_singleton] at hone ⊢
      omega
  · rw [hmode] at hsame
    rw [hsame]
    refine ⟨?_, ?_, ?_⟩
    · simp [hprefill, Completed.prefillPoint, hmode]
    · simp [hdecode, Completed.decodePoint, hmode, htokens, hblocks]
    · simp only [List.length_append, List.length_singleton] at hone ⊢
      omega

theorem Invariant.update {now : ℤ} (hinv : Invariant s) (hs : step s (.update now) = some s') :
    Invariant s' := by
  obtain ⟨hattributed, htracked⟩ := hinv
  rcases s with ⟨p, flights, completed⟩
  cases htracked with
  | idle => cases hs
  | @busy flight entry hid hentry halike hmode hstart =>
    dsimp only at hid hentry
    obtain ⟨batchStats, _ | start⟩ := flight
    · cases hs
    · cases hs
      have htime : milliseconds (now - entry.batchStartTime) =
          Completed.time ⟨batchStats, start, now⟩ := by
        rw [hstart start rfl]
        rfl
      have hupdate : updateBatchStats now p =
          { addDataPoint entry (Completed.time ⟨batchStats, start, now⟩) (writeEntry { entry with
              batchSpendTimeFloat := Completed.time ⟨batchStats, start, now⟩ } p) with
            batchId := 0 } := by
        unfold updateBatchStats
        rw [hid, hentry]
        simp only [htime, writeEntry_batchId, hid, Int.sub_self]
      rw [hupdate]
      exact ⟨attributed_complete hattributed halike hmode .., .idle rfl⟩

/-- **Batches that are alone and alike.** In every run in which no batch is in flight when another
is saved, and all batches are like the first, each data point is that of the batch that
completed. -/
theorem attributed_of_reaches (h : Reaches step AloneAndAlike {} s) : Attributed s := by
  have hinv : Invariant s := by
    refine h.invariant invariant_init fun s op s' hinv hgood hs => ?_
    cases op with
    | save batchStats => exact hinv.save hgood hs
    | start batchStartTime => exact hinv.start hs
    | update now => exact hinv.update hs
  exact hinv.attributed

/-- A batch for prefill with some tokens, on four blocks. -/
def prefillBatch (numBatchedTokens : ℕ) : BatchStats := ⟨.prefill, numBatchedTokens, 4, 0, 0⟩

/-- Two batches with ten tokens, one after the other. -/
theorem exists_attributed : ∃ s, Reaches step AloneAndAlike {} s ∧
    s.predictor.prefillRegression = [(10, 2), (10, 3)] ∧ Attributed s := by
  obtain ⟨s, hs, hpoints⟩ : ∃ s, Reaches step AloneAndAlike {} s ∧
      s.predictor.prefillRegression = [(10, 2), (10, 3)] :=
    exists_reaches [.save (prefillBatch 10), .start 1000000, .update 3000000,
      .save (prefillBatch 10), .start 4000000, .update 7000000] (by decide +kernel)
  exact ⟨s, hs, hpoints, attributed_of_reaches hs⟩

/-- A batch with ten tokens and then one with twenty: both have a data point with ten. -/
theorem not_attributed : ¬∀ s, Reaches step (fun _ _ => True) {} s → Attributed s := by
  intro h
  obtain ⟨s, hs, hpoints⟩ : ∃ s, Reaches step (fun _ _ => True) {} s ∧
      s.predictor.prefillRegression ≠ s.completed.filterMap Completed.prefillPoint :=
    exists_reaches [.save (prefillBatch 10), .start 1000000, .update 3000000,
      .save (prefillBatch 20), .start 4000000, .update 7000000] (by decide +kernel)
  exact hpoints (h s hs).prefill

end MindieLLM.LatencyStats
