import MindieLLM.Program.Demands
import MindieLLM.Dataclass.SchedulingBudget
import Mathlib.Algebra.Order.Ring.Rat

/-!
# The dynamic batch size

The largest batch size follows the latency of the decoding: a search narrows down two bounds, and
every other call may set the size to what is being decoded, which keeps new requests out. Without
measurements the size falls to the lower bound, and the bounds of the search to the average that is
missing.

The measurements of all ranks come with a call, as the recorder has aggregated them. Numbers are of
64 bits, those of the configuration of 32, and a latency is a finite number.

## Main definitions

* `DynamicBatchSize.adjustBatchSize`: a call, with the demands of its arithmetic
* `DynamicBatchSize.Outcome.InRange`: what is asked of a call
* `DynamicBatchSize.Measured`: a call does not go on from a number that is too small

## Main results

* `DynamicBatchSize.inRange_adjust_iff`: one call
* `DynamicBatchSize.inRange_outcomes_iff`: the calls of a run are in range if and only if each of
  them is measured
* `DynamicBatchSize.not_inRange_outcomes`: two calls for one slow request
-/

namespace MindieLLM

open Program

/-- With the latency that is expected. -/
structure LatencyConfig extends SchedulerConfig where
  decodeExpectedTime : Nat := 50

structure DynamicBatchSize where
  schedulerConfig : LatencyConfig
  stage : Nat := 0
  previousDecodeMaxBatchSize : Nat := 0
  batchSizeUpper : Nat
  batchSizeLower : Nat
  batchSizeUpperBound : Nat
  batchSizeLowerBound : Nat

/-- A call of `AdjustBatchSize`, with what the recorder has aggregated. -/
structure AdjustCall where
  previousStage : Nat
  waitingSize : Nat
  runningSize : Nat
  swappedSize : Nat
  maxDecodeLatency : Rat
  maxBatchSize : Nat
  maxDecodeRequestNum : Nat

namespace AdjustCall

variable (c : AdjustCall)

/-- There is nothing to do. -/
def isIdle : Prop := c.waitingSize = 0 ∧ addU64 c.runningSize c.swappedSize = 0

/-- `1e-6f` -/
def epsilon : Rat := 8796093 / 2 ^ 43

/-- A measurement is missing, or the last batch was not one of decoding. -/
def isMissing : Prop :=
  c.maxBatchSize = 0 ∨ |c.maxDecodeLatency| < epsilon ∨ c.previousStage ≠ 1

instance : Decidable c.isIdle := inferInstanceAs (Decidable (_ ∧ _))

instance : Decidable c.isMissing := inferInstanceAs (Decidable (_ ∨ _ ∨ _))

end AdjustCall

namespace DynamicBatchSize

def deltaMs : Rat := 5

def deltaBatchSize : Nat := 2

/-- The constructor. -/
def new (cfg : LatencyConfig) : DynamicBatchSize where
  schedulerConfig := cfg
  batchSizeUpper := cfg.maxBatchSize
  batchSizeLower := 3
  batchSizeUpperBound := cfg.maxBatchSize
  batchSizeLowerBound := 3

variable (s : DynamicBatchSize)

def isSlow (avgDecodeLatency : Rat) : Prop :=
  avgDecodeLatency > s.schedulerConfig.decodeExpectedTime + deltaMs

def isFast (avgDecodeLatency : Rat) : Prop :=
  avgDecodeLatency < s.schedulerConfig.decodeExpectedTime - deltaMs

instance (x : Rat) : Decidable (s.isSlow x) := inferInstanceAs (Decidable (_ > _))

instance (x : Rat) : Decidable (s.isFast x) := inferInstanceAs (Decidable (_ < _))

/-- What the configuration keeps of a number. -/
def toU32 (n : Nat) : Nat := n % 2 ^ 32

def applyUpdatedBatchSize (newDecodeMaxBatchSize newPrefillMaxBatchSize : Nat) :
    DynamicBatchSize :=
  { s with
    schedulerConfig :=
      { s.schedulerConfig with
        maxBatchSize := toU32 newDecodeMaxBatchSize
        maxPrefillBatchSize := toU32 newPrefillMaxBatchSize }
    previousDecodeMaxBatchSize := newDecodeMaxBatchSize }

/-- The bounds of the search, upper and lower, after a measurement. -/
def moveBounds (avgDecodeLatency : Rat) (avgBatchSize : Nat) : Demanding (Nat × Nat) :=
  if s.isSlow avgDecodeLatency then do
    let lower ← subU64 s.batchSizeLower deltaBatchSize
    return (max avgBatchSize (addU64 s.batchSizeLower 3), max lower s.batchSizeLowerBound)
  else if s.isFast avgDecodeLatency then do
    let upper ← subU64 s.batchSizeUpper 3
    return (min (addU64 s.batchSizeUpper deltaBatchSize) s.batchSizeUpperBound,
      min avgBatchSize upper)
  else do
    let lower ← subU64 avgBatchSize 2
    return (min (addU64 avgBatchSize 3) s.batchSizeUpperBound,
      max lower s.batchSizeLowerBound)

/-- What is left for new requests. -/
def newPrefillMaxBatchSize (newDecodeMaxBatchSize currentDecodeRequestNum : Nat) : Demanding Nat :=
  if currentDecodeRequestNum < newDecodeMaxBatchSize then
    subU64 newDecodeMaxBatchSize currentDecodeRequestNum
  else pure 0

def binarySearchBatchSize (currentDecodeRequestNum : Nat) (avgDecodeLatency : Rat)
    (avgBatchSize : Nat) : Demanding DynamicBatchSize := do
  let bounds ← s.moveBounds avgDecodeLatency avgBatchSize
  let upper ← clamp bounds.1 s.batchSizeLowerBound s.batchSizeUpperBound
  let lower ← clamp bounds.2 s.batchSizeLowerBound s.batchSizeUpperBound
  let least ← subU64 s.schedulerConfig.maxBatchSize deltaBatchSize
  let newDecodeMaxBatchSize ← clamp (addU64 upper lower / 2) least
    (addU64 s.schedulerConfig.maxBatchSize deltaBatchSize)
  let newDecodeMaxBatchSize ←
    clamp newDecodeMaxBatchSize currentDecodeRequestNum s.batchSizeUpperBound
  let newPrefillMaxBatchSize ←
    newPrefillMaxBatchSize newDecodeMaxBatchSize currentDecodeRequestNum
  return { s with
    batchSizeUpper := upper
    batchSizeLower := lower }.applyUpdatedBatchSize newDecodeMaxBatchSize newPrefillMaxBatchSize

/-- The condition of `SetMinimalBatchSize`. -/
def setsMinimal (currentDecodeRequestNum : Nat) (avgDecodeLatency : Rat) : Prop :=
  currentDecodeRequestNum ≠ 0 ∧ s.isSlow avgDecodeLatency

instance (n : Nat) (x : Rat) : Decidable (s.setsMinimal n x) := inferInstanceAs (Decidable (_ ∧ _))

def setMinimalBatchSize (currentDecodeRequestNum : Nat) (avgDecodeLatency : Rat) :
    DynamicBatchSize :=
  if s.setsMinimal currentDecodeRequestNum avgDecodeLatency then
    s.applyUpdatedBatchSize currentDecodeRequestNum 0
  else s

/-- What is done without measurements: the sizes fall. -/
def withMeasurements (c : AdjustCall) : DynamicBatchSize :=
  if c.isMissing then
    { s with
      schedulerConfig :=
        { s.schedulerConfig with maxBatchSize := toU32 s.batchSizeLowerBound }
      batchSizeLower := c.maxBatchSize
      batchSizeUpper := c.maxBatchSize }
  else s

/-- The calls take turns. -/
def nextStage : Nat := (s.stage + 1) % 2

def nextTurn (c : AdjustCall) : DynamicBatchSize :=
  { s.withMeasurements c with stage := s.nextStage }

def adjustBatchSize (c : AdjustCall) : Demanding DynamicBatchSize :=
  if c.isIdle then pure s
  else if s.nextStage % 2 = 0 then
    (s.nextTurn c).binarySearchBatchSize c.maxDecodeRequestNum c.maxDecodeLatency c.maxBatchSize
  else pure ((s.nextTurn c).setMinimalBatchSize c.maxDecodeRequestNum c.maxDecodeLatency)

/-! ## What is asked for -/

/-- A call that writes the batch size. -/
def Adjusts (c : AdjustCall) : Prop :=
  ¬c.isIdle ∧
    (c.isMissing ∨ s.nextStage = 0 ∨ s.setsMinimal c.maxDecodeRequestNum c.maxDecodeLatency)

instance (c : AdjustCall) : Decidable (s.Adjusts c) := inferInstanceAs (Decidable (_ ∧ (_ ∨ _ ∨ _)))

/-- What a call has done. -/
structure Outcome where
  demands : List Demand
  adjusts : Bool
  decodeRequestNum : Nat
  maxBatchSize : Nat
  maxPrefillBatchSize : Nat

/-- Nothing wraps, clamps have their bounds in order, and the new sizes are between what is being
decoded and the size that is configured. -/
def Outcome.InRange (maxBatchSize : Nat) (o : Outcome) : Prop :=
  (∀ d ∈ o.demands, d.Met) ∧
    (o.adjusts → max o.decodeRequestNum 1 ≤ o.maxBatchSize ∧ o.maxBatchSize ≤ maxBatchSize ∧
      o.maxPrefillBatchSize ≤ o.maxBatchSize - o.decodeRequestNum)

instance (m : Nat) (o : Outcome) : Decidable (o.InRange m) :=
  inferInstanceAs (Decidable ((∀ d ∈ o.demands, d.Met) ∧ (_ → _ ∧ _ ∧ _)))

def outcome (c : AdjustCall) : Outcome where
  demands := (s.adjustBatchSize c).demands
  adjusts := s.Adjusts c
  decodeRequestNum := c.maxDecodeRequestNum
  maxBatchSize := (s.adjustBatchSize c).value.schedulerConfig.maxBatchSize
  maxPrefillBatchSize := (s.adjustBatchSize c).value.schedulerConfig.maxPrefillBatchSize

/-- The outcomes of one call after the other. -/
def outcomes (s : DynamicBatchSize) : List AdjustCall → List Outcome
  | [] => []
  | c :: rest => s.outcome c :: outcomes (s.adjustBatchSize c).value rest

/-- A bound of the search, which a missing measurement overwrites. -/
def boundOf (c : AdjustCall) (bound : Nat) : Nat := if c.isMissing then c.maxBatchSize else bound

/-- A search has something to search from: the size that it starts from is large enough, and the
number that it lowers. -/
def Searches (c : AdjustCall) : Prop :=
  (c.isMissing ∨ 2 ≤ s.schedulerConfig.maxBatchSize) ∧
    (s.isSlow c.maxDecodeLatency → 2 ≤ boundOf c s.batchSizeLower) ∧
    (¬s.isSlow c.maxDecodeLatency → s.isFast c.maxDecodeLatency →
      3 ≤ boundOf c s.batchSizeUpper) ∧
    (¬s.isSlow c.maxDecodeLatency → ¬s.isFast c.maxDecodeLatency → 2 ≤ c.maxBatchSize)

/-- A call that overwrites the size and sets no other finds a prefill size that fits. -/
def Keeps (c : AdjustCall) : Prop :=
  c.isMissing → ¬s.setsMinimal c.maxDecodeRequestNum c.maxDecodeLatency →
    s.schedulerConfig.maxPrefillBatchSize + c.maxDecodeRequestNum ≤ 3

def Measured (c : AdjustCall) : Prop :=
  ¬c.isIdle → (s.nextStage = 0 → s.Searches c) ∧ (s.nextStage ≠ 0 → s.Keeps c)

instance (c : AdjustCall) : Decidable (s.Searches c) :=
  inferInstanceAs (Decidable ((_ ∨ _) ∧ (_ → _) ∧ (_ → _ → _) ∧ (_ → _ → _)))

instance (c : AdjustCall) : Decidable (s.Keeps c) := inferInstanceAs (Decidable (_ → _ → _))

instance (c : AdjustCall) : Decidable (s.Measured c) :=
  inferInstanceAs (Decidable (_ → (_ → _) ∧ (_ → _)))

/-- Each call of a run is measured. -/
def AllMeasured (s : DynamicBatchSize) : List AdjustCall → Prop
  | [] => True
  | c :: rest => s.Measured c ∧ AllMeasured (s.adjustBatchSize c).value rest

instance decidableAllMeasured : (s : DynamicBatchSize) → (calls : List AdjustCall) →
    Decidable (s.AllMeasured calls)
  | _, [] => .isTrue trivial
  | s, c :: rest =>
    have := decidableAllMeasured (s.adjustBatchSize c).value rest
    inferInstanceAs (Decidable (_ ∧ _))

/-! ## One call -/

section Call

variable {s} {c : AdjustCall} {m n avg : Nat} {x : Rat}

/-- The bounds that the constructor sets, and a size below them. -/
structure Configured (m : Nat) (s : DynamicBatchSize) : Prop where
  upper : s.batchSizeUpperBound = m
  lower : s.batchSizeLowerBound = 3
  size : s.schedulerConfig.maxBatchSize ≤ m

theorem configured_new (cfg : LatencyConfig) : Configured cfg.maxBatchSize (new cfg) :=
  ⟨rfl, rfl, le_rfl⟩

theorem toU32_of_le (hm : m < 2 ^ 32) (hn : n ≤ m) : toU32 n = n :=
  Nat.mod_eq_of_lt (hn.trans_lt hm)

theorem Configured.nextTurn (h : Configured m s) (h3 : 3 ≤ m) (c : AdjustCall) :
    Configured m (s.nextTurn c) := by
  unfold DynamicBatchSize.nextTurn withMeasurements
  split
  · exact ⟨h.upper, h.lower, by rw [h.lower]; exact h3⟩
  · exact ⟨h.upper, h.lower, h.size⟩

theorem nextTurn_lower : (s.nextTurn c).batchSizeLower = boundOf c s.batchSizeLower := by
  unfold nextTurn withMeasurements boundOf
  split <;> rfl

theorem nextTurn_upper : (s.nextTurn c).batchSizeUpper = boundOf c s.batchSizeUpper := by
  unfold nextTurn withMeasurements boundOf
  split <;> rfl

theorem nextTurn_prefill : (s.nextTurn c).schedulerConfig.maxPrefillBatchSize =
    s.schedulerConfig.maxPrefillBatchSize := by
  unfold nextTurn withMeasurements
  split <;> rfl

theorem nextTurn_expected : (s.nextTurn c).schedulerConfig.decodeExpectedTime =
    s.schedulerConfig.decodeExpectedTime := by
  unfold nextTurn withMeasurements
  split <;> rfl

theorem isSlow_nextTurn : (s.nextTurn c).isSlow x ↔ s.isSlow x := by
  unfold isSlow
  rw [nextTurn_expected]

theorem isFast_nextTurn : (s.nextTurn c).isFast x ↔ s.isFast x := by
  unfold isFast
  rw [nextTurn_expected]

theorem Configured.nextTurn_size_of_missing (h : Configured m s) (hmissing : c.isMissing) :
    (s.nextTurn c).schedulerConfig.maxBatchSize = 3 := by
  unfold DynamicBatchSize.nextTurn withMeasurements
  rw [if_pos hmissing, h.lower]
  rfl

/-- A missing measurement makes the size the lower bound, which is large enough. -/
theorem Configured.two_le_nextTurn_size (h : Configured m s) :
    2 ≤ (s.nextTurn c).schedulerConfig.maxBatchSize ↔
      c.isMissing ∨ 2 ≤ s.schedulerConfig.maxBatchSize := by
  by_cases hmissing : c.isMissing
  · rw [h.nextTurn_size_of_missing hmissing]
    exact iff_of_true (by decide) (.inl hmissing)
  · unfold DynamicBatchSize.nextTurn withMeasurements
    rw [if_neg hmissing, or_iff_right hmissing]

theorem met_moveBounds : (s.moveBounds x avg).Met ↔
    (s.isSlow x → 2 ≤ s.batchSizeLower) ∧
      (¬s.isSlow x → s.isFast x → 3 ≤ s.batchSizeUpper) ∧
      (¬s.isSlow x → ¬s.isFast x → 2 ≤ avg) := by
  unfold moveBounds
  by_cases hslow : s.isSlow x
  · simp [hslow, deltaBatchSize]
  · by_cases hfast : s.isFast x <;> simp [hslow, hfast]

/-- The last step of the search: both sizes are set. -/
theorem applied_inRange (hm : m < 2 ^ 32) {new : Nat} (hle : n ≤ new) (hpos : 1 ≤ new)
    (hnew : new ≤ m) :
    let s' := s.applyUpdatedBatchSize new (new - n)
    max n 1 ≤ s'.schedulerConfig.maxBatchSize ∧ s'.schedulerConfig.maxBatchSize ≤ m ∧
      s'.schedulerConfig.maxPrefillBatchSize ≤ s'.schedulerConfig.maxBatchSize - n := by
  simp only [applyUpdatedBatchSize, toU32_of_le hm hnew,
    toU32_of_le hm ((Nat.sub_le new n).trans hnew)]
  exact ⟨max_le hle hpos, hnew, le_rfl⟩

theorem newPrefillMaxBatchSize_spec {new : Nat} (hn : n ≤ new) (hnew : new < 2 ^ 64) :
    (newPrefillMaxBatchSize new n).Met ∧ (newPrefillMaxBatchSize new n).value = new - n := by
  unfold newPrefillMaxBatchSize
  split
  · exact ⟨met_subU64.mpr hn, value_subU64 hn hnew⟩
  · next hle => exact ⟨Demanding.met_pure 0, (Nat.sub_eq_zero_of_le (Nat.not_lt.mp hle)).symm⟩

/-- The size that the search sets, from the bounds before they are clamped. -/
theorem newSize_le (h3 : 3 ≤ m) (hn : n ≤ m) (u l size least : Nat) :
    let new := min (max (min (max ((min (max u 3) m + min (max l 3) m) / 2) least) (size + 2)) n) m
    n ≤ new ∧ 1 ≤ new ∧ new ≤ m := by
  dsimp only
  omega

/-- Whatever the bounds of the search have become, the new sizes are in range. -/
theorem binarySearchBatchSize_spec (x : Rat) (avg : Nat) (h : Configured m s) (h3 : 3 ≤ m)
    (hm : m < 2 ^ 32) (hn : n ≤ m) :
    ((s.binarySearchBatchSize n x avg).Met ↔
        (s.moveBounds x avg).Met ∧ 2 ≤ s.schedulerConfig.maxBatchSize) ∧
      ∃ upper lower new, n ≤ new ∧ 1 ≤ new ∧ new ≤ m ∧
        (s.binarySearchBatchSize n x avg).value =
          { s with
            batchSizeUpper := upper
            batchSizeLower := lower }.applyUpdatedBatchSize new (new - n) := by
  have hsize := h.size
  have hdouble : addU64 s.schedulerConfig.maxBatchSize deltaBatchSize =
      s.schedulerConfig.maxBatchSize + 2 := by
    rw [deltaBatchSize, addU64_of_lt (by omega)]
  have hleast : (subU64 s.schedulerConfig.maxBatchSize deltaBatchSize).Met ↔
      2 ≤ s.schedulerConfig.maxBatchSize := met_subU64
  have hleastLe (h2 : 2 ≤ s.schedulerConfig.maxBatchSize) :
      (subU64 s.schedulerConfig.maxBatchSize deltaBatchSize).value ≤
        s.schedulerConfig.maxBatchSize + 2 := by
    rw [deltaBatchSize, value_subU64 h2 (by omega)]
    omega
  have hsum (u l : Nat) : addU64 (min (max u 3) m) (min (max l 3) m) =
      min (max u 3) m + min (max l 3) m := addU64_of_lt (by omega)
  obtain ⟨bounds, hbounds⟩ : ∃ bounds, (s.moveBounds x avg).value = bounds := ⟨_, rfl⟩
  obtain ⟨hn, hpos, hle⟩ := newSize_le h3 hn bounds.1 bounds.2 s.schedulerConfig.maxBatchSize
    (subU64 s.schedulerConfig.maxBatchSize deltaBatchSize).value
  obtain ⟨hprefillMet, hprefill⟩ := newPrefillMaxBatchSize_spec hn (by omega)
  unfold binarySearchBatchSize
  constructor
  · rw [Demanding.met_bind, Demanding.met_bind, Demanding.met_bind, Demanding.met_bind,
      Demanding.met_bind, Demanding.met_bind, Demanding.met_bind]
    simp only [met_clamp, value_clamp, hbounds, h.upper, h.lower, hsum, hdouble, hleast]
    exact ⟨fun h => ⟨h.1, h.2.2.2.1⟩, fun h => ⟨h.1, h3, h3, h.2, hleastLe h.2, by omega,
      hprefillMet, Demanding.met_pure _⟩⟩
  · refine ⟨min (max bounds.1 3) m, min (max bounds.2 3) m, _, hn, hpos, hle, ?_⟩
    rw [Demanding.value_bind, Demanding.value_bind, Demanding.value_bind, Demanding.value_bind,
      Demanding.value_bind, Demanding.value_bind, Demanding.value_bind, Demanding.value_pure]
    rw [value_clamp, value_clamp, value_clamp, value_clamp, hbounds, h.upper, h.lower, hsum,
      hdouble, hprefill]

theorem Configured.applyUpdatedBatchSize (h : Configured m s) (hm : m < 2 ^ 32) (hn : n ≤ m)
    (prefill : Nat) : Configured m (s.applyUpdatedBatchSize n prefill) :=
  ⟨h.upper, h.lower, (toU32_of_le hm hn).trans_le hn⟩

theorem Configured.adjustBatchSize (h : Configured m s) (h3 : 3 ≤ m) (hm : m < 2 ^ 32)
    (hn : c.maxDecodeRequestNum ≤ m) : Configured m (s.adjustBatchSize c).value := by
  have h' := h.nextTurn h3 c
  unfold DynamicBatchSize.adjustBatchSize
  split
  · exact h
  · split
    · obtain ⟨-, upper, lower, new, -, -, hnew, heq⟩ :=
        binarySearchBatchSize_spec c.maxDecodeLatency c.maxBatchSize h' h3 hm hn
      rw [heq]
      have h'' : Configured m
          { s.nextTurn c with
            batchSizeUpper := upper
            batchSizeLower := lower } := ⟨h'.upper, h'.lower, h'.size⟩
      exact h''.applyUpdatedBatchSize hm hnew _
    · rw [Demanding.value_pure]
      unfold setMinimalBatchSize
      split
      · exact h'.applyUpdatedBatchSize hm hn 0
      · exact h'

theorem nextStage_eq : s.nextStage = 0 ∨ s.nextStage = 1 := by
  unfold nextStage
  omega

theorem inRange_search_iff (h : Configured m s) (h3 : 3 ≤ m) (hm : m < 2 ^ 32)
    (hn : c.maxDecodeRequestNum ≤ m) (hidle : ¬c.isIdle) (hstage : s.nextStage = 0) :
    (s.outcome c).InRange m ↔ s.Measured c := by
  have heq : s.adjustBatchSize c = (s.nextTurn c).binarySearchBatchSize c.maxDecodeRequestNum
      c.maxDecodeLatency c.maxBatchSize := by
    unfold adjustBatchSize
    rw [if_neg hidle, hstage, if_pos (Nat.zero_mod 2)]
  obtain ⟨hmet, upper, lower, new, hle, hpos, hnew, hvalue⟩ :=
    binarySearchBatchSize_spec c.maxDecodeLatency c.maxBatchSize
      (h.nextTurn h3 c) h3 hm hn
  have hmeasured : s.Measured c ↔ s.Searches c := by
    unfold Measured
    simp [hidle, hstage]
  rw [met_moveBounds, h.two_le_nextTurn_size, nextTurn_lower, nextTurn_upper] at hmet
  simp only [isSlow_nextTurn, isFast_nextTurn] at hmet
  rw [hmeasured, Searches, and_comm, ← hmet, ← heq]
  refine and_iff_left_of_imp fun _ _ => ?_
  unfold outcome
  rw [heq, hvalue]
  exact applied_inRange
    (s := { s.nextTurn c with batchSizeUpper := upper, batchSizeLower := lower }) hm hle hpos hnew

theorem inRange_minimal_iff (h : Configured m s) (h3 : 3 ≤ m) (hm : m < 2 ^ 32)
    (hn : c.maxDecodeRequestNum ≤ m) (hidle : ¬c.isIdle) (hstage : s.nextStage = 1) :
    (s.outcome c).InRange m ↔ s.Measured c := by
  have heq : s.adjustBatchSize c =
      pure ((s.nextTurn c).setMinimalBatchSize c.maxDecodeRequestNum c.maxDecodeLatency) := by
    unfold adjustBatchSize
    rw [if_neg hidle, hstage, if_neg (by decide)]
  have hsets : (s.nextTurn c).setsMinimal c.maxDecodeRequestNum c.maxDecodeLatency ↔
      s.setsMinimal c.maxDecodeRequestNum c.maxDecodeLatency := and_congr_right' isSlow_nextTurn
  have hadjusts : s.Adjusts c ↔
      c.isMissing ∨ s.setsMinimal c.maxDecodeRequestNum c.maxDecodeLatency := by
    unfold Adjusts
    rw [hstage]
    simp [hidle]
  have hmeasured : s.Measured c ↔ s.Keeps c := by
    unfold Measured
    simp [hidle, hstage]
  have hmet : (s.adjustBatchSize c).Met := by
    rw [heq]
    exact Demanding.met_pure _
  rw [hmeasured, Keeps]
  refine (and_iff_right hmet).trans ?_
  unfold outcome
  dsimp only
  rw [decide_eq_true_iff, hadjusts, heq, Demanding.value_pure]
  by_cases hset : s.setsMinimal c.maxDecodeRequestNum c.maxDecodeLatency
  · have hminimal : (s.nextTurn c).setMinimalBatchSize c.maxDecodeRequestNum c.maxDecodeLatency =
        (s.nextTurn c).applyUpdatedBatchSize c.maxDecodeRequestNum
          (c.maxDecodeRequestNum - c.maxDecodeRequestNum) := by
      rw [Nat.sub_self]
      exact if_pos (hsets.mpr hset)
    refine iff_of_true (fun _ => ?_) fun _ hnot => absurd hset hnot
    rw [hminimal]
    exact applied_inRange (s := s.nextTurn c) hm le_rfl (Nat.one_le_iff_ne_zero.mpr hset.1) hn
  · have hkeeps : (s.nextTurn c).setMinimalBatchSize c.maxDecodeRequestNum c.maxDecodeLatency =
        s.nextTurn c := if_neg (mt hsets.mp hset)
    rw [or_iff_left hset, hkeeps, nextTurn_prefill]
    refine forall_congr' fun hmissing => ?_
    rw [h.nextTurn_size_of_missing hmissing, forall_prop_of_true hset]
    omega

/-- **One call is in range if and only if it is measured.** -/
theorem inRange_adjust_iff (h : Configured m s) (h3 : 3 ≤ m) (hm : m < 2 ^ 32)
    (hn : c.maxDecodeRequestNum ≤ m) : (s.outcome c).InRange m ↔ s.Measured c := by
  by_cases hidle : c.isIdle
  · have heq : s.adjustBatchSize c = pure s := if_pos hidle
    refine iff_of_true ⟨?_, fun hadjusts => absurd hidle (of_decide_eq_true hadjusts).1⟩
      fun hnot => absurd hidle hnot
    rw [outcome, heq]
    exact Demanding.met_pure s
  · rcases nextStage_eq (s := s) with hstage | hstage
    · exact inRange_search_iff h h3 hm hn hidle hstage
    · exact inRange_minimal_iff h h3 hm hn hidle hstage

end Call

/-! ## Runs -/

variable {s} {m : Nat}

theorem inRange_outcomes_iff_of_configured (h3 : 3 ≤ m) (hm : m < 2 ^ 32) {calls : List AdjustCall}
    (h : Configured m s) (hcalls : ∀ c ∈ calls, c.maxDecodeRequestNum ≤ m) :
    (∀ o ∈ s.outcomes calls, o.InRange m) ↔ s.AllMeasured calls := by
  induction calls generalizing s with
  | nil => exact iff_of_true nofun trivial
  | cons c rest ih =>
    obtain ⟨hc, hrest⟩ := List.forall_mem_cons.mp hcalls
    rw [outcomes, List.forall_mem_cons, AllMeasured, inRange_adjust_iff h h3 hm hc,
      ih (h.adjustBatchSize h3 hm hc) hrest]

/-- **The calls of a run are in range if and only if each of them is measured.** -/
theorem inRange_outcomes_iff (cfg : LatencyConfig) (h3 : 3 ≤ cfg.maxBatchSize)
    (hm : cfg.maxBatchSize < 2 ^ 32) (calls : List AdjustCall)
    (hcalls : ∀ c ∈ calls, c.maxDecodeRequestNum ≤ cfg.maxBatchSize) :
    (∀ o ∈ (new cfg).outcomes calls, o.InRange cfg.maxBatchSize) ↔ (new cfg).AllMeasured calls :=
  inRange_outcomes_iff_of_configured h3 hm (configured_new cfg) hcalls

/-- The size is cut to what is decoded, and then searched for. -/
theorem inRange_outcomes_slow :
    let slow : AdjustCall := ⟨1, 4, 10, 0, 60, 10, 10⟩
    let cfg : LatencyConfig :=
      { cacheBlockSize := 128, maxBatchSize := 200, maxPrefillBatchSize := 50 }
    ∀ o ∈ (new cfg).outcomes [slow, slow, slow], o.InRange 200 :=
  (inRange_outcomes_iff _ (by decide) (by decide) _ (by decide)).mpr (by decide +kernel)

/-- One request is decoded slowly: the size becomes 1, and the next call subtracts 2 from it to get
the lower bound of a clamp. -/
theorem not_inRange_outcomes :
    let slow : AdjustCall := ⟨1, 1, 1, 0, 60, 1, 1⟩
    let cfg : LatencyConfig :=
      { cacheBlockSize := 128, maxBatchSize := 200, maxPrefillBatchSize := 50 }
    ¬∀ o ∈ (new cfg).outcomes [slow, slow], o.InRange 200 := by
  decide +kernel

end DynamicBatchSize

end MindieLLM
