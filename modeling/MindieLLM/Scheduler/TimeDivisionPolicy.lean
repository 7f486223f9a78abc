import MindieLLM.Program.Reaches
import MindieLLM.Scheduler.FcfsPolicy

/-!
# Time division of the stages

The policy that divides the time between the stages keeps, for the batches that ended last, the
type of each and how long it took, and the time that each stage had among them. The oldest batches
leave this window until the time of both stages together fits.

A batch of both stages takes time of neither. It leaves the window like a batch of the decode
stage: its time is taken off what decoding had, or off the local total that says when to stop.

## Main definitions

* `TimeDivisionPolicy.markInferenceStartTimeStamp`, `TimeDivisionPolicy.markInferenceEndTimeStamp`:
  the notifications
* `notify`: the policy as a machine that is told of batches at times that do not decrease
* `TimeDivisionPolicy.Exact`: the time of each stage is the time of its batches in the window
* `Spared`: no batch of both stages that took time has to leave

## Main results

* `TimeDivisionPolicy.Draining.shorten`: the loop over the window
* `TimeDivisionPolicy.sums_of_reaches`: the times are exact as long as no mixed batch must leave
-/

namespace MindieLLM

open Program

/-- The type of a batch with a time: when it started, or how long it took. -/
abbrev TimeRecord := PDPriorityType × Nat

/-- Unsigned 64-bit subtraction. -/
def uint64Sub (a b : Nat) : Nat := (a + 2 ^ 64 - b) % 2 ^ 64

theorem uint64Sub_eq {a b : Nat} (hle : b ≤ a) (ha : a < 2 ^ 64) : uint64Sub a b = a - b := by
  have hsub : a - b < 2 ^ 64 := (Nat.sub_le a b).trans_lt ha
  have hadd : a + 2 ^ 64 - b = a - b + 2 ^ 64 := by omega
  rw [uint64Sub, hadd, Nat.add_mod_right, Nat.mod_eq_of_lt hsub]

structure TimeDivisionPolicy where
  prefillInferenceTime : Nat := 0
  decodeInferenceTime : Nat := 0
  inferenceStartTimeRecords : List TimeRecord := []
  inferenceTimeWindow : List TimeRecord := []
  /-- Whether an unsigned subtraction wrapped; the source keeps no such flag. -/
  wrapped : Bool := false

namespace TimeDivisionPolicy

def windowDuration : Nat := 2000000

/-! ## The window -/

/-- The time of an entry that leaves is taken off a stage. -/
def takeOff (s : TimeDivisionPolicy) (entry : TimeRecord) : TimeDivisionPolicy :=
  if entry.1 = .prefillFirst ∧ entry.2 ≤ s.prefillInferenceTime then
    { s with prefillInferenceTime := uint64Sub s.prefillInferenceTime entry.2
             wrapped := s.wrapped || decide (s.prefillInferenceTime < entry.2) }
  else if entry.2 ≤ s.decodeInferenceTime then
    { s with decodeInferenceTime := uint64Sub s.decodeInferenceTime entry.2
             wrapped := s.wrapped || decide (s.decodeInferenceTime < entry.2) }
  else s

/-- One turn of the loop that shortens the window: the oldest entry leaves, and its time is taken
off a stage and off the local total. -/
def popFront (s : TimeDivisionPolicy) (totalTime : Nat) (entry : TimeRecord)
    (rest : List TimeRecord) : TimeDivisionPolicy × Nat :=
  if entry.2 < totalTime then
    ({ s.takeOff entry with
        inferenceTimeWindow := rest
        wrapped := (s.takeOff entry).wrapped || decide (totalTime < entry.2) },
      uint64Sub totalTime entry.2)
  else ({ s.takeOff entry with inferenceTimeWindow := rest }, totalTime)

/-- The loop over the window, whose entries are `window`. -/
def shorten : TimeDivisionPolicy → Nat → List TimeRecord → TimeDivisionPolicy
  | s, _, [] => s
  | s, totalTime, entry :: rest =>
    if windowDuration < totalTime then
      shorten (s.popFront totalTime entry rest).1 (s.popFront totalTime entry rest).2 rest
    else s

def updateSlideWindow (s : TimeDivisionPolicy) : TimeDivisionPolicy :=
  s.shorten ((s.prefillInferenceTime + s.decodeInferenceTime) % 2 ^ 64) s.inferenceTimeWindow

/-! ## The notifications -/

def markInferenceStartTimeStamp (s : TimeDivisionPolicy) (type : PDPriorityType) (now : Nat) :
    TimeDivisionPolicy :=
  { s with inferenceStartTimeRecords := s.inferenceStartTimeRecords ++ [(type, now)] }

/-- The batch that started first has ended: its time enters the window. -/
def record (s : TimeDivisionPolicy) (endTime : Nat) (type : PDPriorityType) (lastStartTime : Nat)
    (rest : List TimeRecord) : TimeDivisionPolicy :=
  let inferenceTime := uint64Sub endTime lastStartTime
  { prefillInferenceTime :=
      if type = .prefillFirst then (s.prefillInferenceTime + inferenceTime) % 2 ^ 64
      else s.prefillInferenceTime
    decodeInferenceTime :=
      if type = .decodeFirst then (s.decodeInferenceTime + inferenceTime) % 2 ^ 64
      else s.decodeInferenceTime
    inferenceStartTimeRecords := rest
    inferenceTimeWindow := s.inferenceTimeWindow ++ [(type, inferenceTime)]
    wrapped := s.wrapped || decide (endTime < lastStartTime) }

def markInferenceEndTimeStamp (s : TimeDivisionPolicy) (endTime : Nat) : TimeDivisionPolicy :=
  match s.inferenceStartTimeRecords with
  | [] => s
  | (type, lastStartTime) :: rest => (s.record endTime type lastStartTime rest).updateSlideWindow

end TimeDivisionPolicy

/-! ## Runs -/

/-- A notification, at a time in microseconds. -/
inductive Notification
  | start (type : PDPriorityType) (now : Nat)
  | finish (now : Nat)

def Notification.now : Notification → Nat
  | .start _ now => now
  | .finish now => now

/-- The policy, and when it was last notified. -/
structure Notified where
  policy : TimeDivisionPolicy := {}
  last : Nat := 0

/-- One notification. Times do not decrease; the clock counts nanoseconds in 63 bits. -/
def notify (s : Notified) (n : Notification) : Option Notified :=
  if s.last ≤ n.now ∧ n.now ≤ (2 ^ 63 - 1) / 1000 then
    some
      { policy :=
          match n with
          | .start type now => s.policy.markInferenceStartTimeStamp type now
          | .finish now => s.policy.markInferenceEndTimeStamp now
        last := n.now }
  else none

/-! ## What is to hold -/

/-- The time that the batches of a type took. -/
def timeOf (type : PDPriorityType) : List TimeRecord → Nat
  | [] => 0
  | entry :: rest => (if entry.1 = type then entry.2 else 0) + timeOf type rest

/-- The time that the batches of both stages took, those of one stage each. -/
def stageTime (window : List TimeRecord) : Nat :=
  timeOf .prefillFirst window + timeOf .decodeFirst window

/-- **The running sums are those of the window.** -/
structure TimeDivisionPolicy.Exact (s : TimeDivisionPolicy) : Prop where
  prefill : s.prefillInferenceTime = timeOf .prefillFirst s.inferenceTimeWindow
  decode : s.decodeInferenceTime = timeOf .decodeFirst s.inferenceTimeWindow
  total : s.prefillInferenceTime + s.decodeInferenceTime ≤ TimeDivisionPolicy.windowDuration
  notWrapped : s.wrapped = false

/-- No mixed batch that took time is among the entries that have to leave so that the stage time
fits. One that took longer than all stage time after it is spared too: nothing is taken off. -/
def Spared : List TimeRecord → Prop
  | [] => True
  | entry :: rest =>
    TimeDivisionPolicy.windowDuration < stageTime (entry :: rest) →
      (entry.1 = .mix → entry.2 = 0 ∨
        timeOf .decodeFirst rest < entry.2 ∧ stageTime rest ≤ entry.2) ∧ Spared rest

/-- The condition on a step: the end of a batch makes no mixed batch leave that took time. -/
def SparesMixed (s : Notified) : Notification → Prop
  | .start _ _ => True
  | .finish now => ∀ r ∈ s.policy.inferenceStartTimeRecords.head?,
    Spared (s.policy.inferenceTimeWindow ++ [(r.1, now - r.2)])

/-! ## Sums over the window -/

section Window

variable {type : PDPriorityType} {rest : List TimeRecord}

theorem timeOf_cons_self (d : Nat) : timeOf type ((type, d) :: rest) = d + timeOf type rest := by
  rw [timeOf, if_pos rfl]

theorem timeOf_cons_of_ne {other : PDPriorityType} {d : Nat} (h : other ≠ type) :
    timeOf type ((other, d) :: rest) = timeOf type rest := by
  rw [timeOf, if_neg h, Nat.zero_add]

theorem timeOf_append (xs ys : List TimeRecord) :
    timeOf type (xs ++ ys) = timeOf type xs + timeOf type ys := by
  induction xs with
  | nil => exact (Nat.zero_add _).symm
  | cons entry xs ih => rw [List.cons_append, timeOf, timeOf, ih, Nat.add_assoc]

/-- A window that fits spares all of its entries. -/
theorem spared_of_le (h : stageTime rest ≤ TimeDivisionPolicy.windowDuration) : Spared rest := by
  cases rest with
  | nil => trivial
  | cons entry rest => exact fun hlt => absurd h hlt.not_ge

end Window

namespace TimeDivisionPolicy

variable {s : TimeDivisionPolicy} {totalTime : Nat} {entry : TimeRecord} {rest : List TimeRecord}

/-- What the loop keeps: the sums are those of the entries still to come, and the local total is
theirs, or else nothing is left to take off. -/
structure Draining (s : TimeDivisionPolicy) (totalTime : Nat) : Prop where
  prefill : s.prefillInferenceTime = timeOf .prefillFirst s.inferenceTimeWindow
  decode : s.decodeInferenceTime = timeOf .decodeFirst s.inferenceTimeWindow
  total : totalTime = s.prefillInferenceTime + s.decodeInferenceTime ∨
    s.prefillInferenceTime + s.decodeInferenceTime = 0
  fits : s.prefillInferenceTime + s.decodeInferenceTime < 2 ^ 64
  totalFits : totalTime < 2 ^ 64
  notWrapped : s.wrapped = false

/-- What is left of the local total. -/
def totalAfter (totalTime d : Nat) : Nat := if d < totalTime then totalTime - d else totalTime

theorem totalAfter_lt (d : Nat) (h : totalTime < 2 ^ 64) : totalAfter totalTime d < 2 ^ 64 := by
  unfold totalAfter
  split_ifs
  · omega
  · exact h

theorem takeOff_prefill (htype : entry.1 = .prefillFirst) (hle : entry.2 ≤ s.prefillInferenceTime)
    (hfits : s.prefillInferenceTime < 2 ^ 64) :
    s.takeOff entry = { s with prefillInferenceTime := s.prefillInferenceTime - entry.2 } := by
  rw [takeOff, if_pos ⟨htype, hle⟩, uint64Sub_eq hle hfits, decide_eq_false hle.not_gt,
    Bool.or_false]

theorem takeOff_decode (htype : entry.1 ≠ .prefillFirst) (hle : entry.2 ≤ s.decodeInferenceTime)
    (hfits : s.decodeInferenceTime < 2 ^ 64) :
    s.takeOff entry = { s with decodeInferenceTime := s.decodeInferenceTime - entry.2 } := by
  rw [takeOff, if_neg fun h => htype h.1, if_pos hle, uint64Sub_eq hle hfits,
    decide_eq_false hle.not_gt, Bool.or_false]

theorem takeOff_untouched (htype : entry.1 ≠ .prefillFirst)
    (hlt : s.decodeInferenceTime < entry.2) : s.takeOff entry = s := by
  rw [takeOff, if_neg fun h => htype h.1, if_neg hlt.not_ge]

theorem popFront_eq (htotal : totalTime < 2 ^ 64) :
    s.popFront totalTime entry rest =
      ({ s.takeOff entry with inferenceTimeWindow := rest }, totalAfter totalTime entry.2) := by
  unfold popFront totalAfter
  split_ifs with hlt
  · rw [uint64Sub_eq hlt.le htotal, decide_eq_false hlt.not_gt, Bool.or_false]
  · rfl

/-- The local total stays that of the stages when the time of an entry is taken off both. -/
theorem total_after {p d p' d' t : Nat} (h : totalTime = p + d ∨ p + d = 0)
    (hoff : p + d = p' + d' + t) : totalAfter totalTime t = p' + d' ∨ p' + d' = 0 := by
  unfold totalAfter
  split_ifs <;> omega

/-- **One turn of the loop.** -/
theorem Draining.popFront (h : Draining s totalTime)
    (hwindow : s.inferenceTimeWindow = entry :: rest)
    (hmix : totalTime = stageTime (entry :: rest) → entry.1 = .mix → entry.2 = 0 ∨
      timeOf .decodeFirst rest < entry.2 ∧ stageTime rest ≤ entry.2) :
    Draining (s.popFront totalTime entry rest).1 (s.popFront totalTime entry rest).2 ∧
      (s.popFront totalTime entry rest).1.inferenceTimeWindow = rest := by
  obtain ⟨hprefill, hdecode, htotal, hfits, htotalFits, hwrapped⟩ := h
  obtain ⟨type, t⟩ := entry
  rw [hwindow] at hprefill hdecode
  have hafter := totalAfter_lt t htotalFits
  have hfitsP : s.prefillInferenceTime < 2 ^ 64 := (Nat.le_add_right _ _).trans_lt hfits
  have hfitsD : s.decodeInferenceTime < 2 ^ 64 := (Nat.le_add_left _ _).trans_lt hfits
  cases type with
  | prefillFirst =>
    rw [timeOf_cons_self] at hprefill
    rw [timeOf_cons_of_ne (by decide)] at hdecode
    have hle : t ≤ s.prefillInferenceTime := by omega
    rw [popFront_eq htotalFits, takeOff_prefill rfl hle hfitsP]
    refine ⟨⟨?_, hdecode, total_after htotal ?_, ?_, hafter, hwrapped⟩, rfl⟩
    · show s.prefillInferenceTime - t = timeOf .prefillFirst rest
      omega
    · show _ = s.prefillInferenceTime - t + s.decodeInferenceTime + t
      omega
    · show s.prefillInferenceTime - t + s.decodeInferenceTime < 2 ^ 64
      omega
  | decodeFirst =>
    rw [timeOf_cons_of_ne (by decide)] at hprefill
    rw [timeOf_cons_self] at hdecode
    have hle : t ≤ s.decodeInferenceTime := by omega
    rw [popFront_eq htotalFits, takeOff_decode (fun h => by cases h) hle hfitsD]
    refine ⟨⟨hprefill, ?_, total_after htotal ?_, ?_, hafter, hwrapped⟩, rfl⟩
    · show s.decodeInferenceTime - t = timeOf .decodeFirst rest
      omega
    · show _ = s.prefillInferenceTime + (s.decodeInferenceTime - t) + t
      omega
    · show s.prefillInferenceTime + (s.decodeInferenceTime - t) < 2 ^ 64
      omega
  | mix =>
    have hstage : stageTime ((.mix, t) :: rest) = stageTime rest := by
      unfold stageTime
      rw [timeOf_cons_of_ne (by decide), timeOf_cons_of_ne (by decide)]
    rw [timeOf_cons_of_ne (by decide)] at hprefill hdecode
    have hsum : s.prefillInferenceTime + s.decodeInferenceTime = stageTime rest := by
      rw [hprefill, hdecode, stageTime]
    rcases Nat.lt_or_ge s.decodeInferenceTime t with hlt | hle
    · -- the entry is longer than all decoding, and nothing is taken off a stage
      rw [popFront_eq htotalFits, takeOff_untouched (fun h => by cases h) hlt]
      refine ⟨⟨hprefill, hdecode, ?_, hfits, hafter, hwrapped⟩, rfl⟩
      show totalAfter totalTime t = _ ∨ _
      rcases htotal with heq | hzero
      · rcases hmix (by rw [heq, hsum, hstage]) rfl with hnone | ⟨-, hlong⟩
        · omega
        · left
          rw [totalAfter, if_neg (by omega), heq]
      · exact .inr hzero
    · -- then it took no time
      have hnone : t = 0 := by
        rcases htotal with heq | hzero
        · rcases hmix (by rw [heq, hsum, hstage]) rfl with hnone | ⟨hlong, -⟩
          · exact hnone
          · omega
        · omega
      rw [popFront_eq htotalFits, takeOff_decode (fun h => by cases h) hle hfitsD]
      subst hnone
      exact ⟨⟨hprefill, hdecode, total_after htotal rfl, hfits, hafter, hwrapped⟩, rfl⟩

/-- **The loop over the window.** The sums are those of what is left, and they fit. -/
theorem Draining.shorten (h : Draining s totalTime) (hspared : Spared s.inferenceTimeWindow) :
    (s.shorten totalTime s.inferenceTimeWindow).Exact := by
  generalize hwindow : s.inferenceTimeWindow = window
  induction window generalizing s totalTime with
  | nil =>
    refine ⟨h.prefill, h.decode, ?_, h.notWrapped⟩
    show s.prefillInferenceTime + s.decodeInferenceTime ≤ windowDuration
    rw [h.prefill, h.decode, hwindow]
    exact Nat.zero_le _
  | cons entry rest ih =>
    rw [hwindow] at hspared
    have hsum : s.prefillInferenceTime + s.decodeInferenceTime = stageTime (entry :: rest) := by
      rw [h.prefill, h.decode, hwindow, stageTime]
    rw [TimeDivisionPolicy.shorten]
    split_ifs with hmore
    · obtain ⟨hnext, hrest⟩ := h.popFront hwindow fun heq => (hspared (heq ▸ hmore)).1
      apply ih hnext _ hrest
      rw [hrest]
      rcases h.total with heq | hzero
      · exact (hspared (by rw [← hsum, ← heq]; exact hmore)).2
      · apply spared_of_le
        have hle : stageTime rest ≤ stageTime (entry :: rest) := by
          simp only [stageTime, timeOf]
          omega
        rw [← hsum, hzero] at hle
        exact hle.trans (Nat.zero_le _)
    · refine ⟨h.prefill, h.decode, ?_, h.notWrapped⟩
      rcases h.total with heq | hzero
      · rw [← heq]
        exact Nat.le_of_not_lt hmore
      · rw [hzero]
        exact Nat.zero_le _

theorem Exact.updateSlideWindow {s' : TimeDivisionPolicy}
    (hprefill : s'.prefillInferenceTime = timeOf .prefillFirst s'.inferenceTimeWindow)
    (hdecode : s'.decodeInferenceTime = timeOf .decodeFirst s'.inferenceTimeWindow)
    (hfits : s'.prefillInferenceTime + s'.decodeInferenceTime < 2 ^ 64)
    (hwrapped : s'.wrapped = false) (hspared : Spared s'.inferenceTimeWindow) :
    s'.updateSlideWindow.Exact := by
  have hdrain : Draining s' ((s'.prefillInferenceTime + s'.decodeInferenceTime) % 2 ^ 64) := by
    rw [Nat.mod_eq_of_lt hfits]
    exact ⟨hprefill, hdecode, .inl rfl, hfits, hfits, hwrapped⟩
  exact hdrain.shorten hspared

/-- **The end of a batch.** -/
theorem Exact.markInferenceEndTimeStamp (h : s.Exact) {endTime last : Nat}
    (hnow : endTime ≤ (2 ^ 63 - 1) / 1000)
    (hrecords : ∀ r ∈ s.inferenceStartTimeRecords, r.2 ≤ endTime)
    (hspared : SparesMixed ⟨s, last⟩ (.finish endTime)) :
    (s.markInferenceEndTimeStamp endTime).Exact := by
  unfold TimeDivisionPolicy.markInferenceEndTimeStamp
  split
  · exact h
  · next type startTime rest heq =>
    have hspared := hspared (type, startTime) (by rw [heq]; rfl)
    have hle : startTime ≤ endTime := hrecords (type, startTime) (by rw [heq]; exact .head _)
    have hsub : uint64Sub endTime startTime = endTime - startTime :=
      uint64Sub_eq hle (hnow.trans_lt (by decide))
    have htotal := h.total
    have hwindow : windowDuration = 2000000 := rfl
    apply Exact.updateSlideWindow
    all_goals simp only [record, hsub, timeOf_append, timeOf, ← h.prefill, ← h.decode]
    · split_ifs <;> omega
    · split_ifs <;> omega
    · split_ifs <;> omega
    · rw [h.notWrapped, decide_eq_false hle.not_gt, Bool.or_false]
    · exact hspared

end TimeDivisionPolicy

/-! ## Runs -/

/-- What holds in a run: the sums are exact, and no start lies in the future. -/
structure Notified.Inv (s : Notified) : Prop where
  exact : s.policy.Exact
  records : ∀ r ∈ s.policy.inferenceStartTimeRecords, r.2 ≤ s.last

theorem inferenceStartTimeRecords_takeOff (s : TimeDivisionPolicy) (entry : TimeRecord) :
    (s.takeOff entry).inferenceStartTimeRecords = s.inferenceStartTimeRecords := by
  unfold TimeDivisionPolicy.takeOff
  split_ifs <;> rfl

theorem inferenceStartTimeRecords_shorten (s : TimeDivisionPolicy) (totalTime : Nat)
    (window : List TimeRecord) :
    (s.shorten totalTime window).inferenceStartTimeRecords = s.inferenceStartTimeRecords := by
  induction window generalizing s totalTime with
  | nil => rfl
  | cons entry rest ih =>
    rw [TimeDivisionPolicy.shorten]
    split_ifs
    · rw [ih, ← inferenceStartTimeRecords_takeOff s entry, TimeDivisionPolicy.popFront]
      split_ifs <;> rfl
    · rfl

/-- **One notification.** -/
theorem Notified.Inv.notify {s s' : Notified} {n : Notification} (h : s.Inv)
    (hspared : SparesMixed s n) (hs : notify s n = some s') : s'.Inv := by
  unfold MindieLLM.notify at hs
  split_ifs at hs with hnow
  obtain rfl := Option.some.inj hs
  obtain ⟨hlast, hbound⟩ := hnow
  have hrecords : ∀ r ∈ s.policy.inferenceStartTimeRecords, r.2 ≤ n.now := fun r hr =>
    (h.records r hr).trans hlast
  cases n with
  | start type now =>
    refine ⟨⟨h.exact.prefill, h.exact.decode, h.exact.total, h.exact.notWrapped⟩, ?_⟩
    intro r hr
    rcases List.mem_append.mp hr with hold | hnew
    · exact hrecords r hold
    · obtain rfl := List.mem_singleton.mp hnew
      exact le_rfl
  | finish now =>
    refine ⟨h.exact.markInferenceEndTimeStamp hbound hrecords hspared, ?_⟩
    intro r hr
    apply hrecords
    revert hr
    show r ∈ (s.policy.markInferenceEndTimeStamp now).inferenceStartTimeRecords → _
    unfold TimeDivisionPolicy.markInferenceEndTimeStamp
    split
    · exact id
    · next heq =>
      rw [TimeDivisionPolicy.updateSlideWindow, inferenceStartTimeRecords_shorten, heq]
      exact List.mem_cons_of_mem _

/-- **The window in every run.** As long as no mixed batch that took time has to leave it, the time
of each stage is that of its batches in the window, both fit the duration of the window, and no
subtraction wraps. -/
theorem TimeDivisionPolicy.sums_of_reaches {s : Notified} (h : Reaches notify SparesMixed {} s) :
    s.policy.Exact := by
  have hinv : s.Inv := by
    refine h.invariant ⟨⟨rfl, rfl, Nat.zero_le _, rfl⟩, fun r hr => absurd hr List.not_mem_nil⟩ ?_
    exact fun s n s' hs hn hstep => hs.notify hn hstep
  exact hinv.exact

/-! ## Runs on fixed input -/

instance decidableSpared : ∀ window, Decidable (Spared window)
  | [] => isTrue trivial
  | _ :: rest =>
    have := decidableSpared rest
    inferInstanceAs (Decidable (_ → _ ∧ _))

instance (s : Notified) : (n : Notification) → Decidable (SparesMixed s n)
  | .start _ _ => isTrue trivial
  | .finish _ => inferInstanceAs (Decidable (∀ r ∈ _, Spared _))

/-- A batch of each stage and one of both, and the one of both is too recent to leave. -/
def mixedLast : List Notification :=
  [.start .decodeFirst 0, .finish 1000000, .start .mix 1000000, .finish 1500000,
    .start .prefillFirst 1500000, .finish 3000000]

theorem TimeDivisionPolicy.exact_mixedLast : ∃ s, Reaches notify SparesMixed {} s ∧
    s.policy.inferenceTimeWindow = [(.mix, 500000), (.prefillFirst, 1500000)] ∧ s.policy.Exact := by
  obtain ⟨s, hs, hwindow⟩ : ∃ s, Reaches notify SparesMixed {} s ∧
      s.policy.inferenceTimeWindow = [(.mix, 500000), (.prefillFirst, 1500000)] :=
    exists_reaches mixedLast (by decide +kernel)
  exact ⟨s, hs, hwindow, sums_of_reaches hs⟩

/-- A batch of both stages is the oldest one, and leaves. -/
def mixedFirst : List Notification :=
  [.start .mix 0, .finish 1000000, .start .decodeFirst 1000000, .finish 2000000,
    .start .prefillFirst 2000000, .finish 3500000]

/-- The time of the mixed batch is taken off decoding, which had none of it. -/
theorem TimeDivisionPolicy.not_exact_mixedFirst :
    ¬ ∀ s, Reaches notify (fun _ _ => True) {} s → s.policy.Exact := by
  intro h
  obtain ⟨s, hs, hdecode, hwindow⟩ : ∃ s, Reaches notify (fun _ _ => True) {} s ∧
      s.policy.decodeInferenceTime = 0 ∧
      s.policy.inferenceTimeWindow = [(.decodeFirst, 1000000), (.prefillFirst, 1500000)] :=
    exists_reaches mixedFirst (by decide +kernel)
  have heq := (h s hs).decode
  rw [hdecode, hwindow] at heq
  exact absurd heq (by decide)

end MindieLLM
