import MindieLLM.Program.Demands
import MindieLLM.Program.WeightedAverage
import Mathlib.Data.List.Induction

/-!
# The recent average batch size

The sizes of the batches that have been decoded are recorded in a window. What they have been
lately, on average, is asked for a number of requests: the batches count with their sizes, from the
newest back to the one that goes beyond the number, which has only a part in it.

That batch is counted with the other part. The average is then right where that makes no difference
to the whole number that it is rounded to. Sizes are of 64 bits.

## Main definitions

* `DecodeBatchSizeTracker.addDataPoint`, `DecodeBatchSizeTracker.getRecentAvgBatchSize`
* `DecodeBatchSizeTracker.recentPoints n points`: the batches of the most recent `n` requests
* `DecodeBatchSizeTracker.IsRecentAverage`: what is asked of an average
* `DecodeBatchSizeTracker.Evenly`: the two parts of a batch weigh alike

## Main results

* `DecodeBatchSizeTracker.queue_record`: the window has the newest sizes
* `DecodeBatchSizeTracker.isRecentAverage_iff`: the average is right if and only if the parts weigh
  alike
* `DecodeBatchSizeTracker.not_isRecentAverage`: a large batch of which a small part is recent
-/

namespace MindieLLM

open Program

structure DecodeBatchSizeTracker where
  windowSize : ℕ
  /-- The oldest size is the first. -/
  queue : List ℕ := []

namespace DecodeBatchSizeTracker

def addDataPoint (t : DecodeBatchSizeTracker) (batchSize : ℕ) : DecodeBatchSizeTracker :=
  { t with
    queue := (if t.queue.length = t.windowSize then t.queue.tail else t.queue) ++ [batchSize] }

/-- The loop over the sizes, from the newest: `dataPoint` with `dataCnt`. -/
def countPoints (forwardNum : ℕ) : ℕ → List ℕ → List (ℕ × ℕ)
  | _, [] => []
  | sumVal, b :: rest =>
    let sumVal := addU64 sumVal b
    if sumVal < forwardNum then (b, b) :: countPoints forwardNum sumVal rest
    else if sumVal = forwardNum then [(b, b)]
    else [(b, sumVal - forwardNum)]

def getRecentAvgBatchSize (t : DecodeBatchSizeTracker) (forwardNum : ℕ) : ℕ :=
  if t.queue = [] then 0
  else
    let points := countPoints forwardNum 0 t.queue.reverse
    let weightedSum := points.foldl (fun sum p => addU64 sum (mulU64 p.1 p.2)) 0
    let cnt := points.foldl (fun sum p => addU64 sum p.2) 0
    if cnt = 0 then 0 else weightedSum / cnt

/-- One call after the other, from the constructor on. -/
def record (windowSize : ℕ) (sizes : List ℕ) : DecodeBatchSizeTracker :=
  sizes.foldl addDataPoint { windowSize := windowSize }

/-! ## What is asked for -/

/-- The batches of the most recent `n` requests, from the newest, and how many of them are in
each. -/
def recentPoints (n : ℕ) : List ℕ → List (ℕ × ℕ)
  | [] => []
  | b :: rest =>
    if n = 0 then [] else if b ≤ n then (b, b) :: recentPoints (n - b) rest else [(b, n)]

/-- The average, which is between the least and the greatest of the sizes. -/
structure IsRecentAverage (forwardNum : ℕ) (points : List ℕ) (avg : ℕ) : Prop where
  average : avg = weightedAverage (recentPoints forwardNum points)
  least : 0 < totalWeight (recentPoints forwardNum points) →
    ∃ p ∈ recentPoints forwardNum points, 0 < p.2 ∧ p.1 ≤ avg
  greatest : 0 < totalWeight (recentPoints forwardNum points) →
    ∃ p ∈ recentPoints forwardNum points, 0 < p.2 ∧ avg ≤ p.1

/-- Batches that count in full. -/
def inFull (sizes : List ℕ) : List (ℕ × ℕ) := sizes.map fun b => (b, b)

/-- The batch of which only a part is among the most recent `n` requests, and those that are newer.
-/
def crossing (n : ℕ) : List ℕ → Option (List ℕ × ℕ)
  | [] => none
  | b :: rest =>
    if n = 0 then none
    else if b ≤ n then (crossing (n - b) rest).map fun c => (b :: c.1, c.2)
    else some ([], b)

/-- There are requests asked for, and where a batch crosses, what the newer ones exceed it by is
the same whole number when it is shared out to them and the one part, or to them and the other. -/
def Evenly (forwardNum : ℕ) (points : List ℕ) : Prop :=
  (forwardNum = 0 → points.headD 0 = 0) ∧
    ∀ newer b, crossing forwardNum points = some (newer, b) →
      excess b (inFull newer) / (forwardNum : ℤ) =
        excess b (inFull newer) / ((2 * newer.sum + b - forwardNum : ℕ) : ℤ)

/-! ## The window -/

variable {windowSize forwardNum sumVal n b : ℕ} {points newer : List ℕ}

theorem windowSize_record (sizes : List ℕ) : (record windowSize sizes).windowSize = windowSize := by
  induction sizes using List.reverseRecOn with
  | nil => rfl
  | append_singleton sizes b ih =>
    unfold record
    rw [List.foldl_concat]
    exact ih

/-- A window that has the newest sizes has them after one more. -/
theorem queue_addDataPoint {t : DecodeBatchSizeTracker} (hpos : 0 < t.windowSize)
    (h : t.queue.reverse = points.take t.windowSize) :
    (t.addDataPoint b).queue.reverse = (b :: points).take t.windowSize := by
  obtain ⟨w, hw⟩ := Nat.exists_eq_add_one.mpr hpos
  have hlength : t.queue.length = min t.windowSize points.length := by
    rw [← List.length_reverse, h, List.length_take]
  unfold addDataPoint
  dsimp only
  rw [List.reverse_append, List.reverse_singleton, List.singleton_append, hw, List.take_succ_cons]
  refine congrArg (b :: ·) ?_
  split
  · -- the window is full, and loses its oldest size
    next hfull =>
    rw [← List.dropLast_reverse, h, List.dropLast_eq_take, List.length_take, List.take_take]
    exact congrArg points.take (by omega)
  · next hfull =>
    have hle : points.length ≤ w := by omega
    rw [h, hw, List.take_of_length_le (hle.trans w.le_succ), List.take_of_length_le hle]

/-- **The window has the newest sizes.** -/
theorem queue_record (hpos : 0 < windowSize) (sizes : List ℕ) :
    (record windowSize sizes).queue.reverse = sizes.reverse.take windowSize := by
  induction sizes using List.reverseRecOn with
  | nil => exact List.take_nil.symm
  | append_singleton sizes b ih =>
    have hsize : (record windowSize sizes).windowSize = windowSize := windowSize_record sizes
    rw [List.reverse_append, List.reverse_singleton, List.singleton_append]
    have hstep := queue_addDataPoint (b := b) (t := record windowSize sizes) (by rwa [hsize])
      (by rwa [hsize])
    rw [hsize] at hstep
    unfold record
    rw [List.foldl_concat]
    exact hstep

/-! ## The loop -/

theorem totalWeight_inFull (sizes : List ℕ) : totalWeight (inFull sizes) = sizes.sum := by
  unfold totalWeight inFull
  rw [List.map_map]
  exact congrArg List.sum (List.map_id sizes)

/-- A batch that crosses: those before it are recent, and it has requests on both sides. -/
theorem crossing_spec (h : crossing n points = some (newer, b)) :
    newer.sum < n ∧ n < newer.sum + b ∧
      recentPoints n points = inFull newer ++ [(b, n - newer.sum)] := by
  induction points generalizing n newer with
  | nil => cases h
  | cons b' rest ih =>
    unfold crossing at h
    unfold recentPoints
    by_cases hzero : n = 0
    · rw [if_pos hzero] at h
      cases h
    rw [if_neg hzero] at h ⊢
    by_cases hle : b' ≤ n
    · rw [if_pos hle] at h ⊢
      obtain ⟨⟨newer', b''⟩, hc, heq⟩ := Option.map_eq_some_iff.mp h
      cases heq
      obtain ⟨hlt, hgt, hpoints⟩ := ih hc
      rw [List.sum_cons, hpoints, Nat.sub_sub]
      dsimp only at hlt hgt ⊢
      exact ⟨by omega, by omega, rfl⟩
    · rw [if_neg hle] at h ⊢
      cases h
      rw [List.sum_nil]
      exact ⟨by omega, by omega, rfl⟩

/-- The loop of the source counts as is asked for, but for a batch that crosses. -/
theorem countPoints_eq (hlt : sumVal < forwardNum) (hfits : sumVal + points.sum < 2 ^ 64) :
    countPoints forwardNum sumVal points =
      match crossing (forwardNum - sumVal) points with
      | none => recentPoints (forwardNum - sumVal) points
      | some (newer, b) => inFull newer ++ [(b, sumVal + newer.sum + b - forwardNum)] := by
  induction points generalizing sumVal with
  | nil => rfl
  | cons b rest ih =>
    rw [List.sum_cons] at hfits
    have hadd : addU64 sumVal b = sumVal + b := addU64_of_lt (by omega)
    have hne : forwardNum - sumVal ≠ 0 := by omega
    unfold countPoints crossing recentPoints
    dsimp only
    rw [hadd, if_neg hne, if_neg hne]
    rcases Nat.lt_trichotomy (sumVal + b) forwardNum with hless | hequal | hmore
    · have hle : b ≤ forwardNum - sumVal := by omega
      rw [if_pos hless, if_pos hle, if_pos hle, ih hless (by omega), Nat.sub_sub]
      cases hcross : crossing (forwardNum - (sumVal + b)) rest with
      | none => rfl
      | some c =>
        simp only [Option.map_some, List.sum_cons, inFull, List.map_cons, List.cons_append,
          Nat.add_assoc]
    · -- the requests are found, and nothing older counts
      have hle : b ≤ forwardNum - sumVal := by omega
      have hzero : forwardNum - sumVal - b = 0 := by omega
      rw [if_neg hequal.not_lt, if_pos hequal, if_pos hle, if_pos hle, hzero]
      cases rest with
      | nil => rfl
      | cons b' rest =>
        unfold crossing recentPoints
        rw [if_pos rfl, if_pos rfl]
        rfl
    · have hnot : ¬b ≤ forwardNum - sumVal := by omega
      rw [if_neg hmore.not_gt, if_neg hmore.ne', if_neg hnot]
      simp only [inFull, List.map_nil, List.nil_append, List.sum_nil, Nat.add_zero]

/-- What the loop counts weighs no more than the batches. -/
theorem weightedSum_countPoints_le (hle : sumVal ≤ forwardNum)
    (hfits : sumVal + points.sum < 2 ^ 64) :
    totalWeight (countPoints forwardNum sumVal points) ≤ points.sum ∧
      weightedSum (countPoints forwardNum sumVal points) ≤ (points.map fun b => b * b).sum := by
  induction points generalizing sumVal with
  | nil => exact ⟨le_rfl, le_rfl⟩
  | cons b rest ih =>
    rw [List.sum_cons] at hfits
    have hadd : addU64 sumVal b = sumVal + b := addU64_of_lt (by omega)
    unfold countPoints
    dsimp only
    rw [hadd, List.map_cons, List.sum_cons, List.sum_cons]
    split
    · next hless =>
      obtain ⟨htotal, hsum⟩ := ih hless.le (by omega)
      rw [totalWeight_cons, weightedSum_cons]
      exact ⟨Nat.add_le_add_left htotal b, Nat.add_le_add_left hsum (b * b)⟩
    · have hone : ∀ w ≤ b, totalWeight [(b, w)] ≤ b + rest.sum ∧
          weightedSum [(b, w)] ≤ b * b + (rest.map fun b => b * b).sum := by
        intro w hw
        rw [totalWeight_cons, weightedSum_cons]
        exact ⟨Nat.add_le_add hw (Nat.zero_le _),
          Nat.add_le_add (Nat.mul_le_mul_left b hw) (Nat.zero_le _)⟩
      split
      · exact hone b le_rfl
      · exact hone _ (by omega)

theorem foldl_addU64 {l : List (ℕ × ℕ)} {f : ℕ × ℕ → ℕ} (acc : ℕ)
    (h : acc + (l.map f).sum < 2 ^ 64) :
    l.foldl (fun sum p => addU64 sum (f p)) acc = acc + (l.map f).sum := by
  induction l generalizing acc with
  | nil => rfl
  | cons p l ih =>
    rw [List.map_cons, List.sum_cons] at h ⊢
    rw [List.foldl_cons, addU64_of_lt (by omega), ih _ (by omega), Nat.add_assoc]

/-- The products of the source are those of the weighted sum. -/
theorem foldl_mulU64 {l : List (ℕ × ℕ)} (h : weightedSum l < 2 ^ 64) :
    l.foldl (fun sum p => addU64 sum (mulU64 p.1 p.2)) 0 = weightedSum l := by
  have hproducts : ∀ p ∈ l, mulU64 p.1 p.2 = p.1 * p.2 := fun p hp =>
    mulU64_of_lt ((List.single_le_sum (fun _ _ => Nat.zero_le _) _
      (List.mem_map_of_mem hp)).trans_lt h)
  have hmap : l.map (fun p => mulU64 p.1 p.2) = l.map fun p => p.1 * p.2 :=
    List.map_congr_left hproducts
  have hfold := foldl_addU64 (l := l) (f := fun p => mulU64 p.1 p.2) 0
    (by rwa [hmap, Nat.zero_add])
  rw [hfold, hmap, Nat.zero_add]
  rfl

theorem sum_le_sum_squares (sizes : List ℕ) : sizes.sum ≤ (sizes.map fun b => b * b).sum := by
  induction sizes with
  | nil => exact le_rfl
  | cons b sizes ih =>
    rw [List.map_cons, List.sum_cons, List.sum_cons]
    exact Nat.add_le_add (Nat.le_mul_self b) ih

/-- Where nothing overflows, the source returns the average of what its loop counts. -/
theorem getRecentAvgBatchSize_eq {t : DecodeBatchSizeTracker} (h : t.queue.reverse = points)
    (hfits : (points.map fun b => b * b).sum < 2 ^ 64) :
    t.getRecentAvgBatchSize forwardNum = weightedAverage (countPoints forwardNum 0 points) := by
  have hsum := (sum_le_sum_squares points).trans_lt hfits
  have hbounds : totalWeight (countPoints forwardNum 0 points) ≤ points.sum ∧
      weightedSum (countPoints forwardNum 0 points) ≤ (points.map fun b => b * b).sum :=
    weightedSum_countPoints_le (Nat.zero_le forwardNum) (by rwa [Nat.zero_add])
  obtain ⟨htotal, hweighted⟩ := hbounds
  unfold getRecentAvgBatchSize
  rw [h]
  split
  · next hempty =>
    rw [hempty] at h
    rw [← h]
    exact weightedAverage_nil.symm
  · dsimp only
    have hcnt : (countPoints forwardNum 0 points).foldl (fun sum p => addU64 sum p.2) 0 =
        totalWeight (countPoints forwardNum 0 points) :=
      (foldl_addU64 0 (by
        rw [Nat.zero_add]
        exact htotal.trans_lt hsum)).trans (Nat.zero_add _)
    rw [foldl_mulU64 (hweighted.trans_lt hfits), hcnt]
    split
    · next hzero => rw [weightedAverage, hzero, Nat.div_zero]
    · rfl

/-! ## When the average is right -/

/-- An average that is the one asked for is between its sizes. -/
theorem isRecentAverage_iff_eq {avg : ℕ} : IsRecentAverage forwardNum points avg ↔
    avg = weightedAverage (recentPoints forwardNum points) := by
  constructor
  · exact IsRecentAverage.average
  · rintro rfl
    exact ⟨rfl, exists_le_weightedAverage, exists_weightedAverage_le⟩

/-- The batch that crosses, with any part of it. -/
theorem weightedAverage_crossing {w : ℕ} (h : 0 < w) :
    (weightedAverage (inFull newer ++ [(b, w)]) : ℤ) =
      excess b (inFull newer) / ((newer.sum + w : ℕ) : ℤ) + b := by
  have htotal : totalWeight (inFull newer ++ [(b, w)]) = newer.sum + w := by
    rw [totalWeight_append, totalWeight_inFull]
    rfl
  rw [weightedAverage_eq b (by omega), excess_append_self, htotal]

/-- The loop of the source finds the average if and only if the parts weigh alike. -/
theorem weightedAverage_countPoints_iff (hfits : points.sum < 2 ^ 64) :
    weightedAverage (countPoints forwardNum 0 points) =
      weightedAverage (recentPoints forwardNum points) ↔ Evenly forwardNum points := by
  rcases Nat.eq_zero_or_pos forwardNum with rfl | hpos
  · -- no request is asked for, and the newest batch is counted
    cases points with
    | nil => exact iff_of_true rfl ⟨fun _ => rfl, fun _ _ h => by cases h⟩
    | cons b rest =>
      rw [List.sum_cons] at hfits
      have hadd : addU64 0 b = b := (addU64_of_lt (by omega)).trans (Nat.zero_add b)
      have hright : weightedAverage (recentPoints 0 (b :: rest)) = 0 := weightedAverage_nil
      have hleft : weightedAverage (countPoints 0 0 (b :: rest)) = b := by
        unfold countPoints
        dsimp only
        rw [hadd, if_neg (Nat.not_lt_zero b)]
        split
        · next hzero =>
          rw [hzero]
          exact Nat.zero_div 0
        · next hne => exact weightedAverage_singleton (Nat.pos_of_ne_zero hne)
      rw [hleft, hright]
      constructor
      · exact fun h => ⟨fun _ => h, fun _ _ h => by cases h⟩
      · exact fun h => h.1 rfl
  · have hfits' : 0 + points.sum < 2 ^ 64 := by rwa [Nat.zero_add]
    have hloop := countPoints_eq hpos hfits'
    rw [Nat.sub_zero] at hloop
    unfold Evenly
    cases hcross : crossing forwardNum points with
    | none =>
      rw [hcross] at hloop
      refine iff_of_true (congrArg weightedAverage hloop) ⟨fun h => absurd h hpos.ne', ?_⟩
      exact fun _ _ h => by cases h
    | some c =>
      obtain ⟨newer, b⟩ := c
      rw [hcross] at hloop
      obtain ⟨hlt, hgt, hpoints⟩ := crossing_spec hcross
      dsimp only at hloop
      rw [hloop, hpoints, ← Nat.cast_inj (R := ℤ), weightedAverage_crossing (by omega),
        weightedAverage_crossing (by omega), add_left_inj]
      have hother : newer.sum + (0 + newer.sum + b - forwardNum) =
          2 * newer.sum + b - forwardNum := by omega
      have hone : newer.sum + (forwardNum - newer.sum) = forwardNum := by omega
      rw [hother, hone]
      constructor
      · intro heq
        refine ⟨fun h => absurd h hpos.ne', fun newer' b' hcross' => ?_⟩
        cases hcross'
        exact heq.symm
      · intro h
        exact (h.2 newer b rfl).symm

/-- The parts weigh alike if no batch crosses, if the one that does is crossed in the middle, or if
it is as large as the newer ones. -/
theorem evenly_of_crossing (hpos : 0 < forwardNum)
    (h : ∀ newer b, crossing forwardNum points = some (newer, b) →
      2 * forwardNum = 2 * newer.sum + b ∨ ∀ x ∈ newer, x = b) : Evenly forwardNum points := by
  refine ⟨fun hzero => absurd hzero hpos.ne', fun newer b hcross => ?_⟩
  rcases h newer b hcross with hmiddle | hsame
  · have hpart : 2 * newer.sum + b - forwardNum = forwardNum := by omega
    rw [hpart]
  · have hnone : excess b (inFull newer) = 0 := by
      unfold excess inFull
      rw [List.map_map]
      refine List.sum_eq_zero fun e he => ?_
      obtain ⟨x, hx, rfl⟩ := List.mem_map.mp he
      simp [hsame x hx]
    rw [hnone, Int.zero_ediv, Int.zero_ediv]

/-- **The average is right if and only if the parts of a batch that crosses weigh alike**, after
any sizes that have been recorded. Squares of the sizes in the window are added up without an
overflow: the window has 20000 sizes, and the configuration is checked to have none above 819200. -/
theorem isRecentAverage_iff (hpos : 0 < windowSize) (sizes : List ℕ) (forwardNum : ℕ)
    (hfits : ((sizes.reverse.take windowSize).map fun b => b * b).sum < 2 ^ 64) :
    IsRecentAverage forwardNum (sizes.reverse.take windowSize)
        ((record windowSize sizes).getRecentAvgBatchSize forwardNum) ↔
      Evenly forwardNum (sizes.reverse.take windowSize) := by
  rw [isRecentAverage_iff_eq, getRecentAvgBatchSize_eq (queue_record hpos sizes) hfits]
  exact weightedAverage_countPoints_iff ((sum_le_sum_squares _).trans_lt hfits)

/-- A batch is crossed in the middle, and the oldest size has left the window. -/
theorem isRecentAverage_middle : IsRecentAverage 15 ([100, 10, 10].reverse.take 2)
    ((record 2 [100, 10, 10]).getRecentAvgBatchSize 15) := by
  refine (isRecentAverage_iff (by decide) [100, 10, 10] 15 (by decide)).mpr ⟨nofun, ?_⟩
  intro newer b hcross
  cases hcross
  rfl

/-- Ten requests of a batch of a hundred are among the twenty that are asked for: it counts with the
other ninety. -/
theorem not_isRecentAverage : ¬IsRecentAverage 20 ([100, 10].reverse.take 20000)
    ((record 20000 [100, 10]).getRecentAvgBatchSize 20) := by
  intro h
  have haverage := h.average
  revert haverage
  decide +kernel

end DecodeBatchSizeTracker

end MindieLLM
