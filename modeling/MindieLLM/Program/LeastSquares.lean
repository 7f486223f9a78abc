import Mathlib.Algebra.Order.BigOperators.Group.List
import Mathlib.Algebra.Order.Field.Basic
import Mathlib.Tactic.LinearCombination
import Mathlib.Tactic.Ring

/-!
# The line of least squares

Points in the plane are fitted by a line. The line of least squares is the one whose vertical
distances to the points have the smallest sum of squares. It is found from five sums over the
points, which grow by one point at a time, and it exists unless the points are above one another.

## Main definitions

* `Sums`, `sumsOf`: the sums over a list of points
* `squaredError points a b`: the squared distances from the line `a * x + b`, added up
* `fittedSlope`, `fittedIntercept`: the formulas for the coefficients
* `IsLeastSquares points a b`: every other line is worse

## Main results

* `spread_pos`, `spread_eq_zero`: when a line exists
* `isLeastSquares_of_spread_pos`: the line by its two formulas
-/

namespace Program

variable {K : Type} [Field K] [LinearOrder K] [IsStrictOrderedRing K]

/-- The sums that a line is fitted from. -/
structure Sums (K : Type) where
  sumX : K
  sumY : K
  sumXX : K
  sumXY : K

/-- The sums with one more point. -/
def Sums.add (s : Sums K) (p : K × K) : Sums K where
  sumX := s.sumX + p.1
  sumY := s.sumY + p.2
  sumXX := s.sumXX + p.1 * p.1
  sumXY := s.sumXY + p.1 * p.2

def sumsOf : List (K × K) → Sums K
  | [] => ⟨0, 0, 0, 0⟩
  | p :: rest => (sumsOf rest).add p

/-- The number of points, times the squares, less the square of the sum: the denominator. -/
def spread (points : List (K × K)) : K :=
  points.length * (sumsOf points).sumXX - (sumsOf points).sumX * (sumsOf points).sumX

def squaredError (points : List (K × K)) (a b : K) : K :=
  (points.map fun p => (p.2 - (a * p.1 + b)) ^ 2).sum

/-- The two formulas for the coefficients of the line. -/
def fittedSlope (points : List (K × K)) : K :=
  (points.length * (sumsOf points).sumXY - (sumsOf points).sumX * (sumsOf points).sumY) /
    spread points

def fittedIntercept (points : List (K × K)) : K :=
  ((sumsOf points).sumY * (sumsOf points).sumXX - (sumsOf points).sumX * (sumsOf points).sumXY) /
    spread points

/-- **The line of least squares**: every other line has a larger squared error. -/
def IsLeastSquares (points : List (K × K)) (a b : K) : Prop :=
  ∀ a' b', (a', b') ≠ (a, b) → squaredError points a b < squaredError points a' b'

variable {points : List (K × K)} {p : K × K} {a b : K}

/-! ## Points above one another -/

/-- The squared distances of the points from a value of `x`. -/
def squaresFrom (x : K) (points : List (K × K)) : K :=
  (points.map fun q => (q.1 - x) ^ 2).sum

omit [LinearOrder K] [IsStrictOrderedRing K] in
theorem squaresFrom_eq (x : K) (points : List (K × K)) :
    squaresFrom x points =
      (sumsOf points).sumXX - 2 * x * (sumsOf points).sumX + points.length * x ^ 2 := by
  induction points with
  | nil => simp [squaresFrom, sumsOf]
  | cons q rest ih =>
    have hcons : squaresFrom x (q :: rest) = (q.1 - x) ^ 2 + squaresFrom x rest := List.sum_cons
    rw [hcons, ih, sumsOf, List.length_cons]
    simp only [Sums.add]
    push_cast
    ring

theorem squaresFrom_nonneg (x : K) (points : List (K × K)) : 0 ≤ squaresFrom x points := by
  refine List.sum_nonneg fun t ht => ?_
  obtain ⟨q, -, rfl⟩ := List.mem_map.mp ht
  exact sq_nonneg _

theorem squaresFrom_pos {x : K} {q : K × K} (hq : q ∈ points) (hne : q.1 ≠ x) :
    0 < squaresFrom x points := by
  induction points with
  | nil => cases hq
  | cons r rest ih =>
    have hcons : squaresFrom x (r :: rest) = (r.1 - x) ^ 2 + squaresFrom x rest := List.sum_cons
    rw [hcons]
    rcases List.mem_cons.mp hq with rfl | hmem
    · exact add_pos_of_pos_of_nonneg (sq_pos_of_ne_zero (sub_ne_zero.mpr hne))
        (squaresFrom_nonneg x rest)
    · exact add_pos_of_nonneg_of_pos (sq_nonneg _) (ih hmem)

omit [LinearOrder K] [IsStrictOrderedRing K] in
/-- One more point adds what the others are away from it. -/
theorem spread_cons (p : K × K) (points : List (K × K)) :
    spread (p :: points) = spread points + squaresFrom p.1 points := by
  rw [squaresFrom_eq, spread, spread, sumsOf, List.length_cons]
  simp only [Sums.add]
  push_cast
  ring

theorem spread_nonneg (points : List (K × K)) : 0 ≤ spread points := by
  induction points with
  | nil => simp [spread, sumsOf]
  | cons q rest ih =>
    rw [spread_cons]
    exact add_nonneg ih (squaresFrom_nonneg _ _)

theorem spread_pos (h : ∃ q ∈ points, q.1 ≠ p.1) : 0 < spread (p :: points) := by
  obtain ⟨q, hq, hne⟩ := h
  rw [spread_cons]
  exact add_pos_of_nonneg_of_pos (spread_nonneg points) (squaresFrom_pos hq hne)

theorem spread_eq_zero (h : ∀ q ∈ points, q.1 = p.1) : spread (p :: points) = 0 := by
  have hsquares : squaresFrom p.1 points = 0 := by
    refine List.sum_eq_zero fun t ht => ?_
    obtain ⟨q, hq, rfl⟩ := List.mem_map.mp ht
    rw [h q hq, sub_self, zero_pow two_ne_zero]
  rw [spread_cons, hsquares, add_zero]
  induction points with
  | nil => simp [spread, sumsOf]
  | cons r rest ih =>
    obtain ⟨hr, hrest⟩ := List.forall_mem_cons.mp h
    have hcons : squaresFrom p.1 (r :: rest) = (r.1 - p.1) ^ 2 + squaresFrom p.1 rest :=
      List.sum_cons
    rw [hcons, hr, sub_self, zero_pow two_ne_zero, zero_add] at hsquares
    rw [spread_cons, hr, hsquares, ih hrest hsquares, add_zero]

/-! ## The best line -/

omit [LinearOrder K] [IsStrictOrderedRing K] in
/-- The error of another line, by how far it is from a line that meets the normal equations. -/
theorem squaredError_eq (a b a' b' : K) (points : List (K × K)) :
    squaredError points a' b' = squaredError points a b +
      (2 * (a - a') * ((sumsOf points).sumXY - a * (sumsOf points).sumXX -
          b * (sumsOf points).sumX) +
        2 * (b - b') * ((sumsOf points).sumY - a * (sumsOf points).sumX - points.length * b)) +
      ((a' - a) ^ 2 * (sumsOf points).sumXX + 2 * (a' - a) * (b' - b) * (sumsOf points).sumX +
        points.length * (b' - b) ^ 2) := by
  induction points with
  | nil => simp [squaredError, sumsOf]
  | cons q rest ih =>
    have hcons : ∀ c d : K, squaredError (q :: rest) c d =
        (q.2 - (c * q.1 + d)) ^ 2 + squaredError rest c d := fun _ _ => List.sum_cons
    rw [hcons, hcons, ih, sumsOf, List.length_cons]
    simp only [Sums.add]
    push_cast
    ring

/-- The square form of a positive spread is positive. -/
theorem squareForm_pos {n sumX sumXX da db : K} (hn : 0 ≤ n) (h : 0 < n * sumXX - sumX * sumX)
    (hne : da ≠ 0 ∨ db ≠ 0) : 0 < da ^ 2 * sumXX + 2 * da * db * sumX + n * db ^ 2 := by
  have hpos : 0 < n := by
    refine hn.lt_of_ne ?_
    rintro rfl
    rw [zero_mul, zero_sub, Left.neg_pos_iff] at h
    exact absurd h (mul_self_nonneg sumX).not_gt
  -- times the number of points it is a sum of two squares
  have hsquares : n * (da ^ 2 * sumXX + 2 * da * db * sumX + n * db ^ 2) =
      (n * db + sumX * da) ^ 2 + (n * sumXX - sumX * sumX) * da ^ 2 := by ring
  apply pos_of_mul_pos_right _ hn
  rw [hsquares]
  by_cases hda : da = 0
  · have hdb : db ≠ 0 := hne.resolve_left fun hda' => hda' hda
    rw [hda, mul_zero, add_zero, zero_pow two_ne_zero, mul_zero, add_zero]
    exact sq_pos_of_ne_zero (mul_ne_zero hpos.ne' hdb)
  · exact add_pos_of_nonneg_of_pos (sq_nonneg _) (mul_pos h (sq_pos_of_ne_zero hda))

/-- **The line of least squares by its two formulas.** -/
theorem isLeastSquares_of_spread_pos (h : 0 < spread points) :
    IsLeastSquares points (fittedSlope points) (fittedIntercept points) := by
  intro a' b' hne
  have hspread := h.ne'
  generalize ha : fittedSlope points = a at hne ⊢
  generalize hb : fittedIntercept points = b at hne ⊢
  unfold fittedSlope at ha
  unfold fittedIntercept at hb
  rw [div_eq_iff hspread] at ha hb
  unfold spread at ha hb h hspread
  -- the two normal equations
  have hslope : (sumsOf points).sumXY - a * (sumsOf points).sumXX -
      b * (sumsOf points).sumX = 0 := by
    apply mul_left_cancel₀ hspread
    linear_combination (sumsOf points).sumXX * ha + (sumsOf points).sumX * hb
  have hlevel : (sumsOf points).sumY - a * (sumsOf points).sumX - points.length * b = 0 := by
    apply mul_left_cancel₀ hspread
    linear_combination (sumsOf points).sumX * ha + points.length * hb
  have hdiff : a' - a ≠ 0 ∨ b' - b ≠ 0 := by
    by_contra hnone
    push Not at hnone
    exact hne (Prod.ext (sub_eq_zero.mp hnone.1) (sub_eq_zero.mp hnone.2))
  rw [squaredError_eq a b a' b', hslope, hlevel, mul_zero, mul_zero, add_zero, add_zero]
  exact lt_add_of_pos_right _ (squareForm_pos (Nat.cast_nonneg _) h hdiff)

end Program
