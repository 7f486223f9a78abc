import Mathlib.Data.List.Induction
import Mathlib.Tactic.NormNum
import MindieLLM.Program.LeastSquares

/-!
# The latency model of prefilling

The time of a prefill batch is predicted from its number of tokens by a line, which is fitted again
with each measured point. A point that makes a coefficient negative is dropped, with the other one
if there are only two. Arithmetic is that of the rationals, and the test of the denominator is a
test for zero.

The counter goes up before anything else. When the denominator is zero no branch takes it back, and
the point is in none of the sums.

## Main definitions

* `PrefillRegression.addDataPoint`: one more point
* `PrefillRegression.Fits`: what is to hold after a call
* `PrefillRegression.Spreads`: a kept point has another number of tokens

## Main results

* `PrefillRegression.Counts.fits_addDataPoint_iff`: one call
* `PrefillRegression.fits_iff`: all calls of a run do what they are to do when none of them repeats
  the number of tokens of all points kept
-/

namespace MindieLLM

open Program

/-- A number of tokens, and the time that they took. -/
abbrev DataPoint := ℚ × ℚ

/-- The regression. `points` are the points whose contributions are in the sums; the source does not
keep them. -/
structure PrefillRegression where
  count : ℤ := 0
  sums : Sums ℚ := ⟨0, 0, 0, 0⟩
  slope : ℚ := 0.1317
  intercept : ℚ := 25.797
  points : List DataPoint := []

namespace PrefillRegression

def linearRegression (r : PrefillRegression) (p : DataPoint) : PrefillRegression :=
  if r.count = 1 then
    { r with
      sums :=
        { sumX := r.sums.sumX + p.1
          sumY := r.sums.sumY + p.2
          sumXX := p.1 * p.1
          sumXY := p.1 * p.2 }
      points := p :: r.points }
  else
    let tmp := r.sums.add p
    let denominator := r.count * tmp.sumXX - tmp.sumX * tmp.sumX
    if denominator ≠ 0 then
      let tmpSlope := (r.count * tmp.sumXY - tmp.sumX * tmp.sumY) / denominator
      let tmpIntercept := (tmp.sumY * tmp.sumXX - tmp.sumX * tmp.sumXY) / denominator
      if 0 < tmpSlope ∧ 0 < tmpIntercept then
        { r with
          slope := tmpSlope
          intercept := tmpIntercept
          sums := tmp
          points := p :: r.points }
      else if r.count = 2 then
        { r with count := 0, sums := ⟨0, 0, 0, 0⟩, points := [] }
      else { r with count := r.count - 1 }
    else r

def addDataPoint (r : PrefillRegression) (p : DataPoint) : PrefillRegression :=
  linearRegression { r with count := r.count + 1 } p

/-- The regression after given calls. -/
def run (calls : List DataPoint) : PrefillRegression := calls.foldl addDataPoint {}

/-! ## What is to hold -/

/-- The counter counts the points in the sums. -/
structure Counts (r : PrefillRegression) : Prop where
  count : r.count = r.points.length
  sums : r.sums = sumsOf r.points

/-- **What a call is to do**: the counter counts, and new coefficients are positive and those of
the least-squares line. -/
structure Fits (r r' : PrefillRegression) : Prop where
  counts : r'.Counts
  fitted : (r'.slope, r'.intercept) ≠ (r.slope, r.intercept) →
    IsLeastSquares r'.points r'.slope r'.intercept ∧ 0 < r'.slope ∧ 0 < r'.intercept

/-- The condition on a call: a kept point, if there are any, has another number of tokens. -/
def Spreads (r : PrefillRegression) (p : DataPoint) : Prop :=
  r.points = [] ∨ ∃ q ∈ r.points, q.1 ≠ p.1

instance (r : PrefillRegression) (p : DataPoint) : Decidable (Spreads r p) :=
  inferInstanceAs (Decidable (_ ∨ _))

variable {r : PrefillRegression} {p : DataPoint}

theorem counts_init : Counts {} := ⟨rfl, rfl⟩

/-! ## One call -/

theorem Counts.count_pos (h : r.Counts) (hne : r.points ≠ []) : 0 < r.count := by
  rw [h.count]
  exact_mod_cast List.length_pos_iff.mpr hne

/-- The first point is kept. -/
theorem Counts.addDataPoint_nil (h : r.Counts) (hnil : r.points = []) :
    r.addDataPoint p = { r with count := 1, sums := sumsOf [p], points := [p] } := by
  have hcount : r.count + 1 = 1 := by
    rw [h.count, hnil]
    rfl
  have hsums : r.sums = ⟨0, 0, 0, 0⟩ := by
    rw [h.sums, hnil]
    rfl
  have hone : sumsOf [p] = ⟨0 + p.1, 0 + p.2, p.1 * p.1, p.1 * p.2⟩ := by
    simp only [sumsOf, Sums.add, zero_add]
  unfold addDataPoint linearRegression
  rw [if_pos hcount]
  simp only [hcount, hsums, hnil, hone]

/-- A later point, by the line of the points that are kept and this one. -/
theorem Counts.addDataPoint_cons (h : r.Counts) (hne : r.points ≠ []) :
    r.addDataPoint p =
      if spread (p :: r.points) ≠ 0 then
        if 0 < fittedSlope (p :: r.points) ∧ 0 < fittedIntercept (p :: r.points) then
          { count := r.count + 1
            sums := sumsOf (p :: r.points)
            slope := fittedSlope (p :: r.points)
            intercept := fittedIntercept (p :: r.points)
            points := p :: r.points }
        else if r.count + 1 = 2 then
          { r with count := 0, sums := ⟨0, 0, 0, 0⟩, points := [] }
        else r
      else { r with count := r.count + 1 } := by
  have hcount : r.count + 1 ≠ 1 := by
    have := h.count_pos hne
    omega
  have hlength : ((r.count + 1 : ℤ) : ℚ) = ((p :: r.points).length : ℕ) := by
    rw [h.count, List.length_cons]
    push_cast
    rfl
  have hsums : r.sums.add p = sumsOf (p :: r.points) := by rw [h.sums, sumsOf]
  unfold addDataPoint linearRegression
  rw [if_neg hcount]
  simp only [hsums, hlength, add_sub_cancel_right]
  rfl

/-- **One call.** -/
theorem Counts.fits_addDataPoint_iff (h : r.Counts) :
    Fits r (r.addDataPoint p) ↔ Spreads r p := by
  by_cases hnil : r.points = []
  · refine iff_of_true ?_ (.inl hnil)
    rw [h.addDataPoint_nil hnil]
    exact ⟨⟨rfl, rfl⟩, fun hchanged => absurd rfl hchanged⟩
  rw [h.addDataPoint_cons hnil]
  constructor
  · intro hfits
    by_contra hnone
    have hsame : ∀ q ∈ r.points, q.1 = p.1 := by
      intro q hq
      by_contra hne
      exact hnone (.inr ⟨q, hq, hne⟩)
    -- the point is in none of the sums
    rw [if_neg (not_not.mpr (spread_eq_zero hsame))] at hfits
    have hafter : r.count + 1 = r.points.length := hfits.counts.count
    have hbefore := h.count
    omega
  · intro hspreads
    have hspread := spread_pos (hspreads.resolve_left hnil)
    rw [if_pos hspread.ne']
    split_ifs with hpos htwo
    · refine ⟨⟨?_, rfl⟩, fun _ => ⟨isLeastSquares_of_spread_pos hspread, hpos⟩⟩
      show r.count + 1 = ((p :: r.points).length : ℤ)
      rw [h.count, List.length_cons]
      push_cast
      rfl
    · exact ⟨⟨rfl, rfl⟩, fun hchanged => absurd rfl hchanged⟩
    · exact ⟨h, fun hchanged => absurd rfl hchanged⟩

/-! ## All calls -/

theorem run_append (front : List DataPoint) (p : DataPoint) :
    run (front ++ [p]) = (run front).addDataPoint p := List.foldl_concat _ _ _ _

/-- **The calls of a run.** All of them count and fit if and only if none of them repeats the
number of tokens of all points that are kept then. -/
theorem fits_iff (calls : List DataPoint) :
    (∀ front p, front ++ [p] <+: calls → Fits (run front) (run (front ++ [p]))) ↔
      ∀ front p, front ++ [p] <+: calls → Spreads (run front) p := by
  constructor
  · intro hfits front p hp
    have hcounts : (run front).Counts := by
      rcases List.eq_nil_or_concat' front with rfl | ⟨before, q, rfl⟩
      · exact counts_init
      · exact (hfits before q ((List.prefix_append _ [p]).trans hp)).counts
    apply hcounts.fits_addDataPoint_iff.mp
    rw [← run_append]
    exact hfits front p hp
  · intro hspreads
    have hcounts : ∀ front, front <+: calls → (run front).Counts := by
      intro front
      induction front using List.reverseRecOn with
      | nil => exact fun _ => counts_init
      | append_singleton front p ih =>
        intro hp
        have hfront := ih ((List.prefix_append front [p]).trans hp)
        rw [run_append]
        exact (hfront.fits_addDataPoint_iff.mpr (hspreads front p hp)).counts
    intro front p hp
    rw [run_append]
    have hfront := hcounts front ((List.prefix_append front [p]).trans hp)
    exact hfront.fits_addDataPoint_iff.mpr (hspreads front p hp)

/-- The same number of tokens twice: two points are counted, and one is in the sums. -/
theorem not_fits_repeated :
    ¬ ∀ (calls front : List DataPoint) (p : DataPoint), front ++ [p] <+: calls →
      Fits (run front) (run (front ++ [p])) := by
  intro h
  have hcount := (h [(100, 30), (100, 40)] [(100, 30)] (100, 40) (List.prefix_refl _)).counts.count
  exact absurd hcount (by decide +kernel)

end PrefillRegression

end MindieLLM
