import Mathlib.Data.Fintype.Card

/-!
# How many members are in a state

A semaphore counts: the members of a group that may still take it, or that have taken it. The count
changes by one when one member changes, and from the count one knows about the members.

## Main definitions

* `population f`: how many members have the property `f`

## Main results

* `population_join`: one member more
* `population_eq_zero`, `population_pos`, `eq_of_population_le_one`: what the count says
-/

namespace Program

variable {ι : Type} [Fintype ι] {f g : ι → Bool} {i j : ι}

def population (f : ι → Bool) : ℕ := (Finset.univ.filter fun i => f i = true).card

theorem population_congr (h : ∀ i, f i = g i) : population f = population g := by
  rw [funext h]

/-- One member is in the state that was not. -/
theorem population_join (hi : f i = false) (hi' : g i = true) (h : ∀ j, j ≠ i → g j = f j) :
    population g = population f + 1 := by
  classical
  have hinsert : (Finset.univ.filter fun j => g j = true) =
      insert i (Finset.univ.filter fun j => f j = true) := by
    ext j
    by_cases hj : j = i
    · simp [hj, hi']
    · simp [hj, h j hj]
  unfold population
  rw [hinsert, Finset.card_insert_of_notMem (by simp [hi])]

/-- One member leaves the state. -/
theorem population_leave (hi : f i = true) (hi' : g i = false) (h : ∀ j, j ≠ i → g j = f j) :
    population f = population g + 1 :=
  population_join hi' hi fun j hj => (h j hj).symm

theorem population_eq_zero : population f = 0 ↔ ∀ i, f i = false := by
  simp [population, Finset.filter_eq_empty_iff]

theorem population_pos (hi : f i = true) : 0 < population f := by
  rw [Nat.pos_iff_ne_zero, Ne, population_eq_zero]
  intro h
  cases hi.symm.trans (h i)

theorem population_all (h : ∀ i, f i = true) : population f = Fintype.card ι := by
  simp [population, h]

theorem eq_of_population_le_one (h : population f ≤ 1) (hi : f i = true) (hj : f j = true) :
    i = j := by
  refine Finset.card_le_one.mp h i ?_ j ?_
  · simp [hi]
  · simp [hj]

end Program
