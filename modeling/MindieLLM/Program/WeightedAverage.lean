import Mathlib.Algebra.Order.BigOperators.Group.List
import Mathlib.Tactic.Ring

/-!
# Weighted averages

Numbers are averaged with weights, and the average is rounded down. It is found from any number by
what the others exceed that number by, together.

## Main definitions

* `totalWeight`, `weightedAverage`: of numbers with their weights
* `excess b l`: what the numbers exceed `b` by

## Main results

* `exists_weightedAverage_le`, `exists_le_weightedAverage`: an average is between its numbers
* `weightedAverage_eq`: an average by the excess over a number
-/

namespace Program

/-- The weights, added up. -/
def totalWeight (l : List (ℕ × ℕ)) : ℕ := (l.map Prod.snd).sum

def weightedSum (l : List (ℕ × ℕ)) : ℕ := (l.map fun p => p.1 * p.2).sum

def weightedAverage (l : List (ℕ × ℕ)) : ℕ := weightedSum l / totalWeight l

/-- What the numbers exceed `b` by; below zero where they fall short of it. -/
def excess (b : ℕ) (l : List (ℕ × ℕ)) : ℤ := (l.map fun p => ((p.1 : ℤ) - b) * p.2).sum

variable {l : List (ℕ × ℕ)} {b w : ℕ}

theorem totalWeight_cons (p : ℕ × ℕ) (l : List (ℕ × ℕ)) :
    totalWeight (p :: l) = p.2 + totalWeight l := List.sum_cons

theorem weightedSum_cons (p : ℕ × ℕ) (l : List (ℕ × ℕ)) :
    weightedSum (p :: l) = p.1 * p.2 + weightedSum l := List.sum_cons

@[simp] theorem weightedAverage_nil : weightedAverage [] = 0 := Nat.zero_div _

/-- One number is its own average. -/
theorem weightedAverage_singleton (h : 0 < w) : weightedAverage [(b, w)] = b := by
  unfold weightedAverage
  rw [weightedSum_cons, totalWeight_cons]
  exact Nat.mul_div_cancel b h

theorem excess_cons (b : ℕ) (p : ℕ × ℕ) (l : List (ℕ × ℕ)) :
    excess b (p :: l) = ((p.1 : ℤ) - b) * p.2 + excess b l := List.sum_cons

theorem totalWeight_append (l l' : List (ℕ × ℕ)) :
    totalWeight (l ++ l') = totalWeight l + totalWeight l' := by
  unfold totalWeight
  rw [List.map_append, List.sum_append]

/-- A number does not exceed itself. -/
theorem excess_append_self : excess b (l ++ [(b, w)]) = excess b l := by
  unfold excess
  rw [List.map_append, List.sum_append, List.map_singleton, List.sum_singleton, sub_self, zero_mul,
    add_zero]

/-! ## Between the numbers -/

theorem weightedSum_le (h : ∀ p ∈ l, 0 < p.2 → p.1 ≤ b) : weightedSum l ≤ b * totalWeight l := by
  induction l with
  | nil => exact le_rfl
  | cons p l ih =>
    obtain ⟨hp, hl⟩ := List.forall_mem_cons.mp h
    rw [weightedSum_cons, totalWeight_cons, Nat.mul_add]
    apply Nat.add_le_add _ (ih hl)
    rcases Nat.eq_zero_or_pos p.2 with hzero | hpos
    · rw [hzero, Nat.mul_zero, Nat.mul_zero]
    · exact Nat.mul_le_mul_right p.2 (hp hpos)

theorem le_weightedSum (h : ∀ p ∈ l, 0 < p.2 → b ≤ p.1) : b * totalWeight l ≤ weightedSum l := by
  induction l with
  | nil => exact le_rfl
  | cons p l ih =>
    obtain ⟨hp, hl⟩ := List.forall_mem_cons.mp h
    rw [weightedSum_cons, totalWeight_cons, Nat.mul_add]
    apply Nat.add_le_add _ (ih hl)
    rcases Nat.eq_zero_or_pos p.2 with hzero | hpos
    · rw [hzero, Nat.mul_zero, Nat.mul_zero]
    · exact Nat.mul_le_mul_right p.2 (hp hpos)

theorem exists_weightedAverage_le (h : 0 < totalWeight l) :
    ∃ p ∈ l, 0 < p.2 ∧ weightedAverage l ≤ p.1 := by
  by_contra hnone
  push Not at hnone
  -- all numbers are smaller than the average, and so would be the average
  have hpos : 0 < weightedAverage l := by
    obtain ⟨p, hp, hweight⟩ : ∃ p ∈ l, 0 < p.2 := by
      by_contra hzero
      push Not at hzero
      refine h.ne' (List.sum_eq_zero fun w hw => ?_)
      obtain ⟨p, hp, rfl⟩ := List.mem_map.mp hw
      exact Nat.le_zero.mp (hzero p hp)
    exact (Nat.zero_le _).trans_lt (hnone p hp hweight)
  have hle : weightedSum l ≤ (weightedAverage l - 1) * totalWeight l :=
    weightedSum_le fun p hp hweight => Nat.le_sub_one_of_lt (hnone p hp hweight)
  have hlt : (weightedAverage l - 1) * totalWeight l < weightedAverage l * totalWeight l :=
    Nat.mul_lt_mul_of_pos_right (Nat.sub_lt hpos one_pos) h
  exact absurd (hlt.trans_le (Nat.div_mul_le_self _ _)) hle.not_gt

theorem exists_le_weightedAverage (h : 0 < totalWeight l) :
    ∃ p ∈ l, 0 < p.2 ∧ p.1 ≤ weightedAverage l := by
  by_contra hnone
  push Not at hnone
  have hle : (weightedAverage l + 1) * totalWeight l ≤ weightedSum l :=
    le_weightedSum fun p hp hweight => hnone p hp hweight
  rw [Nat.mul_comm] at hle
  exact absurd (Nat.lt_mul_div_succ (weightedSum l) h) hle.not_gt

/-! ## By the excess over a number -/

theorem weightedSum_eq (b : ℕ) (l : List (ℕ × ℕ)) :
    (weightedSum l : ℤ) = excess b l + totalWeight l * b := by
  induction l with
  | nil =>
    show (0 : ℤ) = 0 + 0 * b
    rw [zero_mul, add_zero]
  | cons p l ih =>
    rw [weightedSum_cons, totalWeight_cons, excess_cons]
    push_cast
    rw [ih]
    ring

/-- **An average is any number and the excess over it**, shared out to the weights. -/
theorem weightedAverage_eq (b : ℕ) (h : 0 < totalWeight l) :
    (weightedAverage l : ℤ) = excess b l / totalWeight l + b := by
  have hne : (totalWeight l : ℤ) ≠ 0 := by exact_mod_cast h.ne'
  rw [weightedAverage, Int.natCast_ediv, weightedSum_eq b, Int.add_mul_ediv_left _ _ hne]

end Program
