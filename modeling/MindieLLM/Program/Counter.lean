import Mathlib.Data.Nat.ModEq

/-!
# Counters that wrap around

A counter of `m` values, as an atomic integer of a machine has them: counting up from the last value
leads to zero, and counting down from zero to the last value.

## Main definitions

* `wrapSucc`, `wrapPred`: counting up and down
* `wrapAdd`, `wrapSub`: sums and differences

## Main results

* `wrapSucc_wrapPred`: a count that is taken back before it is made is made good
* `wrapSub_of_le`: a difference that is not below zero
-/

namespace Program

@[irreducible] def wrapSucc (m v : ℕ) : ℕ := (v + 1) % m

@[irreducible] def wrapPred (m v : ℕ) : ℕ := (v + (m - 1)) % m

@[irreducible] def wrapAdd (m a b : ℕ) : ℕ := (a + b) % m

@[irreducible] def wrapSub (m a b : ℕ) : ℕ := (a + (m - b)) % m

@[irreducible] def wrapMul (m a b : ℕ) : ℕ := a * b % m

variable {m v a b : ℕ}

theorem wrapSucc_of_lt (h : v + 1 < m) : wrapSucc m v = v + 1 := by
  unfold wrapSucc
  exact Nat.mod_eq_of_lt h

theorem wrapPred_of_pos (hpos : 0 < v) (hlt : v < m) : wrapPred m v = v - 1 := by
  unfold wrapPred
  rw [show v + (m - 1) = v - 1 + m by omega, Nat.add_mod_right, Nat.mod_eq_of_lt (by omega)]

theorem wrapSucc_wrapPred (h : v < m) : wrapSucc m (wrapPred m v) = v := by
  unfold wrapSucc wrapPred
  rw [Nat.mod_add_mod, show v + (m - 1) + 1 = v + m by omega, Nat.add_mod_right,
    Nat.mod_eq_of_lt h]

theorem wrapAdd_of_lt (h : a + b < m) : wrapAdd m a b = a + b := by
  unfold wrapAdd
  exact Nat.mod_eq_of_lt h

theorem wrapMul_of_lt (h : a * b < m) : wrapMul m a b = a * b := by
  unfold wrapMul
  exact Nat.mod_eq_of_lt h

theorem wrapSub_of_le (h : b ≤ a) (ha : a < m) : wrapSub m a b = a - b := by
  unfold wrapSub
  rw [show a + (m - b) = a - b + m by omega, Nat.add_mod_right, Nat.mod_eq_of_lt (by omega)]

end Program
