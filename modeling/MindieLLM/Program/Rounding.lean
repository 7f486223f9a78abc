import Mathlib.Data.Int.Log
import Mathlib.Data.Rat.Floor

/-!
# Rounding to binary digits

Numbers are rounded to the nearest with so many binary digits, and ties go to the even one. The
exponent is not bounded.

## Main definitions

* `roundEven`: the nearest integer
* `roundDigits digits x`: the nearest number with so many digits

## Main results

* `roundEven_eq_zero`, `one_le_roundEven`, `roundEven_le`: where the nearest integer is
* `roundDigits_natCast`: whole numbers with so many digits stay as they are
-/

namespace Program

/-- The nearest integer, the even one of two. -/
def roundEven (x : Rat) : Int :=
  if x - ⌊x⌋ < 1 / 2 then ⌊x⌋
  else if 1 / 2 < x - ⌊x⌋ then ⌊x⌋ + 1
  else if ⌊x⌋ % 2 = 0 then ⌊x⌋
  else ⌊x⌋ + 1

/-- The distance of the numbers with so many digits, from the greatest power of two up to `x` on. -/
def ulp (digits : Nat) (x : Rat) : Rat := 2 ^ (Int.log 2 x + 1 - digits)

def roundDigits (digits : Nat) (x : Rat) : Rat := roundEven (x / ulp digits x) * ulp digits x

variable {digits n : Nat}

theorem roundEven_intCast (z : Int) : roundEven z = z := by
  rw [roundEven, Int.floor_intCast, sub_self, if_pos (by norm_num)]

/-- Up to a half is rounded to zero. -/
theorem roundEven_eq_zero {x : ℚ} (hlo : -(1 / 2) ≤ x) (hhi : x ≤ 1 / 2) : roundEven x = 0 := by
  rcases lt_or_ge x 0 with hneg | hpos
  · have hfloor : ⌊x⌋ = -1 := by
      rw [Int.floor_eq_iff]
      push_cast
      exact ⟨by linarith, by linarith⟩
    rw [roundEven, hfloor]
    push_cast
    rw [if_neg (by linarith)]
    exact ite_self _
  · have hfloor : ⌊x⌋ = 0 := by
      rw [Int.floor_eq_iff]
      push_cast
      exact ⟨hpos, by linarith⟩
    rw [roundEven, hfloor]
    push_cast
    rw [sub_zero, if_neg (show ¬ 1 / 2 < x from hhi.not_gt)]
    split_ifs <;> rfl

/-- More than a half is not rounded to zero. -/
theorem one_le_roundEven {x : ℚ} (h : 1 / 2 < x) : 1 ≤ roundEven x := by
  have hpos : 0 ≤ ⌊x⌋ := Int.floor_nonneg.mpr (by linarith)
  rcases hpos.eq_or_lt with hzero | hone
  · rw [roundEven, ← hzero]
    push_cast
    rw [sub_zero, if_neg h.not_gt, if_pos h]
  · unfold roundEven
    split_ifs <;> omega

/-- Rounding does not go beyond a whole number. -/
theorem roundEven_le {x : ℚ} {z : ℤ} (h : x ≤ z) : roundEven x ≤ z := by
  have hfloor : ⌊x⌋ ≤ z := Int.floor_le_iff.mpr (by linarith)
  rcases hfloor.eq_or_lt with heq | hlt
  · have hx : x = z := le_antisymm h (heq ▸ Int.floor_le x)
    rw [hx, roundEven_intCast]
  · unfold roundEven
    split_ifs <;> omega

theorem ulp_ne_zero (x : Rat) : ulp digits x ≠ 0 := zpow_ne_zero _ two_ne_zero

/-- Multiples of the distance stay as they are. -/
theorem roundDigits_of_mul {x : Rat} {z : Int} (h : x = z * ulp digits x) :
    roundDigits digits x = x := by
  have hdiv : x / ulp digits x = z := by
    rw [div_eq_iff (ulp_ne_zero x)]
    exact h
  rw [roundDigits, hdiv, roundEven_intCast]
  exact h.symm

/-- Whole numbers with so many digits stay as they are. -/
theorem roundDigits_natCast (h : n < 2 ^ digits) : roundDigits digits (n : Rat) = n := by
  rcases Nat.eq_zero_or_pos n with rfl | hpos
  · exact roundDigits_of_mul (z := 0) (by simp)
  · have hlog : Nat.log 2 n < digits := Nat.log_lt_of_lt_pow hpos.ne' h
    obtain ⟨k, hk⟩ : ∃ k : Nat, digits = Nat.log 2 n + 1 + k :=
      ⟨digits - (Nat.log 2 n + 1), by omega⟩
    have hulp : ulp digits (n : Rat) = (2 ^ k)⁻¹ := by
      rw [ulp, Int.log_natCast, hk, ← zpow_natCast, ← zpow_neg]
      congr 1
      push_cast
      ring
    refine roundDigits_of_mul (z := n * 2 ^ k) ?_
    rw [hulp]
    push_cast
    field_simp

/-- A positive number is not rounded to zero. -/
theorem roundDigits_pos {x : Rat} (hdigits : 0 < digits) (hx : 0 < x) :
    0 < roundDigits digits x := by
  have hulp : 0 < ulp digits x := zpow_pos two_pos _
  have hle : ulp digits x ≤ x := by
    have hexp : Int.log 2 x + 1 - digits ≤ Int.log 2 x := by omega
    have hlog : ((2 : Nat) : Rat) ^ Int.log 2 x ≤ x := Int.zpow_log_le_self one_lt_two hx
    push_cast at hlog
    exact (zpow_le_zpow_right₀ one_le_two hexp).trans hlog
  have hfloor : 1 ≤ ⌊x / ulp digits x⌋ := by
    rw [Int.le_floor]
    push_cast
    rwa [le_div_iff₀ hulp, one_mul]
  have hround : ⌊x / ulp digits x⌋ ≤ roundEven (x / ulp digits x) := by
    unfold roundEven
    split_ifs <;> omega
  have hpos : (0 : Rat) < roundEven (x / ulp digits x) := by
    exact_mod_cast zero_lt_one.trans_le (hfloor.trans hround)
  exact mul_pos hpos hulp

end Program
