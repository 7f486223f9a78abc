import MindieLLM.Program.Slices
import Mathlib.Algebra.Order.Ring.Int

/-!
# Slices whose bounds may be negative

A bound of a slice that is negative counts from the end of the list, and one that is too large is
the end. A flat array is filled by slices row after row: as long as no row is longer than what is
left, each row comes behind the ones before it.

## Main definitions

* `pySlice l a b`, `assignPySlice l a b values`: a slice, and an assignment to it
* `sumTo f i`: the sum of the first values of a function
* `Filled row total i l`: an array of a fixed length that begins with the first rows

## Main results

* `pySlice_eq`: a slice whose bounds lie in the list
* `assignPySlice_append`: a row behind the rows that are there
* `Filled.assign`, `Filled.pySlice`: the array is filled by a row more, and cut off behind the rows
* `flatMap_range_slice`: slices that follow one another are the beginning of the list
* `range_sumTo`, `flatten_map_range`: the places of a flat array, by row and column
* `flatMap_range_inj`: rows of the same lengths are found again in the flat array
-/

namespace Program

variable {α : Type}

/-- The values, from `start` on. -/
def writeAt (l : List α) (start : Nat) (values : List α) : List α :=
  l.take start ++ values ++ l.drop (start + values.length)

/-- Where a bound of a slice is in a list of `n` elements. -/
def bound (n : ℕ) (i : ℤ) : ℕ := if i < 0 then (n + i).toNat else min i.toNat n

/-- `l[a:b]` -/
def pySlice (l : List α) (a b : ℤ) : List α := slice l (bound l.length a) (bound l.length b)

/-- `l[a:b] = values`, where a single value may stand for several. -/
def assignPySlice (l : List α) (a b : ℤ) (values : List α) : Option (List α) :=
  let first := bound l.length a
  let room := bound l.length b - first
  if values.length = room then some (writeAt l first values)
  else match values with
    | [value] => some (writeAt l first (List.replicate room value))
    | _ => none

variable {l done rest values : List α}

theorem bound_of_le {n i : ℕ} (h : i ≤ n) : bound n (i : ℤ) = i := by
  rw [bound, if_neg (by omega), Int.toNat_natCast, Nat.min_eq_left h]

/-- A slice whose bounds lie in the list. -/
theorem pySlice_eq {a b : ℕ} (ha : a ≤ b) (hb : b ≤ l.length) :
    pySlice l (a : ℤ) (b : ℤ) = slice l a b := by
  rw [pySlice, bound_of_le (ha.trans hb), bound_of_le hb]

/-- The first elements. -/
theorem pySlice_zero {i : ℤ} {n k : ℕ} (hn : l.length = n) (h : bound n i = k) :
    pySlice l 0 i = l.take k := by
  rw [pySlice, hn, h, ← Nat.cast_zero, bound_of_le (Nat.zero_le _), slice, List.drop_zero,
    Nat.sub_zero]

theorem pySlice_of_length_le {a b : ℕ} (ha : a ≤ l.length) (hb : l.length ≤ b) :
    pySlice l (a : ℤ) (b : ℤ) = l.drop a := by
  have hbound : bound l.length (b : ℤ) = l.length := by
    rw [bound, if_neg (by omega), Int.toNat_natCast, Nat.min_eq_right hb]
  rw [pySlice, bound_of_le ha, hbound, slice, List.take_of_length_le (by simp)]

/-- **A row behind the rows that are there.** -/
theorem assignPySlice_append {a b : ℤ} (ha : a = done.length) (hb : b = a + values.length)
    (h : values.length ≤ rest.length) :
    assignPySlice (done ++ rest) a b values =
      some (done ++ values ++ rest.drop values.length) := by
  have hfirst : bound (done ++ rest).length a = done.length := by
    rw [ha]
    exact bound_of_le (by simp)
  have hlast : bound (done ++ rest).length b = done.length + values.length := by
    rw [hb, ha, ← Nat.cast_add]
    refine bound_of_le ?_
    rw [List.length_append]
    omega
  simp only [assignPySlice, hfirst, hlast]
  rw [if_pos (by omega), writeAt, List.take_left, List.drop_append]
  simp

/-! ## Sums of the first values -/

variable {M : Type} [AddMonoid M] {f g : ℕ → ℕ} {i n : ℕ}

def sumTo (f : ℕ → M) (i : ℕ) : M := ((List.range i).map f).sum

@[simp]
theorem sumTo_zero (f : ℕ → M) : sumTo f 0 = 0 := rfl

theorem sumTo_succ (f : ℕ → M) (i : ℕ) : sumTo f (i + 1) = sumTo f i + f i := by
  simp [sumTo, List.range_succ]

theorem sumTo_le (f : ℕ → ℕ) (h : i ≤ n) : sumTo f i ≤ sumTo f n := by
  induction n with
  | zero =>
    obtain rfl := Nat.le_zero.mp h
    exact Nat.le_refl _
  | succ n ih =>
    rcases Nat.lt_or_ge n i with hlt | hle
    · obtain rfl : i = n + 1 := by omega
      exact Nat.le_refl _
    · rw [sumTo_succ]
      exact (ih hle).trans (Nat.le_add_right _ _)

theorem sumTo_mono (h : ∀ j < i, f j ≤ g j) : sumTo f i ≤ sumTo g i := by
  induction i with
  | zero => exact Nat.le_refl _
  | succ i ih =>
    rw [sumTo_succ, sumTo_succ]
    exact Nat.add_le_add (ih fun j hj => h j (Nat.lt_succ_of_lt hj)) (h i (Nat.lt_succ_self i))

theorem sumTo_eq_natCast {R : Type} [AddMonoidWithOne R] {f : ℕ → R} (h : ∀ j < i, f j = 1) :
    sumTo f i = i := by
  induction i with
  | zero => rw [sumTo_zero, Nat.cast_zero]
  | succ i ih =>
    rw [sumTo_succ, ih fun j hj => h j (Nat.lt_succ_of_lt hj), h i (Nat.lt_succ_self i),
      Nat.cast_succ]

theorem sumTo_of_natCast {g : ℕ → ℤ} (h : ∀ j < i, (f j : ℤ) = g j) :
    sumTo g i = (sumTo f i : ℕ) := by
  induction i with
  | zero => rfl
  | succ i ih =>
    rw [sumTo_succ, sumTo_succ, ih fun j hj => h j (Nat.lt_succ_of_lt hj),
      ← h i (Nat.lt_succ_self i), Nat.cast_add]

/-- The values are found again in the sums. -/
theorem natCast_of_sumTo {g : ℕ → ℤ} (h : ∀ j < n, sumTo g (j + 1) = (sumTo f (j + 1) : ℕ)) :
    ∀ j < n, (f j : ℤ) = g j := by
  intro j hj
  have hsucc := h j hj
  rw [sumTo_succ, sumTo_succ, Nat.cast_add] at hsucc
  have hbefore : sumTo g j = (sumTo f j : ℕ) := by
    cases j with
    | zero => rfl
    | succ j => exact h j (Nat.lt_of_succ_lt hj)
  omega

theorem length_flatMap_range {row : ℕ → List α} (h : ∀ j < i, (row j).length = f j) :
    ((List.range i).flatMap row).length = sumTo f i := by
  rw [List.length_flatMap]
  exact congrArg List.sum (List.map_congr_left fun j hj => h j (List.mem_range.mp hj))

/-- The rows are the slices at their places. -/
theorem slice_flatMap_range {row : ℕ → List α} (h : ∀ j < n, (row j).length = f j) (hi : i < n) :
    slice ((List.range n).flatMap row) (sumTo f i) (sumTo f (i + 1)) = row i := by
  obtain ⟨k, rfl⟩ := Nat.exists_eq_add_of_lt hi
  have hdone : ((List.range i).flatMap row).length = sumTo f i :=
    length_flatMap_range fun j hj => h j (by omega)
  rw [Nat.add_right_comm, List.range_add, List.range_succ, List.flatMap_append,
    List.flatMap_append, List.flatMap_singleton]
  refine slice_of_length hdone ?_
  rw [hdone, h i hi, sumTo_succ]

/-- Slices that follow one another. -/
theorem flatMap_range_slice (f : ℕ → ℕ) (l : List α) (i : ℕ) :
    ((List.range i).flatMap fun j => slice l (sumTo f j) (sumTo f (j + 1))) =
      l.take (sumTo f i) := by
  induction i with
  | zero => rfl
  | succ i ih =>
    have hlen : sumTo f (i + 1) - sumTo f i = f i := by
      rw [sumTo_succ, Nat.add_sub_cancel_left]
    rw [List.range_succ, List.flatMap_append, ih, List.flatMap_singleton, slice, hlen,
      sumTo_succ, List.take_add]

/-- The numbers below a sum, by the row that they fall into. -/
theorem range_sumTo (f : ℕ → ℕ) (n : ℕ) :
    List.range (sumTo f n) =
      (List.range n).flatMap fun i => (List.range (f i)).map (sumTo f i + ·) := by
  induction n with
  | zero => rfl
  | succ n ih =>
    rw [sumTo_succ, List.range_add, ih, List.range_succ, List.flatMap_append,
      List.flatMap_singleton]

/-- Rows of one length, one behind the other: the row and the column of a place by division. -/
theorem flatten_map_range (g : ℕ → ℕ → α) (w m : ℕ) :
    ((List.range w).map fun j => (List.range m).map (g j)).flatten =
      (List.range (w * m)).map fun i => g (i / m) (i % m) := by
  induction w with
  | zero => rw [Nat.zero_mul, List.range_zero, List.map_nil, List.map_nil, List.flatten_nil]
  | succ w ih =>
    rw [List.range_succ, List.map_append, List.flatten_append, ih, Nat.succ_mul, List.range_add,
      List.map_append, List.map_map, List.map_singleton, List.flatten_singleton]
    refine congrArg _ (List.map_congr_left fun c hc => ?_)
    have hlt := List.mem_range.mp hc
    have hpos := Nat.zero_lt_of_lt hlt
    rw [Function.comp_apply, Nat.mul_comm, Nat.mul_add_div hpos, Nat.mul_add_mod,
      Nat.div_eq_of_lt hlt, Nat.mod_eq_of_lt hlt, Nat.add_zero]

/-! ## An array that is filled -/

/-- An array of a fixed length that begins with the first rows. -/
def Filled (row : ℕ → List α) (total i : ℕ) (l : List α) : Prop :=
  l.length = total ∧ (List.range i).flatMap row <+: l

namespace Filled

variable {row row' : ℕ → List α} {total : ℕ}

theorem congr (h : Filled row total i l) (hrow : ∀ j < i, row j = row' j) :
    Filled row' total i l := by
  refine ⟨h.1, ?_⟩
  have heq : (List.range i).flatMap row' = (List.range i).flatMap row :=
    List.flatMap_congr fun j hj => (hrow j (List.mem_range.mp hj)).symm
  rw [heq]
  exact h.2

/-- **A row more.** -/
theorem assign {a b : ℤ} (h : Filled row total i l) (hrow : ∀ j < i + 1, (row j).length = f j)
    (hle : sumTo f (i + 1) ≤ total) (ha : a = sumTo f i) (hb : b = a + f i) :
    ∃ l', assignPySlice l a b (row i) = some l' ∧ Filled row total (i + 1) l' := by
  obtain ⟨hlength, rest, rfl⟩ := h
  have hdone : ((List.range i).flatMap row).length = sumTo f i :=
    length_flatMap_range fun j hj => hrow j (Nat.lt_succ_of_lt hj)
  have hlast : (row i).length = f i := hrow i (Nat.lt_succ_self i)
  rw [List.length_append, hdone] at hlength
  rw [sumTo_succ] at hle
  have hrest : (row i).length ≤ rest.length := by omega
  refine ⟨_, assignPySlice_append (by rw [ha, hdone]) (by rw [hb, hlast]) hrest, ?_, ?_⟩
  · rw [List.length_append, List.length_append, List.length_drop, hdone]
    omega
  · rw [List.range_succ, List.flatMap_append, List.flatMap_singleton]
    exact List.prefix_append _ _

/-- The array, cut off behind the rows. -/
theorem pySlice (h : Filled row total i l) (hrow : ∀ j < i, (row j).length = f j) {a : ℤ}
    (ha : a = sumTo f i) : pySlice l 0 a = (List.range i).flatMap row := by
  obtain ⟨-, rest, rfl⟩ := h
  have hdone : ((List.range i).flatMap row).length = sumTo f i := length_flatMap_range hrow
  rw [ha, ← Nat.cast_zero, pySlice_eq (Nat.zero_le _) (by rw [List.length_append]; omega)]
  rw [slice, List.drop_zero, Nat.sub_zero, ← hdone, List.take_left]

end Filled

/-- **Rows of the same lengths** are found again in the flat array. -/
theorem flatMap_range_inj {row row' : ℕ → List α} (hlen : ∀ j < n, (row j).length = (row' j).length)
    (h : (List.range n).flatMap row = (List.range n).flatMap row') : ∀ j < n, row j = row' j := by
  induction n with
  | zero => exact fun j hj => absurd hj (Nat.not_lt_zero j)
  | succ n ih =>
    rw [List.range_succ, List.flatMap_append, List.flatMap_append, List.flatMap_singleton,
      List.flatMap_singleton] at h
    obtain ⟨hfirst, hlast⟩ := List.append_inj' h (hlen n (Nat.lt_succ_self n))
    intro j hj
    rcases Nat.lt_succ_iff_lt_or_eq.mp hj with hj | rfl
    · exact ih (fun j hj => hlen j (Nat.lt_succ_of_lt hj)) hfirst j hj
    · exact hlast

end Program
