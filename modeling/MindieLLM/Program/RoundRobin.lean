import Mathlib.Data.Int.CardIntervalMod

/-!
# Dealing in turn

Items `0, 1, 2, …` are dealt to `R` places in turn: item `i` goes to place `i % R`, as the one of
row `i / R` there. What the places have after a number of items is a staircase.

## Main definitions

* `share R n r`, `shares R n`: how many of the first `n` items a place gets, and all places
* `Holds R counts i`: the place of item `i` has got that far
* `Longest p n`: the items have a property up to the `n`-th, and not that one

## Main results

* `share_eq`: a share by division
* `shares_succ`, `foldl_modify_shares`: one item more, and several
* `sum_shares`: the shares add up
-/

namespace Program.RoundRobin

variable {R n r row i : ℕ}

/-- How many of the first `n` items go to place `r`. -/
def share (R n r : ℕ) : ℕ := Nat.count (fun i => i % R = r) n

/-- What each place gets of the first `n` items. -/
def shares (R n : ℕ) : List ℕ := (List.range R).map (share R n)

/-- The place of item `i` has an item in its row. -/
def Holds (R : ℕ) (counts : List ℕ) (i : ℕ) : Prop := i / R < counts.getD (i % R) 0

/-- The items have the property up to the `n`-th, and that one has not. -/
def Longest (p : ℕ → Prop) (n : ℕ) : Prop := (∀ i < n, p i) ∧ ¬p n

/-! ## Places and rows -/

theorem div_item (row : ℕ) (hr : r < R) : (row * R + r) / R = row := by
  rw [Nat.mul_comm, Nat.mul_add_div (by omega), Nat.div_eq_of_lt hr, Nat.add_zero]

theorem mod_item (row : ℕ) (hr : r < R) : (row * R + r) % R = r := by
  rw [Nat.mul_comm, Nat.mul_add_mod, Nat.mod_eq_of_lt hr]

theorem item_eq (i R : ℕ) : i / R * R + i % R = i := Nat.div_add_mod' i R

/-- The items before that of a row and a place are those of rows before, and those of the row at
places before. -/
theorem row_of_lt (hr : r ≤ R) (h : i < row * R + r) : i / R < row ∨ i / R = row ∧ i % R < r := by
  have hi := item_eq i R
  rcases Nat.lt_trichotomy (i / R) row with hlt | heq | hgt
  · exact .inl hlt
  · refine .inr ⟨heq, ?_⟩
    rw [heq] at hi
    omega
  · -- a row further on begins behind all of them
    have hrow : (row + 1) * R ≤ i / R * R := Nat.mul_le_mul_right R hgt
    rw [Nat.add_mul, Nat.one_mul] at hrow
    omega

/-! ## The first element without a property -/

section TakeWhile

variable {α : Type} {p : α → Bool} {l : List α} {d : α}

theorem getD_of_lt_takeWhile (h : r < (l.takeWhile p).length) : p (l.getD r d) = true := by
  induction l generalizing r with
  | nil => cases h
  | cons x l ih =>
    cases hx : p x with
    | false =>
      rw [List.takeWhile_cons_of_neg (by simp [hx])] at h
      cases h
    | true =>
      rw [List.takeWhile_cons_of_pos hx] at h
      cases r with
      | zero => exact hx
      | succ r => exact ih (Nat.lt_of_succ_lt_succ h)

theorem getD_takeWhile_length (h : (l.takeWhile p).length < l.length) :
    p (l.getD (l.takeWhile p).length d) = false := by
  induction l with
  | nil => cases h
  | cons x l ih =>
    cases hx : p x with
    | false =>
      rw [List.takeWhile_cons_of_neg (by simp [hx])]
      exact hx
    | true =>
      rw [List.takeWhile_cons_of_pos hx] at h ⊢
      exact ih (Nat.lt_of_succ_lt_succ h)

end TakeWhile

/-! ## Shares -/

@[simp]
theorem length_shares (R n : ℕ) : (shares R n).length = R := by
  rw [shares, List.length_map, List.length_range]

theorem getElem_shares (h : r < (shares R n).length) : (shares R n)[r] = share R n r := by
  simp only [shares, List.getElem_map, List.getElem_range]

theorem getD_shares (hr : r < R) : (shares R n).getD r 0 = share R n r := by
  rw [List.getD_eq_getElem?_getD, List.getElem?_eq_getElem (by rwa [length_shares]), getElem_shares]
  rfl

@[simp]
theorem share_zero (R r : ℕ) : share R 0 r = 0 := rfl

theorem share_succ (R n r : ℕ) : share R (n + 1) r = share R n r + if n % R = r then 1 else 0 :=
  Nat.count_succ _ n

theorem share_eq (hr : r < R) : share R n r = n / R + if r < n % R then 1 else 0 := by
  have hcount := Nat.count_modEq_card n (Nat.zero_lt_of_lt hr) r
  rw [Nat.mod_eq_of_lt hr] at hcount
  rw [← hcount, share]
  congr 1
  funext i
  rw [Nat.ModEq, Nat.mod_eq_of_lt hr]

/-- One item more. -/
theorem shares_succ (R n : ℕ) : (shares R n).modify (n % R) (· + 1) = shares R (n + 1) := by
  apply List.ext_getElem
  · simp
  · intro r h _
    rw [List.getElem_modify, getElem_shares, getElem_shares, share_succ]
    split
    · rfl
    · exact (Nat.add_zero _).symm

/-- Several items more. -/
theorem foldl_modify_shares (R n k : ℕ) :
    (List.range k).foldl (fun nums i => nums.modify ((i + n) % R) (· + 1)) (shares R n) =
      shares R (n + k) := by
  induction k with
  | zero => rfl
  | succ k ih =>
    rw [List.range_succ, List.foldl_append, ih, List.foldl_cons, List.foldl_nil, Nat.add_comm k n,
      shares_succ]
    rfl

theorem sum_map_ite_eq (R x : ℕ) :
    ((List.range R).map fun r => if x = r then 1 else 0).sum = if x < R then 1 else 0 := by
  induction R with
  | zero => simp
  | succ R ih =>
    rw [List.range_succ, List.map_append, List.sum_append, ih]
    simp only [List.map_cons, List.map_nil, List.sum_cons, List.sum_nil, Nat.add_zero]
    split_ifs <;> omega

/-- The places have all items between them. -/
theorem sum_shares (hR : 0 < R) (n : ℕ) : (shares R n).sum = n := by
  induction n with
  | zero =>
    apply List.sum_eq_zero
    intro x hx
    obtain ⟨r, -, rfl⟩ := List.mem_map.mp hx
    exact share_zero R r
  | succ n ih =>
    have hadd : (shares R (n + 1)).sum =
        (shares R n).sum + ((List.range R).map fun r => if n % R = r then 1 else 0).sum := by
      rw [shares, shares, ← List.sum_map_add]
      exact congrArg List.sum (List.map_congr_left fun r _ => share_succ R n r)
    rw [hadd, ih, sum_map_ite_eq, if_pos (Nat.mod_lt n hR)]

end Program.RoundRobin
