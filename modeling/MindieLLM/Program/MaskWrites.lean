import Mathlib.Data.List.GetD
import MindieLLM.Program.FlatRows

/-!
# Masks and indices

The elements of an array that a mask names are replaced by other values, one after the other. By
counting, a mask gives each of its places the index of a value.

## Main definitions

* `fillMask mask xs values`: the values, where the mask is set
* `assignMask mask xs values`: the same, where a single value may stand for several
* `maskIndices padding count mask`: the indices of values, `padding` where the mask is not set

## Main results

* `fillMask_append`, `fillMask_flatMap`: arrays that consist of parts
* `fillMask_replicate`: a mask that is set at the beginning
* `maskIndices_flatMap`: blocks of one length with values at their beginning
-/

namespace Program

variable {α β : Type}

/-- Without a value if the values are not as many as the elements that the mask names. -/
def fillMask : List Bool → List α → List α → Option (List α)
  | [], [], [] => some []
  | true :: mask, _ :: xs, value :: values => (fillMask mask xs values).map (value :: ·)
  | false :: mask, x :: xs, values => (fillMask mask xs values).map (x :: ·)
  | _, _, _ => none

/-- `xs[mask] = values` -/
def assignMask (mask : List Bool) (xs values : List α) : Option (List α) :=
  if values.length = mask.count true then fillMask mask xs values
  else match values with
    | [value] => fillMask mask xs (List.replicate (mask.count true) value)
    | _ => none

variable {mask mask' : List Bool} {xs ys values values' result result' : List α}

theorem fillMask_append (h : fillMask mask xs values = some result)
    (h' : fillMask mask' ys values' = some result') :
    fillMask (mask ++ mask') (xs ++ ys) (values ++ values') = some (result ++ result') := by
  induction mask generalizing xs values result with
  | nil =>
    cases xs with
    | nil =>
      cases values with
      | nil =>
        obtain rfl := Option.some.inj h
        exact h'
      | cons value values => cases h
    | cons x xs => cases h
  | cons b mask ih =>
    cases xs with
    | nil => cases b <;> cases h
    | cons x xs =>
      cases b with
      | true =>
        cases values with
        | nil => cases h
        | cons value values =>
          obtain ⟨rest, hrest, rfl⟩ := Option.map_eq_some_iff.mp h
          exact Option.map_eq_some_iff.mpr ⟨_, ih hrest, rfl⟩
      | false =>
        obtain ⟨rest, hrest, rfl⟩ := Option.map_eq_some_iff.mp h
        exact Option.map_eq_some_iff.mpr ⟨_, ih hrest, rfl⟩

/-- **Parts one behind the other.** -/
theorem fillMask_flatMap {l : List β} {mask : β → List Bool} {xs values result : β → List α}
    (h : ∀ b ∈ l, fillMask (mask b) (xs b) (values b) = some (result b)) :
    fillMask (l.flatMap mask) (l.flatMap xs) (l.flatMap values) = some (l.flatMap result) := by
  induction l with
  | nil => rfl
  | cons b l ih =>
    simp only [List.flatMap_cons]
    exact fillMask_append (h b List.mem_cons_self) (ih fun c hc => h c (List.mem_cons_of_mem b hc))

theorem fillMask_false (xs : List α) :
    fillMask (List.replicate xs.length false) xs [] = some xs := by
  induction xs with
  | nil => rfl
  | cons x xs ih => exact Option.map_eq_some_iff.mpr ⟨xs, ih, rfl⟩

theorem fillMask_true (h : values.length = xs.length) :
    fillMask (List.replicate xs.length true) xs values = some values := by
  induction xs generalizing values with
  | nil =>
    obtain rfl := List.length_eq_zero_iff.mp h
    rfl
  | cons x xs ih =>
    obtain ⟨value, values, rfl⟩ := List.exists_cons_of_length_eq_add_one h
    exact Option.map_eq_some_iff.mpr ⟨values, ih (Nat.succ.inj h), rfl⟩

/-- A mask that is set at the beginning. -/
theorem fillMask_replicate (ys : List α) (h : values.length = xs.length) :
    fillMask (List.replicate xs.length true ++ List.replicate ys.length false) (xs ++ ys) values =
      some (values ++ ys) := by
  have happend := fillMask_append (fillMask_true h) (fillMask_false ys)
  rwa [List.append_nil] at happend

theorem length_of_fillMask (h : fillMask mask xs values = some result) :
    values.length = mask.count true ∧ mask.length = xs.length ∧ result.length = xs.length := by
  induction mask generalizing xs values result with
  | nil =>
    cases xs with
    | nil =>
      cases values with
      | nil =>
        obtain rfl := Option.some.inj h
        exact ⟨rfl, rfl, rfl⟩
      | cons value values => cases h
    | cons x xs => cases h
  | cons b mask ih =>
    cases xs with
    | nil => cases b <;> cases h
    | cons x xs =>
      cases b with
      | true =>
        cases values with
        | nil => cases h
        | cons value values =>
          obtain ⟨rest, hrest, rfl⟩ := Option.map_eq_some_iff.mp h
          obtain ⟨hvalues, hxs, hresult⟩ := ih hrest
          rw [List.count_cons_self]
          exact ⟨congrArg (· + 1) hvalues, congrArg (· + 1) hxs, congrArg (· + 1) hresult⟩
      | false =>
        obtain ⟨rest, hrest, rfl⟩ := Option.map_eq_some_iff.mp h
        obtain ⟨hvalues, hxs, hresult⟩ := ih hrest
        rw [List.count_cons_of_ne Bool.false_ne_true]
        exact ⟨hvalues, congrArg (· + 1) hxs, congrArg (· + 1) hresult⟩

/-- As many values as the mask names. -/
theorem assignMask_eq_some (h : fillMask mask xs values = some result) :
    assignMask mask xs values = some result := by
  have hlength := (length_of_fillMask h).1
  unfold assignMask
  rw [if_pos hlength, h]

/-! ## The indices of values -/

/-- The first places of a block. -/
theorem map_lt_range {width maxWidth : Nat} (h : width ≤ maxWidth) :
    ((List.range maxWidth).map fun j => decide (j < width)) =
      List.replicate width true ++ List.replicate (maxWidth - width) false := by
  apply List.ext_getElem
  · simp
    omega
  · intro j hj _
    rw [List.getElem_map, List.getElem_range]
    by_cases hlt : j < width
    · rw [List.getElem_append_left (by simpa using hlt), List.getElem_replicate,
        decide_eq_true hlt]
    · rw [List.getElem_append_right (by simpa using Nat.le_of_not_lt hlt), List.getElem_replicate,
        decide_eq_false hlt]

/-- The indices that a mask gives, with `count` places before it. -/
def maskIndices (padding count : Nat) (mask : List Bool) : List Nat :=
  (List.range mask.length).map fun t =>
    if mask.getD t false then count + (mask.take (t + 1)).count true - 1 else padding

theorem maskIndices_append (padding count : Nat) (mask mask' : List Bool) :
    maskIndices padding count (mask ++ mask') =
      maskIndices padding count mask ++ maskIndices padding (count + mask.count true) mask' := by
  rw [maskIndices, List.length_append, List.range_add, List.map_append, List.map_map]
  congr 1
  · refine List.map_congr_left fun t ht => ?_
    have hlt := List.mem_range.mp ht
    rw [List.getD_append _ _ _ _ hlt, List.take_append_of_le_length (by omega)]
  · refine List.map_congr_left fun t _ => ?_
    rw [Function.comp_apply, List.getD_append_right _ _ _ _ (Nat.le_add_right _ _),
      Nat.add_sub_cancel_left, Nat.add_assoc, List.take_length_add_append, List.count_append,
      Nat.add_assoc]

theorem maskIndices_block {width maxWidth : Nat} (padding count : Nat) (h : width ≤ maxWidth) :
    maskIndices padding count ((List.range maxWidth).map fun j => decide (j < width)) =
      (List.range maxWidth).map fun j => if j < width then count + j else padding := by
  rw [maskIndices, List.length_map, List.length_range]
  refine List.map_congr_left fun t ht => ?_
  have hlt := List.mem_range.mp ht
  have hget : ((List.range maxWidth).map fun j => decide (j < width)).getD t false =
      decide (t < width) := by
    rw [List.getD_eq_getElem _ _ (by simpa using hlt), List.getElem_map, List.getElem_range]
  rw [hget]
  by_cases hw : t < width
  · rw [decide_eq_true hw, if_pos rfl, if_pos hw, map_lt_range h,
      List.take_append_of_le_length (by simpa using Nat.succ_le_of_lt hw), List.take_replicate,
      Nat.min_eq_left hw, List.count_replicate_self]
    omega
  · rw [decide_eq_false hw, if_neg Bool.false_ne_true, if_neg hw]

theorem count_block {width maxWidth : Nat} (h : width ≤ maxWidth) :
    (((List.range maxWidth).map fun j => decide (j < width)).count true) = width := by
  rw [map_lt_range h, List.count_append, List.count_replicate_self, List.count_replicate]
  rfl

/-- **Blocks of one length** with values at their beginning. -/
theorem maskIndices_flatMap {f : Nat → Nat} {maxWidth n : Nat} (padding : Nat)
    (h : ∀ i < n, f i ≤ maxWidth) :
    maskIndices padding 0
        ((List.range n).flatMap fun i => (List.range maxWidth).map fun j => decide (j < f i)) =
      (List.range n).flatMap fun i => (List.range maxWidth).map fun j =>
        if j < f i then sumTo f i + j else padding := by
  have hcount : ∀ k ≤ n, ((List.range k).flatMap fun i =>
      (List.range maxWidth).map fun j => decide (j < f i)).count true = sumTo f k := by
    intro k
    induction k with
    | zero => exact fun _ => rfl
    | succ k ih =>
      intro hk
      rw [List.range_succ, List.flatMap_append, List.count_append, ih (Nat.le_of_succ_le hk),
        List.flatMap_singleton, count_block (h k hk), sumTo_succ]
  induction n with
  | zero => rfl
  | succ n ih =>
    rw [List.range_succ, List.flatMap_append, List.flatMap_append, maskIndices_append,
      ih (fun i hi => h i (Nat.lt_succ_of_lt hi)) (fun k hk => hcount k (Nat.le_succ_of_le hk)),
      hcount n (Nat.le_succ n), List.flatMap_singleton, List.flatMap_singleton,
      maskIndices_block _ _ (h n (Nat.lt_succ_self n)), Nat.zero_add]

end Program
