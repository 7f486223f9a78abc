import MindieLLM.Program.Slices
import Mathlib.Algebra.Order.Ring.Int

/-!
# Rows in groups

The rows of an array are those of groups, one group behind the other. A mask of the groups takes
some of them out of the array: their rows stay together, and move up to where the groups before them
have gone.

## Main definitions

* `keep mask xs`: the elements that a mask keeps
* `intervals start sizes`: the intervals of groups one behind the other
* `rowMask mask sizes`: the mask of the rows of groups

## Main results

* `getElem?_keep`: an element that is kept, by where it was
* `getElem?_keep_count`: where an element is that is kept
* `keep_rowMask_range'`: the rows of groups are kept together
* `slice_flatten_intervals`, `getElem?_flatten_range`: a group, and a row of it, by its interval
-/

namespace Program

variable {α β : Type}

/-- `xs[mask]` -/
def keep : List Bool → List α → List α
  | true :: mask, x :: xs => x :: keep mask xs
  | false :: mask, _ :: xs => keep mask xs
  | _, _ => []

def intervals (start : Nat) : List Nat → List (Nat × Nat)
  | [] => []
  | size :: sizes => (start, start + size) :: intervals (start + size) sizes

/-- The rows of a group are kept if the group is. -/
def rowMask (mask : List Bool) (sizes : List Nat) : List Bool :=
  (List.zipWith (fun b size => List.replicate size b) mask sizes).flatten

variable {mask mask' : List Bool} {xs ys : List α} {sizes : List Nat}

/-! ## Masks -/

@[simp]
theorem keep_nil : keep mask ([] : List α) = [] := by
  cases mask with
  | nil => rfl
  | cons b mask => cases b <;> rfl

theorem keep_append (h : mask.length = xs.length) :
    keep (mask ++ mask') (xs ++ ys) = keep mask xs ++ keep mask' ys := by
  induction mask generalizing xs with
  | nil =>
    obtain rfl := List.length_eq_zero_iff.mp h.symm
    rfl
  | cons b mask ih =>
    obtain ⟨x, xs, rfl⟩ := List.exists_cons_of_length_eq_add_one h.symm
    have hrest := @ih xs (Nat.succ.inj h)
    cases b with
    | true => exact congrArg (x :: ·) hrest
    | false => exact hrest

theorem keep_map (f : α → β) (mask : List Bool) (xs : List α) :
    keep mask (xs.map f) = (keep mask xs).map f := by
  induction mask generalizing xs with
  | nil => rfl
  | cons b mask ih =>
    cases xs with
    | nil => simp
    | cons x xs =>
      cases b with
      | true => exact congrArg (f x :: ·) (ih xs)
      | false => exact ih xs

theorem length_keep (h : mask.length = xs.length) : (keep mask xs).length = mask.count true := by
  induction mask generalizing xs with
  | nil => rfl
  | cons b mask ih =>
    obtain ⟨x, xs, rfl⟩ := List.exists_cons_of_length_eq_add_one h.symm
    have hrest := @ih xs (Nat.succ.inj h)
    cases b with
    | true =>
      rw [List.count_cons_self, ← hrest]
      rfl
    | false =>
      rw [List.count_cons_of_ne (by decide), ← hrest]
      rfl

theorem keep_replicate_true (xs : List α) : keep (List.replicate xs.length true) xs = xs := by
  induction xs with
  | nil => rfl
  | cons x xs ih => exact congrArg (x :: ·) ih

theorem keep_replicate_false (xs : List α) : keep (List.replicate xs.length false) xs = [] := by
  induction xs with
  | nil => rfl
  | cons x xs ih => exact ih

/-- **An element that is kept.** It is the one at the index that is kept at its place. -/
theorem getElem?_keep (h : mask.length = xs.length) (j : Nat) :
    (keep mask xs)[j]? = ((keep mask (List.range mask.length))[j]?).bind fun i => xs[i]? := by
  have hsome : xs.map some = (List.range mask.length).map fun i => xs[i]? := by
    apply List.ext_getElem
    · simp [h]
    · intro i hi _
      rw [List.length_map] at hi
      simp [hi]
  have hkeep : (keep mask xs).map some =
      (keep mask (List.range mask.length)).map fun i => xs[i]? := by
    rw [← keep_map, hsome, keep_map]
  have hj := congrArg (fun l => l[j]?) hkeep
  simp only [List.getElem?_map] at hj
  cases hx : (keep mask xs)[j]? with
  | none =>
    rw [hx] at hj
    cases hi : (keep mask (List.range mask.length))[j]? with
    | none => rfl
    | some i =>
      rw [hi] at hj
      cases hj
  | some x =>
    rw [hx] at hj
    cases hi : (keep mask (List.range mask.length))[j]? with
    | none =>
      rw [hi] at hj
      cases hj
    | some i =>
      rw [hi] at hj
      exact Option.some.inj hj

theorem getElem?_keep_of_range {i j : Nat} (h : mask.length = xs.length)
    (hi : (keep mask (List.range mask.length))[j]? = some i) : (keep mask xs)[j]? = xs[i]? := by
  rw [getElem?_keep h, hi, Option.bind_some]

theorem keep_drop_of_getElem? {b : Bool} {i : Nat} (h : mask.length = xs.length)
    (hb : mask[i]? = some b) :
    keep mask xs = keep (mask.take i) (xs.take i) ++ keep (b :: mask.drop (i + 1)) (xs.drop i) := by
  obtain ⟨hi, rfl⟩ := List.getElem?_eq_some_iff.mp hb
  rw [← List.drop_eq_getElem_cons hi, ← keep_append (by simp [h]), List.take_append_drop,
    List.take_append_drop]

/-- **Where an element is that is kept.** As many are before it as are kept before it. -/
theorem getElem?_keep_count {i : Nat} (h : mask.length = xs.length) (hb : mask[i]? = some true) :
    (keep mask xs)[(mask.take i).count true]? = xs[i]? := by
  have hi : i < xs.length := by
    rw [← h]
    exact (List.getElem?_eq_some_iff.mp hb).1
  have hlen : (keep (mask.take i) (xs.take i)).length = (mask.take i).count true :=
    length_keep (by simp [h])
  rw [keep_drop_of_getElem? h hb, List.getElem?_append_right (by rw [hlen]), hlen, Nat.sub_self,
    List.drop_eq_getElem_cons hi, List.getElem?_eq_getElem hi]
  rfl

theorem eq_true_of_mem_keep_self {b : Bool} (h : b ∈ keep mask mask) : b = true := by
  induction mask with
  | nil => exact absurd h List.not_mem_nil
  | cons c mask ih =>
    cases c with
    | true =>
      rcases List.mem_cons.mp h with rfl | h
      · rfl
      · exact ih h
    | false => exact ih h

theorem mem_of_keep_ne_nil (h : keep mask xs ≠ []) : true ∈ mask := by
  induction mask generalizing xs with
  | nil => exact absurd rfl h
  | cons b mask ih =>
    cases b with
    | true => exact List.mem_cons_self
    | false =>
      cases xs with
      | nil => exact absurd keep_nil h
      | cons x xs => exact List.mem_cons_of_mem _ (ih h)

theorem keep_ne_nil (h : mask.length = xs.length) (hmask : true ∈ mask) : keep mask xs ≠ [] := by
  intro hnil
  have hlen := length_keep h
  rw [hnil, List.length_nil] at hlen
  exact absurd hlen.symm (Nat.ne_of_gt (List.count_pos_iff.mpr hmask))

/-- One element more. -/
theorem keep_take_succ {b : Bool} {x : α} {i : Nat} (hb : mask[i]? = some b)
    (hx : xs[i]? = some x) :
    keep (mask.take (i + 1)) (xs.take (i + 1)) =
      keep (mask.take i) (xs.take i) ++ if b then [x] else [] := by
  have hmask := (List.getElem?_eq_some_iff.mp hb).1
  have hxs := (List.getElem?_eq_some_iff.mp hx).1
  rw [List.take_add_one, List.take_add_one, hb, hx, keep_append (by simp; omega)]
  cases b <;> rfl

/-- The index of an element that is not kept is not among the indices that are. -/
theorem getElem?_keep_range_ne {i : Nat} (hb : mask[i]? = some false) (j : Nat) :
    (keep mask (List.range mask.length))[j]? ≠ some i := by
  intro hj
  have hmask : (keep mask mask)[j]? = some false := by
    rw [getElem?_keep_of_range rfl hj, hb]
  exact Bool.false_ne_true (eq_true_of_mem_keep_self (List.mem_of_getElem? hmask))

/-! ## Groups -/

@[simp]
theorem length_intervals (start : Nat) (sizes : List Nat) :
    (intervals start sizes).length = sizes.length := by
  induction sizes generalizing start with
  | nil => rfl
  | cons size sizes ih => exact congrArg (· + 1) (ih _)

theorem intervals_append (start : Nat) (sizes sizes' : List Nat) :
    intervals start (sizes ++ sizes') =
      intervals start sizes ++ intervals (start + sizes.sum) sizes' := by
  induction sizes generalizing start with
  | nil => rfl
  | cons size sizes ih =>
    rw [List.cons_append, intervals, ih, List.sum_cons, ← Nat.add_assoc]
    rfl

/-- An interval begins behind the groups before it. -/
theorem getElem?_intervals (start : Nat) (sizes : List Nat) (k : Nat) :
    (intervals start sizes)[k]? =
      (sizes[k]?).map fun size =>
        (start + (sizes.take k).sum, start + (sizes.take k).sum + size) := by
  induction sizes generalizing start k with
  | nil => rfl
  | cons size sizes ih =>
    cases k with
    | zero => rfl
    | succ k =>
      rw [intervals, List.getElem?_cons_succ, ih, List.getElem?_cons_succ, List.take_succ_cons,
        List.sum_cons, ← Nat.add_assoc]

/-- An interval lies among the rows of the groups. -/
theorem mem_intervals {g : Nat × Nat} {start : Nat} (h : g ∈ intervals start sizes) :
    start ≤ g.1 ∧ g.1 ≤ g.2 ∧ g.2 ≤ start + sizes.sum := by
  induction sizes generalizing start with
  | nil => exact absurd h List.not_mem_nil
  | cons size sizes ih =>
    rw [List.sum_cons]
    rcases List.mem_cons.mp h with rfl | h
    · dsimp only
      omega
    · obtain ⟨hstart, hle, hstop⟩ := ih h
      omega

theorem map_sub_intervals (start : Nat) (sizes : List Nat) :
    (intervals start sizes).map (fun g => g.2 - g.1) = sizes := by
  induction sizes generalizing start with
  | nil => rfl
  | cons size sizes ih => rw [intervals, List.map_cons, ih, Nat.add_sub_cancel_left]

theorem length_rowMask (h : mask.length = sizes.length) :
    (rowMask mask sizes).length = sizes.sum := by
  induction mask generalizing sizes with
  | nil =>
    obtain rfl := List.length_eq_zero_iff.mp h.symm
    rfl
  | cons b mask ih =>
    obtain ⟨size, sizes, rfl⟩ := List.exists_cons_of_length_eq_add_one h.symm
    have hrest := @ih sizes (Nat.succ.inj h)
    rw [rowMask] at hrest ⊢
    rw [List.zipWith_cons_cons, List.flatten_cons, List.length_append, List.length_replicate,
      hrest, List.sum_cons]

/-- The first row of a group is kept if the group is. -/
theorem getElem?_rowMask {b : Bool} {size i : Nat} (hb : mask[i]? = some b)
    (hsize : sizes[i]? = some size) (hpos : 0 < size) :
    (rowMask mask sizes)[(sizes.take i).sum]? = some b := by
  induction i generalizing mask sizes with
  | zero =>
    obtain ⟨b', mask, rfl⟩ := List.exists_cons_of_length_pos (List.getElem?_eq_some_iff.mp hb).1
    obtain ⟨size', sizes, rfl⟩ :=
      List.exists_cons_of_length_pos (List.getElem?_eq_some_iff.mp hsize).1
    obtain rfl : b' = b := Option.some.inj hb
    obtain rfl : size' = size := Option.some.inj hsize
    have hrows : rowMask (b' :: mask) (size' :: sizes) =
        List.replicate size' b' ++ rowMask mask sizes := rfl
    rw [hrows, List.take_zero, List.sum_nil, List.getElem?_append_left (by simpa using hpos)]
    exact List.getElem?_replicate_of_lt hpos
  | succ i ih =>
    obtain ⟨b', mask, rfl⟩ :=
      List.exists_cons_of_length_pos (Nat.zero_lt_of_lt (List.getElem?_eq_some_iff.mp hb).1)
    obtain ⟨size', sizes, rfl⟩ :=
      List.exists_cons_of_length_pos (Nat.zero_lt_of_lt (List.getElem?_eq_some_iff.mp hsize).1)
    have hrows : rowMask (b' :: mask) (size' :: sizes) =
        List.replicate size' b' ++ rowMask mask sizes := rfl
    rw [hrows, List.take_succ_cons, List.sum_cons, List.getElem?_append_right (by simp),
      List.length_replicate, Nat.add_sub_cancel_left]
    exact ih hb hsize

theorem mem_rowMask {b : Bool} (h : mask.length = sizes.length)
    (hpos : ∀ size ∈ sizes, 0 < size) : b ∈ rowMask mask sizes ↔ b ∈ mask := by
  constructor
  · intro hb
    obtain ⟨rows, hrows, hb⟩ := List.mem_flatten.mp hb
    rw [← List.map_uncurry_zip_eq_zipWith] at hrows
    obtain ⟨⟨b', size⟩, hmem, rfl⟩ := List.mem_map.mp hrows
    obtain rfl : b = b' := (List.mem_replicate.mp hb).2
    exact (List.of_mem_zip hmem).1
  · intro hb
    obtain ⟨i, hi⟩ := List.mem_iff_getElem?.mp hb
    have hlt : i < sizes.length := h ▸ (List.getElem?_eq_some_iff.mp hi).1
    exact List.mem_of_getElem? (getElem?_rowMask hi (List.getElem?_eq_getElem hlt)
      (hpos _ (List.getElem_mem hlt)))

theorem map_rowMask (f : Bool → Bool) (mask : List Bool) (sizes : List Nat) :
    (rowMask mask sizes).map f = rowMask (mask.map f) sizes := by
  unfold rowMask
  rw [List.map_flatten, List.map_zipWith, List.zipWith_map_left]
  simp only [List.map_replicate]

/-- **The rows of groups are kept together**, one group behind the other. -/
theorem keep_rowMask_range' (h : mask.length = sizes.length) (start : Nat) :
    keep (rowMask mask sizes) (List.range' start sizes.sum) =
      (keep mask (intervals start sizes)).flatMap fun g => List.range' g.1 (g.2 - g.1) := by
  induction mask generalizing sizes start with
  | nil => rfl
  | cons b mask ih =>
    obtain ⟨size, sizes, rfl⟩ := List.exists_cons_of_length_eq_add_one h.symm
    have hrest := @ih sizes (Nat.succ.inj h) (start + size)
    have hmask : rowMask (b :: mask) (size :: sizes) =
        List.replicate size b ++ rowMask mask sizes := rfl
    have hrows : List.range' start (size :: sizes).sum =
        List.range' start size ++ List.range' (start + size) sizes.sum := by
      rw [List.sum_cons, ← List.range'_append_1]
    rw [hmask, hrows, keep_append (by simp), hrest]
    cases b with
    | true =>
      have hkeep := keep_replicate_true (List.range' start size)
      rw [List.length_range'] at hkeep
      rw [hkeep, intervals, keep, List.flatMap_cons, Nat.add_sub_cancel_left]
    | false =>
      have hkeep := keep_replicate_false (List.range' start size)
      rw [List.length_range'] at hkeep
      rw [hkeep, intervals, keep, List.nil_append]

/-- **A group is found again by its interval.** -/
theorem slice_flatten_intervals {chunks : List (List α)} {c : List α} {g : Nat × Nat} {k : Nat}
    (hc : chunks[k]? = some c) (hg : (intervals 0 (chunks.map List.length))[k]? = some g) :
    slice chunks.flatten g.1 g.2 = c := by
  obtain ⟨hk, rfl⟩ := List.getElem?_eq_some_iff.mp hc
  rw [getElem?_intervals, List.getElem?_map, hc, Option.map_some, Option.map_some,
    Option.some.injEq, Nat.zero_add] at hg
  subst hg
  have hbefore : (chunks.take k).flatten.length = ((chunks.map List.length).take k).sum := by
    rw [List.length_flatten, List.map_take]
  have hsplit : chunks.flatten =
      (chunks.take k).flatten ++ chunks[k] ++ (chunks.drop (k + 1)).flatten := by
    rw [List.append_assoc, ← List.flatten_cons, ← List.drop_eq_getElem_cons hk,
      ← List.flatten_append, List.take_append_drop]
  rw [hsplit]
  exact slice_of_length hbefore (by rw [hbefore])

/-- **A row of a group** is found behind the groups before it. -/
theorem getElem?_flatten_range {col : Nat → List α} {size : Nat → Nat} {n i t : Nat}
    (hcol : ∀ j < n, (col j).length = size j) (hi : i < n) (ht : t < size i) :
    ((List.range n).map col).flatten[((List.range i).map size).sum + t]? = (col i)[t]? := by
  have hchunk : ((List.range n).map col)[i]? = some (col i) := by
    rw [List.getElem?_map, List.getElem?_range hi, Option.map_some]
  have hlens : ((List.range n).map col).map List.length = (List.range n).map size := by
    rw [List.map_map]
    exact List.map_congr_left fun j hj => hcol j (List.mem_range.mp hj)
  have hinterval : (intervals 0 (((List.range n).map col).map List.length))[i]? =
      some (((List.range i).map size).sum, ((List.range i).map size).sum + size i) := by
    rw [hlens, getElem?_intervals, List.getElem?_map, List.getElem?_range hi, ← List.map_take,
      List.take_range, Nat.min_eq_left (Nat.le_of_lt hi), Nat.zero_add, Option.map_some,
      Option.map_some]
  rw [← slice_flatten_intervals hchunk hinterval, getElem?_slice (by dsimp only; omega)]

/-- A row is one of a group. -/
theorem exists_interval {start r : Nat} (hstart : start ≤ r) (hr : r < start + sizes.sum) :
    ∃ (k : Nat) (g : Nat × Nat), (intervals start sizes)[k]? = some g ∧ g.1 ≤ r ∧ r < g.2 := by
  induction sizes generalizing start with
  | nil =>
    rw [List.sum_nil] at hr
    omega
  | cons size sizes ih =>
    rw [List.sum_cons] at hr
    by_cases hlt : r < start + size
    · exact ⟨0, (start, start + size), rfl, hstart, hlt⟩
    · obtain ⟨k, g, hg, hle, hlt⟩ := ih (Nat.le_of_not_lt hlt) (by omega)
      exact ⟨k + 1, g, hg, hle, hlt⟩

/-- A flag has as many of its kind before it as any number below their count. -/
theorem exists_count_take {b : Bool} {k : Nat} (h : k < mask.count b) :
    ∃ i, mask[i]? = some b ∧ (mask.take i).count b = k := by
  induction mask generalizing k with
  | nil => exact absurd h (Nat.not_lt_zero k)
  | cons c mask ih =>
    by_cases hc : c = b
    · subst hc
      cases k with
      | zero => exact ⟨0, rfl, rfl⟩
      | succ k =>
        rw [List.count_cons_self] at h
        obtain ⟨i, hi, hcount⟩ := ih (Nat.lt_of_succ_lt_succ h)
        exact ⟨i + 1, hi, by rw [List.take_succ_cons, List.count_cons_self, hcount]⟩
    · rw [List.count_cons_of_ne hc] at h
      obtain ⟨i, hi, hcount⟩ := ih h
      exact ⟨i + 1, hi, by rw [List.take_succ_cons, List.count_cons_of_ne hc, hcount]⟩

theorem count_take_lt {b : Bool} {i : Nat} (h : mask[i]? = some b) :
    (mask.take i).count b < mask.count b := by
  have htake : (mask.take (i + 1)).count b = (mask.take i).count b + 1 := by
    rw [List.take_add_one, h, List.count_append]
    simp
  have hle := (List.take_sublist (i + 1) mask).count_le b
  omega

end Program
