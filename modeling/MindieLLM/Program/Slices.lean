import Mathlib.Data.List.Forall2

/-!
# Slices of a list

Rows of different lengths are often kept one after the other in a single list, and found again by
where they start.

## Main definitions

* `slice l a b`: the part of the list from `a` up to `b`
* `gather l is`: the elements at the indices

## Main results

* `slice_append_append`: a row between what is before it and after it
* `slice_flatten`: a row among rows of one length
* `gather_range'`: the elements at consecutive indices are a row
* `mapM_eq_some_iff`, `mapM_eq_ok_iff`: a loop over rows that may fail
* `exists_mapM_eq_some_iff`: two such loops
-/

namespace Program

variable {α : Type}

/-- `l[a:b]` -/
def slice (l : List α) (a b : Nat) : List α := (l.drop a).take (b - a)

/-- `l[is]`, if all indices are in the list. -/
def gather (l : List α) (is : List Nat) : Option (List α) := is.mapM fun i => l[i]?

variable {l r s : List α} {a b n : Nat}

theorem slice_append_append : slice (l ++ r ++ s) l.length (l.length + r.length) = r := by
  simp [slice, List.append_assoc]

theorem slice_of_length (ha : l.length = a) (hb : l.length + r.length = b) :
    slice (l ++ r ++ s) a b = r := by
  rw [← ha, ← hb, slice_append_append]

theorem length_slice (h : b ≤ l.length) : (slice l a b).length = b - a := by
  simp only [slice, List.length_take, List.length_drop]
  omega

theorem getElem?_slice {i : Nat} (h : a + i < b) : (slice l a b)[i]? = l[a + i]? := by
  rw [slice, List.getElem?_take_of_lt (by omega), List.getElem?_drop]

theorem map_slice {β : Type} (f : α → β) (l : List α) (a b : Nat) :
    (slice l a b).map f = slice (l.map f) a b := by
  simp only [slice, List.map_take, List.map_drop]

theorem slice_slice {c d : Nat} (h : a + d ≤ b) :
    slice (slice l a b) c d = slice l (a + c) (a + d) := by
  simp only [slice, List.drop_take, List.drop_drop, List.take_take]
  congr 1
  omega

/-- What has been said of a row. -/
theorem exists_of_forall₂_left {β : Type} {R : α → β → Prop} {xs : List α} {ys : List β} {x : α}
    (h : List.Forall₂ R xs ys) (hx : x ∈ xs) : ∃ y ∈ ys, R x y := by
  induction h with
  | nil => cases hx
  | cons hR _ ih =>
    rcases List.mem_cons.mp hx with rfl | hx
    · exact ⟨_, List.mem_cons_self, hR⟩
    · obtain ⟨y, hy, hRy⟩ := ih hx
      exact ⟨y, List.mem_cons_of_mem _ hy, hRy⟩

/-- A loop over rows gives what each row gives. -/
theorem mapM_eq_some_iff {β : Type} {f : β → Option α} {xs : List β} {ys : List α} :
    xs.mapM f = some ys ↔ List.Forall₂ (fun x y => f x = some y) xs ys := by
  induction xs generalizing ys with
  | nil =>
    rw [List.forall₂_nil_left_iff]
    exact ⟨fun h => (Option.some.inj h).symm, fun h => by rw [h]; rfl⟩
  | cons x xs ih =>
    rw [List.mapM_cons, List.forall₂_cons_left_iff]
    constructor
    · intro h
      obtain ⟨y, hy, h⟩ := Option.bind_eq_some_iff.mp h
      obtain ⟨rest, hrest, h⟩ := Option.bind_eq_some_iff.mp h
      exact ⟨y, rest, hy, ih.mp hrest, (Option.some.inj h).symm⟩
    · rintro ⟨y, rest, hy, hrest, rfl⟩
      rw [hy, ih.mpr hrest]
      rfl

theorem mapM_eq_some_map {β : Type} {f : β → Option α} {g : β → α} {xs : List β}
    (h : ∀ x ∈ xs, f x = some (g x)) : xs.mapM f = some (xs.map g) := by
  rw [mapM_eq_some_iff, List.forall₂_map_right_iff, List.forall₂_same]
  exact h

theorem gather_eq_some_iff {is : List Nat} {xs : List α} :
    gather l is = some xs ↔ List.Forall₂ (fun i x => l[i]? = some x) is xs :=
  mapM_eq_some_iff

theorem length_gather {is : List Nat} {xs : List α} (h : gather l is = some xs) :
    xs.length = is.length :=
  (gather_eq_some_iff.mp h).length_eq.symm

theorem gather_append {is js : List Nat} {xs ys : List α} (hxs : gather l is = some xs)
    (hys : gather l js = some ys) : gather l (is ++ js) = some (xs ++ ys) :=
  gather_eq_some_iff.mpr (List.rel_append (gather_eq_some_iff.mp hxs) (gather_eq_some_iff.mp hys))

theorem gather_take {is : List Nat} {xs : List α} (h : gather l is = some xs) :
    gather l (is.take n) = some (xs.take n) :=
  gather_eq_some_iff.mpr (List.forall₂_take n (gather_eq_some_iff.mp h))

theorem gather_drop {is : List Nat} {xs : List α} (h : gather l is = some xs) :
    gather l (is.drop n) = some (xs.drop n) :=
  gather_eq_some_iff.mpr (List.forall₂_drop n (gather_eq_some_iff.mp h))

theorem gather_slice {is : List Nat} {xs : List α} (h : gather l is = some xs) :
    gather l (slice is a b) = some (slice xs a b) :=
  gather_take (gather_drop h)

/-- The elements at consecutive indices are a row. -/
theorem gather_range' (ha : l.length = a) (hn : n ≤ r.length) :
    gather (l ++ r ++ s) (List.range' a n) = some (r.take n) := by
  subst ha
  rw [gather_eq_some_iff, List.forall₂_iff_get]
  refine ⟨by rw [List.length_range', List.length_take, Nat.min_eq_left hn], fun i hi _ => ?_⟩
  rw [List.length_range'] at hi
  simp only [List.get_eq_getElem, List.getElem_range', Nat.one_mul, List.getElem_take]
  rw [List.append_assoc, List.getElem?_append_right (by omega), Nat.add_sub_cancel_left,
    List.getElem?_append_left (by omega)]
  exact List.getElem?_eq_getElem _

theorem gather_range'_slice {m : Nat} (hm : a + m ≤ b) (hb : b ≤ l.length) :
    gather l (List.range' a m) = some ((slice l a b).take m) := by
  have hsplit : l.take a ++ slice l a b ++ l.drop b = l := by
    have hle : a + (b - a) = b := by omega
    unfold slice
    rw [← List.take_add, hle, List.take_append_drop]
  have hgather := gather_range' (l := l.take a) (r := slice l a b) (s := l.drop b) (a := a)
    (n := m) (by rw [List.length_take]; omega) (by rw [length_slice hb]; omega)
  rwa [hsplit] at hgather

/-- Rows of one length. -/
theorem slice_flatten {rows : List (List α)} (hrows : ∀ r ∈ rows, r.length = n) {i : Nat}
    (hi : i < rows.length) : slice rows.flatten (i * n) ((i + 1) * n) = rows[i] := by
  have hbefore : (rows.take i).flatten.length = i * n := by
    rw [List.length_flatten, List.map_take, List.map_congr_left hrows]
    simp [List.map_const', Nat.min_eq_left (Nat.le_of_lt hi)]
  have hsplit : rows.flatten =
      (rows.take i).flatten ++ rows[i] ++ (rows.drop (i + 1)).flatten := by
    rw [List.append_assoc, ← List.flatten_cons, ← List.drop_eq_getElem_cons hi,
      ← List.flatten_append, List.take_append_drop]
  rw [hsplit]
  refine slice_of_length hbefore ?_
  rw [hbefore, hrows _ (List.getElem_mem hi), Nat.succ_mul]

/-- A loop over rows gives what each row gives. -/
theorem mapM_eq_ok_iff {ε β : Type} {f : α → Except ε β} {xs : List α} {ys : List β} :
    xs.mapM f = .ok ys ↔ List.Forall₂ (fun x y => f x = .ok y) xs ys := by
  induction xs generalizing ys with
  | nil =>
    rw [List.forall₂_nil_left_iff]
    exact ⟨fun h => (Except.ok.inj h).symm, fun h => by rw [h]; rfl⟩
  | cons x xs ih =>
    rw [List.mapM_cons, List.forall₂_cons_left_iff]
    constructor
    · intro h
      cases hx : f x with
      | error e =>
        rw [hx] at h
        cases h
      | ok y =>
        cases hrest : xs.mapM f with
        | error e =>
          rw [hx, hrest] at h
          cases h
        | ok rest =>
          rw [hx, hrest] at h
          exact ⟨y, rest, rfl, ih.mp hrest, (Except.ok.inj h).symm⟩
    · rintro ⟨y, rest, hx, hrest, rfl⟩
      rw [hx, ih.mpr hrest]
      rfl

theorem mapM_eq_ok_map {ε β : Type} {f : α → Except ε β} {g : α → β} (xs : List α)
    (h : ∀ x ∈ xs, f x = .ok (g x)) : xs.mapM f = .ok (xs.map g) := by
  rw [mapM_eq_ok_iff, List.forall₂_map_right_iff, List.forall₂_same]
  exact h

/-- Two loops give the same where their bodies do. -/
theorem exists_mapM_eq_some_iff {β : Type} {f f' : β → Option α} {xs : List β} :
    (∃ ys, xs.mapM f = some ys ∧ xs.mapM f' = some ys) ↔
      ∀ x ∈ xs, ∃ y, f x = some y ∧ f' x = some y := by
  induction xs with
  | nil => exact ⟨fun _ x hx => absurd hx List.not_mem_nil, fun _ => ⟨[], rfl, rfl⟩⟩
  | cons x xs ih =>
    simp only [mapM_eq_some_iff, List.forall₂_cons_left_iff, List.forall_mem_cons] at ih ⊢
    rw [← ih]
    constructor
    · rintro ⟨_, ⟨y, rest, hy, hrest, rfl⟩, y', rest', hy', hrest', heq⟩
      obtain ⟨rfl, rfl⟩ := List.cons.inj heq
      exact ⟨⟨y, hy, hy'⟩, rest, hrest, hrest'⟩
    · rintro ⟨⟨y, hy, hy'⟩, rest, hrest, hrest'⟩
      exact ⟨y :: rest, ⟨y, rest, hy, hrest, rfl⟩, y, rest, hy', hrest', rfl⟩

end Program
