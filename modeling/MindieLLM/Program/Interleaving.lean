import Mathlib.Data.List.Basic

/-!
# Interleavings

A sequence interleaves others if it takes each of them apart into pieces and strings the pieces
together, every sequence in its own order. A queue that several producers fill, at its end or in the
middle, holds an interleaving of what each has put in, as long as nobody reorders what is there.

`Shuffle` is the interleaving of two sequences, `Interleaves` of any number. In `Staged` one
sequence interleaves two others in step: the `i`-th of the second kind comes after the `i`-th of the
first.

## Main definitions

* `Shuffle xs ys zs`: `zs` interleaves `xs` and `ys`
* `Interleaves R rs zs`: `zs` interleaves sequences, one for each element of `rs`
* `Staged firsts lasts zs a b`: `zs` has the first `a` of the one and the first `b` of the other

## Main results

* `Shuffle.insert`: new elements put at two places of a sequence
* `Shuffle.filter_right`: the elements of one part
* `Staged.filter_first`, `Staged.filter_last`, `Staged.getLast?_eq`: what is where in a staged one
-/

namespace Program

variable {α β : Type}

/-! ## Two sequences -/

inductive Shuffle : List α → List α → List α → Prop
  | nil : Shuffle [] [] []
  | left (a : α) {xs ys zs : List α} : Shuffle xs ys zs → Shuffle (a :: xs) ys (a :: zs)
  | right (b : α) {xs ys zs : List α} : Shuffle xs ys zs → Shuffle xs (b :: ys) (b :: zs)

namespace Shuffle

variable {xs ys zs xs' ys' zs' : List α}

theorem only_right (ys : List α) : Shuffle [] ys ys := by
  induction ys with
  | nil => exact .nil
  | cons b ys ih => exact .right b ih

theorem only_left (xs : List α) : Shuffle xs [] xs := by
  induction xs with
  | nil => exact .nil
  | cons a xs ih => exact .left a ih

theorem append (h : Shuffle xs ys zs) (h' : Shuffle xs' ys' zs') :
    Shuffle (xs ++ xs') (ys ++ ys') (zs ++ zs') := by
  induction h with
  | nil => exact h'
  | left a _ ih => exact .left a ih
  | right b _ ih => exact .right b ih

theorem append_left (h : Shuffle xs ys zs) (t : List α) : Shuffle (xs ++ t) ys (zs ++ t) := by
  simpa using h.append (only_left t)

theorem append_right (h : Shuffle xs ys zs) (t : List α) : Shuffle xs (ys ++ t) (zs ++ t) := by
  simpa using h.append (only_right t)

/-- New elements are put before the tail of a sequence and after it. -/
theorem insert (init front tail back : List α) :
    Shuffle (init ++ tail) (front ++ back) (init ++ front ++ tail ++ back) :=
  (((only_left init).append_right front).append_left tail).append_right back

theorem filter (p : α → Bool) (h : Shuffle xs ys zs) :
    Shuffle (xs.filter p) (ys.filter p) (zs.filter p) := by
  induction h with
  | nil => exact .nil
  | left a _ ih =>
    by_cases ha : p a
    · simpa [ha] using .left a ih
    · simpa [ha] using ih
  | right b _ ih =>
    by_cases hb : p b
    · simpa [hb] using .right b ih
    · simpa [hb] using ih

theorem eq_right (h : Shuffle [] ys zs) : zs = ys := by
  generalize hxs : ([] : List α) = xs at h
  induction h with
  | nil => rfl
  | left a _ _ => cases hxs
  | right b _ ih => rw [ih hxs]

theorem eq_left (h : Shuffle xs [] zs) : zs = xs := by
  generalize hys : ([] : List α) = ys at h
  induction h with
  | nil => rfl
  | left a _ ih => rw [ih hys]
  | right b _ _ => cases hys

/-- A test that only the elements of the one part pass finds it. -/
theorem filter_right {p : α → Bool} (h : Shuffle xs ys zs) (hxs : ∀ x ∈ xs, ¬p x)
    (hys : ∀ y ∈ ys, p y) : zs.filter p = ys := by
  have hfilter := h.filter p
  rw [List.filter_eq_nil_iff.mpr hxs, List.filter_eq_self.mpr hys] at hfilter
  exact hfilter.eq_right

/-- A test that the elements of the other part fail. -/
theorem filter_left {p : α → Bool} (h : Shuffle xs ys zs) (hys : ∀ y ∈ ys, ¬p y) :
    zs.filter p = xs.filter p := by
  have hfilter := h.filter p
  rw [List.filter_eq_nil_iff.mpr hys] at hfilter
  exact hfilter.eq_left

theorem length_eq (h : Shuffle xs ys zs) : zs.length = xs.length + ys.length := by
  induction h with
  | nil => rfl
  | left a _ ih => rw [List.length_cons, List.length_cons, ih, Nat.add_right_comm]
  | right b _ ih => rw [List.length_cons, List.length_cons, ih, Nat.add_assoc]

theorem mem_iff (h : Shuffle xs ys zs) (a : α) : a ∈ zs ↔ a ∈ xs ∨ a ∈ ys := by
  induction h with
  | nil => simp
  | left b _ ih => simp [ih, or_assoc]
  | right b _ ih => simp [ih, or_left_comm]

end Shuffle

/-! ## Any number of sequences -/

/-- One sequence for each `r` of a list, as `R` says. -/
inductive Interleaves {ρ : Type} (R : ρ → List α → Prop) : List ρ → List α → Prop
  | nil : Interleaves R [] []
  | snoc {rs : List ρ} {r : ρ} {part xs zs : List α} : Interleaves R rs xs → R r part →
      Shuffle xs part zs → Interleaves R (rs ++ [r]) zs

theorem Interleaves.exists_part {ρ : Type} {R : ρ → List α → Prop} {rs : List ρ} {zs : List α}
    (h : Interleaves R rs zs) {a : α} (ha : a ∈ zs) : ∃ r ∈ rs, ∃ part, R r part ∧ a ∈ part := by
  induction h with
  | nil => cases ha
  | @snoc rs r part xs zs _ hpart hshuffle ih =>
    rcases (hshuffle.mem_iff a).mp ha with ha | ha
    · obtain ⟨r', hr', part', hpart', ha'⟩ := ih ha
      exact ⟨r', List.mem_append_left _ hr', part', hpart', ha'⟩
    · exact ⟨r, by simp, part, hpart, ha⟩

/-! ## Two kinds in step -/

inductive Staged (firsts lasts : List α) : List α → ℕ → ℕ → Prop
  | nil : Staged firsts lasts [] 0 0
  | first {zs : List α} {a b : ℕ} {x : α} : Staged firsts lasts zs a b → firsts[a]? = some x →
      Staged firsts lasts (zs ++ [x]) (a + 1) b
  | last {zs : List α} {a b : ℕ} {x : α} : Staged firsts lasts zs a b → b < a →
      lasts[b]? = some x → Staged firsts lasts (zs ++ [x]) a (b + 1)

namespace Staged

variable {firsts lasts zs : List α} {a b : ℕ}

theorem le (h : Staged firsts lasts zs a b) : b ≤ a := by
  induction h with
  | nil => exact Nat.le_refl 0
  | first _ _ ih => omega
  | last _ hlt _ _ => omega

theorem length_eq (h : Staged firsts lasts zs a b) : zs.length = a + b := by
  induction h with
  | nil => rfl
  | first _ _ ih => rw [List.length_append, ih, List.length_singleton, Nat.add_right_comm]
  | last _ _ _ ih => rw [List.length_append, ih, List.length_singleton, Nat.add_assoc]

theorem shuffle (h : Staged firsts lasts zs a b) : Shuffle (firsts.take a) (lasts.take b) zs := by
  induction h with
  | nil => simpa using Shuffle.nil
  | first _ hx ih =>
    rw [List.take_add_one, hx]
    exact ih.append_left _
  | last _ _ hx ih =>
    rw [List.take_add_one, hx]
    exact ih.append_right _

/-- Where both are there in full, the last element is of the second kind. -/
theorem getLast?_eq {n : ℕ} (h : Staged firsts lasts zs (n + 1) (n + 1)) :
    zs.getLast? = lasts[n]? := by
  cases h with
  | first h _ =>
    have hle := h.le
    omega
  | last _ _ hx => simp [hx]

theorem filter_first {p : α → Bool} (h : Staged firsts lasts zs a b) (hfirsts : ∀ x ∈ firsts, p x)
    (hlasts : ∀ x ∈ lasts, ¬p x) : zs.filter p = firsts.take a := by
  rw [h.shuffle.filter_left fun y hy => hlasts y (List.mem_of_mem_take hy)]
  exact List.filter_eq_self.mpr fun x hx => hfirsts x (List.mem_of_mem_take hx)

theorem filter_last {p : α → Bool} (h : Staged firsts lasts zs a b) (hfirsts : ∀ x ∈ firsts, ¬p x)
    (hlasts : ∀ x ∈ lasts, p x) : zs.filter p = lasts.take b :=
  h.shuffle.filter_right (fun x hx => hfirsts x (List.mem_of_mem_take hx))
    fun y hy => hlasts y (List.mem_of_mem_take hy)

end Staged

end Program
