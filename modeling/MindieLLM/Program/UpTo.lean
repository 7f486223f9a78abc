/-!
# A list up to an element

`upTo p l` is the list up to the first element with the property, that element included, and the
whole list where there is none.

## Main results

* `upTo_upTo`: one property after the other
-/

namespace Program

variable {α : Type} {p q : α → Bool} {l r : List α} {x : α}

/-- The list up to the first element with the property. -/
def upTo (p : α → Bool) : List α → List α
  | [] => []
  | x :: rest => if p x then [x] else x :: upTo p rest

theorem upTo_cons_of_pos (h : p x = true) : upTo p (x :: l) = [x] := by rw [upTo, if_pos h]

theorem upTo_cons_of_neg (h : p x = false) : upTo p (x :: l) = x :: upTo p l := by
  rw [upTo, h, if_neg Bool.false_ne_true]

theorem upTo_isPrefix : upTo p l <+: l := by
  induction l with
  | nil => exact List.prefix_rfl
  | cons x l ih =>
    cases hx : p x with
    | true =>
      rw [upTo_cons_of_pos hx]
      exact ⟨l, rfl⟩
    | false =>
      rw [upTo_cons_of_neg hx]
      exact List.cons_prefix_cons.mpr ⟨rfl, ih⟩

theorem length_upTo_le : (upTo p l).length ≤ l.length := upTo_isPrefix.length_le

theorem take_length_upTo : l.take (upTo p l).length = upTo p l :=
  (List.prefix_iff_eq_take.mp upTo_isPrefix).symm

theorem upTo_ne_nil (h : l ≠ []) : upTo p l ≠ [] := by
  cases l with
  | nil => exact absurd rfl h
  | cons x l =>
    cases hx : p x with
    | true => simp [upTo_cons_of_pos hx]
    | false => simp [upTo_cons_of_neg hx]

/-- The list stops at the first hit. -/
theorem of_mem_dropLast_upTo (hx : x ∈ (upTo p l).dropLast) : p x = false := by
  induction l with
  | nil => cases hx
  | cons y l ih =>
    cases hy : p y with
    | true =>
      rw [upTo_cons_of_pos hy] at hx
      cases hx
    | false =>
      rw [upTo_cons_of_neg hy] at hx
      cases hrest : upTo p l with
      | nil =>
        rw [hrest] at hx
        cases hx
      | cons z rest =>
        rw [hrest, List.dropLast_cons_cons, List.mem_cons, ← hrest] at hx
        rcases hx with rfl | hx
        · exact hy
        · exact ih hx

theorem upTo_eq_self (h : ∀ x ∈ l, p x = false) : upTo p l = l := by
  induction l with
  | nil => rfl
  | cons x l ih =>
    rw [upTo_cons_of_neg (h x List.mem_cons_self), ih fun y hy => h y (List.mem_cons_of_mem _ hy)]

theorem upTo_append_of_mem (hx : x ∈ l) (hp : p x = true) : upTo p (l ++ r) = upTo p l := by
  induction l with
  | nil => cases hx
  | cons y l ih =>
    rw [List.cons_append]
    cases hy : p y with
    | true => rw [upTo_cons_of_pos hy, upTo_cons_of_pos hy]
    | false =>
      rcases List.mem_cons.mp hx with rfl | hx
      · rw [hp] at hy
        cases hy
      · rw [upTo_cons_of_neg hy, upTo_cons_of_neg hy, ih hx]

theorem upTo_append_of_forall (h : ∀ x ∈ l, p x = false) : upTo p (l ++ r) = l ++ upTo p r := by
  induction l with
  | nil => rfl
  | cons x l ih =>
    rw [List.cons_append, upTo_cons_of_neg (h x List.mem_cons_self),
      ih fun y hy => h y (List.mem_cons_of_mem _ hy), List.cons_append]

/-- One property after the other is both at once. -/
theorem upTo_upTo : upTo q (upTo p l) = upTo (fun x => p x || q x) l := by
  induction l with
  | nil => rfl
  | cons x l ih => cases hp : p x <;> cases hq : q x <;> simp [upTo, hp, hq, ih]

end Program
