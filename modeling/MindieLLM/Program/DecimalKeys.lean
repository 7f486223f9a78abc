import Mathlib.Data.List.TakeWhile

/-!
# Keys made of numbers

Keys that are written one number after the other, with a separator that is no digit.

## Main definitions

* `field n rest`: a number, the separator, and what follows

## Main results

* `field_inj`: the number and the rest can be read off
* `of_lt_length_takeWhile`, `not_of_length_takeWhile`: the keys that come first
* `length_takeWhile_flatMap`: how many keys of whole groups come first
-/

namespace Program

/-- `std::to_string(n) + "_" + rest` -/
def field (n : ℕ) (rest : String) : String := toString n ++ "_" ++ rest

variable {m n : ℕ} {r s : String}

theorem toList_field : (field n s).toList = Nat.toDigits 10 n ++ '_' :: s.toList := by
  change (n.repr ++ "_" ++ s).toList = _
  rw [String.toList_append, String.toList_append, Nat.toList_repr, List.append_assoc]
  rfl

/-- Lists that end where the separator is. -/
theorem append_cons_inj_of_notMem {α : Type} {x : α} {l l' t t' : List α} (hl : x ∉ l)
    (hl' : x ∉ l') (h : l ++ x :: t = l' ++ x :: t') : l = l' ∧ t = t' := by
  induction l generalizing l' with
  | nil =>
    cases l' with
    | nil => exact ⟨rfl, (List.cons.inj h).2⟩
    | cons y l' => exact absurd (List.cons.inj h).1 fun heq => hl' (heq ▸ List.mem_cons_self)
  | cons y l ih =>
    cases l' with
    | nil => exact absurd (List.cons.inj h).1 fun heq => hl (heq ▸ List.mem_cons_self)
    | cons z l' =>
      obtain ⟨rfl, hrest⟩ := List.cons.inj h
      obtain ⟨rfl, rfl⟩ := ih (fun hmem => hl (List.mem_cons_of_mem _ hmem))
        (fun hmem => hl' (List.mem_cons_of_mem _ hmem)) hrest
      exact ⟨rfl, rfl⟩

theorem field_inj : field m r = field n s ↔ m = n ∧ r = s := by
  refine ⟨fun h => ?_, fun ⟨hm, hr⟩ => by rw [hm, hr]⟩
  have hlist := congrArg String.toList h
  rw [toList_field, toList_field] at hlist
  obtain ⟨hdigits, hrest⟩ := append_cons_inj_of_notMem Nat.underscore_not_in_toDigits
    Nat.underscore_not_in_toDigits hlist
  refine ⟨?_, String.ext hrest⟩
  rw [← Nat.ofDigitChars_ten_toDigits (n := m), hdigits, Nat.ofDigitChars_ten_toDigits]

/-! ## Groups of keys -/

section

variable {α : Type} {p : α → Bool} {l : List α} {i : ℕ} {a : α}

theorem of_lt_length_takeWhile (hi : i < (l.takeWhile p).length) (ha : l[i]? = some a) : p a := by
  refine List.mem_takeWhile_imp (l := l) (List.mem_of_getElem? (i := i) ?_)
  rw [List.getElem?_eq_some_iff] at ha ⊢
  obtain ⟨hlt, rfl⟩ := ha
  exact ⟨hi, List.IsPrefix.getElem (List.takeWhile_prefix p) hi⟩

theorem not_of_length_takeWhile (ha : l[(l.takeWhile p).length]? = some a) : ¬p a := by
  induction l with
  | nil => simp at ha
  | cons x l ih =>
    by_cases hx : p x
    · rw [List.takeWhile_cons_of_pos hx, List.length_cons, List.getElem?_cons_succ] at ha
      exact ih ha
    · rw [List.takeWhile_cons_of_neg hx, List.length_nil, List.getElem?_cons_zero,
        Option.some.injEq] at ha
      rwa [← ha]

end

/-- Of groups of one size, the keys that come first make up as many whole groups. -/
theorem length_takeWhile_flatMap {α β : Type} (p : β → Bool) (f : α → List β) {k : ℕ} (hk : 0 < k)
    (hf : ∀ a, (f a).length = k) (l : List α) :
    ((l.flatMap f).takeWhile p).length / k = (l.takeWhile fun a => (f a).all p).length := by
  induction l with
  | nil => simp
  | cons a l ih =>
    rw [List.flatMap_cons, List.takeWhile_cons]
    by_cases hall : (f a).all p = true
    · rw [if_pos hall, List.takeWhile_append_of_pos (List.all_eq_true.mp hall), List.length_append,
        hf, Nat.add_div_left _ hk, ih]
      rfl
    · have hlt : ((f a).takeWhile p).length < k := by
        rw [← hf a]
        refine lt_of_le_of_ne (List.takeWhile_sublist p).length_le fun heq => hall ?_
        rw [← (List.takeWhile_prefix p).eq_of_length heq, List.all_takeWhile]
      rw [if_neg hall, List.takeWhile_append, if_neg (by rw [hf]; exact hlt.ne), List.length_nil,
        Nat.div_eq_of_lt hlt]

end Program
