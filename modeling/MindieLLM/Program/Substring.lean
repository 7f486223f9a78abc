/-!
# Searching a text

`find` is the search of a text for the first occurrence of another from some position on, where a
negative position counts from the end. A search of a text that has just grown need only look at the
part that is new, and as much before it as the text searched for is long.

## Main definitions

* `OccursAt T s i`: the text `s` stands in `T` at `i`
* `find T s start`: the search

## Main results

* `find_eq_some_iff`, `find_eq_none_iff`: the first occurrence, or none
* `occursAt_prefix_iff`: occurrences in a beginning of the text
* `find_window`: the search of the new part
-/

namespace Program

variable {α : Type} {T T' s new : List α} {i j : Nat}

/-- The text `s` stands in `T` at `i`. -/
def OccursAt (T s : List α) (i : Nat) : Prop := i + s.length ≤ T.length ∧ s <+: T.drop i

/-- The occurrences in a beginning of a text are those that end in it. -/
theorem occursAt_prefix_iff (h : T' <+: T) :
    OccursAt T' s i ↔ OccursAt T s i ∧ i + s.length ≤ T'.length := by
  obtain ⟨rest, rfl⟩ := h
  constructor
  · rintro ⟨hle, hs⟩
    refine ⟨⟨?_, ?_⟩, hle⟩
    · rw [List.length_append]
      omega
    · rw [List.drop_append_of_le_length (by omega)]
      exact hs.trans (List.prefix_append _ _)
  · rintro ⟨⟨-, hs⟩, hle⟩
    refine ⟨hle, ?_⟩
    rw [List.drop_append_of_le_length (by omega)] at hs
    exact List.prefix_of_prefix_length_le hs (List.prefix_append _ _)
      (by rw [List.length_drop]; omega)

theorem OccursAt.mono (h : OccursAt T' s i) (hT : T' <+: T) : OccursAt T s i :=
  ((occursAt_prefix_iff hT).mp h).1

/-- Where the search begins. -/
def startIndex (T : List α) (start : Int) : Nat :=
  (if start < 0 then T.length + start else start).toNat

variable [DecidableEq α]

instance : Decidable (OccursAt T s i) := inferInstanceAs (Decidable (_ ∧ _))

/-- `T.find(s, start)` -/
def find (T s : List α) (start : Int) : Option Nat :=
  (List.range (T.length + 1)).find? fun i => decide (startIndex T start ≤ i ∧ OccursAt T s i)

theorem find_eq_some_iff {start : Int} :
    find T s start = some i ↔ startIndex T start ≤ i ∧ OccursAt T s i ∧
      ∀ j, startIndex T start ≤ j → OccursAt T s j → i ≤ j := by
  unfold find
  simp only [List.find?_range_eq_some, decide_eq_true_eq, List.mem_range, Bool.not_eq_true',
    decide_eq_false_iff_not]
  constructor
  · rintro ⟨⟨hstart, hoccurs⟩, -, hfirst⟩
    exact ⟨hstart, hoccurs, fun j hj hat => Nat.le_of_not_lt fun hlt => hfirst j hlt ⟨hj, hat⟩⟩
  · rintro ⟨hstart, hoccurs, hfirst⟩
    have hle := hoccurs.1
    exact ⟨⟨hstart, hoccurs⟩, by omega, fun j hlt hat => Nat.not_le.mpr hlt (hfirst j hat.1 hat.2)⟩

theorem find_eq_none_iff {start : Int} :
    find T s start = none ↔ ∀ j, startIndex T start ≤ j → ¬OccursAt T s j := by
  unfold find
  simp only [List.find?_range_eq_none, Bool.not_eq_true', decide_eq_false_iff_not, not_and]
  constructor
  · intro h j hj hat
    have hle := hat.1
    exact h j (by omega) hj hat
  · intro h j _
    exact h j

theorem exists_find (h : ∃ i, OccursAt T s i) : ∃ i, find T s 0 = some i := by
  cases hfind : find T s 0 with
  | some i => exact ⟨i, rfl⟩
  | none =>
    obtain ⟨i, hi⟩ := h
    exact absurd hi (find_eq_none_iff.mp hfind i (Nat.zero_le i))

theorem find_occursAt (h : find T s 0 = some i) : OccursAt T s i := (find_eq_some_iff.mp h).2.1

theorem find_le (h : find T s 0 = some i) (hj : OccursAt T s j) : i ≤ j :=
  (find_eq_some_iff.mp h).2.2 j (Nat.zero_le j) hj

/-- What was not in the text before it grew is found in the new part and as much before it as it is
long. -/
theorem find_window (h : ∀ j, ¬OccursAt T s j) :
    find (T ++ new) s (-new.length - s.length) = find (T ++ new) s 0 := by
  -- an occurrence that is not in the old text ends in the new one, so it starts in the window
  have hwindow : ∀ j, OccursAt (T ++ new) s j →
      startIndex (T ++ new) (-new.length - s.length) ≤ j := by
    intro j hj
    have hnew : ¬j + s.length ≤ T.length := fun hle =>
      h j ((occursAt_prefix_iff (List.prefix_append T new)).mpr ⟨hj, hle⟩)
    unfold startIndex
    rw [List.length_append]
    split <;> omega
  cases hfind : find (T ++ new) s 0 with
  | none =>
    exact find_eq_none_iff.mpr fun j _ => find_eq_none_iff.mp hfind j (Nat.zero_le j)
  | some i =>
    exact find_eq_some_iff.mpr ⟨hwindow i (find_occursAt hfind), find_occursAt hfind,
      fun j _ hj => find_le hfind hj⟩

end Program
