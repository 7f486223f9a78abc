import MindieLLM.Program.MaskWrites
import Mathlib.Data.Bool.Count
import Mathlib.Data.Finset.Card

/-!
# Elements that occur again

A mask names the elements of a list that have occurred before. If they are replaced by the elements
that do not occur at all, every element of the whole occurs once.

## Main definitions

* `repeatMask used xs`: which elements of a list have occurred before, or in another list

## Main results

* `exists_fillMask_repeatMask`: the elements that occur again are replaced by those that do not
  occur
-/

namespace Program

variable {α β : Type} [DecidableEq α] [DecidableEq β]

def repeatMask : List α → List α → List Bool
  | _, [] => []
  | used, x :: xs =>
    if x ∈ used then true :: repeatMask used xs else false :: repeatMask (x :: used) xs

@[simp]
theorem length_repeatMask (used xs : List α) : (repeatMask used xs).length = xs.length := by
  induction xs generalizing used with
  | nil => rfl
  | cons x xs ih =>
    rw [repeatMask]
    split
    · exact congrArg (· + 1) (ih _)
    · exact congrArg (· + 1) (ih _)

/-- The elements under other names. -/
theorem repeatMask_map {f : α → β} {used xs : List α}
    (h : ∀ x ∈ used ++ xs, ∀ y ∈ used ++ xs, f x = f y → x = y) :
    repeatMask (used.map f) (xs.map f) = repeatMask used xs := by
  induction xs generalizing used with
  | nil => rfl
  | cons x xs ih =>
    have hx : x ∈ used ++ x :: xs := List.mem_append_right _ List.mem_cons_self
    have hmem : f x ∈ used.map f ↔ x ∈ used := by
      constructor
      · intro hfx
        obtain ⟨y, hy, hxy⟩ := List.mem_map.mp hfx
        exact h y (List.mem_append_left _ hy) x hx hxy ▸ hy
      · exact fun hx => List.mem_map_of_mem hx
    rw [List.map_cons, repeatMask, repeatMask]
    by_cases hused : x ∈ used
    · rw [if_pos (hmem.mpr hused), if_pos hused, ih]
      intro y hy z hz
      have hsub : ∀ y ∈ used ++ xs, y ∈ used ++ x :: xs := by
        intro y hy
        rcases List.mem_append.mp hy with hy | hy
        · exact List.mem_append_left _ hy
        · exact List.mem_append_right _ (List.mem_cons_of_mem _ hy)
      exact h y (hsub y hy) z (hsub z hz)
    · rw [if_neg (fun hfx => hused (hmem.mp hfx)), if_neg hused, ← List.map_cons, ih]
      intro y hy z hz
      have hsub : ∀ y ∈ (x :: used) ++ xs, y ∈ used ++ x :: xs := by
        intro y hy
        exact List.perm_middle.mem_iff.mpr hy
      exact h y (hsub y hy) z (hsub z hz)

/-- The mask leaves out an element for each that is new. -/
theorem count_false_repeatMask (used xs : List α) :
    (repeatMask used xs).count false = (xs.toFinset \ used.toFinset).card := by
  induction xs generalizing used with
  | nil => rw [repeatMask, List.count_nil, List.toFinset_nil, Finset.empty_sdiff, Finset.card_empty]
  | cons x xs ih =>
    rw [repeatMask, List.toFinset_cons]
    by_cases hused : x ∈ used
    · rw [if_pos hused, List.count_cons_of_ne Bool.false_ne_true.symm, ih,
        Finset.insert_sdiff_of_mem _ (List.mem_toFinset.mpr hused)]
    · have hnew : x ∉ used.toFinset := fun hx => hused (List.mem_toFinset.mp hx)
      have hsplit : insert x xs.toFinset \ used.toFinset =
          insert x (xs.toFinset \ (x :: used).toFinset) := by
        ext y
        rcases eq_or_ne y x with rfl | hy
        · simp [hused]
        · simp [hy]
      rw [if_neg hused, List.count_cons_self, ih, hsplit, Finset.card_insert_of_notMem]
      intro hx
      exact (Finset.mem_sdiff.mp hx).2 (List.mem_toFinset.mpr List.mem_cons_self)

/-- What occurs again is replaced by what does not occur. -/
theorem fillMask_repeatMask {used xs free : List α} (hfree : free.Nodup)
    (hnew : ∀ x ∈ free, x ∉ used ∧ x ∉ xs)
    (hcount : (repeatMask used xs).count true = free.length) :
    ∃ result, fillMask (repeatMask used xs) xs free = some result ∧ result.Nodup ∧
      ∀ x ∈ result, x ∉ used ∧ (x ∈ xs ∨ x ∈ free) := by
  induction xs generalizing used free with
  | nil =>
    obtain rfl := List.length_eq_zero_iff.mp hcount.symm
    exact ⟨[], rfl, List.nodup_nil, fun x hx => absurd hx List.not_mem_nil⟩
  | cons x xs ih =>
    by_cases hused : x ∈ used
    · rw [repeatMask, if_pos hused] at hcount ⊢
      rw [List.count_cons_self] at hcount
      obtain ⟨y, free, rfl⟩ := List.exists_cons_of_length_eq_add_one hcount.symm
      obtain ⟨hy, hfree⟩ := List.nodup_cons.mp hfree
      obtain ⟨hyused, hyxs⟩ := hnew y List.mem_cons_self
      obtain ⟨result, hfill, hnodup, hmem⟩ := ih hfree
        (fun z hz => ⟨(hnew z (List.mem_cons_of_mem _ hz)).1,
          fun hzxs => (hnew z (List.mem_cons_of_mem _ hz)).2 (List.mem_cons_of_mem _ hzxs)⟩)
        (Nat.succ.inj hcount)
      refine ⟨y :: result, Option.map_eq_some_iff.mpr ⟨result, hfill, rfl⟩,
        List.nodup_cons.mpr ⟨fun hyr => ?_, hnodup⟩, fun z hz => ?_⟩
      · rcases (hmem y hyr).2 with hyx | hyf
        · exact hyxs (List.mem_cons_of_mem _ hyx)
        · exact hy hyf
      · rcases List.mem_cons.mp hz with rfl | hz
        · exact ⟨hyused, .inr List.mem_cons_self⟩
        · obtain ⟨hzused, hzxs⟩ := hmem z hz
          exact ⟨hzused, hzxs.imp (List.mem_cons_of_mem _) (List.mem_cons_of_mem _)⟩
    · rw [repeatMask, if_neg hused] at hcount ⊢
      rw [List.count_cons_of_ne Bool.false_ne_true] at hcount
      obtain ⟨result, hfill, hnodup, hmem⟩ := ih hfree (fun z hz => by
        obtain ⟨hzused, hzxs⟩ := hnew z hz
        refine ⟨fun hzx => ?_, fun hzx => hzxs (List.mem_cons_of_mem _ hzx)⟩
        rcases List.mem_cons.mp hzx with rfl | hzx
        · exact hzxs List.mem_cons_self
        · exact hzused hzx) hcount
      refine ⟨x :: result, Option.map_eq_some_iff.mpr ⟨result, hfill, rfl⟩,
        List.nodup_cons.mpr ⟨fun hxr => (hmem x hxr).1 List.mem_cons_self, hnodup⟩, fun z hz => ?_⟩
      rcases List.mem_cons.mp hz with rfl | hz
      · exact ⟨hused, .inl List.mem_cons_self⟩
      · obtain ⟨hzused, hzxs⟩ := hmem z hz
        refine ⟨fun hzu => hzused (List.mem_cons_of_mem _ hzu), ?_⟩
        exact hzxs.imp_left (List.mem_cons_of_mem _)

/-- **The elements that occur again** are replaced by those that do not occur: then every element
occurs once. -/
theorem exists_fillMask_repeatMask {all xs : List α} (hall : all.Nodup) (hsub : ∀ x ∈ xs, x ∈ all)
    (hlength : xs.length = all.length) :
    ∃ result, fillMask (repeatMask [] xs) xs (all.filter (· ∉ xs)) = some result ∧
      result.Perm all := by
  have hcount : (repeatMask [] xs).count true = (all.filter (· ∉ xs)).length := by
    have htotal := List.count_true_add_count_false (repeatMask [] xs)
    have hnew := count_false_repeatMask [] xs
    rw [length_repeatMask, hlength] at htotal
    rw [List.toFinset_nil, Finset.sdiff_empty] at hnew
    have hfree : (all.filter (· ∉ xs)).length + xs.toFinset.card = all.length := by
      rw [← List.toFinset_card_of_nodup (hall.filter _), ← List.toFinset_card_of_nodup hall,
        List.toFinset_filter]
      have hfilter : (all.toFinset.filter fun x => decide (x ∉ xs) = true) =
          all.toFinset \ xs.toFinset := by
        ext x
        simp
      rw [hfilter]
      refine Finset.card_sdiff_add_card_eq_card fun x hx => ?_
      exact List.mem_toFinset.mpr (hsub x (List.mem_toFinset.mp hx))
    omega
  obtain ⟨result, hfill, hnodup, hmem⟩ := fillMask_repeatMask (hall.filter _)
    (fun x hx => ⟨List.not_mem_nil, of_decide_eq_true (List.mem_filter.mp hx).2⟩) hcount
  refine ⟨result, hfill, (hnodup.subperm fun x hx => ?_).perm_of_length_le ?_⟩
  · rcases (hmem x hx).2 with hx | hx
    · exact hsub x hx
    · exact (List.mem_filter.mp hx).1
  · rw [(length_of_fillMask hfill).2.2, hlength]

end Program
