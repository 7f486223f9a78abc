import Mathlib.Data.List.Basic

/-!
# Tables updated entry by entry

A loop over items that name different keys changes each entry at most once, so an entry after the
loop depends on the entry before it and the item that names it.

## Main definitions

* `updateEntries`: the loop

## Main results

* `updateEntries_apply`: an entry after the loop
-/

namespace Program

variable {ι κ V : Type} [DecidableEq κ] {key : ι → κ} {f : ι → V → V}

def updateEntries (key : ι → κ) (f : ι → V → V) (items : List ι) (t : κ → V) : κ → V :=
  items.foldl (fun t i => Function.update t (key i) (f i (t (key i)))) t

theorem updateEntries_of_notMem {items : List ι} {k : κ} (h : k ∉ items.map key) (t : κ → V) :
    updateEntries key f items t k = t k := by
  induction items generalizing t with
  | nil => rfl
  | cons i items ih =>
    rw [List.map_cons, List.mem_cons, not_or] at h
    exact (ih h.2 _).trans (Function.update_of_ne h.1 _ t)

/-- **An entry after the loop.** -/
theorem updateEntries_apply {items : List ι} (hnodup : (items.map key).Nodup) (t : κ → V) (k : κ) :
    updateEntries key f items t k =
      match items.find? fun i => key i = k with
      | some i => f i (t k)
      | none => t k := by
  induction items generalizing t with
  | nil => rfl
  | cons i items ih =>
    rw [List.map_cons, List.nodup_cons] at hnodup
    by_cases hk : key i = k
    · subst hk
      rw [List.find?_cons_of_pos (by simp)]
      exact (updateEntries_of_notMem hnodup.1 _).trans (Function.update_self _ _ t)
    · rw [List.find?_cons_of_neg (by simpa using hk)]
      have hrest := ih hnodup.2 (Function.update t (key i) (f i (t (key i))))
      rw [Function.update_of_ne (Ne.symm hk)] at hrest
      exact hrest

end Program
