import Mathlib.Data.List.Nodup

/-!
# Things that are lent

Each of a number of things is available, in a list, or held by somebody, who holds one at most.

## Main definitions

* `Lent things available held`: each thing is available once, or held by one

## Main results

* `Lent.take`, `Lent.giveBack`: a thing is taken, and given back
-/

namespace Program

variable {α κ : Type*} {things available rest : List α} {held : κ → Option α} {a : α} {c : κ}

structure Lent (things available : List α) (held : κ → Option α) : Prop where
  nodup : available.Nodup
  apart : ∀ c a, held c = some a → a ∉ available
  alone : ∀ c d a, held c = some a → held d = some a → c = d
  mem_iff : ∀ a, a ∈ things ↔ a ∈ available ∨ ∃ c, held c = some a

namespace Lent

theorem start (h : things.Nodup) : Lent things things fun _ : κ => none where
  nodup := h
  apart := by simp
  alone := by simp
  mem_iff := by simp

variable [DecidableEq κ]

theorem take (h : Lent things (a :: rest) held) (hc : held c = none) :
    Lent things rest (Function.update held c (some a)) := by
  obtain ⟨hnodup, happart, halone, hmem⟩ := h
  have hother : ∀ d, held d ≠ some a := fun d hd => happart d a hd List.mem_cons_self
  constructor
  · exact hnodup.of_cons
  · grind [Function.update_apply]
  · grind [Function.update_apply]
  · simp only [Function.update_apply]
    grind

theorem giveBack (h : Lent things available held) (hc : held c = some a) :
    Lent things (available ++ [a]) (Function.update held c none) := by
  obtain ⟨hnodup, happart, halone, hmem⟩ := h
  constructor
  · grind
  · grind [Function.update_apply]
  · grind [Function.update_apply]
  · simp only [Function.update_apply]
    grind

end Lent

end Program
