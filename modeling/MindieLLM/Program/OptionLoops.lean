import Mathlib.Data.List.Basic

/-!
# Loops that may fail

A loop over numbers whose body may raise is a `foldlM` in `Option`. It returns if the body does in
every round, from what an invariant with the number of the round says.

## Main results

* `foldlM_range'_some`, `foldlM_range_some`: the invariant rule
* `foldlM_range'_keeps`: the invariant of a loop that has returned
-/

namespace Program

variable {σ τ β : Type}

/-- **The invariant of a loop that may fail.** -/
theorem foldlM_range'_some {f : σ → ℕ → Option σ} {I : ℕ → σ → Prop} {lo n : ℕ} {s : σ}
    (h : I lo s)
    (hstep : ∀ i s, lo ≤ i → i < lo + n → I i s → ∃ s', f s i = some s' ∧ I (i + 1) s') :
    ∃ s', (List.range' lo n).foldlM f s = some s' ∧ I (lo + n) s' := by
  induction n generalizing lo s with
  | zero => exact ⟨s, rfl, h⟩
  | succ n ih =>
    obtain ⟨s₁, hs₁, h₁⟩ := hstep lo s (Nat.le_refl lo) (by omega) h
    obtain ⟨s', hs', h'⟩ := ih h₁ fun i s hlo hhi => hstep i s (by omega) (by omega)
    refine ⟨s', ?_, by rwa [show lo + (n + 1) = lo + 1 + n by omega]⟩
    rw [List.range'_succ, List.foldlM_cons, hs₁]
    exact hs'

/-- The invariant of a loop that has returned. -/
theorem foldlM_range'_keeps {f : σ → ℕ → Option σ} {I : ℕ → σ → Prop} {lo n : ℕ} {s s' : σ}
    (h : I lo s) (hstep : ∀ i s s', lo ≤ i → i < lo + n → I i s → f s i = some s' → I (i + 1) s')
    (hrun : (List.range' lo n).foldlM f s = some s') : I (lo + n) s' := by
  induction n generalizing lo s with
  | zero =>
    obtain rfl : s = s' := Option.some.inj hrun
    exact h
  | succ n ih =>
    rw [List.range'_succ, List.foldlM_cons] at hrun
    obtain ⟨s₁, hs₁, hrun⟩ := Option.bind_eq_some_iff.mp hrun
    rw [show lo + (n + 1) = lo + 1 + n by omega]
    refine ih (hstep lo s s₁ (Nat.le_refl lo) (by omega) h hs₁) ?_ hrun
    intro i s s' hlo hhi
    exact hstep i s s' (by omega) (by omega)

theorem foldlM_range_some {f : σ → ℕ → Option σ} {I : ℕ → σ → Prop} {n : ℕ} {s : σ} (h : I 0 s)
    (hstep : ∀ i s, i < n → I i s → ∃ s', f s i = some s' ∧ I (i + 1) s') :
    ∃ s', (List.range n).foldlM f s = some s' ∧ I n s' := by
  rw [List.range_eq_range']
  simpa using foldlM_range'_some h fun i s _ hi => hstep i s (by omega)

end Program
