/-!
# The states that a machine reaches

A machine takes steps; a step may not be possible in a state. `Reaches step good s₀ s` says that
some sequence of steps leads from `s₀` to `s`, and that each of them meets the condition `good` in
the state it is taken in. Threads that share memory are a machine whose steps are the atomic steps
of all threads, in any order.

## Main definitions

* `Reaches step good s₀ s`: good steps lead from `s₀` to `s`
* `execAll step good s₀ ops`: the state that given steps lead to

## Main results

* `Reaches.invariant`: what good steps preserve holds of every state reached
* `exists_reaches`: a run on fixed input as an example of a state reached
-/

namespace Program

variable {σ α : Type} {step : σ → α → Option σ} {good : σ → α → Prop} {s₀ s s' : σ}

inductive Reaches (step : σ → α → Option σ) (good : σ → α → Prop) (s₀ : σ) : σ → Prop
  | start : Reaches step good s₀ s₀
  | step {s s' : σ} (a : α) : Reaches step good s₀ s → good s a → step s a = some s' →
      Reaches step good s₀ s'

namespace Reaches

/-- **The induction over a run.** -/
theorem invariant {I : σ → Prop} (h : Reaches step good s₀ s) (h₀ : I s₀)
    (hstep : ∀ s a s', I s → good s a → step s a = some s' → I s') : I s := by
  induction h with
  | start => exact h₀
  | step a _ hgood hs ih => exact hstep _ a _ ih hgood hs

theorem trans (h : Reaches step good s₀ s) (h' : Reaches step good s s') :
    Reaches step good s₀ s' := by
  induction h' with
  | start => exact h
  | step a _ hgood hs ih => exact .step a ih hgood hs

theorem mono {good' : σ → α → Prop} (h : Reaches step good s₀ s)
    (hgood : ∀ s a, good s a → good' s a) : Reaches step good' s₀ s := by
  induction h with
  | start => exact .start
  | step a _ ha hs ih => exact .step a ih (hgood _ a ha) hs

theorem one {a : α} (hgood : good s₀ a) (hs : step s₀ a = some s) : Reaches step good s₀ s :=
  .step a .start hgood hs

end Reaches

/-! ## Runs on fixed input -/

/-- The state after given steps, if all of them are good and possible. -/
def execAll (step : σ → α → Option σ) (good : σ → α → Prop) [∀ s a, Decidable (good s a)] :
    σ → List α → Option σ
  | s, [] => some s
  | s, a :: rest =>
    if good s a then (step s a).bind fun s' => execAll step good s' rest else none

variable [∀ s a, Decidable (good s a)]

theorem reaches_of_execAll {ops : List α} (h : execAll step good s₀ ops = some s) :
    Reaches step good s₀ s := by
  induction ops generalizing s₀ with
  | nil =>
    obtain rfl : s₀ = s := Option.some.inj h
    exact .start
  | cons a rest ih =>
    unfold execAll at h
    split at h
    · next hgood =>
      obtain ⟨s₁, hs₁, hrest⟩ := Option.bind_eq_some_iff.mp h
      exact (Reaches.one hgood hs₁).trans (ih hrest)
    · cases h

theorem exists_reaches {P : σ → Prop} [DecidablePred P] (ops : List α)
    (h : (execAll step good s₀ ops).any (fun s => P s) = true) :
    ∃ s, Reaches step good s₀ s ∧ P s := by
  obtain ⟨s, hs, hP⟩ := Option.any_eq_true _ _ |>.mp h
  exact ⟨s, reaches_of_execAll hs, of_decide_eq_true hP⟩

end Program
