import Mathlib.Data.Nat.Notation

/-!
# Computations with fuel

A computation that may not end is a function of its fuel. It yields a value if it has that value
with all fuel from some amount on, and no other value with less; it yields nothing if it has no
value with any fuel.

## Main results

* `Yields.pure`, `Yields.succ`, `Yields.bind`: what a computation yields, by its steps
* `Yields.returns_iff`: a computation returns if and only if it yields a value
-/

namespace Program

variable {α β : Type} {f g : ℕ → Option α} {r : Option α}

structure Yields (f : ℕ → Option α) (r : Option α) : Prop where
  eq_of_eq_some : ∀ {fuel v}, f fuel = some v → r = some v
  eventually : ∀ {v}, r = some v → ∃ N, ∀ fuel, N ≤ fuel → f fuel = some v

namespace Yields

theorem pure (v : α) : Yields (fun _ => some v) (some v) :=
  ⟨fun h => h, fun h => ⟨0, fun _ _ => h⟩⟩

theorem of_eq_none (h : ∀ fuel, f fuel = none) : Yields f none :=
  ⟨fun hv => by simp [h] at hv, fun hv => by cases hv⟩

/-- A step uses one unit of fuel, and there is none to begin with. -/
theorem succ (h₀ : f 0 = none) (h : ∀ fuel, f (fuel + 1) = g fuel) (hg : Yields g r) :
    Yields f r where
  eq_of_eq_some := by
    intro fuel v hv
    cases fuel with
    | zero => simp [h₀] at hv
    | succ fuel => exact hg.eq_of_eq_some (h fuel ▸ hv)
  eventually := by
    intro v hv
    obtain ⟨N, hN⟩ := hg.eventually hv
    refine ⟨N + 1, fun fuel hfuel => ?_⟩
    obtain ⟨fuel, rfl⟩ := Nat.exists_eq_add_of_lt hfuel
    rw [h]
    exact hN _ (by omega)

theorem bind {f : ℕ → Option α} {g : ℕ → α → Option β} {r' : α → Option β} (hf : Yields f r)
    (hg : ∀ v, r = some v → Yields (fun fuel => g fuel v) (r' v)) :
    Yields (fun fuel => (f fuel).bind (g fuel)) (r.bind r') where
  eq_of_eq_some := by
    intro fuel w hw
    obtain ⟨v, hv, hw⟩ := Option.bind_eq_some_iff.mp hw
    have hr := hf.eq_of_eq_some hv
    rw [hr]
    exact (hg v hr).eq_of_eq_some hw
  eventually := by
    intro w hw
    obtain ⟨v, hv, hw⟩ := Option.bind_eq_some_iff.mp hw
    obtain ⟨N, hN⟩ := hf.eventually hv
    obtain ⟨M, hM⟩ := (hg v hv).eventually hw
    refine ⟨N + M, fun fuel hfuel => ?_⟩
    rw [hN fuel (by omega)]
    exact hM fuel (by omega)

/-- **A computation returns** if and only if it yields a value. -/
theorem returns_iff (h : Yields f r) : (∃ fuel v, f fuel = some v) ↔ r.isSome = true := by
  constructor
  · rintro ⟨fuel, v, hv⟩
    rw [h.eq_of_eq_some hv]
    rfl
  · intro hr
    obtain ⟨v, hv⟩ := Option.isSome_iff_exists.mp hr
    obtain ⟨N, hN⟩ := h.eventually hv
    exact ⟨N, v, hN N (Nat.le_refl N)⟩

end Yields

end Program
