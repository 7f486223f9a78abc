import Mathlib.Data.List.Basic

/-!
# Weakest preconditions for programs with state and exceptions

A program is an `EStateM ε σ α`: it runs from a state and either returns a value or throws,
and in both cases leaves a state behind. `wp c Q T s` says that from `s` the program `c` either
returns with `Q` or throws with `T`. Taking `T` to be false asks for a return, taking it to be
true asks only about the runs that return, so one rule set serves total and partial
correctness.

## Main definitions

* `wp c Q T s`: `c` returns with `Q` or throws with `T`
* `Lens`: a component of a state with its three laws
* `zoom l c`: a program on a component, run on the whole state

## Main results

* `wp_bind`, `wp_pure`, `wp_throw`, `wp_get`, `wp_set`, `wp_modify`: the structural rules
* `wp_mono`: the consequence rule
* `wp_forM`, `wp_mapM`, `wp_mapM_forall₂`: an invariant of a loop over a list
* `wp_zoom`: a program on a component leaves the rest alone
-/

namespace Program

variable {ε σ τ α β : Type}

/-- From `s`, the program returns with `Q` or throws with `T`. -/
def wp (c : EStateM ε σ α) (Q : α → σ → Prop) (T : ε → σ → Prop) (s : σ) : Prop :=
  match c s with
  | .ok a s' => Q a s'
  | .error e s' => T e s'

section Rules

variable {Q : α → σ → Prop} {T : ε → σ → Prop} {s : σ}

@[simp]
theorem wp_pure (a : α) : wp (pure a) Q T s ↔ Q a s := Iff.rfl

@[simp]
theorem wp_bind (c : EStateM ε σ β) (f : β → EStateM ε σ α) :
    wp (c >>= f) Q T s ↔ wp c (fun b s' => wp (f b) Q T s') T s := by
  simp only [wp, bind, EStateM.bind]
  cases c s <;> rfl

@[simp]
theorem wp_map (c : EStateM ε σ β) (f : β → α) :
    wp (f <$> c) Q T s ↔ wp c (fun b s' => Q (f b) s') T s := by
  simp only [wp, Functor.map, EStateM.map]
  cases c s <;> rfl

@[simp]
theorem wp_throw (e : ε) : wp (throw e : EStateM ε σ α) Q T s ↔ T e s := Iff.rfl

@[simp]
theorem wp_get {Q : σ → σ → Prop} : wp (get : EStateM ε σ σ) Q T s ↔ Q s s := Iff.rfl

@[simp]
theorem wp_set {Q : PUnit → σ → Prop} (s' : σ) :
    wp (set s' : EStateM ε σ PUnit) Q T s ↔ Q ⟨⟩ s' := Iff.rfl

@[simp]
theorem wp_modify {Q : PUnit → σ → Prop} (f : σ → σ) :
    wp (modify f : EStateM ε σ PUnit) Q T s ↔ Q ⟨⟩ (f s) := Iff.rfl

theorem wp_ite (p : Prop) [Decidable p] (c d : EStateM ε σ α) :
    wp (if p then c else d) Q T s ↔ (p → wp c Q T s) ∧ (¬p → wp d Q T s) := by
  by_cases h : p <;> simp [h]

/-- The consequence rule. -/
theorem wp_mono {c : EStateM ε σ α} {Q' : α → σ → Prop} {T' : ε → σ → Prop}
    (h : wp c Q T s) (hQ : ∀ a s', Q a s' → Q' a s') (hT : ∀ e s', T e s' → T' e s') :
    wp c Q' T' s := by
  unfold wp at *
  cases hc : c s with
  | ok a s' => rw [hc] at h; exact hQ a s' h
  | error e s' => rw [hc] at h; exact hT e s' h

theorem wp_and {c : EStateM ε σ α} {Q' : α → σ → Prop} {T' : ε → σ → Prop}
    (h : wp c Q T s) (h' : wp c Q' T' s) :
    wp c (fun a s' => Q a s' ∧ Q' a s') (fun e s' => T e s' ∧ T' e s') s := by
  unfold wp at *
  cases hc : c s <;> simp_all

/-- A condition on the state before. -/
theorem wp_imp {p : Prop} {c : EStateM ε σ α} (h : p → wp c Q (fun _ _ => True) s) :
    wp c (fun a s' => p → Q a s') (fun _ _ => True) s := by
  unfold wp at *
  cases hc : c s with
  | ok a s' =>
    rw [hc] at h
    exact h
  | error e s' => trivial

/-- The outcome itself. -/
theorem wp_self (c : EStateM ε σ α) (s : σ) :
    wp c (fun a s' => c s = .ok a s') (fun e s' => c s = .error e s') s := by
  unfold wp
  cases c s <;> rfl

/-- What holds of every outcome holds of the outcome reached. -/
theorem wp_ok {c : EStateM ε σ α} {a : α} {s' : σ} (h : wp c Q T s) (hc : c s = .ok a s') :
    Q a s' := by
  unfold wp at h
  rwa [hc] at h

theorem wp_error {c : EStateM ε σ α} {e : ε} {s' : σ} (h : wp c Q T s)
    (hc : c s = .error e s') : T e s' := by
  unfold wp at h
  rwa [hc] at h

theorem wp_iff_of_ok {c : EStateM ε σ α} {a : α} {s' : σ} (hc : c s = .ok a s') :
    wp c Q T s ↔ Q a s' := by
  simp only [wp, hc]

/-- A program that cannot throw returns. -/
theorem exists_ok {c : EStateM ε σ α} (h : wp c Q (fun _ _ => False) s) :
    ∃ a s', c s = .ok a s' ∧ Q a s' := by
  unfold wp at h
  cases hc : c s with
  | ok a s' => rw [hc] at h; exact ⟨a, s', rfl, h⟩
  | error e s' => rw [hc] at h; exact h.elim

/-- The value a program returns, if it returns. -/
def valueOf (c : EStateM ε σ α) (s : σ) : Option α :=
  match c s with
  | .ok a _ => some a
  | .error _ _ => none

theorem valueOf_eq_some_iff {c : EStateM ε σ α} {a : α} :
    valueOf c s = some a ↔ ∃ s', c s = .ok a s' := by
  unfold valueOf
  cases c s <;> simp

theorem valueOf_bind_eq_some_iff {c : EStateM ε σ β} {f : β → EStateM ε σ α} {a : α} :
    valueOf (c >>= f) s = some a ↔ ∃ b s', c s = .ok b s' ∧ valueOf (f b) s' = some a := by
  simp only [valueOf, bind, EStateM.bind]
  cases c s <;> simp

/-- The state a program leaves, whether it returns or throws. -/
def stateAfter (c : EStateM ε σ α) (s : σ) : σ :=
  match c s with
  | .ok _ s' => s'
  | .error _ s' => s'

theorem stateAfter_of_ok {c : EStateM ε σ α} {a : α} {s' : σ} (hc : c s = .ok a s') :
    stateAfter c s = s' := by
  rw [stateAfter, hc]

end Rules

/-! ## Loops -/

section Loops

variable {T : ε → σ → Prop}

@[simp]
theorem wp_forM_nil {Q : PUnit → σ → Prop} (f : α → EStateM ε σ PUnit) (s : σ) :
    wp (forM ([] : List α) f) Q T s ↔ Q ⟨⟩ s := Iff.rfl

theorem wp_forM_cons {Q : PUnit → σ → Prop} (f : α → EStateM ε σ PUnit) (x : α) (xs : List α)
    (s : σ) :
    wp (forM (x :: xs) f) Q T s ↔ wp (f x) (fun _ s' => wp (forM xs f) Q T s') T s := by
  change wp (f x >>= fun _ => forM xs f) Q T s ↔ _
  rw [wp_bind]

/-- **Loop rule.** An invariant of the elements still to visit that every iteration keeps holds,
with nothing left to visit, after the loop. -/
theorem wp_forM {I : List α → σ → Prop} (f : α → EStateM ε σ PUnit) (xs : List α) {s : σ}
    (h : I xs s)
    (step : ∀ x rest s, I (x :: rest) s → wp (f x) (fun _ s' => I rest s') T s) :
    wp (forM xs f) (fun _ s' => I [] s') T s := by
  induction xs generalizing s with
  | nil => simpa using h
  | cons x rest ih =>
    rw [wp_forM_cons]
    exact wp_mono (step x rest s h) (fun _ _ h' => ih h') fun _ _ h => h

/-- A loop that comes to an iteration that throws. -/
theorem wp_forM_throws {I : σ → Prop} {f : α → EStateM ε σ PUnit} {xs : List α} {x : α} {s : σ}
    (h : I s) (step : ∀ x s, I s → wp (f x) (fun _ s' => I s') T s) (hx : x ∈ xs)
    (hthrow : ∀ s, I s → wp (f x) (fun _ _ => False) T s) :
    wp (forM xs f) (fun _ _ => False) T s := by
  induction xs generalizing s with
  | nil => cases hx
  | cons y rest ih =>
    rw [wp_forM_cons]
    rcases List.mem_cons.mp hx with rfl | hrest
    · exact wp_mono (hthrow s h) (fun _ _ hf => hf.elim) fun _ _ h => h
    · exact wp_mono (step y s h) (fun _ _ h' => ih h' hrest) fun _ _ h => h

/-- An invariant of a loop that collects the values of its iterations. -/
theorem wp_mapM {I : σ → Prop} {T : ε → σ → Prop} (f : α → EStateM ε σ β) (xs : List α) {s : σ}
    (h : I s) (step : ∀ x s, I s → wp (f x) (fun _ s' => I s') T s) :
    wp (xs.mapM f) (fun _ s' => I s') T s := by
  induction xs generalizing s with
  | nil => exact h
  | cons x rest ih =>
    rw [List.mapM_cons, wp_bind]
    refine wp_mono (step x s h) (fun _ s' h' => ?_) fun _ _ h => h
    rw [wp_bind]
    exact wp_mono (ih h') (fun _ _ h => h) fun _ _ h => h

/-- What each iteration finds about its value, and no later one changes. -/
theorem wp_mapM_forall₂ {I : σ → Prop} {R : α → β → σ → Prop} {T : ε → σ → Prop}
    (f : α → EStateM ε σ β) (xs : List α) {s : σ} (h : I s)
    (step : ∀ x ∈ xs, ∀ s, I s →
      wp (f x) (fun b s' => I s' ∧ R x b s' ∧ ∀ y c, R y c s → R y c s') T s) :
    wp (xs.mapM f) (fun bs s' => I s' ∧ List.Forall₂ (fun x b => R x b s') xs bs ∧
      ∀ y c, R y c s → R y c s') T s := by
  induction xs generalizing s with
  | nil => exact ⟨h, .nil, fun _ _ hR => hR⟩
  | cons x rest ih =>
    rw [List.mapM_cons, wp_bind]
    refine wp_mono (step x List.mem_cons_self s h) ?_ fun _ _ h => h
    rintro b s₁ ⟨h₁, hR, hkeep⟩
    rw [wp_bind]
    refine wp_mono (ih h₁ fun y hy => step y (List.mem_cons_of_mem _ hy)) ?_ fun _ _ h => h
    rintro bs s₂ ⟨h₂, hrest, hkeep'⟩
    exact ⟨h₂, .cons (hkeep' _ _ hR) hrest, fun y c hy => hkeep' y c (hkeep y c hy)⟩

/-- A loop whose iterations read the state and leave it as it is. -/
theorem mapM_eq_ok_of_reads {f : α → EStateM ε σ β} {g : α → β} {xs : List α} {s : σ}
    (h : ∀ x ∈ xs, f x s = .ok (g x) s) : xs.mapM f s = .ok (xs.map g) s := by
  induction xs with
  | nil => rfl
  | cons x rest ih =>
    have hx := h x List.mem_cons_self
    have hrest := ih fun y hy => h y (List.mem_cons_of_mem x hy)
    rw [List.mapM_cons]
    simp only [bind, EStateM.bind, hx, hrest]
    rfl

end Loops

/-! ## Programs on a component of the state -/

section Zoom

/-- A component `τ` of a state `σ`. -/
structure Lens (σ τ : Type) where
  get : σ → τ
  put : τ → σ → σ
  get_put : ∀ t s, get (put t s) = t
  put_get : ∀ s, put (get s) s = s
  put_put : ∀ t t' s, put t (put t' s) = put t s

attribute [simp] Lens.get_put Lens.put_get Lens.put_put

/-- Run a program on a component of the state. -/
def zoom (l : Lens σ τ) (c : EStateM ε τ α) : EStateM ε σ α := fun s =>
  match c (l.get s) with
  | .ok a t => .ok a (l.put t s)
  | .error e t => .error e (l.put t s)

@[simp]
theorem wp_zoom (l : Lens σ τ) (c : EStateM ε τ α) {Q : α → σ → Prop} {T : ε → σ → Prop}
    {s : σ} :
    wp (zoom l c) Q T s ↔
      wp c (fun a t => Q a (l.put t s)) (fun e t => T e (l.put t s)) (l.get s) := by
  simp only [wp, zoom]
  cases c (l.get s) <;> rfl

end Zoom

end Program
