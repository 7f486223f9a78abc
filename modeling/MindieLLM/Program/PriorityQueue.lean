/-!
# Priority queues as lists

A priority queue is a list together with a comparison `lt`; `pop lt` takes out a greatest
element, the earliest one where several are. No property of `lt` is needed for the queue to keep
its elements.

## Main results

* `pop_perm`: popping moves one element out of the queue
* `pop_eq_none_iff`: only the empty queue cannot be popped
* `pop_length`: popping shortens the queue by one
* `pop_greatest`: where the comparison is a weak order, what is popped is greatest
-/

namespace Program.PriorityQueue

variable {α : Type} (lt : α → α → Bool)

/-- Take out a greatest element. -/
def pop : List α → Option (α × List α)
  | [] => none
  | x :: xs =>
    match pop xs with
    | none => some (x, xs)
    | some (y, ys) => if lt x y then some (y, x :: ys) else some (x, xs)

variable {lt}

theorem pop_perm {q rest : List α} {x : α} (h : pop lt q = some (x, rest)) :
    q.Perm (x :: rest) := by
  induction q generalizing x rest with
  | nil => simp [pop] at h
  | cons y ys ih =>
    unfold pop at h
    cases hp : pop lt ys with
    | none =>
      simp only [hp, Option.some.injEq, Prod.mk.injEq] at h
      obtain ⟨rfl, rfl⟩ := h
      exact List.Perm.refl _
    | some r =>
      obtain ⟨z, zs⟩ := r
      simp only [hp] at h
      split at h <;> simp only [Option.some.injEq, Prod.mk.injEq] at h <;>
        obtain ⟨rfl, rfl⟩ := h
      · exact ((ih hp).cons y).trans (List.Perm.swap _ _ _)
      · exact List.Perm.refl _

theorem pop_length {q rest : List α} {x : α} (h : pop lt q = some (x, rest)) :
    q.length = rest.length + 1 := by
  simpa using (pop_perm h).length_eq

theorem pop_eq_none_iff {q : List α} : pop lt q = none ↔ q = [] := by
  cases q with
  | nil => simp [pop]
  | cons y ys =>
    unfold pop
    cases pop lt ys with
    | none => simp
    | some r =>
      simp only
      split <;> simp

/-! ## Weak orders -/

/-- The comparison is a strict weak order of the elements of a list. -/
structure WeakOrderOn (lt : α → α → Bool) (q : List α) : Prop where
  asymm : ∀ x ∈ q, ∀ y ∈ q, lt x y = true → lt y x = false
  trans : ∀ x ∈ q, ∀ y ∈ q, ∀ z ∈ q, lt x y = false → lt y z = false → lt x z = false

namespace WeakOrderOn

variable {q q' : List α}

theorem subset (h : WeakOrderOn lt q) (hsub : ∀ x ∈ q', x ∈ q) : WeakOrderOn lt q' where
  asymm x hx y hy := h.asymm x (hsub x hx) y (hsub y hy)
  trans x hx y hy z hz := h.trans x (hsub x hx) y (hsub y hy) z (hsub z hz)

theorem irrefl (h : WeakOrderOn lt q) {x : α} (hx : x ∈ q) : lt x x = false := by
  cases hlt : lt x x with
  | false => rfl
  | true => exact hlt.symm.trans (h.asymm x hx x hx hlt)

end WeakOrderOn

/-- **What is popped is greatest.** -/
theorem pop_greatest {q rest : List α} {x : α} (hweak : WeakOrderOn lt q)
    (h : pop lt q = some (x, rest)) : ∀ y ∈ q, lt x y = false := by
  induction q generalizing x rest with
  | nil => simp [pop] at h
  | cons y ys ih =>
    have hys : WeakOrderOn lt ys := hweak.subset fun z hz => List.mem_cons_of_mem y hz
    have hirrefl := hweak.irrefl (List.mem_cons_self (a := y) (l := ys))
    unfold pop at h
    cases hp : pop lt ys with
    | none =>
      simp only [hp, Option.some.injEq, Prod.mk.injEq] at h
      obtain ⟨rfl, rfl⟩ := h
      rw [pop_eq_none_iff.mp hp]
      intro z hz
      rw [List.mem_singleton.mp hz]
      exact hirrefl
    | some r =>
      obtain ⟨z, zs⟩ := r
      have hz : z ∈ y :: ys := List.mem_cons_of_mem y ((pop_perm hp).symm.subset List.mem_cons_self)
      simp only [hp] at h
      split at h
      · next hlt =>
        simp only [Option.some.injEq, Prod.mk.injEq] at h
        obtain ⟨rfl, rfl⟩ := h
        intro w hw
        rcases List.mem_cons.mp hw with rfl | hw
        · exact hweak.asymm w List.mem_cons_self z hz hlt
        · exact ih hys hp w hw
      · next hlt =>
        simp only [Option.some.injEq, Prod.mk.injEq] at h
        obtain ⟨rfl, rfl⟩ := h
        intro w hw
        rcases List.mem_cons.mp hw with rfl | hw'
        · exact hirrefl
        · -- the first element is not below the greatest of the others
          exact hweak.trans y List.mem_cons_self z hz w hw (Bool.not_eq_true _ ▸ hlt)
            (ih hys hp w hw')

end Program.PriorityQueue
