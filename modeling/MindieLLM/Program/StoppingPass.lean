import Mathlib.Data.List.Nodup

/-!
# A pass over a queue that stops early

A pass pops a queue from the front. Of every element it decides whether to take it, to let it go, or
to keep it for the queue, and it stops when it has taken a given number. What it has not reached
stays where it is.

## Main definitions

* `Fate`: what becomes of an element that is reached
* `having f l`: the elements with a fate, in order
* `reached n l`, `unreached n l`: the elements up to the `n`-th taken one, and those behind it

## Main results

* `having_taken_reached`: the first `n` elements to be taken are taken
* `filter_left`: the elements that neither are taken nor let go, in order
* `append_comm_iff`: when elements pushed to the back keep the order
-/

namespace Program

/-- What becomes of an element that a pass reaches. -/
inductive Fate
  | taken
  | gone
  | kept
  deriving DecidableEq, Repr

namespace StoppingPass

variable {α : Type} {f : Fate} {e : α × Fate} {l l' : List (α × Fate)} {n : Nat} {x : α}

/-- The elements with a fate. -/
def having (f : Fate) (l : List (α × Fate)) : List α :=
  (l.filter fun e => e.2 = f).map Prod.fst

/-- The elements that are reached before `n` have been taken. -/
def reached : Nat → List (α × Fate) → List (α × Fate)
  | 0, _ => []
  | _ + 1, [] => []
  | n + 1, e :: l => e :: reached (if e.2 = .taken then n else n + 1) l

/-- The elements that are not reached. -/
def unreached : Nat → List (α × Fate) → List (α × Fate)
  | 0, l => l
  | _ + 1, [] => []
  | n + 1, e :: l => unreached (if e.2 = .taken then n else n + 1) l

@[simp] theorem having_nil : having f ([] : List (α × Fate)) = [] := rfl

theorem having_cons_of_eq (h : e.2 = f) : having f (e :: l) = e.1 :: having f l := by
  rw [having, List.filter_cons_of_pos (by simpa using h)]
  rfl

theorem having_cons_of_ne (h : e.2 ≠ f) : having f (e :: l) = having f l := by
  rw [having, List.filter_cons_of_neg (by simpa using h)]
  rfl

theorem having_append : having f (l ++ l') = having f l ++ having f l' := by
  simp only [having, List.filter_append, List.map_append]

theorem mem_having : x ∈ having f l ↔ (x, f) ∈ l := by
  simp only [having, List.mem_map, List.mem_filter, decide_eq_true_eq]
  constructor
  · rintro ⟨⟨y, g⟩, ⟨hmem, rfl⟩, rfl⟩
    exact hmem
  · intro hmem
    exact ⟨(x, f), ⟨hmem, rfl⟩, rfl⟩

@[simp] theorem reached_zero : reached 0 l = [] := by cases l <;> rfl

@[simp] theorem unreached_zero : unreached 0 l = l := by cases l <;> rfl

@[simp] theorem reached_nil : reached n ([] : List (α × Fate)) = [] := by cases n <;> rfl

@[simp] theorem unreached_nil : unreached n ([] : List (α × Fate)) = [] := by cases n <;> rfl

theorem reached_append_unreached (n : Nat) (l : List (α × Fate)) :
    reached n l ++ unreached n l = l := by
  induction l generalizing n with
  | nil => simp
  | cons e l ih =>
    cases n with
    | zero => simp
    | succ n =>
      rw [reached, unreached, List.cons_append, ih]

/-- The first elements to be taken are taken. -/
theorem having_taken_reached (n : Nat) (l : List (α × Fate)) :
    having .taken (reached n l) = (having .taken l).take n := by
  induction l generalizing n with
  | nil => simp
  | cons e l ih =>
    cases n with
    | zero => simp
    | succ n =>
      rw [reached]
      by_cases he : e.2 = .taken
      · rw [if_pos he, having_cons_of_eq he, having_cons_of_eq he, ih, List.take_succ_cons]
      · rw [if_neg he, having_cons_of_ne he, having_cons_of_ne he, ih]

/-! ## What is left -/

/-- In a list without repetition an element has one fate. -/
theorem fate_unique {g : Fate} (h : (l.map Prod.fst).Nodup) (hf : (x, f) ∈ l) (hg : (x, g) ∈ l) :
    f = g := by
  have heq := List.inj_on_of_nodup_map h hf hg rfl
  exact (Prod.mk.inj heq).2

/-- What is left of the elements, in their order, if those taken and those let go are missing. -/
theorem filter_left [DecidableEq α] (h : ((l ++ l').map Prod.fst).Nodup) :
    ((l ++ l').map Prod.fst).filter (fun x => x ∉ having .taken l ∧ x ∉ having .gone l) =
      having .kept l ++ l'.map Prod.fst := by
  rw [List.map_append] at h ⊢
  obtain ⟨hl, -, hdisj⟩ := List.nodup_append.mp h
  rw [List.filter_append]
  congr 1
  · -- among the elements reached
    have hkept : having .kept l = (l.filter fun e => e.2 = .kept).map Prod.fst := rfl
    rw [hkept, List.filter_map]
    congr 1
    apply List.filter_congr
    rintro ⟨x, f⟩ hmem
    simp only [Function.comp_apply, decide_eq_decide, mem_having]
    constructor
    · rintro ⟨htaken, hgone⟩
      cases f with
      | taken => exact absurd hmem htaken
      | gone => exact absurd hmem hgone
      | kept => rfl
    · rintro rfl
      refine ⟨fun htaken => ?_, fun hgone => ?_⟩
      · cases fate_unique hl hmem htaken
      · cases fate_unique hl hmem hgone
  · -- none of the others has been reached
    apply List.filter_eq_self.mpr
    intro x hx
    have hnot : ∀ f, x ∉ having f l := by
      intro f hmem
      rw [mem_having] at hmem
      exact hdisj x (List.mem_map_of_mem hmem) x hx rfl
    simp only [hnot, not_false_iff, and_self, decide_true]

/-- Elements that are pushed to the back keep the order only if there are none, or none that they
are pushed behind. -/
theorem append_comm_iff {xs ys : List α} (h : (xs ++ ys).Nodup) :
    ys ++ xs = xs ++ ys ↔ xs = [] ∨ ys = [] := by
  constructor
  · intro heq
    cases xs with
    | nil => exact .inl rfl
    | cons x xs =>
      cases ys with
      | nil => exact .inr rfl
      | cons y ys =>
        -- the two heads are the same element
        have hxy : y = x := (List.cons.inj heq).1
        subst hxy
        have hdisj := (List.nodup_append.mp h).2.2
        exact absurd rfl (hdisj y List.mem_cons_self y List.mem_cons_self)
  · rintro (rfl | rfl)
    · simp
    · simp

end StoppingPass

end Program
