import Mathlib.Order.Bounds.Basic

/-!
# Continuations and drafts

A function that gives the next token after a list of tokens is iterated: each token is appended
before the next one is asked for. A draft guesses how this goes on. When the function is asked at
once after each of the beginnings of the draft, its answers are those of the iteration as long as
the draft agrees with it, and one more.

## Main definitions

* `continuation f p n`: the next `n` tokens
* `answers f p d`: the tokens after each beginning of the draft
* `hitLength d r`: how long two lists agree
* `Lossless f p ds accepted`: the longest agreement of a draft, and the token after it

## Main results

* `take_answers`: as long as the draft agrees, the answers are the continuation
* `lossless_of_max`: the draft that agrees the longest decides
-/

namespace Program

variable {α β : Type}

/-! ## Iteration -/

def continuation (f : List α → α) (p : List α) : Nat → List α
  | 0 => []
  | n + 1 => f p :: continuation f (p ++ [f p]) n

/-- What `f` says after each of the beginnings of the draft, the empty one and the whole draft
included. -/
def answers (f : List α → β) (p : List α) : List α → List β
  | [] => [f p]
  | x :: d => f p :: answers f (p ++ [x]) d

variable {f : List α → α} {g : List α → β} {p d : List α} {n m : Nat}

@[simp]
theorem length_continuation : (continuation f p n).length = n := by
  induction n generalizing p with
  | zero => rfl
  | succ n ih => rw [continuation, List.length_cons, ih]

@[simp]
theorem length_answers : (answers g p d).length = d.length + 1 := by
  induction d generalizing p with
  | nil => rfl
  | cons x d ih => rw [answers, List.length_cons, ih, List.length_cons]

theorem answers_eq_cons : answers g p d = g p :: (answers g p d).tail := by
  cases d <;> rfl

theorem map_answers {γ : Type} (h : β → γ) :
    (answers g p d).map h = answers (fun l => h (g l)) p d := by
  induction d generalizing p with
  | nil => rfl
  | cons x d ih => rw [answers, List.map_cons, ih, answers]

theorem answers_eq_map (g : List α → β) (p d : List α) :
    answers g p d = (List.range (d.length + 1)).map fun i => g (p ++ d.take i) := by
  induction d generalizing p with
  | nil => simp [answers]
  | cons x d ih =>
    rw [answers, ih, List.length_cons, List.range_succ_eq_map (n := d.length + 1), List.map_cons,
      List.map_map]
    simp [Function.comp_def]

/-- As long as the draft agrees, the answers are the continuation, and so is the one after. -/
theorem take_answers (hn : n ≤ d.length) (hd : d.take n = continuation f p n) :
    (answers f p d).take (n + 1) = continuation f p (n + 1) := by
  induction n generalizing p d with
  | zero =>
    rw [answers_eq_cons]
    rfl
  | succ n ih =>
    cases d with
    | nil => cases hn
    | cons x d =>
      rw [continuation, List.take_succ_cons, List.cons.injEq] at hd
      obtain ⟨rfl, hd⟩ := hd
      rw [answers, List.take_succ_cons, ih (Nat.le_of_succ_le_succ hn) hd]
      rfl

/-! ## What may be accepted -/

/-- The tokens accepted are the longest agreement of a draft with the continuation, and the token
after it. -/
def Lossless (f : List α → α) (p : List α) (ds : List (List α)) (accepted : List α) : Prop :=
  ∃ m, IsGreatest {k | k = 0 ∨ ∃ d ∈ ds, k ≤ d.length ∧ d.take k = continuation f p k} m ∧
    accepted = continuation f p (m + 1)

/-- Without a draft one token is accepted. -/
theorem lossless_nil : Lossless f p [] [f p] := by
  refine ⟨0, ⟨.inl rfl, ?_⟩, rfl⟩
  rintro k (rfl | ⟨e, he, -⟩)
  · exact Nat.le_refl 0
  · cases he

theorem Lossless.head? {ds : List (List α)} {accepted : List α}
    (h : Lossless f p ds accepted) : accepted.head? = some (f p) := by
  obtain ⟨m, -, rfl⟩ := h
  rfl

theorem Lossless.length_pos {ds : List (List α)} {accepted : List α}
    (h : Lossless f p ds accepted) : 0 < accepted.length := by
  obtain ⟨m, -, rfl⟩ := h
  rw [length_continuation]
  exact Nat.succ_pos m

theorem Lossless.length_le {ds : List (List α)} {accepted : List α}
    (h : Lossless f p ds accepted) (hn : ∀ d ∈ ds, d.length ≤ n) : accepted.length ≤ n + 1 := by
  obtain ⟨m, ⟨hm, -⟩, rfl⟩ := h
  rw [length_continuation]
  rcases hm with rfl | ⟨d, hd, hle, -⟩
  · exact Nat.succ_le_succ (Nat.zero_le n)
  · exact Nat.succ_le_succ (hle.trans (hn d hd))

/-! ## How long a draft agrees -/

variable [DecidableEq α]

/-- How many elements two lists have in common from the start. -/
def hitLength : List α → List α → Nat
  | x :: d, y :: r => if x = y then hitLength d r + 1 else 0
  | _, _ => 0

theorem hitLength_le (d r : List α) : hitLength d r ≤ d.length := by
  induction d generalizing r with
  | nil => rw [hitLength.eq_def]; rfl
  | cons x d ih =>
    cases r with
    | nil => exact Nat.zero_le _
    | cons y r =>
      rw [hitLength]
      split
      · exact Nat.succ_le_succ (ih r)
      · exact Nat.zero_le _

/-- A draft agrees with the answers exactly as long as with the continuation. -/
theorem isGreatest_hitLength :
    IsGreatest {k | k ≤ d.length ∧ d.take k = continuation f p k}
      (hitLength d (answers f p d)) := by
  induction d generalizing p with
  | nil =>
    refine ⟨⟨Nat.le_refl 0, rfl⟩, fun k hk => hk.1⟩
  | cons x d ih =>
    obtain ⟨⟨hle, htake⟩, hgreatest⟩ := ih (p := p ++ [x])
    rw [answers, hitLength]
    split
    · next hx =>
      subst hx
      refine ⟨⟨Nat.succ_le_succ hle, ?_⟩, ?_⟩
      · rw [List.take_succ_cons, htake]
        rfl
      · rintro k ⟨hk, hagree⟩
        cases k with
        | zero => exact Nat.zero_le _
        | succ k =>
          rw [List.take_succ_cons, continuation, List.cons.injEq] at hagree
          exact Nat.succ_le_succ (hgreatest ⟨Nat.le_of_succ_le_succ hk, hagree.2⟩)
    · next hx =>
      refine ⟨⟨Nat.zero_le _, rfl⟩, ?_⟩
      rintro k ⟨-, hagree⟩
      cases k with
      | zero => exact Nat.le_refl 0
      | succ k =>
        rw [List.take_succ_cons, continuation, List.cons.injEq] at hagree
        exact absurd hagree.1 hx

/-- The draft that agrees the longest decides. -/
theorem lossless_of_max {ds : List (List α)} (hd : d ∈ ds)
    (hmax : ∀ e ∈ ds, hitLength e (answers f p e) ≤ hitLength d (answers f p d)) :
    Lossless f p ds ((answers f p d).take (hitLength d (answers f p d) + 1)) := by
  obtain ⟨⟨hle, htake⟩, -⟩ := isGreatest_hitLength (f := f) (p := p) (d := d)
  refine ⟨_, ⟨.inr ⟨d, hd, hle, htake⟩, ?_⟩, take_answers hle htake⟩
  rintro k (rfl | ⟨e, he, hk⟩)
  · exact Nat.zero_le _
  · exact (isGreatest_hitLength.2 hk).trans (hmax e he)

theorem lossless_single :
    Lossless f p [d] ((answers f p d).take (hitLength d (answers f p d) + 1)) := by
  refine lossless_of_max (List.mem_singleton_self d) fun e he => ?_
  rw [List.mem_singleton.mp he]

end Program
