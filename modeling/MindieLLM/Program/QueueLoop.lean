import MindieLLM.Program.Wp

/-!
# Values that programs return, and loops over queues

`Returns c Q` says that whatever the state the program starts from, a value it returns satisfies
`Q`. It is the fragment of `wp` for facts that do not depend on the state, such as what happens to
the elements of a queue that a loop holds in local variables.

## Main definitions

* `Returns c Q`: every returned value satisfies `Q`
* `drain`: pop a queue from its front until the element at the front is refused
* `consume`: the same, where an element may also take others off the queue

## Main results

* `Returns.bind`, `Returns.skip`, `returns_ite`: the structural rules
* `returns_drain`, `returns_consume`: an invariant of the queue and the local variables
* `drain_error`: the round in which a loop throws
* `consume_of_length_le`: as many rounds as the queue has elements are enough
-/

namespace Program

variable {ε σ τ α β γ : Type}

/-- What holds of every value and every state holds of an outcome that is a return. -/
theorem wp_any {c : EStateM ε σ α} {Q : α → σ → Prop} {s : σ} (h : ∀ a s', Q a s') :
    wp c Q (fun _ _ => True) s := by
  unfold wp
  cases c s with
  | ok a s' => exact h a s'
  | error e s' => trivial

/-- Every value that the program returns satisfies `Q`. -/
def Returns (c : EStateM ε σ α) (Q : α → Prop) : Prop :=
  ∀ s, wp c (fun a _ => Q a) (fun _ _ => True) s

section Returns

variable {Q Q' : α → Prop}

theorem returns_pure {a : α} (h : Q a) : Returns (pure a : EStateM ε σ α) Q := fun _ => h

theorem returns_throw (e : ε) : Returns (throw e : EStateM ε σ α) Q := fun _ => trivial

theorem returns_any (c : EStateM ε σ α) : Returns c fun _ => True := by
  exact fun _ => wp_any fun _ _ => trivial

theorem Returns.mono {c : EStateM ε σ α} (h : Returns c Q) (hQ : ∀ a, Q a → Q' a) :
    Returns c Q' :=
  fun s => wp_mono (h s) (fun a _ => hQ a) fun _ _ h => h

theorem Returns.bind {c : EStateM ε σ β} {f : β → EStateM ε σ α} {P : β → Prop}
    (hc : Returns c P) (hf : ∀ b, P b → Returns (f b) Q) : Returns (c >>= f) Q := by
  intro s
  rw [wp_bind]
  exact wp_mono (hc s) (fun b s' hb => hf b hb s') fun _ _ h => h

/-- The value of the first program does not matter. -/
theorem Returns.skip {c : EStateM ε σ β} {f : β → EStateM ε σ α}
    (hf : ∀ b, Returns (f b) Q) : Returns (c >>= f) Q :=
  (returns_any c).bind fun b _ => hf b

theorem returns_ite {p : Prop} [Decidable p] {c d : EStateM ε σ α} (hc : p → Returns c Q)
    (hd : ¬p → Returns d Q) : Returns (if p then c else d) Q := by
  by_cases h : p
  · rw [if_pos h]
    exact hc h
  · rw [if_neg h]
    exact hd h

end Returns

/-! ## Popping from the front -/

/-- What a loop makes of the element at the front of its queue: the element is refused and stays,
or it is popped and is the last one, or it is popped and the loop goes on. The local variables may
change in each case. -/
inductive Verdict (α : Type)
  | refuse (v : α)
  | last (v : α)
  | next (v : α)

namespace Verdict

/-- The queue and the local variables after the verdict. -/
def after (x : γ) (rest : List γ) : Verdict α → List γ × α
  | refuse v => (x :: rest, v)
  | last v => (rest, v)
  | next v => (rest, v)

@[simp]
theorem after_refuse (x : γ) (rest : List γ) (v : α) : (refuse v).after x rest = (x :: rest, v) :=
  rfl

@[simp]
theorem after_last (x : γ) (rest : List γ) (v : α) : (last v).after x rest = (rest, v) := rfl

@[simp]
theorem after_next (x : γ) (rest : List γ) (v : α) : (next v).after x rest = (rest, v) := rfl

end Verdict

/-- Pop the queue from the front, with local variables `v`. -/
def drain (consider : γ → α → EStateM ε σ (Verdict α)) :
    List γ → α → EStateM ε σ (List γ × α)
  | [], v => return ([], v)
  | x :: rest, v => do
    match ← consider x v with
    | .refuse v' => return (x :: rest, v')
    | .last v' => return (rest, v')
    | .next v' => drain consider rest v'

theorem wp_drain {consider : γ → α → EStateM ε σ (Verdict α)} {I : List γ → α → σ → Prop}
    {T : ε → σ → Prop} {xs : List γ} {v : α} {s : σ} (h : I xs v s)
    (step : ∀ x rest v s, I (x :: rest) v s →
      wp (consider x v) (fun r s' => I (r.after x rest).1 (r.after x rest).2 s') T s) :
    wp (drain consider xs v) (fun r s' => I r.1 r.2 s') T s := by
  induction xs generalizing v s with
  | nil => exact h
  | cons x rest ih =>
    unfold drain
    rw [wp_bind]
    refine wp_mono (step x rest v s h) (fun r s' hr => ?_) fun _ _ h => h
    cases r with
    | refuse v' => exact hr
    | last v' => exact hr
    | next v' => exact ih hr

theorem returns_drain {f : γ → α → EStateM ε σ (Verdict α)} {I : List γ → α → Prop}
    {l : List γ} {v : α} (h : I l v)
    (step : ∀ x rest v, I (x :: rest) v →
      Returns (f x v) fun r => I (r.after x rest).1 (r.after x rest).2) :
    Returns (drain f l v) fun r => I r.1 r.2 :=
  fun _ => wp_drain (I := fun xs v _ => I xs v) h fun x rest v s hI => step x rest v hI s

/-- A loop that throws does so in the round of one element, after those before it. -/
theorem drain_error {consider : γ → α → EStateM ε σ (Verdict α)} {xs : List γ} {v : α}
    {s s' : σ} {e : ε} (h : drain consider xs v s = .error e s') :
    ∃ taken x rest v₁ s₁, xs = taken ++ x :: rest ∧ drain consider taken v s = .ok ([], v₁) s₁ ∧
      consider x v₁ s₁ = .error e s' := by
  induction xs generalizing v s with
  | nil => cases h
  | cons x rest ih =>
    simp only [drain, bind, EStateM.bind] at h
    cases hround : consider x v s with
    | error e₁ s₁ =>
      rw [hround] at h
      cases h
      exact ⟨[], x, rest, v, s, rfl, rfl, hround⟩
    | ok r s₁ =>
      rw [hround] at h
      cases r with
      | refuse v' => cases h
      | last v' => cases h
      | next v' =>
        obtain ⟨taken, y, after, v₂, s₂, rfl, hdrain, herror⟩ := ih h
        refine ⟨x :: taken, y, after, v₂, s₂, rfl, ?_, herror⟩
        simp only [drain, bind, EStateM.bind, hround]
        exact hdrain

/-! ## Elements that take others off the queue -/

/-- Pop the queue from the front; `consider` sees the rest of the queue and says what is left of
it. The number bounds the rounds. -/
def consume (consider : γ → List γ → α → EStateM ε σ (Option (List γ × α))) :
    Nat → List γ → α → EStateM ε σ (List γ × α)
  | 0, xs, v => return (xs, v)
  | _ + 1, [], v => return ([], v)
  | n + 1, x :: rest, v => do
    match ← consider x rest v with
    | none => return (x :: rest, v)
    | some r => consume consider n r.1 r.2

theorem returns_consume {f : γ → List γ → α → EStateM ε σ (Option (List γ × α))}
    {I : List γ → α → Prop} {n : Nat} {l : List γ} {v : α} (h : I l v)
    (step : ∀ x rest v, I (x :: rest) v →
      Returns (f x rest v) fun r => ∀ q, r = some q → I q.1 q.2) :
    Returns (consume f n l v) fun r => I r.1 r.2 := by
  induction n generalizing l v with
  | zero => exact returns_pure h
  | succ n ih =>
    cases l with
    | nil => exact returns_pure h
    | cons x rest =>
      unfold consume
      refine (step x rest v h).bind fun r hr => ?_
      cases r with
      | none => exact returns_pure h
      | some q => exact ih (hr q rfl)

/-- When no element makes the queue longer, rounds beyond the length of the queue are not
taken. -/
theorem consume_of_length_le {consider : γ → List γ → α → EStateM ε σ (Option (List γ × α))}
    (hlen : ∀ x rest v, Returns (consider x rest v) fun r =>
      ∀ q, r = some q → q.1.length ≤ rest.length)
    {n : Nat} {xs : List γ} (v : α) (h : xs.length ≤ n) :
    consume consider n xs v = consume consider xs.length xs v := by
  -- two bounds that both suffice agree
  suffices hboth : ∀ n m xs v, xs.length ≤ n → xs.length ≤ m →
      consume consider n xs v = consume consider m xs v from hboth _ _ _ _ h (Nat.le_refl _)
  intro n
  induction n with
  | zero =>
    intro m xs v hn _
    obtain rfl : xs = [] := List.length_eq_zero_iff.mp (Nat.le_zero.mp hn)
    cases m <;> rfl
  | succ n ih =>
    intro m xs v hn hm
    cases xs with
    | nil => cases m <;> rfl
    | cons x rest =>
      cases m with
      | zero => simp at hm
      | succ m =>
        funext s
        have hshort := hlen x rest v s
        simp only [consume, bind, EStateM.bind]
        cases hc : consider x rest v s with
        | error e s' => rfl
        | ok r s' =>
          cases r with
          | none => rfl
          | some q =>
            have hq : q.1.length ≤ rest.length := wp_ok hshort hc q rfl
            simp only [List.length_cons] at hn hm
            change consume consider n q.1 q.2 s' = consume consider m q.1 q.2 s'
            rw [ih m q.1 q.2 (by omega) (by omega)]

end Program
