import MindieLLM.Program.Wp

/-!
# Programs that agree on related states

Two programs agree from two states if they have the same outcome, the same value or the same
exception, and leave related states behind. A program that agrees with itself from any two related
states cannot tell them apart.

## Main definitions

* `agree S E c d s t`: the same outcome, with states related by `S`, which may depend on the value,
  after a return and by `E` after an exception
* `Respects R E c`: the program cannot tell related states apart, and keeps them related

## Main results

* `agree_bind`, `agree_get_bind`, `agree_zoom`: the structural rules
* `wp_of_agree`: what a program keeps of a state related to itself
-/

namespace Program

variable {ε σ τ α β : Type}

/-- From `s` and `t` the programs return the same value in states related by `S`, or throw the same
exception in states related by `E`. -/
def agree (S : α → σ → σ → Prop) (E : σ → σ → Prop) (c d : EStateM ε σ α) (s t : σ) : Prop :=
  match c s, d t with
  | .ok a s', .ok b t' => a = b ∧ S a s' t'
  | .error e s', .error e' t' => e = e' ∧ E s' t'
  | _, _ => False

variable {S : α → σ → σ → Prop} {E : σ → σ → Prop} {s t : σ}

theorem agree_pure {a : α} (h : S a s t) : agree S E (pure a : EStateM ε σ α) (pure a) s t :=
  ⟨rfl, h⟩

theorem agree_throw {e : ε} (h : E s t) : agree S E (throw e : EStateM ε σ α) (throw e) s t :=
  ⟨rfl, h⟩

theorem agree_throw_bind {e : ε} {f g : β → EStateM ε σ α} (h : E s t) :
    agree S E (throw e >>= f) (throw e >>= g) s t :=
  ⟨rfl, h⟩

theorem agree_modify {S : PUnit → σ → σ → Prop} {f g : σ → σ} (h : S ⟨⟩ (f s) (g t)) :
    agree S E (modify f : EStateM ε σ PUnit) (modify g) s t :=
  ⟨rfl, h⟩

theorem agree_bind {U : β → σ → σ → Prop} {c d : EStateM ε σ β} {f g : β → EStateM ε σ α}
    (h : agree U E c d s t) (hf : ∀ b s' t', U b s' t' → agree S E (f b) (g b) s' t') :
    agree S E (c >>= f) (d >>= g) s t := by
  unfold agree at h
  simp only [agree, bind, EStateM.bind]
  cases hc : c s <;> cases hd : d t <;> rw [hc, hd] at h
  · obtain ⟨rfl, hs⟩ := h
    exact hf _ _ _ hs
  · exact h.elim
  · exact h.elim
  · exact h

/-- Reading the state: the continuations may see different states. -/
theorem agree_get_bind {f g : σ → EStateM ε σ α} :
    agree S E (get >>= f) (get >>= g) s t ↔ agree S E (f s) (g t) s t := Iff.rfl

/-- Writing the state. -/
theorem agree_set_bind {s' t' : σ} {f g : PUnit → EStateM ε σ α} :
    agree S E (set s' >>= f) (set t' >>= g) s t ↔ agree S E (f ⟨⟩) (g ⟨⟩) s' t' := Iff.rfl

theorem agree_ite {p : Prop} [Decidable p] {c c' d d' : EStateM ε σ α}
    (hc : p → agree S E c d s t) (hd : ¬p → agree S E c' d' s t) :
    agree S E (if p then c else c') (if p then d else d') s t := by
  by_cases h : p <;> simp only [h, if_true, if_false]
  · exact hc h
  · exact hd h

theorem agree_mono {U : α → σ → σ → Prop} {F : σ → σ → Prop} {c d : EStateM ε σ α}
    (h : agree S E c d s t) (hS : ∀ a s t, S a s t → U a s t) (hE : ∀ s t, E s t → F s t) :
    agree U F c d s t := by
  unfold agree at *
  cases hc : c s <;> cases hd : d t <;> rw [hc, hd] at h
  · exact ⟨h.1, hS _ _ _ h.2⟩
  · exact h.elim
  · exact h.elim
  · exact ⟨h.1, hE _ _ h.2⟩

theorem agree_rfl {c : EStateM ε σ α} : agree (fun _ => Eq) Eq c c s s := by
  unfold agree
  cases c s <;> exact ⟨rfl, rfl⟩

/-- Programs on a component. -/
theorem agree_zoom (l : Lens σ τ) {U : α → τ → τ → Prop} {F : τ → τ → Prop}
    {c d : EStateM ε τ α} (h : agree U F c d (l.get s) (l.get t))
    (hS : ∀ a x y, U a x y → S a (l.put x s) (l.put y t))
    (hE : ∀ x y, F x y → E (l.put x s) (l.put y t)) :
    agree S E (zoom l c) (zoom l d) s t := by
  unfold agree at *
  simp only [zoom]
  cases hc : c (l.get s) <;> cases hd : d (l.get t) <;> rw [hc, hd] at h
  · exact ⟨h.1, hS _ _ _ h.2⟩
  · exact h.elim
  · exact h.elim
  · exact ⟨h.1, hE _ _ h.2⟩

/-- Two programs whose outcomes are known. -/
theorem agree_of_wp {c d : EStateM ε σ α}
    (h : wp c (fun a s' => wp d (fun b t' => a = b ∧ S a s' t') (fun _ _ => False) t)
      (fun e s' => wp d (fun _ _ => False) (fun e' t' => e = e' ∧ E s' t') t) s) :
    agree S E c d s t := by
  unfold wp at h
  unfold agree
  cases hc : c s <;> cases hd : d t <;> rw [hc, hd] at h <;> exact h

/-- What holds of a state related to itself holds after the program. -/
theorem wp_of_agree {c : EStateM ε σ α} (h : agree S E c c s s) :
    wp c (fun a s' => S a s' s') (fun _ s' => E s' s') s := by
  unfold agree at h
  unfold wp
  cases hc : c s <;> rw [hc] at h <;> exact h.2

/-! ## Programs that keep a relation -/

/-- From related states the program agrees with itself, and the states stay related. -/
def Respects (R E : σ → σ → Prop) (c : EStateM ε σ α) : Prop :=
  ∀ ⦃s t⦄, R s t → agree (fun _ => R) E c c s t

namespace Respects

variable {R : σ → σ → Prop} {c d : EStateM ε σ α}

protected theorem pure (a : α) : Respects R E (pure a : EStateM ε σ α) :=
  fun _ _ h => agree_pure h

protected theorem modify {f : σ → σ} (h : ∀ s t, R s t → R (f s) (f t)) :
    Respects R E (modify f : EStateM ε σ PUnit) := fun s t hst => agree_modify (h s t hst)

protected theorem bind {c : EStateM ε σ β} {f : β → EStateM ε σ α} (hc : Respects R E c)
    (hf : ∀ b, Respects R E (f b)) : Respects R E (c >>= f) :=
  fun _ _ h => agree_bind (hc h) fun b _ _ h => hf b h

protected theorem ite {p : Prop} [Decidable p] (hc : Respects R E c) (hd : Respects R E d) :
    Respects R E (if p then c else d) := fun _ _ h => agree_ite (fun _ => hc h) fun _ => hd h

theorem throw_bind (hE : ∀ {s t}, R s t → E s t) {e : ε} {f : β → EStateM ε σ α} :
    Respects R E (throw e >>= f) := fun _ _ h => agree_throw_bind (hE h)

end Respects

end Program
