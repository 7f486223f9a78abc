import MindieLLM.Program.Wp

/-!
# Programs that stay within a relation

What a program leaves alone can be said by a relation between the state before and the state after
it. A reflexive and transitive relation that the pieces of a program respect is respected by the
whole program, so a frame condition is proved piece by piece, without a look at what the pieces
compute.

## Main definitions

* `Within R c`: whenever `c` returns, `R` relates the state before to the state after
* `Maintains I c`: `c` keeps `I`, also when it throws

## Main results

* `Within.bind`, `Within.ite`, `Within.forM`, `Within.mapM`: composed programs
* `Within.zoom`: a program on a component
* `Maintains.bind`, `Maintains.ite`, `Maintains.zoom`: the same for a property
-/

namespace Program

variable {ε σ τ α β : Type}

/-- Whenever the program returns, the relation holds between the states before and after. -/
def Within (R : σ → σ → Prop) (c : EStateM ε σ α) : Prop :=
  ∀ s, wp c (fun _ s' => R s s') (fun _ _ => True) s

namespace Within

variable {R : σ → σ → Prop} {c d : EStateM ε σ α}

protected theorem throw (e : ε) : Within R (throw e : EStateM ε σ α) := fun _ => trivial

protected theorem modify {f : σ → σ} (h : ∀ s, R s (f s)) :
    Within R (modify f : EStateM ε σ PUnit) := h

protected theorem ite {p : Prop} [Decidable p] (hc : Within R c) (hd : Within R d) :
    Within R (if p then c else d) := by
  split_ifs
  · exact hc
  · exact hd

/-- A component is changed within a relation, so the whole is. -/
protected theorem zoom {l : Lens σ τ} {S : τ → τ → Prop} {c : EStateM ε τ α} (h : Within S c)
    (hput : ∀ s t, S (l.get s) t → R s (l.put t s)) : Within R (zoom l c) := by
  intro s
  rw [wp_zoom]
  exact wp_mono (h (l.get s)) (fun _ t ht => hput s t ht) fun _ _ _ => trivial

protected theorem pure [Std.Refl R] (a : α) : Within R (pure a : EStateM ε σ α) :=
  fun s => Std.Refl.refl s

protected theorem get [Std.Refl R] : Within R (get : EStateM ε σ σ) := fun s => Std.Refl.refl s

protected theorem bind [IsTrans σ R] {c : EStateM ε σ β} {f : β → EStateM ε σ α} (hc : Within R c)
    (hf : ∀ b, Within R (f b)) : Within R (c >>= f) := by
  intro s
  rw [wp_bind]
  refine wp_mono (hc s) (fun b s₁ h₁ => ?_) fun _ _ _ => trivial
  exact wp_mono (hf b s₁) (fun _ s₂ h₂ => IsTrans.trans _ _ _ h₁ h₂) fun _ _ _ => trivial

protected theorem forM [Std.Refl R] [IsTrans σ R] {f : β → EStateM ε σ PUnit} (xs : List β)
    (hf : ∀ x, Within R (f x)) : Within R (forM xs f) := by
  induction xs with
  | nil => exact Within.pure ()
  | cons x rest ih => exact Within.bind (hf x) fun _ => ih

protected theorem mapM [Std.Refl R] [IsTrans σ R] {f : β → EStateM ε σ α} (xs : List β)
    (hf : ∀ x, Within R (f x)) : Within R (xs.mapM f) := by
  induction xs with
  | nil => exact Within.pure []
  | cons x rest ih =>
    rw [List.mapM_cons]
    exact Within.bind (hf x) fun _ => Within.bind ih fun _ => Within.pure _

protected theorem allM [Std.Refl R] [IsTrans σ R] {f : β → EStateM ε σ Bool} (xs : List β)
    (hf : ∀ x, Within R (f x)) : Within R (xs.allM f) := by
  induction xs with
  | nil => exact Within.pure true
  | cons x rest ih =>
    refine Within.bind (hf x) fun b => ?_
    cases b with
    | false => exact Within.pure false
    | true => exact ih

end Within

/-! ## Programs that keep a property -/

/-- Whether the program returns or throws, the property is kept. -/
def Maintains (I : σ → Prop) (c : EStateM ε σ α) : Prop :=
  ∀ s, I s → wp c (fun _ s' => I s') (fun _ s' => I s') s

namespace Maintains

variable {I : σ → Prop} {c d : EStateM ε σ α}

protected theorem pure (a : α) : Maintains I (pure a : EStateM ε σ α) := fun _ h => h

protected theorem throw (e : ε) : Maintains I (throw e : EStateM ε σ α) := fun _ h => h

protected theorem get : Maintains I (get : EStateM ε σ σ) := fun _ h => h

protected theorem modify {f : σ → σ} (h : ∀ s, I s → I (f s)) :
    Maintains I (modify f : EStateM ε σ PUnit) := h

protected theorem ite {p : Prop} [Decidable p] (hc : Maintains I c) (hd : Maintains I d) :
    Maintains I (if p then c else d) := by
  split_ifs
  · exact hc
  · exact hd

protected theorem bind {c : EStateM ε σ β} {f : β → EStateM ε σ α} (hc : Maintains I c)
    (hf : ∀ b, Maintains I (f b)) : Maintains I (c >>= f) := by
  intro s h
  rw [wp_bind]
  exact wp_mono (hc s h) (fun b s₁ h₁ => hf b s₁ h₁) fun _ _ h => h

protected theorem mapM {f : β → EStateM ε σ α} (xs : List β) (hf : ∀ x, Maintains I (f x)) :
    Maintains I (xs.mapM f) := fun _ h => wp_mapM f xs h fun x s hs => hf x s hs

/-- The component that the program is on does not matter to the property. -/
protected theorem zoom {l : Lens σ τ} {c : EStateM ε τ α} (hput : ∀ s t, I s → I (l.put t s)) :
    Maintains I (zoom l c) := by
  intro s h
  unfold wp Program.zoom
  cases c (l.get s) with
  | ok a t => exact hput s t h
  | error e t => exact hput s t h

end Maintains

end Program
