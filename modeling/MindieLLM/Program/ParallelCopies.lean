import Mathlib.Logic.Function.Basic

/-!
# Copies one after the other

The entries of a map are copied from key to key, one after the other. Each copy means to give its
target the entry that its parent had at first: it copies from the parent itself, or from a key with
the same parent that was a target before. A copy from a key without an entry does nothing.

## Main definitions

* `copyKey`, `copyAll`: one copy and all
* `Planned`: each copy is from the parent of its target or from a sibling served before

## Main results

* `copyAll_of_planned`: the targets get what their parents had at first
* `copyAll_eq_self`: copies between equal entries do nothing
-/

namespace Program

variable {κ α : Type} [DecidableEq κ] {m : κ → Option α} {parent : κ → κ}
  {ops : List (κ × κ)} {served : List κ} {k : κ}

def copyKey (m : κ → Option α) (source target : κ) : κ → Option α :=
  if (m source).isNone ∨ source = target then m else Function.update m target (m source)

def copyAll (ops : List (κ × κ)) (m : κ → Option α) : κ → Option α :=
  ops.foldl (fun m op => copyKey m op.1 op.2) m

@[simp] theorem copyAll_nil : copyAll [] m = m := rfl

@[simp] theorem copyAll_cons (op : κ × κ) :
    copyAll (op :: ops) m = copyAll ops (copyKey m op.1 op.2) := rfl

theorem copyKey_of_ne {source target : κ} (h : k ≠ target) :
    copyKey m source target k = m k := by
  unfold copyKey
  split
  · rfl
  · exact Function.update_of_ne h _ _

theorem copyKey_self (source target : κ) :
    copyKey m source target target = (m source).or (m target) := by
  unfold copyKey
  split
  · next h =>
    obtain h | rfl := h
    · rw [Option.isNone_iff_eq_none.mp h, Option.none_or]
    · rw [Option.or_self]
  · next h =>
    cases hv : m source with
    | none => simp [hv] at h
    | some v => rw [Function.update_self, Option.some_or]

theorem copyKey_eq_self {source target : κ} (h : m source = none ∨ m source = m target) :
    copyKey m source target = m := by
  funext k
  by_cases hk : k = target
  · subst hk
    obtain h | h := h
    · rw [copyKey_self, h, Option.none_or]
    · rw [copyKey_self, h, Option.or_self]
  · exact copyKey_of_ne hk

theorem copyAll_eq_self (h : ∀ op ∈ ops, m op.1 = none ∨ m op.1 = m op.2) : copyAll ops m = m := by
  induction ops with
  | nil => rfl
  | cons op ops ih =>
    rw [copyAll_cons, copyKey_eq_self (h op List.mem_cons_self)]
    exact ih fun op hop => h op (List.mem_cons_of_mem _ hop)

theorem copyAll_of_not_mem (h : k ∉ ops.map Prod.snd) : copyAll ops m k = m k := by
  induction ops generalizing m with
  | nil => rfl
  | cons op ops ih =>
    rw [List.map_cons, List.mem_cons, not_or] at h
    rw [copyAll_cons, ih h.2, copyKey_of_ne h.1]

/-- Copies to the keys not yet served, each from the parent or from a sibling that is served. -/
def Planned (parent : κ → κ) : List κ → List (κ × κ) → Prop
  | _, [] => True
  | served, (source, target) :: ops =>
    (source = parent target ∨ source ∈ served ∧ parent source = parent target) ∧
      Planned parent (target :: served) ops

omit [DecidableEq κ] in
/-- Copies from one key to siblings of it. -/
theorem planned_siblings {first : κ} {siblings : List κ} (hfirst : first ∈ served)
    (hsiblings : ∀ k ∈ siblings, parent first = parent k)
    (hrest : ∀ served', served ⊆ served' → Planned parent served' ops) :
    Planned parent served (siblings.map (fun k => (first, k)) ++ ops) := by
  induction siblings generalizing served with
  | nil => exact hrest served fun _ h => h
  | cons k siblings ih =>
    refine ⟨.inr ⟨hfirst, hsiblings k List.mem_cons_self⟩, ?_⟩
    refine ih (List.mem_cons_of_mem _ hfirst)
      (fun k hk => hsiblings k (List.mem_cons_of_mem _ hk)) ?_
    exact fun served' hsub => hrest served' fun _ h => hsub (List.mem_cons_of_mem _ h)

/-- **The targets get what their parents had at first**, if a parent that is a target itself has the
same entry as its own parent, and no target has an entry that its parent lacks. -/
theorem copyAll_of_planned (m₀ : κ → Option α) (targets : List κ)
    (hplan : Planned parent served ops) (hops : ∀ op ∈ ops, op.2 ∈ targets)
    (hparent : ∀ k ∈ targets, parent k ∈ targets → m₀ (parent (parent k)) = m₀ (parent k))
    (hentry : ∀ k ∈ targets, m₀ (parent k) = none → m₀ k = none)
    (hserved : ∀ k ∈ served, k ∈ targets)
    (hm : ∀ k, m k = if k ∈ served then m₀ (parent k) else m₀ k) (k : κ) :
    copyAll ops m k =
      if k ∈ served ∨ k ∈ ops.map Prod.snd then m₀ (parent k) else m₀ k := by
  induction ops generalizing served m with
  | nil => simpa using hm k
  | cons op ops ih =>
    obtain ⟨source, target⟩ := op
    obtain ⟨hsource, hrest⟩ := hplan
    have htarget : target ∈ targets := hops _ List.mem_cons_self
    -- the source has the first entry of the parent
    have hvalue : m source = m₀ (parent target) := by
      obtain rfl | ⟨hmem, hsame⟩ := hsource
      · rw [hm]
        split
        · next hmem => exact hparent target htarget (hserved _ hmem)
        · rfl
      · rw [hm, if_pos hmem, hsame]
    have hstep : ∀ k, copyKey m source target k =
        if k ∈ target :: served then m₀ (parent k) else m₀ k := by
      intro k
      by_cases hk : k = target
      · subst hk
        rw [copyKey_self, hvalue, if_pos List.mem_cons_self, hm]
        cases hnone : m₀ (parent k) with
        | some v => rw [Option.some_or]
        | none =>
          rw [Option.none_or]
          split
          · rfl
          · exact hentry k htarget hnone
      · rw [copyKey_of_ne hk, hm]
        simp [hk]
    have hserved' : ∀ k ∈ target :: served, k ∈ targets := by
      intro k hk
      obtain rfl | hk := List.mem_cons.mp hk
      · exact htarget
      · exact hserved k hk
    rw [copyAll_cons, ih hrest (fun op hop => hops op (List.mem_cons_of_mem _ hop)) hserved' hstep]
    refine if_congr ?_ rfl rfl
    simp only [List.mem_cons, List.map_cons]
    rw [or_comm (a := k = target), or_assoc]

end Program
