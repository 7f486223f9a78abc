import MindieLLM.Program.Counter

/-!
# Arithmetic that makes demands

An unsigned subtraction is meant to stay above zero, and the bounds of a clamp are meant to be in
order. Where they are not, the machine goes on with some value. A computation is written with the
demands of its operations beside its value, so that they can be asked about.

## Main definitions

* `Demand`, `Demand.Met`: what an operation takes for granted
* `Demanding α`: a value, and the demands on the way to it
* `addU64`, `subU64`, `clamp`: the operations

## Main results

* `Demanding.met_bind`: the demands of one computation after another
-/

namespace Program

/-- The operands of a subtraction, or the bounds of a clamp. -/
inductive Demand
  | sub (a b : ℕ)
  | clamp (lo hi : ℕ)
  deriving DecidableEq, Repr

def Demand.Met : Demand → Prop
  | .sub a b => b ≤ a
  | .clamp lo hi => lo ≤ hi

instance (d : Demand) : Decidable d.Met :=
  match d with
  | .sub a b => inferInstanceAs (Decidable (b ≤ a))
  | .clamp lo hi => inferInstanceAs (Decidable (lo ≤ hi))

structure Demanding (α : Type) where
  value : α
  demands : List Demand := []

namespace Demanding

variable {α β : Type}

instance : Monad Demanding where
  pure a := { value := a }
  bind c f :=
    { value := (f c.value).value
      demands := c.demands ++ (f c.value).demands }

/-- All demands are met. -/
def Met (c : Demanding α) : Prop := ∀ d ∈ c.demands, d.Met

@[simp] theorem value_pure (a : α) : (pure a : Demanding α).value = a := rfl

@[simp] theorem value_bind (c : Demanding α) (f : α → Demanding β) :
    (c >>= f).value = (f c.value).value := rfl

@[simp] theorem met_pure (a : α) : (pure a : Demanding α).Met := nofun

@[simp] theorem met_bind (c : Demanding α) (f : α → Demanding β) :
    (c >>= f).Met ↔ c.Met ∧ (f c.value).Met := List.forall_mem_append

end Demanding

/-- `a + b` of 64 bits. -/
def addU64 (a b : ℕ) : ℕ := wrapAdd (2 ^ 64) a b

/-- `a * b` of 64 bits. -/
def mulU64 (a b : ℕ) : ℕ := wrapMul (2 ^ 64) a b

/-- `a - b` of 64 bits. -/
def subU64 (a b : ℕ) : Demanding ℕ where
  value := wrapSub (2 ^ 64) a b
  demands := [.sub a b]

/-- With bounds out of order it is the upper one. -/
def clamp (v lo hi : ℕ) : Demanding ℕ where
  value := min (max v lo) hi
  demands := [.clamp lo hi]

variable {a b v lo hi : ℕ}

@[simp] theorem met_subU64 : (subU64 a b).Met ↔ b ≤ a := List.forall_mem_singleton

@[simp] theorem met_clamp : (clamp v lo hi).Met ↔ lo ≤ hi := List.forall_mem_singleton

@[simp] theorem value_clamp : (clamp v lo hi).value = min (max v lo) hi := by
  unfold clamp
  rfl

theorem addU64_of_lt (h : a + b < 2 ^ 64) : addU64 a b = a + b := wrapAdd_of_lt h

theorem mulU64_of_lt (h : a * b < 2 ^ 64) : mulU64 a b = a * b := wrapMul_of_lt h

theorem value_subU64 (h : b ≤ a) (ha : a < 2 ^ 64) : (subU64 a b).value = a - b :=
  wrapSub_of_le h ha

end Program
