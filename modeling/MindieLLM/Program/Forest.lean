import Mathlib.Order.Lattice

/-!
# Forests with keys

A forest is a dictionary whose entries have a value and a forest of their own, in the order in which
they have been put in.

## Main definitions

* `Forest.get`, `Forest.set`: one entry
* `Forest.Holds`: every node has a property, with what is below it
* `Forest.insert`: a new entry in the order of the keys
* `Forest.valueAt`: what stands at the end of a path
* `Forest.Alike`: the same paths lead to values that are related, whatever the order of the entries
* `Forest.Distinct`: no key twice in a dictionary
* `Forest.size`: the number of nodes
* `Forest.argmax`: the first entry of the greatest score
* `Forest.Leads P path f g`: a path leads from one forest to another, by values with a property
* `Forest.greedy`: the path of the greatest scores

## Main results

* `Forest.Holds.get`, `Forest.Holds.set`: the property of one entry
* `Forest.Alike.get`, `Forest.Alike.of_bisim`: forests are alike if their entries are
* `Forest.Alike.size_eq`: forests that are alike have as many nodes
* `Forest.argmax_eq_some`: the entry that is better than all others, in whatever order they stand
* `Forest.greedy_leads`: the path of the greatest scores leads by values with positive scores
-/

namespace Program

inductive Forest (κ ν : Type)
  | nil
  | cons (key : κ) (value : ν) (children rest : Forest κ ν)

namespace Forest

variable {κ ν : Type}

/-- Every node has the property, with what is below it. -/
def Holds (P : ν → Forest κ ν → Prop) : Forest κ ν → Prop
  | nil => True
  | cons _ value children rest => P value children ∧ Holds P children ∧ Holds P rest

theorem Holds.imp {P Q : ν → Forest κ ν → Prop} (h : ∀ v c, P v c → Q v c) {f : Forest κ ν}
    (hf : f.Holds P) : f.Holds Q := by
  induction f with
  | nil => trivial
  | cons k v c r ihc ihr => exact ⟨h v c hf.1, ihc hf.2.1, ihr hf.2.2⟩

variable [DecidableEq κ]

def get (k : κ) : Forest κ ν → Option (ν × Forest κ ν)
  | nil => none
  | cons key value children rest => if key = k then some (value, children) else get k rest

/-- A new key comes last. -/
def set (f : Forest κ ν) (k : κ) (v : ν) (c : Forest κ ν) : Forest κ ν :=
  match f with
  | nil => cons k v c nil
  | cons key value children rest =>
    if key = k then cons key v c rest else cons key value children (rest.set k v c)

variable {f c : Forest κ ν} {k l : κ} {v w : ν} {P : ν → Forest κ ν → Prop}

theorem get_cons_self {r : Forest κ ν} : (cons k v c r).get k = some (v, c) := by
  rw [get, if_pos rfl]

theorem get_cons_of_ne {r : Forest κ ν} (h : k ≠ l) : (cons k v c r).get l = r.get l := by
  rw [get, if_neg h]

@[simp] theorem get_set_self : (f.set k v c).get k = some (v, c) := by
  induction f with
  | nil => exact get_cons_self
  | cons key value children rest _ ih =>
    unfold set
    split
    · next h => rw [h, get_cons_self]
    · next h => rw [get_cons_of_ne h, ih]

theorem get_set_of_ne (h : k ≠ l) : (f.set k v c).get l = f.get l := by
  induction f with
  | nil => exact get_cons_of_ne h
  | cons key value children rest _ ih =>
    unfold set
    split
    · next hkey => rw [get_cons_of_ne (hkey ▸ h), get_cons_of_ne (hkey ▸ h)]
    · by_cases hl : key = l
      · rw [hl, get_cons_self, get_cons_self]
      · rw [get_cons_of_ne hl, get_cons_of_ne hl, ih]

namespace Holds

theorem get (h : f.Holds P) (hget : f.get k = some (v, c)) : P v c ∧ c.Holds P := by
  induction f with
  | nil => cases hget
  | cons key value children rest _ ih =>
    by_cases hkey : key = k
    · rw [hkey, get_cons_self] at hget
      cases hget
      exact ⟨h.1, h.2.1⟩
    · rw [get_cons_of_ne hkey] at hget
      exact ih h.2.2 hget

theorem set (h : f.Holds P) (hv : P v c) (hc : c.Holds P) : (f.set k v c).Holds P := by
  induction f with
  | nil => exact ⟨hv, hc, trivial⟩
  | cons key value children rest _ ih =>
    unfold Forest.set
    split
    · exact ⟨hv, hc, h.2.2⟩
    · exact ⟨h.1, h.2.1, ih h.2.2⟩

end Holds

/-! ## Paths -/

/-- What stands at the end of a path; nothing at the end of none. -/
def valueAt : List κ → Forest κ ν → Option ν
  | [], _ => none
  | k :: path, f =>
    match f.get k with
    | none => none
    | some p => if path = [] then some p.1 else valueAt path p.2

/-- No key stands twice in a dictionary. -/
def Distinct : Forest κ ν → Prop
  | nil => True
  | cons key _ children rest => rest.get key = none ∧ children.Distinct ∧ rest.Distinct

theorem valueAt_of_get_eq_none {path : List κ} (h : f.get k = none) :
    f.valueAt (k :: path) = none := by
  rw [valueAt, h]

theorem valueAt_singleton (h : f.get k = some (v, c)) : f.valueAt [k] = some v := by
  rw [valueAt, h]
  rfl

theorem valueAt_cons_cons {path : List κ} (h : f.get k = some (v, c)) :
    f.valueAt (k :: l :: path) = c.valueAt (l :: path) := by
  rw [valueAt, h]
  rfl

theorem Distinct.get (h : f.Distinct) (hget : f.get k = some (v, c)) : c.Distinct := by
  induction f with
  | nil => cases hget
  | cons key value children rest _ ih =>
    by_cases hkey : key = k
    · rw [hkey, get_cons_self] at hget
      cases hget
      exact h.2.1
    · rw [get_cons_of_ne hkey] at hget
      exact ih h.2.2 hget

theorem Distinct.set (h : f.Distinct) (hc : c.Distinct) : (f.set k v c).Distinct := by
  induction f with
  | nil => exact ⟨rfl, hc, trivial⟩
  | cons key value children rest _ ih =>
    unfold Forest.set
    split
    · exact ⟨h.1, hc, h.2.2⟩
    · next hkey =>
      refine ⟨?_, h.2.1, ih h.2.2⟩
      rw [get_set_of_ne (Ne.symm hkey)]
      exact h.1

/-! ## Entries in the order of their keys -/

section Order

variable [LinearOrder κ]

/-- A new entry, before the first with a greater key. -/
def insert (f : Forest κ ν) (k : κ) (v : ν) (c : Forest κ ν) : Forest κ ν :=
  match f with
  | nil => cons k v c nil
  | cons key value children rest =>
    if k < key then cons k v c (cons key value children rest)
    else cons key value children (rest.insert k v c)

end Order

section

variable {κ ν : Type} [LinearOrder κ] {f c : Forest κ ν} {k l : κ} {v : ν}

theorem get_insert_self (h : f.get k = none) : (f.insert k v c).get k = some (v, c) := by
  induction f with
  | nil => exact get_cons_self
  | cons key value children rest _ ih =>
    have hkey : key ≠ k := by
      rintro rfl
      rw [get_cons_self] at h
      cases h
    unfold insert
    split
    · exact get_cons_self
    · rw [get_cons_of_ne hkey] at h ⊢
      exact ih h

theorem get_insert_of_ne (h : k ≠ l) : (f.insert k v c).get l = f.get l := by
  induction f with
  | nil => exact get_cons_of_ne h
  | cons key value children rest _ ih =>
    unfold insert
    split
    · exact get_cons_of_ne h
    · by_cases hl : key = l
      · rw [hl, get_cons_self, get_cons_self]
      · rw [get_cons_of_ne hl, get_cons_of_ne hl, ih]

theorem Holds.insert {P : ν → Forest κ ν → Prop} (h : f.Holds P) (hv : P v c) (hc : c.Holds P) :
    (f.insert k v c).Holds P := by
  induction f with
  | nil => exact ⟨hv, hc, trivial⟩
  | cons key value children rest _ ih =>
    unfold Forest.insert
    split
    · exact ⟨hv, hc, h⟩
    · exact ⟨h.1, h.2.1, ih h.2.2⟩

theorem Distinct.insert (h : f.Distinct) (hnew : f.get k = none) (hc : c.Distinct) :
    (f.insert k v c).Distinct := by
  induction f with
  | nil => exact ⟨rfl, hc, trivial⟩
  | cons key value children rest _ ih =>
    have hkey : key ≠ k := by
      rintro rfl
      rw [get_cons_self] at hnew
      cases hnew
    unfold Forest.insert
    split
    · exact ⟨hnew, hc, h⟩
    · rw [get_cons_of_ne hkey] at hnew
      refine ⟨?_, h.2.1, ih h.2.2 hnew⟩
      rw [get_insert_of_ne (Ne.symm hkey)]
      exact h.1

end

/-! ## Forests that are alike -/

section Alike

variable {μ : Type} {R : ν → μ → Prop} {g d : Forest κ μ} {u : μ}

/-- The same paths lead to values, and these are related. -/
def Alike (R : ν → μ → Prop) (f : Forest κ ν) (g : Forest κ μ) : Prop :=
  ∀ path, Option.Rel R (f.valueAt path) (g.valueAt path)

theorem Alike.get_eq_none_iff (h : Alike R f g) : f.get k = none ↔ g.get k = none := by
  have hk := h [k]
  cases hf : f.get k with
  | none =>
    cases hg : g.get k with
    | none => exact iff_of_true rfl rfl
    | some q =>
      rw [valueAt_of_get_eq_none hf, valueAt_singleton hg] at hk
      cases hk
  | some p =>
    cases hg : g.get k with
    | none =>
      rw [valueAt_singleton hf, valueAt_of_get_eq_none hg] at hk
      cases hk
    | some q => exact iff_of_false nofun nofun

theorem Alike.of_gets (hf : f.get k = some (v, c)) (hg : g.get k = some (u, d))
    (h : Alike R f g) : R v u ∧ Alike R c d := by
  have hk := h [k]
  rw [valueAt_singleton hf, valueAt_singleton hg] at hk
  refine ⟨Option.rel_some_some.mp hk, fun path => ?_⟩
  cases path with
  | nil => exact .none
  | cons l path =>
    have hpath := h (k :: l :: path)
    rwa [valueAt_cons_cons hf, valueAt_cons_cons hg] at hpath

/-- An entry of the one is an entry of the other. -/
theorem Alike.get (h : Alike R f g) (hf : f.get k = some (v, c)) :
    ∃ u d, g.get k = some (u, d) ∧ R v u ∧ Alike R c d := by
  cases hg : g.get k with
  | none =>
    rw [h.get_eq_none_iff.mpr hg] at hf
    cases hf
  | some q => exact ⟨q.1, q.2, rfl, h.of_gets hf hg⟩

/-- **Coinduction**: forests are alike if a relation holds of them that leads from entries to
entries. -/
theorem Alike.of_bisim {S : Forest κ ν → Forest κ μ → Prop}
    (hS : ∀ f g, S f g → ∀ k, (f.get k = none ∧ g.get k = none) ∨
      ∃ v c u d, f.get k = some (v, c) ∧ g.get k = some (u, d) ∧ R v u ∧ S c d)
    (h : S f g) : Alike R f g := by
  intro path
  induction path generalizing f g with
  | nil => exact .none
  | cons k path ih =>
    rcases hS f g h k with ⟨hf, hg⟩ | ⟨v, c, u, d, hf, hg, hvu, hcd⟩
    · rw [valueAt_of_get_eq_none hf, valueAt_of_get_eq_none hg]
      exact .none
    · cases path with
      | nil =>
        rw [valueAt_singleton hf, valueAt_singleton hg]
        exact .some hvu
      | cons l path =>
        rw [valueAt_cons_cons hf, valueAt_cons_cons hg]
        exact ih hcd

/-- The entries of two forests that are alike. -/
theorem Alike.entries (h : Alike R f g) (k : κ) : (f.get k = none ∧ g.get k = none) ∨
    ∃ v c u d, f.get k = some (v, c) ∧ g.get k = some (u, d) ∧ R v u ∧ Alike R c d := by
  cases hf : f.get k with
  | none => exact .inl ⟨rfl, h.get_eq_none_iff.mp hf⟩
  | some p =>
    obtain ⟨u, d, hg, hrel⟩ := h.get hf
    exact .inr ⟨p.1, p.2, u, d, rfl, hg, hrel⟩

/-- Forests are alike if their entries are. -/
theorem Alike.of_get (h : ∀ k, (f.get k = none ∧ g.get k = none) ∨
    ∃ v c u d, f.get k = some (v, c) ∧ g.get k = some (u, d) ∧ R v u ∧ Alike R c d) :
    Alike R f g := by
  refine .of_bisim (S := fun f' g' => (f' = f ∧ g' = g) ∨ Alike R f' g') ?_ (.inl ⟨rfl, rfl⟩)
  rintro f' g' (⟨rfl, rfl⟩ | halike) k
  · rcases h k with hnone | ⟨v, c, u, d, hf, hg, hvu, hcd⟩
    · exact .inl hnone
    · exact .inr ⟨v, c, u, d, hf, hg, hvu, .inr hcd⟩
  · rcases halike.entries k with hnone | ⟨v, c, u, d, hf, hg, hvu, hcd⟩
    · exact .inl hnone
    · exact .inr ⟨v, c, u, d, hf, hg, hvu, .inr hcd⟩

theorem Alike.nil : Alike R (nil : Forest κ ν) (nil : Forest κ μ) :=
  .of_get fun _ => .inl ⟨rfl, rfl⟩

/-- An entry that is put into both. -/
theorem Alike.put {f' : Forest κ ν} {g' : Forest κ μ} (h : Alike R f g) (hvu : R v u)
    (hcd : Alike R c d) (hf : f'.get k = some (v, c)) (hg : g'.get k = some (u, d))
    (hf' : ∀ l, k ≠ l → f'.get l = f.get l) (hg' : ∀ l, k ≠ l → g'.get l = g.get l) :
    Alike R f' g' := by
  refine .of_get fun l => ?_
  by_cases hl : k = l
  · exact .inr ⟨v, c, u, d, hl ▸ hf, hl ▸ hg, hvu, hcd⟩
  · rw [hf' l hl, hg' l hl]
    exact h.entries l

end Alike

/-! ## The number of nodes -/

/-- The number of nodes. -/
def size {κ ν : Type} : Forest κ ν → Nat
  | nil => 0
  | cons _ _ children rest => 1 + children.size + rest.size

theorem size_set_of_get_eq_none (h : f.get k = none) :
    (f.set k v c).size = f.size + (1 + c.size) := by
  induction f with
  | nil => exact Nat.add_comm _ _
  | cons key value children rest _ ih =>
    have hkey : key ≠ k := by
      rintro rfl
      rw [get_cons_self] at h
      cases h
    rw [get_cons_of_ne hkey] at h
    have hrest := ih h
    rw [set, if_neg hkey, size, size]
    omega

theorem size_set_of_get {d : Forest κ ν} (h : f.get k = some (w, d)) :
    (f.set k v c).size + d.size = f.size + c.size := by
  induction f with
  | nil => cases h
  | cons key value children rest _ ih =>
    unfold set
    split
    · next hkey =>
      rw [hkey, get_cons_self] at h
      cases h
      rw [size, size]
      omega
    · next hkey =>
      rw [get_cons_of_ne hkey] at h
      have hrest := ih h
      rw [size, size]
      omega

/-- Without the entry of a key. -/
def erase (k : κ) : Forest κ ν → Forest κ ν
  | nil => nil
  | cons key value children rest =>
    if key = k then rest else cons key value children (rest.erase k)

theorem get_erase_of_ne (h : k ≠ l) : (f.erase k).get l = f.get l := by
  induction f with
  | nil => rfl
  | cons key value children rest _ ih =>
    unfold erase
    split
    · next hkey => rw [get_cons_of_ne (hkey ▸ h)]
    · by_cases hl : key = l
      · rw [hl, get_cons_self, get_cons_self]
      · rw [get_cons_of_ne hl, get_cons_of_ne hl, ih]

theorem get_erase_self (h : f.Distinct) : (f.erase k).get k = none := by
  induction f with
  | nil => rfl
  | cons key value children rest _ ih =>
    unfold erase
    split
    · next hkey => exact hkey ▸ h.1
    · next hkey =>
      rw [get_cons_of_ne hkey]
      exact ih h.2.2

theorem Distinct.erase (h : f.Distinct) : (f.erase k).Distinct := by
  induction f with
  | nil => trivial
  | cons key value children rest _ ih =>
    unfold Forest.erase
    split
    · exact h.2.2
    · next hkey =>
      refine ⟨?_, h.2.1, ih h.2.2⟩
      rw [get_erase_of_ne (Ne.symm hkey)]
      exact h.1

theorem size_eq_of_get (hget : f.get k = some (v, c)) :
    f.size = 1 + c.size + (f.erase k).size := by
  induction f with
  | nil => cases hget
  | cons key value children rest _ ih =>
    unfold erase
    split
    · next hkey =>
      rw [hkey, get_cons_self] at hget
      cases hget
      rfl
    · next hkey =>
      rw [get_cons_of_ne hkey] at hget
      rw [size, size, ih hget]
      omega

theorem eq_nil_of_get (h : ∀ k, f.get k = none) : f = nil := by
  cases f with
  | nil => rfl
  | cons k v c r =>
    have hk := h k
    rw [get_cons_self] at hk
    cases hk

theorem Alike.eq_nil_iff {μ : Type} {R : ν → μ → Prop} {g : Forest κ μ} (h : Alike R f g) :
    f = .nil ↔ g = .nil := by
  constructor
  · rintro rfl
    exact eq_nil_of_get fun k => h.get_eq_none_iff.mp rfl
  · rintro rfl
    exact eq_nil_of_get fun k => h.get_eq_none_iff.mpr rfl

/-- Forests that are alike have as many nodes. -/
theorem Alike.size_eq {μ : Type} {R : ν → μ → Prop} {g : Forest κ μ} (h : Alike R f g)
    (hf : f.Distinct) (hg : g.Distinct) : f.size = g.size := by
  induction f generalizing g with
  | nil => rw [h.eq_nil_iff.mp rfl, size, size]
  | cons k v c r ihc ihr =>
    obtain ⟨u, d, hget, -, hcd⟩ := h.get get_cons_self
    have hrest : Alike R r (g.erase k) := by
      refine .of_get fun l => ?_
      by_cases hl : k = l
      · exact .inl ⟨hl ▸ hf.1, hl ▸ get_erase_self hg⟩
      · rw [get_erase_of_ne hl]
        cases hr : r.get l with
        | none =>
          refine .inl ⟨rfl, h.get_eq_none_iff.mp ?_⟩
          rw [get_cons_of_ne hl, hr]
        | some p =>
          obtain ⟨w, e, hg', hrel⟩ := h.get ((get_cons_of_ne hl).trans hr)
          exact .inr ⟨p.1, p.2, w, e, rfl, hg', hrel⟩
    rw [size_eq_of_get hget, size, ihc hcd hf.2.1 (hg.get hget), ihr hrest hf.2.2 hg.erase]

/-! ## The entry of the greatest score -/

section Argmax

variable {α : Type} [LinearOrder α] {score : ν → α} {best : Option (κ × Forest κ ν)} {greatest : α}

/-- The first entry of the greatest score, among those that are given and the best so far. -/
def argmax {κ ν α : Type} [LinearOrder α] (score : ν → α) :
    Forest κ ν → Option (κ × Forest κ ν) → α → Option (κ × Forest κ ν)
  | nil, best, _ => best
  | cons key value children rest, best, greatest =>
    if greatest < score value then argmax score rest (some (key, children)) (score value)
    else argmax score rest best greatest

/-- No entry is better. -/
theorem argmax_eq_best (hf : f.Distinct)
    (h : ∀ l w d, f.get l = some (w, d) → score w ≤ greatest) :
    argmax score f best greatest = best := by
  induction f with
  | nil => rfl
  | cons key value children rest _ ih =>
    rw [argmax, if_neg (not_lt.mpr (h key value children get_cons_self))]
    refine ih hf.2.2 fun l w d hl => h l w d ?_
    rwa [get_cons_of_ne]
    rintro rfl
    rw [hf.1] at hl
    cases hl

/-- An entry is better than all others. -/
theorem argmax_eq_some (hf : f.Distinct) (hget : f.get k = some (v, c))
    (hgreatest : greatest < score v)
    (h : ∀ l w d, k ≠ l → f.get l = some (w, d) → score w < score v) :
    argmax score f best greatest = some (k, c) := by
  induction f generalizing best greatest with
  | nil => cases hget
  | cons key value children rest _ ih =>
    have hrest : ∀ l w d, rest.get l = some (w, d) →
        key ≠ l ∧ (cons key value children rest).get l = some (w, d) := by
      intro l w d hl
      have hne : key ≠ l := by
        rintro rfl
        rw [hf.1] at hl
        cases hl
      exact ⟨hne, (get_cons_of_ne hne).trans hl⟩
    unfold argmax
    by_cases hkey : key = k
    · subst hkey
      rw [get_cons_self] at hget
      cases hget
      rw [if_pos hgreatest]
      refine argmax_eq_best hf.2.2 fun l w d hl => ?_
      exact le_of_lt (h l w d (hrest l w d hl).1 (hrest l w d hl).2)
    · have hlt := h key value children (Ne.symm hkey) get_cons_self
      rw [get_cons_of_ne hkey] at hget
      have hothers : ∀ l w d, k ≠ l → rest.get l = some (w, d) → score w < score v :=
        fun l w d hl hlget => h l w d hl (hrest l w d hlget).2
      split
      · exact ih hf.2.2 hget hlt hothers
      · exact ih hf.2.2 hget hgreatest hothers

/-- The best entry is one of those given, and better than what there was before. -/
theorem argmax_spec {p : κ × Forest κ ν} (hf : f.Distinct)
    (h : argmax score f best greatest = some p) :
    best = some p ∨ ∃ w, f.get p.1 = some (w, p.2) ∧ greatest < score w := by
  induction f generalizing best greatest with
  | nil => exact .inl h
  | cons key value children rest _ ih =>
    have hrest : ∀ w, rest.get p.1 = some (w, p.2) →
        (cons key value children rest).get p.1 = some (w, p.2) := by
      intro w hw
      rw [get_cons_of_ne, hw]
      rintro rfl
      rw [hf.1] at hw
      cases hw
    unfold argmax at h
    split at h
    · next hlt =>
      rcases ih hf.2.2 h with hbest | ⟨w, hget, hgreater⟩
      · cases hbest
        exact .inr ⟨value, get_cons_self, hlt⟩
      · exact .inr ⟨w, hrest w hget, hlt.trans hgreater⟩
    · rcases ih hf.2.2 h with hbest | ⟨w, hget, hgreater⟩
      · exact .inl hbest
      · exact .inr ⟨w, hrest w hget, hgreater⟩

/-- Nothing is better than what there was before, or something is found. -/
theorem argmax_eq_none_iff (hf : f.Distinct) : argmax score f none greatest = none ↔
    ∀ l w d, f.get l = some (w, d) → score w ≤ greatest := by
  constructor
  · intro h
    by_contra hbetter
    push Not at hbetter
    obtain ⟨l, w, d, hget, hlt⟩ := hbetter
    have hsome : ∀ (g : Forest κ ν) best greatest,
        (argmax score g (some best) greatest).isSome := by
      intro g
      induction g with
      | nil => exact fun _ _ => rfl
      | cons key value children rest _ ih =>
        intro best greatest
        unfold argmax
        split
        · exact ih _ _
        · exact ih _ _
    induction f with
    | nil => cases hget
    | cons key value children rest _ ih =>
      unfold argmax at h
      split at h
      · have hfound := hsome rest (key, children) (score value)
        rw [h] at hfound
        cases hfound
      · next hle =>
        refine ih hf.2.2 h ?_
        rwa [get_cons_of_ne] at hget
        rintro rfl
        rw [get_cons_self] at hget
        cases hget
        exact hle hlt
  · exact fun h => argmax_eq_best hf h

end Argmax

/-! ## Paths by values with a property -/

/-- The path leads from one forest to the other, by values with the property. -/
def Leads (P : ν → Prop) : List κ → Forest κ ν → Forest κ ν → Prop
  | [], f, g => f = g
  | k :: path, f, g => ∃ v c, f.get k = some (v, c) ∧ P v ∧ Leads P path c g

/-- The path of the greatest positive scores. -/
def greedy {α : Type} [LinearOrder α] [Zero α] (score : ν → α) : Nat → Forest κ ν → List κ
  | 0, _ => []
  | n + 1, f =>
    match f.argmax score none 0 with
    | none => []
    | some best => best.1 :: greedy score n best.2

section Leads

variable {P Q : ν → Prop} {g h : Forest κ ν} {path path' : List κ} {n : Nat}

theorem leads_append_iff : Leads P (path ++ path') f h ↔
    ∃ g, Leads P path f g ∧ Leads P path' g h := by
  induction path generalizing f with
  | nil => exact ⟨fun hl => ⟨f, rfl, hl⟩, fun ⟨g, hg, hl⟩ => hg ▸ hl⟩
  | cons k path ih =>
    constructor
    · rintro ⟨v, c, hget, hv, hl⟩
      obtain ⟨g, hg, hl'⟩ := ih.mp hl
      exact ⟨g, ⟨v, c, hget, hv, hg⟩, hl'⟩
    · rintro ⟨g, ⟨v, c, hget, hv, hg⟩, hl⟩
      exact ⟨v, c, hget, hv, ih.mpr ⟨g, hg, hl⟩⟩

theorem Leads.unique (hl : Leads P path f g) (hl' : Leads P path f h) : g = h := by
  induction path generalizing f with
  | nil => exact hl.symm.trans hl'
  | cons k path ih =>
    obtain ⟨v, c, hget, -, hrest⟩ := hl
    obtain ⟨v', c', hget', -, hrest'⟩ := hl'
    cases hget.symm.trans hget'
    exact ih hrest hrest'

theorem Leads.distinct (hl : Leads P path f g) (hf : f.Distinct) : g.Distinct := by
  induction path generalizing f with
  | nil => exact hl ▸ hf
  | cons k path ih =>
    obtain ⟨v, c, hget, -, hrest⟩ := hl
    exact ih hrest (hf.get hget)

variable {α : Type} [LinearOrder α] [Zero α] {score : ν → α}

omit [DecidableEq κ] in
theorem length_greedy_le (score : ν → α) (n : Nat) (f : Forest κ ν) :
    (greedy score n f).length ≤ n := by
  induction n generalizing f with
  | zero => exact le_rfl
  | succ n ih =>
    unfold greedy
    split
    · exact Nat.zero_le _
    · exact Nat.succ_le_succ (ih _)

/-- **The path of the greatest scores leads by values with positive scores.** -/
theorem greedy_leads (hf : f.Distinct) (h : f.Holds fun v _ => 0 < score v → P v) (n : Nat) :
    ∃ g, Leads P (greedy score n f) f g := by
  induction n generalizing f with
  | zero => exact ⟨f, rfl⟩
  | succ n ih =>
    unfold greedy
    cases hbest : f.argmax score none 0 with
    | none => exact ⟨f, rfl⟩
    | some best =>
      rcases argmax_spec hf hbest with hnone | ⟨v, hget, hpos⟩
      · cases hnone
      · obtain ⟨hv, hc⟩ := h.get hget
        obtain ⟨g, hg⟩ := ih (hf.get hget) hc
        exact ⟨g, v, best.2, hget, hv hpos, hg⟩

theorem greedy_eq_nil_iff (hf : f.Distinct) : greedy score n f = [] ↔
    n = 0 ∨ ∀ l w d, f.get l = some (w, d) → score w ≤ 0 := by
  cases n with
  | zero => exact iff_of_true rfl (.inl rfl)
  | succ n =>
    rw [← argmax_eq_none_iff hf]
    unfold greedy
    cases f.argmax score none 0 with
    | none => exact iff_of_true rfl (.inr rfl)
    | some best => exact iff_of_false (List.cons_ne_nil _ _) nofun

end Leads

end Forest

end Program
