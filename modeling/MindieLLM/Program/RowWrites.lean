import Mathlib.Data.List.Induction

/-!
# Writes to rows

An array operation on several rows writes each of them, in the order of a list. The row of an index
then depends only on what the list has for that index: an index that the list has once is written as
if it were alone.

## Main definitions

* `writeRows set l s`: the rows after the writes in the list
* `scatter set is vs s`: an assignment of values to rows
* `Alone l i x`: the list has the index once, with `x`
* `copyEach l s`: rows are copied to others, one pair after the other

## Main results

* `writeRows_apply`: a row after the writes
* `writeRows_alone`, `writeRows_of_notMem`: a row that is written once, or not at all
* `copyEach_iff`: copies one after the other are those of the rows as they were
-/

namespace Program

variable {ι α β γ : Type} [DecidableEq ι]

def writeRows (set : α → β → α) (l : List (ι × β)) (s : ι → α) : ι → α :=
  l.foldl (fun s p => Function.update s p.1 (set (s p.1) p.2)) s

/-- Of equal indices the last one counts. -/
def scatter (set : α → β → α) (is : List ι) (vs : List β) (s : ι → α) : ι → α :=
  writeRows set (is.zip vs) s

/-- The list has the index once. -/
def Alone (l : List (ι × β)) (i : ι) (x : β) : Prop := l.filter (fun p => p.1 = i) = [(i, x)]

variable {set : α → β → α} {l : List (ι × β)} {s : ι → α} {i : ι} {x : β}

theorem writeRows_apply :
    writeRows set l s i = ((l.filter (fun p => p.1 = i)).map Prod.snd).foldl set (s i) := by
  induction l generalizing s with
  | nil => rfl
  | cons p rest ih =>
    have hcons : writeRows set (p :: rest) s i =
        writeRows set rest (Function.update s p.1 (set (s p.1) p.2)) i := rfl
    rw [hcons, ih]
    by_cases hp : p.1 = i
    · subst hp
      rw [Function.update_self, List.filter_cons_of_pos (by simp)]
      rfl
    · rw [Function.update_of_ne (Ne.symm hp), List.filter_cons_of_neg (by simpa using hp)]

theorem writeRows_alone (h : Alone l i x) : writeRows set l s i = set (s i) x := by
  rw [writeRows_apply, h]
  rfl

theorem writeRows_of_notMem (h : ∀ p ∈ l, p.1 ≠ i) : writeRows set l s i = s i := by
  have hnone : l.filter (fun p => p.1 = i) = [] :=
    List.filter_eq_nil_iff.mpr fun p hp => by simpa using h p hp
  rw [writeRows_apply, hnone]
  rfl

namespace Alone

theorem single : Alone [(i, x)] i x := by simp [Alone]

theorem mem (h : Alone l i x) : (i, x) ∈ l :=
  (List.mem_filter.mp (by rw [h]; exact List.mem_singleton_self _)).1

theorem unique {y : β} (h : Alone l i x) (hmem : (i, y) ∈ l) : y = x := by
  have hfilter : (i, y) ∈ l.filter fun p => p.1 = i := List.mem_filter.mpr ⟨hmem, by simp⟩
  rw [h, List.mem_singleton] at hfilter
  exact (Prod.mk.inj hfilter).2

theorem of_nodup (hnodup : (l.map Prod.fst).Nodup) (hmem : (i, x) ∈ l) : Alone l i x := by
  induction l with
  | nil => cases hmem
  | cons p rest ih =>
    rw [List.map_cons, List.nodup_cons] at hnodup
    rcases List.mem_cons.mp hmem with rfl | hrest
    · -- no later entry has the index
      have hnone : rest.filter (fun p => p.1 = i) = [] := by
        refine List.filter_eq_nil_iff.mpr fun q hq => ?_
        have hne : q.1 ≠ i := fun heq => hnodup.1 (List.mem_map.mpr ⟨q, hq, heq⟩)
        simpa using hne
      rw [Alone, List.filter_cons_of_pos (by simp), hnone]
    · have hne : p.1 ≠ i := by
        intro heq
        exact hnodup.1 (List.mem_map.mpr ⟨(i, x), hrest, heq.symm⟩)
      rw [Alone, List.filter_cons_of_neg (by simpa using hne)]
      exact ih hnodup.2 hrest

/-- Other indices may occur more often. -/
theorem of_filter {k : ι → Bool} (h : Alone (l.filter fun p => k p.1) i x)
    (hi : k i = true) : Alone l i x := by
  unfold Alone at *
  rw [List.filter_filter] at h
  rw [← h]
  refine List.filter_congr fun p _ => ?_
  by_cases hp : p.1 = i
  · simp [hp, hi]
  · simp [hp]

/-- The entries may be replaced by others. -/
theorem map (h : Alone l i x) (f : ι × β → γ) :
    Alone (l.map fun p => (p.1, f p)) i (f (i, x)) := by
  unfold Alone at *
  rw [List.filter_map]
  simp only [Function.comp_def]
  rw [h]
  rfl

end Alone

/-! ## Copies one after the other -/

/-- The first row of each pair becomes the second, as it is by then. -/
def copyEach (l : List (ι × ι)) (s : ι → α) : ι → α :=
  l.foldl (fun s p => Function.update s p.1 (s p.2)) s

theorem copyEach_concat (l : List (ι × ι)) (p : ι × ι) (s : ι → α) :
    copyEach (l ++ [p]) s = Function.update (copyEach l s) p.1 (copyEach l s p.2) := by
  unfold copyEach
  rw [List.foldl_append]
  rfl

theorem copyEach_of_notMem {l : List (ι × ι)} (h : ∀ p ∈ l, p.1 ≠ i) :
    copyEach l s i = s i := by
  induction l using List.reverseRecOn with
  | nil => rfl
  | append_singleton l p ih =>
    have hp : p.1 ≠ i := h p (List.mem_append_right l List.mem_cons_self)
    rw [copyEach_concat, Function.update_of_ne (Ne.symm hp)]
    exact ih fun q hq => h q (List.mem_append_left [p] hq)

/-- **Copies one after the other are those of the rows as they were**, if and only if a row that has
been overwritten and is copied then was equal to what it has got. -/
theorem copyEach_iff {l : List (ι × ι)} (hnodup : (l.map Prod.fst).Nodup) :
    (∀ p ∈ l, copyEach l s p.1 = s p.2) ↔ l.Pairwise fun p q => q.2 = p.1 → s q.2 = s p.2 := by
  induction l using List.reverseRecOn with
  | nil => exact ⟨fun _ => .nil, fun _ _ h => (List.not_mem_nil h).elim⟩
  | append_singleton l p ih =>
    rw [List.map_append, List.nodup_append] at hnodup
    obtain ⟨hnodup, -, hfresh⟩ := hnodup
    have hne : ∀ q ∈ l, q.1 ≠ p.1 := by
      intro q hq
      exact hfresh q.1 (List.mem_map_of_mem hq) p.1 List.mem_cons_self
    have hsplit : (∀ q ∈ l ++ [p], copyEach (l ++ [p]) s q.1 = s q.2) ↔
        (∀ q ∈ l, copyEach l s q.1 = s q.2) ∧ copyEach l s p.2 = s p.2 := by
      rw [copyEach_concat, List.forall_mem_append, List.forall_mem_singleton,
        Function.update_self]
      refine and_congr_left fun _ => forall₂_congr fun q hq => ?_
      rw [Function.update_of_ne (hne q hq)]
    rw [hsplit, ih hnodup, List.pairwise_append]
    have hlast : (∀ q ∈ l, ∀ r ∈ [p], r.2 = q.1 → s r.2 = s q.2) ↔
        ∀ q ∈ l, p.2 = q.1 → s p.2 = s q.2 :=
      forall₂_congr fun _ _ => List.forall_mem_singleton
    rw [hlast]
    have hcopied : (l.Pairwise fun p q => q.2 = p.1 → s q.2 = s p.2) →
        (copyEach l s p.2 = s p.2 ↔ ∀ q ∈ l, p.2 = q.1 → s p.2 = s q.2) := by
      intro hpairs
      have hall := (ih hnodup).mpr hpairs
      constructor
      · intro hp q hq heq
        rw [← hall q hq, ← heq]
        exact hp.symm
      · intro hagree
        by_cases hmem : ∃ q ∈ l, q.1 = p.2
        · obtain ⟨q, hq, heq⟩ := hmem
          rw [hagree q hq heq.symm, ← hall q hq, heq]
        · exact copyEach_of_notMem fun q hq heq => hmem ⟨q, hq, heq⟩
    constructor
    · rintro ⟨hpairs, hp⟩
      exact ⟨hpairs, List.pairwise_singleton _ _, (hcopied hpairs).mp hp⟩
    · rintro ⟨hpairs, -, hagree⟩
      exact ⟨hpairs, (hcopied hpairs).mpr hagree⟩

end Program
