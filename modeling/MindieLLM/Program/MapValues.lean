import Mathlib.Data.List.AList

/-!
# The values of a finite map

A finite map from keys to resources hands each of them out at most once if the list of its values
has no duplicates. Inserting a new key adds one value, and erasing a key takes one away, up to the
order of the list.

## Main definitions

* `values m`: the values of the map, with duplicates
* `popAll m ks`: the values of several keys, which are erased

## Main results

* `mem_values`, `lookup_inj`: the values as what the keys are mapped to
* `values_insert`, `values_erase`, `values_popAll`: what the operations do to the values
-/

namespace Program

variable {κ α : Type} [DecidableEq κ] {m : AList fun _ : κ => α} {k k' : κ} {v : α}

def values (m : AList fun _ : κ => α) : List α := m.entries.map Sigma.snd

theorem mem_values : v ∈ values m ↔ ∃ k, m.lookup k = some v := by
  simp only [values, List.mem_map, Sigma.exists]
  constructor
  · rintro ⟨k, v, hmem, rfl⟩
    exact ⟨k, AList.mem_lookup_iff.mpr hmem⟩
  · rintro ⟨k, hk⟩
    exact ⟨k, v, AList.mem_lookup_iff.mp hk, rfl⟩

theorem values_insert (hk : k ∉ m) : values (m.insert k v) = v :: values m := by
  rw [values, AList.entries_insert_of_notMem hk]
  rfl

theorem values_erase (hk : m.lookup k = some v) : (values m).Perm (v :: values (m.erase k)) := by
  have hmem : k ∈ m := AList.lookup_isSome.mp (by rw [hk]; rfl)
  obtain ⟨w, l₁, l₂, -, hl, herase⟩ := List.exists_of_kerase hmem
  -- the entry that is erased is the one that is looked up
  have hw : m.lookup k = some w := AList.mem_lookup_iff.mpr (by rw [hl]; simp)
  obtain rfl : w = v := Option.some.inj (hw.symm.trans hk)
  have hvalues : values (m.erase k) = (l₁ ++ l₂).map Sigma.snd := congrArg _ herase
  rw [hvalues, values, hl, List.map_append, List.map_append, List.map_cons]
  exact List.perm_middle

theorem lookup_inj (hnodup : (values m).Nodup) (hk : m.lookup k = some v)
    (hk' : m.lookup k' = some v) : k = k' := by
  by_contra hne
  have hrest : (m.erase k).lookup k' = some v := by
    rw [AList.lookup_erase_ne (Ne.symm hne), hk']
  have hcons := (values_erase hk).nodup_iff.mp hnodup
  exact (List.nodup_cons.mp hcons).1 (mem_values.mpr ⟨k', hrest⟩)

/-! ## Several keys -/

/-- The values of the keys that the map has, which are erased. -/
def popAll : AList (fun _ : κ => α) → List κ → AList (fun _ : κ => α) × List α
  | m, [] => (m, [])
  | m, k :: ks =>
    match m.lookup k with
    | some v => ((popAll (m.erase k) ks).1, v :: (popAll (m.erase k) ks).2)
    | none => popAll m ks

theorem values_popAll (m : AList fun _ : κ => α) (ks : List κ) :
    (values m).Perm ((popAll m ks).2 ++ values (popAll m ks).1) := by
  induction ks generalizing m with
  | nil => exact .refl _
  | cons k ks ih =>
    unfold popAll
    split
    · next v hk => exact (values_erase hk).trans ((ih (m.erase k)).cons v)
    · exact ih m

theorem mem_popAll {ks : List κ} : v ∈ (popAll m ks).2 ↔ ∃ k ∈ ks, m.lookup k = some v := by
  induction ks generalizing m with
  | nil => simp [popAll]
  | cons k ks ih =>
    unfold popAll
    split
    · next w hw =>
      rw [List.mem_cons, ih, List.exists_mem_cons_iff, hw, Option.some.injEq, eq_comm]
      constructor
      · rintro (heq | ⟨k', hmem, hk'⟩)
        · exact .inl heq
        · by_cases hne : k' = k
          · subst hne
            rw [AList.lookup_erase] at hk'
            cases hk'
          · exact .inr ⟨k', hmem, by rwa [AList.lookup_erase_ne hne] at hk'⟩
      · rintro (heq | ⟨k', hmem, hk'⟩)
        · exact .inl heq
        · by_cases hne : k' = k
          · subst hne
            exact .inl (Option.some.inj (hw.symm.trans hk'))
          · exact .inr ⟨k', hmem, by rwa [AList.lookup_erase_ne hne]⟩
    · next hnone =>
      rw [ih, List.exists_mem_cons_iff, hnone]
      simp

theorem nodup_popAll (hnodup : (values m).Nodup) (ks : List κ) : (popAll m ks).2.Nodup :=
  ((values_popAll m ks).nodup_iff.mp hnodup).of_append_left

end Program
