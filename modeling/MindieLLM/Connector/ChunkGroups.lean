import MindieLLM.Connector.RequestRouterEdge
import Mathlib.Algebra.BigOperators.Group.List.Basic

/-!
# The groups of the chunks of a long request

The edge and the cloud cut a request in chunks of their own. The sizes of the groups say how many
chunks of the edge make one of the cloud: the first chunks that reach the end of the cloud's chunk.
If both cut the same length and no chunk is empty, then the groups are as many as the chunks of the
cloud, each chunk of the edge is in one of them, and the first group is not empty.

## Main definitions

* `FitTogether edge cloud`: the chunks of the two sides

## Main results

* `FitTogether.groups`: what the sizes of the groups are
* `fitTogether_splitLongSeqByChunkNum`: the cuts of the chunk manager
-/

namespace MindieLLM.Layerwise

structure FitTogether (edge cloud : List ℕ) : Prop where
  edge_pos : ∀ n ∈ edge, 0 < n
  cloud_pos : ∀ n ∈ cloud, 0 < n
  cloud_ne_nil : cloud ≠ []
  sum_eq : edge.sum = cloud.sum

/-! ## Offsets -/

theorem length_chunkPolicy (lens : List ℕ) : (chunkPolicy lens).length = lens.length + 1 :=
  List.length_scanl

theorem chunkPolicy_getD (lens : List ℕ) {i : ℕ} (hi : i ≤ lens.length) :
    (chunkPolicy lens).getD i 0 = (lens.take i).sum := by
  rw [List.getD_eq_getElem?_getD, chunkPolicy, List.getElem?_scanl, if_pos hi, Option.getD_some,
    List.sum_eq_foldl]

theorem sum_take_le (lens : List ℕ) {i j : ℕ} (h : i ≤ j) :
    (lens.take i).sum ≤ (lens.take j).sum := by
  have hsum := List.sum_take_add_sum_drop (lens.take j) i
  rw [List.take_take, Nat.min_eq_left h] at hsum
  omega

theorem sum_take_lt {lens : List ℕ} (hpos : ∀ n ∈ lens, 0 < n) {i : ℕ} (hi : i < lens.length) :
    (lens.take i).sum < lens.sum := by
  have hdrop : 0 < (lens.drop i).sum := by
    rw [List.drop_eq_getElem_cons hi, List.sum_cons]
    have := hpos _ (List.getElem_mem hi)
    omega
  have hsum := List.sum_take_add_sum_drop lens i
  omega

theorem findChunkEnd_spec {lens : List ℕ} {last x : ℕ} (hlast : last ≤ lens.length)
    (hx : x ≤ lens.sum) :
    ∃ i, findChunkEnd (chunkPolicy lens) last x = some i ∧ last ≤ i ∧ i ≤ lens.length ∧
      x ≤ (lens.take i).sum := by
  have hsome : (findChunkEnd (chunkPolicy lens) last x).isSome := by
    refine List.find?_isSome.mpr ⟨lens.length, ?_, ?_⟩
    · rw [length_chunkPolicy, List.mem_range'_1]
      omega
    · rw [chunkPolicy_getD lens (le_refl _), List.take_length]
      exact decide_eq_true hx
  obtain ⟨i, hi⟩ := Option.isSome_iff_exists.mp hsome
  have hmem := List.mem_of_find?_eq_some hi
  rw [length_chunkPolicy, List.mem_range'_1] at hmem
  have hle := List.find?_some hi
  rw [chunkPolicy_getD lens (by omega)] at hle
  exact ⟨i, hi, hmem.1, by omega, of_decide_eq_true hle⟩

/-! ## The sizes -/

/-- What the outer loop keeps: the sizes so far are those of the chunks so far. -/
structure Grouped (lens : List ℕ) (s : List ℕ × ℕ) : Prop where
  sum_eq : s.1.sum = s.2
  le : s.2 ≤ lens.length

theorem Grouped.step {lens : List ℕ} {s : List ℕ × ℕ} (h : Grouped lens s) {x : ℕ}
    (hx : x ≤ lens.sum) :
    ∃ i, eqChunkNumStep (chunkPolicy lens) s x = (s.1 ++ [i - s.2], i) ∧
      Grouped lens (s.1 ++ [i - s.2], i) ∧ s.2 ≤ i ∧ x ≤ (lens.take i).sum := by
  obtain ⟨i, hi, hlast, hle, hreach⟩ := findChunkEnd_spec h.le hx
  refine ⟨i, by rw [eqChunkNumStep, hi], ⟨?_, hle⟩, hlast, hreach⟩
  have hsum := h.sum_eq
  simp only [List.sum_append, List.sum_singleton]
  omega

/-- The whole loop; what was reached before stays reached. -/
theorem Grouped.foldl {lens : List ℕ} {s : List ℕ × ℕ} (h : Grouped lens s) {x : ℕ}
    (hx : x ≤ (lens.take s.2).sum) {ends : List ℕ} (hends : ∀ y ∈ ends, y ≤ lens.sum) :
    ∃ sizes last, ends.foldl (eqChunkNumStep (chunkPolicy lens)) s = (s.1 ++ sizes, last) ∧
      sizes.length = ends.length ∧ Grouped lens (s.1 ++ sizes, last) ∧
      ∀ y ∈ x :: ends, y ≤ (lens.take last).sum := by
  induction ends generalizing s x with
  | nil => exact ⟨[], s.2, by simp, rfl, by simpa using h, by simpa using hx⟩
  | cons y ends ih =>
    obtain ⟨i, hstep, hgrouped, hlast, hreach⟩ := h.step (hends y List.mem_cons_self)
    have hmono := sum_take_le lens hlast
    have htail : ∀ z ∈ ends, z ≤ lens.sum := fun z hz => hends z (List.mem_cons_of_mem y hz)
    obtain ⟨sizes, last, hfold, hlength, hgroups, hreached⟩ := ih hgrouped hreach htail
    obtain ⟨sizes', last', hfold', -, -, hreached'⟩ := ih hgrouped (hx.trans hmono) htail
    obtain rfl : last' = last := (Prod.ext_iff.mp (hfold'.symm.trans hfold)).2
    refine ⟨(i - s.2) :: sizes, last', ?_, by simp [hlength], by simpa using hgroups, ?_⟩
    · rw [List.foldl_cons, hstep, hfold]
      simp
    · intro z hz
      rcases List.mem_cons.mp hz with rfl | hz
      · exact hreached' z List.mem_cons_self
      · exact hreached z hz

/-- The ends of the chunks are not behind the last one. -/
theorem drop_chunkPolicy_le {lens : List ℕ} {x : ℕ} (hx : x ∈ (chunkPolicy lens).drop 1) :
    x ≤ lens.sum := by
  obtain ⟨i, hi, rfl⟩ := List.mem_iff_getElem.mp hx
  have hlength := length_chunkPolicy lens
  rw [List.length_drop] at hi
  rw [List.getElem_drop]
  have hget := chunkPolicy_getD lens (i := 1 + i) (by omega)
  rw [List.getD_eq_getElem?_getD, List.getElem?_eq_getElem (by omega), Option.getD_some] at hget
  rw [hget]
  have hsum := List.sum_take_add_sum_drop lens (1 + i)
  omega

theorem FitTogether.groups {edge cloud : List ℕ} (h : FitTogether edge cloud) :
    ∃ size sizes, getCloudEqEdgePrefillChunkNumList (chunkPolicy edge) (chunkPolicy cloud) =
        size :: sizes ∧
      0 < size ∧ size + sizes.sum = edge.length ∧ sizes.length + 1 = cloud.length := by
  obtain ⟨n, rest, rfl⟩ := List.exists_cons_of_ne_nil h.cloud_ne_nil
  have hn : 0 < n := h.cloud_pos n List.mem_cons_self
  -- the first end gives the first group, the others the other groups
  have hcons : (chunkPolicy (n :: rest)).drop 1 = n :: (chunkPolicy (n :: rest)).drop 2 := by
    cases rest <;> simp [chunkPolicy]
  have hends : ∀ x ∈ n :: (chunkPolicy (n :: rest)).drop 2, x ≤ edge.sum := fun x hx =>
    h.sum_eq ▸ drop_chunkPolicy_le (hcons ▸ hx)
  have hstart : Grouped edge ([], 0) := ⟨rfl, Nat.zero_le _⟩
  obtain ⟨i, hstep, hgrouped, -, hreach⟩ := hstart.step (hends n List.mem_cons_self)
  have hi : 0 < i := by
    rcases Nat.eq_zero_or_pos i with rfl | hi
    · simp at hreach
      omega
    · exact hi
  obtain ⟨sizes, last, hfold, hlength, hlast, hreached⟩ :=
    hgrouped.foldl hreach fun y hy => hends y (List.mem_cons_of_mem n hy)
  -- the last end is where the request ends
  have hsum : (n :: rest).sum ∈ n :: (chunkPolicy (n :: rest)).drop 2 := by
    rw [← hcons]
    refine List.mem_of_getElem? (i := rest.length) ?_
    rw [List.getElem?_drop, chunkPolicy, List.getElem?_scanl, if_pos (by simp [Nat.add_comm]),
      List.take_of_length_le (by simp [Nat.add_comm]), List.sum_eq_foldl]
  have hend : last = edge.length := by
    refine Nat.le_antisymm hlast.le (Nat.le_of_not_lt fun hlt => ?_)
    have hle := hreached _ hsum
    have htake := sum_take_lt h.edge_pos hlt
    have heq := h.sum_eq
    omega
  refine ⟨i, sizes, ?_, hi, ?_, ?_⟩
  · rw [getCloudEqEdgePrefillChunkNumList, hcons, List.foldl_cons, hstep, hfold]
    simp
  · have hsizes := hlast.sum_eq
    simp at hsizes
    omega
  · rw [hlength, List.length_drop, length_chunkPolicy]
    simp

/-! ## The chunk manager -/

theorem splitLongSeqByChunkNum_pos {totalLen chunkNum : ℕ} (hnum : 0 < chunkNum)
    (hle : chunkNum ≤ totalLen) : ∀ n ∈ splitLongSeqByChunkNum totalLen chunkNum, 0 < n := by
  have haverage : 0 < totalLen / chunkNum := Nat.div_pos hle hnum
  intro n hn
  rw [splitLongSeqByChunkNum] at hn
  split at hn
  · rw [List.eq_of_mem_replicate hn]
    exact haverage
  · rcases List.mem_append.mp hn with hn | hn
    · rw [List.eq_of_mem_replicate hn]
      omega
    · rw [List.eq_of_mem_replicate hn]
      exact haverage

theorem splitLongSeqByChunkNum_sum {totalLen chunkNum : ℕ} (hnum : 0 < chunkNum) :
    (splitLongSeqByChunkNum totalLen chunkNum).sum = totalLen := by
  have hdiv := Nat.div_add_mod totalLen chunkNum
  have hlt := Nat.mod_lt totalLen hnum
  rw [splitLongSeqByChunkNum]
  split
  · next hmod =>
    rw [List.sum_replicate_nat]
    omega
  · rw [List.sum_append, List.sum_replicate_nat, List.sum_replicate_nat, Nat.mul_add, Nat.mul_one,
      Nat.sub_mul]
    have hmul : totalLen % chunkNum * (totalLen / chunkNum) ≤ chunkNum * (totalLen / chunkNum) :=
      Nat.mul_le_mul_right _ hlt.le
    omega

theorem fitTogether_splitLongSeqByChunkNum {totalLen edgeNum cloudNum : ℕ} (hedge : 0 < edgeNum)
    (hcloud : 0 < cloudNum) (hedge_le : edgeNum ≤ totalLen) (hcloud_le : cloudNum ≤ totalLen) :
    FitTogether (splitLongSeqByChunkNum totalLen edgeNum)
      (splitLongSeqByChunkNum totalLen cloudNum) where
  edge_pos := splitLongSeqByChunkNum_pos hedge hedge_le
  cloud_pos := splitLongSeqByChunkNum_pos hcloud hcloud_le
  cloud_ne_nil hnil := by
    have hsum : (splitLongSeqByChunkNum totalLen cloudNum).sum = totalLen :=
      splitLongSeqByChunkNum_sum hcloud
    rw [hnil] at hsum
    simp at hsum
    omega
  sum_eq := by rw [splitLongSeqByChunkNum_sum hedge, splitLongSeqByChunkNum_sum hcloud]

end MindieLLM.Layerwise
