import MindieLLM.Program.Slices
import Mathlib.Data.List.Sort
import Mathlib.Data.List.Perm.Subperm
import Mathlib.Data.List.GetD
import Mathlib.Order.WithBot

/-!
# The largest elements of a row

The largest elements of a row are found by a partial sort, which brings them to the front in any
order, and by a sort of these. Which of two equal elements comes first is left open by both.

## Main definitions

* `ArraySort`, `ArraySort.Lawful`: the two sorts, as lists of indices, and what is known of them
* `topIndices`: the indices of the largest elements, in descending order
* `Best f k l best`: what the `k` best elements of a list are

## Main results

* `topIndices_best`: the largest elements are found
* `Best.take_marked`, `Best.drop_marked`: elements that are better than all others come first, and
  the best of the others behind them
* `Best.filter`: if some elements are better than all others, the best are among them
* `exists_topIndices_swap`: either of two equal elements may come first
-/

namespace Program

variable {S : Type}

/-- Two sorts of an array, as the indices of the elements in their new order. The partial sort is
called with the elements in reverse order. -/
structure ArraySort (S : Type) where
  argsort : List S → List ℕ
  argpartition : List Sᵒᵈ → ℕ → List ℕ

/-- A sort gives all indices, the smallest element first. A partial sort does so only for the
element that is asked for: no element in front of it is larger, and none behind it is smaller. -/
structure ArraySort.Lawful [LinearOrder S] (a : ArraySort S) : Prop where
  argsort_perm : ∀ xs, (a.argsort xs).Perm (List.range xs.length)
  argsort_sorted : ∀ xs ys, gather xs (a.argsort xs) = some ys → ys.Pairwise (· ≤ ·)
  argpartition_perm : ∀ xs k, k < xs.length →
    (a.argpartition xs k).Perm (List.range xs.length)
  argpartition_le : ∀ xs k ys, k < xs.length → gather xs (a.argpartition xs k) = some ys →
    ∀ y ∈ ys.take (k + 1), ∀ z ∈ ys.drop (k + 1), y ≤ z

/-- The indices of the `k` largest elements, in descending order. -/
def topIndices (a : ArraySort S) (xs : List S) (k : ℕ) : Option (List ℕ) := do
  if xs.length < k ∨ k = 0 then none
  else
    let nIndices := (a.argpartition (xs.map OrderDual.toDual) (k - 1)).take k
    let values ← gather xs nIndices
    let nOrder := (a.argsort values).reverse
    gather nIndices nOrder

/-- The `k` best elements of a list, in descending order. -/
structure Best {α : Type} [LE S] (f : α → S) (k : ℕ) (l best : List α) : Prop where
  nodup : best.Nodup
  length : best.length = k
  mem : ∀ x ∈ best, x ∈ l
  sorted : best.Pairwise fun x y => f y ≤ f x
  top : ∀ x ∈ l, x ∉ best → ∀ y ∈ best, f x ≤ f y

/-- The elements at indices that are in range. -/
theorem gather_map_range {α : Type} {v : ℕ → α} {n : ℕ} {is : List ℕ} (h : ∀ i ∈ is, i < n) :
    gather ((List.range n).map v) is = some (is.map v) := by
  refine mapM_eq_some_map fun i hi => ?_
  rw [List.getElem?_map, List.getElem?_range (h i hi), Option.map_some]

/-- A list that another one has room for. -/
theorem length_le_of_injOn {α β : Type} {l : List α} {l' : List β} (φ : α → β) (hl : l.Nodup)
    (hφ : ∀ x ∈ l, ∀ y ∈ l, φ x = φ y → x = y) (hmem : ∀ x ∈ l, φ x ∈ l') :
    l.length ≤ l'.length := by
  have hsub : l.map φ ⊆ l' := by
    intro y hy
    obtain ⟨x, hx, rfl⟩ := List.mem_map.mp hy
    exact hmem x hx
  have hle := ((hl.map_on hφ).subperm hsub).length_le
  rwa [List.length_map] at hle

/-- Elements that are treated by whether they are in front. -/
theorem mapM_zipIdx_append {α β : Type} {f : β × ℕ → Option α} {g g' : β → α} {xs ys : List β}
    (h : ∀ x ∈ xs, ∀ i < xs.length, f (x, i) = some (g x))
    (h' : ∀ y ∈ ys, ∀ i, xs.length ≤ i → f (y, i) = some (g' y)) :
    (xs ++ ys).zipIdx.mapM f = some (xs.map g ++ ys.map g') := by
  have hmap : ∀ (l : List β) (k : ℕ) (g : β → α),
      l.map g = (l.zipIdx k).map fun x => g x.1 := by
    intro l k g
    conv_lhs => rw [← List.zipIdx_map_fst k l]
    rw [List.map_map]
    rfl
  rw [List.zipIdx_append, Nat.zero_add, hmap xs 0, hmap ys xs.length, mapM_eq_some_iff]
  refine List.rel_append ?_ ?_
  · rw [List.forall₂_map_right_iff, List.forall₂_same]
    intro x hx
    exact h x.1 (List.fst_mem_of_mem_zipIdx hx) x.2 (List.snd_lt_of_mem_zipIdx hx)
  · rw [List.forall₂_map_right_iff, List.forall₂_same]
    intro y hy
    exact h' y.1 (List.fst_mem_of_mem_zipIdx hy) y.2 (List.le_snd_of_mem_zipIdx hy)

/-! ## Elements that are better than all others -/

/-- A list in which the marked elements come first. -/
theorem filter_append_filter_not {α : Type} {p : α → Bool} {l : List α}
    (h : l.Pairwise fun x y => p y = true → p x = true) :
    l.filter p ++ l.filter (fun x => !p x) = l := by
  induction l with
  | nil => rfl
  | cons x l ih =>
    obtain ⟨hhead, htail⟩ := List.pairwise_cons.mp h
    have hrest := ih htail
    cases hx : p x with
    | true =>
      rw [List.filter_cons_of_pos hx, List.filter_cons_of_neg (by simp [hx]), List.cons_append,
        hrest]
    | false =>
      have hnone : l.filter p = [] := by
        refine List.filter_eq_nil_iff.mpr fun y hy hpy => ?_
        rw [hhead y hy hpy] at hx
        cases hx
      rw [hnone, List.nil_append] at hrest
      rw [List.filter_cons_of_neg (by simp [hx]), List.filter_cons_of_pos (by simp [hx]), hnone,
        List.nil_append, hrest]

namespace Best

variable {α : Type} [LinearOrder S] {f : α → S} {k w : ℕ} {l best : List α} {p : α → Bool}

/-- Elements that are better than all others are among the best. -/
theorem mem_of_marked (h : Best f k l best)
    (hp : ∀ x ∈ l, ∀ y ∈ l, p x = true → p y = false → f y < f x)
    (hk : (l.filter p).length ≤ k) {x : α} (hx : x ∈ l) (hpx : p x = true) : x ∈ best := by
  by_contra hnot
  have hall : ∀ y ∈ best, p y = true := by
    intro y hy
    by_contra hpy
    have hlt := hp x hx y (h.mem y hy) hpx (Bool.eq_false_of_not_eq_true hpy)
    exact absurd (h.top x hx hnot y hy) (not_le_of_gt hlt)
  have hsub : x :: best ⊆ l.filter p := by
    intro y hy
    rcases List.mem_cons.mp hy with rfl | hy
    · exact List.mem_filter.mpr ⟨hx, hpx⟩
    · exact List.mem_filter.mpr ⟨h.mem y hy, hall y hy⟩
  have hle := ((List.nodup_cons.mpr ⟨hnot, h.nodup⟩).subperm hsub).length_le
  rw [List.length_cons, h.length] at hle
  omega

theorem take_drop_marked (h : Best f k l best) (hl : l.Nodup)
    (hp : ∀ x ∈ l, ∀ y ∈ l, p x = true → p y = false → f y < f x)
    (hk : (l.filter p).length ≤ k) :
    (best.take (l.filter p).length).Perm (l.filter p) ∧
      best.drop (l.filter p).length = best.filter fun x => !p x := by
  have hsplit : best.filter p ++ best.filter (fun x => !p x) = best := by
    refine filter_append_filter_not (h.sorted.imp_of_mem fun {x y} hx hy hle hpy => ?_)
    by_contra hpx
    have hlt := hp y (h.mem y hy) x (h.mem x hx) hpy (Bool.eq_false_of_not_eq_true hpx)
    exact absurd hle (not_le_of_gt hlt)
  have hperm : (best.filter p).Perm (l.filter p) := by
    refine (List.perm_ext_iff_of_nodup (h.nodup.filter p) (hl.filter p)).mpr fun x => ?_
    rw [List.mem_filter, List.mem_filter]
    constructor
    · exact fun hx => ⟨h.mem x hx.1, hx.2⟩
    · exact fun hx => ⟨h.mem_of_marked hp hk hx.1 hx.2, hx.2⟩
  have htake := @List.take_left _ (best.filter p) (best.filter fun x => !p x)
  have hdrop := @List.drop_left _ (best.filter p) (best.filter fun x => !p x)
  rw [hsplit] at htake hdrop
  rw [← hperm.length_eq, htake, hdrop]
  exact ⟨hperm, rfl⟩

/-- **Elements that are better than all others come first.** -/
theorem take_marked (h : Best f k l best) (hl : l.Nodup)
    (hp : ∀ x ∈ l, ∀ y ∈ l, p x = true → p y = false → f y < f x)
    (hk : (l.filter p).length ≤ k) : (best.take (l.filter p).length).Perm (l.filter p) :=
  (h.take_drop_marked hl hp hk).1

/-- **The elements behind them** are the best of the others. -/
theorem drop_marked (h : Best f k l best) (hl : l.Nodup)
    (hp : ∀ x ∈ l, ∀ y ∈ l, p x = true → p y = false → f y < f x)
    (hk : (l.filter p).length + w ≤ k) :
    Best f w (l.filter fun x => !p x) ((best.drop (l.filter p).length).take w) := by
  set e := (l.filter p).length with he
  obtain ⟨hperm, hdrop⟩ := h.take_drop_marked hl hp (by omega)
  rw [← he] at hperm hdrop
  have hsub : ((best.drop e).take w).Sublist best :=
    (List.take_sublist _ _).trans (List.drop_sublist _ _)
  refine ⟨h.nodup.sublist hsub, ?_, ?_, h.sorted.sublist hsub, ?_⟩
  · rw [List.length_take, List.length_drop, h.length]
    omega
  · intro x hx
    have hmem := List.mem_of_mem_take hx
    rw [hdrop] at hmem
    exact List.mem_filter.mpr ⟨h.mem x (List.mem_filter.mp hmem).1, (List.mem_filter.mp hmem).2⟩
  · intro x hx hnot y hy
    obtain ⟨hxl, hpx⟩ := List.mem_filter.mp hx
    by_cases hmem : x ∈ best
    · -- A marked element is in front, so one that is neither in front nor among the next is behind.
      have hsplit : best = best.take e ++ ((best.drop e).take w ++ (best.drop e).drop w) := by
        rw [List.take_append_drop, List.take_append_drop]
      have hback : x ∈ (best.drop e).drop w := by
        rw [hsplit, List.mem_append, List.mem_append] at hmem
        rcases hmem with hfront | hnext | hback
        · have hmark := (List.mem_filter.mp (hperm.mem_iff.mp hfront)).2
          rw [hmark] at hpx
          cases hpx
        · exact absurd hnext hnot
        · exact hback
      have hsorted := h.sorted
      rw [hsplit] at hsorted
      exact (List.pairwise_append.mp (List.pairwise_append.mp hsorted).2.1).2.2 y hy x hback
    · exact h.top x hxl hmem y (hsub.subset hy)

/-- **If enough elements are better than all others**, the best are among them. -/
theorem filter (h : Best f k l best) (hl : l.Nodup)
    (hp : ∀ x ∈ l, ∀ y ∈ l, p x = true → p y = false → f y < f x)
    (hk : k ≤ (l.filter p).length) : Best f k (l.filter p) best := by
  have hall : ∀ y ∈ best, p y = true := by
    intro y hy
    by_contra hpy
    have hsub : y :: l.filter p ⊆ best := by
      intro x hx
      rcases List.mem_cons.mp hx with rfl | hx
      · exact hy
      · obtain ⟨hxl, hpx⟩ := List.mem_filter.mp hx
        have hlt := hp x hxl y (h.mem y hy) hpx (Bool.eq_false_of_not_eq_true hpy)
        by_contra hnot
        exact absurd (h.top x hxl hnot y hy) (not_le_of_gt hlt)
    have hnodup : (y :: l.filter p).Nodup :=
      List.nodup_cons.mpr ⟨fun hmem => hpy (List.mem_filter.mp hmem).2, hl.filter p⟩
    have hle := (hnodup.subperm hsub).length_le
    rw [List.length_cons, h.length] at hle
    omega
  refine ⟨h.nodup, h.length, fun x hx => List.mem_filter.mpr ⟨h.mem x hx, hall x hx⟩, h.sorted, ?_⟩
  intro x hx
  exact h.top x (List.mem_filter.mp hx).1

/-- The best under another name. -/
theorem map {β : Type} {g : β → S} {φ : α → β} {l' : List β} (h : Best f k l best)
    (hφ : ∀ x ∈ l, ∀ y ∈ l, φ x = φ y → x = y) (hg : ∀ x ∈ l, g (φ x) = f x)
    (hl' : ∀ y, y ∈ l' ↔ ∃ x ∈ l, φ x = y) : Best g k l' (best.map φ) := by
  refine ⟨?_, by rw [List.length_map, h.length], ?_, ?_, ?_⟩
  · exact h.nodup.map_on fun x hx y hy => hφ x (h.mem x hx) y (h.mem y hy)
  · intro y hy
    obtain ⟨x, hx, rfl⟩ := List.mem_map.mp hy
    exact (hl' _).mpr ⟨x, h.mem x hx, rfl⟩
  · rw [List.pairwise_map]
    refine h.sorted.imp_of_mem fun {x y} hx hy hle => ?_
    rw [hg x (h.mem x hx), hg y (h.mem y hy)]
    exact hle
  · intro y hy hnot z hz
    obtain ⟨x, hx, rfl⟩ := (hl' y).mp hy
    obtain ⟨b, hb, rfl⟩ := List.mem_map.mp hz
    rw [hg x hx, hg b (h.mem b hb)]
    exact h.top x hx (fun hmem => hnot (List.mem_map_of_mem hmem)) b hb

/-- The best by values without a least one. -/
theorem of_coe (h : Best (fun x => (f x : WithBot S)) k l best) : Best f k l best := by
  refine ⟨h.nodup, h.length, h.mem, ?_, ?_⟩
  · exact h.sorted.imp WithBot.coe_le_coe.mp
  · intro x hx hnot y hy
    exact WithBot.coe_le_coe.mp (h.top x hx hnot y hy)

end Best

/-! ## The two sorts -/

section Largest

variable [LinearOrder S] {a : ArraySort S} {v : ℕ → S} {n k : ℕ} {is : List ℕ}

/-- What the partial sort brings to the front. -/
theorem argpartition_take (ha : a.Lawful) (hk : 0 < k) (hkn : k ≤ n) :
    let front := (a.argpartition (((List.range n).map v).map OrderDual.toDual) (k - 1)).take k
    front.Nodup ∧ front.length = k ∧ (∀ i ∈ front, i < n) ∧
      ∀ i < n, i ∉ front → ∀ j ∈ front, v i ≤ v j := by
  intro front
  set all := a.argpartition (((List.range n).map v).map OrderDual.toDual) (k - 1) with hall
  have hlen : (((List.range n).map v).map OrderDual.toDual).length = n := by simp
  have hperm : all.Perm (List.range n) := by
    have h := ha.argpartition_perm _ (k - 1) (by rw [hlen]; omega)
    rwa [hlen] at h
  have hlt : ∀ i ∈ all, i < n := fun i hi => List.mem_range.mp (hperm.mem_iff.mp hi)
  have hgather : gather (((List.range n).map v).map OrderDual.toDual) all =
      some (all.map fun i => OrderDual.toDual (v i)) := by
    rw [List.map_map]
    exact gather_map_range hlt
  have hle := ha.argpartition_le _ (k - 1) _ (by rw [hlen]; omega) hgather
  rw [Nat.sub_add_cancel hk] at hle
  refine ⟨(hperm.nodup_iff.mpr List.nodup_range).sublist (List.take_sublist _ _), ?_, ?_, ?_⟩
  · rw [List.length_take, hperm.length_eq, List.length_range, Nat.min_eq_left hkn]
  · exact fun i hi => hlt i (List.mem_of_mem_take hi)
  · intro i hi hnot j hj
    have hmem : i ∈ all.take k ++ all.drop k := by
      rw [List.take_append_drop]
      exact hperm.mem_iff.mpr (List.mem_range.mpr hi)
    have hback : i ∈ all.drop k := (List.mem_append.mp hmem).resolve_left hnot
    rw [← List.map_take, ← List.map_drop] at hle
    exact OrderDual.toDual_le_toDual.mp
      (hle _ (List.mem_map_of_mem hj) _ (List.mem_map_of_mem hback))

/-- The sort of what is in front, by the places there. -/
theorem topIndices_eq (ha : a.Lawful) (hk : 0 < k) (hkn : k ≤ n) :
    ∃ u : ℕ → ℕ, ((List.range k).map u).Nodup ∧ (∀ t < k, u t < n) ∧
      (∀ i < n, i ∉ (List.range k).map u → ∀ t < k, v i ≤ v (u t)) ∧
      topIndices a ((List.range n).map v) k =
        some ((a.argsort ((List.range k).map fun t => v (u t))).reverse.map u) ∧
      ∀ a' : ArraySort S, a'.argpartition = a.argpartition →
        (a'.argsort ((List.range k).map fun t => v (u t))).Perm (List.range k) →
        topIndices a' ((List.range n).map v) k =
          some ((a'.argsort ((List.range k).map fun t => v (u t))).reverse.map u) := by
  obtain ⟨hnodup, hlength, hlt, htop⟩ := argpartition_take (v := v) ha hk hkn
  set front := (a.argpartition (((List.range n).map v).map OrderDual.toDual) (k - 1)).take k
    with hfront
  obtain ⟨u, hu⟩ : ∃ u : ℕ → ℕ, (List.range k).map u = front := by
    refine ⟨fun t => front.getD t 0, ?_⟩
    apply List.ext_getElem
    · rw [List.length_map, List.length_range, hlength]
    · intro t _ ht
      rw [List.getElem_map, List.getElem_range, List.getD_eq_getElem _ _ ht]
  have hmem : ∀ t < k, u t ∈ front := fun t ht => by
    rw [← hu]
    exact List.mem_map_of_mem (List.mem_range.mpr ht)
  have hrun : ∀ a' : ArraySort S, a'.argpartition = a.argpartition →
      (a'.argsort ((List.range k).map fun t => v (u t))).Perm (List.range k) →
      topIndices a' ((List.range n).map v) k =
        some ((a'.argsort ((List.range k).map fun t => v (u t))).reverse.map u) := by
    intro a' heq hperm
    have hvalues : gather ((List.range n).map v) front =
        some ((List.range k).map fun t => v (u t)) := by
      rw [gather_map_range hlt, ← hu, List.map_map]
      rfl
    have horder : gather front (a'.argsort ((List.range k).map fun t => v (u t))).reverse =
        some ((a'.argsort ((List.range k).map fun t => v (u t))).reverse.map u) := by
      rw [← hu]
      refine gather_map_range fun t ht => ?_
      exact List.mem_range.mp (hperm.mem_iff.mp (List.mem_reverse.mp ht))
    rw [topIndices, if_neg (by rw [List.length_map, List.length_range]; omega), heq, ← hfront]
    simp only [hvalues, horder, Option.bind_eq_bind, Option.bind_some]
  refine ⟨u, ?_, fun t ht => hlt _ (hmem t ht), ?_, ?_, hrun⟩
  · rw [hu]
    exact hnodup
  · intro i hi hnot t ht
    rw [hu] at hnot
    exact htop i hi hnot _ (hmem t ht)
  · refine hrun a rfl ?_
    have hperm := ha.argsort_perm ((List.range k).map fun t => v (u t))
    rwa [List.length_map, List.length_range] at hperm

/-- **The largest elements are found**, in descending order. -/
theorem topIndices_best (ha : a.Lawful) (hk : 0 < k) (hkn : k ≤ n) :
    ∃ is, topIndices a ((List.range n).map v) k = some is ∧ Best v k (List.range n) is := by
  obtain ⟨u, hnodup, hlt, htop, hrun, -⟩ := topIndices_eq (v := v) ha hk hkn
  set values := (List.range k).map fun t => v (u t) with hvalues
  have hperm : (a.argsort values).Perm (List.range k) := by
    have h := ha.argsort_perm values
    rwa [hvalues, List.length_map, List.length_range] at h
  have hrev : ((a.argsort values).reverse.map u).Perm ((List.range k).map u) :=
    ((List.reverse_perm _).trans hperm).map u
  have hbound : ∀ t ∈ a.argsort values, t < k := fun t ht =>
    List.mem_range.mp (hperm.mem_iff.mp ht)
  refine ⟨_, hrun, hrev.nodup_iff.mpr hnodup, ?_, ?_, ?_, ?_⟩
  · rw [hrev.length_eq, List.length_map, List.length_range]
  · intro i hi
    obtain ⟨t, ht, rfl⟩ := List.mem_map.mp hi
    exact List.mem_range.mpr (hlt t (hbound t (List.mem_reverse.mp ht)))
  · have hsorted := ha.argsort_sorted values _ (gather_map_range hbound)
    rw [List.pairwise_map] at hsorted ⊢
    exact List.pairwise_reverse.mpr hsorted
  · intro i hi hnot j hj
    obtain ⟨t, ht, rfl⟩ := List.mem_map.mp hj
    exact htop i (List.mem_range.mp hi) (fun h => hnot (hrev.mem_iff.mpr h)) t
      (hbound t (List.mem_reverse.mp ht))

/-! ## Equal elements -/

/-- **Either of two equal elements may come first.** -/
theorem exists_topIndices_swap (ha : a.Lawful) (hk : 0 < k) (hkn : k ≤ n)
    (hrun : topIndices a ((List.range n).map v) k = some is) {p q i j : ℕ}
    (hp : is[p]? = some i) (hq : is[q]? = some j) (hv : v i = v j) :
    ∃ a' : ArraySort S, a'.Lawful ∧ ∃ is', topIndices a' ((List.range n).map v) k = some is' ∧
      is'[p]? = some j := by
  classical
  obtain ⟨u, -, -, -, hrun', hother⟩ := topIndices_eq (v := v) ha hk hkn
  set values := (List.range k).map fun t => v (u t) with hvalues
  obtain rfl := Option.some.inj (hrun.symm.trans hrun')
  have hperm : (a.argsort values).Perm (List.range k) := by
    have h := ha.argsort_perm values
    rwa [hvalues, List.length_map, List.length_range] at h
  have hbound : ∀ t ∈ a.argsort values, t < k := fun t ht =>
    List.mem_range.mp (hperm.mem_iff.mp ht)
  rw [List.getElem?_map, Option.map_eq_some_iff] at hp hq
  obtain ⟨x, hx, rfl⟩ := hp
  obtain ⟨y, hy, rfl⟩ := hq
  have hxk : x < k := hbound x (List.mem_reverse.mp (List.mem_of_getElem? hx))
  have hyk : y < k := hbound y (List.mem_reverse.mp (List.mem_of_getElem? hy))
  -- The two places are exchanged in the order of this row.
  let σ : Equiv.Perm ℕ := Equiv.swap x y
  have hσ : ∀ t, t < k → σ t < k := by
    intro t ht
    rcases eq_or_ne t x with rfl | hx
    · rw [Equiv.swap_apply_left]
      exact hyk
    · rcases eq_or_ne t y with rfl | hy
      · rw [Equiv.swap_apply_right]
        exact hxk
      · rw [Equiv.swap_apply_of_ne_of_ne hx hy]
        exact ht
  have hvσ : ∀ t, v (u (σ t)) = v (u t) := by
    intro t
    rcases eq_or_ne t x with rfl | hx
    · rw [Equiv.swap_apply_left, hv]
    · rcases eq_or_ne t y with rfl | hy
      · rw [Equiv.swap_apply_right, hv]
      · rw [Equiv.swap_apply_of_ne_of_ne hx hy]
  have hrange : ((a.argsort values).map σ).Perm (List.range k) := by
    refine (List.perm_ext_iff_of_nodup ?_ List.nodup_range).mpr ?_
    · exact (hperm.nodup_iff.mpr List.nodup_range).map σ.injective
    · intro t
      rw [List.mem_map, List.mem_range]
      constructor
      · rintro ⟨s, hs, rfl⟩
        exact hσ s (hbound s hs)
      · intro ht
        refine ⟨σ t, hperm.mem_iff.mpr (List.mem_range.mpr (hσ t ht)), Equiv.swap_apply_self x y t⟩
  let a' : ArraySort S :=
    ⟨fun xs => if xs = values then (a.argsort values).map σ else a.argsort xs, a.argpartition⟩
  have hsort : a'.argsort values = (a.argsort values).map σ := if_pos rfl
  refine ⟨a', ⟨?_, ?_, ha.argpartition_perm, ha.argpartition_le⟩, _,
    hother a' rfl (by rw [hsort]; exact hrange), ?_⟩
  · intro xs
    by_cases hxs : xs = values
    · rw [hxs, hsort, hvalues, List.length_map, List.length_range]
      exact hrange
    · have heq : a'.argsort xs = a.argsort xs := if_neg hxs
      rw [heq]
      exact ha.argsort_perm xs
  · intro xs ys hys
    by_cases hxs : xs = values
    · have hplain := ha.argsort_sorted values _ (gather_map_range hbound)
      rw [hxs, hsort, hvalues, gather_map_range fun t ht => ?_] at hys
      · rw [← Option.some.inj hys, List.map_map]
        have hsame : (a.argsort values).map ((fun t => v (u t)) ∘ σ) =
            (a.argsort values).map fun t => v (u t) := List.map_congr_left fun t _ => hvσ t
        rw [hsame]
        exact hplain
      · exact List.mem_range.mp (hrange.mem_iff.mp ht)
    · have heq : a'.argsort xs = a.argsort xs := if_neg hxs
      rw [heq] at hys
      exact ha.argsort_sorted xs ys hys
  · rw [hsort, ← List.map_reverse, List.map_map, List.getElem?_map, hx, Option.map_some,
      Function.comp_apply, Equiv.swap_apply_left]

end Largest

/-! ## A stable sort -/

section Stable

variable [LinearOrder S]

/-- The order of elements with their indices. -/
def elementLe (x y : S × ℕ) : Prop := x.1 ≤ y.1

instance : DecidableRel (elementLe (S := S)) := fun x y => inferInstanceAs (Decidable (x.1 ≤ y.1))

instance : Std.Total (elementLe (S := S)) := ⟨fun x y => le_total x.1 y.1⟩

instance : IsTrans (S × ℕ) (elementLe (S := S)) := ⟨fun _ _ _ => le_trans⟩

/-- The indices of the elements in their order, equal elements as they are. -/
def stableArgsort (xs : List S) : List ℕ := (xs.zipIdx.insertionSort elementLe).map (·.2)

/-- The sort that leaves equal elements in their order, also in place of the partial sort. -/
def ArraySort.stable (S : Type) [LinearOrder S] : ArraySort S where
  argsort := stableArgsort
  argpartition xs _ := stableArgsort xs

theorem perm_stableArgsort (xs : List S) :
    (stableArgsort xs).Perm (List.range xs.length) := by
  have hsnd : xs.zipIdx.map (·.2) = List.range xs.length := by
    rw [List.range_eq_range']
    exact List.zipIdx_map_snd 0 xs
  rw [← hsnd]
  exact (List.perm_insertionSort _ _).map _

theorem sorted_stableArgsort {xs ys : List S} (h : gather xs (stableArgsort xs) = some ys) :
    ys.Pairwise (· ≤ ·) := by
  have hfst : gather xs (stableArgsort xs) =
      some ((xs.zipIdx.insertionSort elementLe).map (·.1)) := by
    rw [gather_eq_some_iff, stableArgsort, List.forall₂_map_left_iff, List.forall₂_map_right_iff,
      List.forall₂_same]
    intro x hx
    exact List.mem_zipIdx_iff_getElem?.mp ((List.mem_insertionSort _).mp hx)
  rw [← Option.some.inj (hfst.symm.trans h), List.pairwise_map]
  exact List.pairwise_insertionSort elementLe xs.zipIdx

theorem ArraySort.lawful_stable : (ArraySort.stable S).Lawful where
  argsort_perm := perm_stableArgsort
  argsort_sorted _ _ := sorted_stableArgsort
  argpartition_perm xs _ _ := perm_stableArgsort xs
  argpartition_le xs k ys _ h := by
    have hsorted := sorted_stableArgsort h
    rw [← List.take_append_drop (k + 1) ys] at hsorted
    exact (List.pairwise_append.mp hsorted).2.2

end Stable

end Program
