import Mathlib.Data.List.GetD
import MindieLLM.Connector.ChunkGroups

/-!
# The chunks of the edge in the chunks of the cloud

The edge counts how many of its chunks make one of the cloud. The cloud adds up the lengths of the
edge's chunks and lists those that start in a chunk of its own, each with the place of its hidden
states there. Where every boundary of the cloud is one of the edge, both describe one partition,
unless the last chunk of the edge is empty: that one starts where the request ends, and is in no
group and on no list.

## Main definitions

* `longSeqGetRecvList`: what the cloud receives for a chunk
* `SamePartition edge cloud`: groups of the edge's chunks that both sides go by

## Main results

* `exists_groups`: the groups of all chunks of the edge but empty ones at the end
* `samePartition_iff`: both sides go by one partition unless the edge ends with an empty chunk
-/

namespace MindieLLM.Layerwise

/-! ## What the cloud receives -/

/-- The loop of `long_seq_get_recv_list` over the chunks of the edge. -/
def recvLoop (startOffset endOffset : ℕ) :
    List ℕ → ℕ → List (ℤ × ℕ) → ℤ → List (ℤ × ℕ) × ℤ
  | [], _, recvList, recvHiddenPos => (recvList, recvHiddenPos)
  | chunkLen :: rest, tmpEdgeLen, recvList, recvHiddenPos =>
    if endOffset ≤ tmpEdgeLen then (recvList, recvHiddenPos)
    else
      recvLoop startOffset endOffset rest (tmpEdgeLen + chunkLen)
        (if startOffset ≤ tmpEdgeLen then recvList ++ [((tmpEdgeLen : ℤ) - startOffset, chunkLen)]
          else recvList)
        ((tmpEdgeLen : ℤ) - startOffset)

def longSeqGetRecvList (edgeChunkLenPolicy : List ℕ) (startOffset endOffset : ℕ) :
    List (ℤ × ℕ) × ℤ :=
  recvLoop startOffset endOffset edgeChunkLenPolicy 0 [] 0

/-! ## One partition -/

/-- Chunks side by side, each with its start. -/
def placed : ℕ → List ℕ → List (ℤ × ℕ)
  | _, [] => []
  | start, chunkLen :: rest => ((start : ℤ), chunkLen) :: placed (start + chunkLen) rest

/-- **Both sides go by one partition**: the groups are the chunks of the edge in order, their sizes
are those that the edge computes, the tokens of a group are those of a chunk of the cloud, and the
chunks of a group, side by side, are what the cloud receives for that chunk. -/
def SamePartition (edge cloud : List ℕ) : Prop :=
  ∃ groups : List (List ℕ), groups.flatten = edge ∧
    getCloudEqEdgePrefillChunkNumList (chunkPolicy edge) (chunkPolicy cloud) =
      groups.map List.length ∧
    groups.map List.sum = cloud ∧
    ∀ k (hk : k < groups.length), (longSeqGetRecvList edge (cloud.take k).sum
      ((cloud.take k).sum + cloud.getD k 0)).1 = placed 0 groups[k]

/-! ## Lists that end with a chunk of some length -/

/-- The last chunk is not empty. -/
def Tight (lens : List ℕ) : Prop := lens.getLast? ≠ some 0

instance (lens : List ℕ) : Decidable (Tight lens) := inferInstanceAs (Decidable (_ ≠ _))

variable {before group rest edge cloud : List ℕ}

theorem tight_nil : Tight [] := by simp [Tight]

theorem Tight.append (hbefore : Tight before) (hgroup : Tight group) : Tight (before ++ group) := by
  unfold Tight
  rcases List.eq_nil_or_concat' group with rfl | ⟨front, n, rfl⟩
  · rwa [List.append_nil]
  · rw [← List.append_assoc, List.getLast?_concat]
    rwa [Tight, List.getLast?_concat] at hgroup

theorem Tight.cons {n : ℕ} (hn : 0 < n) (h : Tight rest) : Tight (n :: rest) := by
  have hone : Tight [n] := by
    intro heq
    exact hn.ne' (Option.some.inj heq)
  exact hone.append h

/-- A chunk of a tight list starts before the list ends. -/
theorem Tight.take_sum_lt (h : Tight group) {j : ℕ} (hj : j < group.length) :
    (group.take j).sum < group.sum := by
  rcases List.eq_nil_or_concat' group with rfl | ⟨front, n, rfl⟩
  · exact absurd hj (Nat.not_lt_zero j)
  · have hn : n ≠ 0 := by
      rintro rfl
      exact h List.getLast?_concat
    have hlength : j ≤ front.length := by
      rw [List.length_append, List.length_singleton] at hj
      omega
    have hfront := sum_take_le front hlength
    rw [List.take_length] at hfront
    rw [List.take_append_of_le_length hlength, List.sum_append, List.sum_singleton]
    omega

/-- A list that reaches a sum reaches it first with a tight beginning. -/
theorem exists_tight {lens : List ℕ} {n j : ℕ} (h : (lens.take j).sum = n) :
    ∃ group rest, lens = group ++ rest ∧ group.sum = n ∧ Tight group := by
  induction lens generalizing n j with
  | nil => exact ⟨[], [], rfl, by simpa using h, tight_nil⟩
  | cons a lens ih =>
    rcases Nat.eq_zero_or_pos n with rfl | hpos
    · exact ⟨[], a :: lens, rfl, rfl, tight_nil⟩
    · rcases j with - | j
      · rw [List.take_zero, List.sum_nil] at h
        exact absurd h hpos.ne
      · rw [List.take_succ_cons, List.sum_cons] at h
        have hrest : (lens.take j).sum = n - a := by omega
        obtain ⟨group, rest, rfl, hsum, htight⟩ := ih hrest
        refine ⟨a :: group, rest, rfl, ?_, ?_⟩
        · rw [List.sum_cons, hsum]
          omega
        · rcases Nat.eq_zero_or_pos a with rfl | ha
          · -- the sum is positive and all of it is in the rest
            rcases List.eq_nil_or_concat' group with rfl | ⟨front, m, rfl⟩
            · rw [List.sum_nil] at hsum
              omega
            · rw [Tight, ← List.cons_append, List.getLast?_concat]
              rwa [Tight, List.getLast?_concat] at htight
          · exact htight.cons ha

/-! ## One group -/

/-- The first offset of the edge that reaches the end of a group. -/
theorem findChunkEnd_group (hgroup : Tight group) :
    findChunkEnd (chunkPolicy (before ++ group ++ rest)) before.length
      (before.sum + group.sum) = some (before.length + group.length) := by
  have hoffset : ∀ j ≤ group.length,
      (chunkPolicy (before ++ group ++ rest)).getD (before.length + j) 0 =
        before.sum + (group.take j).sum := by
    intro j hj
    rw [chunkPolicy_getD _ (by simp only [List.length_append]; omega), List.append_assoc,
      List.take_length_add_append, List.take_append_of_le_length hj, List.sum_append]
  unfold findChunkEnd
  rw [List.find?_range'_eq_some]
  refine ⟨?_, ?_, ?_⟩
  · rw [hoffset _ le_rfl, List.take_length]
    exact decide_eq_true le_rfl
  · rw [List.mem_range'_1, length_chunkPolicy]
    simp only [List.length_append]
    omega
  · intro i hi hlt
    obtain ⟨j, rfl⟩ := Nat.exists_eq_add_of_le hi
    have hj : j < group.length := by omega
    have hless := hgroup.take_sum_lt hj
    rw [hoffset j hj.le]
    simp only [Bool.not_eq_true', decide_eq_false_iff_not]
    omega

/-- Chunks that start before a chunk of the cloud are not received for it. -/
theorem recvLoop_before {startOffset endOffset tmp : ℕ} {recvList : List (ℤ × ℕ)} {pos : ℤ}
    (hle : startOffset ≤ endOffset) (hbefore : ∀ j < before.length,
      tmp + (before.take j).sum < startOffset) :
    ∃ pos', recvLoop startOffset endOffset (before ++ rest) tmp recvList pos =
      recvLoop startOffset endOffset rest (tmp + before.sum) recvList pos' := by
  induction before generalizing tmp pos with
  | nil => exact ⟨pos, rfl⟩
  | cons n before ih =>
    have hstart : tmp < startOffset := by simpa using hbefore 0 (Nat.zero_lt_succ _)
    rw [List.cons_append, recvLoop, if_neg (by omega), if_neg (by omega), List.sum_cons,
      ← Nat.add_assoc]
    apply ih
    intro j hj
    have hnext := hbefore (j + 1) (Nat.succ_lt_succ hj)
    rw [List.take_succ_cons, List.sum_cons] at hnext
    omega

/-- The chunks of a group are received side by side. -/
theorem recvLoop_group {startOffset endOffset tmp : ℕ} {recvList : List (ℤ × ℕ)} {pos : ℤ}
    (hgroup : ∀ j < group.length, startOffset + tmp + (group.take j).sum < endOffset)
    (hend : startOffset + tmp + group.sum = endOffset) :
    (recvLoop startOffset endOffset (group ++ rest) (startOffset + tmp) recvList pos).1 =
      recvList ++ placed tmp group := by
  induction group generalizing tmp recvList pos with
  | nil =>
    rw [placed, List.append_nil, List.nil_append]
    rw [List.sum_nil, Nat.add_zero] at hend
    cases rest with
    | nil => rfl
    | cons n rest => rw [recvLoop, if_pos hend.ge]
  | cons n group ih =>
    have hstart : startOffset + tmp < endOffset := by simpa using hgroup 0 (Nat.zero_lt_succ _)
    have hplace : ((startOffset + tmp : ℕ) : ℤ) - startOffset = tmp := by omega
    rw [List.cons_append, recvLoop, if_neg hstart.not_ge, if_pos (Nat.le_add_right _ _), hplace,
      placed, Nat.add_assoc, ih]
    · rw [List.append_assoc, List.singleton_append]
    · intro j hj
      have hnext := hgroup (j + 1) (Nat.succ_lt_succ hj)
      rw [List.take_succ_cons, List.sum_cons] at hnext
      omega
    · rw [List.sum_cons] at hend
      omega

theorem longSeqGetRecvList_group (hbefore : Tight before) (hgroup : Tight group) :
    (longSeqGetRecvList (before ++ group ++ rest) before.sum (before.sum + group.sum)).1 =
      placed 0 group := by
  have hstarts : ∀ j < before.length, 0 + (before.take j).sum < before.sum := by
    intro j hj
    rw [Nat.zero_add]
    exact hbefore.take_sum_lt hj
  have hends : ∀ j < group.length,
      before.sum + 0 + (group.take j).sum < before.sum + group.sum := fun j hj =>
    Nat.add_lt_add_left (hgroup.take_sum_lt hj) _
  obtain ⟨pos, hskip⟩ : ∃ pos, recvLoop before.sum (before.sum + group.sum)
      (before ++ (group ++ rest)) 0 [] 0 = recvLoop before.sum (before.sum + group.sum)
        (group ++ rest) (0 + before.sum) [] pos :=
    recvLoop_before (Nat.le_add_right _ _) hstarts
  rw [longSeqGetRecvList, List.append_assoc, hskip, Nat.zero_add]
  exact recvLoop_group hends rfl

/-! ## All groups -/

theorem tight_flatten {groups : List (List ℕ)} (h : ∀ g ∈ groups, Tight g) :
    Tight groups.flatten := by
  induction groups with
  | nil => exact tight_nil
  | cons g groups ih =>
    obtain ⟨hg, hgroups⟩ := List.forall_mem_cons.mp h
    rw [List.flatten_cons]
    exact hg.append (ih hgroups)

/-- The groups of all chunks, but for those at the end that are empty. -/
theorem exists_groups (hsum : edge.sum = cloud.sum)
    (hboundary : ∀ k, ∃ j, (edge.take j).sum = (cloud.take k).sum) :
    ∃ (groups : List (List ℕ)) (rest : List ℕ), edge = groups.flatten ++ rest ∧ rest.sum = 0 ∧
      (∀ g ∈ groups, Tight g) ∧ groups.map List.sum = cloud := by
  induction cloud generalizing edge with
  | nil => exact ⟨[], edge, rfl, hsum, fun g hg => absurd hg List.not_mem_nil, rfl⟩
  | cons n cloud ih =>
    obtain ⟨j, hj⟩ := hboundary 1
    rw [List.take_succ_cons, List.take_zero, List.sum_singleton] at hj
    obtain ⟨group, rest, rfl, hgroup, htight⟩ := exists_tight hj
    rw [List.sum_append, List.sum_cons, hgroup] at hsum
    -- the boundaries of the rest are those behind the group
    have hrest : rest.sum = cloud.sum := by omega
    obtain ⟨groups, tail, rfl, htail, hgroups, hsums⟩ := ih hrest fun k => by
      obtain ⟨i, hi⟩ := hboundary (k + 1)
      rw [List.take_append, List.take_succ_cons, List.sum_append, List.sum_cons] at hi
      rcases Nat.lt_or_ge i group.length with hlt | hge
      · have hle := sum_take_le group hlt.le
        rw [List.take_length, hgroup] at hle
        rw [Nat.sub_eq_zero_of_le hlt.le, List.take_zero, List.sum_nil] at hi
        exact ⟨0, by rw [List.take_zero, List.sum_nil]; omega⟩
      · rw [List.take_of_length_le hge, hgroup] at hi
        exact ⟨i - group.length, by omega⟩
    refine ⟨group :: groups, tail, ?_, htail, List.forall_mem_cons.mpr ⟨htight, hgroups⟩, ?_⟩
    · rw [List.flatten_cons, List.append_assoc]
    · rw [List.map_cons, hgroup, hsums]

/-- What the loop at the edge counts. -/
theorem foldl_groups {groups : List (List ℕ)} (hgroups : ∀ g ∈ groups, Tight g) (sizes : List ℕ) :
    (((groups.map List.sum).scanl (· + ·) before.sum).drop 1).foldl
        (eqChunkNumStep (chunkPolicy (before ++ groups.flatten ++ rest))) (sizes, before.length) =
      (sizes ++ groups.map List.length, before.length + groups.flatten.length) := by
  induction groups generalizing before sizes with
  | nil => simp
  | cons g groups ih =>
    obtain ⟨hg, hrest⟩ := List.forall_mem_cons.mp hgroups
    have hcons : (((g :: groups).map List.sum).scanl (· + ·) before.sum).drop 1 =
        (before ++ g).sum ::
          ((groups.map List.sum).scanl (· + ·) (before ++ g).sum).drop 1 := by
      rw [List.map_cons, List.scanl_cons, List.sum_append]
      cases groups <;> simp
    have hsplit : before ++ (g :: groups).flatten ++ rest =
        before ++ g ++ groups.flatten ++ rest := by
      rw [List.flatten_cons, List.append_assoc before g]
    have hfind : findChunkEnd (chunkPolicy (before ++ g ++ (groups.flatten ++ rest)))
        before.length (before.sum + g.sum) = some (before.length + g.length) :=
      findChunkEnd_group hg
    rw [← List.append_assoc] at hfind
    have hstep : eqChunkNumStep (chunkPolicy (before ++ g ++ groups.flatten ++ rest))
        (sizes, before.length) (before ++ g).sum = (sizes ++ [g.length], (before ++ g).length) := by
      rw [eqChunkNumStep, List.sum_append, hfind, List.length_append]
      simp only [Nat.add_sub_cancel_left]
    rw [hcons, hsplit, List.foldl_cons, hstep, ih hrest]
    simp only [List.map_cons, List.flatten_cons, List.length_append, List.append_assoc,
      List.singleton_append, Nat.add_assoc]

/-- The sizes that the edge computes. -/
theorem getCloudEqEdgePrefillChunkNumList_groups {groups : List (List ℕ)}
    (hgroups : ∀ g ∈ groups, Tight g) :
    getCloudEqEdgePrefillChunkNumList (chunkPolicy (groups.flatten ++ rest))
      (chunkPolicy (groups.map List.sum)) = groups.map List.length := by
  have hfold := @foldl_groups [] rest groups hgroups []
  rw [List.nil_append, List.nil_append] at hfold
  rw [getCloudEqEdgePrefillChunkNumList]
  exact congrArg Prod.fst hfold

/-- What the cloud receives for a chunk. -/
theorem longSeqGetRecvList_groups {groups : List (List ℕ)} (hgroups : ∀ g ∈ groups, Tight g)
    {k : ℕ} (hk : k < groups.length) :
    (longSeqGetRecvList (groups.flatten ++ rest) ((groups.map List.sum).take k).sum
      (((groups.map List.sum).take k).sum + (groups.map List.sum).getD k 0)).1 =
      placed 0 groups[k] := by
  have hsplit : groups.flatten ++ rest =
      (groups.take k).flatten ++ groups[k] ++ ((groups.drop (k + 1)).flatten ++ rest) := by
    conv_lhs => rw [← List.take_append_drop k groups, List.drop_eq_getElem_cons hk]
    simp only [List.flatten_append, List.flatten_cons, List.append_assoc]
  have hstart : ((groups.map List.sum).take k).sum = (groups.take k).flatten.sum := by
    rw [← List.map_take, List.sum_flatten]
  have hlength : (groups.map List.sum).getD k 0 = groups[k].sum := by
    rw [List.getD_eq_getElem _ _ (by rwa [List.length_map]), List.getElem_map]
  rw [hsplit, hstart, hlength]
  apply longSeqGetRecvList_group
  · exact tight_flatten fun g hg => hgroups g (List.mem_of_mem_take hg)
  · exact hgroups _ (List.getElem_mem hk)

/-- The offsets are the sums of the first chunks. -/
theorem mem_chunkPolicy {lens : List ℕ} {x : ℕ} :
    x ∈ chunkPolicy lens ↔ ∃ i ≤ lens.length, (lens.take i).sum = x := by
  constructor
  · intro hx
    obtain ⟨i, hi, rfl⟩ := List.mem_iff_getElem.mp hx
    rw [length_chunkPolicy] at hi
    refine ⟨i, Nat.le_of_lt_succ hi, ?_⟩
    rw [← chunkPolicy_getD lens (Nat.le_of_lt_succ hi), List.getD_eq_getElem]
  · rintro ⟨i, hi, rfl⟩
    rw [← chunkPolicy_getD lens hi, List.getD_eq_getElem _ _ (by rw [length_chunkPolicy]; omega)]
    exact List.getElem_mem _

/-- **The partition of both sides.** Where every boundary of the cloud is one of the edge, the two
sides go by one partition if and only if the last chunk of the edge, if there is one, is not
empty. -/
theorem samePartition_iff {edge cloud : List ℕ} (hsum : edge.sum = cloud.sum)
    (hboundary : ∀ x ∈ chunkPolicy cloud, x ∈ chunkPolicy edge) :
    SamePartition edge cloud ↔ edge.getLast? ≠ some 0 := by
  have htakes : ∀ k, ∃ j, (edge.take j).sum = (cloud.take k).sum := by
    intro k
    have hmem : (cloud.take k).sum ∈ chunkPolicy cloud := by
      refine mem_chunkPolicy.mpr ⟨min k cloud.length, Nat.min_le_right _ _, ?_⟩
      rw [← List.take_eq_take_min]
    obtain ⟨j, -, hj⟩ := mem_chunkPolicy.mp (hboundary _ hmem)
    exact ⟨j, hj⟩
  obtain ⟨groups, rest, rfl, hrest, htight, rfl⟩ := exists_groups hsum htakes
  constructor
  · rintro ⟨groups', hflatten, hsizes, -, -⟩
    -- the sizes leave out the empty chunks at the end
    rw [getCloudEqEdgePrefillChunkNumList_groups htight] at hsizes
    have hlength := congrArg List.length hflatten
    rw [List.length_flatten, ← hsizes, ← List.length_flatten, List.length_append] at hlength
    obtain rfl := List.eq_nil_of_length_eq_zero (by omega : rest.length = 0)
    rw [List.append_nil]
    exact tight_flatten htight
  · intro hlast
    have hnil : rest = [] := by
      rcases List.eq_nil_or_concat' rest with rfl | ⟨front, n, rfl⟩
      · rfl
      · rw [List.sum_append, List.sum_singleton] at hrest
        rw [← List.append_assoc, List.getLast?_concat] at hlast
        exact absurd (congrArg some (show n = 0 by omega)) hlast
    subst hnil
    exact ⟨groups, (List.append_nil _).symm, getCloudEqEdgePrefillChunkNumList_groups htight, rfl,
      fun k hk => longSeqGetRecvList_groups htight hk⟩

/-- The example of the chunk manager: the cloud's first chunk is two of the edge, its second one
three. -/
theorem samePartition_ratios : SamePartition [6, 4, 2, 2, 2] [10, 6] := by
  refine (samePartition_iff ?_ ?_).mpr ?_
  all_goals decide

/-- A rank with one token, cut in two: the second chunk is empty, and in no group. -/
theorem not_samePartition_empty :
    ¬ ∀ edge cloud : List ℕ, edge.sum = cloud.sum →
      (∀ x ∈ chunkPolicy cloud, x ∈ chunkPolicy edge) → SamePartition edge cloud := by
  intro h
  have hsame := h (splitLongSeqByChunkNum 1 2) (splitLongSeqByChunkNum 1 2) rfl fun x hx => hx
  obtain ⟨groups, hflatten, hsizes, -, -⟩ := hsame
  have hlength := congrArg List.length hflatten
  rw [List.length_flatten, ← hsizes] at hlength
  exact absurd hlength (by decide)

end MindieLLM.Layerwise
