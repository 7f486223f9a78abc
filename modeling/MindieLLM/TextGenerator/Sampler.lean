import MindieLLM.TextGenerator.SamplingOutput
import Mathlib.Data.Bool.Count

/-!
# A batch of which some requests use beam search

The requests with beam search go to one selector and the others to another one, and the outputs of
the two are put together in the order of the batch.

## Main definitions

* `RightlyMerged`: what the split and the merge are for

## Main results

* `merged_mergeSamplingOutput`: the groups are merged in the order of the batch
* `rightlyMerged_iff`: when each row has its parameters, and its parent
-/

namespace MindieLLM

open Program SamplingMetadata SamplingOutput

namespace Sampler

variable {F G L : Type}

variable {m : SamplingMetadata F G} {flags : List Bool} {first second : SamplingOutput F}

/-- **The outputs are merged** group by group, and a row points to the rows of the batch that have
the id of its parent. -/
theorem merged_mergeSamplingOutput [IntCast F] (m : SamplingMetadata F G)
    (h : Outputs flags first second) (hne : flags ≠ []) :
    ∃ out, mergeSamplingOutput m first second (beamIndices flags) = some out ∧
      Merged flags first second out ∧
      out.repeatingIndices = whereParents out.parentSequenceIds m.allSequenceIds ∧
      ∀ p, p ∈ out.parentSequenceIds ↔
        p ∈ first.parentSequenceIds ++ second.parentSequenceIds := by
  let width := max first.topTokenIds.width second.topTokenIds.width
  have hwidth : ∀ b, (selected first second b).topTokenIds.width ≤ width ∧
      (selected first second b).topLogprobs.width =
        (selected first second b).topTokenIds.width := by
    intro b
    cases b with
    | true =>
      obtain ⟨ht, hl⟩ := width_withSeeds first second
      exact ⟨ht.le.trans (Nat.le_max_left _ _), hl.trans (h.first_width.trans ht.symm)⟩
    | false =>
      obtain ⟨ht, hl⟩ := width_withSeeds second first
      exact ⟨ht.le.trans (Nat.le_max_right _ _), hl.trans (h.second_width.trans ht.symm)⟩
  have hm : Mergeable flags (selected first second) width :=
    { h.counted with
      not_empty := hne
      topTokenIds_width := fun b => (hwidth b).1
      topLogprobs_width := fun b => (hwidth b).2
      numTopTokens := h.numTopTokens_selected
      seeds := seeds_selected first second }
  obtain ⟨topTokenIds, topLogprobs, hparts, htokens, hlogprobs⟩ :=
    concatenateParts_of hne m.allSequenceIds
      (fun b => ⟨(hwidth b).1, (hwidth b).2.le.trans (hwidth b).1⟩)
  have haligned : Aligned (result flags (selected first second) m.allSequenceIds topTokenIds
      topLogprobs).toOutputRows _ := aligned_result hm htokens hlogprobs
  have hgroups : first.groupIndices.length + second.groupIndices.length = flags.length := by
    rw [h.first_length, h.second_length]
    exact List.count_add_count_not flags true
  refine ⟨result flags (selected first second) m.allSequenceIds topTokenIds topLogprobs,
    ?_, ?_, rfl, ?_⟩
  · have hlen : first.groupIndices.length = (beamIndices flags).length := by
      rw [h.first_length, beamIndices, length_keep List.length_range.symm]
    have hloop := foldlM_mergeGroup h.counted (Nat.le_refl flags.length)
    rw [mergeSamplingOutput, if_neg (not_not.mpr hlen), hgroups]
    exact (congrArg (Option.bind · _) hloop).trans hparts
  · have hsizes : ∀ b, (selected first second b).sizes.length = flags.count b :=
      fun b => (List.length_map _).trans (h.counted.groups_length b)
    have htrue : (selected first second true).sizes = first.sizes :=
      congrArg (List.map _) (groupIndices_withSeeds first second)
    have hfalse : (selected first second false).sizes = second.sizes :=
      congrArg (List.map _) (groupIndices_withSeeds second first)
    have hout : (result flags (selected first second) m.allSequenceIds topTokenIds
        topLogprobs).sizes =
          (List.range flags.length).map (partSize flags (selected first second)) :=
      map_sub_intervals 0 _
    refine ⟨⟨?_, ?_⟩, ?_, ?_, ?_⟩
    · rw [hout]
      rfl
    · rw [hout]
      exact haligned
    · exact (length_intervals 0 _).trans ((List.length_map _).trans List.length_range)
    · have hsum := sum_partSize h.counted (Nat.le_refl flags.length)
      rw [List.take_length, ← hsizes true, ← hsizes false, List.take_length, List.take_length,
        htrue, hfalse] at hsum
      rw [haligned.sequenceIds, hsum, h.first_tiled.aligned.sequenceIds,
        h.second_tiled.aligned.sequenceIds]
    · intro i b hb
      have hi := (List.getElem?_eq_some_iff.mp hb).1
      refine ⟨source flags (selected first second) i, _, getElem?_groupIndices h.counted hb,
        (getElem?_intervals 0 _ i).trans (by
          rw [List.getElem?_map, List.getElem?_range hi, Option.map_some, Option.map_some]), ?_⟩
      dsimp only
      rw [Nat.zero_add, ← List.map_take, List.take_range, Nat.min_eq_left (Nat.le_of_lt hi)]
      refine ⟨Nat.add_sub_cancel_left _ _, fun t ht => ?_⟩
      exact row_result hm htokens hlogprobs hb ht
  · intro p
    rw [List.mem_append]
    refine (mem_column h.counted (fun _ _ _ => rfl)
      (fun b => (h.counted.tiled b).aligned.parentSequenceIds)).trans ?_
    rw [Bool.exists_bool, or_comm]
    change p ∈ (first.withSeeds second).parentSequenceIds ∨
      p ∈ (second.withSeeds first).parentSequenceIds ↔ _
    rw [parentSequenceIds_withSeeds, parentSequenceIds_withSeeds]

/-- What the two steps are for: each selector has what the batch holds for its rows, and the rows
that the selectors return are those of the groups of the batch, each with the row of its parent. -/
def RightlyMerged [IntCast F] (m : SamplingMetadata F G) (flags : List Bool)
    (first second : SamplingOutput F) : Prop :=
  ∃ parts, m.splitSamplingMetadata (m.splitMask flags) = some parts ∧
    HandedTo m flags true parts.1 ∧ HandedTo m flags false parts.2.1 ∧
      ∃ out, mergeSamplingOutput m first second parts.2.2 = some out ∧
        Merged flags first second out ∧ PointsToParents m.allSequenceIds out

/-- **When each row has its parameters, and its parent.** No array may be left behind, each selector
needs a group, and the batch must have each parent once. -/
theorem rightlyMerged_iff [IntCast F] (hb : m.Batch flags) (h : Outputs flags first second) :
    RightlyMerged m flags first second ↔
      m.NothingLeft ∧ m.BothSides flags ∧
        ∀ p ∈ first.parentSequenceIds ++ second.parentSequenceIds,
          m.allSequenceIds.count p = 1 := by
  have hne : flags ≠ [] := by
    rw [ne_eq, ← List.length_eq_zero_iff, hb.flags_length, List.length_eq_zero_iff]
    exact hb.not_empty
  obtain ⟨out, hmerge, hmerged, hrepeating, hparents⟩ := merged_mergeSamplingOutput m h hne
  have hpoints : PointsToParents m.allSequenceIds out ↔
      ∀ p ∈ first.parentSequenceIds ++ second.parentSequenceIds,
        m.allSequenceIds.count p = 1 := by
    rw [pointsToParents_iff hrepeating]
    exact forall_congr' fun p => imp_congr_left (hparents p)
  constructor
  · rintro ⟨⟨retained, discarded, indices⟩, hsplit, hretained, hdiscarded, out', hout, -, hp⟩
    obtain ⟨hboth, rfl, rfl, rfl⟩ := (splitSamplingMetadata_eq_some_iff hb).mp hsplit
    obtain rfl : out = out' := Option.some.inj (hmerge.symm.trans hout)
    refine ⟨(handedTo_iff hb).mp fun side => ?_, hboth, hpoints.mp hp⟩
    cases side with
    | true => exact hretained
    | false => exact hdiscarded
  · rintro ⟨hleft, hboth, hcount⟩
    have hhanded := (handedTo_iff hb).mpr hleft
    exact ⟨_, (splitSamplingMetadata_eq_some_iff hb).mpr ⟨hboth, rfl, rfl, rfl⟩, hhanded true,
      hhanded false, out, hmerge, hmerged, hpoints.mpr hcount⟩

/-! ## A batch of two requests -/

/-- A request with beam search, and one without it. -/
def twoRequests (randomNumberGenerators : Option (List (Option Nat))) :
    SamplingMetadata Int Nat where
  batchSequenceIds := [[7], [8]]
  reservedSequenceIds := [[9], []]
  isPrefill := true
  isMix := false
  allSequenceIds := [7, 8]
  parentSequenceIds := [7, 8]
  groupIndices := [(0, 1), (1, 2)]
  topLogprobsArray := some [2, 0]
  useBeamSearchArray := some [true, false]
  randomNumberGenerators := randomNumberGenerators

theorem batch_twoRequests {gens : Option (List (Option Nat))} (h : HasRows 2 gens) :
    (twoRequests gens).Batch [true, false] where
  flags_length := rfl
  reserved_length := rfl
  groupIndices := rfl
  not_empty := List.cons_ne_nil _ _
  group_not_empty := by
    intro ids hids
    rcases List.mem_cons.mp hids with rfl | hids
    · exact List.cons_ne_nil _ _
    · rw [List.mem_singleton.mp hids]
      exact List.cons_ne_nil _ _
  aligned := by
    constructor
    all_goals
      first
      | exact h
      | exact hasRows_none
      | rfl
      | rintro _ ⟨⟩
        rfl

/-- Two rows of the beam search. -/
def twoBeams : SamplingOutput Int where
  sequenceIds := [7, 9]
  parentSequenceIds := [7, 7]
  groupIndices := [(0, 2)]
  repeatingIndices := [0, 0]
  tokenIds := [3, 4]
  logprobs := [-1, -2]
  topTokenIds := ⟨1, [[3], [3]], by decide⟩
  topLogprobs := ⟨1, [[-1], [-1]], by decide⟩
  cumulativeLogprobs := [-1, -2]
  numNewTokens := [1, 1]

def oneToken : SamplingOutput Int where
  sequenceIds := [8]
  parentSequenceIds := [8]
  groupIndices := [(0, 1)]
  repeatingIndices := [0]
  tokenIds := [5]
  logprobs := [-9999]
  topTokenIds := ⟨0, [[]], by decide⟩
  topLogprobs := ⟨0, [[]], by decide⟩
  cumulativeLogprobs := [0]
  numNewTokens := [1]
  seeds := some [11]

theorem outputs_twoRequests : Outputs [true, false] twoBeams oneToken where
  first_tiled := ⟨rfl, rfl, rfl, rfl, rfl, rfl, rfl, rfl, rfl, hasRows_none, hasRows_none⟩
  second_tiled := by
    refine ⟨rfl, rfl, rfl, rfl, rfl, rfl, rfl, rfl, rfl, hasRows_none, ?_⟩
    rintro _ ⟨⟩
    rfl
  first_length := rfl
  second_length := rfl
  first_width := rfl
  second_width := rfl
  numTopTokens := rfl

/-- Without random generators the batch is split and merged rightly. -/
theorem rightlyMerged_twoRequests :
    RightlyMerged (twoRequests none) [true, false] twoBeams oneToken := by
  refine (rightlyMerged_iff (batch_twoRequests hasRows_none) outputs_twoRequests).mpr ⟨?_, ?_, ?_⟩
  · exact ⟨rfl, rfl, rfl, rfl, rfl, hasRows_none⟩
  · exact Or.inl (by decide)
  · decide

/-- The random generators of the requests are left behind. -/
theorem not_rightlyMerged :
    ¬ RightlyMerged (twoRequests (some [some 0, some 1])) [true, false] twoBeams oneToken := by
  have hb : (twoRequests (some [some 0, some 1])).Batch [true, false] :=
    batch_twoRequests (by rintro _ ⟨⟩; rfl)
  rintro ⟨⟨retained, discarded, indices⟩, hsplit, hretained, hdiscarded, -⟩
  obtain ⟨-, rfl, rfl, -⟩ := (splitSamplingMetadata_eq_some_iff hb).mp hsplit
  have hrow := hretained.row 0 0 rfl
  have hgen := congrArg Row.randomNumberGenerator hrow
  cases hgen

end Sampler

end MindieLLM
