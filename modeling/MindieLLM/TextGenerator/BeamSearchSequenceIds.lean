import MindieLLM.Program.Repeats
import MindieLLM.TextGenerator.BeamSearchRanking

/-!
# The ids of the beams

A group that is prefilled has its own id and the reserved ones. In a group that is decoded each
parent gives its id to the first of its beams, and the other beams get the ids of the sequences that
have none. As there are as many beams as sequences, every sequence of the group gives its id once.

## Main definitions

* `Taken`: the candidates that are taken for each group

## Main results

* `newSequenceIds_eq`: each group gets different ids of its own
-/

namespace MindieLLM

open Program

namespace BeamSearchTokenSelector

variable {F G : Type}

/-- The id of the sequence of a candidate. -/
def parentIdAt (m : SamplingMetadata F G) (c : Nat × Nat) : Int := m.allSequenceIds.getD c.1 0

/-! ## The ids of the groups -/

section Ids

variable [Field F] [LinearOrder F] {p : SelectorParams} {topk : Nat → TopCandidates F}
  {m : SamplingMetadata F G} {top : TopCandidates F} {numDecode numColumns i : Nat}

theorem allSequenceIds_eq (hb : Batch p topk m numDecode) :
    m.allSequenceIds = (List.range m.batchSequenceIds.length).flatMap (groupIds m) := by
  rw [hb.allSequenceIds, List.flatMap_def]
  refine congrArg List.flatten (List.ext_getElem ?_ fun i hi _ => ?_)
  · rw [List.length_map, List.length_range]
  · rw [List.getElem_map, List.getElem_range, groupIds, List.getD_eq_getElem _ _ hi]

/-- The ids of the rows of a group. -/
theorem map_parentIdAt (hb : Batch p topk m numDecode) (hi : i < m.batchSequenceIds.length) :
    (List.range (groupWidth m i)).map (fun j => m.allSequenceIds.getD (groupStart m i + j) 0) =
      groupIds m i := by
  have hslice : slice m.allSequenceIds (groupStart m i) (groupStart m (i + 1)) = groupIds m i := by
    rw [allSequenceIds_eq hb]
    exact slice_flatMap_range (fun _ _ => rfl) hi
  apply List.ext_getElem
  · rw [List.length_map, List.length_range]
    rfl
  · intro j hj hj'
    have hlt : groupStart m i + j < groupStart m (i + 1) := by
      rw [groupStart, groupStart, sumTo_succ]
      exact Nat.add_lt_add_left hj' _
    have hget := getElem?_slice (l := m.allSequenceIds) hlt
    rw [hslice, List.getElem?_eq_getElem hj', List.getElem?_eq_getElem (row_lt hb hi hj'),
      Option.some.injEq] at hget
    rw [List.getElem_map, List.getElem_range, List.getD_eq_getElem _ _ (row_lt hb hi hj'), hget]

theorem getD_allSequenceIds_inj (hb : Batch p topk m numDecode) {r r' : Nat}
    (hr : r < m.allSequenceIds.length) (hr' : r' < m.allSequenceIds.length)
    (h : m.allSequenceIds.getD r 0 = m.allSequenceIds.getD r' 0) : r = r' := by
  rw [List.getD_eq_getElem _ _ hr, List.getD_eq_getElem _ _ hr'] at h
  exact hb.ids_nodup.getElem_inj_iff.mp h

omit [Field F] [LinearOrder F] in
/-- A sequence belongs to one group. -/
theorem group_eq_of_row_eq {i' j j' : Nat} (hj : j < groupWidth m i) (hj' : j' < groupWidth m i')
    (h : groupStart m i + j = groupStart m i' + j') : i = i' := by
  have hstep : ∀ {i i' j j' : Nat}, j < groupWidth m i →
      groupStart m i + j = groupStart m i' + j' → ¬ i < i' := by
    intro i i' j j' hj h hlt
    have hle : groupStart m (i + 1) ≤ groupStart m i' := sumTo_le _ hlt
    rw [groupStart, sumTo_succ, ← groupStart] at hle
    omega
  have hlt := hstep hj h
  have hgt := hstep hj' h.symm
  omega

end Ids

/-! ## The candidates of all groups -/

section Taken

variable [Field F] [LinearOrder F]

/-- The candidates that are taken for each group: those that end their sequence, and as many of the
others as there are beams. -/
structure Taken (m : SamplingMetadata F G) (top : TopCandidates F)
    (eos beams : Nat → List (Nat × Nat)) : Prop where
  rows : ∀ i < m.batchSequenceIds.length, ∀ c ∈ eos i ++ beams i,
    ∃ j < groupWidth m i, c.1 = groupStart m i + j
  beams_length : ∀ i < m.batchSequenceIds.length, (beams i).length = beamWidth m i
  beams_nonpos : ∀ i < m.batchSequenceIds.length, ∀ c ∈ beams i, averageAt m top c ≤ 0

def takenPicks (m : SamplingMetadata F G) (top : TopCandidates F)
    (eos beams : Nat → List (Nat × Nat)) (i : Nat) : List (Pick F) :=
  (eos i).map (eosPick F) ++ (beams i).map (beamPick m top)

end Taken

/-! ## The first beams of their parents -/

section NewSequences

variable [Field F] [LinearOrder F] {usedIds usedIds' : List Int} {l l' : List (Int × WithBot F)}

theorem newSequenceMask_congr (h : ∀ x ∈ l, x.1 ∈ usedIds ↔ x.1 ∈ usedIds') :
    newSequenceMask usedIds l = newSequenceMask usedIds' l := by
  induction l generalizing usedIds usedIds' with
  | nil => rfl
  | cons x l ih =>
    obtain ⟨id, score⟩ := x
    have hid : id ∈ usedIds ↔ id ∈ usedIds' := h _ List.mem_cons_self
    have hrest : ∀ x ∈ l, x.1 ∈ usedIds ↔ x.1 ∈ usedIds' :=
      fun x hx => h x (List.mem_cons_of_mem _ hx)
    have hmore : ∀ x ∈ l, x.1 ∈ id :: usedIds ↔ x.1 ∈ id :: usedIds' := by
      intro x hx
      rw [List.mem_cons, List.mem_cons, hrest x hx]
    rw [newSequenceMask, newSequenceMask, ih hrest, ih hmore]
    exact if_congr (and_congr_left' hid) rfl rfl

/-- Other ids do not count. -/
theorem newSequenceMask_append (h : ∀ x ∈ l, ∀ y ∈ l', x.1 ≠ y.1) :
    newSequenceMask usedIds (l ++ l') =
      newSequenceMask usedIds l ++ newSequenceMask usedIds l' := by
  induction l generalizing usedIds with
  | nil => rfl
  | cons x l ih =>
    obtain ⟨id, score⟩ := x
    have hrest : ∀ x ∈ l, ∀ y ∈ l', x.1 ≠ y.1 := fun x hx => h x (List.mem_cons_of_mem _ hx)
    have hmore : newSequenceMask (id :: usedIds) l' = newSequenceMask usedIds l' := by
      refine newSequenceMask_congr fun y hy => ?_
      rw [List.mem_cons]
      exact or_iff_right fun heq => h _ List.mem_cons_self y hy heq.symm
    rw [List.cons_append, newSequenceMask, newSequenceMask, ih hrest, ih hrest, hmore]
    split
    · rfl
    · split <;> rfl

theorem newSequenceMask_flatMap {row : Nat → List (Int × WithBot F)} {n : Nat}
    (h : ∀ i < n, ∀ i' < n, i ≠ i' → ∀ x ∈ row i, ∀ y ∈ row i', x.1 ≠ y.1) :
    newSequenceMask [] ((List.range n).flatMap row) =
      (List.range n).flatMap fun i => newSequenceMask [] (row i) := by
  induction n with
  | zero => rfl
  | succ n ih =>
    rw [List.range_succ, List.flatMap_append, List.flatMap_append, List.flatMap_singleton,
      List.flatMap_singleton, newSequenceMask_append, ih]
    · intro i hi i' hi'
      exact h i (Nat.lt_succ_of_lt hi) i' (Nat.lt_succ_of_lt hi')
    · intro x hx y hy
      obtain ⟨i, hi, hx⟩ := List.mem_flatMap.mp hx
      have hlt := List.mem_range.mp hi
      exact h i (Nat.lt_succ_of_lt hlt) n (Nat.lt_succ_self n) (Nat.ne_of_lt hlt) x hx y hy

variable [IsStrictOrderedRing F]

/-- What ends its sequence is passed over. -/
theorem newSequenceMask_eq {f : Nat × Nat → Int} {score : Nat × Nat → F}
    {eos beams : List (Nat × Nat)} (h : ∀ c ∈ beams, score c ≤ 0) :
    newSequenceMask usedIds (eos.map (fun c => (f c, (1 : WithBot F))) ++
        beams.map fun c => (f c, ((score c : F) : WithBot F))) =
      List.replicate eos.length false ++ repeatMask usedIds (beams.map f) := by
  have hpos : (0 : WithBot F) < 1 := WithBot.coe_lt_coe.mpr (zero_lt_one (α := F))
  induction eos with
  | nil =>
    rw [List.map_nil, List.nil_append, List.length_nil, List.replicate_zero, List.nil_append]
    induction beams generalizing usedIds with
    | nil => rfl
    | cons c beams ih =>
      have hscore : ((score c : F) : WithBot F) ≤ 0 :=
        WithBot.coe_le_coe.mpr (h c List.mem_cons_self)
      have hrest := fun c hc => h c (List.mem_cons_of_mem _ hc)
      rw [List.map_cons, List.map_cons, newSequenceMask, repeatMask]
      by_cases hused : f c ∈ usedIds
      · rw [if_pos ⟨hused, hscore⟩, if_pos hused, ih hrest]
      · rw [if_neg fun hand => hused hand.1, if_neg (not_lt_of_ge hscore), if_neg hused, ih hrest]
  | cons c eos ih =>
    rw [List.map_cons, List.cons_append, newSequenceMask,
      if_neg fun hand => not_le_of_gt hpos hand.2, if_pos hpos, ih, List.length_cons,
      List.replicate_succ, List.cons_append]

end NewSequences

/-! ## The groups that are decoded -/

section Decode

variable [Field F] [LinearOrder F] [IsStrictOrderedRing F] {p : SelectorParams}
  {topk : Nat → TopCandidates F} {m : SamplingMetadata F G} {top : TopCandidates F}
  {numDecode numColumns i : Nat} {eos beams : Nat → List (Nat × Nat)}

omit [IsStrictOrderedRing F] in
theorem row_lt_of_taken (hb : Batch p topk m numDecode) (ht : Taken m top eos beams)
    (hi : i < m.batchSequenceIds.length) {c : Nat × Nat} (hc : c ∈ eos i ++ beams i) :
    c.1 < m.allSequenceIds.length := by
  obtain ⟨j, hj, hrow⟩ := ht.rows i hi c hc
  rw [hrow]
  exact row_lt hb hi hj

omit [LinearOrder F] [IsStrictOrderedRing F] in
theorem map_takenPicks {α : Type} (f : Pick F → α) (i : Nat) :
    (takenPicks m top eos beams i).map f =
      (eos i).map (fun c => f (eosPick F c)) ++ (beams i).map fun c => f (beamPick m top c) := by
  rw [takenPicks, List.map_append, List.map_map, List.map_map]
  rfl

omit [IsStrictOrderedRing F] in
/-- The sequences of the first groups without a beam. -/
theorem freeRows_eq (hb : Batch p topk m numDecode) (ht : Taken m top eos beams) :
    (List.range (groupStart m numDecode)).filter (· ∉
        (((List.range numDecode).flatMap (takenPicks m top eos beams)).filter (·.isBeam)).map
          (·.rowId)) =
      (List.range numDecode).flatMap fun i =>
        ((List.range (groupWidth m i)).map (groupStart m i + ·)).filter
          (· ∉ (beams i).map Prod.fst) := by
  have hbeams : ∀ i, ((takenPicks m top eos beams i).filter (·.isBeam)).map (·.rowId) =
      (beams i).map Prod.fst := by
    intro i
    have heos : ((eos i).map (eosPick F)).filter (·.isBeam) = [] := by
      refine List.filter_eq_nil_iff.mpr fun k hk => ?_
      obtain ⟨c, -, rfl⟩ := List.mem_map.mp hk
      exact Bool.false_ne_true
    have hall : ((beams i).map (beamPick m top)).filter (·.isBeam) =
        (beams i).map (beamPick m top) := by
      refine List.filter_eq_self.mpr fun k hk => ?_
      obtain ⟨c, -, rfl⟩ := List.mem_map.mp hk
      rfl
    rw [takenPicks, List.filter_append, heos, hall, List.nil_append, List.map_map]
    rfl
  rw [groupStart, range_sumTo, List.filter_flatMap, List.filter_flatMap, List.map_flatMap]
  simp only [hbeams]
  refine List.flatMap_congr fun i hi => List.filter_congr fun r hr => ?_
  have hi := List.mem_range.mp hi
  obtain ⟨j, hj, rfl⟩ := List.mem_map.mp hr
  have hj := List.mem_range.mp hj
  -- A beam in the row of this group is one of this group.
  rw [decide_eq_decide, not_iff_not, List.mem_flatMap]
  constructor
  · rintro ⟨i', hi', hmem⟩
    have hi' := List.mem_range.mp hi'
    obtain ⟨c, hc, hrow⟩ := List.mem_map.mp hmem
    obtain ⟨j', hj', hrow'⟩ := ht.rows i' (Nat.lt_of_lt_of_le hi' hb.numDecode_le) c
      (List.mem_append_right _ hc)
    obtain rfl := group_eq_of_row_eq (m := m) hj hj' (hrow.symm.trans hrow')
    exact hmem
  · exact fun hmem => ⟨i, List.mem_range.mpr hi, hmem⟩

/-- Which beams are not the first of their parents. -/
theorem newSequenceMask_takenPicks (hb : Batch p topk m numDecode) (ht : Taken m top eos beams) :
    newSequenceMask [] (((List.range numDecode).flatMap (takenPicks m top eos beams)).map
        fun k => (m.allSequenceIds.getD k.rowId 0, k.score)) =
      (List.range numDecode).flatMap fun i =>
        List.replicate (eos i).length false ++ repeatMask [] ((beams i).map Prod.fst) := by
  rw [List.map_flatMap, newSequenceMask_flatMap]
  · refine List.flatMap_congr fun i hi => ?_
    have hi := Nat.lt_of_lt_of_le (List.mem_range.mp hi) hb.numDecode_le
    rw [map_takenPicks]
    refine (newSequenceMask_eq (f := parentIdAt m) (ht.beams_nonpos i hi)).trans ?_
    have hrows : (beams i).map (parentIdAt m) =
        ((beams i).map Prod.fst).map (m.allSequenceIds.getD · 0) := by
      rw [List.map_map]
      rfl
    have hlt : ∀ r ∈ [] ++ (beams i).map Prod.fst, r < m.allSequenceIds.length := by
      intro r hr
      obtain ⟨c, hc, rfl⟩ := List.mem_map.mp hr
      exact row_lt_of_taken hb ht hi (List.mem_append_right _ hc)
    have hsame := repeatMask_map (f := (m.allSequenceIds.getD · 0))
      fun r hr r' hr' h => getD_allSequenceIds_inj hb (hlt r hr) (hlt r' hr') h
    rw [hrows]
    exact congrArg _ hsame
  · intro i hi i' hi' hne x hx y hy heq
    have hi := Nat.lt_of_lt_of_le hi hb.numDecode_le
    have hi' := Nat.lt_of_lt_of_le hi' hb.numDecode_le
    have hparent : ∀ i x, x ∈ (takenPicks m top eos beams i).map
        (fun k => (m.allSequenceIds.getD k.rowId 0, k.score)) →
          ∃ c ∈ eos i ++ beams i, x.1 = m.allSequenceIds.getD c.1 0 := by
      intro i x hx
      rw [map_takenPicks] at hx
      rcases List.mem_append.mp hx with hx | hx
      · obtain ⟨c, hc, rfl⟩ := List.mem_map.mp hx
        exact ⟨c, List.mem_append_left _ hc, rfl⟩
      · obtain ⟨c, hc, rfl⟩ := List.mem_map.mp hx
        exact ⟨c, List.mem_append_right _ hc, rfl⟩
    obtain ⟨c, hc, hxc⟩ := hparent i x hx
    obtain ⟨c', hc', hyc⟩ := hparent i' y hy
    obtain ⟨j, hj, hrow⟩ := ht.rows i hi c hc
    obtain ⟨j', hj', hrow'⟩ := ht.rows i' hi' c' hc'
    have hsame := getD_allSequenceIds_inj hb (row_lt_of_taken hb ht hi hc)
      (row_lt_of_taken hb ht hi' hc') (hxc.symm.trans (heq.trans hyc))
    exact hne (group_eq_of_row_eq hj hj' (by rw [← hrow, ← hrow', hsame]))

/-- The ids of the groups that are decoded, and in front of them those of the parents of what ends
its sequence. -/
theorem decodeSequenceIds_eq (hb : Batch p topk m numDecode) (ht : Taken m top eos beams)
    {parentSequenceIds : List Int}
    (hparents : parentSequenceIds = ((List.range m.batchSequenceIds.length).flatMap
      (takenPicks m top eos beams)).map fun k => m.allSequenceIds.getD k.rowId 0)
    (hgroups : bound m.batchSequenceIds.length (decodeReqLastIdx m parentSequenceIds) = numDecode)
    (hseqs : bound m.allSequenceIds.length (decodeReqLastIdx m parentSequenceIds) =
      groupStart m numDecode) :
    ∃ ids : Nat → List Int, (∀ i < numDecode, (ids i).Perm (groupIds m i)) ∧
      decodeSequenceIds m m.allSequenceIds.length
          ((List.range m.batchSequenceIds.length).map (takenPicks m top eos beams))
          parentSequenceIds =
        some ((List.range numDecode).flatMap fun i => (eos i).map (parentIdAt m) ++ ids i) := by
  have hle := hb.numDecode_le
  set picks := (List.range numDecode).flatMap (takenPicks m top eos beams) with hpicks
  obtain ⟨rest, hrest⟩ : ∃ rest, (List.range m.batchSequenceIds.length).flatMap
      (takenPicks m top eos beams) = picks ++ rest := by
    obtain ⟨k, hk⟩ := Nat.exists_eq_add_of_le hle
    rw [hk, List.range_add, List.flatMap_append]
    exact ⟨_, rfl⟩
  have hdecoded : (pySlice ((List.range m.batchSequenceIds.length).map
      (takenPicks m top eos beams)) 0 (decodeReqLastIdx m parentSequenceIds)).flatten = picks := by
    rw [pySlice_zero (by rw [List.length_map, List.length_range]) hgroups, ← List.map_take,
      List.take_range, Nat.min_eq_left hle, ← List.flatMap_def]
  have hrows : pySlice (List.range m.allSequenceIds.length) 0
      (decodeReqLastIdx m parentSequenceIds) = List.range (groupStart m numDecode) := by
    have hstart : groupStart m numDecode ≤ m.allSequenceIds.length := by
      rw [batch_ids_length hb]
      exact sumTo_le _ hle
    rw [pySlice_zero List.length_range hseqs, List.take_range, Nat.min_eq_left hstart]
  have hzip : (parentSequenceIds.take picks.length).zip
      ((((List.range m.batchSequenceIds.length).map (takenPicks m top eos beams)).flatten).map
        (·.score)) = picks.map fun k => (m.allSequenceIds.getD k.rowId 0, k.score) := by
    rw [hparents, ← List.flatMap_def, hrest, List.map_append, List.map_append,
      List.take_left' (List.length_map _)]
    have hlength : (picks.map fun k => m.allSequenceIds.getD k.rowId 0).length =
        (picks.map (·.score)).length := by
      rw [List.length_map, List.length_map]
    rw [← List.append_nil (picks.map fun k => m.allSequenceIds.getD k.rowId 0),
      List.zip_append hlength, List.zip_nil_left, List.append_nil, List.zip_map']
  -- In each group the beams that are not the first of their parents get the free rows.
  have hfill : ∀ i, ∃ rows : List Nat, i < numDecode →
      rows.Perm ((List.range (groupWidth m i)).map (groupStart m i + ·)) ∧
      fillMask (List.replicate (eos i).length false ++ repeatMask [] ((beams i).map Prod.fst))
        ((takenPicks m top eos beams i).map (·.rowId))
        (((List.range (groupWidth m i)).map (groupStart m i + ·)).filter
          (· ∉ (beams i).map Prod.fst)) = some ((eos i).map Prod.fst ++ rows) := by
    intro i
    by_cases hi : i < numDecode
    · have hlt := Nat.lt_of_lt_of_le hi hle
      have hnodup : ((List.range (groupWidth m i)).map (groupStart m i + ·)).Nodup :=
        List.nodup_range.map fun _ _ h => Nat.add_left_cancel h
      have hsub : ∀ r ∈ (beams i).map Prod.fst,
          r ∈ (List.range (groupWidth m i)).map (groupStart m i + ·) := by
        intro r hr
        obtain ⟨c, hc, rfl⟩ := List.mem_map.mp hr
        obtain ⟨j, hj, hrow⟩ := ht.rows i hlt c (List.mem_append_right _ hc)
        rw [hrow]
        exact List.mem_map_of_mem (List.mem_range.mpr hj)
      obtain ⟨rows, hfill, hperm⟩ := exists_fillMask_repeatMask hnodup hsub (by
        rw [List.length_map, List.length_map, List.length_range, ht.beams_length i hlt,
          hb.decode i hi])
      refine ⟨rows, fun _ => ⟨hperm, ?_⟩⟩
      have hfalse := fillMask_false ((eos i).map Prod.fst)
      rw [List.length_map] at hfalse
      rw [map_takenPicks]
      exact fillMask_append hfalse hfill
    · exact ⟨[], fun h => absurd h hi⟩
  choose rows hrows' using hfill
  refine ⟨fun i => (rows i).map (m.allSequenceIds.getD · 0), fun i hi => ?_, ?_⟩
  · rw [← map_parentIdAt hb (Nat.lt_of_lt_of_le hi hle)]
    have hperm := (hrows' i hi).1.map (m.allSequenceIds.getD · 0)
    rwa [List.map_map] at hperm
  · have hassign := assignMask_eq_some (fillMask_flatMap (l := List.range numDecode)
      fun i hi => (hrows' i (List.mem_range.mp hi)).2)
    simp only [decodeSequenceIds, hdecoded, hrows, hzip]
    rw [newSequenceMask_takenPicks hb ht, freeRows_eq hb ht, hpicks, List.map_flatMap, hassign,
      Option.bind_some]
    refine (mapM_eq_some_map (g := (m.allSequenceIds.getD · 0)) fun r hr => ?_).trans ?_
    · obtain ⟨i, hi, hr⟩ := List.mem_flatMap.mp hr
      have hi := List.mem_range.mp hi
      have hlt := Nat.lt_of_lt_of_le hi hle
      have hrow : r < m.allSequenceIds.length := by
        rcases List.mem_append.mp hr with hr | hr
        · obtain ⟨c, hc, rfl⟩ := List.mem_map.mp hr
          exact row_lt_of_taken hb ht hlt (List.mem_append_left _ hc)
        · obtain ⟨j, hj, rfl⟩ := List.mem_map.mp ((hrows' i hi).1.mem_iff.mp hr)
          exact row_lt hb hlt (List.mem_range.mp hj)
      rw [List.getElem?_eq_getElem hrow, List.getD_eq_getElem _ _ hrow]
    · rw [List.map_flatMap]
      refine congrArg some (List.flatMap_congr fun i _ => ?_)
      rw [List.map_append, List.map_map]
      rfl

end Decode

/-! ## All groups -/

section All

variable [Field F] [LinearOrder F] {p : SelectorParams} {topk : Nat → TopCandidates F}
  {m : SamplingMetadata F G} {top : TopCandidates F} {numDecode i : Nat}
  {eos beams : Nat → List (Nat × Nat)}

/-- The ids of the groups that are prefilled: their own and those reserved for them. -/
theorem prefillSequenceIds_eq (hb : Batch p topk m numDecode) {count : Nat}
    (hcount : numDecode + count = m.batchSequenceIds.length) :
    prefillSequenceIds m count ((List.range m.batchSequenceIds.length).map fun i =>
        (eos i).length) =
      some (((List.range m.batchSequenceIds.length).drop numDecode).flatMap fun i =>
        List.replicate (eos i).length (-1) ++ groupIds m i ++ reservedIds m i) := by
  have hlast : ∀ {α : Type} {xs : List α}, xs.length = m.batchSequenceIds.length →
      lastN count xs = some (xs.drop numDecode) := by
    intro α xs hxs
    have hsub : xs.length - count = numDecode := by omega
    rw [lastN, if_pos (by omega), hsub]
  have hget : ∀ {α : Type} {xs : List (List α)}, xs.length = m.batchSequenceIds.length →
      xs = (List.range m.batchSequenceIds.length).map fun i => xs.getD i [] := by
    intro α xs hxs
    apply List.ext_getElem
    · rw [hxs, List.length_map, List.length_range]
    · intro i hi _
      rw [List.getElem_map, List.getElem_range, List.getD_eq_getElem _ _ hi]
  rw [prefillSequenceIds, hlast (by rw [List.length_map, List.length_range]), hlast rfl,
    hlast hb.reserved_length]
  simp only [Option.bind_eq_bind, Option.bind_some]
  conv_lhs => rw [hget (Eq.refl m.batchSequenceIds.length), hget hb.reserved_length]
  rw [← List.map_drop, ← List.map_drop, ← List.map_drop, List.length_map, List.length_range,
    List.zip_map', List.zip_map', List.flatMap_map]
  rfl

/-- Groups that are prefilled have one sequence each. -/
theorem groupStart_length (hb : Batch p topk m numDecode) {k : Nat}
    (hk : numDecode + k ≤ m.batchSequenceIds.length) :
    groupStart m (numDecode + k) = groupStart m numDecode + k := by
  induction k with
  | zero => rfl
  | succ k ih =>
    have hone := (hb.prefill (numDecode + k) (by omega) (Nat.le_add_right _ _)).1
    rw [← Nat.add_assoc, groupStart, sumTo_succ, ← groupStart, ih (by omega), hone]
    rfl

/-- A group has at least one sequence. -/
theorem le_groupStart (hb : Batch p topk m numDecode) {k : Nat}
    (hk : k ≤ m.batchSequenceIds.length) : k ≤ groupStart m k := by
  induction k with
  | zero => exact Nat.zero_le _
  | succ k ih =>
    have hpos := hb.group_pos k hk
    rw [groupStart, sumTo_succ, ← groupStart]
    exact Nat.add_le_add (ih (Nat.le_of_succ_le hk)) hpos

/-- The slices end behind the groups that are decoded. -/
theorem bound_decodeReqLastIdx (hb : Batch p topk m numDecode) (ht : Taken m top eos beams)
    {parentSequenceIds : List Int}
    (hparents : parentSequenceIds = ((List.range m.batchSequenceIds.length).flatMap
      (takenPicks m top eos beams)).map fun k => m.allSequenceIds.getD k.rowId 0)
    (hcount : numDecode + (m.isSeqPrefill.getD []).count true = m.batchSequenceIds.length) :
    bound m.batchSequenceIds.length (decodeReqLastIdx m parentSequenceIds) = numDecode ∧
      bound m.allSequenceIds.length (decodeReqLastIdx m parentSequenceIds) =
        groupStart m numDecode := by
  have hseqs : m.allSequenceIds.length =
      groupStart m numDecode + (m.isSeqPrefill.getD []).count true := by
    rw [batch_ids_length hb, ← groupStart_length hb (Nat.le_of_eq hcount), hcount]
  by_cases hzero : (m.isSeqPrefill.getD []).count true = 0
  · have hlast : decodeReqLastIdx m parentSequenceIds = (parentSequenceIds.length : Int) :=
      if_neg (not_not_intro hzero)
    have hlength : groupStart m m.batchSequenceIds.length ≤ parentSequenceIds.length := by
      rw [hparents, List.length_map, length_flatMap_range fun _ _ => rfl]
      refine sumTo_mono fun i hi => ?_
      rw [takenPicks, List.length_append, List.length_map, List.length_map, ht.beams_length i hi,
        ← hb.decode i (by omega)]
      exact Nat.le_add_left _ _
    have hgroups := le_groupStart hb (Nat.le_refl m.batchSequenceIds.length)
    have hall := batch_ids_length hb
    rw [hlast, bound, bound, if_neg (by omega), if_neg (by omega), Int.toNat_natCast]
    omega
  · have hlast : decodeReqLastIdx m parentSequenceIds =
        -((m.isSeqPrefill.getD []).count true : Nat) := if_pos hzero
    rw [hlast, bound, bound, if_pos (by omega), if_pos (by omega)]
    omega

variable [IsStrictOrderedRing F]

/-- **Each group gets different ids of its own.** In front of them there is an id for each candidate
that ends its sequence. -/
theorem newSequenceIds_eq (hb : Batch p topk m numDecode) (ht : Taken m top eos beams)
    {parentSequenceIds : List Int}
    (hparents : parentSequenceIds = ((List.range m.batchSequenceIds.length).flatMap
      (takenPicks m top eos beams)).map fun k => m.allSequenceIds.getD k.rowId 0) :
    ∃ front ids : Nat → List Int, (∀ i < m.batchSequenceIds.length,
        (front i).length = (eos i).length ∧ (ids i).length = beamWidth m i ∧ (ids i).Nodup ∧
          ∀ id ∈ ids i, id ∈ groupIds m i ++ reservedIds m i) ∧
      newSequenceIds p m m.allSequenceIds.length
          ((List.range m.batchSequenceIds.length).map fun i => (eos i).length)
          ((List.range m.batchSequenceIds.length).map (takenPicks m top eos beams))
          parentSequenceIds =
        some ((List.range m.batchSequenceIds.length).flatMap fun i => front i ++ ids i) := by
  have hle := hb.numDecode_le
  have hsplit : ∀ f : Nat → List Int, (List.range m.batchSequenceIds.length).flatMap f =
      (List.range numDecode).flatMap f ++
        ((List.range m.batchSequenceIds.length).drop numDecode).flatMap f := by
    intro f
    rw [← List.flatMap_append, ← Nat.min_eq_left hle, ← List.take_range, Nat.min_eq_left hle,
      List.take_append_drop]
  -- A part that is left out has no group.
  have hdecode : numDecode + (m.isSeqPrefill.getD []).count true = m.batchSequenceIds.length →
      ∃ ids : Nat → List Int, (∀ i < numDecode, (ids i).Perm (groupIds m i)) ∧
        decodeSequenceIds m m.allSequenceIds.length
            ((List.range m.batchSequenceIds.length).map (takenPicks m top eos beams))
            parentSequenceIds =
          some ((List.range numDecode).flatMap fun i => (eos i).map (parentIdAt m) ++ ids i) := by
    intro hcount
    obtain ⟨hgroups, hseqs⟩ := bound_decodeReqLastIdx hb ht hparents hcount
    exact decodeSequenceIds_eq hb ht hparents hgroups hseqs
  obtain ⟨ids, hperm, hrun⟩ : ∃ ids : Nat → List Int,
      (∀ i < numDecode, (ids i).Perm (groupIds m i)) ∧
      newSequenceIds p m m.allSequenceIds.length
          ((List.range m.batchSequenceIds.length).map fun i => (eos i).length)
          ((List.range m.batchSequenceIds.length).map (takenPicks m top eos beams))
          parentSequenceIds =
        some (((List.range numDecode).flatMap fun i => (eos i).map (parentIdAt m) ++ ids i) ++
          ((List.range m.batchSequenceIds.length).drop numDecode).flatMap fun i =>
            List.replicate (eos i).length (-1) ++ groupIds m i ++ reservedIds m i) := by
    have hmode := hb.mode
    split at hmode
    · rename_i hsplitfuse
      set flags := List.replicate (groupStart m numDecode) false ++
        List.replicate (m.batchSequenceIds.length - numDecode) true with hflags
      have hcount : numDecode + flags.count true = m.batchSequenceIds.length := by
        rw [hflags, List.count_append, List.count_replicate_self, List.count_replicate,
          if_neg (by decide), Nat.zero_add, Nat.add_sub_cancel' hle]
      obtain ⟨ids, hperm, hrun⟩ := hdecode (by rw [hmode, Option.getD_some, hcount])
      have hdecodeIds : (if false ∈ flags then decodeSequenceIds m m.allSequenceIds.length
          ((List.range m.batchSequenceIds.length).map (takenPicks m top eos beams))
          parentSequenceIds else some []) =
            some ((List.range numDecode).flatMap fun i => (eos i).map (parentIdAt m) ++ ids i) := by
        by_cases hmem : false ∈ flags
        · rw [if_pos hmem, hrun]
        · have hstart := le_groupStart hb hle
          have hzero : groupStart m numDecode = 0 := by
            by_contra hne
            exact hmem (List.mem_append_left _ (List.mem_replicate.mpr ⟨hne, rfl⟩))
          rw [hzero] at hstart
          rw [if_neg hmem, Nat.le_zero.mp hstart]
          rfl
      have hprefillIds : (if true ∈ flags then prefillSequenceIds m (flags.count true)
          ((List.range m.batchSequenceIds.length).map fun i => (eos i).length) else some []) =
            some (((List.range m.batchSequenceIds.length).drop numDecode).flatMap fun i =>
              List.replicate (eos i).length (-1) ++ groupIds m i ++ reservedIds m i) := by
        by_cases hmem : true ∈ flags
        · rw [if_pos hmem, prefillSequenceIds_eq hb hcount]
        · rw [List.count_eq_zero_of_not_mem hmem, Nat.add_zero] at hcount
          rw [if_neg hmem, hcount, List.drop_of_length_le (Nat.le_of_eq List.length_range)]
          rfl
      have hne : ¬ flags.isEmpty = true := by
        intro hempty
        have hstart := le_groupStart hb hle
        have hlength := congrArg List.length (List.isEmpty_iff.mp hempty)
        rw [hflags, List.length_append, List.length_replicate, List.length_replicate,
          List.length_nil] at hlength
        have hpos := hb.batch_pos
        omega
      refine ⟨ids, hperm, ?_⟩
      rw [newSequenceIds, if_pos hsplitfuse, hmode]
      simp only [hdecodeIds, hprefillIds, Option.bind_eq_bind, Option.bind_some, if_neg hne]
    · rename_i hsplitfuse
      split at hmode
      · rename_i hprefill
        subst hmode
        have hall : m.allSequenceIds.length = m.batchSequenceIds.length := by
          rw [batch_ids_length hb]
          have hlength := groupStart_length hb (k := m.batchSequenceIds.length)
            (Nat.le_of_eq (Nat.zero_add _))
          rwa [Nat.zero_add, groupStart, groupStart, sumTo_zero, Nat.zero_add] at hlength
        refine ⟨fun _ => [], fun i hi => absurd hi (Nat.not_lt_zero i), ?_⟩
        rw [newSequenceIds, if_neg hsplitfuse, if_pos hprefill,
          prefillSequenceIds_eq hb ((Nat.zero_add _).trans hall)]
        rfl
      · rename_i hprefill
        obtain ⟨hall, hflags⟩ := hmode
        obtain ⟨ids, hperm, hrun⟩ := hdecode (by
          rw [List.count_eq_zero_of_not_mem hflags, Nat.add_zero, hall])
        refine ⟨ids, hperm, ?_⟩
        rw [newSequenceIds, if_neg hsplitfuse, if_neg hprefill, hrun, hall,
          List.drop_of_length_le (Nat.le_of_eq List.length_range), List.flatMap_nil,
          List.append_nil]
  refine ⟨fun i => if i < numDecode then (eos i).map (parentIdAt m)
      else List.replicate (eos i).length (-1),
    fun i => if i < numDecode then ids i else groupIds m i ++ reservedIds m i, fun i hi => ?_, ?_⟩
  · dsimp only
    by_cases hdec : i < numDecode
    · have hids := hperm i hdec
      rw [if_pos hdec, if_pos hdec, List.length_map, hids.length_eq]
      refine ⟨rfl, hb.decode i hdec, hids.nodup_iff.mpr ?_, fun id hid => ?_⟩
      · have hnodup := hb.ids_nodup
        rw [allSequenceIds_eq hb, List.nodup_flatMap] at hnodup
        exact hnodup.1 i (List.mem_range.mpr hi)
      · exact List.mem_append_left _ (hids.mem_iff.mp hid)
    · obtain ⟨hone, hreserved, hnodup⟩ := hb.prefill i hi (Nat.le_of_not_lt hdec)
      rw [if_neg hdec, if_neg hdec, List.length_replicate, List.length_append]
      refine ⟨rfl, ?_, hnodup, fun _ hid => hid⟩
      rw [← hreserved, ← hone, Nat.add_comm]
      rfl
  · rw [hrun, hsplit]
    refine congrArg some (congrArg₂ _ ?_ ?_)
    · refine List.flatMap_congr fun i hi => ?_
      dsimp only
      rw [if_pos (List.mem_range.mp hi), if_pos (List.mem_range.mp hi)]
    · refine List.flatMap_congr fun i hi => ?_
      rw [List.range_eq_range', List.drop_range', List.mem_range'_1] at hi
      dsimp only
      rw [if_neg (by omega), if_neg (by omega), List.append_assoc]

end All

end BeamSearchTokenSelector

end MindieLLM
