import MindieLLM.TextGenerator.SamplingMetadata
import Mathlib.Algebra.BigOperators.Group.List.Basic

/-!
# The outputs of two selectors are merged

A selector gives some rows for each group it has, more or fewer than the group had. The rows of two
selectors are put together, one group behind the other in the order of the batch.

## Main definitions

* `SamplingOutput`: the rows of a selector, and the intervals of its groups
* `mergeSamplingOutput`: the rows of two selectors
* `SamplingOutput.Merged`: every group of the batch has the rows that its selector has for it

## Main results

* `merged_mergeSamplingOutput`: the groups are merged in the order of the batch
* `pointsToParents_iff`: when each row points to the row of its parent
-/

namespace MindieLLM

open Program

/-- A 2-D array: the second of its dimensions, and the rows. -/
structure Table (α : Type) where
  width : Nat
  rows : List (List α)
  rows_width : ∀ row ∈ rows, row.length = width

namespace Table

variable {α : Type}

def slice (t : Table α) (start stop : Nat) : Table α where
  width := t.width
  rows := Program.slice t.rows start stop
  rows_width := fun row h => t.rows_width row (List.mem_of_mem_drop (List.mem_of_mem_take h))

/-- The rows with columns of `x`, up to a width. -/
def padded (width : Nat) (x : α) (t : Table α) : List (List α) :=
  t.rows.map (· ++ List.replicate (width - t.width) x)

/-- The rows of arrays that are padded. Without a value if an array is wider. -/
def concatenate (width : Nat) (x : α) (ts : List (Table α)) : Option (Table α) :=
  if h : ∀ t ∈ ts, t.width ≤ width then some
    { width := width
      rows := (ts.map (padded width x)).flatten
      rows_width := by
        intro row hrow
        obtain ⟨rows, hrows, hrow⟩ := List.mem_flatten.mp hrow
        obtain ⟨t, ht, rfl⟩ := List.mem_map.mp hrows
        obtain ⟨row', hrow', rfl⟩ := List.mem_map.mp hrow
        have hle := h t ht
        rw [List.length_append, List.length_replicate, t.rows_width row' hrow']
        omega }
  else none

theorem padded_slice (width : Nat) (x : α) (t : Table α) (start stop : Nat) :
    padded width x (t.slice start stop) = Program.slice (padded width x t) start stop :=
  map_slice _ _ _ _

theorem exists_concatenate {width : Nat} {ts : List (Table α)} (x : α)
    (h : ∀ t ∈ ts, t.width ≤ width) : ∃ t, concatenate width x ts = some t ∧
      t.rows = (ts.map (padded width x)).flatten :=
  ⟨_, dif_pos h, rfl⟩

end Table

/-- The arrays with a row for each of the sequences that are sampled. -/
structure OutputRows (F : Type) where
  sequenceIds : List Int
  parentSequenceIds : List Int
  tokenIds : List Int
  logprobs : List F
  topTokenIds : Table Int
  topLogprobs : Table F
  cumulativeLogprobs : List F
  numNewTokens : List Int
  numTopTokens : Option (List Int) := none
  seeds : Option (List Int) := none

structure SamplingOutput (F : Type) extends OutputRows F where
  groupIndices : List (Nat × Nat)
  repeatingIndices : List Nat

variable {α F G : Type}

def OutputRows.slice (o : OutputRows F) (start stop : Nat) : OutputRows F where
  sequenceIds := Program.slice o.sequenceIds start stop
  parentSequenceIds := Program.slice o.parentSequenceIds start stop
  tokenIds := Program.slice o.tokenIds start stop
  logprobs := Program.slice o.logprobs start stop
  topTokenIds := o.topTokenIds.slice start stop
  topLogprobs := o.topLogprobs.slice start stop
  cumulativeLogprobs := Program.slice o.cumulativeLogprobs start stop
  numNewTokens := Program.slice o.numNewTokens start stop
  numTopTokens := o.numTopTokens.map fun xs => Program.slice xs start stop
  seeds := o.seeds.map fun xs => Program.slice xs start stop

namespace SamplingOutput

/-! ## The merge -/

/-- The variables of the loop over the groups: the slices of the arrays, and their intervals. -/
structure MergeLoop (F : Type) where
  groupIndices : List (Nat × Nat)
  parts : List (OutputRows F)
  idx : Nat
  firstOffset : Nat
  secondOffset : Nat

def appendOutputs (loop : MergeLoop F) (current : SamplingOutput F) (offset : Nat) :
    Option (MergeLoop F) :=
  (current.groupIndices[offset]?).map fun group =>
    { loop with
      groupIndices := loop.groupIndices ++ [(loop.idx, loop.idx + group.2 - group.1)]
      parts := loop.parts ++ [current.slice group.1 group.2]
      idx := loop.idx + group.2 - group.1 }

def mergeGroup (first second : SamplingOutput F) (firstIndices : List Nat) (loop : MergeLoop F)
    (i : Nat) : Option (MergeLoop F) :=
  if firstIndices[loop.firstOffset]? = some i then
    (appendOutputs loop first loop.firstOffset).map fun loop =>
      { loop with firstOffset := loop.firstOffset + 1 }
  else
    (appendOutputs loop second loop.secondOffset).map fun loop =>
      { loop with secondOffset := loop.secondOffset + 1 }

/-- An output without seeds gets zeros if the other one has seeds. -/
def withSeeds (o other : SamplingOutput F) : SamplingOutput F :=
  if o.seeds.isNone ∧ other.seeds.isSome then
    { o with seeds := some (List.replicate o.tokenIds.length 0) }
  else o

/-- The slices that are not `None`, or `None` without any. -/
def concatenateColumns (columns : List (List α)) : Option (List α) :=
  if columns.isEmpty then none else some columns.flatten

/-- `np.where(parent_sequence_ids[:, None] == all_sequence_ids)[1]` -/
def whereParents (parentSequenceIds allSequenceIds : List Int) : List Nat :=
  parentSequenceIds.flatMap fun p =>
    (List.range allSequenceIds.length).filter fun i => allSequenceIds[i]? = some p

/-- Without a value where there is no slice to concatenate. -/
def concatenateParts [IntCast F] (allSequenceIds : List Int) (maxNumTop : Nat)
    (loop : MergeLoop F) : Option (SamplingOutput F) :=
  if loop.parts.isEmpty then none
  else do
    let topTokenIds ← Table.concatenate maxNumTop (-1) (loop.parts.map OutputRows.topTokenIds)
    let topLogprobs ← Table.concatenate maxNumTop ((-9999 : Int) : F)
      (loop.parts.map OutputRows.topLogprobs)
    let parentSequenceIds := (loop.parts.map OutputRows.parentSequenceIds).flatten
    some
      { groupIndices := loop.groupIndices
        sequenceIds := (loop.parts.map OutputRows.sequenceIds).flatten
        parentSequenceIds := parentSequenceIds
        repeatingIndices := whereParents parentSequenceIds allSequenceIds
        tokenIds := (loop.parts.map OutputRows.tokenIds).flatten
        logprobs := (loop.parts.map OutputRows.logprobs).flatten
        topTokenIds := topTokenIds
        topLogprobs := topLogprobs
        cumulativeLogprobs := (loop.parts.map OutputRows.cumulativeLogprobs).flatten
        numNewTokens := (loop.parts.map OutputRows.numNewTokens).flatten
        numTopTokens := concatenateColumns (loop.parts.filterMap OutputRows.numTopTokens)
        seeds := concatenateColumns (loop.parts.filterMap OutputRows.seeds) }

def mergeSamplingOutput [IntCast F] (m : SamplingMetadata F G) (first second : SamplingOutput F)
    (firstIndices : List Nat) : Option (SamplingOutput F) :=
  if first.groupIndices.length ≠ firstIndices.length then none
  else
    let maxNumTop := max first.topTokenIds.width second.topTokenIds.width
    ((List.range (first.groupIndices.length + second.groupIndices.length)).foldlM
      (mergeGroup (first.withSeeds second) (second.withSeeds first) firstIndices)
      { groupIndices := []
        parts := []
        idx := 0
        firstOffset := 0
        secondOffset := 0 }).bind (concatenateParts m.allSequenceIds maxNumTop)

/-! ## Rows -/

/-- What the arrays hold for a sequence that is sampled. -/
structure Row (F : Type) where
  sequenceId : Option Int
  parentSequenceId : Option Int
  tokenId : Option Int
  logprob : Option F
  topTokenIds : Option (List Int)
  topLogprobs : Option (List F)
  cumulativeLogprob : Option F
  numNewTokens : Option Int
  numTopTokens : Option (Option Int)
  seed : Option (Option Int)

open SamplingMetadata (rowOf HasRows)

def row (o : OutputRows F) (r : Nat) : Row F where
  sequenceId := o.sequenceIds[r]?
  parentSequenceId := o.parentSequenceIds[r]?
  tokenId := o.tokenIds[r]?
  logprob := o.logprobs[r]?
  topTokenIds := o.topTokenIds.rows[r]?
  topLogprobs := o.topLogprobs.rows[r]?
  cumulativeLogprob := o.cumulativeLogprobs[r]?
  numNewTokens := o.numNewTokens[r]?
  numTopTokens := rowOf o.numTopTokens r
  seed := rowOf o.seeds r

/-- A row with columns more. -/
def Row.pad [IntCast F] (row : Row F) (n : Nat) : Row F :=
  { row with
    topTokenIds := row.topTokenIds.map (· ++ List.replicate n (-1))
    topLogprobs := row.topLogprobs.map (· ++ List.replicate n ((-9999 : Int) : F)) }

/-- Every array has a row for each of the sequences. -/
structure Aligned (o : OutputRows F) (n : Nat) : Prop where
  sequenceIds : o.sequenceIds.length = n
  parentSequenceIds : o.parentSequenceIds.length = n
  tokenIds : o.tokenIds.length = n
  logprobs : o.logprobs.length = n
  topTokenIds : o.topTokenIds.rows.length = n
  topLogprobs : o.topLogprobs.rows.length = n
  cumulativeLogprobs : o.cumulativeLogprobs.length = n
  numNewTokens : o.numNewTokens.length = n
  numTopTokens : HasRows n o.numTopTokens
  seeds : HasRows n o.seeds

/-- The numbers of rows of the groups. -/
def sizes (o : SamplingOutput F) : List Nat := o.groupIndices.map fun g => g.2 - g.1

/-- The groups are all of the rows, one behind the other. -/
structure Tiled (o : SamplingOutput F) : Prop where
  groupIndices : o.groupIndices = intervals 0 o.sizes
  aligned : Aligned o.toOutputRows o.sizes.sum

/-- The outputs of the two selectors of a batch, the first of them for the groups with the flag.
Both have `num_top_tokens`, or the batch has not. -/
structure Outputs (flags : List Bool) (first second : SamplingOutput F) : Prop where
  first_tiled : first.Tiled
  second_tiled : second.Tiled
  first_length : first.groupIndices.length = flags.count true
  second_length : second.groupIndices.length = flags.count false
  first_width : first.topLogprobs.width = first.topTokenIds.width
  second_width : second.topLogprobs.width = second.topTokenIds.width
  numTopTokens : first.numTopTokens.isSome = second.numTopTokens.isSome

/-- The output of the selector of a group, with its seeds. -/
def selected (first second : SamplingOutput F) (b : Bool) : SamplingOutput F :=
  if b then first.withSeeds second else second.withSeeds first

/-- **Every group has the rows that its selector has for it**, in the order of the batch. -/
structure Merged [IntCast F] (flags : List Bool) (first second out : SamplingOutput F) :
    Prop where
  tiled : out.Tiled
  groups_length : out.groupIndices.length = flags.length
  rows_length : out.sequenceIds.length = first.sequenceIds.length + second.sequenceIds.length
  group : ∀ i b, flags[i]? = some b → ∃ src dst : Nat × Nat,
    (selected first second b).groupIndices[(flags.take i).count b]? = some src ∧
      out.groupIndices[i]? = some dst ∧ dst.2 - dst.1 = src.2 - src.1 ∧
        ∀ t < src.2 - src.1, row out.toOutputRows (dst.1 + t) =
          (row (selected first second b).toOutputRows (src.1 + t)).pad
            (max first.topTokenIds.width second.topTokenIds.width -
              (selected first second b).topTokenIds.width)

/-- Each row points to the row of the batch whose sequence is its parent. -/
def PointsToParents (allSequenceIds : List Int) (o : SamplingOutput F) : Prop :=
  List.Forall₂ (fun i p => allSequenceIds[i]? = some p) o.repeatingIndices o.parentSequenceIds

/-! ## Parents -/

variable {ids parents : List Int} {flags : List Bool} {first second : SamplingOutput F}

theorem length_filter_range (ids : List Int) (p : Int) :
    ((List.range ids.length).filter fun i => ids[i]? = some p).length = ids.count p := by
  induction ids with
  | nil => rfl
  | cons x ids ih =>
    rw [List.length_cons, List.range_succ_eq_map, List.filter_cons, List.filter_map,
      List.count_cons, ← ih]
    by_cases hx : x = p
    · subst hx
      simp [Function.comp_def]
    · simp [Function.comp_def, hx]

theorem exists_left_of_forall₂ {β : Type} {R : α → β → Prop} {xs : List α} {ys : List β} {y : β}
    (h : List.Forall₂ R xs ys) (hy : y ∈ ys) : ∃ x ∈ xs, R x y := by
  induction h with
  | nil => exact absurd hy List.not_mem_nil
  | cons hR _ ih =>
    rcases List.mem_cons.mp hy with rfl | hy
    · exact ⟨_, List.mem_cons_self, hR⟩
    · obtain ⟨x, hx, hxy⟩ := ih hy
      exact ⟨x, List.mem_cons_of_mem _ hx, hxy⟩

theorem length_whereParents (parents ids : List Int) :
    (whereParents parents ids).length = (parents.map fun p => ids.count p).sum := by
  rw [whereParents, List.length_flatMap]
  simp only [length_filter_range]

theorem eq_one_of_sum_eq_length {l : List Nat} (h : ∀ x ∈ l, 1 ≤ x) (hsum : l.sum = l.length) :
    ∀ x ∈ l, x = 1 := by
  induction l with
  | nil => exact fun x hx => absurd hx List.not_mem_nil
  | cons y l ih =>
    have hy := h y List.mem_cons_self
    have hl : ∀ x ∈ l, 1 ≤ x := fun x hx => h x (List.mem_cons_of_mem y hx)
    have hle := List.length_le_sum_of_one_le l hl
    rw [List.sum_cons, List.length_cons] at hsum
    intro x hx
    rcases List.mem_cons.mp hx with rfl | hx
    · omega
    · exact ih hl (by omega) x hx

/-- A parent that the batch has once. -/
theorem whereParents_cons {p : Int} (h : ids.count p = 1) :
    ∃ i, ids[i]? = some p ∧ whereParents (p :: parents) ids = i :: whereParents parents ids := by
  obtain ⟨i, hi⟩ := List.length_eq_one_iff.mp ((length_filter_range ids p).trans h)
  have hmem : i ∈ (List.range ids.length).filter fun i => ids[i]? = some p := by
    rw [hi]
    exact List.mem_singleton_self i
  refine ⟨i, by simpa using (List.mem_filter.mp hmem).2, ?_⟩
  rw [whereParents, List.flatMap_cons, hi]
  rfl

/-- **When each row points to the row of its parent**: the batch has each parent once. -/
theorem pointsToParents_iff {o : SamplingOutput F}
    (h : o.repeatingIndices = whereParents o.parentSequenceIds ids) :
    PointsToParents ids o ↔ ∀ p ∈ o.parentSequenceIds, ids.count p = 1 := by
  rw [PointsToParents, h]
  generalize o.parentSequenceIds = parents
  constructor
  · intro hpoints
    have hlen := hpoints.length_eq
    rw [length_whereParents] at hlen
    have hpos : ∀ x ∈ parents.map fun p => ids.count p, 1 ≤ x := by
      intro x hx
      obtain ⟨p, hp, rfl⟩ := List.mem_map.mp hx
      obtain ⟨i, -, hi⟩ := exists_left_of_forall₂ hpoints hp
      exact List.count_pos_iff.mpr (List.mem_of_getElem? hi)
    have hone := eq_one_of_sum_eq_length hpos (by rw [hlen, List.length_map])
    exact fun p hp => hone _ (List.mem_map_of_mem hp)
  · intro hone
    induction parents with
    | nil => exact List.Forall₂.nil
    | cons p parents ih =>
      obtain ⟨i, hi, hcons⟩ := @whereParents_cons ids parents p (hone p List.mem_cons_self)
      rw [hcons]
      exact List.Forall₂.cons hi (ih fun q hq => hone q (List.mem_cons_of_mem p hq))

/-! ## The loop over the groups -/

/-- Outputs for which the groups of each flag are counted. -/
structure Counted (flags : List Bool) (sel : Bool → SamplingOutput F) : Prop where
  tiled : ∀ b, (sel b).Tiled
  groups_length : ∀ b, (sel b).groupIndices.length = flags.count b

/-- The interval that a group has in the output of its selector. -/
def source (flags : List Bool) (sel : Bool → SamplingOutput F) (i : Nat) : Nat × Nat :=
  let b := flags.getD i false
  (sel b).groupIndices.getD ((flags.take i).count b) (0, 0)

/-- The rows that the selector of a group has for it. -/
def part (flags : List Bool) (sel : Bool → SamplingOutput F) (i : Nat) : OutputRows F :=
  (sel (flags.getD i false)).slice (source flags sel i).1 (source flags sel i).2

def partSize (flags : List Bool) (sel : Bool → SamplingOutput F) (i : Nat) : Nat :=
  (source flags sel i).2 - (source flags sel i).1

/-- The variables of the loop behind the first groups. -/
def MergeLoop.of (flags : List Bool) (sel : Bool → SamplingOutput F) (i : Nat) : MergeLoop F where
  groupIndices := intervals 0 ((List.range i).map (partSize flags sel))
  parts := (List.range i).map (part flags sel)
  idx := ((List.range i).map (partSize flags sel)).sum
  firstOffset := (flags.take i).count true
  secondOffset := (flags.take i).count false

variable {sel : Bool → SamplingOutput F} {b : Bool} {i n : Nat}

theorem getElem?_groupIndices (h : Counted flags sel) (hb : flags[i]? = some b) :
    (sel b).groupIndices[(flags.take i).count b]? = some (source flags sel i) := by
  have hlt : (flags.take i).count b < (sel b).groupIndices.length := by
    rw [h.groups_length]
    exact count_take_lt hb
  have hgetD : flags.getD i false = b := by
    rw [List.getD_eq_getElem?_getD, hb, Option.getD_some]
  rw [source, hgetD, List.getD_eq_getElem?_getD, List.getElem?_eq_getElem hlt, Option.getD_some]

theorem source_le (h : Counted flags sel) (hb : flags[i]? = some b) :
    (source flags sel i).1 ≤ (source flags sel i).2 ∧
      (source flags sel i).2 ≤ (sel b).sizes.sum := by
  have hmem := List.mem_of_getElem? (getElem?_groupIndices h hb)
  rw [(h.tiled b).groupIndices] at hmem
  obtain ⟨-, hle, hstop⟩ := mem_intervals hmem
  exact ⟨hle, by rwa [Nat.zero_add] at hstop⟩

theorem part_eq (hb : flags[i]? = some b) :
    part flags sel i = (sel b).slice (source flags sel i).1 (source flags sel i).2 := by
  rw [part, List.getD_eq_getElem?_getD, hb, Option.getD_some]

/-- A group is appended. -/
theorem appendOutputs_of (h : Counted flags sel) (hb : flags[i]? = some b) :
    appendOutputs (MergeLoop.of flags sel i) (sel b) ((flags.take i).count b) =
      some
        { MergeLoop.of flags sel i with
          groupIndices := intervals 0 ((List.range (i + 1)).map (partSize flags sel))
          parts := (List.range (i + 1)).map (part flags sel)
          idx := ((List.range (i + 1)).map (partSize flags sel)).sum } := by
  obtain ⟨hle, -⟩ := source_le h hb
  have hidx : ((List.range i).map (partSize flags sel)).sum + (source flags sel i).2 -
      (source flags sel i).1 = ((List.range i).map (partSize flags sel)).sum +
        partSize flags sel i := by
    rw [partSize]
    omega
  rw [appendOutputs, getElem?_groupIndices h hb, Option.map_some, ← part_eq hb]
  simp only [MergeLoop.of, hidx, List.range_succ, List.map_append, List.map_singleton,
    List.sum_append, List.sum_singleton, intervals_append, intervals, Nat.zero_add]

/-- **One more group**: it comes from the selector that has it. -/
theorem mergeGroup_of (h : Counted flags sel) (hi : i < flags.length) :
    mergeGroup (sel true) (sel false) (SamplingMetadata.beamIndices flags)
      (MergeLoop.of flags sel i) i = some (MergeLoop.of flags sel (i + 1)) := by
  have hflag : flags[i]? = some flags[i] := List.getElem?_eq_getElem hi
  have hcount : ∀ b, (flags.take (i + 1)).count b =
      (flags.take i).count b + if flags[i] = b then 1 else 0 := by
    intro b
    rw [List.take_add_one, hflag, List.count_append, Option.toList_some, List.count_singleton]
    simp
  rw [mergeGroup]
  cases hb : flags[i] with
  | true =>
    rw [hb] at hflag hcount
    have hindex : (SamplingMetadata.beamIndices flags)[(MergeLoop.of flags sel i).firstOffset]? =
        some i :=
      (getElem?_keep_count List.length_range.symm hflag).trans (List.getElem?_range hi)
    have happend := appendOutputs_of h hflag
    rw [if_pos hindex]
    change Option.map _ (appendOutputs _ _ ((flags.take i).count true)) = _
    rw [happend, Option.map_some, MergeLoop.of, MergeLoop.of, hcount true, hcount false]
    rfl
  | false =>
    rw [hb] at hflag hcount
    have happend := appendOutputs_of h hflag
    have hindex : (SamplingMetadata.beamIndices flags)[(MergeLoop.of flags sel i).firstOffset]? ≠
        some i :=
      getElem?_keep_range_ne hflag _
    rw [if_neg hindex]
    change Option.map _ (appendOutputs _ _ ((flags.take i).count false)) = _
    rw [happend, Option.map_some, MergeLoop.of, MergeLoop.of, hcount true, hcount false]
    rfl

theorem foldlM_mergeGroup (h : Counted flags sel) (hi : i ≤ flags.length) :
    (List.range i).foldlM
      (mergeGroup (sel true) (sel false) (SamplingMetadata.beamIndices flags))
      (MergeLoop.of flags sel 0) = some (MergeLoop.of flags sel i) := by
  induction i with
  | zero => rfl
  | succ i ih =>
    rw [List.range_succ, List.foldlM_append, ih (Nat.le_of_lt hi)]
    simpa using mergeGroup_of h hi

/-! ## The rows of the groups -/

/-- A column of the result. -/
def column (flags : List Bool) (sel : Bool → SamplingOutput F) (g : OutputRows F → List α) :
    List α :=
  ((List.range flags.length).map fun i => g (part flags sel i)).flatten

theorem length_column {g : OutputRows F → List α} (h : Counted flags sel)
    (hslice : ∀ (o : OutputRows F) start stop, g (o.slice start stop) = slice (g o) start stop)
    (hlen : ∀ b, (g (sel b).toOutputRows).length = (sel b).sizes.sum) (hi : i < flags.length) :
    (g (part flags sel i)).length = partSize flags sel i := by
  have hflag : flags[i]? = some flags[i] := List.getElem?_eq_getElem hi
  rw [part_eq hflag, hslice, length_slice (by rw [hlen]; exact (source_le h hflag).2)]
  rfl

theorem length_flatten_column {g : OutputRows F → List α} (h : Counted flags sel)
    (hslice : ∀ (o : OutputRows F) start stop, g (o.slice start stop) = slice (g o) start stop)
    (hlen : ∀ b, (g (sel b).toOutputRows).length = (sel b).sizes.sum) :
    (column flags sel g).length =
      ((List.range flags.length).map (partSize flags sel)).sum := by
  rw [column, List.length_flatten, List.map_map]
  congr 1
  exact List.map_congr_left fun i hi => length_column h hslice hlen (List.mem_range.mp hi)

/-- A row of a group in a column of the result. -/
theorem getElem?_column {g : OutputRows F → List α} {t : Nat} (h : Counted flags sel)
    (hslice : ∀ (o : OutputRows F) start stop, g (o.slice start stop) = slice (g o) start stop)
    (hlen : ∀ b, (g (sel b).toOutputRows).length = (sel b).sizes.sum)
    (hb : flags[i]? = some b) (ht : t < partSize flags sel i) :
    (column flags sel g)[((List.range i).map (partSize flags sel)).sum + t]? =
      (g (sel b).toOutputRows)[(source flags sel i).1 + t]? := by
  have hi := (List.getElem?_eq_some_iff.mp hb).1
  rw [column, getElem?_flatten_range (fun j hj => length_column h hslice hlen hj) hi ht, part_eq hb,
    hslice, getElem?_slice]
  rw [partSize] at ht
  omega

/-- The rows of a column that may be `None`. -/
structure ColumnMerged (flags : List Bool) (sel : Bool → SamplingOutput F)
    (g : OutputRows F → Option (List α)) (column : Option (List α)) : Prop where
  rows : HasRows ((List.range flags.length).map (partSize flags sel)).sum column
  row : ∀ i b t, flags[i]? = some b → t < partSize flags sel i →
    rowOf column (((List.range i).map (partSize flags sel)).sum + t) =
      rowOf (g (sel b).toOutputRows) ((source flags sel i).1 + t)

/-- A column that all outputs have. -/
theorem columnMerged_some {g : OutputRows F → Option (List α)} (h : Counted flags sel)
    (hne : flags ≠ [])
    (hslice : ∀ (o : OutputRows F) start stop,
      g (o.slice start stop) = (g o).map fun xs => slice xs start stop)
    (hlen : ∀ b, HasRows (sel b).sizes.sum (g (sel b).toOutputRows))
    (hall : ∀ b, (g (sel b).toOutputRows).isSome) :
    ColumnMerged flags sel g
      (concatenateColumns (((List.range flags.length).map (part flags sel)).filterMap g)) := by
  let col : OutputRows F → List α := fun o => (g o).getD []
  have hcol : ∀ b, g (sel b).toOutputRows = some (col (sel b).toOutputRows) := by
    intro b
    obtain ⟨xs, hxs⟩ := Option.isSome_iff_exists.mp (hall b)
    rw [hxs]
    exact congrArg some (by simp only [col, hxs, Option.getD_some])
  have hcolslice : ∀ (o : OutputRows F) start stop,
      col (o.slice start stop) = slice (col o) start stop := by
    intro o start stop
    simp only [col, hslice]
    cases g o with
    | none => simp [slice]
    | some xs => rfl
  have hcollen : ∀ b, (col (sel b).toOutputRows).length = (sel b).sizes.sum :=
    fun b => hlen b _ (hcol b)
  have hparts : (List.range flags.length).filterMap (g ∘ part flags sel) =
      (List.range flags.length).map fun i => col (part flags sel i) := by
    rw [← List.filterMap_eq_map']
    refine List.filterMap_congr fun i hi => ?_
    rw [Function.comp_apply, part, hslice, hcol, hcolslice]
    rfl
  have hnonempty : ((List.range flags.length).map fun i =>
      col (part flags sel i)).isEmpty = false := by
    simpa using hne
  rw [List.filterMap_map, hparts, concatenateColumns, hnonempty]
  refine ⟨?_, fun i b t hb ht => ?_⟩
  · rintro _ ⟨⟩
    exact length_flatten_column h hcolslice hcollen
  · rw [hcol]
    exact congrArg some (getElem?_column h hcolslice hcollen hb ht)

/-- A column that no output has. -/
theorem columnMerged_none {g : OutputRows F → Option (List α)}
    (hslice : ∀ (o : OutputRows F) start stop,
      g (o.slice start stop) = (g o).map fun xs => slice xs start stop)
    (hall : ∀ b, g (sel b).toOutputRows = none) :
    ColumnMerged flags sel g
      (concatenateColumns (((List.range flags.length).map (part flags sel)).filterMap g)) := by
  have hparts : ((List.range flags.length).map (part flags sel)).filterMap g = [] := by
    rw [List.filterMap_eq_nil_iff]
    intro o ho
    obtain ⟨i, -, rfl⟩ := List.mem_map.mp ho
    rw [part, hslice, hall, Option.map_none]
  rw [hparts]
  refine ⟨SamplingMetadata.hasRows_none, fun i b t _ _ => ?_⟩
  rw [hall]
  rfl

/-- The numbers of rows of the first groups are those of the groups of each selector. -/
theorem sum_partSize (h : Counted flags sel) (hi : i ≤ flags.length) :
    ((List.range i).map (partSize flags sel)).sum =
      ((sel true).sizes.take ((flags.take i).count true)).sum +
        ((sel false).sizes.take ((flags.take i).count false)).sum := by
  induction i with
  | zero => simp
  | succ i ih =>
    have hflag : flags[i]? = some flags[i] := List.getElem?_eq_getElem hi
    have hsize : (sel flags[i]).sizes[(flags.take i).count flags[i]]? =
        some (partSize flags sel i) := by
      rw [sizes, List.getElem?_map, getElem?_groupIndices h hflag, Option.map_some]
      rfl
    have hcount : ∀ b, (flags.take (i + 1)).count b =
        (flags.take i).count b + if flags[i] = b then 1 else 0 := by
      intro b
      rw [List.take_add_one, hflag, List.count_append, Option.toList_some, List.count_singleton]
      simp
    rw [List.range_succ, List.map_append, List.sum_append, ih (Nat.le_of_lt hi), List.map_singleton,
      List.sum_singleton, hcount true, hcount false]
    cases hb : flags[i] with
    | true =>
      rw [hb] at hsize
      rw [if_pos rfl, if_neg (by decide), Nat.add_zero, List.take_add_one, hsize,
        List.sum_append, Option.toList_some, List.sum_singleton]
      exact Nat.add_right_comm _ _ _
    | false =>
      rw [hb] at hsize
      rw [if_neg (by decide), if_pos rfl, Nat.add_zero, List.take_add_one, hsize,
        List.sum_append, Option.toList_some, List.sum_singleton]
      exact Nat.add_assoc _ _ _

/-! ## The result -/

theorem withSeeds_cases (o other : SamplingOutput F) :
    o.withSeeds other = o ∨ o.withSeeds other =
      { o with seeds := some (List.replicate o.tokenIds.length 0) } := by
  unfold withSeeds
  split
  · exact Or.inr rfl
  · exact Or.inl rfl

theorem Tiled.withSeeds {o : SamplingOutput F} (h : o.Tiled) (other : SamplingOutput F) :
    (o.withSeeds other).Tiled := by
  rcases withSeeds_cases o other with heq | heq
  · rwa [heq]
  · rw [heq]
    refine ⟨h.groupIndices, { h.aligned with seeds := ?_ }⟩
    rintro _ ⟨⟩
    exact List.length_replicate.trans h.aligned.tokenIds

theorem groupIndices_withSeeds (o other : SamplingOutput F) :
    (o.withSeeds other).groupIndices = o.groupIndices := by
  rcases withSeeds_cases o other with heq | heq <;> rw [heq]

theorem width_withSeeds (o other : SamplingOutput F) :
    (o.withSeeds other).topTokenIds.width = o.topTokenIds.width ∧
      (o.withSeeds other).topLogprobs.width = o.topLogprobs.width := by
  rcases withSeeds_cases o other with heq | heq <;> rw [heq] <;> exact ⟨rfl, rfl⟩

theorem parentSequenceIds_withSeeds (o other : SamplingOutput F) :
    (o.withSeeds other).parentSequenceIds = o.parentSequenceIds := by
  rcases withSeeds_cases o other with heq | heq <;> rw [heq]

theorem numTopTokens_withSeeds (o other : SamplingOutput F) :
    (o.withSeeds other).numTopTokens = o.numTopTokens := by
  rcases withSeeds_cases o other with heq | heq <;> rw [heq]

theorem Outputs.counted (h : Outputs flags first second) :
    Counted flags (selected first second) where
  tiled b := by
    cases b with
    | true => exact h.first_tiled.withSeeds second
    | false => exact h.second_tiled.withSeeds first
  groups_length b := by
    cases b with
    | true => exact (congrArg _ (groupIndices_withSeeds first second)).trans h.first_length
    | false => exact (congrArg _ (groupIndices_withSeeds second first)).trans h.second_length

/-- The seeds of both outputs, if one of them has some. -/
theorem seeds_selected (first second : SamplingOutput F) :
    (∀ b, (selected first second b).seeds.isSome) ∨
      ∀ b, (selected first second b).seeds = none := by
  cases h₁ : first.seeds with
  | none =>
    cases h₂ : second.seeds with
    | none => exact Or.inr fun b => by cases b <;> simp [selected, withSeeds, h₁, h₂]
    | some xs => exact Or.inl fun b => by cases b <;> simp [selected, withSeeds, h₁, h₂]
  | some xs =>
    cases h₂ : second.seeds with
    | none => exact Or.inl fun b => by cases b <;> simp [selected, withSeeds, h₁, h₂]
    | some ys => exact Or.inl fun b => by cases b <;> simp [selected, withSeeds, h₁, h₂]

theorem Outputs.numTopTokens_selected (h : Outputs flags first second) :
    (∀ b, (selected first second b).numTopTokens.isSome) ∨
      ∀ b, (selected first second b).numTopTokens = none := by
  have htrue := numTopTokens_withSeeds first second
  have hfalse := numTopTokens_withSeeds second first
  have hsame := h.numTopTokens
  cases h₁ : first.numTopTokens with
  | none =>
    rw [h₁] at hsame htrue
    have h₂ : second.numTopTokens = none := Option.isNone_iff_eq_none.mp (by
      rw [← Option.not_isSome, ← hsame]
      rfl)
    refine Or.inr fun b => ?_
    cases b with
    | true => exact htrue
    | false => exact hfalse.trans h₂
  | some xs =>
    rw [h₁] at hsame htrue
    refine Or.inl fun b => ?_
    cases b with
    | true => exact (congrArg _ htrue).trans rfl
    | false => exact (congrArg _ hfalse).trans hsame.symm

/-- The rows of a column are those of all its groups. -/
theorem mem_column {g : OutputRows F → List α} {x : α} (h : Counted flags sel)
    (hslice : ∀ (o : OutputRows F) start stop, g (o.slice start stop) = slice (g o) start stop)
    (hlen : ∀ b, (g (sel b).toOutputRows).length = (sel b).sizes.sum) :
    x ∈ column flags sel g ↔
      ∃ b, x ∈ g (sel b).toOutputRows := by
  constructor
  · intro hx
    obtain ⟨xs, hxs, hx⟩ := List.mem_flatten.mp hx
    obtain ⟨i, -, rfl⟩ := List.mem_map.mp hxs
    rw [part, hslice] at hx
    exact ⟨_, List.mem_of_mem_drop (List.mem_of_mem_take hx)⟩
  · rintro ⟨b, hx⟩
    obtain ⟨r, hr⟩ := List.mem_iff_getElem?.mp hx
    have hlt := (List.getElem?_eq_some_iff.mp hr).1
    rw [hlen] at hlt
    -- the group of the row, and where the batch has this group
    obtain ⟨k, group, hk, hle, hlt⟩ :=
      exists_interval (Nat.zero_le r) (by rwa [Nat.zero_add] : r < 0 + (sel b).sizes.sum)
    rw [← (h.tiled b).groupIndices] at hk
    obtain ⟨i, hb, hcount⟩ := exists_count_take
      (h.groups_length b ▸ (List.getElem?_eq_some_iff.mp hk).1)
    obtain rfl : source flags sel i = group :=
      Option.some.inj ((getElem?_groupIndices h hb).symm.trans (hcount ▸ hk))
    refine List.mem_flatten.mpr ⟨_, List.mem_map.mpr
      ⟨i, List.mem_range.mpr (List.getElem?_eq_some_iff.mp hb).1, rfl⟩, ?_⟩
    rw [part_eq hb, hslice]
    refine List.mem_of_getElem? (i := r - (source flags sel i).1) ?_
    rw [getElem?_slice (by omega), Nat.add_sub_cancel' hle, hr]

/-- The result, where the 2-D arrays are the given ones. -/
def result (flags : List Bool) (sel : Bool → SamplingOutput F) (ids : List Int)
    (topTokenIds : Table Int) (topLogprobs : Table F) : SamplingOutput F where
  groupIndices := intervals 0 ((List.range flags.length).map (partSize flags sel))
  sequenceIds := column flags sel OutputRows.sequenceIds
  parentSequenceIds := column flags sel OutputRows.parentSequenceIds
  repeatingIndices := whereParents (column flags sel OutputRows.parentSequenceIds) ids
  tokenIds := column flags sel OutputRows.tokenIds
  logprobs := column flags sel OutputRows.logprobs
  topTokenIds := topTokenIds
  topLogprobs := topLogprobs
  cumulativeLogprobs := column flags sel OutputRows.cumulativeLogprobs
  numNewTokens := column flags sel OutputRows.numNewTokens
  numTopTokens := concatenateColumns
    (((List.range flags.length).map (part flags sel)).filterMap OutputRows.numTopTokens)
  seeds := concatenateColumns
    (((List.range flags.length).map (part flags sel)).filterMap OutputRows.seeds)

theorem concatenateParts_of [IntCast F] {width : Nat} (hne : flags ≠ []) (ids : List Int)
    (hwidth : ∀ b, (sel b).topTokenIds.width ≤ width ∧ (sel b).topLogprobs.width ≤ width) :
    ∃ topTokenIds topLogprobs,
      concatenateParts ids width (MergeLoop.of flags sel flags.length) =
        some (result flags sel ids topTokenIds topLogprobs) ∧
      topTokenIds.rows = column flags sel (fun o => o.topTokenIds.padded width (-1)) ∧
      topLogprobs.rows =
        column flags sel (fun o => o.topLogprobs.padded width ((-9999 : Int) : F)) := by
  have hparts : ∀ p ∈ (List.range flags.length).map (part flags sel),
      p.topTokenIds.width ≤ width ∧ p.topLogprobs.width ≤ width := by
    intro p hp
    obtain ⟨i, -, rfl⟩ := List.mem_map.mp hp
    exact hwidth (flags.getD i false)
  obtain ⟨topTokenIds, htokens, htokenRows⟩ :=
    Table.exists_concatenate (-1 : Int) (fun t ht => by
      obtain ⟨p, hp, rfl⟩ := List.mem_map.mp ht
      exact (hparts p hp).1)
  obtain ⟨topLogprobs, hlogprobs, hlogprobRows⟩ :=
    Table.exists_concatenate ((-9999 : Int) : F) (fun t ht => by
      obtain ⟨p, hp, rfl⟩ := List.mem_map.mp ht
      exact (hparts p hp).2)
  have hnonempty : ((List.range flags.length).map (part flags sel)).isEmpty = false := by
    simpa using hne
  refine ⟨topTokenIds, topLogprobs, ?_, ?_, ?_⟩
  · rw [concatenateParts]
    simp only [MergeLoop.of, hnonempty, Bool.false_eq_true, if_false, htokens, hlogprobs,
      Option.bind_eq_bind, Option.bind_some]
    simp only [List.map_map]
    rfl
  · rw [htokenRows, List.map_map, List.map_map]
    rfl
  · rw [hlogprobRows, List.map_map, List.map_map]
    rfl

/-- The outputs of the groups, where all have a column or none has it. -/
structure Mergeable (flags : List Bool) (sel : Bool → SamplingOutput F) (width : Nat) : Prop
    extends Counted flags sel where
  not_empty : flags ≠ []
  topTokenIds_width : ∀ b, (sel b).topTokenIds.width ≤ width
  topLogprobs_width : ∀ b, (sel b).topLogprobs.width = (sel b).topTokenIds.width
  numTopTokens : (∀ b, (sel b).numTopTokens.isSome) ∨ ∀ b, (sel b).numTopTokens = none
  seeds : (∀ b, (sel b).seeds.isSome) ∨ ∀ b, (sel b).seeds = none

variable {width : Nat} {topTokenIds : Table Int} {topLogprobs : Table F}

theorem Mergeable.numTopTokens_merged (h : Mergeable flags sel width) :
    ColumnMerged flags sel OutputRows.numTopTokens (concatenateColumns
      (((List.range flags.length).map (part flags sel)).filterMap OutputRows.numTopTokens)) := by
  rcases h.numTopTokens with hall | hall
  · exact columnMerged_some h.toCounted h.not_empty (fun _ _ _ => rfl)
      (fun b => (h.tiled b).aligned.numTopTokens) hall
  · exact columnMerged_none (fun _ _ _ => rfl) hall

theorem Mergeable.seeds_merged (h : Mergeable flags sel width) :
    ColumnMerged flags sel OutputRows.seeds (concatenateColumns
      (((List.range flags.length).map (part flags sel)).filterMap OutputRows.seeds)) := by
  rcases h.seeds with hall | hall
  · exact columnMerged_some h.toCounted h.not_empty (fun _ _ _ => rfl)
      (fun b => (h.tiled b).aligned.seeds) hall
  · exact columnMerged_none (fun _ _ _ => rfl) hall

theorem length_padded (x : α) (t : Table α) : (t.padded width x).length = t.rows.length :=
  List.length_map _

theorem aligned_result [IntCast F] (h : Mergeable flags sel width)
    (htokens : topTokenIds.rows = column flags sel (fun o => o.topTokenIds.padded width (-1)))
    (hlogprobs : topLogprobs.rows =
      column flags sel (fun o => o.topLogprobs.padded width ((-9999 : Int) : F))) :
    Aligned (result flags sel ids topTokenIds topLogprobs).toOutputRows
      ((List.range flags.length).map (partSize flags sel)).sum where
  sequenceIds := length_flatten_column h.toCounted (fun _ _ _ => rfl)
    fun b => (h.tiled b).aligned.sequenceIds
  parentSequenceIds := length_flatten_column h.toCounted (fun _ _ _ => rfl)
    fun b => (h.tiled b).aligned.parentSequenceIds
  tokenIds := length_flatten_column h.toCounted (fun _ _ _ => rfl)
    fun b => (h.tiled b).aligned.tokenIds
  logprobs := length_flatten_column h.toCounted (fun _ _ _ => rfl)
    fun b => (h.tiled b).aligned.logprobs
  topTokenIds := (congrArg List.length htokens).trans
    (length_flatten_column h.toCounted (fun _ _ _ => Table.padded_slice _ _ _ _ _)
      fun b => (length_padded _ _).trans (h.tiled b).aligned.topTokenIds)
  topLogprobs := (congrArg List.length hlogprobs).trans
    (length_flatten_column h.toCounted (fun _ _ _ => Table.padded_slice _ _ _ _ _)
      fun b => (length_padded _ _).trans (h.tiled b).aligned.topLogprobs)
  cumulativeLogprobs := length_flatten_column h.toCounted (fun _ _ _ => rfl)
    fun b => (h.tiled b).aligned.cumulativeLogprobs
  numNewTokens := length_flatten_column h.toCounted (fun _ _ _ => rfl)
    fun b => (h.tiled b).aligned.numNewTokens
  numTopTokens := h.numTopTokens_merged.rows
  seeds := h.seeds_merged.rows

/-- A row of a group in the result. -/
theorem row_result [IntCast F] {t : Nat} (h : Mergeable flags sel width)
    (htokens : topTokenIds.rows = column flags sel (fun o => o.topTokenIds.padded width (-1)))
    (hlogprobs : topLogprobs.rows =
      column flags sel (fun o => o.topLogprobs.padded width ((-9999 : Int) : F)))
    (hb : flags[i]? = some b) (ht : t < partSize flags sel i) :
    row (result flags sel ids topTokenIds topLogprobs).toOutputRows
        (((List.range i).map (partSize flags sel)).sum + t) =
      (row (sel b).toOutputRows ((source flags sel i).1 + t)).pad
        (width - (sel b).topTokenIds.width) := by
  have hc := h.toCounted
  have htopTokenIds := getElem?_column (g := fun o => o.topTokenIds.padded width (-1)) hc
    (fun _ _ _ => Table.padded_slice _ _ _ _ _)
    (fun b => (length_padded _ _).trans (h.tiled b).aligned.topTokenIds) hb ht
  have htopLogprobs := getElem?_column
    (g := fun o => o.topLogprobs.padded width ((-9999 : Int) : F)) hc
    (fun _ _ _ => Table.padded_slice _ _ _ _ _)
    (fun b => (length_padded _ _).trans (h.tiled b).aligned.topLogprobs) hb ht
  rw [← htokens, Table.padded, List.getElem?_map] at htopTokenIds
  rw [← hlogprobs, Table.padded, List.getElem?_map, h.topLogprobs_width] at htopLogprobs
  simp only [row, result, Row.pad, htopTokenIds, htopLogprobs,
    h.numTopTokens_merged.row i b t hb ht, h.seeds_merged.row i b t hb ht,
    getElem?_column (g := OutputRows.sequenceIds) hc (fun _ _ _ => rfl)
      (fun b => (h.tiled b).aligned.sequenceIds) hb ht,
    getElem?_column (g := OutputRows.parentSequenceIds) hc (fun _ _ _ => rfl)
      (fun b => (h.tiled b).aligned.parentSequenceIds) hb ht,
    getElem?_column (g := OutputRows.tokenIds) hc (fun _ _ _ => rfl)
      (fun b => (h.tiled b).aligned.tokenIds) hb ht,
    getElem?_column (g := OutputRows.logprobs) hc (fun _ _ _ => rfl)
      (fun b => (h.tiled b).aligned.logprobs) hb ht,
    getElem?_column (g := OutputRows.cumulativeLogprobs) hc (fun _ _ _ => rfl)
      (fun b => (h.tiled b).aligned.cumulativeLogprobs) hb ht,
    getElem?_column (g := OutputRows.numNewTokens) hc (fun _ _ _ => rfl)
      (fun b => (h.tiled b).aligned.numNewTokens) hb ht]

end SamplingOutput

end MindieLLM
