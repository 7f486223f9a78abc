import Mathlib.Algebra.Order.Ring.Int
import MindieLLM.Program.Reaches
import MindieLLM.TextGenerator.GenerationOutput

/-!
# The arrays of an output

The rows of an output are spread over arrays, one for each kind of value, and each operation changes
all of them. That the arrays go on together is said by a table of whole rows, which they represent.

Outputs with a sequence in common do not go together: the arrays get all rows of the other output,
and the sequence ids only those that are new.

## Main definitions

* `OutputArrays`: the arrays, and where the groups begin and end
* `OutputArrays.fillDummy`, `OutputArrays.remove`, `OutputArrays.concatenateOutput`: the operations
* `RowTable`: whole rows, one group for each request, each sequence once
* `OutputArrays.Aligned`: the arrays are those of a table

## Main results

* `OutputArrays.aligned_of_reaches`: the arrays stay aligned
-/

namespace MindieLLM

open Program

/-! ## Arrays -/

/-- An array with two axes: the number of columns is kept without a row. -/
structure Grid (β : Type) where
  cols : Nat
  rows : List (List β)

namespace Grid

variable {β : Type}

/-- `np.pad`, behind the rows and behind the columns. -/
def pad (numRows numCols : Nat) (fill : β) (grid : Grid β) : Grid β where
  cols := grid.cols + numCols
  rows := grid.rows.map (· ++ List.replicate numCols fill) ++
    List.replicate numRows (List.replicate (grid.cols + numCols) fill)

/-- `np.concatenate`, without a value if the columns differ. -/
def append (grid other : Grid β) : Option (Grid β) :=
  if grid.cols = other.cols then some ⟨grid.cols, grid.rows ++ other.rows⟩ else none

end Grid

/-- An array with three axes. -/
structure Block (β : Type) extends Grid (List β) where
  depth : Nat

namespace Block

variable {β : Type}

def pad (numRows numCols : Nat) (fill : β) (block : Block β) : Block β where
  toGrid := block.toGrid.pad numRows numCols (List.replicate block.depth fill)
  depth := block.depth

def append (block other : Block β) : Option (Block β) :=
  if block.depth = other.depth then
    (block.toGrid.append other.toGrid).map fun grid => ⟨grid, block.depth⟩
  else none

end Block

/-- `array[indices]`, without a value if an index is out of range. -/
def select {β : Type} (indices : List Nat) (array : List β) : Option (List β) :=
  indices.mapM fun i => array[i]?

/-- A field without an array has none afterwards. -/
def selectOptional {β : Type} (indices : List Nat) :
    Option (List β) → Option (Option (List β))
  | none => some none
  | some array => (select indices array).map some

/-! ## The output -/

/-- The arrays of a `GenerationOutput`, with log-probabilities of type `α`. -/
structure OutputArrays (α : Type) where
  sequenceIds : List Int
  parentSequenceIds : List Int
  groupIndices : List (Nat × Nat)
  tokenIds : Grid Int
  logprobs : Grid α
  topTokenIds : Block Int
  topLogprobs : Block α
  numNewTokens : List Int
  numTopTokens : List Int
  cumulativeLogprobs : List α
  finishReason : List Int
  truncationIndices : List Int
  /-- Put together from other arrays by `collate`, before it is read. -/
  eosInfo : Option (List (Int × Int)) := none

namespace OutputArrays

variable {α : Type}

/-- The groups of the sequences that are not there. -/
def newGroups (sequenceIds allSequenceIds : List Int) (batchSequenceIds : List (List Int)) :
    List (List Int) :=
  let newSequenceIds := GenerationOutput.setdiff1d allSequenceIds sequenceIds
  let hasRunningSequences := newSequenceIds.length ≠ allSequenceIds.length
  if 0 < newSequenceIds.length ∧ hasRunningSequences then
    (batchSequenceIds.map fun ids => GenerationOutput.intersect1d ids newSequenceIds).filter
      fun ids => !ids.isEmpty
  else if ¬hasRunningSequences then batchSequenceIds
  else []

/-- A group of sequences, each its own parent. -/
def appendSequences (o : OutputArrays α) (sequenceGroup : List Int) : OutputArrays α :=
  { o with
    groupIndices := o.groupIndices ++
      [(o.sequenceIds.length, o.sequenceIds.length + sequenceGroup.length)]
    sequenceIds := o.sequenceIds ++ sequenceGroup
    parentSequenceIds := o.parentSequenceIds ++ sequenceGroup }

/-- More columns for tokens, and more rows of all arrays. -/
def padArrays [IntCast α] (numRows numCols : Nat) (maxGeneratedTokens : Int) (o : OutputArrays α) :
    OutputArrays α :=
  { o with
    tokenIds := o.tokenIds.pad numRows numCols (-1)
    logprobs := o.logprobs.pad numRows numCols ((-9999 : Int) : α)
    topTokenIds := o.topTokenIds.pad numRows numCols (-1)
    topLogprobs := o.topLogprobs.pad numRows numCols ((-9999 : Int) : α)
    numNewTokens := o.numNewTokens ++ List.replicate numRows maxGeneratedTokens
    numTopTokens := o.numTopTokens ++ List.replicate numRows 0
    cumulativeLogprobs := o.cumulativeLogprobs ++ List.replicate numRows ((0 : Int) : α)
    finishReason := o.finishReason ++ List.replicate numRows 0
    truncationIndices := o.truncationIndices ++ List.replicate numRows 0 }

/-- Without a value if there are more columns than tokens. -/
def fillDummy [IntCast α] (o : OutputArrays α) (batchSequenceIds : List (List Int))
    (maxGeneratedTokens : Nat) : Option (OutputArrays α) :=
  let newSequenceIdsGroup := newGroups o.sequenceIds batchSequenceIds.flatten batchSequenceIds
  let o := newSequenceIdsGroup.foldl appendSequences o
  if maxGeneratedTokens < o.tokenIds.cols then none
  else
    some (o.padArrays (newSequenceIdsGroup.map List.length).sum
      (maxGeneratedTokens - o.tokenIds.cols) maxGeneratedTokens)

/-- What the loops over the groups find; they read the sequence ids. -/
def removal (o : OutputArrays α) (removedSequenceIds : List Int) : GenerationOutput.Removal :=
  o.groupIndices.foldl
    (GenerationOutput.removeGroup (o.sequenceIds.map fun id => ⟨id, false⟩) removedSequenceIds)
    { reservedIndices := []
      newGroupIndices := []
      idx := 0
      newStart := 0 }

def remove (o : OutputArrays α) (removedSequenceIds : List Int) : Option (OutputArrays α) := do
  let removal := o.removal removedSequenceIds
  let reservedIndices := removal.reservedIndices
  let sequenceIds ← select reservedIndices o.sequenceIds
  let parentSequenceIds ← select reservedIndices o.parentSequenceIds
  let tokenIds ← select reservedIndices o.tokenIds.rows
  let logprobs ← select reservedIndices o.logprobs.rows
  let topTokenIds ← select reservedIndices o.topTokenIds.rows
  let topLogprobs ← select reservedIndices o.topLogprobs.rows
  let numNewTokens ← select reservedIndices o.numNewTokens
  let numTopTokens ← select reservedIndices o.numTopTokens
  let cumulativeLogprobs ← select reservedIndices o.cumulativeLogprobs
  let finishReason ← select reservedIndices o.finishReason
  let truncationIndices ← select reservedIndices o.truncationIndices
  let eosInfo ← selectOptional reservedIndices o.eosInfo
  return {
    sequenceIds := sequenceIds
    parentSequenceIds := parentSequenceIds
    groupIndices := removal.newGroupIndices
    tokenIds := ⟨o.tokenIds.cols, tokenIds⟩
    logprobs := ⟨o.logprobs.cols, logprobs⟩
    topTokenIds := ⟨⟨o.topTokenIds.cols, topTokenIds⟩, o.topTokenIds.depth⟩
    topLogprobs := ⟨⟨o.topLogprobs.cols, topLogprobs⟩, o.topLogprobs.depth⟩
    numNewTokens := numNewTokens
    numTopTokens := numTopTokens
    cumulativeLogprobs := cumulativeLogprobs
    finishReason := finishReason
    truncationIndices := truncationIndices
    eosInfo := eosInfo }

/-- `pad_output`: columns and no rows. -/
def padOutput [IntCast α] (o : OutputArrays α) (maxGeneratedTokens : Nat) :
    Option (OutputArrays α) :=
  if maxGeneratedTokens < o.tokenIds.cols then none
  else some (o.padArrays 0 (maxGeneratedTokens - o.tokenIds.cols) maxGeneratedTokens)

/-- `covert_to_batch_sequence_ids` -/
def batchSequenceIds (o : OutputArrays α) : List (List Int) :=
  o.groupIndices.map fun group => (o.sequenceIds.take group.2).drop group.1

def concatenateOutput [IntCast α] (o newOutput : OutputArrays α) (maxGeneratedTokens : Nat) :
    Option (OutputArrays α) := do
  let newSequenceIdsGroup := newGroups o.sequenceIds newOutput.sequenceIds
    newOutput.batchSequenceIds
  let o ← (newSequenceIdsGroup.foldl appendSequences o).padOutput maxGeneratedTokens
  let newOutput ← newOutput.padOutput maxGeneratedTokens
  let tokenIds ← o.tokenIds.append newOutput.tokenIds
  let logprobs ← o.logprobs.append newOutput.logprobs
  let topTokenIds ← o.topTokenIds.append newOutput.topTokenIds
  let topLogprobs ← o.topLogprobs.append newOutput.topLogprobs
  return { o with
    tokenIds := tokenIds
    logprobs := logprobs
    topTokenIds := topTokenIds
    topLogprobs := topLogprobs
    numNewTokens := o.numNewTokens ++ newOutput.numNewTokens
    numTopTokens := o.numTopTokens ++ newOutput.numTopTokens
    cumulativeLogprobs := o.cumulativeLogprobs ++ newOutput.cumulativeLogprobs
    finishReason := o.finishReason ++ newOutput.finishReason
    truncationIndices := o.truncationIndices ++ newOutput.truncationIndices }

inductive Op (α : Type)
  | fillDummy (batchSequenceIds : List (List Int)) (maxGeneratedTokens : Nat)
  | remove (removedSequenceIds : List Int)
  | concatenateOutput (newOutput : OutputArrays α) (maxGeneratedTokens : Nat)

def step [IntCast α] (o : OutputArrays α) : Op α → Option (OutputArrays α)
  | .fillDummy batchSequenceIds maxGeneratedTokens =>
    o.fillDummy batchSequenceIds maxGeneratedTokens
  | .remove removedSequenceIds => o.remove removedSequenceIds
  | .concatenateOutput newOutput maxGeneratedTokens =>
    o.concatenateOutput newOutput maxGeneratedTokens

end OutputArrays

/-! ## Groups of requests -/

/-- Each sequence occurs once, and the groups are of different requests. -/
structure Grouped {ρ : Type} (requestOf : Int → ρ) (groups : List (List Int)) : Prop where
  nodup : groups.flatten.Nodup
  request : ∀ ids ∈ groups, ∀ x ∈ ids, ∀ y ∈ ids, requestOf x = requestOf y
  apart : groups.Pairwise fun ids ids' => ∀ x ∈ ids, ∀ y ∈ ids', requestOf x ≠ requestOf y

namespace Grouped

variable {ρ : Type} {requestOf : Int → ρ} {groups groups' : List (List Int)}

/-- Groups of other requests are put behind. -/
theorem append (h : Grouped requestOf groups) (h' : Grouped requestOf groups')
    (hapart : ∀ x ∈ groups.flatten, ∀ y ∈ groups'.flatten, requestOf x ≠ requestOf y) :
    Grouped requestOf (groups ++ groups') := by
  refine ⟨?_, ?_, ?_⟩
  · rw [List.flatten_append]
    refine h.nodup.append h'.nodup ?_
    intro x hx hx'
    exact hapart x hx x hx' rfl
  · intro ids hids
    rcases List.mem_append.mp hids with hids | hids
    · exact h.request ids hids
    · exact h'.request ids hids
  · refine List.pairwise_append.mpr ⟨h.apart, h'.apart, ?_⟩
    intro ids hids ids' hids' x hx y hy
    exact hapart x (List.mem_flatten.mpr ⟨ids, hids, hx⟩) y
      (List.mem_flatten.mpr ⟨ids', hids', hy⟩)

/-- Parts of the groups, of which some are left out. -/
theorem narrow (h : Grouped requestOf groups) (f : List Int → List Int) (p : List Int → Bool)
    (hsub : ∀ ids, ∀ x ∈ f ids, x ∈ ids) (hnodup : ∀ ids, ids.Nodup → (f ids).Nodup) :
    Grouped requestOf ((groups.map f).filter p) := by
  obtain ⟨hgroup, hdisjoint⟩ := List.nodup_flatten.mp h.nodup
  refine ⟨List.nodup_flatten.mpr ⟨?_, ?_⟩, ?_, ?_⟩
  · intro part hpart
    obtain ⟨ids, hids, rfl⟩ := List.mem_map.mp (List.mem_of_mem_filter hpart)
    exact hnodup ids (hgroup ids hids)
  · refine (List.Pairwise.map f ?_ hdisjoint).filter p
    intro ids ids' hdisjoint x hx hx'
    exact hdisjoint (hsub ids x hx) (hsub ids' x hx')
  · intro part hpart x hx y hy
    obtain ⟨ids, hids, rfl⟩ := List.mem_map.mp (List.mem_of_mem_filter hpart)
    exact h.request ids hids x (hsub ids x hx) y (hsub ids y hy)
  · refine (List.Pairwise.map f ?_ h.apart).filter p
    intro ids ids' hapart x hx y hy
    exact hapart x (hsub ids x hx) y (hsub ids' y hy)

end Grouped

theorem map_map_groups {β γ δ : Type} {f : γ → δ} {g : β → γ} {k : β → δ}
    (h : ∀ b, f (g b) = k b) (groups : List (List β)) :
    (groups.map (List.map g)).map (List.map f) = groups.map (List.map k) := by
  rw [List.map_map]
  refine List.map_congr_left fun group _ => ?_
  rw [Function.comp_apply, List.map_map]
  exact List.map_congr_left fun b _ => h b

theorem map_map_groups_id {β γ : Type} {f : γ → β} {g : β → γ} (h : ∀ b, f (g b) = b)
    (groups : List (List β)) : (groups.map (List.map g)).map (List.map f) = groups := by
  rw [map_map_groups (k := id) h, List.map_id_fun]
  exact List.map_id _

/-- What stays of the groups of keys are the keys of what stays. -/
theorem filter_groups {β γ : Type} (key : β → γ) (p : γ → Bool) (groups : List (List β)) :
    ((groups.map (List.map key)).map (List.filter p)).filter (fun group => !group.isEmpty) =
      ((groups.map (List.filter fun b => p (key b))).filter
        fun group => !group.isEmpty).map (List.map key) := by
  have hfilter : List.filter p ∘ List.map key =
      List.map key ∘ List.filter fun b => p (key b) := funext fun group => List.filter_map
  have hempty : (fun group : List γ => !group.isEmpty) ∘ List.map key =
      fun group : List β => !group.isEmpty := funext fun group => congrArg not List.isEmpty_map
  rw [List.map_map, hfilter, ← List.map_map]
  refine List.filter_map.trans ?_
  rw [hempty]

/-! ## Whole rows -/

/-- What an output has of a sequence. -/
structure RowData (α : Type) where
  tokenIds : List Int
  logprobs : List α
  topTokenIds : List (List Int)
  topLogprobs : List (List α)
  numNewTokens : Int
  numTopTokens : Int
  cumulativeLogprobs : α
  finishReason : Int
  truncationIndices : Int

structure Row (α : Type) where
  sequenceId : Int
  parentSequenceId : Int
  data : RowData α

section Rows

variable {α : Type} [IntCast α]

/-- More columns, with two depths. -/
def RowData.pad (numCols topTokens topLogprobs : Nat) (d : RowData α) : RowData α :=
  { d with
    tokenIds := d.tokenIds ++ List.replicate numCols (-1)
    logprobs := d.logprobs ++ List.replicate numCols ((-9999 : Int) : α)
    topTokenIds := d.topTokenIds ++ List.replicate numCols (List.replicate topTokens (-1))
    topLogprobs := d.topLogprobs ++
      List.replicate numCols (List.replicate topLogprobs ((-9999 : Int) : α)) }

/-- A row without a token, of the shape of the arrays with more columns. -/
def RowData.dummy (o : OutputArrays α) (numCols : Nat) (maxGeneratedTokens : Int) : RowData α where
  tokenIds := List.replicate (o.tokenIds.cols + numCols) (-1)
  logprobs := List.replicate (o.logprobs.cols + numCols) ((-9999 : Int) : α)
  topTokenIds := List.replicate (o.topTokenIds.cols + numCols)
    (List.replicate o.topTokenIds.depth (-1))
  topLogprobs := List.replicate (o.topLogprobs.cols + numCols)
    (List.replicate o.topLogprobs.depth ((-9999 : Int) : α))
  numNewTokens := maxGeneratedTokens
  numTopTokens := 0
  cumulativeLogprobs := ((0 : Int) : α)
  finishReason := 0
  truncationIndices := 0

/-- Whose a row is. More columns do not change it, and a row without a token is anyone's. -/
structure Ownership (α : Type) [IntCast α] where
  Belongs : Int → RowData α → Prop
  pad : ∀ sequenceId data numCols topTokens topLogprobs, Belongs sequenceId data →
    Belongs sequenceId (data.pad numCols topTokens topLogprobs)
  dummy : ∀ sequenceId o numCols maxGeneratedTokens,
    Belongs sequenceId (RowData.dummy o numCols maxGeneratedTokens)

/-- Whole rows, each of its sequence, one group for each request. -/
structure RowTable {ρ : Type} (own : Ownership α) (requestOf : Int → ρ) where
  groups : List (List (Row α))
  grouped : Grouped requestOf (groups.map (List.map Row.sequenceId))
  belongs : ∀ row ∈ groups.flatten, own.Belongs row.sequenceId row.data

namespace RowTable

variable {ρ : Type} {own : Ownership α} {requestOf : Int → ρ}

def rows (t : RowTable own requestOf) : List (Row α) := t.groups.flatten

def sequenceIds (t : RowTable own requestOf) : List Int := t.rows.map Row.sequenceId

/-- The rows of a group, each with other data of its sequence. -/
def mapRows (f : Row α → Row α) (hid : ∀ row, (f row).sequenceId = row.sequenceId)
    (hbelongs : ∀ row, own.Belongs row.sequenceId row.data →
      own.Belongs row.sequenceId (f row).data) (t : RowTable own requestOf) :
    RowTable own requestOf where
  groups := t.groups.map (List.map f)
  grouped := by
    rw [map_map_groups hid]
    exact t.grouped
  belongs := by
    intro row hrow
    rw [← List.map_flatten] at hrow
    obtain ⟨row, hmem, rfl⟩ := List.mem_map.mp hrow
    rw [hid]
    exact hbelongs row (t.belongs row hmem)

/-- More columns. -/
def pad (numCols topTokens topLogprobs : Nat) (t : RowTable own requestOf) :
    RowTable own requestOf :=
  t.mapRows (fun row => { row with data := row.data.pad numCols topTokens topLogprobs })
    (fun _ => rfl) fun row => own.pad row.sequenceId row.data numCols topTokens topLogprobs

/-- Each sequence is its own parent. -/
def ownParents (t : RowTable own requestOf) : RowTable own requestOf :=
  t.mapRows (fun row => { row with parentSequenceId := row.sequenceId }) (fun _ => rfl)
    fun _ hrow => hrow

/-- The rows of other sequences, without the groups of which nothing stays. -/
def remove (removed : List Int) (t : RowTable own requestOf) : RowTable own requestOf where
  groups := (t.groups.map (List.filter fun row => row.sequenceId ∉ removed)).filter
    fun group => !group.isEmpty
  grouped := by
    have hids : ((t.groups.map (List.filter fun row => row.sequenceId ∉ removed)).filter
        fun group => !group.isEmpty).map (List.map Row.sequenceId) =
        ((t.groups.map (List.map Row.sequenceId)).map
          (List.filter fun id => id ∉ removed)).filter fun ids => !ids.isEmpty :=
      (filter_groups Row.sequenceId (fun id => id ∉ removed) t.groups).symm
    rw [hids]
    exact t.grouped.narrow _ _ (fun ids x hx => List.mem_of_mem_filter hx)
      fun ids hids => hids.filter _
  belongs := by
    intro row hrow
    rw [List.flatten_filter_not_isEmpty, ← List.filter_flatten] at hrow
    exact t.belongs row (List.mem_of_mem_filter hrow)

/-- The rows of other requests are put behind. -/
def append (t t' : RowTable own requestOf)
    (hapart : ∀ x ∈ t.sequenceIds, ∀ y ∈ t'.sequenceIds, requestOf x ≠ requestOf y) :
    RowTable own requestOf where
  groups := t.groups ++ t'.groups
  grouped := by
    rw [List.map_append]
    refine t.grouped.append t'.grouped ?_
    intro x hx y hy
    rw [← List.map_flatten] at hx hy
    exact hapart x hx y hy
  belongs := by
    intro row hrow
    rw [List.flatten_append] at hrow
    rcases List.mem_append.mp hrow with hrow | hrow
    · exact t.belongs row hrow
    · exact t'.belongs row hrow

/-- Rows without a token. -/
def dummy (own : Ownership α) (o : OutputArrays α) (numCols : Nat) (maxGeneratedTokens : Int)
    (groups : List (List Int)) (h : Grouped requestOf groups) : RowTable own requestOf where
  groups := groups.map (List.map fun id => ⟨id, id, .dummy o numCols maxGeneratedTokens⟩)
  grouped := by
    rw [map_map_groups_id fun _ => rfl]
    exact h
  belongs := by
    intro row hrow
    rw [← List.map_flatten] at hrow
    obtain ⟨id, -, rfl⟩ := List.mem_map.mp hrow
    exact own.dummy id o numCols maxGeneratedTokens

theorem rows_remove (removed : List Int) (t : RowTable own requestOf) :
    (t.remove removed).rows = t.rows.filter fun row => row.sequenceId ∉ removed := by
  change List.flatten (List.filter _ _) = t.groups.flatten.filter _
  rw [List.flatten_filter_not_isEmpty, List.filter_flatten]

theorem sequenceIds_pad (numCols topTokens topLogprobs : Nat) (t : RowTable own requestOf) :
    (t.pad numCols topTokens topLogprobs).sequenceIds = t.sequenceIds := by
  change (t.groups.map (List.map _)).flatten.map _ = t.groups.flatten.map _
  rw [← List.map_flatten, List.map_map]
  rfl

theorem sequenceIds_ownParents (t : RowTable own requestOf) :
    t.ownParents.sequenceIds = t.sequenceIds := by
  change (t.groups.map (List.map _)).flatten.map _ = t.groups.flatten.map _
  rw [← List.map_flatten, List.map_map]
  rfl

theorem sequenceIds_dummy (o : OutputArrays α) (numCols : Nat) (maxGeneratedTokens : Int)
    {groups : List (List Int)} (h : Grouped requestOf groups) :
    (dummy own o numCols maxGeneratedTokens groups h).sequenceIds = groups.flatten := by
  change (groups.map (List.map _)).flatten.map _ = groups.flatten
  rw [← List.map_flatten, List.map_map]
  exact List.map_id _

theorem data_pad (numCols topTokens topLogprobs : Nat) (t : RowTable own requestOf) :
    (t.pad numCols topTokens topLogprobs).rows.map Row.data =
      (t.rows.map Row.data).map (RowData.pad numCols topTokens topLogprobs) := by
  change (t.groups.map (List.map _)).flatten.map _ = (t.groups.flatten.map _).map _
  rw [← List.map_flatten, List.map_map, List.map_map]
  rfl

theorem data_ownParents (t : RowTable own requestOf) :
    t.ownParents.rows.map Row.data = t.rows.map Row.data := by
  change (t.groups.map (List.map _)).flatten.map _ = t.groups.flatten.map _
  rw [← List.map_flatten, List.map_map]
  rfl

theorem data_dummy (o : OutputArrays α) (numCols : Nat) (maxGeneratedTokens : Int)
    {groups : List (List Int)} (h : Grouped requestOf groups) :
    (dummy own o numCols maxGeneratedTokens groups h).rows.map Row.data =
      List.replicate groups.flatten.length (.dummy o numCols maxGeneratedTokens) := by
  change (groups.map (List.map _)).flatten.map _ = _
  rw [← List.map_flatten, List.map_map]
  exact List.map_const'

end RowTable

end Rows

/-! ## The arrays are those of a table -/

namespace OutputArrays

variable {α : Type}

/-- The sequences and the groups are those of whole rows. -/
structure Sequences (o : OutputArrays α) (groups : List (List (Row α))) : Prop where
  sequenceIds : o.sequenceIds = groups.flatten.map Row.sequenceId
  parentSequenceIds : o.parentSequenceIds = groups.flatten.map Row.parentSequenceId
  groupIndices : o.groupIndices = GenerationOutput.indicesOf 0 groups

/-- The other arrays are those of rows. -/
structure Values (o : OutputArrays α) (data : List (RowData α)) : Prop where
  tokenIds : o.tokenIds.rows = data.map RowData.tokenIds
  logprobs : o.logprobs.rows = data.map RowData.logprobs
  topTokenIds : o.topTokenIds.rows = data.map RowData.topTokenIds
  topLogprobs : o.topLogprobs.rows = data.map RowData.topLogprobs
  numNewTokens : o.numNewTokens = data.map RowData.numNewTokens
  numTopTokens : o.numTopTokens = data.map RowData.numTopTokens
  cumulativeLogprobs : o.cumulativeLogprobs = data.map RowData.cumulativeLogprobs
  finishReason : o.finishReason = data.map RowData.finishReason
  truncationIndices : o.truncationIndices = data.map RowData.truncationIndices

/-- Row `i` of each array belongs to `sequence_ids[i]`, each sequence occurs once, and the groups
are consecutive, one for each request. -/
def Aligned {ρ : Type} [IntCast α] (own : Ownership α) (requestOf : Int → ρ)
    (o : OutputArrays α) : Prop :=
  ∃ t : RowTable own requestOf, Sequences o t.groups ∧ Values o (t.rows.map Row.data)

/-- The other output is aligned, and a batch has distinct sequences, in groups of requests. Where a
sequence gets a row, its request has none. -/
def Allowed {ρ : Type} [IntCast α] (own : Ownership α) (requestOf : Int → ρ)
    (o : OutputArrays α) : Op α → Prop
  | .fillDummy batchSequenceIds _ => Grouped requestOf batchSequenceIds ∧
      ∀ y ∈ batchSequenceIds.flatten, y ∉ o.sequenceIds →
        ∀ x ∈ o.sequenceIds, requestOf x ≠ requestOf y
  | .remove _ => True
  | .concatenateOutput newOutput _ => Aligned own requestOf newOutput ∧
      ∀ y ∈ newOutput.sequenceIds, ∀ x ∈ o.sequenceIds, requestOf x ≠ requestOf y

/-! ## New groups -/

/-- The new groups are parts of groups of the batch. -/
theorem newGroups_eq (sequenceIds allSequenceIds : List Int) : ∃ f p,
    (∀ batchSequenceIds, newGroups sequenceIds allSequenceIds batchSequenceIds =
      (batchSequenceIds.map f).filter p) ∧
    (∀ ids : List Int, ∀ x ∈ f ids, x ∈ ids) ∧ ∀ ids : List Int, ids.Nodup → (f ids).Nodup := by
  unfold newGroups
  dsimp only
  split
  · refine ⟨_, _, fun _ => rfl, ?_, ?_⟩
    · exact fun ids x hx => (GenerationOutput.mem_intersect1d.mp hx).1
    · intro ids _
      exact (List.perm_insertionSort _ _).nodup_iff.mpr (List.nodup_dedup _)
  · split
    · exact ⟨id, fun _ => true, fun _ => by rw [List.map_id, List.filter_true],
        fun _ _ hx => hx, fun _ h => h⟩
    · exact ⟨id, fun _ => false, fun _ => by rw [List.filter_false], fun _ _ hx => hx,
        fun _ h => h⟩

theorem grouped_newGroups {ρ : Type} {requestOf : Int → ρ} {batchSequenceIds : List (List Int)}
    (sequenceIds allSequenceIds : List Int) (h : Grouped requestOf batchSequenceIds) :
    Grouped requestOf (newGroups sequenceIds allSequenceIds batchSequenceIds) := by
  obtain ⟨f, p, heq, hsub, hnodup⟩ := newGroups_eq sequenceIds allSequenceIds
  rw [heq]
  exact h.narrow f p hsub hnodup

/-- The new groups are of sequences that are not there. -/
theorem mem_newGroups {sequenceIds : List Int} {batchSequenceIds : List (List Int)} {id : Int}
    (h : id ∈ (newGroups sequenceIds batchSequenceIds.flatten batchSequenceIds).flatten) :
    id ∈ batchSequenceIds.flatten ∧ id ∉ sequenceIds := by
  obtain ⟨ids, hids, hid⟩ := List.mem_flatten.mp h
  unfold newGroups at hids
  dsimp only at hids
  split at hids
  · obtain ⟨group, -, rfl⟩ := List.mem_map.mp (List.mem_filter.mp hids).1
    exact GenerationOutput.mem_setdiff1d.mp (GenerationOutput.mem_intersect1d.mp hid).2
  · split at hids
    · next hnone =>
      rw [not_not] at hnone
      have hmem := List.mem_flatten.mpr ⟨ids, hids, hid⟩
      exact ⟨hmem, GenerationOutput.notMem_of_length_setdiff1d hnone hmem⟩
    · cases hids

/-- All groups are new if no sequence is there. -/
theorem newGroups_of_disjoint {sequenceIds allSequenceIds : List Int}
    (batchSequenceIds : List (List Int)) (hnodup : allSequenceIds.Nodup)
    (hdisjoint : ∀ id ∈ allSequenceIds, id ∉ sequenceIds) :
    newGroups sequenceIds allSequenceIds batchSequenceIds = batchSequenceIds := by
  have hall : (GenerationOutput.setdiff1d allSequenceIds sequenceIds).length =
      allSequenceIds.length := by
    have hfilter : allSequenceIds.filter (fun id => id ∉ sequenceIds) = allSequenceIds :=
      List.filter_eq_self.mpr fun id hid => decide_eq_true (hdisjoint id hid)
    rw [GenerationOutput.setdiff1d, List.length_insertionSort, hfilter, hnodup.dedup]
  unfold newGroups
  dsimp only
  rw [if_neg fun h => h.2 hall, if_pos fun h => h hall]

/-! ## The operations -/

theorem indicesOf_append {β : Type} (start : Nat) (groups groups' : List (List β)) :
    GenerationOutput.indicesOf start (groups ++ groups') =
      GenerationOutput.indicesOf start groups ++
        GenerationOutput.indicesOf (start + groups.flatten.length) groups' := by
  induction groups generalizing start with
  | nil => rfl
  | cons group groups ih =>
    rw [List.cons_append, GenerationOutput.indicesOf, ih, List.flatten_cons, List.length_append,
      ← Nat.add_assoc]
    rfl

theorem indicesOf_map {β γ : Type} (f : β → γ) (start : Nat) (groups : List (List β)) :
    GenerationOutput.indicesOf start (groups.map (List.map f)) =
      GenerationOutput.indicesOf start groups := by
  induction groups generalizing start with
  | nil => rfl
  | cons group groups ih =>
    rw [List.map_cons, GenerationOutput.indicesOf, List.length_map, ih]
    rfl

theorem foldl_appendSequences (groups : List (List Int)) (o : OutputArrays α) :
    groups.foldl appendSequences o =
      { o with
        groupIndices := o.groupIndices ++
          GenerationOutput.indicesOf o.sequenceIds.length groups
        sequenceIds := o.sequenceIds ++ groups.flatten
        parentSequenceIds := o.parentSequenceIds ++ groups.flatten } := by
  induction groups generalizing o with
  | nil =>
    rw [GenerationOutput.indicesOf, List.flatten_nil, List.append_nil, List.append_nil,
      List.append_nil]
    rfl
  | cons group groups ih =>
    rw [List.foldl_cons, ih]
    unfold appendSequences
    dsimp only
    rw [GenerationOutput.indicesOf, List.flatten_cons, List.length_append, List.append_assoc,
      List.append_assoc, List.append_assoc]
    rfl

/-- The groups of an array are its slices. -/
theorem map_indicesOf {β γ : Type} (f : β → γ) (before : List γ) (groups : List (List β)) :
    (GenerationOutput.indicesOf before.length groups).map (fun group =>
        ((before ++ groups.flatten.map f).take group.2).drop group.1) =
      groups.map (List.map f) := by
  induction groups generalizing before with
  | nil => rfl
  | cons group groups ih =>
    have hrest := ih (before ++ group.map f)
    rw [List.length_append, List.length_map, List.append_assoc] at hrest
    rw [GenerationOutput.indicesOf, List.map_cons, List.map_cons, List.flatten_cons,
      List.map_append, hrest]
    dsimp only
    rw [← List.append_assoc, List.take_append_of_le_length (by simp),
      List.take_of_length_le (by simp), List.drop_left]

variable {o o' newOutput : OutputArrays α} {groups groups' : List (List (Row α))}
  {data data' : List (RowData α)}

theorem Sequences.batchSequenceIds (h : Sequences o groups) :
    o.batchSequenceIds = groups.map (List.map Row.sequenceId) := by
  unfold OutputArrays.batchSequenceIds
  rw [h.groupIndices, h.sequenceIds]
  exact map_indicesOf Row.sequenceId [] groups

/-- New groups are put behind, where each sequence is its own parent. -/
theorem Sequences.append (h : Sequences o groups) (news : List (List Int))
    (hids : groups'.map (List.map Row.sequenceId) = news)
    (hparents : groups'.map (List.map Row.parentSequenceId) = news) :
    Sequences (news.foldl appendSequences o) (groups ++ groups') := by
  have hflatten (f : Row α → Int) (hf : groups'.map (List.map f) = news) :
      groups'.flatten.map f = news.flatten := by
    rw [List.map_flatten, hf]
  rw [foldl_appendSequences]
  refine ⟨?_, ?_, ?_⟩
  · change o.sequenceIds ++ news.flatten = _
    rw [List.flatten_append, List.map_append, h.sequenceIds, hflatten _ hids]
  · change o.parentSequenceIds ++ news.flatten = _
    rw [List.flatten_append, List.map_append, h.parentSequenceIds, hflatten _ hparents]
  · change o.groupIndices ++ GenerationOutput.indicesOf o.sequenceIds.length news = _
    rw [indicesOf_append, h.groupIndices, h.sequenceIds, List.length_map, Nat.zero_add, ← hids,
      indicesOf_map]

/-- The operations on the other arrays leave the sequences and the groups. -/
theorem Sequences.congr (h : Sequences o groups) (hids : o'.sequenceIds = o.sequenceIds)
    (hparents : o'.parentSequenceIds = o.parentSequenceIds)
    (hgroups : o'.groupIndices = o.groupIndices) : Sequences o' groups :=
  ⟨hids.trans h.sequenceIds, hparents.trans h.parentSequenceIds, hgroups.trans h.groupIndices⟩

theorem Values.appendSequences (h : Values o data) (groups : List (List Int)) :
    Values (groups.foldl OutputArrays.appendSequences o) data := by
  rw [foldl_appendSequences]
  exact ⟨h.tokenIds, h.logprobs, h.topTokenIds, h.topLogprobs, h.numNewTokens, h.numTopTokens,
    h.cumulativeLogprobs, h.finishReason, h.truncationIndices⟩

/-- More columns for each row, and more rows. -/
theorem Values.padArrays [IntCast α] (h : Values o data) (numRows numCols : Nat)
    (maxGeneratedTokens : Int) :
    Values (o.padArrays numRows numCols maxGeneratedTokens)
      (data.map (RowData.pad numCols o.topTokenIds.depth o.topLogprobs.depth) ++
        List.replicate numRows (RowData.dummy o numCols maxGeneratedTokens)) := by
  constructor <;>
    simp [OutputArrays.padArrays, Grid.pad, Block.pad, RowData.pad, RowData.dummy, h.tokenIds,
      h.logprobs, h.topTokenIds, h.topLogprobs, h.numNewTokens, h.numTopTokens,
      h.cumulativeLogprobs, h.finishReason, h.truncationIndices, Function.comp_def]

section Aligned

variable {ρ : Type} [IntCast α] {own : Ownership α} {requestOf : Int → ρ}

theorem Sequences.sequenceIds_eq {t : RowTable own requestOf} (h : Sequences o t.groups) :
    o.sequenceIds = t.sequenceIds := h.sequenceIds

/-- More columns leave the sequences and the groups. -/
theorem Sequences.pad {t : RowTable own requestOf} (h : Sequences o t.groups)
    (numCols topTokens topLogprobs : Nat) :
    Sequences o (t.pad numCols topTokens topLogprobs).groups := by
  refine ⟨?_, ?_, ?_⟩
  · rw [h.sequenceIds_eq, ← RowTable.sequenceIds_pad numCols topTokens topLogprobs]
    rfl
  · rw [h.parentSequenceIds]
    change _ = (t.groups.map (List.map _)).flatten.map _
    rw [← List.map_flatten, List.map_map]
    rfl
  · rw [h.groupIndices]
    exact (indicesOf_map _ 0 t.groups).symm

/-- What has been put together has the rows of both. -/
theorem data_append (t t' : RowTable own requestOf)
    (hapart : ∀ x ∈ t.sequenceIds, ∀ y ∈ t'.sequenceIds, requestOf x ≠ requestOf y) :
    (t.append t' hapart).rows.map Row.data = t.rows.map Row.data ++ t'.rows.map Row.data := by
  change (t.groups ++ t'.groups).flatten.map _ = _
  rw [List.flatten_append, List.map_append]
  rfl

theorem Aligned.fillDummy (h : Aligned own requestOf o) {batchSequenceIds : List (List Int)}
    {maxGeneratedTokens : Nat} (hbatch : Grouped requestOf batchSequenceIds)
    (hapart : ∀ y ∈ batchSequenceIds.flatten, y ∉ o.sequenceIds →
      ∀ x ∈ o.sequenceIds, requestOf x ≠ requestOf y)
    (ho' : o.fillDummy batchSequenceIds maxGeneratedTokens = some o') :
    Aligned own requestOf o' := by
  obtain ⟨t, hsequences, hvalues⟩ := h
  have hnews : Grouped requestOf
      (newGroups o.sequenceIds batchSequenceIds.flatten batchSequenceIds) :=
    grouped_newGroups _ _ hbatch
  have hmem : ∀ x ∈ t.sequenceIds,
      ∀ y ∈ (newGroups o.sequenceIds batchSequenceIds.flatten batchSequenceIds).flatten,
        requestOf x ≠ requestOf y := by
    intro x hx y hy
    rw [← hsequences.sequenceIds_eq] at hx
    obtain ⟨hy, hnot⟩ := mem_newGroups hy
    exact hapart y hy hnot x hx
  unfold OutputArrays.fillDummy at ho'
  dsimp only at ho'
  generalize newGroups o.sequenceIds batchSequenceIds.flatten batchSequenceIds = news
    at hnews hmem ho'
  have hvalues := hvalues.appendSequences news
  have hsequences (k i j : Nat) (arrays : OutputArrays α) :
      Sequences (news.foldl appendSequences o) ((t.pad k i j).groups ++
        (RowTable.dummy own arrays k maxGeneratedTokens news hnews).groups) :=
    (hsequences.pad k i j).append news (map_map_groups_id (fun _ => rfl) news)
      (map_map_groups_id (fun _ => rfl) news)
  generalize news.foldl appendSequences o = arrays at ho' hvalues hsequences
  split at ho'
  · cases ho'
  · cases ho'
    generalize maxGeneratedTokens - arrays.tokenIds.cols = k
    refine ⟨(t.pad k arrays.topTokenIds.depth arrays.topLogprobs.depth).append
      (.dummy own arrays k maxGeneratedTokens news hnews) ?_, ?_, ?_⟩
    · rw [RowTable.sequenceIds_pad, RowTable.sequenceIds_dummy]
      exact hmem
    · exact (hsequences k _ _ arrays).congr rfl rfl rfl
    · rw [data_append, RowTable.data_pad, RowTable.data_dummy, List.length_flatten]
      exact hvalues.padArrays _ k maxGeneratedTokens

/-- The walk over the groups finds the rows of the other sequences, and their groups. -/
theorem Sequences.removal {t : RowTable own requestOf} (h : Sequences o t.groups)
    (removed : List Int) :
    (o.removal removed).newGroupIndices =
        GenerationOutput.indicesOf 0 (t.remove removed).groups ∧
      ∀ {β : Type} (f : Row α → β) (array : List β), array = t.rows.map f →
        select (o.removal removed).reservedIndices array =
          some ((t.remove removed).rows.map f) := by
  have hrows : o.sequenceIds.map (fun id => (⟨id, false⟩ : Result)) =
      t.rows.map fun row => ⟨row.sequenceId, false⟩ := by
    rw [h.sequenceIds_eq, RowTable.sequenceIds, List.map_map]
    rfl
  have hgroups : o.groupIndices = GenerationOutput.indicesOf 0
      (t.groups.map (List.map fun row => (⟨row.sequenceId, false⟩ : Result))) :=
    h.groupIndices.trans (indicesOf_map _ 0 t.groups).symm
  have hflatten : (t.groups.map (List.map fun row => (⟨row.sequenceId, false⟩ : Result))).flatten =
      t.rows.map fun row => ⟨row.sequenceId, false⟩ := List.map_flatten.symm
  have hrest : (t.rows.map fun row => (⟨row.sequenceId, false⟩ : Result)).drop 0 =
      (t.groups.map (List.map fun row => (⟨row.sequenceId, false⟩ : Result))).flatten ++ [] := by
    rw [hflatten, List.append_nil]
    rfl
  have hwalk := GenerationOutput.foldl_removeGroup removed
    (t.groups.map (List.map fun row => (⟨row.sequenceId, false⟩ : Result)))
    { reservedIndices := []
      newGroupIndices := []
      idx := 0
      newStart := 0 } hrest (Nat.zero_le _)
  unfold OutputArrays.removal
  rw [hgroups, hrows, hwalk]
  refine ⟨?_, ?_⟩
  · exact (congrArg (GenerationOutput.indicesOf 0)
      (filter_groups _ (fun r : Result => r.sequenceId ∉ removed) t.groups)).trans
        (indicesOf_map _ 0 _)
  · rintro β f array rfl
    rw [RowTable.rows_remove, hflatten]
    exact GenerationOutput.mapM_keptIndices (fun row => ⟨row.sequenceId, false⟩) f [] t.rows

theorem Aligned.remove (h : Aligned own requestOf o) {removed : List Int}
    (ho' : o.remove removed = some o') : Aligned own requestOf o' := by
  obtain ⟨t, hsequences, hvalues⟩ := h
  obtain ⟨hgroups, hselect⟩ := hsequences.removal removed
  have hdata {β : Type} (f : RowData α → β) (array : List β)
      (harray : array = (t.rows.map Row.data).map f) :
      select (o.removal removed).reservedIndices array =
        some (((t.remove removed).rows.map Row.data).map f) := by
    rw [List.map_map] at harray ⊢
    exact hselect _ array harray
  unfold OutputArrays.remove at ho'
  dsimp only at ho'
  rw [hselect _ _ hsequences.sequenceIds, hselect _ _ hsequences.parentSequenceIds,
    hdata _ _ hvalues.tokenIds, hdata _ _ hvalues.logprobs, hdata _ _ hvalues.topTokenIds,
    hdata _ _ hvalues.topLogprobs, hdata _ _ hvalues.numNewTokens, hdata _ _ hvalues.numTopTokens,
    hdata _ _ hvalues.cumulativeLogprobs, hdata _ _ hvalues.finishReason,
    hdata _ _ hvalues.truncationIndices] at ho'
  simp only [Option.bind_eq_bind, Option.bind_some] at ho'
  obtain ⟨eosInfo, -, heq⟩ := Option.bind_eq_some_iff.mp ho'
  cases heq
  exact ⟨t.remove removed, ⟨rfl, rfl, hgroups⟩, rfl, rfl, rfl, rfl, rfl, rfl, rfl, rfl, rfl⟩

theorem rows_of_append {β : Type} {grid other grid' : Grid β}
    (h : grid.append other = some grid') : grid'.rows = grid.rows ++ other.rows := by
  unfold Grid.append at h
  split at h
  · cases h
    rfl
  · cases h

theorem rows_of_append_block {β : Type} {block other block' : Block β}
    (h : block.append other = some block') : block'.rows = block.rows ++ other.rows := by
  unfold Block.append at h
  split at h
  · obtain ⟨grid, hgrid, rfl⟩ := Option.map_eq_some_iff.mp h
    exact rows_of_append hgrid
  · cases h

theorem padOutput_eq {maxGeneratedTokens : Nat} (h : o.padOutput maxGeneratedTokens = some o') :
    ∃ k, o' = o.padArrays 0 k maxGeneratedTokens := by
  unfold padOutput at h
  split at h
  · cases h
  · exact ⟨_, (Option.some.inj h).symm⟩

/-- The sequences that are new are put behind, and all rows of the other output. -/
theorem concatenateOutput_spec {maxGeneratedTokens : Nat} {news : List (List Int)}
    (hnews : newGroups o.sequenceIds newOutput.sequenceIds newOutput.batchSequenceIds = news)
    (h : o.concatenateOutput newOutput maxGeneratedTokens = some o') :
    o'.sequenceIds = o.sequenceIds ++ news.flatten ∧
      (∀ groups, Sequences (news.foldl appendSequences o) groups → Sequences o' groups) ∧
      ∃ k k', ∀ data data',
        Values ((news.foldl appendSequences o).padArrays 0 k maxGeneratedTokens) data →
          Values (newOutput.padArrays 0 k' maxGeneratedTokens) data' →
            Values o' (data ++ data') := by
  unfold OutputArrays.concatenateOutput at h
  simp only [Option.bind_eq_bind, Option.bind_eq_some_iff] at h
  obtain ⟨padded, hpadded, padded', hpadded', tokenIds, htokenIds, logprobs, hlogprobs,
    topTokenIds, htopTokenIds, topLogprobs, htopLogprobs, heq⟩ := h
  obtain ⟨k, rfl⟩ := padOutput_eq hpadded
  obtain ⟨k', rfl⟩ := padOutput_eq hpadded'
  cases heq
  rw [hnews] at *
  refine ⟨?_, fun groups hgroups => hgroups.congr rfl rfl rfl, k, k', ?_⟩
  · rw [foldl_appendSequences]
    rfl
  intro data data' hdata hdata'
  constructor <;> rw [List.map_append]
  · rw [rows_of_append htokenIds, hdata.tokenIds, hdata'.tokenIds]
  · rw [rows_of_append hlogprobs, hdata.logprobs, hdata'.logprobs]
  · rw [rows_of_append_block htopTokenIds, hdata.topTokenIds, hdata'.topTokenIds]
  · rw [rows_of_append_block htopLogprobs, hdata.topLogprobs, hdata'.topLogprobs]
  · exact congrArg₂ _ hdata.numNewTokens hdata'.numNewTokens
  · exact congrArg₂ _ hdata.numTopTokens hdata'.numTopTokens
  · exact congrArg₂ _ hdata.cumulativeLogprobs hdata'.cumulativeLogprobs
  · exact congrArg₂ _ hdata.finishReason hdata'.finishReason
  · exact congrArg₂ _ hdata.truncationIndices hdata'.truncationIndices

/-- More columns and no rows. -/
theorem Values.padColumns {t : RowTable own requestOf} (h : Values o (t.rows.map Row.data))
    (k : Nat) (maxGeneratedTokens : Int) : ∃ i j,
      Values (o.padArrays 0 k maxGeneratedTokens) ((t.pad k i j).rows.map Row.data) := by
  have hpad := h.padArrays 0 k maxGeneratedTokens
  rw [List.replicate_zero, List.append_nil, ← RowTable.data_pad] at hpad
  exact ⟨_, _, hpad⟩

theorem Aligned.concatenateOutput (h : Aligned own requestOf o) {maxGeneratedTokens : Nat}
    (hnew : Aligned own requestOf newOutput)
    (hapart : ∀ y ∈ newOutput.sequenceIds, ∀ x ∈ o.sequenceIds, requestOf x ≠ requestOf y)
    (ho' : o.concatenateOutput newOutput maxGeneratedTokens = some o') :
    Aligned own requestOf o' := by
  obtain ⟨t, hsequences, hvalues⟩ := h
  obtain ⟨t', hsequences', hvalues'⟩ := hnew
  have hids : newOutput.sequenceIds = (t'.groups.map (List.map Row.sequenceId)).flatten :=
    hsequences'.sequenceIds.trans List.map_flatten
  have hnews : newGroups o.sequenceIds newOutput.sequenceIds newOutput.batchSequenceIds =
      t'.groups.map (List.map Row.sequenceId) := by
    rw [hsequences'.batchSequenceIds]
    refine newGroups_of_disjoint _ (hids ▸ t'.grouped.nodup) ?_
    intro y hy hy'
    exact hapart y hy y hy' rfl
  obtain ⟨-, hgroups, k, k', hrows⟩ := concatenateOutput_spec hnews ho'
  obtain ⟨i, j, hcolumns⟩ := (hvalues.appendSequences (t'.groups.map
    (List.map Row.sequenceId))).padColumns k maxGeneratedTokens
  obtain ⟨i', j', hcolumns'⟩ := hvalues'.padColumns k' maxGeneratedTokens
  rw [← RowTable.data_ownParents] at hcolumns'
  refine ⟨(t.pad k i j).append (t'.pad k' i' j').ownParents ?_, ?_, ?_⟩
  · rw [RowTable.sequenceIds_pad, RowTable.sequenceIds_ownParents, RowTable.sequenceIds_pad,
      ← hsequences.sequenceIds_eq, ← hsequences'.sequenceIds_eq]
    exact fun x hx y hy => hapart y hy x hx
  · refine hgroups _ ((hsequences.pad k i j).append _ ?_ ?_)
    · exact (map_map_groups (fun _ => rfl) _).trans (map_map_groups (fun _ => rfl) _)
    · exact (map_map_groups (fun _ => rfl) _).trans (map_map_groups (fun _ => rfl) _)
  · rw [data_append]
    exact hrows _ _ hcolumns hcolumns'

theorem Aligned.length_sequenceIds (h : Aligned own requestOf o) :
    o.sequenceIds.length = o.numNewTokens.length := by
  obtain ⟨t, hsequences, hvalues⟩ := h
  rw [hsequences.sequenceIds, hvalues.numNewTokens, List.length_map, List.length_map,
    List.length_map]
  rfl

theorem Aligned.step (h : Aligned own requestOf o) {op : Op α}
    (hop : Allowed own requestOf o op) (ho' : step o op = some o') : Aligned own requestOf o' := by
  cases op with
  | fillDummy batchSequenceIds maxGeneratedTokens => exact h.fillDummy hop.1 hop.2 ho'
  | remove removedSequenceIds => exact h.remove ho'
  | concatenateOutput newOutput maxGeneratedTokens => exact h.concatenateOutput hop.1 hop.2 ho'

/-- **The arrays stay aligned**, as long as the requests that get rows have none. -/
theorem aligned_of_reaches (own : Ownership α) (requestOf : Int → ρ)
    (h : Aligned own requestOf o) (ho' : Reaches step (Allowed own requestOf) o o') :
    Aligned own requestOf o' :=
  ho'.invariant h fun _ _ _ haligned hop hstep => haligned.step hop hstep

end Aligned

section Example

/-- The tokens `10 * n` to `10 * n + 9` are those of the sequence `n`. -/
def tens : Ownership Int where
  Belongs sequenceId data := ∀ token ∈ data.tokenIds, token = -1 ∨ token / 10 = sequenceId
  pad := by
    intro sequenceId data numCols _ _ h token htoken
    rcases List.mem_append.mp htoken with htoken | htoken
    · exact h token htoken
    · exact .inl (List.eq_of_mem_replicate htoken)
  dummy := fun _ _ _ _ _ htoken => .inl (List.eq_of_mem_replicate htoken)

/-- An output with one token for each sequence. -/
def sampled (token : Int) (ids : List Int) : OutputArrays Int where
  sequenceIds := ids
  parentSequenceIds := ids
  groupIndices := (List.range ids.length).map fun i => (i, i + 1)
  tokenIds := ⟨1, ids.map fun id => [10 * id + token]⟩
  logprobs := ⟨1, ids.map fun _ => [0]⟩
  topTokenIds := ⟨⟨1, ids.map fun _ => [[]]⟩, 0⟩
  topLogprobs := ⟨⟨1, ids.map fun _ => [[]]⟩, 0⟩
  numNewTokens := ids.map fun _ => 1
  numTopTokens := ids.map fun _ => 0
  cumulativeLogprobs := ids.map fun _ => 0
  finishReason := ids.map fun _ => 0
  truncationIndices := ids.map fun _ => 0

def sampledRow (token id : Int) : Row Int where
  sequenceId := id
  parentSequenceId := id
  data := ⟨[10 * id + token], [0], [[]], [[]], 1, 0, 0, 0, 0⟩

theorem aligned_one {token n : Int} (h : (10 * n + token) / 10 = n) :
    Aligned tens id (sampled token [n]) := by
  refine ⟨⟨[[sampledRow token n]], ⟨by simp, by simp, by simp [sampledRow]⟩, ?_⟩, ⟨rfl, rfl, rfl⟩,
    rfl, rfl, rfl, rfl, rfl, rfl, rfl, rfl, rfl⟩
  simp [sampledRow, tens, h]

theorem aligned_two : Aligned tens id (sampled 2 [1, 2]) := by
  refine ⟨⟨[[sampledRow 2 1], [sampledRow 2 2]], ⟨by decide, by decide, by decide⟩, ?_⟩,
    ⟨rfl, rfl, rfl⟩, rfl, rfl, rfl, rfl, rfl, rfl, rfl, rfl, rfl⟩
  simp [sampledRow, tens]

/-- The row of another output is put behind, then one for a sequence that neither has, and the first
one is removed. -/
theorem aligned_of_reaches_dummy : ∃ o', Reaches step (Allowed tens id) (sampled 1 [1]) o' ∧
    o'.sequenceIds = [2, 3] ∧ o'.tokenIds.rows = [[22, -1], [-1, -1]] ∧ Aligned tens id o' := by
  obtain ⟨o₁, h₁⟩ : ∃ o₁, step (sampled 1 [1]) (.concatenateOutput (sampled 2 [2]) 2) = some o₁ :=
    ⟨_, rfl⟩
  obtain ⟨o₂, h₂⟩ : ∃ o₂, step o₁ (.fillDummy [[1], [2], [3]] 2) = some o₂ := by
    cases h₁
    exact ⟨_, rfl⟩
  obtain ⟨o', h'⟩ : ∃ o', step o₂ (.remove [1]) = some o' := by
    cases h₁
    cases h₂
    exact ⟨_, rfl⟩
  have hrun : Reaches step (Allowed tens id) (sampled 1 [1]) o' := by
    have hrest : ∀ y ∈ (sampled 2 [2]).sequenceIds, ∀ x ∈ (sampled 1 [1]).sequenceIds, x ≠ y := by
      decide
    refine .step (.remove [1]) (.step (.fillDummy [[1], [2], [3]] 2)
      (.one (a := .concatenateOutput (sampled 2 [2]) 2) ⟨aligned_one (by decide), hrest⟩ h₁)
      ?_ h₂) trivial h'
    cases h₁
    exact ⟨⟨by decide, by decide, by decide⟩, by decide⟩
  refine ⟨o', hrun, ?_, ?_, aligned_of_reaches tens id (aligned_one (by decide)) hrun⟩
  all_goals
    cases h₁
    cases h₂
    cases h'
    rfl

/-- The other output has a row for the sequence 1 as well: it is that of the sequence 2 now. -/
theorem not_aligned_overlap : Aligned tens id (sampled 1 [1]) ∧ Aligned tens id (sampled 2 [1, 2]) ∧
    ∃ o', Reaches step (fun _ _ => True) (sampled 1 [1]) o' ∧
      step (sampled 1 [1]) (.concatenateOutput (sampled 2 [1, 2]) 1) = some o' ∧
      o'.sequenceIds = [1, 2] ∧ o'.tokenIds.rows = [[11], [12], [22]] ∧ ¬Aligned tens id o' := by
  refine ⟨aligned_one (by decide), aligned_two, _,
    .one (a := .concatenateOutput (sampled 2 [1, 2]) 1) trivial rfl, rfl, rfl, rfl, fun h => ?_⟩
  have hlength := h.length_sequenceIds
  revert hlength
  decide

end Example

end OutputArrays

end MindieLLM
