import Mathlib.Data.List.Dedup
import Mathlib.Data.List.Sort

/-!
# The loops over the groups of an output

The rows of an output are those of the sequences of a batch, one group for each request. The rows of
sequences that have ended before are removed, and a sequence of the next batch that has no row gets
one without a token.

## Main definitions

* `GenerationOutput.removeGroup`: the loop that finds the rows that stay, and their groups
* `GenerationOutput.indicesOf`: the groups of a batch, one behind the other

## Main results

* `GenerationOutput.foldl_removeGroup`: the other rows stay, in their groups
* `GenerationOutput.mapM_keptIndices`: what an array has at their indices
-/

namespace MindieLLM

/-- A row: whose it is, and whether it has a `finish_reason`. -/
structure Result where
  sequenceId : Int
  finished : Bool
  deriving DecidableEq, Repr

namespace GenerationOutput

/-! ## Rows are removed -/

/-- The variables of the loop over a group. -/
structure GroupLoop where
  reservedIndices : List Nat
  idx : Nat
  isReserved : Bool
  newEnd : Nat

/-- A sequence of a group. -/
def reserve (removedSequenceIds : List Int) (loop : GroupLoop) (r : Result) : GroupLoop :=
  if r.sequenceId ∉ removedSequenceIds then
    { reservedIndices := loop.reservedIndices ++ [loop.idx]
      idx := loop.idx + 1
      isReserved := true
      newEnd := loop.newEnd + 1 }
  else { loop with idx := loop.idx + 1 }

/-- The variables of the loop over the groups: the rows that stay, and their groups. -/
structure Removal where
  reservedIndices : List Nat
  newGroupIndices : List (Nat × Nat)
  idx : Nat
  newStart : Nat

def removeGroup (rows : List Result) (removedSequenceIds : List Int) (acc : Removal)
    (group : Nat × Nat) : Removal :=
  let loop := ((rows.take group.2).drop group.1).foldl (reserve removedSequenceIds)
    { reservedIndices := acc.reservedIndices
      idx := acc.idx
      isReserved := false
      newEnd := acc.newStart }
  { reservedIndices := loop.reservedIndices
    newGroupIndices :=
      if loop.isReserved then acc.newGroupIndices ++ [(acc.newStart, loop.newEnd)]
      else acc.newGroupIndices
    idx := loop.idx
    newStart := if loop.isReserved then loop.newEnd else acc.newStart }

/-! ## Rows without a token -/

/-- `np.setdiff1d` -/
def setdiff1d (xs ys : List Int) : List Int :=
  (xs.filter fun x => x ∉ ys).dedup.insertionSort (· ≤ ·)

/-- `np.intersect1d` -/
def intersect1d (xs ys : List Int) : List Int :=
  (xs.filter fun x => x ∈ ys).dedup.insertionSort (· ≤ ·)

/-! ## Groups -/

/-- The groups of a batch, one behind the other. -/
def indicesOf {α : Type} : Nat → List (List α) → List (Nat × Nat)
  | _, [] => []
  | start, group :: groups =>
    (start, start + group.length) :: indicesOf (start + group.length) groups

/-! ## What is removed -/

variable {removed : List Int} {rows : List Result}

/-- The rows that stay. -/
def kept (removed : List Int) (rows : List Result) : List Result :=
  rows.filter fun r => r.sequenceId ∉ removed

theorem kept_cons_of_mem {r : Result} (h : r.sequenceId ∈ removed) :
    kept removed (r :: rows) = kept removed rows :=
  List.filter_cons_of_neg (by simpa using h)

theorem kept_cons_of_notMem {r : Result} (h : r.sequenceId ∉ removed) :
    kept removed (r :: rows) = r :: kept removed rows :=
  List.filter_cons_of_pos (by simpa using h)

/-- The indices of the rows that stay, the first row having an index. -/
def keptIndices (removed : List Int) : Nat → List Result → List Nat
  | _, [] => []
  | i, r :: rows =>
    if r.sequenceId ∉ removed then i :: keptIndices removed (i + 1) rows
    else keptIndices removed (i + 1) rows

theorem keptIndices_append (i : Nat) (segment rest : List Result) :
    keptIndices removed i (segment ++ rest) =
      keptIndices removed i segment ++ keptIndices removed (i + segment.length) rest := by
  induction segment generalizing i with
  | nil => rfl
  | cons r segment ih =>
    rw [List.cons_append, keptIndices, keptIndices, ih, List.length_cons,
      Nat.add_right_comm, ← Nat.add_assoc]
    split <;> rfl

/-- What an array has at these indices are the entries of the rows that stay. -/
theorem mapM_keptIndices {τ β : Type} (key : τ → Result) (f : τ → β) (before : List β)
    (table : List τ) :
    (keptIndices removed before.length (table.map key)).mapM
        (fun i => (before ++ table.map f)[i]?) =
      some ((table.filter fun t => (key t).sequenceId ∉ removed).map f) := by
  induction table generalizing before with
  | nil => rfl
  | cons t table ih =>
    have hrest := ih (before ++ [f t])
    rw [List.length_append, List.length_singleton, List.append_assoc,
      List.singleton_append] at hrest
    have hhere : (before ++ f t :: table.map f)[before.length]? = some (f t) := by
      rw [List.getElem?_append_right le_rfl, Nat.sub_self]
      rfl
    rw [List.map_cons, List.map_cons, keptIndices]
    by_cases ht : (key t).sequenceId ∉ removed
    · rw [if_pos ht, List.mapM_cons, hhere, hrest, List.filter_cons_of_pos (by simpa using ht)]
      rfl
    · rw [if_neg ht, hrest, List.filter_cons_of_neg (by simpa using ht)]

/-- The loop over a group puts the indices of the rows that stay behind the others. -/
theorem foldl_reserve (removed : List Int) (segment : List Result) (loop : GroupLoop) :
    segment.foldl (reserve removed) loop =
      { reservedIndices := loop.reservedIndices ++ keptIndices removed loop.idx segment
        idx := loop.idx + segment.length
        isReserved := loop.isReserved || !(kept removed segment).isEmpty
        newEnd := loop.newEnd + (kept removed segment).length } := by
  induction segment generalizing loop with
  | nil =>
    change loop = GroupLoop.mk (loop.reservedIndices ++ []) _ (loop.isReserved || false) _
    rw [List.append_nil, Bool.or_false]
    rfl
  | cons r segment ih =>
    rw [List.foldl_cons, ih, keptIndices, List.length_cons]
    by_cases hr : r.sequenceId ∉ removed
    · have hloop : reserve removed loop r =
          { reservedIndices := loop.reservedIndices ++ [loop.idx]
            idx := loop.idx + 1
            isReserved := true
            newEnd := loop.newEnd + 1 } := if_pos hr
      rw [hloop, kept_cons_of_notMem hr, if_pos hr, List.append_assoc, List.length_cons,
        List.isEmpty_cons, Nat.add_right_comm, ← Nat.add_assoc, Nat.add_right_comm loop.newEnd,
        ← Nat.add_assoc, Bool.true_or, Bool.not_false, Bool.or_true]
      rfl
    · have hloop : reserve removed loop r = { loop with idx := loop.idx + 1 } := if_neg hr
      rw [hloop, if_neg hr, kept_cons_of_mem (not_not.mp hr), Nat.add_right_comm, ← Nat.add_assoc]

/-- The loop over the groups: what stays of each, without those of which nothing stays. -/
theorem foldl_removeGroup (removed : List Int) (groups : List (List Result)) (acc : Removal)
    {rest : List Result} (hrest : rows.drop acc.idx = groups.flatten ++ rest)
    (hidx : acc.idx ≤ rows.length) :
    (indicesOf acc.idx groups).foldl (removeGroup rows removed) acc =
      { reservedIndices := acc.reservedIndices ++ keptIndices removed acc.idx groups.flatten
        newGroupIndices := acc.newGroupIndices ++
          indicesOf acc.newStart ((groups.map (kept removed)).filter fun group => !group.isEmpty)
        idx := acc.idx + groups.flatten.length
        newStart := acc.newStart + (kept removed groups.flatten).length } := by
  induction groups generalizing acc with
  | nil =>
    change acc = Removal.mk (acc.reservedIndices ++ []) (acc.newGroupIndices ++ []) _ _
    rw [List.append_nil, List.append_nil]
    rfl
  | cons group groups ih =>
    rw [List.flatten_cons, List.append_assoc] at hrest
    have hsegment : (rows.take (acc.idx + group.length)).drop acc.idx = group := by
      rw [List.drop_take, hrest, Nat.add_sub_cancel_left, List.take_left]
    have hlength : acc.idx + group.length ≤ rows.length := by
      have hsum := congrArg List.length hrest
      rw [List.length_drop, List.length_append] at hsum
      omega
    have hstep : removeGroup rows removed acc (acc.idx, acc.idx + group.length) =
        { reservedIndices := acc.reservedIndices ++ keptIndices removed acc.idx group
          newGroupIndices := acc.newGroupIndices ++ indicesOf acc.newStart
            ([kept removed group].filter fun group => !group.isEmpty)
          idx := acc.idx + group.length
          newStart := acc.newStart + (kept removed group).length } := by
      unfold removeGroup
      dsimp only
      rw [hsegment, foldl_reserve, Bool.false_or]
      cases hkept : kept removed group with
      | nil =>
        rw [List.filter_cons_of_neg (by simp)]
        simp [indicesOf]
      | cons r stay =>
        rw [List.filter_cons_of_pos (by simp)]
        rfl
    rw [indicesOf, List.foldl_cons, hstep]
    have hdrop : rows.drop (acc.idx + group.length) = groups.flatten ++ rest := by
      rw [← List.drop_drop, hrest, List.drop_left]
    refine (ih _ hdrop hlength).trans ?_
    have hkept : kept removed (group ++ groups.flatten) =
      kept removed group ++ kept removed groups.flatten := List.filter_append ..
    dsimp only
    rw [List.flatten_cons, keptIndices_append, hkept, List.length_append, List.length_append,
      List.append_assoc, ← Nat.add_assoc, ← Nat.add_assoc, List.map_cons, List.append_assoc]
    congr 2
    cases hstay : kept removed group with
    | nil =>
      rw [List.filter_cons_of_neg (by simp), List.filter_cons_of_neg (by simp)]
      rfl
    | cons r stay =>
      rw [List.filter_cons_of_pos (by simp), List.filter_cons_of_pos (by simp)]
      rfl

/-! ## What is put behind -/

theorem mem_setdiff1d {xs ys : List Int} {x : Int} : x ∈ setdiff1d xs ys ↔ x ∈ xs ∧ x ∉ ys := by
  simp [setdiff1d, List.mem_insertionSort]

theorem mem_intersect1d {xs ys : List Int} {x : Int} :
    x ∈ intersect1d xs ys ↔ x ∈ xs ∧ x ∈ ys := by
  simp [intersect1d, List.mem_insertionSort]

/-- As many new sequences as there are: none of them has a row. -/
theorem notMem_of_length_setdiff1d {xs ys : List Int} (h : (setdiff1d xs ys).length = xs.length)
    {x : Int} (hx : x ∈ xs) : x ∉ ys := by
  have hdedup := (List.dedup_sublist (xs.filter fun x => x ∉ ys)).length_le
  rw [setdiff1d, List.length_insertionSort] at h
  have hall := List.length_filter_le (fun x => decide (x ∉ ys)) xs
  have hsame : xs.filter (fun x => x ∉ ys) = xs :=
    List.filter_sublist.eq_of_length (by omega)
  have hmem := List.of_mem_filter (hsame.symm ▸ hx)
  exact of_decide_eq_true hmem

end GenerationOutput

end MindieLLM
