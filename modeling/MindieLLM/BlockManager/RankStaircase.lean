import MindieLLM.BlockManager.RankedBlockIds
import MindieLLM.BlockManager.RemoteKeys
import MindieLLM.BlockManager.SelfAttnBlockManager
import MindieLLM.BlockManager.SmallRankFirstPlaced
import MindieLLM.Program.QueueLoop
import MindieLLM.Program.RoundRobin

/-!
# Computed blocks of several ranks

With several ranks the blocks of a sequence lie on one rank after the other: block `i` is in row
`i / R` of rank `i % R`. Each rank knows how many of its first blocks are computed. What the model
need not compute again is the prefix of the sequence whose blocks are computed on their ranks, and
behind it the blocks that the pool has.

## Main definitions

* `getAllrankComputedBlockNum`: how many blocks of each rank belong to the prefix
* `getAllRankRemoteComputedBlockIds`: the same with the blocks that the pool has
* `InTable`, `Present`: a block of the order is in the table, and in the pool
* `Ranked`: the blocks of a table are on the ranks on which small-rank-first places them

## Main results

* `staircase_eq_shares`: the counts of the ranks are cut down to the longest prefix
* `rankRemoteKeys_eq`: the pool is asked for the blocks behind the prefix, in order
* `ranked_of_allocate`: `allocate` leaves such a table
* `dealt_of_ranked`: no rank of such a table is more than one row behind rank 0
* `prefix_of_computed`: both counts are those of a prefix
-/

namespace MindieLLM

open Program RoundRobin

variable {HashValue A : Type}

/-! ## The counts of the ranks -/

/-- The loop that cuts the counts of the ranks down: up to the first rank that has the fewest, the
ranks keep one more. -/
def staircase (fewest : ℕ) : Bool → List ℕ → List ℕ
  | _, [] => []
  | flag, computedBlockNum :: rest =>
    if flag && fewest < computedBlockNum then (fewest + 1) :: staircase fewest true rest
    else fewest :: staircase fewest false rest

/-- The first rank that has no more blocks than the last one. -/
def firstShortRank (computedBlocksNum : List ℕ) : ℕ :=
  (computedBlocksNum.takeWhile (computedBlocksNum.getLastD 0 < ·)).length

/-- The keys of a row of blocks from a rank on, up to the first rank that has no block there. -/
def rowKeys (rankedHashValues : List (List UInt64)) (rankSize : ℕ) (modelName : String)
    (start row : ℕ) : List String :=
  ((List.range' start (rankSize - start)).takeWhile fun rank =>
    row < (rankedHashValues.getD rank []).length).map fun rank =>
      remoteKey ((rankedHashValues.getD rank []).getD row 0).toNat rank rankSize modelName

/-- `allKeys`: the keys of the rows from one on, the first of them from a rank on. -/
def rankRemoteKeys (rankedHashValues : List (List UInt64)) (rankSize : ℕ) (modelName : String)
    (startRank startRow : ℕ) : List String :=
  (List.range' startRow ((rankedHashValues.getD 0 []).length - startRow)).flatMap fun row =>
    rowKeys rankedHashValues rankSize modelName (if row = startRow then startRank else 0) row

/-- The counts with the blocks that the pool has. `lookUp` is what the pool answers for each
key. -/
def remoteComputedBlocksNum (lookUp : String → Bool) (rankedHashValues : List (List UInt64))
    (rankSize : ℕ) (modelName : String) (computedBlocksNum : List ℕ) : List ℕ :=
  let rankIdx := firstShortRank computedBlocksNum
  let allKeys := rankRemoteKeys rankedHashValues rankSize modelName rankIdx
    (computedBlocksNum.getD rankIdx 0)
  if allKeys.isEmpty then computedBlocksNum
  else
    let startIdx := computedBlocksNum.sum
    (List.range (allKeys.takeWhile lookUp).length).foldl
      (fun nums idx => nums.modify ((idx + startIdx) % rankSize) (· + 1)) computedBlocksNum

namespace SelfAttnBlockManager

section Model

variable [BlockAllocator HashValue A]

/-- The ids that `GetRankedBlockIds` of a table returns. -/
def getBlockIdsOfRank (seqId : SequenceId) (rankIdx : ℕ) : ManagerM HashValue A (List BlockId) := do
  let objs ← onTable seqId do ((← get).table.blockObjs rankIdx).mapM BlockTable.loadBlock
  return objs.map (·.blockId)

/-- The computed blocks of a sequence on a rank, and how many blocks it has there. -/
def rankComputedBlockIds (rankIdx : ℕ) (seq : Sequence HashValue) :
    ManagerM HashValue A (List BlockId × ℕ) := do
  let rankedHashValues ← getRankedHashValues seq.seqId
  let allBlocks ← getBlockIdsOfRank seq.seqId rankIdx
  let numCachedTokens ←
    getCachedTokensNum seq rankIdx (rankedHashValues.getD rankIdx []) seq.isPrefill
  let numCachedBlocks := numCachedTokens / (← get).blockSize
  if allBlocks.length < numCachedBlocks then
    throw (.undefinedBehavior "range of a vector")
  return (allBlocks.take numCachedBlocks, allBlocks.length)

/-- The counts of the ranks, and the most blocks that a sequence has on one of them. -/
def computedBlockNum (seqs : List (Sequence HashValue)) :
    ManagerM HashValue A (List ℕ × ℕ) := do
  let ranked ← (List.range (← get).rankSize).mapM fun rankIdx =>
    seqs.mapM (rankComputedBlockIds rankIdx)
  let maxCachedBlocksPreRank := (ranked.flatten.map Prod.snd).foldl max 0
  let allRankComputedBlockNum ← onWorld
    (CpuNpuBlockAllocator.getAllRankCommonComputedBlockNum (ranked.map (·.map Prod.fst)))
  return (allRankComputedBlockNum, maxCachedBlocksPreRank)

def getAllrankComputedBlockNum (seqs : List (Sequence HashValue)) :
    ManagerM HashValue A (List ℕ) := do
  let (allRankComputedBlockNum, maxCachedBlocksPreRank) ← computedBlockNum seqs
  let fewest := allRankComputedBlockNum.foldl min maxCachedBlocksPreRank
  return staircase fewest true allRankComputedBlockNum

end Model

/-- `GetAllRankRemoteComputedBlockIds` -/
def getAllRankRemoteComputedBlockIds [BlockAllocator UInt64 A] (lookUp : String → Bool)
    (seqs : List (Sequence UInt64)) (computedBlocksNum : List ℕ) (modelName : String) :
    ManagerM UInt64 A (List ℕ) := do
  if seqs.length > 1 then
    throw (.runtimeError "\x60Kv pool\x60 do not support \x60splitfuse\x60!")
  match seqs with
  | [] => throw (.undefinedBehavior "index of a vector")
  | seq :: _ =>
    let rankedHashValues ← getRankedHashValues seq.seqId
    return remoteComputedBlocksNum lookUp rankedHashValues (← get).rankSize modelName
      computedBlocksNum

end SelfAttnBlockManager

/-! ## The staircase -/

section Staircase

variable {fewest most R : ℕ} {counts : List ℕ}

theorem staircase_false (fewest : ℕ) (counts : List ℕ) :
    staircase fewest false counts = counts.map fun _ => fewest := by
  induction counts with
  | nil => rfl
  | cons c counts ih => rw [staircase, Bool.false_and, if_neg Bool.false_ne_true, ih, List.map_cons]

/-- One more up to the first rank with the fewest. -/
theorem getElem_staircase {r : ℕ} (hr : r < (staircase fewest true counts).length) :
    (staircase fewest true counts)[r] =
      fewest + if r < (counts.takeWhile (fewest < ·)).length then 1 else 0 := by
  induction counts generalizing r with
  | nil => cases hr
  | cons c counts ih =>
    by_cases hc : fewest < c
    · have hstep : staircase fewest true (c :: counts) =
          (fewest + 1) :: staircase fewest true counts := by
        rw [staircase, if_pos (by simpa using hc)]
      have hwhile : (c :: counts).takeWhile (fewest < ·) = c :: counts.takeWhile (fewest < ·) := by
        rw [List.takeWhile_cons_of_pos (by simpa using hc)]
      simp only [hstep, hwhile]
      cases r with
      | zero => simp
      | succ r =>
        simp only [hstep, List.length_cons, Nat.add_lt_add_iff_right] at hr
        rw [List.getElem_cons_succ, ih hr]
        simp only [List.length_cons, Nat.add_lt_add_iff_right]
    · have hstep : staircase fewest true (c :: counts) =
          fewest :: counts.map fun _ => fewest := by
        rw [staircase, if_neg (by simpa using hc), staircase_false]
      have hwhile : (c :: counts).takeWhile (fewest < ·) = [] := by
        rw [List.takeWhile_cons_of_neg (by simpa using hc)]
      simp only [hstep, hwhile]
      cases r with
      | zero => simp
      | succ r => simp

theorem length_staircase (flag : Bool) : (staircase fewest flag counts).length = counts.length := by
  induction counts generalizing flag with
  | nil => rfl
  | cons c counts ih =>
    rw [staircase]
    split
    · rw [List.length_cons, List.length_cons, ih]
    · rw [List.length_cons, List.length_cons, ih]

/-- The fewest blocks, when no rank has more than `most`. -/
theorem foldl_min_spec (h : ∀ c ∈ counts, c ≤ most) (hne : counts ≠ []) :
    counts.foldl min most ∈ counts ∧ ∀ c ∈ counts, counts.foldl min most ≤ c := by
  have hle : ∀ (cs : List ℕ) (m : ℕ), cs.foldl min m ≤ m ∧ (∀ c ∈ cs, cs.foldl min m ≤ c) ∧
      (cs.foldl min m = m ∨ cs.foldl min m ∈ cs) := by
    intro cs
    induction cs with
    | nil => simp
    | cons c cs ih =>
      intro m
      obtain ⟨hm, hall, hmem⟩ := ih (min m c)
      rw [List.foldl_cons]
      refine ⟨hm.trans (Nat.min_le_left m c), ?_, ?_⟩
      · intro d hd
        rcases List.mem_cons.mp hd with rfl | hd
        · exact hm.trans (Nat.min_le_right m d)
        · exact hall d hd
      · rcases hmem with heq | hmem
        · rw [heq, List.mem_cons]
          rcases Nat.le_total m c with hmc | hmc
          · exact .inl (Nat.min_eq_left hmc)
          · exact .inr (.inl (Nat.min_eq_right hmc))
        · exact .inr (List.mem_cons_of_mem c hmem)
  obtain ⟨-, hall, hmem⟩ := hle counts most
  refine ⟨?_, hall⟩
  rcases hmem with heq | hmem
  · -- the bound is reached by every rank
    obtain ⟨c, hc⟩ := List.exists_mem_of_ne_nil counts hne
    have hcm : c = most := Nat.le_antisymm (h c hc) (heq ▸ hall c hc)
    rw [heq, ← hcm]
    exact hc
  · exact hmem

/-- The counts are cut down to those of the longest prefix whose blocks are all computed. -/
theorem staircase_eq_shares (hR : counts.length = R) (hpos : 0 < R) (h : ∀ c ∈ counts, c ≤ most) :
    ∃ L, Longest (Holds R counts) L ∧
      staircase (counts.foldl min most) true counts = shares R L := by
  have hne : counts ≠ [] := by
    rintro rfl
    exact hpos.ne hR
  obtain ⟨hmem, hall⟩ := foldl_min_spec h hne
  generalize counts.foldl min most = fewest at hmem hall ⊢
  -- the first rank that has the fewest
  obtain ⟨rank, hrank⟩ : ∃ rank, (counts.takeWhile (fewest < ·)).length = rank := ⟨_, rfl⟩
  have hlt : rank < R := by
    rw [← hrank, ← hR]
    refine Nat.lt_of_le_of_ne (List.takeWhile_prefix _).length_le fun heq => ?_
    have hwhole := (List.takeWhile_prefix (l := counts) (fewest < ·)).eq_of_length heq
    have hmore := List.mem_takeWhile_imp (hwhole.symm ▸ hmem)
    exact absurd (of_decide_eq_true hmore) (Nat.lt_irrefl fewest)
  have hbefore : ∀ r < rank, fewest < counts.getD r 0 := by
    intro r hr
    rw [← hrank] at hr
    exact of_decide_eq_true (getD_of_lt_takeWhile (p := (fewest < ·)) hr)
  have hat : ¬fewest < counts.getD rank 0 := by
    rw [← hrank, ← hR] at hlt
    have hstop := getD_takeWhile_length (p := (fewest < ·)) (d := 0) hlt
    rw [hrank] at hstop
    exact of_decide_eq_false hstop
  have hleast : ∀ r < R, fewest ≤ counts.getD r 0 := by
    intro r hr
    rw [List.getD_eq_getElem?_getD, List.getElem?_eq_getElem (hR ▸ hr)]
    exact hall _ (List.getElem_mem _)
  refine ⟨fewest * R + rank, ⟨fun i hi => ?_, ?_⟩, ?_⟩
  · rcases row_of_lt hlt.le hi with hrow | ⟨hrow, hplace⟩
    · exact Nat.lt_of_lt_of_le hrow (hleast _ (Nat.mod_lt i hpos))
    · rw [Holds, hrow]
      exact hbefore _ hplace
  · rw [Holds, div_item _ hlt, mod_item _ hlt]
    exact hat
  · apply List.ext_getElem
    · rw [length_staircase, length_shares, hR]
    · intro r hr hr'
      rw [length_shares] at hr'
      rw [getElem_staircase hr, getElem_shares, share_eq hr', div_item _ hlt, mod_item _ hlt, hrank]

end Staircase

/-! ## The blocks in the pool -/

section Remote

variable {hashes : List (List UInt64)} {R : ℕ} {modelName : String} {start row L : ℕ}
  {lookUp : String → Bool}

/-- Block `i` of the order is in its row. -/
def InRows (hashes : List (List UInt64)) (R i : ℕ) : Prop :=
  i / R < (hashes.getD (i % R) []).length

/-- The key of block `i` of the order. -/
def keyOf (hashes : List (List UInt64)) (R : ℕ) (modelName : String) (i : ℕ) : String :=
  remoteKey ((hashes.getD (i % R) []).getD (i / R) 0).toNat (i % R) R modelName

/-- The first numbers of a range with a property are a range. -/
theorem takeWhile_range' (p : ℕ → Bool) (a len : ℕ) :
    ∃ k ≤ len, (List.range' a len).takeWhile p = List.range' a k ∧ (∀ j < k, p (a + j) = true) ∧
      (k < len → p (a + k) = false) := by
  induction len generalizing a with
  | zero => exact ⟨0, Nat.le_refl 0, rfl, by simp, by simp⟩
  | succ len ih =>
    rw [List.range'_succ]
    cases hp : p a with
    | false =>
      refine ⟨0, Nat.zero_le _, ?_, by simp, fun _ => hp⟩
      rw [List.takeWhile_cons_of_neg (by simp [hp])]
      rfl
    | true =>
      obtain ⟨k, hk, heq, hall, hstop⟩ := ih (a + 1)
      refine ⟨k + 1, Nat.succ_le_succ hk, ?_, fun j hj => ?_, fun hlt => ?_⟩
      · rw [List.takeWhile_cons_of_pos hp, heq, List.range'_succ]
      · cases j with
        | zero => exact hp
        | succ j =>
          have hj' := hall j (Nat.lt_of_succ_lt_succ hj)
          rwa [Nat.add_assoc, Nat.add_comm 1 j] at hj'
      · have hk' := hstop (Nat.lt_of_succ_lt_succ hlt)
        rwa [Nat.add_assoc, Nat.add_comm 1 k] at hk'

/-- A row of keys is that of consecutive blocks, up to one that is in no row. -/
theorem rowKeys_eq (hashes : List (List UInt64)) (R : ℕ) (modelName : String) (start row : ℕ) :
    ∃ k ≤ R - start,
      rowKeys hashes R modelName start row =
        (List.range k).map (fun j => keyOf hashes R modelName (row * R + start + j)) ∧
      (∀ j < k, InRows hashes R (row * R + start + j)) ∧
      (k < R - start → ¬InRows hashes R (row * R + start + k)) := by
  obtain ⟨k, hk, heq, hall, hstop⟩ := takeWhile_range'
    (fun rank => decide (row < (hashes.getD rank []).length)) start (R - start)
  have hplace : ∀ j < R - start, (row * R + start + j) / R = row ∧
      (row * R + start + j) % R = start + j := by
    intro j hj
    rw [Nat.add_assoc]
    exact ⟨div_item _ (by omega), mod_item _ (by omega)⟩
  refine ⟨k, hk, ?_, fun j hj => ?_, fun hlt => ?_⟩
  · rw [rowKeys, heq, List.range'_eq_map_range, List.map_map]
    refine List.map_congr_left fun j hj => ?_
    obtain ⟨hdiv, hmod⟩ := hplace j (Nat.lt_of_lt_of_le (List.mem_range.mp hj) hk)
    rw [keyOf, hdiv, hmod]
    rfl
  · obtain ⟨hdiv, hmod⟩ := hplace j (Nat.lt_of_lt_of_le hj hk)
    rw [InRows, hdiv, hmod]
    exact of_decide_eq_true (hall j hj)
  · obtain ⟨hdiv, hmod⟩ := hplace k hlt
    rw [InRows, hdiv, hmod]
    exact of_decide_eq_false (hstop hlt)

/-- The keys are those of consecutive blocks, up to the first that is in no row. Rank 0 is at most
one row ahead of any other, so that the walk does not go on behind a row that ends early. -/
theorem rankRemoteKeys_eq (modelName : String) (hahead : ∀ r < R,
      (hashes.getD 0 []).length ≤ (hashes.getD r []).length + 1)
    (hstart : start < R) (hrow : start = 0 ∨ row < (hashes.getD 0 []).length) :
    ∃ N, rankRemoteKeys hashes R modelName start row =
        (List.range N).map (fun j => keyOf hashes R modelName (row * R + start + j)) ∧
      (∀ j < N, InRows hashes R (row * R + start + j)) ∧
      ¬InRows hashes R (row * R + start + N) := by
  unfold rankRemoteKeys
  generalize hn : (hashes.getD 0 []).length - row = n
  induction n generalizing row start with
  | zero =>
    -- behind the rows of rank 0
    have hzero : start = 0 := hrow.resolve_right (by omega)
    subst hzero
    refine ⟨0, rfl, by simp, ?_⟩
    have hdiv := div_item row hstart
    have hmod := mod_item row hstart
    rw [Nat.add_zero] at hdiv hmod
    simp only [InRows, Nat.add_zero, hdiv, hmod]
    omega
  | succ n ih =>
    obtain ⟨k, hk, hkeys, hall, hstop⟩ := rowKeys_eq hashes R modelName start row
    have hrest : (List.range' (row + 1) n).flatMap (fun i =>
          rowKeys hashes R modelName (if i = row then start else 0) i) =
        (List.range' (row + 1) n).flatMap (fun i =>
          rowKeys hashes R modelName (if i = row + 1 then 0 else 0) i) := by
      refine List.flatMap_congr fun i hi => ?_
      have hlt := (List.mem_range'_1.mp hi).1
      rw [if_neg (by omega), ite_self]
    rw [List.range'_succ, List.flatMap_cons, if_pos rfl, hrest, hkeys]
    rcases Nat.lt_or_ge k (R - start) with hshort | hfull
    · -- the row ends early and is the last one
      have hout := hstop hshort
      rw [InRows, Nat.add_assoc, div_item _ (by omega), mod_item _ (by omega)] at hout
      have hlast := hahead (start + k) (by omega)
      have hzero : n = 0 := by omega
      subst hzero
      refine ⟨k, ?_, hall, hstop hshort⟩
      simp
    · have hwhole : k = R - start := Nat.le_antisymm hk hfull
      obtain ⟨N, hN, hin, hend⟩ := @ih 0 (row + 1) (by omega) (.inl rfl) (by omega)
      have hnext : ∀ j, (row + 1) * R + 0 + j = row * R + start + (k + j) := by
        intro j
        rw [Nat.add_mul, Nat.one_mul]
        omega
      refine ⟨k + N, ?_, fun j hj => ?_, ?_⟩
      · rw [hN, List.range_add, List.map_append, List.map_map]
        congr 1
        refine List.map_congr_left fun j _ => ?_
        rw [hnext, Function.comp_apply]
      · rcases Nat.lt_or_ge j k with hjk | hjk
        · exact hall j hjk
        · have hj' := hin (j - k) (by omega)
          rwa [hnext, Nat.add_sub_cancel' hjk] at hj'
      · rwa [hnext] at hend

/-- The walk begins behind the prefix. -/
theorem firstShortRank_shares (hR : 0 < R) : firstShortRank (shares R L) = L % R := by
  have hmod := Nat.mod_lt L hR
  have hlast : (shares R L).getLastD 0 = L / R := by
    rw [List.getLastD_eq_getLast?, List.getLast?_eq_getElem?, length_shares,
      ← List.getD_eq_getElem?_getD, getD_shares (by omega), share_eq (by omega),
      if_neg (by omega), Nat.add_zero]
  rw [firstShortRank, hlast]
  rcases Nat.lt_trichotomy ((shares R L).takeWhile (L / R < ·)).length (L % R) with hlt | heq | hgt
  · -- a rank in the prefix has one block more
    have hstop := getD_takeWhile_length (p := (L / R < ·)) (d := 0) (l := shares R L)
      (by rw [length_shares]; omega)
    rw [getD_shares (by omega), share_eq (by omega), if_pos hlt] at hstop
    exact absurd (Nat.lt_succ_self _) (of_decide_eq_false hstop)
  · exact heq
  · have hmore := getD_of_lt_takeWhile (p := (L / R < ·)) (d := 0) hgt
    rw [getD_shares hmod, share_eq hmod, if_neg (Nat.lt_irrefl _)] at hmore
    exact absurd (of_decide_eq_true hmore) (Nat.lt_irrefl _)

/-- **What the pool adds.** The counts go on to be those of a prefix, by blocks that follow the
prefix one after the other, each in its row and in the pool, up to one that is not. -/
theorem remoteComputedBlocksNum_shares (lookUp : String → Bool) (modelName : String) (hR : 0 < R)
    (hahead : ∀ r < R, (hashes.getD 0 []).length ≤ (hashes.getD r []).length + 1)
    (hfound : ∀ i < L, InRows hashes R i) :
    ∃ k, remoteComputedBlocksNum lookUp hashes R modelName (shares R L) = shares R (L + k) ∧
      (∀ j < k, InRows hashes R (L + j) ∧ lookUp (keyOf hashes R modelName (L + j)) = true) ∧
      ¬(InRows hashes R (L + k) ∧ lookUp (keyOf hashes R modelName (L + k)) = true) := by
  have hmod := Nat.mod_lt L hR
  have hrow : (shares R L).getD (L % R) 0 = L / R := by
    rw [getD_shares hmod, share_eq hmod, if_neg (Nat.lt_irrefl _), Nat.add_zero]
  have hfirst : L % R = 0 ∨ L / R < (hashes.getD 0 []).length := by
    rcases Nat.eq_zero_or_pos (L % R) with hzero | hpos
    · exact .inl hzero
    · -- the row has begun, at rank 0
      have hitem := item_eq L R
      have hheld := hfound (L / R * R + 0) (by omega)
      have hdiv := div_item (L / R) hR
      have hplace := mod_item (L / R) hR
      rw [InRows, hdiv, hplace] at hheld
      exact .inr hheld
  obtain ⟨N, hkeys, hin, hend⟩ := rankRemoteKeys_eq modelName hahead hmod hfirst
  simp only [item_eq] at hkeys hin hend
  unfold remoteComputedBlocksNum
  simp only [firstShortRank_shares hR, hrow, hkeys, sum_shares hR]
  obtain ⟨k, hk, heq, hall, hstop⟩ := takeWhile_range'
    (fun j => lookUp (keyOf hashes R modelName (L + j))) 0 N
  have hfound : (((List.range N).map fun j => keyOf hashes R modelName (L + j)).takeWhile
      lookUp).length = k := by
    rw [List.takeWhile_map, List.length_map, List.range_eq_range']
    exact (congrArg List.length heq).trans List.length_range'
  refine ⟨k, ?_, fun j hj => ?_, ?_⟩
  · rw [hfound, foldl_modify_shares]
    split
    · next hempty =>
      have hzero : k = 0 := by
        rw [List.isEmpty_iff, List.map_eq_nil_iff, List.range_eq_nil] at hempty
        omega
      rw [hzero, Nat.add_zero]
    · rfl
  · have hpool := hall j hj
    rw [Nat.zero_add] at hpool
    exact ⟨hin j (Nat.lt_of_lt_of_le hj hk), hpool⟩
  · rintro ⟨hrowk, hpool⟩
    rcases Nat.lt_or_ge k N with hlt | hge
    · have hout := hstop hlt
      rw [Nat.zero_add, hpool] at hout
      cases hout
    · exact hend (Nat.le_antisymm hk hge ▸ hrowk)

end Remote

/-! ## The calls -/

/-- The common blocks of several sequences are among the blocks of each. -/
class CommonComputed (HashValue : outParam Type) (A : Type) [BlockAllocator HashValue A] :
    Prop where
  length_le : ∀ (idss : List (List BlockId)) (ids : List BlockId), ids ∈ idss →
    (BlockAllocator.getCommonComputedBlockIds A idss).length ≤ ids.length
  nil : BlockAllocator.getCommonComputedBlockIds A [] = []

instance [PrefixHasher HashValue] :
    CommonComputed HashValue (HashLessBlockAllocator HashValue) where
  length_le _ _ _ := Nat.zero_le _
  nil := rfl

theorem length_commonPrefix_le (bs cs : List BlockId) :
    (PrefixCacheBlockAllocator.commonPrefix bs cs).length ≤ bs.length ∧
      (PrefixCacheBlockAllocator.commonPrefix bs cs).length ≤ cs.length := by
  induction bs generalizing cs with
  | nil => simp [PrefixCacheBlockAllocator.commonPrefix]
  | cons b bs ih =>
    cases cs with
    | nil => simp [PrefixCacheBlockAllocator.commonPrefix]
    | cons c cs =>
      rw [PrefixCacheBlockAllocator.commonPrefix]
      split
      · exact ⟨Nat.succ_le_succ (ih cs).1, Nat.succ_le_succ (ih cs).2⟩
      · simp

instance [DecidableEq HashValue] [PrefixHasher HashValue] :
    CommonComputed HashValue (PrefixCacheBlockAllocator HashValue) where
  length_le idss ids hids := by
    have hfold : ∀ (rest : List (List BlockId)) (first : List BlockId),
        (rest.foldl PrefixCacheBlockAllocator.commonPrefix first).length ≤ first.length ∧
          ∀ ids ∈ rest,
            (rest.foldl PrefixCacheBlockAllocator.commonPrefix first).length ≤ ids.length := by
      intro rest
      induction rest with
      | nil => simp
      | cons ids rest ih =>
        intro first
        obtain ⟨hfirst, hrest⟩ := ih (PrefixCacheBlockAllocator.commonPrefix first ids)
        have hcommon := length_commonPrefix_le first ids
        rw [List.foldl_cons]
        refine ⟨hfirst.trans hcommon.1, ?_⟩
        intro ids' hids'
        rcases List.mem_cons.mp hids' with rfl | hmem
        · exact hfirst.trans hcommon.2
        · exact hrest ids' hmem
    cases idss with
    | nil => cases hids
    | cons first rest =>
      rcases List.mem_cons.mp hids with rfl | hmem
      · exact (hfold rest ids).1
      · exact (hfold rest first).2 ids hmem
  nil := rfl

namespace SelfAttnBlockManager

variable {s s' : SelfAttnBlockManager HashValue A}

/-- The tables are the same and so are the blocks. -/
structure SameTables (s s' : SelfAttnBlockManager HashValue A) : Prop where
  tables : s'.seqId2BlockTable = s.seqId2BlockTable
  mem : s'.world.mem = s.world.mem
  rankSize : s'.rankSize = s.rankSize
  blockSize : s'.blockSize = s.blockSize

theorem SameTables.refl (s : SelfAttnBlockManager HashValue A) : SameTables s s :=
  ⟨rfl, rfl, rfl, rfl⟩

theorem SameTables.trans {s'' : SelfAttnBlockManager HashValue A} (h : SameTables s s')
    (h' : SameTables s' s'') : SameTables s s'' where
  tables := h'.tables.trans h.tables
  mem := h'.mem.trans h.mem
  rankSize := h'.rankSize.trans h.rankSize
  blockSize := h'.blockSize.trans h.blockSize

/-- The blocks of a sequence on a rank. -/
def blocksOn (s : SelfAttnBlockManager HashValue A) (seqId : SequenceId) (rank : ℕ) : List Ptr :=
  match s.seqId2BlockTable seqId with
  | none => []
  | some t => t.blockObjs rank

/-- Blocks of a table are read. -/
theorem onTable_mapM_loadBlock {seqId : SequenceId} {t : BlockTable}
    (ht : s.seqId2BlockTable seqId = some t) (ptrs : BlockTable → List Ptr) :
    onTable seqId (do (ptrs (← get).table).mapM BlockTable.loadBlock) s =
      .ok ((ptrs t).map s.world.mem.obj) s := by
  have hload : (do (ptrs (← get).table).mapM BlockTable.loadBlock : BlockTable.TableM HashValue A _)
      ⟨t, s.world⟩ = .ok ((ptrs t).map s.world.mem.obj) ⟨t, s.world⟩ :=
    mapM_eq_ok_of_reads fun _ _ => rfl
  unfold onTable
  simp only [ht, hload]
  congr 1
  have hsame : Function.update s.seqId2BlockTable seqId (some t) = s.seqId2BlockTable := by
    rw [← ht, Function.update_eq_self]
  rw [setTable, hsame]

/-! ### Reading a table -/

theorem wp_getBlocks (seqId : SequenceId) :
    wp (getBlocks seqId) (fun objs s' => s' = s ∧ ∃ t, s.seqId2BlockTable seqId = some t ∧
      objs = t.getBlockObjs.map s.world.mem.obj) (fun _ _ => True) s := by
  cases ht : s.seqId2BlockTable seqId with
  | none =>
    unfold wp getBlocks onTable
    rw [ht]
    trivial
  | some t =>
    unfold wp getBlocks
    rw [onTable_mapM_loadBlock ht BlockTable.getBlockObjs]
    exact ⟨rfl, t, rfl, rfl⟩

theorem wp_byRank {α : Type} (seqId : SequenceId) (f : BlockObj HashValue → α) :
    wp (byRank seqId f) (fun rows s' => s' = s ∧ ∃ t, s.seqId2BlockTable seqId = some t ∧
      rows = (List.range s.rankSize).map fun r =>
        ((t.getBlockObjs.map s.world.mem.obj).filter (·.rankIdx = r)).map f)
      (fun _ _ => True) s := by
  unfold byRank
  rw [wp_bind]
  refine wp_mono (wp_getBlocks seqId) ?_ fun _ _ h => h
  rintro objs _ ⟨rfl, t, ht, rfl⟩
  simp only [wp_bind, wp_get, wp_ite, wp_throw, wp_pure]
  exact ⟨fun _ => trivial, fun _ => ⟨trivial, t, ht, rfl⟩⟩

section Calls

variable [BlockAllocator HashValue A] {seqs : List (Sequence HashValue)} {seqId : SequenceId}

omit [BlockAllocator HashValue A] in
theorem wp_getBlockIdsOfRank (seqId : SequenceId) (rankIdx : ℕ) :
    wp (getBlockIdsOfRank seqId rankIdx) (fun ids s' => s' = s ∧
      ids.length = (s.blocksOn seqId rankIdx).length) (fun _ _ => True) s := by
  unfold getBlockIdsOfRank
  rw [wp_bind]
  cases ht : s.seqId2BlockTable seqId with
  | none =>
    unfold wp onTable
    rw [ht]
    trivial
  | some t =>
    rw [wp_iff_of_ok (onTable_mapM_loadBlock ht fun t => t.blockObjs rankIdx), wp_pure, blocksOn,
      ht]
    exact ⟨rfl, by rw [List.length_map, List.length_map]⟩

omit [BlockAllocator HashValue A] in
theorem within_onAlloc {α : Type} (rankIdx : ℕ) (c : EStateM Exn A α) :
    Within SameTables (onWorld (CpuNpuBlockAllocator.onAllocator .npu rankIdx (onAlloc c)) :
      ManagerM HashValue A α) := by
  intro s
  rw [wp_zoom]
  unfold CpuNpuBlockAllocator.onAllocator
  simp only [wp_bind, wp_get, wp_ite, wp_throw, wp_zoom]
  refine ⟨fun _ => trivial, fun _ => ?_⟩
  exact wp_any fun _ _ => ⟨rfl, rfl, rfl, rfl⟩

theorem within_getCachedTokensNum (seq : Sequence HashValue) (rankIdx : ℕ)
    (blockHashes : List HashValue) (seqPrefillFlag : Bool) :
    Within SameTables (getCachedTokensNum seq rankIdx blockHashes seqPrefillFlag :
      ManagerM HashValue A ℕ) := by
  intro s
  unfold getCachedTokensNum
  have hrecord : ∀ (n : ℕ) (s' : SelfAttnBlockManager HashValue A), SameTables s s' →
      wp (do
        recordComputedTokens seq.seqId rankIdx (some n)
        return n : ManagerM HashValue A ℕ) (fun _ s'' => SameTables s s'') (fun _ _ => True) s' :=
    fun _ _ h => ⟨h.tables, h.mem, h.rankSize, h.blockSize⟩
  simp only [wp_bind, wp_get, wp_ite, wp_pure]
  refine ⟨fun _ => .refl s, fun _ => ?_⟩
  split
  · exact .refl s
  · rw [wp_ite]
    refine ⟨fun _ => ?_, fun _ => hrecord 0 s (.refl s)⟩
    rw [wp_bind]
    exact wp_mono (within_onAlloc rankIdx _ s) (fun _ s' h => hrecord _ s' h) fun _ _ h => h

theorem wp_rankComputedBlockIds (rankIdx : ℕ) (seq : Sequence HashValue) :
    wp (rankComputedBlockIds rankIdx seq) (fun x s' => SameTables s s' ∧
      x.1.length ≤ x.2 ∧ x.2 = (s.blocksOn seq.seqId rankIdx).length) (fun _ _ => True) s := by
  unfold rankComputedBlockIds getRankedHashValues
  rw [wp_bind]
  refine wp_mono (wp_byRank seq.seqId _) ?_ fun _ _ h => h
  rintro hashes _ ⟨rfl, -⟩
  rw [wp_bind]
  refine wp_mono (wp_getBlockIdsOfRank seq.seqId rankIdx) ?_ fun _ _ h => h
  rintro ids s ⟨rfl, hids⟩
  rw [wp_bind]
  refine wp_mono (within_getCachedTokensNum seq rankIdx _ _ s) (fun n s' hs => ?_) fun _ _ h => h
  simp only [wp_bind, wp_get, wp_ite, wp_throw, wp_pure]
  exact ⟨fun _ => trivial, fun _ => ⟨hs, List.length_take_le' _ _, hids⟩⟩

/-! ### The computed blocks -/

theorem le_foldl_max {x : ℕ} {xs : List ℕ} (h : x ∈ xs) (m : ℕ) : x ≤ xs.foldl max m := by
  have hle : ∀ (ys : List ℕ) (m : ℕ), m ≤ ys.foldl max m := by
    intro ys
    induction ys with
    | nil => exact fun m => Nat.le_refl m
    | cons y ys ih => exact fun m => (Nat.le_max_left m y).trans (ih _)
  induction xs generalizing m with
  | nil => cases h
  | cons y ys ih =>
    rcases List.mem_cons.mp h with rfl | hmem
    · exact (Nat.le_max_right m x).trans (hle ys _)
    · exact ih hmem _

theorem forall₂_eq_map_iff {α β : Type} {f : α → β} {xs : List α} {ys : List β} :
    List.Forall₂ (fun x y => f x = y) xs ys ↔ xs.map f = ys := by
  rw [← List.forall₂_map_left_iff (R := (· = ·)), List.forall₂_eq_eq_eq]

theorem wp_getAllRankCommonComputedBlockNum (ranked : List (List (List BlockId))) :
    wp (onWorld (CpuNpuBlockAllocator.getAllRankCommonComputedBlockNum ranked) :
        ManagerM HashValue A (List ℕ))
      (fun counts s' => SameTables s s' ∧ counts = ranked.map fun idss =>
        (BlockAllocator.getCommonComputedBlockIds A idss).length) (fun _ _ => True) s := by
  rw [wp_zoom]
  unfold CpuNpuBlockAllocator.getAllRankCommonComputedBlockNum
  refine wp_mono (wp_mapM_forall₂ (I := fun w => w.mem = s.world.mem)
    (R := fun (x : List (List BlockId) × ℕ) n _ =>
      (BlockAllocator.getCommonComputedBlockIds A x.1).length = n) _ _ rfl ?_) ?_ fun _ _ h => h
  · rintro ⟨idss, rankIdx⟩ - w hw
    unfold CpuNpuBlockAllocator.onAllocator
    simp only [wp_bind, wp_get, wp_ite, wp_throw, wp_zoom, wp_pure]
    exact ⟨fun _ => trivial, fun _ => ⟨hw, trivial, fun _ _ h => h⟩⟩
  · rintro counts w ⟨hw, hcounts, -⟩
    refine ⟨⟨rfl, hw, rfl, rfl⟩, ?_⟩
    rw [← forall₂_eq_map_iff.mp hcounts]
    have hfst : ranked.zipIdx.map Prod.fst = ranked := List.zipIdx_map_fst 0 ranked
    conv_rhs => rw [← hfst, List.map_map]
    rfl

/-- The counts of the ranks are bounded by what each sequence has there. -/
theorem wp_computedBlockNum [CommonComputed HashValue A] (seqs : List (Sequence HashValue)) :
    wp (computedBlockNum seqs : ManagerM HashValue A _) (fun x s' => SameTables s s' ∧
        x.1.length = s.rankSize ∧ (∀ c ∈ x.1, c ≤ x.2) ∧
        ∀ seq ∈ seqs, ∀ r < s.rankSize, x.1.getD r 0 ≤ (s.blocksOn seq.seqId r).length)
      (fun _ _ => True) s := by
  unfold computedBlockNum
  rw [wp_bind, wp_get, wp_bind]
  refine wp_mono (wp_mapM_forall₂ (I := SameTables s)
    (R := fun rankIdx (row : List (List BlockId × ℕ)) _ => List.Forall₂ (fun seq x =>
      x.1.length ≤ x.2 ∧ x.2 = (s.blocksOn seq.seqId rankIdx).length) seqs row)
    _ _ (.refl s) ?_) ?_ fun _ _ h => h
  · intro rankIdx _ s₁ hs₁
    refine wp_mono (wp_mapM_forall₂ (I := SameTables s)
      (R := fun seq (x : List BlockId × ℕ) _ =>
        x.1.length ≤ x.2 ∧ x.2 = (s.blocksOn seq.seqId rankIdx).length) _ _ hs₁ ?_) ?_
      fun _ _ h => h
    · intro seq _ s₂ hs₂
      refine wp_mono (wp_rankComputedBlockIds rankIdx seq) ?_ fun _ _ h => h
      rintro x s₃ ⟨hs₃, hle, hlen⟩
      refine ⟨hs₂.trans hs₃, ⟨hle, ?_⟩, fun _ _ h => h⟩
      rw [hlen, blocksOn, hs₂.tables]
      rfl
    · rintro row s₂ ⟨hs₂, hrow, -⟩
      exact ⟨hs₂, hrow, fun _ _ h => h⟩
  rintro ranked s₁ ⟨hs₁, hranked, -⟩
  rw [wp_bind]
  refine wp_mono (wp_getAllRankCommonComputedBlockNum _) ?_ fun _ _ h => h
  rintro counts s₂ ⟨hs₂, rfl⟩
  have hlength := hranked.length_eq
  rw [List.length_range] at hlength
  have hrow : ∀ (r : ℕ) (hr : r < ranked.length), List.Forall₂ (fun seq x =>
      x.1.length ≤ x.2 ∧ x.2 = (s.blocksOn seq.seqId r).length) seqs ranked[r] := by
    intro r hr
    have hget := hranked.get (i := r) (by rwa [List.length_range, hlength]) hr
    simpa using hget
  rw [wp_pure]
  refine ⟨hs₁.trans hs₂, ?_, ?_, fun seq hseq r hr => ?_⟩
  · rw [List.length_map, List.length_map, hlength]
  · intro c hc
    rw [List.map_map] at hc
    obtain ⟨row, hmem, rfl⟩ := List.mem_map.mp hc
    obtain ⟨r, hr, rfl⟩ := List.getElem_of_mem hmem
    cases hcases : ranked[r] with
    | nil =>
      rw [Function.comp_apply, List.map_nil, CommonComputed.nil]
      exact Nat.zero_le _
    | cons x rest =>
      have hx : x ∈ ranked[r] := hcases ▸ List.mem_cons_self
      -- the common blocks are among those of the first sequence
      have hcommon := CommonComputed.length_le (A := A) ((x :: rest).map Prod.fst) x.1
        (List.mem_map_of_mem List.mem_cons_self)
      obtain ⟨seq, -, hle, -⟩ := exists_of_forall₂_left (hrow r hr).flip hx
      refine hcommon.trans (hle.trans ?_)
      apply le_foldl_max
      exact List.mem_map_of_mem (List.mem_flatten.mpr ⟨_, List.getElem_mem hr, hx⟩)
  · have hr' : r < ranked.length := hlength ▸ hr
    obtain ⟨x, hx, hle, hlen⟩ := exists_of_forall₂_left (hrow r hr') hseq
    have hcommon := CommonComputed.length_le (A := A) (ranked[r].map Prod.fst) x.1
      (List.mem_map_of_mem hx)
    rw [List.getD_eq_getElem?_getD, List.getElem?_map, List.getElem?_map,
      List.getElem?_eq_getElem hr']
    exact hcommon.trans (hle.trans (Nat.le_of_eq hlen))

/-! ### A prefix of the sequence -/

/-- The blocks of a sequence are dealt to the ranks in turn, so that rank 0 is at most one row ahead
of the others. -/
structure Dealt (s : SelfAttnBlockManager HashValue A) (seqId : SequenceId) : Prop where
  rankSize : ∀ t ∈ s.seqId2BlockTable seqId, t.rankSize = s.rankSize
  rankIdx : ∀ r < s.rankSize, ∀ p ∈ s.blocksOn seqId r, (s.world.mem.obj p).rankIdx = r
  ahead : ∀ r < s.rankSize, (s.blocksOn seqId 0).length ≤ (s.blocksOn seqId r).length + 1

/-- The blocks of a sequence are `ps`, on the ranks on which small-rank-first places them. -/
structure RankedAs (s : SelfAttnBlockManager HashValue A) (seqId : SequenceId) (ps : List Ptr) :
    Prop where
  rankSize : ∀ t ∈ s.seqId2BlockTable seqId, t.rankSize = s.rankSize
  rankIdx : ps.map (fun p => (s.world.mem.obj p).rankIdx) =
    (List.range ps.length).map (BlockTable.rankOf s.rankSize ps.length)
  blocksOn : ∀ r < s.rankSize,
    s.blocksOn seqId r = ps.filter fun p => (s.world.mem.obj p).rankIdx = r

/-- The table of a sequence is as small-rank-first leaves it. -/
def Ranked (s : SelfAttnBlockManager HashValue A) (seqId : SequenceId) : Prop :=
  ∃ ps, RankedAs s seqId ps

omit [BlockAllocator HashValue A] in
/-- Small-rank-first deals the blocks to the ranks in turn. -/
theorem dealt_of_ranked (h : Ranked s seqId) : Dealt s seqId := by
  obtain ⟨ps, hps⟩ := h
  have hlength : ∀ r < s.rankSize, (s.blocksOn seqId r).length =
      (BlockTable.onRank s.rankSize ps.length r).length := by
    intro r hr
    have hcount := congrArg (List.countP (· = r)) hps.rankIdx
    rw [List.countP_map, List.countP_map, List.countP_eq_length_filter,
      List.countP_eq_length_filter] at hcount
    rw [hps.blocksOn r hr]
    exact hcount
  refine ⟨hps.rankSize, fun r hr p hp => ?_, fun r hr => ?_⟩
  · rw [hps.blocksOn r hr] at hp
    exact of_decide_eq_true (List.mem_filter.mp hp).2
  · rw [hlength 0 (by omega), hlength r hr]
    exact BlockTable.length_onRank_zero_le hr

section Allocate

variable [LawfulBlockAllocator HashValue A]

omit [BlockAllocator HashValue A] [LawfulBlockAllocator HashValue A] in
theorem wp_onLocalTable {α : Type} {t : BlockTable} {c : BlockTable.TableM HashValue A α}
    {Q : α × BlockTable → SelfAttnBlockManager HashValue A → Prop}
    (h : wp c (fun a v => Q (a, v.table) { s with world := v.world }) (fun _ _ => True)
      ⟨t, s.world⟩) : wp (onLocalTable t c) Q (fun _ _ => True) s := by
  unfold wp onLocalTable
  unfold wp at h
  split at h <;> simp_all

omit [BlockAllocator HashValue A] [LawfulBlockAllocator HashValue A] in
/-- A manager is ranked by the table that lists the blocks of a prompt. -/
theorem RankedAs.of_distributed {seqId : SequenceId} {t : BlockTable} {tokenIds : List TokenId}
    {v : TableWorld HashValue A} {size : ℕ} {ps : List Ptr} (hR : 0 < s.rankSize)
    (htable : s.seqId2BlockTable seqId = some t) (hrankSize : t.rankSize = s.rankSize)
    (hworld : s.world = v.world)
    (hps : BlockTable.Distributed s.rankSize size tokenIds ps v)
    (hobjs : ∀ r, t.blockObjs r = ps.filter fun p => (v.world.mem.obj p).rankIdx = r) :
    RankedAs s seqId ps := by
  refine ⟨fun t' ht' => ?_, ?_, fun r _ => ?_⟩
  · rw [htable, Option.mem_some_iff] at ht'
    rw [← ht', hrankSize]
  · rw [hworld]
    refine List.ext_getElem (by simp) fun b hb _ => ?_
    rw [List.length_map] at hb
    rw [List.getElem_map, List.getElem_map, List.getElem_range, hps.rankIdx b hb,
      BlockTable.rankOf_eq hR]
  · rw [hworld, ← hobjs r, SelfAttnBlockManager.blocksOn, htable]

/-- `Allocate` leaves the table of a prompt as small-rank-first makes it. -/
theorem ranked_of_allocate {seqGroup : SequenceGroup HashValue} {seq : Sequence HashValue}
    {used : Finset Ptr} (hR : 1 < s.rankSize)
    (hwaiting : seqGroup.getFirstSequence .waiting = [seq])
    (hready : BlockTable.Ready .npu s.rankSize s.blockSize s.world used)
    (h : allocate seqGroup s = .ok true s') : Ranked s' seq.seqId := by
  have hwp : wp (allocate seqGroup) (fun done s' => done = true → Ranked s' seq.seqId)
      (fun _ _ => True) s := by
    unfold allocate
    rw [hwaiting]
    simp only [wp_bind, wp_get]
    refine (wp_ite _ _ _).mpr ⟨fun _ hdone => absurd hdone Bool.false_ne_true, fun _ => ?_⟩
    cases hnew : BlockTable.new s.blockSize s.rankSize with
    | error e => trivial
    | ok t =>
      obtain ⟨hsize, hblockSize, hrankSize⟩ :
          0 < s.blockSize ∧ t.blockSize = s.blockSize ∧ t.rankSize = s.rankSize := by
        rw [BlockTable.new] at hnew
        split_ifs at hnew with hzero
        injection hnew with hnew
        rw [← hnew]
        exact ⟨Nat.pos_of_ne_zero hzero, rfl, rfl⟩
      simp only [ofExcept, wp_bind, wp_pure]
      refine (wp_ite _ _ _).mpr ⟨fun _ hdone => absurd hdone Bool.false_ne_true, fun _ => ?_⟩
      rw [wp_bind, if_neg (by omega)]
      rw [← hrankSize, ← hblockSize] at hready
      refine wp_onLocalTable (wp_mono (BlockTable.wp_allocateSmallRankFirst_listed
        (s := ⟨t, s.world⟩) seq.getExtraHash seq.getTokenIds (hblockSize ▸ hsize)
        (by dsimp only; omega) hready) ?_ fun _ _ h => h)
      rintro _ v ⟨hsame, ps, hps, hobjs⟩
      simp only [wp_bind, wp_modify, addSeq, wp_get, forkTables, wp_pure]
      refine (wp_ite _ _ _).mpr ⟨fun _ => trivial, fun _ _ => ⟨ps, ?_⟩⟩
      have hR' : 0 < s.rankSize := by omega
      rw [hrankSize] at hps hsame
      exact .of_distributed hR' (Function.update_self ..) hsame rfl hps hobjs
  exact wp_ok hwp h rfl

end Allocate

/-- Block `i` of the order is in the table of the sequence. -/
def InTable (s : SelfAttnBlockManager HashValue A) (seqId : SequenceId) (i : ℕ) : Prop :=
  i / s.rankSize < (s.blocksOn seqId (i % s.rankSize)).length

section

omit [BlockAllocator HashValue A]

theorem SameTables.blocksOn (hs : SameTables s s') (seqId : SequenceId) (r : ℕ) :
    s'.blocksOn seqId r = s.blocksOn seqId r := by
  rw [SelfAttnBlockManager.blocksOn, SelfAttnBlockManager.blocksOn, hs.tables]

theorem SameTables.inTable (hs : SameTables s s') (seqId : SequenceId) (i : ℕ) :
    InTable s' seqId i ↔ InTable s seqId i := by
  rw [InTable, InTable, hs.rankSize, hs.blocksOn]

theorem Ranked.same (h : Ranked s seqId) (hs : SameTables s s') : Ranked s' seqId := by
  obtain ⟨ps, hps⟩ := h
  refine ⟨ps, fun t ht => ?_, ?_, fun r hr => ?_⟩
  · rw [hs.rankSize]
    exact hps.rankSize t (hs.tables ▸ ht)
  · rw [hs.mem, hs.rankSize]
    exact hps.rankIdx
  · rw [hs.blocksOn, hs.mem]
    exact hps.blocksOn r (hs.rankSize ▸ hr)

end

/-- The hashes of dealt blocks, rank by rank. -/
theorem wp_getRankedHashValues (h : Dealt s seqId) :
    wp (getRankedHashValues seqId : ManagerM HashValue A _) (fun hashes s' => s' = s ∧
      hashes = (List.range s.rankSize).map fun r => (s.blocksOn seqId r).map fun p =>
        BlockAllocator.getHashValue A (s.world.mem.obj p)) (fun _ _ => True) s := by
  unfold getRankedHashValues
  refine wp_mono (wp_byRank seqId _) ?_ fun _ _ h => h
  rintro hashes s ⟨rfl, t, ht, rfl⟩
  refine ⟨rfl, List.map_congr_left fun r hr => ?_⟩
  have hr := List.mem_range.mp hr
  have hon : ∀ r, s.blocksOn seqId r = t.blockObjs r := by
    intro r
    rw [blocksOn, ht]
  have hfilter : ((List.range s.rankSize).flatMap t.blockObjs).filter
      (fun p => decide ((s.world.mem.obj p).rankIdx = r)) = t.blockObjs r := by
    rw [List.filter_flatMap]
    refine Eq.trans (List.flatMap_congr fun r' hr' => ?_)
      ((BlockTable.flatMap_range_single (t.blockObjs r) r s.rankSize).trans (if_pos hr))
    have hranks := h.rankIdx r' (List.mem_range.mp hr')
    rw [hon] at hranks
    split
    · next heq =>
      subst heq
      exact List.filter_eq_self.mpr fun p hp => decide_eq_true (hranks p hp)
    · next hne =>
      refine List.filter_eq_nil_iff.mpr fun p hp => ?_
      rw [hranks p hp, decide_eq_true_eq]
      exact hne
  rw [List.filter_map, List.map_map, BlockTable.getBlockObjs, h.rankSize t ht, hon]
  exact congrArg _ hfilter

end Calls

/-! ### Both counts -/

/-- The pool has block `i` of a sequence. -/
def Present [BlockAllocator UInt64 A] (lookUp : String → Bool) (modelName : String)
    (s : SelfAttnBlockManager UInt64 A) (seqId : SequenceId) (i : ℕ) : Prop :=
  ∃ p, (s.blocksOn seqId (i % s.rankSize))[i / s.rankSize]? = some p ∧
    lookUp (remoteKey (BlockAllocator.getHashValue A (s.world.mem.obj p)).toNat (i % s.rankSize)
      s.rankSize modelName) = true

section Prefix

variable [BlockAllocator UInt64 A] {s s' : SelfAttnBlockManager UInt64 A} {seqId : SequenceId}
  {hashes : List (List UInt64)}

theorem SameTables.present (hs : SameTables s s') (lookUp : String → Bool) (modelName : String)
    (seqId : SequenceId) (i : ℕ) :
    Present lookUp modelName s' seqId i ↔ Present lookUp modelName s seqId i := by
  simp only [Present, hs.rankSize, hs.blocksOn, hs.mem]

theorem getD_hashes (hhashes : hashes = (List.range s.rankSize).map fun r =>
      (s.blocksOn seqId r).map fun p => BlockAllocator.getHashValue A (s.world.mem.obj p))
    {r : ℕ} (hr : r < s.rankSize) :
    hashes.getD r [] = (s.blocksOn seqId r).map fun p =>
      BlockAllocator.getHashValue A (s.world.mem.obj p) := by
  rw [hhashes, List.getD_eq_getElem?_getD, List.getElem?_map, List.getElem?_range hr]
  rfl

theorem inRows_iff (hhashes : hashes = (List.range s.rankSize).map fun r =>
      (s.blocksOn seqId r).map fun p => BlockAllocator.getHashValue A (s.world.mem.obj p))
    (hR : 0 < s.rankSize) (i : ℕ) : InRows hashes s.rankSize i ↔ InTable s seqId i := by
  rw [InRows, InTable, getD_hashes hhashes (Nat.mod_lt i hR), List.length_map]

theorem present_iff (hhashes : hashes = (List.range s.rankSize).map fun r =>
      (s.blocksOn seqId r).map fun p => BlockAllocator.getHashValue A (s.world.mem.obj p))
    (hR : 0 < s.rankSize) (lookUp : String → Bool) (modelName : String) (i : ℕ) :
    InRows hashes s.rankSize i ∧ lookUp (keyOf hashes s.rankSize modelName i) = true ↔
      Present lookUp modelName s seqId i := by
  rw [inRows_iff hhashes hR, InTable, keyOf, getD_hashes hhashes (Nat.mod_lt i hR), Present,
    List.getD_eq_getElem?_getD, List.getElem?_map]
  constructor
  · rintro ⟨hlt, hpool⟩
    rw [List.getElem?_eq_getElem hlt] at hpool ⊢
    exact ⟨_, rfl, hpool⟩
  · rintro ⟨p, hp, hpool⟩
    rw [hp]
    exact ⟨(List.getElem?_eq_some_iff.mp hp).1, hpool⟩

/-- The pool extends a prefix that is in the table. -/
theorem wp_getAllRankRemoteComputedBlockIds (hR : 0 < s.rankSize) {seq : Sequence UInt64} {L : ℕ}
    (hdealt : Dealt s seq.seqId) (hfound : ∀ i < L, InTable s seq.seqId i)
    (lookUp : String → Bool) (modelName : String) :
    wp (getAllRankRemoteComputedBlockIds lookUp [seq] (shares s.rankSize L) modelName)
      (fun remote _ => ∃ k, remote = shares s.rankSize (L + k) ∧
        (∀ i < L + k, InTable s seq.seqId i) ∧
        (∀ j < k, Present lookUp modelName s seq.seqId (L + j)) ∧
        ¬Present lookUp modelName s seq.seqId (L + k)) (fun _ _ => True) s := by
  unfold getAllRankRemoteComputedBlockIds
  rw [wp_ite]
  refine ⟨fun hmany => absurd hmany (Nat.lt_irrefl 1), fun _ => ?_⟩
  rw [wp_bind]
  refine wp_mono (wp_getRankedHashValues hdealt) ?_ fun _ _ h => h
  rintro hashes s ⟨rfl, hhashes⟩
  rw [wp_bind, wp_get, wp_pure]
  have hahead : ∀ r < s.rankSize,
      (hashes.getD 0 []).length ≤ (hashes.getD r []).length + 1 := by
    intro r hr
    rw [getD_hashes hhashes hR, getD_hashes hhashes hr, List.length_map, List.length_map]
    exact hdealt.ahead r hr
  obtain ⟨k, hremote, hadded, hend⟩ := remoteComputedBlocksNum_shares lookUp
    modelName hR hahead fun i hi => (inRows_iff hhashes hR i).mpr (hfound i hi)
  refine ⟨k, hremote, fun i hi => ?_, fun j hj => ?_, ?_⟩
  · rcases Nat.lt_or_ge i L with hlt | hge
    · exact hfound i hlt
    · obtain ⟨hrow, -⟩ := hadded (i - L) (by omega)
      rw [Nat.add_sub_cancel' hge] at hrow
      exact (inRows_iff hhashes hR i).mp hrow
  · exact (present_iff hhashes hR lookUp modelName (L + j)).mp (hadded j hj)
  · rw [← present_iff hhashes hR]
    exact hend

/-- **The computed blocks of the ranks.** With any number of ranks the counts of the ranks are cut
down to those of the longest prefix of the order all of whose blocks are computed, and these blocks
are in the tables of all sequences. Where the table of a sequence is as small-rank-first leaves it,
the pool extends this prefix by blocks that follow it one after the other, up to one that the
sequence or the pool does not have. -/
theorem prefix_of_computed [CommonComputed UInt64 A] {seqs : List (Sequence UInt64)}
    {computed : List ℕ} (hR : 0 < s.rankSize)
    (hcomputed : getAllrankComputedBlockNum seqs s = .ok computed s') :
    ∃ counts most L, computedBlockNum seqs s = .ok (counts, most) s' ∧
      counts.length = s.rankSize ∧ Longest (Holds s.rankSize counts) L ∧
      computed = shares s.rankSize L ∧
      (∀ seq ∈ seqs, ∀ i < L, InTable s seq.seqId i) ∧
      ∀ (lookUp : String → Bool) (modelName : String) (seq : Sequence UInt64) (remote : List ℕ)
        (s'' : SelfAttnBlockManager UInt64 A), seqs = [seq] → Ranked s seq.seqId →
        getAllRankRemoteComputedBlockIds lookUp seqs computed modelName s' = .ok remote s'' →
        ∃ k, remote = shares s.rankSize (L + k) ∧
          (∀ i < L + k, InTable s seq.seqId i) ∧
          (∀ j < k, Present lookUp modelName s seq.seqId (L + j)) ∧
          ¬Present lookUp modelName s seq.seqId (L + k) := by
  have hwp : wp (getAllrankComputedBlockNum seqs) (fun computed s' => SameTables s s' ∧
      ∃ counts most L, computedBlockNum seqs s = .ok (counts, most) s' ∧
        counts.length = s.rankSize ∧ Longest (Holds s.rankSize counts) L ∧
        computed = shares s.rankSize L ∧ ∀ seq ∈ seqs, ∀ i < L, InTable s seq.seqId i)
      (fun _ _ => True) s := by
    unfold getAllrankComputedBlockNum
    rw [wp_bind]
    refine wp_mono (wp_and (wp_computedBlockNum seqs) (wp_self _ s)) ?_ fun _ _ _ => trivial
    rintro ⟨counts, most⟩ s₁ ⟨⟨hs₁, hlength, hmost, hblocks⟩, hrun⟩
    obtain ⟨L, hlongest, hshares⟩ := staircase_eq_shares hlength hR hmost
    rw [wp_pure]
    refine ⟨hs₁, counts, most, L, hrun, hlength, hlongest, hshares, fun seq hseq i hi => ?_⟩
    exact Nat.lt_of_lt_of_le (hlongest.1 i hi) (hblocks seq hseq _ (Nat.mod_lt i hR))
  obtain ⟨hs', counts, most, L, hrun, hlength, hlongest, hshares, htable⟩ := wp_ok hwp hcomputed
  refine ⟨counts, most, L, hrun, hlength, hlongest, hshares, htable, ?_⟩
  rintro lookUp modelName seq remote s'' rfl hranked hremote
  rw [hshares, ← hs'.rankSize] at hremote
  have hpool := wp_ok (wp_getAllRankRemoteComputedBlockIds (hs'.rankSize ▸ hR)
    (dealt_of_ranked (hranked.same hs'))
    (fun i hi => (hs'.inTable _ i).mpr (htable seq List.mem_cons_self i hi)) lookUp modelName)
    hremote
  simpa only [hs'.rankSize, hs'.inTable, hs'.present] using hpool

end Prefix

/-! ### Two ranks -/

section TwoRanks

/-- A manager of two ranks, with blocks of two tokens. -/
def twoRankManager : SelfAttnBlockManager UInt64 (PrefixCacheBlockAllocator UInt64) where
  blockSize := 2
  npuBlockNum := 8
  reservedBlockNum := 0
  speculativeSlots := 0
  rankSize := 2
  seqId2BlockTable := fun _ => none
  world := {
    mem := .new 64
    alloc := {
      rankSize := 2
      hostSize := 1
      beginCpuBlockId := 8
      allocators := fun
        | .cpu, _ => .new 8 0 2
        | .npu, _ => .new 0 8 2 } }
  seqIdToNumComputedTokens := fun _ => none
  seqIdToLastAccessTime := fun _ => none

def promptSeq (seqId : SequenceId) (promptTokenIds : List TokenId) : Sequence UInt64 where
  seqId := seqId
  promptTokenIds := promptTokenIds
  outputTokenIds := []
  stage := .prefill
  numComputedTokens := 0
  status := .waiting
  hashValue := 0

def promptGroup (seqId : SequenceId) (promptTokenIds : List TokenId) : SequenceGroup UInt64 where
  firstSeq := promptSeq seqId promptTokenIds
  otherSeqs := []
  enableParallelSampling := false
  parallelSeqs := []

/-- Two sequences with a common prefix of two blocks, which the first one has computed. -/
def commonPrefixManager : SelfAttnBlockManager UInt64 (PrefixCacheBlockAllocator UInt64) :=
  stateAfter (do
    let _ ← allocate (promptGroup 1 [1, 2, 3, 4, 5])
    markBlocksAsComputed
    let _ ← allocate (promptGroup 2 [1, 2, 3, 4, 6, 7, 8])
    return) twoRankManager

/-- The second sequence has the two blocks, one on each rank, and its two other blocks from a pool
that has every key. -/
theorem prefix_of_computed_two : ∃ L k, [1, 1] = shares 2 L ∧ [2, 2] = shares 2 (L + k) ∧
    ∀ i < L + k, InTable commonPrefixManager 2 i := by
  have hcomputed : valueOf (getAllrankComputedBlockNum [promptSeq 2 [1, 2, 3, 4, 6, 7, 8]])
      commonPrefixManager = some [1, 1] := by
    decide +kernel
  obtain ⟨s', hcomputed⟩ := valueOf_eq_some_iff.mp hcomputed
  have hremote : valueOf (getAllRankRemoteComputedBlockIds (fun _ => true)
      [promptSeq 2 [1, 2, 3, 4, 6, 7, 8]] [1, 1] "m") (stateAfter
        (getAllrankComputedBlockNum [promptSeq 2 [1, 2, 3, 4, 6, 7, 8]]) commonPrefixManager) =
      some [2, 2] := by
    decide +kernel
  rw [stateAfter_of_ok hcomputed] at hremote
  obtain ⟨s'', hremote⟩ := valueOf_eq_some_iff.mp hremote
  have hrankSize : commonPrefixManager.rankSize = 2 := by
    decide +kernel
  have hranked : Ranked commonPrefixManager 2 := by
    have htable : (commonPrefixManager.seqId2BlockTable 2).map (·.rankSize) = some 2 := by
      decide +kernel
    refine ⟨(commonPrefixManager.blocksOn 2 0).zipWith (fun p q => [p, q])
      (commonPrefixManager.blocksOn 2 1) |>.flatten, fun t ht => ?_, by decide +kernel,
      by decide +kernel⟩
    rw [Option.mem_def.mp ht] at htable
    rw [hrankSize]
    exact Option.some.inj htable
  obtain ⟨_, _, L, -, -, -, hshares, -, hpool⟩ := prefix_of_computed (by decide +kernel) hcomputed
  obtain ⟨k, hremote, htable, -, -⟩ := hpool (fun _ => true) "m" _ [2, 2] s'' rfl hranked hremote
  rw [hrankSize] at hshares hremote
  exact ⟨L, k, hshares, hremote, htable⟩

end TwoRanks

end SelfAttnBlockManager

end MindieLLM
