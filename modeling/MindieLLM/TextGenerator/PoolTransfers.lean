import Mathlib.Data.Int.CardIntervalMod
import Mathlib.Data.List.GetD
import MindieLLM.TextGenerator.PrefixCachePlugin

/-!
# Blocks of the pool

The blocks of a request are walked in token order; with context parallelism they are held by the
ranks in turn, and each rank has a table of its own. Each key is paired with the block it is for, by
an index into this table.

The loop over the blocks that are computed already does not advance the index. It is right as long
as none of these blocks is the rank's.

## Main definitions

* `Worker.transferBlocks`: the loop over the blocks to transfer, with the index
* `Worker.getPrefixKvcacheFromMempool`, `Worker.putPrefixKvcache`: the pairs for a batch
* `Worker.rightPairs`: the key of each block with its id
* `Worker.IndexRight`: no block of the rank is computed, or none is transferred

## Main results

* `Worker.transfer_eq_rightPairs_iff`: the pairs of one request
* `Worker.pairs_right_iff`: the pairs of a batch, in both directions
-/

namespace MindieLLM

open Program

namespace PrefixCachePlugin

/-- What the loops read of a request: the blocks before `first` are computed, and those before
`last` are transferred. -/
structure Transfer where
  inputIds : List ℤ
  blockTable : List ℤ
  first : ℕ
  last : ℕ

/-- A request of a batch whose blocks are fetched, with numbers of blocks of all ranks. -/
structure GetRequest where
  seqLen : ℕ
  computedBlocks : ℕ
  remoteComputedBlocks : ℕ
  dpRankId : ℕ
  blockTable : List ℤ

/-- A request of a batch whose blocks are stored, with its block table. -/
structure PutEntry extends PutRequest where
  blockTable : List ℤ

namespace Worker

variable (w : Worker) (maxBlockSize : ℕ)

/-! ## The pairs -/

/-- The loop over the blocks that are transferred. Without a value if an index is out of range. -/
def transferBlocks (inputIds blockTable : List ℤ) :
    ℕ → ℕ → Cursor → ℕ → Option (List (String × ℤ))
  | _, 0, _, _ => some []
  | reqBlocksId, n + 1, c, scpRankBlockIdx =>
    let c' := w.next maxBlockSize inputIds c
    if c.scpRank ≠ w.scpRank then
      transferBlocks inputIds blockTable (reqBlocksId + 1) n c' scpRankBlockIdx
    else do
      let blockId ← blockTable[if w.scpSize > 1 then scpRankBlockIdx else reqBlocksId]?
      let rest ← transferBlocks inputIds blockTable (reqBlocksId + 1) n c' (scpRankBlockIdx + 1)
      return (w.getPrefixKeys c'.prefixHashValue, blockId) :: rest

/-- Both loops over the blocks of a request: the first one hashes only. -/
def transfer (t : Transfer) : Option (List (String × ℤ)) :=
  w.transferBlocks maxBlockSize t.inputIds t.blockTable t.first (t.last - t.first)
    ((w.next maxBlockSize t.inputIds)^[t.first] ⟨invalidHashValue, 0, 0⟩) 0

/-- The requests of this rank, each from where its tokens begin. -/
def getTransfers (inputIds : List ℤ) : ℕ → List GetRequest → List Transfer
  | _, [] => []
  | batchInputIdsOffset, r :: rs =>
    if r.dpRankId ≠ w.dpRank then getTransfers inputIds (batchInputIdsOffset + r.seqLen) rs
    else
      ⟨inputIds.drop batchInputIdsOffset, r.blockTable, r.computedBlocks,
          r.remoteComputedBlocks⟩ ::
        getTransfers inputIds (batchInputIdsOffset + r.seqLen) rs

def getPrefixKvcacheFromMempool (inputIds : List ℤ) (batch : List GetRequest) :
    Option (List (String × ℤ)) :=
  ((w.getTransfers inputIds 0 batch).mapM (w.transfer maxBlockSize)).map List.flatten

/-- The requests of this rank that have a full block. -/
def putTransfers (batch : List PutEntry) : List Transfer :=
  (batch.filter fun r =>
    ¬((r.seqLen - 1 < maxBlockSize ∧ maxBlockSize ≠ 0) ∨ r.dpRankId ≠ w.dpRank)).map fun r =>
      ⟨r.inputIds, r.blockTable, r.remoteComputedBlocks, (r.seqLen - 1) / maxBlockSize⟩

def putPrefixKvcache (batch : List PutEntry) : Option (List (String × ℤ)) :=
  ((w.putTransfers maxBlockSize batch).mapM (w.transfer maxBlockSize)).map List.flatten

/-! ## The pairs that are right -/

/-- The blocks of this rank to transfer, in token order. -/
def positions (first last : ℕ) : List ℕ :=
  (List.range' first (last - first)).filter fun j => j % w.scpSize = w.scpRank

/-- The key of the token prefix that ends with a block. -/
def keyAt (inputIds : List ℤ) (j : ℕ) : String :=
  w.getPrefixKeys (w.cursorAt maxBlockSize inputIds (j + 1)).prefixHashValue

/-- The blocks of this rank, each with its key and its id: the ranks hold blocks in turn. -/
def rightPairs (t : Transfer) : Option (List (String × ℤ)) :=
  (w.positions t.first t.last).mapM fun j =>
    (t.blockTable[j / w.scpSize]?).map fun blockId => (w.keyAt maxBlockSize t.inputIds j, blockId)

def rightPairsOf (ts : List Transfer) : Option (List (String × ℤ)) :=
  (ts.mapM (w.rightPairs maxBlockSize)).map List.flatten

/-- How many of the first `n` blocks this rank holds. -/
def numHeld (n : ℕ) : ℕ := n.count fun j => j % w.scpSize = w.scpRank

/-- No block before `first` is the rank's, or none of those behind. -/
def IndexRight (first last : ℕ) : Prop :=
  w.scpSize = 1 ∨ first ≤ w.scpRank ∨ ∀ j, first ≤ j → j < last → j % w.scpSize ≠ w.scpRank

/-- There are tokens for the blocks, and the table has the rank's blocks, which differ. -/
structure Valid (t : Transfer) : Prop where
  tokens : t.last ≤ t.inputIds.length / maxBlockSize
  table : w.numHeld t.last ≤ t.blockTable.length
  nodup : (t.blockTable.take (w.numHeld t.last)).Nodup

variable {w maxBlockSize}

/-! ## The index -/

theorem numHeld_succ (n : ℕ) :
    w.numHeld (n + 1) = w.numHeld n + if n % w.scpSize = w.scpRank then 1 else 0 :=
  Nat.count_succ _ n

theorem numHeld_mono {m n : ℕ} (h : m ≤ n) : w.numHeld m ≤ w.numHeld n :=
  Nat.count_monotone _ h

theorem numHeld_eq (n : ℕ) :
    w.numHeld n = n / w.scpSize + if w.scpRank < n % w.scpSize then 1 else 0 := by
  have hpos : 0 < w.scpSize := Nat.zero_lt_of_lt w.scpRank_lt
  have hmod : (fun j => j % w.scpSize = w.scpRank) = fun j => j ≡ w.scpRank [MOD w.scpSize] := by
    ext j
    rw [Nat.ModEq, Nat.mod_eq_of_lt w.scpRank_lt]
  unfold numHeld
  simp only [hmod]
  rw [Nat.count_modEq_card n hpos, Nat.mod_eq_of_lt w.scpRank_lt]

/-- The place of a block in the table of its rank. -/
theorem numHeld_of_mod_eq {j : ℕ} (h : j % w.scpSize = w.scpRank) :
    w.numHeld j = j / w.scpSize := by
  rw [numHeld_eq, if_neg (by omega), Nat.add_zero]

theorem numHeld_eq_zero_iff {n : ℕ} : w.numHeld n = 0 ↔ n ≤ w.scpRank := by
  have hpos : 0 < w.scpSize := Nat.zero_lt_of_lt w.scpRank_lt
  rw [numHeld_eq, Nat.add_eq_zero_iff, Nat.div_eq_zero_iff]
  constructor
  · rintro ⟨hdiv, hmod⟩
    have hlt : n < w.scpSize := hdiv.resolve_left hpos.ne'
    rw [Nat.mod_eq_of_lt hlt] at hmod
    by_contra hnot
    rw [if_pos (not_le.mp hnot)] at hmod
    cases hmod
  · intro hle
    have hlt : n < w.scpSize := hle.trans_lt w.scpRank_lt
    rw [Nat.mod_eq_of_lt hlt]
    exact ⟨.inr hlt, if_neg hle.not_gt⟩

theorem div_lt_numHeld {j last : ℕ} (h : j % w.scpSize = w.scpRank) (hj : j < last) :
    j / w.scpSize < w.numHeld last := by
  have hnext := numHeld_mono (w := w) hj
  rw [numHeld_succ, if_pos h, numHeld_of_mod_eq h] at hnext
  exact hnext

/-- The index that the loop has for a block. -/
def blockIdx (w : Worker) (first j : ℕ) : ℕ :=
  if w.scpSize > 1 then w.numHeld j - w.numHeld first else j

theorem blockIdx_le {first j : ℕ} (h : j % w.scpSize = w.scpRank) :
    w.blockIdx first j ≤ j / w.scpSize := by
  unfold blockIdx
  split
  · rw [numHeld_of_mod_eq h]
    exact Nat.sub_le _ _
  · next hone =>
    have hpos : 0 < w.scpSize := Nat.zero_lt_of_lt w.scpRank_lt
    have hsize : w.scpSize = 1 := by omega
    rw [hsize, Nat.div_one]

/-- The loop gives the blocks of the rank, in token order, its own indices. -/
theorem transferBlocks_eq {inputIds blockTable : List ℤ} {first : ℕ} (k n scpRankBlockIdx : ℕ)
    (hfirst : first ≤ k) (hn : k + n ≤ inputIds.length / maxBlockSize)
    (hidx : scpRankBlockIdx = w.numHeld k - w.numHeld first) :
    w.transferBlocks maxBlockSize inputIds blockTable k n (w.cursorAt maxBlockSize inputIds k)
        scpRankBlockIdx =
      ((List.range' k n).filter fun j => j % w.scpSize = w.scpRank).mapM fun j =>
        (blockTable[w.blockIdx first j]?).map fun blockId =>
          (w.keyAt maxBlockSize inputIds j, blockId) := by
  induction n generalizing k scpRankBlockIdx with
  | zero => rfl
  | succ n ih =>
    have hnext : w.next maxBlockSize inputIds (w.cursorAt maxBlockSize inputIds k) =
        w.cursorAt maxBlockSize inputIds (k + 1) := next_cursorAt (by omega)
    have hmono : w.numHeld first ≤ w.numHeld k := numHeld_mono hfirst
    have hsucc := numHeld_succ (w := w) k
    have hcursor : (w.cursorAt maxBlockSize inputIds k).scpRank = k % w.scpSize := rfl
    rw [List.range'_succ]
    unfold transferBlocks
    dsimp only
    rw [hnext, hcursor]
    by_cases hrank : k % w.scpSize = w.scpRank
    · rw [if_pos hrank] at hsucc
      rw [if_neg (not_not.mpr hrank), List.filter_cons_of_pos (by simpa using hrank),
        List.mapM_cons, ih (k + 1) _ (by omega) (by omega) (by omega)]
      have hhere : (if w.scpSize > 1 then scpRankBlockIdx else k) = w.blockIdx first k := by
        rw [hidx]
        rfl
      rw [hhere]
      cases blockTable[w.blockIdx first k]? <;> rfl
    · rw [if_neg hrank] at hsucc
      rw [if_pos hrank, List.filter_cons_of_neg (by simpa using hrank),
        ih (k + 1) _ (by omega) (by omega) (by omega)]

theorem transfer_eq {t : Transfer} (h : w.Valid maxBlockSize t) :
    w.transfer maxBlockSize t = (w.positions t.first t.last).mapM fun j =>
      (t.blockTable[w.blockIdx t.first j]?).map fun blockId =>
        (w.keyAt maxBlockSize t.inputIds j, blockId) := by
  have htokens := h.tokens
  unfold transfer positions
  by_cases hle : t.first ≤ t.last
  · rw [iterate_next (hle.trans htokens)]
    exact transferBlocks_eq t.first (t.last - t.first) 0 le_rfl (by omega) (Nat.sub_self _).symm
  · rw [Nat.sub_eq_zero_of_le (by omega)]
    rfl

/-! ## Where the pairs are right -/

theorem mem_positions {first last j : ℕ} :
    j ∈ w.positions first last ↔ (first ≤ j ∧ j < last) ∧ j % w.scpSize = w.scpRank := by
  unfold positions
  rw [List.mem_filter, List.mem_range', decide_eq_true_eq]
  refine and_congr_left fun _ => ⟨?_, ?_⟩
  · rintro ⟨i, hi, rfl⟩
    omega
  · rintro ⟨hfirst, hlast⟩
    exact ⟨j - first, by omega, by omega⟩

/-- The indices are right if and only if none has been left out. -/
theorem forall_blockIdx_iff {first last : ℕ} :
    (∀ j ∈ w.positions first last, w.blockIdx first j = j / w.scpSize) ↔
      w.IndexRight first last := by
  have hpos : 0 < w.scpSize := Nat.zero_lt_of_lt w.scpRank_lt
  constructor
  · intro h
    by_cases hone : w.scpSize = 1
    · exact .inl hone
    by_cases hfirst : first ≤ w.scpRank
    · exact .inr (.inl hfirst)
    refine .inr (.inr fun j hj hlast hrank => ?_)
    have hj' := h j (mem_positions.mpr ⟨⟨hj, hlast⟩, hrank⟩)
    have hmono : w.numHeld first ≤ w.numHeld j := numHeld_mono hj
    have hne : w.numHeld first ≠ 0 := fun hzero => hfirst (numHeld_eq_zero_iff.mp hzero)
    unfold blockIdx at hj'
    rw [if_pos (by omega), numHeld_of_mod_eq hrank] at hj'
    rw [numHeld_of_mod_eq hrank] at hmono
    omega
  · intro h j hj
    obtain ⟨⟨hfirst, hlast⟩, hrank⟩ := mem_positions.mp hj
    unfold blockIdx
    rcases h with hone | hle | hnone
    · rw [if_neg (by omega), hone, Nat.div_one]
    · split
      · rw [numHeld_eq_zero_iff.mpr hle, Nat.sub_zero, numHeld_of_mod_eq hrank]
      · rw [show w.scpSize = 1 by omega, Nat.div_one]
    · exact absurd hrank (hnone j hfirst hlast)

theorem mapM_eq_some_map {α β : Type} {f : α → Option β} {g : α → β} {l : List α}
    (h : ∀ a ∈ l, f a = some (g a)) : l.mapM f = some (l.map g) := by
  induction l with
  | nil => rfl
  | cons a l ih =>
    rw [List.mapM_cons, h a List.mem_cons_self, ih fun b hb => h b (List.mem_cons_of_mem a hb)]
    rfl

/-- Lists of the same lengths, one behind the other. -/
theorem flatten_map_inj {α β : Type} {f g : α → List β} {l : List α}
    (hlength : ∀ a ∈ l, (f a).length = (g a).length) :
    (l.map f).flatten = (l.map g).flatten ↔ ∀ a ∈ l, f a = g a := by
  constructor
  · intro h
    induction l with
    | nil => exact fun _ ha => (List.not_mem_nil ha).elim
    | cons a l ih =>
      rw [List.map_cons, List.map_cons, List.flatten_cons, List.flatten_cons] at h
      obtain ⟨hhead, htail⟩ := List.append_inj h (hlength a List.mem_cons_self)
      intro b hb
      rcases List.mem_cons.mp hb with rfl | hb
      · exact hhead
      · exact ih (fun c hc => hlength c (List.mem_cons_of_mem a hc)) htail b hb
  · intro h
    rw [List.map_congr_left h]

/-- A key with the id at an index. -/
def pairAt (w : Worker) (maxBlockSize : ℕ) (t : Transfer) (idx : ℕ → ℕ) (j : ℕ) : String × ℤ :=
  (w.keyAt maxBlockSize t.inputIds j, t.blockTable.getD (idx j) 0)

theorem Valid.lt_length {t : Transfer} (h : w.Valid maxBlockSize t) {j idx : ℕ}
    (hj : j ∈ w.positions t.first t.last) (hidx : idx ≤ j / w.scpSize) :
    idx < w.numHeld t.last ∧ idx < t.blockTable.length := by
  obtain ⟨⟨-, hlast⟩, hrank⟩ := mem_positions.mp hj
  have hlt := hidx.trans_lt (div_lt_numHeld hrank hlast)
  exact ⟨hlt, hlt.trans_le h.table⟩

/-- Indices that are not too great are in the table. -/
theorem Valid.mapM_eq {t : Transfer} (h : w.Valid maxBlockSize t) {idx : ℕ → ℕ}
    (hidx : ∀ j ∈ w.positions t.first t.last, idx j ≤ j / w.scpSize) :
    ((w.positions t.first t.last).mapM fun j => (t.blockTable[idx j]?).map fun blockId =>
        (w.keyAt maxBlockSize t.inputIds j, blockId)) =
      some ((w.positions t.first t.last).map (w.pairAt maxBlockSize t idx)) := by
  refine mapM_eq_some_map fun j hj => ?_
  have hlt := (h.lt_length hj (hidx j hj)).2
  rw [pairAt, List.getD_eq_getElem _ _ hlt, List.getElem?_eq_getElem hlt, Option.map_some]

theorem Valid.transfer_eq_some {t : Transfer} (h : w.Valid maxBlockSize t) :
    w.transfer maxBlockSize t = some ((w.positions t.first t.last).map
      (w.pairAt maxBlockSize t (w.blockIdx t.first))) := by
  rw [transfer_eq h]
  exact h.mapM_eq fun j hj => blockIdx_le (mem_positions.mp hj).2

theorem Valid.rightPairs_eq_some {t : Transfer} (h : w.Valid maxBlockSize t) :
    w.rightPairs maxBlockSize t = some ((w.positions t.first t.last).map
      (w.pairAt maxBlockSize t (· / w.scpSize))) :=
  h.mapM_eq fun _ _ => le_rfl

/-- The pairs of one request are right if and only if the indices are. -/
theorem transfer_eq_rightPairs_iff {t : Transfer} (h : w.Valid maxBlockSize t) :
    (w.positions t.first t.last).map (w.pairAt maxBlockSize t (w.blockIdx t.first)) =
        (w.positions t.first t.last).map (w.pairAt maxBlockSize t (· / w.scpSize)) ↔
      w.IndexRight t.first t.last := by
  rw [← forall_blockIdx_iff, List.map_inj_left]
  refine forall₂_congr fun j hj => ?_
  have hle : w.blockIdx t.first j ≤ j / w.scpSize := blockIdx_le (mem_positions.mp hj).2
  obtain ⟨hidx, hlt⟩ := h.lt_length hj hle
  obtain ⟨hplace, hlt'⟩ := h.lt_length hj le_rfl
  unfold pairAt
  rw [Prod.mk.injEq, List.getD_eq_getElem _ _ hlt, List.getD_eq_getElem _ _ hlt']
  constructor
  · rintro ⟨-, hids⟩
    -- the ids of the table differ
    have hsame : (t.blockTable.take (w.numHeld t.last))[w.blockIdx t.first j]? =
        (t.blockTable.take (w.numHeld t.last))[j / w.scpSize]? := by
      rw [List.getElem?_take_of_lt hidx, List.getElem?_take_of_lt hplace,
        List.getElem?_eq_getElem hlt, List.getElem?_eq_getElem hlt', hids]
    have hlength : w.blockIdx t.first j < (t.blockTable.take (w.numHeld t.last)).length := by
      rw [List.length_take]
      exact lt_min hidx hlt
    exact (List.getElem?_inj hlength h.nodup).mp hsame
  · intro heq
    simp only [heq, and_self]

/-- The pairs of several requests. -/
theorem mapM_transfer_eq_iff {ts : List Transfer} (h : ∀ t ∈ ts, w.Valid maxBlockSize t) :
    (ts.mapM (w.transfer maxBlockSize)).map List.flatten = w.rightPairsOf maxBlockSize ts ↔
      ∀ t ∈ ts, w.IndexRight t.first t.last := by
  unfold rightPairsOf
  rw [mapM_eq_some_map fun t ht => (h t ht).transfer_eq_some,
    mapM_eq_some_map fun t ht => (h t ht).rightPairs_eq_some, Option.map_some, Option.map_some,
    Option.some.injEq, flatten_map_inj fun _ _ => by rw [List.length_map, List.length_map]]
  exact forall₂_congr fun t ht => transfer_eq_rightPairs_iff (h t ht)

end Worker

/-! ## Batches -/

/-- There are blocks for what is fetched, and the table has those of this rank. -/
structure GetRequest.Fits (w : Worker) (maxBlockSize : ℕ) (r : GetRequest) : Prop where
  blocks : r.remoteComputedBlocks ≤ r.seqLen / maxBlockSize
  table : w.numHeld r.remoteComputedBlocks ≤ r.blockTable.length
  nodup : (r.blockTable.take (w.numHeld r.remoteComputedBlocks)).Nodup

/-- The table has the blocks of this rank. -/
structure PutEntry.Fits (w : Worker) (maxBlockSize : ℕ) (r : PutEntry) : Prop where
  table : w.numHeld ((r.seqLen - 1) / maxBlockSize) ≤ r.blockTable.length
  nodup : (r.blockTable.take (w.numHeld ((r.seqLen - 1) / maxBlockSize))).Nodup

namespace Worker

variable {w : Worker} {maxBlockSize : ℕ}

theorem forall_getTransfers_iff {inputIds : List ℤ} {P : ℕ → ℕ → Prop} (offset : ℕ)
    (batch : List GetRequest) :
    (∀ t ∈ w.getTransfers inputIds offset batch, P t.first t.last) ↔
      ∀ r ∈ batch, r.dpRankId = w.dpRank → P r.computedBlocks r.remoteComputedBlocks := by
  induction batch generalizing offset with
  | nil => exact ⟨fun _ _ h => (List.not_mem_nil h).elim, fun _ _ h => (List.not_mem_nil h).elim⟩
  | cons r batch ih =>
    unfold getTransfers
    rw [List.forall_mem_cons]
    by_cases hdp : r.dpRankId = w.dpRank
    · rw [if_neg (not_not.mpr hdp), List.forall_mem_cons, ih]
      exact and_congr_left fun _ => ⟨fun h _ => h, fun h => h hdp⟩
    · rw [if_pos hdp, ih]
      exact ⟨fun h => ⟨fun hdp' => absurd hdp' hdp, h⟩, fun h => h.2⟩

/-- The tokens of a request begin where those before it end. -/
theorem valid_of_mem_getTransfers {inputIds : List ℤ} {offset : ℕ} {batch : List GetRequest}
    (hlength : offset + (batch.map GetRequest.seqLen).sum ≤ inputIds.length)
    (hfits : ∀ r ∈ batch, r.Fits w maxBlockSize) :
    ∀ t ∈ w.getTransfers inputIds offset batch, w.Valid maxBlockSize t := by
  induction batch generalizing offset with
  | nil => exact fun _ h => (List.not_mem_nil h).elim
  | cons r batch ih =>
    rw [List.map_cons, List.sum_cons] at hlength
    have hrest := @ih (offset + r.seqLen) (by omega) fun r hr =>
      hfits r (List.mem_cons_of_mem _ hr)
    unfold getTransfers
    split
    · exact hrest
    · have hr := hfits r List.mem_cons_self
      refine List.forall_mem_cons.mpr ⟨⟨?_, hr.table, hr.nodup⟩, hrest⟩
      refine hr.blocks.trans (Nat.div_le_div_right ?_)
      rw [List.length_drop]
      omega

theorem valid_of_mem_putTransfers {batch : List PutEntry}
    (hfits : ∀ r ∈ batch, r.Fits w maxBlockSize) :
    ∀ t ∈ w.putTransfers maxBlockSize batch, w.Valid maxBlockSize t := by
  intro t ht
  obtain ⟨r, hr, rfl⟩ := List.mem_map.mp ht
  have hfit := hfits r (List.mem_of_mem_filter hr)
  refine ⟨Nat.div_le_div_right ?_, hfit.table, hfit.nodup⟩
  have hle := r.seqLen_le
  dsimp only
  omega

/-- A request without a full block has nothing to be stored. -/
theorem forall_putTransfers_iff {batch : List PutEntry} :
    (∀ t ∈ w.putTransfers maxBlockSize batch, w.IndexRight t.first t.last) ↔
      ∀ r ∈ batch, r.dpRankId = w.dpRank →
        w.IndexRight r.remoteComputedBlocks ((r.seqLen - 1) / maxBlockSize) := by
  unfold putTransfers
  rw [List.forall_mem_map]
  constructor
  · intro h r hr hdp
    by_cases hshort : r.seqLen - 1 < maxBlockSize
    · refine .inr (.inr fun j _ hj => ?_)
      rw [Nat.div_eq_of_lt hshort] at hj
      exact absurd hj (Nat.not_lt_zero j)
    · refine h r (List.mem_filter.mpr ⟨hr, decide_eq_true ?_⟩)
      rintro (⟨hshort', -⟩ | hdp')
      · exact hshort hshort'
      · exact hdp' hdp
  · intro h r hr
    obtain ⟨hmem, hnot⟩ := List.mem_filter.mp hr
    have hnot := of_decide_eq_true hnot
    rw [not_or, not_not] at hnot
    exact h r hmem hnot.2

/-- **Each key is paired with its block**, in both directions, if and only if for each request no
block of the rank is computed already, or none is transferred. -/
theorem pairs_right_iff (w : Worker) (maxBlockSize : ℕ) :
    (∀ (inputIds : List ℤ) (batch : List GetRequest),
      (batch.map GetRequest.seqLen).sum = inputIds.length →
      (∀ r ∈ batch, r.Fits w maxBlockSize) →
      (w.getPrefixKvcacheFromMempool maxBlockSize inputIds batch =
          w.rightPairsOf maxBlockSize (w.getTransfers inputIds 0 batch) ↔
        ∀ r ∈ batch, r.dpRankId = w.dpRank →
          w.IndexRight r.computedBlocks r.remoteComputedBlocks)) ∧
    (∀ batch : List PutEntry, (∀ r ∈ batch, r.Fits w maxBlockSize) →
      (w.putPrefixKvcache maxBlockSize batch =
          w.rightPairsOf maxBlockSize (w.putTransfers maxBlockSize batch) ↔
        ∀ r ∈ batch, r.dpRankId = w.dpRank →
          w.IndexRight r.remoteComputedBlocks ((r.seqLen - 1) / maxBlockSize))) := by
  constructor
  · intro inputIds batch hlength hfits
    have hvalid : ∀ t ∈ w.getTransfers inputIds 0 batch, w.Valid maxBlockSize t :=
      valid_of_mem_getTransfers (by rw [Nat.zero_add, hlength]) hfits
    exact (mapM_transfer_eq_iff hvalid).trans (forall_getTransfers_iff 0 batch)
  · intro batch hfits
    exact (mapM_transfer_eq_iff (valid_of_mem_putTransfers hfits)).trans forall_putTransfers_iff

section Example

/-- One of two ranks that hold blocks in turn. -/
def rankOfTwo (rank : ℕ) (h : rank < 2) : Worker where
  tpSize := 1
  tpRank := 0
  scpSize := 2
  scpRank := rank
  dpRank := 0
  modelName := "model"
  tpRank_lt := Nat.one_pos
  scpRank_lt := h

/-- Four tokens, one a block. The first block is in the pool. -/
def entryOfFour (blockTable : List ℤ) : PutEntry where
  inputIds := [5, 6, 7, 8]
  seqLen := 4
  remoteComputedBlocks := 1
  dpRankId := 0
  seqLen_le := le_rfl
  blockTable := blockTable

/-- The second rank holds the second and the fourth block. Of two requests the first one has both to
transfer, and no block that is computed is its own. -/
theorem pairs_right_second :
    let w := rankOfTwo 1 (by decide)
    let inputIds := [5, 6, 7, 8, 9, 5, 6, 7, 8]
    let batch : List GetRequest := [⟨5, 1, 4, 0, [10, 11]⟩, ⟨4, 1, 3, 0, [12]⟩]
    let puts : List PutEntry := [{ entryOfFour [10, 11] with
      inputIds := [5, 6, 7, 8, 9]
      seqLen := 5
      seqLen_le := le_rfl }, entryOfFour [12]]
    w.getPrefixKvcacheFromMempool 1 inputIds batch =
        w.rightPairsOf 1 (w.getTransfers inputIds 0 batch) ∧
      w.putPrefixKvcache 1 puts = w.rightPairsOf 1 (w.putTransfers 1 puts) := by
  intro w inputIds batch puts
  obtain ⟨hget, hput⟩ := pairs_right_iff w 1
  constructor
  · refine (hget inputIds batch rfl ?_).mpr ?_
    · exact List.forall_mem_cons.mpr ⟨⟨by decide, by decide, by decide⟩,
        List.forall_mem_singleton.mpr ⟨by decide, by decide, by decide⟩⟩
    · exact List.forall_mem_cons.mpr ⟨fun _ => .inr (.inl le_rfl),
        List.forall_mem_singleton.mpr fun _ => .inr (.inl le_rfl)⟩
  · refine (hput puts ?_).mpr ?_
    · exact List.forall_mem_cons.mpr ⟨⟨by decide, by decide⟩,
        List.forall_mem_singleton.mpr ⟨by decide, by decide⟩⟩
    · exact List.forall_mem_cons.mpr ⟨fun _ => .inr (.inl le_rfl),
        List.forall_mem_singleton.mpr fun _ => .inr (.inl le_rfl)⟩

/-- The first rank holds the first and the third block: the id of the first one is taken for the
third. -/
theorem not_pairs_right :
    let w := rankOfTwo 0 (by decide)
    w.getPrefixKvcacheFromMempool 1 [5, 6, 7, 8] [⟨4, 1, 3, 0, [10, 11]⟩] ≠
        w.rightPairsOf 1 (w.getTransfers [5, 6, 7, 8] 0 [⟨4, 1, 3, 0, [10, 11]⟩]) ∧
      w.putPrefixKvcache 1 [entryOfFour [10, 11]] ≠
        w.rightPairsOf 1 (w.putTransfers 1 [entryOfFour [10, 11]]) := by
  constructor
  · intro h
    have hids := congrArg (Option.map (List.map Prod.snd)) h
    revert hids
    decide +kernel
  · intro h
    have hids := congrArg (Option.map (List.map Prod.snd)) h
    revert hids
    decide +kernel

end Example

end Worker

end PrefixCachePlugin

end MindieLLM
