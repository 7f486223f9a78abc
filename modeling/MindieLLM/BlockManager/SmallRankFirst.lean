import MindieLLM.BlockManager.BlockTable
import MindieLLM.Program.Slices
import Mathlib.Tactic.Ring

/-!
# Where the blocks of a prompt go

With several ranks the blocks of a prompt go to one rank after the other, from the smallest on. Once
every rank has a block, the last block goes to the last rank. What the allocators do for a block has
no part in this, so that the places of all blocks are known from the number of tokens alone.

## Main definitions

* `smallRankFirst`: the rank and the tokens of each block, one after the other
* `rankOf R B b`: the rank of block `b` of `B`
* `onRank R B r`: the blocks on a rank

## Main results

* `allocateSmallRankFirstLoop_eq`: the loop allocates the blocks of `smallRankFirst`, in this order
* `smallRankFirst_eq`: their ranks and tokens
* `onRank_eq`: a rank has every `R`-th block; the last one may have the last block besides
-/

namespace MindieLLM

open Program

namespace BlockTable

variable {HashValue A : Type}

/-! ## The loop -/

/-- The ranks and tokens that `AllocateBlocksForTokenIdsSmallRankFirst` decides on. -/
def smallRankFirst (blockSize rankSize : ℕ) : ℕ → List TokenId → ℕ → ℕ → List (ℕ × List TokenId)
  | 0, _, _, _ => []
  | fuel + 1, tokenIds, rankIdx, numNew =>
    if tokenIds.isEmpty then []
    else
      let remaining := tokenIds.drop blockSize
      let next :=
        if remaining.length ≤ blockSize ∧ numNew + 1 ≥ rankSize then rankSize - 1
        else (rankIdx + 1) % rankSize
      (rankIdx, tokenIds.take blockSize) ::
        smallRankFirst blockSize rankSize fuel remaining next (numNew + 1)

theorem onWorld_ok {α : Type} {c : CpuNpuBlockAllocator.DeviceM HashValue A α} {a : α}
    {s s' : TableWorld HashValue A} (h : onWorld c s = .ok a s') : s'.table = s.table := by
  unfold onWorld zoom at h
  cases hc : c s.world with
  | ok b w =>
    simp only [worldLens_get, hc, worldLens_put, EStateM.Result.ok.injEq] at h
    rw [← h.2]
  | error e w => simp [hc] at h

theorem smallRankFirst_isEmpty_iff {blockSize rankSize fuel rankIdx numNew : ℕ}
    {tokenIds : List TokenId} (hfuel : tokenIds.length ≤ fuel) :
    (smallRankFirst blockSize rankSize fuel tokenIds rankIdx numNew).isEmpty =
      tokenIds.isEmpty := by
  cases fuel with
  | zero =>
    rw [List.eq_nil_of_length_eq_zero (Nat.le_zero.mp hfuel)]
    rfl
  | succ fuel =>
    unfold smallRankFirst
    cases tokenIds <;> rfl

/-- Two programs with a common start agree if they agree on what it can return. -/
theorem bind_congr_ok {α β : Type} {c : TableM HashValue A α} {f g : α → TableM HashValue A β}
    {s : TableWorld HashValue A} (h : ∀ a s', c s = .ok a s' → f a s' = g a s') :
    (c >>= f) s = (c >>= g) s := by
  change EStateM.bind c f s = EStateM.bind c g s
  unfold EStateM.bind
  cases hc : c s with
  | ok a s' => exact h a s' hc
  | error e s' => rfl

theorem bind_congr_left {α β : Type} {c d : TableM HashValue A α} (f : α → TableM HashValue A β)
    {s : TableWorld HashValue A} (h : c s = d s) : (c >>= f) s = (d >>= f) s := by
  change EStateM.bind c f s = EStateM.bind d f s
  unfold EStateM.bind
  rw [h]

/-- The table is noted before the rest if the block is the last one. -/
theorem noteRank_congr {last : Prop} [Decidable last] {f : BlockTable → BlockTable}
    {c d : TableM HashValue A (List Ptr)} {s : TableWorld HashValue A}
    (hf : (f s.table).blockSize = s.table.blockSize ∧ (f s.table).rankSize = s.table.rankSize)
    (h : ∀ s' : TableWorld HashValue A, s'.table.blockSize = s.table.blockSize →
      s'.table.rankSize = s.table.rankSize → c s' = d s') :
    (if last then do modifyTable f; c else c) s = (if last then do modifyTable f; d else d) s := by
  split_ifs
  · refine bind_congr_ok fun u s' hmodify => ?_
    cases hmodify
    exact h _ hf.1 hf.2
  · exact h s rfl rfl

variable [BlockAllocator HashValue A]

/-- Allocate blocks whose places are known. The rank of the last one is noted in the table. -/
def allocatePlaced (blockSize : ℕ) (device : DeviceType) (extraHash : HashValue) :
    List (ℕ × List TokenId) → Option Ptr → TableM HashValue A (List Ptr)
  | [], _ => return []
  | (rankIdx, rankTokens) :: rest, prevBlock => do
    let p ←
      if rankTokens.length = blockSize then
        onWorld (CpuNpuBlockAllocator.allocateImmutableBlock device rankTokens prevBlock extraHash
          rankIdx)
      else
        onWorld (CpuNpuBlockAllocator.allocateMutableBlock device rankTokens prevBlock extraHash
          rankIdx)
    if rest.isEmpty then
      modifyTable fun t => { t with currentSpRank := rankIdx, appendBlockRankId := rankIdx }
    let ps ← allocatePlaced blockSize device extraHash rest (some p)
    return p :: ps

/-- The loop allocates the blocks of `smallRankFirst`. -/
theorem allocateSmallRankFirstLoop_eq {blockSize rankSize fuel : ℕ} (hsize : 0 < blockSize)
    (device : DeviceType) (extraHash : HashValue) {tokenIds : List TokenId} {rankIdx numNew : ℕ}
    {prevBlock : Option Ptr} {s : TableWorld HashValue A} (hfuel : tokenIds.length ≤ fuel)
    (hblock : s.table.blockSize = blockSize) (hrank : s.table.rankSize = rankSize) :
    allocateSmallRankFirstLoop device extraHash fuel tokenIds rankIdx numNew prevBlock s =
      allocatePlaced blockSize device extraHash
        (smallRankFirst blockSize rankSize fuel tokenIds rankIdx numNew) prevBlock s := by
  induction fuel generalizing tokenIds rankIdx numNew prevBlock s with
  | zero => rfl
  | succ fuel ih =>
    unfold allocateSmallRankFirstLoop smallRankFirst
    by_cases hempty : tokenIds.isEmpty
    · simp only [if_pos hempty]
      rfl
    have hpos : 0 < tokenIds.length :=
      List.length_pos_of_ne_nil fun hnil => hempty (List.isEmpty_iff.mpr hnil)
    have hdrop : (tokenIds.drop blockSize).length ≤ fuel := by
      rw [List.length_drop]
      omega
    simp only [if_neg hempty, allocatePlaced, smallRankFirst_isEmpty_iff hdrop]
    subst hblock hrank
    change (ite _ _ _ : TableM HashValue A (List Ptr)) s = _
    by_cases hfull : (tokenIds.take s.table.blockSize).length = s.table.blockSize
    · simp only [if_pos hfull]
      refine bind_congr_ok fun p s' halloc => ?_
      have htable : s'.table = s.table := onWorld_ok halloc
      refine noteRank_congr ?_ fun s'' hblock hrank => ?_
      · exact ⟨rfl, rfl⟩
      · rw [htable] at hblock hrank
        exact bind_congr_left _ (ih hdrop hblock hrank)
    · simp only [if_neg hfull]
      refine bind_congr_ok fun p s' halloc => ?_
      have htable : s'.table = s.table := onWorld_ok halloc
      refine noteRank_congr ?_ fun s'' hblock hrank => ?_
      · exact ⟨rfl, rfl⟩
      · rw [htable] at hblock hrank
        exact bind_congr_left _ (ih hdrop hblock hrank)

/-! ## Where the blocks are -/

section Placement

variable {R B b r n size : ℕ}

/-- The rank of block `b` of `B`. -/
def rankOf (R B b : ℕ) : ℕ := if b + 1 = B ∧ R ≤ b then R - 1 else b % R

/-- The blocks on a rank, in the order in which they are allocated. -/
def onRank (R B r : ℕ) : List ℕ := (List.range B).filter fun b => rankOf R B b = r

theorem rankOf_lt (hR : 0 < R) : rankOf R B b < R := by
  unfold rankOf
  split_ifs
  · omega
  · exact Nat.mod_lt b hR

theorem mem_onRank : b ∈ onRank R B r ↔ b < B ∧ rankOf R B b = r := by
  rw [onRank, List.mem_filter, List.mem_range, decide_eq_true_iff]

theorem lt_ceilDiv_iff (hsize : 0 < size) : b < ceilDiv n size ↔ b * size < n := by
  unfold ceilDiv
  rw [Nat.lt_iff_add_one_le, Nat.le_div_iff_mul_le hsize, Nat.add_mul, Nat.one_mul]
  omega

theorem rankOf_succ (hb : b + 1 < B) :
    rankOf R B (b + 1) = if b + 2 = B ∧ R ≤ b + 1 then R - 1 else (rankOf R B b + 1) % R := by
  have hearlier : rankOf R B b = b % R := if_neg (by omega)
  rw [hearlier, Nat.mod_add_mod]
  rfl

theorem smallRankFirst_nil (blockSize rankSize fuel rankIdx numNew : ℕ) :
    smallRankFirst blockSize rankSize fuel [] rankIdx numNew = [] := by
  cases fuel <;> rfl

/-- The loop from block `b` on. -/
theorem smallRankFirst_from (hsize : 0 < size) (fuel : ℕ) (tokenIds : List TokenId)
    (hfuel : tokenIds.length ≤ fuel + b * size) :
    smallRankFirst size R fuel (tokenIds.drop (b * size))
        (rankOf R (ceilDiv tokenIds.length size) b) b =
      (List.range' b (ceilDiv tokenIds.length size - b)).map fun b =>
        (rankOf R (ceilDiv tokenIds.length size) b, (tokenIds.drop (b * size)).take size) := by
  induction fuel generalizing b with
  | zero =>
    have hend : ¬b < ceilDiv tokenIds.length size := by
      rw [lt_ceilDiv_iff hsize]
      omega
    rw [Nat.sub_eq_zero_of_le (Nat.le_of_not_lt hend)]
    rfl
  | succ fuel ih =>
    by_cases hb : b < ceilDiv tokenIds.length size
    · have htokens := (lt_ceilDiv_iff hsize).mp hb
      have hnonempty : ¬(tokenIds.drop (b * size)).isEmpty = true := by
        rw [List.isEmpty_iff, List.drop_eq_nil_iff]
        omega
      have hnext : (tokenIds.drop (b * size)).drop size = tokenIds.drop ((b + 1) * size) := by
        rw [List.drop_drop, Nat.add_mul, Nat.one_mul]
      have hcount : ceilDiv tokenIds.length size - b =
          ceilDiv tokenIds.length size - (b + 1) + 1 := by omega
      have ih := ih (b := b + 1) (by rw [Nat.add_mul]; omega)
      simp only [smallRankFirst, if_neg hnonempty]
      rw [hcount, List.range'_succ, List.map_cons, hnext]
      congr 1
      by_cases hlast : b + 1 < ceilDiv tokenIds.length size
      · have hremaining : (tokenIds.drop ((b + 1) * size)).length ≤ size ↔
            b + 2 = ceilDiv tokenIds.length size := by
          have hiff := lt_ceilDiv_iff (b := b + 2) (n := tokenIds.length) hsize
          rw [List.length_drop]
          have hmul : (b + 2) * size = (b + 1) * size + size := by ring
          omega
        rw [← ih, rankOf_succ hlast]
        simp only [hremaining, ge_iff_le]
      · -- nothing is left, and the rank does not matter
        have hnil : tokenIds.drop ((b + 1) * size) = [] := by
          rw [lt_ceilDiv_iff hsize] at hlast
          exact List.drop_eq_nil_iff.mpr (Nat.le_of_not_lt hlast)
        rw [hnil, smallRankFirst_nil, Nat.sub_eq_zero_of_le (Nat.le_of_not_lt hlast)]
        rfl
    · have hnil : tokenIds.drop (b * size) = [] := by
        rw [lt_ceilDiv_iff hsize] at hb
        exact List.drop_eq_nil_iff.mpr (Nat.le_of_not_lt hb)
      rw [hnil, smallRankFirst_nil, Nat.sub_eq_zero_of_le (Nat.le_of_not_lt hb)]
      rfl

/-- The ranks and the tokens of all blocks. -/
theorem smallRankFirst_eq (hsize : 0 < size) (tokenIds : List TokenId) :
    smallRankFirst size R tokenIds.length tokenIds 0 0 =
      (List.range (ceilDiv tokenIds.length size)).map fun b =>
        (rankOf R (ceilDiv tokenIds.length size) b, (tokenIds.drop (b * size)).take size) := by
  have hzero : rankOf R (ceilDiv tokenIds.length size) 0 = 0 := by
    unfold rankOf
    split_ifs
    · omega
    · exact Nat.zero_mod R
  have h := smallRankFirst_from (R := R) (b := 0) hsize tokenIds.length tokenIds (by omega)
  rw [hzero, Nat.zero_mul, List.drop_zero, Nat.sub_zero, ← List.range_eq_range'] at h
  exact h

/-- `K` numbers from `start` on, with `R` from each to the next. -/
def everyNth (R : ℕ) : ℕ → ℕ → List ℕ
  | _, 0 => []
  | start, K + 1 => start :: everyNth R (start + R) K

theorem mem_everyNth {start K : ℕ} : b ∈ everyNth R start K ↔ ∃ k < K, b = start + k * R := by
  induction K generalizing start with
  | zero => simp [everyNth]
  | succ K ih =>
    rw [everyNth, List.mem_cons, ih]
    constructor
    · rintro (rfl | ⟨k, hk, rfl⟩)
      · exact ⟨0, by omega, by omega⟩
      · exact ⟨k + 1, by omega, by ring⟩
    · rintro ⟨k, hk, rfl⟩
      cases k with
      | zero => exact .inl (by omega)
      | succ k => exact .inr ⟨k, by omega, by ring⟩

theorem pairwise_everyNth (hR : 0 < R) (start K : ℕ) : (everyNth R start K).Pairwise (· < ·) := by
  induction K generalizing start with
  | zero => exact List.Pairwise.nil
  | succ K ih =>
    refine List.Pairwise.cons (fun b hb => ?_) (ih _)
    obtain ⟨k, -, rfl⟩ := mem_everyNth.mp hb
    omega

theorem pairwise_onRank (R B r : ℕ) : (onRank R B r).Pairwise (· < ·) :=
  List.pairwise_lt_range.filter _

/-- How many of the blocks that are dealt out in turn fall on a rank. -/
def turns (R B r : ℕ) : ℕ := ((if R < B then B - 1 else B) + R - 1 - r) / R

theorem lt_turns_iff {k : ℕ} (hr : r < R) :
    k < turns R B r ↔ r + k * R < if R < B then B - 1 else B := by
  unfold turns
  rw [Nat.lt_iff_add_one_le, Nat.le_div_iff_mul_le (by omega), Nat.add_mul, Nat.one_mul]
  omega

theorem mem_everyNth_turns (hr : r < R) :
    b ∈ everyNth R r (turns R B r) ↔ b % R = r ∧ b < if R < B then B - 1 else B := by
  rw [mem_everyNth]
  constructor
  · rintro ⟨k, hk, rfl⟩
    rw [Nat.add_mul_mod_self_right, Nat.mod_eq_of_lt hr]
    exact ⟨rfl, (lt_turns_iff hr).mp hk⟩
  · rintro ⟨hmod, hb⟩
    have hdiv : b = r + b / R * R := by
      rw [← hmod, Nat.mul_comm]
      exact (Nat.mod_add_div b R).symm
    refine ⟨b / R, ?_, hdiv⟩
    rw [lt_turns_iff hr, ← hdiv]
    exact hb

/-- A rank has every `R`-th block. If the blocks go round more than once, then the last one is on
the last rank whatever its turn. -/
theorem onRank_eq (hr : r < R) :
    onRank R B r =
      everyNth R r (turns R B r) ++ if r + 1 = R ∧ R < B then [B - 1] else [] := by
  have hsorted : (everyNth R r (turns R B r) ++ if r + 1 = R ∧ R < B then [B - 1] else []).Pairwise
      (· < ·) := by
    refine List.pairwise_append.mpr ⟨pairwise_everyNth (by omega) _ _, ?_, fun b hb b' hb' => ?_⟩
    · split_ifs <;> simp
    · rw [mem_everyNth_turns hr] at hb
      split_ifs at hb' with hlast
      · rw [if_pos hlast.2] at hb
        rw [List.mem_singleton.mp hb']
        exact hb.2
      · cases hb'
  refine List.Perm.eq_of_pairwise (fun b b' _ _ (h : b < b') (h' : b' < b) => by omega)
    (pairwise_onRank R B r) hsorted ?_
  refine (List.perm_ext_iff_of_nodup ((pairwise_onRank R B r).imp fun h => by omega)
    (hsorted.imp fun h => by omega)).mpr fun b => ?_
  rw [mem_onRank, List.mem_append, mem_everyNth_turns hr, rankOf]
  by_cases hround : R < B
  · by_cases hlast : r + 1 = R
    · simp only [if_pos hround, if_pos (And.intro hlast hround), List.mem_singleton]
      split_ifs with hb
      · omega
      · have := Nat.mod_lt b (by omega : 0 < R)
        omega
    · have hother : ¬(r + 1 = R ∧ R < B) := fun h => hlast h.1
      simp only [if_pos hround, if_neg hother, List.not_mem_nil, or_false]
      split_ifs with hb
      · omega
      · omega
  · have hother : ¬(r + 1 = R ∧ R < B) := fun h => hround h.2
    simp only [if_neg hround, if_neg hother, List.not_mem_nil, or_false]
    split_ifs with hb
    · omega
    · omega

theorem le_ceilDiv_mul (hsize : 0 < size) : n ≤ ceilDiv n size * size := by
  have h := (lt_ceilDiv_iff (b := ceilDiv n size) (n := n) hsize).not
  omega

end Placement

/-! ## The table -/

section Table

omit [BlockAllocator HashValue A]

variable {s : TableWorld HashValue A} {tokenIds : List TokenId}

/-- The table that lists the given blocks. -/
def listing (t : BlockTable) (m : Mem HashValue) (ps : List Ptr) : BlockTable :=
  { t with
    blockObjs := fun r => ps.filter fun p => (m.obj p).rankIdx = r
    blockIds := ps.map fun p => (m.obj p).blockId }

theorem listing_snoc (t : BlockTable) (m : Mem HashValue) (ps : List Ptr) (p : Ptr) :
    (listing t m ps).pushBlock (m.obj p).rankIdx p (m.obj p).blockId =
      listing t m (ps ++ [p]) := by
  unfold listing pushBlock
  simp only [List.map_append, List.map_cons, List.map_nil, BlockTable.mk.injEq, and_true]
  funext r
  rw [List.filter_append]
  by_cases hr : r = (m.obj p).rankIdx
  · subst hr
    simp
  · simp [Function.update_of_ne hr, Ne.symm hr]

theorem wp_update (ps : List Ptr)
    (hrank : ∀ p ∈ ps, (s.world.mem.obj p).rankIdx < s.table.rankSize) :
    wp (update ps) (fun _ s' => s' = { s with table := listing s.table s.world.mem ps })
      (fun _ _ => False) s := by
  unfold update
  simp only [wp_bind, modifyTable, wp_modify]
  refine wp_mono (wp_forM (I := fun rest s' => ∃ done, done ++ rest = ps ∧
    s' = { s with table := listing s.table s.world.mem done }) _ ps ⟨[], rfl, rfl⟩ ?_) ?_
    fun _ _ h => h
  · rintro p rest s' ⟨done, hps, rfl⟩
    have hp : (s.world.mem.obj p).rankIdx < s.table.rankSize :=
      hrank p (hps ▸ List.mem_append_right _ List.mem_cons_self)
    simp only [loadBlock, wp_bind, wp_zoom, worldLens_get, World.memLens_get, wp_load,
      World.memLens_put, worldLens_put, wp_get]
    refine (wp_ite _ _ _).mpr ⟨fun hge => absurd hge (Nat.not_le_of_lt hp), fun _ => ?_⟩
    refine ⟨done ++ [p], ?_, ?_⟩
    · rw [← hps, List.append_assoc]
      rfl
    · rw [← listing_snoc]
  · rintro _ s' ⟨done, hps, rfl⟩
    rw [← hps, List.append_nil]

/-- A block of a rank that does not exist is not listed. -/
theorem wp_update_returns (ps : List Ptr) :
    wp (update ps) (fun _ s' => (∀ p ∈ ps, (s.world.mem.obj p).rankIdx < s.table.rankSize) ∧
        s' = { s with table := listing s.table s.world.mem ps }) (fun _ _ => True) s := by
  by_cases hrank : ∀ p ∈ ps, (s.world.mem.obj p).rankIdx < s.table.rankSize
  · exact wp_mono (wp_update ps hrank) (fun _ _ h => ⟨hrank, h⟩) fun _ _ h => h.elim
  push Not at hrank
  obtain ⟨p, hp, hrank⟩ := hrank
  unfold update
  simp only [wp_bind, modifyTable, wp_modify]
  refine wp_mono (wp_forM_throws (T := fun _ _ => True) (I := fun s' => s'.world = s.world ∧
    s'.table.rankSize = s.table.rankSize) ⟨rfl, rfl⟩ ?_ hp ?_) (fun _ _ h => h.elim)
    fun _ _ _ => trivial
  · rintro q s' ⟨hworld, hsize⟩
    simp only [loadBlock, wp_bind, wp_zoom, worldLens_get, World.memLens_get, wp_load,
      World.memLens_put, worldLens_put, wp_get]
    exact (wp_ite _ _ _).mpr ⟨fun _ => trivial, fun _ => ⟨hworld, hsize⟩⟩
  · rintro s' ⟨hworld, hsize⟩
    simp only [loadBlock, wp_bind, wp_zoom, worldLens_get, World.memLens_get, wp_load,
      World.memLens_put, worldLens_put, wp_get]
    refine (wp_ite _ _ _).mpr ⟨fun _ => trivial, fun hlt => absurd ?_ hlt⟩
    rw [hworld, hsize]
    exact hrank

/-- The table after the last block has been noted. -/
def noted (t : BlockTable) (blocks : List (ℕ × List TokenId)) : BlockTable :=
  match blocks.getLast? with
  | none => t
  | some (rankIdx, _) => { t with currentSpRank := rankIdx, appendBlockRankId := rankIdx }

@[simp] theorem noted_rankSize (t : BlockTable) (blocks : List (ℕ × List TokenId)) :
    (noted t blocks).rankSize = t.rankSize := by
  unfold noted
  split <;> rfl

variable [BlockAllocator HashValue A]

omit [BlockAllocator HashValue A] in
theorem wp_onWorld_table {α : Type} (c : CpuNpuBlockAllocator.DeviceM HashValue A α) :
    wp (onWorld c) (fun _ s' => s'.table = s.table) (fun _ _ => True) s := by
  unfold wp
  cases h : onWorld c s with
  | ok a s' => exact onWorld_ok h
  | error e s' => trivial

theorem wp_allocatePlaced (device : DeviceType) (extraHash : HashValue) (size : ℕ)
    (blocks : List (ℕ × List TokenId)) (prevBlock : Option Ptr) :
    wp (allocatePlaced size device extraHash blocks prevBlock)
      (fun _ s' => s'.table = noted s.table blocks) (fun _ _ => True) s := by
  induction blocks generalizing prevBlock s with
  | nil => rfl
  | cons block rest ih =>
    obtain ⟨rankIdx, rankTokens⟩ := block
    have hrest : ∀ (s' : TableWorld HashValue A) (p : Ptr), s'.table = s.table →
        wp (do
            if rest.isEmpty then
              modifyTable fun t => { t with currentSpRank := rankIdx, appendBlockRankId := rankIdx }
            let ps ← allocatePlaced size device extraHash rest (some p)
            return p :: ps)
          (fun _ s'' => s''.table = noted s.table ((rankIdx, rankTokens) :: rest))
          (fun _ _ => True) s' := by
      intro s' p htable
      cases rest with
      | nil =>
        simp only [List.isEmpty_nil, if_true, wp_bind, modifyTable, wp_modify, wp_pure]
        refine wp_mono (ih _) (fun _ s'' h => ?_) fun _ _ h => h
        rw [h, htable]
        rfl
      | cons block rest =>
        simp only [List.isEmpty_cons, Bool.false_eq_true, if_false, wp_bind, wp_pure]
        refine wp_mono (ih _) (fun _ s'' h => ?_) fun _ _ h => h
        rw [h, htable]
        unfold noted
        rw [List.getLast?_cons_cons]
    unfold allocatePlaced
    refine (wp_ite _ _ _).mpr ⟨fun _ => ?_, fun _ => ?_⟩
    · rw [wp_bind]
      exact wp_mono (wp_onWorld_table _) (fun p s' h => hrest s' p h) fun _ _ h => h
    · rw [wp_bind]
      exact wp_mono (wp_onWorld_table _) (fun p s' h => hrest s' p h) fun _ _ h => h

end Table

end BlockTable

end MindieLLM
