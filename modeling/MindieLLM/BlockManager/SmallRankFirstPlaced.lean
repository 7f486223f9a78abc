import MindieLLM.BlockManager.SmallRankFirst
import MindieLLM.BlockManager.LawfulBlockAllocator
import Mathlib.Tactic.IntervalCases

/-!
# The blocks of a prompt

The blocks that small-rank-first allocates are new, each has the tokens and the rank that it is to
have, and each follows the one allocated before. As many blocks are allocated as the tokens need,
provided that every rank has an id left for each of its blocks.

## Main definitions

* `Ready`: the allocators of the ranks are in order
* `Linked`: each block follows the one before
* `Distributed`: what the blocks of a prompt are

## Main results

* `wp_allocatePlaced_ready`: blocks whose places are known are allocated there
* `length_onRank_le`: no rank has more than its share
* `length_onRank_zero_le`: the first rank has at most one block more than another
* `Distributed.of_ok`: the blocks of a prompt, if all of them have been allocated
* `allocateSmallRankFirst_distributed`: they are, if every rank has an id for each of its blocks
* `wp_allocateSmallRankFirst_listed`: the table lists these blocks rank by rank
-/

namespace MindieLLM

open Program

namespace BlockTable

variable {HashValue A : Type}

/-! ## Shares -/

section Shares

variable {R B r size : ℕ}

theorem length_everyNth (R start K : ℕ) : (everyNth R start K).length = K := by
  induction K generalizing start with
  | zero => rfl
  | succ K ih => rw [everyNth, List.length_cons, ih]

/-- No rank has more than its share of the blocks. -/
theorem length_onRank_le (hr : r < R) : (onRank R B r).length ≤ ceilDiv B R := by
  rw [onRank_eq hr, List.length_append, length_everyNth, turns, ceilDiv]
  by_cases hlast : r + 1 = R ∧ R < B
  · rw [if_pos hlast, if_pos hlast.2, List.length_singleton, ← Nat.add_div_right _ (by omega)]
    exact Nat.div_le_div_right (by omega)
  · rw [if_neg hlast, List.length_nil, Nat.add_zero]
    refine Nat.div_le_div_right ?_
    split_ifs <;> omega

/-- The first rank has at most one block more than another. -/
theorem length_onRank_zero_le (hr : r < R) :
    (onRank R B 0).length ≤ (onRank R B r).length + 1 := by
  have hzero : 0 < R := by omega
  rw [onRank_eq hr, onRank_eq hzero, List.length_append, List.length_append, length_everyNth,
    length_everyNth, turns, turns]
  generalize (if R < B then B - 1 else B) = C
  by_cases hone : R = 1
  · have : r = 0 := by omega
    rw [this]
    omega
  · rw [if_neg (by omega : ¬(0 + 1 = R ∧ R < B)), List.length_nil, Nat.sub_zero]
    have hle : (C + R - 1) / R ≤ (C + R - 1 - r + R) / R := Nat.div_le_div_right (by omega)
    rw [Nat.add_div_right _ hzero] at hle
    omega

/-- The blocks have the tokens between them. -/
theorem flatten_blocks (hsize : 0 < size) (tokenIds : List TokenId) :
    ((List.range (ceilDiv tokenIds.length size)).map fun b =>
      (tokenIds.drop (b * size)).take size).flatten = tokenIds := by
  have htake : ∀ K, ((List.range K).map fun b => (tokenIds.drop (b * size)).take size).flatten =
      tokenIds.take (K * size) := by
    intro K
    induction K with
    | zero => simp
    | succ K ih =>
      rw [List.range_succ, List.map_append, List.flatten_append, ih, List.map_singleton,
        List.flatten_singleton, ← List.take_add, Nat.add_mul, Nat.one_mul]
  rw [htake, List.take_of_length_le (le_ceilDiv_mul hsize)]

end Shares

/-! ## Chains -/

/-- Each block follows the one before, and the first one follows `prev`. -/
def Linked (m : Mem HashValue) : Option Ptr → List Ptr → Prop
  | _, [] => True
  | prev, p :: ps => (m.obj p).prevBlock = prev ∧ Linked m (some p) ps

theorem Linked.getElem {m : Mem HashValue} {prev : Option Ptr} {ps : List Ptr}
    (h : Linked m prev ps) (i : ℕ) (hi : i < ps.length) :
    (m.obj ps[i]).prevBlock = if i = 0 then prev else ps[i - 1]? := by
  induction ps generalizing prev i with
  | nil => exact absurd hi (Nat.not_lt_zero i)
  | cons p ps ih =>
    cases i with
    | zero => exact h.1
    | succ i =>
      rw [List.getElem_cons_succ, ih h.2 i (by simpa using hi), if_neg (Nat.succ_ne_zero i)]
      cases i with
      | zero => rfl
      | succ i => rfl

/-! ## Blocks at known places -/

/-- The rank and the tokens of a block. -/
def placeOf (m : Mem HashValue) (p : Ptr) : ℕ × List TokenId :=
  ((m.obj p).rankIdx, (m.obj p).tokenIds)

section Placed

variable [BlockAllocator HashValue A] [LawfulBlockAllocator HashValue A]

/-- The allocators of the ranks are in order while the blocks `used` are in use. -/
structure Ready (device : DeviceType) (R size : ℕ) (w : World HashValue (CpuNpuBlockAllocator A))
    (used : Finset Ptr) : Prop where
  tracks : w.mem.pool.Tracks used
  pool : 0 < w.mem.pool.poolSize
  ranks : R ≤ w.alloc.numAllocators device
  holds : ∀ r < R, ∃ own, LawfulBlockAllocator.Holds (w.alloc.allocators device r) own
  size : ∀ r < R, LawfulBlockAllocator.blockSize (w.alloc.allocators device r) = size

/-- How many ids are left for a rank. -/
def numFree (device : DeviceType) (w : World HashValue (CpuNpuBlockAllocator A)) (r : ℕ) : ℕ :=
  BlockAllocator.getNumFreeBlock (w.alloc.allocators device r)

/-- One block is allocated on a rank. -/
structure Grown (device : DeviceType) (R size : ℕ) (w : World HashValue (CpuNpuBlockAllocator A))
    (used : Finset Ptr) (r : ℕ) (tokenIds : List TokenId) (prev : Option Ptr) (p : Ptr)
    (w' : World HashValue (CpuNpuBlockAllocator A)) : Prop where
  ready : Ready device R size w' (insert p used)
  taken : Taken w.mem used tokenIds prev p w'.mem
  rankIdx : (w'.mem.obj p).rankIdx = r
  free : ∀ r', numFree device w r' ≤ numFree device w' r' + if r' = r then 1 else 0

/-- Either allocation of one of the allocators allocates a block on its rank. -/
theorem wp_allocate_grown {device : DeviceType} {R size : ℕ}
    {w : World HashValue (CpuNpuBlockAllocator A)} {used : Finset Ptr} {r : ℕ}
    {tokenIds : List TokenId} {prev : Option Ptr} (h : Ready device R size w used) (hr : r < R)
    (hsize : 0 < size) (hfits : tokenIds.length ≤ size) (hprev : PrevWithin w.mem used prev)
    {c : WorldM HashValue A Ptr}
    (hc : ∀ {v : World HashValue A} {own : Multiset BlockId},
      LawfulBlockAllocator.Holds v.alloc own → v.mem.pool.Tracks used →
      wp c (fun p v' => ∃ b, Taken v.mem used tokenIds prev p v'.mem ∧
          LawfulBlockAllocator.Holds v'.alloc (b ::ₘ own) ∧
          LawfulBlockAllocator.blockSize v'.alloc = LawfulBlockAllocator.blockSize v.alloc ∧
          BlockAllocator.getNumFreeBlock v.alloc ≤ BlockAllocator.getNumFreeBlock v'.alloc + 1)
        (fun _ _ => ¬Enough v used (LawfulBlockAllocator.blockSize v.alloc)
          (BlockAllocator.getNumFreeBlock v.alloc) tokenIds prev) v) :
    wp (do
        let p ← CpuNpuBlockAllocator.onAllocator device r c
        onMem (withObj p (HashLessBlockObj.setRankIdx r))
        return p)
      (fun p w' => Grown device R size w used r tokenIds prev p w')
      (fun _ _ => numFree device w r = 0) w := by
  obtain ⟨own, hown⟩ := h.holds r hr
  have hranks := h.ranks
  unfold CpuNpuBlockAllocator.onAllocator
  simp only [wp_bind, wp_get]
  refine (wp_ite _ _ _).mpr ⟨fun hge => absurd hge (by omega), fun _ => ?_⟩
  rw [wp_zoom]
  refine wp_mono (hc (v := ⟨w.mem, w.alloc.allocators device r⟩) hown h.tracks) ?_
    fun _ _ hno => Nat.eq_zero_of_not_pos fun hfree =>
      hno ⟨hfree, h.pool, (h.size r hr).symm ▸ hsize, (h.size r hr).symm ▸ hfits, hprev⟩
  rintro p ⟨m, a⟩ ⟨b, htaken, hholds, hblockSize, hcount⟩
  simp only [CpuNpuBlockAllocator.allocatorLens, HashLessBlockObj.setRankIdx, wp_zoom,
    World.memLens_get, World.memLens_put, Mem.objAt_get, Mem.objAt_put, wp_modify, wp_pure]
  have hat : ∀ r', (w.alloc.setAllocator device r a).allocators device r' =
      if r' = r then a else w.alloc.allocators device r' := by
    intro r'
    simp only [CpuNpuBlockAllocator.setAllocator, Function.update_self, Function.update_apply]
  have htaken' := htaken.setRankIdx r
  refine ⟨⟨htaken'.tracks, Nat.lt_of_lt_of_le h.pool htaken.poolSize, ?_, fun r' hr' => ?_,
    fun r' hr' => ?_⟩, htaken', ?_, fun r' => ?_⟩
  · exact h.ranks.trans_eq (by cases device <;> rfl)
  · rw [hat]
    split_ifs
    · exact ⟨_, hholds⟩
    · exact h.holds r' hr'
  · rw [hat]
    split_ifs
    · exact hblockSize.trans (h.size r hr)
    · exact h.size r' hr'
  · rw [Mem.setObj_obj_same]
  · simp only [numFree, hat]
    split_ifs with heq
    · rw [heq]
      exact hcount
    · exact Nat.le_refl _

/-- Some rank has fewer ids than blocks. -/
def Short (device : DeviceType) (w : World HashValue (CpuNpuBlockAllocator A))
    (blocks : List (ℕ × List TokenId)) : Prop :=
  ∃ r, numFree device w r < (blocks.filter fun block => block.1 = r).length

/-- What is short for the rest of the blocks was short before. -/
theorem Grown.short {device : DeviceType} {R size : ℕ}
    {w w' : World HashValue (CpuNpuBlockAllocator A)} {used : Finset Ptr} {r : ℕ}
    {tokenIds : List TokenId} {prev : Option Ptr} {p : Ptr} {rest : List (ℕ × List TokenId)}
    (h : Grown device R size w used r tokenIds prev p w') (hshort : Short device w' rest) :
    Short device w ((r, tokenIds) :: rest) := by
  obtain ⟨r', hlt⟩ := hshort
  refine ⟨r', ?_⟩
  have hfree := h.free r'
  by_cases heq : r = r'
  · rw [List.filter_cons_of_pos (by simpa using heq), List.length_cons]
    rw [if_pos heq.symm] at hfree
    omega
  · rw [List.filter_cons_of_neg (by simpa using heq)]
    rw [if_neg (Ne.symm heq)] at hfree
    omega

/-- **Blocks whose places are known are allocated there**, one after the other, unless some rank has
fewer ids than blocks. -/
theorem wp_allocatePlaced_ready {device : DeviceType} {R size : ℕ} (extraHash : HashValue)
    {blocks : List (ℕ × List TokenId)} {prev : Option Ptr} {s : TableWorld HashValue A}
    {used : Finset Ptr} (h : Ready device R size s.world used) (hsize : 0 < size)
    (hplaces : ∀ block ∈ blocks, block.1 < R ∧ block.2.length ≤ size)
    (hprev : PrevWithin s.world.mem used prev) :
    wp (allocatePlaced size device extraHash blocks prev)
      (fun ps s' => ps.map (placeOf s'.world.mem) = blocks ∧ Linked s'.world.mem prev ps ∧
        ps.Nodup ∧ (∀ p ∈ ps, p ∉ used) ∧
        ∀ p ∈ used, SameButHash (s.world.mem.obj p) (s'.world.mem.obj p))
      (fun _ _ => Short device s.world blocks) s := by
  induction blocks generalizing prev s used with
  | nil => exact ⟨rfl, trivial, List.nodup_nil, by simp, fun _ _ => .refl _⟩
  | cons block rest ih =>
    obtain ⟨r, tokenIds⟩ := block
    obtain ⟨hr, hfits⟩ := hplaces _ List.mem_cons_self
    have hroom : numFree device s.world r = 0 → Short device s.world ((r, tokenIds) :: rest) := by
      intro hzero
      refine ⟨r, ?_⟩
      rw [List.filter_cons_of_pos (by simp), List.length_cons]
      omega
    have hrest : ∀ (p : Ptr) (s' : TableWorld HashValue A),
        Grown device R size s.world used r tokenIds prev p s'.world →
        wp (do
            if rest.isEmpty then
              modifyTable fun t => { t with currentSpRank := r, appendBlockRankId := r }
            let ps ← allocatePlaced size device extraHash rest (some p)
            return p :: ps)
          (fun ps s' => ps.map (placeOf s'.world.mem) = (r, tokenIds) :: rest ∧
            Linked s'.world.mem prev ps ∧ ps.Nodup ∧ (∀ p ∈ ps, p ∉ used) ∧
            ∀ p ∈ used, SameButHash (s.world.mem.obj p) (s'.world.mem.obj p))
          (fun _ _ => Short device s.world ((r, tokenIds) :: rest)) s' := by
      intro p s' hgrown
      have hloop : ∀ s₁ : TableWorld HashValue A, s₁.world = s'.world →
          wp (do
              let ps ← allocatePlaced size device extraHash rest (some p)
              return p :: ps)
            (fun ps s' => ps.map (placeOf s'.world.mem) = (r, tokenIds) :: rest ∧
              Linked s'.world.mem prev ps ∧ ps.Nodup ∧ (∀ p ∈ ps, p ∉ used) ∧
              ∀ p ∈ used, SameButHash (s.world.mem.obj p) (s'.world.mem.obj p))
            (fun _ _ => Short device s.world ((r, tokenIds) :: rest)) s₁ := by
        intro s₁ hworld
        rw [wp_bind]
        refine wp_mono (ih (hworld ▸ hgrown.ready)
          (fun block hblock => hplaces block (List.mem_cons_of_mem _ hblock))
          (hworld ▸ hgrown.taken.prevWithin hprev)) ?_
          fun _ _ hshort => hgrown.short (hworld ▸ hshort)
        rintro ps s₂ ⟨hblocks, hlinked, hnodup, hnew, hsame⟩
        rw [hworld] at hsame
        have hp := hsame p (Finset.mem_insert_self p used)
        have hplace : placeOf s₂.world.mem p = (r, tokenIds) := by
          rw [placeOf, hp.rankIdx, hp.tokenIds, hgrown.rankIdx, hgrown.taken.tokenIds]
        refine ⟨by rw [List.map_cons, hplace, hblocks],
          ⟨hp.prevBlock.trans hgrown.taken.prevBlock, hlinked⟩,
          List.nodup_cons.mpr ⟨fun hmem => hnew p hmem (Finset.mem_insert_self p used), hnodup⟩, ?_,
          fun q hq => ?_⟩
        · rintro q hq hused
          rcases List.mem_cons.mp hq with rfl | hq
          · exact hgrown.taken.fresh hused
          · exact hnew q hq (Finset.mem_insert_of_mem hused)
        · have hne : q ≠ p := fun heq => hgrown.taken.fresh (heq ▸ hq)
          exact (hgrown.taken.frame q hne).trans (hsame q (Finset.mem_insert_of_mem hq))
      refine (wp_ite _ _ _).mpr ⟨fun _ => ?_, fun _ => ?_⟩
      · rw [wp_bind, modifyTable, wp_modify]
        exact hloop _ rfl
      · exact hloop _ rfl
    unfold allocatePlaced
    refine (wp_ite _ _ _).mpr ⟨fun _ => ?_, fun _ => ?_⟩
    · rw [wp_bind, wp_zoom]
      refine wp_mono (wp_allocate_grown h hr hsize hfits hprev fun hholds htracks =>
        LawfulBlockAllocator.wp_allocateImmutableBlock tokenIds prev extraHash hholds htracks) ?_
        fun _ _ hzero => hroom hzero
      exact fun p w' hgrown => hrest p _ hgrown
    · rw [wp_bind, wp_zoom]
      refine wp_mono (wp_allocate_grown h hr hsize hfits hprev fun hholds htracks =>
        LawfulBlockAllocator.wp_allocateMutableBlock tokenIds prev extraHash hholds htracks) ?_
        fun _ _ hzero => hroom hzero
      exact fun p w' hgrown => hrest p _ hgrown

/-- The allocators of the NPU are in order from the start. -/
theorem Ready.new [PrefixHasher HashValue] (config : AllocatorConfig)
    {w : World HashValue (CpuNpuBlockAllocator A)} (hnew : CpuNpuBlockAllocator.new config = .ok w)
    (hblocks : 0 < config.numNpuBlocks) : Ready .npu config.rankSize config.blockSize w ∅ := by
  rw [CpuNpuBlockAllocator.new] at hnew
  split_ifs at hnew with hrank
  injection hnew with hnew
  rw [← hnew]
  have hlaw := fun numBlocks size =>
    LawfulBlockAllocator.holds_new (A := A) numBlocks size (Int.le_refl 0)
  refine ⟨.new _, ?_, Nat.le_refl _, fun r _ => ⟨0, (hlaw _ _).1⟩, fun r _ => (hlaw _ _).2⟩
  have := Nat.mul_pos hblocks (Nat.pos_of_ne_zero hrank)
  change 0 < 4 * (config.numCpuBlocks * config.hostSize + config.numNpuBlocks * config.rankSize)
  omega

end Placed

/-! ## All blocks of a prompt -/

/-- How the blocks of a prompt are spread over the ranks. -/
structure Distributed (R size : ℕ) (tokenIds : List TokenId) (ps : List Ptr)
    (s : TableWorld HashValue A) : Prop where
  length : ps.length = ceilDiv tokenIds.length size
  nodup : ps.Nodup
  tokenIds : (ps.map fun p => (s.world.mem.obj p).tokenIds).flatten = tokenIds
  rankIdx : ∀ (b : ℕ) (hb : b < ps.length), (s.world.mem.obj ps[b]).rankIdx =
    if b + 1 = ps.length ∧ R ≤ ps.length then R - 1 else b % R
  share : ∀ r, (ps.filter fun p => (s.world.mem.obj p).rankIdx = r).length ≤ ceilDiv ps.length R
  prevBlock : ∀ (b : ℕ) (hb : b < ps.length), (s.world.mem.obj ps[b]).prevBlock =
    if b = 0 then none else ps[b - 1]?
  currentSpRank : ∀ p, ps.getLast? = some p →
    s.table.currentSpRank = (s.world.mem.obj p).rankIdx

section Distributed

/-- A rank that does not exist has no blocks. -/
theorem onRank_of_le {R B r : ℕ} (hR : 0 < R) (hr : R ≤ r) : onRank R B r = [] := by
  refine List.eq_nil_iff_forall_not_mem.mpr fun b hb => ?_
  have hrank := (mem_onRank.mp hb).2
  have := rankOf_lt (b := b) (B := B) hR
  omega

/-- The last block is on the last rank if every rank has a block, the others go in turn. -/
theorem rankOf_eq {R B b : ℕ} (hR : 0 < R) :
    rankOf R B b = if b + 1 = B ∧ R ≤ B then R - 1 else b % R := by
  unfold rankOf
  by_cases hlast : b + 1 = B
  · by_cases hround : R ≤ b
    · rw [if_pos ⟨hlast, hround⟩, if_pos ⟨hlast, by omega⟩]
    · rw [if_neg fun h => hround h.2]
      split_ifs with hB
      · rw [show b = R - 1 by omega]
        exact Nat.mod_eq_of_lt (by omega)
      · rfl
  · rw [if_neg fun h => hlast h.1, if_neg fun h => hlast h.1]

variable {R size : ℕ} {tokenIds : List TokenId} {ps : List Ptr} {t : BlockTable}
  {s : TableWorld HashValue A}

/-- Blocks at the places that small-rank-first decides on are spread over the ranks. -/
theorem Distributed.of_placeOf (hR : 0 < R) (hsize : 0 < size)
    (hplaces : ps.map (placeOf s.world.mem) =
      smallRankFirst size R tokenIds.length tokenIds 0 0)
    (hlinked : Linked s.world.mem none ps) (hnodup : ps.Nodup)
    (htable : s.table = noted t (smallRankFirst size R tokenIds.length tokenIds 0 0)) :
    Distributed R size tokenIds ps s := by
  rw [smallRankFirst_eq hsize] at hplaces
  have hlength : ps.length = ceilDiv tokenIds.length size := by
    have h := congrArg List.length hplaces
    rwa [List.length_map, List.length_map, List.length_range] at h
  have hrank : ps.map (fun p => (s.world.mem.obj p).rankIdx) =
      (List.range (ceilDiv tokenIds.length size)).map
        (rankOf R (ceilDiv tokenIds.length size)) := by
    have h := congrArg (List.map Prod.fst) hplaces
    rwa [List.map_map, List.map_map] at h
  have htokens : ps.map (fun p => (s.world.mem.obj p).tokenIds) =
      (List.range (ceilDiv tokenIds.length size)).map fun b =>
        (tokenIds.drop (b * size)).take size := by
    have h := congrArg (List.map Prod.snd) hplaces
    rwa [List.map_map, List.map_map] at h
  refine ⟨hlength, hnodup, ?_, fun b hb => ?_, fun r => ?_, fun b hb => hlinked.getElem b hb,
    fun p hp => ?_⟩
  · rw [htokens]
    exact flatten_blocks hsize tokenIds
  · have h := List.getElem_of_eq hrank (i := b) (by rwa [List.length_map])
    rw [List.getElem_map, List.getElem_map, List.getElem_range] at h
    rw [h, hlength]
    exact rankOf_eq hR
  · have hcount : (ps.filter fun p => (s.world.mem.obj p).rankIdx = r).length =
        (onRank R (ceilDiv tokenIds.length size) r).length := by
      have h := congrArg (List.countP (· = r)) hrank
      rwa [List.countP_map, List.countP_map, List.countP_eq_length_filter,
        List.countP_eq_length_filter] at h
    rw [hcount, hlength]
    rcases Nat.lt_or_ge r R with hr | hr
    · exact length_onRank_le hr
    · rw [onRank_of_le hR hr]
      exact Nat.zero_le _
  · have hlast : (smallRankFirst size R tokenIds.length tokenIds 0 0).getLast? =
        some (placeOf s.world.mem p) := by
      rw [smallRankFirst_eq hsize, ← hplaces, List.getLast?_map, hp]
      rfl
    rw [htable, noted, hlast]
    rfl

variable [BlockAllocator HashValue A] [LawfulBlockAllocator HashValue A]

/-- The loop spreads the blocks of a prompt over the ranks, unless some rank has fewer ids than
blocks. -/
theorem wp_allocateSmallRankFirstLoop_distributed {device : DeviceType} (extraHash : HashValue)
    (tokenIds : List TokenId) {s : TableWorld HashValue A} {used : Finset Ptr}
    (hsize : 0 < s.table.blockSize) (hR : 0 < s.table.rankSize)
    (hready : Ready device s.table.rankSize s.table.blockSize s.world used) :
    wp (allocateSmallRankFirstLoop device extraHash tokenIds.length tokenIds 0 0 none)
      (fun ps s' => Distributed s.table.rankSize s.table.blockSize tokenIds ps s' ∧
        s'.table.rankSize = s.table.rankSize)
      (fun _ _ => Short device s.world
        (smallRankFirst s.table.blockSize s.table.rankSize tokenIds.length tokenIds 0 0)) s := by
  rw [wp, allocateSmallRankFirstLoop_eq hsize device extraHash (Nat.le_refl _) rfl rfl]
  have hplaces : ∀ block ∈ smallRankFirst s.table.blockSize s.table.rankSize tokenIds.length
      tokenIds 0 0, block.1 < s.table.rankSize ∧ block.2.length ≤ s.table.blockSize := by
    rw [smallRankFirst_eq hsize]
    intro block hblock
    obtain ⟨b, -, rfl⟩ := List.mem_map.mp hblock
    exact ⟨rankOf_lt hR, List.length_take_le _ _⟩
  refine wp_mono (wp_and (wp_allocatePlaced_ready extraHash hready hsize hplaces (by rintro _ ⟨⟩))
    (wp_allocatePlaced device extraHash _ _ none)) ?_ fun _ _ h => h.1
  rintro ps s' ⟨⟨hblocks, hlinked, hnodup, -, -⟩, htable⟩
  exact ⟨.of_placeOf hR hsize hblocks hlinked hnodup htable, by rw [htable, noted_rankSize]⟩

/-- The blocks of a prompt, if all of them have been allocated. -/
theorem Distributed.of_ok {device : DeviceType} {extraHash : HashValue} {tokenIds : List TokenId}
    {s s' : TableWorld HashValue A} {used : Finset Ptr} {ps : List Ptr}
    (hsize : 0 < s.table.blockSize) (hR : 0 < s.table.rankSize)
    (hready : Ready device s.table.rankSize s.table.blockSize s.world used)
    (hloop : allocateSmallRankFirstLoop device extraHash tokenIds.length tokenIds 0 0 none s =
      .ok ps s') :
    Distributed s.table.rankSize s.table.blockSize tokenIds ps s' :=
  (wp_ok (wp_allocateSmallRankFirstLoop_distributed extraHash tokenIds hsize hR hready) hloop).1

/-- `AllocateSmallRankFirst` lists the blocks of the prompt rank by rank. -/
theorem wp_allocateSmallRankFirst_listed {device : DeviceType} (extraHash : HashValue)
    (tokenIds : List TokenId) {s : TableWorld HashValue A} {used : Finset Ptr}
    (hsize : 0 < s.table.blockSize) (hR : 0 < s.table.rankSize)
    (hready : Ready device s.table.rankSize s.table.blockSize s.world used) :
    wp (allocateSmallRankFirst tokenIds device extraHash)
      (fun _ t => t.table.rankSize = s.table.rankSize ∧
        ∃ ps, Distributed s.table.rankSize s.table.blockSize tokenIds ps t ∧
          ∀ r, t.table.blockObjs r = ps.filter fun p => (t.world.mem.obj p).rankIdx = r)
      (fun _ _ => True) s := by
  unfold allocateSmallRankFirst
  simp only [wp_bind, wp_get]
  refine (wp_ite _ _ _).mpr ⟨fun _ => trivial, fun _ => ?_⟩
  rw [wp_bind]
  refine wp_mono (wp_allocateSmallRankFirstLoop_distributed extraHash tokenIds hsize hR hready) ?_
    fun _ _ _ => trivial
  rintro ps s₁ ⟨hdistributed, hrankSize⟩
  rw [wp_bind]
  refine wp_mono (wp_update_returns ps) ?_ fun _ _ _ => trivial
  rintro _ s₂ ⟨-, rfl⟩
  -- the loop that is left counts tokens only
  refine wp_mono (wp_forM (I := fun _ t => t.table.rankSize = s.table.rankSize ∧
    Distributed s.table.rankSize s.table.blockSize tokenIds ps t ∧
      ∀ r, t.table.blockObjs r = ps.filter fun p => (t.world.mem.obj p).rankIdx = r) _ ps
    ⟨hrankSize, ?_, fun _ => rfl⟩ ?_) ?_ fun _ _ h => h
  · exact { hdistributed with currentSpRank := hdistributed.currentSpRank }
  · rintro p rest t ⟨hsame, hdistributed, hobjs⟩
    simp only [loadBlock, wp_bind, wp_zoom, worldLens_get, World.memLens_get, wp_load,
      World.memLens_put, worldLens_put, modifyTable, wp_modify]
    exact ⟨hsame, { hdistributed with currentSpRank := hdistributed.currentSpRank }, hobjs⟩
  · rintro _ t ⟨hsame, hdistributed, hobjs⟩
    exact ⟨hsame, ps, hdistributed, hobjs⟩

/-- **The blocks of a prompt.** If every rank has an id left for each of its blocks, then the blocks
of a prompt are allocated, and they are spread over the ranks. -/
theorem allocateSmallRankFirst_distributed {device : DeviceType} (extraHash : HashValue)
    (tokenIds : List TokenId) {s : TableWorld HashValue A} {used : Finset Ptr}
    (hsize : 0 < s.table.blockSize) (hR : 0 < s.table.rankSize)
    (hready : Ready device s.table.rankSize s.table.blockSize s.world used)
    (hfree : ∀ r < s.table.rankSize,
      (onRank s.table.rankSize (ceilDiv tokenIds.length s.table.blockSize) r).length ≤
        numFree device s.world r) :
    ∃ ps s', allocateSmallRankFirstLoop device extraHash tokenIds.length tokenIds 0 0 none s =
        .ok ps s' ∧
      Distributed s.table.rankSize s.table.blockSize tokenIds ps s' := by
  refine exists_ok (wp_mono (wp_allocateSmallRankFirstLoop_distributed extraHash tokenIds hsize hR
    hready) (fun _ _ h => h.1) fun _ _ hshort => ?_)
  obtain ⟨r, hlt⟩ := hshort
  rw [smallRankFirst_eq hsize, List.filter_map, List.length_map] at hlt
  change numFree device s.world r <
    (onRank s.table.rankSize (ceilDiv tokenIds.length s.table.blockSize) r).length at hlt
  rcases Nat.lt_or_ge r s.table.rankSize with hr | hr
  · exact Nat.not_lt.mpr (hfree r hr) hlt
  · rw [onRank_of_le hR hr] at hlt
    exact Nat.not_lt_zero _ hlt

/-- Two blocks of two tokens on each of two ranks. -/
def twoRanks : AllocatorConfig where
  numCpuBlocks := 0
  numNpuBlocks := 2
  blockSize := 2
  rankSize := 2

/-- Five tokens in three blocks on two ranks. -/
theorem allocateSmallRankFirst_distributed_five :
    ∃ t w, BlockTable.new 2 2 = .ok t ∧
      (CpuNpuBlockAllocator.new twoRanks :
        Except Exn (World UInt64 (CpuNpuBlockAllocator (PrefixCacheBlockAllocator UInt64)))) =
          .ok w ∧
      ∃ ps s', allocateSmallRankFirstLoop .npu 7 5 [1, 2, 3, 4, 5] 0 0 none ⟨t, w⟩ = .ok ps s' ∧
        Distributed 2 2 [1, 2, 3, 4, 5] ps s' := by
  refine ⟨_, _, rfl, rfl, allocateSmallRankFirst_distributed 7 [1, 2, 3, 4, 5] (by decide)
    (by decide) (Ready.new twoRanks rfl Nat.two_pos) fun r hr => ?_⟩
  change r < 2 at hr
  interval_cases r
  · decide
  · decide

end Distributed

end BlockTable

end MindieLLM
